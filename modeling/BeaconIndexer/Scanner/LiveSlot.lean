/-
Live attestation collection (`src/scanner/attestations/mod.rs`): the inclusions one block carries,
written without rewards, and repaired in place once the block's ancestry is finalized.
-/
import BeaconIndexer.Scanner.Dense

namespace BeaconIndexer

open Effects Relational

variable (spec : ChainSpec)

/-- The entry with the highest slot. -/
def maxBySlot {α : Type} : List (Nat × α) → Option (Nat × α)
  | [] => none
  | x :: rest => match maxBySlot rest with
    | some y => if x.1 ≤ y.1 then some y else some x
    | none => some x

/-- The last root at or before a slot. -/
def rootBefore (roots : Table Nat Root) (slot : Nat) : Option (Nat × Root) :=
  maxBySlot (roots.rows.filter fun (s, _) => decide (s ≤ slot))

/-- Carry roots forward across the skipped slots of `n` slots from `slot` on. -/
def carryRoots (roots : Table Nat Root) : (n slot : Nat) → (previous : Root) → Table Nat Root → Table Nat Root
  | 0, _, _, acc => acc
  | n + 1, slot, previous, acc =>
    let root := (roots.get slot).getD previous
    carryRoots roots n (slot + 1) root (acc.put slot root)

def liveVoteContext (epoch inclusionSlot : Nat) (roots : Table Nat Root) : Except Error VoteContext :=
  let start := spec.epochStartSlot epoch
  match rootBefore roots start with
  | none => .error (.inconsistentBeaconData s!"Resolved ancestry does not cover attestation epoch {epoch}")
  | some (_, targetRoot) =>
    let stop := min inclusionSlot (spec.epochStartSlot (epoch + 1))
    .ok ⟨carryRoots roots (stop - start) start targetRoot .empty, targetRoot, epoch, none⟩

/-- The slots after the duty, up to the inclusion, that have a block. -/
def liveEffectiveDelay (roots : Table Nat Root) (dutySlot inclusionSlot : Nat) : Nat :=
  ((List.range' (dutySlot + 1) (inclusionSlot - dutySlot)).filter roots.has).length

/-- The row a live inclusion writes; rewards come from their own jobs. -/
def liveRow (duty : AttesterDuty) (inc : AttestationInclusion) (effectiveDelay : Nat) : AttestationWrite where
  assignedSlot := duty.slot
  committeeIndex := duty.committeeIndex
  committeePosition := duty.validatorCommitteeIndex
  included := true
  inclusionSlot := some inc.inclusionSlot
  inclusionDelay := some inc.inclusionDelay
  effectiveInclusionDelay := some effectiveDelay
  sourceCorrect := some inc.sourceCorrect
  targetCorrect := some inc.targetCorrect
  headCorrect := some inc.headCorrect
  sourceReward := none
  targetReward := none
  headReward := none
  inactivityPenalty := none
  finalized := false

def inclusionDetails (inc : AttestationInclusion) (effectiveDelay : Nat) : InclusionDetails where
  slot := inc.inclusionSlot
  delay := inc.inclusionDelay
  effectiveDelay := effectiveDelay
  sourceCorrect := inc.sourceCorrect
  targetCorrect := inc.targetCorrect
  headCorrect := inc.headCorrect

/-- Write one observed inclusion. -/
def writeLiveInclusion (epoch minAttSlot maxAttSlot : Nat) (roots : Table Nat Root) (finalized : Bool)
    (duties : Table Nat AttesterDuty) (validatorIndex : Nat) (inc : AttestationInclusion) : Task Unit := do
  let some duty := duties.get validatorIndex
    | throw (.inconsistentBeaconData
        s!"missing duty for observed validator {validatorIndex} in epoch {epoch}")
  if duty.slot < minAttSlot ∨ maxAttSlot < duty.slot then
    throw (.inconsistentBeaconData s!"duty outside inclusion window for validator {validatorIndex}")
  let effectiveDelay := liveEffectiveDelay roots duty.slot inc.inclusionSlot
  statement (.upsertAttestationDuty validatorIndex epoch (liveRow duty inc effectiveDelay))
  if finalized then
    statement (.repairFinalizedInclusion validatorIndex epoch (inclusionDetails inc effectiveDelay))

def scanLiveAttestationEpoch (scanValidators : List Nat) (block : SignedBeaconBlock) (roots : Table Nat Root)
    (finalized : Bool) (epoch : Nat) : Task Unit := do
  let inclusionSlot := block.slot
  let minAttSlot := spec.epochStartSlot (spec.slotToEpoch inclusionSlot - 1)
  let maxAttSlot := inclusionSlot - 1
  let committees ← getCommittees epoch
  let committeeMap := buildCommitteeMap committees
  let voteContext ← ofExcept (liveVoteContext spec epoch inclusionSlot roots)
  let inclusions ← ofExcept (decodeInclusions spec block inclusionSlot epoch committeeMap scanValidators
    (some voteContext) .empty)
  if inclusions.rows.isEmpty then return
  let duties ← getAttesterDuties epoch scanValidators
  let dutiesMap := Table.ofList (duties.map fun d => (d.validatorIndex, d))
  each (fun (r : Nat × AttestationInclusion) =>
    writeLiveInclusion epoch minAttSlot maxAttSlot roots finalized dutiesMap r.1 r.2) inclusions.rows

/-- The epochs whose attestations a block at `inclusionSlot` may carry, ascending. -/
def candidateEpochs (block : SignedBeaconBlock) : List Nat :=
  let inclusionSlot := block.slot
  let minAttSlot := spec.epochStartSlot (spec.slotToEpoch inclusionSlot - 1)
  let maxAttSlot := inclusionSlot - 1
  (((block.attestationSlots.filter fun slot => decide (minAttSlot ≤ slot) && decide (slot ≤ maxAttSlot)).map
    spec.slotToEpoch).dedup).insertionSort (· ≤ ·)

/-- Old committee history must not prevent collecting this block's newer attestations. -/
def scanLiveAttestationsInSlot (scanValidators : List Nat) (block : SignedBeaconBlock) (roots : Table Nat Root)
    (finalized : Bool) : Task Unit := do
  if scanValidators.isEmpty then return
  if block.slot = 0 then return
  let firstError ← (candidateEpochs spec block).foldlM (fun (firstError : Option Error) epoch => do
    match ← attempt (scanLiveAttestationEpoch spec scanValidators block roots finalized epoch) with
    | .ok () => pure firstError
    | .error error => pure (some (Error.note firstError error))) none
  match firstError with
  | some error => throw error
  | none => return

end BeaconIndexer
