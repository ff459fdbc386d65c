/-
Dense attestation scan (`src/scanner/attestations/dense.rs`): fetch every block of the epoch and
of the one after it, decode all inclusions and write one row for each tracked duty.
-/
import BeaconIndexer.Beacon.Client
import BeaconIndexer.Scanner.InRange

namespace BeaconIndexer

open Effects Relational

/-- A decoding step inside a program. -/
def ofExcept {α : Type} : Except Error α → Task α
  | .ok a => pure a
  | .error e => throw e

/-- Missing duties or rewards must remain repairable, not become a completed scan. -/
def validateEpochResponse (tracked : List Nat) (duties : List AttesterDuty)
    (rewards : Table Nat ValidatorAttestationReward) : Except Error Unit :=
  match tracked.find? fun v => !(duties.map (·.validatorIndex)).contains v || !rewards.has v with
  | some validator => .error (.inconsistentBeaconData s!"missing attestation duty or reward for validator {validator}")
  | none => .ok ()

def rewardsMap (rewards : List ValidatorAttestationReward) : Table Nat ValidatorAttestationReward :=
  .ofList (rewards.map fun r => (r.validatorIndex, r))

variable (spec : ChainSpec)

/-- All requests are awaited; the first error in slot order is the result. -/
def fetchBlocksForSlots (slots : List Nat) : Task (List (Nat × Option SignedBeaconBlock)) :=
  collect (fun slot => do
    let block ← getBlockBySlot slot
    pure (slot, block)) slots

/-- The roots of the slots that have a block. -/
def fetchBlockRoots (blocks : List (Nat × Option SignedBeaconBlock)) : Task (List (Nat × Root)) :=
  collect (fun (b : Nat × Option SignedBeaconBlock) => do
    match ← getBlockRoot b.1 with
    | some root => pure (b.1, root)
    | none => throw (.inconsistentBeaconData s!"block present at slot {b.1} but /blocks/{b.1}/root returned 404"))
    (blocks.filter (·.2.isSome))

/-- The first root found in a list of slots. -/
def firstRoot : List Nat → Task (Option Root)
  | [] => pure none
  | priorSlot :: rest => do
    match ← getBlockRoot priorSlot with
    | some root => pure (some root)
    | none => firstRoot rest

/-- The slots of `[start, stop)`, newest first. -/
def slotsDown (start stop : Nat) : List Nat := (List.range' start (stop - start)).reverse

/-- Every slot from `start` on gets its own root or the last one before it. -/
def carryForward (startSlot : Nat) : (n : Nat) → (slot : Nat) → Option Root → Table Nat Root → Except Error (Table Nat Root)
  | 0, _, _, roots => .ok roots
  | n + 1, slot, lastKnownRoot, roots =>
    match roots.get slot with
    | some root => carryForward startSlot n (slot + 1) (some root) roots
    | none =>
      match lastKnownRoot with
      | some root => carryForward startSlot n (slot + 1) (some root) (roots.put slot root)
      | none => .error (.inconsistentBeaconData
          (s!"no canonical root available for slot {slot} (epoch starting at {startSlot}); "
            ++ "carry-forward search found nothing"))

/-- The canonical root at every slot of the epoch. -/
def buildBlockRootMap (startSlot : Nat) (blocks : List (Nat × Option SignedBeaconBlock)) : Task (Table Nat Root) := do
  let fetched ← fetchBlockRoots blocks
  let roots := Table.ofList fetched
  let lastKnownRoot ←
    if 0 < startSlot ∧ ¬ roots.has startSlot then firstRoot (slotsDown (startSlot - spec.slotsPerEpoch) startSlot)
    else pure none
  ofExcept (carryForward startSlot spec.slotsPerEpoch startSlot lastKnownRoot roots)

def buildVoteContext (epoch startSlot : Nat) (blocks : List (Nat × Option SignedBeaconBlock)) : Task VoteContext := do
  let blockRoots ← buildBlockRootMap spec startSlot blocks
  let some targetRoot := blockRoots.get startSlot
    | throw (.inconsistentBeaconData s!"target root missing for epoch-start slot {startSlot}")
  let checkpoints ← getFinalityCheckpoints (.slot startSlot)
  return ⟨blockRoots, targetRoot, epoch, some checkpoints.data.currentJustified⟩

/-- The row the dense scan writes for a duty. -/
def denseRow (finalized : Bool) (duty : AttesterDuty) (inclusion : Option AttestationInclusion)
    (reward : Option ValidatorAttestationReward) (missedSlots : List Nat) : AttestationWrite where
  assignedSlot := duty.slot
  committeeIndex := duty.committeeIndex
  committeePosition := duty.validatorCommitteeIndex
  included := inclusion.isSome
  inclusionSlot := inclusion.map (·.inclusionSlot)
  inclusionDelay := inclusion.map fun i => (i.inclusionDelay : Int)
  effectiveInclusionDelay := inclusion.map fun i =>
    (effectiveInclusionDelay duty.slot i.inclusionSlot i.inclusionDelay missedSlots : Int)
  sourceCorrect := inclusion.map (·.sourceCorrect)
  targetCorrect := inclusion.map (·.targetCorrect)
  headCorrect := inclusion.map (·.headCorrect)
  sourceReward := reward.map (·.source)
  targetReward := reward.map (·.target)
  headReward := reward.map (·.head)
  inactivityPenalty := reward.bind (·.inactivity)
  finalized := finalized

def writeDutyRows (epoch : Nat) (finalized : Bool) (scanValidators : List Nat) (attesterDuties : List AttesterDuty)
    (inclusions : Inclusions) (rewards : Table Nat ValidatorAttestationReward) (missedSlots : List Nat) : Task Unit :=
  each (fun (duty : AttesterDuty) =>
    statement (.upsertAttestationDuty duty.validatorIndex epoch
      (denseRow finalized duty (inclusions.get duty.validatorIndex) (rewards.get duty.validatorIndex) missedSlots)))
    (attesterDuties.filter fun duty => scanValidators.contains duty.validatorIndex)

def processEpochAttestationDuties (epoch : Nat) (scanValidators : List Nat) (finalized : Bool) : Task Unit := do
  let startSlot := spec.epochStartSlot epoch
  let allBlocks ← fetchBlocksForSlots (List.range' startSlot (spec.slotsPerEpoch * 2))
  let missedSlots := (allBlocks.filter (·.2.isNone)).map (·.1)
  let epochBlocks := allBlocks.take spec.slotsPerEpoch
  let committees ← getCommittees epoch
  let committeeMap := buildCommitteeMap committees
  let voteCtx ← buildVoteContext spec epoch startSlot epochBlocks
  -- decoded on another thread while duties and rewards are fetched; its error is looked at last
  let decoded := collectInclusionsFromBlocks spec allBlocks committeeMap scanValidators voteCtx
  let attesterDuties ← getAttesterDuties epoch scanValidators
  let attRewards ← getAttestationRewards epoch scanValidators
  let rewards := rewardsMap attRewards
  ofExcept (validateEpochResponse scanValidators attesterDuties rewards)
  let inclusions ← ofExcept decoded
  writeDutyRows epoch finalized scanValidators attesterDuties inclusions rewards missedSlots

end BeaconIndexer
