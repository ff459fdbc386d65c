/-
Head collection (`src/live/head.rs`): resolve the ancestry of the head by parent roots, then
process the slots of the collection range newest first, keeping a failed slot for retry.
-/
import BeaconIndexer.Scanner.LiveSlot
import BeaconIndexer.Scanner.Epoch

namespace BeaconIndexer

open Effects Relational

variable (spec : ChainSpec)

/-! ## The resolved chain -/

/-- The blocks of a parent walk with their roots, by slot. A missing slot in its range is proven
empty by an actual parent link. -/
structure ResolvedChain where
  entries : Table Nat (Root × SignedBeaconBlock)

namespace ResolvedChain

variable (chain : ResolvedChain)

def blocks : Table Nat SignedBeaconBlock := chain.entries.mapVal Prod.snd

def roots : Table Nat Root := chain.entries.mapVal Prod.fst

def insert (slot : Nat) (root : Root) (block : SignedBeaconBlock) : ResolvedChain :=
  ⟨chain.entries.put slot (root, block)⟩

/-- `resolved.blocks.keys().min()`. -/
def minSlot : Option Nat := (chain.entries.rows.map Prod.fst).min?

end ResolvedChain

/-- `BLOCK_FETCH_RETRIES` attempts to fetch a named block. -/
def fetchByRoot (root : Root) : (attempts : Nat) → Task SignedBeaconBlock
  | 0 => throw (.inconsistentBeaconData s!"Named block {root.asStr} unavailable; ancestry remains unresolved")
  | attempts + 1 => do
    match ← getBlockByRoot root with
    | some block => pure block
    | none => fetchByRoot root attempts

def blockFetchRetries : Nat := 3

/-- Walk to parents until a slot at or before `scanStart`. A parent's slot precedes its child's,
so `child` steps are enough. -/
def resolveParents (scanStart : Nat) : (fuel : Nat) → (child : Nat) → Root → ResolvedChain → Task ResolvedChain
  | 0, _, root, _ => do
    let _ ← fetchByRoot root blockFetchRetries
    throw (.inconsistentBeaconData "Parent slot does not precede child")
  | fuel + 1, child, root, chain => do
    let block ← fetchByRoot root blockFetchRetries
    if child ≤ block.slot then throw (.inconsistentBeaconData "Parent slot does not precede child")
    let chain := chain.insert block.slot root block
    if block.slot ≤ scanStart then return chain
    resolveParents scanStart fuel block.slot block.parentRoot chain

def resolveChain (headSlot : Nat) (headRoot : Root) (scanStart : Nat) : Task ResolvedChain := do
  let block ← fetchByRoot headRoot blockFetchRetries
  if block.slot ≠ headSlot then throw (.inconsistentBeaconData "Head root and slot disagree")
  let chain := ResolvedChain.insert ⟨.empty⟩ block.slot headRoot block
  if block.slot ≤ scanStart then return chain
  resolveParents scanStart block.slot block.slot block.parentRoot chain

/-! ## Assignments -/

structure EpochDuties where
  complete : Bool
  /-- slot to the tracked validator scheduled to propose -/
  proposerBySlot : Table Nat Nat
  /-- sync positions of the epoch's members; `none` where they were not fetched -/
  syncPositions : Option SyncPositions

/-- An unavailable input leaves the assignments incomplete; any other failure is passed on. -/
def orUnavailable {α : Type} (x : Task α) : Task (Option α) := do
  match ← attempt x with
  | .ok a => pure (some a)
  | .error error => if error.isUnavailableInput then pure none else throw error

/-- The assignments of one slot's epoch. The worker asks slot by slot, so the range of the source
is that one slot, and the genesis slot has no epoch to fetch. -/
def fetchEpochDuties (trackedIndices : List Nat) (slot : Nat) : Task EpochDuties := do
  if slot = 0 then return ⟨true, .empty, none⟩
  let epoch := spec.slotToEpoch slot
  let active ← statement (.activeValidatorsAt trackedIndices epoch)
  if active.isEmpty then return ⟨true, .empty, none⟩
  let seeded ← orUnavailable (seedLiveAttestationDuties epoch active)
  let proposers ← orUnavailable (getProposerDuties spec epoch)
  let proposerBySlot := Table.ofList (((proposers.getD []).filter fun d => active.contains d.validatorIndex).map
    fun d => (d.slot, d.validatorIndex))
  if epoch < spec.altairForkEpoch then return ⟨seeded.isSome && proposers.isSome, proposerBySlot, none⟩
  let sync ← orUnavailable (getSyncDuties epoch active)
  return ⟨seeded.isSome && proposers.isSome && sync.isSome, proposerBySlot, sync.map fun duties =>
    Table.ofList (duties.map fun d => (d.validatorIndex, d.validatorSyncCommitteeIndices))⟩

/-! ## One slot -/

/-- The proposal of a slot whose proposer is tracked, and its reward job. -/
def collectProposal (slot : Nat) (entry : Option (Root × SignedBeaconBlock)) (proposer : Option Nat) : Task Unit := do
  let some proposer := proposer | return
  upsertLiveProposalInSlot slot proposer (entry.map Prod.snd)
  match entry with
  | some (root, _) =>
    statement (.enqueueJobs (spec.slotToEpoch slot) (some slot) .proposalRewards [proposer] (some root))
  | none => return

/-- The sync participation of a slot, and its reward jobs. -/
def collectSync (slot : Nat) (entry : Option (Root × SignedBeaconBlock)) (positions : Option SyncPositions) :
    Task Unit := do
  let some positions := positions | return
  upsertLiveSyncInSlot spec slot (entry.map Prod.snd) positions
  match entry with
  | some (root, block) =>
    if block.syncAggregate.isSome then
      statement (.enqueueJobs (spec.slotToEpoch slot) (some slot) .syncRewards (positions.rows.map Prod.fst) (some root))
  | none => return

def processSlot (slot : Nat) (trackedIndices active : List Nat) (duties : EpochDuties) (resolved : ResolvedChain) :
    Task Unit := do
  let entry := resolved.entries.get slot
  -- ancestry is saved before any outcome, so that a partial scan stays removable
  match entry with
  | some (root, block) => statement (.recordBlock slot root block.parentRoot)
  | none => pure ()
  collectProposal spec slot entry (duties.proposerBySlot.get slot)
  collectSync spec slot entry duties.syncPositions
  match entry with
  | some (_, block) =>
    if !active.isEmpty then scanLiveAttestationsInSlot spec active block resolved.roots false
  | none => pure ()
  if !duties.complete then
    throw (.beaconDataUnavailable "Assignments incomplete; retaining slot coverage gap")
  statement (.recordCoverage trackedIndices slot)

/-! ## A collection pass -/

/-- The slots to process: new ones and missing ones, newest first, at most 32. -/
def slotsToProcess (start target : Nat) (missing : List Nat) : List Nat :=
  ((((List.range' start (target + 1 - start) ++ missing).dedup).insertionSort (· ≤ ·)).reverse).take 32

/-- What a pass knows of one epoch: its assignments, if they could be fetched, and the validators
active in it or in the epoch before. -/
abbrev EpochInputs := Table Nat (Option EpochDuties × List Nat)

/-- Fetch the inputs of a slot's epoch unless an earlier slot already did. -/
def loadEpoch (indices : List Nat) (acc : EpochInputs × Option Error) (slot : Nat) :
    Task (EpochInputs × Option Error) := do
  let epoch := spec.slotToEpoch slot
  if acc.1.has epoch then return acc
  let duties ← attempt (fetchEpochDuties spec indices slot)
  let active ← statement (.activeValidatorsAt indices epoch)
  let previous ← if 0 < epoch then statement (.activeValidatorsAt indices (epoch - 1)) else pure []
  let active := (active ++ previous).dedup
  match duties with
  | .ok duties => return (acc.1.put epoch (some duties, active), acc.2)
  | .error error => return (acc.1.put epoch (none, active), some (Error.note acc.2 error))

/-- Process one slot with its epoch's inputs; success moves the cursor, failure is noted. -/
def collectSlot (indices : List Nat) (inputs : EpochInputs) (resolved : ResolvedChain)
    (acc : Option Nat × Option Error) (slot : Nat) : Task (Option Nat × Option Error) := do
  match inputs.get (spec.slotToEpoch slot) with
  | some (some duties, active) =>
    match ← attempt (processSlot spec slot indices active duties resolved) with
    | .ok () => return (some ((acc.1.map fun last => max last slot).getD slot), acc.2)
    | .error error => return (acc.1, some (Error.note acc.2 error))
  | _ => return acc

/-- The new cursor and the error to report after independent work has run. -/
def processHeadScan (indices : List Nat) (lastScannedSlot : Option Nat) (resolved : ResolvedChain)
    (floor target : Nat) : Task (Option Nat × Option Error) := do
  let start := (lastScannedSlot.map (· + 1)).getD 0
  let resolvedStart := max (resolved.minSlot.getD start) floor
  let missing ← statement (.missingCoverageSlots indices resolvedStart target 12)
  let slots := slotsToProcess start target missing
  let (inputs, firstError) ← slots.foldlM (loadEpoch spec indices) (Table.empty, none)
  slots.foldlM (collectSlot spec indices inputs resolved) (lastScannedSlot, firstError)

end BeaconIndexer
