/-
The live worker (`src/live/mod.rs`, `src/live/reorg.rs`): one reconcile pass resolves the head,
rolls back where stored roots disagree with it, and otherwise collects, fetches rewards and
finalizes. The cursor outlives a failed pass.
-/
import BeaconIndexer.Live.Finalization

namespace BeaconIndexer

open Effects Relational

/-- The live settings the configuration accepts. -/
structure LiveConfig (spec : ChainSpec) where
  lagSlots : Nat
  retryWindowEpochs : Nat
  retryWindow_ge : 2 ≤ retryWindowEpochs
  lag_lt : lagSlots < spec.epochStartSlot retryWindowEpochs

abbrev Cursor := Option Nat

abbrev Pass (α : Type) := Session indexer Error Cursor α

def run {α : Type} (x : Task α) : Pass α := Session.lift x

variable (spec : ChainSpec)

/-! ## Rollback -/

def reorgReplayStart (revertFrom : Nat) : Nat := spec.epochStartSlot (spec.slotToEpoch revertFrom - 1)

/-- Invalidate the orphaned suffix and preceding epoch inclusion dependencies. -/
def rollback (firstChangedSlot : Nat) : Pass Unit := do
  let replayFrom := reorgReplayStart spec firstChangedSlot
  run (statement (.invalidateFrom replayFrom))
  Session.store (if replayFrom = 0 then none else some (replayFrom - 1))

/-! ## Windows -/

/-- The first slot of the retry window. -/
def windowFloor (headSlot windowEpochs : Nat) : Nat := spec.epochStartSlot (spec.slotToEpoch headSlot - windowEpochs)

def collectionStart (headSlot : Nat) (cursor : Cursor) (windowEpochs : Nat) : Nat :=
  match cursor with
  | none => spec.epochStartSlot (spec.slotToEpoch headSlot)
  | some slot => max (slot + 1) (windowFloor spec headSlot windowEpochs)

/-- Attestation rewards for E need the end-of-E+1 state, settled like imported slots. -/
def latestRewardEpoch (headSlot settlingSlots : Nat) : Option Nat :=
  if settlingSlots ≤ headSlot ∧ 2 ≤ spec.slotToEpoch (headSlot - settlingSlots) then
    some (spec.slotToEpoch (headSlot - settlingSlots) - 2)
  else none

/-! ## Reward jobs -/

def canonicalRoot (slot : Nat) (root : Root) : Task Bool := do
  let response ← getHeader (.slot slot)
  return response.executionOptimistic ≠ some true ∧ response.data.canonical ∧ response.data.root = root

def collectAttestationJob (job : LiveJob) (resolved : ResolvedChain) : Task Unit := do
  let boundary := spec.epochStartSlot (job.epoch + 2) - 1
  let some (slot, root) := rootBefore resolved.roots boundary
    | throw (.inconsistentBeaconData "Reward boundary ancestry not resolved")
  if !(← canonicalRoot slot root) then throw (.inconsistentBeaconData "Reward boundary changed")
  let before ← getStateRoot boundary
  let response ← fetchLiveAttestationRewards job.epoch job.validators
  let after ← getStateRoot boundary
  let changed := before.data ≠ after.data ∨ before.executionOptimistic = some true
    ∨ after.executionOptimistic = some true ∨ response.executionOptimistic = some true
  if changed then throw (.inconsistentBeaconData "Attestation reward state changed or optimistic")
  if !(← canonicalRoot slot root) then
    throw (.inconsistentBeaconData "Attestation reward state changed or optimistic")
  statement (.completeJob job (.attestation response.data) root)
  persistLiveAttestationRewards job.epoch response.data

def collectProposalJob (job : LiveJob) (slot : Nat) (root : Root) (block : SignedBeaconBlock) : Task Unit := do
  let response ← fetchLiveProposalRewards root block
  if response.executionOptimistic = some true then
    throw (.inconsistentBeaconData "Proposal reward dependency changed or optimistic")
  if !(← canonicalRoot slot root) then
    throw (.inconsistentBeaconData "Proposal reward dependency changed or optimistic")
  statement (.completeJob job (.proposal response.data) root)
  persistLiveProposalRewards slot response.data

def collectSyncJob (job : LiveJob) (slot : Nat) (root : Root) : Task Unit := do
  let response ← fetchLiveSyncRewards root job.validators
  if response.executionOptimistic = some true then
    throw (.inconsistentBeaconData "Sync reward dependency changed or optimistic")
  if !(← canonicalRoot slot root) then
    throw (.inconsistentBeaconData "Sync reward dependency changed or optimistic")
  statement (.completeJob job (.sync response.data) root)
  statement (.persistLiveSyncRewards slot response.data)

/-- The root and slot a block reward job depends on, while they are canonical. -/
def blockJobDependency (job : LiveJob) : Task (Nat × Root × SignedBeaconBlock) := do
  let some root := job.root | throw (.inconsistentBeaconData "Block reward job has no root")
  let some slot := job.slot | throw (.inconsistentBeaconData "Block reward job has no slot")
  if !(← canonicalRoot slot root) then throw (.inconsistentBeaconData "Block reward dependency orphaned")
  let some block ← getBlockByRoot root | throw (.inconsistentBeaconData "Reward block unavailable")
  return (slot, root, block)

def collectJob (job : LiveJob) (resolved : ResolvedChain) : Task Unit :=
  match job.component with
  | .attestationRewards => collectAttestationJob spec job resolved
  | .proposalRewards => do
    let (slot, root, block) ← blockJobDependency job
    collectProposalJob job slot root block
  | .syncRewards => do
    let (slot, root, _) ← blockJobDependency job
    collectSyncJob job slot root

/-- The text a failed job keeps. -/
def Error.message : Error → String
  | .http m => "HTTP request failed: " ++ m
  | .beaconApi status m => s!"Beacon API error: {status} - " ++ m
  | .json m => "JSON error: " ++ m
  | .database m => "Database error: " ++ m
  | .beaconDataUnavailable m => "Beacon data unavailable: " ++ m
  | .inconsistentBeaconData m => "Inconsistent beacon data: " ++ m

def runJob (resolved : ResolvedChain) (job : LiveJob) : Task Unit := do
  match ← attempt (collectJob spec job resolved) with
  | .ok () => return
  | .error error => statement (.failJob job error.message)

/-- Queue the attestation rewards of one epoch for the validators live tracking owes it. -/
def enqueueRewardEpoch (indices : List Nat) (rewardEpoch : Nat) : Task Unit := do
  let active ← statement (.activeValidatorsAt indices rewardEpoch)
  let active ← statement (.eligibleForLiveEpoch active rewardEpoch)
  statement (.enqueueJobs rewardEpoch none .attestationRewards active none)

/-! ## The pass -/

/-- How a pass ended. -/
inductive Outcome where
  /-- stored evidence was rolled back; the next pass resolves again -/
  | rolledBack
  /-- the pass ran to its end; the collection error is reported last -/
  | collected (scan : Option Error)
  deriving DecidableEq

/-- What `processHeadScan` leaves: a failure of the scan itself keeps the cursor. -/
def scanOutcome (cursor : Cursor) : Except Error (Cursor × Option Error) → Cursor × Option Error
  | .ok r => r
  | .error error => (cursor, some error)

/-- An outage beyond the retry window: check the old branch, then start a recent range. -/
def leaveOldRange (floor : Nat) : Pass Unit := do
  let cursor ← Session.load
  if cursor.any (· < floor) then
    let old ← run (statement (.recentBlocks 0))
    match old.getLast?, old.head? with
    | some (_, tip, _), some (first, _, _) =>
      match ← run (attempt (getHeader (.root tip))) with
      | .error _ => rollback spec first
      | .ok _ => pure ()
    | _, _ => pure ()
    Session.store none

/-- Fetch current assignments before their state can disappear; a failure is only logged. -/
def prefetchDuties (epoch : Nat) (tracked : List Nat) : Task Unit := do
  let _ ← attempt (do
    let _ ← getAttesterDuties epoch tracked
    let _ ← getCommittees epoch
    let _ ← getProposerDuties spec epoch
    let _ ← getSyncDuties epoch tracked)

/-- Rewards, finality and pruning after a collection that stayed on its branch. -/
def settle (cfg : LiveConfig spec) (tracked : List Nat) (head : HeaderData) (resolved : ResolvedChain) : Task Unit := do
  let minEpoch := spec.slotToEpoch head.slot - cfg.retryWindowEpochs
  match latestRewardEpoch spec head.slot cfg.lagSlots with
  | some latest => each (enqueueRewardEpoch tracked) (List.range' minEpoch (latest + 1 - minEpoch))
  | none => pure ()
  statement (.expireJobs minEpoch)
  let jobs ← statement (.pendingJobs minEpoch 12)
  each (runJob spec resolved) jobs
  let finality ← getFinalityCheckpoints (.root head.stateRoot)
  if finality.executionOptimistic = some true then
    throw (.inconsistentBeaconData "Optimistic finality response")
  finalizeCollectedEvidence spec finality.data.finalized resolved
  let retainEpoch := min minEpoch (finality.data.finalized.epoch - 2)
  statement (.pruneCompletedEvidence retainEpoch)
  request (.pruneInputsBefore retainEpoch)
  statement .reportProgress

/-- The stored slot a rollback starts from, if stored blocks disagree with the resolved chain. -/
def firstMismatch (stored : List (Nat × Root × Root)) (headSlot : Nat) (resolved : ResolvedChain) : Option Nat :=
  match stored.find? fun (slot, root, _) => decide (slot ≤ headSlot) && resolved.roots.get slot != some root with
  | some (changed, _, _) => some changed
  | none => if stored.any fun (slot, _, _) => decide (headSlot < slot) then some (headSlot + 1) else none

def reconcilePass (cfg : LiveConfig spec) (tracked : List Nat) : Pass Outcome := do
  let head ← run getHeadHeader
  let target := head.slot - cfg.lagSlots
  let epoch := spec.slotToEpoch head.slot
  run (statement (.registerTrackingStart tracked epoch))
  let floor := windowFloor spec head.slot cfg.retryWindowEpochs
  leaveOldRange spec floor
  let stored ← run (statement (.recentBlocks floor))
  let cursor ← Session.load
  let start := collectionStart spec head.slot cursor cfg.retryWindowEpochs
  let walkStart := match stored.head? with
    | some (slot, _, _) => min start slot
    | none => start
  -- keep the previous epoch's boundary and predecessor root for vote comparisons
  let walkStart := spec.epochStartSlot (spec.slotToEpoch walkStart - 1)
  let resolved ← run (resolveChain head.slot head.root (min walkStart target))
  match firstMismatch stored head.slot resolved with
  | some changed =>
    rollback spec changed
    return .rolledBack
  | none =>
    if cursor.all fun last => decide (last + 1 < start) then
      Session.store (if start = 0 then none else some (start - 1))
    let cursor ← Session.load
    run (prefetchDuties spec epoch tracked)
    let scan ← run (attempt (processHeadScan spec tracked cursor resolved floor target))
    let (cursor, scanError) := scanOutcome cursor scan
    Session.store cursor
    -- a branch switch during collection invalidates everything written in this attempt
    if !(← run (canonicalRoot head.slot head.root)) then
      rollback spec walkStart
      return .rolledBack
    run (settle spec cfg tracked head resolved)
    return .collected scanError

/-- The source's `reconcile`: collection failures are reported after independent work has run. -/
def reconcile (cfg : LiveConfig spec) (tracked : List Nat) : Pass Unit := do
  match ← reconcilePass spec cfg tracked with
  | .collected (some error) => throw error
  | _ => return

/-- The cursor a starting worker resumes from. -/
def resume (tracked : List Nat) : Task Cursor := statement (.processedTip tracked)

end BeaconIndexer
