/-
The live page (`src/web/live_sse.rs`, `src/db/api/live.rs`): the duties of the previous and the current epoch
as the node schedules them, with the outcomes stored for them. The node is asked and the tables are
read one after the other, while the workers go on.
-/
import BeaconIndexer.Beacon.Client

namespace BeaconIndexer

open Effects Relational

/-! ## Queries -/

/-- `(assigned_slot, validator) -> (included, inclusion_known, inclusion_slot)`. -/
abbrev AttestationStatusMap := Table (Nat × Nat) (Bool × Bool × Option Nat)

/-- `(slot, validator) -> (participated, missed_block)`. -/
abbrev SyncStatusMap := Table (Nat × Nat) (Bool × Bool)

/-- `slot -> (proposer, proposed)`. -/
abbrev ProposalStatusMap := Table Nat (Nat × Bool)

namespace Db

variable (db : Db)

def fetchAttestationStatus (tracked : List Nat) (startEpoch currentEpoch : Nat) : AttestationStatusMap :=
  .ofList ((db.attestationDuties.select fun (v, e) _ =>
    tracked.contains v && decide (startEpoch ≤ e) && decide (e ≤ currentEpoch)).map fun ((v, _), a) =>
      ((a.assignedSlot, v), (a.included, a.inclusionKnown, a.inclusionSlot)))

def fetchSyncStatus (tracked : List Nat) (startSlot endSlot : Nat) : SyncStatusMap :=
  .ofList ((db.syncDuties.select fun (v, s) _ =>
    tracked.contains v && decide (startSlot ≤ s) && decide (s < endSlot)).map fun ((v, s), d) =>
      ((s, v), (d.participated, d.missedBlock)))

/-- The proposals of all validators, tracked or not. -/
def fetchProposalStatus (startSlot endSlot : Nat) : ProposalStatusMap :=
  .ofList ((db.blockProposals.select fun s _ => decide (startSlot ≤ s) && decide (s < endSlot)).map fun (s, d) =>
    (s, (d.proposerIndex, d.proposed)))

end Db

/-- The tables the page reads, besides the processed tip. -/
inductive PageQuery where
  | attestationStatus (tracked : List Nat) (startEpoch currentEpoch : Nat)
  | syncStatus (tracked : List Nat) (startSlot endSlot : Nat)
  | proposalStatus (startSlot endSlot : Nat)
  | blockPresence (tracked : List Nat) (startSlot endSlot : Nat)

namespace PageQuery

abbrev Answer : PageQuery → Type
  | attestationStatus .. => AttestationStatusMap
  | syncStatus .. => SyncStatusMap
  | proposalStatus .. => ProposalStatusMap
  | blockPresence .. => Table Nat Bool

def answer : (q : PageQuery) → Db → q.Answer
  | attestationStatus tracked start current, db => db.fetchAttestationStatus tracked start current
  | syncStatus tracked start stop, db => db.fetchSyncStatus tracked start stop
  | proposalStatus start stop, db => db.fetchProposalStatus start stop
  | blockPresence tracked start stop, db => db.fetchBlockPresence tracked start stop

end PageQuery

/-- What building the page waits for. -/
inductive PageEffect where
  | indexer (e : Effect)
  | query (q : PageQuery)

abbrev PageEffect.Result : PageEffect → Type
  | indexer e => e.Result
  | query q => Except Error q.Answer

abbrev pageSignature : Signature := ⟨PageEffect, PageEffect.Result⟩

abbrev PageTask (α : Type) := Async pageSignature Error α

/-- A call of the beacon client, or a statement of the scanner. -/
def viaIndexer {α : Type} (x : Task α) : PageTask α := ExceptT.mk (x.run.within PageEffect.indexer fun _ r => r)

def fetchStatus (q : PageQuery) : PageTask q.Answer := ask (S := pageSignature) (.query q) id

/-- The node may answer anything; the database answers from its rows, or fails. -/
def pageSem (spec : ChainSpec) {Past : Type} : Sem pageSignature (Db × Past)
  | .indexer e, s, r, s' => indexerSem spec (fun _ _ => True) e s.1 r s'.1 ∧ s'.2 = s.2
  | .query q, s, r, s' => s' = s ∧ (r = .ok (q.answer s.1) ∨ ∃ message, r = .error (.database message))

/-! ## The schedule -/

/-- Per-epoch duty schedule pulled from the beacon node. -/
structure Schedule where
  attesters : List AttesterDuty
  syncByEpoch : Table Nat (List SyncDuty)
  proposers : List ProposerDuty

variable (spec : ChainSpec)

/-- A client may repeat a head it saw less than two seconds ago. -/
def getHeadSlot : Task Nat := do
  let response ← request (.header .head)
  ensureNotOptimistic response
  return response.data.slot

def fetchEpochSchedule (tracked : List Nat) (schedule : Schedule) (epoch : Nat) : Task Schedule := do
  let attesters ← getAttesterDuties epoch tracked
  let syncByEpoch ← if spec.altairForkEpoch ≤ epoch then
      do
        let sync ← getSyncDuties epoch tracked
        pure (schedule.syncByEpoch.put epoch sync)
    else pure schedule.syncByEpoch
  let proposers ← getProposerDuties spec epoch
  return ⟨schedule.attesters ++ attesters, syncByEpoch,
    schedule.proposers ++ proposers.filter fun d => tracked.contains d.validatorIndex⟩

def fetchSchedule (tracked : List Nat) (previousEpoch : Option Nat) (currentEpoch : Nat) : Task Schedule :=
  (previousEpoch.toList ++ [currentEpoch]).foldlM (fetchEpochSchedule spec tracked) ⟨[], .empty, []⟩

namespace Schedule

variable (schedule : Schedule)

/-- Tracked validators in any sync committee of the window, ascending. -/
def syncCommittee : List Nat :=
  ((schedule.syncByEpoch.rows.flatMap fun r => r.2.map (·.validatorIndex)).dedup).insertionSort (· ≤ ·)

/-- `member_epochs[&vi].contains(&epoch)`. -/
def memberIn (validator epoch : Nat) : Bool :=
  (schedule.syncByEpoch.get epoch).any fun duties => duties.any fun d => d.validatorIndex == validator

end Schedule

/-! ## The page -/

structure AttestationOutcome where
  validatorIndex : Nat
  included : Option Bool
  inclusionSlot : Option Nat
  deriving DecidableEq

structure LiveSlot where
  slot : Nat
  block : Bool
  skipped : Bool
  /-- tracked validator scheduled to propose this slot -/
  proposer : Option Nat
  /-- outcome when `proposer` is set -/
  proposed : Option Bool
  attestations : List AttestationOutcome
  /-- aligned with `LiveUpdate.syncCommittee`; `none` is unknown, or not in the committee of the slot -/
  sync : List (Option Bool)
  deriving DecidableEq

structure LiveUpdate where
  epoch : Nat
  previousEpoch : Option Nat
  headSlot : Nat
  processedSlot : Option Nat
  slotsPerEpoch : Nat
  startSlot : Nat
  endSlot : Nat
  syncCommittee : List Nat
  slots : List LiveSlot
  deriving DecidableEq

/-- Passing time cannot prove coverage: only stored evidence establishes a miss. -/
def resolveIncluded : Option (Bool × Bool) → Option Bool
  | some (true, _) => some true
  | some (false, true) => some false
  | some (false, false) => none
  | none => none

/-- The stored outcomes the page shows. -/
structure Outcomes where
  attestationStatus : AttestationStatusMap
  syncStatus : SyncStatusMap
  proposalStatus : ProposalStatusMap
  blockPresent : Table Nat Bool

def Outcomes.attestation (o : Outcomes) (slot : Nat) (duty : AttesterDuty) : AttestationOutcome where
  validatorIndex := duty.validatorIndex
  included := resolveIncluded ((o.attestationStatus.get (slot, duty.validatorIndex)).map fun a => (a.1, a.2.1))
  inclusionSlot := (o.attestationStatus.get (slot, duty.validatorIndex)).bind (·.2.2)

/-- Outside the member's active period nothing is known. -/
def Outcomes.sync (o : Outcomes) (schedule : Schedule) (slot validator : Nat) : Option Bool :=
  if !schedule.memberIn validator (spec.slotToEpoch slot) then none
  else (o.syncStatus.get (slot, validator)).map Prod.fst

def liveSlot (schedule : Schedule) (o : Outcomes) (slot : Nat) : LiveSlot :=
  let duty := schedule.proposers.find? fun d => d.slot == slot
  { slot := slot
    block := (o.blockPresent.get slot).getD false
    skipped := o.blockPresent.get slot == some false
    proposer := duty.map (·.validatorIndex)
    proposed := duty.bind fun _ => (o.proposalStatus.get slot).map Prod.snd
    attestations := (schedule.attesters.filter fun d => d.slot == slot).map (o.attestation slot)
    sync := schedule.syncCommittee.map (o.sync spec schedule slot) }

def buildLiveUpdate (tracked : List Nat) : PageTask LiveUpdate := do
  let headSlot ← viaIndexer getHeadSlot
  let processedSlot ← viaIndexer (statement (.processedTip tracked))
  let currentEpoch := spec.slotToEpoch headSlot
  let previousEpoch := if 0 < currentEpoch then some (currentEpoch - 1) else none
  let startEpoch := previousEpoch.getD currentEpoch
  let startSlot := spec.epochStartSlot startEpoch
  let endSlot := spec.epochStartSlot currentEpoch + spec.slotsPerEpoch
  let schedule ← viaIndexer (fetchSchedule spec tracked previousEpoch currentEpoch)
  let attestationStatus ← fetchStatus (.attestationStatus tracked startEpoch currentEpoch)
  let syncStatus ← fetchStatus (.syncStatus tracked startSlot endSlot)
  let proposalStatus ← fetchStatus (.proposalStatus startSlot endSlot)
  let blockPresent ← fetchStatus (.blockPresence tracked startSlot endSlot)
  return {
    epoch := currentEpoch
    previousEpoch := previousEpoch
    headSlot := headSlot
    processedSlot := processedSlot
    slotsPerEpoch := spec.slotsPerEpoch
    startSlot := startSlot
    endSlot := endSlot
    syncCommittee := schedule.syncCommittee
    slots := (List.range' startSlot (endSlot - startSlot)).map
      (liveSlot spec schedule ⟨attestationStatus, syncStatus, proposalStatus, blockPresent⟩) }

end BeaconIndexer
