/-
Durable recent evidence and reward jobs (`src/db/scanner/live.rs`). `now` is the database clock
of the statement.
-/
import BeaconIndexer.Db.Duties

namespace BeaconIndexer

open Relational

/-- One selected group of reward jobs. -/
structure LiveJob where
  epoch : Nat
  slot : Option Nat
  component : Component
  validators : List Nat
  root : Option Root
  deriving DecidableEq

namespace Db

variable (spec : ChainSpec)

/-! ## Tracking -/

/-- Gaps and unfinished jobs before a validator's first live epoch are dropped, whoever tracks it. -/
def registerTrackingStart (validators : List Nat) (epoch : Nat) (db : Db) : Db :=
  let tracking := validators.foldl (fun t v => t.upsert v epoch fun old => some (min old epoch)) db.liveTrackingStart
  { db with
    liveTrackingStart := tracking
    liveJobs := db.liveJobs.deleteWhere fun j _ =>
      (tracking.get j.validator).any (j.epoch < ·) && !db.completed j.validator j.epoch
    liveGaps := db.liveGaps.deleteWhere fun (v, e) _ => (tracking.get v).any (e < ·) }

def eligibleForLiveEpoch (validators : List Nat) (epoch : Nat) (db : Db) : List Nat :=
  ((db.liveTrackingStart.select fun v started => validators.contains v && decide (started ≤ epoch)).map
    Prod.fst).insertionSort (· ≤ ·)

def trackedValidators (db : Db) : List Nat := (db.liveTrackingStart.rows.map Prod.fst).insertionSort (· ≤ ·)

/-! ## Blocks and coverage -/

def recordBlock (slot : Nat) (root parent : Root) (db : Db) : Db :=
  { db with liveBlocks := db.liveBlocks.put slot ⟨root, parent⟩ }

/-- `ORDER BY slot`. -/
def recentBlocks (minSlot : Nat) (db : Db) : List (Nat × Root × Root) :=
  ((db.liveBlocks.select fun s _ => decide (minSlot ≤ s)).map fun (s, b) => (s, b.root, b.parentRoot)).insertionSort
    fun a b => a.1 ≤ b.1

def recordCoverage (validators : List Nat) (slot : Nat) (db : Db) : Db :=
  { db with liveCoverage := db.liveCoverage.insertAll (validators.map (·, slot)) () }

/-- The highest covered slot of one validator. -/
def coverageTip (v : Nat) (db : Db) : Option Nat :=
  ((db.liveCoverage.rows.filter fun r => r.1.1 == v).map fun r => r.1.2).max?

/-- The lowest tip, once every validator has one. -/
def processedTip (validators : List Nat) (db : Db) : Option Nat :=
  let tips := validators.filterMap fun v => db.coverageTip v
  if tips.length = validators.length then tips.min? else none

/-- How many of the validators have coverage at a slot. -/
def coverageCount (validators : List Nat) (slot : Nat) (db : Db) : Nat :=
  (db.liveCoverage.select fun (v, s) _ => validators.contains v && s == slot).length

/-- Newest first, at most `limit`. -/
def missingCoverageSlots (validators : List Nat) (start stop limit : Nat) (db : Db) : List Nat :=
  let started := ((db.liveTrackingStart.select fun v _ => validators.contains v).map Prod.snd).min?
  let floor := match started with
    | some e => e * spec.slotsPerEpoch
    | none => start
  (((List.range (stop + 1)).filter fun s =>
    decide (start ≤ s) && decide (floor ≤ s) && decide (db.coverageCount validators s < validators.length)).reverse).take
      limit

/-- Called by the serialized worker before writing a replacement branch. -/
def invalidateFrom (replayFrom : Nat) (db : Db) : Db :=
  let epoch := spec.slotToEpoch replayFrom
  { db with
    liveBlocks := db.liveBlocks.deleteWhere fun s _ => decide (replayFrom ≤ s)
    liveCoverage := db.liveCoverage.deleteWhere fun (_, s) _ => decide (replayFrom ≤ s)
    blockProposals := db.blockProposals.deleteWhere fun s p => decide (replayFrom ≤ s) && !p.finalized
    syncDuties := db.syncDuties.deleteWhere fun (_, s) d => decide (replayFrom ≤ s) && !d.finalized
    attestationDuties := db.attestationDuties.deleteWhere fun (_, e) a => decide (epoch ≤ e) && !a.finalized
    liveJobs := db.liveJobs.deleteWhere fun j _ => decide (epoch ≤ j.epoch) && !db.completed j.validator j.epoch }

/-! ## Reward jobs -/

def enqueueJobs (now epoch : Nat) (slot : Option Nat) (component : Component) (validators : List Nat)
    (root : Option Root) (db : Db) : Db :=
  { db with
    liveJobs := db.liveJobs.insertAll (validators.map fun v => ⟨v, epoch, slot, component⟩)
      ⟨root, none, .pending, 0, now, none, none⟩ }

/-- `ORDER BY epoch DESC, slot DESC` over the grouped jobs, an epoch job being slot -1. -/
def jobOrder (a b : LiveJob) : Prop :=
  b.epoch < a.epoch ∨ (b.epoch = a.epoch ∧ (b.slot.map (· + 1)).getD 0 ≤ (a.slot.map (· + 1)).getD 0)

instance : DecidableRel jobOrder := fun _ _ => inferInstanceAs (Decidable (_ ∨ _))

def pendingJobs (now minEpoch limit : Nat) (db : Db) : List LiveJob :=
  let rows := db.liveJobs.select fun j row =>
    row.status == .pending && decide (row.nextAttempt ≤ now) && decide (minEpoch ≤ j.epoch)
  let groups := (rows.map fun (j, row) => (j.epoch, j.slot, j.component, row.root)).dedup
  let jobs := groups.map fun g => LiveJob.mk g.1 g.2.1 g.2.2.1
    (((rows.filter fun (j, row) => (j.epoch, j.slot, j.component, row.root) == g).map (·.1.validator)).insertionSort
      (· ≤ ·)) g.2.2.2
  (jobs.insertionSort jobOrder).take limit

/-- The job row belongs to the selected group. -/
def ofJob (job : LiveJob) (j : JobKey) : Bool :=
  j.epoch == job.epoch && j.slot == job.slot && j.component == job.component && job.validators.contains j.validator

/-- Payload and success are committed together. -/
def completeJob (job : LiveJob) (payload : Payload) (dependency : Root) (db : Db) : Db :=
  { db with
    liveJobs := db.liveJobs.update (fun j _ => ofJob job j) fun _ row =>
      { row with status := .complete, payload := some payload, dependency := some dependency, lastError := none } }

def failJob (now : Nat) (job : LiveJob) (error : String) (db : Db) : Db :=
  { db with
    liveJobs := db.liveJobs.update (fun j row => ofJob job j && row.status == .pending) fun _ row =>
      { row with
        attempts := row.attempts + 1
        lastError := some error
        nextAttempt := now + 12 * 2 ^ min row.attempts 4 } }

def expireJobs (minEpoch : Nat) (db : Db) : Db :=
  let expired : JobKey → JobRow → Bool := fun j row => decide (j.epoch < minEpoch) && row.status == .pending
  { db with
    liveGaps := db.liveGaps.putAll ((db.liveJobs.select expired).map fun r => (r.1.validator, r.1.epoch))
      "reward retry window expired"
    liveJobs := db.liveJobs.update expired fun _ row => { row with status := .needsBackfill } }

/-- One block before the retention floor stays as an anchor. -/
def pruneCompletedEvidence (retainEpoch : Nat) (db : Db) : Db :=
  let start := spec.epochStartSlot retainEpoch
  let anchor := ((db.liveBlocks.select fun s _ => decide (s < start)).map Prod.fst).max?
  { db with
    liveJobs := db.liveJobs.deleteWhere fun j _ => decide (j.epoch < retainEpoch) && db.completed j.validator j.epoch
    liveCoverage := db.liveCoverage.deleteWhere fun (_, s) _ => decide (s < start)
    liveBlocks := db.liveBlocks.deleteWhere fun s _ => anchor.any (s < ·) }

/-- The query of `src/db/api/live.rs`: a stored block is shown as present, and a slot that a tracked validator has
covered without one as skipped. -/
def fetchBlockPresence (tracked : List Nat) (start stop : Nat) (db : Db) : Table Nat Bool :=
  .ofList <|
    (db.liveBlocks.select fun s _ => decide (start ≤ s) && decide (s < stop)).map (fun (s, _) => (s, true)) ++
    ((db.liveCoverage.select fun (v, s) _ => tracked.contains v && decide (start ≤ s) && decide (s < stop)
      && !db.liveBlocks.has s).map fun ((_, s), _) => s).dedup.map (·, false)

end Db

end BeaconIndexer
