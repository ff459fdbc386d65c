/-
The promotion transaction and the repair query of `src/live/finalization.rs`: one definition for
each statement of `promote_collected`, run in order in one transaction.
-/
import BeaconIndexer.Db.Live

namespace BeaconIndexer

open Relational

/-- The arguments of `promote_collected`. -/
structure Promotion where
  validators : List Nat
  completionTarget : Nat
  finalizedEpoch : Nat
  floor : Nat
  roots : List Root

/-- A successful job whose dependency is on the confirmed branch. -/
def JobRow.confirmed (roots : List Root) (row : JobRow) : Bool :=
  row.status == .complete && row.dependency.any roots.contains

namespace Db

variable (spec : ChainSpec) (p : Promotion) (db : Db)

/-- The block a slot's evidence was recorded from is confirmed. -/
def blockConfirmed (slot : Option Nat) : Bool :=
  slot.any fun s => (db.storedRoot s).any p.roots.contains

/-- Every slot of the epoch and of the next one has coverage for the validator. -/
def fullyCovered (v e : Nat) : Bool :=
  (db.liveCoverage.select fun (v', s) _ => v' == v && decide (e * spec.slotsPerEpoch ≤ s)
    && decide (s < (e + 2) * spec.slotsPerEpoch)).length == 2 * spec.slotsPerEpoch

/-! ## Staged rewards -/

/-- The staged attestation reward that is joined to a row. -/
def stagedAttestationReward (v e : Nat) : Option ValidatorAttestationReward :=
  db.liveJobs.rows.findSome? fun (j, row) =>
    if j.component == .attestationRewards && row.confirmed p.roots && p.validators.contains j.validator
        && decide (j.epoch ≤ p.completionTarget) && j.validator == v && j.epoch == e then
      match row.payload with
      | some (.attestation rewards) => rewards.find? (·.validatorIndex == v)
      | _ => none
    else none

def joinAttestationRewards : Db :=
  { db with
    attestationDuties := db.attestationDuties.modify fun (v, e) a => some <|
      match db.stagedAttestationReward p v e with
      | some r => if db.completed v e then a else a.withRewards (some r.source) (some r.target) (some r.head) r.inactivity
      | none => a }

def stagedProposalReward (slot : Nat) (proposer : Nat) : Option BlockRewards :=
  db.liveJobs.rows.findSome? fun (j, row) =>
    if j.component == .proposalRewards && row.confirmed p.roots && p.validators.contains j.validator
        && decide (j.epoch ≤ p.finalizedEpoch) && j.slot == some slot && j.validator == proposer
        && !db.completed proposer j.epoch then
      match row.payload with
      | some (.proposal rewards) => if rewards.proposerIndex == proposer then some rewards else none
      | _ => none
    else none

def joinProposalRewards : Db :=
  { db with
    blockProposals := db.blockProposals.modify fun s d => some <|
      match db.stagedProposalReward p s d.proposerIndex with
      | some r => { d with
          rewardTotal := some r.total
          rewardAttestations := some r.attestations
          rewardSync := some r.syncAggregate
          rewardSlashings := some (r.proposerSlashings + r.attesterSlashings) }
      | none => d }

def stagedSyncReward (v slot : Nat) : Option Int :=
  db.liveJobs.rows.findSome? fun (j, row) =>
    if j.component == .syncRewards && row.confirmed p.roots && p.validators.contains j.validator
        && decide (j.epoch ≤ p.finalizedEpoch) && j.slot == some slot && j.validator == v
        && !db.completed v j.epoch then
      match row.payload with
      | some (.sync rewards) => (rewards.find? (·.validatorIndex == v)).map (·.reward)
      | _ => none
    else none

def joinSyncRewards : Db :=
  { db with
    syncDuties := db.syncDuties.modify fun (v, s) d => some <|
      match db.stagedSyncReward p v s with
      | some r => { d with reward := some r }
      | none => d }

/-! ## Finality of outcomes -/

/-- An observed inclusion is final once its block is on finalized ancestry. -/
def confirmInclusions : Db :=
  { db with
    attestationDuties := db.attestationDuties.update
      (fun (v, _) a => p.validators.contains v && a.included && a.inclusionSlot.any (p.floor ≤ ·)
        && db.blockConfirmed p a.inclusionSlot)
      fun _ a => { a with inclusionKnown := true, finalized := true } }

/-- The window of the duty is proven on finalized ancestry. -/
def windowProven (v e : Nat) (a : AttestationRow) : Bool :=
  p.validators.contains v && decide (e ≤ p.completionTarget) && decide (p.floor ≤ e * spec.slotsPerEpoch)
    && db.fullyCovered spec v e && (!a.included || db.blockConfirmed p a.inclusionSlot)

def confirmKnown : Db :=
  { db with
    attestationDuties := db.attestationDuties.update (fun (v, e) a => db.windowProven spec p v e a)
      fun _ a => { a with inclusionKnown := true } }

def confirmOutcomes : Db :=
  { db with
    attestationDuties := db.attestationDuties.update
      (fun (v, e) a => db.windowProven spec p v e a && a.inclusionKnown) fun _ a => { a with finalized := true } }

/-- The slot conditions shared by proposal and sync rows: covered, inside the floor and before the
checkpoint, with the block confirmed if one was seen and absent if none was. -/
def slotProven (owner slot : Nat) (present : Bool) : Bool :=
  p.validators.contains owner && decide (spec.slotToEpoch slot < p.finalizedEpoch) && decide (p.floor ≤ slot)
    && db.covered owner slot
    && (if present then db.blockConfirmed p (some slot) else (db.storedRoot slot).isNone)

def confirmProposals : Db :=
  { db with
    blockProposals := db.blockProposals.update (fun s d => db.slotProven spec p d.proposerIndex s d.proposed)
      fun _ d => { d with finalized := true } }

def confirmSync : Db :=
  { db with
    syncDuties := db.syncDuties.update (fun (v, s) d => db.slotProven spec p v s (!d.missedBlock))
      fun _ d => { d with finalized := true } }

/-! ## Completion -/

def inEpoch (e s : Nat) : Bool := decide (e * spec.slotsPerEpoch ≤ s) && decide (s < (e + 1) * spec.slotsPerEpoch)

/-- Some job of the validator at the slot has staged this component on the confirmed branch. -/
def slotJobConfirmed (v s : Nat) (component : Component) : Bool :=
  db.liveJobs.any fun j row => j.validator == v && j.slot == some s && j.component == component && row.confirmed p.roots

def proposalReady (v s : Nat) (d : ProposalRow) : Bool :=
  d.rewardTotal.isSome && d.rewardAttestations.isSome && d.rewardSync.isSome && d.rewardSlashings.isSome
    && db.slotJobConfirmed p v s .proposalRewards

def syncReady (v s : Nat) (d : SyncRow) : Bool := d.reward.isSome && db.slotJobConfirmed p v s .syncRewards

/-- The `WHERE` of the `ready` query. -/
def isReady (v e : Nat) (a : AttestationRow) : Bool :=
  p.validators.contains v && decide (e ≤ p.completionTarget) && decide (p.floor ≤ e * spec.slotsPerEpoch)
    && a.inclusionKnown && (!a.included || !a.lacksDetails)
    && a.sourceReward.isSome && a.targetReward.isSome && a.headReward.isSome
    && db.fullyCovered spec v e
    && (db.liveJobs.any fun j row => j.validator == v && j.epoch == e && j.component == .attestationRewards
      && row.confirmed p.roots)
    && !(db.liveJobs.any fun j row => j.validator == v && j.epoch == e && !row.confirmed p.roots)
    && !(db.blockProposals.any fun s d => d.proposerIndex == v && inEpoch spec e s && d.proposed
      && !db.proposalReady p v s d)
    && !(db.syncDuties.any fun (v', s) d => v' == v && inEpoch spec e s && !d.missedBlock && !db.syncReady p v s d)
    && !db.completed v e

def ready : List (Nat × Nat) := (db.attestationDuties.select fun (v, e) a => db.isReady spec p v e a).map Prod.fst

/-- Freeze the rows of one ready pair and mark it complete. -/
def completePair (v e : Nat) : Db :=
  { db with
    attestationDuties := db.attestationDuties.update (fun k _ => k == (v, e)) fun _ a => { a with finalized := true }
    blockProposals := db.blockProposals.update (fun s d => d.proposerIndex == v && inEpoch spec e s)
      fun _ d => { d with finalized := true }
    syncDuties := db.syncDuties.update (fun (v', s) _ => v' == v && inEpoch spec e s)
      fun _ d => { d with finalized := true }
    completedScans := db.completedScans.insertNew (v, e) ()
    validators := db.validators.update (fun v' _ => v' == v)
      fun _ row => { row with lastScannedEpoch := some (max (row.lastScannedEpoch.getD e) e) } }

/-- The pairs that are finalized, live-tracked and active but not complete. -/
def incomplete : List (Nat × Nat) :=
  db.liveTrackingStart.rows.flatMap fun (v, started) =>
    match db.validators.get v with
    | some row => if p.validators.contains v then
        ((List.range (p.completionTarget + 1)).filter fun e =>
          decide (started ≤ e) && row.activeAt e && !db.completed v e).map (v, ·)
      else []
    | none => []

def recordGaps : Db :=
  { db with
    liveGaps := db.liveGaps.putAll (db.incomplete p) "finalized live collection incomplete" }

/-- The statements before the `ready` query. -/
def promoteEvidence : Db :=
  ((((((db.joinAttestationRewards p).joinProposalRewards p).joinSyncRewards p).confirmInclusions p).confirmKnown
    spec p).confirmOutcomes spec p).confirmProposals spec p |>.confirmSync spec p

def completeReady : Db :=
  (db.ready spec p).foldl (fun d k => d.completePair spec k.1 k.2) db

/-- The number of completed pairs and the database after the transaction. -/
def promoteCollected : Nat × Db :=
  let confirmed := db.promoteEvidence spec p
  ((confirmed.ready spec p).length, (confirmed.completeReady spec p).recordGaps p)

/-- Inclusion slots on confirmed blocks whose rows lack decoded details, newest first. -/
def repairSlots (roots : List Root) (minSlot : Nat) : List Nat :=
  (((db.attestationDuties.rows.filterMap fun (_, a) => match a.inclusionSlot with
    | some s => if a.included && (db.storedRoot s).any roots.contains && decide (minSlot ≤ s) && a.lacksDetails
        then some s else none
    | none => none).dedup).insertionSort (fun a b => b ≤ a)).take 4

end Db

end BeaconIndexer
