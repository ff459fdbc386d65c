/-
Attestation, proposal and sync duty writes and completion markers
(`src/db/scanner/{attestations,proposals,sync,completion,validators}.rs`, and
`persist_live_sync_rewards` of `src/scanner/sync_committee.rs`).
-/
import BeaconIndexer.Db.Schema

namespace BeaconIndexer

open Relational

/-- The values of one attestation upsert. -/
structure AttestationWrite where
  assignedSlot : Nat
  committeeIndex : Nat
  committeePosition : Nat
  included : Bool
  inclusionSlot : Option Nat
  inclusionDelay : Option Int
  effectiveInclusionDelay : Option Int
  sourceCorrect : Option Bool
  targetCorrect : Option Bool
  headCorrect : Option Bool
  sourceReward : Option Int
  targetReward : Option Int
  headReward : Option Int
  inactivityPenalty : Option Int
  finalized : Bool
  deriving DecidableEq

namespace AttestationWrite

/-- The row of a fresh insert; `inclusion_known` takes its default. -/
def toRow (w : AttestationWrite) : AttestationRow where
  assignedSlot := w.assignedSlot
  committeeIndex := w.committeeIndex
  committeePosition := w.committeePosition
  included := w.included
  inclusionSlot := w.inclusionSlot
  inclusionDelay := w.inclusionDelay
  effectiveInclusionDelay := w.effectiveInclusionDelay
  sourceCorrect := w.sourceCorrect
  targetCorrect := w.targetCorrect
  headCorrect := w.headCorrect
  sourceReward := w.sourceReward
  targetReward := w.targetReward
  headReward := w.headReward
  inactivityPenalty := w.inactivityPenalty
  finalized := w.finalized
  inclusionKnown := false

/-- The `SET` list of the upsert. -/
def merge (w : AttestationWrite) (old : AttestationRow) : AttestationRow where
  assignedSlot := w.assignedSlot
  committeeIndex := w.committeeIndex
  committeePosition := w.committeePosition
  included := w.included
  inclusionSlot := w.inclusionSlot
  inclusionDelay := w.inclusionDelay
  effectiveInclusionDelay := w.effectiveInclusionDelay
  sourceCorrect := coalesce w.sourceCorrect old.sourceCorrect
  targetCorrect := coalesce w.targetCorrect old.targetCorrect
  headCorrect := coalesce w.headCorrect old.headCorrect
  sourceReward := coalesce w.sourceReward old.sourceReward
  targetReward := coalesce w.targetReward old.targetReward
  headReward := coalesce w.headReward old.headReward
  inactivityPenalty := coalesce w.inactivityPenalty old.inactivityPenalty
  finalized := w.finalized
  inclusionKnown := old.inclusionKnown

/-- The `WHERE` of the upsert. -/
def replaces (w : AttestationWrite) (completed : Bool) (old : AttestationRow) : Bool :=
  -- a provisional row yields to finalized writes and to better inclusion data
  (!old.finalized && (w.finalized || old.inclusionSlot.isNone || sqlLt w.inclusionSlot old.inclusionSlot
    || (sqlEq w.inclusionSlot old.inclusionSlot && w.effectiveInclusionDelay.isSome)))
  -- an incomplete finalized scan can be repaired
  || (w.finalized && !completed)

end AttestationWrite

/-- `RewardTuple`: the reward columns of one (validator, epoch). -/
structure RewardTuple where
  validator : Nat
  epoch : Nat
  source : Option Int
  target : Option Int
  head : Option Int
  inactivity : Option Int

structure InclusionDetails where
  slot : Nat
  delay : Int
  effectiveDelay : Int
  sourceCorrect : Bool
  targetCorrect : Bool
  headCorrect : Bool

namespace AttestationRow

/-- The `SET` list that joins fetched rewards to a row. -/
def withRewards (a : AttestationRow) (source target head inactivity : Option Int) : AttestationRow :=
  { a with
    sourceReward := source
    targetReward := target
    headReward := head
    inactivityPenalty := inactivity
    sourceCorrect := coalesce a.sourceCorrect (ifPositive source)
    targetCorrect := coalesce a.targetCorrect (ifPositive target)
    headCorrect := coalesce a.headCorrect (ifPositive head) }

def withDetails (a : AttestationRow) (d : InclusionDetails) : AttestationRow :=
  { a with
    inclusionSlot := some d.slot
    inclusionDelay := some d.delay
    effectiveInclusionDelay := some d.effectiveDelay
    sourceCorrect := some d.sourceCorrect
    targetCorrect := some d.targetCorrect
    headCorrect := some d.headCorrect }

/-- A decoded vote field is missing. -/
def lacksDetails (a : AttestationRow) : Bool :=
  a.effectiveInclusionDelay.isNone || a.sourceCorrect.isNone || a.targetCorrect.isNone || a.headCorrect.isNone

/-- The `WHERE` of the detail repair. -/
def repairable (a : AttestationRow) (completed : Bool) (d : InclusionDetails) : Bool :=
  a.included && (a.inclusionSlot.any (d.slot ≤ ·))
    && (!completed || (sqlEq a.inclusionSlot (some d.slot) && a.lacksDetails))

end AttestationRow

/-- The values of one proposal upsert. -/
structure ProposalWrite where
  proposerIndex : Nat
  proposed : Bool
  rewardTotal : Option Int
  rewardAttestations : Option Int
  rewardSync : Option Int
  rewardSlashings : Option Int
  finalized : Bool
  deriving DecidableEq

def ProposalWrite.toRow (w : ProposalWrite) : ProposalRow :=
  ⟨w.proposerIndex, w.proposed, w.rewardTotal, w.rewardAttestations, w.rewardSync, w.rewardSlashings, w.finalized⟩

def ProposalWrite.merge (w : ProposalWrite) (old : ProposalRow) : ProposalRow where
  proposerIndex := w.proposerIndex
  proposed := w.proposed
  rewardTotal := coalesce w.rewardTotal old.rewardTotal
  rewardAttestations := coalesce w.rewardAttestations old.rewardAttestations
  rewardSync := coalesce w.rewardSync old.rewardSync
  rewardSlashings := coalesce w.rewardSlashings old.rewardSlashings
  finalized := w.finalized

/-- The values of one sync upsert. -/
structure SyncWrite where
  participated : Bool
  reward : Option Int
  missedBlock : Bool
  finalized : Bool
  deriving DecidableEq

def SyncWrite.toRow (w : SyncWrite) : SyncRow := ⟨w.participated, w.reward, w.missedBlock, w.finalized⟩

def SyncWrite.merge (w : SyncWrite) (old : SyncRow) : SyncRow where
  participated := w.participated
  reward := coalesce w.reward old.reward
  missedBlock := w.missedBlock
  finalized := w.finalized

namespace Db

variable (spec : ChainSpec)

/-! ## Writes -/

def upsertAttestationDuty (validator epoch : Nat) (w : AttestationWrite) (db : Db) : Db :=
  { db with
    attestationDuties := db.attestationDuties.upsert (validator, epoch) w.toRow fun old =>
      if w.replaces (db.completed validator epoch) old then some (w.merge old) else none }

def updateAttestationRewardsBatch (rewards : List RewardTuple) (db : Db) : Db :=
  { db with
    attestationDuties := db.attestationDuties.modify fun (v, e) a => some <|
      match rewards.find? fun r => r.validator == v && r.epoch == e with
      | some r => if a.finalized then a else a.withRewards r.source r.target r.head r.inactivity
      | none => a }

def repairFinalizedInclusion (validator epoch : Nat) (details : InclusionDetails) (db : Db) : Db :=
  { db with
    attestationDuties := db.attestationDuties.update
      (fun k a => k == (validator, epoch) && a.repairable (db.completed validator epoch) details)
      (fun _ a => a.withDetails details) }

def upsertBlockProposal (slot : Nat) (w : ProposalWrite) (db : Db) : Db :=
  { db with
    blockProposals := db.blockProposals.upsert slot w.toRow fun old =>
      if !old.finalized || (w.finalized && !db.completed old.proposerIndex (spec.slotToEpoch slot)) then
        some (w.merge old)
      else none }

def upsertSyncDuty (validator slot : Nat) (w : SyncWrite) (db : Db) : Db :=
  { db with
    syncDuties := db.syncDuties.upsert (validator, slot) w.toRow fun old =>
      if !old.finalized || (w.finalized && !db.completed validator (spec.slotToEpoch slot)) then
        some (w.merge old)
      else none }

def persistLiveSyncRewards (slot : Nat) (rewards : List SyncCommitteeReward) (db : Db) : Db :=
  { db with
    syncDuties := db.syncDuties.modify fun (v, s) d => some <|
      match rewards.find? (·.validatorIndex == v) with
      | some r => if s == slot && !d.finalized then { d with reward := some r.reward } else d
      | none => d }

/-- Called only after every stage of a finalized scan has succeeded. -/
def markComplete (validators : List Nat) (epoch : Nat) (db : Db) : Db :=
  { db with
    attestationDuties := db.attestationDuties.update (fun (v, e) _ => validators.contains v && e == epoch)
      (fun _ a => { a with inclusionKnown := true })
    completedScans := db.completedScans.insertAll (validators.map (·, epoch)) ()
    liveGaps := db.liveGaps.deleteWhere fun (v, e) _ => validators.contains v && e == epoch }

/-- Does not overwrite `last_scanned_epoch` of a known validator. -/
def upsertValidator (validator : Nat) (activationEpoch : Int) (exitEpoch : Option Int) (db : Db) : Db :=
  { db with
    validators := db.validators.upsert validator ⟨activationEpoch, exitEpoch, none⟩ fun old =>
      some { old with activationEpoch, exitEpoch } }

/-- The empty database after the given validators were registered, active from epoch 0 on. -/
def registered (validators : List Nat) : Db := validators.foldl (fun db v => db.upsertValidator v 0 none) empty

/-! ## Queries -/

def activeValidatorsAt (tracked : List Nat) (epoch : Nat) (db : Db) : List Nat :=
  (db.validators.select fun v row => tracked.contains v && row.activeAt epoch).map Prod.fst

end Db

end BeaconIndexer
