/-
The database of the indexer (`migrations/`), one keyed table for each SQL table the scanner and
the live worker use. Foreign keys and the uniqueness of `live_blocks.root` only make statements
fail; every statement may fail here (see `Db.Op`), so they are not modelled separately.
-/
import BeaconIndexer.Base.Table
import BeaconIndexer.Beacon.Types

namespace BeaconIndexer

open Relational

/-- The epochs are BIGINT columns, so the values the worker binds may be negative. -/
structure ValidatorRow where
  activationEpoch : Int
  exitEpoch : Option Int
  lastScannedEpoch : Option Nat
  deriving DecidableEq

/-- `activation_epoch <= epoch < COALESCE(exit_epoch, +∞)`. -/
def ValidatorRow.activeAt (v : ValidatorRow) (epoch : Nat) : Bool :=
  decide (v.activationEpoch ≤ (epoch : Int)) && v.exitEpoch.all ((epoch : Int) < ·)

structure AttestationRow where
  assignedSlot : Nat
  committeeIndex : Nat
  committeePosition : Nat
  included : Bool
  inclusionSlot : Option Nat
  inclusionDelay : Option Int
  effectiveInclusionDelay : Option Int
  sourceCorrect : Option Bool
  targetCorrect : Option Bool
  headCorrect : Option Bool
  sourceReward : Option Int
  targetReward : Option Int
  headReward : Option Int
  inactivityPenalty : Option Int
  finalized : Bool
  inclusionKnown : Bool
  deriving DecidableEq

structure SyncRow where
  participated : Bool
  reward : Option Int
  missedBlock : Bool
  finalized : Bool
  deriving DecidableEq

structure ProposalRow where
  proposerIndex : Nat
  proposed : Bool
  rewardTotal : Option Int
  rewardAttestations : Option Int
  rewardSync : Option Int
  rewardSlashings : Option Int
  finalized : Bool
  deriving DecidableEq

structure LiveBlockRow where
  root : Root
  parentRoot : Root
  deriving DecidableEq

inductive Component where
  | attestationRewards
  | proposalRewards
  | syncRewards
  deriving DecidableEq

inductive JobStatus where
  | pending
  | complete
  | needsBackfill
  deriving DecidableEq

/-- The staged JSON of a reward job. -/
inductive Payload where
  | attestation (totalRewards : List ValidatorAttestationReward)
  | proposal (rewards : BlockRewards)
  | sync (rewards : List SyncCommitteeReward)
  deriving DecidableEq

structure JobKey where
  validator : Nat
  epoch : Nat
  /-- `none` is the stored `-1` of an epoch job -/
  slot : Option Nat
  component : Component
  deriving DecidableEq

structure JobRow where
  root : Option Root
  dependency : Option Root
  status : JobStatus
  attempts : Nat
  nextAttempt : Nat
  lastError : Option String
  payload : Option Payload

structure Db where
  validators : Table Nat ValidatorRow
  /-- (validator, epoch) -/
  attestationDuties : Table (Nat × Nat) AttestationRow
  /-- (validator, slot) -/
  syncDuties : Table (Nat × Nat) SyncRow
  /-- slot -/
  blockProposals : Table Nat ProposalRow
  /-- (validator, epoch) -/
  completedScans : Table (Nat × Nat) Unit
  /-- slot -/
  liveBlocks : Table Nat LiveBlockRow
  /-- (validator, slot) -/
  liveCoverage : Table (Nat × Nat) Unit
  /-- validator to its first live epoch -/
  liveTrackingStart : Table Nat Nat
  /-- (validator, epoch) to a reason -/
  liveGaps : Table (Nat × Nat) String
  liveJobs : Table JobKey JobRow

/-- The migrated, empty database. -/
def Db.empty : Db :=
  ⟨.empty, .empty, .empty, .empty, .empty, .empty, .empty, .empty, .empty, .empty⟩

namespace Db

variable (db : Db)

/-- `EXISTS (SELECT 1 FROM completed_scans ...)`. -/
def completed (v e : Nat) : Bool := db.completedScans.has (v, e)

def covered (v s : Nat) : Bool := db.liveCoverage.has (v, s)

/-- The stored block root at a slot. -/
def storedRoot (s : Nat) : Option Root := (db.liveBlocks.get s).map (·.root)

end Db

/-! ## SQL expressions -/

/-- `COALESCE(new, old)`. -/
def coalesce {α : Type} (new old : Option α) : Option α := new.or old

/-- `CASE WHEN reward > 0 THEN TRUE END`. -/
def ifPositive (reward : Option Int) : Option Bool :=
  match reward with
  | some r => if 0 < r then some true else none
  | none => none

/-- `a < b`, where a comparison with NULL selects nothing. -/
def sqlLt (a b : Option Nat) : Bool :=
  match a, b with
  | some x, some y => decide (x < y)
  | _, _ => false

/-- `a = b`, where a comparison with NULL selects nothing. -/
def sqlEq (a b : Option Nat) : Bool :=
  match a, b with
  | some x, some y => decide (x = y)
  | _, _ => false

@[simp]
theorem sqlLt_iff {a b : Option Nat} : sqlLt a b = true ↔ ∃ x y, a = some x ∧ b = some y ∧ x < y := by
  cases a <;> cases b <;> simp [sqlLt]

@[simp]
theorem sqlEq_iff {a b : Option Nat} : sqlEq a b = true ↔ ∃ x, a = some x ∧ b = some x := by
  cases a <;> cases b <;> simp [sqlEq, eq_comm]

@[simp]
theorem coalesce_none_left {α : Type} (old : Option α) : coalesce none old = old := rfl

@[simp]
theorem coalesce_some_left {α : Type} (a : α) (old : Option α) : coalesce (some a) old = some a := rfl

@[simp]
theorem coalesce_none_right {α : Type} (new : Option α) : coalesce new none = new := by cases new <;> rfl

theorem coalesce_isSome {α : Type} {new old : Option α} (h : new.isSome = true) : (coalesce new old).isSome = true := by
  cases new with
  | none => cases h
  | some a => rfl

end BeaconIndexer
