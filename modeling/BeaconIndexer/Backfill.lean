/-
Historical backfill (`src/backfill.rs`): every epoch from each validator's start up to a finality target
is scanned once. A backfill is a program over the statements of the validators and completed_scans
tables, `scan_epoch` and finality requests; the watermark map is passed along.
-/
import BeaconIndexer.Scanner.Epoch

namespace BeaconIndexer

open Effects Relational

inductive ScanMode where
  | dense
  | sparse
  | auto
  deriving DecidableEq

def ScanMode.autoSparseMax : Nat := 5

def ScanMode.resolve (validatorCount : Nat) : ScanMode → EffectiveScanMode
  | dense => .dense
  | sparse => .sparse
  | auto => if validatorCount ≤ autoSparseMax then .sparse else .dense

/-- The settings a backfill reads. -/
structure BackfillConfig where
  nonContiguousBackfill : Bool
  maxBackfillDepth : Option Nat
  scanMode : ScanMode

inductive BackfillError where
  | backfillEpoch (epoch : Nat) (source : Error)
  | other (error : Error)

/-! ## Effects -/

inductive BackfillOp where
  | activeValidatorsAt (tracked : List Nat) (epoch : Nat)
  | validatorsWithCompletedScan (validators : List Nat) (epoch : Nat)
  | scanEpoch (epoch : Nat) (validators : List Nat) (mode : EffectiveScanMode)
  | updateValidatorsScannedEpoch (validators : List Nat) (epoch : Nat)
  | updateHeartbeat
  /-- the finalized epoch at the head -/
  | getFinalityCheckpoints

abbrev BackfillOp.Result : BackfillOp → Type
  | activeValidatorsAt .. => Except Error (List Nat)
  | validatorsWithCompletedScan .. => Except Error (List Nat)
  | getFinalityCheckpoints => Except Error Nat
  | _ => Except Error Unit

abbrev backfill : Signature := ⟨BackfillOp, BackfillOp.Result⟩

abbrev BackfillTask (α : Type) := Async backfill BackfillError α

namespace BackfillTask

def activeValidatorsAt (tracked : List Nat) (epoch : Nat) : BackfillTask (List Nat) :=
  ask (S := backfill) (.activeValidatorsAt tracked epoch) (Except.mapError .other)

def validatorsWithCompletedScan (validators : List Nat) (epoch : Nat) : BackfillTask (List Nat) :=
  ask (S := backfill) (.validatorsWithCompletedScan validators epoch) (Except.mapError .other)

def scanEpoch (epoch : Nat) (validators : List Nat) (mode : EffectiveScanMode) : BackfillTask Unit :=
  ask (S := backfill) (.scanEpoch epoch validators mode) (Except.mapError (.backfillEpoch epoch))

def updateValidatorsScannedEpoch (validators : List Nat) (epoch : Nat) : BackfillTask Unit :=
  ask (S := backfill) (.updateValidatorsScannedEpoch validators epoch) (Except.mapError .other)

def updateHeartbeat : BackfillTask Unit := ask (S := backfill) .updateHeartbeat (Except.mapError .other)

def getFinalityCheckpoints : BackfillTask Nat := ask (S := backfill) .getFinalityCheckpoints (Except.mapError .other)

end BackfillTask

/-! ## Watermarks -/

/-- Validator to its activation and the last scanned epoch. -/
abbrev ScanState := Table Nat (Nat × Option Nat)

def ScanState.tracked (state : ScanState) : List Nat := state.rows.map Prod.fst

/-- A watermark is never rewound. -/
def advanced (epoch : Nat) (lastScanned : Option Nat) : Nat := lastScanned.elim epoch fun last => max last epoch

def ScanState.advance (state : ScanState) (validators : List Nat) (epoch : Nat) : ScanState :=
  state.update (fun v _ => validators.contains v) fun _ (activation, lastScanned) =>
    (activation, some (advanced epoch lastScanned))

variable (config : BackfillConfig)

/-- The first epoch of a pass to scan for a validator; activation is the floor in both modes. -/
def computeStart (nonContiguous : Bool) (activation : Nat) (lastScanned : Option Nat) : Nat :=
  let base := if nonContiguous then activation else lastScanned.elim activation fun last => max (last + 1) activation
  config.maxBackfillDepth.elim base (max base)

def starts (nonContiguous : Bool) (state : ScanState) : List Nat :=
  state.rows.map fun (_, activation, lastScanned) => computeStart config nonContiguous activation lastScanned

/-! ## A pass -/

variable (mode : EffectiveScanMode) (nonContiguous : Bool)

/-- The active validators of an epoch that their watermarks do not exclude. -/
def candidates (state : ScanState) (epoch : Nat) (active : List Nat) : List Nat :=
  active.filter fun v => (state.get v).any fun (activation, lastScanned) =>
    decide (computeStart config nonContiguous activation lastScanned ≤ epoch)

def heartbeat (epoch : Nat) : BackfillTask Unit := if epoch % 10 = 0 then BackfillTask.updateHeartbeat else pure ()

def scanValidators (state : ScanState) (epoch : Nat) (validators : List Nat) : BackfillTask ScanState := do
  BackfillTask.scanEpoch epoch validators mode
  BackfillTask.updateValidatorsScannedEpoch validators epoch
  heartbeat epoch
  return state.advance validators epoch

/-- One epoch of a pass; completed pairs are skipped and leave the watermark alone. -/
def backfillEpoch (tracked : List Nat) (state : ScanState) (epoch : Nat) : BackfillTask ScanState := do
  let active ← BackfillTask.activeValidatorsAt tracked epoch
  let candidates := candidates config nonContiguous state epoch active
  if candidates.isEmpty then return state
  let covered ← BackfillTask.validatorsWithCompletedScan candidates epoch
  let validators := candidates.filter fun v => !covered.contains v
  if validators.isEmpty then return state
  scanValidators mode state epoch validators

/-- `none` when every validator is up to date. -/
def backfillPass (state : ScanState) (target : Nat) : BackfillTask (Option ScanState) :=
  let minStart := (starts config nonContiguous state).min?.getD (target + 1)
  if target < minStart then pure none
  else do
    let state ← (List.range' minStart (target + 1 - minStart)).foldlM
      (backfillEpoch config mode nonContiguous state.tracked) state
    return some state

/-! ## All passes -/

def raiseWatermarks (validators : List Nat) (epoch : Nat) : BackfillTask Unit :=
  if validators.isEmpty then pure () else BackfillTask.updateValidatorsScannedEpoch validators epoch

/-- After the non-contiguous sweep the validators active at the target count as scanned up to it. -/
def finishSweep (state : ScanState) (target : Nat) : BackfillTask ScanState := do
  let active ← BackfillTask.activeValidatorsAt state.tracked target
  raiseWatermarks active target
  return state.advance active target

/-- A later scan target, if finality has advanced past the current one. -/
def extendTarget (target : Nat) : BackfillTask (Option Nat) := do
  let checkpoint ← BackfillTask.getFinalityCheckpoints
  return (ChainSpec.finalizedScanTarget checkpoint).filter (target < ·)

/-- At most `fuel` passes; the result is the last target once the backfill has caught up with it. -/
def backfillLoop (extendOnFinalityAdvance : Bool) : (fuel : Nat) → Bool → ScanState → Nat → BackfillTask (Option Nat)
  | 0, _, _, _ => pure none
  | fuel + 1, nonContiguous, state, target => do
    match ← backfillPass config mode nonContiguous state target with
    | none => return some target
    | some state =>
      if nonContiguous then
        let state ← finishSweep state target
        backfillLoop extendOnFinalityAdvance fuel false state target
      else if extendOnFinalityAdvance then
        match ← extendTarget target with
        | none => return some target
        | some newTarget => backfillLoop extendOnFinalityAdvance fuel false state newTarget
      else return some target

def runBackfill (fuel : Nat) (validatorScanState : ScanState) (initialTargetEpoch : Nat)
    (extendOnFinalityAdvance : Bool) : BackfillTask (Option Nat) :=
  backfillLoop config (config.scanMode.resolve validatorScanState.rows.length) extendOnFinalityAdvance fuel
    config.nonContiguousBackfill validatorScanState initialTargetEpoch

/-! ## What a backfill runs on -/

/-- The database, and the scan target of the finality seen so far. -/
structure BackfillWorld where
  db : Db
  target : Nat

/-- Whether statements and requests may fail, the pairs other workers may complete while an epoch is
scanned, and the finalized epochs the node may report. -/
structure BackfillEnv where
  fails : Prop
  others : Nat → Nat → Prop
  finality : Nat → Prop

/-- Anything may fail, be completed and be finalized. -/
def BackfillEnv.any : BackfillEnv := ⟨True, fun _ _ => True, fun _ => True⟩

/-- `GREATEST(COALESCE(last_scanned_epoch, -1), epoch)`. -/
def Db.updateValidatorsScannedEpoch (validators : List Nat) (epoch : Nat) (db : Db) : Db :=
  { db with
    validators := db.validators.update (fun v _ => validators.contains v) fun _ row =>
      { row with lastScannedEpoch := some (advanced epoch row.lastScannedEpoch) } }

/-- Completions are kept, and no others appear than the given ones and those of other workers; the
validators stay as they are. -/
structure Completes (others : Nat → Nat → Prop) (epoch : Nat) (validators : List Nat) (db db' : Db) : Prop where
  registry : db'.validators = db.validators
  kept : ∀ {v e}, db.completed v e = true → db'.completed v e = true
  fresh : ∀ {v e}, db'.completed v e = true → db.completed v e = true ∨ others v e ∨ (v ∈ validators ∧ e = epoch)

/-- A scan that succeeds has completed the pairs it was given; a finality answer moves the target up. -/
def backfillSem (E : BackfillEnv) : Sem backfill BackfillWorld
  | .activeValidatorsAt vs e, w, r, w' => w' = w ∧ (r = .ok (w.db.activeValidatorsAt vs e) ∨ (E.fails ∧ ∃ er, r = .error er))
  | .validatorsWithCompletedScan vs e, w, r, w' => w' = w ∧
      (r = .ok (vs.filter (w.db.completed · e)) ∨ (E.fails ∧ ∃ er, r = .error er))
  | .scanEpoch e vs _, w, r, w' => w'.target = w.target ∧ Completes E.others e vs w.db w'.db ∧
      ((r = .ok () ∧ ∀ v ∈ vs, w'.db.completed v e = true) ∨ (E.fails ∧ ∃ er, r = .error er))
  | .updateValidatorsScannedEpoch vs e, w, r, w' =>
      (r = .ok () ∧ w' = { w with db := w.db.updateValidatorsScannedEpoch vs e }) ∨ (E.fails ∧ ∃ er, r = .error er ∧ w' = w)
  | .updateHeartbeat, w, r, w' => w' = w ∧ (r = .ok () ∨ (E.fails ∧ ∃ er, r = .error er))
  | .getFinalityCheckpoints, w, r, w' =>
      (∃ c, E.finality c ∧ r = .ok c ∧ w' = { w with target := (ChainSpec.finalizedScanTarget c).elim w.target (max w.target) }) ∨
      (E.fails ∧ ∃ er, r = .error er ∧ w' = w)

end BeaconIndexer
