/-
The archive worker of an indexer in both modes (`src/main.rs`, `src/backfill.rs`, `src/backfill/retry.rs`): each
turn repairs the newest recorded gaps and then, until the history is complete, makes an attempt at it if one is
due. The startup check of the history is here as well.
-/
import BeaconIndexer.Backfill

namespace BeaconIndexer

open Effects

/-! ## Retries of the historical backfill -/

inductive FailureKind where
  | unavailable
  | invalidData
  | other
  deriving DecidableEq

/-- `isDecode` is the HTTP client's word on whether a failed request failed while decoding the body. -/
def FailureKind.ofSource (isDecode : String → Bool) : Error → FailureKind
  | .beaconDataUnavailable _ => unavailable
  | .beaconApi status _ => if status = 404 then unavailable else other
  | .inconsistentBeaconData _ => invalidData
  | .json _ => invalidData
  | .http message => if isDecode message then invalidData else other
  | .database _ => other

def FailureKind.of (isDecode : String → Bool) : BackfillError → FailureKind
  | .backfillEpoch _ source => ofSource isDecode source
  | .other error => ofSource isDecode error

inductive Level where
  | debug
  | info
  | warn
  | error
  deriving DecidableEq

/-- Instants are in milliseconds. -/
structure HistoricalRetry where
  nextAttempt : Option Nat
  failures : Nat
  lastKind : Option FailureKind
  deriving DecidableEq

namespace HistoricalRetry

def default : HistoricalRetry := ⟨none, 0, none⟩

variable (retry : HistoricalRetry)

def ready (now : Nat) : Bool := retry.nextAttempt.all (· ≤ now)

/-- In seconds. -/
def delay : Nat := min (60 * 2 ^ min retry.failures 5) 1800

/-- Log once per failure category, with subsequent attempts at debug level. -/
def level (kind : FailureKind) : Level :=
  if retry.lastKind = some kind then .debug
  else match kind with
    | .unavailable => .info
    | .invalidData => .error
    | .other => .warn

def failed (kind : FailureKind) (now : Nat) : HistoricalRetry :=
  ⟨some (now + 1000 * retry.delay), min (retry.failures + 1) (2 ^ 32 - 1), some kind⟩

end HistoricalRetry

/-! ## Recorded gaps -/

namespace Db

/-- Recorded by the live worker and not completed since. -/
def openGap (v e : Nat) (db : Db) : Bool := db.liveGaps.has (v, e) && !db.completed v e

/-- `GROUP BY epoch ORDER BY epoch DESC`. -/
def gapEpochs (tracked : List Nat) (target : Nat) (db : Db) : List Nat :=
  ((db.liveGaps.select fun (v, e) _ => tracked.contains v && decide (e ≤ target) && !db.completed v e).map
    (·.1.2)).dedup.insertionSort (· ≥ ·)

/-- `ARRAY_AGG(validator_index ORDER BY validator_index)`. -/
def gapValidators (tracked : List Nat) (epoch : Nat) (db : Db) : List Nat :=
  ((db.liveGaps.select fun (v, e) _ => tracked.contains v && e == epoch && !db.completed v e).map
    (·.1.1)).insertionSort (· ≤ ·)

/-- The newest epochs with open gaps, with their validators. -/
def recentGaps (tracked : List Nat) (target : Nat) (db : Db) : List (Nat × List Nat) :=
  ((db.gapEpochs tracked target).take 8).map fun e => (e, db.gapValidators tracked e)

end Db

/-! ## Effects -/

inductive ArchiveOp where
  | now
  | sleep (seconds : Nat)
  /-- the finalized epoch at the live node's head -/
  | getFinalityCheckpoints
  | recentGaps (tracked : List Nat) (target : Nat)
  | repair (epoch : Nat) (validators : List Nat) (mode : EffectiveScanMode)
  | report (level : Level) (retryInSeconds : Nat)
  | backfill (op : BackfillOp)

abbrev ArchiveOp.Result : ArchiveOp → Type
  | now => Nat
  | getFinalityCheckpoints => Except Error Nat
  | recentGaps .. => Except Error (List (Nat × List Nat))
  | repair .. => Except Error Unit
  | backfill op => op.Result
  | _ => Unit

abbrev archive : Signature := ⟨ArchiveOp, ArchiveOp.Result⟩

/-! ## A turn of the worker -/

/-- A gap that cannot be repaired does not keep the others from being tried. -/
def repairLiveGaps (tracked : List Nat) (target : Nat) (mode : EffectiveScanMode) : Async archive Error Unit := do
  let gaps ← ask (S := archive) (.recentGaps tracked target) id
  each (fun (gap : Nat × List Nat) => do
    let _ ← attempt (ask (S := archive) (ε := Error) (.repair gap.1 gap.2 mode) id)) gaps

/-- Recent gaps are repaired even if much older history is unavailable. -/
def repairRecent (tracked : List Nat) (mode : EffectiveScanMode) : Prog archive Unit :=
  (Prog.perform (S := archive) .getFinalityCheckpoints).bind fun checkpoint =>
    match checkpoint.toOption.bind ChainSpec.finalizedScanTarget with
    | some target => (repairLiveGaps tracked target mode).run.bind fun _ => .pure ()
    | none => .pure ()

structure ArchiveMemory where
  historicalDone : Bool
  historicalRetry : HistoricalRetry
  deriving DecidableEq

/-- What the worker was started with. -/
structure ArchiveSetup where
  config : BackfillConfig
  tracked : List Nat
  validatorScanState : ScanState
  /-- the scan target of the finality at startup, 0 if there was none -/
  f0 : Nat
  /-- finality allowed a scan at startup -/
  shouldRun : Bool
  isDecode : String → Bool

namespace ArchiveSetup

variable (setup : ArchiveSetup)

def mode : EffectiveScanMode := setup.config.scanMode.resolve setup.tracked.length

def start : ArchiveMemory := ⟨!setup.shouldRun, .default⟩

/-- Live owns what finality adds later, so that an attempt needs two passes at most. -/
def runHistory : Prog archive (Except BackfillError (Option Nat)) :=
  (runBackfill setup.config 2 setup.validatorScanState setup.f0 false).run.within (T := archive) .backfill fun _ => id

def noteFailure (m : ArchiveMemory) (error : BackfillError) : Prog archive ArchiveMemory :=
  (Prog.perform (S := archive) .now).bind fun now =>
    let kind := FailureKind.of setup.isDecode error
    (Prog.perform (S := archive) (.report (m.historicalRetry.level kind) m.historicalRetry.delay)).bind fun _ =>
      .pure { m with historicalRetry := m.historicalRetry.failed kind now }

def attemptHistory (m : ArchiveMemory) : Prog archive ArchiveMemory :=
  setup.runHistory.bind fun result =>
    match result with
    | .ok _ => .pure { m with historicalDone := true }
    | .error error => setup.noteFailure m error

def advanceHistory (m : ArchiveMemory) : Prog archive ArchiveMemory :=
  if m.historicalDone then .pure m
  else (Prog.perform (S := archive) .now).bind fun now =>
    if m.historicalRetry.ready now then setup.attemptHistory m else .pure m

def archiveTurn (m : ArchiveMemory) : Prog archive ArchiveMemory :=
  (repairRecent setup.tracked setup.mode).bind fun _ =>
    (setup.advanceHistory m).bind fun m' => (Prog.perform (S := archive) (.sleep 60)).bind fun _ => .pure m'

def archiveTurns : (turns : Nat) → ArchiveMemory → Prog archive ArchiveMemory
  | 0, m => .pure m
  | turns + 1, m => (setup.archiveTurn m).bind fun m' => archiveTurns turns m'

end ArchiveSetup

/-! ## The startup check -/

/-- `value as u64` of an `i64`. -/
def asU64 (value : Int) : Nat := (value % 2 ^ 64).toNat

/-- The tracked validators of the registry with their watermarks. -/
def Db.validatorScanState (tracked : List Nat) (db : Db) : ScanState :=
  (db.validators.deleteWhere fun v _ => !tracked.contains v).mapVal fun row =>
    (asU64 row.activationEpoch, row.lastScannedEpoch)

/-- From each validator's first epoch to its watermark, without the validators that have none or that start after it. -/
def coverageRanges (config : BackfillConfig) (state : ScanState) : List (Nat × Nat × Nat) :=
  state.rows.filterMap fun (v, activation, lastScanned) => lastScanned.bind fun last =>
    let start := config.maxBackfillDepth.elim activation (max activation)
    if last < start then none else some (v, start, last)

def Db.countCoveredValidatorEpochs (ranges : List (Nat × Nat × Nat)) (db : Db) : Nat :=
  (ranges.map fun (v, start, last) =>
    (db.completedScans.select fun (u, e) _ => u == v && decide (start ≤ e) && decide (e ≤ last)).length).sum

/-- `found` is 0 where the query fails. -/
def missingValidatorEpochs (ranges : List (Nat × Nat × Nat)) (found : Except Error Nat) : Nat :=
  (ranges.map fun (_, start, last) => last - start + 1).sum - found.toOption.getD 0

/-! ## What the worker runs in -/

structure ArchiveWorld where
  history : BackfillWorld
  clock : Nat

abbrev ArchiveWorld.db (w : ArchiveWorld) : Db := w.history.db

/-- Whether statements and requests of a backfill may fail, the finalized epochs the live node may report, whether the
requests before a repair may fail, the epochs that can be served to a repair, and the pairs for which other workers
may record gaps. -/
structure ArchiveEnv where
  fails : Prop
  finality : Nat → Prop
  unread : Prop
  served : Nat → Bool
  opened : Nat → Nat → Prop

/-- Others may complete any pair. With a fixed target no finality is asked for. -/
def ArchiveEnv.history (E : ArchiveEnv) : BackfillEnv := ⟨E.fails, fun _ _ => True, (· < 2)⟩

/-- Gaps open for the given pairs only. -/
def ArchiveEnv.GapsWithin (E : ArchiveEnv) (db db' : Db) : Prop :=
  ∀ v e, db'.openGap v e = true → db.openGap v e = true ∨ E.opened v e

/-- Other workers go on: nobody's activity changes, completions are kept, and time passes. -/
structure ArchiveEnv.Meanwhile (E : ArchiveEnv) (w w' : ArchiveWorld) : Prop where
  clock : w.clock ≤ w'.clock
  target : w'.history.target = w.history.target
  active : ∀ v e, (w'.db.validators.get v).any (·.activeAt e) = (w.db.validators.get v).any (·.activeAt e)
  kept : ∀ v e, w.db.completed v e = true → w'.db.completed v e = true
  gaps : E.GapsWithin w.db w'.db

/-- A repair of an epoch that is served completes the pairs it was given. -/
def archiveSem (E : ArchiveEnv) : Sem archive ArchiveWorld
  | .now, w, r, w' => r = w'.clock ∧ E.Meanwhile w w'
  | .sleep seconds, w, _, w' => w.clock + 1000 * seconds ≤ w'.clock ∧ E.Meanwhile w w'
  | .getFinalityCheckpoints, w, r, w' => E.Meanwhile w w' ∧
      ((∃ c, E.finality c ∧ r = .ok c) ∨ (E.unread ∧ ∃ er, r = .error er))
  | .recentGaps tracked target, w, r, w' => E.Meanwhile w w' ∧
      (r = .ok (w.db.recentGaps tracked target) ∨ (E.unread ∧ ∃ er, r = .error er))
  | .repair e vs _, w, r, w' => E.Meanwhile w w' ∧
      ((r = .ok () ∧ ∀ v ∈ vs, w'.db.completed v e = true) ∨ (E.served e = false ∧ ∃ er, r = .error er))
  | .report .., w, _, w' => E.Meanwhile w w'
  | .backfill op, w, r, w' => w.clock ≤ w'.clock ∧ E.GapsWithin w.db w'.db ∧
      backfillSem E.history op w.history r w'.history

end BeaconIndexer
