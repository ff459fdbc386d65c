/-
What the archive worker of an indexer in both modes gets done (`src/main.rs`, `src/backfill/retry.rs`): whatever has
failed before, the history is complete at most 31 turns after its scans stop failing. A startup check that finds
nothing missing extends what a contiguous backfill covers to each validator's first epoch.
-/
import BeaconIndexer.Archive
import BeaconIndexer.Proofs.Backfill

namespace BeaconIndexer

open Effects Relational

variable {E : ArchiveEnv} {setup : ArchiveSetup} {m m' : ArchiveMemory} {w w₁ w₂ w' : ArchiveWorld}

/-! ## What goes on meanwhile -/

theorem activeIn_iff_any {registry : Table Nat ValidatorRow} {v e : Nat} :
    activeIn registry v e ↔ (registry.get v).any (·.activeAt e) = true := by
  unfold activeIn
  rw [Option.any_eq_true]

namespace ArchiveEnv.Meanwhile

theorem refl (w : ArchiveWorld) : E.Meanwhile w w := ⟨le_rfl, rfl, fun _ _ => rfl, fun _ _ => id, fun _ _ => .inl⟩

theorem trans (h : E.Meanwhile w w₁) (h' : E.Meanwhile w₁ w₂) : E.Meanwhile w w₂ where
  clock := h.clock.trans h'.clock
  target := h'.target.trans h.target
  active v e := (h'.active v e).trans (h.active v e)
  kept v e hc := h'.kept v e (h.kept v e hc)
  gaps v e hg := by
    rcases h'.gaps v e hg with hg | ho
    · exact h.gaps v e hg
    · exact .inr ho

theorem activeIn_iff (h : E.Meanwhile w w') (v e : Nat) : activeIn w'.db.validators v e ↔ activeIn w.db.validators v e := by
  rw [activeIn_iff_any, activeIn_iff_any, h.active v e]

theorem noHole {first : Nat → Option Nat} {target : Nat} (h : E.Meanwhile w w') (hn : NoHole first target w.db) :
    NoHole first target w'.db :=
  hn.mono h.activeIn_iff fun hc => h.kept _ _ hc

end ArchiveEnv.Meanwhile

/-- An effect of a backfill with a fixed target. -/
theorem backfillSem_meanwhile {op : BackfillOp} {r : op.Result} (hclock : w.clock ≤ w'.clock) (hgaps : E.GapsWithin w.db w'.db)
    (h : backfillSem E.history op w.history r w'.history) : E.Meanwhile w w' := by
  -- most effects leave the history as it is
  have hsame : w'.history = w.history → E.Meanwhile w w' := by
    intro heq
    refine ⟨hclock, by rw [heq], fun v e => ?_, fun v e hc => ?_, hgaps⟩
    · show (w'.history.db.validators.get v).any _ = _
      rw [heq]
    · show w'.history.db.completed v e = true
      rw [heq]
      exact hc
  cases op with
  | activeValidatorsAt vs e => exact hsame h.1
  | validatorsWithCompletedScan vs e => exact hsame h.1
  | updateHeartbeat => exact hsame h.1
  | scanEpoch e vs mode =>
    obtain ⟨ht, hc, -⟩ := h
    refine ⟨hclock, ht, fun v e' => ?_, fun v e' hd => hc.kept hd, hgaps⟩
    show (w'.history.db.validators.get v).any _ = _
    rw [hc.registry]
  | updateValidatorsScannedEpoch vs e =>
    rcases h with ⟨-, hw⟩ | ⟨-, _, -, hw⟩
    · refine ⟨hclock, by rw [hw], fun v e' => ?_, fun v e' hd => ?_, hgaps⟩
      · rw [Bool.eq_iff_iff, ← activeIn_iff_any, ← activeIn_iff_any]
        show activeIn w'.history.db.validators v e' ↔ _
        rw [hw]
        exact activeIn_updateValidatorsScannedEpoch ..
      · show w'.history.db.completed v e' = true
        rw [hw]
        exact hd
    · exact hsame hw
  | getFinalityCheckpoints =>
    rcases h with ⟨c, hc, -, hw⟩ | ⟨-, _, -, hw⟩
    · apply hsame
      have hnone : ChainSpec.finalizedScanTarget c = none := by
        have hlt : c < 2 := hc
        unfold ChainSpec.finalizedScanTarget
        rw [if_neg (by omega)]
      rw [hw, hnone]
      rfl
    · exact hsame hw

theorem archiveSem_meanwhile : ∀ (op : ArchiveOp) (w : ArchiveWorld) (r : op.Result) (w' : ArchiveWorld),
    archiveSem E op w r w' → E.Meanwhile w w'
  | .now, _, _, _, h => h.2
  | .sleep _, _, _, _, h => h.2
  | .getFinalityCheckpoints, _, _, _, h => h.1
  | .recentGaps .., _, _, _, h => h.1
  | .repair .., _, _, _, h => h.1
  | .report .., _, _, _, h => h
  | .backfill _, _, _, _, h => backfillSem_meanwhile h.1 h.2.1 h.2.2

theorem exec_meanwhile {α : Type} {p : Prog archive α} {a : α} (h : Exec (archiveSem E) p w a w') : E.Meanwhile w w' :=
  h.relates .refl (fun _ _ _ => .trans) archiveSem_meanwhile

/-! ## An attempt at the history -/

variable {config : BackfillConfig} {H : BackfillEnv}

/-- One contiguous pass is enough where the target is not extended. -/
theorem contiguous_returns (fuel : Nat) (state : ScanState) (target : Nat) :
    (Contract.alone (backfillSem H)).Always (backfillLoop config mode false (fuel + 1) false state target)
      fun final => final.isSome = true := by
  unfold backfillLoop
  apply Contract.Always.bind (Contract.Always.free (fun _ _ => trivial) _)
  intro r _
  cases r with
  | none => exact Contract.Always.pure rfl
  | some state' => exact Contract.Always.pure rfl

/-- At most one sweep comes before it. -/
theorem runBackfill_returns (state : ScanState) (target : Nat) :
    (Contract.alone (backfillSem H)).Always (runBackfill config 2 state target false) fun final => final.isSome = true := by
  unfold runBackfill
  cases config.nonContiguousBackfill with
  | false => exact contiguous_returns 1 state target
  | true =>
    unfold backfillLoop
    apply Contract.Always.bind (Contract.Always.free (fun _ _ => trivial) _)
    intro r _
    cases r with
    | none => exact Contract.Always.pure rfl
    | some state' =>
      apply Contract.Always.bind (Contract.Always.free (fun _ _ => trivial) _)
      intro state'' _
      exact contiguous_returns 0 state'' target

namespace ArchiveSetup

/-- The pairs owed to the validators that the worker was started with. -/
def Complete (setup : ArchiveSetup) (db : Db) : Prop :=
  NoHole (initialStart setup.config setup.validatorScanState) setup.f0 db

/-- An attempt that returns has completed the history; otherwise a statement or a request has failed. -/
theorem exec_runHistory {r : Except BackfillError (Option Nat)} (hw : w.history.target = setup.f0)
    (h : Exec (archiveSem E) setup.runHistory w r w') :
    match r with
    | .ok _ => setup.Complete w'.db
    | .error _ => E.fails := by
  have hx : Exec (backfillSem E.history) (runBackfill setup.config 2 setup.validatorScanState setup.f0 false).run
      w.history r w'.history := Exec.of_within (fun _ _ _ _ hs => hs.2.2) h
  have hpost := Contract.Safe.exec hx
    (runBackfill_caughtUp (E := E.history) 2 false hw fun _ hext => by cases hext)
  cases r with
  | error er => exact hpost
  | ok final =>
    have hsome : final.isSome = true :=
      ((runBackfill_returns (H := E.history) setup.validatorScanState setup.f0) w.history).exec hx
    obtain ⟨t, rfl⟩ := Option.isSome_iff_exists.1 hsome
    obtain ⟨ht, hn⟩ := hpost t rfl
    have hf0 : t = setup.f0 := by rw [ht, (exec_meanwhile h).target, hw]
    rwa [hf0] at hn

/-! ## Turns -/

/-- The longest pause between two attempts, in milliseconds. -/
def longestPause : Nat := 1000 * 1800

theorem delay_le (retry : HistoricalRetry) : 1000 * retry.delay ≤ longestPause :=
  Nat.mul_le_mul_left _ (min_le_right _ _)

/-- What holds between two turns: a worker that is done has completed the history, and one that is not waits no longer
than the longest pause. -/
structure Holds (setup : ArchiveSetup) (m : ArchiveMemory) (w : ArchiveWorld) : Prop where
  target : w.history.target = setup.f0
  complete : m.historicalDone = true → setup.Complete w.db
  due : ∀ t, m.historicalRetry.nextAttempt = some t → t ≤ w.clock + longestPause

theorem Holds.meanwhile (h : setup.Holds m w) (hm : E.Meanwhile w w') : setup.Holds m w' where
  target := hm.target.trans h.target
  complete hd := hm.noHole (h.complete hd)
  due t ht := (h.due t ht).trans (Nat.add_le_add_right hm.clock _)

theorem holds_start (hrun : setup.shouldRun = true) (hw : w.history.target = setup.f0) : setup.Holds setup.start w where
  target := hw
  complete hd := by
    have hnot : setup.start.historicalDone = false := by
      show (!setup.shouldRun) = false
      rw [hrun]
      rfl
    rw [hnot] at hd
    cases hd
  due t ht := by cases ht

/-- The next attempt is timed from a reading of the clock after the failure. -/
theorem exec_noteFailure {error : BackfillError} (h : setup.Holds m w) (hx : Exec (archiveSem E) (setup.noteFailure m error) w m' w') :
    setup.Holds m' w' := by
  have hm := exec_meanwhile hx
  obtain ⟨now, w₁, ⟨hnow, -⟩, hx⟩ := Exec.call_iff.1 hx
  obtain ⟨_, w₂, hreport, hx⟩ := Exec.call_iff.1 hx
  obtain ⟨rfl, rfl⟩ := Exec.pure_iff.1 hx
  have hafter : E.Meanwhile w₁ w' := hreport
  refine ⟨hm.target.trans h.target, fun hd => hm.noHole (h.complete hd), fun t ht => ?_⟩
  cases ht
  calc now + 1000 * m.historicalRetry.delay
      = w₁.clock + 1000 * m.historicalRetry.delay := by rw [show now = w₁.clock from hnow]
    _ ≤ w'.clock + longestPause := Nat.add_le_add hafter.clock (delay_le _)

/-- An attempt in a setting without failures succeeds. -/
theorem exec_attemptHistory (h : setup.Holds m w) (hx : Exec (archiveSem E) (setup.attemptHistory m) w m' w') :
    setup.Holds m' w' ∧ (¬E.fails → m'.historicalDone = true) := by
  obtain ⟨result, w₁, hrun, hx⟩ := Exec.bind_iff.1 hx
  have hpost := exec_runHistory h.target hrun
  have hm := exec_meanwhile hrun
  cases result with
  | ok final =>
    obtain ⟨rfl, rfl⟩ := Exec.pure_iff.1 hx
    exact ⟨⟨hm.target.trans h.target, fun _ => hpost, (h.meanwhile hm).due⟩, fun _ => rfl⟩
  | error error => exact ⟨exec_noteFailure (h.meanwhile hm) hx, fun hf => absurd hpost hf⟩

/-- The attempt is made exactly if it is due. -/
theorem exec_advanceHistory (h : setup.Holds m w) (hx : Exec (archiveSem E) (setup.advanceHistory m) w m' w') :
    setup.Holds m' w' ∧ (¬E.fails → m'.historicalDone = true ∨
      (m' = m ∧ ∃ t, m.historicalRetry.nextAttempt = some t ∧ w.clock < t)) := by
  unfold advanceHistory at hx
  split at hx
  · rename_i hdone
    obtain ⟨rfl, rfl⟩ := Exec.pure_iff.1 hx
    exact ⟨h, fun _ => .inl hdone⟩
  · obtain ⟨now, w₁, ⟨rfl, hm⟩, hx⟩ := Exec.call_iff.1 hx
    rw [Prog.pure_bind] at hx
    split at hx
    · obtain ⟨hholds, hdone⟩ := exec_attemptHistory (h.meanwhile hm) hx
      exact ⟨hholds, fun hf => .inl (hdone hf)⟩
    · rename_i hready
      obtain ⟨rfl, rfl⟩ := Exec.pure_iff.1 hx
      refine ⟨h.meanwhile hm, fun _ => .inr ⟨rfl, ?_⟩⟩
      unfold HistoricalRetry.ready at hready
      cases hnext : m'.historicalRetry.nextAttempt with
      | none => rw [hnext] at hready; exact absurd rfl hready
      | some t =>
        rw [hnext] at hready
        have hlt : w'.clock < t := by simpa using hready
        exact ⟨t, rfl, hm.clock.trans_lt hlt⟩

/-- A turn takes a minute at least. -/
theorem exec_archiveTurn (h : setup.Holds m w) (hx : Exec (archiveSem E) (setup.archiveTurn m) w m' w') :
    setup.Holds m' w' ∧ w.clock + 60000 ≤ w'.clock ∧ (¬E.fails → m'.historicalDone = true ∨
      (m' = m ∧ ∃ t, m.historicalRetry.nextAttempt = some t ∧ w.clock < t)) := by
  obtain ⟨_, w₁, hrepair, hx⟩ := Exec.bind_iff.1 hx
  obtain ⟨m₁, w₂, hadvance, hx⟩ := Exec.bind_iff.1 hx
  obtain ⟨_, w₃, ⟨hsleep, hm₃⟩, hx⟩ := Exec.call_iff.1 hx
  obtain ⟨rfl, rfl⟩ := Exec.pure_iff.1 hx
  have hm₁ := exec_meanwhile hrepair
  have hm₂ := exec_meanwhile hadvance
  obtain ⟨hholds, hdone⟩ := exec_advanceHistory (h.meanwhile hm₁) hadvance
  refine ⟨hholds.meanwhile hm₃, ?_, fun hf => ?_⟩
  · have h₁ := hm₁.clock
    have h₂ := hm₂.clock
    omega
  · rcases hdone hf with hd | ⟨heq, t, ht, hlt⟩
    · exact .inl hd
    · exact .inr ⟨heq, t, ht, hm₁.clock.trans_lt hlt⟩

theorem exec_archiveTurns : ∀ (turns : Nat) {m : ArchiveMemory} {w : ArchiveWorld}, setup.Holds m w →
    Exec (archiveSem E) (setup.archiveTurns turns m) w m' w' → setup.Holds m' w'
  | 0, m, w, h, hx => by
    obtain ⟨rfl, rfl⟩ := Exec.pure_iff.1 hx
    exact h
  | turns + 1, m, w, h, hx => by
    obtain ⟨m₁, w₁, hturn, hx⟩ := Exec.bind_iff.1 hx
    exact exec_archiveTurns turns (exec_archiveTurn h hturn).1 hx

/-- A worker that is done stays done. -/
theorem archiveTurns_done : ∀ (turns : Nat) {m : ArchiveMemory} {w : ArchiveWorld}, m.historicalDone = true →
    Exec (archiveSem E) (setup.archiveTurns turns m) w m' w' → m'.historicalDone = true
  | 0, m, w, h, hx => by
    obtain ⟨rfl, rfl⟩ := Exec.pure_iff.1 hx
    exact h
  | turns + 1, m, w, h, hx => by
    obtain ⟨m₁, w₁, hturn, hx⟩ := Exec.bind_iff.1 hx
    refine archiveTurns_done turns ?_ hx
    obtain ⟨_, _, -, hturn⟩ := Exec.bind_iff.1 hturn
    obtain ⟨m₂, _, hadvance, hturn⟩ := Exec.bind_iff.1 hturn
    obtain ⟨_, _, -, hturn⟩ := Exec.call_iff.1 hturn
    obtain ⟨rfl, -⟩ := Exec.pure_iff.1 hturn
    unfold advanceHistory at hadvance
    rw [if_pos h] at hadvance
    obtain ⟨rfl, -⟩ := Exec.pure_iff.1 hadvance
    exact h

/-- While nothing fails, a pending attempt is made in the first turn that begins at or after its time. -/
theorem archiveTurns_completes (hf : ¬E.fails) : ∀ (turns : Nat) {m : ArchiveMemory} {w : ArchiveWorld}, setup.Holds m w →
    (∀ t, m.historicalRetry.nextAttempt = some t → t ≤ w.clock + 60000 * turns) →
    Exec (archiveSem E) (setup.archiveTurns (turns + 1) m) w m' w' → m'.historicalDone = true
  | turns, m, w, h, hdue, hx => by
    obtain ⟨m₁, w₁, hturn, hrest⟩ := Exec.bind_iff.1 hx
    obtain ⟨hholds, hclock, hdone⟩ := exec_archiveTurn h hturn
    rcases hdone hf with hd | ⟨rfl, t, ht, hlt⟩
    · exact archiveTurns_done turns hd hrest
    · cases turns with
      | zero =>
        have := hdue t ht
        omega
      | succ turns =>
        refine archiveTurns_completes hf turns hholds (fun t' ht' => ?_) hrest
        have := hdue t' ht'
        omega

/-- Turns after turns. -/
theorem archiveTurns_add : ∀ (n k : Nat) (m : ArchiveMemory) {w : ArchiveWorld},
    Exec (archiveSem E) (setup.archiveTurns (n + k) m) w m' w' ↔
      ∃ m₁ w₁, Exec (archiveSem E) (setup.archiveTurns n m) w m₁ w₁ ∧ Exec (archiveSem E) (setup.archiveTurns k m₁) w₁ m' w'
  | 0, k, m, w => by
    simp [archiveTurns, Exec.pure_iff]
  | n + 1, k, m, w => by
    rw [Nat.add_right_comm]
    simp only [archiveTurns, Exec.bind_iff, archiveTurns_add n k]
    constructor
    · rintro ⟨m₁, w₁, hturn, m₂, w₂, hn, hk⟩
      exact ⟨m₂, w₂, ⟨m₁, w₁, hturn, hn⟩, hk⟩
    · rintro ⟨m₂, w₂, ⟨m₁, w₁, hturn, hn⟩, hk⟩
      exact ⟨m₁, w₁, hturn, m₂, w₂, hn, hk⟩

end ArchiveSetup

/-- Whatever has failed in the turns before, and whatever other workers do: once the statements and scans of the
backfill stop failing, 31 turns later the history is complete, and it stays complete. -/
theorem history_completed (setup : ArchiveSetup) {E E' : ArchiveEnv} {before turns : Nat} {w₀ : ArchiveWorld}
    (hrun : setup.shouldRun = true) (htarget : w₀.history.target = setup.f0) (hfails : ¬E'.fails) (hturns : 31 ≤ turns)
    (hbefore : Exec (archiveSem E) (setup.archiveTurns before setup.start) w₀ m w)
    (hafter : Exec (archiveSem E') (setup.archiveTurns turns m) w m' w') :
    m'.historicalDone = true ∧ setup.Complete w'.db := by
  have hholds : setup.Holds m w := ArchiveSetup.exec_archiveTurns before (ArchiveSetup.holds_start hrun htarget) hbefore
  obtain ⟨extra, rfl⟩ := Nat.exists_eq_add_of_le hturns
  obtain ⟨m₁, w₁, hx, hrest⟩ := (ArchiveSetup.archiveTurns_add 31 extra m).1 hafter
  have hdone : m₁.historicalDone = true := by
    refine ArchiveSetup.archiveTurns_completes hfails 30 hholds (fun t ht => ?_) hx
    have hdue := hholds.due t ht
    unfold ArchiveSetup.longestPause at hdue
    omega
  have hdone' := ArchiveSetup.archiveTurns_done extra hdone hrest
  have hholds' := ArchiveSetup.exec_archiveTurns extra (ArchiveSetup.exec_archiveTurns 31 hholds hx) hrest
  exact ⟨hdone', hholds'.complete hdone'⟩

/-- Everything is answered, and other workers may do anything to gaps. -/
def healthyEnv : ArchiveEnv := ⟨False, (· = 5), False, fun _ => true, fun _ _ => True⟩

theorem backfillSem_mono {H H' : BackfillEnv} (hf : H.fails → H'.fails) (ho : ∀ v e, H.others v e → H'.others v e)
    (hc : ∀ c, H.finality c → H'.finality c) : ∀ op w r w', backfillSem H op w r w' → backfillSem H' op w r w'
  | .activeValidatorsAt .., _, _, _, ⟨hw, h⟩ => ⟨hw, h.imp_right fun h => ⟨hf h.1, h.2⟩⟩
  | .validatorsWithCompletedScan .., _, _, _, ⟨hw, h⟩ => ⟨hw, h.imp_right fun h => ⟨hf h.1, h.2⟩⟩
  | .scanEpoch .., _, _, _, ⟨hw, hs, h⟩ =>
    ⟨hw, ⟨hs.registry, hs.kept, fun h => (hs.fresh h).imp_right fun h => h.imp_left (ho _ _)⟩,
      h.imp_right fun h => ⟨hf h.1, h.2⟩⟩
  | .updateValidatorsScannedEpoch .., _, _, _, h => h.imp_right fun h => ⟨hf h.1, h.2⟩
  | .updateHeartbeat, _, _, _, ⟨hw, h⟩ => ⟨hw, h.imp_right fun h => ⟨hf h.1, h.2⟩⟩
  | .getFinalityCheckpoints, _, _, _, h => h.imp (fun ⟨c, h, hr⟩ => ⟨c, hc c h, hr⟩) fun h => ⟨hf h.1, h.2⟩

theorem healthy_total : ∀ op w, ∃ r w', archiveSem healthyEnv op w r w'
  | .now, w => ⟨_, w, rfl, .refl w⟩
  | .sleep s, w => ⟨(), { w with clock := w.clock + 1000 * s }, le_rfl,
      ⟨Nat.le_add_right _ _, rfl, fun _ _ => rfl, fun _ _ => id, fun _ _ => .inl⟩⟩
  | .getFinalityCheckpoints, w => ⟨_, w, .refl w, .inl ⟨5, rfl, rfl⟩⟩
  | .recentGaps .., w => ⟨_, w, .refl w, .inl rfl⟩
  | .repair e vs _, w => by
    refine ⟨.ok (), { w with history := { w.history with db := w.db.markComplete vs e } },
      ⟨le_rfl, rfl, fun _ _ => rfl, fun v y hc => ?_, fun _ _ _ => .inr trivial⟩, .inl ⟨rfl, fun v hv => ?_⟩⟩
    · show (w.db.markComplete vs e).completed v y = true
      rw [Db.markComplete_completed, hc, Bool.true_or]
    · show (w.db.markComplete vs e).completed v e = true
      rw [Db.markComplete_completed]
      simp [hv]
  | .report .., w => ⟨(), w, .refl w⟩
  | .backfill op, w => by
    obtain ⟨r, history, hs⟩ := quiet_total 0 op w.history
    refine ⟨r, ⟨history, w.clock⟩, le_rfl, fun _ _ _ => .inr trivial, ?_⟩
    refine @backfillSem_mono (.quiet 0) healthyEnv.history id (fun _ _ _ => trivial) (fun c hc => ?_) op _ _ _ hs
    obtain rfl : c = 0 := hc
    exact Nat.zero_lt_two

/-- Validator 1 is active from the start and nothing is scanned. -/
def firstSetup : ArchiveSetup := ⟨⟨false, none, .auto⟩, [1], .ofList [(1, 0, none)], 3, true, fun _ => false⟩

def firstWorld : ArchiveWorld := ⟨⟨{ Db.empty with validators := .ofList [(1, ⟨0, none, none⟩)] }, 3⟩, 0⟩

/-- Epoch 2 of validator 1 is completed after the 31 turns. -/
theorem history_completed_first : ∃ m w m' w', Exec (archiveSem healthyEnv) (firstSetup.archiveTurns 1 firstSetup.start) firstWorld m w ∧
    Exec (archiveSem healthyEnv) (firstSetup.archiveTurns 31 m) w m' w' ∧ w'.db.completed 1 2 = true := by
  obtain ⟨m, w, hbefore⟩ := Exec.exists healthy_total (firstSetup.archiveTurns 1 firstSetup.start) firstWorld
  obtain ⟨m', w', hafter⟩ := Exec.exists healthy_total (firstSetup.archiveTurns 31 m) w
  obtain ⟨-, hcomplete⟩ := history_completed firstSetup rfl rfl id le_rfl hbefore hafter
  have hactive : activeIn w'.db.validators 1 2 :=
    ((exec_meanwhile hbefore).trans (exec_meanwhile hafter)).activeIn_iff 1 2 |>.2 ⟨⟨0, none, none⟩, rfl, rfl⟩
  exact ⟨m, w, m', w', hbefore, hafter, hcomplete 1 0 rfl 2 (by decide) (by decide) hactive⟩

/-! ## The startup check -/

variable {db : Db} {v e : Nat}

/-- The epochs of a range that are completed for the validator. -/
def coveredIn (v start last : Nat) (db : Db) : List Nat :=
  (db.completedScans.select fun (u, e) _ => u == v && decide (start ≤ e) && decide (e ≤ last)).map (·.1.2)

theorem mem_coveredIn {start last : Nat} : e ∈ coveredIn v start last db ↔ start ≤ e ∧ e ≤ last ∧ db.completed v e = true := by
  unfold coveredIn Db.completed
  rw [List.mem_map]
  constructor
  · rintro ⟨⟨⟨u, e'⟩, x⟩, hmem, rfl⟩
    obtain ⟨hget, hp⟩ := Table.mem_select.1 hmem
    simp only [Bool.and_eq_true, beq_iff_eq, decide_eq_true_eq] at hp
    obtain ⟨⟨rfl, h1⟩, h2⟩ := hp
    exact ⟨h1, h2, Table.has_iff.2 ⟨x, hget⟩⟩
  · rintro ⟨h1, h2, hc⟩
    obtain ⟨x, hget⟩ := Table.has_iff.1 hc
    exact ⟨((v, e), x), Table.mem_select.2 ⟨hget, by simp [h1, h2]⟩, rfl⟩

/-- One validator's rows differ in their epochs. -/
theorem nodup_coveredIn {start last : Nat} : (coveredIn v start last db).Nodup := by
  unfold coveredIn
  have hkeys := (List.nodup_map_iff_inj_on (List.Nodup.of_map _ db.completedScans.nodup)).1 db.completedScans.nodup
  refine ((List.Nodup.of_map _ db.completedScans.nodup).filter _).map_on ?_
  rintro ⟨⟨u, e⟩, x⟩ hx ⟨⟨u', e'⟩, x'⟩ hx' (heq : e = e')
  obtain ⟨hmem, hp⟩ := List.mem_filter.1 hx
  obtain ⟨hmem', hp'⟩ := List.mem_filter.1 hx'
  simp only [Bool.and_eq_true, beq_iff_eq] at hp hp'
  exact hkeys _ hmem _ hmem' (by simp [hp.1.1, hp'.1.1, heq])

/-- A range has as many completed epochs as it has epochs, or fewer. -/
theorem length_coveredIn {start last : Nat} : (coveredIn v start last db).length ≤ last + 1 - start := by
  have hsub : ∀ e ∈ coveredIn v start last db, e ∈ List.range' start (last + 1 - start) := by
    intro e he
    obtain ⟨h1, h2, -⟩ := mem_coveredIn.1 he
    rw [List.mem_range'_1]
    omega
  have hle := (nodup_coveredIn.subperm hsub).length_le
  rwa [List.length_range'] at hle

/-- It has as many exactly if all are completed. -/
theorem completed_of_length {start last : Nat} (h : last + 1 - start ≤ (coveredIn v start last db).length)
    (h1 : start ≤ e) (h2 : e ≤ last) : db.completed v e = true := by
  have hsub : ∀ e ∈ coveredIn v start last db, e ∈ List.range' start (last + 1 - start) := by
    intro e he
    obtain ⟨h1, h2, -⟩ := mem_coveredIn.1 he
    rw [List.mem_range'_1]
    omega
  have hperm := (nodup_coveredIn.subperm hsub).perm_of_length_le (by rwa [List.length_range'])
  have hmem : e ∈ coveredIn v start last db := hperm.mem_iff.2 (by rw [List.mem_range'_1]; omega)
  exact (mem_coveredIn.1 hmem).2.2

/-- Bounded summands that reach the sum of their bounds reach each bound. -/
theorem eq_of_sum_le {α : Type} {f g : α → Nat} : ∀ {l : List α}, (∀ x ∈ l, f x ≤ g x) → (l.map g).sum ≤ (l.map f).sum →
    ∀ x ∈ l, g x ≤ f x
  | [], _, _, x, hx => by cases hx
  | y :: l, hle, hsum, x, hx => by
    have hrest : (l.map f).sum ≤ (l.map g).sum := List.sum_le_sum fun z hz => hle z (List.mem_cons_of_mem _ hz)
    have hy := hle y (List.mem_cons_self ..)
    simp only [List.map_cons, List.sum_cons] at hsum
    rcases List.mem_cons.1 hx with rfl | hx
    · omega
    · exact eq_of_sum_le (fun z hz => hle z (List.mem_cons_of_mem _ hz)) (by omega) x hx

theorem countCoveredValidatorEpochs_eq (ranges : List (Nat × Nat × Nat)) :
    db.countCoveredValidatorEpochs ranges = (ranges.map fun r => (coveredIn r.1 r.2.1 r.2.2 db).length).sum := by
  unfold Db.countCoveredValidatorEpochs
  congr 1
  apply List.map_congr_left
  rintro ⟨v, start, last⟩ -
  exact (List.length_map ..).symm

/-- The check finds nothing missing only where every pair of every range is completed. -/
theorem missing_eq_zero {ranges : List (Nat × Nat × Nat)} {found : Except Error Nat}
    (hranges : ∀ r ∈ ranges, r.2.1 ≤ r.2.2) (hfound : found.toOption.getD 0 ≤ db.countCoveredValidatorEpochs ranges)
    (h : missingValidatorEpochs ranges found = 0) : ∀ r ∈ ranges, ∀ e, r.2.1 ≤ e → e ≤ r.2.2 → db.completed r.1 e = true := by
  have hexpected : (ranges.map fun r => r.2.2 - r.2.1 + 1).sum ≤ found.toOption.getD 0 := Nat.sub_eq_zero_iff_le.1 h
  have hsum := hexpected.trans hfound
  rw [countCoveredValidatorEpochs_eq] at hsum
  have hbound : ∀ r ∈ ranges, (coveredIn r.1 r.2.1 r.2.2 db).length ≤ r.2.2 - r.2.1 + 1 := by
    intro r hr
    have hle : (coveredIn r.1 r.2.1 r.2.2 db).length ≤ r.2.2 + 1 - r.2.1 := length_coveredIn
    have hrange := hranges r hr
    omega
  intro r hr e h1 h2
  have hge := eq_of_sum_le hbound hsum r hr
  have hrange := hranges r hr
  have hall : r.2.2 + 1 - r.2.1 ≤ (coveredIn r.1 r.2.1 r.2.2 db).length := by omega
  exact completed_of_length hall h1 h2

/-- A range goes from where a sweep of the validator would start up to its watermark. -/
theorem mem_coverageRanges {config : BackfillConfig} {state : ScanState} {start last : Nat} :
    (v, start, last) ∈ coverageRanges config state ↔ ∃ activation, state.get v = some (activation, some last) ∧
      start = computeStart config true activation (some last) ∧ start ≤ last := by
  unfold coverageRanges
  rw [List.mem_filterMap]
  constructor
  · rintro ⟨⟨u, activation, l⟩, hmem, hsome⟩
    cases l with
    | none => cases hsome
    | some last' =>
      simp only [Option.bind_some] at hsome
      split at hsome
      · cases hsome
      · rename_i hlt
        cases hsome
        exact ⟨activation, Table.mem_rows.1 hmem, rfl, not_lt.1 hlt⟩
  · rintro ⟨activation, hget, rfl, hle⟩
    refine ⟨(v, activation, some last), Table.mem_rows.2 hget, ?_⟩
    simp only [Option.bind_some]
    exact if_neg (not_lt.2 hle)

/-- No statement of a backfill takes a completion back. -/
theorem backfillSem_kept {H : BackfillEnv} {op : BackfillOp} {w w' : BackfillWorld} {r : op.Result} {v e : Nat}
    (h : backfillSem H op w r w') (hc : w.db.completed v e = true) : w'.db.completed v e = true := by
  cases op with
  | activeValidatorsAt => rw [h.1]; exact hc
  | validatorsWithCompletedScan => rw [h.1]; exact hc
  | updateHeartbeat => rw [h.1]; exact hc
  | scanEpoch => exact h.2.1.kept hc
  | updateValidatorsScannedEpoch =>
    rcases h with ⟨-, hw⟩ | ⟨-, _, -, hw⟩
    · rw [hw]; exact hc
    · rw [hw]; exact hc
  | getFinalityCheckpoints =>
    rcases h with ⟨_, -, -, hw⟩ | ⟨-, _, -, hw⟩
    · rw [hw]; exact hc
    · rw [hw]; exact hc

/-- If startup found nothing missing, a contiguous backfill leaves no hole from each validator's first epoch on, and not
only from its watermark on. -/
theorem checked_history_complete (config : BackfillConfig) (state : ScanState) (found : Except Error Nat) (fuel target : Nat)
    (extend : Bool) {db : Db} {w : BackfillWorld} (hcontiguous : config.nonContiguousBackfill = false)
    (hfound : found.toOption.getD 0 ≤ db.countCoveredValidatorEpochs (coverageRanges config state))
    (hcheck : missingValidatorEpochs (coverageRanges config state) found = 0) (hw : w.target = target)
    (hsince : ∀ v e, db.completed v e = true → w.db.completed v e = true) :
    (backfillAlone H).Ok (runBackfill config fuel state target extend) w
      (CaughtUp fun v => (state.get v).map fun (activation, l) => computeStart config true activation l)
      fun _ _ => H.fails := by
  have hcovered : ∀ v activation last, state.get v = some (activation, some last) → ∀ e,
      computeStart config true activation (some last) ≤ e → e ≤ last → w.db.completed v e = true := by
    intro v activation last hget e h1 h2
    have hranges : ∀ r ∈ coverageRanges config state, r.2.1 ≤ r.2.2 := by
      rintro ⟨u, start, stop⟩ hr
      obtain ⟨_, -, -, hle⟩ := mem_coverageRanges.1 hr
      exact hle
    have hmem : (v, computeStart config true activation (some last), last) ∈ coverageRanges config state :=
      mem_coverageRanges.2 ⟨activation, hget, rfl, h1.trans h2⟩
    exact hsince v e (missing_eq_zero hranges hfound hcheck _ hmem e h1 h2)
  have hrun : (backfillAlone H).Ok (runBackfill config fuel state target extend) w (CaughtUp (initialStart config state))
      fun _ _ => H.fails := runBackfill_caughtUp fuel extend hw fun hnc => by
    rw [hcontiguous] at hnc
    cases hnc
  refine (Contract.Ok.frame (C := backfillAlone H) (I := fun w' => ∀ v e, w.db.completed v e = true → w'.db.completed v e = true)
    (fun _ _ hr hI => hr ▸ hI) (fun _ _ _ _ _ hs hI v e hc => backfillSem_kept hs (hI v e hc)) hrun fun _ _ => id).mono ?_
    fun _ _ hz => hz.1
  rintro final w' ⟨hcaught, hkept⟩ t ht
  obtain ⟨htarget, hn⟩ := hcaught t ht
  refine ⟨htarget, fun v start hv e h1 h2 hact => ?_⟩
  obtain ⟨⟨activation, l⟩, hget, rfl⟩ := Option.map_eq_some_iff.1 hv
  have hfirst : initialStart config state v = some (computeStart config false activation l) := by
    unfold initialStart
    rw [hget, hcontiguous]
    rfl
  by_cases hlt : e < computeStart config false activation l
  · rcases (lt_computeStart activation e l).1 hlt with hlt | ⟨last, rfl, hle⟩
    · exact absurd h1 (not_le.2 hlt)
    · exact hkept v e (hcovered v activation last hget e h1 hle)
  · exact hn v _ hfirst e (not_lt.1 hlt) h2 hact

/-- Validator 1 is scanned up to epoch 2. -/
def scannedDb : Db :=
  (firstWorld.db.markComplete [1] 0 |>.markComplete [1] 1 |>.markComplete [1] 2).updateValidatorsScannedEpoch [1] 2

def scannedState : ScanState := scannedDb.validatorScanState [1]

/-- Nothing is missing, and the backfill adds epoch 3. -/
theorem checked_history_complete_scanned :
    (backfillAlone (.quiet 5)).Ok (runBackfill firstSetup.config 2 scannedState 3 false) ⟨scannedDb, 3⟩
      (CaughtUp fun v => (scannedState.get v).map fun (activation, l) => computeStart firstSetup.config true activation l)
      fun _ _ => False := by
  have hfound : (Except.ok 3 : Except Error Nat).toOption.getD 0 ≤
      scannedDb.countCoveredValidatorEpochs (coverageRanges firstSetup.config scannedState) := by decide
  exact checked_history_complete firstSetup.config scannedState (.ok 3) 2 3 false rfl hfound (by decide) rfl fun _ _ => id

end BeaconIndexer
