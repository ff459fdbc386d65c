/-
What a backfill covers (`src/backfill.rs`): every pass completes its range for every validator from the
validator's start, and no pair is scanned twice or above the finality target. After a non-contiguous sweep a
watermark above the target is trusted, so an extension of the target can leave a hole.
-/
import BeaconIndexer.Backfill
import BeaconIndexer.Proofs.Passes

namespace BeaconIndexer

open Effects Relational

variable {config : BackfillConfig} {mode : EffectiveScanMode} {nonContiguous : Bool} {E : BackfillEnv}

/-! ## Watermarks -/

theorem computeStart_true (activation : Nat) (l l' : Option Nat) :
    computeStart config true activation l = computeStart config true activation l' := rfl

theorem computeStart_advanced (activation epoch : Nat) (l : Option Nat) :
    computeStart config false activation (some (advanced epoch l)) =
      max (epoch + 1) (computeStart config false activation l) := by
  unfold computeStart advanced
  cases l <;> cases config.maxBackfillDepth <;> simp <;> omega

theorem computeStart_le_advanced (activation epoch : Nat) (l : Option Nat) :
    computeStart config nonContiguous activation l ≤
      computeStart config nonContiguous activation (some (advanced epoch l)) := by
  cases nonContiguous with
  | true => exact le_rfl
  | false => rw [computeStart_advanced]; exact le_max_right _ _

theorem computeStart_advanced_le (activation epoch : Nat) (l : Option Nat) :
    computeStart config nonContiguous activation (some (advanced epoch l)) ≤
      max (epoch + 1) (computeStart config nonContiguous activation l) := by
  cases nonContiguous with
  | true => exact le_max_right _ _
  | false => rw [computeStart_advanced]

/-- A start in contiguous mode is past the watermark and not before the start of the sweep. -/
theorem lt_computeStart (activation e : Nat) (l : Option Nat) :
    e < computeStart config false activation l ↔
      e < computeStart config true activation none ∨ ∃ last, l = some last ∧ e ≤ last := by
  unfold computeStart
  cases l <;> cases config.maxBackfillDepth <;> simp <;> omega

theorem advanced_advanced {e e' : Nat} (h : e ≤ e') (l : Option Nat) : advanced e' (some (advanced e l)) = advanced e' l := by
  unfold advanced
  cases l <;> simp <;> omega

theorem ScanState.get_advance (state : ScanState) (validators : List Nat) (epoch v : Nat) :
    (state.advance validators epoch).get v = (state.get v).map fun (activation, l) =>
      if v ∈ validators then (activation, some (advanced epoch l)) else (activation, l) := by
  unfold ScanState.advance
  rw [Table.get_update]
  cases state.get v with
  | none => rfl
  | some x => simp

theorem ScanState.mem_tracked {state : ScanState} {v : Nat} : v ∈ state.tracked ↔ ∃ activation l, state.get v = some (activation, l) := by
  unfold ScanState.tracked
  simp only [List.mem_map, Prod.exists, exists_and_right, exists_eq_right]
  constructor
  · rintro ⟨a, l, h⟩; exact ⟨a, l, Table.mem_rows.1 h⟩
  · rintro ⟨a, l, h⟩; exact ⟨a, l, Table.mem_rows.2 h⟩

theorem mem_candidates {state : ScanState} {epoch v : Nat} {active : List Nat} :
    v ∈ candidates config nonContiguous state epoch active ↔
      v ∈ active ∧ ∃ activation l, state.get v = some (activation, l) ∧ computeStart config nonContiguous activation l ≤ epoch := by
  unfold candidates
  rw [List.mem_filter, Option.any_eq_true]
  simp

/-- The first epoch of a pass is at or below every validator's start. -/
theorem minStart_spec (state : ScanState) (target v activation : Nat) (l : Option Nat)
    (h : state.get v = some (activation, l)) :
    (starts config nonContiguous state).min?.getD (target + 1) ≤ computeStart config nonContiguous activation l := by
  have hmem : computeStart config nonContiguous activation l ∈ starts config nonContiguous state :=
    List.mem_map.2 ⟨(v, activation, l), Table.mem_rows.2 h, rfl⟩
  cases hmin : (starts config nonContiguous state).min? with
  | none =>
    rw [List.min?_eq_none_iff.1 hmin] at hmem
    cases hmem
  | some m => exact (List.min?_eq_some_iff.1 hmin).2 _ hmem

/-- A pass that runs has a validator that is due. -/
theorem minStart_le (state : ScanState) (target : Nat) (h : (starts config nonContiguous state).min?.getD (target + 1) ≤ target) :
    ∃ v activation l, state.get v = some (activation, l) ∧ computeStart config nonContiguous activation l ≤ target := by
  cases hmin : (starts config nonContiguous state).min? with
  | none => simp [hmin] at h
  | some m =>
    rw [hmin, Option.getD_some] at h
    obtain ⟨⟨v, activation, l⟩, hmem, hm⟩ := List.mem_map.1 (List.min?_mem hmin)
    exact ⟨v, activation, l, Table.mem_rows.1 hmem, hm.trans_le h⟩

/-! ## Statements and requests -/

/-- A scan is of an epoch at or below the current target and of pairs that are not completed. -/
def ScanAllowed : BackfillOp → BackfillWorld → Prop
  | .scanEpoch e vs _, w => e ≤ w.target ∧ ∀ v ∈ vs, w.db.completed v e = false
  | _, _ => True

/-- A backfill on its own that promises to issue allowed scans only. -/
abbrev backfillAlone (E : BackfillEnv) : Contract backfill BackfillWorld :=
  (Contract.alone (backfillSem E)).withGuar ScanAllowed

/-- One effect, by what its answers are. -/
theorem ok_ask {α : Type} {op : BackfillOp} {f : op.Result → Except BackfillError α} {w : BackfillWorld}
    {Q : α → BackfillWorld → Prop} {Z : BackfillError → BackfillWorld → Prop} (hg : ScanAllowed op w)
    (h : ∀ r w', backfillSem E op w r w' → match f r with | .ok a => Q a w' | .error er => Z er w') :
    (backfillAlone E).Ok (ask (S := backfill) op f) w Q Z := by
  refine Contract.Ok.ask (fun s₁ h1 => ?_) fun s₁ r s₂ s₃ h1 h2 h3 => ?_
  · obtain rfl : w = s₁ := h1
    exact hg
  · obtain rfl : w = s₁ := h1
    obtain rfl : s₂ = s₃ := h3
    have hpost := h r s₂ h2
    revert hpost
    cases f r <;> exact id

theorem ok_activeValidatorsAt (tracked : List Nat) (epoch : Nat) (w : BackfillWorld) :
    (backfillAlone E).Ok (BackfillTask.activeValidatorsAt tracked epoch) w
      (fun r w' => r = w.db.activeValidatorsAt tracked epoch ∧ w' = w) fun _ _ => E.fails := by
  refine ok_ask trivial ?_
  rintro _ w' ⟨rfl, rfl | ⟨hf, er, rfl⟩⟩
  · exact ⟨rfl, rfl⟩
  · exact hf

theorem ok_validatorsWithCompletedScan (validators : List Nat) (epoch : Nat) (w : BackfillWorld) :
    (backfillAlone E).Ok (BackfillTask.validatorsWithCompletedScan validators epoch) w
      (fun r w' => r = validators.filter (w.db.completed · epoch) ∧ w' = w) fun _ _ => E.fails := by
  refine ok_ask trivial ?_
  rintro _ w' ⟨rfl, rfl | ⟨hf, er, rfl⟩⟩
  · exact ⟨rfl, rfl⟩
  · exact hf

theorem ok_scanEpoch {epoch : Nat} {validators : List Nat} {w : BackfillWorld} (he : epoch ≤ w.target)
    (hv : ∀ v ∈ validators, w.db.completed v epoch = false) :
    (backfillAlone E).Ok (BackfillTask.scanEpoch epoch validators mode) w
      (fun _ w' => w'.target = w.target ∧ Completes E.others epoch validators w.db w'.db ∧
        ∀ v ∈ validators, w'.db.completed v epoch = true) fun _ _ => E.fails := by
  refine ok_ask ⟨he, hv⟩ ?_
  rintro _ w' ⟨ht, hc, ⟨rfl, hdone⟩ | ⟨hf, er, rfl⟩⟩
  · exact ⟨ht, hc, hdone⟩
  · exact hf

theorem ok_updateValidatorsScannedEpoch (validators : List Nat) (epoch : Nat) (w : BackfillWorld) :
    (backfillAlone E).Ok (BackfillTask.updateValidatorsScannedEpoch validators epoch) w
      (fun _ w' => w' = { w with db := w.db.updateValidatorsScannedEpoch validators epoch }) fun _ _ => E.fails := by
  refine ok_ask trivial ?_
  rintro _ w' (⟨rfl, rfl⟩ | ⟨hf, er, rfl, rfl⟩)
  · exact rfl
  · exact hf

theorem ok_heartbeat (epoch : Nat) (w : BackfillWorld) :
    (backfillAlone E).Ok (heartbeat epoch) w (fun _ w' => w' = w) fun _ _ => E.fails := by
  unfold heartbeat
  refine Contract.Ok.ite (fun _ => ok_ask trivial ?_) fun _ => Contract.Ok.pure fun _ h => h.symm
  rintro _ w' ⟨rfl, rfl | ⟨hf, er, rfl⟩⟩
  · exact rfl
  · exact hf

/-- A new target is later than the current one and is the one finality allows. -/
theorem ok_extendTarget {target : Nat} {w : BackfillWorld} (ht : w.target = target) :
    (backfillAlone E).Ok (extendTarget target) w
      (fun r w' => w' = { w with target := r.getD target } ∧ (∀ n, r = some n → target < n) ∧
        ∃ c, E.finality c ∧ r = (ChainSpec.finalizedScanTarget c).filter (target < ·)) fun _ _ => E.fails := by
  refine Contract.Ok.bind (ok_ask trivial ?_)
  rintro _ w' (⟨c, hc, rfl, rfl⟩ | ⟨hf, er, rfl, rfl⟩)
  · refine Contract.Ok.pure fun w' hw => ?_
    obtain rfl : _ = w' := hw
    refine ⟨?_, fun n hn => ?_, c, hc, rfl⟩
    · cases ChainSpec.finalizedScanTarget c with
      | none => simp [ht]
      | some n =>
        by_cases hlt : target < n
        · simp [Option.filter, hlt, ht, hlt.le]
        · simp [Option.filter, hlt, ht]
          omega
    · simpa using (Option.filter_eq_some_iff.1 hn).2
  · exact hf

theorem activeIn_updateValidatorsScannedEpoch (db : Db) (validators : List Nat) (epoch v e : Nat) :
    activeIn (db.updateValidatorsScannedEpoch validators epoch).validators v e ↔ activeIn db.validators v e := by
  unfold activeIn Db.updateValidatorsScannedEpoch
  simp only [Table.get_update]
  cases db.validators.get v with
  | none => simp
  | some row =>
    simp only [Option.map_some, Option.some.injEq, exists_eq_left']
    split <;> rfl

/-! ## A pass -/

/-- The epochs from `start` to before `stop` have been gone through, from watermarks `state` in world `w`. -/
structure Swept (config : BackfillConfig) (E : BackfillEnv) (nonContiguous : Bool) (start stop : Nat) (state : ScanState)
    (w : BackfillWorld) (state' : ScanState) (w' : BackfillWorld) : Prop where
  target : w'.target = w.target
  active : ∀ v e, activeIn w'.db.validators v e ↔ activeIn w.db.validators v e
  kept : ∀ {v e}, w.db.completed v e = true → w'.db.completed v e = true
  known : ∀ {v x}, state'.get v = some x → ∃ activation l, state.get v = some (activation, l)
  watermark : ∀ {v activation l}, state.get v = some (activation, l) → ∃ l', state'.get v = some (activation, l') ∧
    (l' = l ∨ ∃ e, l' = some (advanced e l) ∧ start ≤ e ∧ e < stop ∧ activeIn w.db.validators v e)
  visited : ∀ {v activation l e}, state.get v = some (activation, l) → computeStart config nonContiguous activation l ≤ e →
    start ≤ e → e < stop → activeIn w.db.validators v e → w'.db.completed v e = true
  fresh : ∀ {v e}, w'.db.completed v e = true → w.db.completed v e = true ∨ E.others v e ∨
    (e < stop ∧ ∃ activation l, state.get v = some (activation, l) ∧ computeStart config nonContiguous activation l ≤ e)

theorem Swept.refl (start : Nat) (state : ScanState) (w : BackfillWorld) :
    Swept config E nonContiguous start start state w state w where
  target := rfl
  active _ _ := Iff.rfl
  kept := id
  known h := ⟨_, _, h⟩
  watermark h := ⟨_, h, .inl rfl⟩
  visited _ _ h1 h2 _ := by omega
  fresh := .inl

theorem Swept.trans {a b c : Nat} (hab : a ≤ b) (hbc : b ≤ c) {s₁ s₂ s₃ : ScanState} {w₁ w₂ w₃ : BackfillWorld}
    (h : Swept config E nonContiguous a b s₁ w₁ s₂ w₂) (h' : Swept config E nonContiguous b c s₂ w₂ s₃ w₃) :
    Swept config E nonContiguous a c s₁ w₁ s₃ w₃ where
  target := h'.target.trans h.target
  active v e := (h'.active v e).trans (h.active v e)
  kept hc := h'.kept (h.kept hc)
  known hx := by
    obtain ⟨_, _, hx⟩ := h'.known hx
    exact h.known hx
  watermark hs := by
    obtain ⟨l₂, h₂, hl₂⟩ := h.watermark hs
    obtain ⟨l₃, h₃, hl₃⟩ := h'.watermark h₂
    refine ⟨l₃, h₃, ?_⟩
    rcases hl₃ with rfl | ⟨e, rfl, he, he', hact⟩
    · rcases hl₂ with rfl | ⟨e, rfl, he, he', hact⟩
      · exact .inl rfl
      · exact .inr ⟨e, rfl, he, by omega, hact⟩
    · refine .inr ⟨e, ?_, by omega, he', (h.active _ _).1 hact⟩
      rcases hl₂ with rfl | ⟨e₂, rfl, -, he₂, -⟩
      · rfl
      · rw [advanced_advanced (by omega)]
  visited {v activation l e} hs hle ha hc hact := by
    by_cases hb : e < b
    · exact h'.kept (h.visited hs hle ha hb hact)
    · -- the first part may have raised the watermark, but only to an epoch before `e`
      obtain ⟨l₂, h₂, hl₂⟩ := h.watermark hs
      refine h'.visited h₂ ?_ (by omega) hc ((h.active _ _).2 hact)
      rcases hl₂ with rfl | ⟨e₂, rfl, -, he₂, -⟩
      · exact hle
      · exact (computeStart_advanced_le _ _ _).trans (max_le (by omega) hle)
  fresh {v e} hc := by
    rcases h'.fresh hc with hc | ho | ⟨hlt, activation, l₂, h₂, hle⟩
    · rcases h.fresh hc with hc | ho | ⟨hlt, hx⟩
      · exact .inl hc
      · exact .inr (.inl ho)
      · exact .inr (.inr ⟨by omega, hx⟩)
    · exact .inr (.inl ho)
    · obtain ⟨activation', l, hs⟩ := h.known h₂
      obtain ⟨l₂', h₂', hl⟩ := h.watermark hs
      rw [h₂] at h₂'
      cases h₂'
      refine .inr (.inr ⟨hlt, activation, l, hs, ?_⟩)
      rcases hl with rfl | ⟨e₂, rfl, -⟩
      · exact hle
      · exact (computeStart_le_advanced _ _ _).trans hle

/-- Nothing to scan in an epoch: every active validator of the map is completed or not due. -/
theorem Swept.skip {epoch : Nat} {state : ScanState} {w : BackfillWorld}
    (h : ∀ v activation l, state.get v = some (activation, l) → computeStart config nonContiguous activation l ≤ epoch →
      activeIn w.db.validators v epoch → w.db.completed v epoch = true) :
    Swept config E nonContiguous epoch (epoch + 1) state w state w where
  target := rfl
  active _ _ := Iff.rfl
  kept := id
  known h := ⟨_, _, h⟩
  watermark h := ⟨_, h, .inl rfl⟩
  visited {v activation l e} hs hle h1 h2 hact := by
    obtain rfl : e = epoch := by omega
    exact h _ _ _ hs hle hact
  fresh := .inl

/-- The validators asked about are those of the map. -/
def ScanState.Tracks (state : ScanState) (tracked : List Nat) : Prop :=
  ∀ v, v ∈ tracked ↔ ∃ activation l, state.get v = some (activation, l)

theorem ScanState.tracks (state : ScanState) : state.Tracks state.tracked := fun _ => mem_tracked

theorem Swept.tracks {a b : Nat} {s s' : ScanState} {w w' : BackfillWorld} {tracked : List Nat}
    (h : Swept config E nonContiguous a b s w s' w') (ht : s.Tracks tracked) : s'.Tracks tracked := by
  intro v
  rw [ht v]
  constructor
  · rintro ⟨activation, l, hs⟩
    obtain ⟨l', hs', -⟩ := h.watermark hs
    exact ⟨activation, l', hs'⟩
  · rintro ⟨activation, l, hs⟩
    exact h.known hs

theorem mem_due {state : ScanState} {tracked : List Nat} (ht : state.Tracks tracked) {w : BackfillWorld} {epoch v : Nat} :
    v ∈ candidates config nonContiguous state epoch (w.db.activeValidatorsAt tracked epoch) ↔
      activeIn w.db.validators v epoch ∧
        ∃ activation l, state.get v = some (activation, l) ∧ computeStart config nonContiguous activation l ≤ epoch := by
  rw [mem_candidates, mem_activeValidatorsAt, ht v]
  constructor
  · rintro ⟨⟨_, hact⟩, hs⟩; exact ⟨hact, hs⟩
  · rintro ⟨hact, activation, l, hs, hle⟩; exact ⟨⟨⟨activation, l, hs⟩, hact⟩, activation, l, hs, hle⟩

/-- Scanning validators that are due, active and not completed, among them all that are. -/
theorem scanValidators_swept {epoch : Nat} {state : ScanState} {validators : List Nat} {w : BackfillWorld}
    (he : epoch ≤ w.target)
    (hv : ∀ v, v ∈ validators ↔ (activeIn w.db.validators v epoch ∧
      ∃ activation l, state.get v = some (activation, l) ∧ computeStart config nonContiguous activation l ≤ epoch) ∧
        w.db.completed v epoch = false) :
    (backfillAlone E).Ok (scanValidators mode state epoch validators) w
      (fun state' w' => Swept config E nonContiguous epoch (epoch + 1) state w state' w') fun _ _ => E.fails := by
  unfold scanValidators
  refine Contract.Ok.bind ((ok_scanEpoch he fun v h => ((hv v).1 h).2).imp fun _ w₁ ⟨ht, hc, hdone⟩ => ?_)
  refine Contract.Ok.bind ((ok_updateValidatorsScannedEpoch _ _ w₁).imp fun _ w₂ h₂ => ?_)
  refine Contract.Ok.bind ((ok_heartbeat epoch w₂).imp fun _ w₃ h₃ => ?_)
  subst h₂ h₃
  refine Contract.Ok.pure fun w' hw => ?_
  obtain rfl : _ = w' := hw
  have hcompleted : ∀ v e, (w₁.db.updateValidatorsScannedEpoch validators epoch).completed v e = w₁.db.completed v e :=
    fun _ _ => rfl
  exact {
    target := ht
    active := fun v e => by
      rw [activeIn_updateValidatorsScannedEpoch, hc.registry]
    kept := fun h => hc.kept h
    known := fun {v x} h => by
      rw [ScanState.get_advance, Option.map_eq_some_iff] at h
      obtain ⟨⟨a, l⟩, hs, -⟩ := h
      exact ⟨a, l, hs⟩
    watermark := fun {v activation l} hs => by
      rw [ScanState.get_advance, hs, Option.map_some]
      by_cases hmem : v ∈ validators
      · exact ⟨_, by simp [hmem], .inr ⟨epoch, rfl, le_rfl, by omega, ((hv v).1 hmem).1.1⟩⟩
      · exact ⟨_, by simp [hmem], .inl rfl⟩
    visited := fun {v activation l e} hs hle h1 h2 hact => by
      obtain rfl : e = epoch := by omega
      rw [hcompleted]
      by_cases hwas : w.db.completed v e = true
      · exact hc.kept hwas
      · exact hdone v ((hv v).2 ⟨⟨hact, activation, l, hs, hle⟩, by simpa using hwas⟩)
    fresh := fun {v e} h => by
      rw [hcompleted] at h
      rcases hc.fresh h with h | h | ⟨hmem, rfl⟩
      · exact .inl h
      · exact .inr (.inl h)
      · exact .inr (.inr ⟨by omega, ((hv v).1 hmem).1.2⟩) }

theorem backfillEpoch_swept {epoch : Nat} {state : ScanState} {tracked : List Nat} {w : BackfillWorld}
    (ht : state.Tracks tracked) (he : epoch ≤ w.target) :
    (backfillAlone E).Ok (backfillEpoch config mode nonContiguous tracked state epoch) w
      (fun state' w' => Swept config E nonContiguous epoch (epoch + 1) state w state' w') fun _ _ => E.fails := by
  unfold backfillEpoch
  refine Contract.Ok.bind ((ok_activeValidatorsAt _ _ w).imp fun active w₁ ⟨ha, hw⟩ => ?_)
  subst ha hw
  refine Contract.Ok.ite (fun hempty => ?_) fun _ => ?_
  · refine Contract.Ok.pure fun w' hw => hw ▸ Swept.skip fun v activation l hs hle hact => ?_
    have hmem := (mem_due ht).2 ⟨hact, activation, l, hs, hle⟩
    rw [List.isEmpty_iff.1 hempty] at hmem
    cases hmem
  refine Contract.Ok.bind ((ok_validatorsWithCompletedScan _ _ w₁).imp fun covered w₂ ⟨hcov, hw⟩ => ?_)
  subst hcov hw
  have hmem : ∀ v, v ∈ ((candidates config nonContiguous state epoch (w₂.db.activeValidatorsAt tracked epoch)).filter
      fun v => !((candidates config nonContiguous state epoch (w₂.db.activeValidatorsAt tracked epoch)).filter
        (w₂.db.completed · epoch)).contains v) ↔ (activeIn w₂.db.validators v epoch ∧
      ∃ activation l, state.get v = some (activation, l) ∧ computeStart config nonContiguous activation l ≤ epoch) ∧
        w₂.db.completed v epoch = false := by
    intro v
    rw [← mem_due ht]
    simp
    tauto
  refine Contract.Ok.ite (fun hempty => ?_) fun _ => scanValidators_swept he hmem
  refine Contract.Ok.pure fun w' hw => hw ▸ Swept.skip fun v activation l hs hle hact => ?_
  by_contra hc
  have := (hmem v).2 ⟨⟨hact, activation, l, hs, hle⟩, by simpa using hc⟩
  rw [List.isEmpty_iff.1 hempty] at this
  cases this

theorem backfillEpochs_swept {tracked : List Nat} : ∀ (n start : Nat) {state : ScanState} {w : BackfillWorld},
    state.Tracks tracked → start + n ≤ w.target + 1 →
    (backfillAlone E).Ok ((List.range' start n).foldlM (backfillEpoch config mode nonContiguous tracked) state) w
      (fun state' w' => Swept config E nonContiguous start (start + n) state w state' w') fun _ _ => E.fails
  | 0, start, state, w, _, _ => Contract.Ok.pure fun _ hw => hw ▸ Swept.refl start state w
  | n + 1, start, state, w, ht, hle => by
    rw [List.range'_succ, List.foldlM_cons]
    refine Contract.Ok.bind ((backfillEpoch_swept ht (by omega)).imp fun s₁ w₁ h₁ => ?_)
    refine (backfillEpochs_swept n (start + 1) (h₁.tracks ht) (by rw [h₁.target]; omega)).imp fun s₂ w₂ h₂ => ?_
    have h := h₁.trans (by omega) (by omega) h₂
    rwa [Nat.add_right_comm] at h

/-- What a pass returns: nothing if every start is past the target, else the watermarks after the range from
the least start to the target. -/
def PassResult (config : BackfillConfig) (E : BackfillEnv) (nonContiguous : Bool) (target : Nat) (state : ScanState)
    (w : BackfillWorld) (r : Option ScanState) (w' : BackfillWorld) : Prop :=
  match r with
  | none => w' = w ∧ ∀ v activation l, state.get v = some (activation, l) → target < computeStart config nonContiguous activation l
  | some state' => (∃ v activation l, state.get v = some (activation, l) ∧
      computeStart config nonContiguous activation l ≤ target) ∧
    ∃ start, (∀ v activation l, state.get v = some (activation, l) →
      start ≤ computeStart config nonContiguous activation l) ∧ Swept config E nonContiguous start (target + 1) state w state' w'

theorem backfillPass_spec {target : Nat} {state : ScanState} {w : BackfillWorld} (hw : w.target = target) :
    (backfillAlone E).Ok (backfillPass config mode nonContiguous state target) w
      (PassResult config E nonContiguous target state w) fun _ _ => E.fails := by
  have hstart := @minStart_spec config nonContiguous state target
  unfold backfillPass
  dsimp only
  refine Contract.Ok.ite (fun hlt => ?_) fun hle => ?_
  · exact Contract.Ok.pure fun w' hw' => ⟨hw'.symm, fun v a l hs => lt_of_lt_of_le hlt (hstart v a l hs)⟩
  · refine Contract.Ok.bind ((backfillEpochs_swept _ _ state.tracks (by omega)).imp fun s₁ w₁ h₁ => ?_)
    refine Contract.Ok.pure fun w' hw' => hw' ▸ ⟨minStart_le state target (by omega), _, hstart, ?_⟩
    rwa [Nat.add_sub_cancel' (by omega)] at h₁

/-- The sweep ends with the watermarks of the validators active at the target raised to it. -/
structure Raised (target : Nat) (state : ScanState) (w : BackfillWorld) (state' : ScanState) (w' : BackfillWorld) : Prop where
  unmoved : w'.target = w.target
  active : ∀ v e, activeIn w'.db.validators v e ↔ activeIn w.db.validators v e
  completed : ∀ v e, w'.db.completed v e = w.db.completed v e
  raised : ∀ {v activation l}, state.get v = some (activation, l) → activeIn w.db.validators v target →
    state'.get v = some (activation, some (advanced target l))
  same : ∀ {v activation l}, state.get v = some (activation, l) → ¬activeIn w.db.validators v target →
    state'.get v = some (activation, l)
  known : ∀ {v x}, state'.get v = some x → ∃ activation l, state.get v = some (activation, l)

theorem finishSweep_raised {target : Nat} (state : ScanState) (w : BackfillWorld) :
    (backfillAlone E).Ok (finishSweep state target) w (Raised target state w) fun _ _ => E.fails := by
  have hmem : ∀ v, v ∈ w.db.activeValidatorsAt state.tracked target ↔
      (∃ activation l, state.get v = some (activation, l)) ∧ activeIn w.db.validators v target := by
    intro v
    rw [mem_activeValidatorsAt, ScanState.mem_tracked]
  -- whether or not the statement is issued, it changes neither activity nor completions
  have hraise : (backfillAlone E).Ok (raiseWatermarks (w.db.activeValidatorsAt state.tracked target) target) w
      (fun _ w' => w'.target = w.target ∧ (∀ v e, activeIn w'.db.validators v e ↔ activeIn w.db.validators v e) ∧
        ∀ v e, w'.db.completed v e = w.db.completed v e) fun _ _ => E.fails := by
    unfold raiseWatermarks
    refine Contract.Ok.ite (fun _ => ?_) fun _ => ?_
    · exact Contract.Ok.pure fun w' hw => hw ▸ ⟨rfl, fun _ _ => Iff.rfl, fun _ _ => rfl⟩
    · refine (ok_updateValidatorsScannedEpoch _ _ w).imp fun _ w' hw => ?_
      subst hw
      exact ⟨rfl, fun _ _ => activeIn_updateValidatorsScannedEpoch .., fun _ _ => rfl⟩
  unfold finishSweep
  refine Contract.Ok.bind ((ok_activeValidatorsAt _ _ w).imp fun active w₁ ⟨ha, hw⟩ => ?_)
  subst ha hw
  refine Contract.Ok.bind (hraise.imp fun _ w₂ ⟨ht, hact, hc⟩ => ?_)
  refine Contract.Ok.pure fun w' hw => ?_
  obtain rfl : w₂ = w' := hw
  exact {
    unmoved := ht
    active := hact
    completed := hc
    raised := fun hs ha => by
      rw [ScanState.get_advance, hs, Option.map_some]
      simp [(hmem _).2 ⟨⟨_, _, hs⟩, ha⟩]
    same := fun {v activation l} hs ha => by
      have hno : v ∉ w₁.db.activeValidatorsAt state.tracked target := fun h => ha ((hmem v).1 h).2
      rw [ScanState.get_advance, hs, Option.map_some]
      simp [hno]
    known := fun {v x} h => by
      rw [ScanState.get_advance, Option.map_eq_some_iff] at h
      obtain ⟨⟨a, l⟩, hs, -⟩ := h
      exact ⟨a, l, hs⟩ }

/-! ## Coverage -/

/-- The first epoch that is owed for each validator of the initial map. -/
def initialStart (config : BackfillConfig) (state : ScanState) (v : Nat) : Option Nat :=
  (state.get v).map fun (activation, l) => computeStart config config.nonContiguousBackfill activation l

/-- Every owed pair up to the target is completed. -/
def NoHole (first : Nat → Option Nat) (target : Nat) (db : Db) : Prop :=
  ∀ v start, first v = some start → ∀ e, start ≤ e → e ≤ target → activeIn db.validators v e → db.completed v e = true

/-- The watermarks are earned: every owed pair before a contiguous start is completed. -/
def Filled (config : BackfillConfig) (first : Nat → Option Nat) (state : ScanState) (db : Db) : Prop :=
  ∀ v start, first v = some start → ∃ activation l, state.get v = some (activation, l) ∧
    ∀ e, start ≤ e → e < computeStart config false activation l → activeIn db.validators v e → db.completed v e = true

variable {first : Nat → Option Nat} {target : Nat} {state state' : ScanState} {w w' : BackfillWorld} {start : Nat}

theorem NoHole.mono (h : NoHole first target w.db) (hact : ∀ v e, activeIn w'.db.validators v e ↔ activeIn w.db.validators v e)
    (hkept : ∀ {v e}, w.db.completed v e = true → w'.db.completed v e = true) : NoHole first target w'.db :=
  fun v s hs e h1 h2 ha => hkept (h v s hs e h1 h2 ((hact v e).1 ha))

theorem Filled.noHole (h : Filled config first state w.db)
    (hstart : ∀ v activation l, state.get v = some (activation, l) → target < computeStart config false activation l) :
    NoHole first target w.db := by
  intro v s hs e h1 h2 ha
  obtain ⟨activation, l, hv, hfill⟩ := h v s hs
  exact hfill e h1 (lt_of_le_of_lt h2 (hstart v activation l hv)) ha

/-- A contiguous pass leaves no hole up to its target. -/
theorem Filled.swept_noHole (h : Filled config first state w.db)
    (hstart : ∀ v activation l, state.get v = some (activation, l) → start ≤ computeStart config false activation l)
    (hs : Swept config E false start (target + 1) state w state' w') : NoHole first target w'.db := by
  intro v s hv e h1 h2 ha
  obtain ⟨activation, l, hget, hfill⟩ := h v s hv
  have ha' := (hs.active v e).1 ha
  by_cases hlt : e < computeStart config false activation l
  · exact hs.kept (hfill e h1 hlt ha')
  · have hge := hstart v activation l hget
    exact hs.visited hget (by omega) (by omega) (by omega) ha'

/-- Where the watermark went up during the pass, the earlier pairs are completed as well. -/
theorem Filled.swept (h : Filled config first state w.db) (hn : NoHole first target w'.db)
    (hs : Swept config E false start (target + 1) state w state' w') : Filled config first state' w'.db := by
  intro v s hv
  obtain ⟨activation, l, hget, hfill⟩ := h v s hv
  obtain ⟨l', hget', hl⟩ := hs.watermark hget
  refine ⟨activation, l', hget', fun e h1 hlt ha => ?_⟩
  rcases hl with rfl | ⟨e', rfl, -, he', -⟩
  · exact hs.kept (hfill e h1 hlt ((hs.active v e).1 ha))
  · rw [computeStart_advanced] at hlt
    by_cases hold : e < computeStart config false activation l
    · exact hs.kept (hfill e h1 hold ((hs.active v e).1 ha))
    · exact hn v s hv e h1 (by omega) ha

/-- A sweep leaves no hole: its starts are the owed ones, whatever the watermarks. -/
theorem sweep_noHole (hstart : ∀ v activation l, state.get v = some (activation, l) → start ≤ computeStart config true activation l)
    (hfirst : ∀ v s, first v = some s → ∃ activation l, state.get v = some (activation, l) ∧ s = computeStart config true activation l)
    (hs : Swept config E true start (target + 1) state w state' w') : NoHole first target w'.db := by
  intro v s hv e h1 h2 ha
  obtain ⟨activation, l, hget, rfl⟩ := hfirst v s hv
  have hge := hstart v activation l hget
  exact hs.visited hget h1 (by omega) (by omega) ((hs.active v e).1 ha)

/-- A backfill that returns has caught up with finality and left no hole. -/
def CaughtUp (first : Nat → Option Nat) (final : Option Nat) (w : BackfillWorld) : Prop :=
  ∀ target, final = some target → target = w.target ∧ NoHole first target w.db

/-- From earned watermarks, contiguous passes catch up without a hole however often finality advances. -/
theorem contiguous_caughtUp (extend : Bool) : ∀ (fuel : Nat) {state : ScanState} {target : Nat} {w : BackfillWorld},
    w.target = target → Filled config first state w.db →
    (backfillAlone E).Ok (backfillLoop config mode extend fuel false state target) w (CaughtUp first) fun _ _ => E.fails
  | 0, _, _, _, _, _ => Contract.Ok.pure fun _ _ _ h => by cases h
  | fuel + 1, state, target, w, hw, hfill => by
    unfold backfillLoop
    refine Contract.Ok.bind ((backfillPass_spec hw).imp fun r w₁ hr => ?_)
    match r, hr with
    | none, ⟨hw₁, hstart⟩ =>
      subst hw₁
      refine Contract.Ok.pure fun w' hw' => hw' ▸ fun t ht => ?_
      cases ht
      exact ⟨hw.symm, hfill.noHole hstart⟩
    | some s₁, ⟨_, start, hstart, hswept⟩ =>
      have hn := hfill.swept_noHole hstart hswept
      have hw₁ : w₁.target = target := hswept.target.trans hw
      dsimp only
      rw [if_neg (by decide)]
      refine Contract.Ok.ite (fun _ => ?_) fun _ => ?_
      · refine Contract.Ok.bind ((ok_extendTarget hw₁).imp fun r w₂ hr => ?_)
        obtain ⟨hw₂, -, -⟩ := hr
        subst hw₂
        cases r with
        | none =>
          refine Contract.Ok.pure fun w' hw' => hw' ▸ fun t ht => ?_
          cases ht
          exact ⟨rfl, hn⟩
        | some newTarget =>
          have hnext : Filled config first s₁ w₁.db := hfill.swept hn hswept
          exact contiguous_caughtUp extend fuel rfl hnext
      · refine Contract.Ok.pure fun w' hw' => hw' ▸ fun t ht => ?_
        cases ht
        exact ⟨hw₁.symm, hn⟩

/-- When no pass is left to run, there is nothing to lose. -/
theorem stopping_caughtUp (extend : Bool) (fuel : Nat) (hw : w.target = target) (hn : NoHole first target w.db)
    (hstop : extend = true → ∀ v activation l, state.get v = some (activation, l) →
      target < computeStart config false activation l) :
    (backfillAlone E).Ok (backfillLoop config mode extend fuel false state target) w (CaughtUp first) fun _ _ => E.fails := by
  cases fuel with
  | zero => exact Contract.Ok.pure fun _ _ _ h => by cases h
  | succ fuel =>
    unfold backfillLoop
    refine Contract.Ok.bind ((backfillPass_spec hw).imp fun r w₁ hr => ?_)
    match r, hr with
    | none, ⟨hw₁, _⟩ =>
      subst hw₁
      refine Contract.Ok.pure fun w' hw' => hw' ▸ fun t ht => ?_
      cases ht
      exact ⟨hw.symm, hn⟩
    | some s₁, ⟨⟨v, activation, l, hget, hle⟩, start, hstart, hswept⟩ =>
      cases extend with
      | true => exact absurd (hstop rfl v activation l hget) (by omega)
      | false =>
        refine Contract.Ok.pure fun w' hw' => hw' ▸ fun t ht => ?_
        cases ht
        exact ⟨(hswept.target.trans hw).symm, hn.mono hswept.active hswept.kept⟩

/-! ## The sweep -/

/-- Where the watermark of a validator is after the sweep and its end. -/
theorem sweep_watermark {s₁ s₂ : ScanState} {w₁ w₂ : BackfillWorld} (hs : Swept config E true start (target + 1) state w s₁ w₁)
    (hr : Raised target s₁ w₁ s₂ w₂) {v activation : Nat} {l : Option Nat} (hget : state.get v = some (activation, l)) :
    ∃ l₂, s₂.get v = some (activation, l₂) ∧
      computeStart config false activation l ≤ computeStart config false activation l₂ ∧
      computeStart config false activation l₂ ≤ max (target + 1) (computeStart config false activation l) ∧
      (activeIn w.db.validators v target → target < computeStart config false activation l₂) ∧
      (¬activeIn w.db.validators v target → target < computeStart config false activation l₂ →
        target < computeStart config false activation l) := by
  obtain ⟨l₁, hget₁, hl⟩ := hs.watermark hget
  by_cases ha : activeIn w.db.validators v target
  · refine ⟨_, hr.raised hget₁ ((hs.active v target).2 ha), ?_⟩
    rw [computeStart_advanced]
    rcases hl with rfl | ⟨e, rfl, -, he, -⟩
    · refine ⟨by omega, le_rfl, fun _ => by omega, fun hno => absurd ha hno⟩
    · rw [computeStart_advanced]
      refine ⟨by omega, by omega, fun _ => by omega, fun hno => absurd ha hno⟩
  · refine ⟨l₁, hr.same hget₁ fun h => ha ((hs.active v target).1 h), ?_⟩
    rcases hl with rfl | ⟨e, rfl, -, he, hact⟩
    · exact ⟨le_rfl, le_max_right _ _, fun h => absurd h ha, fun _ => id⟩
    · -- it was scanned before the target, where it is not active
      have hne : e ≠ target := by rintro rfl; exact ha hact
      rw [computeStart_advanced]
      refine ⟨le_max_right _ _, by omega, fun h => absurd h ha, fun _ h => by omega⟩

/-- Some validator is not up to date after a sweep: it is not active at the target and its watermark is before it. -/
def Lags (config : BackfillConfig) (state : ScanState) (target : Nat) (db : Db) : Prop :=
  ∃ v activation l, state.get v = some (activation, l) ∧ ¬activeIn db.validators v target ∧
    computeStart config false activation l ≤ target

/-- The pairs between the target and a watermark above it are completed. -/
def AheadCompleted (config : BackfillConfig) (state : ScanState) (target : Nat) (db : Db) : Prop :=
  ∀ v activation last, state.get v = some (activation, some last) → ∀ e, target < e → e ≤ last →
    computeStart config true activation none ≤ e → activeIn db.validators v e → db.completed v e = true

/-- Raised watermarks are earned, those above the target if they were before. -/
theorem sweep_filled {s₁ s₂ : ScanState} {w₁ w₂ : BackfillWorld} (hs : Swept config E true start (target + 1) state w s₁ w₁)
    (hr : Raised target s₁ w₁ s₂ w₂)
    (hfirst : ∀ v s, first v = some s → ∃ activation l, state.get v = some (activation, l) ∧ s = computeStart config true activation l)
    (hn : NoHole first target w₂.db) (ha : AheadCompleted config state target w.db) : Filled config first s₂ w₂.db := by
  intro v s hv
  obtain ⟨activation, l, hget, rfl⟩ := hfirst v s hv
  obtain ⟨l₂, hget₂, -, hle, -⟩ := sweep_watermark hs hr hget
  refine ⟨activation, l₂, hget₂, fun e h1 hlt hact => ?_⟩
  by_cases he : e ≤ target
  · exact hn v _ hv e h1 he hact
  · have hact' := (hs.active v e).1 ((hr.active v e).1 hact)
    have hlt₁ : e < computeStart config false activation l := by omega
    rcases (lt_computeStart activation e l).1 hlt₁ with hlt' | ⟨last, rfl, hlast⟩
    · exact absurd h1 (by rw [computeStart_true activation l none]; omega)
    · rw [hr.completed]
      exact hs.kept (ha v activation last hget e (by omega) hlast h1 hact')

/-- A backfill catches up without a hole unless a sweep is followed by an extension that trusts watermarks above
the target. -/
theorem runBackfill_caughtUp (fuel : Nat) (extend : Bool) (hw : w.target = target)
    (h : config.nonContiguousBackfill = true → extend = true → Lags config state target w.db →
      AheadCompleted config state target w.db) :
    (backfillAlone E).Ok (runBackfill config fuel state target extend) w (CaughtUp (initialStart config state))
      fun _ _ => E.fails := by
  unfold runBackfill
  cases hnc : config.nonContiguousBackfill with
  | false =>
    refine contiguous_caughtUp extend fuel hw fun v s hv => ?_
    obtain ⟨⟨activation, l⟩, hget, rfl⟩ := Option.map_eq_some_iff.1 hv
    rw [hnc]
    exact ⟨activation, l, hget, fun e h1 hlt _ => absurd h1 (not_le.2 hlt)⟩
  | true =>
    have hfirst : ∀ v s, initialStart config state v = some s →
        ∃ activation l, state.get v = some (activation, l) ∧ s = computeStart config true activation l := by
      intro v s hv
      obtain ⟨⟨activation, l⟩, hget, rfl⟩ := Option.map_eq_some_iff.1 hv
      exact ⟨activation, l, hget, by rw [hnc]⟩
    cases fuel with
    | zero => exact Contract.Ok.pure fun _ _ _ h => by cases h
    | succ fuel =>
      unfold backfillLoop
      refine Contract.Ok.bind ((backfillPass_spec hw).imp fun r w₁ hr => ?_)
      match r, hr with
      | none, ⟨hw₁, hstart⟩ =>
        subst hw₁
        refine Contract.Ok.pure fun w' hw' => hw' ▸ fun t ht => ?_
        cases ht
        refine ⟨hw.symm, fun v s hv e h1 h2 _ => ?_⟩
        obtain ⟨activation, l, hget, rfl⟩ := hfirst v s hv
        have := hstart v activation l hget
        omega
      | some s₁, ⟨_, start, hstart, hswept⟩ =>
        dsimp only
        rw [if_pos rfl]
        refine Contract.Ok.bind ((finishSweep_raised s₁ w₁).imp fun s₂ w₂ hraised => ?_)
        have hw₂ : w₂.target = target := hraised.unmoved.trans (hswept.target.trans hw)
        have hn₁ : NoHole (initialStart config state) target w₁.db := sweep_noHole hstart hfirst hswept
        have hn₂ : NoHole (initialStart config state) target w₂.db :=
          hn₁.mono hraised.active fun hc => by rw [hraised.completed]; exact hc
        by_cases hcond : extend = true ∧ Lags config state target w.db
        · exact contiguous_caughtUp extend fuel hw₂
            (sweep_filled hswept hraised hfirst hn₂ (h hnc hcond.1 hcond.2))
        · refine stopping_caughtUp extend fuel hw₂ hn₂ fun hext v activation l₂ hget₂ => ?_
          -- nobody lags, so every contiguous start is past the target
          obtain ⟨_, _, hget₁⟩ := hraised.known hget₂
          obtain ⟨activation', l, hget⟩ := hswept.known hget₁
          obtain ⟨l₂', hget₂', hle, -, hact, hinact⟩ := sweep_watermark hswept hraised hget
          rw [hget₂] at hget₂'
          cases hget₂'
          by_cases ha : activeIn w.db.validators v target
          · exact hact ha
          · by_contra hcon
            exact hcond ⟨hext, v, activation, l, hget, ha, by omega⟩

/-! ## The hole -/

/-- An undisturbed backfill: nothing fails, nobody else completes a pair and finality is at one checkpoint. -/
def BackfillEnv.quiet (checkpoint : Nat) : BackfillEnv := ⟨False, fun _ _ => False, (· = checkpoint)⟩

theorem quiet_total (c : Nat) : ∀ op w, ∃ r w', backfillSem (.quiet c) op w r w'
  | .activeValidatorsAt .., w => ⟨_, w, rfl, .inl rfl⟩
  | .validatorsWithCompletedScan .., w => ⟨_, w, rfl, .inl rfl⟩
  | .scanEpoch e vs _, w => by
    have hmark := fun v e' => w.db.markComplete_completed vs e v e'
    refine ⟨.ok (), { w with db := w.db.markComplete vs e }, rfl, ⟨rfl, fun h => ?_, fun h => ?_⟩, .inl ⟨rfl, fun v hv => ?_⟩⟩
    · rw [hmark, h, Bool.true_or]
    · rw [hmark, Bool.or_eq_true] at h
      refine h.imp_right fun h => .inr ?_
      simpa using h
    · rw [hmark]
      simp [hv]
  | .updateValidatorsScannedEpoch .., w => ⟨_, _, .inl ⟨rfl, rfl⟩⟩
  | .updateHeartbeat, w => ⟨_, w, rfl, .inl rfl⟩
  | .getFinalityCheckpoints, w => ⟨_, _, .inl ⟨c, rfl, rfl, rfl⟩⟩

theorem backfillSem_any {E : BackfillEnv} : ∀ op w r w', backfillSem E op w r w' → backfillSem .any op w r w'
  | .activeValidatorsAt .., _, _, _, ⟨hw, h⟩ => ⟨hw, h.imp_right fun h => ⟨trivial, h.2⟩⟩
  | .validatorsWithCompletedScan .., _, _, _, ⟨hw, h⟩ => ⟨hw, h.imp_right fun h => ⟨trivial, h.2⟩⟩
  | .scanEpoch .., _, _, _, ⟨hw, hc, h⟩ =>
    ⟨hw, ⟨hc.registry, hc.kept, fun _ => .inr (.inl trivial)⟩, h.imp_right fun h => ⟨trivial, h.2⟩⟩
  | .updateValidatorsScannedEpoch .., _, _, _, h => h.imp_right fun h => ⟨trivial, h.2⟩
  | .updateHeartbeat, _, _, _, ⟨hw, h⟩ => ⟨hw, h.imp_right fun h => ⟨trivial, h.2⟩⟩
  | .getFinalityCheckpoints, _, _, _, h =>
    h.imp (fun ⟨c, _, h⟩ => ⟨c, trivial, h⟩) fun h => ⟨trivial, h.2⟩

/-- An active pair that is not completed, and that contiguous passes start after. -/
structure Hole (config : BackfillConfig) (v e : Nat) (state : ScanState) (w : BackfillWorld) : Prop where
  active : activeIn w.db.validators v e
  missing : w.db.completed v e = false
  skipped : ∃ activation l, state.get v = some (activation, l) ∧ e < computeStart config false activation l

variable {v e c : Nat}

/-- No pass that starts after the pair or ends before it completes the pair. -/
theorem Hole.swept {nonContiguous : Bool} {stop : Nat} (h : Hole config v e state w) (hb : nonContiguous = false ∨ stop ≤ e)
    (hs : Swept config (.quiet c) nonContiguous start stop state w state' w') : Hole config v e state' w' where
  active := (hs.active v e).2 h.active
  missing := by
    obtain ⟨activation, l, hget, hlt⟩ := h.skipped
    by_contra hc
    rw [Bool.not_eq_false] at hc
    rcases hs.fresh hc with hc | hc | ⟨he, activation', l', hget', hle⟩
    · rw [h.missing] at hc
      cases hc
    · exact hc
    · rw [hget] at hget'
      cases hget'
      rcases hb with rfl | hb
      · exact absurd hlt (not_lt.2 hle)
      · omega
  skipped := by
    obtain ⟨activation, l, hget, hlt⟩ := h.skipped
    obtain ⟨l', hget', hl⟩ := hs.watermark hget
    refine ⟨activation, l', hget', ?_⟩
    rcases hl with rfl | ⟨e', rfl, -⟩
    · exact hlt
    · exact hlt.trans_le (computeStart_le_advanced _ _ _)

theorem Hole.raised (h : Hole config v e state w) (hr : Raised target state w state' w') : Hole config v e state' w' where
  active := (hr.active v e).2 h.active
  missing := (hr.completed v e).trans h.missing
  skipped := by
    obtain ⟨activation, l, hget, hlt⟩ := h.skipped
    by_cases ha : activeIn w.db.validators v target
    · exact ⟨activation, _, hr.raised hget ha, hlt.trans_le (computeStart_le_advanced _ _ _)⟩
    · exact ⟨activation, l, hr.same hget ha, hlt⟩

/-- The backfill returned, and the pair is still missing below its final target. -/
def LeftHole (v e : Nat) (final : Option Nat) (w : BackfillWorld) : Prop :=
  final = some e ∧ activeIn w.db.validators v e ∧ w.db.completed v e = false

/-- Finality moves the target to the epoch of the hole and stays there. -/
theorem hole_contiguous (fuel : Nat) (hw : w.target = target) (hlt : target < e) (h : Hole config v e state w)
    (hlag : ∃ u activation l, state.get u = some (activation, l) ∧ computeStart config false activation l ≤ target) :
    (backfillAlone (.quiet (e + 2))).Ok (backfillLoop config mode true (fuel + 2) false state target) w (LeftHole v e)
      fun _ _ => False := by
  have htarget : ChainSpec.finalizedScanTarget (e + 2) = some e := by simp [ChainSpec.finalizedScanTarget]
  unfold backfillLoop
  refine Contract.Ok.bind ((backfillPass_spec hw).imp fun r w₁ hr => ?_)
  match r, hr with
  | none, ⟨_, hstart⟩ =>
    obtain ⟨u, activation, l, hget, hle⟩ := hlag
    exact absurd (hstart u activation l hget) (not_lt.2 hle)
  | some s₁, ⟨_, start, _, hswept⟩ =>
    have h₁ := h.swept (.inl rfl) hswept
    dsimp only
    rw [if_neg (by decide), if_pos rfl]
    refine Contract.Ok.bind ((ok_extendTarget (hswept.target.trans hw)).imp fun r w₂ ⟨hw₂, _, c, hc, hr⟩ => ?_)
    obtain rfl : c = e + 2 := hc
    rw [htarget, Option.filter_some_pos (by simpa using hlt)] at hr
    subst hr hw₂
    have hw₂ : ({ w₁ with target := (some e).getD target } : BackfillWorld).target = e := rfl
    unfold backfillLoop
    refine Contract.Ok.bind ((backfillPass_spec hw₂).imp fun r w₃ hr => ?_)
    match r, hr with
    | none, ⟨hw₃, _⟩ =>
      subst hw₃
      exact Contract.Ok.pure fun w' hw' => hw' ▸ ⟨rfl, h₁.active, h₁.missing⟩
    | some s₃, ⟨_, start, _, hswept₃⟩ =>
      have h₂ : Hole config v e s₁ { w₁ with target := (some e).getD target } := ⟨h₁.active, h₁.missing, h₁.skipped⟩
      have h₃ := h₂.swept (.inl rfl) hswept₃
      dsimp only
      rw [if_neg (by decide), if_pos rfl]
      refine Contract.Ok.bind ((ok_extendTarget hswept₃.target).imp fun r w₄ ⟨hw₄, _, c, hc, hr⟩ => ?_)
      obtain rfl : c = e + 2 := hc
      rw [htarget, Option.filter_some_neg (by simp)] at hr
      subst hr hw₄
      exact Contract.Ok.pure fun w' hw' => hw' ▸ ⟨rfl, h₃.active, h₃.missing⟩

/-- A sweep with a validator that lags behind, then one extension: a pair above the target and below its watermark
stays missing. -/
theorem sweep_hole (hnc : config.nonContiguousBackfill = true) (hw : w.target = target) (hlt : target < e)
    (h : Hole config v e state w) (hlag : Lags config state target w.db) :
    ∃ w', Exec (backfillSem .any) (runBackfill config 3 state target true).run w (.ok (some e)) w' ∧
      activeIn w'.db.validators v e ∧ w'.db.completed v e = false := by
  have hok : (backfillAlone (.quiet (e + 2))).Ok (runBackfill config 3 state target true) w (LeftHole v e)
      fun _ _ => False := by
    obtain ⟨u, activation, l, hget, hinact, hle⟩ := hlag
    unfold runBackfill
    rw [hnc]
    unfold backfillLoop
    refine Contract.Ok.bind ((backfillPass_spec hw).imp fun r w₁ hr => ?_)
    match r, hr with
    | none, ⟨_, hstart⟩ =>
      have hbelow : computeStart config true activation l ≤ computeStart config false activation l := by
        unfold computeStart
        cases l <;> cases config.maxBackfillDepth <;> simp
      have := hstart u activation l hget
      omega
    | some s₁, ⟨_, start, _, hswept⟩ =>
      dsimp only
      rw [if_pos rfl]
      refine Contract.Ok.bind ((finishSweep_raised s₁ w₁).imp fun s₂ w₂ hraised => ?_)
      obtain ⟨l₂, hget₂, -, -, -, hback⟩ := sweep_watermark hswept hraised hget
      have hlag₂ : computeStart config false activation l₂ ≤ target := by
        by_contra hcon
        exact absurd (hback hinact (by omega)) (by omega)
      exact hole_contiguous 0 (hraised.unmoved.trans (hswept.target.trans hw)) hlt
        ((h.swept (.inr hlt) hswept).raised hraised) ⟨u, activation, l₂, hget₂, hlag₂⟩
  obtain ⟨r, w', hx⟩ := Exec.exists (quiet_total (e + 2)) (runBackfill config 3 state target true).run w
  have hpost := Contract.Safe.exec hx hok
  cases r with
  | error er => exact absurd hpost id
  | ok final =>
    obtain ⟨rfl, hact, hmiss⟩ := hpost
    exact ⟨w', hx.mono backfillSem_any, hact, hmiss⟩

/-- A hole of the sweep is a pair owed to its validator. -/
theorem Hole.not_caughtUp {activation : Nat} {l : Option Nat} (hget : state.get v = some (activation, l))
    (hnc : config.nonContiguousBackfill = true) (hle : computeStart config true activation l ≤ e)
    (hact : activeIn w.db.validators v e) (hmiss : w.db.completed v e = false) :
    ¬CaughtUp (initialStart config state) (some e) w := by
  intro h
  have hfirst : initialStart config state v = some (computeStart config true activation l) := by
    unfold initialStart
    rw [hget, hnc]
    rfl
  have hdone := (h e rfl).2 v _ hfirst e hle le_rfl hact
  rw [hmiss] at hdone
  cases hdone

/-- In every run the backfill scans no pair twice and none above the finality target, and returns without a hole,
exactly when no extension follows a sweep that trusts the watermarks of unscanned pairs above the target. -/
theorem runBackfill_caughtUp_iff (config : BackfillConfig) (state : ScanState) (target : Nat) (extend : Bool) (db : Db) :
    (∀ fuel, (backfillAlone .any).Ok (runBackfill config fuel state target extend) ⟨db, target⟩
      (CaughtUp (initialStart config state)) fun _ _ => True) ↔
    (config.nonContiguousBackfill = true → extend = true → Lags config state target db →
      AheadCompleted config state target db) := by
  constructor
  · intro h hnc hext hlag v activation last hget e hlt hle hfrom hact
    subst hext
    by_contra hmiss
    rw [Bool.not_eq_true] at hmiss
    have hhole : Hole config v e state ⟨db, target⟩ :=
      ⟨hact, hmiss, activation, some last, hget, (lt_computeStart activation e _).2 (.inr ⟨last, rfl, hle⟩)⟩
    obtain ⟨w', hx, hact', hmiss'⟩ := sweep_hole hnc rfl hlt hhole hlag
    exact Hole.not_caughtUp hget hnc hfrom hact' hmiss' ((h 3).exec hx)
  · intro h fuel
    exact runBackfill_caughtUp fuel extend rfl h

/-- Sweep every pair. -/
def sweepConfig : BackfillConfig := ⟨true, none, .auto⟩

/-- Validator 1 left at epoch 3; validator 2 was scanned up to epoch 7 before finality was read again. -/
def aheadState : ScanState := .ofList [(1, 0, none), (2, 0, some 7)]

def aheadDb : Db := { Db.empty with validators := .ofList [(1, ⟨0, some 3, none⟩), (2, ⟨0, none, some 7⟩)] }

/-- Finality is at target 5 and then at 6: the pair (2, 6) is never scanned. -/
theorem sweep_skips_ahead : ¬(backfillAlone .any).Ok (runBackfill sweepConfig 3 aheadState 5 true) ⟨aheadDb, 5⟩
    (CaughtUp (initialStart sweepConfig aheadState)) fun _ _ => True := by
  intro h
  have hget : aheadState.get 2 = some (0, some 7) := rfl
  have hhole : Hole sweepConfig 2 6 aheadState ⟨aheadDb, 5⟩ :=
    ⟨⟨⟨0, none, some 7⟩, rfl, rfl⟩, rfl, 0, some 7, hget, by decide⟩
  have hlag : Lags sweepConfig aheadState 5 aheadDb := by
    refine ⟨1, 0, none, rfl, ?_, by decide⟩
    rintro ⟨row, hrow, hact⟩
    cases hrow
    cases hact
  obtain ⟨w', hx, hact, hmiss⟩ := sweep_hole rfl rfl (by decide) hhole hlag
  exact Hole.not_caughtUp hget rfl (by decide) hact hmiss (h.exec hx)

end BeaconIndexer
