/-
The reward windows against the span they advertise: the N days that end with the latest scanned epoch. The
cutoffs reach one epoch further back, and nothing bounds the slots from above.
-/
import BeaconIndexer.Api.Rewards

namespace BeaconIndexer

open Relational Native

/-! ## The three spans -/

/-- The windows of a response. -/
inductive Span where
  | day1
  | day7
  | day30
  deriving DecidableEq

namespace Span

/-- How far a window is meant to reach back. -/
def days : Span → Nat
  | day1 => 1
  | day7 => 7
  | day30 => 30

/-- Where the response has it. -/
def window : Span → ValidatorRewards → RewardWindow
  | day1, r => r.day1
  | day7, r => r.day7
  | day30, r => r.day30

end Span

/-! ## Grouped sums -/

section Sums

variable {rows : List RewardRow} {v : Nat} {p q : Nat → Bool}

theorem sumWhere_congr (h : ∀ r ∈ rows, p r.position = q r.position) : sumWhere rows v p = sumWhere rows v q := by
  unfold sumWhere
  rw [List.filter_congr fun r hr => by rw [h r hr]]

/-- The rows of a window and those beside it. -/
theorem sumWhere_split (h : ∀ r ∈ rows, q r.position = true → p r.position = true) :
    sumWhere rows v p = sumWhere rows v q + sumWhere rows v fun x => p x && !q x := by
  induction rows with
  | nil => rfl
  | cons r rows ih =>
    have hrest := ih fun r' hr' => h r' (List.mem_cons_of_mem _ hr')
    have hr := h r (List.mem_cons_self ..)
    unfold sumWhere at hrest ⊢
    simp only [List.filter_cons]
    cases hv : r.validator == v with
    | false => simpa using hrest
    | true =>
      cases hq : q r.position with
      | true =>
        simp only [hr hq, Bool.true_and, Bool.not_true, Bool.false_eq_true, if_true, if_false, List.map_cons, List.sum_cons]
        rw [hrest]
        ring
      | false =>
        cases hp : p r.position with
        | true =>
          simp only [Bool.true_and, Bool.not_false, Bool.false_eq_true, if_true, if_false, List.map_cons, List.sum_cons]
          rw [hrest]
          ring
        | false => simpa using hrest

theorem sumWhere_of_absent (h : v ∉ rows.map (·.validator)) : sumWhere rows v p = 0 := by
  unfold sumWhere
  rw [List.filter_eq_nil_iff.2 fun r hr heq => ?_]
  · rfl
  · simp only [Bool.and_eq_true, beq_iff_eq] at heq
    exact h (List.mem_map.2 ⟨r, hr, heq.1⟩)

theorem countWhere_of_absent (h : v ∉ rows.map (·.validator)) : countWhere rows v p = 0 := by
  unfold countWhere
  rw [List.filter_eq_nil_iff.2 fun r hr heq => ?_]
  · rfl
  · simp only [Bool.and_eq_true, beq_iff_eq] at heq
    exact h (List.mem_map.2 ⟨r, hr, heq.1⟩)

end Sums

section Query

variable (rows : List RewardRow) (cutoff1d cutoff7d cutoff30d : Int)

/-- The sums of a group, whatever their size. -/
def exactSums (v : Nat) : WindowSums where
  d1 := sumWhere rows v (since cutoff1d)
  d7 := sumWhere rows v (since cutoff7d)
  d30 := sumWhere rows v (since cutoff30d)
  all := sumWhere rows v fun _ => true
  epochsD1 := countWhere rows v (since cutoff1d)
  epochsD7 := countWhere rows v (since cutoff7d)
  epochsD30 := countWhere rows v (since cutoff30d)
  epochsAll := countWhere rows v fun _ => true

/-- No sum of any group is out of the range of BIGINT. -/
def SumsFit : Prop :=
  ∀ v ∈ rows.map (·.validator), inBigint (sumWhere rows v (since cutoff1d)) ∧ inBigint (sumWhere rows v (since cutoff7d)) ∧
    inBigint (sumWhere rows v (since cutoff30d)) ∧ inBigint (sumWhere rows v fun _ => true)

instance : Decidable (SumsFit rows cutoff1d cutoff7d cutoff30d) := by
  unfold SumsFit
  infer_instance

variable {rows cutoff1d cutoff7d cutoff30d}

theorem except_mapM_ok_iff {ε α β : Type} {f : α → Except ε β} : ∀ {l : List α} {r : List β},
    l.mapM f = .ok r ↔ List.Forall₂ (fun a b => f a = .ok b) l r
  | [], r => by
    rw [List.mapM_nil, List.forall₂_nil_left_iff]
    constructor
    · intro h
      cases h
      rfl
    · rintro rfl
      rfl
  | a :: l, r => by
    rw [List.mapM_cons, except_bind_eq_ok, List.forall₂_cons_left_iff]
    constructor
    · rintro ⟨b, hb, hrest⟩
      obtain ⟨bs, hbs, hr⟩ := except_bind_eq_ok.1 hrest
      cases hr
      exact ⟨b, bs, hb, except_mapM_ok_iff.1 hbs, rfl⟩
    · rintro ⟨b, bs, hb, hbs, rfl⟩
      exact ⟨b, hb, except_bind_eq_ok.2 ⟨bs, except_mapM_ok_iff.2 hbs, rfl⟩⟩

theorem groupSums_ok_iff {v : Nat} {s : WindowSums} : groupSums rows cutoff1d cutoff7d cutoff30d v = .ok s ↔
    (inBigint (sumWhere rows v (since cutoff1d)) ∧ inBigint (sumWhere rows v (since cutoff7d)) ∧
      inBigint (sumWhere rows v (since cutoff30d)) ∧ inBigint (sumWhere rows v fun _ => true)) ∧
    s = exactSums rows cutoff1d cutoff7d cutoff30d v := by
  unfold groupSums
  simp only [except_bind_eq_ok, bigint_eq_ok]
  constructor
  · rintro ⟨_, ⟨h1, rfl⟩, _, ⟨h7, rfl⟩, _, ⟨h30, rfl⟩, _, ⟨hall, rfl⟩, hs⟩
    cases hs
    exact ⟨⟨h1, h7, h30, hall⟩, rfl⟩
  · rintro ⟨⟨h1, h7, h30, hall⟩, rfl⟩
    exact ⟨_, ⟨h1, rfl⟩, _, ⟨h7, rfl⟩, _, ⟨h30, rfl⟩, _, ⟨hall, rfl⟩, rfl⟩

theorem exactSums_of_absent {v : Nat} (h : v ∉ rows.map (·.validator)) :
    exactSums rows cutoff1d cutoff7d cutoff30d v = .default := by
  unfold exactSums WindowSums.default
  simp only [sumWhere_of_absent h, countWhere_of_absent h]

/-- The groups of a query are its exact sums, or the query fails. -/
theorem windowSums_ok_iff {l : List (Nat × WindowSums)} : windowSums rows cutoff1d cutoff7d cutoff30d = .ok l ↔
    SumsFit rows cutoff1d cutoff7d cutoff30d ∧
      l = (rows.map (·.validator)).dedup.map fun v => (v, exactSums rows cutoff1d cutoff7d cutoff30d v) := by
  have hgroup : ∀ (v : Nat) (p : Nat × WindowSums), (do
      let sums ← groupSums rows cutoff1d cutoff7d cutoff30d v
      return (v, sums) : Except SqlError (Nat × WindowSums)) = .ok p ↔
      (inBigint (sumWhere rows v (since cutoff1d)) ∧ inBigint (sumWhere rows v (since cutoff7d)) ∧
        inBigint (sumWhere rows v (since cutoff30d)) ∧ inBigint (sumWhere rows v fun _ => true)) ∧
      p = (v, exactSums rows cutoff1d cutoff7d cutoff30d v) := by
    intro v p
    rw [except_bind_eq_ok]
    constructor
    · rintro ⟨s, hs, hp⟩
      obtain ⟨hfit, rfl⟩ := groupSums_ok_iff.1 hs
      cases hp
      exact ⟨hfit, rfl⟩
    · rintro ⟨hfit, rfl⟩
      exact ⟨_, groupSums_ok_iff.2 ⟨hfit, rfl⟩, rfl⟩
  have hlist : ∀ {vs : List Nat}, List.Forall₂ (fun v p => p = (v, exactSums rows cutoff1d cutoff7d cutoff30d v)) vs l ↔
      l = vs.map fun v => (v, exactSums rows cutoff1d cutoff7d cutoff30d v) := by
    intro vs
    rw [eq_comm, ← List.forall₂_eq_eq_eq, List.forall₂_map_left_iff]
    simp only [eq_comm]
  unfold windowSums SumsFit
  rw [except_mapM_ok_iff]
  simp only [hgroup]
  rw [List.forall₂_and_left, hlist]
  simp only [List.mem_dedup]

theorem lookup_map_self {f : Nat → WindowSums} {v : Nat} : ∀ {vs : List Nat},
    (vs.map fun v => (v, f v)).lookup v = if v ∈ vs then some (f v) else none
  | [] => rfl
  | w :: vs => by
    rw [List.map_cons, List.lookup_cons, lookup_map_self]
    by_cases hw : v = w
    · simp [hw]
    · have hbeq : (v == w) = false := by simpa using hw
      simp only [hbeq, List.mem_cons, hw, false_or]

/-- What the response takes from a query for one validator. -/
theorem lookup_windowSums (v : Nat) :
    (((windowSums rows cutoff1d cutoff7d cutoff30d).toOption.getD []).lookup v).getD .default =
      if SumsFit rows cutoff1d cutoff7d cutoff30d then exactSums rows cutoff1d cutoff7d cutoff30d v else .default := by
  cases h : windowSums rows cutoff1d cutoff7d cutoff30d with
  | error e =>
    rw [if_neg fun hfit => ?_]
    · rfl
    · rw [windowSums_ok_iff.2 ⟨hfit, rfl⟩] at h
      cases h
  | ok l =>
    obtain ⟨hfit, rfl⟩ := windowSums_ok_iff.1 h
    rw [if_pos hfit]
    show ((List.map _ _).lookup v).getD _ = _
    rw [lookup_map_self]
    split
    · rfl
    · rename_i habsent
      rw [List.mem_dedup] at habsent
      rw [exactSums_of_absent habsent]
      rfl

theorem lookup_map_withoutEpochs {v : Nat} : ∀ {l : List (Nat × WindowSums)},
    ((l.map fun (v, s) => (v, s.withoutEpochs)).lookup v).getD .default = ((l.lookup v).getD .default).withoutEpochs
  | [] => rfl
  | (w, s) :: l => by
    rw [List.map_cons, List.lookup_cons, List.lookup_cons]
    cases v == w with
    | true => rfl
    | false => exact lookup_map_withoutEpochs

theorem lookup_withoutEpochs (v : Nat) :
    ((((windowSums rows cutoff1d cutoff7d cutoff30d).map fun l => l.map fun (v, s) => (v, s.withoutEpochs)).toOption.getD
      []).lookup v).getD .default =
      if SumsFit rows cutoff1d cutoff7d cutoff30d then (exactSums rows cutoff1d cutoff7d cutoff30d v).withoutEpochs
      else .default := by
  have h := @lookup_windowSums rows cutoff1d cutoff7d cutoff30d v
  cases hq : windowSums rows cutoff1d cutoff7d cutoff30d with
  | error e =>
    rw [hq] at h
    split
    · rename_i hfit
      rw [windowSums_ok_iff.2 ⟨hfit, rfl⟩] at hq
      cases hq
    · rfl
  | ok l =>
    rw [hq] at h
    show ((List.map _ l).lookup v).getD _ = _
    rw [lookup_map_withoutEpochs]
    rw [show (l.lookup v).getD .default = _ from h]
    split <;> rfl

end Query

/-! ## The rows of the attestation query -/

namespace AttestationRow

/-- The four rewards together, NULL as zero. -/
def exactTotal (r : AttestationRow) : Int :=
  r.sourceReward.getD 0 + r.targetReward.getD 0 + r.headReward.getD 0 + r.inactivityPenalty.getD 0

/-- No addition leaves the range of BIGINT. -/
def TotalFits (r : AttestationRow) : Prop :=
  inBigint (r.sourceReward.getD 0 + r.targetReward.getD 0) ∧
    inBigint (r.sourceReward.getD 0 + r.targetReward.getD 0 + r.headReward.getD 0) ∧ inBigint r.exactTotal

instance (r : AttestationRow) : Decidable r.TotalFits := by
  unfold TotalFits
  infer_instance

theorem rewardTotal_ok_iff {r : AttestationRow} {n : Int} : r.rewardTotal = .ok n ↔ r.TotalFits ∧ n = r.exactTotal := by
  unfold rewardTotal TotalFits
  simp only [except_bind_eq_ok, bigint_eq_ok]
  constructor
  · rintro ⟨_, ⟨h1, rfl⟩, _, ⟨h2, rfl⟩, h3, rfl⟩
    exact ⟨⟨h1, h2, h3⟩, rfl⟩
  · rintro ⟨⟨h1, h2, h3⟩, rfl⟩
    exact ⟨_, ⟨h1, rfl⟩, _, ⟨h2, rfl⟩, h3, rfl⟩

end AttestationRow

namespace Db

variable (db : Db)

/-- The exact total of each duty, by epoch. -/
def attestationRewardRows : List RewardRow :=
  db.attestationDuties.rows.map fun ((v, epoch), row) => ⟨v, epoch, some row.exactTotal⟩

/-- No addition of the attestation query and none of its sums is out of the range of BIGINT. -/
def AttestationsFit (cutoff1d cutoff7d cutoff30d : Int) : Prop :=
  (∀ r ∈ db.attestationDuties.rows, r.2.TotalFits) ∧ SumsFit db.attestationRewardRows cutoff1d cutoff7d cutoff30d

instance (cutoff1d cutoff7d cutoff30d : Int) : Decidable (db.AttestationsFit cutoff1d cutoff7d cutoff30d) := by
  unfold AttestationsFit
  infer_instance

theorem lookup_attestations (cutoff1d cutoff7d cutoff30d : Int) (v : Nat) :
    (((db.attestationRewardWindows cutoff1d cutoff7d cutoff30d).toOption.getD []).lookup v).getD .default =
      if db.AttestationsFit cutoff1d cutoff7d cutoff30d then exactSums db.attestationRewardRows cutoff1d cutoff7d cutoff30d v
      else .default := by
  have hrow : ∀ (a : (Nat × Nat) × AttestationRow) (b : RewardRow), (do
      let total ← a.2.rewardTotal
      return ⟨a.1.1, a.1.2, some total⟩ : Except SqlError RewardRow) = .ok b ↔
      a.2.TotalFits ∧ b = ⟨a.1.1, a.1.2, some a.2.exactTotal⟩ := by
    intro a b
    rw [except_bind_eq_ok]
    constructor
    · rintro ⟨n, hn, hb⟩
      obtain ⟨hfit, rfl⟩ := AttestationRow.rewardTotal_ok_iff.1 hn
      cases hb
      exact ⟨hfit, rfl⟩
    · rintro ⟨hfit, rfl⟩
      exact ⟨_, AttestationRow.rewardTotal_ok_iff.2 ⟨hfit, rfl⟩, rfl⟩
  by_cases hrows : ∀ r ∈ db.attestationDuties.rows, r.2.TotalFits
  · have hmap : (db.attestationDuties.rows.mapM fun ((v, epoch), row) => (do
        let total ← AttestationRow.rewardTotal row
        return ⟨v, epoch, some total⟩ : Except SqlError RewardRow)) = .ok db.attestationRewardRows := by
      rw [except_mapM_ok_iff]
      unfold attestationRewardRows
      rw [List.forall₂_map_right_iff, List.forall₂_same]
      exact fun r hr => (hrow r _).2 ⟨hrows r hr, rfl⟩
    unfold attestationRewardWindows
    rw [hmap]
    have hfit : db.AttestationsFit cutoff1d cutoff7d cutoff30d ↔ SumsFit db.attestationRewardRows cutoff1d cutoff7d cutoff30d :=
      ⟨fun h => h.2, fun h => ⟨hrows, h⟩⟩
    simp only [hfit]
    exact lookup_windowSums v
  · rw [if_neg fun h => hrows h.1]
    cases hq : db.attestationRewardWindows cutoff1d cutoff7d cutoff30d with
    | error e => rfl
    | ok l =>
      exfalso
      unfold attestationRewardWindows at hq
      obtain ⟨rows, hmap, -⟩ := except_bind_eq_ok.1 hq
      rw [except_mapM_ok_iff] at hmap
      have hboth := hmap.imp fun a b h => (hrow a b).1 h
      exact hrows ((List.forall₂_and_left _ _).1 hboth).1

end Db

/-! ## What a window reports -/

section Windows

variable (spec : ChainSpec) (secondsPerSlot : Nat) (db : Db)

/-- The epochs of a span. -/
def spanEpochs (span : Span) : Nat := spec.epochsPerDay secondsPerSlot * span.days

/-- The cutoff of a span in epochs, as bound. -/
def spanCutoff (span : Span) : Int := epochCutoff (spec.epochsPerDay secondsPerSlot) db.latestScannedEpoch span.days

/-- One of the most recent epochs that end with the latest scanned one, as many as the span has, or all of them. -/
def inSpan (span : Span) (e : Nat) : Bool :=
  decide (db.latestScannedEpoch < e + spanEpochs spec secondsPerSlot span) && decide (e ≤ db.latestScannedEpoch)

/-- A query over slots succeeds. -/
def SlotSumsFit (rows : List RewardRow) : Prop :=
  SumsFit rows (slotCutoff spec (spanCutoff spec secondsPerSlot db .day1)) (slotCutoff spec (spanCutoff spec secondsPerSlot db .day7))
    (slotCutoff spec (spanCutoff spec secondsPerSlot db .day30))

/-- The attestation query succeeds. -/
def EpochSumsFit : Prop :=
  db.AttestationsFit (spanCutoff spec secondsPerSlot db .day1) (spanCutoff spec secondsPerSlot db .day7)
    (spanCutoff spec secondsPerSlot db .day30)

instance (rows : List RewardRow) : Decidable (SlotSumsFit spec secondsPerSlot db rows) := by
  unfold SlotSumsFit
  infer_instance

instance : Decidable (EpochSumsFit spec secondsPerSlot db) := by
  unfold EpochSumsFit
  infer_instance

variable {spec secondsPerSlot db}

theorem getRewards_entry {r : ValidatorRewards} (hr : r ∈ (getRewards spec secondsPerSlot db).validators) :
    r.validatorIndex ∈ db.listValidatorIndices ∧ ∀ span : Span,
      (span.window r).attestationReward = (if EpochSumsFit spec secondsPerSlot db then
        sumWhere db.attestationRewardRows r.validatorIndex (since (spanCutoff spec secondsPerSlot db span)) else 0) ∧
      (span.window r).syncReward = (if SlotSumsFit spec secondsPerSlot db db.syncRewardRows then
        sumWhere db.syncRewardRows r.validatorIndex (since (slotCutoff spec (spanCutoff spec secondsPerSlot db span))) else 0) ∧
      (span.window r).proposalReward = (if SlotSumsFit spec secondsPerSlot db db.proposalRewardRows then
        sumWhere db.proposalRewardRows r.validatorIndex (since (slotCutoff spec (spanCutoff spec secondsPerSlot db span))) else 0) ∧
      (span.window r).epochs = (if EpochSumsFit spec secondsPerSlot db then
        countWhere db.attestationRewardRows r.validatorIndex (since (spanCutoff spec secondsPerSlot db span)) else 0) := by
  obtain ⟨v, hv, rfl⟩ := List.mem_map.1 hr
  refine ⟨hv, fun span => ?_⟩
  simp only [validatorRewards, Db.lookup_attestations, Db.syncRewardWindows, Db.proposalRewardWindows, lookup_withoutEpochs]
  have hepochs : EpochSumsFit spec secondsPerSlot db ↔ db.AttestationsFit _ _ _ := Iff.rfl
  have hslots : ∀ rows, SlotSumsFit spec secondsPerSlot db rows ↔ SumsFit rows _ _ _ := fun rows => Iff.rfl
  simp only [hepochs, hslots, spanCutoff, Span.days]
  cases span with
  | day1 =>
    refine ⟨?_, ?_, ?_, ?_⟩ <;> simp only [Span.window] <;> split <;> rfl
  | day7 =>
    refine ⟨?_, ?_, ?_, ?_⟩ <;> simp only [Span.window] <;> split <;> rfl
  | day30 =>
    refine ⟨?_, ?_, ?_, ?_⟩ <;> simp only [Span.window] <;> split <;> rfl

variable (spec secondsPerSlot db)

/-- A window reports the rewards of its span, all three over the same epochs, and no more epochs than the span has. -/
structure SpanExact (v : Nat) (span : Span) (w : RewardWindow) : Prop where
  attestation : w.attestationReward = sumWhere db.attestationRewardRows v (inSpan spec secondsPerSlot db span)
  sync : w.syncReward = sumWhere db.syncRewardRows v fun slot => inSpan spec secondsPerSlot db span (spec.slotToEpoch slot)
  proposal : w.proposalReward =
    sumWhere db.proposalRewardRows v fun slot => inSpan spec secondsPerSlot db span (spec.slotToEpoch slot)
  epochs : w.epochs ≤ spanEpochs spec secondsPerSlot span

/-- The epoch in front of the span. -/
def boundaryEpoch (span : Span) (e : Nat) : Bool := decide (e + spanEpochs spec secondsPerSlot span = db.latestScannedEpoch)

/-- A slot that the cutoff lets in although its epoch is not in the span. -/
def slotBeside (span : Span) (slot : Nat) : Bool :=
  since (slotCutoff spec (spanCutoff spec secondsPerSlot db span)) slot &&
    !inSpan spec secondsPerSlot db span (spec.slotToEpoch slot)

/-- Nothing of a validator lies where the window should not reach. Where a query fails for a sum out of range, the
validator has nothing in the span either. -/
structure SpanClear (v : Nat) (span : Span) : Prop where
  attestation : if EpochSumsFit spec secondsPerSlot db then
      sumWhere db.attestationRewardRows v (boundaryEpoch spec secondsPerSlot db span) = 0
    else sumWhere db.attestationRewardRows v (inSpan spec secondsPerSlot db span) = 0
  sync : if SlotSumsFit spec secondsPerSlot db db.syncRewardRows then
      sumWhere db.syncRewardRows v (slotBeside spec secondsPerSlot db span) = 0
    else sumWhere db.syncRewardRows v (fun slot => inSpan spec secondsPerSlot db span (spec.slotToEpoch slot)) = 0
  proposal : if SlotSumsFit spec secondsPerSlot db db.proposalRewardRows then
      sumWhere db.proposalRewardRows v (slotBeside spec secondsPerSlot db span) = 0
    else sumWhere db.proposalRewardRows v (fun slot => inSpan spec secondsPerSlot db span (spec.slotToEpoch slot)) = 0
  epochs : EpochSumsFit spec secondsPerSlot db → spanEpochs spec secondsPerSlot span ≤ db.latestScannedEpoch →
    ∃ e, db.latestScannedEpoch ≤ e + spanEpochs spec secondsPerSlot span ∧ e ≤ db.latestScannedEpoch ∧
      db.attestationDuties.has (v, e) = false

variable {spec secondsPerSlot db} {span : Span}

theorem since_spanCutoff {e : Nat} : since (spanCutoff spec secondsPerSlot db span) e = true ↔
    db.latestScannedEpoch ≤ e + spanEpochs spec secondsPerSlot span := by
  unfold since spanCutoff epochCutoff spanEpochs
  rw [decide_eq_true_eq]
  have hcast : ((spec.epochsPerDay secondsPerSlot * span.days : Nat) : Int) = spec.epochsPerDay secondsPerSlot * span.days :=
    Nat.cast_mul _ _
  rw [← hcast]
  omega

theorem inSpan_iff {e : Nat} : inSpan spec secondsPerSlot db span e = true ↔
    db.latestScannedEpoch < e + spanEpochs spec secondsPerSlot span ∧ e ≤ db.latestScannedEpoch := by
  simp [inSpan]

/-- Wrapping brings a slot cutoff down, never up. -/
theorem slotCutoff_le {cutoff : Int} (h : 0 ≤ cutoff) : slotCutoff spec cutoff ≤ cutoff * spec.slotsPerEpoch := by
  have hnonneg : 0 ≤ cutoff * spec.slotsPerEpoch := Int.mul_nonneg h (Int.natCast_nonneg _)
  unfold slotCutoff wrapI64
  omega

theorem since_slotCutoff_of_inSpan {slot : Nat} (h : inSpan spec secondsPerSlot db span (spec.slotToEpoch slot) = true) :
    since (slotCutoff spec (spanCutoff spec secondsPerSlot db span)) slot = true := by
  have hsince : since (spanCutoff spec secondsPerSlot db span) (spec.slotToEpoch slot) = true :=
    since_spanCutoff.2 (inSpan_iff.1 h).1.le
  have hnonneg : 0 ≤ spanCutoff spec secondsPerSlot db span := le_max_right _ _
  unfold since at hsince ⊢
  rw [decide_eq_true_eq] at hsince ⊢
  calc slotCutoff spec (spanCutoff spec secondsPerSlot db span)
      ≤ spanCutoff spec secondsPerSlot db span * spec.slotsPerEpoch := slotCutoff_le hnonneg
    _ ≤ (spec.slotToEpoch slot : Int) * spec.slotsPerEpoch := Int.mul_le_mul_of_nonneg_right hsince (Int.natCast_nonneg _)
    _ ≤ slot := by exact_mod_cast spec.epochStartSlot_slotToEpoch_le slot

/-- Where no cutoff wraps, the slots let in beside the span are those of the epoch in front of it and those after the
latest epoch. -/
theorem slotBeside_iff {slot : Nat} (h : db.latestScannedEpoch * spec.slotsPerEpoch < 2 ^ 63) :
    slotBeside spec secondsPerSlot db span slot = true ↔
      boundaryEpoch spec secondsPerSlot db span (spec.slotToEpoch slot) = true ∨ db.latestScannedEpoch < spec.slotToEpoch slot := by
  have hcutoff : slotCutoff spec (spanCutoff spec secondsPerSlot db span) =
      ((db.latestScannedEpoch - spanEpochs spec secondsPerSlot span) * spec.slotsPerEpoch : Nat) := by
    have hepoch : spanCutoff spec secondsPerSlot db span = ((db.latestScannedEpoch - spanEpochs spec secondsPerSlot span : Nat) : Int) := by
      unfold spanCutoff epochCutoff spanEpochs
      have hcast : ((spec.epochsPerDay secondsPerSlot * span.days : Nat) : Int) = spec.epochsPerDay secondsPerSlot * span.days :=
        Nat.cast_mul _ _
      rw [← hcast]
      omega
    have hsmall : (db.latestScannedEpoch - spanEpochs spec secondsPerSlot span) * spec.slotsPerEpoch < 2 ^ 63 :=
      lt_of_le_of_lt (Nat.mul_le_mul_right _ (Nat.sub_le _ _)) h
    unfold slotCutoff wrapI64
    rw [hepoch, ← Nat.cast_mul]
    omega
  have hle : ((db.latestScannedEpoch - spanEpochs spec secondsPerSlot span) * spec.slotsPerEpoch ≤ slot) ↔
      db.latestScannedEpoch - spanEpochs spec secondsPerSlot span ≤ spec.slotToEpoch slot := spec.le_slotToEpoch_iff.symm
  unfold slotBeside since inSpan boundaryEpoch
  rw [hcutoff]
  simp only [Nat.cast_le, hle, Bool.and_eq_true, decide_eq_true_eq, Bool.not_eq_true', Bool.and_eq_false_iff, decide_eq_false_iff_not]
  omega

theorem le_latestScannedEpoch {r : RewardRow} (hr : r ∈ db.attestationRewardRows) : r.position ≤ db.latestScannedEpoch := by
  obtain ⟨row, hrow, rfl⟩ := List.mem_map.1 hr
  have hmem : row.1.2 ∈ db.attestationDuties.rows.map fun r => r.1.2 := List.mem_map_of_mem hrow
  unfold Db.latestScannedEpoch
  cases hmax : (db.attestationDuties.rows.map fun r => r.1.2).max? with
  | none =>
    rw [List.max?_eq_none_iff.1 hmax] at hmem
    cases hmem
  | some m => exact (List.max?_eq_some_iff.1 hmax).2 _ hmem

/-! ## Counting epochs -/

/-- The epochs of a validator that a window counts. -/
theorem mem_counted {v e : Nat} :
    e ∈ (db.attestationRewardRows.filter fun r => r.validator == v &&
      since (spanCutoff spec secondsPerSlot db span) r.position).map (·.position) ↔
    db.attestationDuties.has (v, e) = true ∧ db.latestScannedEpoch ≤ e + spanEpochs spec secondsPerSlot span := by
  rw [List.mem_map, Table.has_iff]
  constructor
  · rintro ⟨r, hr, rfl⟩
    obtain ⟨hmem, hr⟩ := List.mem_filter.1 hr
    obtain ⟨⟨⟨w, e⟩, row⟩, hrow, rfl⟩ := List.mem_map.1 hmem
    simp only [Bool.and_eq_true, beq_iff_eq, since_spanCutoff] at hr
    obtain ⟨rfl, hsince⟩ := hr
    exact ⟨⟨row, Table.mem_rows.1 hrow⟩, hsince⟩
  · rintro ⟨⟨row, hrow⟩, hsince⟩
    refine ⟨⟨v, e, some row.exactTotal⟩, List.mem_filter.2 ⟨?_, ?_⟩, rfl⟩
    · exact List.mem_map.2 ⟨((v, e), row), Table.mem_rows.2 hrow, rfl⟩
    · simp [since_spanCutoff, hsince]

theorem counted_nodup {v : Nat} {p : Nat → Bool} :
    ((db.attestationRewardRows.filter fun r => r.validator == v && p r.position).map (·.position)).Nodup := by
  have hkeys : (db.attestationRewardRows.map fun r => (r.validator, r.position)).Nodup := by
    unfold Db.attestationRewardRows
    rw [List.map_map]
    exact db.attestationDuties.nodup
  have hfilter := hkeys.sublist ((List.filter_sublist (p := fun r => r.validator == v && p r.position)).map _)
  refine List.Nodup.of_map (fun e => (v, e)) ?_
  rw [List.map_map, ← List.map_congr_left fun r hr => ?_]
  · exact hfilter
  · have hr := (List.mem_filter.1 hr).2
    simp only [Bool.and_eq_true, beq_iff_eq] at hr
    simp [hr.1]

/-- A window counts one epoch too many exactly if a validator has duties in all the epochs that the cutoff lets in. -/
theorem count_le_iff {v : Nat} :
    countWhere db.attestationRewardRows v (since (spanCutoff spec secondsPerSlot db span)) ≤ spanEpochs spec secondsPerSlot span ↔
      (spanEpochs spec secondsPerSlot span ≤ db.latestScannedEpoch →
        ∃ e, db.latestScannedEpoch ≤ e + spanEpochs spec secondsPerSlot span ∧ e ≤ db.latestScannedEpoch ∧
          db.attestationDuties.has (v, e) = false) := by
  unfold countWhere
  rw [← List.length_map fun r : RewardRow => r.position]
  have hmem : ∀ e, _ ↔ _ := fun e => @mem_counted spec secondsPerSlot db span v e
  have hnodup := @counted_nodup db v (since (spanCutoff spec secondsPerSlot db span))
  have hlatest : ∀ e, db.attestationDuties.has (v, e) = true → e ≤ db.latestScannedEpoch := by
    intro e he
    obtain ⟨row, hrow⟩ := Table.has_iff.1 he
    have hin : (⟨v, e, some row.exactTotal⟩ : RewardRow) ∈ db.attestationRewardRows :=
      List.mem_map.2 ⟨((v, e), row), Table.mem_rows.2 hrow, rfl⟩
    exact le_latestScannedEpoch hin
  generalize (db.attestationRewardRows.filter fun r => r.validator == v &&
    since (spanCutoff spec secondsPerSlot db span) r.position).map (·.position) = es at hmem hnodup
  generalize spanEpochs spec secondsPerSlot span = n at hmem
  generalize db.latestScannedEpoch = latest at hmem hlatest
  have hsub : es ⊆ List.range' (latest - n) (min n latest + 1) := by
    intro e he
    obtain ⟨hhas, hsince⟩ := (hmem e).1 he
    have := hlatest e hhas
    rw [List.mem_range'_1]
    omega
  constructor
  · intro hcount hn
    by_contra hall
    push Not at hall
    -- the window and the epoch in front of it all have duties
    have hfull : List.range' (latest - n) (n + 1) ⊆ es := by
      intro e he
      rw [List.mem_range'_1] at he
      have hhas := hall e (by omega) (by omega)
      exact (hmem e).2 ⟨by simpa using hhas, by omega⟩
    have hlen := (List.subperm_of_subset List.nodup_range' hfull).length_le
    rw [List.length_range'] at hlen
    omega
  · intro h
    by_cases hn : n ≤ latest
    · obtain ⟨e, hlow, hhigh, habsent⟩ := h hn
      have hnot : e ∉ es := fun he => by
        rw [((hmem e).1 he).1] at habsent
        cases habsent
      have hcons : e :: es ⊆ List.range' (latest - n) (min n latest + 1) := by
        refine List.cons_subset.2 ⟨?_, hsub⟩
        rw [List.mem_range'_1]
        omega
      have hlen := (List.subperm_of_subset (List.nodup_cons.2 ⟨hnot, hnodup⟩) hcons).length_le
      rw [List.length_range', List.length_cons] at hlen
      omega
    · have hlen := (List.subperm_of_subset hnodup hsub).length_le
      rw [List.length_range'] at hlen
      omega

/-! ## Exactly when the windows are right -/

/-- Of the rows that a window query counts, those of the span stand for it exactly if the rest sums to nothing. -/
theorem sum_eq_iff {rows : List RewardRow} {v : Nat} {fits : Prop} [Decidable fits] {p q : Nat → Bool}
    (h : ∀ r ∈ rows, q r.position = true → p r.position = true) :
    (if fits then sumWhere rows v p else 0) = sumWhere rows v q ↔
      if fits then sumWhere rows v (fun x => p x && !q x) = 0 else sumWhere rows v q = 0 := by
  split
  · rw [sumWhere_split h]
    omega
  · exact eq_comm

theorem spanExact_iff {r : ValidatorRewards} (hr : r ∈ (getRewards spec secondsPerSlot db).validators) :
    SpanExact spec secondsPerSlot db r.validatorIndex span (span.window r) ↔
      SpanClear spec secondsPerSlot db r.validatorIndex span := by
  obtain ⟨-, hentry⟩ := getRewards_entry hr
  obtain ⟨hatt, hsync, hproposal, hepochs⟩ := hentry span
  have hinside : ∀ r ∈ db.attestationRewardRows, inSpan spec secondsPerSlot db span r.position = true →
      since (spanCutoff spec secondsPerSlot db span) r.position = true :=
    fun r _ h => since_spanCutoff.2 (inSpan_iff.1 h).1.le
  have hboundary : sumWhere db.attestationRewardRows r.validatorIndex (fun e =>
      since (spanCutoff spec secondsPerSlot db span) e && !inSpan spec secondsPerSlot db span e) =
      sumWhere db.attestationRewardRows r.validatorIndex (boundaryEpoch spec secondsPerSlot db span) := by
    refine sumWhere_congr fun row hrow => ?_
    have hle := le_latestScannedEpoch hrow
    rw [Bool.eq_iff_iff, Bool.and_eq_true, since_spanCutoff, Bool.not_eq_true', ← Bool.not_eq_true, inSpan_iff, boundaryEpoch,
      decide_eq_true_eq]
    omega
  have hslots : ∀ rows : List RewardRow, ∀ r ∈ rows, inSpan spec secondsPerSlot db span (spec.slotToEpoch r.position) = true →
      since (slotCutoff spec (spanCutoff spec secondsPerSlot db span)) r.position = true :=
    fun _ r _ h => since_slotCutoff_of_inSpan h
  have hattIff := @sum_eq_iff _ r.validatorIndex (EpochSumsFit spec secondsPerSlot db) _ _ _ hinside
  rw [hboundary] at hattIff
  have hsyncIff := @sum_eq_iff db.syncRewardRows r.validatorIndex (SlotSumsFit spec secondsPerSlot db db.syncRewardRows) _ _
    (fun slot => inSpan spec secondsPerSlot db span (spec.slotToEpoch slot)) (hslots _)
  have hproposalIff := @sum_eq_iff db.proposalRewardRows r.validatorIndex
    (SlotSumsFit spec secondsPerSlot db db.proposalRewardRows) _ _
    (fun slot => inSpan spec secondsPerSlot db span (spec.slotToEpoch slot)) (hslots _)
  constructor
  · rintro ⟨h1, h2, h3, h4⟩
    refine ⟨hattIff.1 (hatt ▸ h1), hsyncIff.1 (hsync ▸ h2), hproposalIff.1 (hproposal ▸ h3), fun hfit => ?_⟩
    rw [hepochs, if_pos hfit] at h4
    exact count_le_iff.1 h4
  · rintro ⟨h1, h2, h3, h4⟩
    refine ⟨hatt.trans (hattIff.2 h1), hsync.trans (hsyncIff.2 h2), hproposal.trans (hproposalIff.2 h3), ?_⟩
    rw [hepochs]
    split
    · rename_i hfit
      exact count_le_iff.2 (h4 hfit)
    · exact Nat.zero_le _

end Windows

/-- The windows of a response are the advertised spans exactly if no listed validator has anything where they should
not reach; where no cutoff wraps, the slots among that are those of the epoch in front and those after the latest one. -/
theorem windows_exact_iff (spec : ChainSpec) (secondsPerSlot : Nat) (db : Db) :
    ((∀ r ∈ (getRewards spec secondsPerSlot db).validators, ∀ span : Span,
        SpanExact spec secondsPerSlot db r.validatorIndex span (span.window r)) ↔
      ∀ v ∈ db.listValidatorIndices, ∀ span, SpanClear spec secondsPerSlot db v span) ∧
    (db.latestScannedEpoch * spec.slotsPerEpoch < 2 ^ 63 → ∀ span slot,
      slotBeside spec secondsPerSlot db span slot = true ↔
        boundaryEpoch spec secondsPerSlot db span (spec.slotToEpoch slot) = true ∨
          db.latestScannedEpoch < spec.slotToEpoch slot) := by
  refine ⟨?_, fun hsmall span slot => slotBeside_iff hsmall⟩
  constructor
  · intro h v hv span
    obtain ⟨r, hr, rfl⟩ : ∃ r ∈ (getRewards spec secondsPerSlot db).validators, r.validatorIndex = v :=
      ⟨_, List.mem_map_of_mem hv, rfl⟩
    exact (spanExact_iff hr).1 (h r hr span)
  · intro h r hr span
    exact (spanExact_iff hr).2 (h _ (getRewards_entry hr).1 span)

/-- A duty whose source vote earned `reward`. -/
def rewardedDuty (epoch : Nat) (reward : Int) : AttestationRow :=
  ⟨32 * epoch, 0, 0, true, some (32 * epoch + 1), some 1, some 1, some true, some true, some true, some reward, some 0, some 0,
    some 0, true, true⟩

/-- A day has 225 epochs; validator 7 has duties in epoch 0 and in epoch 225, which are 226 epochs together. -/
def twoDutiesDb : Db :=
  { Db.empty with
    validators := .ofList [(7, ⟨0, none, none⟩)]
    attestationDuties := .ofList [((7, 0), rewardedDuty 0 5), ((7, 225), rewardedDuty 225 6)] }

/-- The one-day window reports 11, of which epoch 0 contributes 5. -/
theorem day_window_reaches_back : ¬∀ (spec : ChainSpec) (secondsPerSlot : Nat) (db : Db),
    0 < spec.epochsPerDay secondsPerSlot → ∀ r ∈ (getRewards spec secondsPerSlot db).validators, ∀ span : Span,
      SpanExact spec secondsPerSlot db r.validatorIndex span (span.window r) := by
  intro h
  have hmainnet := h ⟨32, 512, 64, 74240, by decide⟩ 12 twoDutiesDb (by decide +kernel)
  have hentry : (getRewards ⟨32, 512, 64, 74240, by decide⟩ 12 twoDutiesDb).validators =
      [⟨7, ⟨11, 0, 0, 11, 2⟩, ⟨11, 0, 0, 11, 2⟩, ⟨11, 0, 0, 11, 2⟩, ⟨11, 0, 0, 11, 2⟩⟩] := by decide +kernel
  rw [hentry] at hmainnet
  have hday := (hmainnet _ (List.mem_singleton_self _) .day1).attestation
  exact absurd hday (by decide +kernel)

end BeaconIndexer
