/-
Live writes to one provisional attestation row in any order: the row they leave depends only on
which of them occurred.
-/
import BeaconIndexer.Db.Spec
import BeaconIndexer.Scanner.LiveSlot
import BeaconIndexer.Scanner.Epoch

namespace BeaconIndexer

open Relational

/-- What live collection can write about one validator in one epoch: the seeded assignment, the
details of an inclusion at each slot, and one reward tuple. -/
structure LiveFacts where
  rewards : RewardTuple
  seed : AttesterDuty
  duty : Nat → AttesterDuty
  inclusion : Nat → AttestationInclusion
  effectiveDelay : Nat → Nat
  inclusion_slot : ∀ s, (inclusion s).inclusionSlot = s

/-- A batch of the reward update in which the row's tuple is `r`. -/
structure RewardBatch (r : RewardTuple) where
  tuples : List RewardTuple
  mem : r ∈ tuples
  only : ∀ t ∈ tuples, t.validator = r.validator → t.epoch = r.epoch → t = r

inductive LiveWrite (f : LiveFacts) where
  | seed
  | inclusion (slot : Nat)
  | rewards (batch : RewardBatch f.rewards)

namespace LiveFacts

variable (f : LiveFacts)

def key : Nat × Nat := (f.rewards.validator, f.rewards.epoch)

def inclusionRow (s : Nat) : AttestationWrite := liveRow (f.duty s) (f.inclusion s) (f.effectiveDelay s)

/-- The row with the tuple joined to it. -/
def rewarded (a : AttestationRow) : AttestationRow :=
  a.withRewards f.rewards.source f.rewards.target f.rewards.head f.rewards.inactivity

end LiveFacts

namespace LiveWrite

variable {f : LiveFacts}

def exec (db : Db) : LiveWrite f → Db
  | seed => db.upsertAttestationDuty f.rewards.validator f.rewards.epoch (seedRow f.seed)
  | inclusion s => db.upsertAttestationDuty f.rewards.validator f.rewards.epoch (f.inclusionRow s)
  | rewards batch => db.updateAttestationRewardsBatch batch.tuples

/-- What a write does to the row once it exists. -/
def onRow (a : AttestationRow) : LiveWrite f → AttestationRow
  | seed => if a.inclusionSlot = none then (seedRow f.seed).merge a else a
  | inclusion s => if a.inclusionSlot.all (s ≤ ·) then (f.inclusionRow s).merge a else a
  | rewards _ => f.rewarded a

def isSeed : LiveWrite f → Bool
  | seed => true
  | _ => false

def isRewards : LiveWrite f → Bool
  | rewards _ => true
  | _ => false

def slot? : LiveWrite f → Option Nat
  | inclusion s => some s
  | _ => none

end LiveWrite

variable {f : LiveFacts}

/-- The statements of a list of writes, one after another. -/
def runWrites (ws : List (LiveWrite f)) (db : Db) : Db := ws.foldl LiveWrite.exec db

/-- The slots of the inclusions among the writes. -/
def observed (ws : List (LiveWrite f)) : List Nat := ws.filterMap LiveWrite.slot?

/-- The two lists hold the same writes, in any order and number. -/
structure SameWrites (ws ws' : List (LiveWrite f)) : Prop where
  seed : (.seed ∈ ws ↔ .seed ∈ ws')
  inclusion : ∀ s, (.inclusion s ∈ ws ↔ .inclusion s ∈ ws')
  rewards : ((∃ b, .rewards b ∈ ws) ↔ ∃ b, .rewards b ∈ ws')

/-! ## One write -/

theorem RewardBatch.find {r : RewardTuple} (b : RewardBatch r) :
    b.tuples.find? (fun t => t.validator == r.validator && t.epoch == r.epoch) = some r := by
  cases h : b.tuples.find? fun t => t.validator == r.validator && t.epoch == r.epoch with
  | none =>
    have := List.find?_eq_none.1 h r b.mem
    simp at this
  | some t =>
    have hp := List.find?_some h
    rw [Bool.and_eq_true, beq_iff_eq, beq_iff_eq] at hp
    rw [b.only t (List.mem_of_find?_eq_some h) hp.1 hp.2]

theorem LiveWrite.onRow_finalized (w : LiveWrite f) {a : AttestationRow} (h : a.finalized = false) :
    (w.onRow a).finalized = false := by
  cases w with
  | seed =>
    show (if a.inclusionSlot = none then (seedRow f.seed).merge a else a).finalized = false
    split
    · rfl
    · exact h
  | inclusion s =>
    show (if a.inclusionSlot.all (s ≤ ·) then (f.inclusionRow s).merge a else a).finalized = false
    split
    · rfl
    · exact h
  | rewards b => exact h

theorem seedRow_replaces {duty : AttesterDuty} {completed : Bool} {a : AttestationRow} (h : a.finalized = false) :
    (seedRow duty).replaces completed a = a.inclusionSlot.isNone := by
  unfold AttestationWrite.replaces seedRow
  cases hs : a.inclusionSlot <;> simp [h, sqlLt, sqlEq]

theorem inclusionRow_replaces {s : Nat} {completed : Bool} {a : AttestationRow} (h : a.finalized = false) :
    (f.inclusionRow s).replaces completed a = a.inclusionSlot.all (s ≤ ·) := by
  unfold AttestationWrite.replaces LiveFacts.inclusionRow liveRow
  rw [f.inclusion_slot]
  cases hs : a.inclusionSlot with
  | none => simp [h]
  | some x =>
    simp only [h, sqlLt, sqlEq, Option.isNone_some, Option.all_some, Option.isSome_some]
    by_cases hlt : s < x
    · simp [hlt, hlt.le]
    · by_cases heq : s = x
      · simp [heq]
      · have : ¬s ≤ x := by omega
        simp [hlt, heq, this]

theorem LiveWrite.exec_get (w : LiveWrite f) {db : Db} {a : AttestationRow}
    (h : db.attestationDuties.get f.key = some a) (hf : a.finalized = false) :
    (w.exec db).attestationDuties.get f.key = some (w.onRow a) := by
  cases w with
  | seed =>
    show (db.upsertAttestationDuty _ _ _).attestationDuties.get f.key = _
    rw [Db.upsertAttestationDuty_get, if_pos (show f.key = (f.rewards.validator, f.rewards.epoch) from rfl), h]
    simp only [Db.upsertedAttestation, seedRow_replaces hf, onRow, Option.isNone_iff_eq_none]
  | inclusion s =>
    show (db.upsertAttestationDuty _ _ _).attestationDuties.get f.key = _
    rw [Db.upsertAttestationDuty_get, if_pos (show f.key = (f.rewards.validator, f.rewards.epoch) from rfl), h]
    simp only [Db.upsertedAttestation, inclusionRow_replaces hf, onRow]
  | rewards b =>
    show (db.updateAttestationRewardsBatch b.tuples).attestationDuties.get f.key = _
    unfold Db.updateAttestationRewardsBatch
    rw [Table.get_modify, h]
    simp only [Option.bind_some, LiveFacts.key, b.find, hf, onRow]
    rfl

theorem runWrites_get (ws : List (LiveWrite f)) : ∀ {db : Db} {a : AttestationRow},
    db.attestationDuties.get f.key = some a → a.finalized = false →
      (runWrites ws db).attestationDuties.get f.key = some (ws.foldl LiveWrite.onRow a) ∧
      (ws.foldl LiveWrite.onRow a).finalized = false := by
  induction ws with
  | nil => intro db a h hf; exact ⟨h, hf⟩
  | cons w ws ih => intro db a h hf; exact ih (w.exec_get h hf) (w.onRow_finalized hf)

/-! ## Many writes -/

/-- The row after seeds and inclusions of which the earliest is at `best`. -/
def inclusionOnRow (f : LiveFacts) (a : AttestationRow) (seeded : Bool) (best : Option Nat) : AttestationRow :=
  match best with
  | some s => if a.inclusionSlot.all (s ≤ ·) then (f.inclusionRow s).merge a else a
  | none => if seeded && a.inclusionSlot.isNone then (seedRow f.seed).merge a else a

/-- The row after these and possibly the rewards. -/
def settled (f : LiveFacts) (a : AttestationRow) (seeded rewarded : Bool) (best : Option Nat) : AttestationRow :=
  if rewarded then f.rewarded (inclusionOnRow f a seeded best) else inclusionOnRow f a seeded best

section Settled

variable (a : AttestationRow) (seeded rewarded : Bool) (best : Option Nat)

theorem inclusionRow_merge_slot (s : Nat) : ((f.inclusionRow s).merge a).inclusionSlot = some s :=
  congrArg some (f.inclusion_slot s)

theorem onRow_seed_rewarded :
    (LiveWrite.seed (f := f)).onRow (f.rewarded a) = f.rewarded ((LiveWrite.seed (f := f)).onRow a) := by
  show (if a.inclusionSlot = none then (seedRow f.seed).merge (f.rewarded a) else f.rewarded a) =
    f.rewarded (if a.inclusionSlot = none then (seedRow f.seed).merge a else a)
  split <;> rfl

theorem onRow_inclusion_rewarded (s : Nat) :
    (LiveWrite.inclusion (f := f) s).onRow (f.rewarded a) =
      f.rewarded ((LiveWrite.inclusion (f := f) s).onRow a) := by
  show (if a.inclusionSlot.all (s ≤ ·) then (f.inclusionRow s).merge (f.rewarded a) else f.rewarded a) =
    f.rewarded (if a.inclusionSlot.all (s ≤ ·) then (f.inclusionRow s).merge a else a)
  split <;> rfl

theorem rewarded_rewarded : f.rewarded (f.rewarded a) = f.rewarded a := by
  simp [LiveFacts.rewarded, AttestationRow.withRewards, coalesce, Option.or_assoc]

theorem onRow_seed_inclusionOnRow :
    (LiveWrite.seed (f := f)).onRow (inclusionOnRow f a seeded best) = inclusionOnRow f a true best := by
  show (if (inclusionOnRow f a seeded best).inclusionSlot = none then
    (seedRow f.seed).merge (inclusionOnRow f a seeded best) else inclusionOnRow f a seeded best) = _
  cases best with
  | none =>
    cases hs : a.inclusionSlot with
    | none =>
      -- no inclusion yet: the seed rewrites the assignment and keeps what was collected
      have hslot : ((seedRow f.seed).merge a).inclusionSlot = none := rfl
      cases seeded
      · simp [inclusionOnRow, hs]
      · simp only [inclusionOnRow, hs, Option.isNone_none, Bool.and_self, if_true, hslot]
        rfl
    | some x => simp [inclusionOnRow, hs]
  | some s =>
    by_cases h : a.inclusionSlot.all (s ≤ ·) = true
    · simp [inclusionOnRow, h, inclusionRow_merge_slot]
    · obtain ⟨x, hx⟩ : ∃ x, a.inclusionSlot = some x := by
        cases hs : a.inclusionSlot with
        | none => simp [hs] at h
        | some x => exact ⟨x, rfl⟩
      have hrow : inclusionOnRow f a seeded (some s) = a := if_neg h
      rw [hrow, if_neg (by rw [hx]; simp)]
      exact (if_neg h).symm

theorem onRow_inclusion_inclusionOnRow (s : Nat) :
    (LiveWrite.inclusion (f := f) s).onRow (inclusionOnRow f a seeded best) =
      inclusionOnRow f a seeded (some ((best.map (min s)).getD s)) := by
  show (if (inclusionOnRow f a seeded best).inclusionSlot.all (s ≤ ·) then
    (f.inclusionRow s).merge (inclusionOnRow f a seeded best) else inclusionOnRow f a seeded best) = _
  cases best with
  | none =>
    show _ = if a.inclusionSlot.all (s ≤ ·) then (f.inclusionRow s).merge a else a
    by_cases hseed : (seeded && a.inclusionSlot.isNone) = true
    · -- the seeded row has no inclusion, so this one is the first
      have hnone : a.inclusionSlot = none := by
        rw [Bool.and_eq_true, Option.isNone_iff_eq_none] at hseed; exact hseed.2
      have hrow : inclusionOnRow f a seeded none = (seedRow f.seed).merge a := if_pos hseed
      rw [hrow, hnone]
      rfl
    · simp only [inclusionOnRow, if_neg hseed]
  | some m =>
    show _ = if a.inclusionSlot.all (min s m ≤ ·) then (f.inclusionRow (min s m)).merge a else a
    by_cases hm : a.inclusionSlot.all (m ≤ ·) = true
    · have hall : a.inclusionSlot.all (min s m ≤ ·) = true := by
        cases hs : a.inclusionSlot with
        | none => rfl
        | some x =>
          rw [hs, Option.all_some, decide_eq_true_eq] at hm
          rw [Option.all_some, decide_eq_true_eq]
          omega
      rw [if_pos hall]
      simp only [inclusionOnRow, if_pos hm, inclusionRow_merge_slot, Option.all_some, decide_eq_true_eq]
      by_cases hle : s ≤ m
      · rw [if_pos hle, min_eq_left hle]; rfl
      · rw [if_neg hle, min_eq_right (by omega)]
    · simp only [inclusionOnRow, if_neg hm]
      cases hs : a.inclusionSlot with
      | none => simp [hs] at hm
      | some x =>
        rw [hs, Option.all_some, decide_eq_true_eq] at hm
        simp only [Option.all_some, decide_eq_true_eq]
        by_cases hle : s ≤ x
        · rw [if_pos hle, if_pos (by omega), min_eq_left (by omega)]
        · rw [if_neg hle, if_neg (by omega)]

end Settled

theorem min?_concat (l : List Nat) (s : Nat) : (l ++ [s]).min? = some ((l.min?.map (min s)).getD s) := by
  cases l with
  | nil => rfl
  | cons x xs =>
    rw [List.cons_append, List.min?_cons', List.min?_cons', List.foldl_append]
    simp only [List.foldl_cons, List.foldl_nil, Option.map_some, Option.getD_some, min_comm s]

/-- Writes leave the row that the earliest inclusion, a seed and the rewards leave. -/
theorem foldl_onRow (a : AttestationRow) (ws : List (LiveWrite f)) :
    ws.foldl LiveWrite.onRow a = settled f a (ws.any LiveWrite.isSeed) (ws.any LiveWrite.isRewards) (observed ws).min? := by
  induction ws using List.reverseRecOn with
  | nil => rfl
  | append_singleton ws w ih =>
    rw [List.foldl_append, List.foldl_cons, List.foldl_nil, ih]
    unfold settled
    cases w with
    | seed =>
      have hobs : observed (ws ++ [LiveWrite.seed (f := f)]) = observed ws := by simp [observed, LiveWrite.slot?]
      rw [hobs]
      simp only [List.any_append, List.any_cons, List.any_nil, LiveWrite.isSeed, LiveWrite.isRewards, Bool.or_false,
        Bool.or_true]
      split
      · rw [onRow_seed_rewarded, onRow_seed_inclusionOnRow]
      · rw [onRow_seed_inclusionOnRow]
    | inclusion s =>
      have hobs : (observed (ws ++ [LiveWrite.inclusion (f := f) s])).min? =
          some (((observed ws).min?.map (min s)).getD s) := by
        have happ : observed (ws ++ [LiveWrite.inclusion (f := f) s]) = observed ws ++ [s] := by
          simp [observed, LiveWrite.slot?]
        rw [happ, min?_concat]
      rw [hobs]
      simp only [List.any_append, List.any_cons, List.any_nil, LiveWrite.isSeed, LiveWrite.isRewards, Bool.or_false]
      split
      · rw [onRow_inclusion_rewarded, onRow_inclusion_inclusionOnRow]
      · rw [onRow_inclusion_inclusionOnRow]
    | rewards b =>
      have hobs : observed (ws ++ [LiveWrite.rewards b]) = observed ws := by simp [observed, LiveWrite.slot?]
      rw [hobs]
      simp only [List.any_append, List.any_cons, List.any_nil, LiveWrite.isSeed, LiveWrite.isRewards, Bool.or_false,
        Bool.or_true]
      rw [if_pos trivial]
      split
      · exact rewarded_rewarded _
      · rfl

/-! ## Convergence -/

theorem mem_observed {ws : List (LiveWrite f)} {s : Nat} : s ∈ observed ws ↔ .inclusion s ∈ ws := by
  unfold observed
  rw [List.mem_filterMap]
  constructor
  · rintro ⟨w, hw, hs⟩
    cases w <;> cases hs
    exact hw
  · intro h; exact ⟨_, h, rfl⟩

theorem min?_congr {l l' : List Nat} (h : ∀ x, x ∈ l ↔ x ∈ l') : l.min? = l'.min? := by
  cases hm : l.min? with
  | none =>
    rw [List.min?_eq_none_iff] at hm
    subst hm
    symm
    rw [List.min?_eq_none_iff, List.eq_nil_iff_forall_not_mem]
    intro x hx
    cases (h x).2 hx
  | some m =>
    obtain ⟨hmem, hle⟩ := List.min?_eq_some_iff.1 hm
    symm
    exact List.min?_eq_some_iff.2 ⟨(h m).1 hmem, fun x hx => hle x ((h x).2 hx)⟩

theorem SameWrites.foldl_eq {ws ws' : List (LiveWrite f)} (h : SameWrites ws ws') (a : AttestationRow) :
    ws.foldl LiveWrite.onRow a = ws'.foldl LiveWrite.onRow a := by
  have hseed : ws.any LiveWrite.isSeed = ws'.any LiveWrite.isSeed := by
    have hiff : ∀ l : List (LiveWrite f), l.any LiveWrite.isSeed = true ↔ .seed ∈ l := by
      intro l
      rw [List.any_eq_true]
      constructor
      · rintro ⟨w, hw, hs⟩; cases w <;> first | exact hw | cases hs
      · intro hw; exact ⟨_, hw, rfl⟩
    rw [Bool.eq_iff_iff, hiff, hiff]
    exact h.seed
  have hrewards : ws.any LiveWrite.isRewards = ws'.any LiveWrite.isRewards := by
    have hiff : ∀ l : List (LiveWrite f), l.any LiveWrite.isRewards = true ↔ ∃ b, .rewards b ∈ l := by
      intro l
      rw [List.any_eq_true]
      constructor
      · rintro ⟨w, hw, hs⟩; cases w <;> first | exact ⟨_, hw⟩ | cases hs
      · rintro ⟨b, hw⟩; exact ⟨_, hw, rfl⟩
    rw [Bool.eq_iff_iff, hiff, hiff]
    exact h.rewards
  have hbest : (observed ws).min? = (observed ws').min? := by
    apply min?_congr
    intro s
    rw [mem_observed, mem_observed]
    exact h.inclusion s
  rw [foldl_onRow, foldl_onRow, hseed, hrewards, hbest]

/-- A provisional row agrees with itself: it is included exactly with an inclusion slot, and then
its vote is decoded. -/
structure AttestationRow.Provisional (a : AttestationRow) : Prop where
  finalized : a.finalized = false
  included : a.included = a.inclusionSlot.isSome
  decoded : a.inclusionSlot ≠ none → a.sourceCorrect ≠ none ∧ a.targetCorrect ≠ none ∧ a.headCorrect ≠ none

/-- The rewards and, where no inclusion was observed, their positive components. -/
def LiveFacts.Joined (f : LiveFacts) (a0 a : AttestationRow) : Prop :=
  a.sourceReward = f.rewards.source ∧ a.targetReward = f.rewards.target ∧ a.headReward = f.rewards.head ∧
    a.inactivityPenalty = f.rewards.inactivity ∧
  (a.inclusionSlot = none →
    a.sourceCorrect = coalesce a0.sourceCorrect (ifPositive f.rewards.source) ∧
    a.targetCorrect = coalesce a0.targetCorrect (ifPositive f.rewards.target) ∧
    a.headCorrect = coalesce a0.headCorrect (ifPositive f.rewards.head))

/-- The rewards and vote flags are those of the row before. -/
def AttestationRow.KeepsRewards (a0 a : AttestationRow) : Prop :=
  a.sourceReward = a0.sourceReward ∧ a.targetReward = a0.targetReward ∧ a.headReward = a0.headReward ∧
    a.inactivityPenalty = a0.inactivityPenalty ∧
  (a.inclusionSlot = none → a.sourceCorrect = a0.sourceCorrect ∧ a.targetCorrect = a0.targetCorrect ∧
    a.headCorrect = a0.headCorrect)

/-- The row carries the delays and vote flags of the inclusion at `s`. -/
def LiveFacts.Carries (f : LiveFacts) (s : Nat) (a : AttestationRow) : Prop :=
  a.included = true ∧ a.inclusionSlot = some s ∧ a.inclusionDelay = some (f.inclusion s).inclusionDelay ∧
    a.effectiveInclusionDelay = some (f.effectiveDelay s) ∧ a.sourceCorrect = some (f.inclusion s).sourceCorrect ∧
    a.targetCorrect = some (f.inclusion s).targetCorrect ∧ a.headCorrect = some (f.inclusion s).headCorrect

/-- The row `a` that live writes leave of `a0`. An inclusion that `a0` holds counts as observed. -/
structure Converged (f : LiveFacts) (a0 : AttestationRow) (ws : List (LiveWrite f)) (a : AttestationRow) : Prop where
  slot : a.inclusionSlot = (a0.inclusionSlot.toList ++ observed ws).min?
  included : a0.included = a0.inclusionSlot.isSome →
    (a.included = true ↔ a0.included = true ∨ ∃ s, .inclusion s ∈ ws)
  earliest : ∀ s, .inclusion s ∈ ws → a.inclusionSlot = some s → f.Carries s a
  kept : a0.Provisional → (∀ s, .inclusion s ∈ ws → a.inclusionSlot ≠ some s) → a.inclusionSlot ≠ none →
    a.inclusionSlot = a0.inclusionSlot ∧ a.inclusionDelay = a0.inclusionDelay ∧
    a.effectiveInclusionDelay = a0.effectiveInclusionDelay ∧ a.sourceCorrect = a0.sourceCorrect ∧
    a.targetCorrect = a0.targetCorrect ∧ a.headCorrect = a0.headCorrect
  rewarded : ∀ b, .rewards b ∈ ws → f.Joined a0 a
  unrewarded : (∀ b, .rewards b ∉ ws) → a0.KeepsRewards a

/-- Which of the three rows the seeds and inclusions leave. -/
inductive Base (f : LiveFacts) (a : AttestationRow) : Option Nat → AttestationRow → Prop
  | included {m : Nat} : a.inclusionSlot.all (m ≤ ·) = true → Base f a (some m) ((f.inclusionRow m).merge a)
  | seeded : a.inclusionSlot = none → Base f a none ((seedRow f.seed).merge a)
  | unchanged : Base f a none a
  | earlier {m x : Nat} : a.inclusionSlot = some x → x < m → Base f a (some m) a

theorem inclusionOnRow_base (f : LiveFacts) (a : AttestationRow) (seeded : Bool) (best : Option Nat) :
    Base f a best (inclusionOnRow f a seeded best) := by
  unfold inclusionOnRow
  cases best with
  | none =>
    by_cases h : (seeded && a.inclusionSlot.isNone) = true
    · simp only [if_pos h]
      rw [Bool.and_eq_true, Option.isNone_iff_eq_none] at h
      exact .seeded h.2
    · simp only [if_neg h]
      exact .unchanged
  | some m =>
    by_cases h : a.inclusionSlot.all (m ≤ ·) = true
    · simp only [if_pos h]
      exact .included h
    · simp only [if_neg h]
      cases hx : a.inclusionSlot with
      | none => simp [hx] at h
      | some x =>
        rw [hx, Option.all_some, decide_eq_true_eq] at h
        exact .earlier hx (by omega)

theorem Base.slot {a b : AttestationRow} {l : List Nat} (h : Base f a l.min? b) :
    b.inclusionSlot = (a.inclusionSlot.toList ++ l).min? := by
  generalize hm : l.min? = best at h
  cases h with
  | @included m hall =>
    rw [inclusionRow_merge_slot]
    cases hs : a.inclusionSlot with
    | none => exact hm.symm
    | some x =>
      rw [hs, Option.all_some, decide_eq_true_eq] at hall
      simp [hm, min_eq_right hall]
  | seeded hs =>
    rw [hs]
    exact hm.symm
  | unchanged =>
    rw [List.min?_eq_none_iff] at hm
    subst hm
    cases a.inclusionSlot <;> rfl
  | earlier hx hlt => simp [hx, hm, min_eq_left hlt.le]

/-- The seeds and inclusions never touch the rewards. -/
theorem Base.rewards {a b : AttestationRow} {best : Option Nat} (h : Base f a best b) :
    b.sourceReward = a.sourceReward ∧ b.targetReward = a.targetReward ∧ b.headReward = a.headReward ∧
      b.inactivityPenalty = a.inactivityPenalty := by
  cases h <;> exact ⟨rfl, rfl, rfl, rfl⟩

theorem Base.votes {a b : AttestationRow} {best : Option Nat} (h : Base f a best b) (hn : b.inclusionSlot = none) :
    b.sourceCorrect = a.sourceCorrect ∧ b.targetCorrect = a.targetCorrect ∧ b.headCorrect = a.headCorrect := by
  cases h with
  | included =>
    rw [inclusionRow_merge_slot] at hn
    cases hn
  | seeded => exact ⟨rfl, rfl, rfl⟩
  | unchanged => exact ⟨rfl, rfl, rfl⟩
  | earlier => exact ⟨rfl, rfl, rfl⟩

theorem Base.carries {a b : AttestationRow} {l : List Nat} (h : Base f a l.min? b) {s : Nat} (hs : s ∈ l)
    (hb : b.inclusionSlot = some s) : f.Carries s b := by
  generalize hm : l.min? = best at h
  cases h with
  | @included m hall =>
    rw [inclusionRow_merge_slot] at hb
    cases hb
    exact ⟨rfl, inclusionRow_merge_slot a _, rfl, rfl, rfl, rfl, rfl⟩
  | seeded =>
    rw [List.min?_eq_none_iff] at hm
    subst hm; cases hs
  | unchanged =>
    rw [List.min?_eq_none_iff] at hm
    subst hm; cases hs
  | earlier hx hlt =>
    have := (List.min?_eq_some_iff.1 hm).2 s hs
    rw [hx] at hb
    cases hb
    omega

theorem Base.included_iff {a b : AttestationRow} {l : List Nat} (h : Base f a l.min? b)
    (ha : a.included = a.inclusionSlot.isSome) : b.included = true ↔ a.included = true ∨ l ≠ [] := by
  generalize hm : l.min? = best at h
  cases h with
  | included hall =>
    have hl : l ≠ [] := by rintro rfl; cases hm
    simp [hl, AttestationWrite.merge, LiveFacts.inclusionRow, liveRow]
  | seeded hs =>
    rw [List.min?_eq_none_iff] at hm
    simp [hm, ha, hs, AttestationWrite.merge, seedRow]
  | unchanged =>
    rw [List.min?_eq_none_iff] at hm
    simp [hm]
  | earlier hx _ => simp [ha, hx]

theorem Base.kept {a b : AttestationRow} {l : List Nat} (h : Base f a l.min? b)
    (hl : ∀ s ∈ l, b.inclusionSlot ≠ some s) (hb : b.inclusionSlot ≠ none) : b = a := by
  generalize hm : l.min? = best at h
  cases h with
  | included hall => exact absurd (inclusionRow_merge_slot a _) (hl _ (List.min?_eq_some_iff.1 hm).1)
  | seeded => exact absurd rfl hb
  | unchanged => rfl
  | earlier => rfl

theorem coalesce_ne_none {α : Type} {x y : Option α} (h : x ≠ none) : coalesce x y = x := by
  cases x with
  | none => exact absurd rfl h
  | some a => rfl

theorem converged_settled (a0 : AttestationRow) (ws : List (LiveWrite f)) :
    Converged f a0 ws (ws.foldl LiveWrite.onRow a0) := by
  rw [foldl_onRow]
  have hbase := inclusionOnRow_base f a0 (ws.any LiveWrite.isSeed) (observed ws).min?
  unfold settled
  generalize inclusionOnRow f a0 (ws.any LiveWrite.isSeed) (observed ws).min? = base at hbase
  -- joining the rewards touches neither the inclusion nor a decoded vote
  have hcarries : ∀ s, f.Carries s base → f.Carries s (f.rewarded base) := by
    rintro s ⟨h1, h2, h3, h4, h5, h6, h7⟩
    refine ⟨h1, h2, h3, h4, ?_, ?_, ?_⟩
    · show coalesce base.sourceCorrect _ = _; rw [h5]; rfl
    · show coalesce base.targetCorrect _ = _; rw [h6]; rfl
    · show coalesce base.headCorrect _ = _; rw [h7]; rfl
  have hkept : ∀ hp : a0.Provisional, base = a0 → base.inclusionSlot ≠ none →
      (f.rewarded base).sourceCorrect = a0.sourceCorrect ∧ (f.rewarded base).targetCorrect = a0.targetCorrect ∧
      (f.rewarded base).headCorrect = a0.headCorrect := by
    rintro hp rfl hn
    obtain ⟨d1, d2, d3⟩ := hp.decoded hn
    exact ⟨coalesce_ne_none d1, coalesce_ne_none d2, coalesce_ne_none d3⟩
  have hobs : (∃ s, LiveWrite.inclusion s ∈ ws) ↔ observed ws ≠ [] := by
    constructor
    · rintro ⟨s, hs⟩ hn
      rw [← mem_observed, hn] at hs
      cases hs
    · intro hn
      obtain ⟨s, hs⟩ := List.exists_mem_of_ne_nil _ hn
      exact ⟨s, mem_observed.1 hs⟩
  have hmem : ∀ {s}, LiveWrite.inclusion s ∈ ws → s ∈ observed ws := fun h => mem_observed.2 h
  cases hr : ws.any LiveWrite.isRewards with
  | true =>
    rw [if_pos rfl]
    constructor
    · exact hbase.slot
    · intro ha; rw [hobs]; exact hbase.included_iff ha
    · intro s hs hb; exact hcarries s (hbase.carries (hmem hs) hb)
    · intro hp hl hn
      obtain rfl := hbase.kept (fun s hs => hl s (mem_observed.1 hs)) hn
      exact ⟨rfl, rfl, rfl, hkept hp rfl hn⟩
    · intro b _
      refine ⟨rfl, rfl, rfl, rfl, fun hn => ?_⟩
      obtain ⟨v1, v2, v3⟩ := hbase.votes hn
      rw [← v1, ← v2, ← v3]
      exact ⟨rfl, rfl, rfl⟩
    · intro hno
      obtain ⟨w, hw, hb⟩ := List.any_eq_true.1 hr
      cases w with
      | seed => cases hb
      | inclusion s => cases hb
      | rewards b => exact absurd hw (hno b)
  | false =>
    rw [if_neg (by simp)]
    constructor
    · exact hbase.slot
    · intro ha; rw [hobs]; exact hbase.included_iff ha
    · intro s hs hb; exact hbase.carries (hmem hs) hb
    · intro _ hl hn
      obtain rfl := hbase.kept (fun s hs => hl s (mem_observed.1 hs)) hn
      exact ⟨rfl, rfl, rfl, rfl, rfl, rfl⟩
    · intro b hb
      have := List.any_eq_true.2 ⟨_, hb, (rfl : (LiveWrite.rewards b).isRewards = true)⟩
      rw [hr] at this
      cases this
    · intro _
      obtain ⟨r1, r2, r3, r4⟩ := hbase.rewards
      exact ⟨r1, r2, r3, r4, hbase.votes⟩

/-- Live writes to a provisional row leave the same row in any order and number, and the row is the
one of the earliest inclusion with the rewards joined. -/
theorem live_writes_converge (f : LiveFacts) (db : Db) (a0 : AttestationRow)
    (h : db.attestationDuties.get f.key = some a0) (hf : a0.finalized = false) (ws : List (LiveWrite f)) :
    ∃ a, Converged f a0 ws a ∧
      ∀ ws', SameWrites ws ws' → (runWrites ws' db).attestationDuties.get f.key = some a := by
  refine ⟨_, converged_settled a0 ws, fun ws' hsame => ?_⟩
  rw [hsame.foldl_eq]
  exact (runWrites_get ws' h hf).1

/-- Validator 1 in epoch 0, seeded, with inclusions that may be seen at any slot. -/
def oneVote : LiveFacts where
  rewards := ⟨1, 0, some 10, some 20, some 0, some 0⟩
  seed := ⟨1, 0, 0, 2⟩
  duty _ := ⟨1, 0, 0, 2⟩
  inclusion s := ⟨s, s - 2, true, true, false⟩
  effectiveDelay s := s - 2
  inclusion_slot _ := rfl

def oneVoteRewards : RewardBatch oneVote.rewards := ⟨[oneVote.rewards], by simp, by simp⟩

def oneVoteSeeded : Db := (LiveWrite.seed (f := oneVote)).exec .empty

theorem live_writes_converge_oneVote :
    ∃ a, Converged oneVote (seedRow oneVote.seed).toRow [.rewards oneVoteRewards, .inclusion 5, .inclusion 3] a ∧
      ∀ ws', SameWrites [.rewards oneVoteRewards, .inclusion 5, .inclusion 3] ws' →
        (runWrites ws' oneVoteSeeded).attestationDuties.get oneVote.key = some a :=
  live_writes_converge oneVote oneVoteSeeded (seedRow oneVote.seed).toRow rfl rfl
    [.rewards oneVoteRewards, .inclusion 5, .inclusion 3]

end BeaconIndexer
