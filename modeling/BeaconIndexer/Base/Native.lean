/-
Fixed-width arithmetic of native code on mathematical integers. An operation whose result does not fit
panics in a build that checks for overflow and wraps in one that does not; a division that has no result
in range panics in both. `none` is a panic.
-/
import Mathlib.Tactic

namespace Native

/-- In the range of a signed 64-bit integer. -/
def InI64 (x : Int) : Prop := -2 ^ 63 ≤ x ∧ x < 2 ^ 63

instance : DecidablePred InI64 := fun x => inferInstanceAs (Decidable (-2 ^ 63 ≤ x ∧ x < 2 ^ 63))

/-- Two's complement. -/
def wrapI64 (x : Int) : Int := (x + 2 ^ 63) % 2 ^ 64 - 2 ^ 63

/-- What an operation with the exact result `x` gives. -/
def resultI64 (checks : Bool) (x : Int) : Option Int :=
  if InI64 x then some x else if checks then none else some (wrapI64 x)

def addI64 (checks : Bool) (a b : Int) : Option Int := resultI64 checks (a + b)

def mulI64 (checks : Bool) (a b : Int) : Option Int := resultI64 checks (a * b)

def divI64 (a b : Int) : Option Int := if b ≠ 0 ∧ InI64 (a.tdiv b) then some (a.tdiv b) else none

def remI64 (a b : Int) : Option Int := if b ≠ 0 ∧ InI64 (a.tdiv b) then some (a.tmod b) else none

def addU64 (checks : Bool) (a b : Nat) : Option Nat :=
  if a + b < 2 ^ 64 then some (a + b) else if checks then none else some ((a + b) % 2 ^ 64)

def mulU64 (checks : Bool) (a b : Nat) : Option Nat :=
  if a * b < 2 ^ 64 then some (a * b) else if checks then none else some (a * b % 2 ^ 64)

/-- `saturating_sub` on signed 32-bit integers. -/
def satSubI32 (a b : Int) : Int := max (-2 ^ 31) (min (2 ^ 31 - 1) (a - b))

variable {checks : Bool} {a b x : Int}

theorem wrapI64_inI64 (x : Int) : InI64 (wrapI64 x) := by
  unfold InI64 wrapI64
  omega

theorem resultI64_of_inI64 (h : InI64 x) : resultI64 checks x = some x := if_pos h

/-- An operation is exact exactly if its result fits. -/
theorem resultI64_exact_iff : resultI64 checks x = some x ↔ InI64 x := by
  constructor
  · intro h
    by_contra hx
    unfold resultI64 at h
    rw [if_neg hx] at h
    cases checks with
    | true => cases h
    | false =>
      have hw : wrapI64 x = x := by simpa using h
      exact hx (hw ▸ wrapI64_inI64 x)
  · exact resultI64_of_inI64

theorem mulI64_exact_iff : mulI64 checks a b = some (a * b) ↔ InI64 (a * b) := resultI64_exact_iff

theorem addI64_of_inI64 (h : InI64 (a + b)) : addI64 checks a b = some (a + b) := resultI64_of_inI64 h

theorem divI64_eq_some (hb : b ≠ 0) (h : InI64 (a.tdiv b)) : divI64 a b = some (a.tdiv b) := if_pos ⟨hb, h⟩

theorem remI64_eq_some (hb : b ≠ 0) (h : InI64 (a.tdiv b)) : remI64 a b = some (a.tmod b) := if_pos ⟨hb, h⟩

/-- The one quotient of 64-bit integers that does not fit. -/
theorem tdiv_inI64_iff (ha : InI64 a) (hb : b ≠ 0) : InI64 (a.tdiv b) ↔ ¬(a = -2 ^ 63 ∧ b = -1) := by
  constructor
  · rintro h ⟨rfl, rfl⟩
    exact absurd h (by decide)
  · intro hx
    have hle := Int.natAbs_tdiv_le_natAbs a b
    unfold InI64 at ha ⊢
    by_cases hmin : a.tdiv b = 2 ^ 63
    · -- the quotient is as large as the dividend, so the divisor is a unit
      exfalso
      have hunit : b.natAbs < 2 := by
        by_contra hlarge
        have hq := Int.natAbs_tdiv a b
        change _ = a.natAbs / b.natAbs at hq
        rw [hmin] at hq
        have hhalf : a.natAbs / b.natAbs ≤ a.natAbs / 2 := Nat.div_le_div_left (by omega) (by decide)
        omega
      obtain rfl | rfl : b = 1 ∨ b = -1 := by omega
      · rw [Int.tdiv_one] at hmin
        omega
      · rw [Int.tdiv_neg, Int.tdiv_one] at hmin
        omega
    · omega

theorem addU64_exact_iff {a b : Nat} : addU64 checks a b = some (a + b) ↔ a + b < 2 ^ 64 := by
  unfold addU64
  constructor
  · intro h
    by_contra hx
    rw [if_neg hx] at h
    cases checks with
    | true => cases h
    | false =>
      have hw : (a + b) % 2 ^ 64 = a + b := by simpa using h
      have := Nat.mod_lt (a + b) (show 0 < 2 ^ 64 by decide)
      omega
  · exact fun h => if_pos h

theorem mulU64_exact_iff {a b : Nat} : mulU64 checks a b = some (a * b) ↔ a * b < 2 ^ 64 := by
  unfold mulU64
  constructor
  · intro h
    by_contra hx
    rw [if_neg hx] at h
    cases checks with
    | true => cases h
    | false =>
      have hw : a * b % 2 ^ 64 = a * b := Option.some.inj h
      have := Nat.mod_lt (a * b) (show 0 < 2 ^ 64 by decide)
      omega
  · exact fun h => if_pos h

/-- A search whose tests do not panic. -/
theorem anyM_eq_some {α : Type} {p : α → Option Bool} {q : α → Bool} : ∀ {l : List α}, (∀ a ∈ l, p a = some (q a)) →
    l.anyM p = some (l.any q)
  | [], _ => rfl
  | a :: l, h => by
    rw [List.anyM_cons, h a (List.mem_cons_self ..), List.any_cons,
      anyM_eq_some fun b hb => h b (List.mem_cons_of_mem _ hb)]
    cases q a <;> rfl

/-- A loop whose steps do not panic. -/
theorem foldlM_eq_some {α σ : Type} {f : σ → α → Option σ} {g : σ → α → σ} : ∀ {l : List α} {s : σ},
    (∀ s, ∀ a ∈ l, f s a = some (g s a)) → l.foldlM f s = some (l.foldl g s)
  | [], _, _ => rfl
  | a :: l, s, h => by
    rw [List.foldlM_cons, h s a (List.mem_cons_self ..), List.foldl_cons]
    exact foldlM_eq_some fun s b hb => h s b (List.mem_cons_of_mem _ hb)

/-- A computation on every element of a list succeeds exactly with the list of its results. -/
theorem mapM_eq_some_iff {α β : Type} {f : α → Option β} : ∀ {l : List α} {r : List β},
    l.mapM f = some r ↔ l.map f = r.map some
  | [], r => by cases r <;> simp
  | x :: l, r => by
    rw [List.mapM_cons]
    cases hx : f x with
    | none =>
      cases r with
      | nil => simp
      | cons y r => simp [hx]
    | some y =>
      cases hl : l.mapM f with
      | none =>
        cases r with
        | nil => simp
        | cons z r =>
          simp only [Option.bind_eq_bind, Option.bind_some, Option.bind_none, List.map_cons, hx, List.cons.injEq]
          have : l.map f ≠ r.map some := fun h => by rw [mapM_eq_some_iff.2 h] at hl; cases hl
          simp [this]
      | some r' =>
        have hr' := mapM_eq_some_iff.1 hl
        cases r with
        | nil => simp
        | cons z r =>
          simp only [Option.bind_eq_bind, Option.bind_some, Option.pure_def, List.map_cons, hx, hr', List.cons.injEq,
            Option.some.injEq]
          rw [(List.map_injective_iff.2 (Option.some_injective _)).eq_iff]

end Native
