/-
Counting the rows of a table in groups. The counts of the groups add up to the count over all rows that have a
group, and a narrower condition counts as many rows as a wider one only if they select the same.
-/
import Mathlib.Data.List.Count
import Mathlib.Tactic

namespace Grouped

variable {α γ : Type} [DecidableEq γ] {key : α → γ} {p q : α → Bool} {rows : List α}

/-- A row is counted in its own group only. -/
theorem sum_indicator {k : γ} : ∀ {gs : List γ}, gs.Nodup →
    (gs.map fun g => if k = g then 1 else 0).sum = if k ∈ gs then 1 else 0
  | [], _ => by simp
  | g :: gs, h => by
    obtain ⟨hg, hn⟩ := List.nodup_cons.1 h
    rw [List.map_cons, List.sum_cons, sum_indicator hn]
    by_cases hk : k = g
    · simp [hk, hg]
    · simp [hk]

/-- `COUNT(*) FILTER (WHERE p) ... GROUP BY key`, summed over the groups. -/
theorem sum_countP {gs : List γ} (h : gs.Nodup) :
    (gs.map fun g => (rows.filter fun r => decide (key r = g)).countP p).sum =
      (rows.filter fun r => decide (key r ∈ gs)).countP p := by
  simp only [List.countP_filter]
  induction rows with
  | nil => simp
  | cons r rows ih =>
    simp only [List.countP_cons, List.sum_map_add, ih, Nat.add_left_cancel_iff]
    cases hp : p r with
    | false => simp
    | true => simpa using sum_indicator (k := key r) h

/-- A narrower condition counts fewer rows, unless no row makes the difference. -/
theorem countP_eq_iff (h : ∀ r ∈ rows, p r = true → q r = true) :
    rows.countP p = rows.countP q ↔ ∀ r ∈ rows, q r = true → p r = true := by
  induction rows with
  | nil => simp
  | cons r rows ih =>
    have hrest := ih fun r' hr' => h r' (List.mem_cons_of_mem _ hr')
    have hle := List.countP_mono_left fun r' hr' => h r' (List.mem_cons_of_mem _ hr')
    have hr := h r (List.mem_cons_self ..)
    simp only [List.countP_cons, List.forall_mem_cons]
    rw [← hrest]
    cases hp : p r with
    | true => simp [hr hp]
    | false =>
      cases hq : q r with
      | true => simp; omega
      | false => simp

end Grouped
