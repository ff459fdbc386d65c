/-
Serving the newest first: of a strictly descending list the first `k` are served in a round. An element is among
them exactly if fewer than `k` are newer, and while fewer than `k` newer ones cannot be served, every round serves
it or one of the newer ones.
-/
import Mathlib.Data.List.Count
import Mathlib.Tactic

namespace Newest

variable {α : Type} [LinearOrder α] {l : List α} {x : α} {k : Nat}

theorem mem_take_iff : ∀ {l : List α} {k : Nat}, l.Pairwise (· > ·) → x ∈ l →
    (x ∈ l.take k ↔ l.countP (fun y => decide (x < y)) < k)
  | y :: l, 0, _, _ => by simp
  | y :: l, k + 1, h, hx => by
    obtain ⟨hy, hl⟩ := List.pairwise_cons.1 h
    rw [List.take_succ_cons, List.mem_cons, List.countP_cons]
    rcases List.mem_cons.1 hx with rfl | hx
    · -- nothing that follows is newer
      have hnone : l.countP (fun y => decide (x < y)) = 0 := by
        apply List.countP_eq_zero.2
        intro z hz
        simpa using (hy z hz).le
      simp [hnone]
    · have hlt : x < y := hy x hx
      rw [mem_take_iff hl hx]
      simp [hlt, hlt.ne]

/-- Before an element that is not served come only newer ones. -/
theorem lt_of_mem_take : ∀ {l : List α} {k : Nat}, l.Pairwise (· > ·) → x ∈ l → x ∉ l.take k →
    ∀ y ∈ l.take k, x < y
  | _, 0, _, _, _, y, hy => by simp at hy
  | z :: l, k + 1, h, hx, hn, y, hy => by
    obtain ⟨hz, hl⟩ := List.pairwise_cons.1 h
    rw [List.take_succ_cons, List.mem_cons, not_or] at hn
    rw [List.take_succ_cons, List.mem_cons] at hy
    have hx' : x ∈ l := (List.mem_cons.1 hx).resolve_left hn.1
    rcases hy with rfl | hy
    · exact hz x hx'
    · exact lt_of_mem_take hl hx' hn.2 y hy

/-- While fewer than `k` newer elements cannot be served, the element or a newer one is. -/
theorem exists_served {served : α → Bool} (h : l.Pairwise (· > ·)) (hx : x ∈ l) (hs : served x = true)
    (hk : l.countP (fun y => decide (x < y) && !served y) < k) : ∃ y ∈ l.take k, x ≤ y ∧ served y = true := by
  by_cases hmem : x ∈ l.take k
  · exact ⟨x, hmem, le_rfl, hs⟩
  by_contra hnone
  have hnewer := lt_of_mem_take h hx hmem
  -- otherwise the whole round went to newer elements that cannot be served
  have hall : (l.take k).countP (fun y => decide (x < y) && !served y) = (l.take k).length := by
    apply List.countP_eq_length.2
    intro y hy
    have hlt := hnewer y hy
    have hns : served y = false := by
      by_contra hc
      exact hnone ⟨y, hy, hlt.le, by simpa using hc⟩
    simp [hlt, hns]
  have hlen : k ≤ l.length := by
    by_contra hc
    exact hmem (by rwa [List.take_of_length_le (by omega)])
  have hle := (List.take_sublist k l).countP_le (p := fun y => decide (x < y) && !served y)
  rw [hall, List.length_take] at hle
  omega

end Newest
