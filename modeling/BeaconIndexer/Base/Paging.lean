/-
Pages of a sorted result. Each page is cut from an ordering of its own: rows that tie may stand differently in
the orderings of two pages. The pages list every row once, whatever the orderings, exactly if no rows that tie
stand on both sides of a border between pages.
-/
import Mathlib.Data.List.Sort
import Mathlib.Tactic

namespace Paging

variable {α : Type} {le : α → α → Prop} {rows : List α}

/-- A list of the rows that is sorted. -/
structure Ordering (le : α → α → Prop) (rows l : List α) : Prop where
  perm : l.Perm rows
  sorted : l.Pairwise le

/-- `page` holds `n` rows from position `offset` on, in one of the orderings. -/
def Page (le : α → α → Prop) (rows : List α) (n offset : Nat) (page : List α) : Prop :=
  ∃ l, Ordering le rows l ∧ page = (l.drop offset).take n

/-- Rows that tie on both sides of a border may change places. -/
theorem Ordering.swap {p q : List α} {x y : α} (h : Ordering le rows (p ++ x :: y :: q)) (hyx : le y x) :
    Ordering le rows (p ++ y :: x :: q) := by
  refine ⟨((List.Perm.swap x y q).append_left p).trans h.perm, ?_⟩
  have hsorted := h.sorted
  simp only [List.pairwise_append, List.pairwise_cons, List.mem_cons] at hsorted ⊢
  obtain ⟨hp, ⟨hx, hy, hq⟩, hcross⟩ := hsorted
  refine ⟨hp, ⟨?_, fun z hz => hx z (.inr hz), hq⟩, fun z hz w hw => hcross z hz w ?_⟩
  · rintro z (rfl | hz)
    · exact hyx
    · exact hy z hz
  · rcases hw with rfl | rfl | hw
    · exact .inr (.inl rfl)
    · exact .inl rfl
    · exact .inr (.inr hw)

section Ties

variable [DecidableRel le]

/-- How many rows stand in front of a row and of those that tie with it. -/
def before (le : α → α → Prop) [DecidableRel le] (rows : List α) (a : α) : Nat :=
  rows.countP fun x => decide (le x a) && !decide (le a x)

/-- How many rows stand in front of a row or tie with it, the row itself included. -/
def upTo (le : α → α → Prop) [DecidableRel le] (rows : List α) (a : α) : Nat := rows.countP fun x => decide (le x a)

/-- No row has ties on both sides of position `b`. -/
def Clear (le : α → α → Prop) [DecidableRel le] (rows : List α) (b : Nat) : Prop :=
  ∀ a ∈ rows, ¬(before le rows a < b ∧ b < upTo le rows a)

theorem upTo_le_length (a : α) : upTo le rows a ≤ rows.length := List.countP_le_length

/-- A row among the first `b` of an ordering has fewer than `b` rows in front of its ties. -/
theorem before_lt {l : List α} (h : Ordering le rows l) {a : α} {b : Nat} (ha : a ∈ l.take b) : before le rows a < b := by
  obtain ⟨p, q, hpq⟩ := List.append_of_mem ha
  have hlen : p.length < b := by
    have hle := List.length_take_le b l
    rw [hpq, List.length_append, List.length_cons] at hle
    omega
  obtain ⟨rest, hl⟩ : ∃ rest, l = p ++ a :: rest :=
    ⟨q ++ l.drop b, by rw [← List.cons_append, ← List.append_assoc, ← hpq, List.take_append_drop]⟩
  have hsorted := h.sorted
  rw [hl, List.pairwise_append] at hsorted
  have hafter := (List.pairwise_cons.1 hsorted.2.1).1
  have hnone : (a :: rest).countP (fun x => decide (le x a) && !decide (le a x)) = 0 := by
    refine List.countP_eq_zero.2 fun x hx => ?_
    rcases List.mem_cons.1 hx with rfl | hx
    · simp
    · simp [hafter x hx]
  unfold before
  rw [← h.perm.countP_eq, hl, List.countP_append, hnone]
  exact lt_of_le_of_lt List.countP_le_length hlen

/-- A row behind the first `b` of an ordering has, with its ties, more than `b` rows. -/
theorem lt_upTo [Std.Refl le] {l : List α} (h : Ordering le rows l) {a : α} {b : Nat} (ha : a ∈ l.drop b) : b < upTo le rows a := by
  obtain ⟨p, q, hpq⟩ := List.append_of_mem ha
  have hl : l = (l.take b ++ p) ++ a :: q := by
    rw [List.append_assoc, ← hpq, List.take_append_drop]
  have hb : b ≤ (l.take b).length := by
    have hlong : b < l.length := by
      by_contra hshort
      rw [List.drop_of_length_le (by omega)] at ha
      cases ha
    rw [List.length_take]
    omega
  have hsorted := h.sorted
  rw [hl, List.pairwise_append] at hsorted
  unfold upTo
  rw [← h.perm.countP_eq, hl, List.countP_append, List.countP_cons_of_pos (by simp [refl_of le a]),
    List.countP_eq_length.2 fun x hx => ?_, List.length_append]
  · omega
  · simp [hsorted.2.2 x hx a (List.mem_cons_self ..)]

/-- Between two clear borders every ordering has the same rows. -/
theorem mem_page [Std.Refl le] {l : List α} (h : Ordering le rows l) {b n : Nat} (hb : Clear le rows b) (hn : Clear le rows (b + n)) {a : α} :
    a ∈ (l.drop b).take n ↔ a ∈ rows ∧ b < upTo le rows a ∧ upTo le rows a ≤ b + n := by
  have hcut : (l.drop b).take n = (l.take (b + n)).drop b := by
    rw [List.drop_take]
    congr 1
    omega
  constructor
  · intro ha
    have hdrop := List.mem_of_mem_take ha
    have hmem : a ∈ rows := h.perm.mem_iff.1 (List.mem_of_mem_drop hdrop)
    have htake : a ∈ l.take (b + n) := List.mem_of_mem_drop (hcut ▸ ha)
    refine ⟨hmem, lt_upTo h hdrop, ?_⟩
    by_contra hlt
    exact hn a hmem ⟨before_lt h htake, by omega⟩
  · rintro ⟨hmem, hlow, hhigh⟩
    have hl : a ∈ l := h.perm.mem_iff.2 hmem
    have htake : a ∈ l.take (b + n) := by
      rw [← List.take_append_drop (b + n) l] at hl
      rcases List.mem_append.1 hl with htake | hdrop
      · exact htake
      · have := lt_upTo h hdrop
        omega
    rw [hcut]
    have hsplit := htake
    rw [← List.take_append_drop b (l.take (b + n))] at hsplit
    rcases List.mem_append.1 hsplit with hfirst | hrest
    · rw [List.take_take, Nat.min_eq_left (Nat.le_add_right b n)] at hfirst
      exact absurd ⟨before_lt h hfirst, hlow⟩ (hb a hmem)
    · exact hrest

/-! ## Clear borders suffice -/

theorem page_perm [Std.Refl le] (hnodup : rows.Nodup) {b n : Nat} {page : List α} (hpage : Page le rows n b page) (hb : Clear le rows b)
    (hn : Clear le rows (b + n)) :
    page.Perm (rows.filter fun a => decide (b < upTo le rows a) && decide (upTo le rows a ≤ b + n)) := by
  obtain ⟨l, h, rfl⟩ := hpage
  have hl : l.Nodup := h.perm.nodup_iff.2 hnodup
  refine (List.perm_ext_iff_of_nodup (hl.sublist ((List.take_sublist _ _).trans (List.drop_sublist _ _))) (hnodup.filter _)).2
    fun a => ?_
  rw [mem_page h hb hn, List.mem_filter]
  simp

/-- The first pages hold the rows up to their last border. -/
theorem pages_perm_filter [Std.Refl le] (hnodup : rows.Nodup) {n : Nat} {pages : Nat → List α} (hpages : ∀ k, Page le rows n (k * n) (pages k))
    (hclear : ∀ k, Clear le rows (k * n)) : ∀ m : Nat,
    ((List.range m).flatMap pages).Perm (rows.filter fun a => decide (upTo le rows a ≤ m * n))
  | 0 => by
    rw [List.filter_eq_nil_iff.2]
    · simp
    · intro a ha
      have hpos : 0 < upTo le rows a := List.countP_pos_iff.2 ⟨a, ha, by simp [refl_of le a]⟩
      simp
      omega
  | m + 1 => by
    have ih := pages_perm_filter hnodup hpages hclear m
    have hstep : m * n + n = (m + 1) * n := by ring
    have hpage := page_perm hnodup (hpages m) (hclear m) (by rw [hstep]; exact hclear (m + 1))
    rw [List.range_succ, List.flatMap_append]
    refine (ih.append (by simpa using hpage)).trans ?_
    rw [hstep]
    have hboth : (rows.filter fun a => decide (upTo le rows a ≤ m * n)) ++
        (rows.filter fun a => decide (m * n < upTo le rows a) && decide (upTo le rows a ≤ (m + 1) * n)) =
        ((rows.filter fun a => decide (upTo le rows a ≤ (m + 1) * n)).filter fun a => decide (upTo le rows a ≤ m * n)) ++
        ((rows.filter fun a => decide (upTo le rows a ≤ (m + 1) * n)).filter fun a => !decide (upTo le rows a ≤ m * n)) := by
      rw [List.filter_filter, List.filter_filter]
      congr 1
      · refine List.filter_congr fun a _ => ?_
        rw [Bool.eq_iff_iff]
        simp
        intro hle
        rw [← hstep]
        omega
      · refine List.filter_congr fun a _ => ?_
        rw [Bool.eq_iff_iff]
        simp
    rw [hboth]
    exact List.filter_append_perm _ _

/-- Where all borders are clear, the pages up to the end list every row once. -/
theorem pages_perm [Std.Refl le] (hnodup : rows.Nodup) {n m : Nat} {pages : Nat → List α} (hpages : ∀ k, Page le rows n (k * n) (pages k))
    (hclear : ∀ k, Clear le rows (k * n)) (hm : rows.length ≤ m * n) : ((List.range m).flatMap pages).Perm rows := by
  have h := pages_perm_filter hnodup hpages hclear m
  rwa [List.filter_eq_self.2 fun a _ => by simpa using (upTo_le_length a).trans hm] at h

/-! ## Clear borders are needed -/

theorem mem_slice {l p q : List α} {x : α} {d n : Nat} (hl : l = p ++ x :: q) (hd : d ≤ p.length) (hn : p.length < d + n) :
    x ∈ (l.drop d).take n := by
  rw [hl, List.drop_append_of_le_length hd, List.take_append]
  refine List.mem_append_right _ ?_
  rw [List.length_drop]
  obtain ⟨j, hj⟩ : ∃ j, n - (p.length - d) = j + 1 := ⟨n - (p.length - d) - 1, by omega⟩
  rw [hj, List.take_succ_cons]
  exact List.mem_cons_self ..

variable [Std.Total le] [IsTrans α le]

/-- The row in front of a border within the ties of `a` stands no earlier than `a`. -/
theorem le_of_before_lt {p q : List α} {x a : α} (h : Ordering le rows (p ++ x :: q)) (hb : before le rows a < p.length + 1) :
    le a x := by
  by_contra hax
  have hxa : le x a := (Std.Total.total x a).resolve_right hax
  have hsorted := List.pairwise_append.1 h.sorted
  have hall : (p ++ [x]).countP (fun z => decide (le z a) && !decide (le a z)) = (p ++ [x]).length := by
    refine List.countP_eq_length.2 fun z hz => ?_
    have hzx : le z x := by
      rcases List.mem_append.1 hz with hz | hz
      · exact hsorted.2.2 z hz x (List.mem_cons_self ..)
      · rw [List.mem_singleton.1 hz]
        exact (or_self_iff.1 (Std.Total.total x x))
    have hnot : ¬le a z := fun haz => hax (trans_of le haz hzx)
    simp [trans_of le hzx hxa, hnot]
  have hcount : before le rows a = (p ++ x :: q).countP fun z => decide (le z a) && !decide (le a z) := h.perm.symm.countP_eq _
  rw [List.append_cons, List.countP_append, hall, List.length_append, List.length_singleton] at hcount
  omega

/-- The row behind such a border stands no later than `a`. -/
theorem le_of_lt_upTo {p q : List α} {y a : α} (h : Ordering le rows (p ++ y :: q)) (hb : p.length < upTo le rows a) :
    le y a := by
  by_contra hya
  have hsorted := List.pairwise_append.1 h.sorted
  have hnone : (y :: q).countP (fun z => decide (le z a)) = 0 := by
    refine List.countP_eq_zero.2 fun z hz => ?_
    have hyz : le y z := by
      rcases List.mem_cons.1 hz with rfl | hz
      · exact (or_self_iff.1 (Std.Total.total z z))
      · exact (List.pairwise_cons.1 hsorted.2.1).1 z hz
    have hnot : ¬le z a := fun hza => hya (trans_of le hyz hza)
    simp [hnot]
  have hcount : upTo le rows a = (p ++ y :: q).countP fun z => decide (le z a) := h.perm.symm.countP_eq _
  rw [List.countP_append, hnone] at hcount
  have hle : p.countP (fun z => decide (le z a)) ≤ p.length := List.countP_le_length
  omega

/-- If no choice of orderings lists a row twice, all borders are clear: rows that tie across a border can stand on
either side of it, so that one of them ends its page and begins the next. -/
theorem clear_of_nodup {n m : Nat} (hm : rows.length ≤ m * n)
    (h : ∀ pages : Nat → List α, (∀ k, Page le rows n (k * n) (pages k)) → ((List.range m).flatMap pages).Nodup) (k : Nat) :
    Clear le rows (k * n) := by
  rintro a ha ⟨hlow, hhigh⟩
  have hsort : Ordering le rows (rows.insertionSort le) := ⟨List.perm_insertionSort le rows, List.pairwise_insertionSort le rows⟩
  have hlen : k * n < (rows.insertionSort le).length :=
    lt_of_lt_of_le hhigh ((upTo_le_length a).trans (List.length_insertionSort le rows).ge)
  obtain ⟨p, x, y, q, hl, hp⟩ : ∃ p x y q, rows.insertionSort le = p ++ x :: y :: q ∧ p.length + 1 = k * n := by
    have hlong : 2 ≤ ((rows.insertionSort le).drop (k * n - 1)).length := by
      rw [List.length_drop]
      omega
    obtain ⟨x, y, q, hdrop⟩ : ∃ x y q, (rows.insertionSort le).drop (k * n - 1) = x :: y :: q := by
      match (rows.insertionSort le).drop (k * n - 1), hlong with
      | x :: y :: q, _ => exact ⟨x, y, q, rfl⟩
    refine ⟨(rows.insertionSort le).take (k * n - 1), x, y, q, by rw [← hdrop, List.take_append_drop], ?_⟩
    rw [List.length_take]
    omega
  rw [hl] at hsort hlen
  have hax : le a x := le_of_before_lt hsort (by omega)
  have hya : le y a := by
    have hsplit : p ++ x :: y :: q = (p ++ [x]) ++ y :: q := by simp
    refine le_of_lt_upTo (hsplit ▸ hsort) ?_
    rw [List.length_append, List.length_singleton]
    omega
  have hswap := hsort.swap (trans_of le hya hax)
  have hpages : ∀ j, Page le rows n (j * n) (if j < k then ((p ++ x :: y :: q).drop (j * n)).take n
      else ((p ++ y :: x :: q).drop (j * n)).take n) := by
    intro j
    split
    · exact ⟨_, hsort, rfl⟩
    · exact ⟨_, hswap, rfl⟩
  have hnodup := h _ hpages
  obtain ⟨k', rfl⟩ : ∃ k', k = k' + 1 := by
    cases k with
    | zero => simp at hp
    | succ k' => exact ⟨k', rfl⟩
  have hkm : k' + 1 < m := by
    have hall : (k' + 1) * n < m * n := lt_of_lt_of_le hhigh ((upTo_le_length a).trans hm)
    exact lt_of_mul_lt_mul_right hall (Nat.zero_le n)
  have hstep : (k' + 1) * n = k' * n + n := by ring
  have hn : 0 < n := by
    rcases Nat.eq_zero_or_pos n with rfl | hpos
    · simp at hp
    · exact hpos
  rw [hstep] at hp
  -- the row that ends page `k'` begins the next one
  have hlast : x ∈ ((p ++ x :: y :: q).drop (k' * n)).take n := mem_slice rfl (by omega) (by omega)
  have hfirst : x ∈ ((p ++ y :: x :: q).drop ((k' + 1) * n)).take n := by
    refine mem_slice (p := p ++ [y]) (q := q) (by simp) ?_ ?_
    · simp
      omega
    · simp
      omega
  have hdisjoint := (List.pairwise_iff_getElem.1 (List.nodup_flatMap.1 hnodup).2) k' (k' + 1) (by simp; omega) (by simp; omega)
    (Nat.lt_succ_self k')
  simp only [List.getElem_range, Function.onFun, Nat.lt_succ_self, if_true, lt_irrefl, if_false] at hdisjoint
  exact hdisjoint hlast hfirst

end Ties

end Paging
