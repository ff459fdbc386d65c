/-
Forests of nodes with one parent link each and a height that falls along it: the ancestors of a
node form a chain, with at most one node at every height, and two nodes that share an ancestor
share everything below it.
-/
import Mathlib.Logic.Relation
import Mathlib.Tactic

namespace Ancestry

structure Forest (ρ : Type) where
  parent : ρ → Option ρ
  height : ρ → Nat
  falls : ∀ {x y}, parent x = some y → height y < height x

namespace Forest

variable {ρ : Type} (F : Forest ρ)

/-- `y` is `x` or lies on the parent chain of `x`. -/
def Anc (x y : ρ) : Prop := Relation.ReflTransGen (fun a b => F.parent a = some b) x y

variable {F} {x y z : ρ} {h : Nat}

theorem Anc.refl (x : ρ) : F.Anc x x := Relation.ReflTransGen.refl

theorem Anc.trans (h1 : F.Anc x y) (h2 : F.Anc y z) : F.Anc x z := Relation.ReflTransGen.trans h1 h2

theorem Anc.parent (h1 : F.parent x = some y) (h2 : F.Anc y z) : F.Anc x z := Relation.ReflTransGen.head h1 h2

theorem Anc.cases (ha : F.Anc x z) : x = z ∨ ∃ y, F.parent x = some y ∧ F.Anc y z :=
  Relation.ReflTransGen.cases_head ha

theorem Anc.height_le (ha : F.Anc x y) : F.height y ≤ F.height x := by
  induction ha with
  | refl => exact le_rfl
  | tail _ hp ih => exact le_of_lt (lt_of_lt_of_le (F.falls hp) ih)

theorem Anc.eq_of_height (ha : F.Anc x y) (hh : F.height x ≤ F.height y) : x = y := by
  rcases ha.cases with rfl | ⟨p, hp, hpy⟩
  · rfl
  · have h1 := F.falls hp
    have h2 := hpy.height_le
    omega

/-- Two ancestors of one node are comparable. -/
theorem Anc.linear (h1 : F.Anc x y) (h2 : F.Anc x z) : F.Anc y z ∨ F.Anc z y := by
  induction h1 with
  | refl => exact Or.inl h2
  | @tail a b _ hp ih =>
    rcases ih with ih | ih
    · rcases ih.cases with rfl | ⟨p, hp', hpz⟩
      · exact Or.inr (.parent hp (.refl _))
      · rw [hp] at hp'
        cases hp'
        exact Or.inl hpz
    · exact Or.inr (ih.trans (.parent hp (.refl _)))

theorem Anc.of_height_le (h1 : F.Anc x y) (h2 : F.Anc x z) (hh : F.height z ≤ F.height y) : F.Anc y z := by
  rcases h1.linear h2 with h | h
  · exact h
  · obtain rfl := h.eq_of_height hh
    exact .refl _

/-! ## The ancestor at a height -/

variable (F)

/-- The first node of the parent chain that is not above `h`, within a number of steps. -/
def walkTo (h : Nat) : Nat → ρ → Option ρ
  | 0, x => if F.height x ≤ h then some x else none
  | n + 1, x => if F.height x ≤ h then some x else
    match F.parent x with
    | none => none
    | some y => walkTo h n y

/-- The last ancestor not above `h`. -/
def below (x : ρ) (h : Nat) : Option ρ := F.walkTo h (F.height x) x

/-- The ancestor at height `h`. -/
def node (x : ρ) (h : Nat) : Option ρ := (F.below x h).filter fun y => F.height y == h

variable {F}

theorem walkTo_spec : ∀ {n : Nat} {x : ρ}, F.height x ≤ n → ∀ {y : ρ}, F.walkTo h n x = some y ↔
    F.Anc x y ∧ F.height y ≤ h ∧ ∀ z, F.Anc x z → F.height z ≤ h → F.Anc y z
  | n, x, hn, y => by
    by_cases hx : F.height x ≤ h
    · have : F.walkTo h n x = some x := by cases n <;> simp [walkTo, hx]
      rw [this, Option.some.injEq]
      constructor
      · rintro rfl
        exact ⟨.refl _, hx, fun z hz _ => hz⟩
      · rintro ⟨ha, _, hmax⟩
        exact ((hmax x (.refl _) hx).eq_of_height ha.height_le).symm
    · cases n with
      | zero => omega
      | succ n =>
        simp only [walkTo, if_neg hx]
        cases hp : F.parent x with
        | none =>
          constructor
          · intro h; cases h
          · rintro ⟨ha, hy, _⟩
            rcases ha.cases with rfl | ⟨p, hp', _⟩
            · exact absurd hy hx
            · rw [hp] at hp'; cases hp'
        | some p =>
          have hlt := F.falls hp
          dsimp only
          rw [walkTo_spec (by omega : F.height p ≤ n)]
          have hstep : ∀ z, F.height z ≤ h → (F.Anc x z ↔ F.Anc p z) := by
            intro z hz
            constructor
            · intro ha
              rcases ha.cases with rfl | ⟨p', hp', hpz⟩
              · exact absurd hz hx
              · rw [hp] at hp'; cases hp'; exact hpz
            · exact fun ha => .parent hp ha
          constructor
          · rintro ⟨ha, hy, hmax⟩
            exact ⟨(hstep y hy).2 ha, hy, fun z hz hzh => hmax z ((hstep z hzh).1 hz) hzh⟩
          · rintro ⟨ha, hy, hmax⟩
            exact ⟨(hstep y hy).1 ha, hy, fun z hz hzh => hmax z ((hstep z hzh).2 hz) hzh⟩

theorem below_iff : F.below x h = some y ↔
    F.Anc x y ∧ F.height y ≤ h ∧ ∀ z, F.Anc x z → F.height z ≤ h → F.Anc y z :=
  walkTo_spec le_rfl

theorem node_iff : F.node x h = some y ↔ F.Anc x y ∧ F.height y = h := by
  unfold node
  rw [Option.filter_eq_some_iff, below_iff]
  constructor
  · rintro ⟨⟨ha, _, _⟩, hh⟩
    exact ⟨ha, by simpa using hh⟩
  · rintro ⟨ha, rfl⟩
    exact ⟨⟨ha, le_rfl, fun z hz hh => ha.of_height_le hz hh⟩, by simp⟩

/-- Below a shared ancestor two nodes have the same chain. -/
theorem node_eq_of_anc (ha : F.Anc x y) (hh : h ≤ F.height y) : F.node x h = F.node y h := by
  refine Option.ext fun z => ?_
  rw [node_iff, node_iff]
  constructor
  · rintro ⟨hz, rfl⟩
    exact ⟨ha.of_height_le hz hh, rfl⟩
  · rintro ⟨hz, rfl⟩
    exact ⟨ha.trans hz, rfl⟩

theorem below_eq_of_anc (ha : F.Anc x y) (hh : h ≤ F.height y) : F.below x h = F.below y h := by
  refine Option.ext fun z => ?_
  rw [below_iff, below_iff]
  have hstep : ∀ w, F.height w ≤ h → (F.Anc x w ↔ F.Anc y w) :=
    fun w hw => ⟨fun hxw => ha.of_height_le hxw (hw.trans hh), fun hyw => ha.trans hyw⟩
  constructor
  · rintro ⟨hz, hzh, hmax⟩
    exact ⟨(hstep z hzh).1 hz, hzh, fun w hw hwh => hmax w ((hstep w hwh).2 hw) hwh⟩
  · rintro ⟨hz, hzh, hmax⟩
    exact ⟨(hstep z hzh).2 hz, hzh, fun w hw hwh => hmax w ((hstep w hwh).1 hw) hwh⟩

/-- Nothing lies between the last ancestor not above `h` and `h`. -/
theorem node_none_of_below (hb : F.below x h = some y) {h' : Nat} (h1 : F.height y < h') (h2 : h' ≤ h) :
    F.node x h' = none := by
  cases hn : F.node x h' with
  | none => rfl
  | some z =>
    obtain ⟨hz, rfl⟩ := node_iff.1 hn
    have := ((below_iff.1 hb).2.2 z hz h2).height_le
    omega

end Forest

end Ancestry
