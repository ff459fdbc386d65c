/-
The confirmed ancestry for any stored blocks: the walk ends on every input, cyclic parents included,
and lists exactly the stored blocks that parent links with falling slots connect to the checkpoint.
-/
import BeaconIndexer.Live.Finalization

namespace BeaconIndexer

open Relational

/-! ## The loop -/

/-- The loop, entered with the child's slot and the cursor, runs to its end and collects the list. -/
inductive ConfirmedLoop (byRoot : Table Root (Nat × Root)) : Option Nat → Root → List (Nat × Root) → Prop
  | missing {child : Option Nat} {cursor : Root} (h : byRoot.get cursor = none) : ConfirmedLoop byRoot child cursor []
  | notBelow {child slot : Nat} {cursor parent : Root} (h : byRoot.get cursor = some (slot, parent)) (hle : child ≤ slot) :
      ConfirmedLoop byRoot (some child) cursor []
  | push {child : Option Nat} {slot : Nat} {cursor parent : Root} {rest : List (Nat × Root)}
      (h : byRoot.get cursor = some (slot, parent)) (hlt : ∀ c, child = some c → slot < c)
      (next : ConfirmedLoop byRoot (some slot) parent rest) : ConfirmedLoop byRoot child cursor ((slot, cursor) :: rest)

/-- Slots fall, so as many steps as the child's slot reach the end. -/
theorem confirmedFrom_loop (byRoot : Table Root (Nat × Root)) : ∀ (fuel child : Nat) (cursor : Root), child ≤ fuel →
    ConfirmedLoop byRoot (some child) cursor (confirmedFrom byRoot fuel child cursor)
  | 0, child, cursor, hle => by
    unfold confirmedFrom
    cases hg : byRoot.get cursor with
    | none => exact .missing hg
    | some e => exact .notBelow hg (by omega)
  | fuel + 1, child, cursor, hle => by
    unfold confirmedFrom
    cases hg : byRoot.get cursor with
    | none => exact .missing hg
    | some e =>
      obtain ⟨slot, parent⟩ := e
      dsimp only
      by_cases hc : child ≤ slot
      · rw [if_pos hc]
        exact .notBelow hg hc
      · rw [if_neg hc]
        refine .push hg ?_ (confirmedFrom_loop byRoot fuel slot parent (by omega))
        intro c h
        cases h
        omega

/-- The walk from the checkpoint has no child above it. -/
theorem confirmedAncestry_loop (blocks : List (Nat × Root × Root)) (root : Root) :
    ConfirmedLoop (blocksByRoot blocks) none root (confirmedAncestry blocks root) := by
  unfold confirmedAncestry
  dsimp only
  cases hg : (blocksByRoot blocks).get root with
  | none => exact .missing hg
  | some e => exact .push hg nofun (confirmedFrom_loop _ _ _ _ le_rfl)

section Loop

variable {byRoot : Table Root (Nat × Root)} {child : Option Nat} {cursor : Root} {l : List (Nat × Root)}

theorem ConfirmedLoop.unique (h : ConfirmedLoop byRoot child cursor l) :
    ∀ {l' : List (Nat × Root)}, ConfirmedLoop byRoot child cursor l' → l' = l := by
  induction h with
  | missing h =>
    intro l' h'
    cases h' with
    | missing => rfl
    | notBelow h' => rfl
    | push h' => rw [h] at h'; cases h'
  | notBelow h hle =>
    intro l' h'
    cases h' with
    | missing => rfl
    | notBelow => rfl
    | push h' hlt =>
      rw [h] at h'
      cases h'
      have := hlt _ rfl
      omega
  | push h hlt _ ih =>
    intro l' h'
    cases h' with
    | missing h' => rw [h] at h'; cases h'
    | notBelow h' hle =>
      rw [h] at h'
      cases h'
      have := hlt _ rfl
      omega
    | push h' _ next =>
      rw [h] at h'
      cases h'
      rw [ih next]

/-! ## What it collects -/

/-- A block and its parent, at a lower slot. -/
def ParentLink (byRoot : Table Root (Nat × Root)) (child parent : Nat × Root) : Prop :=
  byRoot.get child.2 = some (child.1, parent.2) ∧ (∃ p, byRoot.get parent.2 = some (parent.1, p)) ∧ parent.1 < child.1

/-- The entry of a list that is not empty is the cursor's block. -/
theorem ConfirmedLoop.head (h : ConfirmedLoop byRoot child cursor l) {x : Nat × Root} (hx : l.head? = some x) :
    x.2 = cursor ∧ (∃ parent, byRoot.get cursor = some (x.1, parent)) ∧ ∀ c, child = some c → x.1 < c := by
  cases h with
  | missing => cases hx
  | notBelow => cases hx
  | push h hlt =>
    cases hx
    exact ⟨rfl, ⟨_, h⟩, hlt⟩

/-- Every entry is stored with its slot. -/
theorem ConfirmedLoop.stored (h : ConfirmedLoop byRoot child cursor l) : ∀ e ∈ l, ∃ p, byRoot.get e.2 = some (e.1, p) := by
  induction h with
  | missing => simp
  | notBelow => simp
  | push h _ _ ih =>
    intro e he
    rcases List.mem_cons.1 he with rfl | he
    · exact ⟨_, h⟩
    · exact ih e he

/-- Consecutive entries are linked. -/
theorem ConfirmedLoop.chain (h : ConfirmedLoop byRoot child cursor l) : l.IsChain (ParentLink byRoot) := by
  induction h with
  | missing => exact .nil
  | notBelow => exact .nil
  | @push child slot cursor parent rest h hlt next ih =>
    refine List.isChain_cons.2 ⟨fun y hy => ?_, ih⟩
    obtain ⟨rfl, ⟨p, hp⟩, hlow⟩ := next.head hy
    exact ⟨h, ⟨p, hp⟩, hlow _ rfl⟩

/-- An entry is reached from the cursor's block by parent links. -/
theorem ConfirmedLoop.reached (h : ConfirmedLoop byRoot child cursor l) : ∀ e ∈ l, ∃ slot parent,
    byRoot.get cursor = some (slot, parent) ∧ Relation.ReflTransGen (ParentLink byRoot) (slot, cursor) e := by
  induction h with
  | missing => simp
  | notBelow => simp
  | @push child slot cursor parent rest h hlt next ih =>
    intro e he
    refine ⟨slot, parent, h, ?_⟩
    rcases List.mem_cons.1 he with rfl | he
    · exact .refl
    · obtain ⟨slot', parent', h', hpath⟩ := ih e he
      refine Relation.ReflTransGen.head ⟨h, ⟨parent', h'⟩, ?_⟩ hpath
      -- the next entry exists, so its slot is lower
      cases next with
      | missing => cases he
      | notBelow => cases he
      | push h'' hlt' =>
        rw [h'] at h''
        cases h''
        exact hlt' _ rfl

/-- Parent links lead to entries only. -/
theorem ConfirmedLoop.closed (h : ConfirmedLoop byRoot child cursor l) {slot : Nat} {parent : Root}
    (hc : byRoot.get cursor = some (slot, parent)) (hlow : ∀ c, child = some c → slot < c) {e : Nat × Root}
    (hpath : Relation.ReflTransGen (ParentLink byRoot) (slot, cursor) e) : e ∈ l := by
  induction h generalizing slot parent with
  | missing h => rw [h] at hc; cases hc
  | notBelow h hle =>
    rw [h] at hc
    cases hc
    have := hlow _ rfl
    omega
  | push h hlt next ih =>
    rw [h] at hc
    cases hc
    rcases hpath.cases_head with rfl | ⟨⟨slot', root'⟩, ⟨hlink, ⟨p, hp⟩, hfall⟩, hrest⟩
    · exact List.mem_cons_self ..
    · rw [h] at hlink
      cases hlink
      refine List.mem_cons_of_mem _ (ih hp ?_ hrest)
      intro c hc
      cases hc
      exact hfall

theorem ConfirmedLoop.slots_fall (h : ConfirmedLoop byRoot child cursor l) : l.Pairwise fun x y => y.1 < x.1 := by
  have hchain : l.IsChain fun x y : Nat × Root => y.1 < x.1 := h.chain.imp fun x y hxy => hxy.2.2
  have : IsTrans (Nat × Root) fun x y => y.1 < x.1 := ⟨fun _ _ _ h1 h2 => h2.trans h1⟩
  exact List.isChain_iff_pairwise.1 hchain

end Loop

/-! ## Stored blocks -/

/-- Two stored blocks, the second the first one's parent at a lower slot. -/
def StoredLink (blocks : List (Nat × Root × Root)) (child parent : Nat × Root) : Prop :=
  (child.1, child.2, parent.2) ∈ blocks ∧ (∃ p, (parent.1, parent.2, p) ∈ blocks) ∧ parent.1 < child.1

/-- Stored parent links connect the block to the checkpoint. -/
def ConnectedTo (blocks : List (Nat × Root × Root)) (checkpoint : Root) (e : Nat × Root) : Prop :=
  ∃ slot parent, (slot, checkpoint, parent) ∈ blocks ∧
    Relation.ReflTransGen (StoredLink blocks) (slot, checkpoint) e

theorem blocksByRoot_get_iff {blocks : List (Nat × Root × Root)} (hn : (blocks.map (·.2.1)).Nodup) {s : Nat} {r p : Root} :
    (blocksByRoot blocks).get r = some (s, p) ↔ (s, r, p) ∈ blocks := by
  unfold blocksByRoot
  rw [Table.get_ofList_iff (by simpa [List.map_map, Function.comp_def] using hn), List.mem_map]
  constructor
  · rintro ⟨⟨s', r', p'⟩, hm, he⟩
    cases he
    exact hm
  · intro hm
    exact ⟨_, hm, rfl⟩

/-- The walk ends, and collects the maximal stored parent chain of the checkpoint and nothing else. -/
theorem confirmedAncestry_maximal (blocks : List (Nat × Root × Root)) (root : Root) (hn : (blocks.map (·.2.1)).Nodup) :
    (∀ l, ConfirmedLoop (blocksByRoot blocks) none root l ↔ l = confirmedAncestry blocks root) ∧
    (confirmedAncestry blocks root = [] ↔ root ∉ blocks.map (·.2.1)) ∧
    (∀ e, (confirmedAncestry blocks root).head? = some e → e.2 = root) ∧
    (confirmedAncestry blocks root).IsChain (StoredLink blocks) ∧
    ((confirmedAncestry blocks root).map Prod.snd).Nodup ∧
    ∀ e, e ∈ confirmedAncestry blocks root ↔ ConnectedTo blocks root e := by
  have hget := fun {s r p} => blocksByRoot_get_iff hn (s := s) (r := r) (p := p)
  have hlink : ParentLink (blocksByRoot blocks) = StoredLink blocks := by
    funext child parent
    unfold ParentLink StoredLink
    simp only [hget]
  have hloop := confirmedAncestry_loop blocks root
  have hmem : ∀ e, e ∈ confirmedAncestry blocks root ↔ ConnectedTo blocks root e := by
    intro e
    rw [ConnectedTo, ← hlink]
    constructor
    · intro he
      obtain ⟨slot, parent, hg, hpath⟩ := hloop.reached e he
      exact ⟨slot, parent, hget.1 hg, hpath⟩
    · rintro ⟨slot, parent, hm, hpath⟩
      exact hloop.closed (hget.2 hm) nofun hpath
  refine ⟨fun l => ⟨hloop.unique, ?_⟩, ?_, fun e he => (hloop.head he).1, hlink ▸ hloop.chain, ?_, hmem⟩
  · rintro rfl
    exact hloop
  · rw [List.eq_nil_iff_forall_not_mem]
    constructor
    · intro hnil hr
      obtain ⟨⟨slot, r, parent⟩, hm, rfl⟩ := List.mem_map.1 hr
      exact hnil (slot, r) ((hmem _).2 ⟨slot, parent, hm, .refl⟩)
    · intro hr e he
      obtain ⟨slot, parent, hm, -⟩ := (hmem e).1 he
      exact hr (List.mem_map.2 ⟨_, hm, rfl⟩)
  · refine List.pairwise_map.2 ((List.Pairwise.and_mem.1 hloop.slots_fall).imp ?_)
    rintro x y ⟨hx, hy, hlt⟩ heq
    -- a root is stored at one slot
    obtain ⟨px, hgx⟩ := hloop.stored x hx
    obtain ⟨py, hgy⟩ := hloop.stored y hy
    rw [heq, hgy] at hgx
    have hslot : y.1 = x.1 := (Prod.mk.inj (Option.some.inj hgx)).1
    omega

/-- Blocks at slots 1, 2 and 4, where the one at 2 and the one at 4 name each other as parent, and a block of
another branch at slot 0. -/
def cyclicBlocks : List (Nat × Root × Root) := [(0, ⟨9⟩, ⟨8⟩), (1, ⟨11⟩, ⟨7⟩), (2, ⟨12⟩, ⟨14⟩), (4, ⟨14⟩, ⟨12⟩)]

theorem confirmedAncestry_maximal_cyclic : confirmedAncestry cyclicBlocks ⟨14⟩ = [(4, ⟨14⟩), (2, ⟨12⟩)] ∧
    (∀ e, e ∈ confirmedAncestry cyclicBlocks ⟨14⟩ ↔ ConnectedTo cyclicBlocks ⟨14⟩ e) :=
  ⟨by decide, (confirmedAncestry_maximal cyclicBlocks ⟨14⟩ (by decide)).2.2.2.2.2⟩

end BeaconIndexer
