/-
The parent walk against a coherent node: the resolved blocks are the ancestry of the head from its
lowest slot on, and the vote context built from them holds the chain's roots.
-/
import BeaconIndexer.Beacon.Ledger
import BeaconIndexer.Live.Reconcile
import BeaconIndexer.Scanner.Votes

namespace BeaconIndexer

open Effects Ancestry Relational

variable {spec : ChainSpec} {L : Ledger spec}

/-! ## Resolved chains -/

/-- The chain holds exactly the blocks of the head's ancestry from `low` on, `low` being one of them. -/
structure ResolvedChain.Covers (chain : ResolvedChain) (L : Ledger spec) (head : Root) (low : Nat) : Prop where
  above : ∀ s, low ≤ s → chain.entries.get s = (L.rootAt head s).bind fun r => (L.block r).map (r, ·)
  below : ∀ s, s < low → chain.entries.get s = none
  start : ∃ r b, L.rootAt head low = some r ∧ L.block r = some b

namespace ResolvedChain.Covers

variable {chain : ResolvedChain} {head : Root} {low s : Nat}

theorem entry (h : chain.Covers L head low) {r : Root} {b : SignedBeaconBlock}
    (he : chain.entries.get s = some (r, b)) : low ≤ s ∧ L.rootAt head s = some r ∧ L.block r = some b := by
  by_cases hs : low ≤ s
  · rw [h.above s hs] at he
    obtain ⟨r', hr, hb⟩ := Option.bind_eq_some_iff.1 he
    obtain ⟨b', hb, heq⟩ := Option.map_eq_some_iff.1 hb
    cases heq
    exact ⟨hs, hr, hb⟩
  · rw [h.below s (by omega)] at he
    cases he

theorem roots_some (h : chain.Covers L head low) {r : Root} (hr : chain.roots.get s = some r) :
    low ≤ s ∧ L.rootAt head s = some r := by
  unfold ResolvedChain.roots at hr
  rw [Table.get_mapVal] at hr
  obtain ⟨⟨r', b⟩, he, rfl⟩ := Option.map_eq_some_iff.1 hr
  exact ⟨(h.entry he).1, (h.entry he).2.1⟩

/-- From `low` on the roots are those of the head's ancestry. -/
theorem roots_eq (h : chain.Covers L head low) (hk : ∃ b, L.block head = some b) (hs : low ≤ s) :
    chain.roots.get s = L.rootAt head s := by
  unfold ResolvedChain.roots
  rw [Table.get_mapVal, h.above s hs]
  cases hr : L.rootAt head s with
  | none => rfl
  | some r =>
    obtain ⟨b, hb⟩ := Ledger.anc_known (Ledger.rootAt_iff.1 hr).1 hk
    simp [hb]

theorem entry_none (h : chain.Covers L head low) (hk : ∃ b, L.block head = some b) (hs : low ≤ s)
    (he : chain.entries.get s = none) : L.rootAt head s = none := by
  rw [← h.roots_eq hk hs, ResolvedChain.roots, Table.get_mapVal, he]
  rfl

theorem minSlot (h : chain.Covers L head low) : chain.minSlot = some low := by
  unfold ResolvedChain.minSlot
  rw [List.min?_eq_some_iff]
  constructor
  · obtain ⟨r, b, hr, hb⟩ := h.start
    have : chain.entries.get low = some (r, b) := by rw [h.above low le_rfl, hr]; simp [hb]
    exact List.mem_map.2 ⟨_, Table.mem_rows.2 this, rfl⟩
  · intro s hs
    obtain ⟨⟨s', e⟩, he, rfl⟩ := List.mem_map.1 hs
    by_contra hlt
    have := h.below s' (by omega)
    rw [Table.mem_rows.1 he] at this
    cases this

end ResolvedChain.Covers

/-! ## The walk -/

/-- A setting whose node answers coherently from one view. -/
structure Faces {σ : Type} (C : Contract indexer σ) (V : View L) : Prop where
  node : ∀ q s, C.guar (.node q) s
  coherent : ∀ {q s r s'}, C.sem (.node q) s r s' → Coherent V q r

section Walk

variable {σ : Type} {C : Contract indexer σ} {V : View L} (h : Faces C V)
include h

theorem Faces.request {q : Request} {P : q.Answer → Prop} (hP : ∀ a, Coherent V q (.ok a) → P a) :
    C.Always (request q) P :=
  Contract.Always.ask (fun s => h.node q s) fun _ r _ hr a ha => by
    cases (ha : r = .ok a); exact hP a (h.coherent hr)

theorem Faces.getHeader {id : HeaderId} {P : BeaconResponse HeaderData → Prop}
    (hP : ∀ a, Coherent V (.header id) (.ok a) → a.data.canonical = true → P a) : C.Always (getHeader id) P := by
  refine .bind (h.request fun a ha => ha) fun a ha => .bind (P := fun _ => True)
    (.ite (fun _ => .throw) fun _ => .pure trivial) fun _ _ => .check fun hc => .pure (hP a ha ?_)
  simpa using hc

theorem Faces.getHeadHeader :
    C.Always getHeadHeader fun a => a.root = V.head ∧ a.slot = L.slotOf V.head :=
  .bind (h.getHeader fun _ ha _ => ha) fun _ ha => .pure ha

theorem Faces.fetchByRoot (root : Root) : ∀ n, C.Always (fetchByRoot root n) fun b => L.block root = some b
  | 0 => .throw
  | n + 1 => by
    refine .bind (h.request fun a ha => ha) fun a ha => ?_
    cases a with
    | some b => exact .pure (ha b rfl)
    | none => exact Faces.fetchByRoot root n

omit h in
/-- Going to the parent extends the covered range down to the parent's slot. -/
theorem ResolvedChain.Covers.insert_parent {chain : ResolvedChain} {head child root : Root} {b : SignedBeaconBlock}
    (hc : chain.Covers L head (L.slotOf child)) (hch : L.forest.Anc head child) (hp : L.forest.parent child = some root)
    (hb : L.block root = some b) : (chain.insert b.slot root b).Covers L head b.slot := by
  have hs : L.slotOf root = b.slot := Ledger.slotOf_eq hb
  have hlt : b.slot < L.slotOf child := hs ▸ L.forest.falls hp
  have hroot : L.rootAt head b.slot = some root := Ledger.rootAt_iff.2 ⟨hch.trans (.parent hp (.refl _)), hs⟩
  refine ⟨fun s hle => ?_, fun s hls => ?_, root, b, hroot, hb⟩
  · unfold ResolvedChain.insert
    rw [Table.get_put]
    by_cases he : s = b.slot
    · subst he
      rw [if_pos rfl, hroot, Option.bind_some, hb, Option.map_some]
    · rw [if_neg he]
      by_cases hs' : L.slotOf child ≤ s
      · exact hc.above s hs'
      · -- no block lies between a child and its parent
        rw [hc.below s (by omega)]
        have : L.rootAt head s = none := by
          cases hr : L.rootAt head s with
          | none => rfl
          | some r =>
            obtain ⟨ha, hrs⟩ := Ledger.rootAt_iff.1 hr
            have hcr : L.forest.Anc child r := hch.of_height_le ha (show L.slotOf r ≤ L.slotOf child by omega)
            rcases hcr.cases with rfl | ⟨p, hp', hpr⟩
            · omega
            · rw [hp] at hp'
              cases hp'
              have : L.slotOf r ≤ L.slotOf root := hpr.height_le
              omega
        rw [this]; rfl
  · unfold ResolvedChain.insert
    rw [Table.get_put, if_neg (by omega)]
    exact hc.below s (by omega)

theorem Faces.resolveParents (scanStart : Nat) : ∀ (fuel : Nat) (child : Root) (b : SignedBeaconBlock) (chain : ResolvedChain),
    L.block child = some b → L.forest.Anc V.head child → chain.Covers L V.head b.slot → scanStart < b.slot →
    C.Always (resolveParents scanStart fuel b.slot b.parentRoot chain)
      fun chain => ∃ low ≤ scanStart, chain.Covers L V.head low
  | 0, child, b, chain, _, _, _, _ => .bind (h.fetchByRoot _ _) fun _ _ => .throw
  | fuel + 1, child, b, chain, hb, hch, hc, hlt => by
    refine .bind (h.fetchByRoot _ _) fun p hp => .check fun hslot => ?_
    have hparent : L.forest.parent child = some b.parentRoot := by
      change L.parentOf child = _
      rw [Ledger.parentOf, hb, Option.bind_some, if_neg (by omega)]
    have hnew := ResolvedChain.Covers.insert_parent (Ledger.slotOf_eq hb ▸ hc) hch hparent hp
    refine .ite (fun hle => .pure ⟨p.slot, hle, hnew⟩) fun hgt => ?_
    exact Faces.resolveParents scanStart fuel b.parentRoot p _ hp (hch.trans (.parent hparent (.refl _))) hnew (by omega)

/-- The resolved chain covers the head's ancestry from a slot at or before `scanStart` on. -/
theorem Faces.resolveChain (headSlot scanStart : Nat) :
    C.Always (resolveChain headSlot V.head scanStart) fun chain => ∃ low ≤ scanStart, chain.Covers L V.head low := by
  refine .bind (h.fetchByRoot _ _) fun b hb => .check fun _ => ?_
  have hroot : L.rootAt V.head b.slot = some V.head := Ledger.rootAt_iff.2 ⟨.refl _, Ledger.slotOf_eq hb⟩
  have hc : (ResolvedChain.insert ⟨.empty⟩ b.slot V.head b).Covers L V.head b.slot := by
    refine ⟨fun s hle => ?_, fun s hls => ?_, V.head, b, hroot, hb⟩
    · unfold ResolvedChain.insert
      rw [Table.get_put]
      by_cases he : s = b.slot
      · subst he
        rw [if_pos rfl, hroot, Option.bind_some, hb, Option.map_some]
      · rw [if_neg he, Table.get_empty]
        cases hr : L.rootAt V.head s with
        | none => rfl
        | some r =>
          obtain ⟨ha, hrs⟩ := Ledger.rootAt_iff.1 hr
          have : L.slotOf r ≤ L.slotOf V.head := ha.height_le
          rw [Ledger.slotOf_eq hb] at this
          omega
    · unfold ResolvedChain.insert
      rw [Table.get_put, if_neg (by omega), Table.get_empty]
  exact .ite (fun hle => .pure ⟨b.slot, hle, hc⟩) fun hgt =>
    h.resolveParents scanStart b.slot V.head b _ hb (.refl _) hc (by omega)

end Walk

/-! ## Roots before a slot -/

theorem maxBySlot_spec {α : Type} : ∀ {l : List (Nat × α)} {x : Nat × α}, maxBySlot l = some x →
    x ∈ l ∧ ∀ y ∈ l, y.1 ≤ x.1
  | x :: rest, z, h => by
    unfold maxBySlot at h
    cases hr : maxBySlot rest with
    | none =>
      rw [hr] at h
      obtain rfl := Option.some.inj h
      refine ⟨List.mem_cons_self .., fun y hy => ?_⟩
      rcases List.mem_cons.1 hy with rfl | hy
      · exact le_rfl
      · cases rest with
        | nil => cases hy
        | cons a l => exfalso; unfold maxBySlot at hr; split at hr <;> [split at hr; skip] <;> cases hr
    | some y =>
      rw [hr] at h
      dsimp only at h
      obtain ⟨hy, hmax⟩ := maxBySlot_spec hr
      by_cases hle : x.1 ≤ y.1
      · rw [if_pos hle] at h
        obtain rfl := Option.some.inj h
        refine ⟨List.mem_cons_of_mem _ hy, fun w hw => ?_⟩
        rcases List.mem_cons.1 hw with rfl | hw
        · exact hle
        · exact hmax w hw
      · rw [if_neg hle] at h
        obtain rfl := Option.some.inj h
        refine ⟨List.mem_cons_self .., fun w hw => ?_⟩
        rcases List.mem_cons.1 hw with rfl | hw
        · exact le_rfl
        · have := hmax w hw; omega

variable {chain : ResolvedChain} {head : Root} {low : Nat}

/-- The last resolved root at or before a slot is the chain's. -/
theorem ResolvedChain.Covers.rootBefore (h : chain.Covers L head low) {s s' : Nat} {r : Root}
    (hk : ∃ b, L.block head = some b) (hb : rootBefore chain.roots s = some (s', r)) :
    low ≤ s ∧ L.lastRoot head s = some r ∧ L.slotOf r = s' := by
  unfold BeaconIndexer.rootBefore at hb
  obtain ⟨hmem, hmax⟩ := maxBySlot_spec hb
  obtain ⟨hrow, hle⟩ := List.mem_filter.1 hmem
  have hle : s' ≤ s := by simpa using hle
  obtain ⟨hlow, hroot⟩ := h.roots_some (Table.mem_rows.1 hrow)
  obtain ⟨ha, hs⟩ := Ledger.rootAt_iff.1 hroot
  refine ⟨hlow.trans hle, Forest.below_iff.2 ⟨ha, ?_, fun z hz hzs => ?_⟩, hs⟩
  · show L.slotOf r ≤ s
    omega
  · have hzs : L.slotOf z ≤ s := hzs
    by_cases hzl : low ≤ L.slotOf z
    · have hz' : chain.roots.get (L.slotOf z) = some z := by
        rw [h.roots_eq hk hzl]; exact Ledger.rootAt_iff.2 ⟨hz, rfl⟩
      have := hmax (L.slotOf z, z) (List.mem_filter.2 ⟨Table.mem_rows.2 hz', by simpa using hzs⟩)
      exact ha.of_height_le hz (show L.slotOf z ≤ L.slotOf r by omega)
    · exact ha.of_height_le hz (show L.slotOf z ≤ L.slotOf r by omega)

theorem Ledger.lastRoot_of_rootAt {r : Root} {s : Nat} (h : L.rootAt head s = some r) : L.lastRoot head s = some r := by
  obtain ⟨ha, rfl⟩ := Ledger.rootAt_iff.1 h
  exact Forest.below_iff.2 ⟨ha, le_rfl, fun z hz hh => ha.of_height_le hz hh⟩

/-- A skipped slot carries the root before it. -/
theorem Ledger.lastRoot_succ {r : Root} {s : Nat} (hn : L.rootAt head (s + 1) = none) (h : L.lastRoot head s = some r) :
    L.lastRoot head (s + 1) = some r := by
  obtain ⟨ha, hle, hmax⟩ := Forest.below_iff.1 h
  refine Forest.below_iff.2 ⟨ha, hle.trans (Nat.le_succ s), fun z hz hzs => ?_⟩
  by_cases he : L.slotOf z = s + 1
  · have := Ledger.rootAt_iff.2 ⟨hz, he⟩
    rw [hn] at this
    cases this
  · have hzs : L.slotOf z ≤ s + 1 := hzs
    exact hmax z hz (show L.slotOf z ≤ s by omega)

/-- Carrying roots forward yields the chain's last root at every slot of the range. -/
theorem carryRoots_spec (h : chain.Covers L head low) (hk : ∃ b, L.block head = some b) :
    ∀ (n slot : Nat) (previous : Root) (acc : Table Nat Root), low ≤ slot →
      (L.rootAt head slot = none → L.lastRoot head slot = some previous) →
      ∀ s r, (carryRoots chain.roots n slot previous acc).get s = some r →
        (slot ≤ s ∧ s < slot + n ∧ L.lastRoot head s = some r) ∨ acc.get s = some r
  | 0, _, _, _, _, _, s, r, hg => Or.inr hg
  | n + 1, slot, previous, acc, hlow, hprev, s, r, hg => by
    have hroot : L.lastRoot head slot = some ((chain.roots.get slot).getD previous) := by
      rw [h.roots_eq hk hlow]
      cases hr : L.rootAt head slot with
      | none => exact hprev hr
      | some r' => exact Ledger.lastRoot_of_rootAt hr
    unfold carryRoots at hg
    rcases carryRoots_spec h hk n (slot + 1) _ _ (by omega) (fun hn => Ledger.lastRoot_succ hn hroot) s r hg with
      ⟨h1, h2, h3⟩ | hacc
    · exact Or.inl ⟨by omega, by omega, h3⟩
    · rw [Table.get_put] at hacc
      split at hacc
      · rename_i he
        subst he
        exact Or.inl ⟨le_rfl, by omega, hroot.trans hacc⟩
      · exact Or.inr hacc

/-- The live vote context holds the chain's roots of the epoch before the inclusion. -/
theorem liveVoteContext_spec (h : chain.Covers L head low) (hk : ∃ b, L.block head = some b) {epoch slot : Nat}
    {ctx : VoteContext} (hctx : liveVoteContext spec epoch slot chain.roots = .ok ctx) :
    ctx.targetEpoch = epoch ∧ ctx.source = none ∧ L.boundary head epoch = some ctx.targetRoot ∧
    ∀ s r, ctx.blockRoots.get s = some r →
      spec.epochStartSlot epoch ≤ s ∧ s < slot ∧ L.lastRoot head s = some r := by
  unfold liveVoteContext at hctx
  dsimp only at hctx
  cases hb : rootBefore chain.roots (spec.epochStartSlot epoch) with
  | none => rw [hb] at hctx; cases hctx
  | some p =>
    obtain ⟨s', target⟩ := p
    rw [hb] at hctx
    obtain rfl := Except.ok.inj hctx
    obtain ⟨hlow, hlast, _⟩ := h.rootBefore hk hb
    refine ⟨rfl, rfl, hlast, fun s r hg => ?_⟩
    rcases carryRoots_spec h hk _ _ _ _ hlow (fun _ => hlast) s r hg with ⟨h1, h2, h3⟩ | hacc
    · exact ⟨h1, by omega, h3⟩
    · cases hacc

end BeaconIndexer
