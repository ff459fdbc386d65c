/-
The parent walk against any node: it ends however the node answers, and a chain it returns is the
parent chain of the head down to the scan start, with nothing beside it.
-/
import BeaconIndexer.Beacon.Ledger
import BeaconIndexer.Proofs.Reads
import BeaconIndexer.Live.Head

namespace BeaconIndexer

open Effects Relational Contract

/-! ## The walk ends -/

theorem takes_fetchByRoot (root : Root) : ∀ n : Nat, Takes n (fetchByRoot root n)
  | 0 => Takes.throw
  | n + 1 => by
    unfold fetchByRoot
    refine Takes.mono (Takes.bind (m := n) Takes.ask fun block => ?_) (by omega)
    cases block with
    | some b => exact Takes.mono Takes.pure (Nat.zero_le n)
    | none => exact takes_fetchByRoot root n

theorem takes_resolveParents (scanStart : Nat) : ∀ (fuel child : Nat) (root : Root) (chain : ResolvedChain),
    Takes (blockFetchRetries * (fuel + 1)) (resolveParents scanStart fuel child root chain)
  | 0, child, root, chain => Takes.mono (Takes.bind (takes_fetchByRoot root _) fun _ => Takes.throw) (by omega)
  | fuel + 1, child, root, chain => by
    unfold resolveParents
    refine Takes.mono (Takes.bind (m := blockFetchRetries * (fuel + 1)) (takes_fetchByRoot root _) fun block => ?_)
      (by simp only [Nat.mul_add]; omega)
    refine Takes.check fun _ => Takes.ite (fun _ => Takes.mono Takes.pure (Nat.zero_le _)) fun _ => ?_
    exact takes_resolveParents scanStart fuel _ _ _

/-- Every slot on the way is below the child's, so more steps than that change nothing. -/
theorem resolveParents_fuel (scanStart : Nat) : ∀ (fuel fuel' child : Nat) (root : Root) (chain : ResolvedChain),
    child ≤ fuel → child ≤ fuel' → resolveParents scanStart fuel child root chain = resolveParents scanStart fuel' child root chain
  | 0, 0, child, root, chain, _, _ => rfl
  | 0, fuel' + 1, child, root, chain, h, h' => by
    unfold resolveParents
    refine bind_congr fun block => ?_
    rw [if_pos (by omega)]
    rfl
  | fuel + 1, 0, child, root, chain, h, h' => by
    unfold resolveParents
    refine bind_congr fun block => ?_
    rw [if_pos (by omega)]
    rfl
  | fuel + 1, fuel' + 1, child, root, chain, h, h' => by
    unfold resolveParents
    refine bind_congr fun block => ?_
    split
    · rfl
    · dsimp only
      split
      · rfl
      · exact resolveParents_fuel scanStart fuel fuel' _ _ _ (by omega) (by omega)

/-- The source's loop, whose next round begins at the block just stored. -/
theorem resolveParents_loop (scanStart child : Nat) (root : Root) (chain : ResolvedChain) :
    resolveParents scanStart child child root chain = (do
      let block ← fetchByRoot root blockFetchRetries
      if child ≤ block.slot then throw (.inconsistentBeaconData "Parent slot does not precede child")
      let chain := chain.insert block.slot root block
      if block.slot ≤ scanStart then return chain
      resolveParents scanStart block.slot block.slot block.parentRoot chain) := by
  cases child with
  | zero =>
    unfold resolveParents
    refine bind_congr fun block => ?_
    rw [if_pos (Nat.zero_le _)]
    rfl
  | succ child =>
    conv_lhs => unfold resolveParents
    refine bind_congr fun block => ?_
    split
    · rfl
    · dsimp only
      split
      · rfl
      · exact resolveParents_fuel scanStart child _ _ _ _ (by omega) le_rfl

theorem takes_resolveChain (headSlot : Nat) (headRoot : Root) (scanStart : Nat) :
    Takes (blockFetchRetries * (headSlot + 2)) (resolveChain headSlot headRoot scanStart) := by
  unfold resolveChain
  refine Takes.mono (Takes.bind (m := blockFetchRetries * (headSlot + 1)) (takes_fetchByRoot headRoot _) fun block => ?_)
    (by simp only [Nat.mul_add]; omega)
  refine Takes.check fun hslot => Takes.ite (fun _ => Takes.mono Takes.pure (Nat.zero_le _)) fun _ => ?_
  obtain rfl : block.slot = headSlot := by simpa using hslot
  exact takes_resolveParents scanStart _ _ _ _

/-! ## The chain it returns -/

section Chain

variable (node : (q : Request) → Except Error q.Answer → Prop) (headSlot : Nat) (headRoot : Root)

/-- A stored block and the next lower one, which is its parent; no slot between them is stored. -/
def ResolvedChain.Link (chain : ResolvedChain) (s s' : Nat) : Prop :=
  ∃ r b b', chain.entries.get s = some (r, b) ∧ chain.entries.get s' = some (b.parentRoot, b') ∧ s' < s ∧
    ∀ t, s' < t → t < s → chain.entries.get t = none

/-- The parent chain of the head down to the block at `low`: every block is the node's answer to its root. -/
structure ResolvedChain.DownTo (chain : ResolvedChain) (low : Nat) : Prop where
  head : ∃ b, chain.entries.get headSlot = some (headRoot, b)
  last : ∃ e, chain.entries.get low = some e
  between : ∀ s e, chain.entries.get s = some e → low ≤ s ∧ s ≤ headSlot
  ownSlot : ∀ s r b, chain.entries.get s = some (r, b) → b.slot = s
  answered : ∀ s r b, chain.entries.get s = some (r, b) → node (.blockByRoot r) (.ok (some b))
  linked : ∀ s e, chain.entries.get s = some e → low < s → ∃ s', chain.Link s s'
  reached : ∀ s e, chain.entries.get s = some e → Relation.ReflTransGen chain.Link headSlot s

variable {node headSlot headRoot} {chain : ResolvedChain} {low : Nat}

theorem ResolvedChain.insert_get (chain : ResolvedChain) (slot : Nat) (root : Root) (block : SignedBeaconBlock) (s : Nat) :
    (chain.insert slot root block).entries.get s = if s = slot then some (root, block) else chain.entries.get s :=
  Table.get_put ..

/-- The head's block alone. -/
theorem ResolvedChain.downTo_head {b : SignedBeaconBlock} (hb : node (.blockByRoot headRoot) (.ok (some b)))
    (hs : b.slot = headSlot) : (ResolvedChain.insert ⟨.empty⟩ b.slot headRoot b).DownTo node headSlot headRoot b.slot := by
  have hget : ∀ {s e}, (ResolvedChain.insert ⟨.empty⟩ b.slot headRoot b).entries.get s = some e →
      s = b.slot ∧ e = (headRoot, b) := by
    intro s e he
    rw [insert_get] at he
    split at he
    · exact ⟨‹_›, (Option.some.inj he).symm⟩
    · cases he
  subst hs
  refine ⟨⟨b, by simp [insert_get]⟩, ⟨_, by rw [insert_get, if_pos rfl]⟩, ?_, ?_, ?_, ?_, ?_⟩
  · intro s e he
    obtain ⟨rfl, -⟩ := hget he
    exact ⟨le_rfl, le_rfl⟩
  · intro s r b' he
    obtain ⟨rfl, heq⟩ := hget he
    cases heq
    rfl
  · intro s r b' he
    obtain ⟨-, heq⟩ := hget he
    cases heq
    exact hb
  · intro s e he hlt
    obtain ⟨rfl, -⟩ := hget he
    omega
  · intro s e he
    obtain ⟨rfl, -⟩ := hget he
    exact .refl

/-- A parent at a lower slot extends the chain. -/
theorem ResolvedChain.DownTo.insert_parent (h : chain.DownTo node headSlot headRoot low) {r : Root}
    {b p : SignedBeaconBlock} (hlow : chain.entries.get low = some (r, b))
    (hp : node (.blockByRoot b.parentRoot) (.ok (some p))) (hlt : p.slot < low) :
    (chain.insert p.slot b.parentRoot p).DownTo node headSlot headRoot p.slot := by
  have hnew : ∀ {s}, s ≠ p.slot → (chain.insert p.slot b.parentRoot p).entries.get s = chain.entries.get s :=
    fun hs => by rw [insert_get, if_neg hs]
  have hself : (chain.insert p.slot b.parentRoot p).entries.get p.slot = some (b.parentRoot, p) := by
    rw [insert_get, if_pos rfl]
  have hold : ∀ {s e}, chain.entries.get s = some e →
      (chain.insert p.slot b.parentRoot p).entries.get s = some e := by
    intro s e he
    rw [hnew, he]
    have := (h.between s e he).1
    omega
  have hcases : ∀ {s e}, (chain.insert p.slot b.parentRoot p).entries.get s = some e →
      (s = p.slot ∧ e = (b.parentRoot, p)) ∨ chain.entries.get s = some e := by
    intro s e he
    rw [insert_get] at he
    split at he
    · exact .inl ⟨‹_›, (Option.some.inj he).symm⟩
    · exact .inr he
  -- nothing was stored below the old lowest block
  have hlink : ∀ {s s'}, chain.Link s s' → (chain.insert p.slot b.parentRoot p).Link s s' := by
    rintro s s' ⟨r', b', b'', hs, hs', hlt', hgap⟩
    refine ⟨r', b', b'', hold hs, hold hs', hlt', fun t h1 h2 => ?_⟩
    have := (h.between s' _ hs').1
    rw [hnew (by omega)]
    exact hgap t h1 h2
  have hparent : (chain.insert p.slot b.parentRoot p).Link low p.slot := by
    refine ⟨r, b, p, hold hlow, hself, hlt, fun t h1 h2 => ?_⟩
    rw [hnew (by omega)]
    cases ht : chain.entries.get t with
    | none => rfl
    | some e =>
      have := (h.between t e ht).1
      omega
  have hreached : ∀ s e, chain.entries.get s = some e →
      Relation.ReflTransGen (chain.insert p.slot b.parentRoot p).Link headSlot s :=
    fun s e he => Relation.ReflTransGen.mono (fun _ _ => hlink) _ _ (h.reached s e he)
  obtain ⟨hb, hhead⟩ := h.head
  refine ⟨⟨hb, hold hhead⟩, ⟨_, hself⟩, ?_, ?_, ?_, ?_, ?_⟩
  · intro s e he
    have hlow' := (h.between low _ hlow).2
    rcases hcases he with ⟨rfl, -⟩ | he
    · omega
    · have := h.between s e he
      omega
  · intro s r' b' he
    rcases hcases he with ⟨rfl, heq⟩ | he
    · cases heq
      rfl
    · exact h.ownSlot s r' b' he
  · intro s r' b' he
    rcases hcases he with ⟨rfl, heq⟩ | he
    · cases heq
      exact hp
    · exact h.answered s r' b' he
  · intro s e he hs
    rcases hcases he with ⟨rfl, -⟩ | he
    · omega
    · by_cases hl : low < s
      · obtain ⟨s', hs'⟩ := h.linked s e he hl
        exact ⟨s', hlink hs'⟩
      · have := (h.between s e he).1
        obtain rfl : s = low := by omega
        exact ⟨p.slot, hparent⟩
  · intro s e he
    rcases hcases he with ⟨rfl, -⟩ | he
    · exact (hreached low _ hlow).tail hparent
    · exact hreached s e he

/-- The whole parent chain: it stops at the first block at or before the scan start. -/
structure ResolvedChain.ParentChain (node : (q : Request) → Except Error q.Answer → Prop) (headSlot : Nat)
    (headRoot : Root) (scanStart : Nat) (chain : ResolvedChain) (low : Nat) : Prop extends
    chain.DownTo node headSlot headRoot low where
  start : low ≤ scanStart
  onlyLast : ∀ s e, chain.entries.get s = some e → s ≤ scanStart → s = low

/-- An absent slot lies between a block and its parent. -/
theorem ResolvedChain.DownTo.gap (h : chain.DownTo node headSlot headRoot low) {t s₁ : Nat} : ∀ {s₂ : Nat},
    (chain.entries.get s₁).isSome = true → (chain.entries.get s₂).isSome = true → s₁ < t → t < s₂ →
    (chain.entries.get t).isSome = false → ∃ s s', chain.Link s s' ∧ s' < t ∧ t < s := by
  intro s₂
  induction s₂ using Nat.strong_induction_on with
  | _ s₂ ih =>
    intro h₁ h₂ hlt hgt ht
    obtain ⟨e₁, he₁⟩ := Option.isSome_iff_exists.1 h₁
    obtain ⟨e₂, he₂⟩ := Option.isSome_iff_exists.1 h₂
    have hlow := (h.between s₁ e₁ he₁).1
    obtain ⟨s', hlink⟩ := h.linked s₂ e₂ he₂ (by omega)
    have hs' : s' < s₂ ∧ (chain.entries.get s').isSome = true := by
      obtain ⟨r, b, b', -, hb', hfall, -⟩ := hlink
      exact ⟨hfall, by rw [hb']; rfl⟩
    rcases lt_trichotomy s' t with hst | rfl | hst
    · exact ⟨s₂, s', hlink, hst, hgt⟩
    · rw [hs'.2] at ht
      cases ht
    · exact ih s' hs'.1 h₁ hs'.2 hlt hst ht

variable {spec : ChainSpec}

theorem reads_fetchByRoot {root : Root} : ∀ {n : Nat},
    Reads (indexerSem spec node) (fetchByRoot root n) fun b => node (.blockByRoot root) (.ok (some b))
  | 0 => Reads.throw
  | n + 1 => by
    refine Reads.bind (reads_request fun a ha => ha) fun a ha => ?_
    cases a with
    | some b => exact Reads.pure ha
    | none => exact reads_fetchByRoot

theorem ResolvedChain.DownTo.reads_resolveParents (scanStart : Nat) : ∀ (fuel : Nat) {chain : ResolvedChain} {low : Nat}
    {r : Root} {b : SignedBeaconBlock}, chain.DownTo node headSlot headRoot low → chain.entries.get low = some (r, b) →
    scanStart < low → Reads (indexerSem spec node) (resolveParents scanStart fuel low b.parentRoot chain)
      fun chain => ∃ low, chain.ParentChain node headSlot headRoot scanStart low
  | 0, chain, low, r, b, _, _, _ => Reads.bind (P := fun _ => True) (reads_fetchByRoot.mono fun _ _ => trivial) fun _ _ =>
      Reads.throw
  | fuel + 1, chain, low, r, b, h, hlow, hstart => by
    unfold resolveParents
    refine Reads.bind reads_fetchByRoot fun p hp => ?_
    refine Reads.check fun hlt => ?_
    have hnew := h.insert_parent hlow hp (by omega)
    refine Reads.ite (fun hle => Reads.pure ⟨p.slot, hnew, hle, fun s e he hs => ?_⟩) fun hgt => ?_
    · -- the blocks stored before are after the scan start
      rw [insert_get] at he
      split at he
      · assumption
      · have := (h.between s e he).1
        omega
    · exact hnew.reads_resolveParents scanStart fuel (by rw [insert_get, if_pos rfl]) (by omega)

theorem reads_resolveChain (headSlot : Nat) (headRoot : Root) (scanStart : Nat) :
    Reads (indexerSem spec node) (resolveChain headSlot headRoot scanStart)
      fun chain => ∃ low, chain.ParentChain node headSlot headRoot scanStart low := by
  unfold resolveChain
  refine Reads.bind reads_fetchByRoot fun b hb => ?_
  refine Reads.check fun hslot => ?_
  have hslot : b.slot = headSlot := by simpa using hslot
  have hhead := ResolvedChain.downTo_head hb hslot
  refine Reads.ite (fun hle => Reads.pure ⟨b.slot, hhead, hle, fun s e he _ => ?_⟩) fun hgt => ?_
  · rw [ResolvedChain.insert_get] at he
    split at he
    · assumption
    · cases he
  · exact hhead.reads_resolveParents scanStart b.slot (by rw [ResolvedChain.insert_get, if_pos rfl]) (by omega)

end Chain

/-- However the node answers, the walk ends; what it returns is the parent chain of the head down to the first
block at or before the scan start, and an absent slot in its range lies between a block and its parent. -/
theorem resolveChain_parentChain (spec : ChainSpec) (node : (q : Request) → Except Error q.Answer → Prop)
    (headSlot : Nat) (headRoot : Root) (scanStart : Nat) :
    (∀ child root chain, resolveParents scanStart child child root chain = (do
      let block ← fetchByRoot root blockFetchRetries
      if child ≤ block.slot then throw (.inconsistentBeaconData "Parent slot does not precede child")
      let chain := chain.insert block.slot root block
      if block.slot ≤ scanStart then return chain
      resolveParents scanStart block.slot block.slot block.parentRoot chain)) ∧
    Takes (blockFetchRetries * (headSlot + 2)) (resolveChain headSlot headRoot scanStart) ∧
    ∀ db chain db', Exec (indexerSem spec node) (resolveChain headSlot headRoot scanStart).run db (.ok chain) db' →
      (∀ s, chain.blocks.has s = chain.roots.has s) ∧
      (∃ low, chain.ParentChain node headSlot headRoot scanStart low) ∧
      ∀ t s₁ s₂, chain.blocks.has s₁ = true → chain.blocks.has s₂ = true → s₁ < t → t < s₂ → chain.blocks.has t = false →
        ∃ s s', chain.Link s s' ∧ s' < t ∧ t < s := by
  refine ⟨resolveParents_loop scanStart, takes_resolveChain headSlot headRoot scanStart, fun db chain db' hx => ?_⟩
  obtain ⟨low, h⟩ := ((reads_resolveChain headSlot headRoot scanStart db).exec hx).1
  have hblocks : ∀ s, chain.blocks.has s = (chain.entries.get s).isSome := by
    intro s
    rw [Table.has, ResolvedChain.blocks, Table.get_mapVal, Option.isSome_map]
  refine ⟨fun s => ?_, ⟨low, h⟩, fun t s₁ s₂ h₁ h₂ hlt hgt ht => ?_⟩
  · rw [hblocks, Table.has, ResolvedChain.roots, Table.get_mapVal, Option.isSome_map]
  · rw [hblocks] at h₁ h₂ ht
    exact h.gap h₁ h₂ hlt hgt ht

/-! ## A skipped slot -/

/-- Slot 3 builds on slot 1. -/
def gapNode : (q : Request) → Except Error q.Answer → Prop
  | .blockByRoot r, a => a = .ok (if r = ⟨13⟩ then some (bareBlock 3 ⟨11⟩) else if r = ⟨11⟩ then some (bareBlock 1 ⟨9⟩) else none)
  | _, _ => False

def gapChain : ResolvedChain := (ResolvedChain.insert ⟨.empty⟩ 3 ⟨13⟩ (bareBlock 3 ⟨11⟩)).insert 1 ⟨11⟩ (bareBlock 1 ⟨9⟩)

theorem resolveChain_parentChain_gap :
    Exec (indexerSem ⟨4, 8, 2, 0, by decide⟩ gapNode) (resolveChain 3 ⟨13⟩ 1).run .empty (.ok gapChain) .empty ∧
    gapChain.roots.get 3 = some ⟨13⟩ ∧ gapChain.roots.get 1 = some ⟨11⟩ ∧ gapChain.blocks.has 2 = false ∧
    ∃ s s', gapChain.Link s s' ∧ s' < 2 ∧ 2 < s := by
  have hx : Exec (indexerSem ⟨4, 8, 2, 0, by decide⟩ gapNode) (resolveChain 3 ⟨13⟩ 1).run .empty (.ok gapChain) .empty := by
    refine Exec.call_iff.2 ⟨.ok (some (bareBlock 3 ⟨11⟩)), _, ⟨rfl, rfl⟩, ?_⟩
    refine Exec.call_iff.2 ⟨.ok (some (bareBlock 1 ⟨9⟩)), _, ⟨rfl, rfl⟩, ?_⟩
    exact .done _ _
  exact ⟨hx, rfl, rfl, rfl, ((resolveChain_parentChain _ gapNode 3 ⟨13⟩ 1).2.2 _ _ _ hx).2.2 2 1 3 rfl rfl (by decide)
    (by decide) rfl⟩

end BeaconIndexer
