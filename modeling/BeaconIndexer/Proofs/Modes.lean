/-
The dense, the sparse and the live attestation scan on one chain: the canonical roots they compare
votes with, and the skipped slots they take out of an inclusion delay.
-/
import BeaconIndexer.Proofs.Reads
import BeaconIndexer.Proofs.Resolve

namespace BeaconIndexer

open Effects Relational Contract

variable {spec : ChainSpec} {node : (q : Request) → Except Error q.Answer → Prop}

namespace SlotBlocks

variable {block : SlotBlocks}

/-! ## Canonical roots -/

/-- The root of the highest block at or before a slot. -/
def IsLastRoot (block : SlotBlocks) (slot : Nat) (r : Root) : Prop :=
  ∃ s ≤ slot, rootAt block s = some r ∧ ∀ s', s < s' → s' ≤ slot → rootAt block s' = none

theorem rootBefore_succ_iff {slot : Nat} {r : Root} : rootBefore block (slot + 1) = some r ↔ IsLastRoot block slot r := by
  induction slot with
  | zero =>
    simp only [rootBefore, Option.or_none]
    constructor
    · exact fun h => ⟨0, le_rfl, h, fun s' h1 h2 => by omega⟩
    · rintro ⟨s, hs, h, -⟩
      obtain rfl : s = 0 := by omega
      exact h
  | succ n ih =>
    rw [rootBefore]
    cases hr : rootAt block (n + 1) with
    | some r' =>
      rw [Option.some_or]
      constructor
      · rintro h
        cases h
        exact ⟨n + 1, le_rfl, hr, fun s' h1 h2 => by omega⟩
      · rintro ⟨s, hs, h, hnone⟩
        rcases Nat.lt_or_ge s (n + 1) with hlt | hge
        · have := hnone (n + 1) hlt le_rfl
          rw [hr] at this
          cases this
        · obtain rfl : s = n + 1 := by omega
          exact hr.symm.trans h
    | none =>
      rw [Option.none_or, ih]
      constructor
      · rintro ⟨s, hs, h, hnone⟩
        refine ⟨s, by omega, h, fun s' h1 h2 => ?_⟩
        rcases Nat.lt_or_ge s' (n + 1) with hlt | hge
        · exact hnone s' h1 (by omega)
        · obtain rfl : s' = n + 1 := by omega
          exact hr
      · rintro ⟨s, hs, h, hnone⟩
        have hne : s ≠ n + 1 := by
          rintro rfl
          rw [hr] at h
          cases h
        exact ⟨s, by omega, h, fun s' h1 h2 => hnone s' h1 (by omega)⟩

/-- Carrying forward gives every slot of the range the last root and changes no other slot. -/
theorem carryForward_spec (startSlot : Nat) : ∀ (n slot : Nat) (last : Option Root) (roots out : Table Nat Root),
    (∀ s, slot ≤ s → s < slot + n → roots.get s = rootAt block s) → (∀ r, last = some r → rootBefore block slot = some r) →
    carryForward startSlot n slot last roots = .ok out →
    (∀ s, slot ≤ s → s < slot + n → ∃ r, out.get s = some r ∧ rootBefore block (s + 1) = some r) ∧
    ∀ s, s < slot ∨ slot + n ≤ s → out.get s = roots.get s := by
  intro n
  induction n with
  | zero =>
    intro slot last roots out _ _ h
    obtain rfl := Except.ok.inj h
    exact ⟨fun s h1 h2 => by omega, fun s _ => rfl⟩
  | succ n ih =>
    intro slot last roots out hroots hlast h
    unfold carryForward at h
    have hslot := hroots slot le_rfl (by omega)
    cases hg : roots.get slot with
    | some r =>
      rw [hg] at h hslot
      have hbefore : rootBefore block (slot + 1) = some r := by rw [rootBefore, ← hslot, Option.some_or]
      obtain ⟨hin, hout⟩ := ih (slot + 1) (some r) roots out (fun s h1 h2 => hroots s (by omega) (by omega))
        (fun _ hr => hr ▸ hbefore) h
      refine ⟨fun s h1 h2 => ?_, fun s hs => hout s (by omega)⟩
      rcases Nat.eq_or_lt_of_le h1 with rfl | hlt
      · exact ⟨r, (hout slot (by omega)).trans hg, hbefore⟩
      · exact hin s (by omega) (by omega)
    | none =>
      rw [hg] at h hslot
      cases hl : last with
      | none => rw [hl] at h; cases h
      | some r =>
        rw [hl] at h
        have hbefore : rootBefore block (slot + 1) = some r := by
          rw [rootBefore, ← hslot, Option.none_or]
          exact hlast r hl
        obtain ⟨hin, hout⟩ := ih (slot + 1) (some r) (roots.put slot r) out
          (fun s h1 h2 => by rw [Table.get_put, if_neg (by omega)]; exact hroots s (by omega) (by omega))
          (fun _ hr => hr ▸ hbefore) h
        refine ⟨fun s h1 h2 => ?_, fun s hs => ?_⟩
        · rcases Nat.eq_or_lt_of_le h1 with rfl | hlt
          · exact ⟨r, (hout slot (by omega)).trans (by rw [Table.get_put, if_pos rfl]), hbefore⟩
          · exact hin s (by omega) (by omega)
        · rw [hout s (by omega), Table.get_put, if_neg (by omega)]

/-- The roots of the fetched slots as a table. -/
theorem get_ofList_roots {slots : List Nat} {fetched : List (Nat × Root)}
    (h : ∀ s r, (s, r) ∈ fetched ↔ s ∈ slots ∧ rootAt block s = some r) {s : Nat} (hs : s ∈ slots) :
    (Table.ofList fetched).get s = rootAt block s := by
  cases hr : rootAt block s with
  | some r =>
    refine Table.get_ofList_of_unique ((h s r).2 ⟨hs, hr⟩) fun r' hm => ?_
    exact Option.some.inj (((h s r').1 hm).2.symm.trans hr)
  | none =>
    cases hg : (Table.ofList fetched).get s with
    | none => rfl
    | some r =>
      have := ((h s r).1 (Table.mem_of_get_ofList hg)).2
      rw [hr] at this
      cases this

/-- The dense root map holds the last root at every slot of the range and nothing else. -/
theorem reads_buildBlockRootMap (h : ServedBy block node) (start : Nat) :
    Reads (indexerSem spec node) (buildBlockRootMap spec start
        ((List.range' start spec.slotsPerEpoch).map fun s => (s, blockAt block s))) fun roots =>
      (∀ s, start ≤ s → s < start + spec.slotsPerEpoch → ∃ r, roots.get s = some r ∧ IsLastRoot block s r) ∧
      ∀ s, s < start ∨ start + spec.slotsPerEpoch ≤ s → roots.get s = none := by
  refine Reads.bind (reads_fetchBlockRoots h _) fun fetched hfetched => ?_
  have hroots : ∀ s, start ≤ s → s < start + spec.slotsPerEpoch → (Table.ofList fetched).get s = rootAt block s :=
    fun s h1 h2 => get_ofList_roots hfetched (List.mem_range'_1.2 ⟨h1, h2⟩)
  have hcarry : ∀ last : Option Root, (∀ r, last = some r → rootBefore block start = some r) →
      Reads (indexerSem spec node)
        (ofExcept (carryForward start spec.slotsPerEpoch start last (Table.ofList fetched))) fun roots =>
      (∀ s, start ≤ s → s < start + spec.slotsPerEpoch → ∃ r, roots.get s = some r ∧ IsLastRoot block s r) ∧
      ∀ s, s < start ∨ start + spec.slotsPerEpoch ≤ s → roots.get s = none := by
    intro last hlast
    refine reads_ofExcept fun out hout => ?_
    obtain ⟨hin, hrest⟩ := carryForward_spec start _ start last _ out hroots hlast hout
    refine ⟨fun s h1 h2 => ?_, fun s hs => ?_⟩
    · obtain ⟨r, hr, hb⟩ := hin s h1 h2
      exact ⟨r, hr, rootBefore_succ_iff.1 hb⟩
    · rw [hrest s hs]
      cases hg : (Table.ofList fetched).get s with
      | none => rfl
      | some r =>
        have := ((hfetched s r).1 (Table.mem_of_get_ofList hg)).1
        rw [List.mem_range'_1] at this
        omega
  -- a search backwards is only made for an epoch whose first slot is skipped
  refine Reads.ite (fun _ => ?_) fun _ => ?_
  · exact Reads.bind (reads_firstRoot h _ _) fun last hlast => hcarry last hlast
  · refine Reads.bind (P := (· = none)) (Reads.pure rfl) fun last hlast => hcarry last fun r hr => ?_
    rw [hlast] at hr
    cases hr

/-- A context for votes of an epoch that holds the chain's roots. -/
structure Canonical (block : SlotBlocks) (spec : ChainSpec) (epoch : Nat) (ctx : VoteContext) : Prop where
  head : ∀ s r, ctx.blockRoots.get s = some r → IsLastRoot block s r
  target : IsLastRoot block (spec.epochStartSlot epoch) ctx.targetRoot
  epoch_eq : ctx.targetEpoch = epoch

/-- Votes at the slot can be checked. -/
def Covers (ctx : VoteContext) (slot : Nat) : Prop := ctx.blockRoots.has slot = true

theorem IsLastRoot.unique {s : Nat} {r r' : Root} (h : IsLastRoot block s r) (h' : IsLastRoot block s r') : r = r' :=
  Option.some.inj ((rootBefore_succ_iff.2 h).symm.trans (rootBefore_succ_iff.2 h'))

/-- The head and target marks of a vote depend on the chain alone. -/
theorem Canonical.marks {epoch : Nat} {ctx : VoteContext} (h : Canonical block spec epoch ctx) {data : AttestationData}
    (hc : Covers ctx data.slot) : ∃ marks, computeVoteCorrectness data ctx = .ok marks ∧
      (marks.headCorrect = true ↔ IsLastRoot block data.slot data.beaconBlockRoot) ∧
      (marks.targetCorrect = true ↔
        data.target.epoch = epoch ∧ IsLastRoot block (spec.epochStartSlot epoch) data.target.root) := by
  obtain ⟨r, hr⟩ := Table.has_iff.1 hc
  refine ⟨_, by rw [computeVoteCorrectness, hr], ?_, ?_⟩
  · have hlast := h.head _ _ hr
    simp only [beq_iff_eq]
    constructor
    · rintro rfl; exact hlast
    · exact fun h' => h'.unique hlast
  · simp only [Bool.and_eq_true, beq_iff_eq, h.epoch_eq]
    apply and_congr_right
    intro _
    constructor
    · intro he; rw [he]; exact h.target
    · exact fun h' => h'.unique h.target

theorem reads_buildVoteContext (h : ServedBy block node) (epoch : Nat) :
    Reads (indexerSem spec node) (buildVoteContext spec epoch (spec.epochStartSlot epoch)
        ((List.range' (spec.epochStartSlot epoch) spec.slotsPerEpoch).map fun s => (s, blockAt block s))) fun ctx =>
      Canonical block spec epoch ctx ∧ ∀ s, Covers ctx s ↔ spec.slotToEpoch s = epoch := by
  refine Reads.bind (reads_buildBlockRootMap h _) fun roots hroots => ?_
  obtain ⟨hin, hout⟩ := hroots
  cases hr : roots.get (spec.epochStartSlot epoch) with
  | none => exact Reads.throw
  | some target =>
    refine Reads.bind (P := fun _ => True) (reads_getFinalityCheckpoints fun _ _ => trivial) fun checkpoints _ => ?_
    have hlast : ∀ s r, roots.get s = some r → IsLastRoot block s r := by
      intro s r hs
      by_cases hrange : spec.epochStartSlot epoch ≤ s ∧ s < spec.epochStartSlot epoch + spec.slotsPerEpoch
      · obtain ⟨r', hr', hl⟩ := hin s hrange.1 hrange.2
        rw [hs] at hr'
        cases hr'
        exact hl
      · rw [hout s (by omega)] at hs
        cases hs
    refine Reads.pure ⟨⟨hlast, hlast _ _ hr, rfl⟩, fun s => ?_⟩
    have hepoch : spec.slotToEpoch s = epoch ↔
        spec.epochStartSlot epoch ≤ s ∧ s < spec.epochStartSlot epoch + spec.slotsPerEpoch := by
      rw [← spec.epochStartSlot_succ, ← spec.le_slotToEpoch_iff, ← spec.slotToEpoch_lt_iff]
      omega
    rw [hepoch]
    constructor
    · intro hc
      by_contra hrange
      obtain ⟨r, hs⟩ := Table.has_iff.1 hc
      rw [hout s (by omega)] at hs
      cases hs
    · intro hrange
      obtain ⟨r, hs, -⟩ := hin s hrange.1 hrange.2
      exact Table.has_iff.2 ⟨r, hs⟩

theorem reads_rootAtOrBefore (h : ServedBy block node) (slot : Nat) :
    Reads (indexerSem spec node) (rootAtOrBefore spec slot) fun r => rootBefore block (slot + 1) = some r := by
  refine Reads.bind (reads_firstRoot h _ _) fun found hfound => ?_
  cases found with
  | some r => exact Reads.pure (hfound r rfl)
  | none => exact Reads.throw

/-- The vote context of one duty in the sparse scan. -/
def sparseVoteContext (spec : ChainSpec) (duty : AttesterDuty) (targetEpoch : Nat) : Task VoteContext := do
  let targetRoot ← rootAtOrBefore spec (spec.epochStartSlot targetEpoch)
  let headRoot ← rootAtOrBefore spec duty.slot
  return ⟨Table.empty.put duty.slot headRoot, targetRoot, targetEpoch, none⟩

theorem scanForwardForInclusion_eq (duty : AttesterDuty) (targetEpoch : Nat) (cmap : CommitteeMap) :
    scanForwardForInclusion spec duty targetEpoch cmap = (do
      let context ← sparseVoteContext spec duty targetEpoch
      scanForward spec duty targetEpoch cmap context (spec.epochStartSlot (targetEpoch + 2) - 1 - duty.slot)
        (duty.slot + 1) 0) := by
  unfold scanForwardForInclusion sparseVoteContext
  simp only [bind_assoc, pure_bind]

theorem reads_sparseVoteContext (h : ServedBy block node) (duty : AttesterDuty) (epoch : Nat) :
    Reads (indexerSem spec node) (sparseVoteContext spec duty epoch) fun ctx =>
      Canonical block spec epoch ctx ∧ ∀ s, Covers ctx s ↔ s = duty.slot := by
  refine Reads.bind (reads_rootAtOrBefore h _) fun target htarget => ?_
  refine Reads.bind (reads_rootAtOrBefore h _) fun head hhead => Reads.pure ?_
  refine ⟨⟨fun s r hr => ?_, rootBefore_succ_iff.1 htarget, rfl⟩, fun s => ?_⟩
  · rw [Table.get_put] at hr
    split at hr
    · rename_i hs
      subst hs
      cases hr
      exact rootBefore_succ_iff.1 hhead
    · cases hr
  · unfold Covers Table.has
    rw [Table.get_put]
    split <;> simp_all

/-- Resolved roots: those of the chain from the slot `low` on, which has a block. -/
structure Resolves (block : SlotBlocks) (roots : Table Nat Root) (low : Nat) : Prop where
  above : ∀ s, low ≤ s → roots.get s = rootAt block s
  below : ∀ s, s < low → roots.get s = none
  start : (rootAt block low).isSome

/-- Carrying resolved roots forward gives every slot of the range the last root. -/
theorem carryRoots_lastRoot {roots : Table Nat Root} : ∀ (n slot : Nat) (previous : Root) (acc : Table Nat Root),
    (∀ s, slot ≤ s → roots.get s = rootAt block s) →
    (rootAt block slot = none → rootBefore block slot = some previous) →
    (∀ s, slot ≤ s → s < slot + n → ∃ r, (carryRoots roots n slot previous acc).get s = some r ∧ IsLastRoot block s r) ∧
    ∀ s, s < slot ∨ slot + n ≤ s → (carryRoots roots n slot previous acc).get s = acc.get s := by
  intro n
  induction n with
  | zero => exact fun slot previous acc _ _ => ⟨fun s h1 h2 => by omega, fun s _ => rfl⟩
  | succ n ih =>
    intro slot previous acc hroots hprev
    have hlast : rootBefore block (slot + 1) = some ((roots.get slot).getD previous) := by
      rw [hroots slot le_rfl, rootBefore]
      cases hr : rootAt block slot with
      | some r => rfl
      | none => exact hprev hr
    obtain ⟨hin, hout⟩ := ih (slot + 1) ((roots.get slot).getD previous) (acc.put slot ((roots.get slot).getD previous))
      (fun s hs => hroots s (by omega)) fun _ => hlast
    unfold carryRoots
    refine ⟨fun s h1 h2 => ?_, fun s hs => ?_⟩
    · rcases Nat.eq_or_lt_of_le h1 with rfl | hlt
      · refine ⟨_, (hout slot (by omega)).trans ?_, rootBefore_succ_iff.1 hlast⟩
        rw [Table.get_put, if_pos rfl]
      · exact hin s (by omega) (by omega)
    · rw [hout s (by omega), Table.get_put, if_neg (by omega)]

/-- The last resolved root at or before a slot is the chain's. -/
theorem Resolves.lastRoot {roots : Table Nat Root} {low slot s : Nat} {r : Root} (h : Resolves block roots low)
    (hb : BeaconIndexer.rootBefore roots slot = some (s, r)) : low ≤ slot ∧ IsLastRoot block slot r := by
  unfold BeaconIndexer.rootBefore at hb
  obtain ⟨hmem, hmax⟩ := maxBySlot_spec hb
  obtain ⟨hrow, hle⟩ := List.mem_filter.1 hmem
  have hle : s ≤ slot := by simpa using hle
  have hget : roots.get s = some r := Table.mem_rows.1 hrow
  have hlow : low ≤ s := by
    by_contra hlt
    rw [h.below s (by omega)] at hget
    cases hget
  refine ⟨by omega, s, hle, (h.above s hlow).symm.trans hget, fun s' h1 h2 => ?_⟩
  cases hr : rootAt block s' with
  | none => rfl
  | some r' =>
    rw [← h.above s' (by omega)] at hr
    have := hmax (s', r') (List.mem_filter.2 ⟨Table.mem_rows.2 hr, by simpa using h2⟩)
    omega

theorem maxBySlot_ne_none {α : Type} {x : Nat × α} {l : List (Nat × α)} (h : x ∈ l) : maxBySlot l ≠ none := by
  cases l with
  | nil => cases h
  | cons y rest =>
    unfold maxBySlot
    cases maxBySlot rest with
    | none => simp
    | some z => simp only; split <;> simp

/-- An ancestry that reaches the epoch's first slot gives a live context. -/
theorem Resolves.liveVoteContext_ok {roots : Table Nat Root} {low epoch inclusionSlot : Nat}
    (h : Resolves block roots low) (hlow : low ≤ spec.epochStartSlot epoch) :
    ∃ ctx, liveVoteContext spec epoch inclusionSlot roots = .ok ctx := by
  obtain ⟨r, hr⟩ := Option.isSome_iff_exists.1 h.start
  rw [← h.above low le_rfl] at hr
  have hmem : (low, r) ∈ roots.rows.filter fun x => decide (x.1 ≤ spec.epochStartSlot epoch) :=
    List.mem_filter.2 ⟨Table.mem_rows.2 hr, by simpa using hlow⟩
  unfold liveVoteContext
  dsimp only
  cases hb : BeaconIndexer.rootBefore roots (spec.epochStartSlot epoch) with
  | none => exact absurd hb (maxBySlot_ne_none hmem)
  | some p => exact ⟨_, rfl⟩

/-- The blocks of a head's ancestry. -/
def ofHead (L : Ledger spec) (head : Root) : SlotBlocks := fun s => (L.rootAt head s).bind fun r => (L.block r).map (r, ·)

/-- What the parent walk resolves. -/
theorem resolves_ofHead {L : Ledger spec} {chain : ResolvedChain} {head : Root} {low : Nat} (h : chain.Covers L head low) :
    Resolves (ofHead L head) chain.roots low := by
  refine ⟨fun s hs => ?_, fun s hs => ?_, ?_⟩
  · rw [ResolvedChain.roots, Table.get_mapVal, h.above s hs]
    rfl
  · rw [ResolvedChain.roots, Table.get_mapVal, h.below s hs]
    rfl
  · obtain ⟨r, b, hr, hb⟩ := h.start
    simp [rootAt, ofHead, hr, hb]

/-- The slots of an epoch before a slot, as a range. -/
theorem epoch_slot_iff {epoch stop s : Nat} : spec.slotToEpoch s = epoch ∧ s < stop ↔
    spec.epochStartSlot epoch ≤ s ∧
      s < spec.epochStartSlot epoch + (min stop (spec.epochStartSlot (epoch + 1)) - spec.epochStartSlot epoch) := by
  have h1 := spec.le_slotToEpoch_iff (e := epoch) (s := s)
  have h2 := spec.slotToEpoch_lt_iff (e := epoch + 1) (s := s)
  omega

theorem liveVoteContext_canonical {roots : Table Nat Root} {low epoch inclusionSlot : Nat} (h : Resolves block roots low)
    {ctx : VoteContext} (hctx : liveVoteContext spec epoch inclusionSlot roots = .ok ctx) :
    Canonical block spec epoch ctx ∧ ∀ s, Covers ctx s ↔ spec.slotToEpoch s = epoch ∧ s < inclusionSlot := by
  unfold liveVoteContext at hctx
  dsimp only at hctx
  cases hb : BeaconIndexer.rootBefore roots (spec.epochStartSlot epoch) with
  | none => rw [hb] at hctx; cases hctx
  | some p =>
    obtain ⟨slot, target⟩ := p
    rw [hb] at hctx
    obtain rfl := Except.ok.inj hctx
    obtain ⟨hlow, hlast⟩ := h.lastRoot hb
    -- a skipped first slot carries the target root
    have hprev : rootAt block (spec.epochStartSlot epoch) = none →
        rootBefore block (spec.epochStartSlot epoch) = some target := by
      intro hskip
      have hbefore := rootBefore_succ_iff.2 hlast
      rw [rootBefore, hskip, Option.none_or] at hbefore
      exact hbefore
    obtain ⟨hin, hout⟩ := carryRoots_lastRoot
      (min inclusionSlot (spec.epochStartSlot (epoch + 1)) - spec.epochStartSlot epoch) (spec.epochStartSlot epoch) target
      .empty (fun s hs => h.above s (by omega)) hprev
    refine ⟨⟨fun s r hr => ?_, hlast, rfl⟩, fun s => ?_⟩
    · by_cases hrange : spec.slotToEpoch s = epoch ∧ s < inclusionSlot
      · rw [epoch_slot_iff] at hrange
        obtain ⟨r', hr', hl⟩ := hin s hrange.1 hrange.2
        cases hr.symm.trans hr'
        exact hl
      · rw [epoch_slot_iff] at hrange
        cases hr.symm.trans (hout s (by omega))
    · rw [epoch_slot_iff]
      constructor
      · intro hc
        by_contra hrange
        obtain ⟨r, hr⟩ := Table.has_iff.1 hc
        cases hr.symm.trans (hout s (by omega))
      · intro hrange
        obtain ⟨r, hr, -⟩ := hin s hrange.1 hrange.2
        exact Table.has_iff.2 ⟨r, hr⟩

/-- The scans find canonical roots only: whenever a scan builds its vote context, every slot it covers has
the root of the last block at or before it, and the target root is the one of the epoch's first slot. So two
scans mark the head and the target of a vote alike. The roots of a live scan are those of the ancestry its parent
walk resolves. -/
theorem voteContexts_canonical (h : ServedBy block node) (epoch : Nat) {roots : Table Nat Root} {low : Nat}
    (hroots : Resolves block roots low) :
    Reads (indexerSem spec node) (do
        let allBlocks ← fetchBlocksForSlots (List.range' (spec.epochStartSlot epoch) (spec.slotsPerEpoch * 2))
        buildVoteContext spec epoch (spec.epochStartSlot epoch) (allBlocks.take spec.slotsPerEpoch))
      (fun ctx => Canonical block spec epoch ctx ∧ ∀ s, Covers ctx s ↔ spec.slotToEpoch s = epoch) ∧
    (∀ duty, Reads (indexerSem spec node) (sparseVoteContext spec duty epoch) fun ctx =>
      Canonical block spec epoch ctx ∧ ∀ s, Covers ctx s ↔ s = duty.slot) ∧
    (∀ inclusionSlot ctx, liveVoteContext spec epoch inclusionSlot roots = .ok ctx →
      Canonical block spec epoch ctx ∧ ∀ s, Covers ctx s ↔ spec.slotToEpoch s = epoch ∧ s < inclusionSlot) ∧
    (low ≤ spec.epochStartSlot epoch → ∀ inclusionSlot, ∃ ctx, liveVoteContext spec epoch inclusionSlot roots = .ok ctx) ∧
    (∀ ctx ctx', Canonical block spec epoch ctx → Canonical block spec epoch ctx' → ∀ data, Covers ctx data.slot →
      Covers ctx' data.slot → ∃ marks marks', computeVoteCorrectness data ctx = .ok marks ∧
        computeVoteCorrectness data ctx' = .ok marks' ∧ marks.headCorrect = marks'.headCorrect ∧
        marks.targetCorrect = marks'.targetCorrect) ∧
    ∀ (L : Ledger spec) (chain : ResolvedChain) head bottom, chain.Covers L head bottom →
      Resolves (ofHead L head) chain.roots bottom := by
  refine ⟨?_, fun duty => reads_sparseVoteContext h duty epoch, fun _ _ => liveVoteContext_canonical hroots,
    fun hlow _ => hroots.liveVoteContext_ok hlow, fun ctx ctx' hctx hctx' data hc hc' => ?_,
    fun _ _ _ _ => resolves_ofHead⟩
  rotate_left
  · obtain ⟨marks, hm, hhead, htarget⟩ := hctx.marks hc
    obtain ⟨marks', hm', hhead', htarget'⟩ := hctx'.marks hc'
    exact ⟨marks, marks', hm, hm', Bool.eq_iff_iff.2 (hhead.trans hhead'.symm), Bool.eq_iff_iff.2 (htarget.trans htarget'.symm)⟩
  refine Reads.bind (reads_fetchBlocksForSlots h _) fun allBlocks hall => ?_
  subst hall
  have htake : ((List.range' (spec.epochStartSlot epoch) (spec.slotsPerEpoch * 2)).map fun s => (s, blockAt block s)).take
      spec.slotsPerEpoch =
      (List.range' (spec.epochStartSlot epoch) spec.slotsPerEpoch).map fun s => (s, blockAt block s) := by
    rw [← List.map_take, List.take_range'_of_length_ge (by omega)]
  rw [htake]
  exact reads_buildVoteContext h epoch

def fours : ChainSpec := ⟨4, 8, 2, 0, Nat.succ_pos 3⟩

/-- A chain of slots 0, 1 and 3 that skips slot 2; the block of slot 3 carries the vote of slot 1's committee. -/
def skippedTwo : SlotBlocks := fun s =>
  if s = 3 then some (⟨3⟩, votingBlock 3 ⟨1⟩ 1 ⟨0, ⟨0⟩⟩)
  else if s = 0 ∨ s = 1 then some (⟨s⟩, bareBlock s ⟨s - 1⟩) else none

/-- A node that serves it. -/
def skippedTwoNode : (q : Request) → Except Error q.Answer
  | .blockRoot s => .ok (rootAt skippedTwo s)
  | .blockByRoot r => .ok (blockAt skippedTwo r.value)
  | .finalityCheckpoints _ => .ok ⟨⟨⟨0, ⟨0⟩⟩, ⟨0, ⟨0⟩⟩⟩, none⟩
  | _ => .error (.http "no answer")

def skippedTwoRoots : Table Nat Root := .ofList [(0, ⟨0⟩), (1, ⟨1⟩), (3, ⟨3⟩)]

theorem skippedTwo_cases {s : Nat} {r : Root} {b : SignedBeaconBlock} (h : skippedTwo s = some (r, b)) :
    r = ⟨s⟩ ∧ b.slot = s := by
  unfold skippedTwo at h
  split at h
  · rename_i hs
    cases h
    exact ⟨by rw [hs], hs.symm⟩
  · split at h
    · cases h; exact ⟨rfl, rfl⟩
    · cases h

theorem skippedTwo_servedBy : ServedBy skippedTwo fun q r => r = skippedTwoNode q := by
  refine ⟨fun h => (skippedTwo_cases h).2, fun h => Except.ok.inj h, fun h hb => ?_⟩
  obtain ⟨rfl, -⟩ := skippedTwo_cases hb
  rw [Except.ok.inj h]
  exact blockAt_of_some hb

theorem skippedTwo_resolves : Resolves skippedTwo skippedTwoRoots 0 := by
  refine ⟨fun s _ => ?_, fun s hs => by omega, rfl⟩
  match s with
  | 0 | 1 | 2 | 3 => rfl
  | s + 4 =>
    have hnone : skippedTwo (s + 4) = none := (if_neg (by omega)).trans (if_neg (by omega))
    rw [rootAt, hnone, Option.map_none]
    cases hg : skippedTwoRoots.get (s + 4) with
    | none => rfl
    | some r =>
      have hmem := Table.mem_of_get_ofList hg
      simp at hmem

/-- Each scan builds a context, and all three agree on the vote of slot 1. -/
theorem voteContexts_canonical_skippedTwo : ∃ (dense sparse live : VoteContext) (db db' : Db),
    Exec (indexerSem fours fun q r => r = skippedTwoNode q) (do
      let allBlocks ← fetchBlocksForSlots (List.range' 0 8)
      buildVoteContext fours 0 0 (allBlocks.take 4) : Task VoteContext).run Db.empty (.ok dense) db ∧
    Exec (indexerSem fours fun q r => r = skippedTwoNode q) (sparseVoteContext fours ⟨7, 0, 0, 1⟩ 0).run Db.empty
      (.ok sparse) db' ∧
    liveVoteContext fours 0 3 skippedTwoRoots = .ok live ∧ dense.blockRoots.get 2 = some ⟨1⟩ ∧
    Canonical skippedTwo fours 0 dense ∧ Canonical skippedTwo fours 0 sparse ∧ Canonical skippedTwo fours 0 live ∧
    Covers dense 1 ∧ Covers sparse 1 ∧ Covers live 1 := by
  have hspec := @voteContexts_canonical fours _ _ skippedTwo_servedBy 0 _ _ skippedTwo_resolves
  obtain ⟨dense, db, hdense, hroot⟩ := @exec_of_advance fours skippedTwoNode _ (do
      let allBlocks ← fetchBlocksForSlots (List.range' 0 8)
      buildVoteContext fours 0 0 (allBlocks.take 4)) 60 Db.empty
    (fun ctx _ => ctx.blockRoots.get 2 == some ⟨1⟩) (by decide +kernel)
  obtain ⟨sparse, db', hsparse, -⟩ := @exec_of_advance fours skippedTwoNode _ (sparseVoteContext fours ⟨7, 0, 0, 1⟩ 0) 60
    Db.empty (fun _ _ => true) (by decide +kernel)
  obtain ⟨live, hlive⟩ := hspec.2.2.2.1 (Nat.zero_le _) 3
  obtain ⟨hcd, hd⟩ := (Ok.exec (hspec.1 Db.empty) hdense).1
  obtain ⟨hcs, hs⟩ := (Ok.exec (hspec.2.1 ⟨7, 0, 0, 1⟩ Db.empty) hsparse).1
  obtain ⟨hcl, hl⟩ := hspec.2.2.1 3 live hlive
  exact ⟨dense, sparse, live, db, db', hdense, hsparse, hlive, by simpa using hroot, hcd, hcs, hcl, (hd 1).2 rfl,
    (hs 1).2 rfl, (hl 1).2 ⟨rfl, by decide⟩⟩

/-! ## Counting blocks between two slots -/

/-- The blocks after `d`, up to and including `i`. -/
def blocksIn (block : SlotBlocks) (d i : Nat) : Nat := ((Finset.Ioc d i).filter fun s => (block s).isSome).card

/-- The slots without a block strictly between `d` and `i`. -/
def skippedIn (block : SlotBlocks) (d i : Nat) : Nat := ((Finset.Ioo d i).filter fun s => (block s).isNone).card

theorem length_filter_range' (p : Nat → Bool) (d i : Nat) :
    ((List.range' (d + 1) (i - d)).filter p).length = ((Finset.Ioc d i).filter (p ·)).card := by
  simp [Finset.card, Finset.filter, Finset.Ioc, LocallyFiniteOrder.finsetIoc]

theorem length_filter_range'_open (p : Nat → Bool) (d i : Nat) :
    ((List.range' (d + 1) (i - (d + 1))).filter p).length = ((Finset.Ioo d i).filter (p ·)).card := by
  simp [Finset.card, Finset.filter, Finset.Ioo, LocallyFiniteOrder.finsetIoo, Nat.sub_sub]

theorem skippedIn_self_succ (d : Nat) : skippedIn block d (d + 1) = 0 := by
  simp [skippedIn]

theorem skippedIn_succ {d i : Nat} (h : d < i) :
    skippedIn block d (i + 1) = skippedIn block d i + if (block i).isNone then 1 else 0 := by
  unfold skippedIn
  have hrange : Finset.Ioo d (i + 1) = insert i (Finset.Ioo d i) := by
    ext s
    simp only [Finset.mem_Ioo, Finset.mem_insert]
    omega
  rw [hrange, Finset.filter_insert]
  split
  · rw [Finset.card_insert_of_notMem (by simp)]
  · rfl

/-- Up to a slot with a block every slot has a block or is skipped. -/
theorem blocksIn_add_skippedIn {d i : Nat} (h : d < i) (hi : (block i).isSome) :
    blocksIn block d i + skippedIn block d i = i - d := by
  have hblocks : blocksIn block d i = ((Finset.Ioo d i).filter fun s => (block s).isSome).card + 1 := by
    unfold blocksIn
    rw [← Finset.Ioo_insert_right h, Finset.filter_insert, if_pos hi, Finset.card_insert_of_notMem (by simp)]
  have hall := Finset.card_filter_add_card_filter_not (s := Finset.Ioo d i) fun s => (block s).isSome = true
  have hskipped : skippedIn block d i = ((Finset.Ioo d i).filter fun s => ¬(block s).isSome = true).card := by
    simp [skippedIn]
  rw [Nat.card_Ioo, ← hskipped] at hall
  omega

/-- A slot with a block counts itself. -/
theorem blocksIn_pos {d i : Nat} (h : d < i) (hi : (block i).isSome) : 1 ≤ blocksIn block d i :=
  Finset.card_pos.2 ⟨i, by simp [h, hi]⟩

/-! ## Effective inclusion delays -/

theorem mem_missedSlots {slots : List Nat} {s : Nat} :
    s ∈ ((slots.map fun s => (s, blockAt block s)).filter (·.2.isNone)).map (·.1) ↔ s ∈ slots ∧ (block s).isNone := by
  simp [blockAt, List.mem_filter]

/-- The missed slots of a window, counted between two of its slots. -/
theorem length_missedSlots {slots : List Nat} {d i : Nat} (hslots : ∀ s, d < s → s < i → s ∈ slots) :
    ((List.range' (d + 1) (i - (d + 1))).filter
      (((slots.map fun s => (s, blockAt block s)).filter (·.2.isNone)).map (·.1)).contains).length = skippedIn block d i := by
  rw [length_filter_range'_open]
  unfold skippedIn
  congr 1
  apply Finset.filter_congr
  intro s hs
  rw [Finset.mem_Ioo] at hs
  rw [List.contains_iff_mem, mem_missedSlots]
  exact and_iff_right (hslots s hs.1 hs.2)

/-- Taking the missed slots of the window out of the delay leaves the blocks. -/
theorem effectiveInclusionDelay_eq {slots : List Nat} {d i : Nat} (h : d < i) (hi : (block i).isSome)
    (hslots : ∀ s, d < s → s < i → s ∈ slots) :
    effectiveInclusionDelay d i (i - d)
      (((slots.map fun s => (s, blockAt block s)).filter (·.2.isNone)).map (·.1)) = blocksIn block d i := by
  unfold effectiveInclusionDelay
  rw [length_missedSlots hslots]
  have := blocksIn_add_skippedIn h hi
  omega

theorem liveEffectiveDelay_eq {roots : Table Nat Root} {low d i : Nat} (h : Resolves block roots low) (hlow : low ≤ d + 1) :
    liveEffectiveDelay roots d i = blocksIn block d i := by
  unfold liveEffectiveDelay blocksIn
  rw [length_filter_range']
  congr 1
  apply Finset.filter_congr
  intro s hs
  rw [Finset.mem_Ioc] at hs
  rw [Table.has, h.above s (by omega), rootAt, Option.isSome_map]

/-- The block of a slot carries the duty's vote. -/
def Carries (block : SlotBlocks) (spec : ChainSpec) (cmap : CommitteeMap) (duty : AttesterDuty) (epoch s : Nat) : Prop :=
  ∃ b, blockAt block s = some b ∧ b.voteOf spec cmap epoch duty.validatorIndex ≠ none

/-- `i` is the first of the slots of `[low, stop)` whose block carries the duty's vote. -/
structure FirstCarried (block : SlotBlocks) (spec : ChainSpec) (cmap : CommitteeMap) (duty : AttesterDuty)
    (epoch low stop i : Nat) : Prop where
  low_le : low ≤ i
  lt_stop : i < stop
  carries : Carries block spec cmap duty epoch i
  first : ∀ s, low ≤ s → s < i → ¬Carries block spec cmap duty epoch s

theorem FirstCarried.isSome {cmap : CommitteeMap} {duty : AttesterDuty} {epoch low stop i : Nat}
    (h : FirstCarried block spec cmap duty epoch low stop i) : (block i).isSome := by
  obtain ⟨b, hb, -⟩ := h.carries
  obtain ⟨rb, hrb, -⟩ := Option.map_eq_some_iff.1 hb
  rw [hrb]
  rfl

theorem FirstCarried.unique {cmap : CommitteeMap} {duty : AttesterDuty} {epoch low stop i j : Nat}
    (h : FirstCarried block spec cmap duty epoch low stop i) (h' : FirstCarried block spec cmap duty epoch low stop j) :
    i = j := by
  rcases Nat.lt_trichotomy i j with hlt | heq | hlt
  · exact absurd h.carries (h'.first i h.low_le hlt)
  · exact heq
  · exact absurd h'.carries (h.first j h'.low_le hlt)

/-- One slot without the vote is passed. -/
theorem FirstCarried.of_succ {cmap : CommitteeMap} {duty : AttesterDuty} {epoch low stop i : Nat}
    (hlow : ¬Carries block spec cmap duty epoch low) (h : FirstCarried block spec cmap duty epoch (low + 1) stop i) :
    FirstCarried block spec cmap duty epoch low stop i where
  low_le := by have := h.low_le; omega
  lt_stop := h.lt_stop
  carries := h.carries
  first s hs hi := by
    rcases Nat.eq_or_lt_of_le hs with rfl | hlt
    · exact hlow
    · exact h.first s hlt hi

/-- A walk over the slots from `low` to `stop` has found the first block that carries the vote, with the number of
slots skipped before it, or there is none. -/
structure Walked (block : SlotBlocks) (spec : ChainSpec) (cmap : CommitteeMap) (duty : AttesterDuty) (epoch low stop : Nat)
    (found : Option (AttestationInclusion × Nat)) : Prop where
  first : ∀ inc missed, found = some (inc, missed) → FirstCarried block spec cmap duty epoch low stop inc.inclusionSlot ∧
    missed = skippedIn block duty.slot inc.inclusionSlot
  nothing : found = none → ∀ s, low ≤ s → s < stop → ¬Carries block spec cmap duty epoch s

/-- A slot that does not carry the vote leaves the rest of the walk. -/
theorem Walked.of_succ {cmap : CommitteeMap} {duty : AttesterDuty} {epoch low stop : Nat}
    {found : Option (AttestationInclusion × Nat)} (hlow : ¬Carries block spec cmap duty epoch low)
    (h : Walked block spec cmap duty epoch (low + 1) stop found) : Walked block spec cmap duty epoch low stop found where
  first inc missed hf := ⟨(h.first inc missed hf).1.of_succ hlow, (h.first inc missed hf).2⟩
  nothing hf s h1 h2 := by
    rcases Nat.eq_or_lt_of_le h1 with rfl | hlt
    · exact hlow
    · exact h.nothing hf s hlt h2

/-- A block's inclusions name the duty's validator exactly if the block carries its vote. -/
theorem carries_iff_decoded {cmap : CommitteeMap} {duty : AttesterDuty} {epoch slot : Nat} {ctx : VoteContext}
    {b : SignedBeaconBlock} {incs : Inclusions} (hb : blockAt block slot = some b)
    (h : decodeInclusions spec b slot epoch cmap [duty.validatorIndex] (some ctx) .empty = .ok incs) :
    Carries block spec cmap duty epoch slot ↔ ∃ inc, incs.get duty.validatorIndex = some inc := by
  have hadds := decodeInclusions_adds h
  constructor
  · rintro ⟨b', hb', hvote⟩
    obtain rfl : b = b' := Option.some.inj (hb.symm.trans hb')
    obtain ⟨data, hdata⟩ := Option.ne_none_iff_exists'.1 hvote
    obtain ⟨inc, hinc, -⟩ := hadds.found _ (List.mem_singleton_self _) data rfl hdata
    exact ⟨inc, hinc⟩
  · rintro ⟨inc, hinc⟩
    obtain ⟨-, data, hvote, -⟩ := hadds.recorded rfl hinc
    exact ⟨b, hb, by rw [hvote]; simp⟩

/-- The walk from a duty stops at the first block that carries the vote and has counted the skipped slots it passed. -/
theorem reads_scanForward (h : ServedBy block node) (duty : AttesterDuty) (epoch : Nat) (cmap : CommitteeMap)
    (ctx : VoteContext) : ∀ n slot : Nat, duty.slot < slot →
    Reads (indexerSem spec node) (scanForward spec duty epoch cmap ctx n slot (skippedIn block duty.slot slot))
      (Walked block spec cmap duty epoch slot (slot + n)) := by
  intro n
  induction n with
  | zero => exact fun slot _ => Reads.pure ⟨fun _ _ hf => (by cases hf), fun _ s h1 h2 => by omega⟩
  | succ n ih =>
    intro slot hlt
    have hnext := ih (slot + 1) (by omega)
    rw [skippedIn_succ hlt, show slot + 1 + n = slot + (n + 1) by omega] at hnext
    unfold scanForward
    refine Reads.bind (reads_getBlockBySlot h slot) fun b hb => ?_
    cases hs : block slot with
    | none =>
      have hblock : blockAt block slot = none := by simp [blockAt, hs]
      obtain rfl : b = none := hb.trans hblock
      simp only [hs, Option.isNone_none, if_true] at hnext
      refine hnext.mono fun found hfound => hfound.of_succ ?_
      rintro ⟨b, hb', -⟩
      rw [hblock] at hb'
      cases hb'
    | some rb =>
      have hblock : blockAt block slot = some rb.2 := by simp [blockAt, hs]
      obtain rfl : b = some rb.2 := hb.trans hblock
      simp only [hs, Option.isNone_some, Bool.false_eq_true, if_false, Nat.add_zero] at hnext
      refine Reads.bind (reads_ofExcept fun incs hincs => hincs) fun incs hincs => ?_
      have hcarries := carries_iff_decoded hblock hincs
      cases hget : incs.get duty.validatorIndex with
      | none =>
        have hnot : ¬Carries block spec cmap duty epoch slot := fun hslot => by
          obtain ⟨inc, hinc⟩ := hcarries.1 hslot
          rw [hget] at hinc
          cases hinc
        exact hnext.mono fun found hfound => hfound.of_succ hnot
      | some inc =>
        obtain ⟨-, _, -, _, _, _, hinc⟩ := (decodeInclusions_adds hincs).recorded rfl hget
        have hslot : inc.inclusionSlot = slot := by rw [hinc]
        refine Reads.pure ⟨fun inc' missed hf => ?_, fun hf => (by cases hf)⟩
        obtain ⟨rfl, rfl⟩ := Prod.mk.inj (Option.some.inj hf)
        rw [hslot]
        exact ⟨⟨le_rfl, by omega, hcarries.2 ⟨inc, hget⟩, fun s h1 h2 => by omega⟩, rfl⟩

/-- The sparse scan finds the first block of the duty's window that carries the vote, if there is one. -/
theorem reads_scanForwardForInclusion (h : ServedBy block node) (duty : AttesterDuty) (cmap : CommitteeMap) :
    Reads (indexerSem spec node) (scanForwardForInclusion spec duty (spec.slotToEpoch duty.slot) cmap) fun found =>
      (∀ inc missed, found = some (inc, missed) → FirstCarried block spec cmap duty (spec.slotToEpoch duty.slot)
        (duty.slot + 1) (spec.epochStartSlot (spec.slotToEpoch duty.slot + 2)) inc.inclusionSlot ∧
        missed = skippedIn block duty.slot inc.inclusionSlot) ∧
      ∀ i, FirstCarried block spec cmap duty (spec.slotToEpoch duty.slot) (duty.slot + 1)
        (spec.epochStartSlot (spec.slotToEpoch duty.slot + 2)) i →
        ∃ inc missed, found = some (inc, missed) ∧ inc.inclusionSlot = i := by
  have hstop : duty.slot < spec.epochStartSlot (spec.slotToEpoch duty.slot + 2) := by
    rw [← spec.slotToEpoch_lt_iff]
    omega
  rw [scanForwardForInclusion_eq, ← @skippedIn_self_succ block duty.slot]
  refine Reads.bind (reads_sparseVoteContext h duty _) fun ctx _ =>
    (reads_scanForward h duty _ cmap ctx _ _ (by omega)).mono fun found hfound => ?_
  rw [show duty.slot + 1 + (spec.epochStartSlot (spec.slotToEpoch duty.slot + 2) - 1 - duty.slot) =
    spec.epochStartSlot (spec.slotToEpoch duty.slot + 2) by omega] at hfound
  refine ⟨hfound.first, fun i hi => ?_⟩
  cases found with
  | none => exact absurd hi.carries (hfound.nothing rfl i hi.low_le hi.lt_stop)
  | some x => exact ⟨x.1, x.2, rfl, (hfound.first x.1 x.2 rfl).1.unique hi⟩

/-- The effective inclusion delay of all three scans is the number of blocks after the duty's slot
up to the inclusion, at least one and at most the delay; what is taken out is less than the delay. The sparse scan
finds the first block of its window that carries the vote. -/
theorem effectiveDelays_blocksIn (h : ServedBy block node) (duty : AttesterDuty) (cmap : CommitteeMap)
    (finalized : Bool) (reward : Option ValidatorAttestationReward) {roots : Table Nat Root} {low : Nat}
    (hroots : Resolves block roots low) (hlow : low ≤ spec.epochStartSlot (spec.slotToEpoch duty.slot)) :
    Reads (indexerSem spec node)
      (fetchBlocksForSlots (List.range' (spec.epochStartSlot (spec.slotToEpoch duty.slot)) (spec.slotsPerEpoch * 2)))
      (fun allBlocks => ∀ i, duty.slot < i → i < spec.epochStartSlot (spec.slotToEpoch duty.slot + 2) → (block i).isSome →
        effectiveInclusionDelay duty.slot i (i - duty.slot) ((allBlocks.filter (·.2.isNone)).map (·.1)) =
          blocksIn block duty.slot i ∧
        ((List.range' (duty.slot + 1) (i - (duty.slot + 1))).filter
          ((allBlocks.filter (·.2.isNone)).map (·.1)).contains).length < i - duty.slot) ∧
    Reads (indexerSem spec node) (scanForwardForInclusion spec duty (spec.slotToEpoch duty.slot) cmap) (fun found =>
      (∀ i, FirstCarried block spec cmap duty (spec.slotToEpoch duty.slot) (duty.slot + 1)
        (spec.epochStartSlot (spec.slotToEpoch duty.slot + 2)) i →
        ∃ inc missed, found = some (inc, missed) ∧ inc.inclusionSlot = i) ∧
      ∀ inc missed, found = some (inc, missed) → FirstCarried block spec cmap duty (spec.slotToEpoch duty.slot)
        (duty.slot + 1) (spec.epochStartSlot (spec.slotToEpoch duty.slot + 2)) inc.inclusionSlot ∧
        missed < inc.inclusionSlot - duty.slot ∧
        (deriveSparseRow finalized duty reward (some (inc.inclusionSlot, missed))).effectiveInclusionDelay =
          some (blocksIn block duty.slot inc.inclusionSlot : Int)) ∧
    (∀ i, liveEffectiveDelay roots duty.slot i = blocksIn block duty.slot i) ∧
    ∀ i, duty.slot < i → (block i).isSome → 1 ≤ blocksIn block duty.slot i ∧ blocksIn block duty.slot i ≤ i - duty.slot := by
  have hcount : ∀ i, duty.slot < i → (block i).isSome → 1 ≤ blocksIn block duty.slot i ∧
      blocksIn block duty.slot i + skippedIn block duty.slot i = i - duty.slot :=
    fun i h hi => ⟨blocksIn_pos h hi, blocksIn_add_skippedIn h hi⟩
  have hstart := spec.epochStartSlot_slotToEpoch_le duty.slot
  refine ⟨?_, ?_, fun i => ?_, fun i hlt hi => ?_⟩
  · refine (reads_fetchBlocksForSlots h _).mono fun allBlocks hall i hlt hstop hi => ?_
    subst hall
    have hslots : ∀ s, duty.slot < s → s < i →
        s ∈ List.range' (spec.epochStartSlot (spec.slotToEpoch duty.slot)) (spec.slotsPerEpoch * 2) := by
      intro s hs hsi
      rw [spec.epochStartSlot_succ, spec.epochStartSlot_succ] at hstop
      rw [List.mem_range'_1]
      omega
    refine ⟨effectiveInclusionDelay_eq hlt hi hslots, ?_⟩
    rw [length_missedSlots hslots]
    have := hcount i hlt hi
    omega
  · refine (reads_scanForwardForInclusion h duty cmap).mono fun found hfound => ⟨hfound.2, fun inc missed hf => ?_⟩
    obtain ⟨hfirst, rfl⟩ := hfound.1 inc missed hf
    have hlt : duty.slot < inc.inclusionSlot := hfirst.low_le
    have := hcount _ hlt hfirst.isSome
    refine ⟨hfirst, by omega, ?_⟩
    simp only [deriveSparseRow, sparseDelays, Option.some.injEq]
    omega
  · exact liveEffectiveDelay_eq hroots (by omega)
  · have := hcount i hlt hi
    omega

/-- The sparse scan finds the vote of slot 1 in slot 3 after one skipped slot; all three scans give it the delay 1. -/
theorem effectiveDelays_blocksIn_skippedTwo :
    ∃ (allBlocks : List (Nat × Option SignedBeaconBlock)) (inc : AttestationInclusion) (db db' : Db),
      Exec (indexerSem fours fun q r => r = skippedTwoNode q) (fetchBlocksForSlots (List.range' 0 8)).run Db.empty
        (.ok allBlocks) db ∧
      effectiveInclusionDelay 1 3 2 ((allBlocks.filter (·.2.isNone)).map (·.1)) = 1 ∧
      Exec (indexerSem fours fun q r => r = skippedTwoNode q)
        (scanForwardForInclusion fours ⟨7, 0, 0, 1⟩ 0 (.ofList [((1, 0), [7])])).run Db.empty (.ok (some (inc, 1))) db' ∧
      inc.inclusionSlot = 3 ∧
      (deriveSparseRow true ⟨7, 0, 0, 1⟩ none (some (3, 1))).effectiveInclusionDelay = some 1 ∧
      liveEffectiveDelay skippedTwoRoots 1 3 = 1 := by
  have hspec := @effectiveDelays_blocksIn fours _ _ skippedTwo_servedBy ⟨7, 0, 0, 1⟩ (.ofList [((1, 0), [7])]) true none
    _ _ skippedTwo_resolves (Nat.zero_le _)
  obtain ⟨allBlocks, db, hdense, -⟩ := @exec_of_advance fours skippedTwoNode _ (fetchBlocksForSlots (List.range' 0 8)) 60
    Db.empty (fun _ _ => true) (by decide +kernel)
  obtain ⟨found, db', hsparse, hfound⟩ := @exec_of_advance fours skippedTwoNode _
    (scanForwardForInclusion fours ⟨7, 0, 0, 1⟩ 0 (.ofList [((1, 0), [7])])) 60 Db.empty
    (fun found _ => found.any fun x => x.1.inclusionSlot == 3 && x.2 == 1) (by decide +kernel)
  obtain ⟨⟨inc, missed⟩, rfl, hx⟩ := (Option.any_eq_true _ _).1 hfound
  simp only [Bool.and_eq_true, beq_iff_eq] at hx
  obtain ⟨hslot, rfl⟩ := hx
  have hall := (Ok.exec (hspec.1 Db.empty) hdense).1 3 (by decide) (by decide) (by decide)
  obtain ⟨-, -, heff⟩ := (Ok.exec (hspec.2.1 Db.empty) hsparse).1.2 inc 1 rfl
  rw [hslot] at heff
  exact ⟨allBlocks, inc, db, db', hdense, hall.1.trans (by decide), hsparse, hslot, heff, (hspec.2.2.1 3).trans (by decide)⟩

end SlotBlocks

end BeaconIndexer
