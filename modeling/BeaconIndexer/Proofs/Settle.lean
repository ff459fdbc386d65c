/-
What a pass does after its collection: reward jobs of canonical blocks, promotion from the stored
ancestry of the finalized checkpoint, and pruning behind the retry window.
-/
import BeaconIndexer.Proofs.Collect

namespace BeaconIndexer

open Effects Ancestry Relational

variable {spec : ChainSpec} {L : Ledger spec}

/-! ## Confirmed ancestry -/

section Ancestry

variable {blocks : List (Nat × Root × Root)} {root : Root}

/-- Listed blocks are real. -/
def Listed (L : Ledger spec) (blocks : List (Nat × Root × Root)) : Prop :=
  ∀ s r p, (s, r, p) ∈ blocks → ∃ b, L.block r = some b ∧ b.slot = s ∧ b.parentRoot = p

theorem blocksByRoot_get {s : Nat} {r p : Root} (h : (blocksByRoot blocks).get r = some (s, p)) : (s, r, p) ∈ blocks := by
  obtain ⟨⟨s', r', p'⟩, hmem, he⟩ := List.mem_map.1 (Table.mem_of_get_ofList h)
  cases he
  exact hmem

/-- A listed root whose block has a listed parent link leads to the parent. -/
theorem Listed.parent (hl : Listed L blocks) {s : Nat} {r p : Root} (hr : (s, r, p) ∈ blocks) (hs : 0 < s) :
    L.forest.parent r = some p := by
  obtain ⟨b, hb, rfl, rfl⟩ := hl s r p hr
  change L.parentOf r = _
  rw [Ledger.parentOf, hb, Option.bind_some, if_neg (by omega)]

/-- The walk lists stored ancestors and leaves none out above its last one. -/
theorem confirmedFrom_spec (hl : Listed L blocks) : ∀ (fuel child : Nat) (cursor : Root), child ≤ fuel →
    (∀ s r, (s, r) ∈ confirmedFrom (blocksByRoot blocks) fuel child cursor →
      L.forest.Anc cursor r ∧ s < child ∧ ∃ p, (s, r, p) ∈ blocks) ∧
    ∀ s₀ r₀, (s₀, r₀) ∈ confirmedFrom (blocksByRoot blocks) fuel child cursor → ∀ r, L.forest.Anc cursor r →
      s₀ ≤ L.slotOf r → r ∈ (confirmedFrom (blocksByRoot blocks) fuel child cursor).map Prod.snd
  | 0, child, cursor, _ => by simp [confirmedFrom]
  | fuel + 1, child, cursor, hle => by
    unfold confirmedFrom
    cases hg : (blocksByRoot blocks).get cursor with
    | none => simp
    | some e =>
      obtain ⟨slot, parent⟩ := e
      have hmem := blocksByRoot_get hg
      obtain ⟨b, hb, hbs, _⟩ := hl _ _ _ hmem
      have hslot : L.slotOf cursor = slot := (Ledger.slotOf_eq hb).trans hbs
      dsimp only
      by_cases hc : child ≤ slot
      · simp [hc]
      · obtain ⟨hsound, hfull⟩ := confirmedFrom_spec hl fuel slot parent (by omega)
        simp only [hc, if_false]
        constructor
        · intro s r hr
          rcases List.mem_cons.1 hr with he | hr
          · cases he
            exact ⟨.refl _, by omega, parent, hmem⟩
          · obtain ⟨ha, hlt, hp⟩ := hsound s r hr
            exact ⟨.parent (hl.parent hmem (by omega)) ha, by omega, hp⟩
        · intro s₀ r₀ h₀ r ha hle₀
          rw [List.map_cons]
          rcases ha.cases with rfl | ⟨p, hp, hpr⟩
          · exact List.mem_cons_self ..
          · refine List.mem_cons_of_mem _ ?_
            have hps : 0 < slot := by
              by_contra h0
              have hp : L.parentOf cursor = some p := hp
              rw [Ledger.parentOf, hb, Option.bind_some, if_pos (by omega)] at hp
              cases hp
            rw [hl.parent hmem hps] at hp
            cases hp
            have hfall : L.slotOf parent < L.slotOf cursor := L.forest.falls (hl.parent hmem hps)
            have hrp : L.slotOf r ≤ L.slotOf parent := hpr.height_le
            rcases List.mem_cons.1 h₀ with he | h₀
            · cases he
              omega
            · exact hfull s₀ r₀ h₀ r hpr hle₀

/-- The confirmed ancestry is a walk from just above the checkpoint block. -/
theorem confirmedAncestry_eq (blocks : List (Nat × Root × Root)) (root : Root) : confirmedAncestry blocks root = [] ∨
    ∃ n, confirmedAncestry blocks root = confirmedFrom (blocksByRoot blocks) n n root := by
  cases hg : (blocksByRoot blocks).get root with
  | none => exact Or.inl (by simp only [confirmedAncestry, hg])
  | some e =>
    refine Or.inr ⟨e.1 + 1, ?_⟩
    simp only [confirmedAncestry, confirmedFrom, hg]
    simp

theorem confirmedAncestry_spec (root : Root) (hl : Listed L blocks) :
    (∀ s r, (s, r) ∈ confirmedAncestry blocks root → L.forest.Anc root r ∧ ∃ p, (s, r, p) ∈ blocks) ∧
    ∀ s₀ r₀, (s₀, r₀) ∈ confirmedAncestry blocks root → ∀ r, L.forest.Anc root r → s₀ ≤ L.slotOf r →
      r ∈ (confirmedAncestry blocks root).map Prod.snd := by
  rcases confirmedAncestry_eq blocks root with h | ⟨n, h⟩
  · rw [h]
    exact ⟨fun _ _ hr => (by cases hr), fun _ _ hr => (by cases hr)⟩
  · rw [h]
    obtain ⟨hsound, hfull⟩ := confirmedFrom_spec hl n n root le_rfl
    exact ⟨fun s r hr => ⟨(hsound s r hr).1, (hsound s r hr).2.2⟩, hfull⟩

end Ancestry

/-! ## Reward jobs -/

section Jobs

variable {σ : Type} {C : Contract indexer σ} {proj : σ → Db} {V : View L} {cfg : LiveConfig spec} {tracked : List Nat}
  {reg : Nat → Nat → Prop} (h : PassSetting C proj V cfg tracked reg)
include h

theorem PassSetting.canonicalRoot (slot : Nat) (root : Root) :
    C.Always (canonicalRoot slot root) fun b => b = true → L.rootAt V.head slot = some root := by
  refine .bind (h.faces.getHeader fun a ha hc => ha hc) fun a ha => .pure fun hb => ?_
  simp only [ne_eq, decide_eq_true_eq] at hb
  rw [← hb.2.2]
  exact ha

theorem PassSetting.blockJobDependency (job : LiveJob) : C.Always (blockJobDependency job)
    fun d => job.slot = some d.1 ∧ L.rootAt V.head d.1 = some d.2.1 ∧ L.block d.2.1 = some d.2.2 := by
  unfold BeaconIndexer.blockJobDependency
  split
  · split
    · rename_i root _ slot hslot
      refine .bind (h.canonicalRoot _ _) fun b hb => .check fun hnot => .bind (h.faces.request fun a ha => ha) fun block hblock => ?_
      have hb := hb (by simpa using hnot)
      cases block with
      | none => exact .throw
      | some block => exact .pure ⟨hslot, hb, hblock block rfl⟩
    · exact .throw
  · exact .throw

/-- Requests and queries of a pass whose answers do not matter. -/
theorem PassSetting.grants : Grants C (fun op => op.reads = true) fun _ => True where
  node := h.faces.node
  db op s hop := h.promise op s (promise_read hop)
  active hs v hv := by
    rcases h.db hs with ⟨now, hr, _⟩ | ⟨⟨m, hr⟩, _⟩
    · exact indexerSem_active (show indexerSem spec (fun _ _ => True) _ _ _ _ from Or.inl ⟨now, hr, rfl⟩) v hv
    · cases hr
  eligible hs v hv := by
    rcases h.db hs with ⟨now, hr, _⟩ | ⟨⟨m, hr⟩, _⟩
    · exact indexerSem_eligible (show indexerSem spec (fun _ _ => True) _ _ _ _ from Or.inl ⟨now, hr, rfl⟩) v hv
    · cases hr
  sync _ _ _ _ := trivial

theorem PassSetting.collectAttestationJob {job : LiveJob} (hjob : job.component = .attestationRewards)
    (resolved : ResolvedChain) : C.Always (collectAttestationJob spec job resolved) fun _ => True := by
  unfold BeaconIndexer.collectAttestationJob
  dsimp only
  split
  · refine .bind (h.canonicalRoot _ _) fun _ _ => .check fun _ => .bind (h.grants.getStateRoot _) fun _ _ =>
      .bind (h.grants.fetchLiveAttestationRewards _ _) fun _ _ => .bind (h.grants.getStateRoot _) fun _ _ => .check fun _ =>
      .bind (h.canonicalRoot _ _) fun _ _ => .check fun _ => .bind (h.always fun _ => ?_) fun _ _ =>
      .ite (fun _ => .pure trivial) fun _ => h.always fun _ => trivial
    exact fun _ _ hne => absurd hjob hne
  · exact .throw

variable (hbranch : ∀ s, OnBranch L V.head (V.floor cfg) (proj s))
include hbranch

/-- The rewards written for a block are those of its proposer. -/
theorem PassSetting.persistLiveProposalRewards {slot : Nat} {root : Root} {block : SignedBeaconBlock}
    {rewards : BlockRewards} (hfloor : V.floor cfg ≤ slot) (hroot : L.rootAt V.head slot = some root)
    (hb : L.block root = some block) (hp : rewards.proposerIndex = block.proposerIndex) :
    C.Always (persistLiveProposalRewards slot rewards) fun _ => True := by
  unfold BeaconIndexer.persistLiveProposalRewards
  refine .check fun _ => .bind (always_ofExcept _) fun _ _ => .bind (always_ofExcept _) fun _ _ =>
    .bind (always_ofExcept _) fun _ _ => .bind (always_ofExcept _) fun _ _ => h.always fun s => ?_
  change ProposalPromise V slot _ (proj s)
  refine ⟨rfl, Or.inr ⟨rfl, root, block, hroot, hb, hp, fun r' hr' => ?_⟩⟩
  have := hbranch s slot r' hfloor hr'
  rw [hroot] at this
  exact (Option.some.inj this).symm

theorem PassSetting.collectJob {job : LiveJob} (hslot : ∀ s, job.slot = some s → V.floor cfg ≤ s)
    (resolved : ResolvedChain) : C.Always (collectJob spec job resolved) fun _ => True := by
  have complete : ∀ {payload slot root}, job.slot = some slot → L.rootAt V.head slot = some root →
      C.Always (statement (.completeJob job payload root)) fun _ => True := by
    intro payload slot root hs hr
    refine h.always fun _ s hs' _ => ?_
    rw [hs] at hs'
    cases hs'
    exact hr
  unfold BeaconIndexer.collectJob
  split
  · rename_i hjob
    exact h.collectAttestationJob hjob resolved
  · refine .bind (h.blockJobDependency job) fun (slot, root, block) ⟨hs, hr, hb⟩ => .bind (P := fun a =>
      a.data.proposerIndex = block.proposerIndex) (.bind (h.grants.getBlockRewardsByRoot _) fun a _ =>
      .check fun hne => .pure (by simpa using hne)) fun a ha => .check fun _ => .bind (h.canonicalRoot _ _) fun _ _ =>
      .check fun _ => .bind (complete hs hr) fun _ _ => h.persistLiveProposalRewards hbranch (hslot slot hs) hr hb ha
  · exact .bind (h.blockJobDependency job) fun (slot, root, _) ⟨hs, hr, _⟩ =>
      .bind (h.grants.fetchLiveSyncRewards _ _) fun _ _ => .check fun _ => .bind (h.canonicalRoot _ _) fun _ _ =>
      .check fun _ => .bind (complete hs hr) fun _ _ => h.always fun _ => trivial

theorem PassSetting.runJob {job : LiveJob} (hslot : ∀ s, job.slot = some s → V.floor cfg ≤ s)
    (resolved : ResolvedChain) : C.Always (runJob spec resolved job) fun _ => True := by
  refine .bind (h.collectJob hbranch hslot resolved).attempt fun r _ => ?_
  cases r with
  | ok a => exact .pure trivial
  | error e => exact h.always fun _ => trivial

omit hbranch in
/-- Selected slot jobs lie in the retry window. -/
theorem PassSetting.pendingJobs {e n : Nat} (he : V.floor cfg ≤ spec.epochStartSlot e) :
    C.Always (statement (.pendingJobs e n)) fun jobs => ∀ j ∈ jobs, ∀ s, j.slot = some s → V.floor cfg ≤ s := by
  refine .ask (fun s => h.promise _ s trivial) fun s r s' hsem a ha j hj slot hslot => ?_
  cases (ha : r = .ok a)
  rcases h.db hsem with ⟨now, hr, _⟩ | ⟨⟨m, hr⟩, _⟩
  · cases hr
    have hj := (List.mem_insertionSort _).1 (List.mem_of_mem_take hj)
    obtain ⟨g, hg, rfl⟩ := List.mem_map.1 hj
    obtain ⟨⟨k, row⟩, hk, rfl⟩ := List.mem_map.1 (List.mem_dedup.1 hg)
    obtain ⟨hget, hsel⟩ := Table.mem_select.1 hk
    simp only [Bool.and_eq_true, decide_eq_true_eq] at hsel
    have hep := (h.grounded s).jobs k row slot hget hslot
    have : spec.epochStartSlot e ≤ slot := by
      rw [← spec.le_slotToEpoch_iff, ← hep]
      exact hsel.2
    omega
  · cases hr

end Jobs

/-! ## Finality -/

/-- The confirmed roots are stored, and every validator tracked so far is among `vs`. -/
structure Confirmed (L : Ledger spec) (roots : List Root) (vs : List Nat) (d : Db) : Prop where
  stored : ∀ r ∈ roots, d.storedRoot (L.slotOf r) = some r
  tracked : ∀ v, d.liveTrackingStart.has v = true → v ∈ vs

theorem Confirmed.rely {roots : List Root} {vs : List Nat} {d d' : Db} (h : LiveRely d d') (hc : Confirmed L roots vs d) :
    Confirmed L roots vs d' :=
  ⟨fun r hr => (h.storedRoot _).trans (hc.stored r hr), fun v hv => hc.tracked v (h.tracking ▸ hv)⟩

def Effect.isRequest : Effect → Prop
  | .node _ => True
  | .db _ => False

/-- The effect leaves stored blocks and tracked validators alone. -/
def Effect.keepsChain : Effect → Prop
  | .node _ => True
  | .db op => op.writesBlocks = false ∧ op.writesTracking = false

theorem Confirmed.exec {roots : List Root} {vs : List Nat} {d : Db} {op : DbOp} {now : Nat}
    (hop : (Effect.db op).keepsChain) (hc : Confirmed L roots vs d) : Confirmed L roots vs (op.exec spec now d) := by
  obtain ⟨hb, ht⟩ := hop
  refine ⟨fun r hr => ?_, fun v hv => ?_⟩
  · unfold Db.storedRoot
    rw [DbOp.exec_blocks hb]
    exact hc.stored r hr
  · rw [DbOp.exec_tracking ht] at hv
    exact hc.tracked v hv

section Finality

variable {σ : Type} {C : Contract indexer σ} {proj : σ → Db} {V : View L} {cfg : LiveConfig spec} {tracked : List Nat}
  {reg : Nat → Nat → Prop} (h : PassSetting C proj V cfg tracked reg)
include h

theorem PassSetting.requests : Grants (C.withGuar fun e _ => e.isRequest) (fun _ => False) fun _ => True where
  node _ _ := trivial
  db _ _ hop := hop.elim
  active := h.grants.active
  eligible := h.grants.eligible
  sync _ _ _ _ := trivial

/-- A program that only sends requests leaves what is known of the database. -/
theorem PassSetting.keepState {α : Type} {x : Task α} {P : α → Prop} (hx : C.Always x P)
    (hg : (C.withGuar fun e _ => e.isRequest).Always x fun _ => True) {I : Db → Prop}
    (hI : ∀ d d', LiveRely d d' → I d → I d') {s : σ} (hs : I (proj s)) :
    C.Ok x s (fun a s' => P a ∧ I (proj s')) fun _ s' => I (proj s') := by
  refine ((hx s).keep (I := fun s => I (proj s)) ((hg s).mono (fun _ _ _ => trivial) fun _ _ _ => trivial)
    (fun s s' hr hs => hI _ _ (h.rely hr) hs) (fun e s r s' hk hsem hs => ?_) hs).mono (fun _ _ hq => hq) fun _ _ hq => hq.2
  cases e with
  | node q => exact h.node hsem ▸ hs
  | db op => exact hk.elim

/-- What a program that leaves blocks and tracking alone keeps. -/
theorem PassSetting.keepConfirmed {α : Type} {x : Task α} {s : σ} {Q : α → σ → Prop} {Z : Error → σ → Prop}
    {roots : List Root} {vs : List Nat} (hx : C.Ok x s Q Z)
    (hg : (C.withGuar fun e _ => e.keepsChain).Always x fun _ => True) (hc : Confirmed L roots vs (proj s)) :
    C.Ok x s (fun a s' => Q a s' ∧ Confirmed L roots vs (proj s')) fun e s' => Z e s' ∧ Confirmed L roots vs (proj s') := by
  refine hx.keep ((hg s).mono (fun _ _ _ => trivial) fun _ _ _ => trivial) (fun s s' hr hc => hc.rely (h.rely hr))
    (fun e s r s' hk hsem hc => ?_) hc
  cases e with
  | node q => exact h.node hsem ▸ hc
  | db op =>
    rcases h.db hsem with ⟨now, _, hdb⟩ | ⟨_, hdb⟩
    · exact hdb ▸ hc.exec hk
    · exact hdb ▸ hc

theorem PassSetting.keepsChain : Grants (C.withGuar fun e _ => e.keepsChain)
    (fun op => op.writesBlocks = false ∧ op.writesTracking = false) fun _ => True where
  node _ _ := trivial
  db _ _ hop := hop
  active := h.grants.active
  eligible := h.grants.eligible
  sync _ _ _ _ := trivial

omit h in
/-- The checkpoint block is on the head's chain, so its ancestors are the resolved blocks. -/
theorem finalized_root (V : View L) {r : Root} (hr : L.forest.Anc V.finalized.root r) :
    L.rootAt V.head (L.slotOf r) = some r :=
  Ledger.rootAt_iff.2 ⟨(Forest.below_iff.1 V.boundary).1.trans hr, rfl⟩

variable {resolved : ResolvedChain} {low : Nat} (hc : resolved.Covers L V.head low)
include hc

theorem PassSetting.repairDetails {roots : List Root} (hroots : ∀ r ∈ roots, L.forest.Anc V.finalized.root r)
    {vs slots : List Nat} (hslots : ∀ s ∈ slots, ∃ r ∈ roots, L.slotOf r = s) {s : σ}
    (hs : Confirmed L roots vs (proj s)) :
    C.Ok (repairDetails spec vs resolved slots) s (fun _ s' => Confirmed L roots vs (proj s')) fun _ _ => True := by
  refine Contract.Ok.each (fun _ s => Confirmed L roots vs (proj s)) (fun _ _ _ hr hs => hs.rely (h.rely hr))
    (fun _ slot hslot s hs => ?_) [] s hs
  obtain ⟨r, hr, rfl⟩ := hslots slot hslot
  have hroot := finalized_root V (hroots r hr)
  split
  · rename_i block hblock
    unfold ResolvedChain.blocks at hblock
    rw [Table.get_mapVal] at hblock
    obtain ⟨⟨r', b⟩, he, rfl⟩ := Option.map_eq_some_iff.1 hblock
    obtain ⟨_, hr', hb⟩ := hc.entry he
    rw [hroot] at hr'
    obtain rfl := Option.some.inj hr'
    have hbs : b.slot = L.slotOf r := (Ledger.slotOf_eq hb).symm
    have haround : Around V b.slot (fun _ _ => False) (proj s) := by
      refine ⟨?_, fun _ _ hf => hf.elim⟩
      rw [hbs, hroot, hs.stored r hr]
    have hscan := h.scanLiveAttestationsInSlot (r := r) hc (by rw [hbs]; exact hroot) hb vs
      (fun (_ : true = true) => hroots r hr) haround
    have hkeep := h.keepConfirmed hscan (h.keepsChain.scanLiveAttestationsInSlot spec vs b resolved.roots
      (fun _ _ _ _ => ⟨rfl, rfl⟩) fun _ _ _ _ => ⟨rfl, rfl⟩) hs
    exact .bind (.attempt (hkeep.mono (fun _ _ hq => .pure fun s' hr => hq.2.rely (h.rely hr))
      fun _ _ hq => .pure fun s' hr => hq.2.rely (h.rely hr)))
  · exact .pure fun s' hr => hs.rely (h.rely hr)

omit hc in
/-- A query with what is known of its answer. -/
theorem PassSetting.query (op : DbOp) (hop : op.reads = true) {P : Db → Prop} {I : op.Answer → Db → Prop} {s : σ}
    (hP : ∀ d d', LiveRely d d' → P d → P d') (hI : ∀ a d d', LiveRely d d' → I a d → I a d') (hs : P (proj s))
    (ha : ∀ now d, Grounded L d → P d → I (op.answer spec now d) d) :
    C.Ok (statement op) s (fun a s' => I a (proj s')) fun _ _ => True := by
  have hexec : ∀ now d, op.exec spec now d = d := by
    intro now d
    cases op <;> first | rfl | cases hop
  refine .ask (fun s _ => h.promise _ s (promise_read hop)) fun s₁ r s₂ s₃ h1 hsem h3 => ?_
  rcases h.db hsem with ⟨now, rfl, hdb⟩ | ⟨⟨m, rfl⟩, _⟩
  · refine hI _ _ _ (h.rely h3) ?_
    rw [hdb, hexec]
    exact ha now _ (h.grounded s₁) (hP _ _ (h.rely h1) hs)
  · trivial

omit h hc in
theorem mem_recentBlocks {d : Db} {m s : Nat} {r p : Root} :
    (s, r, p) ∈ d.recentBlocks m ↔ m ≤ s ∧ d.liveBlocks.get s = some ⟨r, p⟩ := by
  unfold Db.recentBlocks
  rw [List.mem_insertionSort, List.mem_map]
  constructor
  · rintro ⟨⟨s', b⟩, hb, he⟩
    obtain ⟨hb, hm⟩ := Table.mem_select.1 hb
    cases he
    exact ⟨by simpa using hm, hb⟩
  · rintro ⟨hm, hb⟩
    exact ⟨(s, ⟨r, p⟩), Table.mem_select.2 ⟨hb, by simpa using hm⟩, rfl⟩

omit hc in
/-- The stored blocks, as long as nothing changes them. -/
theorem PassSetting.recentBlocks (m : Nat) (s : σ) :
    C.Ok (statement (.recentBlocks m)) s (fun blocks s' => blocks = (proj s').recentBlocks m ∧
      Listed L ((proj s').recentBlocks m)) fun _ _ => True := by
  have hI : ∀ (blocks : List (Nat × Root × Root)) (d d' : Db), LiveRely d d' →
      blocks = d.recentBlocks m ∧ Listed L (d.recentBlocks m) → blocks = d'.recentBlocks m ∧ Listed L (d'.recentBlocks m) := by
    intro blocks d d' hl ha
    unfold Db.recentBlocks
    rw [hl.blocks]
    exact ha
  exact h.query (.recentBlocks m) rfl (P := fun _ => True) (I := fun blocks d => blocks = d.recentBlocks m ∧
    Listed L (d.recentBlocks m)) (fun _ _ _ _ => trivial) hI trivial fun now d hg _ =>
    ⟨rfl, fun slot r p hmem => hg.blocks slot ⟨r, p⟩ (mem_recentBlocks.1 hmem).2⟩

/-- Repair and promotion, once the confirmed ancestry is known. -/
theorem PassSetting.promoteConfirmed {target floor : Nat} {roots : List Root} {s : σ}
    (htarget : target + 2 = V.finalized.epoch) (hroots : ∀ r ∈ roots, L.forest.Anc V.finalized.root r)
    (hfull : ∀ s r, floor ≤ s → L.rootAt V.finalized.root s = some r → r ∈ roots)
    (hstored : ∀ r ∈ roots, (proj s).storedRoot (L.slotOf r) = some r) :
    C.Ok (do
      let indices ← statement .trackedValidators
      let repairSlots ← statement (.repairSlots roots (resolved.minSlot.getD 0))
      BeaconIndexer.repairDetails spec indices resolved repairSlots
      let _ ← statement (.promoteCollected ⟨indices, target, V.finalized.epoch, floor, roots⟩)
      pure ()) s (fun _ _ => True) fun _ _ => True := by
  have tracked : C.Ok (statement .trackedValidators) s (fun vs s' => Confirmed L roots vs (proj s')) fun _ _ => True := by
    refine h.query .trackedValidators rfl (P := fun d => ∀ r ∈ roots, d.storedRoot (L.slotOf r) = some r) (fun d d' hl hs r hr =>
      (hl.storedRoot _).trans (hs r hr)) (fun _ _ _ hl hc => hc.rely hl) hstored fun now d _ hs => ⟨hs, fun v hv => ?_⟩
    obtain ⟨e, he⟩ := Table.has_iff.1 hv
    exact (List.mem_insertionSort _).2 (List.mem_map.2 ⟨(v, e), Table.mem_rows.2 he, rfl⟩)
  refine .bind (tracked.imp fun indices s₁ hs₁ => .bind ((h.query (.repairSlots _ _) rfl (P := Confirmed L roots indices)
    (I := fun slots d => Confirmed L roots indices d ∧ ∀ s ∈ slots, ∃ r ∈ roots, L.slotOf r = s)
    (fun _ _ hl hc => hc.rely hl) (fun _ _ _ hl hc => ⟨hc.1.rely hl, hc.2⟩) hs₁ fun now d hg hd => ⟨hd, ?_⟩).imp
    fun slots s₂ ⟨hs₂, hslots⟩ => .bind ((h.repairDetails hc hroots hslots hs₂).imp fun _ s₃ hs₃ => .bind
    ((h.write (P := Confirmed L roots indices) (R := fun _ => True) (fun _ _ hl hc => hc.rely hl)
    (fun _ _ _ _ => trivial) hs₃ (fun d _ hd => ?_) fun _ _ _ => trivial).mono (fun _ _ _ => .pure fun _ _ => trivial)
    fun _ _ _ => trivial))))
  · -- a repair slot has a confirmed stored block
    intro slot hslot
    have hslot := (List.mem_insertionSort _).1 (List.mem_of_mem_take hslot)
    obtain ⟨⟨k, a⟩, _, hsel⟩ := List.mem_filterMap.1 (List.mem_dedup.1 hslot)
    dsimp only at hsel
    split at hsel
    · split at hsel
      · rename_i hcond
        cases hsel
        simp only [Bool.and_eq_true, Option.any_eq_true, List.contains_iff_mem] at hcond
        obtain ⟨r, hr, hmem⟩ := hcond.1.1.2
        obtain ⟨p, hp⟩ := (Db.storedRoot_eq_some _).1 hr
        obtain ⟨b, hb, hbs, _⟩ := hg.blocks _ _ hp
        exact ⟨r, hmem, by rw [Ledger.slotOf_eq hb, hbs]⟩
      · cases hsel
    · cases hsel
  · exact ⟨htarget, rfl, hd.tracked, fun r hr => ⟨hroots r hr, hd.stored r hr⟩, hfull⟩

/-- Promotion rests on the stored ancestry of the checkpoint, for every tracked validator. -/
theorem PassSetting.finalizeCollectedEvidence :
    C.Always (finalizeCollectedEvidence spec V.finalized resolved) fun _ => True := by
  intro s
  unfold BeaconIndexer.finalizeCollectedEvidence
  cases htarget : ChainSpec.finalizedScanTarget V.finalized.epoch with
  | none => exact .pure fun _ _ => trivial
  | some target =>
    have htarget : target + 2 = V.finalized.epoch := by
      unfold ChainSpec.finalizedScanTarget at htarget
      split at htarget
      · obtain rfl := Option.some.inj htarget
        omega
      · cases htarget
    refine .bind ((h.grants.getHeader _ s).imp fun a s₁ _ => .check (fun _ _ _ => trivial) fun _ =>
      .bind ((h.recentBlocks 0 s₁).imp fun blocks s₂ ⟨hblocks, hlist⟩ => ?_))
    subst hblocks
    obtain ⟨hsound, hfull⟩ := confirmedAncestry_spec V.finalized.root hlist
    have hmem : ∀ r ∈ (confirmedAncestry ((proj s₂).recentBlocks 0) V.finalized.root).map Prod.snd, ∃ slot p,
        L.forest.Anc V.finalized.root r ∧ (slot, r, p) ∈ (proj s₂).recentBlocks 0 ∧ L.slotOf r = slot := by
      intro r hr
      obtain ⟨⟨slot, r'⟩, hmem, rfl⟩ := List.mem_map.1 hr
      obtain ⟨ha, p, hp⟩ := hsound slot r' hmem
      obtain ⟨b, hb, hslot, _⟩ := hlist slot r' p hp
      exact ⟨slot, p, ha, hp, by rw [Ledger.slotOf_eq hb, hslot]⟩
    dsimp only
    split
    · rename_i floor hmin
      obtain ⟨⟨s₀, r₀⟩, hfloor, rfl⟩ := List.mem_map.1 (List.min?_eq_some_iff.1 hmin).1
      refine h.promoteConfirmed hc htarget (fun r hr => ?_) (fun slot r hle hr => ?_) fun r hr => ?_
      · obtain ⟨_, _, ha, _⟩ := hmem r hr
        exact ha
      · obtain ⟨ha, rfl⟩ := Ledger.rootAt_iff.1 hr
        exact hfull s₀ r₀ hfloor r ha hle
      · obtain ⟨slot, p, _, hp, rfl⟩ := hmem r hr
        exact (Db.storedRoot_eq_some _).2 ⟨p, (mem_recentBlocks.1 hp).2⟩
    · exact .pure fun _ _ => trivial

/-! ## The whole of it -/

omit hc in
theorem PassSetting.enqueueRewardEpoch (e : Nat) : C.Always (enqueueRewardEpoch tracked e) fun _ => True :=
  .bind h.readActive fun _ hactive => .bind (h.grants.eligibleForLiveEpoch rfl) fun _ hsub => h.always fun _ =>
    ⟨fun _ hs => (by cases hs), fun _ v hv => ((hactive v).1 (hsub v hv)).2⟩

/-- Everything after the collection keeps the promises of the pass. -/
theorem PassSetting.settle (hbranch : ∀ s, OnBranch L V.head (V.floor cfg) (proj s)) {head : HeaderData}
    (hhead : head.slot = L.slotOf V.head) : C.Always (settle spec cfg tracked head resolved) fun _ => True := by
  have hfloor : V.floor cfg = spec.epochStartSlot (spec.slotToEpoch head.slot - cfg.retryWindowEpochs) := by
    rw [hhead]
    rfl
  unfold BeaconIndexer.settle
  dsimp only
  generalize spec.slotToEpoch head.slot - cfg.retryWindowEpochs = minEpoch at hfloor
  have rest : C.Always (do
      BeaconIndexer.statement (.expireJobs minEpoch)
      let jobs ← BeaconIndexer.statement (.pendingJobs minEpoch 12)
      each (BeaconIndexer.runJob spec resolved) jobs
      let finality ← BeaconIndexer.getFinalityCheckpoints (.root head.stateRoot)
      if finality.executionOptimistic = some true then
        throw (.inconsistentBeaconData "Optimistic finality response")
      BeaconIndexer.finalizeCollectedEvidence spec finality.data.finalized resolved
      let retainEpoch := min minEpoch (finality.data.finalized.epoch - 2)
      BeaconIndexer.statement (.pruneCompletedEvidence retainEpoch)
      BeaconIndexer.request (.pruneInputsBefore retainEpoch)
      BeaconIndexer.statement .reportProgress) fun _ => True := by
    have finality : C.Always (BeaconIndexer.getFinalityCheckpoints (.root head.stateRoot))
        fun a => a.data.finalized = V.finalized :=
      .bind (h.faces.request (q := .finalityCheckpoints (.root head.stateRoot)) fun a ha => ha) fun a ha =>
        .bind (always_ensureNotOptimistic _) fun _ _ => .pure ha
    refine .bind (h.always fun _ => trivial) fun _ _ => .bind (h.pendingJobs hfloor.le) fun jobs hjobs =>
      .bind (.each fun job hjob => h.runJob hbranch (hjobs job hjob) resolved) fun _ _ => .bind finality fun a ha =>
      .check fun _ => ?_
    rw [ha]
    refine .bind (h.finalizeCollectedEvidence hc) fun _ _ => .bind (h.always fun _ => ⟨?_, by omega⟩) fun _ _ =>
      .bind (h.grants.request _) fun _ _ => h.read rfl
    rw [hfloor]
    exact spec.epochStartSlot_mono (by omega)
  split
  · exact .bind (.each fun e _ => h.enqueueRewardEpoch e) fun _ _ => rest
  · exact rest

end Finality

end BeaconIndexer
