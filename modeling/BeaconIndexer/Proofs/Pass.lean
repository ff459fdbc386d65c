/-
One reconcile pass against a coherent node: every statement it issues keeps the promises of the
pass, and a pass that ends without rolling back leaves the stored blocks of its window on the
head's chain.
-/
import BeaconIndexer.Proofs.Settle

namespace BeaconIndexer

open Effects Ancestry Relational

variable {spec : ChainSpec} {L : Ledger spec}

/-! ## Skipped slots -/

/-- A covered slot without a stored block has no block on the head's chain. -/
def SkipTrue (L : Ledger spec) (head : Root) (s : Nat) (db : Db) : Prop :=
  ∀ v, db.covered v s = true → db.storedRoot s = none → L.rootAt head s = none

theorem SkipTrue.rely {head : Root} {s : Nat} {db db' : Db} (h : LiveRely db db') (hs : SkipTrue L head s db) :
    SkipTrue L head s db' := by
  intro v hv hn
  refine hs v ?_ ((h.storedRoot s).symm.trans hn)
  unfold Db.covered at hv ⊢
  rw [← h.coverage]
  exact hv

section Exec

variable {V : View L} {cfg : LiveConfig spec} {tracked : List Nat} {reg : Nat → Nat → Prop} {now : Nat} {op : DbOp}
  {db : Db} {s : Nat}

/-- Coverage comes from the database or from `record_coverage`. -/
theorem exec_coverage_sub {v : Nat} (h : (op.exec spec now db).covered v s = true) :
    db.covered v s = true ∨ ∃ vs, op = .recordCoverage vs s ∧ v ∈ vs := by
  by_cases hw : op.writesCoverage = true
  · rw [Db.covered_iff] at h
    cases op with
    | recordCoverage vs s' =>
      replace h : (db.liveCoverage.insertAll (vs.map (·, s')) ()).get (v, s) = some () := h
      rw [Table.get_insertAll] at h
      cases hg : db.liveCoverage.get (v, s) with
      | some u => exact Or.inl ((db.covered_iff).2 hg)
      | none =>
        rw [hg, Option.none_or] at h
        split at h
        · rename_i hm
          obtain ⟨v', hv', he⟩ := List.mem_map.1 hm
          cases he
          exact Or.inr ⟨vs, rfl, hv'⟩
        · cases h
    | invalidateFrom r =>
      replace h : (db.liveCoverage.deleteWhere _).get (v, s) = some () := h
      rw [Table.get_deleteWhere] at h
      exact Or.inl ((db.covered_iff).2 (Option.filter_eq_some_iff.1 h).1)
    | pruneCompletedEvidence e =>
      replace h : (db.liveCoverage.deleteWhere _).get (v, s) = some () := h
      rw [Table.get_deleteWhere] at h
      exact Or.inl ((db.covered_iff).2 (Option.filter_eq_some_iff.1 h).1)
    | _ => cases hw
  · unfold Db.covered at h
    rw [DbOp.exec_coverage (by simpa using hw)] at h
    exact Or.inl h

/-- Pruning keeps the blocks from the retained epoch on. -/
theorem prune_blocks_get {e : Nat} (hs : spec.epochStartSlot e ≤ s) :
    (db.pruneCompletedEvidence spec e).liveBlocks.get s = db.liveBlocks.get s := by
  unfold Db.pruneCompletedEvidence
  dsimp only
  rw [Table.get_deleteWhere]
  have keep : ((db.liveBlocks.select fun s _ => decide (s < spec.epochStartSlot e)).map Prod.fst).max?.any
      (s < ·) = false := by
    cases ha : ((db.liveBlocks.select fun s _ => decide (s < spec.epochStartSlot e)).map Prod.fst).max? with
    | none => rfl
    | some a =>
      -- the anchor precedes the retained range
      obtain ⟨⟨a', row⟩, hmem, rfl⟩ := List.mem_map.1 (List.max?_mem ha)
      have hlt := (Table.mem_select.1 hmem).2
      simp only [decide_eq_true_eq] at hlt
      simp only [Option.any_some, decide_eq_false_iff_not]
      omega
  rw [keep]
  cases db.liveBlocks.get s <;> simp

/-- A stored block is never forgotten without the coverage of its slot. -/
theorem exec_storedRoot_of_covered {v : Nat} (hv : (op.exec spec now db).covered v s = true)
    (hn : (op.exec spec now db).storedRoot s = none) : db.storedRoot s = none := by
  by_cases hw : op.writesBlocks = true
  · cases op with
    | recordBlock s' r p =>
      change (db.recordBlock s' r p).storedRoot s = none at hn
      rw [recordBlock_storedRoot] at hn
      split at hn
      · cases hn
      · exact hn
    | invalidateFrom r =>
      replace hv := (Db.covered_iff _).1 hv
      replace hv : (db.liveCoverage.deleteWhere _).get (v, s) = some () := hv
      rw [Table.get_deleteWhere] at hv
      have hlt := (Option.filter_eq_some_iff.1 hv).2
      simp only [Bool.not_eq_true', decide_eq_false_iff_not, not_le] at hlt
      replace hn : ((db.liveBlocks.deleteWhere _).get s).map (·.root) = none := hn
      rw [Table.get_deleteWhere, Option.map_eq_none_iff] at hn
      cases hg : db.liveBlocks.get s with
      | none => simp [Db.storedRoot, hg]
      | some row =>
        rw [hg] at hn
        simp [hlt] at hn
    | pruneCompletedEvidence e =>
      replace hv := (Db.covered_iff _).1 hv
      replace hv : (db.liveCoverage.deleteWhere _).get (v, s) = some () := hv
      rw [Table.get_deleteWhere] at hv
      have hle := (Option.filter_eq_some_iff.1 hv).2
      simp only [Bool.not_eq_true', decide_eq_false_iff_not, not_lt] at hle
      change ((db.pruneCompletedEvidence spec e).liveBlocks.get s).map (·.root) = none at hn
      rw [prune_blocks_get hle] at hn
      exact hn
    | _ => cases hw
  · unfold Db.storedRoot at hn ⊢
    rw [DbOp.exec_blocks (by simpa using hw)] at hn
    exact hn

theorem SkipTrue.exec (hp : LivePromise V cfg tracked reg op db) (_ : V.floor cfg ≤ s) (hskip : SkipTrue L V.head s db) :
    SkipTrue L V.head s (op.exec spec now db) := by
  intro v hv hn
  have hn' := exec_storedRoot_of_covered hv hn
  rcases exec_coverage_sub hv with hv | ⟨vs, rfl, _⟩
  · exact hskip v hv hn'
  · have hstored : db.storedRoot s = L.rootAt V.head s := hp.2.2.2.1
    rw [← hstored]
    exact hn'

end Exec

/-! ## What a pass notices -/

/-- Stored blocks make the pass roll back, or leave the old range, over the slot `s`: a stored block
of the window is off the head's chain, or, when the cursor is behind the window, the newest one is. -/
def Noticed (V : View L) (cfg : LiveConfig spec) (cursor : Cursor) (db : Db) (s : Nat) : Prop :=
  if cursor.any (· < V.floor cfg) then
    ∃ first tip, (db.recentBlocks 0).head? = some first ∧ (db.recentBlocks 0).getLast? = some tip ∧
      reorgReplayStart spec first.1 ≤ s ∧ (¬ L.forest.Anc V.head tip.2.1 ∨ ¬ OnBranch L V.head (V.floor cfg) db)
  else ¬ OnBranch L V.head (V.floor cfg) db

/-- What a pass that collects, begun on `db₀`, keeps true from the mismatch check on. -/
structure Collecting (V : View L) (cfg : LiveConfig spec) (cursor : Cursor) (db₀ db : Db) : Prop where
  branch : OnBranch L V.head (V.floor cfg) db
  skips : ∀ s, V.floor cfg ≤ s → Noticed V cfg cursor db₀ s → SkipTrue L V.head s db

/-- What holds once the old range is left: nothing was noticed yet, or the coverage is gone. -/
def LeftRange (V : View L) (cfg : LiveConfig spec) (cursor : Cursor) (db₀ db : Db) : Prop :=
  (db.liveBlocks = db₀.liveBlocks ∧ (cursor.any (· < V.floor cfg) = true → ∀ tip,
      (db₀.recentBlocks 0).getLast? = some tip → L.forest.Anc V.head tip.2.1)) ∨
  (cursor.any (· < V.floor cfg) = true ∧ ∃ first, (db₀.recentBlocks 0).head? = some first ∧
      ∀ v s, reorgReplayStart spec first.1 ≤ s → db.covered v s = false)

theorem OnBranch.congr {head : Root} {floor : Nat} {d d' : Db} (h : d'.liveBlocks = d.liveBlocks)
    (hb : OnBranch L head floor d) : OnBranch L head floor d' := by
  intro s r hs hr
  refine hb s r hs ?_
  unfold Db.storedRoot at hr ⊢
  rw [← h]
  exact hr

theorem LeftRange.rely {V : View L} {cfg : LiveConfig spec} {cursor : Cursor} {db₀ d d' : Db} (h : LiveRely d d')
    (hl : LeftRange V cfg cursor db₀ d) : LeftRange V cfg cursor db₀ d' := by
  rcases hl with ⟨hb, ht⟩ | ⟨hc, first, hf, hn⟩
  · exact Or.inl ⟨h.blocks.trans hb, ht⟩
  · refine Or.inr ⟨hc, first, hf, fun v s hs => ?_⟩
    unfold Db.covered
    rw [h.coverage]
    exact hn v s hs

/-- Once the stored blocks of the window prove to be on the branch, what was noticed is gone. -/
theorem LeftRange.collecting {V : View L} {cfg : LiveConfig spec} {cursor : Cursor} {db₀ d : Db}
    (hl : LeftRange V cfg cursor db₀ d) (hb : OnBranch L V.head (V.floor cfg) d) : Collecting V cfg cursor db₀ d := by
  refine ⟨hb, fun s hs hnot v hv hn => ?_⟩
  unfold Noticed at hnot
  rcases hl with ⟨hblocks, htip⟩ | ⟨hc, first, hf, hcov⟩
  · have hb₀ : OnBranch L V.head (V.floor cfg) db₀ := hb.congr hblocks.symm
    split at hnot
    · rename_i hc
      obtain ⟨_, tip, _, ht, _, hoff | hoff⟩ := hnot
      · exact absurd (htip hc tip ht) hoff
      · exact absurd hb₀ hoff
    · exact absurd hb₀ hnot
  · rw [if_pos hc] at hnot
    obtain ⟨first', _, hf', _, hle, _⟩ := hnot
    rw [hf] at hf'
    cases hf'
    rw [hcov v s hle] at hv
    cases hv

/-! ## The pass -/

section Pass

variable {σ : Type} {C : Contract indexer σ} {proj : σ → Db} {V : View L} {cfg : LiveConfig spec} {tracked : List Nat}
  {reg : Nat → Nat → Prop} (h : PassSetting C proj V cfg tracked reg)
include h

theorem PassSetting.rollback (s : Nat) : C.AlwaysMem (rollback spec s) :=
  .bind (.lift (h.always fun _ => ⟨_, rfl⟩)) fun _ => .store

/-- A rollback leaves no coverage from its replay slot on. -/
theorem PassSetting.invalidateFrom (first : Nat) (s : σ) :
    C.Ok (statement (.invalidateFrom (reorgReplayStart spec first))) s
      (fun _ s' => ∀ v slot, reorgReplayStart spec first ≤ slot → (proj s').covered v slot = false) fun _ _ => True := by
  have hrel : ∀ d d' : Db, LiveRely d d' → (∀ v slot, reorgReplayStart spec first ≤ slot → d.covered v slot = false) →
      ∀ v slot, reorgReplayStart spec first ≤ slot → d'.covered v slot = false := by
    intro d d' hl hd v slot hle
    unfold Db.covered
    rw [hl.coverage]
    exact hd v slot hle
  have hexec : ∀ (d : Db) v slot, reorgReplayStart spec first ≤ slot →
      (d.invalidateFrom spec (reorgReplayStart spec first)).covered v slot = false := by
    intro d v slot hle
    refine Table.has_eq_false.2 ?_
    change (d.liveCoverage.deleteWhere _).get (v, slot) = none
    rw [Table.get_deleteWhere]
    simp [hle]
  have hprom : ∀ d : Db, LivePromise V cfg tracked reg (.invalidateFrom (reorgReplayStart spec first)) d := by
    intro d
    exact ⟨_, rfl⟩
  exact (h.write (P := fun _ => True) (fun _ _ _ _ => trivial) hrel trivial (fun d _ _ => hprom d)
    fun _ d _ => hexec d).mono (fun _ _ hs => hs) fun _ _ _ => trivial

theorem PassSetting.leaveOldRange (cursor : Cursor) {db₀ : Db} {s : σ} (hs : (proj s).liveBlocks = db₀.liveBlocks) :
    C.OkMem (leaveOldRange spec (V.floor cfg)) cursor s (fun _ _ s' => LeftRange V cfg cursor db₀ (proj s'))
      fun _ _ _ => True := by
  have hrel : ∀ d d' : Db, LiveRely d d' → d.liveBlocks = db₀.liveBlocks → d'.liveBlocks = db₀.liveBlocks :=
    fun d d' hl hd => hl.blocks.trans hd
  have hold : ∀ d : Db, d.liveBlocks = db₀.liveBlocks → d.recentBlocks 0 = db₀.recentBlocks 0 := by
    intro d hd
    unfold Db.recentBlocks
    rw [hd]
  unfold BeaconIndexer.leaveOldRange
  refine .bind (.load fun s₁ h1 => .ite (fun hc => .bind (.lift ((h.query (.recentBlocks 0) rfl
    (P := fun d => d.liveBlocks = db₀.liveBlocks) (I := fun old d => old = db₀.recentBlocks 0 ∧ d.liveBlocks = db₀.liveBlocks)
    hrel (fun _ d d' hl hd => ⟨hd.1, hrel d d' hl hd.2⟩) (hrel _ _ (h.rely h1) hs) fun _ d _ hd => ⟨hold d hd, hd⟩).imp
    fun old s₂ ⟨hlist, hs₂⟩ => ?_))) fun hc => .pure fun s₂ h2 => ?_)
  · subst hlist
    have stay : ∀ {s}, (proj s).liveBlocks = db₀.liveBlocks → (∀ tip, (db₀.recentBlocks 0).getLast? = some tip →
        L.forest.Anc V.head tip.2.1) → C.OkMem (Session.store none : Session indexer Error Cursor Unit) cursor s
          (fun _ _ s' => LeftRange V cfg cursor db₀ (proj s')) fun _ _ _ => True :=
      fun hs ht => .store fun s' hr => Or.inl ⟨hrel _ _ (h.rely hr) hs, fun _ => ht⟩
    split
    · rename_i tipSlot tip tipParent first firstRoot firstParent htip hfirst
      have header : C.Always (getHeader (.root tip)) fun _ => L.forest.Anc V.head tip :=
        h.faces.getHeader fun a ha hc => (ha hc).2
      refine .bind (.lift (.attempt ((h.keepState header (h.requests.getHeader _) hrel hs₂).mono
        (fun a s₃ ⟨ha, hs₃⟩ => ?_) fun e s₃ hs₃ => ?_)))
      · refine stay hs₃ fun t ht => ?_
        rw [htip] at ht
        cases ht
        exact ha
      · -- the old branch cannot be confirmed: everything from its first block on is dropped
        refine .bind (.bind (.lift ((h.invalidateFrom first s₃).mono (fun _ s₄ hs₄ => .store fun s₅ h5 =>
          .store fun s₆ h6 => ?_) fun _ _ _ => trivial)))
        refine LeftRange.rely (h.rely (C.trans h5 h6)) (Or.inr ⟨hc, (first, firstRoot, firstParent), hfirst, hs₄⟩)
    · rename_i hempty
      refine stay hs₂ fun tip ht => ?_
      -- a list with a last element has a first one
      cases hlist : db₀.recentBlocks 0 with
      | nil => rw [hlist] at ht; cases ht
      | cons first rest => exact (hempty _ _ _ _ _ _ ht (by rw [hlist]; rfl)).elim
  · exact Or.inl ⟨hrel _ _ (h.rely (C.trans h1 h2)) hs, fun hc' => absurd hc' hc⟩

/-- The setting after the mismatch check. -/
theorem PassSetting.within (cursor : Cursor) (db₀ : Db) :
    PassSetting (C.within fun s => Collecting V cfg cursor db₀ (proj s)) (fun s => proj s.1) V cfg tracked reg where
  faces := ⟨fun q s => h.faces.node q s.1, fun hs => h.faces.coherent hs⟩
  promise op s := h.promise op s.1
  promised hg := h.promised hg
  db hs := h.db hs
  node hs := h.node hs
  rely hr := h.rely hr
  registered hs := h.registered hs
  grounded s := h.grounded s.1

omit h in
theorem Collecting.rely {cursor : Cursor} {db₀ d d' : Db} (hl : LiveRely d d') (hc : Collecting V cfg cursor db₀ d) :
    Collecting V cfg cursor db₀ d' :=
  ⟨hc.branch.rely hl, fun s hs hn => (hc.skips s hs hn).rely hl⟩

theorem PassSetting.collecting_sem {cursor : Cursor} {db₀ : Db} (e : Effect) (s : σ) (r : e.Result) (s' : σ)
    (hg : C.guar e s) (hsem : C.sem e s r s') (hc : Collecting V cfg cursor db₀ (proj s)) :
    Collecting V cfg cursor db₀ (proj s') := by
  cases e with
  | node q => exact h.node hsem ▸ hc
  | db op =>
    have hp := h.promised hg
    rcases h.db hsem with ⟨now, _, hdb⟩ | ⟨_, hdb⟩
    · exact hdb ▸ ⟨hc.branch.exec hp, fun s hs hn => (hc.skips s hs hn).exec hp hs⟩
    · exact hdb ▸ hc

variable {resolved : ResolvedChain} {low : Nat} (hc : resolved.Covers L V.head low) {head : HeaderData}
  (hslot : head.slot = L.slotOf V.head)
include hc hslot

/-- The part of a pass that collects. -/
theorem PassSetting.collect (hbranch : ∀ s, OnBranch L V.head (V.floor cfg) (proj s)) (epoch walkStart : Nat) {cursor : Cursor}
    (hcursor : ∀ s, (cursor.map (· + 1)).getD 0 ≤ s → s ≤ V.target cfg → low ≤ s ∧ V.floor cfg ≤ s) :
    ∀ s, C.OkMem (do
      let cursor ← Session.load
      run (prefetchDuties spec epoch tracked)
      let scan ← run (attempt (BeaconIndexer.processHeadScan spec tracked cursor resolved (V.floor cfg) (V.target cfg)))
      let (cursor, scanError) := scanOutcome cursor scan
      Session.store cursor
      if !(← run (BeaconIndexer.canonicalRoot head.slot head.root)) then
        BeaconIndexer.rollback spec walkStart
        return .rolledBack
      run (BeaconIndexer.settle spec cfg tracked head resolved)
      return Outcome.collected scanError) cursor s (fun _ _ _ => True) fun _ _ _ => True := by
  intro s
  refine .bind (.load fun s₁ _ => .bind (.lift ((h.grants.prefetchDuties spec _ _ s₁).mono (fun _ s₂ _ =>
    .bind (.lift (((h.processHeadScan hc hbranch hcursor).attempt s₂).mono (fun scan s₃ _ => ?_) fun _ _ _ => trivial)))
    fun _ _ _ => trivial)))
  dsimp only
  refine .bind (.store fun s₄ _ => .bind (.lift ((h.canonicalRoot _ _ s₄).mono (fun ok s₅ _ => .ite (fun _ =>
    .bind ((h.rollback _ _ s₅).imp fun _ _ _ _ => .pure fun _ _ => trivial)) fun _ => .bind (.lift
    ((h.settle hc hbranch hslot s₅).mono (fun _ _ _ => .pure fun _ _ => trivial) fun _ _ _ => trivial)))
    fun _ _ _ => trivial)))

omit h hc hslot in
theorem firstMismatch_none {stored : List (Nat × Root × Root)} {headSlot : Nat}
    (hm : firstMismatch stored headSlot resolved = none) {s : Nat} {r p : Root} (hs : (s, r, p) ∈ stored) :
    s ≤ headSlot ∧ resolved.roots.get s = some r := by
  unfold firstMismatch at hm
  split at hm
  · cases hm
  · rename_i hfind
    split at hm
    · cases hm
    · rename_i hany
      have hle : s ≤ headSlot := by
        by_contra hlt
        exact hany (List.any_eq_true.2 ⟨_, hs, by simpa using hlt⟩)
      have heq := List.find?_eq_none.1 hfind _ hs
      simp only [hle, decide_true, Bool.true_and, bne_iff_ne, ne_eq, Decidable.not_not] at heq
      exact ⟨hle, heq⟩

omit h hc hslot in
/-- A range to collect starts inside the window. -/
theorem floor_le_collectionStart (cursor : Cursor) :
    V.floor cfg ≤ collectionStart spec (L.slotOf V.head) cursor cfg.retryWindowEpochs := by
  unfold View.floor collectionStart
  cases cursor with
  | none => exact spec.epochStartSlot_mono (Nat.sub_le _ _)
  | some slot => exact le_max_right _ _

omit hc hslot h in
theorem walkStart_le (stored : List (Nat × Root × Root)) (start : Nat) :
    ∃ walkStart ≤ start, spec.epochStartSlot (spec.slotToEpoch (match stored.head? with
      | some (slot, _, _) => min start slot
      | none => start) - 1) = walkStart := by
  refine ⟨_, le_trans (spec.epochStartSlot_mono (Nat.sub_le _ _)) (le_trans (spec.epochStartSlot_slotToEpoch_le _) ?_), rfl⟩
  split
  · exact min_le_left _ _
  · exact le_rfl

omit hc hslot in
/-- A pass keeps its promises; one that collects leaves its window on the head's chain. -/
theorem PassSetting.reconcilePass (cursor : Cursor) (s : σ) :
    C.OkMem (reconcilePass spec cfg tracked) cursor s
      (fun out _ s' => ∀ scan, out = .collected scan → Collecting V cfg cursor (proj s) (proj s')) fun _ _ _ => True := by
  let db₀ := proj s
  have hrel : ∀ d d' : Db, LiveRely d d' → d.liveBlocks = db₀.liveBlocks → d'.liveBlocks = db₀.liveBlocks :=
    fun d d' hl hd => hl.blocks.trans hd
  have hrecent : ∀ {d d' : Db} {n : Nat}, LiveRely d d' → d.recentBlocks n = d'.recentBlocks n := by
    intro d d' n hl
    unfold Db.recentBlocks
    rw [hl.blocks]
  have back : ∀ (changed : Nat) (m : Cursor) (s : σ), C.OkMem (do
      BeaconIndexer.rollback spec changed
      return Outcome.rolledBack) m s (fun out _ s' => ∀ scan, out = .collected scan →
        Collecting V cfg cursor db₀ (proj s')) fun _ _ _ => True := by
    intro changed m s
    refine .bind ((h.rollback changed m s).imp fun _ _ _ _ => .pure fun s' _ scan hout => ?_)
    cases hout
  refine .bind (.lift ((h.keepState h.faces.getHeadHeader h.requests.getHeadHeader hrel rfl).mono
    (fun head s₁ ⟨⟨hroot, hslot⟩, hs₁⟩ => ?_) fun _ _ _ => trivial))
  have register : C.Ok (statement (.registerTrackingStart tracked (spec.slotToEpoch head.slot))) s₁
      (fun _ s' => (proj s').liveBlocks = db₀.liveBlocks) fun _ _ => True := by
    have hprom : ∀ d : Db, LivePromise V cfg tracked reg
        (.registerTrackingStart tracked (spec.slotToEpoch head.slot)) d := by
      intro d
      exact ⟨rfl, by rw [hslot]⟩
    exact (h.write hrel hrel hs₁ (fun d _ _ => hprom d) fun _ _ hd => hd).mono (fun _ _ hs => hs) fun _ _ _ => trivial
  have hfloor : windowFloor spec head.slot cfg.retryWindowEpochs = V.floor cfg := by
    rw [hslot]
    rfl
  have htarget : head.slot - cfg.lagSlots = V.target cfg := by
    rw [hslot]
    rfl
  refine .bind (.lift (register.mono (fun _ s₂ hs₂ => ?_) fun _ _ _ => trivial))
  dsimp only
  rw [hfloor, htarget]
  refine .bind ((h.leaveOldRange cursor hs₂).imp fun _ m s₃ hs₃ => .bind (.lift ((h.query
    (.recentBlocks (V.floor cfg)) rfl (P := LeftRange V cfg cursor db₀) (I := fun stored d =>
      stored = d.recentBlocks (V.floor cfg) ∧ LeftRange V cfg cursor db₀ d) (fun _ _ hl hd => hd.rely hl)
    (fun stored d d' hl hd => ⟨hd.1.trans (hrecent hl), hd.2.rely hl⟩) hs₃ fun _ d _ hd => ⟨rfl, hd⟩).mono
    (fun stored s₄ hs₄ => ?_) fun _ _ _ => trivial)))
  refine .bind (.load fun s₅ h5 => ?_)
  -- the chain is resolved from at or before the start of the range
  have hstart : V.floor cfg ≤ collectionStart spec head.slot m cfg.retryWindowEpochs := by
    rw [hslot]
    exact floor_le_collectionStart m
  generalize collectionStart spec head.slot m cfg.retryWindowEpochs = start at hstart
  obtain ⟨walkStart, hwalk, heq⟩ := @walkStart_le spec stored start
  -- the matches of the definition and of the lemma agree by unfolding only
  erw [heq]
  have hresolve : C.Always (resolveChain head.slot head.root (min walkStart (V.target cfg)))
      fun chain => ∃ low ≤ min walkStart (V.target cfg), chain.Covers L V.head low := by
    rw [hroot]
    exact h.faces.resolveChain _ _
  refine .bind (.lift ((h.keepState hresolve ((h.requests.resolveChain _ _ _).mono fun _ _ => trivial) (I := fun d =>
    stored = d.recentBlocks (V.floor cfg) ∧ LeftRange V cfg cursor db₀ d) (fun d d' hl hd =>
    ⟨hd.1.trans (hrecent hl), hd.2.rely hl⟩) ⟨hs₄.1.trans (hrecent (h.rely h5)), hs₄.2.rely (h.rely h5)⟩).mono
    (fun resolved s₆ ⟨⟨low, hlow, hc⟩, hs₆⟩ => ?_) fun _ _ _ => trivial))
  split
  · exact back _ _ _
  · rename_i hm
    have hcol : Collecting V cfg cursor db₀ (proj s₆) := by
      refine hs₆.2.collecting fun slot r hle hr => ?_
      obtain ⟨p, hp⟩ := (Db.storedRoot_eq_some _).1 hr
      have hmem : (slot, r, p) ∈ stored := by
        rw [hs₆.1]
        exact mem_recentBlocks.2 ⟨hle, hp⟩
      exact (hc.roots_some (firstMismatch_none hm hmem).2).2
    -- from here on every state is on the branch
    refine .of_within (fun s s' hr hs => hs.rely (h.rely hr)) h.collecting_sem hcol ?_
    have hrange : ∀ (m : Cursor), start ≤ (m.map (· + 1)).getD 0 → ∀ slot, (m.map (· + 1)).getD 0 ≤ slot →
        slot ≤ V.target cfg → low ≤ slot ∧ V.floor cfg ≤ slot := by
      intro m hm slot hs ht
      omega
    have hw := h.within cursor db₀
    have collect := fun (m : Cursor) hm => hw.collect hc hslot (fun s => s.2.branch) (spec.slotToEpoch head.slot) walkStart
      (hrange m hm)
    refine .ite (fun hlt => .bind (.store fun s' _ => (collect _ ?_ s').imp fun _ _ s _ _ _ => s.2)) fun hge =>
      (collect m ?_ _).imp fun _ _ s _ _ _ => s.2
    · split
      · simp; omega
      · simp; omega
    · cases m with
      | none => simp at hge
      | some last =>
        simp at hge ⊢
        omega

end Pass

end BeaconIndexer
