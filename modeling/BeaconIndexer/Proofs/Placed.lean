/-
Where a live pass places what it writes: a duty row names a slot of its own epoch, and a slot is recorded as
missed only at or below the newest slot the pass collects.
-/
import BeaconIndexer.Proofs.Issued
import BeaconIndexer.Proofs.Passes

namespace BeaconIndexer

open Effects Ancestry Relational

variable {spec : ChainSpec}

/-- A duty lies in its epoch, and no slot after `target` is missed. -/
def DbOp.Placed (spec : ChainSpec) (target : Nat) : DbOp → Prop
  | .upsertAttestationDuty _ e w => spec.slotToEpoch w.assignedSlot = e
  | .upsertBlockProposal s w => w.proposed = false → s ≤ target
  | .upsertSyncDuty _ s w => w.missedBlock = true → s ≤ target
  | _ => True

/-- The committees of an epoch sit in its slots. -/
def Ledger.Spans (L : Ledger spec) : Prop :=
  ∀ head e, ∀ c ∈ L.committeesOf head e, spec.slotToEpoch c.slot = e

variable {L : Ledger spec} {V : View L} {cfg : LiveConfig spec}

theorem Ledger.Spans.seat (hL : L.Spans) {head : Root} {e : Nat} {d : AttesterDuty} (hd : L.Seat head e d) :
    spec.slotToEpoch d.slot = e := by
  obtain ⟨c, hc, hslot, -⟩ := hd
  rw [← hslot]
  exact hL head e c hc

/-- A setting in which placed statements are allowed and the node is coherent. -/
structure Placing {σ : Type} (C : Contract indexer σ) (V : View L) (cfg : LiveConfig spec) : Prop where
  grants : Grants C (DbOp.Placed spec (V.target cfg)) fun _ => True
  coherent : ∀ {q s r s'}, C.sem (.node q) s r s' → Coherent V q r
  missing : ∀ {vs a b n s s'} {r : List Nat}, C.sem (.db (.missingCoverageSlots vs a b n)) s (.ok r) s' → ∀ x ∈ r, x ≤ b

section Walk

variable {σ : Type} {C : Contract indexer σ} (h : Placing C V cfg)
include h

/-- A statement that places nothing. -/
theorem Placing.free {op : DbOp} (hop : ∀ target, op.Placed spec target) : C.Always (statement op) fun _ => True :=
  h.grants.statement (hop _)

/-! ## Duties -/

section Duties

variable (hL : L.Spans)
include hL

theorem Placing.getAttesterDuties (e : Nat) (vs : List Nat) :
    C.Always (getAttesterDuties e vs) fun ds => ∀ d ∈ ds, spec.slotToEpoch d.slot = e :=
  Contract.Always.ask (fun s => h.grants.node _ s) fun _ r _ hr ds hds => by
    cases (hds : r = .ok ds)
    intro d hd
    exact hL.seat (h.coherent hr d hd).2

theorem Placing.seedLiveAttestationDuties (e : Nat) (vs : List Nat) :
    C.Always (seedLiveAttestationDuties e vs) fun _ => True := by
  refine .ite (fun _ => .pure trivial) fun _ => .bind (h.getAttesterDuties hL e vs) fun duties hduties =>
    .bind (always_ofExcept _) fun _ _ => .each fun duty hd => h.grants.statement ?_
  show spec.slotToEpoch duty.slot = e
  exact hduties duty hd

omit hL in
theorem Placing.writeLiveInclusion {e lo hi : Nat} {roots : Table Nat Root} {finalized : Bool} {duties : List AttesterDuty}
    (hd : ∀ d ∈ duties, spec.slotToEpoch d.slot = e) (v : Nat) (inc : AttestationInclusion) :
    C.Always (writeLiveInclusion e lo hi roots finalized (Table.ofList (duties.map fun d => (d.validatorIndex, d))) v inc)
      fun _ => True := by
  unfold BeaconIndexer.writeLiveInclusion
  split
  · rename_i duty hget
    obtain ⟨d, hmem, heq⟩ := List.mem_map.1 (Table.mem_of_get_ofList hget)
    obtain ⟨-, rfl⟩ := Prod.mk.inj heq
    refine .check fun _ => .bind (h.grants.statement (hd d hmem)) fun _ _ =>
      .ite (fun _ => h.free fun _ => trivial) fun _ => .pure trivial
  · exact .throw

theorem Placing.scanLiveAttestationsInSlot (vs : List Nat) (block : SignedBeaconBlock) (roots : Table Nat Root)
    (finalized : Bool) : C.Always (scanLiveAttestationsInSlot spec vs block roots finalized) fun _ => True := by
  have scan : ∀ epoch, C.Always (scanLiveAttestationEpoch spec vs block roots finalized epoch) fun _ => True :=
    fun epoch => .bind (h.grants.request _) fun _ _ => .bind (always_ofExcept _) fun _ _ => .bind (always_ofExcept _)
      fun _ _ => .ite (fun _ => .pure trivial) fun _ => .bind (h.getAttesterDuties hL epoch vs) fun duties hduties =>
      .each fun r _ => h.writeLiveInclusion hduties r.1 r.2
  refine .ite (fun _ => .pure trivial) fun _ => .ite (fun _ => .pure trivial) fun _ =>
    .bind (.foldlM (I := fun _ => True) trivial fun first epoch _ _ => .bind (scan epoch).attempt fun r _ => ?_)
    fun first _ => ?_
  · cases r with
    | ok a => exact .pure trivial
    | error e => exact .pure trivial
  · cases first with
    | none => exact .pure trivial
    | some e => exact .throw

theorem Placing.fetchEpochDuties (indices : List Nat) (slot : Nat) :
    C.Always (fetchEpochDuties spec indices slot) fun _ => True := by
  refine .ite (fun _ => .pure trivial) fun _ => .bind (h.free fun _ => trivial) fun active _ =>
    .ite (fun _ => .pure trivial) fun _ =>
    .bind (always_orUnavailable (h.seedLiveAttestationDuties hL _ _)) fun _ _ =>
    .bind (always_orUnavailable (h.grants.getProposerDuties spec _)) fun _ _ => .ite (fun _ => .pure trivial) fun _ =>
    .bind (always_orUnavailable (P := fun _ => True) (h.grants.request _)) fun _ _ => .pure trivial

end Duties

/-! ## One slot -/

section Slot

variable {slot : Nat} (hslot : slot ≤ V.target cfg)
include hslot

theorem Placing.collectProposal (entry : Option (Root × SignedBeaconBlock)) (proposer : Option Nat) :
    C.Always (collectProposal spec slot entry proposer) fun _ => True := by
  cases proposer with
  | none => exact .pure trivial
  | some v =>
    refine .bind (h.grants.statement fun _ => hslot) fun _ _ => ?_
    cases entry with
    | none => exact .pure trivial
    | some b => exact h.free fun _ => trivial

theorem Placing.collectSync (entry : Option (Root × SignedBeaconBlock)) (positions : Option SyncPositions) :
    C.Always (collectSync spec slot entry positions) fun _ => True := by
  cases positions with
  | none => exact .pure trivial
  | some positions =>
    have write : C.Always (upsertLiveSyncInSlot spec slot (entry.map Prod.snd) positions) fun _ => True := by
      refine .ite (fun _ => .pure trivial) fun _ => ?_
      cases entry with
      | none => exact .each fun r _ => h.grants.statement fun _ => hslot
      | some b =>
        dsimp only [Option.map_some]
        split
        · refine .bind (always_ofExcept _) fun bits _ => .each fun r _ => ?_
          unfold upsertLiveSyncMember
          split
          · exact .throw
          · exact h.grants.statement fun _ => hslot
        · exact .pure trivial
    refine .bind write fun _ _ => ?_
    cases entry with
    | none => exact .pure trivial
    | some b => exact .ite (fun _ => h.free fun _ => trivial) fun _ => .pure trivial

theorem Placing.processSlot (hL : L.Spans) (indices active : List Nat) (duties : EpochDuties) (resolved : ResolvedChain) :
    C.Always (processSlot spec slot indices active duties resolved) fun _ => True := by
  have cover : C.Always (BeaconIndexer.statement (.recordCoverage indices slot)) fun _ => True := h.free fun _ => trivial
  have collect : ∀ (entry : Option (Root × SignedBeaconBlock)) {rest : Task Unit}, C.Always rest (fun _ => True) →
      C.Always (do
        BeaconIndexer.collectProposal spec slot entry (duties.proposerBySlot.get slot)
        BeaconIndexer.collectSync spec slot entry duties.syncPositions
        rest) fun _ => True := by
    intro entry rest hrest
    exact .bind (h.collectProposal hslot entry _) fun _ _ => .bind (h.collectSync hslot entry _) fun _ _ => hrest
  unfold BeaconIndexer.processSlot
  cases resolved.entries.get slot with
  | none => exact collect none (.check fun _ => cover)
  | some b =>
    refine .bind (h.free fun _ => trivial) fun _ _ => collect (some b) ?_
    exact .ite (fun _ => .bind (h.scanLiveAttestationsInSlot hL _ _ _ _) fun _ _ => .check fun _ => cover)
      fun _ => .check fun _ => cover

end Slot

/-! ## A collection pass -/

theorem Placing.loadEpoch (hL : L.Spans) (indices : List Nat) (acc : EpochInputs × Option Error) (slot : Nat) :
    C.Always (loadEpoch spec indices acc slot) fun _ => True := by
  refine .ite (fun _ => .pure trivial) fun _ => .bind (h.fetchEpochDuties hL indices slot).attempt fun duties _ =>
    .bind (h.free fun _ => trivial) fun active _ => ?_
  cases duties with
  | ok duties =>
    exact .ite (fun _ => .bind (h.free fun _ => trivial) fun _ _ => .pure trivial) fun _ => .pure trivial
  | error error =>
    exact .ite (fun _ => .bind (h.free fun _ => trivial) fun _ _ => .pure trivial) fun _ => .pure trivial

omit h in
/-- The slots of a collection pass are not after its target. -/
theorem slotsToProcess_le {start target s : Nat} {missing : List Nat} (hm : ∀ x ∈ missing, x ≤ target)
    (hs : s ∈ slotsToProcess start target missing) : s ≤ target := by
  have hmem := List.mem_of_mem_take hs
  simp only [List.mem_reverse, List.mem_insertionSort, List.mem_dedup, List.mem_append, List.mem_range'_1] at hmem
  rcases hmem with ⟨hge, hlt⟩ | hmem
  · omega
  · exact hm s hmem

theorem Placing.processHeadScan (hL : L.Spans) (indices : List Nat) (cursor : Cursor) (resolved : ResolvedChain) (floor : Nat) :
    C.Always (processHeadScan spec indices cursor resolved floor (V.target cfg)) fun _ => True := by
  have missing : ∀ start n, C.Always (BeaconIndexer.statement (.missingCoverageSlots indices start (V.target cfg) n))
      fun r => ∀ x ∈ r, x ≤ V.target cfg :=
    fun start n => Contract.Always.ask (fun s => h.grants.db _ s trivial) fun _ r _ hr a ha => by
      cases (ha : r = .ok a)
      exact h.missing hr
  have collect : ∀ inputs acc slot, slot ≤ V.target cfg →
      C.Always (collectSlot spec indices inputs resolved acc slot) fun _ => True := by
    intro inputs acc slot hslot
    unfold collectSlot
    split
    · refine .bind (h.processSlot hslot hL _ _ _ _).attempt fun r _ => ?_
      cases r with
      | ok a => exact .pure trivial
      | error e => exact .pure trivial
    · exact .pure trivial
  refine .bind (missing _ _) fun r hr => .bind (.foldlM (I := fun _ => True) trivial fun acc slot _ _ =>
    h.loadEpoch hL indices acc slot) fun inputs _ => .foldlM (I := fun _ => True) trivial fun acc slot hs _ => ?_
  exact collect _ acc slot (slotsToProcess_le hr hs)

/-! ## Rewards and finality -/

theorem Placing.persistLiveProposalRewards (slot : Nat) (rewards : BlockRewards) :
    C.Always (persistLiveProposalRewards slot rewards) fun _ => True := by
  unfold BeaconIndexer.persistLiveProposalRewards
  refine .check fun _ => .bind (always_ofExcept _) fun _ _ => .bind (always_ofExcept _) fun _ _ =>
    .bind (always_ofExcept _) fun _ _ => .bind (always_ofExcept _) fun _ _ => h.grants.statement fun hp => ?_
  -- a block with rewards was proposed
  exact absurd (show true = false from hp) (by decide)

theorem Placing.collectJob (job : LiveJob) (resolved : ResolvedChain) :
    C.Always (collectJob spec job resolved) fun _ => True := by
  have hg := h.grants
  have free : ∀ {op : DbOp}, (∀ target, op.Placed spec target) → C.Always (BeaconIndexer.statement op) fun _ => True := h.free
  unfold BeaconIndexer.collectJob
  split
  · unfold collectAttestationJob
    dsimp only
    split
    · exact .bind (hg.canonicalRoot _ _) fun _ _ => .check fun _ => .bind (hg.getStateRoot _) fun _ _ =>
        .bind (hg.fetchLiveAttestationRewards _ _) fun _ _ => .bind (hg.getStateRoot _) fun _ _ => .check fun _ =>
        .bind (hg.canonicalRoot _ _) fun _ _ => .check fun _ => .bind (free fun _ => trivial) fun _ _ =>
        .ite (fun _ => .pure trivial) fun _ => free fun _ => trivial
    · exact .throw
  · exact .bind (hg.blockJobDependency job) fun (slot, root, block) _ => .bind (hg.fetchLiveProposalRewards _ _)
      fun _ _ => .check fun _ => .bind (hg.canonicalRoot _ _) fun _ _ => .check fun _ =>
      .bind (free fun _ => trivial) fun _ _ => h.persistLiveProposalRewards _ _
  · exact .bind (hg.blockJobDependency job) fun (slot, root, block) _ => .bind (hg.fetchLiveSyncRewards _ _) fun _ _ =>
      .check fun _ => .bind (hg.canonicalRoot _ _) fun _ _ => .check fun _ =>
      .bind (free fun _ => trivial) fun _ _ => free fun _ => trivial

theorem Placing.finalizeCollectedEvidence (hL : L.Spans) (checkpoint : Checkpoint) (resolved : ResolvedChain) :
    C.Always (finalizeCollectedEvidence spec checkpoint resolved) fun _ => True := by
  have free : ∀ {op : DbOp}, (∀ target, op.Placed spec target) → C.Always (BeaconIndexer.statement op) fun _ => True := h.free
  unfold BeaconIndexer.finalizeCollectedEvidence
  split
  · refine .bind (h.grants.getHeader _) fun header _ => .check fun _ => .bind (free fun _ => trivial) fun blocks _ => ?_
    dsimp only
    split
    · exact .bind (free fun _ => trivial) fun indices _ => .bind (free fun _ => trivial) fun slots _ =>
        .bind (always_repairDetails spec (fun _ _ _ _ => h.scanLiveAttestationsInSlot hL _ _ _ _) slots) fun _ _ =>
        .bind (free fun _ => trivial) fun _ _ => .pure trivial
    · exact .pure trivial
  · exact .pure trivial

/-! ## The pass -/

theorem Placing.getHeadHeader : C.Always getHeadHeader fun head => head.slot = L.slotOf V.head := by
  have verified : C.Always (getHeader .head) fun r => r.data.slot = L.slotOf V.head := by
    refine .bind (P := fun r => r.data.slot = L.slotOf V.head) ?_ fun r hr =>
      .bind (always_ensureNotOptimistic r) fun _ _ => .check fun _ => .pure hr
    refine Contract.Always.ask (fun s => h.grants.node _ s) fun _ r _ hr a ha => ?_
    cases (ha : r = .ok a)
    exact (h.coherent hr).2
  exact .bind verified fun r hr => .pure hr

/-- A pass places its writes, whatever the node leaves unanswered. -/
theorem Placing.reconcilePass (hL : L.Spans) (indices : List Nat) : C.AlwaysMem (reconcilePass spec cfg indices) := by
  have books : ∀ op : DbOp, op.bookkeeps = true → op.Placed spec (V.target cfg) := by
    intro op hop
    cases op with
    | upsertAttestationDuty => cases hop
    | upsertBlockProposal => cases hop
    | upsertSyncDuty => cases hop
    | _ => trivial
  refine h.grants.reconcilePass_by spec books (fun job resolved _ => h.collectJob job resolved)
    (fun checkpoint resolved _ => h.finalizeCollectedEvidence hL checkpoint resolved) cfg h.getHeadHeader
    (fun _ _ _ => (h.grants.resolveChain _ _ _).mono fun _ _ => trivial) fun head cursor resolved floor hhead _ => ?_
  have htarget : head.slot - cfg.lagSlots = V.target cfg := congrArg (· - cfg.lagSlots) hhead
  exact htarget ▸ h.processHeadScan hL indices cursor resolved floor

end Walk

section Passes

variable {L : Ledger spec} {Past : Type} (admits : Past → View L → Past → Prop) (cfg : LiveConfig spec)
  (start : Memory → Db × Past → View L → Prop)

/-- The live worker places its writes and relies on nothing. -/
def placing (cond : View L → DbOp → Db × Past → Prop) : (passes admits cfg start cond).Discipline where
  rely _ _ _ := True
  guar _ w e _ := match e with
    | .node _ => True
    | .db op => op.Placed spec (w.target cfg)
  post _ _ _ _ := True
  idle _ _ _ := True
  refl _ _ := trivial
  trans _ := fun _ _ => trivial

variable {admits cfg start} {cond : View L → DbOp → Db × Past → Prop}

theorem placing_placing (i : Unit × Role) (V : View L) : Placing ((placing admits cfg start cond).contract i V) V cfg where
  grants :=
    { node := fun _ _ => trivial
      db := fun _ _ hop => hop
      active := fun h => indexerSem_active h.2.1
      eligible := fun h => indexerSem_eligible h.2.1
      sync := fun _ _ _ _ => trivial }
  coherent h := h.2.1.1
  missing := by
    rintro vs a b n s s' r ⟨-, hsem, -⟩ x hx
    rcases hsem with ⟨now, hr, -⟩ | ⟨m, hr, -⟩
    · cases hr
      have hmem := List.mem_reverse.1 (List.mem_of_mem_take hx)
      have hlt := List.mem_range.1 (List.mem_filter.1 hmem).1
      omega
    · cases hr

theorem placing_sound (hL : L.Spans) :
    (passes admits cfg start cond).Sound (placing admits cfg start cond) fun _ => True where
  begins := by
    rintro ⟨⟨⟩, role⟩ m s V p s' _ _ ⟨⟨hrole, -⟩, hb, -⟩
    obtain rfl : role = .live := hrole
    have h : Placing ((placing admits cfg start cond).contract ((), .live) V) V cfg := placing_placing _ V
    refine ⟨trivial, ?_, fun _ _ => trivial⟩
    cases hb with
    | @boot tracked _ =>
      have hread : ((placing admits cfg start cond).contract ((), .live) V).Always (resume tracked) fun _ => True :=
        h.free fun _ => trivial
      exact (hread s').seal fun r _ _ => by cases r <;> exact fun _ _ => trivial
    | @pass tracked last cursor _ => exact (h.reconcilePass hL tracked cursor s').seal fun _ _ _ _ _ => trivial
  acts _ _ _ := ⟨trivial, fun _ _ => trivial⟩
  finish _ _ := trivial
  restart _ _ := trivial
  idle _ _ := trivial

/-- Every run of passes is one whose statements are placed. -/
theorem passes_placed (hL : L.Spans) {registry : Table Nat ValidatorRow} {past : Past}
    {c : Config indexer (Unit × Role) (View L) Memory (Db × Past)}
    (hr : (passes admits cfg start fun _ _ _ => True).Reach (started registry past) c) :
    (passes admits cfg start fun V op _ => op.Placed spec (V.target cfg)).Reach (started registry past) c := by
  have hsound : (passes admits cfg start fun _ _ _ => True).Sound (placing admits cfg start _) fun _ => True :=
    placing_sound hL
  refine hsound.reach_within (B := passes admits cfg start fun V op _ => op.Placed spec (V.target cfg)) (fun _ hb => hb) ?_ id
    hr ⟨trivial, fun _ => trivial⟩
  rintro i V (q | op) s r s' - hg ⟨-, hsem⟩
  · exact ⟨trivial, hsem⟩
  · exact ⟨hg, hsem⟩

end Passes

end BeaconIndexer
