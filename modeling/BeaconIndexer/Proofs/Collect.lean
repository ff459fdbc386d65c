/-
The head scan keeps the promises of its pass: what it writes for a slot describes the block of the
head's chain there, and coverage is written last.
-/
import BeaconIndexer.Proofs.Issued
import BeaconIndexer.Proofs.LiveOp

namespace BeaconIndexer

open Effects Ancestry Relational

variable {spec : ChainSpec} {L : Ledger spec}

/-! ## The setting of a pass -/

/-- A setting in which a pass runs on the database `proj s`, against a coherent node and next to
workers that leave the live tables alone. -/
structure PassSetting {σ : Type} (C : Contract indexer σ) (proj : σ → Db) (V : View L) (cfg : LiveConfig spec)
    (tracked : List Nat) (reg : Nat → Nat → Prop) : Prop where
  faces : Faces C V
  promise : ∀ op s, LivePromise V cfg tracked reg op (proj s) → C.guar (.db op) s
  promised : ∀ {op s}, C.guar (.db op) s → LivePromise V cfg tracked reg op (proj s)
  db : ∀ {op s r s'}, C.sem (.db op) s r s' →
    (∃ now, r = .ok (op.answer spec now (proj s)) ∧ proj s' = op.exec spec now (proj s)) ∨
    ((∃ m, r = .error (.database m)) ∧ proj s' = proj s)
  node : ∀ {q s r s'}, C.sem (.node q) s r s' → proj s' = proj s
  rely : ∀ {s s'}, C.rely s s' → LiveRely (proj s) (proj s')
  registered : ∀ {vs e s s'} {r : List Nat}, C.sem (.db (.activeValidatorsAt vs e)) s (.ok r) s' →
    ∀ v, v ∈ r ↔ v ∈ vs ∧ reg v e
  grounded : ∀ s, Grounded L (proj s)

section Setting

variable {σ : Type} {C : Contract indexer σ} {proj : σ → Db} {V : View L} {cfg : LiveConfig spec} {tracked : List Nat}
  {reg : Nat → Nat → Prop}

theorem promise_read {op : DbOp} {db : Db} (hop : op.reads = true) : LivePromise V cfg tracked reg op db := by
  cases op <;> trivial

variable (h : PassSetting C proj V cfg tracked reg)
include h

theorem PassSetting.read {op : DbOp} (hop : op.reads = true) : C.Always (statement op) fun _ => True :=
  Contract.Always.ask (fun s => h.promise op s (promise_read hop)) fun _ _ _ _ _ _ => trivial

/-- A statement whose promise holds in every state of the setting. -/
theorem PassSetting.always {op : DbOp} (hop : ∀ s, LivePromise V cfg tracked reg op (proj s)) :
    C.Always (statement op) fun _ => True :=
  Contract.Always.ask (fun s => h.promise op s (hop s)) fun _ _ _ _ _ _ => trivial

/-- A statement issued in a state with a known property, and what is known afterwards. -/
theorem PassSetting.write {op : DbOp} {P R : Db → Prop} {s : σ} (hP : ∀ d d', LiveRely d d' → P d → P d')
    (hR : ∀ d d', LiveRely d d' → R d → R d') (hs : P (proj s))
    (hprom : ∀ d, Grounded L d → P d → LivePromise V cfg tracked reg op d)
    (hexec : ∀ now d, P d → R (op.exec spec now d)) :
    C.Ok (statement op) s (fun _ s' => R (proj s')) fun _ s' => P (proj s') := by
  refine .ask (fun s₁ h1 => h.promise op s₁ (hprom _ (h.grounded s₁) (hP _ _ (h.rely h1) hs))) fun s₁ r s₂ s₃ h1 hsem h3 => ?_
  rcases h.db hsem with ⟨now, rfl, hdb⟩ | ⟨⟨m, rfl⟩, hdb⟩
  · exact hR _ _ (h.rely h3) (hdb ▸ hexec now _ (hP _ _ (h.rely h1) hs))
  · exact hP _ _ (h.rely h3) (hdb ▸ hP _ _ (h.rely h1) hs)

/-- A request leaves what is known of the database. -/
theorem PassSetting.request {q : Request} {P : q.Answer → Prop} (hP : ∀ a, Coherent V q (.ok a) → P a) {I : Db → Prop}
    (hI : ∀ d d', LiveRely d d' → I d → I d') {s : σ} (hs : I (proj s)) :
    C.Ok (request q) s (fun a s' => P a ∧ I (proj s')) fun _ s' => I (proj s') := by
  refine .ask (fun s₁ _ => h.faces.node q s₁) fun s₁ r s₂ s₃ h1 hsem h3 => ?_
  have hs₃ : I (proj s₃) := hI _ _ (h.rely h3) (h.node hsem ▸ hI _ _ (h.rely h1) hs)
  cases hr : (id r : Except Error q.Answer) with
  | error e => exact hs₃
  | ok a =>
    obtain rfl : r = .ok a := hr
    exact ⟨hP a (h.faces.coherent hsem), hs₃⟩

theorem PassSetting.ofExcept {α : Type} (x : Except Error α) {I : Db → Prop} (hI : ∀ d d', LiveRely d d' → I d → I d')
    {s : σ} (hs : I (proj s)) :
    C.Ok (ofExcept x) s (fun a s' => x = .ok a ∧ I (proj s')) fun _ s' => I (proj s') := by
  cases x with
  | ok a => exact .pure fun s' hr => ⟨rfl, hI _ _ (h.rely hr) hs⟩
  | error e => exact .throw fun s' hr => hI _ _ (h.rely hr) hs

theorem PassSetting.readActive {vs : List Nat} {e : Nat} :
    C.Always (statement (.activeValidatorsAt vs e)) fun r => ∀ v, v ∈ r ↔ v ∈ vs ∧ reg v e :=
  Contract.Always.ask (fun s => h.promise _ s trivial) fun _ r _ hr a ha => by
    cases (ha : r = .ok a); exact h.registered hr

end Setting

/-! ## Chain facts of a block on the branch -/

section Block

variable {V : View L} {r : Root} {b : SignedBeaconBlock} {e : Nat}

theorem Ledger.lastRoot_eq {head : Root} {s : Nat} (ha : L.forest.Anc head r) (hs : s ≤ L.slotOf r) :
    L.lastRoot head s = L.lastRoot r s := Forest.below_eq_of_anc ha hs

/-- Assignments of an epoch agree on two chains that share a block after its start. -/
theorem Ledger.cmapOf_eq {head : Root} (ha : L.forest.Anc head r) (hs : spec.epochStartSlot e ≤ L.slotOf r) :
    L.cmapOf head e = L.cmapOf r e := by
  unfold Ledger.cmapOf Ledger.committeesOf Ledger.decisive
  rw [Ledger.lastRoot_eq ha (by omega)]

theorem Ledger.syncCommitteeOf_eq {head : Root} (ha : L.forest.Anc head r) (hs : spec.epochStartSlot e ≤ L.slotOf r) :
    L.syncCommitteeOf head e = L.syncCommitteeOf r e := by
  unfold Ledger.syncCommitteeOf Ledger.decisive
  rw [Ledger.lastRoot_eq ha (by omega)]

/-- A vote is one of the block's attestations, for the epoch of its slot. -/
theorem voteOf_slot {cmap : CommitteeMap} {v : Nat} {data : AttestationData} (hv : b.voteOf spec cmap e v = some data) :
    data.slot ∈ b.attestationSlots ∧ spec.slotToEpoch data.slot = e := by
  unfold SignedBeaconBlock.voteOf at hv
  unfold SignedBeaconBlock.attestationSlots
  cases ha : b.attestations with
  | preElectra atts =>
    rw [ha] at hv
    obtain ⟨att, hf, rfl⟩ := Option.map_eq_some_iff.1 hv
    have hp := List.find?_some hf
    simp only [Bool.and_eq_true, beq_iff_eq] at hp
    exact ⟨List.mem_map.2 ⟨att, List.mem_of_find?_eq_some hf, rfl⟩, hp.1⟩
  | electra atts =>
    rw [ha] at hv
    obtain ⟨att, hf, rfl⟩ := Option.map_eq_some_iff.1 hv
    have hp := List.find?_some hf
    simp only [Bool.and_eq_true, beq_iff_eq] at hp
    exact ⟨List.mem_map.2 ⟨att, List.mem_of_find?_eq_some hf, rfl⟩, hp.1⟩

theorem Ledger.vote_epoch {v : Nat} {data : AttestationData} (hv : L.vote r e v = some data) :
    spec.slotToEpoch data.slot = e := by
  obtain ⟨_, _, hv⟩ := Option.bind_eq_some_iff.1 hv
  exact (voteOf_slot hv).2

theorem Ledger.vote_earlier {v : Nat} {data : AttestationData} (hv : L.vote r e v = some data) : data.slot < L.slotOf r := by
  obtain ⟨b, hb, hv⟩ := Option.bind_eq_some_iff.1 hv
  rw [Ledger.slotOf_eq hb]
  exact L.votes_earlier hb _ (voteOf_slot hv).1

theorem some_beq_some (a b : Root) : (some a == some b) = (b == a) := by
  rw [Bool.eq_iff_iff, beq_iff_eq, beq_iff_eq, Option.some_inj, eq_comm]

/-- An inclusion recorded against the resolved roots has the block's vote columns. -/
theorem recorded_columns {chain : ResolvedChain} {low v : Nat} {ctx : VoteContext} {data : AttestationData}
    {inc : AttestationInclusion} (hc : chain.Covers L V.head low) (hb : L.block r = some b)
    (ha : L.forest.Anc V.head r) (hctx : liveVoteContext spec e b.slot chain.roots = .ok ctx)
    (hvote : L.vote r e v = some data) (hrec : Recorded b.slot (some ctx) data inc) :
    inc.inclusionSlot = L.slotOf r ∧ L.VoteColumns r v e (some inc.inclusionSlot) (some inc.sourceCorrect)
      (some inc.targetCorrect) (some inc.headCorrect) := by
  obtain ⟨hte, hsrc, hbound, hroots⟩ := liveVoteContext_spec hc V.known hctx
  obtain ⟨hle, marks, hm, rfl⟩ := hrec
  have hslot : L.slotOf r = b.slot := Ledger.slotOf_eq hb
  unfold voteMarks computeVoteCorrectness at hm
  dsimp only at hm
  cases hg : ctx.blockRoots.get data.slot with
  | none => rw [hg] at hm; cases hm
  | some root =>
    rw [hg] at hm
    obtain rfl := Except.ok.inj hm
    obtain ⟨h1, h2, h3⟩ := hroots _ _ hg
    have hb' : L.boundary r e = some ctx.targetRoot := by
      unfold Ledger.boundary
      rw [← Ledger.lastRoot_eq ha (by omega)]
      exact hbound
    have hl' : L.lastRoot r data.slot = some root := by
      rw [← Ledger.lastRoot_eq ha (by omega)]
      exact h3
    refine ⟨hslot.symm, data, hvote, by rw [hslot], ?_, ?_, ?_⟩
    · rw [hsrc]; rfl
    · rw [hb', hte, some_beq_some]
    · rw [hl', some_beq_some]

end Block

/-! ## Attestations of one block -/

/-- The slot's block is stored as the chain has it, and the inclusions in `S` have been seen. -/
structure Around (V : View L) (slot : Nat) (S : Nat → Nat → Prop) (db : Db) : Prop where
  stored : db.storedRoot slot = L.rootAt V.head slot
  seen : ∀ v e, S v e → db.Seen v e slot

theorem Around.rely {V : View L} {slot : Nat} {S : Nat → Nat → Prop} {d d' : Db} (h : LiveRely d d')
    (ha : Around V slot S d) : Around V slot S d' :=
  ⟨(h.storedRoot slot).trans ha.stored, fun v e hs => h.seen v e slot (ha.seen v e hs)⟩

theorem Around.mono {V : View L} {slot : Nat} {S S' : Nat → Nat → Prop} {d : Db} (ha : Around V slot S d)
    (hS : ∀ v e, S' v e → S v e) : Around V slot S' d := ⟨ha.stored, fun v e hs => ha.seen v e (hS v e hs)⟩

theorem Around.upsert {V : View L} {slot v e now : Nat} {S : Nat → Nat → Prop} {d : Db} {w : AttestationWrite}
    (ha : Around V slot S d) (hw : w.inclusionSlot = some slot) :
    Around V slot (fun v' e' => S v' e' ∨ (v' = v ∧ e' = e)) (DbOp.exec spec now (.upsertAttestationDuty v e w) d) := by
  refine ⟨ha.stored, fun v' e' hs => ?_⟩
  rcases hs with hs | ⟨rfl, rfl⟩
  · exact (ha.seen v' e' hs).upsert_other
  · exact Db.Seen.upsert hw

theorem Around.repair {V : View L} {slot v e now : Nat} {S : Nat → Nat → Prop} {d : Db} {details : InclusionDetails}
    (ha : Around V slot S d) : Around V slot S (DbOp.exec spec now (.repairFinalizedInclusion v e details) d) := by
  refine ⟨ha.stored, fun v' e' hs => ?_⟩
  obtain ⟨a, hget, hseen⟩ := ha.seen v' e' hs
  have : (DbOp.exec spec now (.repairFinalizedInclusion v e details) d).attestationDuties.get (v', e') =
      some (if (((v', e') == (v, e)) && a.repairable (d.completed v e) details) = true then a.withDetails details else a) := by
    change (d.attestationDuties.update _ _).get (v', e') = _
    rw [Table.get_update, hget]
    rfl
  refine ⟨_, this, ?_⟩
  split
  · rename_i hrep
    rcases hseen with ⟨x, hx, hi⟩ | hf
    · simp only [AttestationRow.repairable, hi, Option.any_some, Bool.and_eq_true, decide_eq_true_eq] at hrep
      exact Or.inl ⟨details.slot, by omega, rfl⟩
    · exact Or.inr hf
  · exact hseen

/-- A statement on other tables changes neither. -/
theorem Around.other {V : View L} {slot now : Nat} {S : Nat → Nat → Prop} {d : Db} {op : DbOp}
    (hb : op.writesBlocks = false) (ha' : op.writesAttestations = false) (ha : Around V slot S d) :
    Around V slot S (op.exec spec now d) := by
  refine ⟨?_, fun v e hs => ?_⟩
  · unfold Db.storedRoot
    rw [DbOp.exec_blocks hb]
    exact ha.stored
  · obtain ⟨a, hget, hseen⟩ := ha.seen v e hs
    exact ⟨a, by rw [DbOp.exec_attestations ha']; exact hget, hseen⟩

section Scan

variable {σ : Type} {C : Contract indexer σ} {proj : σ → Db} {V : View L} {cfg : LiveConfig spec} {tracked : List Nat}
  {reg : Nat → Nat → Prop} (h : PassSetting C proj V cfg tracked reg)
  {resolved : ResolvedChain} {low : Nat} (hc : resolved.Covers L V.head low)
  {r : Root} {b : SignedBeaconBlock} (hroot : L.rootAt V.head b.slot = some r) (hb : L.block r = some b)
include h hroot hb

/-- Writing one inclusion of the block. -/
theorem PassSetting.writeLiveInclusion {finalized : Bool} (hfin : finalized = true → L.forest.Anc V.finalized.root r)
    {epoch lo hi v : Nat} (he : spec.slotToEpoch b.slot ≤ epoch + 1) {duties : Table Nat AttesterDuty} {inc : AttestationInclusion}
    (hcol : inc.inclusionSlot = L.slotOf r ∧ L.VoteColumns r v epoch (some inc.inclusionSlot) (some inc.sourceCorrect)
      (some inc.targetCorrect) (some inc.headCorrect)) {S : Nat → Nat → Prop} {s : σ} (hs : Around V b.slot S (proj s)) :
    C.Ok (writeLiveInclusion epoch lo hi resolved.roots finalized duties v inc) s
      (fun _ s' => Around V b.slot (fun v' e' => S v' e' ∨ (v' = v ∧ e' = epoch)) (proj s'))
      fun _ s' => Around V b.slot S (proj s') := by
  have ha : L.forest.Anc V.head r := (Ledger.rootAt_iff.1 hroot).1
  have hslot : L.slotOf r = b.slot := Ledger.slotOf_eq hb
  have hstored : ∀ {S} {d : Db}, Around V b.slot S d → d.storedRoot (L.slotOf r) = some r := by
    intro S d hd
    rw [hslot, hd.stored, hroot]
  unfold BeaconIndexer.writeLiveInclusion
  split
  · rename_i duty _
    refine .check (fun _ s' hr => hs.rely (h.rely hr)) fun _ => .bind ((h.write (P := Around V b.slot S)
      (fun _ _ => Around.rely) (fun _ _ => Around.rely) hs (fun d _ hd => ?_) fun now d hd => hd.upsert (congrArg some (hcol.1.trans hslot))).imp
      fun _ s' hs' => ?_)
    · refine ⟨rfl, Or.inr ⟨rfl, r, ha, hstored hd, by rwa [hslot], ?_⟩⟩
      exact hcol.2
    · refine .ite (fun hf => (h.write (fun _ _ => Around.rely) (fun _ _ => Around.rely) hs' (fun d _ hd => ?_)
        fun now d hd => hd.repair).mono (fun _ _ h => h) fun _ _ h => h.mono fun v e hS => Or.inl hS) fun _ =>
        .pure fun s'' hr => hs'.rely (h.rely hr)
      refine ⟨r, hfin hf, hstored hd, ?_⟩
      exact hcol.2
  · exact .throw fun s' hr => hs.rely (h.rely hr)

include hc

/-- The inclusions of one epoch: afterwards every vote of `vs` for it has been seen. -/
theorem PassSetting.scanLiveAttestationEpoch (vs : List Nat) {finalized : Bool}
    (hfin : finalized = true → L.forest.Anc V.finalized.root r) {epoch : Nat}
    (he : spec.epochStartSlot epoch ≤ b.slot) (hle : spec.slotToEpoch b.slot ≤ epoch + 1) {S : Nat → Nat → Prop} {s : σ} (hs : Around V b.slot S (proj s)) :
    C.Ok (scanLiveAttestationEpoch spec vs b resolved.roots finalized epoch) s
      (fun _ s' => Around V b.slot (fun v e => S v e ∨ (v ∈ vs ∧ e = epoch ∧ (L.vote r epoch v).isSome = true)) (proj s'))
      fun _ s' => Around V b.slot S (proj s') := by
  have ha : L.forest.Anc V.head r := (Ledger.rootAt_iff.1 hroot).1
  have hslot : L.slotOf r = b.slot := Ledger.slotOf_eq hb
  have hvote : ∀ v, L.vote r epoch v = b.voteOf spec (L.cmapOf V.head epoch) epoch v := by
    intro v
    rw [Ledger.cmapOf_eq ha (by omega), Ledger.vote, hb, Option.bind_some]
  have hrely : ∀ d d' : Db, LiveRely d d' → Around V b.slot S d → Around V b.slot S d' := fun _ _ => Around.rely
  refine .bind ((h.request (fun cs hcs => hcs) hrely hs).imp fun cs s₁ ⟨hcs, hs₁⟩ => ?_)
  refine .bind ((h.ofExcept _ hrely hs₁).imp fun ctx s₂ ⟨hctx, hs₂⟩ => ?_)
  refine .bind ((h.ofExcept _ hrely hs₂).imp fun incs s₃ ⟨hincs, hs₃⟩ => ?_)
  have hcs : cs = L.committeesOf V.head epoch := hcs
  subst hcs
  have hadds := decodeInclusions_adds hincs
  have hempty : ∀ v, (Table.empty : Inclusions).get v = none := fun _ => rfl
  have hcols : ∀ v inc, incs.get v = some inc → inc.inclusionSlot = L.slotOf r ∧
      L.VoteColumns r v epoch (some inc.inclusionSlot) (some inc.sourceCorrect) (some inc.targetCorrect)
        (some inc.headCorrect) := by
    intro v inc hget
    obtain ⟨_, data, hd, hrec⟩ := hadds.recorded (hempty v) hget
    exact recorded_columns hc hb ha hctx ((hvote v).trans hd) hrec
  have hseen : ∀ v ∈ vs, (L.vote r epoch v).isSome = true → ∃ inc, incs.get v = some inc := by
    intro v hv hsome
    obtain ⟨data, hd⟩ := Option.isSome_iff_exists.1 hsome
    obtain ⟨inc, hi, _⟩ := hadds.found v hv data (hempty v) ((hvote v).symm.trans hd)
    exact ⟨inc, hi⟩
  refine .ite (fun hemp => .pure fun s' hr => ?_) fun _ => ?_
  · refine (hs₃.rely (h.rely hr)).mono ?_
    rintro v e (hS | ⟨hv, rfl, hsome⟩)
    · exact hS
    · obtain ⟨inc, hi⟩ := hseen v hv hsome
      have := Table.mem_rows.2 hi
      rw [List.isEmpty_iff.1 hemp] at this
      cases this
  · refine .bind ((h.request (P := fun _ => True) (fun _ _ => trivial) hrely hs₃).imp fun duties s₄ ⟨_, hs₄⟩ => ?_)
    -- after each write one more validator's vote has been seen
    refine (Contract.Ok.each (fun done s => Around V b.slot (fun v e => S v e ∨ (e = epoch ∧ v ∈ done.map Prod.fst))
      (proj s)) (fun _ _ _ hr ha => ha.rely (h.rely hr)) (fun done x hx s hs => ?_) [] s₄ ?_).imp fun _ s' hs' => ?_
    · refine (h.writeLiveInclusion hroot hb hfin hle (hcols x.1 x.2 (Table.mem_rows.1 hx)) hs).mono
        (fun _ s' hs' => hs'.mono ?_) fun _ s' hs' => hs'.mono fun v e hS => Or.inl hS
      rintro v e (hS | ⟨rfl, hmem⟩)
      · exact Or.inl (Or.inl hS)
      · rw [List.map_append, List.mem_append] at hmem
        rcases hmem with hmem | hmem
        · exact Or.inl (Or.inr ⟨rfl, hmem⟩)
        · exact Or.inr ⟨by simpa using hmem, rfl⟩
    · exact hs₄.mono fun v e hS => hS.elim id fun hm => by simp at hm
    · refine hs'.mono ?_
      rintro v e (hS | ⟨hv, rfl, hsome⟩)
      · exact Or.inl hS
      · obtain ⟨inc, hi⟩ := hseen v hv hsome
        exact Or.inr ⟨rfl, List.mem_map.2 ⟨(v, inc), Table.mem_rows.2 hi, rfl⟩⟩

omit h hc hroot hb in
/-- A block's attestations are scanned for epochs that start before it, up to the previous one. -/
theorem candidateEpochs_range {e : Nat} (he : e ∈ candidateEpochs spec b) :
    spec.epochStartSlot e ≤ b.slot ∧ spec.slotToEpoch b.slot ≤ e + 1 := by
  unfold candidateEpochs at he
  have he := (List.mem_insertionSort _).1 he
  obtain ⟨s, hs, rfl⟩ := List.mem_map.1 (List.mem_dedup.1 he)
  have hs := (List.mem_filter.1 hs).2
  simp only [Bool.and_eq_true, decide_eq_true_eq] at hs
  have hlow := spec.epochStartSlot_slotToEpoch_le s
  have hrecent := spec.le_slotToEpoch_iff.2 hs.1
  omega

omit h hc hroot hb in
/-- A vote of the block for its own or the previous epoch is cast in a candidate epoch. -/
theorem vote_candidate {v e : Nat} {data : AttestationData} (hv : b.voteOf spec (L.cmapOf r e) e v = some data)
    (hlt : data.slot < b.slot) (he : spec.slotToEpoch b.slot ≤ e + 1) : e ∈ candidateEpochs spec b := by
  obtain ⟨hmem, rfl⟩ := voteOf_slot hv
  unfold candidateEpochs
  refine (List.mem_insertionSort _).2 (List.mem_dedup.2 (List.mem_map.2 ⟨data.slot, List.mem_filter.2 ⟨hmem, ?_⟩, rfl⟩))
  simp only [Bool.and_eq_true, decide_eq_true_eq]
  refine ⟨?_, by omega⟩
  rw [← spec.le_slotToEpoch_iff]
  omega

/-- Scanning a block's attestations: afterwards every vote of `vs` in it has been seen. -/
theorem PassSetting.scanLiveAttestationsInSlot (vs : List Nat) {finalized : Bool}
    (hfin : finalized = true → L.forest.Anc V.finalized.root r) {S : Nat → Nat → Prop} {s : σ}
    (hs : Around V b.slot S (proj s)) :
    C.Ok (scanLiveAttestationsInSlot spec vs b resolved.roots finalized) s
      (fun _ s' => Around V b.slot (fun v e => S v e ∨ (v ∈ vs ∧ ∃ data, L.vote r e v = some data ∧
        spec.slotToEpoch b.slot ≤ e + 1)) (proj s')) fun _ s' => Around V b.slot S (proj s') := by
  have hearlier : ∀ {v e data}, L.vote r e v = some data → data.slot < b.slot := by
    intro v e data hd
    rw [← Ledger.slotOf_eq hb]
    exact Ledger.vote_earlier hd
  refine .ite (fun hemp => .pure fun s' hr => (hs.rely (h.rely hr)).mono ?_) fun _ => .ite (fun hzero => .pure fun s' hr =>
    (hs.rely (h.rely hr)).mono ?_) fun _ => ?_
  · rintro v e (hS | ⟨hv, _⟩)
    · exact hS
    · rw [List.isEmpty_iff.1 hemp] at hv
      cases hv
  · rintro v e (hS | ⟨_, data, hd, _⟩)
    · exact hS
    · have := hearlier hd
      omega
  · -- as long as no epoch failed, the votes for the epochs already scanned have been seen
    let T : List Nat → Option Error → Nat → Nat → Prop := fun done first v e =>
      S v e ∨ (first = none ∧ v ∈ vs ∧ e ∈ done ∧ (L.vote r e v).isSome = true)
    refine .bind (Contract.Ok.imp (Contract.Ok.foldlM (fun done (first : Option Error) s =>
      Around V b.slot (T done first) (proj s)) (fun _ _ _ _ hr ha => ha.rely (h.rely hr))
      (fun done first e he s hfirst => ?_) [] none s ?_) fun first s' hs' => ?_)
    · refine .bind (.attempt ((h.scanLiveAttestationEpoch hc hroot hb vs hfin (candidateEpochs_range he).1
        (candidateEpochs_range he).2 hfirst).mono
        (fun _ s' hs' => .pure fun s'' hr => (hs'.rely (h.rely hr)).mono ?_) fun error s' hs' => .pure fun s'' hr =>
          (hs'.rely (h.rely hr)).mono ?_))
      · rintro v e' (hS | ⟨hn, hv, hmem, hsome⟩)
        · exact Or.inl (Or.inl hS)
        · rcases List.mem_append.1 hmem with hmem | hmem
          · exact Or.inl (Or.inr ⟨hn, hv, hmem, hsome⟩)
          · obtain rfl := List.mem_singleton.1 hmem
            exact Or.inr ⟨hv, rfl, hsome⟩
      · rintro v e' (hS | ⟨hn, _⟩)
        · exact Or.inl hS
        · cases hn
    · exact hs.mono fun v e hS => hS.elim id fun hm => by simp at hm
    · cases first with
      | some e => exact .throw fun s'' hr => (hs'.rely (h.rely hr)).mono fun v e hS => Or.inl hS
      | none =>
        refine .pure fun s'' hr => (hs'.rely (h.rely hr)).mono ?_
        rintro v e (hS | ⟨hv, data, hd, hle⟩)
        · exact Or.inl hS
        · refine Or.inr ⟨rfl, hv, ?_, by rw [hd]; rfl⟩
          have hlt := hearlier hd
          rw [Ledger.vote, hb, Option.bind_some] at hd
          exact vote_candidate (r := r) hd hlt hle

end Scan

/-! ## Assignments -/

/-- Fetched assignments are those of the chain. -/
structure EpochDuties.Truthful (L : Ledger spec) (head : Root) (e : Nat) (d : EpochDuties) : Prop where
  proposer : ∀ s v, spec.slotToEpoch s = e → d.proposerBySlot.get s = some v → v = L.proposerOf head s
  sync : ∀ t, d.syncPositions = some t → ∀ v ps, t.get v = some ps →
    ∀ p, p ∈ ps ↔ (L.syncCommitteeOf head e)[p]? = some v

section Assignments

variable {σ : Type} {C : Contract indexer σ} {proj : σ → Db} {V : View L} {cfg : LiveConfig spec} {tracked : List Nat}
  {reg : Nat → Nat → Prop} (h : PassSetting C proj V cfg tracked reg)
include h

theorem PassSetting.getProposerDuties (epoch : Nat) : C.Always (getProposerDuties spec epoch)
    fun ds => ∀ d ∈ ds, spec.slotToEpoch d.slot = epoch → d.validatorIndex = L.proposerOf V.head d.slot :=
  .bind (h.faces.request fun _ ha => ha) fun _ hds => .check fun _ => .pure hds

theorem PassSetting.getSyncDuties (epoch : Nat) (vs : List Nat) : C.Always (getSyncDuties epoch vs)
    fun ds => ∀ d ∈ ds, ∀ p, p ∈ d.validatorSyncCommitteeIndices ↔
      (L.syncCommitteeOf V.head epoch)[p]? = some d.validatorIndex :=
  h.faces.request fun _ ha d hd => (ha d hd).2

theorem PassSetting.seedLiveAttestationDuties {epoch : Nat} {vs : List Nat} (hvs : ∀ v ∈ vs, reg v epoch) :
    C.Always (seedLiveAttestationDuties epoch vs) fun _ => True :=
  .ite (fun _ => .pure trivial) fun _ => .bind (h.faces.request fun _ ha => ha) fun _ hduties =>
    .bind (always_ofExcept _) fun _ _ => .each fun d hd => h.always fun _ =>
      ⟨rfl, Or.inl ⟨rfl, rfl, hvs _ (hduties d hd).1⟩⟩

theorem PassSetting.fetchEpochDuties (slot : Nat) :
    C.Always (fetchEpochDuties spec tracked slot) (EpochDuties.Truthful L V.head (spec.slotToEpoch slot)) := by
  have empty : EpochDuties.Truthful L V.head (spec.slotToEpoch slot) ⟨true, .empty, none⟩ :=
    ⟨fun s v _ (hv : Table.empty.get s = some v) => by simp at hv, fun t ht => by simp at ht⟩
  refine .ite (fun _ => .pure empty) fun _ => .bind h.readActive fun active hactive =>
    .ite (fun _ => .pure empty) fun _ => .bind (always_orUnavailable (h.seedLiveAttestationDuties fun v hv => ((hactive v).1 hv).2))
    fun seeded _ => .bind (always_orUnavailable (h.getProposerDuties _)) fun proposers hprop => ?_
  have hprop' : ∀ s v, spec.slotToEpoch s = spec.slotToEpoch slot →
      (Table.ofList (((proposers.getD []).filter fun d => active.contains d.validatorIndex).map
        fun d => (d.slot, d.validatorIndex))).get s = some v → v = L.proposerOf V.head s := by
    intro s v hs hv
    obtain ⟨d, hd, he⟩ := List.mem_map.1 (Table.mem_of_get_ofList hv)
    obtain ⟨rfl, rfl⟩ := Prod.mk.inj he
    have hd := (List.mem_filter.1 hd).1
    cases proposers with
    | none => cases hd
    | some ds => exact hprop ds rfl d hd hs
  refine .ite (fun _ => .pure ⟨hprop', fun t ht => by cases ht⟩) fun _ =>
    .bind (always_orUnavailable (h.getSyncDuties _ _)) fun sync hsync => .pure ⟨hprop', fun t ht v ps hv => ?_⟩
  obtain ⟨duties, rfl, rfl⟩ := Option.map_eq_some_iff.1 ht
  obtain ⟨d, hd, he⟩ := List.mem_map.1 (Table.mem_of_get_ofList hv)
  obtain ⟨rfl, rfl⟩ := Prod.mk.inj he
  exact hsync _ rfl d hd

end Assignments

/-! ## One slot -/

section Slot

variable {σ : Type} {C : Contract indexer σ} {proj : σ → Db} {V : View L} {cfg : LiveConfig spec} {tracked : List Nat}
  {reg : Nat → Nat → Prop} (h : PassSetting C proj V cfg tracked reg)
  {resolved : ResolvedChain} {low slot : Nat} (hc : resolved.Covers L V.head low) (hlow : low ≤ slot)
include h hc hlow

omit h in
/-- The resolved entry of a slot is the chain's block there. -/
theorem entry_cases : (resolved.entries.get slot = none ∧ L.rootAt V.head slot = none) ∨
    ∃ r b, resolved.entries.get slot = some (r, b) ∧ L.rootAt V.head slot = some r ∧ L.block r = some b ∧ b.slot = slot := by
  cases he : resolved.entries.get slot with
  | none => exact Or.inl ⟨rfl, hc.entry_none V.known hlow he⟩
  | some p =>
    obtain ⟨r, b⟩ := p
    obtain ⟨_, hr, hb⟩ := hc.entry he
    refine Or.inr ⟨r, b, rfl, hr, hb, ?_⟩
    rw [← Ledger.slotOf_eq hb]
    exact (Ledger.rootAt_iff.1 hr).2

omit hc hlow in
/-- A statement on other tables than blocks and attestations, issued around a stored slot. -/
theorem PassSetting.writeOther {op : DbOp} (hb : op.writesBlocks = false) (ha : op.writesAttestations = false)
    {S : Nat → Nat → Prop} {s : σ} (hs : Around V slot S (proj s))
    (hprom : ∀ d, d.storedRoot slot = L.rootAt V.head slot → LivePromise V cfg tracked reg op d) :
    C.Ok (statement op) s (fun _ s' => Around V slot S (proj s')) fun _ s' => Around V slot S (proj s') :=
  h.write (fun _ _ => Around.rely) (fun _ _ => Around.rely) hs (fun d _ hd => hprom d hd.stored)
    fun _ _ hd => hd.other hb ha

theorem PassSetting.collectProposal {proposer : Option Nat} (hp : ∀ v, proposer = some v → v = L.proposerOf V.head slot)
    {S : Nat → Nat → Prop} {s : σ} (hs : Around V slot S (proj s)) :
    C.Ok (collectProposal spec slot (resolved.entries.get slot) proposer) s
      (fun _ s' => Around V slot S (proj s')) fun _ _ => True := by
  cases proposer with
  | none => exact .pure fun s' hr => hs.rely (h.rely hr)
  | some v =>
    have hw : ∀ d : Db, d.storedRoot slot = L.rootAt V.head slot → LivePromise V cfg tracked reg
        (.upsertBlockProposal slot (proposalOutcome false v ((resolved.entries.get slot).map Prod.snd).isSome)) d := by
      intro d hd
      change ProposalPromise V slot _ d
      refine ⟨rfl, Or.inl ⟨hd, ?_, hp v rfl⟩⟩
      rcases entry_cases hc hlow with ⟨he, hr⟩ | ⟨r, b, he, hr, _⟩ <;> rw [he, hr] <;> rfl
    refine .bind ((h.writeOther rfl rfl hs hw).mono
      (fun _ s' hs' => ?_) fun _ _ _ => trivial)
    cases resolved.entries.get slot with
    | none => exact .pure fun s'' hr => hs'.rely (h.rely hr)
    | some p =>
      refine (h.writeOther rfl rfl hs' fun d _ => ?_).mono (fun _ _ h => h) fun _ _ _ => trivial
      refine ⟨fun s hs => ?_, fun hcomp => by cases hcomp⟩
      cases hs
      rfl

omit h hc hlow in
/-- The bits of a member's positions say whether the block has its participation. -/
theorem syncColumns_of_bits {r : Root} {b : SignedBeaconBlock} {sync : SyncAggregate} {bits : List Bool} {v : Nat}
    {ps : List Nat} (hr : L.rootAt V.head slot = some r) (hb : L.block r = some b) (hsync : b.syncAggregate = some sync)
    (hbits : decodeSyncCommitteeBits spec sync.syncCommitteeBits = .ok bits)
    (hps : ∀ p, p ∈ ps ↔ (L.syncCommitteeOf V.head (spec.slotToEpoch slot))[p]? = some v)
    (hin : ∀ p ∈ ps, p < bits.length) : L.SyncColumns r v (ps.any fun p => bits.getD p false) := by
  obtain ⟨ha, hslot⟩ := Ledger.rootAt_iff.1 hr
  refine ⟨b, sync, bits, hb, hsync, hbits, ?_⟩
  rw [hslot, ← Ledger.syncCommitteeOf_eq ha (by rw [hslot]; exact spec.epochStartSlot_slotToEpoch_le slot),
    List.any_eq_true]
  have hget : ∀ p ∈ ps, bits.getD p false = true ↔ bits[p]? = some true := by
    intro p hp
    rw [List.getD_eq_getElem?_getD, List.getElem?_eq_getElem (hin p hp)]
    simp
  constructor
  · rintro ⟨p, hp, hb⟩
    exact ⟨p, (hps p).1 hp, (hget p hp).1 hb⟩
  · rintro ⟨p, hp, hb⟩
    have hp := (hps p).2 hp
    exact ⟨p, hp, (hget p hp).2 hb⟩

theorem PassSetting.upsertLiveSyncInSlot {t : SyncPositions}
    (hp : ∀ v ps, t.get v = some ps → ∀ p, p ∈ ps ↔ (L.syncCommitteeOf V.head (spec.slotToEpoch slot))[p]? = some v)
    {S : Nat → Nat → Prop} {s : σ} (hs : Around V slot S (proj s)) :
    C.Ok (upsertLiveSyncInSlot spec slot ((resolved.entries.get slot).map Prod.snd) t) s
      (fun _ s' => Around V slot S (proj s')) fun _ s' => Around V slot S (proj s') := by
  have hkeep : ∀ (_ : List (Nat × List Nat)) (s s' : σ), C.rely s s' → Around V slot S (proj s) →
      Around V slot S (proj s') := fun _ s s' hr ha => ha.rely (h.rely hr)
  refine .ite (fun _ => .pure fun s' hr => hs.rely (h.rely hr)) fun _ => ?_
  rcases entry_cases hc hlow with ⟨he, hr⟩ | ⟨r, b, he, hr, hb, _⟩
  · -- a skipped slot: every member missed the block
    rw [he]
    refine Contract.Ok.each (fun _ s => Around V slot S (proj s)) hkeep (fun _ x _ s hs =>
      h.writeOther rfl rfl hs fun d hd => ?_) [] s hs
    refine ⟨rfl, hd, ?_⟩
    rw [hr]
    exact ⟨rfl, rfl⟩
  · rw [he]
    dsimp only [Option.map_some]
    cases hsync : b.syncAggregate with
    | none => exact .pure fun s' hr => hs.rely (h.rely hr)
    | some sync =>
      refine .bind ((h.ofExcept _ (fun _ _ => Around.rely) hs).imp fun bits s₁ ⟨hbits, hs₁⟩ => ?_)
      refine Contract.Ok.each (fun _ s => Around V slot S (proj s)) hkeep (fun _ x hx s hs => ?_) [] s₁ hs₁
      unfold upsertLiveSyncMember
      split
      · exact .throw fun s' hr => hs.rely (h.rely hr)
      · rename_i hnone
        refine h.writeOther rfl rfl hs fun d hd => ⟨rfl, hd, ?_⟩
        rw [hr]
        refine ⟨rfl, syncColumns_of_bits hr hb hsync hbits (hp x.1 x.2 (Table.mem_rows.1 hx)) fun p hmem => ?_⟩
        have := List.find?_eq_none.1 hnone p hmem
        simpa using this

theorem PassSetting.collectSync {positions : Option SyncPositions}
    (hp : ∀ t, positions = some t → ∀ v ps, t.get v = some ps →
      ∀ p, p ∈ ps ↔ (L.syncCommitteeOf V.head (spec.slotToEpoch slot))[p]? = some v)
    {S : Nat → Nat → Prop} {s : σ} (hs : Around V slot S (proj s)) :
    C.Ok (collectSync spec slot (resolved.entries.get slot) positions) s
      (fun _ s' => Around V slot S (proj s')) fun _ _ => True := by
  cases positions with
  | none => exact .pure fun s' hr => hs.rely (h.rely hr)
  | some t =>
    refine .bind ((h.upsertLiveSyncInSlot hc hlow (hp t rfl) hs).mono (fun _ s' hs' => ?_) fun _ _ _ => trivial)
    cases resolved.entries.get slot with
    | none => exact .pure fun s'' hr => hs'.rely (h.rely hr)
    | some p =>
      refine .ite (fun _ => (h.writeOther rfl rfl hs' fun d _ => ?_).mono (fun _ _ h => h) fun _ _ _ => trivial)
        fun _ => .pure fun s'' hr => hs'.rely (h.rely hr)
      refine ⟨fun s hs => ?_, fun hcomp => by cases hcomp⟩
      cases hs
      rfl

omit hc hlow in
/-- Coverage is written once every vote it stands for has been seen. -/
theorem PassSetting.recordCoverage (hfloor : V.floor cfg ≤ slot) (htarget : slot ≤ V.target cfg) {S : Nat → Nat → Prop}
    {s : σ} (hs : Around V slot S (proj s)) (hS : ∀ r, L.rootAt V.head slot = some r → ∀ v ∈ tracked, ∀ e data, reg v e →
      L.vote r e v = some data → spec.slotToEpoch slot ≤ e + 1 → S v e) :
    C.Ok (statement (.recordCoverage tracked slot)) s (fun _ _ => True) fun _ _ => True := by
  refine (h.write (R := fun _ => True) (fun _ _ => Around.rely) (fun _ _ _ _ => trivial) hs (fun d _ hd => ?_)
    fun _ _ _ => trivial).mono (fun _ _ _ => trivial) fun _ _ _ => trivial
  exact ⟨rfl, hfloor, htarget, hd.stored, fun r hr v hv e data hreg hvote he =>
    hd.seen v e (hS r hr v hv e data hreg hvote he)⟩

/-- Processing a slot of the window keeps every promise; coverage comes last. -/
theorem PassSetting.processSlot (hbranch : ∀ s, OnBranch L V.head (V.floor cfg) (proj s)) (hfloor : V.floor cfg ≤ slot)
    (htarget : slot ≤ V.target cfg) {active : List Nat} {duties : EpochDuties}
    (hd : duties.Truthful L V.head (spec.slotToEpoch slot))
    (hactive : ∀ v ∈ tracked, ∀ e, reg v e → e ≤ spec.slotToEpoch slot → spec.slotToEpoch slot ≤ e + 1 → v ∈ active) :
    C.Always (processSlot spec slot tracked active duties resolved) fun _ => True := by
  intro s
  let none' : Nat → Nat → Prop := fun _ _ => False
  have hp : ∀ s, Around V slot none' (proj s) →
      C.Ok (BeaconIndexer.collectProposal spec slot (resolved.entries.get slot) (duties.proposerBySlot.get slot)) s
        (fun _ s' => Around V slot none' (proj s')) fun _ _ => True :=
    fun s hs => h.collectProposal hc hlow (fun v hv => hd.proposer slot v rfl hv) hs
  have hy : ∀ s, Around V slot none' (proj s) →
      C.Ok (BeaconIndexer.collectSync spec slot (resolved.entries.get slot) duties.syncPositions) s
        (fun _ s' => Around V slot none' (proj s')) fun _ _ => True :=
    fun s hs => h.collectSync hc hlow (fun t ht v ps => hd.sync t ht v ps) hs
  unfold BeaconIndexer.processSlot
  rcases entry_cases hc hlow with ⟨he, hr⟩ | ⟨r, b, he, hr, hb, hslot⟩
  · -- a skipped slot has no stored block
    have hs : Around V slot none' (proj s) := by
      refine ⟨?_, fun _ _ hf => hf.elim⟩
      cases hst : (proj s).storedRoot slot with
      | none => exact hr.symm
      | some r' => exact (hbranch s slot r' hfloor hst).symm
    rw [he] at hp hy ⊢
    refine .bind ((hp s hs).imp fun _ s₁ hs₁ => .bind ((hy s₁ hs₁).imp fun _ s₂ hs₂ => .check (fun _ _ _ => trivial)
      fun _ => h.recordCoverage hfloor htarget hs₂ fun r' hr' => ?_))
    rw [hr] at hr'
    cases hr'
  · have hrec : C.Ok (statement (.recordBlock slot r b.parentRoot)) s (fun _ s' => Around V slot none' (proj s'))
        fun _ _ => True := by
      refine (h.write (P := OnBranch L V.head (V.floor cfg)) (fun _ _ hl hb => hb.rely hl) (fun _ _ => Around.rely)
        (hbranch s) (fun d _ hd => ?_) fun now d _ => ?_).mono (fun _ _ h => h) fun _ _ _ => trivial
      · refine ⟨hfloor, htarget, hr, ⟨b, hb, rfl⟩, fun r' hr' => ?_⟩
        have := hd slot r' hfloor hr'
        rw [hr] at this
        exact (Option.some.inj this).symm
      · refine ⟨?_, fun _ _ hf => hf.elim⟩
        change (d.recordBlock slot r b.parentRoot).storedRoot slot = _
        rw [recordBlock_storedRoot, if_pos rfl, hr]
    rw [he] at hp hy ⊢
    refine .bind (hrec.imp fun _ s₁ hs₁ => .bind ((hp s₁ hs₁).imp fun _ s₂ hs₂ =>
      .bind ((hy s₂ hs₂).imp fun _ s₃ hs₃ => ?_)))
    subst hslot
    have hcover : ∀ {s}, Around V b.slot (fun v e => v ∈ active ∧ ∃ data, L.vote r e v = some data ∧
        spec.slotToEpoch b.slot ≤ e + 1) (proj s) →
        C.Ok (statement (.recordCoverage tracked b.slot)) s (fun _ _ => True) fun _ _ => True := by
      intro s hs
      refine h.recordCoverage hfloor htarget hs fun r' hr' v hv e data hreg hvote he' => ?_
      rw [hr] at hr'
      cases hr'
      have hle : e ≤ spec.slotToEpoch b.slot := by
        rw [← Ledger.vote_epoch hvote, ← Ledger.slotOf_eq hb]
        exact spec.slotToEpoch_mono (Ledger.vote_earlier hvote).le
      exact ⟨hactive v hv e hreg hle he', data, hvote, he'⟩
    refine .ite (fun _ => .bind ((h.scanLiveAttestationsInSlot hc hr hb active (fun hf => by cases hf) hs₃).mono
      (fun _ s₄ hs₄ => .check (fun _ _ _ => trivial) fun _ => hcover (hs₄.mono fun _ _ => Or.inr)) fun _ _ _ => trivial))
      fun hempty => .check (fun _ _ _ => trivial) fun _ => hcover (hs₃.mono ?_)
    rintro v e ⟨hv, _⟩
    simp only [Bool.not_eq_true', Bool.not_eq_false, List.isEmpty_iff] at hempty
    rw [hempty] at hv
    cases hv

end Slot

/-! ## The head scan -/

/-- Inputs loaded for an epoch are the chain's, with every registered validator that can vote in it. -/
def EpochInputs.Known (L : Ledger spec) (head : Root) (tracked : List Nat) (reg : Nat → Nat → Prop)
    (inputs : EpochInputs) : Prop :=
  ∀ e duties active, inputs.get e = some (duties, active) →
    (∀ d, duties = some d → d.Truthful L head e) ∧
    ∀ v ∈ tracked, ∀ e', reg v e' → e' ≤ e → e ≤ e' + 1 → v ∈ active

section HeadScan

variable {σ : Type} {C : Contract indexer σ} {proj : σ → Db} {V : View L} {cfg : LiveConfig spec} {tracked : List Nat}
  {reg : Nat → Nat → Prop} (h : PassSetting C proj V cfg tracked reg)
include h

theorem PassSetting.loadEpoch {acc : EpochInputs × Option Error} (hacc : acc.1.Known L V.head tracked reg) (slot : Nat) :
    C.Always (loadEpoch spec tracked acc slot) fun acc' => acc'.1.Known L V.head tracked reg := by
  have hput : ∀ {duties : Option EpochDuties} {active previous : List Nat},
      (∀ d, duties = some d → d.Truthful L V.head (spec.slotToEpoch slot)) →
      (∀ v ∈ tracked, reg v (spec.slotToEpoch slot) → v ∈ active) →
      (∀ v ∈ tracked, 0 < spec.slotToEpoch slot → reg v (spec.slotToEpoch slot - 1) → v ∈ previous) →
      EpochInputs.Known L V.head tracked reg
        (acc.1.put (spec.slotToEpoch slot) (duties, (active ++ previous).dedup)) := by
    intro duties active previous hd ha hp e d act he
    rw [Table.get_put] at he
    split at he
    · rename_i heq
      cases he
      subst heq
      refine ⟨hd, fun v hv e' hreg hle hge => List.mem_dedup.2 (List.mem_append.2 ?_)⟩
      by_cases heq : e' = spec.slotToEpoch slot
      · exact Or.inl (ha v hv (heq ▸ hreg))
      · have he' : e' = spec.slotToEpoch slot - 1 := by omega
        exact Or.inr (hp v hv (by omega) (he' ▸ hreg))
    · exact hacc e d act he
  refine .ite (fun _ => .pure hacc) fun _ => .bind (h.fetchEpochDuties slot).attempt fun r hr =>
    .bind h.readActive fun active hactive => ?_
  have hactive : ∀ v ∈ tracked, reg v (spec.slotToEpoch slot) → v ∈ active := fun v hv hreg =>
    (hactive v).2 ⟨hv, hreg⟩
  cases r with
  | ok duties =>
    have hduties : ∀ d, some duties = some d → d.Truthful L V.head (spec.slotToEpoch slot) := fun d hd =>
      hr d (by rw [Option.some.inj hd])
    exact .ite (fun _ => .bind h.readActive fun previous hprev => .pure (hput hduties hactive fun v hv _ hreg =>
      (hprev v).2 ⟨hv, hreg⟩)) fun hzero => .pure (hput hduties hactive fun v _ hpos => absurd hpos hzero)
  | error error =>
    exact .ite (fun _ => .bind h.readActive fun previous hprev => .pure (hput (fun d hd => by cases hd) hactive
      fun v hv _ hreg => (hprev v).2 ⟨hv, hreg⟩)) fun hzero => .pure (hput (fun d hd => by cases hd) hactive
      fun v _ hpos => absurd hpos hzero)

variable {resolved : ResolvedChain} {low : Nat} (hc : resolved.Covers L V.head low)
  (hbranch : ∀ s, OnBranch L V.head (V.floor cfg) (proj s))
include hc hbranch

theorem PassSetting.collectSlot {inputs : EpochInputs} (hin : inputs.Known L V.head tracked reg)
    (acc : Option Nat × Option Error) {slot : Nat} (hlow : low ≤ slot) (hfloor : V.floor cfg ≤ slot)
    (htarget : slot ≤ V.target cfg) :
    C.Always (collectSlot spec tracked inputs resolved acc slot) fun _ => True := by
  unfold BeaconIndexer.collectSlot
  split
  · rename_i duties active he
    obtain ⟨hd, hactive⟩ := hin _ _ _ he
    refine .bind (h.processSlot hc hlow hbranch hfloor htarget (hd duties rfl) hactive).attempt fun r _ => ?_
    cases r with
    | ok a => exact .pure trivial
    | error e => exact .pure trivial
  · exact .pure trivial

/-- The slots a scan works on lie between the floor of the window and the target. -/
theorem PassSetting.processHeadScan {cursor : Option Nat} (hcursor : ∀ s, (cursor.map (· + 1)).getD 0 ≤ s →
      s ≤ V.target cfg → low ≤ s ∧ V.floor cfg ≤ s) :
    C.Always (processHeadScan spec tracked cursor resolved (V.floor cfg) (V.target cfg)) fun _ => True := by
  have missing : C.Always (statement (.missingCoverageSlots tracked
      (max (resolved.minSlot.getD ((cursor.map (· + 1)).getD 0)) (V.floor cfg)) (V.target cfg) 12)) fun r =>
      ∀ s ∈ r, (low ≤ s ∧ V.floor cfg ≤ s) ∧ s ≤ V.target cfg := by
    refine .ask (fun s => h.promise _ s trivial) fun s r s' hsem a ha slot hmem => ?_
    cases (ha : r = .ok a)
    rcases h.db hsem with ⟨now, hr, _⟩ | ⟨⟨m, hr⟩, _⟩
    · cases hr
      rw [hc.minSlot] at hmem
      have hmem := List.mem_reverse.1 (List.mem_of_mem_take hmem)
      simp only [List.mem_filter, List.mem_range, Bool.and_eq_true, decide_eq_true_eq, Option.getD_some] at hmem
      omega
    · cases hr
  refine .bind missing fun missing hmissing => .bind (.foldlM (I := fun acc => acc.1.Known L V.head tracked reg) ?_
    fun acc slot _ hacc => h.loadEpoch hacc slot) fun inputs hin => .foldlM (I := fun _ => True) trivial
    fun acc slot hslot _ => ?_
  · intro e d active he
    simp at he
  · have hslot := (List.mem_insertionSort _).1 (List.mem_reverse.1 (List.mem_of_mem_take hslot))
    rcases List.mem_append.1 (List.mem_dedup.1 hslot) with hs | hs
    · obtain ⟨hlo, hhi⟩ := List.mem_range'_1.1 hs
      have hle : slot ≤ V.target cfg := by omega
      obtain ⟨h1, h2⟩ := hcursor slot hlo hle
      exact h.collectSlot hc hbranch hin acc h1 h2 hle
    · obtain ⟨⟨h1, h2⟩, hle⟩ := hmissing slot hs
      exact h.collectSlot hc hbranch hin acc h1 h2 hle

end HeadScan

end BeaconIndexer
