/-
The inclusion columns of an attestation row: whichever path wrote it, a row that is included has the
slot and both delays of its inclusion, and one that is not has none of them. The one exception is the
raw delay that a reward response reports for a duty whose including block the sparse scan did not find;
the row keeps its low 32 bits.
-/
import BeaconIndexer.Proofs.Immutable
import BeaconIndexer.Proofs.Modes
import BeaconIndexer.Proofs.Collect
import BeaconIndexer.Proofs.Partition
import BeaconIndexer.Scanner.Reference

namespace BeaconIndexer

open Effects Relational

/-! ## Rows -/

/-- The inclusion columns fit together; a row that is not included may hold a reported delay. -/
structure AttestationRow.Shaped (reported : Int → Prop) (a : AttestationRow) : Prop where
  included : a.included = true ↔ a.inclusionSlot.isSome = true
  delay : ∀ s, a.inclusionSlot = some s → a.inclusionDelay = some ((s : Int) - a.assignedSlot)
  missed : a.inclusionSlot = none → ∀ n, a.inclusionDelay = some n → reported n
  effective : ∀ n, a.effectiveInclusionDelay = some n → a.included = true ∧
    ∃ d, a.inclusionDelay = some d ∧ 1 ≤ n ∧ n ≤ d

/-- The same duty and inclusion columns. -/
structure AttestationRow.SameInclusion (a b : AttestationRow) : Prop where
  assignedSlot : b.assignedSlot = a.assignedSlot
  included : b.included = a.included
  inclusionSlot : b.inclusionSlot = a.inclusionSlot
  inclusionDelay : b.inclusionDelay = a.inclusionDelay
  effective : b.effectiveInclusionDelay = a.effectiveInclusionDelay

namespace AttestationRow

variable {reported : Int → Prop} {a b c : AttestationRow}

theorem SameInclusion.refl (a : AttestationRow) : a.SameInclusion a := ⟨rfl, rfl, rfl, rfl, rfl⟩

theorem SameInclusion.trans (h : a.SameInclusion b) (h' : b.SameInclusion c) : a.SameInclusion c :=
  ⟨h'.1.trans h.1, h'.2.trans h.2, h'.3.trans h.3, h'.4.trans h.4, h'.5.trans h.5⟩

theorem Shaped.congr (h : a.Shaped reported) (hs : a.SameInclusion b) : b.Shaped reported := by
  obtain ⟨h1, h2, h3, h4, h5⟩ := hs
  constructor
  · rw [h2, h3]; exact h.included
  · rw [h1, h3, h4]; exact h.delay
  · rw [h3, h4]; exact h.missed
  · rw [h2, h4, h5]; exact h.effective

theorem sameInclusion_withRewards (a : AttestationRow) (source target head inactivity : Option Int) :
    a.SameInclusion (a.withRewards source target head inactivity) := ⟨rfl, rfl, rfl, rfl, rfl⟩

end AttestationRow

/-- An inclusion that a detail repair may write into the row of a duty at `slot`. -/
structure InclusionDetails.Fits (d : InclusionDetails) (slot : Nat) : Prop where
  delay : d.delay = (d.slot : Int) - slot
  one_le : 1 ≤ d.effectiveDelay
  le : d.effectiveDelay ≤ d.delay

/-- A row without an inclusion; its raw delay can only be a reported one. -/
theorem AttestationRow.Shaped.of_missed {reported : Int → Prop} {a : AttestationRow} (h1 : a.included = false)
    (h2 : a.inclusionSlot = none) (h3 : ∀ n, a.inclusionDelay = some n → reported n)
    (h4 : a.effectiveInclusionDelay = none) : a.Shaped reported where
  included := by rw [h1, h2]; rfl
  delay s hs := by rw [h2] at hs; cases hs
  missed _ := h3
  effective n hn := by rw [h4] at hn; cases hn

/-- A row with an inclusion. -/
theorem AttestationRow.Shaped.of_included {reported : Int → Prop} {a : AttestationRow} {s : Nat} {n : Int} (h1 : a.included = true)
    (h2 : a.inclusionSlot = some s) (h3 : a.inclusionDelay = some ((s : Int) - a.assignedSlot))
    (h4 : a.effectiveInclusionDelay = some n) (h5 : 1 ≤ n) (h6 : n ≤ (s : Int) - a.assignedSlot) : a.Shaped reported where
  included := by rw [h1, h2]; rfl
  delay s' hs := by rw [h2] at hs; cases hs; exact h3
  missed hs := by rw [h2] at hs; cases hs
  effective n' hn := by rw [h4] at hn; cases hn; exact ⟨h1, _, h3, h5, h6⟩

theorem AttestationRow.Shaped.withDetails {reported : Int → Prop} {a : AttestationRow} {d : InclusionDetails}
    (h : a.included = true) (hd : d.Fits a.assignedSlot) : (a.withDetails d).Shaped reported :=
  .of_included h rfl (congrArg some hd.delay) rfl hd.one_le (hd.delay ▸ hd.le)

/-! ## Statements -/

/-- Where the slot of every duty is `assigned`: the statement writes shaped rows. -/
def DbOp.Shaped (assigned : Nat → Nat → Nat) (reported : Nat → Nat → Int → Prop) : DbOp → Prop
  | .upsertAttestationDuty v e w => w.assignedSlot = assigned v e ∧ w.toRow.Shaped (reported v e)
  | .repairFinalizedInclusion v e d => d.Fits (assigned v e)
  | _ => True

/-- Every attestation row is shaped. -/
def Db.Shaped (assigned : Nat → Nat → Nat) (reported : Nat → Nat → Int → Prop) (db : Db) : Prop :=
  ∀ v e a, db.attestationDuties.get (v, e) = some a → a.assignedSlot = assigned v e ∧ a.Shaped (reported v e)

section Exec

variable {spec : ChainSpec} {now : Nat} {op : DbOp} {db : Db} {v e : Nat} {a : AttestationRow}

theorem Db.joinedRow_sameInclusion (db : Db) (p : Promotion) (v e : Nat) (a : AttestationRow) :
    a.SameInclusion (db.joinedRow p v e a) := by
  unfold Db.joinedRow
  split
  · split
    · exact .refl a
    · exact AttestationRow.sameInclusion_withRewards ..
  · exact .refl a

/-- Where the inclusion columns of a row come from. -/
theorem DbOp.exec_inclusion_cases (h : (op.exec spec now db).attestationDuties.get (v, e) = some a) :
    (∃ a₀, db.attestationDuties.get (v, e) = some a₀ ∧ a₀.SameInclusion a) ∨
    (∃ w, op = .upsertAttestationDuty v e w ∧ w.toRow.SameInclusion a) ∨
    ∃ d a₀, op = .repairFinalizedInclusion v e d ∧ db.attestationDuties.get (v, e) = some a₀ ∧ a₀.included = true ∧
      a = a₀.withDetails d := by
  have hchange := dutyChange_of_some h
  generalize hbefore : db.attestationDuties.get (v, e) = before at hchange
  cases hchange with
  | kept => exact .inl ⟨a, rfl, .refl a⟩
  | inserted issued => exact .inr (.inl ⟨_, issued, .refl _⟩)
  | replaced old issued hr => exact .inr (.inl ⟨_, issued, rfl, rfl, rfl, rfl, rfl⟩)
  | repaired old issued hr =>
    simp only [AttestationRow.repairable, Bool.and_eq_true] at hr
    exact .inr (.inr ⟨_, old, issued, rfl, hr.1.1, rfl⟩)
  | rewarded old r issued hp => exact .inl ⟨old, rfl, AttestationRow.sameInclusion_withRewards ..⟩
  | marked old issued mem => exact .inl ⟨old, rfl, rfl, rfl, rfl, rfl, rfl⟩
  | promoted old issued => exact .inl ⟨old, rfl, (db.joinedRow_sameInclusion _ v e old).trans ⟨rfl, rfl, rfl, rfl, rfl⟩⟩

/-- A statement that writes shaped rows keeps every row shaped. -/
theorem Db.Shaped.exec {assigned : Nat → Nat → Nat} {reported : Nat → Nat → Int → Prop} (hdb : db.Shaped assigned reported)
    (hop : op.Shaped assigned reported) : (op.exec spec now db).Shaped assigned reported := by
  intro v e a ha
  rcases DbOp.exec_inclusion_cases ha with ⟨a₀, ha₀, hs⟩ | ⟨w, rfl, hs⟩ | ⟨d, a₀, rfl, ha₀, hinc, rfl⟩
  · obtain ⟨h1, h2⟩ := hdb v e a₀ ha₀
    exact ⟨hs.assignedSlot.trans h1, h2.congr hs⟩
  · exact ⟨hs.assignedSlot.trans hop.1, hop.2.congr hs⟩
  · obtain ⟨h1, -⟩ := hdb v e a₀ ha₀
    exact ⟨h1, .withDetails hinc (h1 ▸ hop)⟩

end Exec

/-! ## What the node assigns -/

/-- A validator has one slot in an epoch, in its duty and in the committees alike, and a block carries
votes of earlier slots. -/
structure Schedules (answers : (q : Request) → Except Error q.Answer → Prop) (assigned : Nat → Nat → Nat) : Prop where
  duties : ∀ {e vs ds}, answers (.attesterDuties e vs) (.ok ds) → ∀ d ∈ ds, d.slot = assigned d.validatorIndex e
  committees : ∀ {e cs}, answers (.committees e) (.ok cs) → ∀ c ∈ cs, ∀ v ∈ c.validators, c.slot = assigned v e
  earlier : ∀ {r b}, answers (.blockByRoot r) (.ok (some b)) → ∀ s ∈ b.attestationSlots, s < b.slot

/-- A reward response of the node carries a delay for the duty with the low 32 bits `n`. -/
def Reports (answers : (q : Request) → Except Error q.Answer → Prop) (v e : Nat) (n : Int) : Prop :=
  ∃ vs a r delay, answers (.attestationRewards e vs) (.ok a) ∧ r ∈ a.data ∧ r.validatorIndex = v ∧
    r.inclusionDelay = some delay ∧ n = asI32 delay

/-- The committees name the assigned slots. -/
def CommitteeMap.Schedules (cmap : CommitteeMap) (assigned : Nat → Nat → Nat) (e : Nat) : Prop :=
  ∀ slot i members, cmap.get (slot, i) = some members → ∀ v ∈ members, slot = assigned v e

theorem buildCommitteeMap_schedules {cs : List Committee} {assigned : Nat → Nat → Nat} {e : Nat}
    (h : ∀ c ∈ cs, ∀ v ∈ c.validators, c.slot = assigned v e) : (buildCommitteeMap cs).Schedules assigned e := by
  intro slot i members hget v hv
  have hmap : buildCommitteeMap cs = Table.ofList (cs.map fun c => ((c.slot, c.index), c.validators)) := by
    rw [Table.ofList, List.foldl_map]
    rfl
  rw [hmap] at hget
  obtain ⟨c, hc, heq⟩ := List.mem_map.1 (Table.mem_of_get_ofList hget)
  cases heq
  exact h c hc v hv

/-- A vote carried by an aggregate is one for the slot of its committee. -/
theorem carries_slot {resolve : Nat → Except Error (List AssignedCommittee)} {bits : Except Error (List Bool)} {slot v e : Nat}
    {cmap : CommitteeMap} {assigned : Nat → Nat → Nat} (hcmap : cmap.Schedules assigned e)
    (hresolve : ∀ n cs, resolve n = .ok cs → ∀ c ∈ cs, ∃ i, cmap.get (slot, i) = some c.validators)
    (h : carries resolve bits v = true) : slot = assigned v e := by
  unfold carries at h
  cases bits with
  | error err => cases h
  | ok bits =>
    dsimp only at h
    cases hr : resolve bits.length with
    | error err => rw [hr] at h; cases h
    | ok cs =>
      rw [hr] at h
      obtain ⟨c, hc, hv⟩ := List.any_eq_true.1 h
      obtain ⟨i, hi⟩ := hresolve _ _ hr c hc
      obtain ⟨pos, hp, -⟩ := AssignedCommittee.hasVote_iff.1 hv
      exact hcmap slot i _ hi v (List.mem_of_getElem? hp)

theorem voteOf_assigned {spec : ChainSpec} {b : SignedBeaconBlock} {cmap : CommitteeMap} {assigned : Nat → Nat → Nat}
    {e v : Nat} {data : AttestationData} (hcmap : cmap.Schedules assigned e) (h : b.voteOf spec cmap e v = some data) :
    data.slot = assigned v e := by
  unfold SignedBeaconBlock.voteOf at h
  cases ha : b.attestations with
  | preElectra atts =>
    rw [ha] at h
    obtain ⟨att, hf, rfl⟩ := Option.map_eq_some_iff.1 h
    have hp := List.find?_some hf
    simp only [Bool.and_eq_true] at hp
    refine carries_slot hcmap (fun n cs hcs c hc => ?_) hp.2
    obtain ⟨members, hm, -, rfl⟩ := resolvePreElectraCommittees_ok hcs
    obtain rfl := List.mem_singleton.1 hc
    exact ⟨_, hm⟩
  | electra atts =>
    rw [ha] at h
    obtain ⟨att, hf, rfl⟩ := Option.map_eq_some_iff.1 h
    have hp := List.find?_some hf
    simp only [Bool.and_eq_true] at hp
    refine carries_slot hcmap (fun n cs hcs c hc => ?_) hp.2
    obtain ⟨_, -, hmem, -⟩ := resolveElectraCommittees_ok hcs
    obtain ⟨k, members, -, hm, rfl⟩ := (hmem c).1 hc
    exact ⟨k, hm⟩

/-! ## Inclusions -/

theorem decodeInclusions_fit {spec : ChainSpec} {b : SignedBeaconBlock} {slot e : Nat} {cmap : CommitteeMap}
    {vs : List Nat} {ctx : Option VoteContext} {incs incs' : Inclusions} {assigned : Nat → Nat → Nat}
    (hcmap : cmap.Schedules assigned e) (h : decodeInclusions spec b slot e cmap vs ctx incs = .ok incs') {v : Nat}
    {inc : AttestationInclusion} (hn : incs.get v = none) (hget : incs'.get v = some inc) :
    inc.inclusionSlot = slot ∧ assigned v e ∈ b.attestationSlots ∧ assigned v e ≤ slot ∧
      inc.inclusionDelay = slot - assigned v e := by
  obtain ⟨-, data, hd, hle, _, _, rfl⟩ := (decodeInclusions_adds h).recorded hn hget
  obtain ⟨hmem, -⟩ := voteOf_slot hd
  rw [voteOf_assigned hcmap hd] at hle hmem ⊢
  exact ⟨rfl, hmem, hle, rfl⟩

/-! ## What the writers issue -/

/-- A setting in which shaped statements are allowed and the node keeps its schedule. -/
structure Shaping {σ : Type} (C : Contract indexer σ) (assigned : Nat → Nat → Nat) (reported : Nat → Nat → Int → Prop)
    (answers : (q : Request) → Except Error q.Answer → Prop) : Prop where
  node : ∀ q s, C.guar (.node q) s
  db : ∀ op s, op.Shaped assigned reported → C.guar (.db op) s
  answered : ∀ {q s r s'}, C.sem (.node q) s r s' → answers q r
  schedules : Schedules answers assigned
  reports : ∀ v e n, Reports answers v e n → reported v e n

section Writers

variable {σ : Type} {C : Contract indexer σ} {assigned : Nat → Nat → Nat} {reported : Nat → Nat → Int → Prop}
  {answers : (q : Request) → Except Error q.Answer → Prop} (h : Shaping C assigned reported answers) {spec : ChainSpec}
include h

theorem Shaping.request {q : Request} {P : q.Answer → Prop} (hP : ∀ a, answers q (.ok a) → P a) : C.Always (request q) P :=
  Contract.Always.ask (fun s => h.node q s) fun _ r _ hr a ha => by
    cases (ha : r = .ok a); exact hP a (h.answered hr)

theorem Shaping.statement {op : DbOp} (hop : op.Shaped assigned reported) : C.Always (statement op) fun _ => True :=
  Contract.Always.ask (fun s => h.db op s hop) fun _ _ _ _ _ _ => trivial

theorem Shaping.getAttesterDuties (e : Nat) (vs : List Nat) :
    C.Always (getAttesterDuties e vs) fun ds => ∀ d ∈ ds, d.slot = assigned d.validatorIndex e :=
  h.request fun _ ha => h.schedules.duties ha

theorem Shaping.getCommittees (e : Nat) :
    C.Always (getCommittees e) fun cs => (buildCommitteeMap cs).Schedules assigned e :=
  h.request fun _ ha => buildCommitteeMap_schedules (h.schedules.committees ha)

theorem Shaping.getAttestationRewards (e : Nat) (vs : List Nat) :
    C.Always (getAttestationRewards e vs) fun rs => ∀ r ∈ rs, ∀ delay, r.inclusionDelay = some delay →
      reported r.validatorIndex e (asI32 delay) := by
  unfold BeaconIndexer.getAttestationRewards getAttestationRewardsResponse
  refine .bind (P := fun response => ∀ r ∈ response.data, ∀ delay, r.inclusionDelay = some delay →
    reported r.validatorIndex e (asI32 delay)) ?_ fun response hr => .pure hr
  refine .bind (h.request fun a ha r hr delay hd => h.reports _ _ _ ⟨_, a, r, delay, ha, hr, rfl, hd, rfl⟩) fun response hr => ?_
  exact .bind (always_ensureNotOptimistic response) fun _ _ => .pure hr

theorem Shaping.getBlockBySlot (slot : Nat) :
    C.Always (getBlockBySlot slot) fun b => ∀ block, b = some block → ∀ s ∈ block.attestationSlots, s < slot := by
  refine .bind (P := fun _ => True) (h.request fun _ _ => trivial) fun root _ => ?_
  cases root with
  | none => exact .pure fun _ hb => by cases hb
  | some root =>
    refine .bind (P := fun b => ∀ block, b = some block → ∀ s ∈ block.attestationSlots, s < block.slot)
      (h.request fun a ha block hb => h.schedules.earlier (hb ▸ ha)) fun b hb => .check fun hslot => .pure ?_
    intro block hblock s hs
    subst hblock
    have hlt := hb block rfl s hs
    simp only [Option.any_some, bne_iff_ne, ne_eq, not_not] at hslot
    omega

/-! ### Seeds -/

omit h in
theorem seedRow_shaped (duty : AttesterDuty) {reported : Int → Prop} : (seedRow duty).toRow.Shaped reported :=
  .of_missed rfl rfl (fun _ hd => by cases hd) rfl

theorem Shaping.seedLiveAttestationDuties (e : Nat) (vs : List Nat) :
    C.Always (seedLiveAttestationDuties e vs) fun _ => True := by
  refine .ite (fun _ => .pure trivial) fun _ => .bind (h.getAttesterDuties e vs) fun duties hduties =>
    .bind (always_ofExcept _) fun _ _ => .each fun duty hd => h.statement ?_
  exact ⟨hduties duty hd, seedRow_shaped duty⟩

/-! ### Dense scans -/

omit h in
/-- Fewer slots are missed than lie before the inclusion. -/
theorem effectiveInclusionDelay_bounds {d i : Nat} (missedSlots : List Nat) (hlt : d < i) :
    1 ≤ effectiveInclusionDelay d i (i - d) missedSlots ∧ effectiveInclusionDelay d i (i - d) missedSlots ≤ i - d := by
  have hmissed := List.length_filter_le missedSlots.contains (List.range' (d + 1) (i - (d + 1)))
  rw [List.length_range'] at hmissed
  unfold effectiveInclusionDelay
  omega

omit h in
theorem denseRow_shaped {finalized : Bool} {duty : AttesterDuty} {inclusion : Option AttestationInclusion}
    {reward : Option ValidatorAttestationReward} {missedSlots : List Nat} {reported : Int → Prop}
    (hinc : ∀ inc, inclusion = some inc →
      duty.slot < inc.inclusionSlot ∧ inc.inclusionDelay = inc.inclusionSlot - duty.slot) :
    (denseRow finalized duty inclusion reward missedSlots).toRow.Shaped reported := by
  cases inclusion with
  | none => exact .of_missed rfl rfl (fun _ hd => by cases hd) rfl
  | some inc =>
    obtain ⟨hlt, hdelay⟩ := hinc inc rfl
    have hbounds := effectiveInclusionDelay_bounds missedSlots hlt
    refine .of_included rfl rfl ?_ rfl ?_ ?_
    · simp only [denseRow, AttestationWrite.toRow, Option.map_some, Option.some.injEq, hdelay]
      omega
    · simp only [hdelay]
      omega
    · simp only [denseRow, AttestationWrite.toRow, hdelay]
      omega

omit h in
theorem collectInclusions_fit {blocks : List (Nat × Option SignedBeaconBlock)} {cmap : CommitteeMap} {vs : List Nat}
    {ctx : VoteContext} {e : Nat} (hcmap : cmap.Schedules assigned e) (hctx : ctx.targetEpoch = e)
    (hblocks : ∀ x ∈ blocks, ∀ b, x.2 = some b → ∀ s ∈ b.attestationSlots, s < x.1) {incs : Inclusions}
    (hc : collectInclusionsFromBlocks spec blocks cmap vs ctx = .ok incs) {v : Nat} {inc : AttestationInclusion}
    (hget : incs.get v = some inc) :
    assigned v e < inc.inclusionSlot ∧ inc.inclusionDelay = inc.inclusionSlot - assigned v e := by
  have hinit : ∀ v inc, (Table.empty : Inclusions).get v = some inc →
      assigned v e < inc.inclusionSlot ∧ inc.inclusionDelay = inc.inclusionSlot - assigned v e := fun v inc hv => by cases hv
  unfold collectInclusionsFromBlocks at hc
  -- the fold may start from any inclusions that fit
  generalize (Table.empty : Inclusions) = incs₀ at hc hinit
  induction blocks generalizing incs₀ with
  | nil =>
    cases hc
    exact hinit v inc hget
  | cons x rest ih =>
    rw [List.foldlM_cons] at hc
    obtain ⟨incs₁, h1, hc⟩ := bind_eq_ok hc
    refine ih (fun y hy => hblocks y (List.mem_cons_of_mem _ hy)) incs₁ hc fun v inc hget => ?_
    rcases x with ⟨slot, _ | b⟩
    · cases h1
      exact hinit v inc hget
    · dsimp only at h1
      cases hn : incs₀.get v with
      | some inc₀ =>
        -- an earlier inclusion is kept
        rw [(decodeInclusions_adds h1).keeps v inc₀ hn] at hget
        cases hget
        exact hinit v _ hn
      | none =>
        rw [hctx] at h1
        obtain ⟨hslot, hmem, -, hdelay⟩ := decodeInclusions_fit hcmap h1 hn hget
        have hlt := hblocks (slot, some b) (List.mem_cons_self ..) b rfl _ hmem
        omega

theorem Shaping.fetchBlocksForSlots (slots : List Nat) : C.Always (fetchBlocksForSlots slots) fun blocks =>
    ∀ x ∈ blocks, ∀ b, x.2 = some b → ∀ s ∈ b.attestationSlots, s < x.1 :=
  Contract.Always.collect fun slot _ => .bind (h.getBlockBySlot slot) fun _ hb => .pure hb

theorem Shaping.processEpochAttestationDuties {G : DbOp → Prop} {own : Nat → Prop} (hg : Grants C G own) (epoch : Nat)
    (vs : List Nat) (finalized : Bool) : C.Always (processEpochAttestationDuties spec epoch vs finalized) fun _ => True := by
  refine .bind (h.fetchBlocksForSlots _) fun blocks hblocks => .bind (h.getCommittees epoch) fun cs hcs =>
    .bind (hg.buildVoteContext spec _ _) fun ctx hctx => .bind (h.getAttesterDuties epoch vs) fun duties hduties =>
    .bind (hg.getAttestationRewards _ _) fun _ _ => .bind (always_ofExcept _) fun _ _ =>
    .bind (always_ofExcept _) fun incs hincs => .each fun duty hd => h.statement ?_
  have hslot := hduties duty (List.mem_filter.1 hd).1
  refine ⟨hslot, denseRow_shaped fun inc hinc => ?_⟩
  rw [hslot]
  exact collectInclusions_fit hcs hctx hblocks hincs hinc

/-! ### Sparse scans -/

/-- The skipped slots a walk counts lie between the duty and the inclusion. -/
theorem Shaping.scanForward (duty : AttesterDuty) (epoch : Nat) (cmap : CommitteeMap) (ctx : VoteContext) :
    ∀ n slot missed, duty.slot + missed < slot → C.Always (scanForward spec duty epoch cmap ctx n slot missed) fun found =>
      ∀ inc missed, found = some (inc, missed) → duty.slot + missed < inc.inclusionSlot := by
  intro n
  induction n with
  | zero => exact fun _ _ _ => .pure fun _ _ hf => by cases hf
  | succ n ih =>
    intro slot missed hlt
    refine .bind (h.getBlockBySlot slot) fun b _ => ?_
    cases b with
    | none => exact ih _ _ (by omega)
    | some block =>
      refine .bind (always_ofExcept _) fun incs hincs => ?_
      cases hget : incs.get duty.validatorIndex with
      | none => exact ih _ _ (by omega)
      | some inc =>
        refine .pure fun inc' missed' hf => ?_
        cases hf
        obtain ⟨_, _, _, _, _, _, rfl⟩ := (decodeInclusions_adds hincs).recorded rfl hget
        exact hlt

theorem Shaping.scanForwardForInclusion {G : DbOp → Prop} {own : Nat → Prop} (hg : Grants C G own) (duty : AttesterDuty)
    (epoch : Nat) (cmap : CommitteeMap) : C.Always (scanForwardForInclusion spec duty epoch cmap) fun found =>
      ∀ inc missed, found = some (inc, missed) → duty.slot + missed < inc.inclusionSlot :=
  .bind (hg.rootAtOrBefore spec _) fun _ _ => .bind (hg.rootAtOrBefore spec _) fun _ _ =>
    h.scanForward duty epoch cmap _ _ _ _ (by omega)

omit h in
theorem sparseRow_shaped {finalized : Bool} {duty : AttesterDuty} {reward : Option ValidatorAttestationReward}
    {found : Option (AttestationInclusion × Nat)} {reported : Int → Prop}
    (hfound : ∀ inc missed, found = some (inc, missed) → duty.slot + missed < inc.inclusionSlot)
    (hreward : ∀ r, reward = some r → ∀ delay, r.inclusionDelay = some delay → reported (asI32 delay)) :
    (sparseRow finalized duty reward found).toRow.Shaped reported := by
  cases found with
  | some f =>
    obtain ⟨inc, missed⟩ := f
    have hlt := hfound inc missed rfl
    refine .of_included rfl rfl rfl rfl ?_ ?_
    · show 1 ≤ ((inc.inclusionSlot : Int) - duty.slot) - missed
      omega
    · show ((inc.inclusionSlot : Int) - duty.slot) - missed ≤ inc.inclusionSlot - duty.slot
      omega
  | none =>
    have hdelays : sparseDelays duty reward none = (none, (reward.bind (·.inclusionDelay)).map asI32, none) := by
      unfold sparseDelays
      cases reward.bind (·.inclusionDelay) <;> rfl
    refine .of_missed rfl (congrArg Prod.fst hdelays) (fun n hn => ?_) (congrArg (fun d => d.2.2) hdelays)
    have hn : (sparseDelays duty reward none).2.1 = some n := hn
    rw [hdelays] at hn
    obtain ⟨delay, hdelay, rfl⟩ := Option.map_eq_some_iff.1 hn
    obtain ⟨r, hr, hdelay⟩ := Option.bind_eq_some_iff.1 hdelay
    exact hreward r hr delay hdelay

theorem Shaping.processEpochAttestationDutiesSparse {G : DbOp → Prop} {own : Nat → Prop} (hg : Grants C G own)
    (epoch : Nat) (vs : List Nat) (finalized : Bool) :
    C.Always (processEpochAttestationDutiesSparse spec epoch vs finalized) fun _ => True := by
  refine .ite (fun _ => .pure trivial) fun _ => .bind (h.getAttesterDuties epoch vs) fun duties hduties =>
    .bind (h.getAttestationRewards epoch vs) fun rewards hrewards => .bind (always_ofExcept _) fun _ _ =>
    .bind (hg.request _) fun cs _ => .each fun duty hd =>
    .bind (h.scanForwardForInclusion hg duty epoch _) fun found hfound => .check fun _ => h.statement ?_
  have hslot : (sparseRow finalized duty ((rewardsMap rewards).get duty.validatorIndex) found).assignedSlot = duty.slot := by
    cases found <;> rfl
  refine ⟨hslot.trans (hduties duty (List.mem_filter.1 hd).1), sparseRow_shaped hfound fun r hr delay hdelay => ?_⟩
  obtain ⟨r', hr', heq⟩ := List.mem_map.1 (Table.mem_of_get_ofList hr)
  obtain ⟨hv, rfl⟩ := Prod.mk.inj heq
  rw [← hv]
  exact hrewards _ hr' delay hdelay

/-! ### Live scans -/

omit h in
/-- The blocks counted up to an inclusion include its own. -/
theorem liveEffectiveDelay_bounds {roots : Table Nat Root} {d i : Nat} (hlt : d < i) (hi : roots.has i = true) :
    1 ≤ liveEffectiveDelay roots d i ∧ liveEffectiveDelay roots d i ≤ i - d := by
  unfold liveEffectiveDelay
  constructor
  · apply List.length_pos_of_mem (a := i)
    rw [List.mem_filter, List.mem_range'_1]
    exact ⟨by omega, hi⟩
  · have := List.length_filter_le roots.has (List.range' (d + 1) (i - d))
    rwa [List.length_range'] at this

omit h in
theorem inclusionDetails_fit {slot : Nat} {inc : AttestationInclusion} {n : Nat} (hlt : slot < inc.inclusionSlot)
    (hdelay : inc.inclusionDelay = inc.inclusionSlot - slot) (h1 : 1 ≤ n) (h2 : n ≤ inc.inclusionSlot - slot) :
    (inclusionDetails inc n).Fits slot := by
  refine ⟨?_, ?_, ?_⟩
  · show (inc.inclusionDelay : Int) = inc.inclusionSlot - slot
    omega
  · show (1 : Int) ≤ n
    omega
  · show (n : Int) ≤ inc.inclusionDelay
    omega

omit h in
/-- The row of a live inclusion has the columns of its details. -/
theorem liveRow_shaped {duty : AttesterDuty} {inc : AttestationInclusion} {n : Nat} {reported : Int → Prop}
    (hd : (inclusionDetails inc n).Fits duty.slot) : (liveRow duty inc n).toRow.Shaped reported :=
  .of_included rfl rfl (congrArg some hd.delay) rfl hd.one_le (hd.delay ▸ hd.le)

/-- Of a block that stands in the resolved roots, a live scan writes shaped rows and fitting details. -/
theorem Shaping.scanLiveAttestationsInSlot (vs : List Nat) {block : SignedBeaconBlock} {roots : Table Nat Root}
    (finalized : Bool) (hroots : roots.has block.slot = true) :
    C.Always (scanLiveAttestationsInSlot spec vs block roots finalized) fun _ => True := by
  refine .ite (fun _ => .pure trivial) fun _ => .ite (fun _ => .pure trivial) fun hslot =>
    .bind (.foldlM (I := fun _ => True) trivial fun first e _ _ => .bind (P := fun _ => True) ?_ fun r _ => ?_) fun first _ => ?_
  · refine (Contract.Always.attempt (P := fun _ => True) ?_).mono fun _ _ => trivial
    refine .bind (h.getCommittees e) fun cs hcs => .bind (always_ofExcept _) fun ctx _ =>
      .bind (always_ofExcept _) fun incs hincs => .ite (fun _ => .pure trivial) fun _ =>
      .bind (h.getAttesterDuties e vs) fun duties hduties => .each fun r hr => ?_
    obtain ⟨v, inc⟩ := r
    obtain ⟨hinc, -, -, hdelay⟩ := decodeInclusions_fit hcs hincs rfl (Table.mem_rows.1 hr)
    unfold writeLiveInclusion
    split
    · rename_i duty hget
      obtain ⟨d, hd, heq⟩ := List.mem_map.1 (Table.mem_of_get_ofList hget)
      obtain ⟨hv, rfl⟩ := Prod.mk.inj heq
      refine .check fun hwindow => ?_
      have hduty : d.slot = assigned v e := by
        rw [hduties d hd, hv]
      have hlt : d.slot < block.slot := by omega
      obtain ⟨h1, h2⟩ := liveEffectiveDelay_bounds hlt hroots
      rw [← hinc] at hlt h1 h2
      rw [← hinc, ← hduty] at hdelay
      have hfit := inclusionDetails_fit hlt hdelay h1 h2
      exact .bind (h.statement ⟨hduty, liveRow_shaped hfit⟩) fun _ _ =>
        .ite (fun _ => h.statement (show DbOp.Shaped _ _ _ from hduty ▸ hfit)) fun _ => .pure trivial
    · exact .throw
  · cases r with
    | ok a => exact .pure trivial
    | error e => exact .pure trivial
  · cases first with
    | none => exact .pure trivial
    | some e => exact .throw

end Writers

/-! ## Runs -/

section Runs

variable {κ : Type} (spec : ChainSpec) (net : Network) (cfg : κ → LiveConfig spec)
  (owns : κ → List Nat → Prop) (assigned : Nat → Nat → Nat)

/-- A delay for the duty with the low 32 bits `n` is reported in some view. -/
def Network.Reports (v e : Nat) (n : Int) : Prop := ∃ w, BeaconIndexer.Reports (net.answers w) v e n

/-- Workers write shaped rows and rely on nothing. -/
def shaping : (indexers spec net cfg owns).Discipline where
  rely _ _ _ := True
  guar _ _ e _ := match e with
    | .node _ => True
    | .db op => op.Shaped assigned net.Reports
  post _ _ _ _ := True
  idle _ _ _ := True
  refl _ _ := trivial
  trans _ := fun _ _ => trivial

variable {spec net cfg owns assigned}

theorem DbOp.shaped_of_writesInclusions {reported : Nat → Nat → Int → Prop} {op : DbOp} (h : op.writesInclusions = false) :
    op.Shaped assigned reported := by
  cases op <;> trivial

theorem shaping_shaping (hnet : ∀ w, Schedules (net.answers w) assigned) (i : κ × Role) (w : net.View) :
    Shaping ((shaping spec net cfg owns assigned).contract i w) assigned net.Reports (net.answers w) where
  node _ _ := trivial
  db _ _ hop := hop
  answered h := h.1.1
  schedules := hnet w
  reports _ _ _ hr := ⟨w, hr⟩

theorem shaping_grants (i : κ × Role) (w : net.View) :
    Grants ((shaping spec net cfg owns assigned).contract i w) (fun op => op.writesInclusions = false) fun _ => True where
  node _ _ := trivial
  db _ _ hop := DbOp.shaped_of_writesInclusions hop
  active h := indexerSem_active h.1
  eligible h := indexerSem_eligible h.1
  sync _ _ _ _ := trivial

theorem ResolvedChain.Keyed.roots_has {chain : ResolvedChain} (hk : chain.Keyed) {slot : Nat} {root : Root}
    {block : SignedBeaconBlock} (he : chain.entries.get slot = some (root, block)) : chain.roots.has block.slot = true := by
  rw [hk slot root block he, Table.has_iff]
  exact ⟨root, by rw [ResolvedChain.roots, Table.get_mapVal, he]; rfl⟩

theorem begins_shaped (hnet : ∀ w, Schedules (net.answers w) assigned) {i : κ × Role} {w : net.View} {m : Memory}
    {p : Prog indexer Memory} (hb : Begins spec (cfg i.1) (owns i.1) i.2 m p) (s : Db × net.Past) :
    ((shaping spec net cfg owns assigned).contract i w).Safe p (fun _ _ => True) s := by
  have hs : Shaping ((shaping spec net cfg owns assigned).contract i w) assigned net.Reports (net.answers w) :=
    shaping_shaping hnet i w
  have hg : Grants ((shaping spec net cfg owns assigned).contract i w) (fun op => op.writesInclusions = false) fun _ => True :=
    shaping_grants i w
  obtain ⟨inst, role⟩ := i
  cases hb with
  | @boot tracked _ =>
    have hread : (DbOp.processedTip tracked).writesInclusions = false := rfl
    exact (hg.statement hread s).seal fun r _ _ => by cases r <;> exact fun _ _ => trivial
  | @pass tracked last cursor _ =>
    exact (hg.reconcilePass_of spec (fun _ _ => trivial) (fun _ _ hop => hop) hs.seedLiveAttestationDuties
      (fun vs _ _ _ _ hk he => hs.scanLiveAttestationsInSlot vs false (hk.roots_has he))
      (fun checkpoint _ hk => hg.finalizeCollectedEvidence_of spec (fun _ => DbOp.writesInclusions_of_reads) (fun _ => rfl)
        checkpoint fun vs _ _ _ he => hs.scanLiveAttestationsInSlot vs true (hk.roots_has he))
      (cfg inst) cursor s).seal fun r _ _ _ _ => trivial
  | @scan n _ epoch validators mode hv =>
    exact (hg.scanEpoch_of spec (fun _ _ hop => hop) mode (hs.processEpochAttestationDuties hg epoch validators true)
      (hs.processEpochAttestationDutiesSparse hg epoch validators true) s).seal fun r _ _ _ _ => trivial
  | @refresh _ v a x =>
    have hop : (DbOp.upsertValidator v a x).writesInclusions = false := rfl
    exact (hg.statement hop s).seal fun r _ _ _ _ => trivial

theorem shaping_sound [DecidableEq κ] (hnet : ∀ w, Schedules (net.answers w) assigned) :
    (indexers spec net cfg owns).Sound (shaping spec net cfg owns assigned) fun s => s.1.Shaped assigned net.Reports where
  begins hi _ hb := ⟨hb.2.2 ▸ hi, begins_shaped hnet hb.1 _, fun _ _ => trivial⟩
  acts := by
    rintro i w (q | op) s r s' hi hg ⟨hsem, -⟩
    · exact ⟨hsem.2 ▸ hi, fun _ _ => trivial⟩
    · rcases hsem with ⟨now, -, hdb⟩ | ⟨m, -, hdb⟩
      · exact ⟨hdb ▸ hi.exec hg, fun _ _ => trivial⟩
      · exact ⟨hdb ▸ hi, fun _ _ => trivial⟩
  finish _ _ := trivial
  restart _ _ := trivial
  idle _ _ := trivial

/-- In every run of the workers every attestation row is shaped: it is included exactly if it has an
inclusion slot, the raw delay is then the distance to the duty's slot and bounds the effective one, and the
raw delay of a row that is not included is one that a reward response reported, cut to 32 bits. -/
theorem attestation_rows_shaped [DecidableEq κ] (hnet : ∀ w, Schedules (net.answers w) assigned) {past : net.Past}
    {c : Configuration κ net} (hr : (indexers spec net cfg owns).Reach (initial κ net past) c) :
    c.state.1.Shaped assigned net.Reports :=
  ((shaping_sound hnet).reach hr ⟨(fun v e a ha => by cases ha), fun _ => trivial⟩).1

end Runs

/-! ## A reported delay -/

/-- Validator 7 has the duty of slot 0, for which the response reports a delay of 2^32 + 3; slot 1 has no
block. -/
def reportedDelayAnswers : (q : Request) → Except Error q.Answer
  | .attesterDuties _ _ => .ok [⟨7, 0, 0, 0⟩]
  | .attestationRewards _ _ => .ok ⟨[⟨7, 0, 0, 0, some 4294967299, none⟩], none⟩
  | .committees _ => .ok []
  | .blockRoot s => .ok (if s = 0 then some ⟨1⟩ else none)
  | _ => .error (.http "no answer")

def reportedDelayNet : Network := ⟨Unit, Unit, fun _ q r => r = reportedDelayAnswers q, fun _ _ _ => True⟩

/-- The row that the sparse scan of epoch 0 writes. -/
def reportedDelayRow : AttestationWrite :=
  ⟨0, 0, 0, false, none, some 3, none, none, none, none, some 0, some 0, some 0, none, true⟩

theorem reportedDelay_schedules : ∀ w, Schedules (reportedDelayNet.answers w) fun _ _ => 0 := by
  intro w
  refine ⟨fun h d hd => ?_, fun h c hc => ?_, fun h => ?_⟩
  · cases h
    obtain rfl := List.mem_singleton.1 hd
    rfl
  · cases h
    cases hc
  · cases h

/-- One instance in which validator 7 is registered; its archive worker scans epoch 0 and stops at the missing
proposer duties. -/
theorem reportedDelay_reach (cfg : LiveConfig unitEpochs) : ∃ c : Configuration Unit reportedDelayNet,
    (indexers unitEpochs reportedDelayNet (fun _ => cfg) fun _ _ => True).Reach (initial Unit reportedDelayNet ()) c ∧
    c.state.1 = sevenRegistered.2.1.upsertAttestationDuty 7 0 reportedDelayRow := by
  let A := indexers unitEpochs reportedDelayNet (fun _ => cfg) fun (_ : Unit) _ => True
  let c := (initial Unit reportedDelayNet ()).set ((), .metadata) (.idle .stopped) sevenRegistered.2
  have hmeta : A.Reach _ c := @reach_registered reportedDelayNet A () () ⟨.refresh, trivial, rfl⟩
    ⟨Or.inl ⟨0, rfl, rfl⟩, rfl⟩
  have hstart : A.Step c (c.set ((), .archive 0) (.running () (archiveScan unitEpochs 0 [7] .sparse)) sevenRegistered.2) :=
    .start rfl ⟨.scan trivial, trivial, rfl⟩
  have hrun : Exec (A.sem ((), .archive 0) ()) (archiveScan unitEpochs 0 [7] .sparse) sevenRegistered.2 .stopped
      (sevenRegistered.2.1.upsertAttestationDuty 7 0 reportedDelayRow, ()) := by
    refine Exec.call_iff.2 ⟨.ok [⟨7, 0, 0, 0⟩], _, ⟨⟨rfl, rfl⟩, rfl⟩, ?_⟩
    refine Exec.call_iff.2 ⟨.ok ⟨[⟨7, 0, 0, 0, some 4294967299, none⟩], none⟩, _, ⟨⟨rfl, rfl⟩, rfl⟩, ?_⟩
    refine Exec.call_iff.2 ⟨.ok [], _, ⟨⟨rfl, rfl⟩, rfl⟩, ?_⟩
    refine Exec.call_iff.2 ⟨.ok (some ⟨1⟩), _, ⟨⟨rfl, rfl⟩, rfl⟩, ?_⟩
    refine Exec.call_iff.2 ⟨.ok (some ⟨1⟩), _, ⟨⟨rfl, rfl⟩, rfl⟩, ?_⟩
    refine Exec.call_iff.2 ⟨.ok none, _, ⟨⟨rfl, rfl⟩, rfl⟩, ?_⟩
    refine Exec.call_iff.2 ⟨.ok (), (_, ()), ⟨.inl ⟨0, rfl, rfl⟩, rfl⟩, ?_⟩
    refine Exec.call_iff.2 ⟨.error (.http "no answer"), _, ⟨⟨rfl, rfl⟩, rfl⟩, ?_⟩
    exact .done _ _
  exact ⟨_, hmeta.trans (.head hstart (System.reach_exec hrun _ (Config.set_proc ..) rfl)), rfl⟩

theorem attestation_rows_shaped_reported : ∃ c : Configuration Unit reportedDelayNet,
    (indexers unitEpochs reportedDelayNet (fun _ => lagTwoUnits) fun _ _ => True).Reach (initial Unit reportedDelayNet ()) c ∧
    (∃ row, c.state.1.attestationDuties.get (7, 0) = some row ∧ row.inclusionDelay = some 3 ∧ row.assignedSlot = 0 ∧
      row.Shaped (reportedDelayNet.Reports 7 0)) := by
  obtain ⟨c, hr, hdb⟩ := reportedDelay_reach lagTwoUnits
  have hrow : c.state.1.attestationDuties.get (7, 0) = some reportedDelayRow.toRow := by
    rw [hdb]
    rfl
  exact ⟨c, hr, _, hrow, rfl, attestation_rows_shaped reportedDelay_schedules hr 7 0 _ hrow⟩

/-- The row of a duty that was not included can hold a raw delay and no inclusion slot. -/
theorem reported_delay_without_inclusion : (∀ w, Schedules (reportedDelayNet.answers w) fun _ _ => 0) ∧
    ∃ c : Configuration Unit reportedDelayNet,
      (indexers unitEpochs reportedDelayNet (fun _ => lagTwoUnits) fun _ _ => True).Reach (initial Unit reportedDelayNet ()) c ∧
      ∃ row, c.state.1.attestationDuties.get (7, 0) = some row ∧ row.included = false ∧ row.inclusionSlot = none ∧
        row.inclusionDelay = some 3 := by
  refine ⟨reportedDelay_schedules, ?_⟩
  obtain ⟨c, hr, hdb⟩ := reportedDelay_reach lagTwoUnits
  refine ⟨c, hr, reportedDelayRow.toRow, ?_, rfl, rfl, rfl⟩
  rw [hdb]
  rfl

end BeaconIndexer
