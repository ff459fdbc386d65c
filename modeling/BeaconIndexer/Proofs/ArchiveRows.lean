/-
The attestation rows of an archive scan: on a node that serves one chain, the dense and the sparse scan of
an epoch both write the row which the chain itself determines for a duty.
-/
import BeaconIndexer.Proofs.Modes
import BeaconIndexer.Scanner.Reference
import BeaconIndexer.Db.Run
import BeaconIndexer.Db.Spec

namespace BeaconIndexer

open Effects Relational Contract

/-! ## Where a vote comes from -/

/-- The data of every attestation of the block. -/
def SignedBeaconBlock.attestationData (b : SignedBeaconBlock) : List AttestationData :=
  match b.attestations with
  | .preElectra atts => atts.map (·.data)
  | .electra atts => atts.map (·.data)

theorem carries_resolves {resolve : Nat → Except Error (List AssignedCommittee)} {bits : Except Error (List Bool)} {v : Nat}
    (h : carries resolve bits v = true) : Resolves resolve bits := by
  unfold carries at h
  split at h
  · rename_i bs
    split at h
    · rename_i cs hcs
      exact ⟨bs, cs, rfl, hcs⟩
    · cases h
  · cases h

/-- A vote is in the block, is for the epoch, and its validator sits in a committee of its slot. -/
theorem SignedBeaconBlock.voteOf_seated {spec : ChainSpec} {b : SignedBeaconBlock} {cmap : CommitteeMap} {epoch v : Nat}
    {data : AttestationData} (h : b.voteOf spec cmap epoch v = some data) :
    data ∈ b.attestationData ∧ spec.slotToEpoch data.slot = epoch ∧
      ∃ (index : Nat) (members : List Nat) (p : Nat), cmap.get (data.slot, index) = some members ∧ members[p]? = some v := by
  unfold SignedBeaconBlock.voteOf at h
  unfold SignedBeaconBlock.attestationData
  cases ha : b.attestations with
  | preElectra atts =>
    rw [ha] at h
    obtain ⟨att, hf, rfl⟩ := Option.map_eq_some_iff.1 h
    have hmem := List.mem_of_find?_eq_some hf
    have hp := List.find?_some hf
    simp only [Bool.and_eq_true, beq_iff_eq] at hp
    obtain ⟨_, members, p, _, hm, hv, _⟩ := (PreElectraAttestation.carries_iff (carries_resolves hp.2)).1 hp.2
    exact ⟨List.mem_map_of_mem hmem, hp.1, _, members, p, hm, hv⟩
  | electra atts =>
    rw [ha] at h
    obtain ⟨att, hf, rfl⟩ := Option.map_eq_some_iff.1 h
    have hmem := List.mem_of_find?_eq_some hf
    have hp := List.find?_some hf
    simp only [Bool.and_eq_true, beq_iff_eq] at hp
    obtain ⟨_, _, c, members, p, _, _, _, hm, hv, _⟩ := (Attestation.carries_iff (carries_resolves hp.2)).1 hp.2
    exact ⟨List.mem_map_of_mem hmem, hp.1, c, members, p, hm, hv⟩

/-! ## The row the chain determines -/

/-- One epoch of a finalized chain: its blocks, its committees, and the duty and the rewards of each validator. -/
structure AttestedEpoch where
  epoch : Nat
  block : SlotBlocks
  committees : List Committee
  duty : Nat → AttesterDuty
  reward : Nat → ValidatorAttestationReward
  justified : Checkpoint

namespace AttestedEpoch

open SlotBlocks

variable (spec : ChainSpec) (E : AttestedEpoch)

def committeeMap : CommitteeMap := buildCommitteeMap E.committees

/-- The inclusion a vote in the block of slot `s` is, marked against the chain. -/
def recorded (s : Nat) (data : AttestationData) : AttestationInclusion where
  inclusionSlot := s
  inclusionDelay := s - data.slot
  sourceCorrect := true
  targetCorrect := data.target.epoch == E.epoch &&
    SlotBlocks.rootBefore E.block (spec.epochStartSlot E.epoch + 1) == some data.target.root
  headCorrect := SlotBlocks.rootBefore E.block (data.slot + 1) == some data.beaconBlockRoot

/-- The inclusion of `v` in the block of slot `s`. -/
def inclusionAt (v s : Nat) : Option AttestationInclusion :=
  (blockAt E.block s).bind fun b => (b.voteOf spec E.committeeMap E.epoch v).map (E.recorded spec s)

/-- The earliest inclusion of `v` in the window of the epoch. -/
def inclusion (v : Nat) : Option AttestationInclusion :=
  (List.range' (spec.epochStartSlot E.epoch) (spec.slotsPerEpoch * 2)).findSome? (E.inclusionAt spec v)

/-- The values of the row of `v`. -/
def write (finalized : Bool) (v : Nat) : AttestationWrite where
  assignedSlot := (E.duty v).slot
  committeeIndex := (E.duty v).committeeIndex
  committeePosition := (E.duty v).validatorCommitteeIndex
  included := (E.inclusion spec v).isSome
  inclusionSlot := (E.inclusion spec v).map (·.inclusionSlot)
  inclusionDelay := (E.inclusion spec v).map fun i => (i.inclusionDelay : Int)
  effectiveInclusionDelay := (E.inclusion spec v).map fun i => (blocksIn E.block (E.duty v).slot i.inclusionSlot : Int)
  sourceCorrect := (E.inclusion spec v).map (·.sourceCorrect)
  targetCorrect := (E.inclusion spec v).map (·.targetCorrect)
  headCorrect := (E.inclusion spec v).map (·.headCorrect)
  sourceReward := some (E.reward v).source
  targetReward := some (E.reward v).target
  headReward := some (E.reward v).head
  inactivityPenalty := (E.reward v).inactivity
  finalized := finalized

/-- The chain is one a node may finalize: every block carries votes of earlier slots, those of the epoch with its
justified checkpoint as their source, and a validator of `vs` sits in the committees only at the seat of its duty. -/
structure Coherent (vs : List Nat) : Prop where
  earlier : ∀ s r b, E.block s = some (r, b) → ∀ data ∈ b.attestationData, data.slot < s
  source : ∀ s r b, E.block s = some (r, b) → ∀ data ∈ b.attestationData, spec.slotToEpoch data.slot = E.epoch →
    data.source = E.justified
  seated : ∀ v ∈ vs, ∀ (slot index : Nat) (members : List Nat) (p : Nat), E.committeeMap.get (slot, index) = some members →
    members[p]? = some v → slot = (E.duty v).slot ∧ index = (E.duty v).committeeIndex ∧
      p = (E.duty v).validatorCommitteeIndex

/-- What a node answers about the epoch, whenever it answers. -/
structure ServedBy (vs : List Nat) (node : (q : Request) → Except Error q.Answer → Prop) : Prop where
  blocks : SlotBlocks.ServedBy E.block node
  committees : ∀ a, node (.committees E.epoch) (.ok a) → a = E.committees
  duties : ∀ a, node (.attesterDuties E.epoch vs) (.ok a) → ∀ d ∈ a, d = E.duty d.validatorIndex
  rewards : ∀ a, node (.attestationRewards E.epoch vs) (.ok a) → ∀ r ∈ a.data, r = E.reward r.validatorIndex
  checkpoints : ∀ a, node (.finalityCheckpoints (.slot (spec.epochStartSlot E.epoch))) (.ok a) →
    a.data.currentJustified = E.justified

variable {spec E} {vs : List Nat}

/-- An inclusion lies after the slot of the duty, which is in the epoch. -/
theorem Coherent.inclusionAt_some (h : E.Coherent spec vs) {v s : Nat} (hv : v ∈ vs) {inc : AttestationInclusion}
    (hinc : E.inclusionAt spec v s = some inc) : (E.block s).isSome ∧ spec.slotToEpoch (E.duty v).slot = E.epoch ∧
      (E.duty v).slot < s ∧ inc.inclusionSlot = s ∧ inc.inclusionDelay = s - (E.duty v).slot := by
  unfold inclusionAt blockAt at hinc
  cases hb : E.block s with
  | none => rw [hb] at hinc; cases hinc
  | some rb =>
    obtain ⟨r, b⟩ := rb
    rw [hb] at hinc
    obtain ⟨data, hdata, rfl⟩ := Option.map_eq_some_iff.1 hinc
    obtain ⟨hmem, hepoch, index, members, p, hm, hp⟩ := b.voteOf_seated hdata
    obtain ⟨hslot, -, -⟩ := h.seated v hv _ _ _ _ hm hp
    have hlt := h.earlier s r b hb data hmem
    rw [← hslot]
    exact ⟨rfl, hepoch, hlt, rfl, rfl⟩

theorem Coherent.inclusion_some (h : E.Coherent spec vs) {v : Nat} (hv : v ∈ vs) {inc : AttestationInclusion}
    (hinc : E.inclusion spec v = some inc) : (E.block inc.inclusionSlot).isSome ∧
      spec.slotToEpoch (E.duty v).slot = E.epoch ∧ (E.duty v).slot < inc.inclusionSlot ∧
      inc.inclusionSlot < spec.epochStartSlot (E.epoch + 2) ∧ inc.inclusionDelay = inc.inclusionSlot - (E.duty v).slot := by
  obtain ⟨s, hs, hat⟩ := List.exists_of_findSome?_eq_some hinc
  obtain ⟨hb, hepoch, hlt, rfl, hdelay⟩ := h.inclusionAt_some hv hat
  rw [List.mem_range'_1] at hs
  rw [spec.epochStartSlot_succ, spec.epochStartSlot_succ]
  exact ⟨hb, hepoch, hlt, by omega, hdelay⟩

/-- The walk from the duty's slot finds the earliest inclusion of the window. -/
theorem Coherent.inclusion_eq_forward (h : E.Coherent spec vs) {v : Nat} (hv : v ∈ vs) :
    (List.range' ((E.duty v).slot + 1) (spec.epochStartSlot (E.epoch + 2) - 1 - (E.duty v).slot)).findSome?
      (E.inclusionAt spec v) = E.inclusion spec v := by
  unfold inclusion
  by_cases hepoch : spec.slotToEpoch (E.duty v).slot = E.epoch
  · -- nothing is included up to the duty's slot
    have hlow : spec.epochStartSlot E.epoch ≤ (E.duty v).slot := spec.le_slotToEpoch_iff.1 hepoch.ge
    have hhigh : (E.duty v).slot < spec.epochStartSlot (E.epoch + 1) := spec.slotToEpoch_lt_iff.1 (by omega)
    rw [spec.epochStartSlot_succ] at hhigh
    have hsplit : List.range' (spec.epochStartSlot E.epoch) (spec.slotsPerEpoch * 2) =
        List.range' (spec.epochStartSlot E.epoch) ((E.duty v).slot + 1 - spec.epochStartSlot E.epoch) ++
          List.range' ((E.duty v).slot + 1) (spec.epochStartSlot (E.epoch + 2) - 1 - (E.duty v).slot) := by
      rw [spec.epochStartSlot_succ, spec.epochStartSlot_succ]
      have hjoin := @List.range'_append_1 (spec.epochStartSlot E.epoch) ((E.duty v).slot + 1 - spec.epochStartSlot E.epoch)
        (spec.epochStartSlot E.epoch + spec.slotsPerEpoch + spec.slotsPerEpoch - 1 - (E.duty v).slot)
      rw [show spec.epochStartSlot E.epoch + ((E.duty v).slot + 1 - spec.epochStartSlot E.epoch) = (E.duty v).slot + 1 by
        omega] at hjoin
      rw [hjoin]
      congr 1
      omega
    have hnone : (List.range' (spec.epochStartSlot E.epoch)
        ((E.duty v).slot + 1 - spec.epochStartSlot E.epoch)).findSome? (E.inclusionAt spec v) = none := by
      rw [List.findSome?_eq_none_iff]
      intro s hs
      rw [List.mem_range'_1] at hs
      cases hinc : E.inclusionAt spec v s with
      | none => rfl
      | some inc =>
        have := (h.inclusionAt_some hv hinc).2.2.1
        omega
    rw [hsplit, List.findSome?_append, hnone, Option.none_or]
  · -- a duty of another epoch is included nowhere
    have hnone : ∀ l : List Nat, l.findSome? (E.inclusionAt spec v) = none := by
      intro l
      rw [List.findSome?_eq_none_iff]
      intro s _
      cases hinc : E.inclusionAt spec v s with
      | none => rfl
      | some inc => exact absurd (h.inclusionAt_some hv hinc).2.1 hepoch
    rw [hnone, hnone]

/-! ## Decoding against the chain -/

/-- A context that marks the votes of this epoch as the chain does. -/
structure Context (spec : ChainSpec) (E : AttestedEpoch) (ctx : VoteContext) : Prop where
  canonical : SlotBlocks.Canonical E.block spec E.epoch ctx
  source : ∀ c, ctx.source = some c → c = E.justified

theorem Context.recorded_eq {ctx : VoteContext} (h : Context spec E ctx) {s : Nat} {data : AttestationData}
    (hsource : data.source = E.justified) {inc : AttestationInclusion} (hr : Recorded s (some ctx) data inc) :
    inc = E.recorded spec s data := by
  obtain ⟨-, marks, hm, rfl⟩ := hr
  simp only [voteMarks, computeVoteCorrectness] at hm
  cases hroot : ctx.blockRoots.get data.slot with
  | none => rw [hroot] at hm; cases hm
  | some root =>
    rw [hroot] at hm
    cases hm
    have hhead := rootBefore_succ_iff.2 (h.canonical.head _ _ hroot)
    have htarget := rootBefore_succ_iff.2 h.canonical.target
    have hsrc : (ctx.source.all fun source => data.source.epoch == source.epoch && data.source.root == source.root) = true := by
      cases hc : ctx.source with
      | none => rfl
      | some c => simp [h.source c hc, hsource]
    have hswap : ∀ a b : Root, (some a == some b) = (b == a) := fun a b => by
      rw [Bool.eq_iff_iff, beq_iff_eq, beq_iff_eq, Option.some.injEq]
      exact eq_comm
    unfold recorded
    rw [hhead, htarget, hsrc, h.canonical.epoch_eq, hswap, hswap]

theorem Coherent.extract_get (h : E.Coherent spec vs) {ctx : VoteContext} (hctx : Context spec E ctx) {s : Nat} {r : Root}
    {b : SignedBeaconBlock} (hb : E.block s = some (r, b)) {ws : List Nat} {incs incs' : Inclusions}
    (hx : decodeInclusions spec b s E.epoch E.committeeMap ws (some ctx) incs = .ok incs') {v : Nat}
    (hv : v ∈ ws) : incs'.get v = (incs.get v).or (E.inclusionAt spec v s) := by
  have hadds := decodeInclusions_adds hx
  cases hget : incs.get v with
  | some inc => rw [hadds.keeps v inc hget, Option.some_or]
  | none =>
    rw [Option.none_or, inclusionAt, blockAt_of_some hb, Option.bind_some]
    cases hvote : b.voteOf spec E.committeeMap E.epoch v with
    | none => rw [hadds.absent v hget hvote, Option.map_none]
    | some data =>
      obtain ⟨inc, hinc, hr⟩ := hadds.found v hv data hget hvote
      obtain ⟨hmem, hepoch, -⟩ := b.voteOf_seated hvote
      rw [hinc, Option.map_some, hctx.recorded_eq (h.source s r b hb data hmem hepoch) hr]

/-- Decoding the blocks of a list of slots finds the first inclusion of each validator. -/
theorem Coherent.foldlM_get (h : E.Coherent spec vs) {ctx : VoteContext} (hctx : Context spec E ctx) :
    ∀ (slots : List Nat) {incs incs' : Inclusions},
      (slots.map fun s => (s, blockAt E.block s)).foldlM (fun inclusions (slot, block) => match block with
        | some block =>
          decodeInclusions spec block slot ctx.targetEpoch E.committeeMap vs (some ctx) inclusions
        | none => pure inclusions) incs = Except.ok incs' →
      ∀ v ∈ vs, incs'.get v = (incs.get v).or (slots.findSome? (E.inclusionAt spec v))
  | [], incs, incs', hx, v, _ => by
    obtain rfl := Except.ok.inj (show Except.ok incs = Except.ok incs' from hx)
    rw [List.findSome?_nil, Option.or_none]
  | s :: slots, incs, incs', hx, v, hv => by
    rw [List.map_cons, List.foldlM_cons] at hx
    obtain ⟨mid, h₁, h₂⟩ := bind_eq_ok hx
    rw [h.foldlM_get hctx slots h₂ v hv]
    have hstep : mid.get v = (incs.get v).or (E.inclusionAt spec v s) := by
      cases hb : E.block s with
      | none =>
        have hblock : blockAt E.block s = none := by rw [blockAt, hb]; rfl
        rw [hblock] at h₁
        obtain rfl := Except.ok.inj (show Except.ok incs = Except.ok mid from h₁)
        rw [inclusionAt, hblock, Option.bind_none, Option.or_none]
      | some rb =>
        obtain ⟨r, b⟩ := rb
        rw [blockAt_of_some hb] at h₁
        simp only [hctx.canonical.epoch_eq] at h₁
        exact h.extract_get hctx hb h₁ hv
    rw [hstep, List.findSome?_cons, Option.or_assoc]
    cases E.inclusionAt spec v s with
    | none => rw [Option.none_or]
    | some inc => rw [Option.some_or]

/-! ## What the scans read -/

variable {node : (q : Request) → Except Error q.Answer → Prop}

theorem ServedBy.reads_duties (h : E.ServedBy spec vs node) :
    Reads (indexerSem spec node) (getAttesterDuties E.epoch vs) fun duties => ∀ d ∈ duties, d = E.duty d.validatorIndex :=
  reads_request h.duties

theorem ServedBy.reads_committees (h : E.ServedBy spec vs node) :
    Reads (indexerSem spec node) (getCommittees E.epoch) (· = E.committees) := reads_request h.committees

theorem ServedBy.reads_rewards (h : E.ServedBy spec vs node) :
    Reads (indexerSem spec node) (getAttestationRewards E.epoch vs) fun rewards =>
      ∀ v, (rewardsMap rewards).has v = true → (rewardsMap rewards).get v = some (E.reward v) := by
  refine (reads_getAttestationRewards (P := fun rewards => ∀ r ∈ rewards, r = E.reward r.validatorIndex) h.rewards).mono ?_
  intro rewards hr v hv
  obtain ⟨r, hget⟩ := Table.has_iff.1 hv
  obtain ⟨r', hr', heq⟩ := List.mem_map.1 (Table.mem_of_get_ofList hget)
  obtain ⟨rfl, rfl⟩ := Prod.mk.inj heq
  rw [hget, ← hr r' hr']

theorem ServedBy.reads_denseContext (h : E.ServedBy spec vs node) :
    Reads (indexerSem spec node) (buildVoteContext spec E.epoch (spec.epochStartSlot E.epoch)
      ((List.range' (spec.epochStartSlot E.epoch) spec.slotsPerEpoch).map fun s => (s, blockAt E.block s)))
      (Context spec E) := by
  have hsource : Reads (indexerSem spec node) (buildVoteContext spec E.epoch (spec.epochStartSlot E.epoch)
      ((List.range' (spec.epochStartSlot E.epoch) spec.slotsPerEpoch).map fun s => (s, blockAt E.block s)))
      fun ctx => ∀ c, ctx.source = some c → c = E.justified := by
    refine Reads.bind (reads_buildBlockRootMap h.blocks _) fun roots _ => ?_
    cases roots.get (spec.epochStartSlot E.epoch) with
    | none => exact Reads.throw
    | some target =>
      refine Reads.bind (reads_getFinalityCheckpoints h.checkpoints) fun checkpoints hj => Reads.pure fun c hc => ?_
      rw [← Option.some.inj hc]
      exact hj
  exact ((reads_buildVoteContext h.blocks E.epoch).both hsource).mono fun ctx hctx => ⟨hctx.1.1, hctx.2⟩

theorem ServedBy.reads_sparseContext (h : E.ServedBy spec vs node) (duty : AttesterDuty) :
    Reads (indexerSem spec node) (sparseVoteContext spec duty E.epoch) (Context spec E) := by
  have hsource : Reads (indexerSem spec node) (sparseVoteContext spec duty E.epoch) fun ctx =>
      ∀ c, ctx.source = some c → c = E.justified := by
    refine Reads.bind (reads_rootAtOrBefore h.blocks _) fun _ _ => ?_
    exact Reads.bind (reads_rootAtOrBefore h.blocks _) fun _ _ => Reads.pure fun c hc => by cases hc
  exact ((reads_sparseVoteContext h.blocks duty E.epoch).both hsource).mono fun ctx hctx => ⟨hctx.1.1, hctx.2⟩

/-- The walk over a list of slots finds the first inclusion and counts the skipped slots before it. -/
theorem ServedBy.reads_scanForward (h : E.ServedBy spec vs node) (hc : E.Coherent spec vs) {ctx : VoteContext}
    (hctx : Context spec E ctx) {duty : AttesterDuty} : ∀ n slot : Nat, duty.slot < slot →
    Reads (indexerSem spec node)
      (scanForward spec duty E.epoch E.committeeMap ctx n slot (skippedIn E.block duty.slot slot))
      (· = ((List.range' slot n).findSome? (E.inclusionAt spec duty.validatorIndex)).map fun inc =>
        (inc, skippedIn E.block duty.slot inc.inclusionSlot)) := by
  intro n
  induction n with
  | zero => exact fun slot _ => Reads.pure rfl
  | succ n ih =>
    intro slot hlt
    have hnext := ih (slot + 1) (by omega)
    rw [skippedIn_succ hlt] at hnext
    unfold scanForward
    rw [List.range'_succ, List.findSome?_cons]
    refine Reads.bind (reads_getBlockBySlot h.blocks slot) fun b hb => ?_
    cases hs : E.block slot with
    | none =>
      obtain rfl : b = none := by simp [hb, blockAt, hs]
      have hnone : E.inclusionAt spec duty.validatorIndex slot = none := by rw [inclusionAt, ← hb, Option.bind_none]
      rw [hnone]
      simp only [hs, Option.isNone_none, if_true] at hnext
      exact hnext
    | some rb =>
      obtain ⟨r, block⟩ := rb
      obtain rfl : b = some block := by simp [hb, blockAt, hs]
      simp only [hs, Option.isNone_some, Bool.false_eq_true, if_false, Nat.add_zero] at hnext
      refine Reads.bind (P := fun incs => incs.get duty.validatorIndex = E.inclusionAt spec duty.validatorIndex slot) ?_
        fun incs hincs => ?_
      · refine reads_ofExcept fun incs hx => ?_
        have hget := hc.extract_get hctx hs hx (List.mem_singleton_self _)
        rw [hget, Table.get_empty, Option.none_or]
      · rw [hincs]
        cases hat : E.inclusionAt spec duty.validatorIndex slot with
        | none => exact hnext
        | some inc =>
          have hslot : inc.inclusionSlot = slot := by
            obtain ⟨b, -, hv⟩ := Option.bind_eq_some_iff.1 hat
            obtain ⟨data, -, rfl⟩ := Option.map_eq_some_iff.1 hv
            rfl
          exact Reads.pure (by rw [Option.map_some, hslot])

theorem ServedBy.reads_found (h : E.ServedBy spec vs node) (hc : E.Coherent spec vs) {duty : AttesterDuty}
    (hd : duty = E.duty duty.validatorIndex) (hv : duty.validatorIndex ∈ vs) :
    Reads (indexerSem spec node) (scanForwardForInclusion spec duty E.epoch E.committeeMap)
      (· = (E.inclusion spec duty.validatorIndex).map fun inc =>
        (inc, skippedIn E.block duty.slot inc.inclusionSlot)) := by
  have hforward := hc.inclusion_eq_forward hv
  rw [← hd] at hforward
  rw [scanForwardForInclusion_eq, ← hforward, ← skippedIn_self_succ duty.slot]
  exact Reads.bind (h.reads_sparseContext duty) fun ctx hctx => h.reads_scanForward hc hctx _ _ (by omega)

/-! ## The rows of the two scans -/

/-- The row of a validator whose scan looked at every slot. -/
theorem Coherent.denseRow_eq (h : E.Coherent spec vs) {v : Nat} (hv : v ∈ vs) (finalized : Bool) :
    denseRow finalized (E.duty v) (E.inclusion spec v) (some (E.reward v))
      ((((List.range' (spec.epochStartSlot E.epoch) (spec.slotsPerEpoch * 2)).map fun s => (s, blockAt E.block s)).filter
        (·.2.isNone)).map (·.1)) = E.write spec finalized v := by
  unfold denseRow write
  cases hinc : E.inclusion spec v with
  | none => rfl
  | some inc =>
    obtain ⟨hb, hepoch, hlt, hstop, hdelay⟩ := h.inclusion_some hv hinc
    have hwindow : ∀ s, (E.duty v).slot < s → s < inc.inclusionSlot →
        s ∈ List.range' (spec.epochStartSlot E.epoch) (spec.slotsPerEpoch * 2) := fun s hs hsi => by
      have hlow := spec.le_slotToEpoch_iff.1 hepoch.ge
      rw [spec.epochStartSlot_succ, spec.epochStartSlot_succ] at hstop
      rw [List.mem_range'_1]
      omega
    have heff := effectiveInclusionDelay_eq hlt hb hwindow
    simp only [Option.map_some, hdelay, heff]
    rfl

/-- The values of the sparse scan: a miss may carry the delay of a reward response. -/
def sparseWrite (spec : ChainSpec) (E : AttestedEpoch) (finalized : Bool) (v : Nat) : AttestationWrite :=
  { E.write spec finalized v with
    inclusionDelay := if (E.inclusion spec v).isSome then (E.write spec finalized v).inclusionDelay
      else (E.reward v).inclusionDelay.map asI32 }

theorem Coherent.sparseRow_eq (h : E.Coherent spec vs) {v : Nat} (hv : v ∈ vs) (finalized : Bool)
    (hreward : rewardedWithoutInclusion (some (E.reward v)) ((E.inclusion spec v).map fun inc =>
      (inc, skippedIn E.block (E.duty v).slot inc.inclusionSlot)) = false) :
    sparseRow finalized (E.duty v) (some (E.reward v)) ((E.inclusion spec v).map fun inc =>
      (inc, skippedIn E.block (E.duty v).slot inc.inclusionSlot)) = sparseWrite spec E finalized v := by
  unfold sparseRow sparseWrite write deriveSparseRow sparseDelays
  cases hinc : E.inclusion spec v with
  | none =>
    -- no reward is positive, so none is taken for a correct vote
    rw [hinc] at hreward
    simp only [rewardedWithoutInclusion, Option.map_none, Option.isNone_none, Bool.true_and, Option.any_some,
      Bool.or_eq_false_iff, decide_eq_false_iff_not] at hreward
    obtain ⟨⟨hsource, htarget⟩, hhead⟩ := hreward
    simp only [Option.map_none, Option.map_some, ifPositive, if_neg hsource, if_neg htarget, if_neg hhead]
    cases hdelay : (E.reward v).inclusionDelay <;> simp [hdelay]
  | some inc =>
    obtain ⟨hb, hepoch, hlt, hstop, hdelay⟩ := h.inclusion_some hv hinc
    have hcount := blocksIn_add_skippedIn hlt hb
    have hraw : (inc.inclusionSlot : Int) - (E.duty v).slot = (inc.inclusionSlot - (E.duty v).slot : Nat) := by omega
    have heff : ((inc.inclusionSlot - (E.duty v).slot : Nat) : Int) - skippedIn E.block (E.duty v).slot inc.inclusionSlot =
        blocksIn E.block (E.duty v).slot inc.inclusionSlot := by omega
    simp only [Option.map_some, Option.isSome_some, if_true, hdelay, hraw, heff]
    rfl

end AttestedEpoch

/-! ## Writing the rows -/

/-- Writing the same values again changes nothing. -/
theorem upsertedAttestation_again (completed : Bool) (w : AttestationWrite) (old : Option AttestationRow) :
    Db.upsertedAttestation completed w (some (Db.upsertedAttestation completed w old)) =
      Db.upsertedAttestation completed w old := by
  have hrow : w.merge w.toRow = w.toRow := by
    simp [AttestationWrite.merge, AttestationWrite.toRow, coalesce]
  have hmerge : ∀ old, w.merge (w.merge old) = w.merge old := fun old => by
    simp [AttestationWrite.merge, coalesce, ← Option.or_assoc]
  cases old with
  | none =>
    simp only [Db.upsertedAttestation, hrow]
    split <;> rfl
  | some old =>
    simp only [Db.upsertedAttestation]
    by_cases hr : w.replaces completed old = true
    · simp only [if_pos hr, hmerge]
      split <;> rfl
    · simp only [if_neg hr]

/-- What is left after the values `W` were written for some validators. -/
def RowsWritten (epoch : Nat) (W : Nat → AttestationWrite) (db : Db) (written : List Nat) (db' : Db) : Prop :=
  db'.completedScans = db.completedScans ∧ ∀ v, db'.attestationDuties.get (v, epoch) =
    if v ∈ written then
      some (Db.upsertedAttestation (db.completed v epoch) (W v) (db.attestationDuties.get (v, epoch)))
    else db.attestationDuties.get (v, epoch)

theorem RowsWritten.step {epoch : Nat} {W : Nat → AttestationWrite} {db db' : Db} {written : List Nat}
    (h : RowsWritten epoch W db written db') (v : Nat) :
    RowsWritten epoch W db (written ++ [v]) (db'.upsertAttestationDuty v epoch (W v)) := by
  refine ⟨h.1, fun u => ?_⟩
  have hcompleted : db'.completed v epoch = db.completed v epoch := congrArg (Table.has · (v, epoch)) h.1
  rw [Db.upsertAttestationDuty_get, hcompleted, h.2 u]
  simp only [List.mem_append, List.mem_singleton]
  by_cases hu : u = v
  · subst hu
    rw [if_pos rfl, if_pos (Or.inr rfl)]
    by_cases hm : u ∈ written
    · rw [if_pos hm, upsertedAttestation_again]
    · rw [if_neg hm]
  · have hk : ¬(u, epoch) = (v, epoch) := fun hk => hu (Prod.mk.inj hk).1
    rw [if_neg hk]
    simp only [hu, or_false]

/-- A loop that writes the row of each duty. -/
theorem ok_each_upserts {spec : ChainSpec} {node : (q : Request) → Except Error q.Answer → Prop} (epoch : Nat)
    (W : Nat → AttestationWrite) {f : AttesterDuty → Task Unit} {duties : List AttesterDuty} {db : Db}
    (hf : ∀ d ∈ duties, ∀ db', (alone (indexerSem spec node)).Ok (f d) db'
      (fun _ db'' => db'' = db'.upsertAttestationDuty d.validatorIndex epoch (W d.validatorIndex)) fun _ _ => True) :
    (alone (indexerSem spec node)).Ok (each f duties) db
      (fun _ db' => RowsWritten epoch W db (duties.map (·.validatorIndex)) db') fun _ _ => True := by
  refine Ok.each (fun (done : List AttesterDuty) db' => RowsWritten epoch W db (done.map (·.validatorIndex)) db') ?_ ?_ [] db ⟨rfl, fun _ => rfl⟩
  · rintro done s s' rfl h
    exact h
  · intro done d hd db' h
    refine (hf d hd db').imp fun _ db'' hdb => ?_
    rw [hdb, List.map_append]
    exact h.step d.validatorIndex

theorem ok_upsert {spec : ChainSpec} {node : (q : Request) → Except Error q.Answer → Prop} (v epoch : Nat)
    (w : AttestationWrite) (db : Db) : (alone (indexerSem spec node)).Ok (statement (.upsertAttestationDuty v epoch w)) db
      (fun _ db' => db' = db.upsertAttestationDuty v epoch w) fun _ _ => True := by
  refine Ok.ask (fun _ _ => trivial) fun s₁ r s₂ s₃ h1 hr h3 => ?_
  obtain rfl : db = s₁ := h1
  obtain rfl : s₂ = s₃ := h3
  obtain ⟨now, rfl, rfl⟩ | ⟨message, rfl, rfl⟩ := hr
  · rfl
  · trivial

theorem validateEpochResponse_ok {vs : List Nat} {duties : List AttesterDuty} {rewards : Table Nat ValidatorAttestationReward}
    (h : validateEpochResponse vs duties rewards = .ok ()) {v : Nat} (hv : v ∈ vs) :
    v ∈ duties.map (·.validatorIndex) ∧ rewards.has v = true := by
  unfold validateEpochResponse at h
  cases hf : vs.find? fun v => !(duties.map (·.validatorIndex)).contains v || !rewards.has v with
  | some u => rw [hf] at h; cases h
  | none =>
    have hv := List.find?_eq_none.1 hf v hv
    simp only [Bool.or_eq_true, Bool.not_eq_true', not_or, Bool.not_eq_false, List.contains_iff_mem] at hv
    exact hv

namespace AttestedEpoch

open SlotBlocks

variable {spec : ChainSpec} {E : AttestedEpoch} {vs : List Nat} {node : (q : Request) → Except Error q.Answer → Prop}

/-- A successful dense scan has written the row of every tracked validator. -/
theorem ServedBy.dense_writes (h : E.ServedBy spec vs node) (hc : E.Coherent spec vs) (finalized : Bool) (db : Db) :
    (alone (indexerSem spec node)).Ok (processEpochAttestationDuties spec E.epoch vs finalized) db
      (fun _ db' => ∀ v ∈ vs, db'.attestationDuties.get (v, E.epoch) = some (Db.upsertedAttestation
        (db.completed v E.epoch) (E.write spec finalized v) (db.attestationDuties.get (v, E.epoch)))) fun _ _ => True := by
  unfold processEpochAttestationDuties
  refine Reads.andThen (reads_fetchBlocksForSlots h.blocks _) (fun allBlocks hall => ?_) fun _ => trivial
  subst hall
  have htake : ((List.range' (spec.epochStartSlot E.epoch) (spec.slotsPerEpoch * 2)).map fun s =>
      (s, blockAt E.block s)).take spec.slotsPerEpoch =
      (List.range' (spec.epochStartSlot E.epoch) spec.slotsPerEpoch).map fun s => (s, blockAt E.block s) := by
    rw [← List.map_take, List.take_range'_of_length_ge (by omega)]
  dsimp only
  rw [htake]
  refine Reads.andThen h.reads_committees (fun committees hcm => ?_) fun _ => trivial
  subst hcm
  refine Reads.andThen h.reads_denseContext (fun ctx hctx => ?_) fun _ => trivial
  refine Reads.andThen h.reads_duties (fun duties hduties => ?_) fun _ => trivial
  refine Reads.andThen h.reads_rewards (fun rewards hrewards => ?_) fun _ => trivial
  refine Reads.andThen (reads_ofExcept fun _ hvalid => hvalid) (fun _ hvalid => ?_) fun _ => trivial
  refine Reads.andThen (reads_ofExcept fun _ hdecoded => hdecoded) (fun incs hdecoded => ?_) fun _ => trivial
  have hincs : ∀ v ∈ vs, incs.get v = E.inclusion spec v := by
    intro v hv
    rw [hc.foldlM_get hctx _ hdecoded v hv, Table.get_empty, Option.none_or]
    rfl
  refine (ok_each_upserts E.epoch (E.write spec finalized) fun d hd db' => ?_).imp fun _ db' hdb v hv => ?_
  · obtain ⟨hd, hv⟩ := List.mem_filter.1 hd
    rw [List.contains_iff_mem] at hv
    have hduty : d = E.duty d.validatorIndex := hduties d hd
    have hrow := hc.denseRow_eq hv finalized
    rw [← hduty] at hrow
    rw [hincs _ hv, hrewards _ (validateEpochResponse_ok hvalid hv).2, hrow]
    exact ok_upsert _ _ _ _
  · obtain ⟨d, hd, rfl⟩ := List.mem_map.1 (validateEpochResponse_ok hvalid hv).1
    rw [hdb.2, if_pos]
    exact List.mem_map_of_mem (List.mem_filter.2 ⟨hd, List.contains_iff_mem.2 hv⟩)

/-- A successful sparse scan has written the row of every tracked validator. -/
theorem ServedBy.sparse_writes (h : E.ServedBy spec vs node) (hc : E.Coherent spec vs) (finalized : Bool) (db : Db) :
    (alone (indexerSem spec node)).Ok (processEpochAttestationDutiesSparse spec E.epoch vs finalized) db
      (fun _ db' => ∀ v ∈ vs, db'.attestationDuties.get (v, E.epoch) = some (Db.upsertedAttestation
        (db.completed v E.epoch) (sparseWrite spec E finalized v) (db.attestationDuties.get (v, E.epoch))))
      fun _ _ => True := by
  unfold processEpochAttestationDutiesSparse
  by_cases hempty : vs.isEmpty = true
  · rw [if_pos hempty]
    refine Ok.pure fun db' _ v hv => ?_
    rw [List.isEmpty_iff.1 hempty] at hv
    cases hv
  rw [if_neg hempty]
  refine Reads.andThen h.reads_duties (fun duties hduties => ?_) fun _ => trivial
  refine Reads.andThen h.reads_rewards (fun rewards hrewards => ?_) fun _ => trivial
  refine Reads.andThen (reads_ofExcept fun _ hvalid => hvalid) (fun _ hvalid => ?_) fun _ => trivial
  refine Reads.andThen h.reads_committees (fun committees hcm => ?_) fun _ => trivial
  subst hcm
  refine (ok_each_upserts E.epoch (sparseWrite spec E finalized) fun d hd db' => ?_).imp fun _ db' hdb v hv => ?_
  · obtain ⟨hd, hv⟩ := List.mem_filter.1 hd
    rw [List.contains_iff_mem] at hv
    have hduty : d = E.duty d.validatorIndex := hduties d hd
    dsimp only
    refine Reads.andThen (h.reads_found hc hduty hv) (fun found hfound => ?_) fun _ => trivial
    subst hfound
    rw [hrewards _ (validateEpochResponse_ok hvalid hv).2]
    refine Ok.check (fun _ _ _ => trivial) fun hreward => ?_
    have hrow := hc.sparseRow_eq hv finalized
    rw [← hduty] at hrow
    rw [hrow (by simpa using hreward)]
    exact ok_upsert _ _ _ _
  · obtain ⟨d, hd, rfl⟩ := List.mem_map.1 (validateEpochResponse_ok hvalid hv).1
    rw [hdb.2, if_pos]
    exact List.mem_map_of_mem (List.mem_filter.2 ⟨hd, List.contains_iff_mem.2 hv⟩)

/-- The dense and the sparse scan leave the same row for every tracked validator, but for the delay of a vote that was
never included. -/
theorem dense_sparse_rows (h : E.ServedBy spec vs node) (hc : E.Coherent spec vs) (finalized : Bool) {db dense sparse : Db}
    (hdense : Exec (indexerSem spec node) (processEpochAttestationDuties spec E.epoch vs finalized).run db (.ok ()) dense)
    (hsparse : Exec (indexerSem spec node) (processEpochAttestationDutiesSparse spec E.epoch vs finalized).run db (.ok ())
      sparse) : ∀ v ∈ vs, ∃ row row', dense.attestationDuties.get (v, E.epoch) = some row ∧
        sparse.attestationDuties.get (v, E.epoch) = some row' ∧
        row' = { row with inclusionDelay := row'.inclusionDelay } ∧
        (row.included = true → row'.inclusionDelay = row.inclusionDelay) := by
  intro v hv
  refine ⟨_, _, Ok.exec (h.dense_writes hc finalized db) hdense v hv,
    Ok.exec (h.sparse_writes hc finalized db) hsparse v hv, ?_⟩
  have hdelay : (E.write spec finalized v).included = true →
      (sparseWrite spec E finalized v).inclusionDelay = (E.write spec finalized v).inclusionDelay := fun hi => if_pos hi
  cases hold : db.attestationDuties.get (v, E.epoch) with
  | none => exact ⟨rfl, hdelay⟩
  | some old =>
    -- which values replace a row does not depend on the delay
    have hreplaces : (sparseWrite spec E finalized v).replaces (db.completed v E.epoch) old =
        (E.write spec finalized v).replaces (db.completed v E.epoch) old := rfl
    simp only [Db.upsertedAttestation, hreplaces]
    by_cases hr : (E.write spec finalized v).replaces (db.completed v E.epoch) old = true
    · simp only [if_pos hr]
      exact ⟨rfl, hdelay⟩
    · simp only [if_neg hr]
      exact ⟨trivial, fun _ => trivial⟩

end AttestedEpoch

/-! ## A late inclusion after a skipped boundary -/

def pairs : ChainSpec := ⟨2, 8, 2, 1000, Nat.zero_lt_two⟩

/-- Slot 2, the first of epoch 1, is skipped; the vote of validator 7 for it is included in slot 4. -/
def lateBlocks : SlotBlocks := fun s =>
  if s = 4 then some (⟨4⟩, ⟨4, 0, ⟨3⟩, ⟨0⟩, .phase0 [⟨['0', 'x', '0', '3'], ⟨2, 0, ⟨1⟩, ⟨0, ⟨0⟩⟩, ⟨1, ⟨1⟩⟩⟩⟩]⟩)
  else if s = 1 ∨ s = 3 then some (⟨s⟩, bareBlock s ⟨s - 2⟩) else none

def lateEpoch : AttestedEpoch where
  epoch := 1
  block := lateBlocks
  committees := [⟨0, 2, [7]⟩]
  duty := fun v => ⟨v, 0, 0, 2⟩
  reward := fun v => ⟨v, 1, 1, 1, none, none⟩
  justified := ⟨0, ⟨0⟩⟩

def lateNode : (q : Request) → Except Error q.Answer
  | .blockRoot s => .ok (SlotBlocks.rootAt lateBlocks s)
  | .blockByRoot r => .ok (SlotBlocks.blockAt lateBlocks r.value)
  | .committees _ => .ok [⟨0, 2, [7]⟩]
  | .attesterDuties _ _ => .ok [⟨7, 0, 0, 2⟩]
  | .attestationRewards _ _ => .ok ⟨[⟨7, 1, 1, 1, none, none⟩], none⟩
  | .finalityCheckpoints _ => .ok ⟨⟨⟨0, ⟨0⟩⟩, ⟨0, ⟨0⟩⟩⟩, none⟩
  | _ => .error (.http "no answer")

theorem lateBlocks_cases {s : Nat} {r : Root} {b : SignedBeaconBlock} (h : lateBlocks s = some (r, b)) :
    r = ⟨s⟩ ∧ b.slot = s ∧ (s = 4 ∨ b.attestationData = []) := by
  unfold lateBlocks at h
  split at h
  · rename_i hs
    cases h
    exact ⟨by rw [hs], hs.symm, Or.inl hs⟩
  · split at h
    · cases h
      exact ⟨rfl, rfl, Or.inr rfl⟩
    · cases h

theorem lateEpoch_coherent : lateEpoch.Coherent pairs [7] := by
  have hdata : ∀ s r b, lateBlocks s = some (r, b) → ∀ data ∈ b.attestationData,
      s = 4 ∧ data.slot = 2 ∧ data.source = ⟨0, ⟨0⟩⟩ := by
    intro s r b hb data hd
    obtain ⟨-, -, rfl | hnil⟩ := lateBlocks_cases hb
    · cases hb
      obtain rfl := List.mem_singleton.1 hd
      exact ⟨rfl, rfl, rfl⟩
    · rw [hnil] at hd
      cases hd
  constructor
  case earlier =>
    intro s r b hb data hd
    obtain ⟨rfl, hslot, -⟩ := hdata s r b hb data hd
    omega
  case source =>
    intro s r b hb data hd _
    exact (hdata s r b hb data hd).2.2
  case seated =>
    intro v hv slot index members p hm hp
    obtain rfl := List.mem_singleton.1 hv
    change (Table.empty.put (2, 0) [7]).get (slot, index) = some members at hm
    rw [Table.get_put] at hm
    split at hm
    · rename_i hk
      obtain ⟨rfl, rfl⟩ := Prod.mk.inj hk
      cases hm
      obtain ⟨hlt, -⟩ := List.getElem?_eq_some_iff.1 hp
      have hzero : p = 0 := by simpa using hlt
      exact ⟨rfl, rfl, hzero⟩
    · cases hm

theorem lateEpoch_served : lateEpoch.ServedBy pairs [7] fun q r => r = lateNode q := by
  constructor
  case blocks =>
    refine ⟨fun h => (lateBlocks_cases h).2.1, fun h => Except.ok.inj h, fun h hb => ?_⟩
    obtain ⟨rfl, -⟩ := lateBlocks_cases hb
    rw [Except.ok.inj h]
    exact SlotBlocks.blockAt_of_some hb
  case committees => exact fun a ha => Except.ok.inj ha
  case duties =>
    intro a ha d hd
    rw [Except.ok.inj ha] at hd
    rw [List.mem_singleton.1 hd]
    rfl
  case rewards =>
    intro a ha r hr
    rw [Except.ok.inj ha] at hr
    rw [List.mem_singleton.1 hr]
    rfl
  case checkpoints =>
    intro a ha
    rw [Except.ok.inj ha]
    rfl

theorem dense_sparse_rows_late : ∃ (dense sparse : Db) (row row' : AttestationRow), dense.attestationDuties.get (7, 1) = some row ∧
    sparse.attestationDuties.get (7, 1) = some row' ∧ row.included = true ∧ row.inclusionSlot = some 4 ∧
    row.effectiveInclusionDelay = some 2 ∧ row.headCorrect = some true ∧ row' = row := by
  obtain ⟨⟨⟩, dense, hdense, hlate⟩ := @exec_of_advance pairs lateNode _
    (processEpochAttestationDuties pairs lateEpoch.epoch [7] true) 60 (.registered [7])
    (fun _ db => (db.attestationDuties.get (7, 1)).any fun row => row.included && row.inclusionSlot == some 4 &&
      row.effectiveInclusionDelay == some 2 && row.headCorrect == some true) (by decide +kernel)
  obtain ⟨⟨⟩, sparse, hsparse, -⟩ := @exec_of_advance pairs lateNode _
    (processEpochAttestationDutiesSparse pairs lateEpoch.epoch [7] true) 60 (.registered [7]) (fun _ _ => true) (by decide +kernel)
  obtain ⟨row, row', hrow, hrow', heq, hdelay⟩ :=
    AttestedEpoch.dense_sparse_rows lateEpoch_served lateEpoch_coherent true hdense hsparse 7 (by simp)
  change dense.attestationDuties.get (7, 1) = some row at hrow
  rw [hrow] at hlate
  simp only [Option.any_some, Bool.and_eq_true, beq_iff_eq] at hlate
  obtain ⟨⟨⟨hi, hslot⟩, heff⟩, hhead⟩ := hlate
  refine ⟨dense, sparse, row, row', hrow, hrow', hi, hslot, heff, hhead, ?_⟩
  rw [heq, hdelay hi]

end BeaconIndexer
