/-
A finalized archive scan over provisional rows: two scans of one epoch with the same answers of the node write
the same values, and the rows they leave differ exactly where the scan leaves a column NULL.
-/
import BeaconIndexer.Base.Twin
import BeaconIndexer.Proofs.ArchiveRows
import BeaconIndexer.Proofs.SyncRows
import BeaconIndexer.Scanner.Epoch

namespace BeaconIndexer

open Effects Relational

/-! ## What two scans read -/

/-- A node that always answers by this function. -/
abbrev answering (spec : ChainSpec) (node : (q : Request) → Except Error q.Answer) : Sem indexer Db :=
  indexerSem spec fun q r => r = node q

section Reading

variable {spec : ChainSpec} {node : (q : Request) → Except Error q.Answer}

theorem agrees_request (q : Request) : Agrees (answering spec node) (request q) fun a => node q = .ok a := by
  intro s s' a a' t t' h₁ h₂
  obtain ⟨_, _, ⟨rfl, rfl⟩, hp⟩ := Exec.call_iff.1 h₁
  obtain ⟨_, _, ⟨rfl, rfl⟩, hp'⟩ := Exec.call_iff.1 h₂
  obtain ⟨ha, rfl⟩ := Exec.pure_iff.1 hp
  obtain ⟨ha', rfl⟩ := Exec.pure_iff.1 hp'
  exact ⟨Except.ok.inj (ha.trans ha'.symm), ha.symm, rfl, rfl⟩

theorem agrees_attempt_request (q : Request) : Agrees (answering spec node) (attempt (request q)) (· = node q) := by
  intro s s' a a' t t' h₁ h₂
  have hrun : ∀ {s t : Db} {a : Except Error q.Answer}, Exec (answering spec node) (attempt (request q)).run s (.ok a) t →
      a = node q ∧ t = s := by
    intro s t a h
    obtain ⟨r, s₁, hx, hp⟩ := Exec.bind_iff.1
      (show Exec _ ((request q).run.bind fun r => .pure (Except.ok r)) s (Except.ok a) t from h)
    obtain ⟨ha, rfl⟩ := Exec.pure_iff.1 hp
    cases ha
    obtain ⟨r', s₂, hr, hp'⟩ := Exec.call_iff.1 hx
    obtain ⟨rfl, rfl⟩ := Exec.pure_iff.1 hp'
    exact hr
  obtain ⟨rfl, rfl⟩ := hrun h₁
  obtain ⟨rfl, rfl⟩ := hrun h₂
  exact ⟨rfl, rfl, rfl, rfl⟩

theorem agrees_ofExcept {α : Type} (x : Except Error α) : Agrees (answering spec node) (ofExcept x) fun a => x = .ok a := by
  cases x with
  | ok a => exact .pure rfl
  | error e => exact .throw

/-- The block the node has at a slot. -/
def blockOf (node : (q : Request) → Except Error q.Answer) (slot : Nat) : Option SignedBeaconBlock :=
  match node (.blockRoot slot) with
  | .ok (some root) => match node (.blockByRoot root) with
    | .ok block => block
    | .error _ => none
  | _ => none

theorem agrees_getBlockBySlot (slot : Nat) :
    Agrees (answering spec node) (getBlockBySlot slot) (· = blockOf node slot) := by
  unfold getBlockBySlot
  refine .bind (agrees_request _) fun root hroot => ?_
  unfold blockOf
  rw [hroot]
  cases root with
  | none => exact .pure rfl
  | some root =>
    refine .bind (agrees_request _) fun block hblock => .check fun _ => .pure ?_
    simp only [hblock]

theorem eq_map_of_forall₂ {α β : Type} {g : α → β} : ∀ {l : List α} {bs : List β},
    List.Forall₂ (fun a b => b = g a) l bs → bs = l.map g
  | _, _, .nil => rfl
  | _, _, .cons h hrest => by rw [h, eq_map_of_forall₂ hrest]; rfl

theorem agrees_fetchBlocksForSlots (slots : List Nat) : Agrees (answering spec node) (fetchBlocksForSlots slots)
    (· = slots.map fun s => (s, blockOf node s)) := by
  unfold fetchBlocksForSlots
  refine (Agrees.collect (P := fun s b => b = (s, blockOf node s)) fun s _ => ?_).mono fun _ h => eq_map_of_forall₂ h
  exact .bind (agrees_getBlockBySlot s) fun b hb => .pure (by rw [hb])

theorem agrees_firstRoot : ∀ slots : List Nat, Agrees (answering spec node) (firstRoot slots) fun _ => True
  | [] => .pure trivial
  | s :: slots => by
    refine .bind (agrees_request _) fun root _ => ?_
    cases root with
    | some root => exact .pure trivial
    | none => exact agrees_firstRoot slots

theorem agrees_buildVoteContext (epoch start : Nat) (blocks : List (Nat × Option SignedBeaconBlock)) :
    Agrees (answering spec node) (buildVoteContext spec epoch start blocks) fun ctx => ctx.targetEpoch = epoch := by
  have hroots : Agrees (answering spec node) (buildBlockRootMap spec start blocks) fun _ => True := by
    refine .bind (P := fun _ => True) ?_ fun fetched _ => ?_
    · refine (Agrees.collect (P := fun _ _ => True) fun b _ => ?_).mono fun _ _ => trivial
      refine .bind (agrees_request _) fun root _ => ?_
      cases root with
      | some root => exact .pure trivial
      | none => exact .throw
    · dsimp only
      split
      · exact .bind (agrees_firstRoot _) fun _ _ => (agrees_ofExcept _).mono fun _ _ => trivial
      · exact (agrees_ofExcept _).mono fun _ _ => trivial
  refine .bind hroots fun roots _ => ?_
  cases roots.get start with
  | none => exact .throw
  | some target =>
    refine .bind (P := fun _ => True) ?_ fun checkpoints _ => .pure rfl
    refine .bind (agrees_request _) fun response _ => .bind (P := fun _ => True) ?_ fun _ _ => .pure trivial
    unfold ensureNotOptimistic
    split
    · exact .throw
    · exact .pure trivial

theorem agrees_rewards (epoch : Nat) (vs : List Nat) : Agrees (answering spec node) (getAttestationRewards epoch vs)
    fun rewards => ∃ response, node (.attestationRewards epoch vs) = .ok response ∧ response.data = rewards := by
  refine .bind (P := fun response => node (.attestationRewards epoch vs) = .ok response) ?_ fun response hr =>
    .pure ⟨response, hr, rfl⟩
  refine .bind (agrees_request _) fun response hr => .bind (P := fun _ => True) ?_ fun _ _ => .pure hr
  unfold ensureNotOptimistic
  split
  · exact .throw
  · exact .pure trivial

theorem agrees_rootAtOrBefore (slot : Nat) : Agrees (answering spec node) (rootAtOrBefore spec slot) fun _ => True := by
  refine .bind (agrees_firstRoot _) fun root _ => ?_
  cases root with
  | some root => exact .pure trivial
  | none => exact .throw

/-- Nothing is found where no block of the slots carries a vote. -/
theorem agrees_scanForward (duty : AttesterDuty) (epoch : Nat) (cmap : CommitteeMap) (ctx : VoteContext) :
    ∀ n slot missed, Agrees (answering spec node) (scanForward spec duty epoch cmap ctx n slot missed) fun found =>
      found = none ↔ ∀ s ∈ List.range' slot n, ∀ b, blockOf node s = some b →
        b.voteOf spec cmap epoch duty.validatorIndex = none := by
  intro n
  induction n with
  | zero => exact fun slot missed => .pure (by simp)
  | succ n ih =>
    intro slot missed
    unfold scanForward
    rw [List.range'_succ]
    refine .bind (agrees_getBlockBySlot slot) fun block hblock => ?_
    cases block with
    | none =>
      refine (ih (slot + 1) (missed + 1)).mono fun found hfound => hfound.trans ?_
      simp [← hblock]
    | some block =>
      refine .bind (agrees_ofExcept _) fun incs hx => ?_
      have hadds := decodeInclusions_adds hx
      cases hget : incs.get duty.validatorIndex with
      | some inc =>
        obtain ⟨-, data, hvote, -⟩ := hadds.recorded rfl hget
        refine .pure ⟨fun h => (by cases h), fun h => ?_⟩
        have hnone := h slot (List.mem_cons_self ..) block hblock.symm
        rw [hvote] at hnone
        cases hnone
      | none =>
        have hvote : block.voteOf spec cmap epoch duty.validatorIndex = none := by
          cases hvote : block.voteOf spec cmap epoch duty.validatorIndex with
          | none => rfl
          | some data =>
            obtain ⟨inc, hinc, -⟩ := hadds.found _ (List.mem_singleton_self _) data rfl hvote
            rw [hget] at hinc
            cases hinc
        refine (ih (slot + 1) missed).mono fun found hfound => hfound.trans ?_
        constructor
        · intro h s hs b hb
          obtain rfl | hs := List.mem_cons.1 hs
          · rw [← hblock] at hb
            cases hb
            exact hvote
          · exact h s hs b hb
        · exact fun h s hs => h s (List.mem_cons_of_mem _ hs)

theorem agrees_scanForwardForInclusion (duty : AttesterDuty) (epoch : Nat) (cmap : CommitteeMap) :
    Agrees (answering spec node) (scanForwardForInclusion spec duty epoch cmap) fun found => found = none ↔
      ∀ s ∈ List.range' (duty.slot + 1) (spec.epochStartSlot (epoch + 2) - 1 - duty.slot), ∀ b, blockOf node s = some b →
        b.voteOf spec cmap epoch duty.validatorIndex = none :=
  .bind (agrees_rootAtOrBefore _) fun _ _ => .bind (agrees_rootAtOrBefore _) fun _ _ =>
    agrees_scanForward duty epoch cmap ⟨_, _, _, _⟩ _ _ _

/-- Decoding a window finds an inclusion of a validator unless no block carries its vote. -/
theorem collectInclusions_none {epoch : Nat} {cmap : CommitteeMap} {vs : List Nat} {ctx : VoteContext}
    (hepoch : ctx.targetEpoch = epoch) : ∀ (slots : List Nat) {incs incs' : Inclusions},
      (slots.map fun s => (s, blockOf node s)).foldlM (fun inclusions (slot, block) => match block with
        | some block => decodeInclusions spec block slot ctx.targetEpoch cmap vs (some ctx) inclusions
        | none => pure inclusions) incs = Except.ok incs' →
      ∀ v ∈ vs, incs'.get v = none ↔ incs.get v = none ∧
        ∀ s ∈ slots, ∀ b, blockOf node s = some b → b.voteOf spec cmap epoch v = none
  | [], incs, incs', hx, v, _ => by
    obtain rfl := Except.ok.inj (show Except.ok incs = Except.ok incs' from hx)
    simp
  | s :: slots, incs, incs', hx, v, hv => by
    rw [List.map_cons, List.foldlM_cons] at hx
    obtain ⟨mid, h₁, h₂⟩ := bind_eq_ok hx
    rw [collectInclusions_none hepoch slots h₂ v hv]
    have hstep : mid.get v = none ↔ incs.get v = none ∧ ∀ b, blockOf node s = some b → b.voteOf spec cmap epoch v = none := by
      cases hb : blockOf node s with
      | none =>
        rw [hb] at h₁
        obtain rfl := Except.ok.inj (show Except.ok incs = Except.ok mid from h₁)
        simp
      | some b =>
        rw [hb] at h₁
        simp only [hepoch] at h₁
        have hadds := decodeInclusions_adds h₁
        constructor
        · intro hmid
          have hn : incs.get v = none := by
            cases hget : incs.get v with
            | none => rfl
            | some inc =>
              rw [hadds.keeps v inc hget] at hmid
              cases hmid
          refine ⟨hn, fun b' hb' => ?_⟩
          cases hb'
          cases hvote : b.voteOf spec cmap epoch v with
          | none => rfl
          | some data =>
            obtain ⟨inc, hinc, -⟩ := hadds.found v hv data hn hvote
            rw [hmid] at hinc
            cases hinc
        · exact fun h => hadds.absent v h.1 (h.2 b rfl)
    rw [hstep]
    simp only [List.forall_mem_cons]
    tauto

theorem agrees_probe (relevant committee : List Nat) : ∀ blocks : List (Nat × Option SignedBeaconBlock),
    Agrees (answering spec node) (probeSyncParticipantReward spec relevant committee blocks) fun _ => True
  | [] => .pure trivial
  | (s, block) :: blocks => by
    unfold probeSyncParticipantReward
    cases block.bind (·.syncAggregate) with
    | none => exact agrees_probe relevant committee blocks
    | some aggregate =>
      refine .bind (agrees_ofExcept _) fun bits _ => .bind (agrees_attempt_request _) fun r _ => ?_
      split
      · exact agrees_probe relevant committee blocks
      · exact .throw
      · refine .bind (agrees_ofExcept _) fun found _ => ?_
        cases found with
        | some magnitude => exact .pure trivial
        | none => exact agrees_probe relevant committee blocks

/-- The slots of accepted proposer duties lie in the epoch. -/
theorem agrees_getProposerDuties (epoch : Nat) : Agrees (answering spec node) (getProposerDuties spec epoch) fun duties =>
    node (.proposerDuties epoch) = .ok duties ∧ (duties.map (·.slot)).Nodup ∧
      ∀ d ∈ duties, d.slot ∈ List.range' (spec.epochStartSlot epoch) spec.slotsPerEpoch := by
  unfold getProposerDuties
  refine .bind (agrees_request _) fun duties hd => .check fun hcheck => .pure ⟨hd, ?_, fun d hmem => ?_⟩
  all_goals simp only [Bool.or_eq_true, not_or, List.any_eq_true, decide_eq_true_eq, not_exists, not_and] at hcheck
  · -- as many different slots as duties
    have hlen : (duties.map (·.slot)).dedup.length = (duties.map (·.slot)).length := by
      rw [List.length_map]
      simpa using hcheck.1.2
    exact List.dedup_eq_self.1 ((List.dedup_sublist _).eq_of_length hlen)
  · have hslot := hcheck.2 d.slot (List.mem_dedup.2 (List.mem_map_of_mem hmem))
    rw [spec.epochStartSlot_succ] at hslot
    rw [List.mem_range'_1]
    omega

end Reading

/-! ## What the node answered -/

section Answers

variable (node : (q : Request) → Except Error q.Answer) (epoch : Nat) (vs : List Nat)

def answeredCommittees : CommitteeMap := buildCommitteeMap ((node (.committees epoch)).toOption.getD [])

def answeredDuties : List AttesterDuty := (node (.attesterDuties epoch vs)).toOption.getD []

def answeredRewards : Table Nat ValidatorAttestationReward :=
  rewardsMap ((node (.attestationRewards epoch vs)).toOption.elim [] (·.data))

def answeredProposers : List ProposerDuty := (node (.proposerDuties epoch)).toOption.getD []

/-- The scanned validators with a sync duty. -/
def answeredSyncMembers : List Nat :=
  (((node (.syncDuties epoch vs)).toOption.getD []).map (·.validatorIndex)).dedup.filter vs.contains

def answeredSyncCommittee : List Nat := (node (.syncCommittee epoch)).toOption.getD []

end Answers

/-! ## What a finalized scan writes -/

section Writing

variable {spec : ChainSpec} {node : (q : Request) → Except Error q.Answer}

/-- What a duty statement does, at whatever clock. -/
abbrev writing (spec : ChainSpec) : DbOp → Db → Db := fun op db => op.exec spec 0 db

theorem issues_statement {op : DbOp} (hexec : ∀ now db, op.exec spec now db = op.exec spec 0 db)
    (hunit : ∀ a a' : op.Answer, a = a') :
    Issues (answering spec node) (writing spec) (statement op) fun _ ws => ws = [op] := by
  have hrun : ∀ {s t : Db} {a : op.Answer}, Exec (answering spec node) (statement op).run s (.ok a) t →
      t = writing spec op s := by
    intro s t a h
    obtain ⟨_, _, hr, hp⟩ := Exec.call_iff.1 h
    obtain ⟨ha, rfl⟩ := Exec.pure_iff.1 hp
    obtain ⟨now, rfl, rfl⟩ | ⟨message, rfl, rfl⟩ := hr
    · exact hexec now s
    · cases ha
  intro s s' a a' t t' h₁ h₂
  exact ⟨hunit a a', [op], rfl, hrun h₁, hrun h₂⟩

/-- The slots in which a scan looks for the vote of a duty. -/
def EffectiveScanMode.slots (spec : ChainSpec) (epoch : Nat) (duty : AttesterDuty) : EffectiveScanMode → List Nat
  | .dense => List.range' (spec.epochStartSlot epoch) (spec.slotsPerEpoch * 2)
  | .sparse => List.range' (duty.slot + 1) (spec.epochStartSlot (epoch + 2) - 1 - duty.slot)

/-- No block that the scan looks at carries the vote of a duty. -/
def Unseen (spec : ChainSpec) (node : (q : Request) → Except Error q.Answer) (epoch : Nat) (mode : EffectiveScanMode)
    (duty : AttesterDuty) : Prop :=
  ∀ s ∈ mode.slots spec epoch duty, ∀ b, blockOf node s = some b →
    b.voteOf spec (answeredCommittees node epoch) epoch duty.validatorIndex = none

/-- The values of a finalized scan: rewards are never NULL, vote flags exactly where no vote was seen. -/
structure AttestationWrite.Authoritative (w : AttestationWrite) (reward : Option ValidatorAttestationReward)
    (unseen : Prop) : Prop where
  finalized : w.finalized = true
  source : w.sourceReward.isSome = true
  target : w.targetReward.isSome = true
  head : w.headReward.isSome = true
  inactivity : w.inactivityPenalty = reward.bind (·.inactivity)
  sourceFlag : w.sourceCorrect = none ↔ unseen
  targetFlag : w.targetCorrect = none ↔ unseen
  headFlag : w.headCorrect = none ↔ unseen

theorem denseRow_authoritative {duty : AttesterDuty} {inclusion : Option AttestationInclusion}
    {reward : ValidatorAttestationReward} {missed : List Nat} {unseen : Prop} (h : inclusion = none ↔ unseen) :
    (denseRow true duty inclusion (some reward) missed).Authoritative (some reward) unseen := by
  constructor <;> simp [denseRow, h]

theorem sparseRow_authoritative {duty : AttesterDuty} {found : Option (AttestationInclusion × Nat)}
    {reward : ValidatorAttestationReward} {unseen : Prop} (h : found = none ↔ unseen)
    (hreward : rewardedWithoutInclusion (some reward) found = false) :
    (sparseRow true duty (some reward) found).Authoritative (some reward) unseen := by
  cases found with
  | some inc => constructor <;> simp [sparseRow, deriveSparseRow, ← h]
  | none =>
    simp only [rewardedWithoutInclusion, Option.isNone_none, Bool.true_and, Option.any_some, Bool.or_eq_false_iff,
      decide_eq_false_iff_not] at hreward
    obtain ⟨⟨hsource, htarget⟩, hhead⟩ := hreward
    have hunseen : unseen := h.1 rfl
    constructor <;> simp [sparseRow, deriveSparseRow, ifPositive, *]

/-- The statement that a scan issues for one duty. -/
def DutyWrite (spec : ChainSpec) (node : (q : Request) → Except Error q.Answer) (epoch : Nat) (vs : List Nat)
    (mode : EffectiveScanMode) (duty : AttesterDuty) (ws : List DbOp) : Prop :=
  ∃ w : AttestationWrite, ws = [.upsertAttestationDuty duty.validatorIndex epoch w] ∧
    w.Authoritative ((answeredRewards node epoch vs).get duty.validatorIndex) (Unseen spec node epoch mode duty)

/-- The statements of the attestation stage: one for each duty of a scanned validator. -/
def AttestationStage (spec : ChainSpec) (node : (q : Request) → Except Error q.Answer) (epoch : Nat) (vs : List Nat)
    (mode : EffectiveScanMode) (ws : List DbOp) : Prop :=
  (∀ v ∈ vs, ∃ d ∈ answeredDuties node epoch vs, d.validatorIndex = v) ∧
  ∃ parts, List.Forall₂ (DutyWrite spec node epoch vs mode)
    ((answeredDuties node epoch vs).filter fun duty => vs.contains duty.validatorIndex) parts ∧ ws = parts.flatten

theorem issues_dutyWrite {epoch : Nat} {vs : List Nat} {mode : EffectiveScanMode} {duty : AttesterDuty}
    {w : AttestationWrite} (h : w.Authoritative ((answeredRewards node epoch vs).get duty.validatorIndex)
      (Unseen spec node epoch mode duty)) :
    Issues (answering spec node) (writing spec) (statement (.upsertAttestationDuty duty.validatorIndex epoch w))
      fun _ => DutyWrite spec node epoch vs mode duty :=
  (issues_statement (fun _ _ => rfl) fun _ _ => rfl).mono fun _ _ hws => ⟨w, hws, h⟩

theorem issues_dense (epoch : Nat) (vs : List Nat) :
    Issues (answering spec node) (writing spec) (processEpochAttestationDuties spec epoch vs true)
      fun _ => AttestationStage spec node epoch vs .dense := by
  unfold processEpochAttestationDuties
  refine .read (agrees_fetchBlocksForSlots _) fun allBlocks hall => ?_
  subst hall
  refine .read (agrees_request _) fun committees hcommittees => ?_
  refine .read (agrees_buildVoteContext _ _ _) fun ctx hepoch => ?_
  refine .read (agrees_request _) fun duties hduties => ?_
  refine .read (agrees_rewards _ _) fun rewards hrewards => ?_
  obtain ⟨response, hresponse, rfl⟩ := hrewards
  refine .read (agrees_ofExcept _) fun _ hvalid => ?_
  refine .read (agrees_ofExcept _) fun incs hdecoded => ?_
  have hmap : answeredRewards node epoch vs = rewardsMap response.data := by
    rw [answeredRewards, hresponse]
    rfl
  have hlist : answeredDuties node epoch vs = duties := by rw [answeredDuties, hduties]; rfl
  have hcmap : answeredCommittees node epoch = buildCommitteeMap committees := by
    rw [answeredCommittees, hcommittees]
    rfl
  refine (Issues.each (P := DutyWrite spec node epoch vs .dense) fun duty hd => ?_).mono fun _ ws hws => ?_
  · obtain ⟨-, hv⟩ := List.mem_filter.1 hd
    rw [List.contains_iff_mem] at hv
    refine issues_dutyWrite ?_
    obtain ⟨reward, hget⟩ := Table.has_iff.1 (validateEpochResponse_ok hvalid hv).2
    rw [hmap, hget]
    apply denseRow_authoritative
    rw [collectInclusions_none hepoch _ hdecoded _ hv]
    simp [Unseen, EffectiveScanMode.slots, hcmap]
  · rw [AttestationStage, hlist]
    refine ⟨fun v hv => ?_, hws⟩
    obtain ⟨d, hd, heq⟩ := List.mem_map.1 (validateEpochResponse_ok hvalid hv).1
    exact ⟨d, hd, heq⟩

theorem issues_sparse (epoch : Nat) (vs : List Nat) (hempty : vs.isEmpty = false) :
    Issues (answering spec node) (writing spec) (processEpochAttestationDutiesSparse spec epoch vs true)
      fun _ => AttestationStage spec node epoch vs .sparse := by
  unfold processEpochAttestationDutiesSparse
  rw [if_neg (by simp [hempty])]
  refine .read (agrees_request _) fun duties hduties => ?_
  refine .read (agrees_rewards _ _) fun rewards hrewards => ?_
  obtain ⟨response, hresponse, rfl⟩ := hrewards
  refine .read (agrees_ofExcept _) fun _ hvalid => ?_
  refine .read (agrees_request _) fun committees hcommittees => ?_
  have hmap : answeredRewards node epoch vs = rewardsMap response.data := by
    rw [answeredRewards, hresponse]
    rfl
  have hlist : answeredDuties node epoch vs = duties := by rw [answeredDuties, hduties]; rfl
  have hcmap : answeredCommittees node epoch = buildCommitteeMap committees := by
    rw [answeredCommittees, hcommittees]
    rfl
  refine (Issues.each (P := DutyWrite spec node epoch vs .sparse) fun duty hd => ?_).mono fun _ ws hws => ?_
  · obtain ⟨-, hv⟩ := List.mem_filter.1 hd
    rw [List.contains_iff_mem] at hv
    obtain ⟨reward, hget⟩ := Table.has_iff.1 (validateEpochResponse_ok hvalid hv).2
    refine .read (agrees_scanForwardForInclusion _ _ _) fun found hfound => .check fun hreward => ?_
    refine issues_dutyWrite ?_
    rw [hget] at hreward
    rw [hmap, hget]
    refine sparseRow_authoritative ?_ (by simpa using hreward)
    rw [hfound, Unseen, hcmap]
    rfl
  · rw [AttestationStage, hlist]
    refine ⟨fun v hv => ?_, hws⟩
    obtain ⟨d, hd, heq⟩ := List.mem_map.1 (validateEpochResponse_ok hvalid hv).1
    exact ⟨d, hd, heq⟩

/-- The values for a proposer slot: the four rewards where there is a block, NULL where there is none. -/
structure ProposalWrite.Authoritative (w : ProposalWrite) (block : Option SignedBeaconBlock) : Prop where
  finalized : w.finalized = true
  rewarded : block.isSome = true → w.rewardTotal.isSome = true ∧ w.rewardAttestations.isSome = true ∧
    w.rewardSync.isSome = true ∧ w.rewardSlashings.isSome = true
  missed : block = none → w.rewardTotal = none ∧ w.rewardAttestations = none ∧ w.rewardSync = none ∧
    w.rewardSlashings = none

/-- The statement that a scan issues for one slot, if a scanned validator is its proposer. -/
def SlotWrite (node : (q : Request) → Except Error q.Answer) (tracked : Table Nat Nat) (slot : Nat) (ws : List DbOp) :
    Prop :=
  (tracked.get slot = none → ws = []) ∧ (tracked.has slot = true →
    ∃ w : ProposalWrite, ws = [.upsertBlockProposal slot w] ∧ w.Authoritative (blockOf node slot))

/-- The statements of the proposal stage: one for each proposer duty of a scanned validator. -/
def ProposalStage (spec : ChainSpec) (node : (q : Request) → Except Error q.Answer) (epoch : Nat) (vs : List Nat)
    (ws : List DbOp) : Prop :=
  ∃ tracked : Table Nat Nat, (∀ d ∈ answeredProposers node epoch, d.validatorIndex ∈ vs →
      tracked.has d.slot = true ∧ d.slot ∈ List.range' (spec.epochStartSlot epoch) spec.slotsPerEpoch) ∧
    ∃ parts, List.Forall₂ (SlotWrite node tracked) (List.range' (spec.epochStartSlot epoch) spec.slotsPerEpoch) parts ∧
      ws = parts.flatten

theorem issues_proposals (epoch : Nat) (vs : List Nat) :
    Issues (answering spec node) (writing spec) (processEpochProposals spec epoch vs true)
      fun _ => ProposalStage spec node epoch vs := by
  unfold processEpochProposals
  refine .read (agrees_getProposerDuties _) fun duties hduties => ?_
  obtain ⟨hduties, hn, hrange⟩ := hduties
  have hlist : answeredProposers node epoch = duties := by rw [answeredProposers, hduties]; rfl
  dsimp only
  generalize htracked : Table.ofList ((duties.filter fun d => vs.contains d.validatorIndex).map fun d =>
    (d.slot, d.validatorIndex)) = tracked
  have hhas : ∀ d ∈ answeredProposers node epoch, d.validatorIndex ∈ vs →
      tracked.has d.slot = true ∧ d.slot ∈ List.range' (spec.epochStartSlot epoch) spec.slotsPerEpoch := by
    intro d hd hv
    rw [hlist] at hd
    refine ⟨Table.has_iff.2 ⟨d.validatorIndex, ?_⟩, hrange d hd⟩
    rw [← htracked, Table.get_ofList_iff]
    · exact List.mem_map.2 ⟨d, List.mem_filter.2 ⟨hd, List.contains_iff_mem.2 hv⟩, rfl⟩
    · rw [List.map_map]
      exact hn.sublist (List.filter_sublist.map _)
  split
  · rename_i hempty
    refine .pure ⟨tracked, hhas, (List.range' (spec.epochStartSlot epoch) spec.slotsPerEpoch).map fun _ => [], ?_, ?_⟩
    · refine List.forall₂_map_right_iff.2 (List.forall₂_same.2 fun slot _ => ?_)
      have hnone : tracked.get slot = none := by
        unfold Table.get
        rw [List.isEmpty_iff.1 hempty, Table.find_nil]
      refine ⟨fun _ => rfl, fun hhas => ?_⟩
      rw [Table.has, hnone] at hhas
      cases hhas
    · simp
  · refine (Issues.each (P := SlotWrite node tracked) fun slot _ => ?_).mono fun _ ws hws => ⟨tracked, hhas, hws⟩
    cases hget : tracked.get slot with
    | none => exact .pure ⟨fun _ => rfl, fun h => by rw [Table.has, hget] at h; cases h⟩
    | some proposer =>
      have hpart : ∀ {w : ProposalWrite}, w.Authoritative (blockOf node slot) →
          Issues (answering spec node) (writing spec) (statement (.upsertBlockProposal slot w))
            fun _ => SlotWrite node tracked slot := by
        intro w hw
        refine (issues_statement (fun _ _ => rfl) fun _ _ => rfl).mono fun _ ws hws => ⟨fun h => ?_, fun _ => ⟨w, hws, hw⟩⟩
        rw [hget] at h
        cases h
      refine .read (agrees_getBlockBySlot slot) fun block hblock => ?_
      subst hblock
      cases hb : blockOf node slot with
      | some block =>
        refine .read (agrees_request _) fun rewards _ => hpart ⟨rfl, fun _ => ⟨rfl, rfl, rfl, rfl⟩, fun h => ?_⟩
        rw [hb] at h
        cases h
      | none =>
        refine hpart ⟨rfl, fun h => ?_, fun _ => ⟨rfl, rfl, rfl, rfl⟩⟩
        rw [hb] at h
        cases h

/-- The scan writes the sync row of a member at a slot without a block, or with a block whose aggregate covers it. -/
def SyncSeen (node : (q : Request) → Except Error q.Answer) (epoch v slot : Nat) : Prop :=
  ∀ b, blockOf node slot = some b → b.syncAggregate.isSome = true ∧ v ∈ answeredSyncCommittee node epoch

/-- The statements that a scan issues for the sync duties of one slot; `Rewarded` holds of the values it writes. -/
def MembersWrite (node : (q : Request) → Except Error q.Answer) (epoch : Nat) (vs : List Nat)
    (Rewarded : SyncWrite → Prop) (slot : Nat) (ws : List DbOp) : Prop :=
  ∃ values : List (Nat × SyncWrite), ws = values.map (fun r => .upsertSyncDuty r.1 slot r.2) ∧ (values.map Prod.fst).Nodup ∧
    (∀ v ∈ answeredSyncMembers node epoch vs, v ∈ values.map Prod.fst ↔ SyncSeen node epoch v slot) ∧
    ∀ r ∈ values, r.2.finalized = true ∧ Rewarded r.2

theorem MembersWrite.mono {epoch : Nat} {vs : List Nat} {slot : Nat} {ws : List DbOp} {R R' : SyncWrite → Prop}
    (h : MembersWrite node epoch vs R slot ws) (hR : ∀ w, R w → R' w) : MembersWrite node epoch vs R' slot ws := by
  obtain ⟨values, heq, hn, hseen, hvalues⟩ := h
  exact ⟨values, heq, hn, hseen, fun r hr => ⟨(hvalues r hr).1, hR _ (hvalues r hr).2⟩⟩

/-- A reward is NULL only if the epoch has a block and none of its slots revealed a magnitude. -/
def SyncWrite.RewardedBy (spec : ChainSpec) (node : (q : Request) → Except Error q.Answer) (epoch : Nat)
    (magnitude : Option Int) (w : SyncWrite) : Prop :=
  w.reward = none → magnitude = none ∧
    ∃ s ∈ List.range' (spec.epochStartSlot epoch) spec.slotsPerEpoch, (blockOf node s).isSome = true

/-- The statements of the sync stage. -/
def SyncStage (spec : ChainSpec) (node : (q : Request) → Except Error q.Answer) (epoch : Nat) (vs : List Nat)
    (ws : List DbOp) : Prop :=
  ∃ parts, List.Forall₂ (MembersWrite node epoch vs fun w => w.reward.isSome = true)
    (List.range' (spec.epochStartSlot epoch) spec.slotsPerEpoch) parts ∧ ws = parts.flatten

theorem issues_each_sync {γ : Type} {slot : Nat} (value : γ → Nat × SyncWrite) (l : List γ) :
    Issues (answering spec node) (writing spec)
      (each (fun r => statement (.upsertSyncDuty (value r).1 slot (value r).2)) l)
      fun _ ws => ws = (l.map value).map fun r => .upsertSyncDuty r.1 slot r.2 := by
  refine (Issues.each fun r _ => issues_statement (fun _ _ => rfl) fun _ _ => rfl).mono fun _ ws hws => ?_
  obtain ⟨parts, hparts, rfl⟩ := hws
  rw [eq_map_of_forall₂ hparts, ← List.flatMap_def, ← List.map_eq_flatMap, List.map_map]
  rfl

theorem issues_processSlotSync {epoch : Nat} {vs : List Nat} {magnitude : Option Int} {slot : Nat}
    (hslot : slot ∈ List.range' (spec.epochStartSlot epoch) spec.slotsPerEpoch)
    (hsize : (answeredSyncCommittee node epoch).length = spec.syncCommitteeSize) :
    Issues (answering spec node) (writing spec) (processSlotSync spec true (answeredSyncMembers node epoch vs)
      (answeredSyncCommittee node epoch) magnitude slot (blockOf node slot))
      fun _ => MembersWrite node epoch vs (·.RewardedBy spec node epoch magnitude) slot := by
  have hn : (answeredSyncMembers node epoch vs).Nodup := (List.nodup_dedup _).filter _
  unfold processSlotSync
  cases hb : blockOf node slot with
  | none =>
    refine (issues_each_sync (fun v => (v, ⟨false, some 0, true, true⟩)) _).mono fun _ ws hws => ⟨_, hws, ?_, ?_, ?_⟩
    · simpa [Function.comp_def] using hn
    · intro v hv
      have hseen : SyncSeen node epoch v slot := by
        intro b h
        rw [hb] at h
        cases h
      simpa [Function.comp_def, hseen] using hv
    · intro r hr
      obtain ⟨v, -, rfl⟩ := List.mem_map.1 hr
      exact ⟨rfl, fun h => (by cases h)⟩
  | some block =>
    dsimp only
    cases hagg : block.syncAggregate with
    | none =>
      refine .pure ⟨[], rfl, List.nodup_nil, fun v _ => ?_, fun r hr => (List.not_mem_nil hr).elim⟩
      simp [SyncSeen, hb, hagg]
    | some aggregate =>
      refine .read (agrees_ofExcept _) fun bits hbits => ?_
      have hlen := (decodeSyncCommitteeBits_length hbits).trans hsize.symm
      refine (issues_each_sync (fun r : Nat × Bool × Int =>
        (r.1, ⟨r.2.1, magnitude.map (· * r.2.2), false, true⟩)) _).mono fun _ ws hws => ⟨_, hws, ?_, ?_, ?_⟩
      · rw [List.map_map]
        exact (syncOutcomes _ bits).nodup.sublist (List.filter_sublist.map _)
      · intro v hv
        have hseen : SyncSeen node epoch v slot ↔ v ∈ answeredSyncCommittee node epoch := by
          simp [SyncSeen, hb, hagg]
        have hrow := syncOutcomes_get hlen v
        rw [List.map_map, hseen]
        simp only [List.mem_map, List.mem_filter, List.contains_iff_mem, Function.comp_apply]
        constructor
        · rintro ⟨r, ⟨hr, -⟩, rfl⟩
          by_contra hnot
          rw [Table.mem_rows.1 hr, if_neg hnot] at hrow
          cases hrow
        · intro hmem
          rw [if_pos hmem] at hrow
          exact ⟨_, ⟨Table.mem_rows.2 hrow, hv⟩, rfl⟩
      · intro r hr
        obtain ⟨x, -, rfl⟩ := List.mem_map.1 hr
        exact ⟨rfl, fun h => ⟨Option.map_eq_none_iff.1 h, slot, hslot, by rw [hb]; rfl⟩⟩

theorem issues_sync (epoch : Nat) (vs : List Nat) :
    Issues (answering spec node) (writing spec) (processEpochSync spec epoch vs true)
      fun _ => SyncStage spec node epoch vs := by
  -- without a member to scan there is nothing to write
  have hnothing : answeredSyncMembers node epoch vs = [] → SyncStage spec node epoch vs [] := by
    intro hmembers
    refine ⟨(List.range' (spec.epochStartSlot epoch) spec.slotsPerEpoch).map fun _ => [], ?_, by simp⟩
    refine List.forall₂_map_right_iff.2 (List.forall₂_same.2 fun slot _ => ⟨[], rfl, List.nodup_nil, ?_, ?_⟩)
    · rw [hmembers]
      exact fun v hv => (List.not_mem_nil hv).elim
    · exact fun r hr => (List.not_mem_nil hr).elim
  unfold processEpochSync
  refine .read (agrees_request _) fun duties hduties => ?_
  have hmembers : answeredSyncMembers node epoch vs = ((duties.map (·.validatorIndex)).dedup).filter vs.contains := by
    rw [answeredSyncMembers, hduties]
    rfl
  dsimp only
  split
  · rename_i hempty
    refine .pure (hnothing ?_)
    rw [hmembers, List.isEmpty_iff.1 hempty, List.filter_nil]
  refine .read (agrees_request _) fun committee hcommittee => .check fun hsize => ?_
  have hlist : answeredSyncCommittee node epoch = committee := by rw [answeredSyncCommittee, hcommittee]; rfl
  rw [not_not, ← hlist] at hsize
  rw [← hmembers, ← hlist]
  split
  · rename_i hempty
    exact .pure (hnothing (List.isEmpty_iff.1 hempty))
  refine .read (agrees_fetchBlocksForSlots _) fun slotBlocks hslots => ?_
  subst hslots
  refine .read (agrees_probe _ _ _) fun magnitude _ => ?_
  refine Issues.bind (Issues.each (P := fun (b : Nat × Option SignedBeaconBlock) =>
    MembersWrite node epoch vs (·.RewardedBy spec node epoch magnitude) b.1) fun b hb => ?_) fun _ ws hws => ?_
  · obtain ⟨slot, hslot, rfl⟩ := List.mem_map.1 hb
    exact issues_processSlotSync hslot hsize
  · -- a reward that stays NULL has a block and no magnitude, which the last check refuses
    obtain ⟨parts, hparts, rfl⟩ := hws
    rw [List.forall₂_map_left_iff] at hparts
    split
    · exact .throw
    · rename_i hcheck
      refine .pure ⟨parts, hparts.imp fun slot part hpart => hpart.mono fun w hw => ?_, List.append_nil _⟩
      by_contra hnull
      obtain ⟨rfl, s, hs, hb⟩ := hw (by simpa using hnull)
      exact hcheck (Bool.and_eq_true_iff.2 ⟨rfl, List.any_eq_true.2 ⟨_, List.mem_map_of_mem hs, hb⟩⟩)

/-- The statements of a successful finalized scan, stage by stage. -/
def ScanWrites (spec : ChainSpec) (node : (q : Request) → Except Error q.Answer) (epoch : Nat) (vs : List Nat)
    (mode : EffectiveScanMode) (ws : List DbOp) : Prop :=
  ∃ attestations proposals sync, AttestationStage spec node epoch vs mode attestations ∧
    ProposalStage spec node epoch vs proposals ∧
    (if spec.altairForkEpoch ≤ epoch then SyncStage spec node epoch vs sync else sync = []) ∧
    ws = attestations ++ (proposals ++ (sync ++ [.markComplete vs epoch]))

theorem issues_scanEpoch (epoch : Nat) {vs : List Nat} (mode : EffectiveScanMode) (hempty : vs.isEmpty = false) :
    Issues (answering spec node) (writing spec) (scanEpoch spec epoch vs true mode)
      fun _ => ScanWrites spec node epoch vs mode := by
  have hmark : Issues (answering spec node) (writing spec) (statement (.markComplete vs epoch)) fun _ ws =>
      ws = [.markComplete vs epoch] := issues_statement (fun _ _ => rfl) fun _ _ => rfl
  have hrest : ∀ attestations, AttestationStage spec node epoch vs mode attestations →
      Issues (answering spec node) (writing spec) (do
        processEpochProposals spec epoch vs true
        if spec.altairForkEpoch ≤ epoch then processEpochSync spec epoch vs true
        if true then statement (.markComplete vs epoch))
        fun _ ws => ScanWrites spec node epoch vs mode (attestations ++ ws) := by
    intro attestations hattestations
    refine .bind (issues_proposals epoch vs) fun _ proposals hproposals => ?_
    dsimp only
    rw [if_pos rfl]
    split
    · rename_i haltair
      refine .bind (issues_sync epoch vs) fun _ sync hsync => hmark.mono fun _ ws hws => ?_
      exact ⟨attestations, proposals, sync, hattestations, hproposals, by rwa [if_pos haltair], by rw [hws]⟩
    · rename_i haltair
      refine hmark.mono fun _ ws hws => ?_
      exact ⟨attestations, proposals, [], hattestations, hproposals, by rw [if_neg haltair], by rw [hws, List.nil_append]⟩
  unfold scanEpoch
  rw [if_neg (by simp [hempty])]
  cases mode with
  | dense => exact .bind (issues_dense epoch vs) fun _ ws hws => hrest ws hws
  | sparse => exact .bind (issues_sparse epoch vs hempty) fun _ ws hws => hrest ws hws

end Writing

/-! ## The rows two scans leave -/

section Rows

variable {spec : ChainSpec} {node : (q : Request) → Except Error q.Answer} {epoch : Nat} {vs : List Nat}
  {mode : EffectiveScanMode}

/-- The two databases agree but for rows of scanned validators whose epoch is not completed. -/
structure ProvisionalDiff (spec : ChainSpec) (epoch : Nat) (vs : List Nat) (db db' : Db) : Prop where
  completed : db'.completedScans = db.completedScans
  attestation : ∀ v e, db.attestationDuties.get (v, e) = db'.attestationDuties.get (v, e) ∨
    (v ∈ vs ∧ e = epoch ∧ db.completed v e = false)
  proposal : ∀ slot, db.blockProposals.get slot = db'.blockProposals.get slot ∨ ∀ row,
    db.blockProposals.get slot = some row ∨ db'.blockProposals.get slot = some row →
      row.proposerIndex ∈ vs ∧ spec.slotToEpoch slot = epoch ∧ db.completed row.proposerIndex epoch = false
  sync : ∀ v slot, db.syncDuties.get (v, slot) = db'.syncDuties.get (v, slot) ∨
    (v ∈ vs ∧ spec.slotToEpoch slot = epoch ∧ db.completed v epoch = false)

/-- The rows of the scanned pairs, of the scanned proposer duties and of the scanned sync duties are the same. -/
structure ScannedRowsAgree (spec : ChainSpec) (node : (q : Request) → Except Error q.Answer) (epoch : Nat) (vs : List Nat)
    (db db' : Db) : Prop where
  attestation : ∀ v ∈ vs, db.attestationDuties.get (v, epoch) = db'.attestationDuties.get (v, epoch)
  proposal : ∀ d ∈ answeredProposers node epoch, d.validatorIndex ∈ vs →
    db.blockProposals.get d.slot = db'.blockProposals.get d.slot
  sync : spec.altairForkEpoch ≤ epoch → ∀ v ∈ answeredSyncMembers node epoch vs,
    ∀ slot ∈ List.range' (spec.epochStartSlot epoch) spec.slotsPerEpoch,
      (db.syncDuties.get (v, slot)).map SyncRow.data = (db'.syncDuties.get (v, slot)).map SyncRow.data

/-- A column of two rows that may be absent holds the same value or NULL. -/
def SameColumn {ρ α : Type} (column : ρ → Option α) (row row' : Option ρ) : Prop := row.bind column = row'.bind column

/-- Where the scan leaves a column NULL, the databases hold the same value of it; where it writes no row, they
hold the same row. -/
structure NullColumnsAgree (spec : ChainSpec) (node : (q : Request) → Except Error q.Answer) (epoch : Nat) (vs : List Nat)
    (mode : EffectiveScanMode) (db db' : Db) : Prop where
  flags : ∀ v ∈ vs, (∀ d ∈ answeredDuties node epoch vs, d.validatorIndex = v → Unseen spec node epoch mode d) →
    SameColumn (·.sourceCorrect) (db.attestationDuties.get (v, epoch)) (db'.attestationDuties.get (v, epoch)) ∧
    SameColumn (·.targetCorrect) (db.attestationDuties.get (v, epoch)) (db'.attestationDuties.get (v, epoch)) ∧
    SameColumn (·.headCorrect) (db.attestationDuties.get (v, epoch)) (db'.attestationDuties.get (v, epoch))
  inactivity : ∀ v ∈ vs, ((answeredRewards node epoch vs).get v).bind (·.inactivity) = none →
    SameColumn (·.inactivityPenalty) (db.attestationDuties.get (v, epoch)) (db'.attestationDuties.get (v, epoch))
  proposal : ∀ d ∈ answeredProposers node epoch, d.validatorIndex ∈ vs → blockOf node d.slot = none →
    SameColumn (·.rewardTotal) (db.blockProposals.get d.slot) (db'.blockProposals.get d.slot) ∧
    SameColumn (·.rewardAttestations) (db.blockProposals.get d.slot) (db'.blockProposals.get d.slot) ∧
    SameColumn (·.rewardSync) (db.blockProposals.get d.slot) (db'.blockProposals.get d.slot) ∧
    SameColumn (·.rewardSlashings) (db.blockProposals.get d.slot) (db'.blockProposals.get d.slot)
  sync : spec.altairForkEpoch ≤ epoch → ∀ v ∈ answeredSyncMembers node epoch vs,
    ∀ slot ∈ List.range' (spec.epochStartSlot epoch) spec.slotsPerEpoch, ¬SyncSeen node epoch v slot →
      (db.syncDuties.get (v, slot)).map SyncRow.data = (db'.syncDuties.get (v, slot)).map SyncRow.data

/-! ### Attestation rows -/

theorem coalesce_inj {α : Type} {new old old' : Option α} :
    coalesce new old = coalesce new old' ↔ (new = none → old = old') := by
  cases new <;> simp

/-- Two writes to a row, as one. -/
def AttestationWrite.after (w first : AttestationWrite) : AttestationWrite :=
  { w with
    sourceCorrect := coalesce w.sourceCorrect first.sourceCorrect
    targetCorrect := coalesce w.targetCorrect first.targetCorrect
    headCorrect := coalesce w.headCorrect first.headCorrect
    sourceReward := coalesce w.sourceReward first.sourceReward
    targetReward := coalesce w.targetReward first.targetReward
    headReward := coalesce w.headReward first.headReward
    inactivityPenalty := coalesce w.inactivityPenalty first.inactivityPenalty }

theorem coalesce_eq_none {α : Type} {new old : Option α} : coalesce new old = none ↔ new = none ∧ old = none := by
  cases new <;> simp

namespace AttestationWrite.Authoritative

variable {w first : AttestationWrite} {reward : Option ValidatorAttestationReward} {unseen unseen' : Prop}

theorem after (h : w.Authoritative reward unseen) (h₁ : first.Authoritative reward unseen') :
    (w.after first).Authoritative reward (unseen ∧ unseen') := by
  constructor
  case finalized => exact h.finalized
  case source => exact coalesce_isSome h.source
  case target => exact coalesce_isSome h.target
  case head => exact coalesce_isSome h.head
  case inactivity =>
    show coalesce w.inactivityPenalty first.inactivityPenalty = _
    rw [h.inactivity, h₁.inactivity]
    exact Option.or_self
  case sourceFlag => exact coalesce_eq_none.trans (and_congr h.sourceFlag h₁.sourceFlag)
  case targetFlag => exact coalesce_eq_none.trans (and_congr h.targetFlag h₁.targetFlag)
  case headFlag => exact coalesce_eq_none.trans (and_congr h.headFlag h₁.headFlag)

/-- An authoritative write replaces every row of an incomplete scan. -/
theorem upserted_some (h : w.Authoritative reward unseen) (old : AttestationRow) :
    Db.upsertedAttestation false w (some old) = w.merge old := by
  have hreplaces : w.replaces false old = true := by simp [AttestationWrite.replaces, h.finalized]
  exact if_pos hreplaces

theorem upserted_after (h : w.Authoritative reward unseen) (h₁ : first.Authoritative reward unseen')
    (old : Option AttestationRow) :
    Db.upsertedAttestation false w (some (Db.upsertedAttestation false first old)) =
      Db.upsertedAttestation false (w.after first) old := by
  cases old with
  | none => exact h.upserted_some _
  | some old =>
    rw [h.upserted_some, h₁.upserted_some, (h.after h₁).upserted_some]
    simp only [AttestationWrite.merge, AttestationWrite.after, coalesce, Option.or_assoc]

/-- Two rows are made the same exactly if they agree where the values are NULL. -/
theorem upserted_eq_iff (h : w.Authoritative reward unseen) (old old' : Option AttestationRow) :
    { Db.upsertedAttestation false w old with inclusionKnown := true } =
      { Db.upsertedAttestation false w old' with inclusionKnown := true } ↔
    (unseen → SameColumn (·.sourceCorrect) old old' ∧ SameColumn (·.targetCorrect) old old' ∧
      SameColumn (·.headCorrect) old old') ∧
    (reward.bind (·.inactivity) = none → SameColumn (·.inactivityPenalty) old old') := by
  have hrow : ∀ old, ({ Db.upsertedAttestation false w old with inclusionKnown := true } : AttestationRow) =
      { w.toRow with
        sourceCorrect := coalesce w.sourceCorrect (old.bind (·.sourceCorrect))
        targetCorrect := coalesce w.targetCorrect (old.bind (·.targetCorrect))
        headCorrect := coalesce w.headCorrect (old.bind (·.headCorrect))
        inactivityPenalty := coalesce w.inactivityPenalty (old.bind (·.inactivityPenalty))
        inclusionKnown := true } := by
    intro old
    have hkept : ∀ {new old : Option Int}, new.isSome = true → coalesce new old = new := fun hs => by
      obtain ⟨a, rfl⟩ := Option.isSome_iff_exists.1 hs
      rfl
    cases old with
    | none => simp [Db.upsertedAttestation, AttestationWrite.toRow]
    | some old =>
      rw [h.upserted_some]
      simp [AttestationWrite.merge, AttestationWrite.toRow, hkept h.source, hkept h.target, hkept h.head]
  rw [hrow, hrow]
  simp only [AttestationRow.mk.injEq, coalesce_inj, h.sourceFlag, h.targetFlag, h.headFlag, h.inactivity, SameColumn,
    true_and, and_true]
  tauto

end AttestationWrite.Authoritative

/-- What an attestation upsert reads of the database. -/
def attestationView (k : Nat × Nat) (db : Db) : Table (Nat × Nat) Unit × Option AttestationRow :=
  (db.completedScans, db.attestationDuties.get k)

theorem attestationView_completed {k : Nat × Nat} {db db' : Db} (h : attestationView k db = attestationView k db') :
    db.completed k.1 k.2 = db'.completed k.1 k.2 := congrArg (Table.has · (k.1, k.2)) (Prod.mk.inj h).1

/-- One duty leaves the rows of the other validators. -/
theorem DutyWrite.frame {d : AttesterDuty} {ws : List DbOp} (h : DutyWrite spec node epoch vs mode d ws) {v : Nat}
    (hv : d.validatorIndex ≠ v) : ∀ op ∈ ws, ∀ db,
      attestationView (v, epoch) (writing spec op db) = attestationView (v, epoch) db := by
  obtain ⟨w, rfl, -⟩ := h
  intro op hop db
  obtain rfl := List.mem_singleton.1 hop
  refine Prod.ext rfl ?_
  show (db.upsertAttestationDuty d.validatorIndex epoch w).attestationDuties.get (v, epoch) = _
  rw [Db.upsertAttestationDuty_get, if_neg fun hk => hv (Prod.mk.inj hk).1.symm]
  rfl

/-- All duties of a validator together write one set of values. -/
theorem AttestationStage.row {v : Nat} : ∀ {l : List AttesterDuty} {parts : List (List DbOp)},
    List.Forall₂ (DutyWrite spec node epoch vs mode) l parts → v ∈ l.map (·.validatorIndex) →
      ∃ w : AttestationWrite, w.Authoritative ((answeredRewards node epoch vs).get v)
        (∀ d ∈ l, d.validatorIndex = v → Unseen spec node epoch mode d) ∧
        ∀ db : Db, db.completed v epoch = false → (replay (writing spec) parts.flatten db).attestationDuties.get (v, epoch) =
          some (Db.upsertedAttestation false w (db.attestationDuties.get (v, epoch)))
  | _, _, .nil, hv => (List.not_mem_nil hv).elim
  | d :: l, part :: parts, .cons hpart hparts, hv => by
    simp only [List.flatten_cons, replay_append, List.forall_mem_cons]
    by_cases hd : d.validatorIndex = v
    · obtain ⟨first, rfl, hfirst⟩ := hpart
      subst hd
      have hrow : ∀ db : Db, db.completed d.validatorIndex epoch = false →
          (writing spec (.upsertAttestationDuty d.validatorIndex epoch first) db).attestationDuties.get
            (d.validatorIndex, epoch) =
          some (Db.upsertedAttestation false first (db.attestationDuties.get (d.validatorIndex, epoch))) := by
        intro db hdb
        rw [show writing spec _ db = db.upsertAttestationDuty d.validatorIndex epoch first from rfl,
          Db.upsertAttestationDuty_get, if_pos rfl, hdb]
      by_cases hl : d.validatorIndex ∈ l.map (·.validatorIndex)
      · obtain ⟨w, hw, hrun⟩ := AttestationStage.row hparts hl
        refine ⟨w.after first, ?_, fun db hdb => ?_⟩
        · have hboth := hw.after hfirst
          simp only [forall_const]
          rwa [and_comm] at hboth
        · have hdb₁ : (writing spec (.upsertAttestationDuty d.validatorIndex epoch first) db).completed
              d.validatorIndex epoch = false := hdb
          rw [replay_cons, replay_nil, hrun _ hdb₁, hrow db hdb, hw.upserted_after hfirst]
      · -- the duties after it are of other validators
        have hothers : ∀ d' ∈ l, d'.validatorIndex ≠ d.validatorIndex := fun d' hd' heq => hl (List.mem_map.2 ⟨d', hd', heq⟩)
        refine ⟨first, ?_, fun db hdb => ?_⟩
        · have hunseen : Unseen spec node epoch mode d ↔ (d.validatorIndex = d.validatorIndex → Unseen spec node epoch mode d) ∧
              ∀ d' ∈ l, d'.validatorIndex = d.validatorIndex → Unseen spec node epoch mode d' :=
            ⟨fun h => ⟨fun _ => h, fun d' hd' heq => (hothers d' hd' heq).elim⟩, fun h => h.1 rfl⟩
          rwa [← hunseen]
        · rw [replay_cons, replay_nil, ← hrow db hdb]
          refine (Prod.mk.inj (replay_frame (attestationView (d.validatorIndex, epoch)) (fun op hop db => ?_) _)).2
          obtain ⟨d', hd', part, hpart, hop⟩ := mem_part hparts hop
          exact hpart.frame (hothers d' hd') op hop db
    · have hl : v ∈ l.map (·.validatorIndex) := by
        obtain rfl | hl := List.mem_cons.1 hv
        · exact (hd rfl).elim
        · exact hl
      obtain ⟨w, hw, hrun⟩ := AttestationStage.row hparts hl
      refine ⟨w, ?_, fun db hdb => ?_⟩
      · simpa [hd] using hw
      · have hframe := replay_frame (attestationView (v, epoch)) (hpart.frame hd) db
        rw [hrun _ ((attestationView_completed hframe).trans hdb), (Prod.mk.inj hframe).2]

/-! ### The statements of a scan on one row -/

/-- The statements of a scan. -/
def IsScanOp : DbOp → Prop
  | .upsertAttestationDuty .. | .upsertBlockProposal .. | .upsertSyncDuty .. | .markComplete .. => True
  | _ => False

theorem IsScanOp.attestation_congr {op : DbOp} (h : IsScanOp op) (k : Nat × Nat) (db db' : Db)
    (hview : attestationView k db = attestationView k db') :
    attestationView k (writing spec op db) = attestationView k (writing spec op db') := by
  obtain ⟨hscans, hrow⟩ := Prod.mk.inj hview
  cases op with
  | upsertAttestationDuty v e w =>
    refine Prod.ext hscans ?_
    show (db.upsertAttestationDuty v e w).attestationDuties.get k = (db'.upsertAttestationDuty v e w).attestationDuties.get k
    rw [Db.upsertAttestationDuty_get, Db.upsertAttestationDuty_get, hrow, Db.completed, Db.completed, hscans]
  | upsertBlockProposal | upsertSyncDuty => exact hview
  | markComplete vs e =>
    refine Prod.ext (congrArg (Table.insertAll · _ ()) hscans) ?_
    show (db.markComplete vs e).attestationDuties.get k = (db'.markComplete vs e).attestationDuties.get k
    rw [Db.markComplete_att, Db.markComplete_att, hrow]
  | _ => exact h.elim

/-- What a proposal upsert reads of the database. -/
def proposalView (slot : Nat) (db : Db) : Table (Nat × Nat) Unit × Option ProposalRow :=
  (db.completedScans, db.blockProposals.get slot)

/-- What a sync upsert reads of the database. -/
def syncView (k : Nat × Nat) (db : Db) : Table (Nat × Nat) Unit × Option SyncRow :=
  (db.completedScans, db.syncDuties.get k)

theorem proposalView_upsert (slot : Nat) (w : ProposalWrite) (slot' : Nat) (db : Db) :
    proposalView slot (writing spec (.upsertBlockProposal slot' w) db) = (db.completedScans,
      if slot = slot' then some (db.upsertedProposal spec slot' w (db.blockProposals.get slot'))
      else db.blockProposals.get slot) :=
  Prod.ext rfl (db.upsertBlockProposal_get spec slot' w slot)

theorem syncView_upsert (k : Nat × Nat) (v slot : Nat) (w : SyncWrite) (db : Db) :
    syncView k (writing spec (.upsertSyncDuty v slot w) db) = (db.completedScans,
      if k = (v, slot) then some (db.upsertedSync spec v slot w (db.syncDuties.get k)) else db.syncDuties.get k) :=
  Prod.ext rfl (db.upsertSyncDuty_get spec v slot w k)

theorem IsScanOp.proposal_congr {op : DbOp} (h : IsScanOp op) (slot : Nat) (db db' : Db)
    (hview : proposalView slot db = proposalView slot db') :
    proposalView slot (writing spec op db) = proposalView slot (writing spec op db') := by
  obtain ⟨hscans, hrow⟩ := Prod.mk.inj hview
  cases op with
  | upsertBlockProposal slot' w =>
    rw [proposalView_upsert, proposalView_upsert, hscans, hrow]
    by_cases hs : slot = slot'
    · subst hs
      rw [if_pos rfl, if_pos rfl, hrow]
      unfold Db.upsertedProposal Db.completed
      rw [hscans]
    · rw [if_neg hs, if_neg hs]
  | upsertAttestationDuty | upsertSyncDuty => exact hview
  | markComplete vs e => exact Prod.ext (congrArg (Table.insertAll · _ ()) hscans) hrow
  | _ => exact h.elim

theorem IsScanOp.sync_congr {op : DbOp} (h : IsScanOp op) (k : Nat × Nat) (db db' : Db)
    (hview : syncView k db = syncView k db') : syncView k (writing spec op db) = syncView k (writing spec op db') := by
  obtain ⟨hscans, hrow⟩ := Prod.mk.inj hview
  cases op with
  | upsertSyncDuty v slot w =>
    rw [syncView_upsert, syncView_upsert, hscans, hrow]
    unfold Db.upsertedSync Db.completed
    rw [hscans]
  | upsertAttestationDuty | upsertBlockProposal => exact hview
  | markComplete vs e => exact Prod.ext (congrArg (Table.insertAll · _ ()) hscans) hrow
  | _ => exact h.elim

/-! ### Proposal rows -/

/-- The row of a write that nothing holds back. -/
def ProposalWrite.onto (w : ProposalWrite) (old : Option ProposalRow) : ProposalRow := old.elim w.toRow w.merge

theorem ProposalWrite.Authoritative.onto_eq_iff {w : ProposalWrite} {block : Option SignedBeaconBlock}
    (h : w.Authoritative block) (old old' : Option ProposalRow) : w.onto old = w.onto old' ↔
      (block = none → SameColumn (·.rewardTotal) old old' ∧ SameColumn (·.rewardAttestations) old old' ∧
        SameColumn (·.rewardSync) old old' ∧ SameColumn (·.rewardSlashings) old old') := by
  have honto : ∀ old, w.onto old = { w.toRow with
      rewardTotal := coalesce w.rewardTotal (old.bind (·.rewardTotal))
      rewardAttestations := coalesce w.rewardAttestations (old.bind (·.rewardAttestations))
      rewardSync := coalesce w.rewardSync (old.bind (·.rewardSync))
      rewardSlashings := coalesce w.rewardSlashings (old.bind (·.rewardSlashings)) } := by
    intro old
    cases old with
    | none => simp [ProposalWrite.onto, ProposalWrite.toRow]
    | some old => rfl
  rw [honto, honto]
  simp only [ProposalRow.mk.injEq, coalesce_inj, SameColumn, true_and, and_true]
  cases block with
  | none =>
    obtain ⟨htotal, hattestations, hsync, hslashings⟩ := h.missed rfl
    simp [htotal, hattestations, hsync, hslashings]
  | some block =>
    obtain ⟨htotal, hattestations, hsync, hslashings⟩ := h.rewarded rfl
    have hsome : ∀ {a : Option Int}, a.isSome = true → ¬a = none := fun hs hn => by rw [hn] at hs; cases hs
    simp [hsome htotal, hsome hattestations, hsome hsync, hsome hslashings]

/-- The one write to the row of a tracked slot. -/
theorem ProposalStage.row {tracked : Table Nat Nat} {parts : List (List DbOp)} {slots : List Nat}
    (hparts : List.Forall₂ (SlotWrite node tracked) slots parts) (hn : slots.Nodup) {slot : Nat} (hslot : slot ∈ slots)
    (htracked : tracked.has slot = true) : ∃ w : ProposalWrite, w.Authoritative (blockOf node slot) ∧
      ∀ db, proposalView slot (replay (writing spec) parts.flatten db) =
        proposalView slot (writing spec (.upsertBlockProposal slot w) db) := by
  have hframe : ∀ slot' part, SlotWrite node tracked slot' part → slot' ≠ slot → ∀ op ∈ part, ∀ db,
      proposalView slot (writing spec op db) = proposalView slot db := by
    intro slot' part hpart hne op hop db
    cases hget : tracked.get slot' with
    | none =>
      rw [hpart.1 hget] at hop
      exact (List.not_mem_nil hop).elim
    | some proposer =>
      obtain ⟨w, rfl, -⟩ := hpart.2 (Table.has_iff.2 ⟨proposer, hget⟩)
      obtain rfl := List.mem_singleton.1 hop
      rw [proposalView_upsert, if_neg hne.symm]
      rfl
  obtain ⟨part, hpart, hrun⟩ := replay_part (proposalView slot) hparts hn hslot hframe
  obtain ⟨w, rfl, hw⟩ := hpart.2 htracked
  have hop : IsScanOp (.upsertBlockProposal slot w) := trivial
  refine ⟨w, hw, fun db => ?_⟩
  obtain ⟨db₁, hdb₁, hview⟩ := hrun db
  rw [hview, replay_cons, replay_nil]
  exact hop.proposal_congr slot db₁ db hdb₁

/-! ### Sync rows -/

/-- The one write to the row of a member. -/
theorem MembersWrite.row {v slot : Nat} {w : SyncWrite} : ∀ {values : List (Nat × SyncWrite)}, (values.map Prod.fst).Nodup →
    (v, w) ∈ values → ∀ db, syncView (v, slot) (replay (writing spec)
      (values.map fun r => .upsertSyncDuty r.1 slot r.2) db) = syncView (v, slot) (writing spec (.upsertSyncDuty v slot w) db)
  | [], _, hm, _ => (List.not_mem_nil hm).elim
  | r :: values, hn, hm, db => by
    obtain ⟨hr, hn⟩ := List.nodup_cons.1 hn
    rw [List.map_cons, replay_cons]
    obtain rfl | hm := List.mem_cons.1 hm
    · apply replay_frame
      intro op hop db
      obtain ⟨r', hr', rfl⟩ := List.mem_map.1 hop
      have hne : ¬(v, slot) = (r'.1, slot) := fun hk => hr (List.mem_map.2 ⟨r', hr', (Prod.mk.inj hk).1.symm⟩)
      rw [syncView_upsert, if_neg hne]
      rfl
    · have hne : ¬(v, slot) = (r.1, slot) := fun hk => hr (List.mem_map.2 ⟨(v, w), hm, (Prod.mk.inj hk).1⟩)
      have hop : IsScanOp (.upsertSyncDuty v slot w) := trivial
      rw [MembersWrite.row hn hm]
      apply hop.sync_congr
      rw [syncView_upsert, if_neg hne]
      rfl

/-- What the sync stage does to the row of a scanned member. -/
theorem SyncStage.row {slots : List Nat} {parts : List (List DbOp)} (hparts : List.Forall₂ (MembersWrite node epoch vs
    fun w => w.reward.isSome = true) slots parts) (hn : slots.Nodup) {v slot : Nat} (hslot : slot ∈ slots)
    (hv : v ∈ answeredSyncMembers node epoch vs) :
    (SyncSeen node epoch v slot ∧ ∃ w : SyncWrite, w.finalized = true ∧ w.reward.isSome = true ∧ ∀ db,
      syncView (v, slot) (replay (writing spec) parts.flatten db) =
        syncView (v, slot) (writing spec (.upsertSyncDuty v slot w) db)) ∨
    (¬SyncSeen node epoch v slot ∧ ∀ db,
      syncView (v, slot) (replay (writing spec) parts.flatten db) = syncView (v, slot) db) := by
  have hframe : ∀ slot' part, MembersWrite node epoch vs (fun w => w.reward.isSome = true) slot' part → slot' ≠ slot →
      ∀ op ∈ part, ∀ db, syncView (v, slot) (writing spec op db) = syncView (v, slot) db := by
    rintro slot' part ⟨values, rfl, -⟩ hne op hop db
    obtain ⟨r, hr, rfl⟩ := List.mem_map.1 hop
    have hne : ¬(v, slot) = (r.1, slot') := fun hk => hne (Prod.mk.inj hk).2.symm
    rw [syncView_upsert, if_neg hne]
    rfl
  obtain ⟨part, ⟨values, rfl, hkeys, hseen, hvalues⟩, hrun⟩ := replay_part (syncView (v, slot)) hparts hn hslot hframe
  by_cases hm : v ∈ values.map Prod.fst
  · obtain ⟨⟨v, w⟩, hr, rfl⟩ := List.mem_map.1 hm
    have hop : IsScanOp (.upsertSyncDuty v slot w) := trivial
    refine Or.inl ⟨(hseen v hv).1 hm, w, (hvalues _ hr).1, (hvalues _ hr).2, fun db => ?_⟩
    obtain ⟨db₁, hdb₁, hview⟩ := hrun db
    rw [hview, MembersWrite.row hkeys hr]
    exact hop.sync_congr _ db₁ db hdb₁
  · refine Or.inr ⟨fun h => hm ((hseen v hv).2 h), fun db => ?_⟩
    obtain ⟨db₁, hdb₁, hview⟩ := hrun db
    rw [hview, ← hdb₁]
    apply replay_frame
    intro op hop db
    obtain ⟨r, hr, rfl⟩ := List.mem_map.1 hop
    have hne : ¬(v, slot) = (r.1, slot) := fun hk => hm (List.mem_map.2 ⟨r, hr, (Prod.mk.inj hk).1.symm⟩)
    rw [syncView_upsert, if_neg hne]
    rfl

/-! ### Whole scans -/

theorem AttestationStage.ops {ws : List DbOp} (h : AttestationStage spec node epoch vs mode ws) :
    ∀ op ∈ ws, ∃ v w, op = .upsertAttestationDuty v epoch w := by
  obtain ⟨-, parts, hparts, rfl⟩ := h
  intro op hop
  obtain ⟨d, -, part, ⟨w, rfl, -⟩, hop⟩ := mem_part hparts hop
  exact ⟨_, w, List.mem_singleton.1 hop⟩

theorem ProposalStage.ops {ws : List DbOp} (h : ProposalStage spec node epoch vs ws) :
    ∀ op ∈ ws, ∃ slot w, op = .upsertBlockProposal slot w := by
  obtain ⟨tracked, -, parts, hparts, rfl⟩ := h
  intro op hop
  obtain ⟨slot, -, part, hpart, hop⟩ := mem_part hparts hop
  cases hget : tracked.get slot with
  | none =>
    rw [hpart.1 hget] at hop
    exact (List.not_mem_nil hop).elim
  | some proposer =>
    obtain ⟨w, rfl, -⟩ := hpart.2 (Table.has_iff.2 ⟨proposer, hget⟩)
    exact ⟨slot, w, List.mem_singleton.1 hop⟩

theorem SyncStage.ops {ws : List DbOp} (h : SyncStage spec node epoch vs ws) :
    ∀ op ∈ ws, ∃ v slot w, op = .upsertSyncDuty v slot w := by
  obtain ⟨parts, hparts, rfl⟩ := h
  intro op hop
  obtain ⟨slot, -, part, ⟨values, rfl, -⟩, hop⟩ := mem_part hparts hop
  obtain ⟨r, -, rfl⟩ := List.mem_map.1 hop
  exact ⟨_, slot, _, rfl⟩

namespace ScanWrites

variable {ws : List DbOp} {db db' : Db}

theorem isScanOp (h : ScanWrites spec node epoch vs mode ws) : ∀ op ∈ ws, IsScanOp op := by
  obtain ⟨attestations, proposals, sync, hattestations, hproposals, hsync, rfl⟩ := h
  intro op hop
  simp only [List.mem_append, List.mem_singleton] at hop
  obtain hop | hop | hop | rfl := hop
  · obtain ⟨v, w, rfl⟩ := hattestations.ops op hop
    trivial
  · obtain ⟨slot, w, rfl⟩ := hproposals.ops op hop
    trivial
  · split at hsync
    · obtain ⟨v, slot, w, rfl⟩ := hsync.ops op hop
      trivial
    · subst hsync
      exact (List.not_mem_nil hop).elim
  · trivial

theorem attestation_iff (h : ScanWrites spec node epoch vs mode ws) (hdiff : ProvisionalDiff spec epoch vs db db') {v : Nat}
    (hv : v ∈ vs) : (replay (writing spec) ws db).attestationDuties.get (v, epoch) =
        (replay (writing spec) ws db').attestationDuties.get (v, epoch) ↔
      ((∀ d ∈ answeredDuties node epoch vs, d.validatorIndex = v → Unseen spec node epoch mode d) →
        SameColumn (·.sourceCorrect) (db.attestationDuties.get (v, epoch)) (db'.attestationDuties.get (v, epoch)) ∧
        SameColumn (·.targetCorrect) (db.attestationDuties.get (v, epoch)) (db'.attestationDuties.get (v, epoch)) ∧
        SameColumn (·.headCorrect) (db.attestationDuties.get (v, epoch)) (db'.attestationDuties.get (v, epoch))) ∧
      (((answeredRewards node epoch vs).get v).bind (·.inactivity) = none →
        SameColumn (·.inactivityPenalty) (db.attestationDuties.get (v, epoch)) (db'.attestationDuties.get (v, epoch))) := by
  obtain heq | ⟨-, -, hcompleted⟩ := hdiff.attestation v epoch
  · -- from the same row the statements make the same row
    have hview : attestationView (v, epoch) db = attestationView (v, epoch) db' := Prod.ext hdiff.completed.symm heq
    have hend : attestationView (v, epoch) (replay (writing spec) ws db) = attestationView (v, epoch) (replay (writing spec) ws db') :=
      replay_congr _ (fun op hop => (h.isScanOp op hop).attestation_congr (v, epoch)) _ _ hview
    rw [heq]
    simp only [SameColumn, and_self, implies_true, iff_true]
    exact (Prod.mk.inj hend).2
  · have hcompleted' : db'.completed v epoch = false := by
      rw [Db.completed, hdiff.completed]
      exact hcompleted
    obtain ⟨attestations, proposals, sync, ⟨hall, parts, hparts, rfl⟩, hproposals, hsync, rfl⟩ := h
    obtain ⟨d, hd, hdv⟩ := hall v hv
    have hmem : v ∈ ((answeredDuties node epoch vs).filter fun d => vs.contains d.validatorIndex).map (·.validatorIndex) :=
      List.mem_map.2 ⟨d, List.mem_filter.2 ⟨hd, List.contains_iff_mem.2 (hdv ▸ hv)⟩, hdv⟩
    obtain ⟨w, hw, hrun⟩ := AttestationStage.row hparts hmem
    have hunseen : (∀ d ∈ (answeredDuties node epoch vs).filter fun d => vs.contains d.validatorIndex,
        d.validatorIndex = v → Unseen spec node epoch mode d) ↔
        ∀ d ∈ answeredDuties node epoch vs, d.validatorIndex = v → Unseen spec node epoch mode d := by
      constructor
      · exact fun h d hd hdv => h d (List.mem_filter.2 ⟨hd, List.contains_iff_mem.2 (hdv ▸ hv)⟩) hdv
      · exact fun h d hd hdv => h d (List.mem_filter.1 hd).1 hdv
    -- the other stages leave the row to the completion
    have hrest : ∀ db : Db, db.completed v epoch = false → (replay (writing spec) (parts.flatten ++ (proposals ++ (sync ++
        [.markComplete vs epoch]))) db).attestationDuties.get (v, epoch) =
        some { Db.upsertedAttestation false w (db.attestationDuties.get (v, epoch)) with inclusionKnown := true } := by
      intro db hdb
      have hframe : ∀ op ∈ proposals ++ sync, ∀ db : Db,
          (writing spec op db).attestationDuties.get (v, epoch) = db.attestationDuties.get (v, epoch) := by
        intro op hop db
        rw [List.mem_append] at hop
        obtain hop | hop := hop
        · obtain ⟨slot, w, rfl⟩ := hproposals.ops op hop
          rfl
        · split at hsync
          · obtain ⟨u, slot, w, rfl⟩ := hsync.ops op hop
            rfl
          · subst hsync
            exact (List.not_mem_nil hop).elim
      rw [← List.append_assoc proposals, replay_append, replay_append, replay_cons, replay_nil]
      show (Db.markComplete vs epoch _).attestationDuties.get (v, epoch) = _
      rw [Db.markComplete_att, replay_frame (fun db : Db => db.attestationDuties.get (v, epoch)) hframe, hrun db hdb]
      simp [hv]
    rw [hrest db hcompleted, hrest db' hcompleted', Option.some.injEq, hw.upserted_eq_iff, hunseen]

theorem proposal_iff (h : ScanWrites spec node epoch vs mode ws) (hdiff : ProvisionalDiff spec epoch vs db db')
    {d : ProposerDuty} (hd : d ∈ answeredProposers node epoch) (hv : d.validatorIndex ∈ vs) :
    (replay (writing spec) ws db).blockProposals.get d.slot = (replay (writing spec) ws db').blockProposals.get d.slot ↔
      (blockOf node d.slot = none →
        SameColumn (·.rewardTotal) (db.blockProposals.get d.slot) (db'.blockProposals.get d.slot) ∧
        SameColumn (·.rewardAttestations) (db.blockProposals.get d.slot) (db'.blockProposals.get d.slot) ∧
        SameColumn (·.rewardSync) (db.blockProposals.get d.slot) (db'.blockProposals.get d.slot) ∧
        SameColumn (·.rewardSlashings) (db.blockProposals.get d.slot) (db'.blockProposals.get d.slot)) := by
  obtain heq | hprovisional := hdiff.proposal d.slot
  · have hview : proposalView d.slot db = proposalView d.slot db' := Prod.ext hdiff.completed.symm heq
    have hend : proposalView d.slot (replay (writing spec) ws db) = proposalView d.slot (replay (writing spec) ws db') :=
      replay_congr _ (fun op hop => (h.isScanOp op hop).proposal_congr d.slot) _ _ hview
    rw [heq]
    simp only [SameColumn, and_self, implies_true, iff_true]
    exact (Prod.mk.inj hend).2
  · obtain ⟨attestations, proposals, sync, hattestations, ⟨tracked, htracked, parts, hparts, rfl⟩, hsync, rfl⟩ := h
    obtain ⟨hhas, hslot⟩ := htracked d hd hv
    obtain ⟨w, hw, hrun⟩ := ProposalStage.row hparts (List.nodup_range' ..) hslot hhas
    -- the stages before and after leave the row alone
    have hrest : ∀ db₁ : Db, (∀ row, db₁.blockProposals.get d.slot = some row →
        db₁.completed row.proposerIndex (spec.slotToEpoch d.slot) = false) →
        (replay (writing spec) (attestations ++ (parts.flatten ++ (sync ++ [.markComplete vs epoch]))) db₁).blockProposals.get
          d.slot = some (w.onto (db₁.blockProposals.get d.slot)) := by
      intro db₁ hdb₁
      have hbefore : proposalView d.slot (replay (writing spec) attestations db₁) = proposalView d.slot db₁ := by
        apply replay_frame
        intro op hop db
        obtain ⟨v, w, rfl⟩ := hattestations.ops op hop
        rfl
      have hafter : ∀ op ∈ sync ++ [.markComplete vs epoch], ∀ db : Db,
          (writing spec op db).blockProposals.get d.slot = db.blockProposals.get d.slot := by
        intro op hop db
        rw [List.mem_append, List.mem_singleton] at hop
        obtain hop | rfl := hop
        · split at hsync
          · obtain ⟨u, slot, w, rfl⟩ := hsync.ops op hop
            rfl
          · subst hsync
            exact (List.not_mem_nil hop).elim
        · rfl
      have hop : IsScanOp (.upsertBlockProposal d.slot w) := trivial
      have hrow := (hrun _).trans (hop.proposal_congr d.slot _ _ hbefore)
      rw [proposalView_upsert, if_pos rfl] at hrow
      rw [replay_append, replay_append, replay_frame (fun db : Db => db.blockProposals.get d.slot) hafter,
        (Prod.mk.inj hrow).2]
      cases hold : db₁.blockProposals.get d.slot with
      | none => rfl
      | some old =>
        refine congrArg some (if_pos ?_)
        rw [hw.finalized, hdb₁ old hold]
        simp
    have hcompleted : ∀ row : ProposalRow, (db.blockProposals.get d.slot = some row ∨ db'.blockProposals.get d.slot = some row) →
        db.completed row.proposerIndex (spec.slotToEpoch d.slot) = false := by
      intro row hrow
      obtain ⟨-, hepoch, hopen⟩ := hprovisional row hrow
      rw [hepoch]
      exact hopen
    rw [hrest db fun row hrow => hcompleted row (Or.inl hrow), hrest db' fun row hrow => ?_, Option.some.injEq, hw.onto_eq_iff]
    rw [Db.completed, hdiff.completed]
    exact hcompleted row (Or.inr hrow)

theorem sync_iff (h : ScanWrites spec node epoch vs mode ws) (hdiff : ProvisionalDiff spec epoch vs db db')
    (haltair : spec.altairForkEpoch ≤ epoch) {v slot : Nat} (hv : v ∈ answeredSyncMembers node epoch vs)
    (hslot : slot ∈ List.range' (spec.epochStartSlot epoch) spec.slotsPerEpoch) :
    ((replay (writing spec) ws db).syncDuties.get (v, slot)).map SyncRow.data =
        ((replay (writing spec) ws db').syncDuties.get (v, slot)).map SyncRow.data ↔
      (¬SyncSeen node epoch v slot →
        (db.syncDuties.get (v, slot)).map SyncRow.data = (db'.syncDuties.get (v, slot)).map SyncRow.data) := by
  obtain heq | ⟨-, hepoch, hcompleted⟩ := hdiff.sync v slot
  · have hview : syncView (v, slot) db = syncView (v, slot) db' := Prod.ext hdiff.completed.symm heq
    have hend : syncView (v, slot) (replay (writing spec) ws db) = syncView (v, slot) (replay (writing spec) ws db') :=
      replay_congr _ (fun op hop => (h.isScanOp op hop).sync_congr (v, slot)) _ _ hview
    simp only [heq, implies_true, iff_true]
    exact congrArg (Option.map SyncRow.data) (Prod.mk.inj hend).2
  · obtain ⟨attestations, proposals, sync, hattestations, hproposals, hsync, rfl⟩ := h
    rw [if_pos haltair] at hsync
    obtain ⟨parts, hparts, rfl⟩ := hsync
    have hbefore : ∀ db₁ : Db, syncView (v, slot) (replay (writing spec) (attestations ++ proposals) db₁) =
        syncView (v, slot) db₁ := by
      intro db₁
      apply replay_frame
      intro op hop db
      rw [List.mem_append] at hop
      obtain hop | hop := hop
      · obtain ⟨u, w, rfl⟩ := hattestations.ops op hop
        rfl
      · obtain ⟨s, w, rfl⟩ := hproposals.ops op hop
        rfl
    have hafter : ∀ db₁ : Db, (replay (writing spec) (attestations ++ (proposals ++ (parts.flatten ++
        [.markComplete vs epoch]))) db₁).syncDuties.get (v, slot) =
        (syncView (v, slot) (replay (writing spec) parts.flatten (replay (writing spec) (attestations ++ proposals) db₁))).2 := by
      intro db₁
      rw [← List.append_assoc attestations, replay_append, replay_append]
      rfl
    rw [hafter, hafter]
    obtain ⟨hseen, w, hfinal, hreward, hrun⟩ | ⟨hseen, hrun⟩ := SyncStage.row hparts (List.nodup_range' ..) hslot hv
    · -- the row of a seen member is the value written
      have hrow : ∀ db₁ : Db, db₁.completed v epoch = false → syncView (v, slot) (replay (writing spec) parts.flatten
          (replay (writing spec) (attestations ++ proposals) db₁)) = (db₁.completedScans, some w.toRow) := by
        intro db₁ hdb₁
        have hop : IsScanOp (.upsertSyncDuty v slot w) := trivial
        rw [hrun, hop.sync_congr (v, slot) _ _ (hbefore db₁), syncView_upsert, if_pos rfl]
        cases hold : db₁.syncDuties.get (v, slot) with
        | none => rfl
        | some old =>
          have hmerge : w.merge old = w.toRow := by
            obtain ⟨reward, hr⟩ := Option.isSome_iff_exists.1 hreward
            simp [SyncWrite.merge, SyncWrite.toRow, hr]
          have hopen : (!old.finalized || (w.finalized && !db₁.completed v (spec.slotToEpoch slot))) = true := by
            rw [hepoch, hdb₁, hfinal]
            simp
          rw [Db.upsertedSync, if_pos hopen, hmerge]
      have hcompleted' : db'.completed v epoch = false := by
        rw [Db.completed, hdiff.completed]
        exact hcompleted
      rw [hrow db hcompleted, hrow db' hcompleted']
      exact ⟨fun _ hnot => (hnot hseen).elim, fun _ => rfl⟩
    · rw [hrun, hrun, hbefore, hbefore]
      exact ⟨fun h _ => h, fun h => h hseen⟩

end ScanWrites

/-- Two successful finalized scans with the same answers leave the same rows exactly if the databases agreed where
the scan leaves a column NULL. -/
theorem scan_authoritative_iff {db db' t t' : Db} (hdiff : ProvisionalDiff spec epoch vs db db')
    (hscan : Exec (answering spec node) (scanEpoch spec epoch vs true mode).run db (.ok ()) t)
    (hscan' : Exec (answering spec node) (scanEpoch spec epoch vs true mode).run db' (.ok ()) t') :
    ScannedRowsAgree spec node epoch vs t t' ↔ NullColumnsAgree spec node epoch vs mode db db' := by
  by_cases hempty : vs.isEmpty = true
  · -- nobody is scanned
    obtain rfl := List.isEmpty_iff.1 hempty
    have hmembers : answeredSyncMembers node epoch [] = [] := by simp [answeredSyncMembers]
    constructor
    · intro _
      constructor <;> simp [hmembers]
    · intro _
      constructor <;> simp [hmembers]
  obtain ⟨-, ws, hws, rfl, rfl⟩ := issues_scanEpoch epoch mode (by simpa using hempty) db db' () () t t' hscan hscan'
  constructor
  · intro h
    constructor
    case flags => exact fun v hv => ((hws.attestation_iff hdiff hv).1 (h.attestation v hv)).1
    case inactivity => exact fun v hv => ((hws.attestation_iff hdiff hv).1 (h.attestation v hv)).2
    case proposal => exact fun d hd hv => (hws.proposal_iff hdiff hd hv).1 (h.proposal d hd hv)
    case sync => exact fun ha v hv slot hs => (hws.sync_iff hdiff ha hv hs).1 (h.sync ha v hv slot hs)
  · intro h
    constructor
    case attestation => exact fun v hv => (hws.attestation_iff hdiff hv).2 ⟨h.flags v hv, h.inactivity v hv⟩
    case proposal => exact fun d hd hv => (hws.proposal_iff hdiff hd hv).2 (h.proposal d hd hv)
    case sync => exact fun ha v hv slot hs => (hws.sync_iff hdiff ha hv hs).2 (h.sync ha v hv slot hs)

end Rows

/-! ## A miss over a provisional row -/

/-- Nothing is proposed in epoch 1 and after it, and validator 7 is assigned to slot 2. -/
def quietNode : (q : Request) → Except Error q.Answer
  | .blockRoot s => .ok (if s = 1 then some ⟨1⟩ else none)
  | .blockByRoot _ => .ok (some (bareBlock 1 ⟨0⟩))
  | .committees _ => .ok [⟨0, 2, [7]⟩]
  | .attesterDuties _ _ => .ok [⟨7, 0, 0, 2⟩]
  | .attestationRewards _ _ => .ok ⟨[⟨7, 0, 0, 0, none, none⟩], none⟩
  | .finalityCheckpoints _ => .ok ⟨⟨⟨0, ⟨0⟩⟩, ⟨0, ⟨0⟩⟩⟩, none⟩
  | .proposerDuties _ => .ok [⟨1, 2⟩, ⟨3, 3⟩]
  | _ => .error (.http "no answer")

/-- A database whose only duty was left by a live inclusion in slot 4. -/
def provisional (flag : Option Bool) : Db :=
  (Db.registered [7]).upsertAttestationDuty 7 1 ⟨2, 0, 0, true, some 4, some 2, some 2, flag, flag, flag, none, none, none, none, false⟩

theorem provisional_diff (flag : Option Bool) : ProvisionalDiff pairs 1 [7] (.registered [7]) (provisional flag) := by
  constructor
  case completed => rfl
  case attestation =>
    intro v e
    by_cases hk : (v, e) = (7, 1)
    · obtain ⟨rfl, rfl⟩ := Prod.mk.inj hk
      exact Or.inr ⟨List.mem_singleton_self 7, rfl, rfl⟩
    · refine Or.inl ?_
      rw [provisional, Db.upsertAttestationDuty_get, if_neg hk]
  case proposal => exact fun slot => Or.inl rfl
  case sync => exact fun v slot => Or.inl rfl

theorem scan_keeps_provisional_flags : ¬∀ (spec : ChainSpec) (node : (q : Request) → Except Error q.Answer) (epoch : Nat)
    (vs : List Nat) (mode : EffectiveScanMode) (db db' t t' : Db), ProvisionalDiff spec epoch vs db db' →
      Exec (answering spec node) (scanEpoch spec epoch vs true mode).run db (.ok ()) t →
      Exec (answering spec node) (scanEpoch spec epoch vs true mode).run db' (.ok ()) t' →
      ScannedRowsAgree spec node epoch vs t t' := by
  intro h
  obtain ⟨⟨⟩, t, hscan, hmiss⟩ := @exec_of_advance pairs quietNode _ (scanEpoch pairs 1 [7] true .dense) 60 (.registered [7])
    (fun _ db => (db.attestationDuties.get (7, 1)).any fun row => row.headCorrect == none) (by decide +kernel)
  obtain ⟨⟨⟩, t', hscan', hmiss'⟩ := @exec_of_advance pairs quietNode _ (scanEpoch pairs 1 [7] true .dense) 60 (provisional (some true))
    (fun _ db => (db.attestationDuties.get (7, 1)).any fun row => row.headCorrect == some true) (by decide +kernel)
  have heq := (h pairs quietNode 1 [7] .dense (.registered [7]) (provisional (some true)) t t' (provisional_diff _) hscan hscan').attestation
    7 (List.mem_singleton_self 7)
  rw [← heq] at hmiss'
  cases hrow : t.attestationDuties.get (7, 1) with
  | none =>
    rw [hrow] at hmiss
    cases hmiss
  | some row =>
    rw [hrow] at hmiss hmiss'
    simp only [Option.any_some, beq_iff_eq] at hmiss hmiss'
    rw [hmiss] at hmiss'
    cases hmiss'

theorem scan_overwrites_provisional : ∃ t t' : Db, ScannedRowsAgree pairs quietNode 1 [7] t t' ∧
    (t'.attestationDuties.get (7, 1)).any (fun row => row.finalized && !row.included && row.inclusionSlot == none) = true := by
  obtain ⟨⟨⟩, t, hscan, -⟩ := @exec_of_advance pairs quietNode _ (scanEpoch pairs 1 [7] true .dense) 60 (.registered [7])
    (fun _ _ => true) (by decide +kernel)
  obtain ⟨⟨⟩, t', hscan', hrow⟩ := @exec_of_advance pairs quietNode _ (scanEpoch pairs 1 [7] true .dense) 60 (provisional none)
    (fun _ db => (db.attestationDuties.get (7, 1)).any fun row => row.finalized && !row.included && row.inclusionSlot == none)
    (by decide +kernel)
  refine ⟨t, t', (scan_authoritative_iff (provisional_diff none) hscan hscan').2 ?_, hrow⟩
  constructor
  case flags =>
    intro v hv _
    obtain rfl := List.mem_singleton.1 hv
    exact ⟨rfl, rfl, rfl⟩
  case inactivity =>
    intro v hv _
    obtain rfl := List.mem_singleton.1 hv
    rfl
  case proposal => exact fun d _ _ _ => ⟨rfl, rfl, rfl, rfl⟩
  case sync => exact fun _ v _ slot _ _ => rfl

end BeaconIndexer
