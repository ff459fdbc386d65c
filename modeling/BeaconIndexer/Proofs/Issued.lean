/-
What the workers' programs issue, whatever the node answers: the live worker only writes
provisional rows and jobs of the validators it works for, and an archive scan only finalized rows
of its own validators. State-dependent facts are left to the theorems that need them.
-/
import BeaconIndexer.Workers

namespace BeaconIndexer

open Effects Relational

/-! ## What a setting allows -/

/-- The statement only reads. -/
def DbOp.reads : DbOp → Bool
  | .eligibleForLiveEpoch .. | .trackedValidators | .recentBlocks _ | .processedTip _ | .missingCoverageSlots ..
  | .pendingJobs .. | .activeValidatorsAt .. | .repairSlots .. | .reportProgress => true
  | _ => false

/-- The statement may write an inclusion. -/
def DbOp.writesInclusions : DbOp → Bool
  | .upsertAttestationDuty .. | .repairFinalizedInclusion .. => true
  | _ => false

theorem DbOp.writesInclusions_of_reads {op : DbOp} (h : op.reads = true) : op.writesInclusions = false := by
  cases op <;> first | rfl | cases h

/-- Statements that meet `G` are allowed, requests are free, and answers name validators of `own`. -/
structure Grants {σ : Type} (C : Contract indexer σ) (G : DbOp → Prop) (own : Nat → Prop) : Prop where
  node : ∀ q s, C.guar (.node q) s
  db : ∀ op s, G op → C.guar (.db op) s
  active : ∀ {vs e s s'} {r : List Nat}, C.sem (.db (.activeValidatorsAt vs e)) s (.ok r) s' → ∀ v ∈ r, v ∈ vs
  eligible : ∀ {vs e s s'} {r : List Nat}, C.sem (.db (.eligibleForLiveEpoch vs e)) s (.ok r) s' → ∀ v ∈ r, v ∈ vs
  sync : ∀ {e vs s s'} {r : List SyncDuty}, C.sem (.node (.syncDuties e vs)) s (.ok r) s' → (∀ v ∈ vs, own v) →
    ∀ d ∈ r, own d.validatorIndex

theorem Grants.strengthen {σ : Type} {C : Contract indexer σ} {G : DbOp → Prop} {own : Nat → Prop} (h : Grants C G own)
    {g : Effect → σ → Prop} (hn : ∀ q s, g (.node q) s) (hg : ∀ op s, G op → g (.db op) s) :
    Grants (C.strengthen g) G own where
  node q s := ⟨h.node q s, hn q s⟩
  db op s hop := ⟨h.db op s hop, hg op s hop⟩
  active := h.active
  eligible := h.eligible
  sync := h.sync

/-- A statement a live pass may issue before it turns to finality. -/
inductive LiveIssue (spec : ChainSpec) (tracked : List Nat) (own : Nat → Prop) : DbOp → Prop
  | read {op} : op.reads = true → LiveIssue spec tracked own op
  | registerTrackingStart {e} : LiveIssue spec tracked own (.registerTrackingStart tracked e)
  | recordBlock {s r p} : LiveIssue spec tracked own (.recordBlock s r p)
  | recordCoverage {s} : LiveIssue spec tracked own (.recordCoverage tracked s)
  | invalidateFrom {r} : LiveIssue spec tracked own (.invalidateFrom r)
  | enqueueJobs {e slot c vs root} : (∀ v ∈ vs, own v) → (∀ s, slot = some s → e = spec.slotToEpoch s) →
      LiveIssue spec tracked own (.enqueueJobs e slot c vs root)
  | completeJob {job payload dep} : LiveIssue spec tracked own (.completeJob job payload dep)
  | failJob {job error} : LiveIssue spec tracked own (.failJob job error)
  | expireJobs {e} : LiveIssue spec tracked own (.expireJobs e)
  | pruneCompletedEvidence {e} : LiveIssue spec tracked own (.pruneCompletedEvidence e)
  | upsertAttestationDuty {v e} {w : AttestationWrite} : w.finalized = false →
      LiveIssue spec tracked own (.upsertAttestationDuty v e w)
  | updateAttestationRewardsBatch {rs} : LiveIssue spec tracked own (.updateAttestationRewardsBatch rs)
  | upsertBlockProposal {s} {w : ProposalWrite} : w.finalized = false →
      LiveIssue spec tracked own (.upsertBlockProposal s w)
  | upsertSyncDuty {v s} {w : SyncWrite} : own v → w.finalized = false →
      LiveIssue spec tracked own (.upsertSyncDuty v s w)
  | persistLiveSyncRewards {s rs} : LiveIssue spec tracked own (.persistLiveSyncRewards s rs)

/-- A statement a finalized scan may issue. -/
inductive ScanIssue (validators : List Nat) (epoch : Nat) (own : Nat → Prop) : DbOp → Prop
  | upsertAttestationDuty {v w} : v ∈ validators → ScanIssue validators epoch own (.upsertAttestationDuty v epoch w)
  | upsertBlockProposal {s} {w : ProposalWrite} : w.proposerIndex ∈ validators →
      ScanIssue validators epoch own (.upsertBlockProposal s w)
  | upsertSyncDuty {v s w} : v ∈ validators → ScanIssue validators epoch own (.upsertSyncDuty v s w)
  | markComplete : ScanIssue validators epoch own (.markComplete validators epoch)

/-- A database that answers as modelled names only validators it was asked about. -/
theorem indexerSem_active {spec : ChainSpec} {node : (q : Request) → Except Error q.Answer → Prop} {vs r : List Nat}
    {e : Nat} {db db' : Db} (hs : indexerSem spec node (.db (.activeValidatorsAt vs e)) db (.ok r) db') :
    ∀ v ∈ r, v ∈ vs := by
  intro v hv
  rcases hs with ⟨now, hr, _⟩ | ⟨m, hr, _⟩
  · cases hr
    obtain ⟨⟨_, row⟩, hmem, rfl⟩ := List.mem_map.1 hv
    have := (Table.mem_select.1 hmem).2
    simp only [Bool.and_eq_true, List.contains_iff_mem] at this
    exact this.1
  · cases hr

theorem indexerSem_eligible {spec : ChainSpec} {node : (q : Request) → Except Error q.Answer → Prop} {vs r : List Nat}
    {e : Nat} {db db' : Db} (hs : indexerSem spec node (.db (.eligibleForLiveEpoch vs e)) db (.ok r) db') :
    ∀ v ∈ r, v ∈ vs := by
  intro v hv
  rcases hs with ⟨now, hr, _⟩ | ⟨m, hr, _⟩
  · cases hr
    have hv := (List.mem_insertionSort _).1 (show v ∈ db.eligibleForLiveEpoch vs e from hv)
    obtain ⟨⟨_, row⟩, hmem, rfl⟩ := List.mem_map.1 hv
    have := (Table.mem_select.1 hmem).2
    simp only [Bool.and_eq_true, List.contains_iff_mem] at this
    exact this.1
  · cases hr

/-! ## Single effects -/

section Rules

variable {σ : Type} {C : Contract indexer σ} {G : DbOp → Prop} {own : Nat → Prop} (h : Grants C G own)
include h

theorem Grants.request (q : Request) : C.Always (request q) fun _ => True :=
  Contract.Always.ask (fun s => h.node q s) fun _ _ _ _ _ _ => trivial

theorem Grants.statement {op : DbOp} (hop : G op) : C.Always (statement op) fun _ => True :=
  Contract.Always.ask (fun s => h.db op s hop) fun _ _ _ _ _ _ => trivial

theorem Grants.activeValidatorsAt {vs : List Nat} {e : Nat} (hop : G (.activeValidatorsAt vs e)) :
    C.Always (BeaconIndexer.statement (.activeValidatorsAt vs e)) fun r => ∀ v ∈ r, v ∈ vs :=
  Contract.Always.ask (fun s => h.db _ s hop) fun _ r _ hr a ha => by
    cases (ha : r = .ok a); exact h.active hr

theorem Grants.eligibleForLiveEpoch {vs : List Nat} {e : Nat} (hop : G (.eligibleForLiveEpoch vs e)) :
    C.Always (BeaconIndexer.statement (.eligibleForLiveEpoch vs e)) fun r => ∀ v ∈ r, v ∈ vs :=
  Contract.Always.ask (fun s => h.db _ s hop) fun _ r _ hr a ha => by
    cases (ha : r = .ok a); exact h.eligible hr

theorem Grants.getSyncDuties {e : Nat} {vs : List Nat} (hv : ∀ v ∈ vs, own v) :
    C.Always (getSyncDuties e vs) fun r => ∀ d ∈ r, own d.validatorIndex :=
  Contract.Always.ask (fun s => h.node _ s) fun _ r _ hr a ha => by
    cases (ha : r = .ok a); exact fun d hd => h.sync hr hv d hd

/-! ## Client calls -/

omit h in
theorem always_ensureNotOptimistic {α : Type} (r : BeaconResponse α) : C.Always (ensureNotOptimistic r) fun _ => True :=
  Contract.Always.ite (fun _ => .throw) fun _ => .pure trivial

theorem Grants.getHeader (id : HeaderId) : C.Always (getHeader id) fun _ => True :=
  .bind (h.request _) fun r _ => .bind (always_ensureNotOptimistic r) fun _ _ => .check fun _ => .pure trivial

theorem Grants.getHeadHeader : C.Always getHeadHeader fun _ => True :=
  .bind (h.getHeader _) fun _ _ => .pure trivial

theorem Grants.getBlockBySlot (slot : Nat) : C.Always (getBlockBySlot slot) fun _ => True := by
  refine .bind (h.request _) fun root _ => ?_
  cases root with
  | none => exact .pure trivial
  | some root => exact .bind (h.request _) fun _ _ => .check fun _ => .pure trivial

theorem Grants.getProposerDuties (spec : ChainSpec) (epoch : Nat) :
    C.Always (getProposerDuties spec epoch) fun _ => True :=
  .bind (h.request _) fun _ _ => .check fun _ => .pure trivial

omit h in
/-- A request whose response is checked for optimism. -/
theorem always_verified {α : Type} {x : Task (BeaconResponse α)} (hx : C.Always x fun _ => True) :
    C.Always (do let response ← x; BeaconIndexer.ensureNotOptimistic response; pure response) fun _ => True :=
  .bind hx fun r _ => .bind (always_ensureNotOptimistic r) fun _ _ => .pure trivial

theorem Grants.getAttestationRewardsResponse (e : Nat) (vs : List Nat) :
    C.Always (getAttestationRewardsResponse e vs) fun _ => True := always_verified (h.request _)

theorem Grants.getAttestationRewards (e : Nat) (vs : List Nat) : C.Always (getAttestationRewards e vs) fun _ => True :=
  .bind (h.getAttestationRewardsResponse e vs) fun _ _ => .pure trivial

theorem Grants.getFinalityCheckpoints (id : StateId) : C.Always (getFinalityCheckpoints id) fun _ => True :=
  always_verified (h.request _)

theorem Grants.getStateRoot (s : Nat) : C.Always (getStateRoot s) fun _ => True := always_verified (h.request _)

theorem Grants.getBlockRewardsByRoot (r : Root) : C.Always (getBlockRewardsByRoot r) fun _ => True :=
  always_verified (h.request _)

theorem Grants.getSyncCommitteeRewardsByRoot (r : Root) (vs : List Nat) :
    C.Always (getSyncCommitteeRewardsByRoot r vs) fun _ => True := always_verified (h.request _)

omit h in
theorem always_ofExcept {α : Type} (x : Except Error α) : C.Always (ofExcept x) fun a => x = .ok a := by
  cases x with
  | ok a => exact .pure rfl
  | error e => exact .throw

end Rules

/-! ## Archive scans -/

section Archive

variable {σ : Type} {C : Contract indexer σ} {G : DbOp → Prop} {own : Nat → Prop} (h : Grants C G own)
  (spec : ChainSpec) {validators : List Nat} {epoch : Nat}
  (hG : ∀ op, ScanIssue validators epoch own op → op.writesInclusions = false →
    op ≠ .markComplete validators epoch → G op)
include h

theorem Grants.fetchBlocksForSlots (slots : List Nat) : C.Always (fetchBlocksForSlots slots) fun _ => True :=
  (Contract.Always.collect (P := fun _ => True) fun slot _ =>
    .bind (h.getBlockBySlot slot) fun _ _ => .pure trivial).mono fun _ _ => trivial

theorem Grants.fetchBlockRoots (blocks : List (Nat × Option SignedBeaconBlock)) :
    C.Always (fetchBlockRoots blocks) fun _ => True := by
  refine (Contract.Always.collect (P := fun _ => True) fun b _ => .bind (h.request _) fun root _ => ?_).mono
    fun _ _ => trivial
  cases root with
  | some root => exact .pure trivial
  | none => exact .throw

theorem Grants.firstRoot : ∀ slots : List Nat, C.Always (firstRoot slots) fun _ => True
  | [] => .pure trivial
  | slot :: rest => by
    refine .bind (h.request _) fun root _ => ?_
    cases root with
    | some root => exact .pure trivial
    | none => exact Grants.firstRoot rest

theorem Grants.buildVoteContext (start : Nat) (blocks : List (Nat × Option SignedBeaconBlock)) :
    C.Always (buildVoteContext spec epoch start blocks) fun ctx => ctx.targetEpoch = epoch := by
  have hmap : C.Always (buildBlockRootMap spec start blocks) fun _ => True :=
    .bind (h.fetchBlockRoots _) fun _ _ => .ite
      (fun _ => .bind (h.firstRoot _) fun _ _ => (always_ofExcept _).mono fun _ _ => trivial)
      fun _ => .bind (P := fun _ => True) (.pure trivial) fun _ _ => (always_ofExcept _).mono fun _ _ => trivial
  refine .bind hmap fun roots _ => ?_
  split
  · exact .bind (h.getFinalityCheckpoints _) fun _ _ => .pure rfl
  · exact .throw

theorem Grants.scanForward (duty : AttesterDuty) (committeeMap : CommitteeMap) (ctx : VoteContext) :
    ∀ n slot missed, C.Always (scanForward spec duty epoch committeeMap ctx n slot missed) fun _ => True
  | 0, _, _ => .pure trivial
  | n + 1, slot, missed => by
    refine .bind (h.getBlockBySlot slot) fun block _ => ?_
    cases block with
    | none => exact Grants.scanForward duty committeeMap ctx n _ _
    | some block =>
      refine .bind (always_ofExcept _) fun inclusions _ => ?_
      cases inclusions.get duty.validatorIndex with
      | some inc => exact .pure trivial
      | none => exact Grants.scanForward duty committeeMap ctx n _ _

theorem Grants.rootAtOrBefore (slot : Nat) : C.Always (rootAtOrBefore spec slot) fun _ => True := by
  refine .bind (h.firstRoot _) fun root _ => ?_
  cases root with
  | some root => exact .pure trivial
  | none => exact .throw

theorem Grants.scanForwardForInclusion (duty : AttesterDuty) (committeeMap : CommitteeMap) :
    C.Always (scanForwardForInclusion spec duty epoch committeeMap) fun _ => True :=
  .bind (h.rootAtOrBefore spec _) fun _ _ => .bind (h.rootAtOrBefore spec _) fun _ _ => h.scanForward spec duty _ _ _ _ _

theorem Grants.probeSyncParticipantReward (relevant committee : List Nat) :
    ∀ blocks, C.Always (probeSyncParticipantReward spec relevant committee blocks) fun _ => True
  | [] => .pure trivial
  | (slot, block) :: rest => by
    have ih := Grants.probeSyncParticipantReward relevant committee rest
    unfold BeaconIndexer.probeSyncParticipantReward
    split
    · exact ih
    · refine .bind (always_ofExcept _) fun bits _ => .bind (h.request _).attempt fun rewards _ => ?_
      split
      · exact ih
      · exact .throw
      · refine .bind (always_ofExcept _) fun magnitude _ => ?_
        split
        · exact .pure trivial
        · exact ih

/-- A dense scan is allowed if the rows it derives are. -/
theorem Grants.processEpochAttestationDuties_of (hrow : ∀ duty inclusion reward missedSlots, duty.validatorIndex ∈ validators →
    G (.upsertAttestationDuty duty.validatorIndex epoch (denseRow true duty inclusion reward missedSlots))) :
    C.Always (BeaconIndexer.processEpochAttestationDuties spec epoch validators true) fun _ => True := by
  refine .bind (h.fetchBlocksForSlots _) fun _ _ => .bind (h.request _) fun _ _ =>
    .bind (h.buildVoteContext spec _ _) fun _ _ => .bind (h.request _) fun _ _ =>
    .bind (h.getAttestationRewards _ _) fun _ _ => .bind (always_ofExcept _) fun _ _ =>
    .bind (always_ofExcept _) fun _ _ => .each fun duty hd => h.statement (hrow _ _ _ _ ?_)
  simp only [List.mem_filter, List.contains_iff_mem] at hd
  exact hd.2

/-- A sparse scan is allowed if the rows it derives are. -/
theorem Grants.processEpochAttestationDutiesSparse_of (hrow : ∀ duty reward found, duty.validatorIndex ∈ validators →
    G (.upsertAttestationDuty duty.validatorIndex epoch (sparseRow true duty reward found))) :
    C.Always (BeaconIndexer.processEpochAttestationDutiesSparse spec epoch validators true) fun _ => True := by
  refine .ite (fun _ => .pure trivial) fun _ => .bind (h.request _) fun duties _ =>
    .bind (h.getAttestationRewards _ _) fun _ _ => .bind (always_ofExcept _) fun _ _ =>
    .bind (h.request _) fun _ _ => .each fun duty hd => .bind (h.scanForwardForInclusion spec duty _) fun found _ =>
    .check fun _ => h.statement (hrow _ _ _ ?_)
  simp only [List.mem_filter, List.contains_iff_mem] at hd
  exact hd.2

theorem Grants.processEpochAttestationDuties (hG : ∀ op, ScanIssue validators epoch own op → G op) :
    C.Always (processEpochAttestationDuties spec epoch validators true) fun _ => True :=
  h.processEpochAttestationDuties_of spec fun _ _ _ _ hv => hG _ (.upsertAttestationDuty hv)

theorem Grants.processEpochAttestationDutiesSparse (hG : ∀ op, ScanIssue validators epoch own op → G op) :
    C.Always (processEpochAttestationDutiesSparse spec epoch validators true) fun _ => True :=
  h.processEpochAttestationDutiesSparse_of spec fun _ _ _ hv => hG _ (.upsertAttestationDuty hv)

include hG

theorem Grants.processEpochProposals : C.Always (processEpochProposals spec epoch validators true) fun _ => True := by
  refine .bind (h.getProposerDuties spec epoch) fun duties _ => .ite (fun _ => .pure trivial) fun _ =>
    .each fun slot _ => ?_
  split
  · exact .pure trivial
  · rename_i proposer hp
    have hmem : proposer ∈ validators := by
      obtain ⟨d, hd, he⟩ := List.mem_map.1 (Table.mem_of_get_ofList hp)
      obtain ⟨_, hc⟩ := List.mem_filter.1 hd
      obtain ⟨_, rfl⟩ := Prod.mk.inj he
      exact List.contains_iff_mem.1 hc
    refine .bind (h.getBlockBySlot slot) fun block _ => ?_
    cases block with
    | some block => exact .bind (h.request _) fun rewards _ => h.statement (hG _ (.upsertBlockProposal hmem) rfl nofun)
    | none => exact h.statement (hG _ (.upsertBlockProposal hmem) rfl nofun)

theorem Grants.processSlotSync {relevant : List Nat} (hrel : ∀ v ∈ relevant, v ∈ validators) (committee : List Nat)
    (magnitude : Option Int) (slot : Nat) (block : Option SignedBeaconBlock) :
    C.Always (processSlotSync spec true relevant committee magnitude slot block) fun _ => True := by
  unfold BeaconIndexer.processSlotSync
  split
  · split
    · exact .pure trivial
    · refine .bind (always_ofExcept _) fun bits _ => .each fun r hr => h.statement (hG _ (.upsertSyncDuty ?_) rfl nofun)
      exact hrel _ (List.contains_iff_mem.1 (List.mem_filter.1 hr).2)
  · exact .each fun v hv => h.statement (hG _ (.upsertSyncDuty (hrel v hv)) rfl nofun)

theorem Grants.processEpochSync : C.Always (processEpochSync spec epoch validators true) fun _ => True := by
  refine .bind (h.request _) fun duties _ => .ite (fun _ => .pure trivial) fun _ => .bind (h.request _) fun committee _ =>
    .check fun _ => .ite (fun _ => .pure trivial) fun _ => .bind (h.fetchBlocksForSlots _) fun blocks _ =>
    .bind (h.probeSyncParticipantReward spec _ _ _) fun magnitude _ =>
    .bind (.each fun b _ => h.processSlotSync spec hG (fun v hv => ?_) _ _ _ _) fun _ _ =>
    .ite (fun _ => .throw) fun _ => .pure trivial
  exact List.contains_iff_mem.1 (List.mem_filter.1 hv).2

omit hG in
/-- A finalized scan is allowed if its attestation stage is. -/
theorem Grants.scanEpoch_of (hG : ∀ op, ScanIssue validators epoch own op → op.writesInclusions = false → G op) (mode : EffectiveScanMode)
    (hdense : C.Always (BeaconIndexer.processEpochAttestationDuties spec epoch validators true) fun _ => True)
    (hsparse : C.Always (BeaconIndexer.processEpochAttestationDutiesSparse spec epoch validators true) fun _ => True) :
    C.Always (BeaconIndexer.scanEpoch spec epoch validators true mode) fun _ => True := by
  have mark : C.Always (BeaconIndexer.statement (.markComplete validators epoch)) fun _ => True :=
    h.statement (hG _ .markComplete rfl)
  have rest : C.Always (do
      BeaconIndexer.processEpochProposals spec epoch validators true
      if spec.altairForkEpoch ≤ epoch then BeaconIndexer.processEpochSync spec epoch validators true
      BeaconIndexer.statement (.markComplete validators epoch)) fun _ => True :=
    .bind (h.processEpochProposals spec fun op hop hw _ => hG op hop hw) fun _ _ => .ite
      (fun _ => .bind (h.processEpochSync spec fun op hop hw _ => hG op hop hw) fun _ _ => mark) fun _ => mark
  refine .ite (fun _ => .pure trivial) fun _ => ?_
  cases mode with
  | dense => exact .bind (hdense) fun _ _ => rest
  | sparse => exact .bind (hsparse) fun _ _ => rest

omit hG in
/-- A finalized scan only writes rows of the validators it scans and completes them. -/
theorem Grants.scanEpoch (hG : ∀ op, ScanIssue validators epoch own op → G op) (mode : EffectiveScanMode) :
    C.Always (BeaconIndexer.scanEpoch spec epoch validators true mode) fun _ => True :=
  h.scanEpoch_of spec (fun op hop _ => hG op hop) mode (h.processEpochAttestationDuties spec hG)
    (h.processEpochAttestationDutiesSparse spec hG)

end Archive

/-! ## Live passes -/

section Live

variable {σ : Type} {C : Contract indexer σ} {G : DbOp → Prop} {own : Nat → Prop} (h : Grants C G own)
  (spec : ChainSpec) {tracked : List Nat} (hown : ∀ v ∈ tracked, own v)
  (hG : ∀ op, LiveIssue spec tracked own op → op.writesInclusions = false → G op)
include h hG

theorem Grants.read {op : DbOp} (hop : op.reads = true) : C.Always (BeaconIndexer.statement op) fun _ => True :=
  h.statement (hG _ (.read hop) (DbOp.writesInclusions_of_reads hop))

theorem Grants.readActive {vs : List Nat} {e : Nat} :
    C.Always (BeaconIndexer.statement (.activeValidatorsAt vs e)) fun r => ∀ v ∈ r, v ∈ vs :=
  h.activeValidatorsAt (hG _ (.read rfl) (DbOp.writesInclusions_of_reads rfl))

/-- Every block of the chain stands at its own slot. -/
def ResolvedChain.Keyed (chain : ResolvedChain) : Prop :=
  ∀ s r b, chain.entries.get s = some (r, b) → b.slot = s

omit h hG in
theorem ResolvedChain.Keyed.insert {chain : ResolvedChain} (hk : chain.Keyed) (root : Root) (block : SignedBeaconBlock) :
    (chain.insert block.slot root block).Keyed := by
  intro s r b hb
  unfold ResolvedChain.insert at hb
  rw [Table.get_put] at hb
  split at hb
  · rename_i hs
    cases hb
    exact hs.symm
  · exact hk s r b hb

omit hG in
theorem Grants.fetchByRoot (root : Root) : ∀ n, C.Always (fetchByRoot root n) fun _ => True
  | 0 => .throw
  | n + 1 => by
    refine .bind (h.request _) fun block _ => ?_
    cases block with
    | some block => exact .pure trivial
    | none => exact Grants.fetchByRoot root n

omit hG in
theorem Grants.resolveParents (scanStart : Nat) : ∀ fuel child root chain, chain.Keyed →
    C.Always (resolveParents scanStart fuel child root chain) ResolvedChain.Keyed
  | 0, _, _, _, _ => .bind (h.fetchByRoot _ _) fun _ _ => .throw
  | fuel + 1, _, _, _, hk => .bind (h.fetchByRoot _ _) fun _ _ => .check fun _ =>
      .ite (fun _ => .pure (hk.insert _ _)) fun _ => Grants.resolveParents scanStart fuel _ _ _ (hk.insert _ _)

omit hG in
theorem Grants.resolveChain (headSlot : Nat) (headRoot : Root) (scanStart : Nat) :
    C.Always (resolveChain headSlot headRoot scanStart) ResolvedChain.Keyed := by
  have empty : ResolvedChain.Keyed ⟨.empty⟩ := fun s r b hb => by cases hb
  exact .bind (h.fetchByRoot _ _) fun _ _ => .check fun _ => .ite (fun _ => .pure (empty.insert _ _)) fun _ =>
    h.resolveParents _ _ _ _ _ (empty.insert _ _)

omit hG in
/-- A slot scan is allowed if the rows of its inclusions are, and repairs details only for finalized ancestry. -/
theorem Grants.scanLiveAttestationsInSlot_of (vs : List Nat) (block : SignedBeaconBlock) (roots : Table Nat Root)
    {finalized : Bool} (hup : ∀ v e duty inc n, G (.upsertAttestationDuty v e (liveRow duty inc n)))
    (hrep : finalized = true → ∀ v e d, G (.repairFinalizedInclusion v e d)) :
    C.Always (BeaconIndexer.scanLiveAttestationsInSlot spec vs block roots finalized) fun _ => True := by
  have write : ∀ epoch lo hi duties v inc,
      C.Always (writeLiveInclusion epoch lo hi roots finalized duties v inc) fun _ => True := by
    intro epoch lo hi duties v inc
    unfold writeLiveInclusion
    split
    · refine .check fun _ => .bind (h.statement (hup _ _ _ _ _)) fun _ _ => .ite (fun hf => ?_)
        fun _ => .pure trivial
      exact h.statement (hrep hf _ _ _)
    · exact .throw
  have scan : ∀ epoch, C.Always (scanLiveAttestationEpoch spec vs block roots finalized epoch) fun _ => True :=
    fun epoch => .bind (h.request _) fun _ _ => .bind (always_ofExcept _) fun _ _ => .bind (always_ofExcept _) fun _ _ =>
      .ite (fun _ => .pure trivial) fun _ => .bind (h.request _) fun _ _ => .each fun _ _ => write _ _ _ _ _ _
  refine .ite (fun _ => .pure trivial) fun _ => .ite (fun _ => .pure trivial) fun _ =>
    .bind (.foldlM (I := fun _ => True) trivial fun first epoch _ _ => .bind (scan epoch).attempt fun r _ => ?_)
    fun first _ => ?_
  · cases r with
    | ok a => exact .pure trivial
    | error e => exact .pure trivial
  · cases first with
    | none => exact .pure trivial
    | some e => exact .throw

omit hG in
/-- A slot scan writes provisional rows. -/
theorem Grants.scanLiveAttestationsInSlot (vs : List Nat) (block : SignedBeaconBlock) (roots : Table Nat Root)
    {finalized : Bool} (hup : ∀ v e (w : AttestationWrite), w.finalized = false → G (.upsertAttestationDuty v e w))
    (hrep : finalized = true → ∀ v e d, G (.repairFinalizedInclusion v e d)) :
    C.Always (BeaconIndexer.scanLiveAttestationsInSlot spec vs block roots finalized) fun _ => True :=
  h.scanLiveAttestationsInSlot_of spec vs block roots (fun _ _ _ _ _ => hup _ _ _ rfl) hrep

omit h hG in
theorem always_orUnavailable {α : Type} {x : Task α} {P : α → Prop} (hx : C.Always x P) :
    C.Always (orUnavailable x) fun r => ∀ a, r = some a → P a := by
  refine .bind hx.attempt fun r hr => ?_
  cases r with
  | ok a => exact .pure fun b hb => by cases hb; exact hr a rfl
  | error e => exact .ite (fun _ => .pure fun b hb => by cases hb) fun _ => .throw

omit hG in
theorem Grants.seedLiveAttestationDuties_of (epoch : Nat) (vs : List Nat)
    (hup : ∀ v duty, G (.upsertAttestationDuty v epoch (seedRow duty))) :
    C.Always (BeaconIndexer.seedLiveAttestationDuties epoch vs) fun _ => True :=
  .ite (fun _ => .pure trivial) fun _ => .bind (h.request _) fun _ _ => .bind (always_ofExcept _) fun _ _ =>
    .each fun _ _ => h.statement (hup _ _)

omit hG in
theorem Grants.seedLiveAttestationDuties (epoch : Nat) (vs : List Nat)
    (hup : ∀ v e (w : AttestationWrite), w.finalized = false → G (.upsertAttestationDuty v e w)) :
    C.Always (BeaconIndexer.seedLiveAttestationDuties epoch vs) fun _ => True :=
  h.seedLiveAttestationDuties_of epoch vs fun _ _ => hup _ _ _ rfl

/-- Proposers and sync members of fetched assignments belong to the instance. -/
def EpochDuties.Within (own : Nat → Prop) (d : EpochDuties) : Prop :=
  (∀ s v, d.proposerBySlot.get s = some v → own v) ∧
  ∀ t, d.syncPositions = some t → ∀ v ps, t.get v = some ps → own v

variable (hseed : ∀ epoch vs, C.Always (BeaconIndexer.seedLiveAttestationDuties epoch vs) fun _ => True)
  (hscan : ∀ (vs : List Nat) (chain : ResolvedChain) (slot : Nat) (root : Root) (block : SignedBeaconBlock), chain.Keyed →
    chain.entries.get slot = some (root, block) →
    C.Always (BeaconIndexer.scanLiveAttestationsInSlot spec vs block chain.roots false) fun _ => True)

include hown hseed

theorem Grants.fetchEpochDuties (slot : Nat) :
    C.Always (fetchEpochDuties spec tracked slot) (EpochDuties.Within own) := by
  have empty : EpochDuties.Within own ⟨true, .empty, none⟩ :=
    ⟨fun s v (hv : Table.empty.get s = some v) => by simp at hv, fun t ht => by simp at ht⟩
  refine .ite (fun _ => .pure empty) fun _ => .bind (h.readActive spec hG) fun active hactive =>
    .ite (fun _ => .pure empty) fun _ => .bind (always_orUnavailable (hseed _ _))
    fun seeded _ => .bind (always_orUnavailable (h.getProposerDuties spec _)) fun proposers _ => ?_
  have hprop : ∀ s v, (Table.ofList (((proposers.getD []).filter fun d => active.contains d.validatorIndex).map
      fun d => (d.slot, d.validatorIndex))).get s = some v → own v := by
    intro s v hv
    obtain ⟨d, hd, he⟩ := List.mem_map.1 (Table.mem_of_get_ofList hv)
    obtain ⟨_, rfl⟩ := Prod.mk.inj he
    exact hown _ (hactive _ (List.contains_iff_mem.1 (List.mem_filter.1 hd).2))
  refine .ite (fun _ => .pure ⟨hprop, fun t ht => by cases ht⟩) fun _ =>
    .bind (always_orUnavailable (h.getSyncDuties fun v hv => hown v (hactive v hv))) fun sync hsync =>
    .pure ⟨hprop, fun t ht v ps hv => ?_⟩
  obtain ⟨duties, rfl, rfl⟩ := Option.map_eq_some_iff.1 ht
  obtain ⟨d, hd, he⟩ := List.mem_map.1 (Table.mem_of_get_ofList hv)
  obtain ⟨rfl, _⟩ := Prod.mk.inj he
  exact hsync _ rfl d hd

omit hown hseed
theorem Grants.collectProposal (slot : Nat) (entry : Option (Root × SignedBeaconBlock)) {proposer : Option Nat}
    (hp : ∀ v, proposer = some v → own v) : C.Always (collectProposal spec slot entry proposer) fun _ => True := by
  cases proposer with
  | none => exact .pure trivial
  | some v =>
    refine .bind (h.statement (hG _ (.upsertBlockProposal rfl) rfl)) fun _ _ => ?_
    cases entry with
    | none => exact .pure trivial
    | some b =>
      refine h.statement (hG _ (.enqueueJobs (fun v' hv' => ?_) fun s hs => ?_) rfl)
      · rw [List.mem_singleton.1 hv']; exact hp v rfl
      · cases hs; rfl

theorem Grants.upsertLiveSyncInSlot (slot : Nat) (block : Option SignedBeaconBlock) {positions : SyncPositions}
    (hp : ∀ v ps, positions.get v = some ps → own v) :
    C.Always (upsertLiveSyncInSlot spec slot block positions) fun _ => True := by
  refine .ite (fun _ => .pure trivial) fun _ => ?_
  cases block with
  | none => exact .each fun r hr => h.statement (hG _ (.upsertSyncDuty (hp r.1 r.2 (Table.mem_rows.1 hr)) rfl) rfl)
  | some block =>
    dsimp only
    split
    · refine .bind (always_ofExcept _) fun bits _ => .each fun r hr => ?_
      unfold upsertLiveSyncMember
      split
      · exact .throw
      · exact h.statement (hG _ (.upsertSyncDuty (hp r.1 r.2 (Table.mem_rows.1 hr)) rfl) rfl)
    · exact .pure trivial

theorem Grants.collectSync (slot : Nat) (entry : Option (Root × SignedBeaconBlock)) {positions : Option SyncPositions}
    (hp : ∀ t, positions = some t → ∀ v ps, t.get v = some ps → own v) :
    C.Always (collectSync spec slot entry positions) fun _ => True := by
  cases positions with
  | none => exact .pure trivial
  | some t =>
    refine .bind (h.upsertLiveSyncInSlot spec hG slot _ (hp t rfl)) fun _ _ => ?_
    cases entry with
    | none => exact .pure trivial
    | some b =>
      refine .ite (fun _ => h.statement (hG _ (.enqueueJobs (fun v hv => ?_) fun s hs => ?_) rfl)) fun _ => .pure trivial
      · obtain ⟨r, hr, rfl⟩ := List.mem_map.1 hv
        exact hp t rfl r.1 r.2 (Table.mem_rows.1 hr)
      · cases hs; rfl

include hscan

theorem Grants.processSlot (slot : Nat) (active : List Nat) {duties : EpochDuties} (hd : duties.Within own)
    {resolved : ResolvedChain} (hk : resolved.Keyed) : C.Always (processSlot spec slot tracked active duties resolved) fun _ => True := by
  have cover : C.Always (BeaconIndexer.statement (.recordCoverage tracked slot)) fun _ => True :=
    h.statement (hG _ .recordCoverage rfl)
  have collect : ∀ (block : Option (Root × SignedBeaconBlock)) {rest : Task Unit}, C.Always rest (fun _ => True) →
      C.Always (do
        BeaconIndexer.collectProposal spec slot block (duties.proposerBySlot.get slot)
        BeaconIndexer.collectSync spec slot block duties.syncPositions
        rest) fun _ => True := by
    intro block rest hrest
    exact .bind (h.collectProposal spec hG slot _ fun v hv => hd.1 slot v hv) fun _ _ =>
      .bind (h.collectSync spec hG slot _ hd.2) fun _ _ => hrest
  unfold BeaconIndexer.processSlot
  cases he : resolved.entries.get slot with
  | none => exact collect none (.check fun _ => cover)
  | some b =>
    refine .bind (h.statement (hG _ .recordBlock rfl)) fun _ _ => collect (some b) ?_
    exact .ite (fun _ => .bind (hscan _ _ _ _ _ hk he) fun _ _ => .check fun _ => cover) fun _ => .check fun _ => cover

include hown hseed

theorem Grants.processHeadScan (cursor : Cursor) {resolved : ResolvedChain} (hk : resolved.Keyed) (floor target : Nat) :
    C.Always (processHeadScan spec tracked cursor resolved floor target) fun _ => True := by
  let Known : EpochInputs × Option Error → Prop :=
    fun acc => ∀ e d active, acc.1.get e = some (some d, active) → d.Within own
  have load : ∀ acc slot, Known acc → C.Always (loadEpoch spec tracked acc slot) Known := by
    intro acc slot hacc
    have hput : ∀ {duties : Option EpochDuties} {active : List Nat} {error : Option Error},
        (∀ d, duties = some d → d.Within own) → Known (acc.1.put (spec.slotToEpoch slot) (duties, active), error) := by
      intro duties active error hd e d act he
      rw [Table.get_put] at he
      split at he
      · cases he
        exact hd _ rfl
      · exact hacc e d act he
    refine .ite (fun _ => .pure hacc) fun _ => .bind (h.fetchEpochDuties spec hown hG hseed slot).attempt fun duties hduties =>
      .bind (h.read spec hG rfl) fun active _ => ?_
    cases duties with
    | ok duties =>
      have hknown : ∀ {active : List Nat}, Known (acc.1.put (spec.slotToEpoch slot) (some duties, active), acc.2) :=
        hput fun d hd => hduties d (by rw [Option.some.inj hd])
      exact .ite (fun _ => .bind (h.read spec hG rfl) fun _ _ => .pure hknown) fun _ => .pure hknown
    | error error =>
      have hknown : ∀ {active : List Nat}, Known (acc.1.put (spec.slotToEpoch slot) (none, active),
          some (Error.note acc.2 error)) := hput fun d hd => by cases hd
      exact .ite (fun _ => .bind (h.read spec hG rfl) fun _ _ => .pure hknown) fun _ => .pure hknown
  have collect : ∀ inputs err acc slot, Known (inputs, err) →
      C.Always (collectSlot spec tracked inputs resolved acc slot) fun _ => True := by
    intro inputs err acc slot hin
    unfold collectSlot
    split
    · rename_i duties active he
      refine .bind (h.processSlot spec hG hscan slot active (hin _ _ _ he) hk).attempt fun r _ => ?_
      cases r with
      | ok a => exact .pure trivial
      | error e => exact .pure trivial
    · exact .pure trivial
  refine .bind (h.read spec hG rfl) fun missing _ => .bind (.foldlM (I := Known) ?_ fun acc slot _ hacc =>
    load acc slot hacc) fun inputs hin => .foldlM (I := fun _ => True) trivial fun acc slot _ _ =>
    collect _ inputs.2 acc slot hin
  intro e d active he
  simp at he

omit hown hG hseed hscan

theorem Grants.canonicalRoot (slot : Nat) (root : Root) : C.Always (canonicalRoot slot root) fun _ => True :=
  .bind (h.getHeader _) fun _ _ => .pure trivial

theorem Grants.fetchLiveAttestationRewards (e : Nat) (vs : List Nat) :
    C.Always (fetchLiveAttestationRewards e vs) fun _ => True := by
  unfold BeaconIndexer.fetchLiveAttestationRewards
  exact .check fun _ => .bind (h.getAttestationRewardsResponse _ _) fun _ _ => .bind (always_ofExcept _) fun _ _ =>
    .pure trivial

theorem Grants.fetchLiveProposalRewards (root : Root) (block : SignedBeaconBlock) :
    C.Always (fetchLiveProposalRewards root block) fun _ => True :=
  .bind (h.getBlockRewardsByRoot _) fun _ _ => .check fun _ => .pure trivial

theorem Grants.fetchLiveSyncRewards (root : Root) (vs : List Nat) :
    C.Always (fetchLiveSyncRewards root vs) fun _ => True := by
  unfold BeaconIndexer.fetchLiveSyncRewards
  exact .check fun _ => .bind (h.getSyncCommitteeRewardsByRoot _ _) fun _ _ => .bind (always_ofExcept _) fun _ _ =>
    .pure trivial

theorem Grants.blockJobDependency (job : LiveJob) : C.Always (blockJobDependency job) fun _ => True := by
  unfold BeaconIndexer.blockJobDependency
  split
  · split
    · refine .bind (h.canonicalRoot _ _) fun _ _ => .check fun _ => .bind (h.request _) fun block _ => ?_
      cases block with
      | none => exact .throw
      | some block => exact .pure trivial
    · exact .throw
  · exact .throw

theorem Grants.prefetchDuties (epoch : Nat) (vs : List Nat) : C.Always (prefetchDuties spec epoch vs) fun _ => True := by
  have all : C.Always (do
      let _ ← getAttesterDuties epoch vs
      let _ ← getCommittees epoch
      let _ ← BeaconIndexer.getProposerDuties spec epoch
      let _ ← BeaconIndexer.getSyncDuties epoch vs) fun _ => True :=
    .bind (h.request _) fun _ _ => .bind (h.request _) fun _ _ => .bind (h.getProposerDuties spec _) fun _ _ =>
      .bind (h.request _) fun _ _ => .pure trivial
  exact .bind all.attempt fun _ _ => .pure trivial

include hG

theorem Grants.persistLiveProposalRewards (slot : Nat) (rewards : BlockRewards) :
    C.Always (persistLiveProposalRewards slot rewards) fun _ => True := by
  unfold BeaconIndexer.persistLiveProposalRewards
  exact .check fun _ => .bind (always_ofExcept _) fun _ _ => .bind (always_ofExcept _) fun _ _ =>
    .bind (always_ofExcept _) fun _ _ => .bind (always_ofExcept _) fun _ _ =>
    h.statement (hG _ (.upsertBlockProposal rfl) rfl)

theorem Grants.persistLiveAttestationRewards (e : Nat) (rewards : List ValidatorAttestationReward) :
    C.Always (persistLiveAttestationRewards e rewards) fun _ => True :=
  .ite (fun _ => .pure trivial) fun _ => h.statement (hG _ .updateAttestationRewardsBatch rfl)

theorem Grants.collectJob (job : LiveJob) (resolved : ResolvedChain) :
    C.Always (collectJob spec job resolved) fun _ => True := by
  unfold BeaconIndexer.collectJob
  split
  · unfold collectAttestationJob
    dsimp only
    split
    · exact .bind (h.canonicalRoot _ _) fun _ _ => .check fun _ => .bind (h.getStateRoot _) fun _ _ =>
        .bind (h.fetchLiveAttestationRewards _ _) fun _ _ => .bind (h.getStateRoot _) fun _ _ => .check fun _ =>
        .bind (h.canonicalRoot _ _) fun _ _ => .check fun _ => .bind (h.statement (hG _ .completeJob rfl)) fun _ _ =>
        h.persistLiveAttestationRewards spec hG _ _
    · exact .throw
  · exact .bind (h.blockJobDependency job) fun (slot, root, block) _ => .bind (h.fetchLiveProposalRewards _ _)
      fun _ _ => .check fun _ => .bind (h.canonicalRoot _ _) fun _ _ => .check fun _ =>
      .bind (h.statement (hG _ .completeJob rfl)) fun _ _ => h.persistLiveProposalRewards spec hG _ _
  · exact .bind (h.blockJobDependency job) fun (slot, root, block) _ => .bind (h.fetchLiveSyncRewards _ _) fun _ _ =>
      .check fun _ => .bind (h.canonicalRoot _ _) fun _ _ => .check fun _ =>
      .bind (h.statement (hG _ .completeJob rfl)) fun _ _ => h.statement (hG _ .persistLiveSyncRewards rfl)

theorem Grants.runJob (resolved : ResolvedChain) (job : LiveJob) : C.Always (runJob spec resolved job) fun _ => True := by
  refine .bind (h.collectJob spec hG job resolved).attempt fun r _ => ?_
  cases r with
  | ok a => exact .pure trivial
  | error e => exact h.statement (hG _ .failJob rfl)

include hown

theorem Grants.enqueueRewardEpoch (e : Nat) : C.Always (enqueueRewardEpoch tracked e) fun _ => True :=
  .bind (h.readActive spec hG) fun _ hactive => .bind (h.eligibleForLiveEpoch (hG _ (.read rfl) (DbOp.writesInclusions_of_reads rfl))) fun _ heligible =>
    h.statement (hG _ (.enqueueJobs (fun v hv => hown v (hactive v (heligible v hv))) fun s hs => by cases hs) rfl)

variable (hfin : ∀ checkpoint (resolved : ResolvedChain), resolved.Keyed →
  C.Always (BeaconIndexer.finalizeCollectedEvidence spec checkpoint resolved) fun _ => True)
include hfin

theorem Grants.settle (cfg : LiveConfig spec) (head : HeaderData) {resolved : ResolvedChain} (hk : resolved.Keyed) :
    C.Always (settle spec cfg tracked head resolved) fun _ => True := by
  have rest : ∀ minEpoch : Nat, C.Always (do
      BeaconIndexer.statement (.expireJobs minEpoch)
      let jobs ← BeaconIndexer.statement (.pendingJobs minEpoch 12)
      each (BeaconIndexer.runJob spec resolved) jobs
      let finality ← BeaconIndexer.getFinalityCheckpoints (.root head.stateRoot)
      if finality.executionOptimistic = some true then
        throw (.inconsistentBeaconData "Optimistic finality response")
      finalizeCollectedEvidence spec finality.data.finalized resolved
      let retainEpoch := min minEpoch (finality.data.finalized.epoch - 2)
      BeaconIndexer.statement (.pruneCompletedEvidence retainEpoch)
      BeaconIndexer.request (.pruneInputsBefore retainEpoch)
      BeaconIndexer.statement .reportProgress) fun _ => True :=
    fun minEpoch => .bind (h.statement (hG _ .expireJobs rfl)) fun _ _ => .bind (h.read spec hG rfl) fun jobs _ =>
      .bind (.each fun job _ => h.runJob spec hG resolved job) fun _ _ => .bind (h.getFinalityCheckpoints _) fun _ _ =>
      .check fun _ => .bind (hfin _ _ hk) fun _ _ => .bind (h.statement (hG _ .pruneCompletedEvidence rfl)) fun _ _ =>
      .bind (h.request _) fun _ _ => h.read spec hG rfl
  unfold BeaconIndexer.settle
  dsimp only
  split
  · exact .bind (.each fun e _ => h.enqueueRewardEpoch spec hown hG e) fun _ _ => rest _
  · exact rest _

include hseed hscan

/-- A pass is allowed if its writes of inclusions and its finality step are. -/
theorem Grants.reconcilePass_of (cfg : LiveConfig spec) : C.AlwaysMem (BeaconIndexer.reconcilePass spec cfg tracked) := by
  have back : ∀ s, C.AlwaysMem (rollback spec s) :=
    fun s => .bind (.lift (h.statement (hG _ .invalidateFrom rfl))) fun _ => .store
  have leave : ∀ floor, C.AlwaysMem (leaveOldRange spec floor) := by
    intro floor
    refine .bind .load fun cursor => .ite (fun _ => .bind (.lift (h.read spec hG rfl)) fun old => ?_) fun _ => .pure
    split
    · refine .bind (.lift (h.getHeader _).attempt) fun r => ?_
      cases r with
      | error e => exact .bind (back _) fun _ => .store
      | ok a => exact .store
    · exact .store
  refine .bind (.lift h.getHeadHeader) fun head => .bind (.lift (h.statement (hG _ .registerTrackingStart rfl))) fun _ =>
    .bind (leave _) fun _ => .bind (.lift (h.read spec hG rfl)) fun stored => .bind .load fun cursor =>
    .liftBind (h.resolveChain _ _ _) fun resolved hk => ?_
  split
  · exact .bind (back _) fun _ => .pure
  · refine .ite (fun _ => .bind .store fun _ => ?_) fun _ => ?_
    all_goals
      refine .bind .load fun cursor => .bind (.lift (h.prefetchDuties spec _ _)) fun _ =>
        .bind (.lift (h.processHeadScan spec hown hG hseed hscan _ hk _ _).attempt) fun scan => ?_
      dsimp only
      exact .bind .store fun _ => .bind (.lift (h.canonicalRoot _ _)) fun _ => .ite (fun _ => .bind (back _) fun _ => .pure)
        fun _ => .bind (.lift (h.settle spec hown hG hfin cfg head hk)) fun _ => .pure

omit hG hseed hscan hfin in
/-- Whatever the node answers, a pass issues only the statements of `LiveIssue` and of its
finality step. -/
theorem Grants.reconcilePass (hG : ∀ op, LiveIssue spec tracked own op → G op)
    (hfin : ∀ checkpoint resolved, C.Always (BeaconIndexer.finalizeCollectedEvidence spec checkpoint resolved) fun _ => True)
    (cfg : LiveConfig spec) : C.AlwaysMem (BeaconIndexer.reconcilePass spec cfg tracked) :=
  h.reconcilePass_of spec hown (fun op hop _ => hG op hop)
    (fun _ _ => h.seedLiveAttestationDuties _ _ fun _ _ _ hw => hG _ (.upsertAttestationDuty hw))
    (fun _ _ _ _ _ _ _ => h.scanLiveAttestationsInSlot spec _ _ _ (fun _ _ _ hw => hG _ (.upsertAttestationDuty hw))
      fun hf => by cases hf)
    (fun _ _ _ => hfin _ _) cfg

omit hown hG hseed hscan hfin

omit h in
/-- Repairing details does what the scans of its slots do. -/
theorem always_repairDetails {vs : List Nat} {resolved : ResolvedChain}
    (hrepair : ∀ slot root block, resolved.entries.get slot = some (root, block) →
      C.Always (BeaconIndexer.scanLiveAttestationsInSlot spec vs block resolved.roots true) fun _ => True)
    (slots : List Nat) : C.Always (BeaconIndexer.repairDetails spec vs resolved slots) fun _ => True := by
  refine .each fun slot _ => ?_
  cases hb : resolved.blocks.get slot with
  | none => exact .pure trivial
  | some block =>
    unfold ResolvedChain.blocks at hb
    rw [Table.get_mapVal] at hb
    obtain ⟨⟨root, _⟩, he, rfl⟩ := Option.map_eq_some_iff.1 hb
    exact .bind (hrepair slot root _ he).attempt fun _ _ => .pure trivial

/-- Repairing details issues provisional writes and detail repairs only. -/
theorem Grants.repairDetails (vs : List Nat) (resolved : ResolvedChain) (slots : List Nat)
    (hup : ∀ v e (w : AttestationWrite), w.finalized = false → G (.upsertAttestationDuty v e w))
    (hrep : ∀ v e d, G (.repairFinalizedInclusion v e d)) :
    C.Always (BeaconIndexer.repairDetails spec vs resolved slots) fun _ => True :=
  always_repairDetails spec (fun _ _ _ _ => h.scanLiveAttestationsInSlot spec vs _ _ hup fun _ => hrep) slots

/-- The finality step repairs details and promotes; everything else it does is reading. -/
theorem Grants.finalizeCollectedEvidence_of (hread : ∀ op : DbOp, op.reads = true → G op)
    (hprom : ∀ p, G (.promoteCollected p)) (checkpoint : Checkpoint) {resolved : ResolvedChain}
    (hrepair : ∀ vs slot root block, resolved.entries.get slot = some (root, block) →
      C.Always (BeaconIndexer.scanLiveAttestationsInSlot spec vs block resolved.roots true) fun _ => True) :
    C.Always (BeaconIndexer.finalizeCollectedEvidence spec checkpoint resolved) fun _ => True := by
  unfold BeaconIndexer.finalizeCollectedEvidence
  split
  · refine .bind (h.getHeader _) fun header _ => .check fun _ => .bind (h.statement (hread _ rfl)) fun blocks _ => ?_
    dsimp only
    split
    · exact .bind (h.statement (hread _ rfl)) fun indices _ => .bind (h.statement (hread _ rfl)) fun slots _ =>
        .bind (always_repairDetails spec (hrepair indices) slots) fun _ _ =>
        .bind (h.statement (hprom _)) fun _ _ => .pure trivial
    · exact .pure trivial
  · exact .pure trivial

theorem Grants.finalizeCollectedEvidence (hread : ∀ op : DbOp, op.reads = true → G op)
    (hup : ∀ v e (w : AttestationWrite), w.finalized = false → G (.upsertAttestationDuty v e w))
    (hrep : ∀ v e d, G (.repairFinalizedInclusion v e d)) (hprom : ∀ p, G (.promoteCollected p))
    (checkpoint : Checkpoint) (resolved : ResolvedChain) :
    C.Always (BeaconIndexer.finalizeCollectedEvidence spec checkpoint resolved) fun _ => True :=
  h.finalizeCollectedEvidence_of spec hread hprom checkpoint fun vs _ _ _ _ =>
    h.scanLiveAttestationsInSlot spec vs _ _ hup fun _ => hrep

end Live

/-! ## Passes with their own collection -/

/-- The statement only keeps a pass's books: it reads, registers, queues, fails or expires jobs, prunes, or rolls back. -/
def DbOp.bookkeeps : DbOp → Bool
  | .registerTrackingStart .. | .invalidateFrom _ | .enqueueJobs .. | .failJob .. | .expireJobs _
  | .pruneCompletedEvidence _ => true
  | op => op.reads

theorem DbOp.bookkeeps_of_reads {op : DbOp} (h : op.reads = true) : op.bookkeeps = true := by
  cases op <;> first | rfl | cases h

section Walk

variable {σ : Type} {C : Contract indexer σ} {G : DbOp → Prop} {own : Nat → Prop} (h : Grants C G own) (spec : ChainSpec)
  (hG : ∀ op : DbOp, op.bookkeeps = true → G op) {tracked : List Nat} {Head : HeaderData → Prop} {Good : ResolvedChain → Prop}
  (hjob : ∀ job resolved, Good resolved → C.Always (BeaconIndexer.collectJob spec job resolved) fun _ => True)
  (hfin : ∀ checkpoint resolved, Good resolved → C.Always (BeaconIndexer.finalizeCollectedEvidence spec checkpoint resolved) fun _ => True)
include h hG hjob hfin

/-- Settling is allowed if its reward jobs and its finality step are. -/
theorem Grants.settle_by (cfg : LiveConfig spec) (head : HeaderData) {resolved : ResolvedChain} (hr : Good resolved) :
    C.Always (BeaconIndexer.settle spec cfg tracked head resolved) fun _ => True := by
  have job : ∀ j : LiveJob, C.Always (BeaconIndexer.runJob spec resolved j) fun _ => True := by
    intro j
    refine .bind (hjob j resolved hr).attempt fun r _ => ?_
    cases r with
    | ok a => exact .pure trivial
    | error e => exact h.statement (hG _ rfl)
  have rest : ∀ minEpoch : Nat, C.Always (do
      BeaconIndexer.statement (.expireJobs minEpoch)
      let jobs ← BeaconIndexer.statement (.pendingJobs minEpoch 12)
      each (BeaconIndexer.runJob spec resolved) jobs
      let finality ← BeaconIndexer.getFinalityCheckpoints (.root head.stateRoot)
      if finality.executionOptimistic = some true then
        throw (.inconsistentBeaconData "Optimistic finality response")
      BeaconIndexer.finalizeCollectedEvidence spec finality.data.finalized resolved
      let retainEpoch := min minEpoch (finality.data.finalized.epoch - 2)
      BeaconIndexer.statement (.pruneCompletedEvidence retainEpoch)
      BeaconIndexer.request (.pruneInputsBefore retainEpoch)
      BeaconIndexer.statement .reportProgress) fun _ => True :=
    fun minEpoch => .bind (h.statement (hG _ rfl)) fun _ _ => .bind (h.statement (hG _ rfl)) fun jobs _ =>
      .bind (.each fun j _ => job j) fun _ _ => .bind (h.getFinalityCheckpoints _) fun _ _ => .check fun _ =>
      .bind (hfin _ _ hr) fun _ _ => .bind (h.statement (hG _ rfl)) fun _ _ => .bind (h.request _) fun _ _ =>
      h.statement (hG _ rfl)
  have enqueue : ∀ e, C.Always (BeaconIndexer.enqueueRewardEpoch tracked e) fun _ => True :=
    fun e => .bind (h.statement (hG _ rfl)) fun _ _ => .bind (h.statement (hG _ rfl)) fun _ _ => h.statement (hG _ rfl)
  unfold BeaconIndexer.settle
  dsimp only
  split
  · exact .bind (.each fun e _ => enqueue e) fun _ _ => rest _
  · exact rest _

/-- A pass is allowed if its collection, its reward jobs and its finality step are. -/
theorem Grants.reconcilePass_by (cfg : LiveConfig spec) (hhead : C.Always BeaconIndexer.getHeadHeader Head)
    (hresolve : ∀ headSlot headRoot scanStart, C.Always (BeaconIndexer.resolveChain headSlot headRoot scanStart) Good)
    (hscan : ∀ head cursor resolved floor, Head head → Good resolved →
      C.Always (BeaconIndexer.processHeadScan spec tracked cursor resolved floor (head.slot - cfg.lagSlots)) fun _ => True) :
    C.AlwaysMem (BeaconIndexer.reconcilePass spec cfg tracked) := by
  have back : ∀ s, C.AlwaysMem (rollback spec s) :=
    fun s => .bind (.lift (h.statement (hG _ rfl))) fun _ => .store
  have leave : ∀ floor, C.AlwaysMem (leaveOldRange spec floor) := by
    intro floor
    refine .bind .load fun cursor => .ite (fun _ => .bind (.lift (h.statement (hG _ rfl))) fun old => ?_) fun _ => .pure
    split
    · refine .bind (.lift (h.getHeader _).attempt) fun r => ?_
      cases r with
      | error e => exact .bind (back _) fun _ => .store
      | ok a => exact .store
    · exact .store
  refine .liftBind hhead fun head hh => .bind (.lift (h.statement (hG _ rfl))) fun _ => .bind (leave _) fun _ =>
    .bind (.lift (h.statement (hG _ rfl))) fun stored => .bind .load fun cursor =>
    .liftBind (hresolve _ _ _) fun resolved hr => ?_
  split
  · exact .bind (back _) fun _ => .pure
  · refine .ite (fun _ => .bind .store fun _ => ?_) fun _ => ?_
    all_goals
      refine .bind .load fun cursor => .bind (.lift (h.prefetchDuties spec _ _)) fun _ =>
        .bind (.lift (hscan head cursor resolved _ hh hr).attempt) fun scan => ?_
      dsimp only
      exact .bind .store fun _ => .bind (.lift (h.canonicalRoot _ _)) fun _ =>
        .ite (fun _ => .bind (back _) fun _ => .pure) fun _ =>
        .bind (.lift (h.settle_by spec hG hjob hfin cfg head hr)) fun _ => .pure

end Walk

end BeaconIndexer
