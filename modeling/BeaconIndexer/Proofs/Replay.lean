/-
Staged rewards and their replay: where the casts of the promotion succeed, the replay sets the reward
columns the direct join of the same response sets; they succeed exactly when the proposal rewards are in
range. The worker stages a response before its range is checked.
-/
import BeaconIndexer.Db.Replay
import BeaconIndexer.Db.Run
import BeaconIndexer.Proofs.Issued
import BeaconIndexer.Proofs.Reads

namespace BeaconIndexer

open Effects Relational

variable {α : Type}

/-! ## Casts -/

theorem inBigint_nat {n : Nat} : inBigint n ↔ n < 2 ^ 63 := by
  unfold inBigint
  omega

/-- The field of an object that holds a number in range. -/
theorem bigintField_decimal {fields : List (String × Json)} {key : String} {n : Int} (hf : fields.lookup key = some (.decimal n))
    (h : inBigint n) : bigintField (some (.object fields)) key = .ok (some n) := by
  simp only [bigintField, jsonField, hf, bigint_ok h]
  rfl

/-- A cast that succeeded was of a number in range. -/
theorem inBigint_of_field {fields : List (String × Json)} {key : String} {n : Int} {c : Option Int}
    (hf : fields.lookup key = some (.decimal n)) (h : bigintField (some (.object fields)) key = .ok c) :
    inBigint n ∧ c = some n := by
  simp only [bigintField, jsonField, hf] at h
  cases hb : bigint n with
  | error e => rw [hb] at h; cases h
  | ok m =>
    rw [hb] at h
    obtain ⟨hin, rfl⟩ := bigint_eq_ok.1 hb
    cases h
    exact ⟨hin, rfl⟩

theorem bigintField_optional {fields : List (String × Json)} {key : String} {n : Option Int}
    (hf : fields.lookup key = some (.decimalOpt n)) (h : ∀ m, n = some m → inBigint m) :
    bigintField (some (.object fields)) key = .ok n := by
  cases n with
  | none => simp only [bigintField, jsonField, hf, Json.decimalOpt, Option.elim_none]
  | some m => exact bigintField_decimal hf (h m rfl)

theorem addBigint_eq_ok {a b : Int} {c : Option Int} :
    addBigint (some a) (some b) = .ok c ↔ inBigint (a + b) ∧ c = some (a + b) := by
  have hunfold : addBigint (some a) (some b) = some <$> bigint (a + b) := rfl
  rw [hunfold]
  cases hb : bigint (a + b) with
  | error e =>
    constructor
    · intro h; cases h
    · rintro ⟨h, _⟩
      rw [bigint_ok h] at hb
      cases hb
  | ok n =>
    obtain ⟨hin, rfl⟩ := bigint_eq_ok.1 hb
    constructor
    · intro h
      cases h
      exact ⟨hin, rfl⟩
    · rintro ⟨-, rfl⟩
      rfl

theorem inBigint_nat_add {a b : Nat} : inBigint ((a : Int) + b) ↔ a + b < 2 ^ 63 := by
  unfold inBigint
  omega

/-! ## Statements over jobs -/

theorem evalJobs_ok {eval : Nat → Option Json → Except SqlError (Option α)} : ∀ {l : List (JobKey × JobRow)},
    (∀ j row, (j, row) ∈ l → ∃ value, eval j.validator (row.payload.map Payload.toValue) = .ok value) →
      ∃ values, evalJobs eval l = .ok values
  | [], _ => ⟨[], rfl⟩
  | (j, row) :: rest, h => by
    obtain ⟨value, hv⟩ := h j row (List.mem_cons_self ..)
    obtain ⟨values, hvs⟩ := evalJobs_ok fun j' row' hm => h j' row' (List.mem_cons_of_mem _ hm)
    exact ⟨_, by simp only [evalJobs, hv, hvs]; rfl⟩

/-- A statement that succeeded has evaluated every joined job. -/
theorem evalJobs_spec {eval : Nat → Option Json → Except SqlError (Option α)} : ∀ {l : List (JobKey × JobRow)} {values : List (JobKey × α)},
    evalJobs eval l = .ok values →
      (∀ j row, (j, row) ∈ l → ∃ value, eval j.validator (row.payload.map Payload.toValue) = .ok value) ∧
      ∀ j c, (j, c) ∈ values ↔ ∃ row, (j, row) ∈ l ∧ eval j.validator (row.payload.map Payload.toValue) = .ok (some c)
  | [], values, h => by
    cases h
    simp
  | (j, row) :: rest, values, h => by
    unfold evalJobs at h
    obtain ⟨value, hv, h⟩ := except_bind_eq_ok.1 h
    obtain ⟨later, hl, h⟩ := except_bind_eq_ok.1 h
    cases h
    obtain ⟨hall, hmem⟩ := evalJobs_spec hl
    constructor
    · intro j' row' hm
      rcases List.mem_cons.1 hm with hm | hm
      · cases hm
        exact ⟨value, hv⟩
      · exact hall j' row' hm
    · intro j' c
      rw [List.mem_append, hmem]
      constructor
      · rintro (hm | ⟨row', hm, he⟩)
        · rw [Option.mem_toList, Option.map_eq_some_iff] at hm
          obtain ⟨c', rfl, hj⟩ := hm
          cases hj
          exact ⟨row, List.mem_cons_self .., hv⟩
        · exact ⟨row', List.mem_cons_of_mem _ hm, he⟩
      · rintro ⟨row', hm, he⟩
        rcases List.mem_cons.1 hm with hm | hm
        · cases hm
          rw [hv] at he
          cases he
          exact .inl (by simp)
        · exact .inr ⟨row', hm, he⟩

/-- The elements of a response whose fields are all in range. -/
theorem evalElements_map {ρ : Type} {toValue : ρ → Json} {index : ρ → Nat} {columns : ρ → α} {eval : Json → Except SqlError α}
    {validator : Nat} : ∀ {rs : List ρ}, (∀ r ∈ rs, bigintField (some (toValue r)) "validator_index" = .ok (some (index r : Int))) →
    (∀ r ∈ rs, eval (toValue r) = .ok (columns r)) →
      evalElements eval validator (rs.map toValue) = .ok ((rs.find? (index · == validator)).map columns)
  | [], _, _ => rfl
  | r :: rest, hi, he => by
    have ih : evalElements eval validator (rest.map toValue) = .ok ((rest.find? (index · == validator)).map columns) :=
      evalElements_map (fun x hx => hi x (List.mem_cons_of_mem r hx)) fun x hx => he x (List.mem_cons_of_mem r hx)
    have hir := hi r (List.mem_cons_self ..)
    have her := he r (List.mem_cons_self ..)
    rw [List.map_cons]
    unfold evalElements
    rw [hir, ih]
    by_cases hv : index r = validator
    · simp [hv, her, bind, Except.bind, pure, Except.pure]
    · simp [hv, bind, Except.bind, pure, Except.pure]

/-! ## What the worker stages -/

/-- The fields are `i64`. -/
structure ValidatorAttestationReward.Wire (r : ValidatorAttestationReward) : Prop where
  head : inBigint r.head
  target : inBigint r.target
  source : inBigint r.source
  inactivity : ∀ n, r.inactivity = some n → inBigint n

/-- A response of the wire types that names each of the validators once; proposal rewards may be any numbers. -/
def Response (validators : List Nat) : Component → Payload → Prop
  | .attestationRewards, .attestation rs => (rs.map (·.validatorIndex)).Nodup ∧
      (∀ v, v ∈ rs.map (·.validatorIndex) ↔ v ∈ validators) ∧ ∀ r ∈ rs, r.Wire
  | .proposalRewards, .proposal _ => True
  | .syncRewards, .sync rs => (rs.map (·.validatorIndex)).Nodup ∧
      (∀ v, v ∈ rs.map (·.validatorIndex) ↔ v ∈ validators) ∧ ∀ r ∈ rs, inBigint r.reward
  | _, _ => False

/-- Attestation rewards belong to an epoch, block rewards to a slot of theirs. -/
def JobSlot (spec : ChainSpec) (epoch : Nat) (slot : Option Nat) : Component → Prop
  | .attestationRewards => slot = none
  | _ => ∃ s, slot = some s ∧ epoch = spec.slotToEpoch s

/-- Jobs are enqueued for their slot, and completed with a response for their validators, whose indices are BIGINT. -/
def StageIssue (spec : ChainSpec) : DbOp → Db → Prop
  | .enqueueJobs e slot c _ _, _ => JobSlot spec e slot c
  | .completeJob job payload _, _ => (∀ v ∈ job.validators, v < 2 ^ 63) ∧ Response job.validators job.component payload
  | _, _ => True

variable {spec : ChainSpec}

theorem validateRewardIndices_ok {expected actual : List Nat} (h : validateRewardIndices expected actual = .ok ()) :
    actual.Nodup ∧ ∀ v, v ∈ actual ↔ v ∈ expected := by
  have hperm := validateRewardIndices_ok_iff.1 h
  exact ⟨hperm.nodup_iff.2 (List.nodup_dedup _), fun v => by rw [hperm.mem_iff, List.mem_dedup]⟩

/-- The rewards a node answers with are of the wire types. -/
structure WireRewards (node : (q : Request) → Except Error q.Answer → Prop) : Prop where
  attestation : ∀ {e vs r}, node (.attestationRewards e vs) (.ok r) → ∀ x ∈ r.data, x.Wire
  sync : ∀ {root vs r}, node (.syncRewardsByRoot root vs) (.ok r) → ∀ x ∈ r.data, inBigint x.reward

section Stages

variable {σ : Type} {C : Contract indexer σ}

/-- The statements that stage responses are allowed, and the node answers with the wire types. -/
structure Stages (spec : ChainSpec) (C : Contract indexer σ) : Prop where
  grants : Grants C (fun op => ∀ db, StageIssue spec op db) fun _ => True
  attestation : ∀ {e vs s r s'}, C.sem (.node (.attestationRewards e vs)) s (.ok r) s' → ∀ x ∈ r.data, x.Wire
  sync : ∀ {root vs s r s'}, C.sem (.node (.syncRewardsByRoot root vs)) s (.ok r) s' → ∀ x ∈ r.data, inBigint x.reward

variable (h : Stages spec C)
include h

theorem Stages.fetchLiveAttestationRewards (e : Nat) (vs : List Nat) :
    C.Always (fetchLiveAttestationRewards e vs) fun r => Response vs .attestationRewards (.attestation r.data) := by
  have hresponse : C.Always (getAttestationRewardsResponse e vs) fun r => ∀ x ∈ r.data, x.Wire := by
    refine .bind (P := fun r => ∀ x ∈ r.data, x.Wire) ?_ fun r hr => .bind (always_ensureNotOptimistic r) fun _ _ => .pure hr
    refine .ask (fun s => h.grants.node _ s) fun s r s' hr a ha => ?_
    cases (ha : r = .ok a)
    exact h.attestation hr
  unfold BeaconIndexer.fetchLiveAttestationRewards
  refine .check fun _ => .bind hresponse fun r hr => .bind (always_ofExcept _) fun _ hv => .pure ?_
  obtain ⟨hnd, hmem⟩ := validateRewardIndices_ok hv
  exact ⟨hnd, hmem, hr⟩

theorem Stages.fetchLiveSyncRewards (root : Root) (vs : List Nat) :
    C.Always (fetchLiveSyncRewards root vs) fun r => Response vs .syncRewards (.sync r.data) := by
  have hresponse : C.Always (getSyncCommitteeRewardsByRoot root vs) fun r => ∀ x ∈ r.data, inBigint x.reward := by
    refine .bind (P := fun r => ∀ x ∈ r.data, inBigint x.reward) ?_ fun r hr =>
      .bind (always_ensureNotOptimistic r) fun _ _ => .pure hr
    refine .ask (fun s => h.grants.node _ s) fun s r s' hr a ha => ?_
    cases (ha : r = .ok a)
    exact h.sync hr
  unfold BeaconIndexer.fetchLiveSyncRewards
  refine .check fun _ => .bind hresponse fun r hr => .bind (always_ofExcept _) fun _ hv => .pure ?_
  obtain ⟨hnd, hmem⟩ := validateRewardIndices_ok hv
  exact ⟨hnd, hmem, hr⟩

theorem Stages.persistLiveProposalRewards (slot : Nat) (rewards : BlockRewards) :
    C.Always (persistLiveProposalRewards slot rewards) fun _ => True := by
  unfold BeaconIndexer.persistLiveProposalRewards
  exact .check fun _ => .bind (always_ofExcept _) fun _ _ => .bind (always_ofExcept _) fun _ _ =>
    .bind (always_ofExcept _) fun _ _ => .bind (always_ofExcept _) fun _ _ => h.grants.statement fun _ => trivial

/-- A job is completed only with a response for its validators. -/
theorem Stages.collectJob {job : LiveJob} (hv : ∀ v ∈ job.validators, v < 2 ^ 63) (resolved : ResolvedChain) :
    C.Always (collectJob spec job resolved) fun _ => True := by
  unfold BeaconIndexer.collectJob
  split
  · rename_i hc
    unfold collectAttestationJob
    dsimp only
    split
    · refine .bind (h.grants.canonicalRoot _ _) fun _ _ => .check fun _ => .bind (h.grants.getStateRoot _) fun _ _ =>
        .bind (h.fetchLiveAttestationRewards _ _) fun response hr => .bind (h.grants.getStateRoot _) fun _ _ =>
        .check fun _ => .bind (h.grants.canonicalRoot _ _) fun _ _ => .check fun _ =>
        .bind (h.grants.statement fun _ => ⟨hv, hc ▸ hr⟩) fun _ _ => ?_
      exact .ite (fun _ => .pure trivial) fun _ => h.grants.statement fun _ => trivial
    · exact .throw
  · rename_i hc
    refine .bind (h.grants.blockJobDependency job) fun (slot, root, block) _ =>
      .bind (h.grants.fetchLiveProposalRewards _ _) fun response _ => .check fun _ =>
      .bind (h.grants.canonicalRoot _ _) fun _ _ => .check fun _ => .bind (h.grants.statement fun _ => ⟨hv, ?_⟩) fun _ _ =>
      h.persistLiveProposalRewards _ _
    rw [hc]
    trivial
  · rename_i hc
    exact .bind (h.grants.blockJobDependency job) fun (slot, root, block) _ => .bind (h.fetchLiveSyncRewards _ _)
      fun response hr => .check fun _ => .bind (h.grants.canonicalRoot _ _) fun _ _ => .check fun _ =>
      .bind (h.grants.statement fun _ => ⟨hv, hc ▸ hr⟩) fun _ _ => h.grants.statement fun _ => trivial

/-- The attestation jobs of an epoch carry no slot. -/
theorem Stages.enqueueRewardEpoch (tracked : List Nat) (e : Nat) : C.Always (enqueueRewardEpoch tracked e) fun _ => True :=
  .bind (h.grants.statement fun _ => trivial) fun _ _ => .bind (h.grants.statement fun _ => trivial) fun _ _ =>
    h.grants.statement fun _ => rfl

theorem Stages.collectProposal (slot : Nat) (entry : Option (Root × SignedBeaconBlock)) (proposer : Option Nat) :
    C.Always (collectProposal spec slot entry proposer) fun _ => True := by
  cases proposer with
  | none => exact .pure trivial
  | some v =>
    refine .bind (h.grants.statement fun _ => trivial) fun _ _ => ?_
    cases entry with
    | none => exact .pure trivial
    | some b => exact h.grants.statement fun _ => ⟨slot, rfl, rfl⟩

theorem Stages.collectSync (slot : Nat) (entry : Option (Root × SignedBeaconBlock)) (positions : Option SyncPositions) :
    C.Always (collectSync spec slot entry positions) fun _ => True := by
  have hsync : ∀ block t, C.Always (upsertLiveSyncInSlot spec slot block t) fun _ => True := by
    intro block t
    refine .ite (fun _ => .pure trivial) fun _ => ?_
    cases block with
    | none => exact .each fun r _ => h.grants.statement fun _ => trivial
    | some block =>
      dsimp only
      split
      · refine .bind (always_ofExcept _) fun bits _ => .each fun r _ => ?_
        unfold upsertLiveSyncMember
        split
        · exact .throw
        · exact h.grants.statement fun _ => trivial
      · exact .pure trivial
  cases positions with
  | none => exact .pure trivial
  | some t =>
    refine .bind (hsync _ t) fun _ _ => ?_
    cases entry with
    | none => exact .pure trivial
    | some b => exact .ite (fun _ => h.grants.statement fun _ => ⟨slot, rfl, rfl⟩) fun _ => .pure trivial

end Stages

/-- A program that promises to stage responses only, among others that do. -/
def stageContract (spec : ChainSpec) (node : (q : Request) → Except Error q.Answer → Prop) : Contract indexer Db where
  sem := indexerSem spec node
  rely := Run spec (StageIssue spec)
  guar e _ := match e with
    | .node _ => True
    | .db op => ∀ db, StageIssue spec op db
  refl := .refl
  trans := Run.trans

/-- The programs that queue reward jobs and collect them keep the promise. -/
structure StagesOnly (spec : ChainSpec) (node : (q : Request) → Except Error q.Answer → Prop) : Prop where
  collectJob : ∀ {job : LiveJob}, (∀ v ∈ job.validators, v < 2 ^ 63) → ∀ resolved,
    (stageContract spec node).Always (collectJob spec job resolved) fun _ => True
  enqueueRewardEpoch : ∀ tracked e, (stageContract spec node).Always (enqueueRewardEpoch tracked e) fun _ => True
  collectProposal : ∀ slot entry proposer,
    (stageContract spec node).Always (collectProposal spec slot entry proposer) fun _ => True
  collectSync : ∀ slot entry positions,
    (stageContract spec node).Always (collectSync spec slot entry positions) fun _ => True

/-- They do on every node that answers with the wire types. -/
theorem stagesOnly {node : (q : Request) → Except Error q.Answer → Prop} (hnode : WireRewards node) : StagesOnly spec node := by
  have hgrants : Grants (stageContract spec node) (fun op => ∀ db, StageIssue spec op db) fun _ => True := {
    node := fun _ _ => trivial
    db := fun _ _ h => h
    active := fun {_ _ _ _ _} h => @indexerSem_active spec node _ _ _ _ _ h
    eligible := fun {_ _ _ _ _} h => @indexerSem_eligible spec node _ _ _ _ _ h
    sync := fun _ _ _ _ => trivial }
  have hstages : Stages spec (stageContract spec node) := {
    grants := hgrants
    attestation := fun h => hnode.attestation h.1
    sync := fun h => hnode.sync h.1 }
  exact {
    collectJob := fun hv resolved => hstages.collectJob hv resolved
    enqueueRewardEpoch := hstages.enqueueRewardEpoch
    collectProposal := hstages.collectProposal
    collectSync := hstages.collectSync }

/-- A program that keeps the promise goes on with a run of issued statements, however it ends. -/
theorem Run.collect {node : (q : Request) → Except Error q.Answer → Prop} {x : Task α}
    (hx : (stageContract spec node).Always x fun _ => True) {db₀ db db' : Db} {r : Except Error α}
    (h : Run spec (StageIssue spec) db₀ db) (hexec : Exec (indexerSem spec node) x.run db r db') :
    Run spec (StageIssue spec) db₀ db' := by
  have hsafe := Contract.Safe.frame (C := stageContract spec node) (I := Run spec (StageIssue spec) db₀)
    (fun _ _ hr hi => hi.trans hr) (fun e s r s' hg hs hi => ?_) (hx db) h
  · exact (Contract.Safe.exec hexec hsafe).2
  · cases e with
    | node q => exact hs.2 ▸ hi
    | db op =>
      rcases hs with ⟨now, -, rfl⟩ | ⟨_, -, rfl⟩
      · exact hi.tail now op (hg s)
      · exact hi

/-! ## Jobs of a run -/

/-- Every job has its slot and every payload is a response for its validator. -/
def StagedJobs (spec : ChainSpec) (db : Db) : Prop :=
  ∀ j row, db.liveJobs.get j = some row → JobSlot spec j.epoch j.slot j.component ∧
    ∀ payload, row.payload = some payload → ∃ validators, j.validator ∈ validators ∧ (∀ v ∈ validators, v < 2 ^ 63) ∧
      Response validators j.component payload

theorem Run.stagedJobs {db : Db} (h : Run spec (StageIssue spec) .empty db) : StagedJobs spec db := by
  refine h.induct (fun j row hj => by cases hj) fun now op d ih hop j row hj => ?_
  rcases DbOp.exec_jobs_cases hj with ⟨row', hr, hp⟩ | ⟨vs, root, rfl, hp⟩ | ⟨job, payload, dep, row', rfl, hr, hof, hp⟩
  · rw [hp]
    exact ih j row' hr
  · rw [hp]
    exact ⟨hop, fun _ h => by cases h⟩
  · refine ⟨(ih j row' hr).1, fun payload' hp' => ?_⟩
    rw [hp] at hp'
    cases hp'
    simp only [Db.ofJob, Bool.and_eq_true, beq_iff_eq, List.contains_iff_mem] at hof
    exact ⟨job.validators, hof.2, hop.1, hof.1.2 ▸ hop.2⟩

/-! ## Replaying one response -/

/-- The proposer index casts, and if it is the validator's own so do the rewards and their sum. -/
def BlockRewards.Replayable (validator : Nat) (r : BlockRewards) : Prop :=
  r.proposerIndex < 2 ^ 63 ∧ (r.proposerIndex = validator → r.total < 2 ^ 63 ∧ r.attestations < 2 ^ 63 ∧
    r.syncAggregate < 2 ^ 63 ∧ r.proposerSlashings + r.attesterSlashings < 2 ^ 63)

theorem attestationColumns_wire {r : ValidatorAttestationReward} (h : r.Wire) :
    attestationColumns r.toValue = .ok ⟨some r.source, some r.target, some r.head, r.inactivity⟩ := by
  unfold attestationColumns ValidatorAttestationReward.toValue
  rw [bigintField_decimal rfl h.source, bigintField_decimal rfl h.target, bigintField_decimal rfl h.head,
    bigintField_optional rfl h.inactivity]
  rfl

theorem replayAttestation_response {validators : List Nat} {rs : List ValidatorAttestationReward}
    (hv : ∀ v ∈ validators, v < 2 ^ 63) (h : Response validators .attestationRewards (.attestation rs)) (v : Nat) :
    replayAttestation v (some (Payload.attestation rs).toValue) =
      .ok ((rs.find? (·.validatorIndex == v)).map fun r => ⟨some r.source, some r.target, some r.head, r.inactivity⟩) := by
  have hindex : ∀ r ∈ rs, bigintField (some r.toValue) "validator_index" = .ok (some (r.validatorIndex : Int)) := by
    intro r hr
    have hlt := hv _ ((h.2.1 _).1 (List.mem_map.2 ⟨r, hr, rfl⟩))
    exact bigintField_decimal rfl (inBigint_nat.2 hlt)
  exact evalElements_map hindex fun r hr => attestationColumns_wire (h.2.2 r hr)

theorem replaySync_response {validators : List Nat} {rs : List SyncCommitteeReward}
    (hv : ∀ v ∈ validators, v < 2 ^ 63) (h : Response validators .syncRewards (.sync rs)) (v : Nat) :
    replaySync v (some (Payload.sync rs).toValue) = .ok ((rs.find? (·.validatorIndex == v)).map (some ·.reward)) := by
  have hindex : ∀ r ∈ rs, bigintField (some r.toValue) "validator_index" = .ok (some (r.validatorIndex : Int)) := by
    intro r hr
    have hlt := hv _ ((h.2.1 _).1 (List.mem_map.2 ⟨r, hr, rfl⟩))
    exact bigintField_decimal rfl (inBigint_nat.2 hlt)
  exact evalElements_map hindex fun r hr => bigintField_decimal rfl (h.2.2 r hr)

theorem proposalColumns_iff {r : BlockRewards} {c : ProposalColumns} : proposalColumns (some r.toValue) = .ok c ↔
    (r.total < 2 ^ 63 ∧ r.attestations < 2 ^ 63 ∧ r.syncAggregate < 2 ^ 63 ∧
      r.proposerSlashings + r.attesterSlashings < 2 ^ 63) ∧
    c = ⟨some r.total, some r.attestations, some r.syncAggregate, some (r.proposerSlashings + r.attesterSlashings)⟩ := by
  constructor
  · intro h
    unfold proposalColumns BlockRewards.toValue at h
    obtain ⟨total, h1, h⟩ := except_bind_eq_ok.1 h
    obtain ⟨attestations, h2, h⟩ := except_bind_eq_ok.1 h
    obtain ⟨sync, h3, h⟩ := except_bind_eq_ok.1 h
    obtain ⟨proposer, h4, h⟩ := except_bind_eq_ok.1 h
    obtain ⟨attester, h5, h⟩ := except_bind_eq_ok.1 h
    obtain ⟨slashings, h6, h⟩ := except_bind_eq_ok.1 h
    cases h
    obtain ⟨ht, rfl⟩ := inBigint_of_field rfl h1
    obtain ⟨ha, rfl⟩ := inBigint_of_field rfl h2
    obtain ⟨hs, rfl⟩ := inBigint_of_field rfl h3
    obtain ⟨-, rfl⟩ := inBigint_of_field rfl h4
    obtain ⟨-, rfl⟩ := inBigint_of_field rfl h5
    obtain ⟨hin, rfl⟩ := addBigint_eq_ok.1 h6
    exact ⟨⟨inBigint_nat.1 ht, inBigint_nat.1 ha, inBigint_nat.1 hs, inBigint_nat_add.1 hin⟩, rfl⟩
  · rintro ⟨⟨ht, ha, hs, hsum⟩, rfl⟩
    have h1 : bigintField (some r.toValue) "total" = .ok (some (r.total : Int)) :=
      bigintField_decimal rfl (inBigint_nat.2 ht)
    have h2 : bigintField (some r.toValue) "attestations" = .ok (some (r.attestations : Int)) :=
      bigintField_decimal rfl (inBigint_nat.2 ha)
    have h3 : bigintField (some r.toValue) "sync_aggregate" = .ok (some (r.syncAggregate : Int)) :=
      bigintField_decimal rfl (inBigint_nat.2 hs)
    have h4 : bigintField (some r.toValue) "proposer_slashings" = .ok (some (r.proposerSlashings : Int)) :=
      bigintField_decimal rfl (inBigint_nat.2 (by omega))
    have h5 : bigintField (some r.toValue) "attester_slashings" = .ok (some (r.attesterSlashings : Int)) :=
      bigintField_decimal rfl (inBigint_nat.2 (by omega))
    have h6 := addBigint_eq_ok.2 ⟨inBigint_nat_add.2 hsum, rfl⟩
    exact except_bind_eq_ok.2 ⟨_, h1, except_bind_eq_ok.2 ⟨_, h2, except_bind_eq_ok.2 ⟨_, h3, except_bind_eq_ok.2 ⟨_, h4,
      except_bind_eq_ok.2 ⟨_, h5, except_bind_eq_ok.2 ⟨_, h6, rfl⟩⟩⟩⟩⟩⟩

theorem replayProposal_iff {r : BlockRewards} {v : Nat} {c : Option ProposalColumns} :
    replayProposal v (some (Payload.proposal r).toValue) = .ok c ↔ r.Replayable v ∧
      c = if r.proposerIndex = v then
        some ⟨some r.total, some r.attestations, some r.syncAggregate, some (r.proposerSlashings + r.attesterSlashings)⟩
      else none := by
  unfold replayProposal BlockRewards.Replayable
  constructor
  · intro h
    obtain ⟨proposer, hp, h⟩ := except_bind_eq_ok.1 h
    obtain ⟨hin, rfl⟩ := inBigint_of_field rfl hp
    by_cases hv : r.proposerIndex = v
    · rw [if_pos (by rw [hv])] at h
      cases hc : proposalColumns (some (Payload.proposal r).toValue) with
      | error e => rw [hc] at h; cases h
      | ok columns =>
        rw [hc] at h
        cases h
        obtain ⟨hrange, rfl⟩ := proposalColumns_iff.1 hc
        exact ⟨⟨inBigint_nat.1 hin, fun _ => hrange⟩, by rw [if_pos hv]⟩
    · rw [if_neg (by simpa using hv)] at h
      cases h
      exact ⟨⟨inBigint_nat.1 hin, fun h => absurd h hv⟩, by rw [if_neg hv]⟩
  · rintro ⟨⟨hin, hrange⟩, rfl⟩
    have hp : bigintField (some (Payload.proposal r).toValue) "proposer_index" = .ok (some (r.proposerIndex : Int)) :=
      bigintField_decimal rfl (inBigint_nat.2 hin)
    rw [hp]
    by_cases hv : r.proposerIndex = v
    · have hc := proposalColumns_iff.2 ⟨hrange hv, rfl⟩
      simp only [bind, Except.bind, hv, if_true]
      have hc' : proposalColumns (some (Payload.proposal r).toValue) = _ := hc
      rw [hc']
      rfl
    · have hne : ¬some (r.proposerIndex : Int) = some (v : Int) := by simpa using hv
      simp only [bind, Except.bind, hne, hv, if_false]
      rfl

/-! ## The direct join -/

/-- The database before any outcome was frozen; the direct join skips frozen rows, the replay does not. -/
def Db.thawed (db : Db) : Db :=
  { db with
    attestationDuties := db.attestationDuties.mapVal fun a => { a with finalized := false }
    blockProposals := db.blockProposals.mapVal fun d => { d with finalized := false }
    syncDuties := db.syncDuties.mapVal fun d => { d with finalized := false } }

/-- The row with the reward columns of another one. -/
def AttestationRow.takeRewards (a b : AttestationRow) : AttestationRow :=
  { a with
    sourceReward := b.sourceReward
    targetReward := b.targetReward
    headReward := b.headReward
    inactivityPenalty := b.inactivityPenalty
    sourceCorrect := b.sourceCorrect
    targetCorrect := b.targetCorrect
    headCorrect := b.headCorrect }

def ProposalRow.takeRewards (d b : ProposalRow) : ProposalRow :=
  { d with
    rewardTotal := b.rewardTotal
    rewardAttestations := b.rewardAttestations
    rewardSync := b.rewardSync
    rewardSlashings := b.rewardSlashings }

def SyncRow.takeRewards (d b : SyncRow) : SyncRow := { d with reward := b.reward }

/-- A direct join makes no requests. -/
abbrev joinSem (spec : ChainSpec) : Sem indexer Db := indexerSem spec fun _ _ => False

theorem join_attestation {rs : List ValidatorAttestationReward} {db : Db} {v e : Nat} {a : AttestationRow}
    {r : ValidatorAttestationReward} (ha : db.attestationDuties.get (v, e) = some a)
    (hr : rs.find? (·.validatorIndex == v) = some r) :
    ∃ db₁ a₁, Exec (joinSem spec) (persistLiveAttestationRewards e rs).run db.thawed (.ok ()) db₁ ∧
      db₁.attestationDuties.get (v, e) = some a₁ ∧
      a.withRewards (some r.source) (some r.target) (some r.head) r.inactivity = a.takeRewards a₁ := by
  have hne : ¬rs.isEmpty = true := by
    intro hempty
    rw [List.isEmpty_iff.1 hempty] at hr
    cases hr
  unfold persistLiveAttestationRewards
  rw [if_neg hne]
  refine ⟨_, AttestationRow.withRewards { a with finalized := false } (some r.source) (some r.target) (some r.head)
    r.inactivity, .step (.inl ⟨0, rfl, rfl⟩) (.done _ _), ?_, rfl⟩
  change (db.thawed.updateAttestationRewardsBatch _).attestationDuties.get (v, e) = _
  simp [Db.updateAttestationRewardsBatch, Db.thawed, ha, hr]

theorem join_sync {rs : List SyncCommitteeReward} {db : Db} {v s : Nat} {d : SyncRow} {r : SyncCommitteeReward}
    (hd : db.syncDuties.get (v, s) = some d) (hr : rs.find? (·.validatorIndex == v) = some r) :
    ∃ db₁ d₁, Exec (joinSem spec) (statement (.persistLiveSyncRewards s rs)).run db.thawed (.ok ()) db₁ ∧
      db₁.syncDuties.get (v, s) = some d₁ ∧ ({ d with reward := some r.reward } : SyncRow) = d.takeRewards d₁ := by
  refine ⟨_, { d with finalized := false, reward := some r.reward }, .step (.inl ⟨0, rfl, rfl⟩) (.done _ _), ?_, rfl⟩
  change (db.thawed.persistLiveSyncRewards s rs).syncDuties.get (v, s) = _
  simp [Db.persistLiveSyncRewards, Db.thawed, hd, hr]

theorem join_proposal {r : BlockRewards} {db : Db} {s : Nat} {d : ProposalRow} (hd : db.blockProposals.get s = some d)
    (hr : r.total < 2 ^ 63 ∧ r.attestations < 2 ^ 63 ∧ r.syncAggregate < 2 ^ 63 ∧
      r.proposerSlashings + r.attesterSlashings < 2 ^ 63) :
    ∃ db₁ d₁, Exec (joinSem spec) (persistLiveProposalRewards s r).run db.thawed (.ok ()) db₁ ∧
      db₁.blockProposals.get s = some d₁ ∧
      ({ d with
          rewardTotal := some r.total
          rewardAttestations := some r.attestations
          rewardSync := some r.syncAggregate
          rewardSlashings := some (r.proposerSlashings + r.attesterSlashings) } : ProposalRow) = d.takeRewards d₁ := by
  obtain ⟨ht, ha, hs, hsum⟩ := hr
  have hsigned : ∀ {n : Nat}, n < 2 ^ 63 → ofExcept (signedReward n) = (pure (n : Int) : Task Int) := by
    intro n hn
    unfold signedReward
    rw [if_pos hn]
    rfl
  unfold persistLiveProposalRewards
  dsimp only
  rw [if_neg (by omega), hsigned ht, hsigned ha, hsigned hs, hsigned hsum]
  refine ⟨_, ⟨r.proposerIndex, true, some r.total, some r.attestations, some r.syncAggregate,
    some (r.proposerSlashings + r.attesterSlashings), false⟩, .step (.inl ⟨0, rfl, rfl⟩) (.done _ _), ?_, rfl⟩
  change (db.thawed.upsertBlockProposal spec s _).blockProposals.get s = _
  simp [Db.upsertBlockProposal, Db.thawed, Table.get_upsert, Table.upserted, hd, ProposalWrite.merge]

/-! ## The replay of a promotion -/

/-- Every joined response sets on its row what its direct join sets there before the row is frozen; other rows and
tables stay. -/
structure ReplayedLikeJoin (spec : ChainSpec) (p : Promotion) (db db' : Db) : Prop where
  attestation : ∀ {j row rs a}, db.liveJobs.get j = some row → db.joinsAttestation p j row = true →
    row.payload = some (.attestation rs) → db.attestationDuties.get (j.validator, j.epoch) = some a →
    ∃ db₁ a₁, Exec (joinSem spec) (persistLiveAttestationRewards j.epoch rs).run db.thawed (.ok ()) db₁ ∧
      db₁.attestationDuties.get (j.validator, j.epoch) = some a₁ ∧
      db'.attestationDuties.get (j.validator, j.epoch) = some (a.takeRewards a₁)
  proposal : ∀ {j row r s d}, db.liveJobs.get j = some row → db.joinsProposal p j row = true →
    row.payload = some (.proposal r) → r.proposerIndex = j.validator → j.slot = some s → db.blockProposals.get s = some d →
    ∃ db₁ d₁, Exec (joinSem spec) (persistLiveProposalRewards s r).run db.thawed (.ok ()) db₁ ∧
      db₁.blockProposals.get s = some d₁ ∧ db'.blockProposals.get s = some (d.takeRewards d₁)
  sync : ∀ {j row rs s d}, db.liveJobs.get j = some row → db.joinsSync p j row = true →
    row.payload = some (.sync rs) → j.slot = some s → db.syncDuties.get (j.validator, s) = some d →
    ∃ db₁ d₁, Exec (joinSem spec) (statement (.persistLiveSyncRewards s rs)).run db.thawed (.ok ()) db₁ ∧
      db₁.syncDuties.get (j.validator, s) = some d₁ ∧ db'.syncDuties.get (j.validator, s) = some (d.takeRewards d₁)
  attestationRest : ∀ {v e}, (∀ j row, db.liveJobs.get j = some row → db.joinsAttestation p j row = true →
    ¬(j.validator = v ∧ j.epoch = e)) → db'.attestationDuties.get (v, e) = db.attestationDuties.get (v, e)
  proposalRest : ∀ {s}, (∀ j row r, db.liveJobs.get j = some row → db.joinsProposal p j row = true →
    row.payload = some (.proposal r) → r.proposerIndex = j.validator → j.slot ≠ some s) →
    db'.blockProposals.get s = db.blockProposals.get s
  syncRest : ∀ {v s}, (∀ j row, db.liveJobs.get j = some row → db.joinsSync p j row = true →
    ¬(j.validator = v ∧ j.slot = some s)) → db'.syncDuties.get (v, s) = db.syncDuties.get (v, s)
  rest : db' = { db with
    attestationDuties := db'.attestationDuties, blockProposals := db'.blockProposals, syncDuties := db'.syncDuties }

/-- The staged value of a job that alone meets a condition. -/
theorem find_evalJobs {eval : Nat → Option Json → Except SqlError (Option α)} {t : Table JobKey JobRow}
    {f : JobKey → JobRow → Bool} {values : List (JobKey × α)} (h : evalJobs eval (t.select f) = .ok values)
    {q : JobKey → Bool} {j : JobKey} {row : JobRow} {c : α} (hget : t.get j = some row) (hf : f j row = true)
    (he : eval j.validator (row.payload.map Payload.toValue) = .ok (some c)) (hq : q j = true)
    (hone : ∀ j' row', t.get j' = some row' → f j' row' = true → q j' = true → j' = j) :
    values.find? (fun r => q r.1) = some (j, c) := by
  have hmem := (evalJobs_spec h).2
  have hjc : (j, c) ∈ values := (hmem j c).2 ⟨row, Table.mem_select.2 ⟨hget, hf⟩, he⟩
  cases hfind : values.find? (fun r => q r.1) with
  | none => exact absurd hq (by simpa using List.find?_eq_none.1 hfind (j, c) hjc)
  | some r =>
    obtain ⟨j', c'⟩ := r
    obtain ⟨row', hsel, he'⟩ := (hmem j' c').1 (List.mem_of_find?_eq_some hfind)
    obtain ⟨hget', hf'⟩ := Table.mem_select.1 hsel
    obtain rfl := hone j' row' hget' hf' (by simpa using List.find?_some hfind)
    rw [hget] at hget'
    cases hget'
    rw [he] at he'
    cases he'
    rfl

/-- No staged value where no joined job has one. -/
theorem find_evalJobs_none {eval : Nat → Option Json → Except SqlError (Option α)} {t : Table JobKey JobRow}
    {f : JobKey → JobRow → Bool} {values : List (JobKey × α)} (h : evalJobs eval (t.select f) = .ok values)
    {q : JobKey → Bool} (hnone : ∀ j row c, t.get j = some row → f j row = true →
      eval j.validator (row.payload.map Payload.toValue) = .ok (some c) → q j = false) :
    values.find? (fun r => q r.1) = none := by
  rw [List.find?_eq_none]
  rintro ⟨j, c⟩ hjc
  obtain ⟨row, hsel, he⟩ := ((evalJobs_spec h).2 j c).1 hjc
  obtain ⟨hget, hf⟩ := Table.mem_select.1 hsel
  simp [hnone j row c hget hf he]

section Statements

variable {p : Promotion} {db : Db}

theorem joinsJob_iff {component : Component} {bound : Nat} {j : JobKey} {row : JobRow} :
    db.joinsJob p component bound j row = true ↔ j.component = component ∧ row.confirmed p.roots = true ∧
      j.validator ∈ p.validators ∧ j.epoch ≤ bound ∧ db.completed j.validator j.epoch = false := by
  simp [Db.joinsJob, and_assoc]

theorem component_of_joinsAttestation {j : JobKey} {row : JobRow} (h : db.joinsAttestation p j row = true) :
    j.component = .attestationRewards := by
  unfold Db.joinsAttestation at h
  rw [Bool.and_eq_true, joinsJob_iff] at h
  exact h.1.1

theorem component_of_joinsProposal {j : JobKey} {row : JobRow} (h : db.joinsProposal p j row = true) :
    j.component = .proposalRewards := by
  unfold Db.joinsProposal at h
  rw [Bool.and_eq_true, joinsJob_iff] at h
  exact h.1.1

theorem component_of_joinsSync {j : JobKey} {row : JobRow} (h : db.joinsSync p j row = true) :
    j.component = .syncRewards := by
  unfold Db.joinsSync at h
  rw [Bool.and_eq_true, joinsJob_iff] at h
  exact h.1.1

/-- Jobs of one component, validator and slot, or epoch for attestations, are one job. -/
theorem StagedJobs.unique (hs : StagedJobs spec db) {j j' : JobKey} {row row' : JobRow} (h : db.liveJobs.get j = some row)
    (h' : db.liveJobs.get j' = some row') (hc : j.component = j'.component) (hv : j.validator = j'.validator)
    (he : j.component = .attestationRewards → j.epoch = j'.epoch)
    (hslot : j.component ≠ .attestationRewards → j.slot = j'.slot) : j = j' := by
  obtain ⟨v, e, s, c⟩ := j
  obtain ⟨v', e', s', c'⟩ := j'
  dsimp only at hc hv he hslot
  subst hc hv
  have h1 := (hs _ _ h).1
  have h2 := (hs _ _ h').1
  cases c with
  | attestationRewards =>
    obtain rfl := he rfl
    obtain rfl : s = none := h1
    obtain rfl : s' = none := h2
    rfl
  | proposalRewards =>
    obtain rfl := hslot (by simp)
    obtain ⟨_, rfl, rfl⟩ := h1
    obtain ⟨_, hs2, rfl⟩ := h2
    cases hs2
    rfl
  | syncRewards =>
    obtain rfl := hslot (by simp)
    obtain ⟨_, rfl, rfl⟩ := h1
    obtain ⟨_, hs2, rfl⟩ := h2
    cases hs2
    rfl

/-- A response for validators names each of them. -/
theorem find_named {ρ : Type} {index : ρ → Nat} {rs : List ρ} {v : Nat} (h : v ∈ rs.map index) :
    ∃ r, rs.find? (index · == v) = some r := by
  obtain ⟨r, hr, rfl⟩ := List.mem_map.1 h
  cases hf : rs.find? (index · == index r) with
  | some r' => exact ⟨r', rfl⟩
  | none => exact absurd (List.find?_eq_none.1 hf r hr) (by simp)

/-- The staged value of a joined attestation job. -/
theorem StagedJobs.attestation (hs : StagedJobs spec db) {j : JobKey} {row : JobRow} (h : db.liveJobs.get j = some row)
    (hj : j.component = .attestationRewards) :
    (row.payload = none ∧ replayAttestation j.validator (row.payload.map Payload.toValue) = .ok none) ∨
    ∃ rs r, row.payload = some (.attestation rs) ∧ rs.find? (·.validatorIndex == j.validator) = some r ∧
      replayAttestation j.validator (row.payload.map Payload.toValue) =
        .ok (some ⟨some r.source, some r.target, some r.head, r.inactivity⟩) := by
  cases hp : row.payload with
  | none => exact .inl ⟨rfl, rfl⟩
  | some payload =>
    obtain ⟨validators, hv, hlt, hresponse⟩ := (hs j row h).2 payload hp
    rw [hj] at hresponse
    cases payload with
    | attestation rs =>
      obtain ⟨r, hr⟩ := find_named ((hresponse.2.1 j.validator).2 hv)
      refine .inr ⟨rs, r, rfl, hr, ?_⟩
      rw [Option.map_some, replayAttestation_response hlt hresponse, hr]
      rfl
    | proposal r => cases hresponse
    | sync rs => cases hresponse

theorem StagedJobs.sync (hs : StagedJobs spec db) {j : JobKey} {row : JobRow} (h : db.liveJobs.get j = some row)
    (hj : j.component = .syncRewards) :
    (row.payload = none ∧ replaySync j.validator (row.payload.map Payload.toValue) = .ok none) ∨
    ∃ rs r, row.payload = some (.sync rs) ∧ rs.find? (·.validatorIndex == j.validator) = some r ∧
      replaySync j.validator (row.payload.map Payload.toValue) = .ok (some (some r.reward)) := by
  cases hp : row.payload with
  | none => exact .inl ⟨rfl, rfl⟩
  | some payload =>
    obtain ⟨validators, hv, hlt, hresponse⟩ := (hs j row h).2 payload hp
    rw [hj] at hresponse
    cases payload with
    | sync rs =>
      obtain ⟨r, hr⟩ := find_named ((hresponse.2.1 j.validator).2 hv)
      refine .inr ⟨rs, r, rfl, hr, ?_⟩
      rw [Option.map_some, replaySync_response hlt hresponse, hr]
      rfl
    | proposal r => cases hresponse
    | attestation rs => cases hresponse

/-- The payload of a proposal job is a proposal response. -/
theorem StagedJobs.proposal (hs : StagedJobs spec db) {j : JobKey} {row : JobRow} (h : db.liveJobs.get j = some row)
    (hj : j.component = .proposalRewards) :
    (row.payload = none ∧ replayProposal j.validator (row.payload.map Payload.toValue) = .ok none) ∨
    ∃ r, row.payload = some (.proposal r) := by
  cases hp : row.payload with
  | none => exact .inl ⟨rfl, rfl⟩
  | some payload =>
    obtain ⟨validators, -, -, hresponse⟩ := (hs j row h).2 payload hp
    rw [hj] at hresponse
    cases payload with
    | proposal r => exact .inr ⟨r, rfl⟩
    | sync rs => cases hresponse
    | attestation rs => cases hresponse

/-- The attestation statement succeeds on every payload that was staged. -/
theorem StagedJobs.replayAttestations (hs : StagedJobs spec db) : ∃ duties,
    db.replayAttestationRewards p = .ok { db with attestationDuties := duties } ∧
    (∀ {j row rs a r}, db.liveJobs.get j = some row → db.joinsAttestation p j row = true →
      row.payload = some (.attestation rs) → rs.find? (·.validatorIndex == j.validator) = some r →
      db.attestationDuties.get (j.validator, j.epoch) = some a → duties.get (j.validator, j.epoch) =
        some (a.withRewards (some r.source) (some r.target) (some r.head) r.inactivity)) ∧
    ∀ {v e}, (∀ j row, db.liveJobs.get j = some row → db.joinsAttestation p j row = true →
      ¬(j.validator = v ∧ j.epoch = e)) → duties.get (v, e) = db.attestationDuties.get (v, e) := by
  obtain ⟨values, hvalues⟩ := @evalJobs_ok _ replayAttestation (db.liveJobs.select (db.joinsAttestation p))
    fun j row hm => by
      obtain ⟨hget, hj⟩ := Table.mem_select.1 hm
      rcases hs.attestation hget (component_of_joinsAttestation hj) with ⟨-, h⟩ | ⟨rs, r, -, -, h⟩
      · exact ⟨_, h⟩
      · exact ⟨_, h⟩
  unfold Db.replayAttestationRewards
  rw [hvalues]
  refine ⟨_, rfl, ?_, ?_⟩
  · intro j row rs a r hget hj hp hr ha
    rcases hs.attestation hget (component_of_joinsAttestation hj) with ⟨hnone, -⟩ | ⟨rs', r', hp', hr', he⟩
    · rw [hp] at hnone
      cases hnone
    · rw [hp] at hp'
      cases hp'
      rw [hr] at hr'
      cases hr'
      have hfind := find_evalJobs hvalues (q := fun k => k.validator == j.validator && k.epoch == j.epoch) hget hj he
        (by simp) fun j' row' hget' hj' hq => by
          simp only [Bool.and_eq_true, beq_iff_eq] at hq
          have hc := component_of_joinsAttestation hj
          have hc' := component_of_joinsAttestation hj'
          exact hs.unique hget' hget (hc'.trans hc.symm) hq.1 (fun _ => hq.2) fun h => absurd hc' h
      rw [Table.get_modify, ha, Option.bind_some]
      dsimp only
      rw [hfind]
  · intro v e hnone
    have hfind := find_evalJobs_none hvalues (q := fun k => k.validator == v && k.epoch == e) fun j row c hget hj _ => by
      have := hnone j row hget hj
      simpa using this
    rw [Table.get_modify]
    dsimp only
    rw [hfind]
    cases db.attestationDuties.get (v, e) <;> rfl

theorem StagedJobs.replaySyncs (hs : StagedJobs spec db) : ∃ duties,
    db.replaySyncRewards p = .ok { db with syncDuties := duties } ∧
    (∀ {j row rs d r s}, db.liveJobs.get j = some row → db.joinsSync p j row = true →
      row.payload = some (.sync rs) → rs.find? (·.validatorIndex == j.validator) = some r → j.slot = some s →
      db.syncDuties.get (j.validator, s) = some d → duties.get (j.validator, s) = some { d with reward := some r.reward }) ∧
    ∀ {v s}, (∀ j row, db.liveJobs.get j = some row → db.joinsSync p j row = true →
      ¬(j.validator = v ∧ j.slot = some s)) → duties.get (v, s) = db.syncDuties.get (v, s) := by
  obtain ⟨values, hvalues⟩ := @evalJobs_ok _ replaySync (db.liveJobs.select (db.joinsSync p))
    fun j row hm => by
      obtain ⟨hget, hj⟩ := Table.mem_select.1 hm
      rcases hs.sync hget (component_of_joinsSync hj) with ⟨-, h⟩ | ⟨rs, r, -, -, h⟩
      · exact ⟨_, h⟩
      · exact ⟨_, h⟩
  unfold Db.replaySyncRewards
  rw [hvalues]
  refine ⟨_, rfl, ?_, ?_⟩
  · intro j row rs d r s hget hj hp hr hslot hd
    rcases hs.sync hget (component_of_joinsSync hj) with ⟨hnone, -⟩ | ⟨rs', r', hp', hr', he⟩
    · rw [hp] at hnone
      cases hnone
    · rw [hp] at hp'
      cases hp'
      rw [hr] at hr'
      cases hr'
      have hfind := find_evalJobs hvalues (q := fun k => k.slot == some s && k.validator == j.validator) hget hj he
        (by simp [hslot]) fun j' row' hget' hj' hq => by
          simp only [Bool.and_eq_true, beq_iff_eq] at hq
          have hc := component_of_joinsSync hj
          have hc' := component_of_joinsSync hj'
          exact hs.unique hget' hget (hc'.trans hc.symm) hq.2 (fun h => by rw [hc'] at h; cases h)
            fun _ => hq.1.trans hslot.symm
      rw [Table.get_modify, hd, Option.bind_some]
      dsimp only
      rw [hfind]
  · intro v s hnone
    have hfind := find_evalJobs_none hvalues (q := fun k => k.slot == some s && k.validator == v) fun j row c hget hj _ => by
      have := hnone j row hget hj
      simp only [Bool.and_eq_false_imp, beq_iff_eq, beq_eq_false_iff_ne]
      exact fun h1 h2 => this ⟨h2, h1⟩
    rw [Table.get_modify]
    dsimp only
    rw [hfind]
    cases db.syncDuties.get (v, s) <;> rfl

/-- The proposal statement succeeds exactly on rewards in range. -/
theorem StagedJobs.replayProposals_iff (hs : StagedJobs spec db) : (∃ db', db.replayProposalRewards p = .ok db') ↔
    ∀ j row r, db.liveJobs.get j = some row → db.joinsProposal p j row = true → row.payload = some (.proposal r) →
      r.Replayable j.validator := by
  constructor
  · rintro ⟨db', h⟩ j row r hget hj hp
    unfold Db.replayProposalRewards at h
    obtain ⟨values, hvalues, -⟩ := except_bind_eq_ok.1 h
    obtain ⟨c, hc⟩ := (evalJobs_spec hvalues).1 j row (Table.mem_select.2 ⟨hget, hj⟩)
    rw [hp] at hc
    exact (replayProposal_iff.1 hc).1
  · intro hrange
    obtain ⟨values, hvalues⟩ := @evalJobs_ok _ replayProposal (db.liveJobs.select (db.joinsProposal p))
      fun j row hm => by
        obtain ⟨hget, hj⟩ := Table.mem_select.1 hm
        rcases hs.proposal hget (component_of_joinsProposal hj) with ⟨-, h⟩ | ⟨r, hp⟩
        · exact ⟨_, h⟩
        · rw [hp]
          exact ⟨_, replayProposal_iff.2 ⟨hrange j row r hget hj hp, rfl⟩⟩
    unfold Db.replayProposalRewards
    rw [hvalues]
    exact ⟨_, rfl⟩

theorem StagedJobs.replayProposals (hs : StagedJobs spec db) {db' : Db} (h : db.replayProposalRewards p = .ok db') :
    ∃ proposals, db' = { db with blockProposals := proposals } ∧
    (∀ {j row r d s}, db.liveJobs.get j = some row → db.joinsProposal p j row = true →
      row.payload = some (.proposal r) → r.proposerIndex = j.validator → j.slot = some s →
      db.blockProposals.get s = some d → proposals.get s = some { d with
        rewardTotal := some r.total
        rewardAttestations := some r.attestations
        rewardSync := some r.syncAggregate
        rewardSlashings := some (r.proposerSlashings + r.attesterSlashings) }) ∧
    ∀ {s}, (∀ j row r, db.liveJobs.get j = some row → db.joinsProposal p j row = true →
      row.payload = some (.proposal r) → r.proposerIndex = j.validator → j.slot ≠ some s) →
      proposals.get s = db.blockProposals.get s := by
  unfold Db.replayProposalRewards at h
  obtain ⟨values, hvalues, h⟩ := except_bind_eq_ok.1 h
  cases h
  refine ⟨_, rfl, ?_, ?_⟩
  · intro j row r d s hget hj hp hv hslot hd
    obtain ⟨c, hc⟩ := (evalJobs_spec hvalues).1 j row (Table.mem_select.2 ⟨hget, hj⟩)
    have hc' := hc
    rw [hp] at hc'
    obtain ⟨-, rfl⟩ := replayProposal_iff.1 hc'
    rw [if_pos hv] at hc
    -- a joined row is the validator's own
    have hproposer : d.proposerIndex = j.validator := by
      have hrow := hj
      unfold Db.joinsProposal at hrow
      rw [Bool.and_eq_true] at hrow
      simpa [hslot, hd] using hrow.2
    have hfind := find_evalJobs hvalues (q := fun k => k.slot == some s && k.validator == d.proposerIndex) hget hj hc
      (by simp [hslot, hproposer]) fun j' row' hget' hj' hq => by
        simp only [Bool.and_eq_true, beq_iff_eq] at hq
        have hcomp := component_of_joinsProposal hj
        have hcomp' := component_of_joinsProposal hj'
        exact hs.unique hget' hget (hcomp'.trans hcomp.symm) (hq.2.trans hproposer)
          (fun h => by rw [hcomp'] at h; cases h) fun _ => hq.1.trans hslot.symm
    rw [Table.get_modify, hd, Option.bind_some, hfind]
  · intro s hnone
    rw [Table.get_modify]
    cases hd : db.blockProposals.get s with
    | none => rfl
    | some d =>
      have hfind := find_evalJobs_none hvalues (q := fun k => k.slot == some s && k.validator == d.proposerIndex)
        fun j row c hget hj hc => by
          rcases hs.proposal hget (component_of_joinsProposal hj) with ⟨-, h⟩ | ⟨r, hp⟩
          · rw [h] at hc
            cases hc
          · rw [hp] at hc
            have hsome := (replayProposal_iff.1 hc).2
            by_cases hv : r.proposerIndex = j.validator
            · simp [hnone j row r hget hj hp hv]
            · rw [if_neg hv] at hsome
              cases hsome
      rw [Option.bind_some, hfind]

/-- What a replay that succeeded has cast. -/
theorem StagedJobs.replayable (hs : StagedJobs spec db) {db' : Db} (h : db.replayRewards p = .ok db') {j : JobKey} {row : JobRow}
    {r : BlockRewards} (hget : db.liveJobs.get j = some row) (hj : db.joinsProposal p j row = true)
    (hp : row.payload = some (.proposal r)) : r.Replayable j.validator := by
  unfold Db.replayRewards at h
  obtain ⟨db₁, h1, h⟩ := except_bind_eq_ok.1 h
  obtain ⟨db₂, h2, h⟩ := except_bind_eq_ok.1 h
  obtain ⟨duties, h1', -, -⟩ := hs.replayAttestations (p := p)
  rw [h1'] at h1
  cases h1
  -- the attestation statement changes neither jobs nor proposals
  have hs₁ : StagedJobs spec { db with attestationDuties := duties } := hs
  exact hs₁.replayProposals_iff.1 ⟨db₂, h2⟩ j row r hget hj hp

theorem StagedJobs.replayedLikeJoin (hs : StagedJobs spec db)
    (hrange : ∀ j row r, db.liveJobs.get j = some row → db.joinsProposal p j row = true → row.payload = some (.proposal r) →
      r.Replayable j.validator) : ∃ db', db.replayRewards p = .ok db' ∧ ReplayedLikeJoin spec p db db' := by
  obtain ⟨duties, h1, hatt, hattRest⟩ := hs.replayAttestations (p := p)
  have hs₁ : StagedJobs spec { db with attestationDuties := duties } := hs
  obtain ⟨db₂, h2⟩ := hs₁.replayProposals_iff.2 hrange
  obtain ⟨proposals, rfl, hprop, hpropRest⟩ := hs₁.replayProposals h2
  have hs₂ : StagedJobs spec { db with attestationDuties := duties, blockProposals := proposals } := hs
  obtain ⟨sync, h3, hsync, hsyncRest⟩ := hs₂.replaySyncs (p := p)
  refine ⟨_, except_bind_eq_ok.2 ⟨_, h1, except_bind_eq_ok.2 ⟨_, h2, h3⟩⟩, ?_⟩
  exact {
    attestation := fun {j row rs a} hget hj hp ha => by
      rcases hs.attestation hget (component_of_joinsAttestation hj) with ⟨hnone, -⟩ | ⟨rs', r, hp', hr, -⟩
      · rw [hp] at hnone
        cases hnone
      · rw [hp] at hp'
        cases hp'
        obtain ⟨db₁, a₁, hx, hget₁, heq⟩ := @join_attestation spec rs db j.validator j.epoch a r ha hr
        exact ⟨db₁, a₁, hx, hget₁, heq ▸ hatt hget hj hp hr ha⟩
    proposal := fun {j row r s d} hget hj hp hv hslot hd => by
      obtain ⟨db₁, d₁, hx, hget₁, heq⟩ := @join_proposal spec r db s d hd ((hrange j row r hget hj hp).2 hv)
      exact ⟨db₁, d₁, hx, hget₁, heq ▸ hprop hget hj hp hv hslot hd⟩
    sync := fun {j row rs s d} hget hj hp hslot hd => by
      rcases hs.sync hget (component_of_joinsSync hj) with ⟨hnone, -⟩ | ⟨rs', r, hp', hr, -⟩
      · rw [hp] at hnone
        cases hnone
      · rw [hp] at hp'
        cases hp'
        obtain ⟨db₁, d₁, hx, hget₁, heq⟩ := @join_sync spec rs db j.validator s d r hd hr
        exact ⟨db₁, d₁, hx, hget₁, heq ▸ hsync hget hj hp hr hslot hd⟩
    attestationRest := fun h => hattRest h
    proposalRest := fun h => hpropRest h
    syncRest := fun h => hsyncRest h
    rest := rfl }

end Statements

/-- Whatever reward responses the node gives, the programs that queue and collect jobs stage them as promised. In every
database that such statements reach, the replay of a promotion succeeds and sets the reward columns the direct joins set,
if and only if the joined proposal rewards are in BIGINT range. -/
theorem staged_rewards_replay_iff (spec : ChainSpec) :
    (∀ {node : (q : Request) → Except Error q.Answer → Prop}, WireRewards node → StagesOnly spec node) ∧
    ∀ {db : Db}, Run spec (StageIssue spec) .empty db → ∀ p,
      ((∃ db', db.replayRewards p = .ok db' ∧ ReplayedLikeJoin spec p db db') ↔
      ∀ j row r, db.liveJobs.get j = some row → db.joinsProposal p j row = true → row.payload = some (.proposal r) →
        r.Replayable j.validator) := by
  refine ⟨stagesOnly, fun h p => ?_⟩
  have hs := h.stagedJobs
  constructor
  · rintro ⟨db', hok, -⟩ j row r hget hj hp
    exact hs.replayable hok hget hj hp
  · exact hs.replayedLikeJoin

/-! ## A reward out of range -/

theorem replaySpec_pos : 0 < 4 := by decide

def replaySpec : ChainSpec := ⟨4, 2, 8, 0, replaySpec_pos⟩

def rewardBlock : Root := ⟨10⟩

def proposalJob : LiveJob := ⟨0, some 1, .proposalRewards, [7], some rewardBlock⟩

/-- Validator 7 with its proposal of slot 1 and the reward job. -/
def proposedDb : Db :=
  ((Db.registered [7]).enqueueJobs 0 0 (some 1) .proposalRewards [7] (some rewardBlock)).upsertBlockProposal replaySpec 1
    ⟨7, true, none, none, none, none, false⟩

theorem proposedDb_run : Run replaySpec (StageIssue replaySpec) .empty proposedDb := by
  have h1 : Run replaySpec (StageIssue replaySpec) .empty (.registered [7]) := .one 0 (.upsertValidator 7 0 none) trivial
  have h2 := h1.tail 0 (.enqueueJobs 0 (some 1) .proposalRewards [7] (some rewardBlock)) ⟨1, rfl, rfl⟩
  exact h2.tail 0 (.upsertBlockProposal 1 ⟨7, true, none, none, none, none, false⟩) trivial

def proposalRewards (total : Nat) : BlockRewards := ⟨7, total, 0, 0, 0, 0⟩

/-- The node has the block at slot 1 and reports its rewards. -/
def rewardNode (total : Nat) : (q : Request) → Except Error q.Answer
  | .header (.slot 1) => .ok ⟨⟨rewardBlock, true, 1, ⟨1⟩⟩, none⟩
  | .blockByRoot _ => .ok (some ⟨1, 7, ⟨0⟩, ⟨0⟩, .phase0 []⟩)
  | .blockRewardsByRoot _ => .ok ⟨proposalRewards total, none⟩
  | _ => .error (.http "no answer")

theorem rewardNode_wire (total : Nat) : WireRewards fun q r => r = rewardNode total q where
  attestation h := by cases h
  sync h := by cases h

def confirmingPromotion : Promotion := ⟨[7], 0, 0, 0, [rewardBlock]⟩

/-- The promotion joins a job of validator 7, and every job holds the response. -/
def stagedTotal (total : Nat) (db : Db) : Bool :=
  (db.liveJobs.rows.any fun (j, row) => j.validator == 7 && db.joinsProposal confirmingPromotion j row) &&
    db.liveJobs.rows.all fun (_, row) => row.payload == some (.proposal (proposalRewards total))

theorem payload_of_stagedTotal {total : Nat} {db : Db} (h : stagedTotal total db = true) {j : JobKey} {row : JobRow}
    (hget : db.liveJobs.get j = some row) : row.payload = some (.proposal (proposalRewards total)) := by
  have hall := List.all_eq_true.1 ((Bool.and_eq_true _ _).mp h).2 _ (Table.mem_rows.2 hget)
  exact beq_iff_eq.1 hall

theorem collected_run {total : Nat} {db : Db} {r : Except Error Unit}
    (h : Exec (indexerSem replaySpec fun q r => r = rewardNode total q)
      (attempt (collectJob replaySpec proposalJob ⟨.empty⟩)).run proposedDb (.ok r) db) :
    Run replaySpec (StageIssue replaySpec) .empty db := by
  have hv : ∀ v ∈ proposalJob.validators, v < 2 ^ 63 := by decide
  have hstages : StagesOnly replaySpec fun q r => r = rewardNode total q := stagesOnly (rewardNode_wire total)
  exact proposedDb_run.collect ((hstages.collectJob hv _).attempt.mono fun _ _ => trivial) h

theorem staged_rewards_replay_iff_five : ∃ db, Exec (indexerSem replaySpec fun q r => r = rewardNode 5 q)
      (attempt (collectJob replaySpec proposalJob ⟨.empty⟩)).run proposedDb (.ok (.ok ())) db ∧ stagedTotal 5 db = true ∧
    ∃ db', db.replayRewards confirmingPromotion = .ok db' ∧ ReplayedLikeJoin replaySpec confirmingPromotion db db' := by
  obtain ⟨r, db, hrun, hcheck⟩ := @exec_of_advance replaySpec (rewardNode 5) _
    (attempt (collectJob replaySpec proposalJob ⟨.empty⟩)) 20 proposedDb (fun r db => r.isOk && stagedTotal 5 db)
    (by decide +kernel)
  obtain ⟨hok, hstaged⟩ := (Bool.and_eq_true _ _).mp hcheck
  cases r with
  | error e => cases hok
  | ok u =>
    refine ⟨db, hrun, hstaged, ((staged_rewards_replay_iff replaySpec).2 (collected_run hrun) confirmingPromotion).2 ?_⟩
    intro j row r hget _ hp
    rw [payload_of_stagedTotal hstaged hget] at hp
    cases hp
    exact ⟨by decide, fun _ => by decide⟩

/-- A total of 2^63, a `u64`, is staged and then aborts every promotion. -/
theorem staged_total_aborts : ∃ error db, Exec (indexerSem replaySpec fun q r => r = rewardNode (2 ^ 63) q)
      (attempt (collectJob replaySpec proposalJob ⟨.empty⟩)).run proposedDb (.ok (.error error)) db ∧
    Run replaySpec (StageIssue replaySpec) .empty db ∧ stagedTotal (2 ^ 63) db = true ∧
    ¬∃ db', db.replayRewards confirmingPromotion = .ok db' := by
  obtain ⟨r, db, hrun, hcheck⟩ := @exec_of_advance replaySpec (rewardNode (2 ^ 63)) _
    (attempt (collectJob replaySpec proposalJob ⟨.empty⟩)) 20 proposedDb (fun r db => !r.isOk && stagedTotal (2 ^ 63) db)
    (by decide +kernel)
  obtain ⟨hfailed, hstaged⟩ := (Bool.and_eq_true _ _).mp hcheck
  cases r with
  | ok u => cases hfailed
  | error error =>
    refine ⟨error, db, hrun, collected_run hrun, hstaged, ?_⟩
    rintro ⟨db', h⟩
    obtain ⟨⟨j, row⟩, hmem, hj⟩ := List.any_eq_true.1 ((Bool.and_eq_true _ _).mp hstaged).1
    obtain ⟨hv, hj⟩ := (Bool.and_eq_true _ _).mp hj
    have hget := Table.mem_rows.1 hmem
    have hrange := (collected_run hrun).stagedJobs.replayable h hget hj (payload_of_stagedTotal hstaged hget)
    have hlt : 2 ^ 63 < 2 ^ 63 := (hrange.2 (beq_iff_eq.1 hv).symm).1
    exact absurd hlt (lt_irrefl _)

end BeaconIndexer
