/-
Several instances on one database. Most statements of a worker name the validators they write, but
rollback, job handling, expiry, pruning and promotion select rows of shared tables without a
validator filter. What a statement does to the rows of other instances' validators is described
exactly, for every statement the workers issue.
-/
import BeaconIndexer.Proofs.Issued
import BeaconIndexer.Proofs.Canonical
import BeaconIndexer.Proofs.Rollback

namespace BeaconIndexer

open Effects Relational

/-! ## Rows of other validators -/

/-- No row that belongs to a validator outside `own` is inserted, changed or deleted. -/
structure ForeignKept (own : Nat → Prop) (db db' : Db) : Prop where
  attestations : db.attestationDuties.Agree (fun k _ => ¬own k.1) db'.attestationDuties
  sync : db.syncDuties.Agree (fun k _ => ¬own k.1) db'.syncDuties
  proposals : db.blockProposals.Agree (fun _ d => ¬own d.proposerIndex) db'.blockProposals
  coverage : db.liveCoverage.Agree (fun k _ => ¬own k.1) db'.liveCoverage
  jobs : db.liveJobs.Agree (fun j _ => ¬own j.validator) db'.liveJobs
  gaps : db.liveGaps.Agree (fun k _ => ¬own k.1) db'.liveGaps
  completed : db.completedScans.Agree (fun k _ => ¬own k.1) db'.completedScans

/-- Promotion finds nothing to do for an attestation row. -/
def PromotedAlready (spec : ChainSpec) (p : Promotion) (db : Db) (v e : Nat) (a : AttestationRow) : Prop :=
  (∀ r, db.stagedAttestationReward p v e = some r → db.completed v e = false →
    a.withRewards (some r.source) (some r.target) (some r.head) r.inactivity = a) ∧
  (db.inclusionProven p v a = true ∨ db.windowProven spec p v e a = true → a.inclusionKnown = true ∧ a.finalized = true)

def ProposalPromotedAlready (spec : ChainSpec) (p : Promotion) (db : Db) (s : Nat) (d : ProposalRow) : Prop :=
  (∀ r, db.stagedProposalReward p s d.proposerIndex = some r → d.rewardTotal = some (r.total : Int) ∧
    d.rewardAttestations = some (r.attestations : Int) ∧ d.rewardSync = some (r.syncAggregate : Int) ∧
    d.rewardSlashings = some ((r.proposerSlashings : Int) + r.attesterSlashings)) ∧
  (db.slotProven spec p d.proposerIndex s d.proposed = true → d.finalized = true)

def SyncPromotedAlready (spec : ChainSpec) (p : Promotion) (db : Db) (v s : Nat) (d : SyncRow) : Prop :=
  (∀ r, db.stagedSyncReward p v s = some r → d.reward = some r) ∧
  (db.slotProven spec p v s (!d.missedBlock) = true → d.finalized = true)

/-- The rows a statement selects belong to `own`, or are already as the statement would leave them. -/
def Confined (spec : ChainSpec) (own : Nat → Prop) : DbOp → Db → Prop
  | .registerTrackingStart _ _, db =>
      (∀ j row started, db.liveJobs.get j = some row → db.liveTrackingStart.get j.validator = some started →
        j.epoch < started → db.completed j.validator j.epoch = false → own j.validator) ∧
      ∀ v e reason started, db.liveGaps.get (v, e) = some reason → db.liveTrackingStart.get v = some started →
        e < started → own v
  | .invalidateFrom replayFrom, db =>
      (∀ v s, db.covered v s = true → replayFrom ≤ s → own v) ∧
      (∀ s d, db.blockProposals.get s = some d → replayFrom ≤ s → d.finalized = false → own d.proposerIndex) ∧
      (∀ v s d, db.syncDuties.get (v, s) = some d → replayFrom ≤ s → d.finalized = false → own v) ∧
      (∀ v e a, db.attestationDuties.get (v, e) = some a → spec.slotToEpoch replayFrom ≤ e → a.finalized = false →
        own v) ∧
      ∀ j row, db.liveJobs.get j = some row → spec.slotToEpoch replayFrom ≤ j.epoch →
        db.completed j.validator j.epoch = false → own j.validator
  | .completeJob job payload dependency, db => ∀ j row, db.liveJobs.get j = some row → Db.ofJob job j = true →
      own j.validator ∨ (row.status = .complete ∧ row.payload = some payload ∧ row.dependency = some dependency ∧
        row.lastError = none)
  | .failJob job _, db => ∀ j row, db.liveJobs.get j = some row → Db.ofJob job j = true → row.status = .pending →
      own j.validator
  | .expireJobs minEpoch, db => ∀ j row, db.liveJobs.get j = some row → row.status = .pending → j.epoch < minEpoch →
      own j.validator
  | .pruneCompletedEvidence retainEpoch, db =>
      (∀ j row, db.liveJobs.get j = some row → j.epoch < retainEpoch → db.completed j.validator j.epoch = true →
        own j.validator) ∧
      ∀ v s, db.covered v s = true → s < spec.epochStartSlot retainEpoch → own v
  | .upsertAttestationDuty v e w, db => own v ∨ ∃ a, db.attestationDuties.get (v, e) = some a ∧
      (w.replaces (db.completed v e) a = true → w.merge a = a)
  | .repairFinalizedInclusion v e details, db => ∀ a, db.attestationDuties.get (v, e) = some a →
      a.repairable (db.completed v e) details = true → own v ∨ a.withDetails details = a
  | .updateAttestationRewardsBatch rewards, db => ∀ v e a r, db.attestationDuties.get (v, e) = some a →
      (rewards.find? fun r => r.validator == v && r.epoch == e) = some r → a.finalized = false →
      own v ∨ a.withRewards r.source r.target r.head r.inactivity = a
  | .upsertBlockProposal s w, db => match db.blockProposals.get s with
      | none => own w.proposerIndex
      | some d => (!d.finalized || (w.finalized && !db.completed d.proposerIndex (spec.slotToEpoch s))) = true →
          (own d.proposerIndex ∧ own w.proposerIndex) ∨ w.merge d = d
  | .persistLiveSyncRewards slot rewards, db => ∀ v d r, db.syncDuties.get (v, slot) = some d →
      (rewards.find? (·.validatorIndex == v)) = some r → d.finalized = false → own v ∨ d.reward = some r.reward
  | .promoteCollected p, db =>
      (∀ v e a, db.attestationDuties.get (v, e) = some a → own v ∨ PromotedAlready spec p db v e a) ∧
      (∀ s d, db.blockProposals.get s = some d → own d.proposerIndex ∨ ProposalPromotedAlready spec p db s d) ∧
      (∀ v s d, db.syncDuties.get (v, s) = some d → own v ∨ SyncPromotedAlready spec p db v s d) ∧
      (∀ k ∈ db.ready spec p, own k.1) ∧
      ∀ k ∈ db.incomplete p, own k.1 ∨ db.liveGaps.get k = some "finalized live collection incomplete"
  | _, _ => True

/-- The validators the statement itself names belong to `own`. -/
def DbOp.Names (own : Nat → Prop) : DbOp → Prop
  | .registerTrackingStart vs _ | .recordCoverage vs _ | .enqueueJobs _ _ _ vs _ | .markComplete vs _ => ∀ v ∈ vs, own v
  | .upsertSyncDuty v _ _ => own v
  | _ => True

variable {spec : ChainSpec} {own : Nat → Prop} {db : Db} {now : Nat}

theorem ForeignKept.refl (own : Nat → Prop) (db : Db) : ForeignKept own db db :=
  ⟨.refl _ _, .refl _ _, .refl _ _, .refl _ _, .refl _ _, .refl _ _, .refl _ _⟩

/-! ## Single statements -/

theorem kept_invalidateFrom {r : Nat} :
    ForeignKept own db (db.invalidateFrom spec r) ↔ Confined spec own (.invalidateFrom r) db := by
  constructor
  · intro h
    have hcov := Table.agree_deleteWhere.1 h.coverage
    have hprop := Table.agree_deleteWhere.1 h.proposals
    have hsync := Table.agree_deleteWhere.1 h.sync
    have hatt := Table.agree_deleteWhere.1 h.attestations
    have hjobs := Table.agree_deleteWhere.1 h.jobs
    refine ⟨fun v s hc hs => ?_, fun s d hd hs hf => ?_, fun v s d hd hs hf => ?_, fun v e a ha he hf => ?_,
      fun j row hj he hc => ?_⟩
    · by_contra hown
      obtain ⟨u, hu⟩ := Table.has_iff.1 hc
      simpa [hs] using hcov (v, s) u hu hown
    · by_contra hown
      simpa [hs, hf] using hprop s d hd hown
    · by_contra hown
      simpa [hs, hf] using hsync (v, s) d hd hown
    · by_contra hown
      simpa [he, hf] using hatt (v, e) a ha hown
    · by_contra hown
      simpa [he, hc] using hjobs j row hj hown
  · rintro ⟨hcov, hprop, hsync, hatt, hjobs⟩
    refine ⟨?_, ?_, ?_, ?_, ?_, .refl _ _, .refl _ _⟩
    · refine Table.agree_deleteWhere.2 fun k a ha hown => ?_
      by_contra hd
      simp only [Bool.not_eq_false, Bool.and_eq_true, decide_eq_true_eq, Bool.not_eq_true'] at hd
      exact hown (hatt k.1 k.2 a ha hd.1 hd.2)
    · refine Table.agree_deleteWhere.2 fun k d hk hown => ?_
      by_contra hd
      simp only [Bool.not_eq_false, Bool.and_eq_true, decide_eq_true_eq, Bool.not_eq_true'] at hd
      exact hown (hsync k.1 k.2 d hk hd.1 hd.2)
    · refine Table.agree_deleteWhere.2 fun s d hk hown => ?_
      by_contra hd
      simp only [Bool.not_eq_false, Bool.and_eq_true, decide_eq_true_eq, Bool.not_eq_true'] at hd
      exact hown (hprop s d hk hd.1 hd.2)
    · refine Table.agree_deleteWhere.2 fun k u hk hown => ?_
      by_contra hd
      simp only [Bool.not_eq_false, decide_eq_true_eq] at hd
      exact hown (hcov k.1 k.2 (Table.has_iff.2 ⟨u, hk⟩) hd)
    · refine Table.agree_deleteWhere.2 fun j row hk hown => ?_
      by_contra hd
      simp only [Bool.not_eq_false, Bool.and_eq_true, decide_eq_true_eq, Bool.not_eq_true'] at hd
      exact hown (hjobs j row hk hd.1 hd.2)

theorem kept_pruneCompletedEvidence {e : Nat} :
    ForeignKept own db (db.pruneCompletedEvidence spec e) ↔ Confined spec own (.pruneCompletedEvidence e) db := by
  constructor
  · intro h
    have hjobs := Table.agree_deleteWhere.1 h.jobs
    have hcov := Table.agree_deleteWhere.1 h.coverage
    refine ⟨fun j row hj he hc => ?_, fun v s hc hs => ?_⟩
    · by_contra hown
      simpa [he, hc] using hjobs j row hj hown
    · by_contra hown
      obtain ⟨u, hu⟩ := Table.has_iff.1 hc
      simpa [hs] using hcov (v, s) u hu hown
  · rintro ⟨hjobs, hcov⟩
    refine ⟨.refl _ _, .refl _ _, .refl _ _, ?_, ?_, .refl _ _, .refl _ _⟩
    · refine Table.agree_deleteWhere.2 fun k u hk hown => ?_
      by_contra hd
      simp only [Bool.not_eq_false, decide_eq_true_eq] at hd
      exact hown (hcov k.1 k.2 (Table.has_iff.2 ⟨u, hk⟩) hd)
    · refine Table.agree_deleteWhere.2 fun j row hk hown => ?_
      by_contra hd
      simp only [Bool.not_eq_false, Bool.and_eq_true, decide_eq_true_eq] at hd
      exact hown (hjobs j row hk hd.1 hd.2)

theorem kept_expireJobs {e : Nat} : ForeignKept own db (db.expireJobs e) ↔ Confined spec own (.expireJobs e) db := by
  constructor
  · intro h j row hj hs he
    by_contra hown
    have hstatus := Table.agree_update.1 h.jobs j row hj hown (by simp [hs, he])
    have hcontra := congrArg JobRow.status hstatus
    rw [hs] at hcontra
    cases hcontra
  · intro h
    refine ⟨.refl _ _, .refl _ _, .refl _ _, .refl _ _, ?_, ?_, .refl _ _⟩
    · refine Table.agree_update.2 fun j row hj hown hexp => ?_
      simp only [Bool.and_eq_true, decide_eq_true_eq, beq_iff_eq] at hexp
      exact absurd (h j row hj hexp.2 hexp.1) hown
    · refine Table.agree_putAll.2 fun k hk hown => ?_
      obtain ⟨⟨j, row⟩, hsel, rfl⟩ := List.mem_map.1 hk
      obtain ⟨hj, hexp⟩ := Table.mem_select.1 hsel
      simp only [Bool.and_eq_true, decide_eq_true_eq, beq_iff_eq] at hexp
      exact absurd (h j row hj hexp.2 hexp.1) hown

theorem kept_completeJob {job : LiveJob} {payload : Payload} {dep : Root} :
    ForeignKept own db (db.completeJob job payload dep) ↔ Confined spec own (.completeJob job payload dep) db := by
  constructor
  · intro h j row hj hof
    by_cases hown : own j.validator
    · exact Or.inl hown
    · right
      have hrow := Table.agree_update.1 h.jobs j row hj hown hof
      rw [← hrow]
      exact ⟨rfl, rfl, rfl, rfl⟩
  · intro h
    refine ⟨.refl _ _, .refl _ _, .refl _ _, .refl _ _, ?_, .refl _ _, .refl _ _⟩
    refine Table.agree_update.2 fun j row hj hown hof => ?_
    obtain ⟨h1, h2, h3, h4⟩ := (h j row hj hof).resolve_left hown
    rw [← h1, ← h2, ← h3, ← h4]

theorem kept_failJob {job : LiveJob} {error : String} :
    ForeignKept own db (db.failJob now job error) ↔ Confined spec own (.failJob job error) db := by
  constructor
  · intro h j row hj hof hs
    by_contra hown
    have hrow := Table.agree_update.1 h.jobs j row hj hown (by simp [hof, hs])
    have hattempts : row.attempts + 1 = row.attempts := congrArg JobRow.attempts hrow
    omega
  · intro h
    refine ⟨.refl _ _, .refl _ _, .refl _ _, .refl _ _, ?_, .refl _ _, .refl _ _⟩
    refine Table.agree_update.2 fun j row hj hown hof => ?_
    simp only [Bool.and_eq_true, beq_iff_eq] at hof
    exact absurd (h j row hj hof.1 hof.2) hown

/-- Registering validators leaves the start of any other validator alone. -/
theorem trackingStart_other {vs : List Nat} {e v : Nat} (hv : v ∉ vs) :
    (db.registerTrackingStart vs e).liveTrackingStart.get v = db.liveTrackingStart.get v := by
  change (vs.foldl (fun t v => t.upsert v e fun old => some (min old e)) db.liveTrackingStart).get v = _
  generalize db.liveTrackingStart = t
  induction vs generalizing t with
  | nil => rfl
  | cons x vs ih =>
    rw [List.mem_cons, not_or] at hv
    rw [List.foldl_cons, ih hv.2, Table.get_upsert, if_neg hv.1]

theorem kept_registerTrackingStart {vs : List Nat} {e : Nat} (hn : ∀ v ∈ vs, own v) :
    ForeignKept own db (db.registerTrackingStart vs e) ↔ Confined spec own (.registerTrackingStart vs e) db := by
  have hstart : ∀ v, ¬own v → (db.registerTrackingStart vs e).liveTrackingStart.get v = db.liveTrackingStart.get v :=
    fun v hown => trackingStart_other fun hv => hown (hn v hv)
  constructor
  · intro h
    have hjobs := Table.agree_deleteWhere.1 h.jobs
    have hgaps := Table.agree_deleteWhere.1 h.gaps
    refine ⟨fun j row started hj ht hlt hc => ?_, fun v e' reason started hg ht hlt => ?_⟩
    · by_contra hown
      have hdel := hjobs j row hj hown
      have ht := (hstart j.validator hown).trans ht
      change (((db.registerTrackingStart vs e).liveTrackingStart.get j.validator).any (j.epoch < ·) &&
        !db.completed j.validator j.epoch) = false at hdel
      simp [ht, hlt, hc] at hdel
    · by_contra hown
      have hdel := hgaps (v, e') reason hg hown
      have ht := (hstart v hown).trans ht
      change ((db.registerTrackingStart vs e).liveTrackingStart.get v).any (e' < ·) = false at hdel
      simp [ht, hlt] at hdel
  · rintro ⟨hjobs, hgaps⟩
    refine ⟨.refl _ _, .refl _ _, .refl _ _, .refl _ _, ?_, ?_, .refl _ _⟩
    · refine Table.agree_deleteWhere.2 fun j row hj hown => ?_
      change (((db.registerTrackingStart vs e).liveTrackingStart.get j.validator).any (j.epoch < ·) &&
        !db.completed j.validator j.epoch) = false
      rw [hstart j.validator hown]
      by_contra hd
      simp only [Bool.not_eq_false, Bool.and_eq_true, Option.any_eq_true, decide_eq_true_eq, Bool.not_eq_true'] at hd
      obtain ⟨⟨started, ht, hlt⟩, hc⟩ := hd
      exact hown (hjobs j row started hj ht hlt hc)
    · refine Table.agree_deleteWhere.2 fun k reason hg hown => ?_
      change ((db.registerTrackingStart vs e).liveTrackingStart.get k.1).any (k.2 < ·) = false
      rw [hstart k.1 hown]
      by_contra hd
      simp only [Bool.not_eq_false, Option.any_eq_true, decide_eq_true_eq] at hd
      obtain ⟨started, ht, hlt⟩ := hd
      exact hown (hgaps k.1 k.2 reason started hg ht hlt)

/-! ## Duty writes -/

theorem kept_upsertAttestationDuty {v e : Nat} {w : AttestationWrite} :
    ForeignKept own db (db.upsertAttestationDuty v e w) ↔ Confined spec own (.upsertAttestationDuty v e w) db := by
  constructor
  · intro h
    by_cases hown : own v
    · exact Or.inl hown
    · right
      have hget := Table.agree_keys.1 h.attestations (v, e) hown
      rw [Db.upsertAttestationDuty_get, if_pos rfl] at hget
      cases ha : db.attestationDuties.get (v, e) with
      | none => rw [ha] at hget; cases hget
      | some a =>
        rw [ha] at hget
        refine ⟨a, rfl, fun hr => ?_⟩
        simpa [Db.upsertedAttestation, hr] using hget
  · intro h
    refine ⟨Table.agree_keys.2 fun k hown => ?_, .refl _ _, .refl _ _, .refl _ _, .refl _ _, .refl _ _, .refl _ _⟩
    rw [Db.upsertAttestationDuty_get]
    split
    · rename_i hk
      subst hk
      obtain ⟨a, ha, hkeep⟩ := h.resolve_left hown
      rw [ha]
      unfold Db.upsertedAttestation
      by_cases hr : w.replaces (db.completed v e) a = true
      · simp only [hr, if_true, hkeep hr]
      · simp only [hr, Bool.false_eq_true, if_false]
    · rfl

theorem kept_repairFinalizedInclusion {v e : Nat} {d : InclusionDetails} :
    ForeignKept own db (db.repairFinalizedInclusion v e d) ↔ Confined spec own (.repairFinalizedInclusion v e d) db := by
  constructor
  · intro h a ha hr
    by_cases hown : own v
    · exact Or.inl hown
    · right
      exact Table.agree_update.1 h.attestations (v, e) a ha hown (by simp [hr])
  · intro h
    refine ⟨?_, .refl _ _, .refl _ _, .refl _ _, .refl _ _, .refl _ _, .refl _ _⟩
    refine Table.agree_update.2 fun k a ha hown hr => ?_
    simp only [Bool.and_eq_true, beq_iff_eq] at hr
    obtain ⟨rfl, hr⟩ := hr
    exact (h a ha hr).resolve_left hown

theorem get_updateAttestationRewardsBatch (rs : List RewardTuple) (k : Nat × Nat) :
    (db.updateAttestationRewardsBatch rs).attestationDuties.get k = (db.attestationDuties.get k).map fun a =>
      match rs.find? fun r => r.validator == k.1 && r.epoch == k.2 with
      | some r => if a.finalized then a else a.withRewards r.source r.target r.head r.inactivity
      | none => a := by
  rw [Option.map_eq_bind]
  exact Table.get_modify ..

theorem kept_updateAttestationRewardsBatch {rs : List RewardTuple} :
    ForeignKept own db (db.updateAttestationRewardsBatch rs) ↔
      Confined spec own (.updateAttestationRewardsBatch rs) db := by
  have hrows := @get_updateAttestationRewardsBatch db rs
  constructor
  · intro h v e a r ha hr hf
    by_cases hown : own v
    · exact Or.inl hown
    · right
      have hrow := (Table.agree_keys_of_map hrows).1 h.attestations (v, e) a ha hown
      simpa [hr, hf] using hrow
  · intro h
    refine ⟨?_, .refl _ _, .refl _ _, .refl _ _, .refl _ _, .refl _ _, .refl _ _⟩
    refine (Table.agree_keys_of_map hrows).2 fun k a ha hown => ?_
    split
    · rename_i r hr
      split
      · rfl
      · rename_i hf
        exact (h k.1 k.2 a r ha hr (by simpa using hf)).resolve_left hown
    · rfl

theorem get_persistLiveSyncRewards (slot : Nat) (rs : List SyncCommitteeReward) (k : Nat × Nat) :
    (db.persistLiveSyncRewards slot rs).syncDuties.get k = (db.syncDuties.get k).map fun d =>
      match rs.find? (·.validatorIndex == k.1) with
      | some r => if k.2 == slot && !d.finalized then { d with reward := some r.reward } else d
      | none => d := by
  rw [Option.map_eq_bind]
  exact Table.get_modify ..

theorem kept_persistLiveSyncRewards {slot : Nat} {rs : List SyncCommitteeReward} :
    ForeignKept own db (db.persistLiveSyncRewards slot rs) ↔ Confined spec own (.persistLiveSyncRewards slot rs) db := by
  have hrows := @get_persistLiveSyncRewards db slot rs
  constructor
  · intro h v d r hd hr hf
    by_cases hown : own v
    · exact Or.inl hown
    · right
      have hrow := (Table.agree_keys_of_map hrows).1 h.sync (v, slot) d hd hown
      simp only [hr, hf, beq_self_eq_true, Bool.not_false, Bool.and_self, if_true] at hrow
      rw [← hrow]
  · intro h
    refine ⟨.refl _ _, ?_, .refl _ _, .refl _ _, .refl _ _, .refl _ _, .refl _ _⟩
    refine (Table.agree_keys_of_map hrows).2 fun k d hd hown => ?_
    split
    · rename_i r hr
      split
      · rename_i hc
        simp only [Bool.and_eq_true, beq_iff_eq, Bool.not_eq_true'] at hc
        obtain ⟨v, s⟩ := k
        obtain ⟨rfl, hf⟩ := hc
        rw [← (h v d r hd hr hf).resolve_left hown]
      · rfl
    · rfl

/-- The statement touches the row at its slot only. -/
theorem upsertBlockProposal_kept_iff {s : Nat} {w : ProposalWrite} :
    ForeignKept own db (db.upsertBlockProposal spec s w) ↔ ∀ d, ¬own d.proposerIndex →
      (db.blockProposals.get s = some d ↔ some (db.upsertedProposal spec s w (db.blockProposals.get s)) = some d) := by
  have hget := fun s' => db.upsertBlockProposal_get spec s w s'
  constructor
  · intro h d hown
    have hd := h.proposals s d hown
    rwa [hget, if_pos rfl] at hd
  · intro h
    refine ⟨.refl _ _, .refl _ _, fun s' d hown => ?_, .refl _ _, .refl _ _, .refl _ _, .refl _ _⟩
    rw [hget]
    split
    · rename_i hs
      rw [hs]
      exact h d hown
    · exact Iff.rfl

theorem kept_upsertBlockProposal {s : Nat} {w : ProposalWrite} :
    ForeignKept own db (db.upsertBlockProposal spec s w) ↔ Confined spec own (.upsertBlockProposal s w) db := by
  rw [upsertBlockProposal_kept_iff]
  cases hs : db.blockProposals.get s with
  | none =>
    have hconf : Confined spec own (.upsertBlockProposal s w) db ↔ own w.proposerIndex := by simp only [Confined, hs]
    rw [hconf]
    constructor
    · intro h
      by_contra hown
      have := (h w.toRow hown).2 rfl
      cases this
    · rintro hown d hd
      constructor
      · intro h
        cases h
      · intro h
        obtain rfl := Option.some.inj h
        exact absurd hown hd
  | some d =>
    have hconf : Confined spec own (.upsertBlockProposal s w) db ↔
        ((!d.finalized || (w.finalized && !db.completed d.proposerIndex (spec.slotToEpoch s))) = true →
          (own d.proposerIndex ∧ own w.proposerIndex) ∨ w.merge d = d) := by simp only [Confined, hs]
    rw [hconf]
    unfold Db.upsertedProposal
    dsimp only
    constructor
    · intro h hr
      rw [if_pos hr] at h
      by_cases hd : own d.proposerIndex
      · by_cases hw : own w.proposerIndex
        · exact Or.inl ⟨hd, hw⟩
        · exact Or.inr (Option.some.inj ((h (w.merge d) hw).2 rfl)).symm
      · exact Or.inr (Option.some.inj ((h d hd).1 rfl))
    · intro h d' hown
      split
      · rename_i hr
        rcases h hr with ⟨hd, hw⟩ | hkeep
        · constructor
          · intro he
            obtain rfl := Option.some.inj he
            exact absurd hd hown
          · intro he
            obtain rfl := Option.some.inj he
            exact absurd hw hown
        · rw [hkeep]
      · exact Iff.rfl

/-! ## Promotion -/

section Promotion

variable {p : Promotion}

theorem promotedRow_eq_iff {v e : Nat} {a : AttestationRow} :
    db.promotedRow spec p v e a = a ↔ PromotedAlready spec p db v e a := by
  obtain ⟨_, _, hfin, hknown⟩ := db.joinedRow_duty p v e a
  have hjoin : db.joinedRow p v e a = a ↔ ∀ r, db.stagedAttestationReward p v e = some r → db.completed v e = false →
      a.withRewards (some r.source) (some r.target) (some r.head) r.inactivity = a := by
    unfold Db.joinedRow
    cases db.stagedAttestationReward p v e with
    | none => simp
    | some r => cases db.completed v e <;> simp
  unfold PromotedAlready
  rw [← hjoin]
  unfold Db.promotedRow
  constructor
  · intro h
    have h1 := congrArg AttestationRow.inclusionKnown h
    have h2 := congrArg AttestationRow.finalized h
    dsimp only at h1 h2
    refine ⟨?_, fun hp => ?_⟩
    · calc db.joinedRow p v e a = { db.joinedRow p v e a with inclusionKnown := a.inclusionKnown, finalized := a.finalized } := by
            rw [← hknown, ← hfin]
        _ = a := by rw [h1, h2] at h; exact h
    · rcases hp with hp | hp
      · rw [← h1, ← h2]; simp [hp]
      · rw [← h1, ← h2]; simp [hp]
  · rintro ⟨hj, hp⟩
    have h1 : (a.inclusionKnown || db.inclusionProven p v a || db.windowProven spec p v e a) = a.inclusionKnown := by
      grind
    have h2 : (a.finalized || db.inclusionProven p v a || db.windowProven spec p v e a) = a.finalized := by grind
    rw [hj, h1, h2]

theorem promotedProposal_eq_iff {s : Nat} {d : ProposalRow} :
    db.promotedProposal spec p s d = d ↔ ProposalPromotedAlready spec p db s d := by
  unfold Db.promotedProposal ProposalPromotedAlready
  cases db.stagedProposalReward p s d.proposerIndex with
  | none => cases d; simp
  | some r =>
    cases d
    simp only [ProposalRow.mk.injEq, Option.some.injEq, forall_eq', true_and, Bool.or_eq_left_iff_imp]
    grind

theorem promotedSync_eq_iff {v s : Nat} {d : SyncRow} :
    db.promotedSync spec p v s d = d ↔ SyncPromotedAlready spec p db v s d := by
  unfold Db.promotedSync SyncPromotedAlready
  cases db.stagedSyncReward p v s with
  | none => cases d; simp
  | some r =>
    cases d
    simp only [SyncRow.mk.injEq, Option.some.injEq, forall_eq', true_and, Bool.or_eq_left_iff_imp, Option.some_or]
    grind

/-- The evidence statements leave a validator's readiness as it was if they leave its rows as they were. -/
theorem isReady_promoteEvidence {v e : Nat} {a : AttestationRow}
    (hprop : db.blockProposals.Agree (fun _ d => d.proposerIndex = v) (db.promoteEvidence spec p).blockProposals)
    (hsync : db.syncDuties.Agree (fun k _ => k.1 = v) (db.promoteEvidence spec p).syncDuties) :
    (db.promoteEvidence spec p).isReady spec p v e a = db.isReady spec p v e a := by
  have h1 := hprop.any_eq (q := fun s d => d.proposerIndex == v && Db.inEpoch spec e s && d.proposed
      && !(db.promoteEvidence spec p).proposalReady p v s d) fun s d h => by
    simp only [Bool.and_eq_true, beq_iff_eq] at h
    exact h.1.1.1
  have h2 := hsync.any_eq (q := fun k d => k.1 == v && Db.inEpoch spec e k.2 && !d.missedBlock
      && !(db.promoteEvidence spec p).syncReady p v k.2 d) fun k d h => by
    simp only [Bool.and_eq_true, beq_iff_eq] at h
    exact h.1.1.1
  unfold Db.isReady
  rw [← h1, ← h2]
  rfl

/-- A promotion completes open pairs only. -/
theorem readyPairs_open {v e : Nat} (h : (v, e) ∈ db.readyPairs spec p) : db.completed v e = false := by
  obtain ⟨a, _, hr⟩ := (Db.mem_ready spec _ p).1 h
  unfold Db.isReady at hr
  simp only [Bool.and_eq_true, Bool.not_eq_true'] at hr
  exact hr.2

/-- Where the evidence statements find nothing to do for a validator, they complete what was ready before. -/
theorem readyPairs_foreign
    (hatt : ∀ v e a, db.attestationDuties.get (v, e) = some a → own v ∨ PromotedAlready spec p db v e a)
    (hprop : ∀ s d, db.blockProposals.get s = some d → own d.proposerIndex ∨ ProposalPromotedAlready spec p db s d)
    (hsync : ∀ v s d, db.syncDuties.get (v, s) = some d → own v ∨ SyncPromotedAlready spec p db v s d)
    {k : Nat × Nat} (hk : ¬own k.1) : k ∈ db.readyPairs spec p ↔ k ∈ db.ready spec p := by
  obtain ⟨v, e⟩ := k
  have hproposals : db.blockProposals.Agree (fun _ d => d.proposerIndex = v) (db.promoteEvidence spec p).blockProposals := by
    refine (Table.agree_of_map ?_ (db.promoteEvidence_proposals spec p)).2 fun s d hd hv => ?_
    · intro s d
      rw [Db.promotedProposal_proposer]
    · subst hv
      exact promotedProposal_eq_iff.2 ((hprop s d hd).resolve_left hk)
  have hduties : db.syncDuties.Agree (fun k _ => k.1 = v) (db.promoteEvidence spec p).syncDuties := by
    refine (Table.agree_keys_of_map (db.promoteEvidence_sync spec p)).2 fun k d hd hv => ?_
    subst hv
    exact promotedSync_eq_iff.2 ((hsync k.1 k.2 d hd).resolve_left hk)
  unfold Db.readyPairs
  rw [Db.mem_ready, Db.mem_ready, Db.promoteEvidence_att]
  simp only [isReady_promoteEvidence hproposals hduties]
  cases ha : db.attestationDuties.get (v, e) with
  | none => simp
  | some a =>
    rw [Option.map_some, show db.promotedRow spec p v e a = a from
      promotedRow_eq_iff.2 ((hatt v e a ha).resolve_left hk)]

theorem readyPairs_contains (hready : ∀ k ∈ db.readyPairs spec p, own k.1) {k : Nat × Nat} (hk : ¬own k.1) :
    (db.readyPairs spec p).contains k = false := by
  rw [← Bool.not_eq_true, List.contains_iff_mem]
  exact fun hm => hk (hready k hm)

theorem incomplete_foreign (hready : ∀ k ∈ db.readyPairs spec p, own k.1) {k : Nat × Nat} (hk : ¬own k.1) :
    k ∈ ((db.promoteEvidence spec p).completeReady spec p).incomplete p ↔ k ∈ db.incomplete p := by
  obtain ⟨v, e⟩ := k
  have hc : ((db.promoteEvidence spec p).completeReady spec p).completed v e = db.completed v e := by
    have := db.promoteCollected_completed spec p v e
    rw [readyPairs_contains hready hk, Bool.or_false] at this
    exact this
  have ht : ((db.promoteEvidence spec p).completeReady spec p).liveTrackingStart = db.liveTrackingStart :=
    (db.promoteCollected_frame spec p).2.2.1
  have hact : activeIn ((db.promoteEvidence spec p).completeReady spec p).validators v e ↔ activeIn db.validators v e :=
    completePairs_active _ v e _
  simp only [Db.mem_incomplete, hc, ht]
  constructor
  · rintro ⟨started, row, h1, h2, h3, h4, h5, h6, h7⟩
    obtain ⟨row', hrow, hactive⟩ := hact.1 ⟨row, h2, h6⟩
    exact ⟨started, row', h1, hrow, h3, h4, h5, hactive, h7⟩
  · rintro ⟨started, row, h1, h2, h3, h4, h5, h6, h7⟩
    obtain ⟨row', hrow, hactive⟩ := hact.2 ⟨row, h2, h6⟩
    exact ⟨started, row', h1, hrow, h3, h4, h5, hactive, h7⟩

/-! What a promotion does to each table, where it completes pairs of `own` only. -/

theorem promoted_completed_iff :
    db.completedScans.Agree (fun k _ => ¬own k.1) (db.promoteCollected spec p).2.completedScans ↔
      ∀ k ∈ db.readyPairs spec p, own k.1 := by
  rw [Table.agree_unit]
  constructor
  · intro h k hk
    by_contra hown
    have hcomp := h k hown
    have hnew := db.promoteCollected_completed spec p k.1 k.2
    rw [List.contains_iff_mem.2 hk, Bool.or_true] at hnew
    have hopen := readyPairs_open hk
    unfold Db.completed at hnew hopen
    rw [hcomp, hopen] at hnew
    cases hnew
  · intro hready k hown
    have hnew := db.promoteCollected_completed spec p k.1 k.2
    rwa [readyPairs_contains hready hown, Bool.or_false] at hnew

section Ready

variable (hready : ∀ k ∈ db.readyPairs spec p, own k.1)
include hready

/-- No slot of a validator lies in a pair completed here. -/
theorem readyPairs_apart {v : Nat} (hown : ¬own v) (s : Nat) :
    ((db.readyPairs spec p).any fun k => v == k.1 && Db.inEpoch spec k.2 s) = false := by
  rw [List.any_eq_false]
  intro k hk hc
  simp only [Bool.and_eq_true, beq_iff_eq] at hc
  exact hown (hc.1 ▸ hready k hk)

theorem promoted_attestations_iff :
    db.attestationDuties.Agree (fun k _ => ¬own k.1) (db.promoteCollected spec p).2.attestationDuties ↔
      ∀ v e a, db.attestationDuties.get (v, e) = some a → own v ∨ PromotedAlready spec p db v e a := by
  rw [Table.agree_keys_of_map (db.promoteCollected_att spec p)]
  constructor
  · intro h v e a ha
    by_cases hown : own v
    · exact Or.inl hown
    · right
      have hrow := h (v, e) a ha hown
      rw [readyPairs_contains hready hown, Bool.or_false] at hrow
      exact promotedRow_eq_iff.1 hrow
  · intro h k a ha hown
    rw [readyPairs_contains hready hown, Bool.or_false]
    exact promotedRow_eq_iff.2 ((h k.1 k.2 a ha).resolve_left hown)

theorem promoted_proposals_iff :
    db.blockProposals.Agree (fun _ d => ¬own d.proposerIndex) (db.promoteCollected spec p).2.blockProposals ↔
      ∀ s d, db.blockProposals.get s = some d → own d.proposerIndex ∨ ProposalPromotedAlready spec p db s d := by
  have hproposer : ∀ s d, ¬own ({ db.promotedProposal spec p s d with
      finalized := (db.promotedProposal spec p s d).finalized || (db.readyPairs spec p).any fun k =>
        d.proposerIndex == k.1 && Db.inEpoch spec k.2 s } : ProposalRow).proposerIndex ↔ ¬own d.proposerIndex := by
    intro s d
    dsimp only
    rw [Db.promotedProposal_proposer]
  rw [Table.agree_of_map hproposer (db.promoteCollected_proposals spec p)]
  constructor
  · intro h s d hd
    by_cases hown : own d.proposerIndex
    · exact Or.inl hown
    · right
      have hrow := h s d hd hown
      rw [readyPairs_apart hready hown, Bool.or_false] at hrow
      exact promotedProposal_eq_iff.1 hrow
  · intro h s d hd hown
    rw [readyPairs_apart hready hown, Bool.or_false]
    exact promotedProposal_eq_iff.2 ((h s d hd).resolve_left hown)

theorem promoted_sync_iff :
    db.syncDuties.Agree (fun k _ => ¬own k.1) (db.promoteCollected spec p).2.syncDuties ↔
      ∀ v s d, db.syncDuties.get (v, s) = some d → own v ∨ SyncPromotedAlready spec p db v s d := by
  have hmap : ∀ k : Nat × Nat, _ := fun k => db.promoteCollected_sync spec p k.1 k.2
  rw [Table.agree_keys_of_map hmap]
  constructor
  · intro h v s d hd
    by_cases hown : own v
    · exact Or.inl hown
    · right
      have hrow := h (v, s) d hd hown
      rw [readyPairs_apart hready hown, Bool.or_false] at hrow
      exact promotedSync_eq_iff.1 hrow
  · intro h k d hd hown
    rw [readyPairs_apart hready hown, Bool.or_false]
    exact promotedSync_eq_iff.2 ((h k.1 k.2 d hd).resolve_left hown)

theorem promoted_gaps_iff :
    db.liveGaps.Agree (fun k _ => ¬own k.1) (db.promoteCollected spec p).2.liveGaps ↔
      ∀ k ∈ db.incomplete p, own k.1 ∨ db.liveGaps.get k = some "finalized live collection incomplete" := by
  rw [Table.agree_keys]
  constructor
  · intro h k hk
    by_cases hown : own k.1
    · exact Or.inl hown
    · right
      have hgap := h k hown
      rw [Db.promoteCollected_gaps, if_pos ((incomplete_foreign hready hown).2 hk)] at hgap
      exact hgap.symm
  · intro h k hown
    rw [Db.promoteCollected_gaps]
    split
    · rename_i hk
      exact ((h k ((incomplete_foreign hready hown).1 hk)).resolve_left hown).symm
    · rfl

end Ready

theorem kept_promoteCollected :
    ForeignKept own db (db.promoteCollected spec p).2 ↔ Confined spec own (.promoteCollected p) db := by
  obtain ⟨_, hcoverage, _, hjobs⟩ := db.promoteCollected_frame spec p
  constructor
  · intro h
    have hready := promoted_completed_iff.1 h.completed
    have hatt := (promoted_attestations_iff hready).1 h.attestations
    have hprop := (promoted_proposals_iff hready).1 h.proposals
    have hsync := (promoted_sync_iff hready).1 h.sync
    refine ⟨hatt, hprop, hsync, fun k hk => ?_, (promoted_gaps_iff hready).1 h.gaps⟩
    by_contra hown
    exact hown (hready k ((readyPairs_foreign hatt hprop hsync hown).2 hk))
  · rintro ⟨hatt, hprop, hsync, hready', hgaps⟩
    have hready : ∀ k ∈ db.readyPairs spec p, own k.1 := by
      intro k hk
      by_contra hown
      exact hown (hready' k ((readyPairs_foreign hatt hprop hsync hown).1 hk))
    exact {
      attestations := (promoted_attestations_iff hready).2 hatt
      sync := (promoted_sync_iff hready).2 hsync
      proposals := (promoted_proposals_iff hready).2 hprop
      coverage := by rw [hcoverage]; exact .refl _ _
      jobs := by rw [hjobs]; exact .refl _ _
      gaps := (promoted_gaps_iff hready).2 hgaps
      completed := promoted_completed_iff.2 hready }

end Promotion

/-! ## Every statement -/

/-- What a statement does to the rows of other validators, exactly. -/
theorem foreignKept_exec_iff {op : DbOp} (hn : op.Names own) :
    ForeignKept own db (op.exec spec now db) ↔ Confined spec own op db := by
  cases op with
  | registerTrackingStart vs e => exact kept_registerTrackingStart hn
  | invalidateFrom r => exact kept_invalidateFrom
  | completeJob job payload dep => exact kept_completeJob
  | failJob job error => exact kept_failJob
  | expireJobs e => exact kept_expireJobs
  | pruneCompletedEvidence e => exact kept_pruneCompletedEvidence
  | upsertAttestationDuty v e w => exact kept_upsertAttestationDuty
  | repairFinalizedInclusion v e d => exact kept_repairFinalizedInclusion
  | updateAttestationRewardsBatch rs => exact kept_updateAttestationRewardsBatch
  | upsertBlockProposal s w => exact kept_upsertBlockProposal
  | persistLiveSyncRewards s rs => exact kept_persistLiveSyncRewards
  | promoteCollected p => exact kept_promoteCollected
  | recordCoverage vs s =>
    refine iff_of_true ⟨.refl _ _, .refl _ _, .refl _ _, ?_, .refl _ _, .refl _ _, .refl _ _⟩ trivial
    refine Table.agree_insertAll.2 fun k hk hown => ?_
    obtain ⟨v, hv, rfl⟩ := List.mem_map.1 hk
    exact absurd (hn v hv) hown
  | enqueueJobs e slot c vs root =>
    refine iff_of_true ⟨.refl _ _, .refl _ _, .refl _ _, .refl _ _, ?_, .refl _ _, .refl _ _⟩ trivial
    refine Table.agree_insertAll.2 fun j hj hown => ?_
    obtain ⟨v, hv, rfl⟩ := List.mem_map.1 hj
    exact absurd (hn v hv) hown
  | markComplete vs e =>
    refine iff_of_true ⟨?_, .refl _ _, .refl _ _, .refl _ _, .refl _ _, ?_, ?_⟩ trivial
    · refine Table.agree_update.2 fun k a _ hown hk => ?_
      simp only [Bool.and_eq_true, List.contains_iff_mem] at hk
      exact absurd (hn k.1 hk.1) hown
    · refine Table.agree_deleteWhere.2 fun k reason _ hown => ?_
      rw [← Bool.not_eq_true]
      intro hk
      simp only [Bool.and_eq_true, List.contains_iff_mem] at hk
      exact hown (hn k.1 hk.1)
    · refine Table.agree_insertAll.2 fun k hk hown => ?_
      obtain ⟨v, hv, rfl⟩ := List.mem_map.1 hk
      exact absurd (hn v hv) hown
  | upsertSyncDuty v s w =>
    refine iff_of_true ⟨.refl _ _, ?_, .refl _ _, .refl _ _, .refl _ _, .refl _ _, .refl _ _⟩ trivial
    refine Table.agree_keys.2 fun k hown => ?_
    change (db.upsertSyncDuty spec v s w).syncDuties.get k = _
    rw [Db.upsertSyncDuty_get, if_neg]
    rintro rfl
    exact hown hn
  | recordBlock s r parent =>
    exact iff_of_true ⟨.refl _ _, .refl _ _, .refl _ _, .refl _ _, .refl _ _, .refl _ _, .refl _ _⟩ trivial
  | upsertValidator v a x =>
    exact iff_of_true ⟨.refl _ _, .refl _ _, .refl _ _, .refl _ _, .refl _ _, .refl _ _, .refl _ _⟩ trivial
  | _ => exact iff_of_true (.refl own db) trivial

/-! ## Runs of several instances -/

/-- The node answers sync duties for the validators it was asked about. -/
def Network.AnswersAsked (net : Network) : Prop :=
  ∀ w e vs r, net.answers w (.syncDuties e vs) (.ok r) → ∀ d ∈ r, d.validatorIndex ∈ vs

section Runs

variable {κ : Type} [DecidableEq κ] (spec) (net : Network) (cfg : κ → LiveConfig spec) (own : κ → Nat → Prop)

/-- Instances on one database, each configured with validators of its own. -/
abbrev instances : System indexer (κ × Role) net.View Memory (Db × net.Past) :=
  indexers spec net cfg fun i vs => ∀ v ∈ vs, own i v

/-- All workers stopped on a database. -/
def stoppedOn (s : Db × net.Past) : Configuration κ net := ⟨s, fun _ => .idle .stopped⟩

/-- Every statement names validators of its instance only. -/
def naming : (instances spec net cfg own).Discipline where
  rely _ _ _ := True
  guar i _ e _ := match e with
    | .db op => op.Names (own i.1)
    | .node _ => True
  post _ _ _ _ := True
  idle _ _ _ := True
  refl _ _ := trivial
  trans _ := fun _ _ => trivial

variable {spec net cfg own}

omit [DecidableEq κ] in
theorem naming_grants (hnet : net.AnswersAsked) (i : κ × Role) (w : net.View) {G : DbOp → Prop}
    (hG : ∀ op, G op → op.Names (own i.1)) : Grants ((naming spec net cfg own).contract i w) G (own i.1) where
  node _ _ := trivial
  db op _ hop := hG op hop
  active h := indexerSem_active h.1
  eligible h := indexerSem_eligible h.1
  sync h hv d hd := hv _ (hnet w _ _ _ h.1.1 d hd)

theorem names_of_reads {own : Nat → Prop} {op : DbOp} (h : op.reads = true) : op.Names own := by
  cases op <;> trivial

theorem names_of_liveIssue {own : Nat → Prop} {tracked : List Nat} (ht : ∀ v ∈ tracked, own v) {op : DbOp}
    (h : LiveIssue spec tracked own op) : op.Names own := by
  cases h with
  | read hr => exact names_of_reads hr
  | registerTrackingStart => exact ht
  | recordCoverage => exact ht
  | enqueueJobs hv _ => exact hv
  | upsertSyncDuty hv _ => exact hv
  | _ => trivial

theorem names_of_scanIssue {own : Nat → Prop} {validators : List Nat} {epoch : Nat} (hv : ∀ v ∈ validators, own v)
    {op : DbOp} (h : ScanIssue validators epoch own op) : op.Names own := by
  cases h with
  | upsertSyncDuty hm => exact hv _ hm
  | markComplete => exact hv
  | _ => trivial

omit [DecidableEq κ] in
theorem begins_naming (hnet : net.AnswersAsked) {i : κ × Role} {w : net.View} {m : Memory} {p : Prog indexer Memory}
    (hb : Begins spec (cfg i.1) (fun vs => ∀ v ∈ vs, own i.1 v) i.2 m p) (s : Db × net.Past) :
    ((naming spec net cfg own).contract i w).Safe p (fun _ _ => True) s := by
  obtain ⟨inst, role⟩ := i
  cases hb with
  | @boot tracked _ =>
    have h : Grants ((naming spec net cfg own).contract (inst, .live) w) (fun op => op.reads = true) (own inst) :=
      naming_grants hnet _ w fun op hop => names_of_reads hop
    have hread : DbOp.reads (.processedTip tracked) = true := rfl
    exact (h.statement hread s).seal fun r _ _ => by cases r <;> exact fun _ _ => trivial
  | @pass tracked last cursor ht =>
    have h : Grants ((naming spec net cfg own).contract (inst, .live) w) (LiveIssue spec tracked (own inst)) (own inst) :=
      naming_grants hnet _ w fun op hop => names_of_liveIssue ht hop
    have hany : Grants ((naming spec net cfg own).contract (inst, .live) w) (DbOp.Names (own inst)) (own inst) :=
      naming_grants hnet _ w fun op hop => hop
    exact (h.reconcilePass spec ht (fun _ h => h) (fun checkpoint resolved => hany.finalizeCollectedEvidence spec
      (fun _ hr => names_of_reads hr) (fun _ _ _ _ => trivial) (fun _ _ _ => trivial) (fun _ => trivial) _ _)
      (cfg inst) cursor s).seal fun r _ _ _ _ => trivial
  | @scan n _ epoch validators mode hv =>
    have h : Grants ((naming spec net cfg own).contract (inst, .archive n) w) (ScanIssue validators epoch (own inst))
        (own inst) := naming_grants hnet _ w fun op hop => names_of_scanIssue hv hop
    exact (h.scanEpoch spec (fun _ h => h) mode s).seal fun r _ _ _ _ => trivial
  | @refresh _ v a x =>
    have h : Grants ((naming spec net cfg own).contract (inst, .metadata) w) (fun op => op = .upsertValidator v a x)
        (own inst) := naming_grants hnet _ w fun op hop => by subst hop; trivial
    exact (h.statement rfl s).seal fun r _ _ _ _ => trivial

omit [DecidableEq κ] in
theorem naming_sound (hnet : net.AnswersAsked) :
    (instances spec net cfg own).Sound (naming spec net cfg own) fun _ => True where
  begins _ _ hb := ⟨trivial, begins_naming hnet hb.1 _, fun _ _ => trivial⟩
  acts _ _ _ := ⟨trivial, fun _ _ => trivial⟩
  finish _ _ := trivial
  restart _ _ := trivial
  idle _ _ := trivial

/-- In every run of several instances, from any database, a statement of one instance leaves the
rows of all other validators alone exactly if it is confined. -/
theorem instances_apart_iff (hnet : net.AnswersAsked) {s : Db × net.Past} {c : Configuration κ net}
    (hr : (instances spec net cfg own).Reach (stoppedOn net s) c) {i : κ × Role} {w : net.View} {op : DbOp}
    {k : Except Error op.Answer → Prog indexer Memory} (hp : c.proc i = .running w (.call (.db op) k)) {r : op.Answer}
    {s' : Db × net.Past} (hs : (instances spec net cfg own).sem i w (.db op) c.state (.ok r) s') :
    ForeignKept (own i.1) c.state.1 s'.1 ↔ Confined spec (own i.1) op c.state.1 := by
  obtain ⟨_, hproc⟩ := (naming_sound hnet).reach hr ⟨trivial, fun _ => trivial⟩
  have hi := hproc i
  rw [hp] at hi
  obtain ⟨hnames, _⟩ := hi c.state trivial
  obtain ⟨hsem, _⟩ := hs
  rcases hsem with ⟨now, _, hdb⟩ | ⟨m, hm, _⟩
  · rw [hdb]
    exact foreignKept_exec_iff hnames
  · cases hm

end Runs

/-! ## A rollback that erases another instance's evidence -/

/-- Two instances: one tracks validator 7, the other validator 8. -/
def sevenAndEight (i : Bool) (v : Nat) : Prop := v = if i then 7 else 8

/-- Any view of the fork may follow any other. -/
abbrev anyFork (_ : Unit) (_ : View forkAtOne) (_ : Unit) : Prop := True

abbrev forkNetwork : Network := forkAtOne.network Unit anyFork

abbrev twoInstances : System indexer (Bool × Role) (View forkAtOne) Memory (Db × Unit) :=
  instances eightSlots forkNetwork (fun _ => lagTwo) sevenAndEight

def turnFor (v : Nat) (V : View forkAtOne) : Turn forkAtOne Unit := ⟨[v], V, fun _ => true, ()⟩

theorem forkNetwork_answersAsked : forkNetwork.AnswersAsked := by
  intro V e vs r h d hd
  exact (h d hd).1

theorem twoInstances_sem (i : Bool × Role) (t : Turn forkAtOne Unit) (e : Effect) (s : Db × Unit) :
    twoInstances.sem i t.view e s (t.handler e s).1 (t.handler e s).2 := by
  cases e with
  | node q => exact ⟨⟨t.view.serve_coherent t.available q, rfl⟩, rfl⟩
  | db op => exact ⟨Or.inl ⟨0, rfl, rfl⟩, rfl⟩

theorem twoInstances_begins {i : Bool} {v : Nat} (hv : sevenAndEight i v) (V : View forkAtOne) (m : Memory)
    (hm : (turnFor v V).memory m = m) (s : Db × Unit) :
    twoInstances.begins (i, .live) ((turnFor v V).memory m) s V ((turnFor v V).program lagTwo ((turnFor v V).memory m))
      (s.1, ()) := by
  have hown : ∀ x ∈ [v], sevenAndEight i x := fun x hx => by rw [List.mem_singleton.1 hx]; exact hv
  rw [hm]
  refine ⟨?_, trivial, rfl⟩
  cases m with
  | stopped => exact .boot hown
  | live tracked last cursor =>
    have htracked : tracked = [v] := by
      by_contra hne
      simp [Turn.memory, turnFor, hne] at hm
    exact .pass fun x hx => hown x (htracked ▸ hx)

/-- The program is about to roll back to a slot. -/
def rollsBackTo (p : Prog indexer Memory) (slot : Nat) : Bool :=
  match p.next? with
  | some (.db (.invalidateFrom s)) => s == slot
  | _ => false

theorem rollsBackTo_call {p : Prog indexer Memory} {slot : Nat} (h : rollsBackTo p slot = true) :
    ∃ k, p = .call (.db (.invalidateFrom slot)) k := by
  unfold rollsBackTo at h
  split at h
  · rename_i s hs
    obtain rfl : s = slot := by simpa using h
    exact Prog.next?_eq_some hs
  · cases h

/-- The first instance collects on the chain of slots 0, 1, 2 and 5; the second one starts after the
chain was replaced and waits at its first rollback. -/
theorem reach_rollback : ∃ (c : Configuration Bool forkNetwork)
    (k : Except Error Unit → Prog indexer Memory), twoInstances.Reach (stoppedOn forkNetwork (.registered [7, 8], ())) c ∧
    c.proc (true, .live) = .running skipView (.call (.db (.invalidateFrom 0)) k) ∧ c.state.1.covered 8 2 = true := by
  have hplay : ((turnFor 8 filledView).play anyFork lagTwo (fun _ _ => true) 10 (.stopped, (.registered [7, 8], ()))).any (fun x1 =>
      x1.1 == .live [8] none none &&
      ((turnFor 8 filledView).play anyFork lagTwo (fun _ _ => true) 200 x1).any fun x2 =>
      ((turnFor 7 skipView).play anyFork lagTwo (fun _ _ => true) 10 (.stopped, x2.2)).any fun x3 =>
      x3.1 == .live [7] none none &&
      ((turnFor 7 skipView).proceed anyFork lagTwo (fun _ _ => true) 6 x3).any fun y =>
      y.2.1.covered 8 2 && rollsBackTo y.1 0) = true := by decide +kernel
  obtain ⟨x1, h1, hcheck⟩ := (Option.any_eq_true _ _).1 hplay
  rw [Bool.and_eq_true, beq_iff_eq] at hcheck
  obtain ⟨hm1, hcheck⟩ := hcheck
  obtain ⟨x2, h2, hcheck⟩ := (Option.any_eq_true _ _).1 hcheck
  obtain ⟨x3, h3, hcheck⟩ := (Option.any_eq_true _ _).1 hcheck
  rw [Bool.and_eq_true, beq_iff_eq] at hcheck
  obtain ⟨hm3, hcheck⟩ := hcheck
  obtain ⟨⟨p, s⟩, h4, hcheck⟩ := (Option.any_eq_true _ _).1 hcheck
  rw [Bool.and_eq_true] at hcheck
  obtain ⟨hcov, hnext⟩ := hcheck
  have hkeep : ∀ v V, (turnFor v V).memory (.live [v] none none) = .live [v] none none := by
    intro v V
    simp [Turn.memory, turnFor]
  let c0 : Configuration Bool forkNetwork := stoppedOn forkNetwork (.registered [7, 8], ())
  let c1 := c0.set (false, .live) (.idle x1.1) x1.2
  let c2 := c1.set (false, .live) (.idle x2.1) x2.2
  let c3 := c2.set (true, .live) (.idle x3.1) x3.2
  have r1 : twoInstances.Reach c0 c1 :=
    Turn.reach_ended (fun e s _ => twoInstances_sem _ (turnFor 8 filledView) e s)
      (fun _ => twoInstances_begins rfl _ _ rfl _) rfl rfl h1
  have r2 : twoInstances.Reach c1 c2 := by
    refine Turn.reach_ended (fun e s _ => twoInstances_sem _ (turnFor 8 filledView) e s)
      (fun _ => twoInstances_begins rfl _ _ ?_ _) ?_ rfl h2
    · rw [hm1]; exact hkeep 8 _
    · have hidle : c1.proc (false, .live) = .idle x1.1 := Config.set_proc ..
      rw [hidle, hm1, hkeep 8 filledView]
      rfl
  have r3 : twoInstances.Reach c2 c3 :=
    Turn.reach_ended (x := (.stopped, x2.2)) (fun e s _ => twoInstances_sem _ (turnFor 7 skipView) e s)
      (fun _ => twoInstances_begins rfl _ _ rfl _) rfl rfl h3
  have r4 : twoInstances.Reach c3 (c3.set (true, .live) (.running skipView p) s) := by
    refine Turn.reach_begun (fun e s _ => twoInstances_sem _ (turnFor 7 skipView) e s)
      (fun _ => twoInstances_begins rfl _ _ ?_ _) ?_ rfl h4
    · rw [hm3]; exact hkeep 7 _
    · have hidle : c3.proc (true, .live) = .idle x3.1 := Config.set_proc ..
      rw [hidle, hm3, hkeep 7 skipView]
      rfl
  obtain ⟨k, rfl⟩ := rollsBackTo_call hnext
  exact ⟨_, k, ((r1.trans r2).trans r3).trans r4, Config.set_proc .., hcov⟩

theorem rollback_sem {c : Configuration Bool forkNetwork} :
    twoInstances.sem (true, .live) skipView (.db (.invalidateFrom 0)) c.state (.ok ())
      (c.state.1.invalidateFrom eightSlots 0, c.state.2) :=
  ⟨Or.inl ⟨0, rfl, rfl⟩, rfl⟩

theorem instances_apart_iff_rollback : ∃ (c : Configuration Bool forkNetwork) (k : Except Error Unit → Prog indexer Memory),
    twoInstances.Reach (stoppedOn forkNetwork (.registered [7, 8], ())) c ∧
    c.proc (true, .live) = .running skipView (.call (.db (.invalidateFrom 0)) k) ∧
    ¬Confined eightSlots (sevenAndEight true) (.invalidateFrom 0) c.state.1 ∧
    ¬ForeignKept (sevenAndEight true) c.state.1 (c.state.1.invalidateFrom eightSlots 0) := by
  obtain ⟨c, k, hr, hp, hcov⟩ := reach_rollback
  have hconf : ¬Confined eightSlots (sevenAndEight true) (.invalidateFrom 0) c.state.1 := by
    intro h
    have height : sevenAndEight true 8 := h.1 8 2 hcov (Nat.zero_le 2)
    simp [sevenAndEight] at height
  exact ⟨c, k, hr, hp, hconf, fun hkept =>
    hconf ((instances_apart_iff forkNetwork_answersAsked hr hp rollback_sem).1 hkept)⟩

/-- The second instance's rollback deletes the coverage of validator 8, which only the first one tracks. -/
theorem rollback_erases_other : (∀ v, ¬(sevenAndEight true v ∧ sevenAndEight false v)) ∧
    ∃ (c : Configuration Bool forkNetwork) (k : Except Error Unit → Prog indexer Memory) (s' : Db × Unit),
      twoInstances.Reach (stoppedOn forkNetwork (.registered [7, 8], ())) c ∧
      c.proc (true, .live) = .running skipView (.call (.db (.invalidateFrom 0)) k) ∧
      twoInstances.sem (true, .live) skipView (.db (.invalidateFrom 0)) c.state (.ok ()) s' ∧
      ¬sevenAndEight true 8 ∧ c.state.1.covered 8 2 = true ∧ s'.1.covered 8 2 = false := by
  refine ⟨fun v => ?_, ?_⟩
  · simp only [sevenAndEight, if_true, Bool.false_eq_true, if_false]
    omega
  · obtain ⟨c, k, hr, hp, hcov⟩ := reach_rollback
    refine ⟨c, k, _, hr, hp, rollback_sem, by simp [sevenAndEight], hcov, ?_⟩
    rw [← Bool.not_eq_true, Db.invalidateFrom_covered]
    omega

end BeaconIndexer
