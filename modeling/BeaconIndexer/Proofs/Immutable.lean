/-
Completed data is immutable: whatever the archive and the live worker write, in any order, the
rows of a completed (validator, epoch) keep their data, and a finalized row never becomes
provisional again.

The guards of the single statements do not give this by themselves: a completed row with missing
details may be rewritten, and a provisional row of a completed epoch may be deleted. The invariant
is that every completed pair has a finalized attestation row without missing details, which holds
when a scan marks a pair complete only after writing its finalized row.
-/
import BeaconIndexer.Db.Rows

namespace BeaconIndexer

open Relational

variable {spec : ChainSpec}

/-- The attestation row a successful finalized scan leaves for a pair. -/
def Db.FinalRow (db : Db) (v e : Nat) : Prop :=
  ∃ a, db.attestationDuties.get (v, e) = some a ∧ a.finalized = true ∧ (a.included = true → a.lacksDetails = false)

/-- How the two workers issue the statements whose arguments matter here: a pair is marked
complete after its finalized row was written, and a slot's reward job carries the slot's epoch. -/
def Issued (spec : ChainSpec) : DbOp → Db → Prop
  | .markComplete vs e, db => ∀ v ∈ vs, db.FinalRow v e
  | .enqueueJobs e slot _ _ _, _ => ∀ s, slot = some s → e = spec.slotToEpoch s
  | _, _ => True

/-- The rows of completed pairs, and the finalized flags, of an earlier database are kept by a
later one. -/
structure Kept (spec : ChainSpec) (db db' : Db) : Prop where
  att : ∀ v e a, db.completed v e = true → db.attestationDuties.get (v, e) = some a →
    ∃ a', db'.attestationDuties.get (v, e) = some a' ∧ a'.data = a.data
  proposal : ∀ s d, db.completed d.proposerIndex (spec.slotToEpoch s) = true → db.blockProposals.get s = some d →
    d.finalized = true → ∃ d', db'.blockProposals.get s = some d' ∧ d'.data = d.data
  sync : ∀ v s d, db.completed v (spec.slotToEpoch s) = true → db.syncDuties.get (v, s) = some d →
    d.finalized = true → ∃ d', db'.syncDuties.get (v, s) = some d' ∧ d'.data = d.data
  attFinal : ∀ k a, db.attestationDuties.get k = some a → a.finalized = true →
    ∃ a', db'.attestationDuties.get k = some a' ∧ a'.finalized = true
  proposalFinal : ∀ s d, db.blockProposals.get s = some d → d.finalized = true →
    ∃ d', db'.blockProposals.get s = some d' ∧ d'.finalized = true
  syncFinal : ∀ k d, db.syncDuties.get k = some d → d.finalized = true →
    ∃ d', db'.syncDuties.get k = some d' ∧ d'.finalized = true

/-- Completed data is immutable along every run of statements issued under `ok`. -/
def CompletedImmutable (spec : ChainSpec) (ok : DbOp → Db → Prop) : Prop :=
  ∀ db db', Run spec ok Db.empty db → Run spec ok db db' → Kept spec db db'

/-! ## The invariant -/

/-- The attestation row of a completed pair. -/
structure FrozenRow (a : AttestationRow) : Prop where
  finalized : a.finalized = true
  known : a.inclusionKnown = true
  details : a.included = true → a.lacksDetails = false

structure CompleteInv (spec : ChainSpec) (db : Db) : Prop where
  rows : ∀ v e, db.completed v e = true → ∃ a, db.attestationDuties.get (v, e) = some a ∧ FrozenRow a
  jobs : ∀ j row s, db.liveJobs.get j = some row → j.slot = some s → j.epoch = spec.slotToEpoch s

/-! ## One statement on the attestation row of a pair -/

theorem FrozenRow.not_replaced {a : AttestationRow} (ha : FrozenRow a) (w : AttestationWrite) :
    w.replaces true a = false := by
  simp [AttestationWrite.replaces, ha.finalized]

theorem FrozenRow.not_repairable {a : AttestationRow} (ha : FrozenRow a) (d : InclusionDetails) :
    a.repairable true d = false := by
  unfold AttestationRow.repairable
  cases hi : a.included with
  | false => simp
  | true => simp [ha.details hi]

theorem FrozenRow.promoted {db : Db} {p : Promotion} {v e : Nat} {a : AttestationRow} (ha : FrozenRow a)
    (hc : db.completed v e = true) : db.promotedRow spec p v e a = a := by
  have hj : db.joinedRow p v e a = a := by
    unfold Db.joinedRow
    split
    · rw [if_pos hc]
    · rfl
  unfold Db.promotedRow
  rw [hj, ha.finalized, ha.known]
  obtain ⟨h1, h2, _⟩ := ha
  cases a
  simp_all

/-- No statement changes a frozen row of a completed pair. -/
theorem exec_frozen {now : Nat} {op : DbOp} {db : Db} {v e : Nat} {a : AttestationRow}
    (hc : db.completed v e = true) (h : db.attestationDuties.get (v, e) = some a) (ha : FrozenRow a) :
    (op.exec spec now db).attestationDuties.get (v, e) = some a := by
  have hchange : DutyChange spec op db v e _ _ := dutyChange now op db v e
  rw [h] at hchange
  generalize (op.exec spec now db).attestationDuties.get (v, e) = after at hchange
  cases hchange with
  | kept => rfl
  | replaced old issued hr =>
    rw [hc, ha.not_replaced] at hr
    cases hr
  | repaired old issued hr =>
    rw [hc, ha.not_repairable] at hr
    cases hr
  | rewarded old r issued hp =>
    rw [ha.finalized] at hp
    cases hp
  | marked old issued mem => rw [← ha.known]
  | promoted old issued => rw [ha.promoted hc, ha.finalized, Bool.true_or, ← ha.finalized]
  | invalidated old issued replayed hp =>
    rw [ha.finalized] at hp
    cases hp

/-! ## One statement on proposal and sync rows -/

theorem stagedProposalReward_none {db : Db} {p : Promotion} {s o : Nat} (hi : CompleteInv spec db)
    (hc : db.completed o (spec.slotToEpoch s) = true) : db.stagedProposalReward p s o = none := by
  unfold Db.stagedProposalReward
  rw [List.findSome?_eq_none_iff]
  rintro ⟨j, row⟩ hmem
  rw [Table.mem_rows] at hmem
  dsimp only
  split
  · rename_i hcond
    simp only [Bool.and_eq_true, beq_iff_eq, Bool.not_eq_true'] at hcond
    obtain ⟨⟨⟨_, hs⟩, _⟩, hn⟩ := hcond
    rw [hi.jobs j row s hmem hs, hc] at hn
    cases hn
  · rfl

theorem stagedSyncReward_none {db : Db} {p : Promotion} {v s : Nat} (hi : CompleteInv spec db)
    (hc : db.completed v (spec.slotToEpoch s) = true) : db.stagedSyncReward p v s = none := by
  unfold Db.stagedSyncReward
  rw [List.findSome?_eq_none_iff]
  rintro ⟨j, row⟩ hmem
  rw [Table.mem_rows] at hmem
  dsimp only
  split
  · rename_i hcond
    simp only [Bool.and_eq_true, beq_iff_eq, Bool.not_eq_true'] at hcond
    obtain ⟨⟨⟨_, hs⟩, _⟩, hn⟩ := hcond
    rw [hi.jobs j row s hmem hs, hc] at hn
    cases hn
  · rfl

/-- No statement changes a finalized proposal of a completed pair. -/
theorem exec_frozen_proposal {now : Nat} {op : DbOp} {db : Db} {s : Nat} {d : ProposalRow}
    (hi : CompleteInv spec db) (hc : db.completed d.proposerIndex (spec.slotToEpoch s) = true)
    (h : db.blockProposals.get s = some d) (hf : d.finalized = true) :
    (op.exec spec now db).blockProposals.get s = some d := by
  by_cases hw : op.writesProposals = true
  · cases op with
    | upsertBlockProposal s' w =>
      change (db.upsertBlockProposal spec s' w).blockProposals.get s = some d
      rw [Db.upsertBlockProposal_get]
      by_cases hs : s = s'
      · subst hs; simp [h, Db.upsertedProposal, hf, hc]
      · rw [if_neg hs, h]
    | promoteCollected p =>
      change (db.promoteCollected spec p).2.blockProposals.get s = some d
      rw [Db.promoteCollected_proposals, h, Option.map_some]
      have : db.promotedProposal spec p s d = d := by
        unfold Db.promotedProposal
        rw [stagedProposalReward_none hi hc]
        simp only [hf, Bool.true_or]
        rw [← hf]
      rw [this, hf, Bool.true_or, ← hf]
    | invalidateFrom r =>
      change (db.invalidateFrom spec r).blockProposals.get s = some d
      simp [Db.invalidateFrom, h, hf, Option.filter]
    | _ => cases hw
  · rw [DbOp.exec_proposals (by simpa using hw), h]

/-- No statement changes a finalized sync duty of a completed pair. -/
theorem exec_frozen_sync {now : Nat} {op : DbOp} {db : Db} {v s : Nat} {d : SyncRow}
    (hi : CompleteInv spec db) (hc : db.completed v (spec.slotToEpoch s) = true)
    (h : db.syncDuties.get (v, s) = some d) (hf : d.finalized = true) :
    (op.exec spec now db).syncDuties.get (v, s) = some d := by
  by_cases hw : op.writesSync = true
  · cases op with
    | upsertSyncDuty v' s' w =>
      change (db.upsertSyncDuty spec v' s' w).syncDuties.get (v, s) = some d
      rw [Db.upsertSyncDuty_get]
      by_cases hk : (v, s) = (v', s')
      · obtain ⟨rfl, rfl⟩ := Prod.mk.inj hk
        simp [h, Db.upsertedSync, hf, hc]
      · rw [if_neg hk, h]
    | persistLiveSyncRewards s' rewards =>
      change (db.persistLiveSyncRewards s' rewards).syncDuties.get (v, s) = some d
      simp only [Db.persistLiveSyncRewards, Table.get_modify, h, Option.bind_some, Option.some.injEq]
      split
      · simp [hf]
      · rfl
    | promoteCollected p =>
      change (db.promoteCollected spec p).2.syncDuties.get (v, s) = some d
      rw [Db.promoteCollected_sync, h, Option.map_some]
      have : db.promotedSync spec p v s d = d := by
        unfold Db.promotedSync
        rw [stagedSyncReward_none hi hc, Option.none_or]
        simp only [hf, Bool.true_or]
        rw [← hf]
      rw [this, hf, Bool.true_or, ← hf]
    | invalidateFrom r =>
      change (db.invalidateFrom spec r).syncDuties.get (v, s) = some d
      simp [Db.invalidateFrom, h, hf, Option.filter]
    | _ => cases hw
  · rw [DbOp.exec_sync (by simpa using hw), h]

/-! ## Finalized flags -/

theorem exec_att_final {now : Nat} {op : DbOp} {db : Db} {k : Nat × Nat} {a : AttestationRow}
    (h : db.attestationDuties.get k = some a) (hf : a.finalized = true) :
    ∃ a', (op.exec spec now db).attestationDuties.get k = some a' ∧ a'.finalized = true := by
  obtain ⟨v, e⟩ := k
  have hchange : DutyChange spec op db v e _ _ := dutyChange now op db v e
  rw [h] at hchange
  generalize (op.exec spec now db).attestationDuties.get (v, e) = after at hchange
  cases hchange with
  | kept => exact ⟨a, rfl, hf⟩
  | replaced old issued hr =>
    -- only a final write replaces a final row
    simp only [AttestationWrite.replaces, hf, Bool.not_true, Bool.false_and, Bool.false_or, Bool.and_eq_true] at hr
    exact ⟨_, rfl, hr.1⟩
  | repaired old issued hr => exact ⟨_, rfl, hf⟩
  | rewarded old r issued hp => exact ⟨_, rfl, hf⟩
  | marked old issued mem => exact ⟨_, rfl, hf⟩
  | promoted old issued => exact ⟨_, rfl, by simp [Db.promotedRow, hf]⟩
  | invalidated old issued replayed hp =>
    rw [hf] at hp
    cases hp

theorem exec_proposal_final {now : Nat} {op : DbOp} {db : Db} {s : Nat} {d : ProposalRow}
    (h : db.blockProposals.get s = some d) (hf : d.finalized = true) :
    ∃ d', (op.exec spec now db).blockProposals.get s = some d' ∧ d'.finalized = true := by
  by_cases hw : op.writesProposals = true
  · cases op with
    | upsertBlockProposal s' w =>
      change ∃ d', (db.upsertBlockProposal spec s' w).blockProposals.get s = some d' ∧ d'.finalized = true
      rw [Db.upsertBlockProposal_get]
      by_cases hs : s = s'
      · subst hs
        rw [if_pos rfl, h]
        refine ⟨_, rfl, ?_⟩
        simp only [Db.upsertedProposal, hf, Bool.not_true, Bool.false_or]
        split
        · rename_i hr; exact (Bool.and_eq_true _ _ ▸ hr).1
        · exact hf
      · rw [if_neg hs]; exact ⟨d, h, hf⟩
    | promoteCollected p =>
      change ∃ d', (db.promoteCollected spec p).2.blockProposals.get s = some d' ∧ d'.finalized = true
      rw [Db.promoteCollected_proposals, h]
      exact ⟨_, rfl, by simp [Db.promotedProposal, hf]⟩
    | invalidateFrom r =>
      refine ⟨d, ?_, hf⟩
      change (db.invalidateFrom spec r).blockProposals.get s = some d
      simp [Db.invalidateFrom, h, hf, Option.filter]
    | _ => cases hw
  · exact ⟨d, by rw [DbOp.exec_proposals (by simpa using hw), h], hf⟩

theorem exec_sync_final {now : Nat} {op : DbOp} {db : Db} {k : Nat × Nat} {d : SyncRow}
    (h : db.syncDuties.get k = some d) (hf : d.finalized = true) :
    ∃ d', (op.exec spec now db).syncDuties.get k = some d' ∧ d'.finalized = true := by
  by_cases hw : op.writesSync = true
  · cases op with
    | upsertSyncDuty v s w =>
      change ∃ d', (db.upsertSyncDuty spec v s w).syncDuties.get k = some d' ∧ d'.finalized = true
      rw [Db.upsertSyncDuty_get]
      by_cases hk : k = (v, s)
      · rw [if_pos hk, h]
        refine ⟨_, rfl, ?_⟩
        simp only [Db.upsertedSync, hf, Bool.not_true, Bool.false_or]
        split
        · rename_i hr; exact (Bool.and_eq_true _ _ ▸ hr).1
        · exact hf
      · rw [if_neg hk]; exact ⟨d, h, hf⟩
    | persistLiveSyncRewards s rewards =>
      change ∃ d', (db.persistLiveSyncRewards s rewards).syncDuties.get k = some d' ∧ d'.finalized = true
      simp only [Db.persistLiveSyncRewards, Table.get_modify, h, Option.bind_some, Option.some.injEq,
        exists_eq_left']
      split
      · split <;> exact hf
      · exact hf
    | promoteCollected p =>
      change ∃ d', (db.promoteCollected spec p).2.syncDuties.get k = some d' ∧ d'.finalized = true
      obtain ⟨v, s⟩ := k
      rw [Db.promoteCollected_sync, h]
      exact ⟨_, rfl, by simp [Db.promotedSync, hf]⟩
    | invalidateFrom r =>
      refine ⟨d, ?_, hf⟩
      change (db.invalidateFrom spec r).syncDuties.get k = some d
      simp [Db.invalidateFrom, h, hf, Option.filter]
    | _ => cases hw
  · exact ⟨d, by rw [DbOp.exec_sync (by simpa using hw), h], hf⟩

/-! ## The invariant is kept -/

theorem isReady_row {db : Db} {p : Promotion} {v e : Nat} {a : AttestationRow} (h : db.isReady spec p v e a = true) :
    a.inclusionKnown = true ∧ (a.included = true → a.lacksDetails = false) := by
  simp only [Db.isReady, Bool.and_eq_true, Bool.or_eq_true, Bool.not_eq_true'] at h
  obtain ⟨⟨⟨⟨⟨⟨⟨⟨⟨⟨⟨_, hk⟩, hd⟩, _⟩, _⟩, _⟩, _⟩, _⟩, _⟩, _⟩, _⟩, _⟩ := h
  refine ⟨hk, fun hi => ?_⟩
  rcases hd with hd | hd
  · rw [hi] at hd; cases hd
  · exact hd

theorem exec_completed_rows {now : Nat} {op : DbOp} {db : Db} (hi : CompleteInv spec db) (ho : Issued spec op db)
    {v e : Nat} (hc : (op.exec spec now db).completed v e = true) :
    ∃ a, (op.exec spec now db).attestationDuties.get (v, e) = some a ∧ FrozenRow a := by
  by_cases hold : db.completed v e = true
  · obtain ⟨a, ha, hf⟩ := hi.rows v e hold
    exact ⟨a, exec_frozen hold ha hf, hf⟩
  · simp only [Bool.not_eq_true] at hold
    -- the pair is completed by this very statement
    by_cases hw : op.completes = true
    · cases op with
      | markComplete vs epoch =>
        change (db.markComplete vs epoch).completed v e = true at hc
        change ∃ a, (db.markComplete vs epoch).attestationDuties.get (v, e) = some a ∧ FrozenRow a
        rw [Db.markComplete_completed, hold, Bool.false_or] at hc
        have hv : v ∈ vs ∧ e = epoch := by simpa using hc
        obtain ⟨rfl⟩ := hv.2
        obtain ⟨a, ha, hf, hd⟩ := ho v hv.1
        rw [Db.markComplete_att, ha, Option.map_some, if_pos hc]
        exact ⟨_, rfl, hf, rfl, hd⟩
      | promoteCollected p =>
        change (db.promoteCollected spec p).2.completed v e = true at hc
        change ∃ a, (db.promoteCollected spec p).2.attestationDuties.get (v, e) = some a ∧ FrozenRow a
        rw [Db.promoteCollected_completed, hold, Bool.false_or] at hc
        obtain ⟨b, hb, hr⟩ := (Db.mem_ready spec _ p).1 (List.contains_iff_mem.1 hc)
        rw [Db.promoteEvidence_att] at hb
        obtain ⟨a, ha, rfl⟩ := Option.map_eq_some_iff.1 hb
        obtain ⟨hk, hd⟩ := isReady_row hr
        rw [Db.promoteCollected_att, ha, Option.map_some]
        exact ⟨_, rfl, (Bool.or_eq_true _ _).mpr (Or.inr hc), hk, hd⟩
      | _ => cases hw
    · have : (op.exec spec now db).completed v e = db.completed v e := by
        unfold Db.completed; rw [DbOp.exec_completed (by simpa using hw)]
      rw [this, hold] at hc
      cases hc

theorem exec_jobs_aligned {now : Nat} {op : DbOp} {db : Db} (hi : CompleteInv spec db) (ho : Issued spec op db)
    {j : JobKey} {row : JobRow} {s : Nat} (h : (op.exec spec now db).liveJobs.get j = some row)
    (hs : j.slot = some s) : j.epoch = spec.slotToEpoch s := by
  rcases DbOp.exec_jobs_cases h with ⟨row', hr, _⟩ | ⟨vs, r, rfl, _⟩ | ⟨job, payload, dep, row', rfl, hr, _⟩
  · exact hi.jobs j row' s hr hs
  · exact ho s hs
  · exact hi.jobs j row' s hr hs

theorem CompleteInv.exec {now : Nat} {op : DbOp} {db : Db} (hi : CompleteInv spec db) (ho : Issued spec op db) :
    CompleteInv spec (op.exec spec now db) :=
  ⟨fun _ _ hc => exec_completed_rows hi ho hc, fun _ _ _ h hs => exec_jobs_aligned hi ho h hs⟩

theorem CompleteInv.empty : CompleteInv spec Db.empty :=
  ⟨fun v e h => by simp [Db.completed, Db.empty, Table.has] at h,
    fun j row s h => by simp [Db.empty] at h⟩

theorem CompleteInv.run {db db' : Db} (hi : CompleteInv spec db) (h : Run spec (Issued spec) db db') :
    CompleteInv spec db' :=
  Run.induct (I := CompleteInv spec) hi (fun _ _ _ hd ho => hd.exec ho) h

/-! ## Runs keep what they find -/

/-- What a run keeps of the rows it started with, exactly. -/
structure KeptRows (spec : ChainSpec) (db db' : Db) : Prop where
  completed : ∀ v e, db.completed v e = true → db'.completed v e = true
  att : ∀ v e a, db.completed v e = true → db.attestationDuties.get (v, e) = some a →
    db'.attestationDuties.get (v, e) = some a
  proposal : ∀ s d, db.completed d.proposerIndex (spec.slotToEpoch s) = true → db.blockProposals.get s = some d →
    d.finalized = true → db'.blockProposals.get s = some d
  sync : ∀ v s d, db.completed v (spec.slotToEpoch s) = true → db.syncDuties.get (v, s) = some d →
    d.finalized = true → db'.syncDuties.get (v, s) = some d

theorem keptRows_run {db db' : Db} (hi : CompleteInv spec db) (h : Run spec (Issued spec) db db') :
    KeptRows spec db db' ∧ CompleteInv spec db' := by
  induction h with
  | refl =>
    exact ⟨⟨fun _ _ h => h, fun _ _ _ _ h => h, fun _ _ _ h _ => h, fun _ _ _ _ h _ => h⟩, hi⟩
  | tail now op _ ho ih =>
    obtain ⟨k, hi'⟩ := ih
    refine ⟨⟨fun v e hc => DbOp.exec_completed_mono (k.completed v e hc), fun v e a hc h => ?_,
      fun s d hc h hf => ?_, fun v s d hc h hf => ?_⟩, hi'.exec ho⟩
    · obtain ⟨a', ha', hfr⟩ := hi'.rows v e (k.completed v e hc)
      rw [k.att v e a hc h] at ha'
      cases ha'
      exact exec_frozen (k.completed v e hc) (k.att v e a hc h) hfr
    · exact exec_frozen_proposal hi' (k.completed _ _ hc) (k.proposal s d hc h hf) hf
    · exact exec_frozen_sync hi' (k.completed _ _ hc) (k.sync v s d hc h hf) hf

theorem final_run {db db' : Db} {ok : DbOp → Db → Prop} (h : Run spec ok db db') :
    (∀ k a, db.attestationDuties.get k = some a → a.finalized = true →
      ∃ a', db'.attestationDuties.get k = some a' ∧ a'.finalized = true) ∧
    (∀ s d, db.blockProposals.get s = some d → d.finalized = true →
      ∃ d', db'.blockProposals.get s = some d' ∧ d'.finalized = true) ∧
    (∀ k d, db.syncDuties.get k = some d → d.finalized = true →
      ∃ d', db'.syncDuties.get k = some d' ∧ d'.finalized = true) := by
  induction h with
  | refl => exact ⟨fun _ a h hf => ⟨a, h, hf⟩, fun _ d h hf => ⟨d, h, hf⟩, fun _ d h hf => ⟨d, h, hf⟩⟩
  | tail now op _ _ ih =>
    obtain ⟨h1, h2, h3⟩ := ih
    refine ⟨fun k a h hf => ?_, fun s d h hf => ?_, fun k d h hf => ?_⟩
    · obtain ⟨a', ha', hf'⟩ := h1 k a h hf
      exact exec_att_final ha' hf'
    · obtain ⟨d', hd', hf'⟩ := h2 s d h hf
      exact exec_proposal_final hd' hf'
    · obtain ⟨d', hd', hf'⟩ := h3 k d h hf
      exact exec_sync_final hd' hf'

/-- Once a pair is completed, its attestation row and its finalized proposal and sync rows are
never deleted and keep their data, and no finalized flag is ever taken back. -/
theorem completed_immutable (spec : ChainSpec) : CompletedImmutable spec (Issued spec) := by
  intro db db' h₁ h₂
  obtain ⟨k, _⟩ := keptRows_run (CompleteInv.empty.run h₁) h₂
  obtain ⟨f1, f2, f3⟩ := final_run h₂
  exact ⟨fun v e a hc h => ⟨a, k.att v e a hc h, rfl⟩, fun s d hc h hf => ⟨d, k.proposal s d hc h hf, rfl⟩,
    fun v s d hc h hf => ⟨d, k.sync v s d hc h hf, rfl⟩, f1, f2, f3⟩

/-- A small chain: eight slots an epoch, sync duties from epoch 100 on. -/
def testSpec : ChainSpec := ⟨8, 4, 4, 100, by decide⟩

/-- The final row of validator 1 for epoch 0: its vote for slot 3 was included in slot 4. -/
def finalWrite : AttestationWrite :=
  ⟨3, 0, 0, true, some 4, some 1, some 1, some true, some true, some true, some 5, some 6, some 7, none, true⟩

/-- A live seed of the duty. -/
def seedWrite : AttestationWrite :=
  ⟨3, 0, 0, false, none, none, none, none, none, none, none, none, none, none, false⟩

/-- The row is written, the pair completed, and then every slot is rolled back and the duty seeded again. -/
theorem completed_immutable_rolledBack : ∃ db a,
    Run testSpec (Issued testSpec) .empty db ∧ db.completed 1 0 = true ∧
    ((db.invalidateFrom testSpec 0).upsertAttestationDuty 1 0 seedWrite).attestationDuties.get (1, 0) = some a ∧
    a.data = finalWrite.toRow.data := by
  have hregistered : Run testSpec (Issued testSpec) .empty (.registered [1]) := .one 0 (.upsertValidator 1 0 none) trivial
  have hwritten := hregistered.tail 0 (.upsertAttestationDuty 1 0 finalWrite) trivial
  have hdone := hwritten.tail 0 (.markComplete [1] 0) fun v hv => by
    obtain rfl := List.mem_singleton.1 hv
    exact ⟨_, rfl, rfl, fun _ => rfl⟩
  have hback : ∀ db, Run testSpec (Issued testSpec) db
      ((db.invalidateFrom testSpec 0).upsertAttestationDuty 1 0 seedWrite) := fun db =>
    (Run.one 0 (.invalidateFrom 0) trivial).tail 0 (.upsertAttestationDuty 1 0 seedWrite) trivial
  obtain ⟨a, ha, hdata⟩ := (completed_immutable testSpec _ _ hdone (hback _)).att 1 0 _ (by decide) rfl
  exact ⟨_, a, hdone, by decide, ha, hdata⟩

/-! ## Without the order of the callers -/

/-- Marking a pair complete before its finalized row exists lets a live seed and a rollback delete
the row of a completed pair. -/
theorem mark_before_row_loses_row : ¬ CompletedImmutable testSpec fun _ _ => True := by
  intro h
  let db₁ := DbOp.exec testSpec 0 (.upsertAttestationDuty 1 0 seedWrite) (DbOp.exec testSpec 0 (.markComplete [1] 0) (.registered [1]))
  have h₁ : Run testSpec (fun _ _ => True) Db.empty db₁ :=
    .tail 0 _ (.tail 0 _ (.one 0 (.upsertValidator 1 0 none) trivial) trivial) trivial
  have h₂ : Run testSpec (fun _ _ => True) db₁ (DbOp.exec testSpec 0 (.invalidateFrom 0) db₁) := .one 0 _ trivial
  obtain ⟨a', ha', _⟩ := (h _ _ h₁ h₂).att 1 0 seedWrite.toRow (by decide) (by decide)
  have : (DbOp.exec testSpec 0 (.invalidateFrom 0) db₁).attestationDuties.get (1, 0) = none := by decide
  rw [this] at ha'
  cases ha'

end BeaconIndexer
