/-
Runs of database statements: whole histories of the archive and the live worker's writes, in any
order and for any arguments, and the data columns a reader of a row sees.
-/
import BeaconIndexer.Db.Spec

namespace BeaconIndexer

open Relational

/-- Statements that meet `ok` in the state they are issued in, one after another. -/
inductive Run (spec : ChainSpec) (ok : DbOp → Db → Prop) : Db → Db → Prop
  | refl (db : Db) : Run spec ok db db
  | tail {db db' : Db} (now : Nat) (op : DbOp) : Run spec ok db db' → ok op db' → Run spec ok db (op.exec spec now db')

theorem Run.induct {spec : ChainSpec} {ok : DbOp → Db → Prop} {I : Db → Prop} {db db' : Db} (h0 : I db)
    (hs : ∀ now op d, I d → ok op d → I (op.exec spec now d)) (h : Run spec ok db db') : I db' := by
  induction h with
  | refl => exact h0
  | tail now op _ hok ih => exact hs now op _ ih hok

theorem Run.one {spec : ChainSpec} {ok : DbOp → Db → Prop} {db : Db} (now : Nat) (op : DbOp) (h : ok op db) :
    Run spec ok db (op.exec spec now db) :=
  .tail now op (.refl db) h

theorem Run.trans {spec : ChainSpec} {ok : DbOp → Db → Prop} {db db' db'' : Db} (h : Run spec ok db db') (h' : Run spec ok db' db'') :
    Run spec ok db db'' :=
  h'.induct h fun now op _ ih hok => ih.tail now op hok

/-! ## Data columns -/

/-- The row without its two state flags. -/
def AttestationRow.data (a : AttestationRow) : AttestationRow := { a with finalized := false, inclusionKnown := false }

/-- The row without its state flag. -/
def ProposalRow.data (d : ProposalRow) : ProposalRow := { d with finalized := false }

/-- The row without its state flag. -/
def SyncRow.data (d : SyncRow) : SyncRow := { d with finalized := false }

/-! ## Which tables a statement leaves alone -/

namespace DbOp

/-- The statement may change attestation duties. -/
def writesAttestations : DbOp → Bool
  | upsertAttestationDuty .. | repairFinalizedInclusion .. | updateAttestationRewardsBatch .. | markComplete ..
  | promoteCollected _ | invalidateFrom _ => true
  | _ => false

/-- The statement may change proposals. -/
def writesProposals : DbOp → Bool
  | upsertBlockProposal .. | promoteCollected _ | invalidateFrom _ => true
  | _ => false

/-- The statement may change sync duties. -/
def writesSync : DbOp → Bool
  | upsertSyncDuty .. | persistLiveSyncRewards .. | promoteCollected _ | invalidateFrom _ => true
  | _ => false

/-- The statement may complete pairs. -/
def completes : DbOp → Bool
  | markComplete .. | promoteCollected _ => true
  | _ => false

/-- The statement may change jobs. -/
def writesJobs : DbOp → Bool
  | registerTrackingStart .. | invalidateFrom _ | enqueueJobs .. | completeJob .. | failJob .. | expireJobs _
  | pruneCompletedEvidence _ => true
  | _ => false

/-- The statement may change stored blocks. -/
def writesBlocks : DbOp → Bool
  | recordBlock .. | invalidateFrom _ | pruneCompletedEvidence _ => true
  | _ => false

/-- The statement may change slot coverage. -/
def writesCoverage : DbOp → Bool
  | recordCoverage .. | invalidateFrom _ | pruneCompletedEvidence _ => true
  | _ => false

/-- The statement may change where tracking starts. -/
def writesTracking : DbOp → Bool
  | registerTrackingStart .. => true
  | _ => false

/-- The statement may open or close gaps. -/
def writesGaps : DbOp → Bool
  | registerTrackingStart .. | expireJobs _ | markComplete .. | promoteCollected _ => true
  | _ => false

variable {spec : ChainSpec} {now : Nat} {op : DbOp} {db : Db}

theorem exec_attestations (h : op.writesAttestations = false) :
    (op.exec spec now db).attestationDuties = db.attestationDuties := by
  cases op <;> first | rfl | cases h

theorem exec_proposals (h : op.writesProposals = false) : (op.exec spec now db).blockProposals = db.blockProposals := by
  cases op <;> first | rfl | cases h

theorem exec_sync (h : op.writesSync = false) : (op.exec spec now db).syncDuties = db.syncDuties := by
  cases op <;> first | rfl | cases h

theorem exec_completed (h : op.completes = false) : (op.exec spec now db).completedScans = db.completedScans := by
  cases op <;> first | rfl | cases h

theorem exec_jobs (h : op.writesJobs = false) : (op.exec spec now db).liveJobs = db.liveJobs := by
  cases op <;> first
    | rfl
    | exact (db.promoteCollected_frame spec _).2.2.2
    | cases h

theorem exec_blocks (h : op.writesBlocks = false) : (op.exec spec now db).liveBlocks = db.liveBlocks := by
  cases op <;> first
    | rfl
    | exact (db.promoteCollected_frame spec _).1
    | cases h

theorem exec_coverage (h : op.writesCoverage = false) : (op.exec spec now db).liveCoverage = db.liveCoverage := by
  cases op <;> first
    | rfl
    | exact (db.promoteCollected_frame spec _).2.1
    | cases h

theorem exec_tracking (h : op.writesTracking = false) :
    (op.exec spec now db).liveTrackingStart = db.liveTrackingStart := by
  cases op <;> first
    | rfl
    | exact (db.promoteCollected_frame spec _).2.2.1
    | cases h

theorem exec_gaps (h : op.writesGaps = false) : (op.exec spec now db).liveGaps = db.liveGaps := by
  cases op <;> first | rfl | cases h

/-- Nothing ever removes a completion. -/
theorem exec_completed_mono {v e : Nat} (h : db.completed v e = true) : (op.exec spec now db).completed v e = true := by
  by_cases hc : op.completes = true
  · cases op with
    | markComplete vs epoch =>
      change (db.markComplete vs epoch).completed v e = true
      rw [Db.markComplete_completed, h, Bool.true_or]
    | promoteCollected p =>
      change (db.promoteCollected spec p).2.completed v e = true
      rw [Db.promoteCollected_completed, h, Bool.true_or]
    | _ => cases hc
  · simp only [Bool.not_eq_true] at hc
    unfold Db.completed
    rw [exec_completed hc]
    exact h

/-- Where a job of the next state comes from, with its payload. -/
theorem exec_jobs_cases {j : JobKey} {row : JobRow} (h : (op.exec spec now db).liveJobs.get j = some row) :
    (∃ row', db.liveJobs.get j = some row' ∧ row.payload = row'.payload) ∨
    (∃ vs root, op = .enqueueJobs j.epoch j.slot j.component vs root ∧ row.payload = none) ∨
    (∃ job payload dep row', op = .completeJob job payload dep ∧ db.liveJobs.get j = some row' ∧
      Db.ofJob job j = true ∧ row.payload = some payload) := by
  by_cases hw : op.writesJobs = true
  · have kept : ∀ {p : JobKey → JobRow → Bool}, (db.liveJobs.deleteWhere p).get j = some row →
        ∃ row', db.liveJobs.get j = some row' ∧ row.payload = row'.payload := by
      intro p h
      rw [Table.get_deleteWhere, Option.filter_eq_some_iff] at h
      exact ⟨row, h.1, rfl⟩
    have updated : ∀ {p : JobKey → JobRow → Bool} {f : JobKey → JobRow → JobRow}, (∀ k r, (f k r).payload = r.payload) →
        (db.liveJobs.update p f).get j = some row → ∃ row', db.liveJobs.get j = some row' ∧ row.payload = row'.payload := by
      intro p f hf h
      rw [Table.get_update, Option.map_eq_some_iff] at h
      obtain ⟨row', hr, rfl⟩ := h
      refine ⟨row', hr, ?_⟩
      split
      · exact hf j row'
      · rfl
    cases op with
    | enqueueJobs e slot c vs root =>
      have hget : (db.liveJobs.insertAll (vs.map fun v => ⟨v, e, slot, c⟩) _).get j = some row := h
      rw [Table.get_insertAll] at hget
      cases hj : db.liveJobs.get j with
      | some row' =>
        rw [hj, Option.some_or] at hget
        cases hget
        exact .inl ⟨row, rfl, rfl⟩
      | none =>
        rw [hj, Option.none_or] at hget
        split at hget
        · rename_i hm
          obtain ⟨v, _, rfl⟩ := List.mem_map.1 hm
          cases hget
          exact .inr (.inl ⟨vs, root, rfl, rfl⟩)
        · cases hget
    | registerTrackingStart vs e => exact .inl (kept h)
    | invalidateFrom r => exact .inl (kept h)
    | pruneCompletedEvidence e => exact .inl (kept h)
    | failJob job error =>
      have hget : (db.liveJobs.update _ _).get j = some row := h
      refine .inl (updated ?_ hget)
      exact fun _ _ => rfl
    | expireJobs e =>
      have hget : (db.liveJobs.update _ _).get j = some row := h
      refine .inl (updated ?_ hget)
      exact fun _ _ => rfl
    | completeJob job payload dep =>
      have h : (db.liveJobs.update _ _).get j = some row := h
      rw [Table.get_update, Option.map_eq_some_iff] at h
      obtain ⟨row', hr, rfl⟩ := h
      by_cases hof : Db.ofJob job j = true
      · exact .inr (.inr ⟨job, payload, dep, row', rfl, hr, hof, by rw [if_pos hof]⟩)
      · exact .inl ⟨row', hr, by rw [if_neg hof]⟩
    | _ => cases hw
  · rw [exec_jobs (by simpa using hw)] at h
    exact .inl ⟨row, h, rfl⟩

end DbOp

end BeaconIndexer
