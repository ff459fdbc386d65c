/-
The life of a reward job: what one statement can do to it, and from this what holds of every job
after any statements in any order.
-/
import BeaconIndexer.Db.Run

namespace BeaconIndexer

open Relational

variable {spec : ChainSpec}

/-! ## What a statement can do to a job -/

/-- The change of the job under a key, from its row before to its row after, `db'` being the database after. -/
inductive JobChange (spec : ChainSpec) (op : DbOp) (db db' : Db) (j : JobKey) : Option JobRow → Option JobRow → Prop
  | kept (row : Option JobRow) : JobChange spec op db db' j row row
  | enqueued {vs : List Nat} {root : Option Root} {now : Nat} (issued : op = .enqueueJobs j.epoch j.slot j.component vs root)
      (mem : j.validator ∈ vs) : JobChange spec op db db' j none (some ⟨root, none, .pending, 0, now, none, none⟩)
  | completed {job : LiveJob} {payload : Payload} {dependency : Root} (row : JobRow)
      (issued : op = .completeJob job payload dependency) :
      JobChange spec op db db' j (some row) (some { row with
        status := .complete, payload := some payload, dependency := some dependency, lastError := none })
  | failed {job : LiveJob} {error : String} {now : Nat} (row : JobRow) (issued : op = .failJob job error)
      (pending : row.status = .pending) : JobChange spec op db db' j (some row) (some { row with
        attempts := row.attempts + 1, lastError := some error, nextAttempt := now + 12 * 2 ^ min row.attempts 4 })
  | expired {minEpoch : Nat} (row : JobRow) (issued : op = .expireJobs minEpoch) (pending : row.status = .pending)
      (gap : db'.liveGaps.has (j.validator, j.epoch) = true) :
      JobChange spec op db db' j (some row) (some { row with status := .needsBackfill })
  | invalidated {slot : Nat} (row : JobRow) (issued : op = .invalidateFrom slot) (replayed : spec.slotToEpoch slot ≤ j.epoch)
      (unfinished : db.completed j.validator j.epoch = false) : JobChange spec op db db' j (some row) none
  | pruned {retain : Nat} (row : JobRow) (issued : op = .pruneCompletedEvidence retain) (old : j.epoch < retain)
      (finished : db.completed j.validator j.epoch = true) : JobChange spec op db db' j (some row) none
  | untracked {vs : List Nat} {epoch started : Nat} (row : JobRow) (issued : op = .registerTrackingStart vs epoch)
      (tracking : db'.liveTrackingStart.get j.validator = some started) (early : j.epoch < started) :
      JobChange spec op db db' j (some row) none

section Change

variable {db : Db} {j : JobKey}

theorem jobChange_enqueueJobs (now epoch : Nat) (slot : Option Nat) (c : Component) (vs : List Nat) (root : Option Root) :
    JobChange spec (.enqueueJobs epoch slot c vs root) db (db.enqueueJobs now epoch slot c vs root) j (db.liveJobs.get j)
      ((db.enqueueJobs now epoch slot c vs root).liveJobs.get j) := by
  unfold Db.enqueueJobs
  dsimp only
  rw [Table.get_insertAll]
  cases hj : db.liveJobs.get j with
  | some row => exact .kept _
  | none =>
    rw [Option.none_or]
    split
    · rename_i hm
      obtain ⟨v, hv, rfl⟩ := List.mem_map.1 hm
      exact .enqueued rfl hv
    · exact .kept _

theorem jobChange_completeJob (job : LiveJob) (payload : Payload) (dependency : Root) :
    JobChange spec (.completeJob job payload dependency) db (db.completeJob job payload dependency) j (db.liveJobs.get j)
      ((db.completeJob job payload dependency).liveJobs.get j) := by
  unfold Db.completeJob
  dsimp only
  rw [Table.get_update]
  cases hj : db.liveJobs.get j with
  | none => exact .kept _
  | some row =>
    rw [Option.map_some]
    split
    · exact .completed row rfl
    · exact .kept _

theorem jobChange_failJob (now : Nat) (job : LiveJob) (error : String) :
    JobChange spec (.failJob job error) db (db.failJob now job error) j (db.liveJobs.get j)
      ((db.failJob now job error).liveJobs.get j) := by
  unfold Db.failJob
  dsimp only
  rw [Table.get_update]
  cases hj : db.liveJobs.get j with
  | none => exact .kept _
  | some row =>
    rw [Option.map_some]
    split
    · rename_i hp
      simp only [Bool.and_eq_true, beq_iff_eq] at hp
      exact .failed row rfl hp.2
    · exact .kept _

/-- The gap is inserted from the rows that are about to be retired. -/
theorem jobChange_expireJobs (minEpoch : Nat) : JobChange spec (.expireJobs minEpoch) db (db.expireJobs minEpoch) j
    (db.liveJobs.get j) ((db.expireJobs minEpoch).liveJobs.get j) := by
  have hget : (db.expireJobs minEpoch).liveJobs.get j = (db.liveJobs.get j).map fun row =>
      if (decide (j.epoch < minEpoch) && row.status == .pending) = true then { row with status := .needsBackfill }
      else row := Table.get_update ..
  rw [hget]
  cases hj : db.liveJobs.get j with
  | none => exact .kept _
  | some row =>
    rw [Option.map_some]
    split
    · rename_i hp
      have hpending : row.status = .pending := by
        simp only [Bool.and_eq_true, beq_iff_eq] at hp
        exact hp.2
      refine .expired row rfl hpending ?_
      rw [Table.has_iff]
      refine ⟨"reward retry window expired", ?_⟩
      unfold Db.expireJobs
      dsimp only
      rw [Table.get_putAll, if_pos (List.mem_map.2 ⟨(j, row), Table.mem_select.2 ⟨hj, hp⟩, rfl⟩)]
    · exact .kept _

theorem jobChange_invalidateFrom (slot : Nat) : JobChange spec (.invalidateFrom slot) db (db.invalidateFrom spec slot) j
    (db.liveJobs.get j) ((db.invalidateFrom spec slot).liveJobs.get j) := by
  unfold Db.invalidateFrom
  dsimp only
  rw [Table.get_deleteWhere]
  cases hj : db.liveJobs.get j with
  | none => exact .kept _
  | some row =>
    rw [Option.filter_some]
    split
    · exact .kept _
    · rename_i hp
      simp only [Bool.not_eq_true', Bool.not_eq_false, Bool.and_eq_true, decide_eq_true_eq] at hp
      exact .invalidated row rfl hp.1 hp.2

theorem jobChange_pruneCompletedEvidence (retain : Nat) : JobChange spec (.pruneCompletedEvidence retain) db
    (db.pruneCompletedEvidence spec retain) j (db.liveJobs.get j) ((db.pruneCompletedEvidence spec retain).liveJobs.get j) := by
  unfold Db.pruneCompletedEvidence
  dsimp only
  rw [Table.get_deleteWhere]
  cases hj : db.liveJobs.get j with
  | none => exact .kept _
  | some row =>
    rw [Option.filter_some]
    split
    · exact .kept _
    · rename_i hp
      simp only [Bool.not_eq_true', Bool.not_eq_false, Bool.and_eq_true, decide_eq_true_eq] at hp
      exact .pruned row rfl hp.1 hp.2

theorem jobChange_registerTrackingStart (vs : List Nat) (epoch : Nat) : JobChange spec (.registerTrackingStart vs epoch) db
    (db.registerTrackingStart vs epoch) j (db.liveJobs.get j) ((db.registerTrackingStart vs epoch).liveJobs.get j) := by
  have hget : (db.registerTrackingStart vs epoch).liveJobs.get j = (db.liveJobs.get j).filter fun _ =>
      !(((db.registerTrackingStart vs epoch).liveTrackingStart.get j.validator).any (j.epoch < ·)
        && !db.completed j.validator j.epoch) := Table.get_deleteWhere ..
  rw [hget]
  cases hj : db.liveJobs.get j with
  | none => exact .kept _
  | some row =>
    rw [Option.filter_some]
    split
    · exact .kept _
    · rename_i hp
      simp only [Bool.not_eq_true', Bool.not_eq_false, Bool.and_eq_true, Option.any_eq_true, decide_eq_true_eq] at hp
      obtain ⟨⟨started, htracking, hearly⟩, -⟩ := hp
      exact .untracked row rfl htracking hearly

end Change

/-- Every statement changes a job in one of these ways. -/
theorem jobChange (now : Nat) (op : DbOp) (db : Db) (j : JobKey) :
    JobChange spec op db (op.exec spec now db) j (db.liveJobs.get j) ((op.exec spec now db).liveJobs.get j) := by
  by_cases hw : op.writesJobs = true
  · cases op with
    | enqueueJobs epoch slot c vs root => exact jobChange_enqueueJobs now epoch slot c vs root
    | completeJob job payload dependency => exact jobChange_completeJob job payload dependency
    | failJob job error => exact jobChange_failJob now job error
    | expireJobs minEpoch => exact jobChange_expireJobs minEpoch
    | invalidateFrom slot => exact jobChange_invalidateFrom slot
    | pruneCompletedEvidence retain => exact jobChange_pruneCompletedEvidence retain
    | registerTrackingStart vs epoch => exact jobChange_registerTrackingStart vs epoch
    | _ => cases hw
  · rw [DbOp.exec_jobs (by simpa using hw)]
    exact .kept _

/-- Only completing a job gives it a dependency. -/
theorem exec_dependency_cases {now : Nat} {op : DbOp} {db : Db} {j : JobKey} {row : JobRow} {dependency : Root}
    (h : (op.exec spec now db).liveJobs.get j = some row) (hd : row.dependency = some dependency) :
    (∃ row', db.liveJobs.get j = some row' ∧ row'.dependency = some dependency) ∨
    ∃ job payload, op = .completeJob job payload dependency ∧ Db.ofJob job j = true := by
  have hchange : JobChange spec op db (op.exec spec now db) j _ _ := jobChange now op db j
  rw [h] at hchange
  generalize hold : db.liveJobs.get j = old at hchange
  cases hchange with
  | kept => exact .inl ⟨row, rfl, hd⟩
  | enqueued => cases hd
  | failed row' => exact .inl ⟨row', rfl, hd⟩
  | expired row' => exact .inl ⟨row', rfl, hd⟩
  | completed row' issued =>
    subst issued
    obtain rfl := Option.some.inj hd
    replace h : (db.liveJobs.update _ _).get j = some _ := h
    rw [Table.get_update, hold, Option.map_some] at h
    split at h
    · rename_i hof
      exact .inr ⟨_, _, rfl, hof⟩
    · -- a job of another group is left alone
      rw [Option.some.inj h]
      exact .inl ⟨_, rfl, rfl⟩

/-! ## Every job after any statements -/

/-- Complete is having a response and the block it depends on. -/
def JobRow.Settled (row : JobRow) : Prop :=
  (row.status = .complete ↔ row.payload.isSome = true ∧ row.dependency.isSome = true) ∧
  (row.status ≠ .complete → row.payload = none ∧ row.dependency = none)

theorem JobChange.settled {op : DbOp} {db db' : Db} {j : JobKey} {old new : Option JobRow}
    (h : JobChange spec op db db' j old new) (hold : ∀ row, old = some row → row.Settled) :
    ∀ row, new = some row → row.Settled := by
  intro row' hrow
  cases h with
  | kept => exact hold row' hrow
  | enqueued => cases hrow; simp [JobRow.Settled]
  | completed => cases hrow; simp [JobRow.Settled]
  | failed row _ hp =>
    cases hrow
    obtain ⟨h1, h2⟩ := hold row rfl
    exact ⟨h1, h2⟩
  | expired row _ hp _ =>
    cases hrow
    obtain ⟨hpayload, hdependency⟩ := (hold row rfl).2 (by rw [hp]; decide)
    simp [JobRow.Settled, hpayload, hdependency]
  | invalidated => cases hrow
  | pruned => cases hrow
  | untracked => cases hrow

/-- In every state reached, every job is settled. -/
theorem Run.settled {db : Db} (h : Run spec (fun _ _ => True) .empty db) :
    ∀ j row, db.liveJobs.get j = some row → row.Settled := by
  refine Run.induct (I := fun d => ∀ j row, d.liveJobs.get j = some row → row.Settled) ?_ ?_ h
  · intro j row hj
    cases hj
  · intro now op d hd _ j
    exact (jobChange now op d j).settled (hd j)

/-- Enqueueing again, reporting a failure and expiring. -/
def DbOp.revisitsJobs : DbOp → Bool
  | enqueueJobs .. | failJob .. | expireJobs _ => true
  | _ => false

/-- What a statement leaves of a job that is there. -/
structure JobStep (spec : ChainSpec) (op : DbOp) (db db' : Db) (j : JobKey) (row : JobRow) : Prop where
  /-- enqueueing, failing and expiring do not touch a complete job -/
  complete : row.status = .complete → op.revisitsJobs = true →
    ∃ row', db'.liveJobs.get j = some row' ∧ row'.status = .complete ∧ row'.payload = row.payload ∧
      row'.dependency = row.dependency
  /-- a pending job becomes complete with a response, or is retired with a gap in the same commit -/
  pending : row.status = .pending → ∀ row', db'.liveJobs.get j = some row' → row'.status = .pending ∨
    (row'.status = .complete ∧ row'.payload.isSome = true) ∨
    (row'.status = .needsBackfill ∧ db'.liveGaps.has (j.validator, j.epoch) = true)
  /-- and it disappears for these reasons only -/
  gone : db'.liveJobs.get j = none →
    (∃ slot, op = .invalidateFrom slot ∧ spec.slotToEpoch slot ≤ j.epoch ∧ db.completed j.validator j.epoch = false) ∨
    (∃ retain, op = .pruneCompletedEvidence retain ∧ db.completed j.validator j.epoch = true) ∨
    (∃ vs epoch started, op = .registerTrackingStart vs epoch ∧
      db'.liveTrackingStart.get j.validator = some started ∧ j.epoch < started)

theorem jobStep (now : Nat) (op : DbOp) {db : Db} {j : JobKey} {row : JobRow} (hj : db.liveJobs.get j = some row) :
    JobStep spec op db (op.exec spec now db) j row := by
  have hchange : JobChange spec op db (op.exec spec now db) j (db.liveJobs.get j) ((op.exec spec now db).liveJobs.get j) :=
    jobChange now op db j
  rw [hj] at hchange
  generalize hnew : (op.exec spec now db).liveJobs.get j = new at hchange
  constructor
  · intro hcomplete hop
    cases hchange with
    | kept => exact ⟨row, hnew, hcomplete, rfl, rfl⟩
    | completed _ issued => rw [issued] at hop; cases hop
    | failed _ _ hp => rw [hcomplete] at hp; cases hp
    | expired _ _ hp => rw [hcomplete] at hp; cases hp
    | invalidated _ issued => rw [issued] at hop; cases hop
    | pruned _ issued => rw [issued] at hop; cases hop
    | untracked _ issued => rw [issued] at hop; cases hop
  · intro hpending row' hrow'
    rw [hnew] at hrow'
    cases hchange with
    | kept => cases hrow'; exact .inl hpending
    | completed => cases hrow'; exact .inr (.inl ⟨rfl, rfl⟩)
    | failed => cases hrow'; exact .inl hpending
    | expired _ _ _ hgap => cases hrow'; exact .inr (.inr ⟨rfl, hgap⟩)
    | invalidated => cases hrow'
    | pruned => cases hrow'
    | untracked => cases hrow'
  · intro hgone
    rw [hnew] at hgone
    cases hchange with
    | kept => cases hgone
    | completed => cases hgone
    | failed => cases hgone
    | expired => cases hgone
    | invalidated _ issued hreplayed hopen => exact .inl ⟨_, issued, hreplayed, hopen⟩
    | pruned _ issued _ hdone => exact .inr (.inl ⟨_, issued, hdone⟩)
    | untracked _ issued htracking hearly => exact .inr (.inr ⟨_, _, _, issued, htracking, hearly⟩)

/-- `complete_job` stores the response and its dependency with every job it names. -/
theorem completeJob_get {db : Db} {j : JobKey} {row : JobRow} (hj : db.liveJobs.get j = some row) {job : LiveJob}
    (hof : Db.ofJob job j = true) (payload : Payload) (dependency : Root) :
    (db.completeJob job payload dependency).liveJobs.get j = some { row with
      status := .complete, payload := some payload, dependency := some dependency, lastError := none } := by
  unfold Db.completeJob
  dsimp only
  rw [Table.get_update, hj, Option.map_some, if_pos hof]

/-- After any statements in any order a job is complete exactly with its response and its dependency, completing a job
stores both, and no statement makes it lose work. -/
theorem jobs_keep_work {db : Db} (h : Run spec (fun _ _ => True) .empty db) :
    (∀ j row, db.liveJobs.get j = some row →
      (row.status = .complete ↔ row.payload.isSome = true ∧ row.dependency.isSome = true)) ∧
    (∀ j row job payload dependency, db.liveJobs.get j = some row → Db.ofJob job j = true →
      (db.completeJob job payload dependency).liveJobs.get j = some { row with
        status := .complete, payload := some payload, dependency := some dependency, lastError := none }) ∧
    ∀ now op j row, db.liveJobs.get j = some row → JobStep spec op db (op.exec spec now db) j row :=
  ⟨fun j row hj => (h.settled j row hj).1, fun _ _ _ payload dependency hj hof => completeJob_get hj hof payload dependency,
    fun now op _ _ hj => jobStep now op hj⟩

/-- Of the jobs of validators 7 and 8, the first is completed, and the second fails once and then expires. -/
def settledJobs : Db :=
  ((((Db.registered [7, 8]).enqueueJobs 0 3 none .attestationRewards [7, 8] none).completeJob
    ⟨3, none, .attestationRewards, [7], none⟩ (.attestation [⟨7, 1, 2, 3, none, none⟩]) ⟨10⟩).failJob 0
    ⟨3, none, .attestationRewards, [7, 8], none⟩ "timeout").expireJobs 4

theorem jobs_keep_work_settled : settledJobs.liveGaps.has (8, 3) = true ∧ settledJobs.liveGaps.has (7, 3) = false ∧
    (∃ row, settledJobs.liveJobs.get ⟨8, 3, none, .attestationRewards⟩ = some row ∧ row.status = .needsBackfill ∧
      ¬(row.payload.isSome = true ∧ row.dependency.isSome = true)) ∧
    ∃ row, settledJobs.liveJobs.get ⟨7, 3, none, .attestationRewards⟩ = some row ∧ row.status = .complete ∧
      row.payload = some (.attestation [⟨7, 1, 2, 3, none, none⟩]) ∧ row.dependency.isSome = true := by
  let spec : ChainSpec := ⟨4, 8, 2, 0, by decide⟩
  have hregistered : Run spec (fun _ _ => True) .empty (.registered [7, 8]) :=
    .tail 0 (.upsertValidator 8 0 none) (.one 0 (.upsertValidator 7 0 none) trivial) trivial
  have hqueued := hregistered.tail 0 (.enqueueJobs 3 none .attestationRewards [7, 8] none) trivial
  have hcompleted := hqueued.tail 0 (.completeJob ⟨3, none, .attestationRewards, [7], none⟩
    (.attestation [⟨7, 1, 2, 3, none, none⟩]) ⟨10⟩) trivial
  have hfailed := hcompleted.tail 0 (.failJob ⟨3, none, .attestationRewards, [7, 8], none⟩ "timeout") trivial
  have hrun : Run spec (fun _ _ => True) .empty settledJobs := hfailed.tail 0 (.expireJobs 4) trivial
  have hiff := (jobs_keep_work hrun).1
  refine ⟨by decide, by decide, ⟨_, rfl, rfl, ?_⟩, _, rfl, rfl, rfl, ?_⟩
  · rw [← hiff ⟨8, 3, none, .attestationRewards⟩ _ rfl]
    decide
  · exact ((hiff ⟨7, 3, none, .attestationRewards⟩ _ rfl).1 rfl).2

end BeaconIndexer
