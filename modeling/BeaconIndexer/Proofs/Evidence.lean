/-
The evidence a live worker keeps of a duty, over one statement: its row shows an inclusion exactly
if it has an inclusion slot and is final exactly if its outcome is known; an observed vote is
forgotten only by a rollback that deletes the coverage of its slot too; reward jobs and completions
belong to registered duties.
-/
import BeaconIndexer.Db.Jobs
import BeaconIndexer.Db.Rows
import BeaconIndexer.Proofs.Collect
import BeaconIndexer.Proofs.Immutable

namespace BeaconIndexer

open Effects Ancestry Relational

variable {spec : ChainSpec} {L : Ledger spec} {V : View L} {cfg : LiveConfig spec} {tracked : List Nat}
  {reg : Nat → Nat → Prop} {now : Nat} {op : DbOp} {db : Db}

/-! ## The start -/

theorem grounded_empty (registry : Table Nat ValidatorRow) : Grounded L { Db.empty with validators := registry } := by
  refine ⟨fun s row h => ?_, fun j row s h => ?_⟩ <;> cases h

/-- The finalized checkpoint is on the chain of the head. -/
theorem View.finalized_anc (V : View L) : L.forest.Anc V.head V.finalized.root :=
  (Forest.below_iff.1 V.boundary).1

/-! ## Rows -/

/-- A row as the live worker leaves it: nobody seeds the row of an unregistered validator. -/
structure AttestationRow.Collected (reg : Nat → Nat → Prop) (v e : Nat) (a : AttestationRow) : Prop where
  included : a.included = a.inclusionSlot.isSome
  known : a.inclusionKnown = a.finalized
  seeded : a.included = false → reg v e

theorem AttestationRow.Collected.toRow {v e : Nat} {w : AttestationWrite} (hw : AttestationPromise V reg v e w db) :
    w.toRow.Collected reg v e := by
  obtain ⟨hfinal, ⟨hinc, hslot, hreg⟩ | ⟨hinc, r, -, -, -, data, -, hslot, -⟩⟩ := hw
  · exact ⟨by simp [AttestationWrite.toRow, hinc, hslot], hfinal.symm, fun _ => hreg⟩
  · refine ⟨by simp [AttestationWrite.toRow, hinc, hslot], hfinal.symm, fun h => ?_⟩
    exact absurd (hinc.symm.trans h) (by decide)

/-- A provisional write meets a provisional row. -/
theorem AttestationWrite.replaces_provisional {w : AttestationWrite} {old : AttestationRow} {completed : Bool}
    (hw : w.finalized = false) (hr : w.replaces completed old = true) : old.finalized = false := by
  cases hf : old.finalized with
  | false => rfl
  | true => simp [AttestationWrite.replaces, hw, hf] at hr

theorem AttestationRow.Collected.merge {v e : Nat} {w : AttestationWrite} {old : AttestationRow}
    (ha : old.Collected reg v e) (hw : AttestationPromise V reg v e w db) (hr : w.replaces (db.completed v e) old = true) :
    (w.merge old).Collected reg v e := by
  have hnew := AttestationRow.Collected.toRow hw
  refine ⟨hnew.included, ?_, hnew.seeded⟩
  show old.inclusionKnown = w.finalized
  rw [ha.known, AttestationWrite.replaces_provisional hw.1 hr, hw.1]

/-- A row that a promotion completes was known before, so completing it changes nothing. -/
theorem promoted_finalized {p : Promotion} {v e : Nat} {a : AttestationRow} (ha : a.Collected reg v e)
    (hget : db.attestationDuties.get (v, e) = some a) :
    ((db.promotedRow spec p v e a).finalized || (db.readyPairs spec p).contains (v, e)) =
      (a.finalized || db.inclusionProven p v a || db.windowProven spec p v e a) := by
  show ((a.finalized || db.inclusionProven p v a || db.windowProven spec p v e a) || _) = _
  cases hready : (db.readyPairs spec p).contains (v, e) with
  | false => rw [Bool.or_false]
  | true =>
    obtain ⟨a', hget', hknown, -⟩ := Db.readyPairs_row (List.contains_iff_mem.1 hready)
    rw [hget] at hget'
    obtain rfl := Option.some.inj hget'
    have hknown : (a.inclusionKnown || db.inclusionProven p v a || db.windowProven spec p v e a) = true := hknown
    rw [ha.known] at hknown
    rw [hknown, Bool.true_or]

/-- Every row is as the live worker leaves it. -/
def Db.Collected (reg : Nat → Nat → Prop) (db : Db) : Prop :=
  ∀ v e a, db.attestationDuties.get (v, e) = some a → a.Collected reg v e

theorem Db.Collected.exec (hdb : db.Collected reg) (hp : LivePromise V cfg tracked reg op db) :
    (op.exec spec now db).Collected reg := by
  intro v e a ha
  have hchange := dutyChange_of_some ha
  generalize hold : db.attestationDuties.get (v, e) = old at hchange
  cases hchange with
  | kept => exact hdb v e a hold
  | inserted issued => subst issued; exact .toRow hp
  | replaced old issued hr => subst issued; exact (hdb v e old hold).merge hp hr
  | repaired old issued hr =>
    -- only a row that shows an inclusion is repaired
    have hinc : old.included = true := by
      unfold AttestationRow.repairable at hr
      simp only [Bool.and_eq_true] at hr
      exact hr.1.1
    refine ⟨hinc, (hdb v e old hold).known, fun h => ?_⟩
    exact absurd (hinc.symm.trans h) (by decide)
  | rewarded old r => exact ⟨(hdb v e old hold).included, (hdb v e old hold).known, (hdb v e old hold).seeded⟩
  | marked old issued => subst issued; exact hp.elim
  | promoted old issued =>
    rename_i p
    have hrow := hdb v e old hold
    obtain ⟨h1, h2, -, -⟩ := db.joinedRow_duty p v e old
    refine ⟨?_, ?_, fun h => hrow.seeded (h1.symm.trans h)⟩
    · show (db.joinedRow p v e old).included = (db.joinedRow p v e old).inclusionSlot.isSome
      rw [h1, h2, hrow.included]
    · show (old.inclusionKnown || _ || _) = _
      rw [promoted_finalized hrow hold, hrow.known]

/-- A row becomes final only in a promotion that proves its inclusion or its window. -/
theorem Db.Collected.final_cases {v e : Nat} {a : AttestationRow} (hdb : db.Collected reg)
    (hp : LivePromise V cfg tracked reg op db) (ha : (op.exec spec now db).attestationDuties.get (v, e) = some a)
    (hf : a.finalized = true) :
    (∃ a₀, db.attestationDuties.get (v, e) = some a₀ ∧ a₀.finalized = true) ∨
    ∃ p a₀, op = .promoteCollected p ∧ db.attestationDuties.get (v, e) = some a₀ ∧ a₀.finalized = false ∧
      (db.inclusionProven p v a₀ = true ∨ db.windowProven spec p v e a₀ = true) := by
  have hchange := dutyChange_of_some ha
  generalize hold : db.attestationDuties.get (v, e) = old at hchange
  cases hchange with
  | kept => exact .inl ⟨a, rfl, hf⟩
  | inserted issued =>
    subst issued
    exact absurd (hf.symm.trans hp.1) (by decide)
  | replaced old issued =>
    subst issued
    exact absurd (hf.symm.trans hp.1) (by decide)
  | repaired old => exact .inl ⟨old, rfl, hf⟩
  | rewarded old => exact .inl ⟨old, rfl, hf⟩
  | marked old issued => subst issued; exact hp.elim
  | promoted old issued =>
    cases hfinal : old.finalized with
    | true => exact .inl ⟨old, rfl, hfinal⟩
    | false =>
      refine .inr ⟨_, old, issued, rfl, hfinal, ?_⟩
      have hf : (_ || _) = true := hf
      rw [promoted_finalized (hdb v e old hold) hold, hfinal, Bool.false_or, Bool.or_eq_true] at hf
      exact hf

/-! ## Observed votes -/

/-- No statement but a rollback over the duty's epoch takes an observed inclusion back. -/
theorem Db.Seen.exec {v e s : Nat} (hs : db.Seen v e s)
    (hop : ∀ slot, op = .invalidateFrom slot → e < spec.slotToEpoch slot) : (op.exec spec now db).Seen v e s := by
  have hs' := hs
  obtain ⟨a, ha, hseen⟩ := hs
  have hchange : DutyChange spec op db v e _ _ := dutyChange now op db v e
  unfold Db.Seen
  rw [ha] at hchange
  generalize hnew : (op.exec spec now db).attestationDuties.get (v, e) = new at hchange ⊢
  cases hchange with
  | kept => exact ⟨a, rfl, hseen⟩
  | replaced _ issued =>
    rw [← hnew]
    subst issued
    exact hs'.upsert_other
  | repaired _ _ hr =>
    refine ⟨_, rfl, ?_⟩
    rcases hseen with ⟨x, hx, hslot⟩ | hfinal
    · refine .inl ⟨_, ?_, rfl⟩
      simp only [AttestationRow.repairable, hslot, Option.any_some, Bool.and_eq_true, decide_eq_true_eq] at hr
      exact hr.1.2.trans hx
    · exact .inr hfinal
  | rewarded => exact ⟨_, rfl, hseen⟩
  | marked => exact ⟨_, rfl, hseen⟩
  | promoted =>
    obtain ⟨-, h2, -, -⟩ := db.joinedRow_duty _ v e a
    refine ⟨_, rfl, ?_⟩
    rcases hseen with ⟨x, hx, hslot⟩ | hfinal
    · exact .inl ⟨x, hx, h2.trans hslot⟩
    · refine .inr ?_
      show (a.finalized || _ || _ || _) = true
      rw [hfinal, Bool.true_or, Bool.true_or, Bool.true_or]
  | invalidated _ issued hle =>
    have := hop _ issued
    omega

/-- Every registered vote of `v` that the block `r` carries within its window has been seen. -/
def Db.VotesSeen (L : Ledger spec) (reg : Nat → Nat → Prop) (db : Db) (v : Nat) (r : Root) : Prop :=
  ∀ e data, reg v e → L.vote r e v = some data → spec.slotToEpoch (L.slotOf r) ≤ e + 1 → db.Seen v e (L.slotOf r)

/-- A vote is for an epoch that has begun. -/
theorem Ledger.vote_epoch_le {r : Root} {e v : Nat} {data : AttestationData} (hv : L.vote r e v = some data) :
    e ≤ spec.slotToEpoch (L.slotOf r) := by
  have hslot := Ledger.vote_earlier hv
  rw [← Ledger.vote_epoch hv]
  exact spec.slotToEpoch_mono hslot.le

/-- The block of the chain at a slot carries the vote of `v` for the epoch. -/
def Ledger.VotedAt (L : Ledger spec) (top : Root) (e v s : Nat) : Prop :=
  ∃ r data, L.rootAt top s = some r ∧ L.vote r e v = some data

theorem Ledger.VotedAt.epoch_le {top : Root} {e v s : Nat} (h : L.VotedAt top e v s) : e ≤ spec.slotToEpoch s := by
  obtain ⟨r, data, hr, hv⟩ := h
  rw [← (Ledger.rootAt_iff.1 hr).2]
  exact Ledger.vote_epoch_le hv

theorem Ledger.VoteColumns.votedAt {r : Root} {v e x : Nat} {source target head : Option Bool} {top : Root}
    (h : L.VoteColumns r v e (some x) source target head) (ha : L.forest.Anc top r) :
    L.VotedAt top e v x ∧ x = L.slotOf r := by
  obtain ⟨data, hv, hslot, -⟩ := h
  obtain rfl := Option.some.inj hslot
  exact ⟨⟨r, data, Ledger.rootAt_iff.2 ⟨ha, rfl⟩, hv⟩, rfl⟩

/-- Where the coverage of a block's slot stays, the votes in the block stay observed. -/
theorem Db.VotesSeen.exec {v : Nat} {r : Root} (h : db.VotesSeen L reg v r) (hp : LivePromise V cfg tracked reg op db)
    (hcov : (op.exec spec now db).covered v (L.slotOf r) = true) : (op.exec spec now db).VotesSeen L reg v r := by
  intro e data hreg hvote hwindow
  refine (h e data hreg hvote hwindow).exec ?_
  rintro slot rfl
  -- the rollback keeps coverage before its start, which is the start of an epoch
  obtain ⟨first, rfl⟩ : ∃ first, slot = spec.epochStartSlot first := hp
  rw [Db.covered_iff] at hcov
  replace hcov : (db.liveCoverage.deleteWhere _).get (v, L.slotOf r) = some () := hcov
  rw [Table.get_deleteWhere] at hcov
  have hlt := (Option.filter_eq_some_iff.1 hcov).2
  simp only [Bool.not_eq_true', decide_eq_false_iff_not, not_le] at hlt
  rw [spec.slotToEpoch_epochStartSlot]
  exact (Ledger.vote_epoch_le hvote).trans_lt (spec.slotToEpoch_lt_iff.2 hlt)

/-! ## Registered duties -/

/-- Attestation jobs and completions belong to registered duties, and a completed duty has a final row. -/
structure Db.Registered (reg : Nat → Nat → Prop) (db : Db) : Prop where
  jobs : ∀ j row, db.liveJobs.get j = some row → j.component = .attestationRewards → reg j.validator j.epoch
  completed : ∀ v e, db.completed v e = true → reg v e ∧ ∃ a, db.attestationDuties.get (v, e) = some a ∧ a.finalized = true

theorem Db.Registered.exec (hdb : db.Registered reg) (hp : LivePromise V cfg tracked reg op db) :
    (op.exec spec now db).Registered reg where
  jobs j row hrow hc := by
    have hchange : JobChange spec op db (op.exec spec now db) j _ _ := jobChange now op db j
    rw [hrow] at hchange
    generalize hold : db.liveJobs.get j = old at hchange
    cases hchange with
    | kept => exact hdb.jobs j row hold hc
    | enqueued issued hmem => subst issued; exact hp.2 hc _ hmem
    | completed row' => exact hdb.jobs j row' hold hc
    | failed row' => exact hdb.jobs j row' hold hc
    | expired row' => exact hdb.jobs j row' hold hc
  completed v e hcomp := by
    by_cases hc : op.completes = true
    · cases op with
      | promoteCollected p =>
        replace hcomp : (db.promoteCollected spec p).2.completed v e = true := hcomp
        rw [Db.promoteCollected_completed, Bool.or_eq_true] at hcomp
        rcases hcomp with hcomp | hready
        · obtain ⟨hreg, a, ha, hfinal⟩ := hdb.completed v e hcomp
          exact ⟨hreg, exec_att_final ha hfinal⟩
        · obtain ⟨a, ha, -, -, j, row, hrow, rfl, rfl, hj⟩ := Db.readyPairs_row (List.contains_iff_mem.1 hready)
          refine ⟨hdb.jobs j row hrow hj, ?_⟩
          show ∃ a, (db.promoteCollected spec p).2.attestationDuties.get _ = some a ∧ _
          rw [Db.promoteCollected_att, ha, hready]
          exact ⟨_, rfl, Bool.or_true _⟩
      | markComplete vs epoch => exact hp.elim
      | _ => cases hc
    · unfold Db.completed at hcomp
      rw [DbOp.exec_completed (by simpa using hc)] at hcomp
      obtain ⟨hreg, a, ha, hfinal⟩ := hdb.completed v e hcomp
      exact ⟨hreg, exec_att_final ha hfinal⟩

end BeaconIndexer
