/-
What a completion says about all three kinds of rows. An archive scan goes over the slots that the duties of
the finalized epoch name, and `mark_complete` inserts its marker without looking at the rows, so a row that
an earlier pass left in another slot stays behind it without its rewards; a promotion looks. As long as no such
row is left behind, and nothing is written into a completed epoch, a completed pair has every reward.
-/
import BeaconIndexer.Proofs.Aggregates
import BeaconIndexer.Proofs.Gathered

namespace BeaconIndexer

open Effects Relational

variable {spec : ChainSpec}

/-! ## Rows of completed pairs -/

/-- The slot was missed, or the reward is there. -/
def SyncRow.Paid (d : SyncRow) : Prop := d.missedBlock = false → d.reward.isSome = true

/-- The proposal and sync rows of completed pairs have their rewards. -/
structure Db.Earned (spec : ChainSpec) (db : Db) : Prop where
  proposals : ∀ {s d}, db.blockProposals.get s = some d → db.completed d.proposerIndex (spec.slotToEpoch s) = true → d.Paid
  sync : ∀ {v s d}, db.syncDuties.get (v, s) = some d → db.completed v (spec.slotToEpoch s) = true → d.Paid

/-- A scan leaves no row behind without its rewards in a slot that the finalized duties do not give the validator,
and a row is not written without its rewards for a completed pair, unless the final row there keeps the write out. -/
def DbOp.Timely (spec : ChainSpec) (book : DutyBook) : DbOp → Db → Prop
  | .markComplete vs e, db => ∀ v ∈ vs,
      (∀ s d, db.blockProposals.get s = some d → d.proposerIndex = v → spec.slotToEpoch s = e →
        d.Paid ∨ book.proposer s = v) ∧
      ∀ s d, db.syncDuties.get (v, s) = some d → spec.slotToEpoch s = e →
        d.Paid ∨ spec.altairForkEpoch ≤ e ∧ v ∈ book.committee e
  | .upsertBlockProposal s w, db => db.completed w.proposerIndex (spec.slotToEpoch s) = true →
      w.toRow.Paid ∨ ∃ d, db.blockProposals.get s = some d ∧ (d.finalized = true ∨ (w.merge d).Paid)
  | .upsertSyncDuty v s w, db => db.completed v (spec.slotToEpoch s) = true →
      w.toRow.Paid ∨ ∃ d, db.syncDuties.get (v, s) = some d ∧ (d.finalized = true ∨ (w.merge d).Paid)
  | _, _ => True

theorem SyncWrite.paid_merge {w : SyncWrite} (hw : w.toRow.Paid) (old : SyncRow) : (w.merge old).Paid :=
  fun hm => coalesce_isSome (hw hm)

theorem ProposalRow.Paid.promoted {db : Db} {p : Promotion} {s : Nat} {d : ProposalRow} (h : d.Paid) :
    (db.promotedProposal spec p s d).Paid := by
  unfold Db.promotedProposal
  dsimp only
  split
  · exact fun _ => ⟨rfl, rfl, rfl, rfl⟩
  · exact h

theorem SyncRow.Paid.promoted {db : Db} {p : Promotion} {v s : Nat} {d : SyncRow} (h : d.Paid) :
    (db.promotedSync spec p v s d).Paid := by
  intro hm
  show ((db.stagedSyncReward p v s).or d.reward).isSome = true
  rw [Option.isSome_or, h hm, Bool.or_true]

/-! ## Statements -/

section Exec

variable {book : DutyBook} {now : Nat} {op : DbOp} {db : Db}

/-- What a timely upsert leaves in the slot of a completed proposer is paid. -/
theorem Db.Earned.upsertedProposal (h : db.Earned spec) {s : Nat} {w : ProposalWrite}
    (ha : DbOp.Accounted spec book (.upsertBlockProposal s w) db) (ht : DbOp.Timely spec book (.upsertBlockProposal s w) db)
    (hc : db.completed (db.upsertedProposal spec s w (db.blockProposals.get s)).proposerIndex (spec.slotToEpoch s) = true) :
    (db.upsertedProposal spec s w (db.blockProposals.get s)).Paid := by
  cases hold : db.blockProposals.get s with
  | none =>
    rw [hold] at hc
    refine (ht hc).resolve_right ?_
    rintro ⟨d, hd, -⟩
    rw [hold] at hd
    cases hd
  | some old =>
    rw [hold] at hc
    unfold Db.upsertedProposal at hc ⊢
    dsimp only at hc ⊢
    split at hc
    · rename_i hr
      rw [if_pos hr]
      rcases ht hc with hpaid | ⟨d, hd, hf | hmerged⟩
      · exact ProposalWrite.paid_merge hpaid old
      · -- a final row yields to a final write only
        obtain rfl := Option.some.inj (hold.symm.trans hd)
        rw [hf, Bool.not_true, Bool.false_or, Bool.and_eq_true] at hr
        exact ProposalWrite.paid_merge (ha hr.1).2 old
      · obtain rfl := Option.some.inj (hold.symm.trans hd)
        exact hmerged
    · rename_i hr
      rw [if_neg hr]
      exact h.proposals hold hc

theorem Db.Earned.upsertedSync (h : db.Earned spec) {v s : Nat} {w : SyncWrite}
    (ht : DbOp.Timely spec book (.upsertSyncDuty v s w) db) (hc : db.completed v (spec.slotToEpoch s) = true) :
    (db.upsertedSync spec v s w (db.syncDuties.get (v, s))).Paid := by
  cases hold : db.syncDuties.get (v, s) with
  | none =>
    refine (ht hc).resolve_right ?_
    rintro ⟨d, hd, -⟩
    rw [hold] at hd
    cases hd
  | some old =>
    unfold Db.upsertedSync
    dsimp only
    split
    · rename_i hr
      rcases ht hc with hpaid | ⟨d, hd, hf | hmerged⟩
      · exact SyncWrite.paid_merge hpaid old
      · -- the final row of a completed pair is kept
        obtain rfl := Option.some.inj (hold.symm.trans hd)
        rw [hf, hc] at hr
        simp at hr
      · obtain rfl := Option.some.inj (hold.symm.trans hd)
        exact hmerged
    · exact h.sync hold hc

theorem Db.Earned.exec_proposal (h : db.Earned spec) (ha : op.Accounted spec book db) (ht : op.Timely spec book db) {s : Nat}
    {d : ProposalRow} (hd : (op.exec spec now db).blockProposals.get s = some d)
    (hc : (op.exec spec now db).completed d.proposerIndex (spec.slotToEpoch s) = true) : d.Paid := by
  cases op with
  | upsertBlockProposal s' w =>
    replace hd : (db.upsertBlockProposal spec s' w).blockProposals.get s = some d := hd
    replace hc : db.completed d.proposerIndex (spec.slotToEpoch s) = true := hc
    rw [Db.upsertBlockProposal_get] at hd
    split at hd
    · rename_i hs
      subst hs
      obtain rfl := Option.some.inj hd
      exact h.upsertedProposal ha ht hc
    · exact h.proposals hd hc
  | promoteCollected p =>
    replace hd : (db.promoteCollected spec p).2.blockProposals.get s = some d := hd
    replace hc : (db.promoteCollected spec p).2.completed d.proposerIndex (spec.slotToEpoch s) = true := hc
    rw [Db.promoteCollected_proposals] at hd
    obtain ⟨d₀, hd₀, rfl⟩ := Option.map_eq_some_iff.1 hd
    show (db.promotedProposal spec p s d₀).Paid
    replace hc : (db.promoteCollected spec p).2.completed (db.promotedProposal spec p s d₀).proposerIndex
      (spec.slotToEpoch s) = true := hc
    rw [Db.promoteCollected_completed, Db.promotedProposal_proposer, Bool.or_eq_true] at hc
    rcases hc with hc | hc
    · exact (h.proposals hd₀ hc).promoted
    · exact (Db.readyPairs_paid (List.contains_iff_mem.1 hc) (Db.inEpoch_slotToEpoch s)).1 d₀ hd₀ rfl
  | markComplete vs e =>
    replace hd : db.blockProposals.get s = some d := hd
    replace hc : (db.markComplete vs e).completed d.proposerIndex (spec.slotToEpoch s) = true := hc
    rw [Db.markComplete_completed, Bool.or_eq_true] at hc
    rcases hc with hc | hc
    · exact h.proposals hd hc
    · obtain ⟨hv, he⟩ := (Bool.and_eq_true _ _).mp hc
      replace hv := List.contains_iff_mem.1 hv
      obtain rfl : spec.slotToEpoch s = e := by simpa using he
      rcases (ht _ hv).1 s d hd rfl rfl with hpaid | hproposer
      · exact hpaid
      · -- the slot was gone over by the scan
        obtain ⟨d', hd', -, ⟨-, hpaid⟩ | ⟨-, hdone⟩⟩ := (ha _ hv).proposals s (mem_epochSlots s) hproposer
        · obtain rfl := Option.some.inj (hd.symm.trans hd')
          exact hpaid
        · obtain rfl := Option.some.inj (hd.symm.trans hd')
          exact h.proposals hd hdone
  | invalidateFrom r =>
    replace hd : (db.blockProposals.deleteWhere _).get s = some d := hd
    rw [Table.get_deleteWhere] at hd
    exact h.proposals (Option.filter_eq_some_iff.1 hd).1 hc
  | _ => exact h.proposals hd hc

theorem Db.Earned.exec_sync (h : db.Earned spec) (ha : op.Accounted spec book db) (ht : op.Timely spec book db) {v s : Nat}
    {d : SyncRow} (hd : (op.exec spec now db).syncDuties.get (v, s) = some d)
    (hc : (op.exec spec now db).completed v (spec.slotToEpoch s) = true) : d.Paid := by
  cases op with
  | upsertSyncDuty v' s' w =>
    replace hd : (db.upsertSyncDuty spec v' s' w).syncDuties.get (v, s) = some d := hd
    replace hc : db.completed v (spec.slotToEpoch s) = true := hc
    rw [Db.upsertSyncDuty_get] at hd
    split at hd
    · rename_i hk
      obtain ⟨rfl, rfl⟩ := Prod.mk.inj hk
      obtain rfl := Option.some.inj hd
      exact h.upsertedSync ht hc
    · exact h.sync hd hc
  | persistLiveSyncRewards s' rewards =>
    replace hd : (db.syncDuties.modify _).get (v, s) = some d := hd
    rw [Table.get_modify] at hd
    obtain ⟨d₀, hd₀, hd⟩ := Option.bind_eq_some_iff.1 hd
    obtain rfl := Option.some.inj hd
    have hpaid := h.sync hd₀ hc
    split
    · split
      · exact fun _ => rfl
      · exact hpaid
    · exact hpaid
  | promoteCollected p =>
    replace hd : (db.promoteCollected spec p).2.syncDuties.get (v, s) = some d := hd
    replace hc : (db.promoteCollected spec p).2.completed v (spec.slotToEpoch s) = true := hc
    rw [Db.promoteCollected_sync] at hd
    obtain ⟨d₀, hd₀, rfl⟩ := Option.map_eq_some_iff.1 hd
    show (db.promotedSync spec p v s d₀).Paid
    rw [Db.promoteCollected_completed, Bool.or_eq_true] at hc
    rcases hc with hc | hc
    · exact (h.sync hd₀ hc).promoted
    · exact (Db.readyPairs_paid (List.contains_iff_mem.1 hc) (Db.inEpoch_slotToEpoch s)).2 d₀ hd₀
  | markComplete vs e =>
    replace hd : db.syncDuties.get (v, s) = some d := hd
    replace hc : (db.markComplete vs e).completed v (spec.slotToEpoch s) = true := hc
    rw [Db.markComplete_completed, Bool.or_eq_true] at hc
    rcases hc with hc | hc
    · exact h.sync hd hc
    · obtain ⟨hv, he⟩ := (Bool.and_eq_true _ _).mp hc
      replace hv := List.contains_iff_mem.1 hv
      obtain rfl : spec.slotToEpoch s = e := by simpa using he
      rcases (ht _ hv).2 s d hd rfl with hpaid | ⟨haltair, hmember⟩
      · exact hpaid
      · rcases (ha _ hv).sync haltair hmember s (mem_epochSlots s) with ⟨d', hd', -, hr⟩ | hdone
        · obtain rfl := Option.some.inj (hd.symm.trans hd')
          exact fun _ => hr
        · exact h.sync hd hdone
  | invalidateFrom r =>
    replace hd : (db.syncDuties.deleteWhere _).get (v, s) = some d := hd
    rw [Table.get_deleteWhere] at hd
    exact h.sync (Option.filter_eq_some_iff.1 hd).1 hc
  | _ => exact h.sync hd hc

/-- A statement that is accounted for and timely keeps completed pairs paid. -/
theorem Db.Earned.exec (h : db.Earned spec) (ha : op.Accounted spec book db) (ht : op.Timely spec book db) :
    (op.exec spec now db).Earned spec :=
  ⟨fun hd hc => h.exec_proposal ha ht hd hc, fun hd hc => h.exec_sync ha ht hd hc⟩

/-- Every included row has the slot of its inclusion. -/
def Db.Slotted (db : Db) : Prop :=
  ∀ k a, db.attestationDuties.get k = some a → a.included = true → a.inclusionSlot.isSome = true

theorem Db.Slotted.exec (h : db.Slotted) (ho : op.Decodes) : (op.exec spec now db).Slotted := by
  rintro ⟨v, e⟩ a hget
  have hchange := dutyChange_of_some hget
  generalize hbefore : db.attestationDuties.get (v, e) = before at hchange
  cases hchange with
  | kept => exact h _ a hbefore
  | inserted issued =>
    subst issued
    exact fun hi => (ho hi).1
  | replaced old issued hr =>
    subst issued
    exact fun hi => (ho hi).1
  | repaired old issued hr => exact fun _ => rfl
  | rewarded old r issued hp => exact h _ old hbefore
  | marked old issued mem => exact h _ old hbefore
  | promoted old issued =>
    rename_i p
    have hjoined : (db.joinedRow p v e old).included = true → (db.joinedRow p v e old).inclusionSlot.isSome = true := by
      unfold Db.joinedRow
      split
      · split
        · exact h _ old hbefore
        · exact h _ old hbefore
      · exact h _ old hbefore
    exact hjoined

end Exec

/-! ## A scan that fails -/

section Errors

variable (spec) (node : (q : Request) → Except Error q.Answer → Prop)

/-- A scan among other workers: each of its effects meets whatever database they have made meanwhile. The counter
goes up where a statement of the scan itself changes the markers. -/
def amongOthers : Sem indexer (Db × Nat) := fun e s r s' => ∃ db, indexerSem spec node e db r s'.1 ∧
  (s'.1.completedScans = db.completedScans ∧ s'.2 = s.2 ∨ s'.1.completedScans ≠ db.completedScans ∧ s'.2 = s.2 + 1)

variable {spec node}

/-- The effect is no statement that sets markers. -/
def Unmarked (e : Effect) (_ : Db × Nat) : Prop := ∀ op, e = .db op → op.completes = false

theorem amongOthers_unmarked {e : Effect} {s s' : Db × Nat} {r : Effect.Result e} (he : Unmarked e s)
    (h : amongOthers spec node e s r s') : s'.2 = s.2 := by
  obtain ⟨db, hsem, ⟨-, hcount⟩ | ⟨hchanged, -⟩⟩ := h
  · exact hcount
  · refine absurd ?_ hchanged
    cases e with
    | node q => rw [hsem.2]
    | db op =>
      rcases hsem with ⟨now, -, hdb⟩ | ⟨m, -, hdb⟩
      · rw [hdb, DbOp.exec_completed (he op rfl)]
      · rw [hdb]

theorem amongOthers_grants : Grants ((Contract.alone (amongOthers spec node)).withGuar Unmarked)
    (fun op => op.completes = false) fun _ => True where
  node _ _ op h := by cases h
  db _ _ hop op' h := by
    cases h
    exact hop
  active := fun ⟨_, h, _⟩ => indexerSem_active h
  eligible := fun ⟨_, h, _⟩ => indexerSem_eligible h
  sync _ _ _ _ := trivial

variable {n epoch : Nat} {vs : List Nat}

/-- A stage leaves the counter as it was, however it ends. -/
theorem amongOthers_stage {x : Task Unit}
    (hx : ((Contract.alone (amongOthers spec node)).withGuar Unmarked).Always x fun _ => True) (t : Db × Nat) (ht : t.2 = n) :
    (Contract.alone (amongOthers spec node)).Ok x t (fun _ t' => t'.2 = n) fun _ t' => t'.2 = n := by
  have hrely : ∀ t t', (Contract.alone (amongOthers spec node)).rely t t' → t.2 = n → t'.2 = n := by
    rintro t t' (rfl : t = t') h
    exact h
  have hfree : (Contract.alone (amongOthers spec node)).Ok x t (fun _ _ => True) fun _ _ => True :=
    Contract.Always.free (fun _ _ => trivial) x t
  exact (hfree.keep (hx t) hrely (fun e t r t' he hsem h => (amongOthers_unmarked he hsem).trans h) ht).mono
    (fun _ _ h => h.2) fun _ _ h => h.2

/-- The marker is not set where its statement fails. -/
theorem amongOthers_mark (t : Db × Nat) (ht : t.2 = n) : (Contract.alone (amongOthers spec node)).Ok
    (statement (.markComplete vs epoch)) t (fun _ _ => True) fun _ t' => t'.2 = n := by
  refine .ask (fun _ _ => trivial) fun t₁ r t₂ t₃ hr hsem hr' => ?_
  obtain rfl : t = t₁ := hr
  obtain rfl : t₂ = t₃ := hr'
  obtain ⟨db, ⟨now, rfl, hdb⟩ | ⟨m, rfl, hdb⟩, hcount⟩ := hsem
  · trivial
  · rcases hcount with ⟨-, hcount⟩ | ⟨hchanged, -⟩
    · exact hcount.trans ht
    · exact absurd (by rw [hdb]) hchanged

/-- A scan that ends with an error has added no marker: the marker is its last statement. -/
theorem scanEpoch_error {mode : EffectiveScanMode} {s s' : Db × Nat} {error : Error}
    (hx : Exec (amongOthers spec node) (scanEpoch spec epoch vs true mode).run s (.error error) s') : s'.2 = s.2 := by
  let C : Contract indexer (Db × Nat) := .alone (amongOthers spec node)
  have hg : Grants (C.withGuar Unmarked) (fun op => op.completes = false) fun _ => True := amongOthers_grants
  have hissue : ∀ op, ScanIssue vs epoch (fun _ => True) op → op.writesInclusions = false →
      op ≠ .markComplete vs epoch → op.completes = false := by
    intro op hop _ hne
    cases hop with
    | markComplete => exact absurd rfl hne
    | _ => rfl
  have tail : ∀ t, t.2 = s.2 → C.Ok (do
      processEpochProposals spec epoch vs true
      if spec.altairForkEpoch ≤ epoch then processEpochSync spec epoch vs true
      statement (.markComplete vs epoch)) t (fun _ _ => True) fun _ t' => t'.2 = s.2 := by
    intro t ht
    refine .bind ((amongOthers_stage (hg.processEpochProposals spec hissue) t ht).imp fun _ t ht => .ite (fun _ => ?_) fun _ =>
      amongOthers_mark t ht)
    exact .bind ((amongOthers_stage (hg.processEpochSync spec hissue) t ht).imp fun _ t ht => amongOthers_mark t ht)
  have hscan : C.Ok (scanEpoch spec epoch vs true mode) s (fun _ _ => True) fun _ t' => t'.2 = s.2 := by
    refine .ite (fun _ => .pure fun _ _ => trivial) fun _ => ?_
    cases mode with
    | dense =>
      exact .bind ((amongOthers_stage (hg.processEpochAttestationDuties_of spec fun _ _ _ _ _ => rfl) s rfl).imp
        fun _ t ht => tail t ht)
    | sparse =>
      exact .bind ((amongOthers_stage (hg.processEpochAttestationDutiesSparse_of spec fun _ _ _ _ => rfl) s rfl).imp
        fun _ t ht => tail t ht)
  have hpost := Contract.Safe.exec hx hscan
  exact hpost

end Errors

/-! ## Runs -/

section Runs

variable {κ : Type} (spec : ChainSpec) (net : Network) (cfg : κ → LiveConfig spec) (owns : κ → List Nat → Prop)
  (final : net.View → Nat → Prop) (book : DutyBook)

/-- The workers, where an archive worker only scans an epoch that its view shows as finalized. -/
def finalizedIndexers : System indexer (κ × Role) net.View Memory (Db × net.Past) :=
  { indexers spec net cfg owns with
    begins := fun i m s w p s' =>
      (∀ n epoch vs mode, i.2 = .archive n → p = archiveScan spec epoch vs mode → final w epoch) ∧
        (indexers spec net cfg owns).begins i m s w p s' }

/-- Their runs of timely statements. -/
def timelyIndexers : System indexer (κ × Role) net.View Memory (Db × net.Past) :=
  (finalizedIndexers spec net cfg owns final).restrict fun _ _ e s => match e with
    | .node _ => True
    | .db op => op.Timely spec book s.1

/-- The workers account for their statements here as they do everywhere. -/
def finalizedAccounting : (finalizedIndexers spec net cfg owns final).Discipline :=
  { accounting spec net cfg owns book with }

variable {spec net cfg owns final book}

/-- Only the views that archive scans begin against have to follow the book. -/
theorem finalizedAccounting_sound [DecidableEq κ] (hbook : ∀ w epoch, final w epoch → net.FollowsAt spec book w epoch) :
    (finalizedIndexers spec net cfg owns final).Sound (finalizedAccounting spec net cfg owns final book) fun _ => True where
  begins := by
    rintro i m s w p s' - - ⟨hfinal, hb, -, hdb⟩
    have hsafe := begins_accounting (i := i) (fun n epoch vs mode hi hp => hbook w epoch (hfinal n epoch vs mode hi hp)) hb s'
    exact ⟨trivial, hsafe, fun _ _ => ⟨fun _ h => hdb ▸ h, fun _ _ h => hdb ▸ h⟩⟩
  acts := by
    intro i w e s r s' _ hg hsem
    have hguar : ((accounting spec net cfg owns book).contract i w).guar e s := hg
    have hr : ((accounting spec net cfg owns book).contract i w).rely s s' := accounting_sem hguar hsem
    exact ⟨trivial, fun _ _ => hr⟩
  finish _ _ := trivial
  restart _ _ := trivial
  idle _ _ := trivial

theorem Db.Earned.empty : Db.empty.Earned spec := by
  constructor
  · intro s d hd
    cases hd
  · intro v s d hd
    cases hd

theorem earned_reach [DecidableEq κ] (hbook : ∀ w epoch, final w epoch → net.FollowsAt spec book w epoch) {past : net.Past}
    {c : Configuration κ net} (hr : (timelyIndexers spec net cfg owns final book).Reach (initial κ net past) c) :
    c.state.1.Earned spec := by
  have hsound : (finalizedIndexers spec net cfg owns final).Sound (finalizedAccounting spec net cfg owns final book)
      fun _ => True := finalizedAccounting_sound hbook
  -- every statement of the run is accounted for, so it may be assumed
  have hrun := (hsound.under _).reach_guarded hr ⟨trivial, fun _ => trivial⟩
  clear hr
  induction hrun with
  | refl => exact .empty
  | @tail c₁ c₂ _ hs ih =>
    cases hs with
    | start hp hb => exact hb.2.2.2 ▸ ih
    | @act i w e k r s' hp hsem =>
      obtain ⟨hg, ht, hsem, -⟩ := hsem
      cases e with
      | node q => exact hsem.2 ▸ ih
      | db op =>
        rcases hsem with ⟨now, -, hdb⟩ | ⟨m, -, hdb⟩
        · exact hdb ▸ ih.exec hg.1 ht
        · exact hdb ▸ ih
    | finish hp => exact ih
    | crash hre => exact ih

theorem reach_indexers [DecidableEq κ] {c c' : Configuration κ net}
    (hr : (timelyIndexers spec net cfg owns final book).Reach c c') : (indexers spec net cfg owns).Reach c c' := by
  refine Relation.ReflTransGen.mono (fun a b hs => ?_) _ _ hr
  cases hs with
  | start hp hb => exact .start hp hb.2
  | act hp hsem => exact .act hp hsem.2
  | finish hp => exact .finish hp
  | crash hre => exact .crash hre

/-- Where the duties of finalized epochs do not change, every run of timely statements keeps each completed pair
complete: its attestation row is final, known and has its rewards, and its slot, delay and votes if the duty was
included, and the proposals and sync rows of the validator in the epoch have their rewards. A scan that fails adds
no marker. -/
theorem completed_rows_earned [DecidableEq κ] (hbook : ∀ w epoch, final w epoch → net.FollowsAt spec book w epoch)
    {past : net.Past} {c : Configuration κ net}
    (hr : (timelyIndexers spec net cfg owns final book).Reach (initial κ net past) c) :
    (∀ v e, c.state.1.completed v e = true →
      (∃ a, c.state.1.attestationDuties.get (v, e) = some a ∧ a.finalized = true ∧ a.inclusionKnown = true ∧
        a.sourceReward.isSome = true ∧ a.targetReward.isSome = true ∧ a.headReward.isSome = true ∧
        (a.included = true → a.inclusionSlot.isSome = true ∧ a.effectiveInclusionDelay.isSome = true ∧
          a.sourceCorrect.isSome = true ∧ a.targetCorrect.isSome = true ∧ a.headCorrect.isSome = true)) ∧
      (∀ s d, c.state.1.blockProposals.get s = some d → d.proposerIndex = v → spec.slotToEpoch s = e →
        d.proposed = true → d.rewardTotal.isSome = true ∧ d.rewardAttestations.isSome = true ∧
          d.rewardSync.isSome = true ∧ d.rewardSlashings.isSome = true) ∧
      ∀ s d, c.state.1.syncDuties.get (v, s) = some d → spec.slotToEpoch s = e → d.missedBlock = false →
        d.reward.isSome = true) ∧
    ∀ (node : (q : Request) → Except Error q.Answer → Prop) epoch vs mode s s' error,
      Exec (amongOthers spec node) (scanEpoch spec epoch vs true mode).run s (.error error) s' → s'.2 = s.2 := by
  refine ⟨fun v e hc => ?_, fun _ _ _ _ _ _ _ hx => scanEpoch_error hx⟩
  have hall := reach_indexers hr
  have hwhole : (indexers spec net cfg owns).Sound (completing spec net cfg owns) fun s => s.1.Whole spec ∧ True :=
    completing_sound (fun _ => True) fun _ _ _ _ _ h => h
  obtain ⟨⟨hw, -⟩, -⟩ := hwhole.reach hall (good_initial past)
  have hslotted : (indexers spec net cfg owns).Sound (decoding spec net cfg owns) fun s => s.1.Slotted :=
    decoding_sound Db.Slotted fun _ _ _ ho h => h.exec ho
  obtain ⟨hslots, -⟩ := hslotted.reach hall ⟨(fun k a ha => by cases ha), fun _ => trivial⟩
  have hearned := earned_reach hbook hr
  obtain ⟨a, ha, hf⟩ := hw.frozen.rows v e hc
  obtain ⟨a', ha', hs⟩ := hw.scanned v e hc
  obtain rfl : a = a' := Option.some.inj (ha.symm.trans ha')
  refine ⟨⟨a, ha, hf.finalized, hf.known, hs.source, hs.target, hs.head, fun hi => ?_⟩, ?_, ?_⟩
  · exact ⟨hslots _ a ha hi, AttestationRow.lacksDetails_eq_false.1 (hs.details hi)⟩
  · rintro s d hd rfl rfl hp
    exact hearned.proposals hd hc hp
  · rintro s d hd rfl hm
    exact hearned.sync hd hc hm

end Runs

/-- Nothing is completed before 7 is, which proposes in every slot and sits in every committee. -/
def sevenTimely : Effect → Db × Unit → Bool
  | .db (.markComplete vs _), _ => vs == [7]
  | .db (.upsertBlockProposal slot w), s => !s.1.completed w.proposerIndex (SyncEpoch.oneSlotSpec.slotToEpoch slot)
  | .db (.upsertSyncDuty v slot _), s => !s.1.completed v (SyncEpoch.oneSlotSpec.slotToEpoch slot)
  | _, _ => true

theorem timely_of_sevenTimely {op : DbOp} {s : Db × Unit} (h : sevenTimely (.db op) s = true) :
    op.Timely SyncEpoch.oneSlotSpec sevenBook s.1 := by
  cases op with
  | markComplete vs e =>
    obtain rfl : vs = [7] := eq_of_beq h
    intro v hv
    obtain rfl := List.mem_singleton.1 hv
    have hmember : 7 ∈ SyncEpoch.repeatedCommittee := by decide
    exact ⟨fun _ _ _ _ _ => .inr rfl, fun _ _ _ _ => .inr ⟨Nat.zero_le _, hmember⟩⟩
  | upsertBlockProposal slot w =>
    intro hc
    simp [sevenTimely, hc] at h
  | upsertSyncDuty v slot w =>
    intro hc
    simp [sevenTimely, hc] at h
  | _ => trivial

theorem completed_rows_earned_seven : ∃ c : Configuration Unit sevenNet,
    (timelyIndexers SyncEpoch.oneSlotSpec sevenNet (fun _ : Unit => sevenLag) (fun _ _ => True) (fun _ _ => True)
      sevenBook).Reach (initial Unit sevenNet ()) c ∧ c.state.1.completed 7 0 = true ∧
    ∃ d, c.state.1.blockProposals.get 0 = some d ∧ d.proposed = true ∧ d.rewardTotal.isSome = true := by
  have hscan : ((archiveScan SyncEpoch.oneSlotSpec 0 [7] .sparse).advance sevenTimely sevenHandler 40 (.registered [7], ())).any
      (fun r => r.1.result? == some .stopped && (r.2.1.completed 7 0 &&
        (r.2.1.blockProposals.get 0).any fun d => d.proposerIndex == 7 && d.proposed)) = true := by decide +kernel
  obtain ⟨⟨p, s⟩, ha, h⟩ := (Option.any_eq_true _ _).1 hscan
  obtain ⟨hp, h⟩ := (Bool.and_eq_true _ _).mp h
  obtain ⟨hc, hrow⟩ := (Bool.and_eq_true _ _).mp h
  obtain ⟨d, hd, h⟩ := (Option.any_eq_true _ _).1 hrow
  obtain ⟨hproposer, hproposed⟩ := (Bool.and_eq_true _ _).mp h
  let A := timelyIndexers SyncEpoch.oneSlotSpec sevenNet (fun _ : Unit => sevenLag) (fun _ _ => True) (fun _ _ => True)
    sevenBook
  have hsem : ∀ e s, sevenTimely e s = true → A.sem ((), .archive 0) () e s (sevenHandler e s).1 (sevenHandler e s).2 := by
    rintro (q | op) s hok
    · exact ⟨trivial, ⟨rfl, rfl⟩, rfl⟩
    · exact ⟨timely_of_sevenTimely hok, .inl ⟨0, rfl, rfl⟩, rfl⟩
  let c := (initial Unit sevenNet ()).set ((), .metadata) (.idle .stopped) (.registered [7], ())
  have hmeta : A.Reach (initial Unit sevenNet ()) c :=
    @reach_registered sevenNet A () () ⟨nofun, .refresh, trivial, rfl⟩ ⟨trivial, .inl ⟨0, rfl, rfl⟩, rfl⟩
  have hb : A.begins ((), .archive 0) .stopped (.registered [7], ()) () (archiveScan SyncEpoch.oneSlotSpec 0 [7] .sparse)
      (.registered [7], ()) := ⟨fun _ _ _ _ _ _ => trivial, .scan trivial, trivial, rfl⟩
  obtain ⟨-, hscanned⟩ := System.reach_program hsem (c := c) rfl hb ha (beq_iff_eq.1 hp)
  have hr := hmeta.trans hscanned
  obtain ⟨-, hproposals, -⟩ := (completed_rows_earned (fun _ epoch _ => sevenNet_follows () epoch) hr).1 7 0 hc
  exact ⟨_, hr, hc, d, hd, hproposed, (hproposals 0 d hd (beq_iff_eq.1 hproposer) rfl hproposed).1⟩

/-! ## A proposer of another branch -/

/-- The finalized chain gives every slot but the first to validator 8, and has nobody in its committees. -/
def strayBook : DutyBook := ⟨fun slot => if slot = 0 then 7 else 8, fun _ => []⟩

/-- At head 0 the node answers for the finalized chain. -/
def strayFinalized (head : Nat) : Nat := if head = 0 then 5 else 0

/-- The branches share the block of slot 0 only. -/
def strayRoot (head slot : Nat) : Root := ⟨if head = 0 ∧ slot ≠ 0 then slot + 101 else slot + 1⟩

/-- Up to its head, the branch of the live worker gives every slot to validator 7. -/
def strayAnswers (head : Nat) : (q : Request) → Except Error q.Answer
  | .finalityCheckpoints _ =>
    let finalized : Checkpoint := ⟨strayFinalized head, strayRoot head (strayFinalized head)⟩
    .ok ⟨⟨finalized, finalized⟩, none⟩
  | .syncDuties _ _ => .ok []
  | .syncCommittee _ => .error (.http "no answer")
  | .blockRewardsByRoot _ => .error (.http "no answer")
  | .proposerDuties epoch => .ok [⟨if head = 0 ∧ epoch ≠ 0 then 8 else 7, epoch⟩]
  | .blockRoot s => .ok (if s ≤ 5 then some (strayRoot head s) else none)
  | .blockByRoot r =>
    if 101 < r.value then
      .ok (some ⟨r.value - 101, 8, strayRoot 0 (r.value - 102), ⟨r.value - 1⟩, .altair [] ⟨['0', '0']⟩⟩)
    else growingAnswers head (.blockByRoot r)
  | .header id => if head = 0 then .error (.http "no answer") else growingAnswers head (.header id)
  | q => growingAnswers head q

def strayNet : Network := ⟨Nat, Unit, fun head q r => r = strayAnswers head q, fun _ _ _ => True⟩

/-- The node shows the epoch as finalized. -/
def strayFinal (head epoch : Nat) : Prop := epoch ≤ strayFinalized head

theorem strayNet_follows {head epoch : Nat} (h : strayFinal head epoch) :
    strayNet.FollowsAt SyncEpoch.oneSlotSpec strayBook head epoch := by
  constructor
  · intro duties hduties d hd
    cases hduties
    obtain rfl := List.mem_singleton.1 hd
    show (if head = 0 ∧ epoch ≠ 0 then 8 else 7) = if epoch = 0 then 7 else 8
    by_cases hhead : head = 0
    · by_cases hepoch : epoch = 0 <;> simp [hhead, hepoch]
    · have hzero : epoch = 0 := by simpa [strayFinal, strayFinalized, hhead] using h
      simp [hzero]
  · intro vs duties _ v _ hc
    cases hc
  · intro members h
    cases h
  · intro root b h _
    replace h : .ok (some b) = strayAnswers head (.blockByRoot root) := h
    by_cases hroot : 101 < root.value
    · cases h.trans (if_pos hroot)
      rfl
    · cases h.trans (if_neg hroot)
      rfl

def strayHandler (head : Nat) : (e : Effect) → Db × Unit → e.Result × (Db × Unit)
  | .node q, s => (strayAnswers head q, s)
  | .db op, s => (.ok (op.answer SyncEpoch.oneSlotSpec 0 s.1), (op.exec SyncEpoch.oneSlotSpec 0 s.1, s.2))

abbrev strayIndexers : System indexer (Unit × Role) Nat Memory (Db × Unit) :=
  finalizedIndexers SyncEpoch.oneSlotSpec strayNet (fun _ : Unit => sevenLag) (fun _ _ => True) strayFinal

def strayScan (s : Db × Unit) : Option (Prog indexer Memory × (Db × Unit)) :=
  (archiveScan SyncEpoch.oneSlotSpec 4 [7] .sparse).advance (fun _ _ => true) (strayHandler 0) 60 s

/-- The scan begins with a request that names its epoch, which the node shows as finalized. -/
theorem strayScan_final {epoch : Nat} {vs : List Nat} {mode : EffectiveScanMode}
    (h : archiveScan SyncEpoch.oneSlotSpec 4 [7] .sparse = archiveScan SyncEpoch.oneSlotSpec epoch vs mode) :
    strayFinal 0 epoch := by
  have hnext : some (Effect.node (.attesterDuties 4 [7])) = (archiveScan SyncEpoch.oneSlotSpec epoch vs mode).next? :=
    congrArg Prog.next? h
  cases vs with
  | nil => cases hnext
  | cons v vs =>
    cases mode with
    | dense => cases hnext
    | sparse =>
      replace hnext : some (Effect.node (.attesterDuties 4 [7])) = some (Effect.node (.attesterDuties epoch (v :: vs))) := hnext
      cases hnext
      exact Nat.le_succ 4

/-- The completed pair of 7 in epoch 4 with its proposal row. -/
def strayDone (db : Db) : Bool :=
  db.completed 7 4 && (db.blockProposals.get 4).any fun d => d.proposerIndex == 7 && d.proposed && d.rewardTotal.isNone

/-- The live worker writes the proposal of 7 in slot 4 as its branch has it. The finalized chain gives the slot to 8,
whom nobody tracks, so the scan of 7 completes the epoch without going over the row. -/
theorem stray_proposal_completed :
    (∀ head epoch, strayFinal head epoch → strayNet.FollowsAt SyncEpoch.oneSlotSpec strayBook head epoch) ∧
    ∃ c : Configuration Unit strayNet, strayIndexers.Reach (initial Unit strayNet ()) c ∧ c.state.1.completed 7 4 = true ∧
      ∃ d, c.state.1.blockProposals.get 4 = some d ∧ d.proposerIndex = 7 ∧ d.proposed = true ∧ d.rewardTotal = none := by
  refine ⟨fun _ _ => strayNet_follows, ?_⟩
  let any : Effect → Db × Unit → Bool := fun _ _ => true
  have hplay : ((refresh 7 0 none).advance any (strayHandler 4) 2 (Db.empty, ())).any (fun r =>
      r.1.result? == some .stopped && ([4, 4, 7].foldlM (liveTurn any strayHandler) (.stopped, r.2)).any fun y =>
        (strayScan y.2).any fun t => t.1.result? == some .stopped && strayDone t.2.1) = true := by decide +kernel
  have hsem : ∀ i head e s, any e s = true → strayIndexers.sem i head e s (strayHandler head e s).1 (strayHandler head e s).2 := by
    rintro i head (q | op) s -
    · exact ⟨⟨rfl, rfl⟩, rfl⟩
    · exact ⟨.inl ⟨0, rfl, rfl⟩, rfl⟩
  -- the validator is registered, the live worker collects up to slot 5, and the archive worker scans epoch 4
  obtain ⟨⟨p₁, s₁⟩, ha₁, h⟩ := (Option.any_eq_true _ _).1 hplay
  obtain ⟨hp₁, h⟩ := (Bool.and_eq_true _ _).mp h
  obtain ⟨y, hy, h⟩ := (Option.any_eq_true _ _).1 h
  obtain ⟨⟨p₃, s₃⟩, ha₃, h⟩ := (Option.any_eq_true _ _).1 h
  obtain ⟨hp₃, hdone⟩ := (Bool.and_eq_true _ _).mp h
  have hb₁ : strayIndexers.begins ((), .metadata) .stopped (Db.empty, ()) 4 (refresh 7 0 none) (Db.empty, ()) :=
    ⟨nofun, .refresh, trivial, rfl⟩
  obtain ⟨-, hr₁⟩ := System.reach_program (hsem _ 4) (c := initial Unit strayNet ()) rfl hb₁ ha₁ (beq_iff_eq.1 hp₁)
  have hlive : ∀ head m s, strayIndexers.begins ((), .live) m s head (growingProgram m) s :=
    fun _ m _ => ⟨nofun, begins_growing m, trivial, rfl⟩
  let c₁ : Configuration Unit strayNet := (initial Unit strayNet ()).set ((), .metadata) (.idle .stopped) s₁
  have hrest : ∀ i, i ≠ ((), .metadata) → c₁.proc i = .idle .stopped := by
    intro i hi
    show Function.update (initial Unit strayNet ()).proc ((), .metadata) (.idle .stopped) i = .idle .stopped
    rw [Function.update_of_ne hi]
    rfl
  obtain ⟨c₂, hr₂, hs₂, hothers⟩ := live_reach (hsem _) hlive _ (c := c₁) (hrest _ (by decide)) rfl hy
  have hidle : c₂.proc ((), .archive 0) = .idle .stopped := (hothers _ (by decide)).trans (hrest _ (by decide))
  have hb₃ : strayIndexers.begins ((), .archive 0) .stopped c₂.state 0 (archiveScan SyncEpoch.oneSlotSpec 4 [7] .sparse) y.2 :=
    ⟨fun n epoch vs mode _ hscan => strayScan_final hscan, .scan trivial, trivial, congrArg Prod.fst hs₂.symm⟩
  obtain ⟨-, hr₃⟩ := System.reach_program (hsem _ 0) hidle hb₃ ha₃ (beq_iff_eq.1 hp₃)
  obtain ⟨hc, hrow⟩ := (Bool.and_eq_true _ _).mp hdone
  obtain ⟨d, hd, hd'⟩ := (Option.any_eq_true _ _).1 hrow
  simp only [Bool.and_eq_true, beq_iff_eq, Option.isNone_iff_eq_none] at hd'
  exact ⟨_, hr₁.trans (hr₂.trans hr₃), hc, d, hd, hd'.1.1, hd'.1.2, hd'.2⟩

end BeaconIndexer
