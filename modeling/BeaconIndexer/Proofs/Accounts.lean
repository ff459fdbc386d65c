/-
What an archive scan has written of the other two tables when it records a completion. Its proposal and
sync stages go over every slot of the epoch, so where the node's duties do not change a pair that a scan
completes has a final proposal row for each slot it proposes in and a final sync row for each slot of its
committee, with the rewards. Other workers write to the same slots meanwhile, but nothing final loses a
reward or its proposer to them.
-/
import BeaconIndexer.Proofs.Completion
import BeaconIndexer.Proofs.Responses
import BeaconIndexer.Proofs.SyncRows

namespace BeaconIndexer

open Effects Relational

variable {spec : ChainSpec}

/-! ## Duties that do not change -/

/-- Who proposes in each slot, and who sits in each epoch's sync committee. -/
structure DutyBook where
  proposer : Nat → Nat
  committee : Nat → List Nat

/-- The answers about one epoch that a view gives are read off the book, and blocks since Altair carry a sync aggregate. -/
structure Network.FollowsAt (net : Network) (spec : ChainSpec) (book : DutyBook) (w : net.View) (epoch : Nat) : Prop where
  proposers : ∀ {duties}, net.answers w (.proposerDuties epoch) (.ok duties) →
    ∀ d ∈ duties, d.validatorIndex = book.proposer d.slot
  members : ∀ {vs duties}, net.answers w (.syncDuties epoch vs) (.ok duties) →
    ∀ v ∈ vs, v ∈ book.committee epoch → ∃ d ∈ duties, d.validatorIndex = v
  committee : ∀ {members}, net.answers w (.syncCommittee epoch) (.ok members) → members = book.committee epoch
  aggregates : ∀ {root b}, net.answers w (.blockByRoot root) (.ok (some b)) →
    spec.altairForkEpoch ≤ spec.slotToEpoch b.slot → b.syncAggregate.isSome = true

/-- Every view answers about every epoch by the book. -/
def Network.Follows (net : Network) (spec : ChainSpec) (book : DutyBook) : Prop := ∀ w epoch, net.FollowsAt spec book w epoch

theorem slotToEpoch_of_mem {e s : Nat} (h : s ∈ epochSlots spec e) : spec.slotToEpoch s = e := by
  rw [epochSlots, List.mem_range'_1, ← spec.epochStartSlot_succ] at h
  have hlo : e ≤ spec.slotToEpoch s := spec.le_slotToEpoch_iff.2 h.1
  have hhi : spec.slotToEpoch s < e + 1 := spec.slotToEpoch_lt_iff.2 h.2
  omega

theorem mem_epochSlots (s : Nat) : s ∈ epochSlots spec (spec.slotToEpoch s) := by
  rw [epochSlots, List.mem_range'_1, ← spec.epochStartSlot_succ]
  exact ⟨spec.epochStartSlot_slotToEpoch_le s, spec.slotToEpoch_lt_iff.1 (Nat.lt_succ_self _)⟩

/-- The schedule of an epoch names the book's proposer of each slot. -/
theorem Scheduled.mem_of_book {book : DutyBook} {epoch : Nat} {duties : List ProposerDuty} (h : Scheduled spec epoch duties)
    (hbook : ∀ d ∈ duties, d.validatorIndex = book.proposer d.slot) {slot : Nat} (hslot : slot ∈ epochSlots spec epoch) :
    ⟨book.proposer slot, slot⟩ ∈ duties := by
  have hmem : slot ∈ duties.map (·.slot) := (scheduled_iff_perm.1 h).mem_iff.2 hslot
  obtain ⟨d, hd, rfl⟩ := List.mem_map.1 hmem
  rw [← hbook d hd]
  exact hd

/-! ## Rows that are accounted for -/

/-- A proposal with its four rewards, or a missed one. -/
def ProposalRow.Paid (d : ProposalRow) : Prop :=
  d.proposed = true → d.rewardTotal.isSome = true ∧ d.rewardAttestations.isSome = true ∧ d.rewardSync.isSome = true ∧
    d.rewardSlashings.isSome = true

theorem ProposalWrite.paid_merge {w : ProposalWrite} (hw : w.toRow.Paid) (old : ProposalRow) : (w.merge old).Paid := by
  intro hp
  obtain ⟨h1, h2, h3, h4⟩ := hw hp
  exact ⟨coalesce_isSome h1, coalesce_isSome h2, coalesce_isSome h3, coalesce_isSome h4⟩

/-- The slot's proposal is final: it is the scheduled proposer's, with its rewards, or it stands for one of the
`others` whose epoch was complete before. -/
def Db.ProposalSettled (spec : ChainSpec) (book : DutyBook) (others : Nat → Prop) (db : Db) (s : Nat) : Prop :=
  ∃ d, db.blockProposals.get s = some d ∧ d.finalized = true ∧
    (d.proposerIndex = book.proposer s ∧ d.Paid ∨
      others d.proposerIndex ∧ db.completed d.proposerIndex (spec.slotToEpoch s) = true)

/-- The sync row of the pair is final and has its reward. -/
def Db.SyncPaid (db : Db) (v s : Nat) : Prop :=
  ∃ d, db.syncDuties.get (v, s) = some d ∧ d.finalized = true ∧ d.reward.isSome = true

/-- The sync row of the pair is paid, or it was final and complete before. -/
def Db.SyncSettled (spec : ChainSpec) (db : Db) (v s : Nat) : Prop :=
  db.SyncPaid v s ∨ db.completed v (spec.slotToEpoch s) = true

/-- The rows of a validator's other duties in an epoch. -/
structure Db.Accounted (spec : ChainSpec) (book : DutyBook) (db : Db) (v e : Nat) : Prop where
  proposals : ∀ s ∈ epochSlots spec e, book.proposer s = v → db.ProposalSettled spec book (fun _ => True) s
  sync : spec.altairForkEpoch ≤ e → v ∈ book.committee e → ∀ s ∈ epochSlots spec e, db.SyncSettled spec v s

/-- How the workers issue the statements that matter to these rows. -/
def DbOp.Accounted (spec : ChainSpec) (book : DutyBook) : DbOp → Db → Prop
  | .upsertBlockProposal s w, _ => w.finalized = true → w.proposerIndex = book.proposer s ∧ w.toRow.Paid
  | .markComplete vs e, db => ∀ v ∈ vs, db.Accounted spec book v e
  | _, _ => True

/-- The outcomes a scan writes are final, and a miss comes with its reward of nothing. -/
def DbOp.Conclusive : DbOp → Prop
  | .upsertBlockProposal _ w => w.finalized = true
  | .upsertSyncDuty _ _ w => w.missedBlock = true → w.reward.isSome = true
  | _ => True

/-! ## Statements -/

section Exec

variable {book : DutyBook} {now : Nat} {op : DbOp} {db : Db} {v s : Nat}

variable (now) in
/-- A final proposal stays final. It keeps its proposer and its rewards, unless a finalized scan writes the
scheduled proposer's outcome over it, which it does only while the old proposer's epoch is not complete. -/
theorem exec_final_proposal (ho : op.Accounted spec book db) {d : ProposalRow} (h : db.blockProposals.get s = some d)
    (hf : d.finalized = true) : ∃ d', (op.exec spec now db).blockProposals.get s = some d' ∧ d'.finalized = true ∧
      (d'.proposerIndex = d.proposerIndex ∧ (d.Paid → d'.Paid) ∨
        d'.proposerIndex = book.proposer s ∧ d'.Paid ∧ db.completed d.proposerIndex (spec.slotToEpoch s) = false) := by
  by_cases hw : op.writesProposals = true
  · cases op with
    | upsertBlockProposal s' w =>
      show ∃ d', (db.upsertBlockProposal spec s' w).blockProposals.get s = some d' ∧ _
      rw [Db.upsertBlockProposal_get]
      by_cases hs : s = s'
      · subst hs
        rw [if_pos rfl, h]
        refine ⟨_, rfl, ?_⟩
        simp only [Db.upsertedProposal, hf, Bool.not_true, Bool.false_or]
        split
        · rename_i hr
          obtain ⟨hfinal, hopen⟩ := (Bool.and_eq_true _ _).mp hr
          obtain ⟨hproposer, hpaid⟩ := ho hfinal
          exact ⟨hfinal, .inr ⟨hproposer, ProposalWrite.paid_merge hpaid d, by simpa using hopen⟩⟩
        · exact ⟨hf, .inl ⟨rfl, fun hp => hp⟩⟩
      · rw [if_neg hs]
        exact ⟨d, h, hf, .inl ⟨rfl, fun hp => hp⟩⟩
    | promoteCollected p =>
      show ∃ d', (db.promoteCollected spec p).2.blockProposals.get s = some d' ∧ _
      rw [Db.promoteCollected_proposals, h, Option.map_some]
      refine ⟨_, rfl, by simp [Db.promotedProposal, hf], .inl ⟨Db.promotedProposal_proposer spec db p s d, fun hp => ?_⟩⟩
      show (db.promotedProposal spec p s d).Paid
      unfold Db.promotedProposal
      dsimp only
      split
      · exact fun _ => ⟨rfl, rfl, rfl, rfl⟩
      · exact hp
    | invalidateFrom r =>
      refine ⟨d, ?_, hf, .inl ⟨rfl, fun hp => hp⟩⟩
      show (db.invalidateFrom spec r).blockProposals.get s = some d
      simp [Db.invalidateFrom, h, hf, Option.filter]
    | _ => cases hw
  · exact ⟨d, by rw [DbOp.exec_proposals (by simpa using hw), h], hf, .inl ⟨rfl, fun hp => hp⟩⟩

/-- No statement takes the reward of a final sync row. -/
theorem Db.SyncPaid.exec (h : db.SyncPaid v s) : (op.exec spec now db).SyncPaid v s := by
  obtain ⟨d, hd, hf, hr⟩ := h
  by_cases hw : op.writesSync = true
  · cases op with
    | upsertSyncDuty v' s' w =>
      show ∃ d', (db.upsertSyncDuty spec v' s' w).syncDuties.get (v, s) = some d' ∧ _
      rw [Db.upsertSyncDuty_get]
      by_cases hk : (v, s) = (v', s')
      · rw [if_pos hk, hd]
        refine ⟨_, rfl, ?_⟩
        simp only [Db.upsertedSync, hf, Bool.not_true, Bool.false_or]
        split
        · rename_i hwrite
          refine ⟨((Bool.and_eq_true _ _).mp hwrite).1, ?_⟩
          show (coalesce w.reward d.reward).isSome = true
          cases w.reward with
          | none => exact hr
          | some r => rfl
        · exact ⟨hf, hr⟩
      · rw [if_neg hk]
        exact ⟨d, hd, hf, hr⟩
    | persistLiveSyncRewards s' rewards =>
      show ∃ d', (db.persistLiveSyncRewards s' rewards).syncDuties.get (v, s) = some d' ∧ _
      simp only [Db.persistLiveSyncRewards, Table.get_modify, hd, Option.bind_some, Option.some.injEq, exists_eq_left']
      split
      · simp [hf, hr]
      · exact ⟨hf, hr⟩
    | promoteCollected p =>
      show ∃ d', (db.promoteCollected spec p).2.syncDuties.get (v, s) = some d' ∧ _
      rw [Db.promoteCollected_sync, hd, Option.map_some]
      refine ⟨_, rfl, by simp [Db.promotedSync, hf], ?_⟩
      show ((db.stagedSyncReward p v s).or d.reward).isSome = true
      rw [Option.isSome_or, hr, Bool.or_true]
    | invalidateFrom r =>
      refine ⟨d, ?_, hf, hr⟩
      show (db.invalidateFrom spec r).syncDuties.get (v, s) = some d
      simp [Db.invalidateFrom, hd, hf, Option.filter]
    | _ => cases hw
  · exact ⟨d, by rw [DbOp.exec_sync (by simpa using hw), hd], hf, hr⟩

theorem Db.SyncSettled.exec (h : db.SyncSettled spec v s) : (op.exec spec now db).SyncSettled spec v s :=
  h.imp Db.SyncPaid.exec DbOp.exec_completed_mono

theorem Db.ProposalSettled.exec {others : Nat → Prop} (ho : op.Accounted spec book db)
    (h : db.ProposalSettled spec book others s) : (op.exec spec now db).ProposalSettled spec book others s := by
  obtain ⟨d, hd, hf, hsettled⟩ := h
  obtain ⟨d', hd', hf', hkept | ⟨hproposer, hpaid, hopen⟩⟩ := exec_final_proposal now ho hd hf
  · obtain ⟨hsame, hkeeps⟩ := hkept
    refine ⟨d', hd', hf', ?_⟩
    rw [hsame]
    exact hsettled.imp (fun h => ⟨h.1, hkeeps h.2⟩) fun h => ⟨h.1, DbOp.exec_completed_mono h.2⟩
  · exact ⟨d', hd', hf', .inl ⟨hproposer, hpaid⟩⟩

/-- A finalized proposal write settles its slot, also where it is kept out by a completed proposer's row. -/
theorem Db.proposalSettled_upsert {w : ProposalWrite} (hf : w.finalized = true) (hw : w.proposerIndex = book.proposer s)
    (hp : w.toRow.Paid) : (db.upsertBlockProposal spec s w).ProposalSettled spec book (fun _ => True) s := by
  unfold ProposalSettled
  rw [Db.upsertBlockProposal_get, if_pos rfl]
  cases hold : db.blockProposals.get s with
  | none => exact ⟨_, rfl, hf, .inl ⟨hw, hp⟩⟩
  | some old =>
    rw [Db.upsertedProposal]
    split
    · exact ⟨_, rfl, hf, .inl ⟨hw, ProposalWrite.paid_merge hp old⟩⟩
    · rename_i hkept
      simp only [hf, Bool.true_and, Bool.or_eq_true, Bool.not_eq_true', not_or, Bool.not_eq_false] at hkept
      exact ⟨old, rfl, hkept.1, .inr ⟨trivial, hkept.2⟩⟩

theorem Db.syncSettled_upsert {w : SyncWrite} (hf : w.finalized = true) (hr : w.reward.isSome = true) :
    (db.upsertSyncDuty spec v s w).SyncSettled spec v s := by
  cases hc : db.completed v (spec.slotToEpoch s) with
  | true => exact .inr hc
  | false =>
    refine .inl ?_
    unfold SyncPaid
    rw [Db.upsertSyncDuty_get, if_pos rfl]
    cases hold : db.syncDuties.get (v, s) with
    | none => exact ⟨_, rfl, hf, hr⟩
    | some old =>
      have hwrite : (!old.finalized || (w.finalized && !db.completed v (spec.slotToEpoch s))) = true := by
        rw [hf, hc, Bool.not_false, Bool.and_true, Bool.or_true]
      rw [Db.upsertedSync, if_pos hwrite]
      exact ⟨_, rfl, hf, coalesce_isSome hr⟩

end Exec

/-! ## What a program learns -/

/-- A setting in which requests are free and answered by a view, and statements run on a database. -/
structure Working {σ : Type} (C : Contract indexer σ) (spec : ChainSpec) (net : Network) (w : net.View) (db : σ → Db) :
    Prop where
  free : ∀ q s, C.guar (.node q) s
  answers : ∀ {q s r s'}, C.sem (.node q) s r s' → net.answers w q r
  statement : ∀ {op s r s'}, C.sem (.db op) s r s' → indexerSem spec (net.answers w) (.db op) (db s) r (db s')

section Working

variable {σ : Type} {C : Contract indexer σ} {net : Network} {w : net.View} {db : σ → Db} (h : Working C spec net w db)
include h

theorem Working.request (q : Request) : C.Always (request q) fun a => net.answers w q (.ok a) :=
  .ask (fun s => h.free q s) fun _ r _ hsem a ha => by
    obtain rfl : r = .ok a := ha
    exact h.answers hsem

theorem Working.grants {G : DbOp → Prop} (hG : ∀ op s, G op → C.guar (.db op) s) : Grants C G fun _ => True where
  node := h.free
  db := hG
  active hsem := indexerSem_active (h.statement hsem)
  eligible hsem := indexerSem_eligible (h.statement hsem)
  sync _ _ _ _ := trivial

/-- A statement after which `F` holds leaves `F` with its caller. -/
theorem Working.establish {op : DbOp} {F : Db → Prop} (hg : ∀ s, C.guar (.db op) s) (hF : ∀ now d, F (op.exec spec now d))
    (hrely : ∀ s s', C.rely s s' → F (db s) → F (db s')) (s : σ) :
    C.Ok (BeaconIndexer.statement op) s (fun _ s' => F (db s')) fun _ _ => True := by
  refine .ask (fun s₁ _ => hg s₁) fun s₁ r s₂ s₃ _ hsem hr => ?_
  rcases h.statement hsem with ⟨now, hok, hdb⟩ | ⟨m, herr, -⟩
  · subst hok
    apply hrely _ _ hr
    rw [hdb]
    exact hF now (db s₁)
  · subst herr
    trivial

/-- The block of a slot stands at that slot. -/
theorem Working.getBlockBySlot (slot : Nat) : C.Always (getBlockBySlot slot) fun b =>
    ∀ block, b = some block → block.slot = slot ∧ ∃ root, net.answers w (.blockByRoot root) (.ok (some block)) := by
  refine .bind (h.request _) fun root _ => ?_
  cases root with
  | none => exact .pure fun block hb => by cases hb
  | some root =>
    refine .bind (h.request _) fun b hanswer => .check fun hslot => .pure ?_
    rintro block rfl
    have hsame : block.slot = slot := by simpa using hslot
    exact ⟨hsame, root, hanswer⟩

theorem Working.getProposerDuties {book : DutyBook} {epoch : Nat} (hbook : net.FollowsAt spec book w epoch) :
    C.Always (getProposerDuties spec epoch) fun duties =>
      Scheduled spec epoch duties ∧ ∀ d ∈ duties, d.validatorIndex = book.proposer d.slot := by
  refine .bind (h.request _) fun duties hanswer => .check fun hcheck => .pure ⟨?_, hbook.proposers hanswer⟩
  exact proposerCheck_iff.1 (by simpa using hcheck)

end Working

/-! ## Stages of a scan -/

section Runs

variable {κ : Type} (spec : ChainSpec) (net : Network) (cfg : κ → LiveConfig spec) (owns : κ → List Nat → Prop)
  (book : DutyBook)

/-- Workers account for what they write, and rely on what the others have settled. Only the live worker writes
outcomes that are not final. -/
def accounting : (indexers spec net cfg owns).Discipline where
  rely _ s s' := (∀ slot, s.1.ProposalSettled spec book (fun _ => True) slot →
      s'.1.ProposalSettled spec book (fun _ => True) slot) ∧
    ∀ v slot, s.1.SyncSettled spec v slot → s'.1.SyncSettled spec v slot
  guar i _ e s := match e with
    | .node _ => True
    | .db op => op.Accounted spec book s.1 ∧ (i.2 ≠ .live → op.Conclusive)
  post _ _ _ _ := True
  idle _ _ _ := True
  refl _ _ := ⟨fun _ h => h, fun _ _ h => h⟩
  trans _ := fun h h' => ⟨fun slot hs => h'.1 slot (h.1 slot hs), fun v slot hs => h'.2 v slot (h.2 v slot hs)⟩

variable {spec net cfg owns book} {i : κ × Role} {w : net.View}

theorem accounting_sem {e : Effect} {s s' : Db × net.Past} {r : Effect.Result e}
    (hg : ((accounting spec net cfg owns book).contract i w).guar e s)
    (hsem : ((accounting spec net cfg owns book).contract i w).sem e s r s') :
    ((accounting spec net cfg owns book).contract i w).rely s s' := by
  cases e with
  | node q =>
    have hdb : s'.1 = s.1 := hsem.1.2
    exact ⟨fun _ h => hdb ▸ h, fun _ _ h => hdb ▸ h⟩
  | db op =>
    rcases hsem.1 with ⟨now, -, hdb⟩ | ⟨m, -, hdb⟩
    · exact ⟨fun _ h => hdb ▸ h.exec hg.1, fun _ _ h => hdb ▸ h.exec⟩
    · exact ⟨fun _ h => hdb ▸ h, fun _ _ h => hdb ▸ h⟩

theorem accounting_grants {G : DbOp → Prop} (hG : ∀ op, G op → ∀ db, op.Accounted spec book db ∧ (i.2 ≠ .live → op.Conclusive)) :
    Grants ((accounting spec net cfg owns book).contract i w) G fun _ => True where
  node _ _ := trivial
  db _ s hop := hG _ hop s.1
  active h := indexerSem_active h.1
  eligible h := indexerSem_eligible h.1
  sync _ _ _ _ := trivial

theorem accounting_working :
    Working ((accounting spec net cfg owns book).contract i w) spec net w fun s : Db × net.Past => s.1 where
  free _ _ := trivial
  answers h := h.1.1
  statement h := h.1

/-- After the proposal stage every slot in which a scanned validator proposes is settled. -/
theorem processEpochProposals_settles {epoch : Nat} (hbook : net.FollowsAt spec book w epoch) {vs : List Nat} (s : Db × net.Past) :
    ((accounting spec net cfg owns book).contract i w).Ok (processEpochProposals spec epoch vs true) s
      (fun _ s' => ∀ slot ∈ epochSlots spec epoch, book.proposer slot ∈ vs →
        s'.1.ProposalSettled spec book (fun _ => True) slot) fun _ _ => True := by
  refine .bind ((accounting_working.getProposerDuties hbook s).imp fun duties s hduties => ?_)
  obtain ⟨hscheduled, hproposers⟩ := hduties
  have hslots := hscheduled.trackedSlots vs
  generalize Table.ofList ((duties.filter fun d => vs.contains d.validatorIndex).map
    fun d => (d.slot, d.validatorIndex)) = slots at hslots
  have hget : ∀ slot ∈ epochSlots spec epoch, book.proposer slot ∈ vs → slots.get slot = some (book.proposer slot) :=
    fun slot hslot hv => (hslots slot _).2 ⟨hscheduled.mem_of_book hproposers hslot, hv⟩
  refine .ite (fun hempty => .pure fun s' _ slot hslot hv => ?_) fun _ => ?_
  · have hrow := Table.mem_rows.2 (hget slot hslot hv)
    rw [List.isEmpty_iff.1 hempty] at hrow
    cases hrow
  let Written : Nat → Db → Prop := fun slot db => book.proposer slot ∈ vs → db.ProposalSettled spec book (fun _ => True) slot
  have hrely : ∀ slot (s s' : Db × net.Past), ((accounting spec net cfg owns book).contract i w).rely s s' →
      Written slot s.1 → Written slot s'.1 := fun slot _ _ hr h hv => hr.1 slot (h hv)
  refine .each_all hrely (fun slot e s r s' hg hsem => hrely slot s s' (accounting_sem hg hsem)) (fun slot hslot s => ?_) s
  have upsert : ∀ (write : ProposalWrite) s, write.finalized = true → write.proposerIndex = book.proposer slot →
      write.toRow.Paid → ((accounting spec net cfg owns book).contract i w).Ok
        (BeaconIndexer.statement (.upsertBlockProposal slot write)) s (fun _ s' => Written slot s'.1) fun _ _ => True := by
    intro write s hf hw hp
    have hguar : ∀ s, ((accounting spec net cfg owns book).contract i w).guar (.db (.upsertBlockProposal slot write)) s :=
      fun _ => ⟨fun _ => ⟨hw, hp⟩, fun _ => hf⟩
    exact accounting_working.establish (F := Written slot) hguar (fun _ _ _ => Db.proposalSettled_upsert hf hw hp) (hrely slot) s
  cases hslotv : slots.get slot with
  | none =>
    refine .pure fun s' _ hv => ?_
    rw [hget slot hslot hv] at hslotv
    cases hslotv
  | some proposer =>
    obtain ⟨hd, -⟩ := (hslots slot proposer).1 hslotv
    have hproposer : proposer = book.proposer slot := hproposers _ hd
    refine .bind ((accounting_working.getBlockBySlot slot s).imp fun block s _ => ?_)
    cases block with
    | some block =>
      refine .bind ((accounting_working.request _ s).imp fun rewards s _ => ?_)
      exact upsert _ s rfl hproposer fun _ => ⟨rfl, rfl, rfl, rfl⟩
    | none => exact upsert _ s rfl hproposer fun h => by cases h

/-- The sync rows of a slot are settled, given that the rewards of a block's slot were found. -/
theorem processSlotSync_settles {relevant committee : List Nat} {magnitude : Option Int} {slot : Nat}
    {block : Option SignedBeaconBlock} (hsize : committee.length = spec.syncCommitteeSize)
    (haggregate : ∀ b, block = some b → b.syncAggregate.isSome = true) (s : Db × net.Past) :
    ((accounting spec net cfg owns book).contract i w).Ok (processSlotSync spec true relevant committee magnitude slot block) s
      (fun _ s' => (block.isSome = true → magnitude.isSome = true) → ∀ v ∈ relevant, v ∈ committee →
        s'.1.SyncSettled spec v slot) fun _ _ => True := by
  have upsert : ∀ (v : Nat) (write : SyncWrite) s, write.finalized = true →
      (write.missedBlock = true → write.reward.isSome = true) → ((accounting spec net cfg owns book).contract i w).Ok
      (BeaconIndexer.statement (.upsertSyncDuty v slot write)) s
      (fun _ s' => write.reward.isSome = true → s'.1.SyncSettled spec v slot) fun _ _ => True := by
    intro v write s hf hmissed
    have hguar : ∀ s, ((accounting spec net cfg owns book).contract i w).guar (.db (.upsertSyncDuty v slot write)) s :=
      fun _ => ⟨trivial, fun _ => hmissed⟩
    exact accounting_working.establish (F := fun db => write.reward.isSome = true → db.SyncSettled spec v slot) hguar
      (fun _ _ hr => Db.syncSettled_upsert hf hr) (fun _ _ hrely h hr => hrely.2 v slot (h hr)) s
  cases block with
  | some block =>
    unfold processSlotSync
    obtain ⟨aggregate, hagg⟩ := Option.isSome_iff_exists.1 (haggregate block rfl)
    simp only [hagg]
    refine .bind ((always_ofExcept _ s).imp fun bits s hbits => ?_)
    let Written : Nat × Bool × Int → Db × net.Past → Prop := fun r s =>
      magnitude.isSome = true → s.1.SyncSettled spec r.1 slot
    have hrely : ∀ r (s s' : Db × net.Past), ((accounting spec net cfg owns book).contract i w).rely s s' →
        Written r s → Written r s' := fun r _ _ hr h hm => hr.2 r.1 slot (h hm)
    refine (Contract.Ok.each_all hrely (fun r e s _ s' hg hsem => hrely r s s' (accounting_sem hg hsem)) (fun r _ s => ?_) s).imp
      fun _ s' hwritten hfound v hv hc => ?_
    · refine (upsert r.1 ⟨r.2.1, magnitude.map (· * r.2.2), false, true⟩ s rfl nofun).imp fun _ s' h hm => h ?_
      rw [Option.isSome_map]
      exact hm
    · have hlength : bits.length = committee.length := (decodeSyncCommitteeBits_length hbits).trans hsize.symm
      have hrow := syncOutcomes_get hlength v
      rw [if_pos hc] at hrow
      have hmem : (v, participates committee bits v, netPositions committee bits v) ∈
          (syncOutcomes committee bits).rows.filter fun r => relevant.contains r.1 :=
        List.mem_filter.2 ⟨Table.mem_rows.2 hrow, List.contains_iff_mem.2 hv⟩
      exact hwritten _ hmem (hfound rfl)
  | none =>
    let Written : Nat → Db × net.Past → Prop := fun v s => s.1.SyncSettled spec v slot
    have hrely : ∀ v (s s' : Db × net.Past), ((accounting spec net cfg owns book).contract i w).rely s s' →
        Written v s → Written v s' := fun v _ _ hr h => hr.2 v slot h
    refine (Contract.Ok.each_all hrely (fun v e s _ s' hg hsem => hrely v s s' (accounting_sem hg hsem)) (fun v _ s => ?_) s).imp
      fun _ s' hwritten _ v hv _ => hwritten v hv
    exact (upsert v ⟨false, some 0, true, true⟩ s rfl fun _ => rfl).imp fun _ s' h => h rfl

/-- After the sync stage every scanned member of the epoch's committee is settled in every slot. -/
theorem processEpochSync_settles {epoch : Nat} (hbook : net.FollowsAt spec book w epoch) (haltair : spec.altairForkEpoch ≤ epoch)
    (vs : List Nat) (s : Db × net.Past) :
    ((accounting spec net cfg owns book).contract i w).Ok (processEpochSync spec epoch vs true) s
      (fun _ s' => ∀ v ∈ vs, v ∈ book.committee epoch → ∀ slot ∈ epochSlots spec epoch, s'.1.SyncSettled spec v slot)
      fun _ _ => True := by
  refine .bind ((accounting_working.request _ s).imp fun duties s hduties => ?_)
  have hmember : ∀ v ∈ vs, v ∈ book.committee epoch → v ∈ (duties.map (·.validatorIndex)).dedup := by
    intro v hv hc
    obtain ⟨d, hd, rfl⟩ := hbook.members hduties v hv hc
    exact List.mem_dedup.2 (List.mem_map_of_mem hd)
  refine .ite (fun hempty => .pure fun s' _ v hv hc => ?_) fun _ => ?_
  · have := hmember v hv hc
    rw [List.isEmpty_iff.1 hempty] at this
    cases this
  refine .bind ((accounting_working.request _ s).imp fun committee s hcommittee => ?_)
  obtain rfl : committee = book.committee epoch := hbook.committee hcommittee
  refine .check (fun _ _ _ => trivial) fun hsize => ?_
  have hrelevant : ∀ v ∈ vs, v ∈ book.committee epoch →
      v ∈ (duties.map (·.validatorIndex)).dedup.filter vs.contains :=
    fun v hv hc => List.mem_filter.2 ⟨hmember v hv hc, List.contains_iff_mem.2 hv⟩
  refine .ite (fun hempty => .pure fun s' _ v hv hc => ?_) fun _ => ?_
  · have := hrelevant v hv hc
    rw [List.isEmpty_iff.1 hempty] at this
    cases this
  -- the fetched blocks stand for the slots of the epoch, one by one
  let Fetched : Nat → Nat × Option SignedBeaconBlock → Prop := fun slot b =>
    b.1 = slot ∧ ∀ block, b.2 = some block → block.syncAggregate.isSome = true
  have fetch : ((accounting spec net cfg owns book).contract i w).Always (fetchBlocksForSlots (epochSlots spec epoch))
      fun blocks => (∀ slot ∈ epochSlots spec epoch, ∃ b ∈ blocks, Fetched slot b) ∧
        ∀ b ∈ blocks, ∃ slot ∈ epochSlots spec epoch, Fetched slot b := by
    refine .collect_related fun slot hslot => .bind (accounting_working.getBlockBySlot slot) fun b hb => .pure ⟨rfl, ?_⟩
    rintro block (rfl : b = some block)
    obtain ⟨hsame, root, hanswer⟩ := hb block rfl
    apply hbook.aggregates hanswer
    rw [hsame, slotToEpoch_of_mem hslot]
    exact haltair
  have hg : Grants ((accounting spec net cfg owns book).contract i w) (fun _ => False) fun _ => True :=
    accounting_grants fun _ h => h.elim
  refine .bind ((fetch s).imp fun blocks s hblocks => ?_)
  refine .bind ((hg.probeSyncParticipantReward spec _ _ _ s).imp fun magnitude s _ => ?_)
  let Written : Nat × Option SignedBeaconBlock → Db × net.Past → Prop := fun b s =>
    (b.2.isSome = true → magnitude.isSome = true) →
      ∀ v ∈ (duties.map (·.validatorIndex)).dedup.filter vs.contains, v ∈ book.committee epoch → s.1.SyncSettled spec v b.1
  have hrely : ∀ b (s s' : Db × net.Past), ((accounting spec net cfg owns book).contract i w).rely s s' →
      Written b s → Written b s' := fun b _ _ hr h hfound v hv hc => hr.2 v b.1 (h hfound v hv hc)
  have slots : ((accounting spec net cfg owns book).contract i w).Ok (each (fun (b : Nat × Option SignedBeaconBlock) =>
      processSlotSync spec true ((duties.map (·.validatorIndex)).dedup.filter vs.contains) (book.committee epoch)
        magnitude b.1 b.2) blocks) s (fun _ s' => ∀ b ∈ blocks, Written b s') fun _ _ => True := by
    refine .each_all hrely (fun b e s _ s' hg hsem => hrely b s s' (accounting_sem hg hsem)) (fun b hb s => ?_) s
    refine processSlotSync_settles (by simpa using hsize) (fun block hblock => ?_) s
    obtain ⟨slot, -, hfetched⟩ := hblocks.2 b hb
    exact hfetched.2 block hblock
  refine .bind (slots.imp fun _ s hwritten => .ite (fun _ => .throw fun _ _ => trivial) fun hfound => .pure ?_)
  intro s' hr v hv hc slot hslot
  obtain ⟨b, hb, rfl, -⟩ := hblocks.1 slot hslot
  refine hr.2 v b.1 (hwritten b hb (fun hblock => ?_) v (hrelevant v hv hc) hc)
  -- rewards that were not found fail the scan
  have hany : (blocks.any (·.2.isSome)) = true := List.any_eq_true.2 ⟨b, hb, hblock⟩
  rw [hany, Bool.and_true, Bool.not_eq_true, Option.isNone_eq_false_iff] at hfound
  exact hfound

/-! ## Runs -/

/-- A scan records a completion once the rows of its validators are accounted for. -/
theorem scanEpoch_accounts {epoch : Nat} (hbook : net.FollowsAt spec book w epoch) {vs : List Nat} (mode : EffectiveScanMode)
    (s : Db × net.Past) : ((accounting spec net cfg owns book).contract i w).Ok (scanEpoch spec epoch vs true mode) s
      (fun _ _ => True) fun _ _ => True := by
  let Proposals : Db × net.Past → Prop := fun s =>
    ∀ slot ∈ epochSlots spec epoch, book.proposer slot ∈ vs → s.1.ProposalSettled spec book (fun _ => True) slot
  have hrely : ∀ s s', ((accounting spec net cfg owns book).contract i w).rely s s' → Proposals s → Proposals s' :=
    fun _ _ hr h slot hslot hv => hr.1 slot (h slot hslot hv)
  have mark : ∀ s, Proposals s → (spec.altairForkEpoch ≤ epoch → ∀ v ∈ vs, v ∈ book.committee epoch →
      ∀ slot ∈ epochSlots spec epoch, s.1.SyncSettled spec v slot) → ((accounting spec net cfg owns book).contract i w).Ok
        (statement (.markComplete vs epoch)) s (fun _ _ => True) fun _ _ => True := by
    intro s hp hs
    refine .ask (fun s₁ hr => ⟨fun v hv => ⟨fun slot hslot hproposer => ?_, fun ha hc slot hslot => ?_⟩, fun _ => trivial⟩)
      fun _ r _ _ _ _ _ => ?_
    · exact hr.1 slot (hp slot hslot (hproposer ▸ hv))
    · exact hr.2 v slot (hs ha v hv hc slot hslot)
    · cases r <;> trivial
  have tail : ∀ s, ((accounting spec net cfg owns book).contract i w).Ok (do
      processEpochProposals spec epoch vs true
      if spec.altairForkEpoch ≤ epoch then processEpochSync spec epoch vs true
      statement (.markComplete vs epoch)) s (fun _ _ => True) fun _ _ => True := by
    intro s
    refine .bind ((processEpochProposals_settles hbook s).imp fun _ s hp => .ite (fun ha => ?_) fun hn => ?_)
    · have hframe := (processEpochSync_settles hbook ha vs s).frame hrely
        (fun e s r s' hg hsem => hrely s s' (accounting_sem hg hsem)) hp
      exact .bind (hframe.mono (fun _ s' h => mark s' h.2 fun _ => h.1) fun _ _ _ => trivial)
    · exact mark s hp fun ha => absurd ha hn
  let Attestations : DbOp → Prop := fun op => op.writesAttestations = true ∧ op.completes = false
  have hg : Grants ((accounting spec net cfg owns book).contract i w) Attestations fun _ => True := by
    refine accounting_grants fun op hop db => ?_
    cases op with
    | markComplete => cases hop.2
    | upsertBlockProposal => cases hop.1
    | upsertSyncDuty => cases hop.1
    | _ => exact ⟨trivial, fun _ => trivial⟩
  refine .ite (fun _ => .pure fun _ _ => trivial) fun _ => ?_
  cases mode with
  | dense =>
    exact .bind ((hg.processEpochAttestationDuties_of spec (fun _ _ _ _ _ => ⟨rfl, rfl⟩) s).imp fun _ s _ => tail s)
  | sparse =>
    exact .bind ((hg.processEpochAttestationDutiesSparse_of spec (fun _ _ _ _ => ⟨rfl, rfl⟩) s).imp fun _ s _ => tail s)

theorem begins_accounting {m : Memory} {p : Prog indexer Memory}
    (hbook : ∀ n epoch vs mode, i.2 = .archive n → p = archiveScan spec epoch vs mode → net.FollowsAt spec book w epoch)
    (hb : Begins spec (cfg i.1) (owns i.1) i.2 m p) (s : Db × net.Past) :
    ((accounting spec net cfg owns book).contract i w).Safe p (fun _ _ => True) s := by
  obtain ⟨inst, role⟩ := i
  let Provisional : DbOp → Prop := fun op => ∀ db, op.Accounted spec book db ∧ (role ≠ .live → op.Conclusive)
  have hg : Grants ((accounting spec net cfg owns book).contract (inst, role) w) Provisional fun _ => True :=
    accounting_grants fun op hop db => hop db
  have hread : ∀ op : DbOp, op.reads = true → Provisional op := fun op hop db => by
    cases op with
    | upsertBlockProposal => cases hop
    | upsertSyncDuty => cases hop
    | markComplete => cases hop
    | _ => exact ⟨trivial, fun _ => trivial⟩
  cases hb with
  | @boot tracked _ =>
    exact (hg.statement (hread _ rfl) s).seal fun r _ _ => by cases r <;> exact fun _ _ => trivial
  | @pass tracked last cursor _ =>
    have hG : ∀ op, LiveIssue spec tracked (fun _ => True) op → Provisional op := by
      intro op hop
      cases hop with
      | read h => exact hread op h
      | upsertBlockProposal h => exact fun _ => ⟨fun ht => by simp [h] at ht, fun hn => absurd rfl hn⟩
      | _ => exact fun _ => ⟨trivial, fun hn => absurd rfl hn⟩
    have hfin := fun checkpoint resolved => hg.finalizeCollectedEvidence spec hread (fun _ _ _ _ _ => ⟨trivial, nofun⟩)
      (fun _ _ _ _ => ⟨trivial, nofun⟩) (fun _ _ => ⟨trivial, nofun⟩) checkpoint resolved
    exact (hg.reconcilePass spec (fun _ _ => trivial) hG hfin (cfg inst) cursor s).seal fun r _ _ _ _ => trivial
  | @scan n _ epoch validators mode _ =>
    exact (scanEpoch_accounts (hbook n epoch validators mode rfl rfl) mode s).seal fun r _ _ _ _ => trivial
  | @refresh _ v a x =>
    have hop : Provisional (.upsertValidator v a x) := fun _ => ⟨trivial, fun _ => trivial⟩
    exact (hg.statement hop s).seal fun r _ _ _ _ => trivial

/-- The workers account for their statements, whatever else of the database such statements keep. -/
theorem accounting_sound [DecidableEq κ] (hbook : net.Follows spec book) (J : Db → Prop)
    (hJ : ∀ now (op : DbOp) (db : Db), op.Accounted spec book db → J db → J (op.exec spec now db)) :
    (indexers spec net cfg owns).Sound (accounting spec net cfg owns book) fun s => J s.1 where
  begins := by
    rintro i m s w p s' hi - ⟨hb, -, hdb⟩
    rw [hdb]
    exact ⟨hi, begins_accounting (fun _ epoch _ _ _ _ => hbook w epoch) hb s', fun _ _ => ⟨fun _ h => hdb ▸ h, fun _ _ h => hdb ▸ h⟩⟩
  acts := by
    intro i w e s r s' hi hg hsem
    have hr : ((accounting spec net cfg owns book).contract i w).rely s s' := accounting_sem hg hsem
    refine ⟨?_, fun _ _ => hr⟩
    cases e with
    | node q =>
      have hdb : s'.1 = s.1 := hsem.1.2
      exact hdb ▸ hi
    | db op =>
      rcases hsem.1 with ⟨now, -, hdb⟩ | ⟨m, -, hdb⟩
      · exact hdb ▸ hJ now op s.1 hg.1 hi
      · exact hdb ▸ hi
  finish _ _ := trivial
  restart _ _ := trivial
  idle _ _ := trivial

/-- When a scan is about to record a completion, the slots of a validator that is newly complete are accounted for
and stay so: a slot it proposes in has a final row, paid if the block was proposed, unless another validator that
completed the epoch earlier has that row; and each slot of its committee has a final row with a reward. -/
theorem archived_duties_paid [DecidableEq κ] (hbook : net.Follows spec book) {past : net.Past} {c c' : Configuration κ net}
    (hr : (indexers spec net cfg owns).Reach (initial κ net past) c) {vs : List Nat} {e : Nat}
    {k : Effect.Result (.db (.markComplete vs e)) → Prog indexer Memory}
    (hmark : c.proc i = .running w (.call (.db (.markComplete vs e)) k)) (hr' : (indexers spec net cfg owns).Reach c c')
    {v s : Nat} (hv : v ∈ vs) (hnew : c.state.1.completed v e = false) (hs : spec.slotToEpoch s = e) :
    (book.proposer s = v → ∃ d, c'.state.1.blockProposals.get s = some d ∧ d.finalized = true ∧
      (d.proposerIndex = v ∧ d.Paid ∨ d.proposerIndex ≠ v ∧ c'.state.1.completed d.proposerIndex e = true)) ∧
    (spec.altairForkEpoch ≤ e → v ∈ book.committee e → ∃ d, c'.state.1.syncDuties.get (v, s) = some d ∧
      d.finalized = true ∧ d.reward.isSome = true) := by
  subst hs
  have hfree : (indexers spec net cfg owns).Sound (accounting spec net cfg owns book) fun s => (fun _ => True) s.1 :=
    accounting_sound hbook (fun _ => True) fun _ _ _ _ h => h
  obtain ⟨-, hproc⟩ := hfree.reach hr ⟨trivial, fun _ => trivial⟩
  have hlater : ∀ J : Db → Prop, J c.state.1 →
      (∀ now (op : DbOp) (db : Db), op.Accounted spec book db → J db → J (op.exec spec now db)) → J c'.state.1 := by
    intro J hJ hkeep
    have hsound : (indexers spec net cfg owns).Sound (accounting spec net cfg owns book) fun s => J s.1 :=
      accounting_sound hbook J hkeep
    exact (hsound.reach hr' ⟨hJ, hproc⟩).1
  have hsafe : ((accounting spec net cfg owns book).contract i w).Safe (.call (.db (.markComplete vs (spec.slotToEpoch s))) k)
      (fun _ _ => True) c.state := by
    have := hproc i
    rwa [hmark] at this
  have haccount : c.state.1.Accounted spec book v (spec.slotToEpoch s) :=
    (hsafe c.state ((accounting spec net cfg owns book).refl i c.state)).1.1 v hv
  refine ⟨fun hproposer => ?_, fun ha hc => ?_⟩
  · have hsettled : c.state.1.ProposalSettled spec book (· ≠ v) s := by
      obtain ⟨d, hd, hf, hown | hother⟩ := haccount.proposals s (mem_epochSlots s) hproposer
      · exact ⟨d, hd, hf, .inl hown⟩
      · refine ⟨d, hd, hf, .inr ⟨?_, hother.2⟩⟩
        rintro rfl
        rw [hnew] at hother
        cases hother.2
    have hstays := hlater (fun db => db.ProposalSettled spec book (· ≠ v) s) hsettled fun _ _ _ ho h => h.exec ho
    rw [← hproposer] at hstays ⊢
    exact hstays
  · have hpaid : c.state.1.SyncPaid v s := (haccount.sync ha hc s (mem_epochSlots s)).resolve_right (by rw [hnew]; simp)
    exact hlater (fun db => db.SyncPaid v s) hpaid fun _ _ _ _ h => h.exec

end Runs

/-! ## A proposer in the committee -/

/-- Validator 7 proposes in the only slot of each epoch and sits twice in each committee. -/
def sevenBook : DutyBook := ⟨fun _ => 7, fun _ => SyncEpoch.repeatedCommittee⟩

def sevenAnswers : (q : Request) → Except Error q.Answer
  | .attesterDuties _ _ => .ok [⟨7, 0, 0, 0⟩]
  | .attestationRewards _ _ => .ok ⟨[⟨7, 0, 0, 0, none, none⟩], none⟩
  | .committees _ => .ok []
  | .proposerDuties epoch => .ok [⟨7, epoch⟩]
  | .blockRoot s => .ok (if s = 0 then some ⟨11⟩ else none)
  | .blockByRoot _ => .ok (some ⟨0, 7, ⟨10⟩, ⟨12⟩, .altair [] ⟨['0', '3']⟩⟩)
  | .blockRewardsBySlot _ => .ok ⟨7, 100, 60, 30, 10, 0⟩
  | .syncDuties _ vs => .ok (vs.map fun v => ⟨v, []⟩)
  | .syncCommittee _ => .ok SyncEpoch.repeatedCommittee
  | .syncRewardsBySlot _ _ => .ok [⟨7, 10⟩]
  | _ => .error (.http "no answer")

def sevenNet : Network := ⟨Unit, Unit, fun _ q r => r = sevenAnswers q, fun _ _ _ => True⟩

theorem sevenNet_follows : sevenNet.Follows SyncEpoch.oneSlotSpec sevenBook := by
  intro w epoch
  constructor
  case proposers =>
    intro duties h d hd
    cases h
    obtain rfl := List.mem_singleton.1 hd
    rfl
  case members =>
    intro vs duties h v hv _
    cases h
    exact ⟨⟨v, []⟩, List.mem_map_of_mem hv, rfl⟩
  case committee =>
    intro members h
    cases h
    rfl
  case aggregates =>
    intro root b h _
    cases h
    rfl

def sevenHandler : (e : Effect) → Db × Unit → e.Result × (Db × Unit)
  | .node q, s => (sevenAnswers q, s)
  | .db op, s => (.ok (op.answer SyncEpoch.oneSlotSpec 0 s.1), (op.exec SyncEpoch.oneSlotSpec 0 s.1, s.2))

theorem sevenLag_retries : 2 ≤ 5 := by decide

theorem sevenLag_lt : 2 < SyncEpoch.oneSlotSpec.epochStartSlot 5 := by decide

def sevenLag : LiveConfig SyncEpoch.oneSlotSpec := ⟨2, 5, sevenLag_retries, sevenLag_lt⟩

abbrev sevenIndexer : System indexer (Unit × Role) Unit Memory (Db × Unit) :=
  indexers SyncEpoch.oneSlotSpec sevenNet (fun _ => sevenLag) fun _ _ => True

/-- The scan is about to record the completion of 7 in epoch 0. -/
def recordsSeven (p : Prog indexer Memory) : Bool :=
  match p.next? with
  | some (.db (.markComplete vs e)) => vs == [7] && e == 0
  | _ => false

theorem recordsSeven_call {p : Prog indexer Memory} (h : recordsSeven p = true) :
    ∃ k, p = .call (.db (.markComplete [7] 0)) k := by
  unfold recordsSeven at h
  split at h
  · rename_i vs e hs
    obtain ⟨rfl, rfl⟩ : vs = [7] ∧ e = 0 := by simpa using h
    exact Prog.next?_eq_some hs
  · cases h

theorem archived_duties_paid_seven : ∃ c c' : Configuration Unit sevenNet, sevenIndexer.Reach (initial Unit sevenNet ()) c ∧
    sevenIndexer.Reach c c' ∧ c'.state.1.completed 7 0 = true ∧
    (∃ d, c'.state.1.blockProposals.get 0 = some d ∧ d.finalized = true ∧
      (d.proposerIndex = 7 ∧ d.Paid ∨ d.proposerIndex ≠ 7 ∧ c'.state.1.completed d.proposerIndex 0 = true)) ∧
    ∃ d, c'.state.1.syncDuties.get (7, 0) = some d ∧ d.finalized = true ∧ d.reward.isSome = true := by
  have hscan : ((archiveScan SyncEpoch.oneSlotSpec 0 [7] .sparse).advance (fun _ _ => true) sevenHandler 18 (.registered [7], ())).any
      (fun r => recordsSeven r.1 && !r.2.1.completed 7 0) = true := by decide +kernel
  obtain ⟨⟨p, s⟩, hs, hp⟩ := (Option.any_eq_true _ _).1 hscan
  obtain ⟨hnext, hnew⟩ := (Bool.and_eq_true _ _).mp hp
  obtain ⟨k, rfl⟩ := recordsSeven_call hnext
  have hsem : ∀ e s, sevenIndexer.sem ((), .archive 0) () e s (sevenHandler e s).1 (sevenHandler e s).2 := by
    rintro (q | op) s
    · exact ⟨⟨rfl, rfl⟩, rfl⟩
    · exact ⟨.inl ⟨0, rfl, rfl⟩, rfl⟩
  let c₀ := (initial Unit sevenNet ()).set ((), .metadata) (.idle .stopped) (.registered [7], ())
  have hmeta : sevenIndexer.Reach (initial Unit sevenNet ()) c₀ :=
    @reach_registered sevenNet sevenIndexer () () ⟨.refresh, trivial, rfl⟩ ⟨.inl ⟨0, rfl, rfl⟩, rfl⟩
  let c := c₀.set ((), .archive 0) (.running () (.call (.db (.markComplete [7] 0)) k)) s
  have hmark : c.proc ((), .archive 0) = .running () (.call (.db (.markComplete [7] 0)) k) := Config.set_proc ..
  have hr : sevenIndexer.Reach c₀ c := by
    have hstart : sevenIndexer.Step c₀ (c₀.set ((), .archive 0)
        (.running () (archiveScan SyncEpoch.oneSlotSpec 0 [7] .sparse)) (.registered [7], ())) :=
      .start rfl ⟨.scan trivial, trivial, rfl⟩
    have hrest := System.reach_advance (fun e s _ => hsem e s) hs _ (c₀.set_proc ..) rfl
    have hsame : (c₀.set ((), .archive 0) (.running () (archiveScan SyncEpoch.oneSlotSpec 0 [7] .sparse)) (.registered [7], ())).set
        ((), .archive 0) (.running () (.call (.db (.markComplete [7] 0)) k)) s = c := Config.set_set ..
    exact .head hstart (hsame ▸ hrest)
  have hr' : sevenIndexer.Reach c (c.set ((), .archive 0) (.running () (k (.ok ()))) (s.1.markComplete [7] 0, s.2)) :=
    .single (.act hmark (hsem (.db (.markComplete [7] 0)) s))
  obtain ⟨hproposal, hsync⟩ := archived_duties_paid sevenNet_follows (hmeta.trans hr) hmark hr' (List.mem_singleton.2 rfl)
    (Bool.not_eq_true' _ ▸ hnew) (show SyncEpoch.oneSlotSpec.slotToEpoch 0 = 0 from rfl)
  refine ⟨c, _, hmeta.trans hr, hr', ?_, hproposal rfl, hsync (Nat.zero_le 0) (by decide)⟩
  show (s.1.markComplete [7] 0).completed 7 0 = true
  rw [Db.markComplete_completed]
  simp

end BeaconIndexer
