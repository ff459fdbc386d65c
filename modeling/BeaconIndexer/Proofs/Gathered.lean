/-
What the completions of one instance say about the rows of proposals and sync duties. A slot is recorded as
covered only once its rows are written, and a rollback takes the coverage with the rows, so where the node's
duties do not change a completed pair, from an archive scan or from live collection, has a final row with its
rewards for every slot it proposes in and every slot of its committee.
-/
import BeaconIndexer.Proofs.Accounts
import BeaconIndexer.Proofs.Passes

namespace BeaconIndexer

open Effects Relational

variable {spec : ChainSpec}

/-! ## Blocks by the book -/

/-- Headers and blocks agree with the book too: a root stands at one slot, and its block is the scheduled proposer's. -/
structure Network.Describes (net : Network) (spec : ChainSpec) (book : DutyBook) (slotOf : Root → Nat) : Prop where
  follows : net.Follows spec book
  headers : ∀ {w s} {r : BeaconResponse HeaderData}, net.answers w (.header (.slot s)) (.ok r) →
    r.data.canonical = true → slotOf r.data.root = s
  blocks : ∀ {w root b}, net.answers w (.blockByRoot root) (.ok (some b)) →
    b.slot = slotOf root ∧ b.proposerIndex = book.proposer b.slot

/-- After the genesis epoch, a validator has duties in the epochs it is active in. -/
def Owed (registry : Table Nat ValidatorRow) (v e : Nat) : Prop := activeIn registry v e ∧ e ≠ 0

/-! ## Rows of a slot -/

section Rows

variable (spec) (book : DutyBook) (db : Db) (v s : Nat)

/-- The rows of the validator's duties in the slot are there. -/
structure Db.Rowed : Prop where
  proposal : book.proposer s = v → db.blockProposals.has s = true
  sync : spec.altairForkEpoch ≤ spec.slotToEpoch s → v ∈ book.committee (spec.slotToEpoch s) →
    db.syncDuties.has (v, s) = true

/-- They are the validator's, final and have their rewards. -/
structure Db.RowsPaid : Prop where
  proposal : book.proposer s = v → ∃ d, db.blockProposals.get s = some d ∧ d.finalized = true ∧
    d.proposerIndex = book.proposer s ∧ d.Paid
  sync : spec.altairForkEpoch ≤ spec.slotToEpoch s → v ∈ book.committee (spec.slotToEpoch s) → db.SyncPaid v s

end Rows

/-- What one instance keeps of the two tables. -/
structure Db.Gathered (spec : ChainSpec) (book : DutyBook) (registry : Table Nat ValidatorRow) (db : Db) : Prop where
  named : ∀ {s d}, db.blockProposals.get s = some d → d.proposerIndex = book.proposer s
  missed : ∀ {k d}, db.syncDuties.get k = some d → d.missedBlock = true → d.reward.isSome = true
  covered : ∀ {v s}, db.covered v s = true → Owed registry v (spec.slotToEpoch s) → db.Rowed spec book v s
  completed : ∀ {v s}, db.completed v (spec.slotToEpoch s) = true → Owed registry v (spec.slotToEpoch s) →
    db.RowsPaid spec book v s

/-- The statement rolls back. -/
def DbOp.replays : DbOp → Bool
  | .invalidateFrom _ => true
  | _ => false

/-- How the workers of one instance issue the statements that matter to these rows. -/
def DbOp.Gathers (spec : ChainSpec) (book : DutyBook) (registry : Table Nat ValidatorRow) : DbOp → Db → Prop
  | .upsertBlockProposal s w, _ => w.proposerIndex = book.proposer s
  | .upsertSyncDuty _ _ w, _ => w.missedBlock = true → w.reward.isSome = true
  | .recordCoverage vs s, db => ∀ v ∈ vs, Owed registry v (spec.slotToEpoch s) → db.Rowed spec book v s
  | _, _ => True

/-- No row is removed. -/
structure RowsStay (db db' : Db) : Prop where
  proposals : ∀ {s}, db.blockProposals.has s = true → db'.blockProposals.has s = true
  sync : ∀ {k}, db.syncDuties.has k = true → db'.syncDuties.has k = true

theorem RowsStay.refl (db : Db) : RowsStay db db := ⟨fun h => h, fun h => h⟩

theorem RowsStay.trans {a b c : Db} (h : RowsStay a b) (h' : RowsStay b c) : RowsStay a c :=
  ⟨fun hs => h'.proposals (h.proposals hs), fun hs => h'.sync (h.sync hs)⟩

/-! ## Statements -/

section Exec

variable {book : DutyBook} {registry : Table Nat ValidatorRow} {now : Nat} {op : DbOp} {db : Db} {v s : Nat}

theorem Db.Rowed.stay {db' : Db} (h : db.Rowed spec book v s) (hr : RowsStay db db') : db'.Rowed spec book v s :=
  ⟨fun hp => hr.proposals (h.proposal hp), fun ha hc => hr.sync (h.sync ha hc)⟩

/-- Only a rollback removes rows. -/
theorem DbOp.exec_rowsStay (h : op.replays = false) : RowsStay db (op.exec spec now db) := by
  constructor
  · intro s hs
    by_cases hw : op.writesProposals = true
    · cases op with
      | upsertBlockProposal s' w =>
        show (db.upsertBlockProposal spec s' w).blockProposals.has s = true
        unfold Table.has
        rw [Db.upsertBlockProposal_get]
        split
        · rfl
        · exact hs
      | promoteCollected p =>
        show (db.promoteCollected spec p).2.blockProposals.has s = true
        unfold Table.has
        rw [Db.promoteCollected_proposals, Option.isSome_map]
        exact hs
      | invalidateFrom r => cases h
      | _ => cases hw
    · rw [DbOp.exec_proposals (by simpa using hw)]
      exact hs
  · intro k hk
    by_cases hw : op.writesSync = true
    · cases op with
      | upsertSyncDuty v' s' w =>
        show (db.upsertSyncDuty spec v' s' w).syncDuties.has k = true
        unfold Table.has
        rw [Db.upsertSyncDuty_get]
        split
        · rfl
        · exact hk
      | persistLiveSyncRewards s' rewards =>
        obtain ⟨d, hd⟩ := Table.has_iff.1 hk
        show (db.persistLiveSyncRewards s' rewards).syncDuties.has k = true
        simp [Db.persistLiveSyncRewards, Table.has, hd]
      | promoteCollected p =>
        show (db.promoteCollected spec p).2.syncDuties.has k = true
        unfold Table.has
        rw [Db.promoteCollected_sync, Option.isSome_map]
        exact hk
      | invalidateFrom r => cases h
      | _ => cases hw
    · rw [DbOp.exec_sync (by simpa using hw)]
      exact hk

/-- Rows that are paid stay paid. -/
theorem Db.RowsPaid.exec (ho : op.Accounted spec book db) (h : db.RowsPaid spec book v s) :
    (op.exec spec now db).RowsPaid spec book v s := by
  refine ⟨fun hp => ?_, fun ha hc => (h.sync ha hc).exec⟩
  obtain ⟨d, hd, hf, hown, hpaid⟩ := h.proposal hp
  obtain ⟨d', hd', hf', hkept | hwritten⟩ := exec_final_proposal now ho hd hf
  · exact ⟨d', hd', hf', hkept.1.trans hown, hkept.2 hpaid⟩
  · exact ⟨d', hd', hf', hwritten.1, hwritten.2.1⟩

theorem Db.Gathered.exec_named (h : db.Gathered spec book registry) (hg : op.Gathers spec book registry db) {d : ProposalRow}
    (hd : (op.exec spec now db).blockProposals.get s = some d) : d.proposerIndex = book.proposer s := by
  rcases exec_proposal_cases hd with ⟨d₀, hd₀, hsame, -⟩ | ⟨w, rfl, hsame, -⟩
  · exact hsame.trans (h.named hd₀)
  · exact hsame.trans hg

theorem Db.upsertedSync_missed {w : SyncWrite} (hw : w.missedBlock = true → w.reward.isSome = true) :
    ∀ {old : Option SyncRow}, (∀ d, old = some d → d.missedBlock = true → d.reward.isSome = true) →
      (db.upsertedSync spec v s w old).missedBlock = true → (db.upsertedSync spec v s w old).reward.isSome = true
  | none, _, hm => hw hm
  | some old, hold, hm => by
    unfold upsertedSync at hm ⊢
    dsimp only at hm ⊢
    split at hm
    · rename_i hr
      rw [if_pos hr]
      exact coalesce_isSome (hw hm)
    · rename_i hr
      rw [if_neg hr]
      exact hold old rfl hm

theorem Db.Gathered.exec_missed (h : db.Gathered spec book registry) (hg : op.Gathers spec book registry db) {k : Nat × Nat}
    {d : SyncRow} (hd : (op.exec spec now db).syncDuties.get k = some d) (hm : d.missedBlock = true) :
    d.reward.isSome = true := by
  by_cases hw : op.writesSync = true
  · cases op with
    | upsertSyncDuty v' s' w =>
      replace hd : (db.upsertSyncDuty spec v' s' w).syncDuties.get k = some d := hd
      rw [Db.upsertSyncDuty_get] at hd
      split at hd
      · obtain rfl := Option.some.inj hd
        exact Db.upsertedSync_missed hg (fun d₀ hd₀ => h.missed hd₀) hm
      · exact h.missed hd hm
    | persistLiveSyncRewards s' rewards =>
      replace hd : (db.syncDuties.modify _).get k = some d := hd
      rw [Table.get_modify] at hd
      obtain ⟨d₀, hd₀, hd⟩ := Option.bind_eq_some_iff.1 hd
      obtain rfl := Option.some.inj hd
      split at hm
      · split
        · rfl
        · rename_i hr
          rw [if_neg hr] at hm
          exact h.missed hd₀ hm
      · exact h.missed hd₀ hm
    | promoteCollected p =>
      replace hd : (db.promoteCollected spec p).2.syncDuties.get k = some d := hd
      rw [Db.promoteCollected_sync] at hd
      obtain ⟨d₀, hd₀, rfl⟩ := Option.map_eq_some_iff.1 hd
      show ((db.stagedSyncReward p k.1 k.2).or d₀.reward).isSome = true
      rw [Option.isSome_or, h.missed hd₀ hm, Bool.or_true]
    | invalidateFrom r =>
      replace hd : (db.syncDuties.deleteWhere _).get k = some d := hd
      rw [Table.get_deleteWhere] at hd
      exact h.missed (Option.filter_eq_some_iff.1 hd).1 hm
    | _ => cases hw
  · rw [DbOp.exec_sync (by simpa using hw)] at hd
    exact h.missed hd hm

/-- Coverage appears with its rows and goes with them. -/
theorem Db.Gathered.exec_covered (h : db.Gathered spec book registry) (hg : op.Gathers spec book registry db)
    (hc : (op.exec spec now db).covered v s = true) (howed : Owed registry v (spec.slotToEpoch s)) :
    (op.exec spec now db).Rowed spec book v s := by
  by_cases hw : op.writesCoverage = true
  · cases op with
    | recordCoverage vs s' =>
      have hstay : RowsStay db ((DbOp.recordCoverage vs s').exec spec now db) := DbOp.exec_rowsStay rfl
      have hget : ((db.liveCoverage.insertAll (vs.map (·, s')) ()).get (v, s)).isSome = true := hc
      rw [Table.get_insertAll, Option.isSome_or, Bool.or_eq_true] at hget
      rcases hget with hold | hnew
      · exact (h.covered hold howed).stay hstay
      · split at hnew
        · rename_i hmem
          obtain ⟨v', hv, hk⟩ := List.mem_map.1 hmem
          obtain ⟨rfl, rfl⟩ := Prod.mk.inj hk
          exact (hg v' hv howed).stay hstay
        · cases hnew
    | invalidateFrom r =>
      -- a slot that is still covered lies before the rollback, and so do its rows
      replace hc : ((db.liveCoverage.deleteWhere fun (k : Nat × Nat) _ => decide (r ≤ k.2)).get (v, s)).isSome = true := hc
      rw [Table.get_deleteWhere] at hc
      obtain ⟨u, hu⟩ := Option.isSome_iff_exists.1 hc
      obtain ⟨hold, hlt⟩ := Option.filter_eq_some_iff.1 hu
      have hbefore : ¬r ≤ s := by simpa using hlt
      have hrows := h.covered (Table.has_iff.2 ⟨u, hold⟩) howed
      refine ⟨fun hp => ?_, fun ha hm => ?_⟩
      · obtain ⟨d, hd⟩ := Table.has_iff.1 (hrows.proposal hp)
        show (db.invalidateFrom spec r).blockProposals.has s = true
        simp [Db.invalidateFrom, Table.has, hd, hbefore, Option.filter]
      · obtain ⟨d, hd⟩ := Table.has_iff.1 (hrows.sync ha hm)
        show (db.invalidateFrom spec r).syncDuties.has (v, s) = true
        simp [Db.invalidateFrom, Table.has, hd, hbefore, Option.filter]
    | pruneCompletedEvidence e =>
      replace hc : ((db.liveCoverage.deleteWhere _).get (v, s)).isSome = true := hc
      rw [Table.get_deleteWhere] at hc
      obtain ⟨u, hu⟩ := Option.isSome_iff_exists.1 hc
      have hold := (Option.filter_eq_some_iff.1 hu).1
      exact (h.covered (Table.has_iff.2 ⟨u, hold⟩) howed).stay (DbOp.exec_rowsStay rfl)
    | _ => cases hw
  · have hreplay : op.replays = false := by
      cases op with
      | invalidateFrom => exact absurd rfl hw
      | _ => rfl
    unfold Db.covered at hc
    rw [DbOp.exec_coverage (by simpa using hw)] at hc
    exact (h.covered hc howed).stay (DbOp.exec_rowsStay hreplay)

/-- A pair that a promotion completes has the rewards of the rows it shows. -/
theorem Db.readyPairs_paid {p : Promotion} {e : Nat} (h : (v, e) ∈ db.readyPairs spec p) (hs : inEpoch spec e s = true) :
    (∀ d, db.blockProposals.get s = some d → d.proposerIndex = v → (db.promotedProposal spec p s d).Paid) ∧
    ∀ d, db.syncDuties.get (v, s) = some d → d.missedBlock = false → (db.promotedSync spec p v s d).reward.isSome = true := by
  obtain ⟨hproposals, hsync⟩ := Db.readyPairs_ready h
  refine ⟨fun d hd hv hp => ?_, fun d hd hm => ?_⟩
  · rw [Db.promotedProposal_proposed] at hp
    have hr := hproposals s d hd hv hs hp
    unfold Db.proposalReady at hr
    simp only [Bool.and_eq_true] at hr
    exact ⟨hr.1.1.1.1, hr.1.1.1.2, hr.1.1.2, hr.1.2⟩
  · have hr := hsync s d hd hs hm
    unfold Db.syncReady at hr
    exact (Bool.and_eq_true_iff.1 hr).1

theorem Db.inEpoch_slotToEpoch (s : Nat) : inEpoch spec (spec.slotToEpoch s) s = true := by
  have hlo := spec.epochStartSlot_slotToEpoch_le s
  have hhi := spec.slotToEpoch_lt_iff.1 (Nat.lt_succ_self (spec.slotToEpoch s))
  simp only [inEpoch, Bool.and_eq_true, decide_eq_true_eq]
  exact ⟨hlo, hhi⟩

/-- A promotion completes only pairs whose covered slots have their rows and rewards. -/
theorem Db.Gathered.promoted (h : db.Gathered spec book registry) {p : Promotion}
    (hready : (v, spec.slotToEpoch s) ∈ db.readyPairs spec p) (howed : Owed registry v (spec.slotToEpoch s)) :
    (db.promoteCollected spec p).2.RowsPaid spec book v s := by
  have hin : inEpoch spec (spec.slotToEpoch s) s = true := Db.inEpoch_slotToEpoch s
  obtain ⟨hproposals, hsync⟩ := Db.readyPairs_paid hready hin
  obtain ⟨-, -, -, hcovered, -⟩ := Db.readyPairs_row hready
  have hhi := spec.slotToEpoch_lt_iff.1 (Nat.lt_succ_self (spec.slotToEpoch s))
  have hwindow : spec.epochStartSlot (spec.slotToEpoch s + 1) ≤ spec.epochStartSlot (spec.slotToEpoch s + 2) :=
    spec.epochStartSlot_mono (Nat.le_succ _)
  have hslot : db.covered v s = true := (Db.fullyCovered_iff db v _).1 hcovered s (spec.epochStartSlot_slotToEpoch_le s)
    (lt_of_lt_of_le hhi hwindow)
  have hrows := h.covered hslot howed
  refine ⟨fun hp => ?_, fun ha hc => ?_⟩
  · obtain ⟨d, hd⟩ := Table.has_iff.1 (hrows.proposal hp)
    have hown : d.proposerIndex = v := (h.named hd).trans hp
    rw [Db.promoteCollected_proposals, hd, Option.map_some]
    refine ⟨_, rfl, ?_, ?_, hproposals d hd hown⟩
    · refine (Bool.or_eq_true _ _).mpr (.inr (List.any_eq_true.2 ⟨_, hready, ?_⟩))
      simp [hown, hin]
    · exact (Db.promotedProposal_proposer spec db p s d).trans (h.named hd)
  · obtain ⟨d, hd⟩ := Table.has_iff.1 (hrows.sync ha hc)
    unfold SyncPaid
    rw [Db.promoteCollected_sync, hd, Option.map_some]
    refine ⟨_, rfl, ?_, ?_⟩
    · refine (Bool.or_eq_true _ _).mpr (.inr (List.any_eq_true.2 ⟨_, hready, ?_⟩))
      simp [hin]
    · show (db.promotedSync spec p v s d).reward.isSome = true
      cases hm : d.missedBlock with
      | false => exact hsync d hd hm
      | true =>
        show ((db.stagedSyncReward p v s).or d.reward).isSome = true
        rw [Option.isSome_or, h.missed hd hm, Bool.or_true]

/-- A scan that accounts for the slot completes it with its rows paid. -/
theorem Db.Gathered.accounted (h : db.Gathered spec book registry) (ha : db.Accounted spec book v (spec.slotToEpoch s))
    (howed : Owed registry v (spec.slotToEpoch s)) : db.RowsPaid spec book v s := by
  refine ⟨fun hp => ?_, fun haltair hc => ?_⟩
  · obtain ⟨d, hd, hf, ⟨hown, hpaid⟩ | ⟨-, hdone⟩⟩ := ha.proposals s (mem_epochSlots s) hp
    · exact ⟨d, hd, hf, hown, hpaid⟩
    · -- the row's proposer is the validator itself, which was complete before
      rw [h.named hd, hp] at hdone
      exact (h.completed hdone howed).proposal hp
  · exact (ha.sync haltair hc s (mem_epochSlots s)).elim (fun hpaid => hpaid) fun hdone =>
      (h.completed hdone howed).sync haltair hc

theorem Db.Gathered.exec (h : db.Gathered spec book registry) (ha : op.Accounted spec book db)
    (hg : op.Gathers spec book registry db) : (op.exec spec now db).Gathered spec book registry := by
  refine ⟨h.exec_named hg, h.exec_missed hg, h.exec_covered hg, fun {v s} hc howed => ?_⟩
  by_cases hold : db.completed v (spec.slotToEpoch s) = true
  · exact (h.completed hold howed).exec ha
  · rw [Bool.not_eq_true] at hold
    by_cases hw : op.completes = true
    · cases op with
      | markComplete vs epoch =>
        have hmark : (db.markComplete vs epoch).completed v (spec.slotToEpoch s) = true := hc
        rw [Db.markComplete_completed, hold, Bool.false_or] at hmark
        obtain ⟨hv, rfl⟩ : v ∈ vs ∧ spec.slotToEpoch s = epoch := by simpa using hmark
        exact (h.accounted (ha v hv) howed).exec ha
      | promoteCollected p =>
        have hpromoted : (db.promoteCollected spec p).2.completed v (spec.slotToEpoch s) = true := hc
        rw [Db.promoteCollected_completed, hold, Bool.false_or, List.contains_iff_mem] at hpromoted
        exact h.promoted hpromoted howed
      | _ => cases hw
    · unfold Db.completed at hc hold
      rw [DbOp.exec_completed (by simpa using hw), hold] at hc
      cases hc

/-- The empty database with a loaded registry. -/
theorem Db.Gathered.empty : ({ Db.empty with validators := registry } : Db).Gathered spec book registry where
  named hd := by simp [Db.empty] at hd
  missed hd := by simp [Db.empty] at hd
  covered hc := by simp [Db.covered, Db.empty, Table.has] at hc
  completed hc := by simp [Db.completed, Db.empty, Table.has] at hc

end Exec

/-! ## Collection -/

/-- What a pass knows of the assignments of an epoch. -/
structure EpochDuties.Knows (spec : ChainSpec) (book : DutyBook) (registry : Table Nat ValidatorRow) (tracked : List Nat)
    (e : Nat) (d : EpochDuties) : Prop where
  named : ∀ {s v}, d.proposerBySlot.get s = some v → v = book.proposer s
  proposers : d.complete = true → ∀ {s}, s ∈ epochSlots spec e → book.proposer s ∈ tracked →
    Owed registry (book.proposer s) e → d.proposerBySlot.get s = some (book.proposer s)
  members : d.complete = true → spec.altairForkEpoch ≤ e → ∀ {v}, v ∈ tracked → v ∈ book.committee e → Owed registry v e →
    ∃ t, d.syncPositions = some t ∧ t.has v = true

/-- The entries are blocks the node served, each at its own slot. -/
def ResolvedChain.Served (net : Network) (w : net.View) (chain : ResolvedChain) : Prop :=
  ∀ s r b, chain.entries.get s = some (r, b) → b.slot = s ∧ net.answers w (.blockByRoot r) (.ok (some b))

theorem ResolvedChain.Served.insert {net : Network} {w : net.View} {chain : ResolvedChain} (h : chain.Served net w) {root : Root}
    {block : SignedBeaconBlock} (hb : net.answers w (.blockByRoot root) (.ok (some block))) :
    (chain.insert block.slot root block).Served net w := by
  intro s r b hget
  unfold ResolvedChain.insert at hget
  rw [Table.get_put] at hget
  split at hget
  · rename_i hs
    obtain ⟨rfl, rfl⟩ := Prod.mk.inj (Option.some.inj hget)
    exact ⟨hs.symm, hb⟩
  · exact h s r b hget

/-- A setting in which no row is removed, on databases that keep the registry. -/
structure Gathering {σ : Type} (C : Contract indexer σ) (spec : ChainSpec) (net : Network) (w : net.View) (db : σ → Db)
    (book : DutyBook) (registry : Table Nat ValidatorRow) : Prop extends Working C spec net w db where
  issue : ∀ {op s}, op.Gathers spec book registry (db s) → op.replays = false → C.guar (.db op) s
  registered : ∀ {op s r s'}, C.sem (.db op) s r s' → (db s).RegisteredAs registry
  rely : ∀ {s s'}, C.rely s s' → RowsStay (db s) (db s')
  keeps : ∀ {e s r s'}, C.guar e s → C.sem e s r s' → RowsStay (db s) (db s')

section Walk

variable {σ : Type} {C : Contract indexer σ} {net : Network} {w : net.View} {db : σ → Db} {book : DutyBook}
  {slotOf : Root → Nat} {registry : Table Nat ValidatorRow}

section Resolve

variable (h : Working C spec net w db)
include h

theorem Working.fetchByRoot (root : Root) : ∀ n,
    C.Always (fetchByRoot root n) fun b => net.answers w (.blockByRoot root) (.ok (some b))
  | 0 => .throw
  | n + 1 => by
    refine .bind (h.request _) fun block hb => ?_
    cases block with
    | some block => exact .pure hb
    | none => exact Working.fetchByRoot root n

theorem Working.resolveParents (scanStart : Nat) : ∀ fuel child root (chain : ResolvedChain), chain.Served net w →
    C.Always (resolveParents scanStart fuel child root chain) (ResolvedChain.Served net w)
  | 0, _, _, _, _ => .bind (h.fetchByRoot _ _) fun _ _ => .throw
  | fuel + 1, _, _, _, hc => .bind (h.fetchByRoot _ _) fun _ hb => .check fun _ =>
      .ite (fun _ => .pure (hc.insert hb)) fun _ => Working.resolveParents scanStart fuel _ _ _ (hc.insert hb)

theorem Working.resolveChain (headSlot : Nat) (headRoot : Root) (scanStart : Nat) :
    C.Always (resolveChain headSlot headRoot scanStart) (ResolvedChain.Served net w) := by
  have hempty : ResolvedChain.Served net w ⟨.empty⟩ := fun s r b hb => by cases hb
  exact .bind (h.fetchByRoot _ _) fun _ hb => .check fun _ => .ite (fun _ => .pure (hempty.insert hb)) fun _ =>
    h.resolveParents _ _ _ _ _ (hempty.insert hb)

/-! ## Reward jobs -/

variable (hbook : net.Describes spec book slotOf)
include hbook

theorem Working.canonicalRoot (slot : Nat) (root : Root) :
    C.Always (canonicalRoot slot root) fun ok => ok = true → slotOf root = slot := by
  refine .bind (P := fun r => slotOf r.data.root = slot) (.bind (h.request _) fun r hr =>
    .bind (always_ensureNotOptimistic r) fun _ _ => .check fun hc => .pure (hbook.headers hr (by simpa using hc)))
    fun r hr => .pure fun hok => ?_
  obtain ⟨-, -, hroot⟩ := of_decide_eq_true hok
  rw [← hroot]
  exact hr

/-- The block of a job is the scheduled proposer's block of its slot. -/
theorem Working.blockJobDependency (job : LiveJob) :
    C.Always (blockJobDependency job) fun (slot, _, block) => block.proposerIndex = book.proposer slot := by
  unfold BeaconIndexer.blockJobDependency
  split
  · rename_i root _
    split
    · rename_i slot _
      refine .bind (h.canonicalRoot hbook slot root) fun ok hok => .check fun hc => .bind (h.request _) fun block hb => ?_
      cases block with
      | none => exact .throw
      | some block =>
        obtain ⟨hslot, hproposer⟩ := hbook.blocks hb
        rw [hok (by simpa using hc)] at hslot
        rw [hslot] at hproposer
        exact .pure hproposer
    · exact .throw
  · exact .throw

/-- A reward job writes proposals of scheduled proposers only. -/
theorem Working.collectJob {G : DbOp → Prop} {own : Nat → Prop} (hg : Grants C G own)
    (hG : ∀ op, (∀ d, op.Gathers spec book registry d) → G op) (job : LiveJob) (resolved : ResolvedChain) :
    C.Always (collectJob spec job resolved) fun _ => True := by
  have free : ∀ {op : DbOp}, (∀ d, op.Gathers spec book registry d) → C.Always (BeaconIndexer.statement op) fun _ => True :=
    fun hop => hg.statement (hG _ hop)
  unfold BeaconIndexer.collectJob
  split
  · unfold collectAttestationJob
    dsimp only
    split
    · exact .bind (hg.canonicalRoot _ _) fun _ _ => .check fun _ => .bind (hg.getStateRoot _) fun _ _ =>
        .bind (hg.fetchLiveAttestationRewards _ _) fun _ _ => .bind (hg.getStateRoot _) fun _ _ => .check fun _ =>
        .bind (hg.canonicalRoot _ _) fun _ _ => .check fun _ => .bind (free fun _ => trivial) fun _ _ =>
        .ite (fun _ => .pure trivial) fun _ => free fun _ => trivial
    · exact .throw
  · refine .bind (h.blockJobDependency hbook job) fun (slot, root, block) hblock => ?_
    have hrewards : C.Always (BeaconIndexer.fetchLiveProposalRewards root block)
        fun r => r.data.proposerIndex = book.proposer slot := by
      refine .bind (hg.getBlockRewardsByRoot _) fun r _ => .check fun hsame => .pure ?_
      exact (not_not.1 hsame).trans hblock
    refine .bind hrewards fun response hproposer => .check fun _ => .bind (hg.canonicalRoot _ _) fun _ _ => .check fun _ =>
      .bind (free fun _ => trivial) fun _ _ => ?_
    unfold persistLiveProposalRewards
    exact .check fun _ => .bind (always_ofExcept _) fun _ _ => .bind (always_ofExcept _) fun _ _ =>
      .bind (always_ofExcept _) fun _ _ => .bind (always_ofExcept _) fun _ _ => free fun _ => hproposer
  · exact .bind (hg.blockJobDependency job) fun (slot, root, block) _ => .bind (hg.fetchLiveSyncRewards _ _) fun _ _ =>
      .check fun _ => .bind (hg.canonicalRoot _ _) fun _ _ => .check fun _ =>
      .bind (free fun _ => trivial) fun _ _ => free fun _ => trivial

end Resolve

/-! ## One slot -/

variable (h : Gathering C spec net w db book registry)
include h

theorem Gathering.grants : Grants C (fun op => (∀ d, op.Gathers spec book registry d) ∧ op.replays = false) fun _ => True :=
  h.toWorking.grants fun _ s hop => h.issue (hop.1 (db s)) hop.2

/-- A statement that has nothing to show. -/
theorem Gathering.plain {op : DbOp} (hop : (∀ d, op.Gathers spec book registry d) ∧ op.replays = false) :
    C.Always (statement op) fun _ => True := h.grants.statement hop

theorem Gathering.activeValidatorsAt (vs : List Nat) (e : Nat) :
    C.Always (statement (.activeValidatorsAt vs e)) fun r => ∀ v, v ∈ r ↔ v ∈ vs ∧ activeIn registry v e := by
  refine .ask (fun s => h.issue trivial rfl) fun s r s' hsem a ha v => ?_
  cases (ha : r = .ok a)
  rcases h.statement hsem with ⟨now, hr, -⟩ | ⟨m, hr, -⟩
  · cases hr
    have hmem : v ∈ (db s).activeValidatorsAt vs e ↔ v ∈ vs ∧ activeIn (db s).validators v e := mem_activeValidatorsAt
    rw [h.registered hsem v e] at hmem
    exact hmem
  · cases hr

theorem Gathering.fetchEpochDuties (hbook : net.Follows spec book) (tracked : List Nat) (slot : Nat) :
    C.Always (fetchEpochDuties spec tracked slot) (EpochDuties.Knows spec book registry tracked (spec.slotToEpoch slot)) := by
  have none_owed : (∀ v ∈ tracked, ¬Owed registry v (spec.slotToEpoch slot)) →
      EpochDuties.Knows spec book registry tracked (spec.slotToEpoch slot) ⟨true, .empty, none⟩ := fun hno =>
    ⟨fun hv => by simp at hv, fun _ _ _ hv howed => absurd howed (hno _ hv), fun _ _ _ hv _ howed => absurd howed (hno _ hv)⟩
  refine .ite (fun hzero => .pure (none_owed fun v _ howed => ?_)) fun _ => .bind (h.activeValidatorsAt _ _) fun active hactive => ?_
  · subst hzero
    exact howed.2 (Nat.zero_div _)
  refine .ite (fun hempty => .pure (none_owed fun v hv howed => ?_)) fun _ => ?_
  · have hmem := (hactive v).2 ⟨hv, howed.1⟩
    rw [List.isEmpty_iff.1 hempty] at hmem
    cases hmem
  have hseed : C.Always (seedLiveAttestationDuties (spec.slotToEpoch slot) active) fun _ => True :=
    h.grants.seedLiveAttestationDuties_of _ _ fun _ _ => ⟨fun _ => trivial, rfl⟩
  refine .bind (always_orUnavailable hseed) fun seeded _ =>
    .bind (always_orUnavailable (h.getProposerDuties (hbook w _))) fun proposers hproposers => ?_
  have hnamed : ∀ {s v}, (Table.ofList (((proposers.getD []).filter fun d => active.contains d.validatorIndex).map
      fun d => (d.slot, d.validatorIndex))).get s = some v → v = book.proposer s := by
    intro s v hget
    obtain ⟨d, hd, hk⟩ := List.mem_map.1 (Table.mem_of_get_ofList hget)
    obtain ⟨rfl, rfl⟩ := Prod.mk.inj hk
    cases proposers with
    | none => cases hd
    | some duties => exact (hproposers duties rfl).2 d (List.mem_filter.1 hd).1
  have hscheduled : proposers.isSome = true → ∀ {s}, s ∈ epochSlots spec (spec.slotToEpoch slot) → book.proposer s ∈ tracked →
      Owed registry (book.proposer s) (spec.slotToEpoch slot) →
      (Table.ofList (((proposers.getD []).filter fun d => active.contains d.validatorIndex).map
        fun d => (d.slot, d.validatorIndex))).get s = some (book.proposer s) := by
    intro hsome s hs hv howed
    obtain ⟨duties, rfl⟩ := Option.isSome_iff_exists.1 hsome
    obtain ⟨hduties, hproposer⟩ := hproposers duties rfl
    exact (hduties.trackedSlots active s _).2 ⟨hduties.mem_of_book hproposer hs, (hactive _).2 ⟨hv, howed.1⟩⟩
  refine .ite (fun hlt => .pure ⟨hnamed, fun hc => hscheduled (Bool.and_eq_true_iff.1 hc).2, fun _ ha => ?_⟩) fun _ =>
    .bind (always_orUnavailable (h.request _)) fun sync hsync => .pure ⟨hnamed, fun hc => ?_, fun hc _ v hv hm howed => ?_⟩
  · omega
  · exact hscheduled (Bool.and_eq_true_iff.1 (Bool.and_eq_true_iff.1 hc).1).2
  · obtain ⟨duties, rfl⟩ := Option.isSome_iff_exists.1 (Bool.and_eq_true_iff.1 hc).2
    obtain ⟨d, hd, rfl⟩ := (hbook w _).members (hsync duties rfl) v ((hactive v).2 ⟨hv, howed.1⟩) hm
    refine ⟨_, rfl, Table.has_ofList ?_⟩
    rw [List.map_map]
    exact List.mem_map_of_mem hd

section Slot

variable {slot : Nat}

/-- A scheduled proposer's row is there after its collection. -/
theorem Gathering.collectProposal (entry : Option (Root × SignedBeaconBlock)) {proposer : Option Nat}
    (hp : ∀ {v}, proposer = some v → v = book.proposer slot) (s : σ) :
    C.Ok (collectProposal spec slot entry proposer) s
      (fun _ s' => proposer.isSome = true → (db s').blockProposals.has slot = true) fun _ _ => True := by
  cases proposer with
  | none => exact .pure fun _ _ hno => by cases hno
  | some v =>
    let Here : Db → Prop := fun d => d.blockProposals.has slot = true
    have hrely : ∀ s s', C.rely s s' → Here (db s) → Here (db s') := fun _ _ hr => (h.rely hr).proposals
    have write : C.Ok (upsertLiveProposalInSlot slot v (entry.map Prod.snd)) s (fun _ s' => Here (db s')) fun _ _ => True := by
      have hgathers : ∀ d, (DbOp.upsertBlockProposal slot (proposalOutcome false v (entry.map Prod.snd).isSome)).Gathers
          spec book registry d := fun _ => hp rfl
      refine h.establish (F := Here) (fun s => h.issue (hgathers (db s)) rfl) (fun _ d => ?_) hrely s
      show (d.upsertBlockProposal spec slot _).blockProposals.has slot = true
      unfold Table.has
      rw [Db.upsertBlockProposal_get, if_pos rfl]
      rfl
    refine .bind (write.imp fun _ s hs => ?_)
    cases entry with
    | none => exact .pure fun s' hr _ => hrely s s' hr hs
    | some b =>
      have enqueue : C.Always (BeaconIndexer.statement (.enqueueJobs (spec.slotToEpoch slot) (some slot) .proposalRewards [v]
          (some b.1))) fun _ => True := h.plain ⟨fun _ => trivial, rfl⟩
      exact ((enqueue s).frame hrely (fun e s r s' hg hsem => (h.keeps hg hsem).proposals) hs).mono (fun _ s' hs' _ => hs'.2)
        fun _ _ _ => trivial

/-- The members' rows are there after their upserts, if a block of the slot has its aggregate. -/
theorem Gathering.upsertLiveSyncInSlot (block : Option SignedBeaconBlock) (t : SyncPositions) (s : σ) :
    C.Ok (upsertLiveSyncInSlot spec slot block t) s (fun _ s' => (∀ b, block = some b → b.syncAggregate.isSome = true) →
      ∀ r ∈ t.rows, (db s').syncDuties.has (r.1, slot) = true) fun _ _ => True := by
  let Here : Nat × List Nat → σ → Prop := fun r s => (db s).syncDuties.has (r.1, slot) = true
  have hrely : ∀ r s s', C.rely s s' → Here r s → Here r s' := fun _ _ _ hr => (h.rely hr).sync
  have hkeep : ∀ r e s a s', C.guar e s → C.sem e s a s' → Here r s → Here r s' := fun _ _ _ _ _ hg hsem => (h.keeps hg hsem).sync
  have upsert : ∀ (r : Nat × List Nat) (write : SyncWrite) s, (write.missedBlock = true → write.reward.isSome = true) →
      C.Ok (BeaconIndexer.statement (.upsertSyncDuty r.1 slot write)) s (fun _ s' => Here r s') fun _ _ => True := by
    intro r write s hw
    have hgathers : ∀ d, (DbOp.upsertSyncDuty r.1 slot write).Gathers spec book registry d := fun _ => hw
    refine h.establish (F := fun d => d.syncDuties.has (r.1, slot) = true) (fun s => h.issue (hgathers (db s)) rfl)
      (fun _ d => ?_) (fun s s' => hrely r s s') s
    show (d.upsertSyncDuty spec r.1 slot write).syncDuties.has (r.1, slot) = true
    unfold Table.has
    rw [Db.upsertSyncDuty_get, if_pos rfl]
    rfl
  refine .ite (fun hempty => .pure fun _ _ _ r hr => ?_) fun _ => ?_
  · rw [List.isEmpty_iff.1 hempty] at hr
    cases hr
  cases block with
  | none =>
    refine (Contract.Ok.each_all (F := Here) hrely hkeep (fun r _ s => ?_) s).imp fun _ _ hall _ => hall
    exact upsert r _ s fun _ => rfl
  | some b =>
    dsimp only
    split
    · refine .bind ((always_ofExcept _ s).imp fun bits s _ => ?_)
      refine (Contract.Ok.each_all (F := Here) hrely hkeep (fun r _ s => ?_) s).imp fun _ _ hall _ => hall
      unfold upsertLiveSyncMember
      split
      · exact .throw fun _ _ => trivial
      · exact upsert r _ s fun hm => by cases hm
    · rename_i hnone
      refine .pure fun _ _ hagg => ?_
      obtain ⟨aggregate, ha⟩ := Option.isSome_iff_exists.1 (hagg b rfl)
      exact absurd ha (hnone aggregate)

variable (slot) in
theorem Gathering.collectSync (entry : Option (Root × SignedBeaconBlock)) (positions : Option SyncPositions) (s : σ) :
    C.Ok (collectSync spec slot entry positions) s (fun _ s' =>
      (∀ b, entry.map Prod.snd = some b → b.syncAggregate.isSome = true) →
        ∀ t, positions = some t → ∀ v, t.has v = true → (db s').syncDuties.has (v, slot) = true) fun _ _ => True := by
  cases positions with
  | none => exact .pure fun _ _ _ t ht => by cases ht
  | some t =>
    let Kept : σ → Prop := fun s => (∀ b, entry.map Prod.snd = some b → b.syncAggregate.isSome = true) →
      ∀ r ∈ t.rows, (db s).syncDuties.has (r.1, slot) = true
    have hrely : ∀ s s', C.rely s s' → Kept s → Kept s' := fun _ _ hr hk hagg r hmem => (h.rely hr).sync (hk hagg r hmem)
    have members : ∀ s, Kept s → (∀ b, entry.map Prod.snd = some b → b.syncAggregate.isSome = true) → ∀ t', some t = some t' →
        ∀ v, t'.has v = true → (db s).syncDuties.has (v, slot) = true := by
      rintro s hk hagg t' ht v hv
      obtain rfl := Option.some.inj ht
      obtain ⟨ps, hps⟩ := Table.has_iff.1 hv
      exact hk hagg (v, ps) (Table.mem_rows.2 hps)
    refine .bind ((h.upsertLiveSyncInSlot _ t s).imp fun _ s hs => ?_)
    cases entry with
    | none => exact .pure fun s' hr => members s' (hrely s s' hr hs)
    | some b =>
      refine .ite (fun _ => ?_) fun _ => .pure fun s' hr => members s' (hrely s s' hr hs)
      have enqueue : C.Always (BeaconIndexer.statement (.enqueueJobs (spec.slotToEpoch slot) (some slot) .syncRewards
          (t.rows.map Prod.fst) (some b.1))) fun _ => True := h.plain ⟨fun _ => trivial, rfl⟩
      refine ((enqueue s).frame (I := Kept) hrely
        (fun _ _ _ _ hg hsem hk hagg r hmem => (h.keeps hg hsem).sync (hk hagg r hmem)) hs).mono
        (fun _ s' hs' => members s' hs'.2) fun _ _ _ => trivial

/-- A slot is recorded as covered once the rows of its owed duties are there. -/
theorem Gathering.processSlot (hbook : net.Follows spec book) {tracked active : List Nat} {duties : EpochDuties}
    (hd : duties.Knows spec book registry tracked (spec.slotToEpoch slot)) {resolved : ResolvedChain}
    (hresolved : resolved.Served net w) :
    C.Always (processSlot spec slot tracked active duties resolved) fun _ => True := by
  let Here : σ → Prop := fun s => duties.complete = true → ∀ v ∈ tracked, Owed registry v (spec.slotToEpoch slot) →
    (db s).Rowed spec book v slot
  have hrely : ∀ s s', C.rely s s' → Here s → Here s' := fun _ _ hr hs hc v hv howed => (hs hc v hv howed).stay (h.rely hr)
  have hkeep : ∀ e s a s', C.guar e s → C.sem e s a s' → Here s → Here s' :=
    fun _ _ _ _ hg hsem hs hc v hv howed => (hs hc v hv howed).stay (h.keeps hg hsem)
  have cover : ∀ s, Here s → duties.complete = true →
      C.Ok (BeaconIndexer.statement (.recordCoverage tracked slot)) s (fun _ _ => True) fun _ _ => True := by
    intro s hs hc
    refine .ask (fun s₁ hr => ?_) fun _ r _ _ _ _ _ => by cases r <;> trivial
    have hgathers : (DbOp.recordCoverage tracked slot).Gathers spec book registry (db s₁) := hrely s s₁ hr hs hc
    exact h.issue hgathers rfl
  have collect : ∀ (entry : Option (Root × SignedBeaconBlock)) {rest : Task Unit}, resolved.entries.get slot = entry →
      (∀ s, Here s → C.Ok rest s (fun _ _ => True) fun _ _ => True) → C.Always (do
        BeaconIndexer.collectProposal spec slot entry (duties.proposerBySlot.get slot)
        BeaconIndexer.collectSync spec slot entry duties.syncPositions
        rest) fun _ => True := by
    intro entry rest hentry hrest s
    refine .bind ((h.collectProposal entry hd.named s).imp fun _ s hproposal => ?_)
    have hrows := h.collectSync slot entry duties.syncPositions s
    have hsync := hrows.frame (I := fun s => (duties.proposerBySlot.get slot).isSome = true → (db s).blockProposals.has slot = true)
      (fun _ _ hr hs hp => (h.rely hr).proposals (hs hp)) (fun _ _ _ _ hg hsem hs hp => (h.keeps hg hsem).proposals (hs hp)) hproposal
    refine .bind (hsync.mono (fun _ s hs => hrest s fun hc v hv howed => ⟨fun hp => hs.2 ?_, fun ha hm => ?_⟩) fun _ _ _ => trivial)
    · rw [hd.proposers hc (mem_epochSlots slot) (hp ▸ hv) (hp ▸ howed)]
      rfl
    · obtain ⟨t, ht, hhas⟩ := hd.members hc ha hv hm howed
      refine hs.1 (fun b hb => ?_) t ht v hhas
      obtain ⟨⟨root, _⟩, hroot, rfl⟩ := Option.map_eq_some_iff.1 hb
      obtain ⟨hslot, hanswer⟩ := hresolved slot root _ (hentry.trans hroot)
      exact (hbook w (spec.slotToEpoch slot)).aggregates hanswer (hslot ▸ ha)
  have finish : ∀ s, Here s → C.Ok (do
      if !duties.complete then throw (.beaconDataUnavailable "Assignments incomplete; retaining slot coverage gap")
      BeaconIndexer.statement (.recordCoverage tracked slot)) s (fun _ _ => True) fun _ _ => True :=
    fun s hs => .check (fun _ _ _ => trivial) fun hc => cover s hs (by simpa using hc)
  unfold BeaconIndexer.processSlot
  cases he : resolved.entries.get slot with
  | none => exact collect none he finish
  | some b =>
    refine .bind (h.plain ⟨fun _ => trivial, rfl⟩) fun _ _ => collect (some b) he fun s hs => ?_
    have scan : C.Always (scanLiveAttestationsInSlot spec active b.2 resolved.roots false) fun _ => True :=
      h.grants.scanLiveAttestationsInSlot_of spec _ _ _ (fun _ _ _ _ _ => ⟨fun _ => trivial, rfl⟩) fun hf => by cases hf
    refine .ite (fun _ => .bind ?_) fun _ => finish s hs
    exact ((scan s).frame hrely hkeep hs).mono (fun _ s hs => finish s hs.2) fun _ _ _ => trivial

end Slot

/-! ## A collection pass -/

/-- What is known of the epochs loaded so far. -/
def Known (spec : ChainSpec) (book : DutyBook) (registry : Table Nat ValidatorRow) (tracked : List Nat) (inputs : EpochInputs) : Prop :=
  ∀ e d active, inputs.get e = some (some d, active) → d.Knows spec book registry tracked e

theorem Gathering.loadEpoch (hbook : net.Follows spec book) {tracked : List Nat} {acc : EpochInputs × Option Error}
    (hacc : Known spec book registry tracked acc.1) (slot : Nat) :
    C.Always (loadEpoch spec tracked acc slot) fun acc' => Known spec book registry tracked acc'.1 := by
  have hput : ∀ {duties : Option EpochDuties} {active : List Nat} {error : Option Error},
      (∀ d, duties = some d → d.Knows spec book registry tracked (spec.slotToEpoch slot)) →
      C.Always (Pure.pure (acc.1.put (spec.slotToEpoch slot) (duties, active), error) : Task (EpochInputs × Option Error))
        fun acc' => Known spec book registry tracked acc'.1 := by
    refine fun hd => .pure fun e d act he => ?_
    rw [Table.get_put] at he
    split at he
    · rename_i hsame
      obtain ⟨rfl, -⟩ := Prod.mk.inj (Option.some.inj he)
      exact hsame ▸ hd d rfl
    · exact hacc e d act he
  refine .ite (fun _ => .pure hacc) fun _ => .bind (h.fetchEpochDuties hbook tracked slot).attempt fun duties hduties =>
    .bind (h.plain ⟨fun _ => trivial, rfl⟩) fun active _ => ?_
  cases duties with
  | ok duties =>
    have hd : ∀ d, some duties = some d → d.Knows spec book registry tracked (spec.slotToEpoch slot) :=
      fun d hd => hduties d (congrArg _ (Option.some.inj hd))
    exact .ite (fun _ => .bind (h.plain ⟨fun _ => trivial, rfl⟩) fun _ _ => hput hd) fun _ => hput hd
  | error error =>
    have hd : ∀ d : EpochDuties, none = some d → d.Knows spec book registry tracked (spec.slotToEpoch slot) :=
      fun d hd => by cases hd
    exact .ite (fun _ => .bind (h.plain ⟨fun _ => trivial, rfl⟩) fun _ _ => hput hd) fun _ => hput hd

theorem Gathering.processHeadScan (hbook : net.Follows spec book) (tracked : List Nat) (cursor : Cursor)
    {resolved : ResolvedChain} (hresolved : resolved.Served net w) (floor target : Nat) :
    C.Always (processHeadScan spec tracked cursor resolved floor target) fun _ => True := by
  have collect : ∀ inputs acc slot, Known spec book registry tracked inputs →
      C.Always (collectSlot spec tracked inputs resolved acc slot) fun _ => True := by
    intro inputs acc slot hknown
    unfold collectSlot
    split
    · rename_i duties active he
      refine .bind (h.processSlot hbook (hknown _ _ _ he) hresolved).attempt fun r _ => ?_
      cases r with
      | ok a => exact .pure trivial
      | error e => exact .pure trivial
    · exact .pure trivial
  have hempty : Known spec book registry tracked (.empty : EpochInputs) := fun e d active he => by simp at he
  exact .bind (h.plain ⟨fun _ => trivial, rfl⟩) fun _ _ =>
    .bind (.foldlM (I := fun acc => Known spec book registry tracked acc.1) hempty fun acc slot _ hacc => h.loadEpoch hbook hacc slot)
      fun inputs hknown => .foldlM (I := fun _ => True) trivial fun acc slot _ _ => collect _ acc slot hknown

end Walk

/-! ## Runs of one instance -/

section Runs

variable (spec : ChainSpec) (net : Network) (cfg : LiveConfig spec) (owns : List Nat → Prop)
  (registry : Table Nat ValidatorRow) (book : DutyBook)

/-- The workers of one instance, as long as the validators are active as the registry has them. -/
def instanceWorkers : System indexer (Unit × Role) net.View Memory (Db × net.Past) :=
  (indexers spec net (fun _ => cfg) fun _ => owns).restrict fun _ _ e s => match e with
    | .node _ => True
    | .db _ => s.1.RegisteredAs registry

/-- All workers stopped, the validator registry loaded and nothing else stored. -/
def freshInstance (past : net.Past) : Configuration Unit net :=
  ⟨({ Db.empty with validators := registry }, past), fun _ => .idle .stopped⟩

/-- The live worker gathers and relies on the rows that are there; no other worker writes coverage. -/
def gathering : ((instanceWorkers spec net cfg owns registry).restrict
    (accounting spec net (fun _ : Unit => cfg) (fun _ => owns) book).guar).Discipline where
  rely i s s' := i.2 = .live → RowsStay s.1 s'.1
  guar i _ e s := match e with
    | .node _ => True
    | .db op => (i.2 = .live → op.Gathers spec book registry s.1) ∧ (i.2 ≠ .live → op.writesCoverage = false)
  post _ _ _ _ := True
  idle _ _ _ := True
  refl _ s _ := .refl s.1
  trans _ := fun h h' hi => (h hi).trans (h' hi)

variable {spec net cfg owns registry book} {slotOf : Root → Nat} {w : net.View}

theorem gathering_working (i : Unit × Role) :
    Working ((gathering spec net cfg owns registry book).contract i w) spec net w fun s : Db × net.Past => s.1 where
  free _ _ := trivial
  answers h := h.2.2.1.1
  statement h := h.2.2.1

/-- What the live worker may do while it collects: nothing that rolls back. -/
def collects (spec : ChainSpec) (book : DutyBook) (registry : Table Nat ValidatorRow) (e : Effect) (s : Db × net.Past) : Prop :=
  match e with
  | .node _ => True
  | .db op => op.Gathers spec book registry s.1 ∧ op.replays = false

theorem gathering_collects : Gathering (((gathering spec net cfg owns registry book).contract ((), .live) w).withGuar
    (collects spec book registry)) spec net w (fun s => s.1) book registry where
  free _ _ := trivial
  answers h := h.2.2.1.1
  statement h := h.2.2.1
  issue hop hr := ⟨hop, hr⟩
  registered h := h.2.1
  rely hr := hr rfl
  keeps := by
    rintro (q | op) s r s' hg ⟨-, -, hsem, -⟩
    · have hdb : s'.1 = s.1 := hsem.2
      exact hdb ▸ .refl s.1
    · rcases hsem with ⟨now, -, hdb⟩ | ⟨m, -, hdb⟩
      · exact hdb ▸ DbOp.exec_rowsStay hg.2
      · exact hdb ▸ .refl s.1

/-- A pass gathers: it collects without rolling back, and everything else it issues has nothing to show. -/
theorem reconcilePass_gathers (hbook : net.Describes spec book slotOf) (tracked : List Nat) :
    ((gathering spec net cfg owns registry book).contract ((), .live) w).AlwaysMem (reconcilePass spec cfg tracked) := by
  let Free : DbOp → Prop := fun op => ∀ d, op.Gathers spec book registry d
  have hw : Working ((gathering spec net cfg owns registry book).contract ((), .live) w) spec net w
      fun s : Db × net.Past => s.1 := gathering_working _
  have hg : Grants ((gathering spec net cfg owns registry book).contract ((), .live) w) Free fun _ => True :=
    hw.grants fun op s hop => ⟨fun _ => hop s.1, fun hn => absurd rfl hn⟩
  have hbooks : ∀ op : DbOp, op.bookkeeps = true → Free op := by
    intro op hop d
    cases op with
    | upsertBlockProposal => cases hop
    | upsertSyncDuty => cases hop
    | recordCoverage => cases hop
    | _ => trivial
  have hfin : ∀ (checkpoint : Checkpoint) (resolved : ResolvedChain),
      ((gathering spec net cfg owns registry book).contract ((), .live) w).Always
        (finalizeCollectedEvidence spec checkpoint resolved) fun _ => True :=
    hg.finalizeCollectedEvidence spec (fun op hop => hbooks op (DbOp.bookkeeps_of_reads hop)) (fun _ _ _ _ _ => trivial)
      (fun _ _ _ _ => trivial) fun _ _ => trivial
  have hcollect : ∀ (resolved : ResolvedChain), resolved.Served net w → ∀ cursor floor target,
      ((gathering spec net cfg owns registry book).contract ((), .live) w).Always
        (processHeadScan spec tracked cursor resolved floor target) fun _ => True := by
    intro resolved hserved cursor floor target s
    have hcollects : Gathering (((gathering spec net cfg owns registry book).contract ((), .live) w).withGuar
        (collects spec book registry)) spec net w (fun s => s.1) book registry := gathering_collects
    have hscan := hcollects.processHeadScan hbook.follows tracked cursor hserved floor target s
    refine Contract.Safe.weaken ?_ hscan
    rintro (q | op) s hcond
    · trivial
    · exact ⟨fun _ => hcond.1, fun hn => absurd rfl hn⟩
  exact hg.reconcilePass_by spec hbooks (fun job resolved _ => hw.collectJob hbook hg (fun _ hop => hop) job resolved)
    (fun checkpoint resolved _ => hfin checkpoint resolved) cfg hg.getHeadHeader hw.resolveChain
    fun head cursor resolved floor _ hserved => hcollect resolved hserved cursor floor _

theorem begins_gathering (hbook : net.Describes spec book slotOf) {i : Unit × Role} {m : Memory} {p : Prog indexer Memory}
    (hb : Begins spec cfg owns i.2 m p) (s : Db × net.Past) :
    ((gathering spec net cfg owns registry book).contract i w).Safe p (fun _ _ => True) s := by
  obtain ⟨⟨⟩, role⟩ := i
  have hw : Working ((gathering spec net cfg owns registry book).contract ((), role) w) spec net w
      fun s : Db × net.Past => s.1 := gathering_working _
  have hother : role ≠ .live → Grants ((gathering spec net cfg owns registry book).contract ((), role) w)
      (fun op => op.writesCoverage = false) fun _ => True :=
    fun hrole => hw.grants fun op s hop => ⟨fun hlive => absurd hlive hrole, fun _ => hop⟩
  cases hb with
  | @boot tracked _ =>
    have hg : Grants ((gathering spec net cfg owns registry book).contract ((), .live) w) (· = .processedTip tracked)
        fun _ => True := hw.grants fun op s hop => hop ▸ ⟨fun _ => trivial, fun hn => absurd rfl hn⟩
    exact (hg.statement rfl s).seal fun r _ _ => by cases r <;> exact fun _ _ => trivial
  | @pass tracked last cursor _ => exact (reconcilePass_gathers hbook tracked cursor s).seal fun _ _ _ _ _ => trivial
  | @scan n _ epoch validators mode _ =>
    refine ((hother nofun).scanEpoch spec (fun op hop => ?_) mode s).seal fun r _ _ _ _ => trivial
    cases hop <;> rfl
  | @refresh _ v a x =>
    have hstatement : ((gathering spec net cfg owns registry book).contract ((), .metadata) w).Always
        (statement (.upsertValidator v a x)) fun _ => True := (hother nofun).statement rfl
    exact (hstatement s).seal fun r _ _ _ _ => trivial

/-- A final outcome of the scheduled proposer gathers, too. -/
theorem DbOp.Accounted.gathers {op : DbOp} {db : Db} (ha : op.Accounted spec book db) (hc : op.Conclusive)
    (hw : op.writesCoverage = false) : op.Gathers spec book registry db := by
  cases op with
  | upsertBlockProposal => exact (ha hc).1
  | upsertSyncDuty => exact hc
  | recordCoverage => cases hw
  | _ => trivial

theorem gathering_sound (hbook : net.Describes spec book slotOf) : ((instanceWorkers spec net cfg owns registry).restrict
    (accounting spec net (fun _ : Unit => cfg) (fun _ => owns) book).guar).Sound (gathering spec net cfg owns registry book)
      fun s => s.1.Gathered spec book registry where
  begins := by
    rintro i m s w p s' hi - ⟨hb, -, hdb⟩
    rw [hdb]
    exact ⟨hi, begins_gathering hbook hb s', fun _ _ _ => hdb ▸ .refl s.1⟩
  acts := by
    rintro i w (q | op) s r s' hi hg ⟨hacc, -, hsem, -⟩
    · have hdb : s'.1 = s.1 := hsem.2
      exact ⟨hdb ▸ hi, fun _ _ _ => hdb ▸ .refl s.1⟩
    have hgathers : op.Gathers spec book registry s.1 := by
      by_cases hlive : i.2 = .live
      · exact hg.1 hlive
      · exact hacc.1.gathers (hacc.2 hlive) (hg.2 hlive)
    have hstay : i.2 ≠ .live → ∀ now, RowsStay s.1 (op.exec spec now s.1) := by
      intro hother now
      refine DbOp.exec_rowsStay ?_
      have hcoverage := hg.2 hother
      cases op with
      | invalidateFrom => cases hcoverage
      | _ => rfl
    rcases hsem with ⟨now, -, hdb⟩ | ⟨m, -, hdb⟩
    · refine ⟨hdb ▸ hi.exec hacc.1 hgathers, fun j hj hlive => hdb ▸ hstay (fun hi => hj ?_) now⟩
      exact Prod.ext rfl (hlive.trans hi.symm)
    · exact ⟨hdb ▸ hi, fun _ _ _ => hdb ▸ .refl s.1⟩
  finish _ _ := trivial
  restart _ _ := trivial
  idle _ _ := trivial

/-- In every run of one instance on nodes whose duties do not change, a completed pair of an active validator has,
for each slot of its epoch, a final proposal row with its rewards if the validator is the slot's proposer, and from
Altair on a final sync row with its reward if it sits in the committee. -/
theorem completed_duties_paid (hbook : net.Describes spec book slotOf) {past : net.Past} {c : Configuration Unit net}
    (hr : (instanceWorkers spec net cfg owns registry).Reach (freshInstance net registry past) c) {v s : Nat}
    (hc : c.state.1.completed v (spec.slotToEpoch s) = true) (hactive : activeIn registry v (spec.slotToEpoch s))
    (hgenesis : spec.slotToEpoch s ≠ 0) :
    (book.proposer s = v → ∃ d, c.state.1.blockProposals.get s = some d ∧ d.finalized = true ∧ d.proposerIndex = v ∧
      d.Paid) ∧
    (spec.altairForkEpoch ≤ spec.slotToEpoch s → v ∈ book.committee (spec.slotToEpoch s) →
      ∃ d, c.state.1.syncDuties.get (v, s) = some d ∧ d.finalized = true ∧ d.reward.isSome = true) := by
  have hfree : (indexers spec net (fun _ : Unit => cfg) fun _ => owns).Sound
      (accounting spec net (fun _ => cfg) (fun _ => owns) book) fun s => (fun _ => True) s.1 :=
    accounting_sound hbook.follows (fun _ => True) fun _ _ _ _ h => h
  -- every statement of the run is accounted for, so it may be assumed
  have hrun := (hfree.under fun _ _ e s => match e with
    | .node _ => True
    | .db _ => s.1.RegisteredAs registry).reach_guarded hr ⟨trivial, fun _ => trivial⟩
  obtain ⟨hgathered, -⟩ := (gathering_sound hbook).reach hrun ⟨Db.Gathered.empty, fun _ => trivial⟩
  have hpaid := hgathered.completed hc ⟨hactive, hgenesis⟩
  refine ⟨fun hp => ?_, fun ha hm => hpaid.sync ha hm⟩
  obtain ⟨d, hd, hf, hown, hrewards⟩ := hpaid.proposal hp
  exact ⟨d, hd, hf, hown.trans hp, hrewards⟩

end Runs

/-! ## A chain that grows -/

def sevenRegistry : Table Nat ValidatorRow := Table.empty.put 7 ⟨0, none, none⟩

def growingHeader (slot : Nat) : BeaconResponse HeaderData := ⟨⟨⟨slot + 1⟩, true, slot, ⟨slot⟩⟩, none⟩

/-- Validator 7 proposes a block in every slot up to the head, and the second epoch before the head is finalized. -/
def growingAnswers (head : Nat) : (q : Request) → Except Error q.Answer
  | .header .head => .ok (growingHeader head)
  | .header (.slot s) => .ok (growingHeader s)
  | .header (.root r) => .ok (growingHeader (r.value - 1))
  | .blockByRoot r => .ok (some ⟨r.value - 1, 7, ⟨r.value - 1⟩, ⟨r.value - 1⟩, .altair [] ⟨['0', '3']⟩⟩)
  | .attesterDuties e vs => .ok (vs.map fun v => ⟨v, 0, 0, e⟩)
  | .attestationRewards _ vs => .ok ⟨vs.map fun v => ⟨v, 0, 0, 0, none, none⟩, none⟩
  | .committees _ => .ok []
  | .proposerDuties epoch => .ok [⟨7, epoch⟩]
  | .blockRewardsByRoot _ => .ok ⟨⟨7, 100, 60, 30, 10, 0⟩, none⟩
  | .syncDuties _ vs => .ok (vs.map fun v => ⟨v, [0, 1]⟩)
  | .syncCommittee _ => .ok SyncEpoch.repeatedCommittee
  | .syncRewardsByRoot _ vs => .ok ⟨vs.map fun v => ⟨v, 10⟩, none⟩
  | .stateRoot s => .ok ⟨⟨s⟩, none⟩
  | .finalityCheckpoints _ => .ok ⟨⟨⟨head - 1, ⟨head⟩⟩, ⟨head - 2, ⟨head - 1⟩⟩⟩, none⟩
  | .pruneInputsBefore _ => .ok ()
  | _ => .error (.http "no answer")

def growingNet : Network := ⟨Nat, Unit, fun head q r => r = growingAnswers head q, fun _ _ _ => True⟩

theorem growingNet_describes : growingNet.Describes SyncEpoch.oneSlotSpec sevenBook fun root => root.value - 1 where
  follows := by
    intro head epoch
    constructor
    case proposers =>
      intro duties h d hd
      cases h
      obtain rfl := List.mem_singleton.1 hd
      rfl
    case members =>
      intro vs duties h v hv _
      cases h
      exact ⟨⟨v, [0, 1]⟩, List.mem_map_of_mem hv, rfl⟩
    case committee =>
      intro members h
      cases h
      rfl
    case aggregates =>
      intro root b h _
      cases h
      rfl
  headers h _ := by
    cases h
    rfl
  blocks h := by
    cases h
    exact ⟨rfl, rfl⟩

def growingHandler (head : Nat) : (e : Effect) → Db × Unit → e.Result × (Db × Unit)
  | .node q, s => (growingAnswers head q, s)
  | .db op, s => (.ok (op.answer SyncEpoch.oneSlotSpec 0 s.1), (op.exec SyncEpoch.oneSlotSpec 0 s.1, s.2))

/-- Seven is registered as it was. -/
def onlySeven : Effect → Db × Unit → Bool
  | .node _, _ => true
  | .db _, s => (s.1.validators.rows.map fun r => (r.1, r.2.activationEpoch, r.2.exitEpoch)) == [(7, 0, none)]

theorem registeredAs_of_onlySeven {op : DbOp} {s : Db × Unit} (h : onlySeven (.db op) s = true) :
    s.1.RegisteredAs sevenRegistry := by
  obtain ⟨⟨v₀, row⟩, hrows, hrow⟩ := List.map_eq_singleton_iff.1 (beq_iff_eq.1 h)
  obtain ⟨rfl, hactivation, hexit⟩ : v₀ = 7 ∧ row.activationEpoch = 0 ∧ row.exitEpoch = none := by simpa using hrow
  have hactive : ∀ e, row.activeAt e = true := by
    intro e
    unfold ValidatorRow.activeAt
    rw [hactivation, hexit]
    simp
  have hseven : ∀ {t : Table Nat ValidatorRow} {r : ValidatorRow}, t.rows = [(7, r)] → (∀ e, r.activeAt e = true) →
      ∀ v e, activeIn t v e ↔ v = 7 := by
    intro t r ht hr v e
    unfold activeIn
    constructor
    · rintro ⟨r', hget, -⟩
      have hmem := Table.mem_rows.2 hget
      rw [ht] at hmem
      exact (Prod.mk.inj (List.mem_singleton.1 hmem)).1
    · rintro rfl
      exact ⟨r, Table.mem_rows.1 (ht ▸ List.mem_singleton.2 rfl), hr e⟩
  have hthere : ∀ e, (⟨0, none, none⟩ : ValidatorRow).activeAt e = true := by
    intro e
    simp [ValidatorRow.activeAt]
  exact fun v e => (hseven hrows hactive v e).trans (hseven (t := sevenRegistry) rfl hthere v e).symm

abbrev growingIndexer : System indexer (Unit × Role) Nat Memory (Db × Unit) :=
  instanceWorkers SyncEpoch.oneSlotSpec growingNet sevenLag (fun _ => True) sevenRegistry

/-- The live worker's next program. -/
def growingProgram : Memory → Prog indexer Memory
  | .stopped => boot [7]
  | .live tracked _ cursor => pass SyncEpoch.oneSlotSpec sevenLag tracked cursor

theorem begins_growing : ∀ m, Begins SyncEpoch.oneSlotSpec sevenLag (fun _ => True) .live m (growingProgram m)
  | .stopped => .boot trivial
  | .live _ _ _ => .pass trivial

/-- The live worker's next program is run to its end, against one head. -/
def liveTurn (ok : Effect → Db × Unit → Bool) (handler : Nat → (e : Effect) → Db × Unit → e.Result × (Db × Unit))
    (x : Memory × (Db × Unit)) (head : Nat) : Option (Memory × (Db × Unit)) :=
  ((growingProgram x.1).advance ok (handler head) 200 x.2).bind fun r => r.1.result?.map (·, r.2)

/-- Turns of the live worker are a run, in which the other workers stay where they are. -/
theorem live_reach {A : System indexer (Unit × Role) Nat Memory (Db × Unit)} {ok : Effect → Db × Unit → Bool}
    {handler : Nat → (e : Effect) → Db × Unit → e.Result × (Db × Unit)}
    (hsem : ∀ head e s, ok e s = true → A.sem ((), .live) head e s (handler head e s).1 (handler head e s).2)
    (hbegins : ∀ head m s, A.begins ((), .live) m s head (growingProgram m) s) :
    ∀ (heads : List Nat) {x y : Memory × (Db × Unit)} {c : Config indexer (Unit × Role) Nat Memory (Db × Unit)},
      c.proc ((), .live) = .idle x.1 → c.state = x.2 → heads.foldlM (liveTurn ok handler) x = some y →
        ∃ c', A.Reach c c' ∧ c'.state = y.2 ∧ ∀ i, i ≠ ((), .live) → c'.proc i = c.proc i
  | [], x, y, c, _, hs, h => by
    obtain rfl := Option.some.inj h
    exact ⟨c, .refl, hs, fun _ _ => rfl⟩
  | head :: heads, x, y, c, hp, hs, h => by
    rw [List.foldlM_cons] at h
    obtain ⟨x', hx, h⟩ := Option.bind_eq_some_iff.1 h
    obtain ⟨⟨p, s⟩, ha, hr⟩ := Option.bind_eq_some_iff.1 hx
    obtain ⟨m, hm, rfl⟩ := Option.map_eq_some_iff.1 hr
    have hb : A.begins ((), .live) x.1 c.state head (growingProgram x.1) x.2 := hs ▸ hbegins head x.1 x.2
    obtain ⟨-, hstep⟩ := System.reach_program (hsem head) hp hb ha hm
    obtain ⟨c', hreach, hc', hothers⟩ := live_reach hsem hbegins heads (Config.set_proc ..) rfl h
    refine ⟨c', hstep.trans hreach, hc', fun i hi => (hothers i hi).trans ?_⟩
    exact Function.update_of_ne hi _ _

/-- The live worker tracks 7 from epoch 4 on, collects it and completes epoch 4 once it is finalized. -/
theorem completed_duties_paid_growing : ∃ c : Configuration Unit growingNet,
    growingIndexer.Reach (freshInstance growingNet sevenRegistry ()) c ∧ c.state.1.completed 7 4 = true ∧
    (∃ d, c.state.1.blockProposals.get 4 = some d ∧ d.finalized = true ∧ d.proposerIndex = 7 ∧ d.Paid) ∧
    ∃ d, c.state.1.syncDuties.get (7, 4) = some d ∧ d.finalized = true ∧ d.reward.isSome = true := by
  have hplay : ([4, 4, 7, 9].foldlM (liveTurn onlySeven growingHandler) (.stopped, (freshInstance growingNet sevenRegistry ()).state)).any
      (fun y => y.2.1.completed 7 4) = true := by decide +kernel
  obtain ⟨y, hy, hdone⟩ := (Option.any_eq_true _ _).1 hplay
  have hsem : ∀ head e s, onlySeven e s = true →
      growingIndexer.sem ((), .live) head e s (growingHandler head e s).1 (growingHandler head e s).2 := by
    rintro head (q | op) s hok
    · exact ⟨trivial, ⟨rfl, rfl⟩, rfl⟩
    · exact ⟨registeredAs_of_onlySeven hok, .inl ⟨0, rfl, rfl⟩, rfl⟩
  have hbegins : ∀ head m s, growingIndexer.begins ((), .live) m s head (growingProgram m) s :=
    fun _ m _ => ⟨begins_growing m, trivial, rfl⟩
  obtain ⟨c, hr, hstate, -⟩ := live_reach hsem hbegins _ (c := freshInstance growingNet sevenRegistry ()) rfl rfl hy
  rw [← hstate] at hdone
  have hactive : activeIn sevenRegistry 7 4 := ⟨⟨0, none, none⟩, rfl, by decide⟩
  obtain ⟨hproposal, hsync⟩ := completed_duties_paid growingNet_describes hr (s := 4) hdone hactive (by decide)
  exact ⟨c, hr, hdone, hproposal rfl, hsync (Nat.zero_le 4) (by decide)⟩

end BeaconIndexer
