/-
What a live pass promises of each statement it issues against a coherent node: blocks, coverage,
duties and promotions all describe the view of the pass. The promises mention the database only
through the stored blocks.
-/
import BeaconIndexer.Db.Run
import BeaconIndexer.Proofs.Resolve
import BeaconIndexer.Workers

namespace BeaconIndexer

open Effects Ancestry Relational

variable {spec : ChainSpec}

/-! ## What a block says -/

namespace Ledger

variable (L : Ledger spec)

def cmapOf (r : Root) (epoch : Nat) : CommitteeMap := buildCommitteeMap (L.committeesOf r epoch)

/-- The attestation for `epoch` by `v` that the block `r` contains. -/
def vote (r : Root) (epoch v : Nat) : Option AttestationData :=
  (L.block r).bind fun b => b.voteOf spec (L.cmapOf r epoch) epoch v

/-- Vote columns decoded from `r` and compared with the roots of `r`'s own ancestry. -/
def VoteColumns (r : Root) (v epoch : Nat) (slot : Option Nat) (source target head : Option Bool) : Prop :=
  ∃ data, L.vote r epoch v = some data ∧ slot = some (L.slotOf r) ∧ source = some true ∧
    target = some (data.target.epoch == epoch && L.boundary r epoch == some data.target.root) ∧
    head = some (L.lastRoot r data.slot == some data.beaconBlockRoot)

/-- Whether `v` took part in the sync aggregate of the block `r`. -/
def SyncColumns (r : Root) (v : Nat) (participated : Bool) : Prop :=
  ∃ b sync bits, L.block r = some b ∧ b.syncAggregate = some sync ∧
    decodeSyncCommitteeBits spec sync.syncCommitteeBits = .ok bits ∧
    (participated = true ↔ ∃ p : Nat, (L.syncCommitteeOf r (spec.slotToEpoch (L.slotOf r)))[p]? = some v ∧
      bits[p]? = some true)

end Ledger

/-! ## Conditions on the database -/

/-- An inclusion of the duty at or before `s` has been recorded, or its row is final. -/
def Db.Seen (db : Db) (v e s : Nat) : Prop :=
  ∃ a, db.attestationDuties.get (v, e) = some a ∧ ((∃ x ≤ s, a.inclusionSlot = some x) ∨ a.finalized = true)

/-- Stored blocks are real, and slot jobs carry their slot's epoch. -/
structure Grounded (L : Ledger spec) (db : Db) : Prop where
  blocks : ∀ s row, db.liveBlocks.get s = some row →
    ∃ b, L.block row.root = some b ∧ b.slot = s ∧ b.parentRoot = row.parentRoot
  jobs : ∀ j row s, db.liveJobs.get j = some row → j.slot = some s → j.epoch = spec.slotToEpoch s

/-- Stored blocks from `floor` on are on the chain of `head`. -/
def OnBranch (L : Ledger spec) (head : Root) (floor : Nat) (db : Db) : Prop :=
  ∀ s r, floor ≤ s → db.storedRoot s = some r → L.rootAt head s = some r

/-- The other workers leave the live tables alone and never take an observed inclusion back. -/
structure LiveRely (db db' : Db) : Prop where
  blocks : db'.liveBlocks = db.liveBlocks
  coverage : db'.liveCoverage = db.liveCoverage
  jobs : db'.liveJobs = db.liveJobs
  tracking : db'.liveTrackingStart = db.liveTrackingStart
  seen : ∀ v e s, db.Seen v e s → db'.Seen v e s

theorem LiveRely.refl (db : Db) : LiveRely db db := ⟨rfl, rfl, rfl, rfl, fun _ _ _ h => h⟩

theorem LiveRely.storedRoot {a b : Db} (h : LiveRely a b) (s : Nat) : b.storedRoot s = a.storedRoot s := by
  unfold Db.storedRoot; rw [h.blocks]

/-! ## The promises -/

section Promises

variable {L : Ledger spec} (V : View L) (cfg : LiveConfig spec) (tracked : List Nat) (reg : Nat → Nat → Prop)

/-- The first slot of the pass's retry window. -/
def View.floor : Nat := windowFloor spec (L.slotOf V.head) cfg.retryWindowEpochs

/-- The newest slot the pass collects. -/
def View.target : Nat := L.slotOf V.head - cfg.lagSlots

/-- An attestation write of a live pass: a seed for a registered validator, or the vote of a stored
block of the chain. -/
def AttestationPromise (v e : Nat) (w : AttestationWrite) (db : Db) : Prop :=
  w.finalized = false ∧
    ((w.included = false ∧ w.inclusionSlot = none ∧ reg v e) ∨
      (w.included = true ∧ ∃ r, L.forest.Anc V.head r ∧ db.storedRoot (L.slotOf r) = some r ∧
        spec.slotToEpoch (L.slotOf r) ≤ e + 1 ∧
        L.VoteColumns r v e w.inclusionSlot w.sourceCorrect w.targetCorrect w.headCorrect))

/-- A proposal write: the outcome of a collected slot, or the rewards of a canonical block. -/
def ProposalPromise (s : Nat) (w : ProposalWrite) (db : Db) : Prop :=
  w.finalized = false ∧
    ((db.storedRoot s = L.rootAt V.head s ∧ w.proposed = (L.rootAt V.head s).isSome ∧
        w.proposerIndex = L.proposerOf V.head s) ∨
      (w.proposed = true ∧ ∃ r b, L.rootAt V.head s = some r ∧ L.block r = some b ∧
        w.proposerIndex = b.proposerIndex ∧ ∀ r', db.storedRoot s = some r' → r' = r))

def SyncPromise (v s : Nat) (w : SyncWrite) (db : Db) : Prop :=
  w.finalized = false ∧ db.storedRoot s = L.rootAt V.head s ∧
    match L.rootAt V.head s with
    | none => w.missedBlock = true ∧ w.participated = false
    | some r => w.missedBlock = false ∧ L.SyncColumns r v w.participated

/-- Coverage is written once the slot's block is stored and every vote in it has been seen. -/
def CoveragePromise (vs : List Nat) (s : Nat) (db : Db) : Prop :=
  vs = tracked ∧ V.floor cfg ≤ s ∧ s ≤ V.target cfg ∧ db.storedRoot s = L.rootAt V.head s ∧
    ∀ r, L.rootAt V.head s = some r → ∀ v ∈ tracked, ∀ e data, reg v e → L.vote r e v = some data →
      spec.slotToEpoch s ≤ e + 1 → db.Seen v e s

/-- A promotion rests on the stored ancestry of the finalized checkpoint. -/
structure PromotionPromise (p : Promotion) (db : Db) : Prop where
  target : p.completionTarget + 2 = V.finalized.epoch
  epoch : p.finalizedEpoch = V.finalized.epoch
  validators : ∀ v, db.liveTrackingStart.has v = true → v ∈ p.validators
  roots : ∀ r ∈ p.roots, L.forest.Anc V.finalized.root r ∧ db.storedRoot (L.slotOf r) = some r
  confirmed : ∀ s r, p.floor ≤ s → L.rootAt V.finalized.root s = some r → r ∈ p.roots

/-- What a live pass with this view promises of a statement. -/
def LivePromise : DbOp → Db → Prop
  | .registerTrackingStart vs e, _ => vs = tracked ∧ e = spec.slotToEpoch (L.slotOf V.head)
  | .recordBlock s r parent, db => V.floor cfg ≤ s ∧ s ≤ V.target cfg ∧ L.rootAt V.head s = some r ∧
      (∃ b, L.block r = some b ∧ b.parentRoot = parent) ∧ ∀ r', db.storedRoot s = some r' → r' = r
  | .recordCoverage vs s, db => CoveragePromise V cfg tracked reg vs s db
  | .invalidateFrom r, _ => ∃ e, r = spec.epochStartSlot e
  | .enqueueJobs e slot c vs _, _ => (∀ s, slot = some s → e = spec.slotToEpoch s) ∧
      (c = .attestationRewards → ∀ v ∈ vs, reg v e)
  | .completeJob job _ dep, _ => ∀ s, job.slot = some s → job.component ≠ .attestationRewards → L.rootAt V.head s = some dep
  | .pruneCompletedEvidence e, _ => spec.epochStartSlot e ≤ V.floor cfg ∧ e ≤ V.finalized.epoch - 2
  | .upsertAttestationDuty v e w, db => AttestationPromise V reg v e w db
  | .repairFinalizedInclusion v e d, db => ∃ r, L.forest.Anc V.finalized.root r ∧ db.storedRoot (L.slotOf r) = some r ∧
      L.VoteColumns r v e (some d.slot) (some d.sourceCorrect) (some d.targetCorrect) (some d.headCorrect)
  | .upsertBlockProposal s w, db => ProposalPromise V s w db
  | .upsertSyncDuty v s w, db => SyncPromise V v s w db
  | .promoteCollected p, db => PromotionPromise V p db
  | .markComplete .., _ | .upsertValidator .., _ => False
  | _, _ => True

end Promises

/-! ## What the promises keep -/

variable {L : Ledger spec} {V : View L} {cfg : LiveConfig spec} {tracked : List Nat} {reg : Nat → Nat → Prop}
  {now : Nat} {op : DbOp} {db : Db}

theorem recordBlock_get (s : Nat) (r p : Root) (s' : Nat) :
    (db.recordBlock s r p).liveBlocks.get s' = if s' = s then some ⟨r, p⟩ else db.liveBlocks.get s' :=
  Table.get_put ..

theorem recordBlock_storedRoot (s : Nat) (r p : Root) (s' : Nat) :
    (db.recordBlock s r p).storedRoot s' = if s' = s then some r else db.storedRoot s' := by
  unfold Db.storedRoot
  rw [recordBlock_get]
  split <;> rfl

/-- No statement but `record_block` stores a block. -/
theorem exec_blocks_sub {s : Nat} {row : LiveBlockRow} (h : (op.exec spec now db).liveBlocks.get s = some row) :
    db.liveBlocks.get s = some row ∨ ∃ p, op = .recordBlock s row.root p ∧ row.parentRoot = p := by
  by_cases hw : op.writesBlocks = true
  · cases op with
    | recordBlock s' r p =>
      replace h : (db.recordBlock s' r p).liveBlocks.get s = some row := h
      rw [recordBlock_get] at h
      split at h
      · rename_i he
        obtain rfl := Option.some.inj h
        exact Or.inr ⟨p, by rw [he], rfl⟩
      · exact Or.inl h
    | invalidateFrom r =>
      have h : (db.liveBlocks.deleteWhere _).get s = some row := h
      rw [Table.get_deleteWhere] at h
      exact Or.inl (Option.filter_eq_some_iff.1 h).1
    | pruneCompletedEvidence e =>
      have h : (db.liveBlocks.deleteWhere _).get s = some row := h
      rw [Table.get_deleteWhere] at h
      exact Or.inl (Option.filter_eq_some_iff.1 h).1
    | _ => cases hw
  · rw [DbOp.exec_blocks (by simpa using hw)] at h
    exact Or.inl h

/-- An inclusion write leaves the duty seen. -/
theorem Db.Seen.upsert {v e s : Nat} {w : AttestationWrite} (hw : w.inclusionSlot = some s) :
    (db.upsertAttestationDuty v e w).Seen v e s := by
  unfold Db.Seen
  rw [Db.upsertAttestationDuty_get, if_pos rfl]
  refine ⟨_, rfl, ?_⟩
  cases ha : db.attestationDuties.get (v, e) with
  | none => exact Or.inl ⟨s, le_rfl, hw⟩
  | some old =>
    unfold Db.upsertedAttestation
    by_cases hr : w.replaces (db.completed v e) old = true
    · simp only [hr, if_true]
      exact Or.inl ⟨s, le_rfl, hw⟩
    · simp only [hr, Bool.false_eq_true, if_false]
      -- the old row was kept: it is final or has an inclusion at or before this one
      cases hf : old.finalized with
      | true => exact Or.inr rfl
      | false =>
        cases hs : old.inclusionSlot with
        | some x =>
          refine Or.inl ⟨x, ?_, rfl⟩
          by_contra hlt
          exact hr (by simp [AttestationWrite.replaces, hf, hs, hw, Nat.lt_of_not_le hlt])
        | none => exact absurd (by simp [AttestationWrite.replaces, hf, hs]) hr

/-- No attestation write takes an observed inclusion back. -/
theorem Db.Seen.upsert_other {v e s v' e' : Nat} {w : AttestationWrite} (hs : db.Seen v e s) :
    (db.upsertAttestationDuty v' e' w).Seen v e s := by
  obtain ⟨a, ha, hseen⟩ := hs
  unfold Db.Seen
  rw [Db.upsertAttestationDuty_get]
  split
  · rename_i hk
    cases hk
    refine ⟨_, rfl, ?_⟩
    rw [ha]
    unfold Db.upsertedAttestation
    by_cases hr : w.replaces (db.completed v e) a = true
    · simp only [hr, if_true]
      cases hf : w.finalized with
      | true => exact Or.inr hf
      | false =>
        -- a provisional write only replaces an inclusion by an earlier or equal one
        simp only [AttestationWrite.replaces, hf, Bool.false_and, Bool.or_false, Bool.false_or, Bool.and_eq_true,
          Bool.not_eq_true', Bool.or_eq_true, sqlLt_iff, sqlEq_iff] at hr
        rcases hseen with ⟨y, hy, hi⟩ | hfin
        · rw [hi] at hr
          obtain ⟨_, (hn | ⟨x, y', hx, he, hlt⟩) | ⟨⟨x, hx, he⟩, _⟩⟩ := hr
          · cases hn
          · cases he
            exact Or.inl ⟨x, by omega, hx⟩
          · cases he
            exact Or.inl ⟨y, hy, hx⟩
        · rw [hfin] at hr
          cases hr.1
    · simp only [hr, Bool.false_eq_true, if_false]
      exact hseen
  · exact ⟨a, ha, hseen⟩

theorem Grounded.exec (hg : Grounded L db) (hp : LivePromise V cfg tracked reg op db) :
    Grounded L (op.exec spec now db) where
  blocks s row h := by
    rcases exec_blocks_sub h with h | ⟨p, rfl, rfl⟩
    · exact hg.blocks s row h
    · obtain ⟨_, _, hr, ⟨b, hb, hpar⟩, _⟩ := hp
      refine ⟨b, hb, ?_, hpar⟩
      rw [← Ledger.slotOf_eq hb]
      exact (Ledger.rootAt_iff.1 hr).2
  jobs j row s h hs := by
    rcases DbOp.exec_jobs_cases h with ⟨row', h, _⟩ | ⟨vs, root, rfl, _⟩ | ⟨job, payload, dep, row', rfl, h, _⟩
    · exact hg.jobs j row' s h hs
    · exact hp.1 s hs
    · exact hg.jobs j row' s h hs

theorem OnBranch.exec (hb : OnBranch L V.head (V.floor cfg) db) (hp : LivePromise V cfg tracked reg op db) :
    OnBranch L V.head (V.floor cfg) (op.exec spec now db) := by
  intro s r hs hr
  obtain ⟨parent, hrow⟩ := (Db.storedRoot_eq_some _).1 hr
  rcases exec_blocks_sub hrow with h | ⟨p, rfl, _⟩
  · exact hb s r hs ((Db.storedRoot_eq_some _).2 ⟨parent, h⟩)
  · exact hp.2.2.1

theorem OnBranch.rely {head : Root} {floor : Nat} {db' : Db} (hb : OnBranch L head floor db) (h : LiveRely db db') :
    OnBranch L head floor db' := fun s r hs hr => hb s r hs (h.storedRoot s ▸ hr)

end BeaconIndexer
