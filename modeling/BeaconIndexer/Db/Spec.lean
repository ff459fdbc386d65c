/-
What the statements do, table by table: the value under a key afterwards in terms of the values
before. Later proofs cite these and never unfold a statement.
-/
import BeaconIndexer.Db.Op

namespace BeaconIndexer

open Relational

namespace Db

variable (spec : ChainSpec) (db : Db)

theorem covered_iff {v s : Nat} : db.covered v s = true ↔ db.liveCoverage.get (v, s) = some () :=
  Table.has_iff.trans ⟨fun ⟨_, h⟩ => h, fun h => ⟨_, h⟩⟩

theorem storedRoot_eq_some {s : Nat} {r : Root} :
    db.storedRoot s = some r ↔ ∃ parent, db.liveBlocks.get s = some ⟨r, parent⟩ := by
  unfold storedRoot
  constructor
  · intro h
    obtain ⟨⟨root, parent⟩, hb, rfl⟩ := Option.map_eq_some_iff.1 h
    exact ⟨parent, hb⟩
  · rintro ⟨parent, h⟩; simp [h]

/-! ## Upserts -/

/-- The row an attestation upsert leaves under its own key. -/
def upsertedAttestation (completed : Bool) (w : AttestationWrite) : Option AttestationRow → AttestationRow
  | none => w.toRow
  | some old => if w.replaces completed old then w.merge old else old

theorem upsertAttestationDuty_get (v e : Nat) (w : AttestationWrite) (k : Nat × Nat) :
    (db.upsertAttestationDuty v e w).attestationDuties.get k =
      if k = (v, e) then some (upsertedAttestation (db.completed v e) w (db.attestationDuties.get k))
      else db.attestationDuties.get k := by
  simp only [upsertAttestationDuty, Table.get_upsert]
  by_cases hk : k = (v, e)
  · subst hk
    rw [if_pos rfl, if_pos rfl]
    cases h : db.attestationDuties.get (v, e) with
    | none => rfl
    | some old =>
      by_cases hr : w.replaces (db.completed v e) old = true <;>
        simp [Table.upserted, upsertedAttestation, hr]
  · simp [hk]

/-- The row a proposal upsert leaves under its own slot. -/
def upsertedProposal (slot : Nat) (w : ProposalWrite) : Option ProposalRow → ProposalRow
  | none => w.toRow
  | some old => if !old.finalized || (w.finalized && !db.completed old.proposerIndex (spec.slotToEpoch slot)) then
      w.merge old else old

theorem upsertBlockProposal_get (s : Nat) (w : ProposalWrite) (s' : Nat) :
    (db.upsertBlockProposal spec s w).blockProposals.get s' =
      if s' = s then some (db.upsertedProposal spec s w (db.blockProposals.get s)) else db.blockProposals.get s' := by
  simp only [upsertBlockProposal, Table.get_upsert]
  by_cases hs : s' = s
  · subst hs
    rw [if_pos rfl, if_pos rfl]
    cases h : db.blockProposals.get s' with
    | none => rfl
    | some old =>
      simp only [Table.upserted, upsertedProposal]
      split <;> simp
  · simp [hs]

/-- The row a sync upsert leaves under its own key. -/
def upsertedSync (v s : Nat) (w : SyncWrite) : Option SyncRow → SyncRow
  | none => w.toRow
  | some old => if !old.finalized || (w.finalized && !db.completed v (spec.slotToEpoch s)) then w.merge old else old

theorem upsertSyncDuty_get (v s : Nat) (w : SyncWrite) (k : Nat × Nat) :
    (db.upsertSyncDuty spec v s w).syncDuties.get k =
      if k = (v, s) then some (db.upsertedSync spec v s w (db.syncDuties.get k)) else db.syncDuties.get k := by
  simp only [upsertSyncDuty, Table.get_upsert]
  by_cases hk : k = (v, s)
  · subst hk
    rw [if_pos rfl, if_pos rfl]
    cases h : db.syncDuties.get (v, s) with
    | none => rfl
    | some old =>
      simp only [Table.upserted, upsertedSync]
      split <;> simp
  · simp [hk]

/-! ## Completion -/

theorem markComplete_completed (vs : List Nat) (epoch v e : Nat) :
    (db.markComplete vs epoch).completed v e = (db.completed v e || (vs.contains v && e == epoch)) := by
  have hmem : (v, e) ∈ vs.map (·, epoch) ↔ v ∈ vs ∧ e = epoch := by
    simp only [List.mem_map, Prod.mk.injEq]
    constructor
    · rintro ⟨x, hx, rfl, rfl⟩; exact ⟨hx, rfl⟩
    · rintro ⟨hv, rfl⟩; exact ⟨v, hv, rfl, rfl⟩
  unfold completed markComplete Table.has
  rw [Table.get_insertAll]
  cases db.completedScans.get (v, e) with
  | some u => simp
  | none =>
    by_cases h : v ∈ vs ∧ e = epoch
    · simp [h]
    · rw [if_neg (by rw [hmem]; exact h)]
      simp only [Option.none_or, Option.isSome_none, Bool.false_or]
      symm
      simpa using h

theorem markComplete_att (vs : List Nat) (epoch : Nat) (k : Nat × Nat) :
    (db.markComplete vs epoch).attestationDuties.get k = (db.attestationDuties.get k).map fun a =>
      if vs.contains k.1 && k.2 == epoch then { a with inclusionKnown := true } else a := by
  simp [markComplete]

/-! ## Promotion: the evidence statements -/

section Promotion

variable (p : Promotion)

/-- An inclusion confirmed by its block being on finalized ancestry. -/
def inclusionProven (v : Nat) (a : AttestationRow) : Bool :=
  p.validators.contains v && a.included && a.inclusionSlot.any (p.floor ≤ ·) && db.blockConfirmed p a.inclusionSlot

/-- The row after the staged rewards are joined. -/
def joinedRow (v e : Nat) (a : AttestationRow) : AttestationRow :=
  match db.stagedAttestationReward p v e with
  | some r => if db.completed v e then a else a.withRewards (some r.source) (some r.target) (some r.head) r.inactivity
  | none => a

/-- The row the evidence statements leave. -/
def promotedRow (v e : Nat) (a : AttestationRow) : AttestationRow :=
  { db.joinedRow p v e a with
    inclusionKnown := a.inclusionKnown || db.inclusionProven p v a || db.windowProven spec p v e a
    finalized := a.finalized || db.inclusionProven p v a || db.windowProven spec p v e a }

theorem joinedRow_duty (v e : Nat) (a : AttestationRow) :
    (db.joinedRow p v e a).included = a.included ∧ (db.joinedRow p v e a).inclusionSlot = a.inclusionSlot ∧
      (db.joinedRow p v e a).finalized = a.finalized ∧ (db.joinedRow p v e a).inclusionKnown = a.inclusionKnown := by
  unfold joinedRow
  split
  · split <;> exact ⟨rfl, rfl, rfl, rfl⟩
  · exact ⟨rfl, rfl, rfl, rfl⟩

theorem inclusionProven_congr {v : Nat} {a b : AttestationRow} (h1 : b.included = a.included)
    (h2 : b.inclusionSlot = a.inclusionSlot) : db.inclusionProven p v b = db.inclusionProven p v a := by
  unfold inclusionProven; rw [h1, h2]

theorem windowProven_congr {v e : Nat} {a b : AttestationRow} (h1 : b.included = a.included)
    (h2 : b.inclusionSlot = a.inclusionSlot) : db.windowProven spec p v e b = db.windowProven spec p v e a := by
  unfold windowProven; rw [h1, h2]

theorem joinAttestationRewards_get (k : Nat × Nat) :
    (db.joinAttestationRewards p).attestationDuties.get k = (db.attestationDuties.get k).map
      (db.joinedRow p k.1 k.2) := by
  simp only [joinAttestationRewards, Table.get_modify, Option.map_eq_bind]
  rfl

theorem confirmInclusions_get (k : Nat × Nat) :
    (db.confirmInclusions p).attestationDuties.get k = (db.attestationDuties.get k).map fun a =>
      if db.inclusionProven p k.1 a then { a with inclusionKnown := true, finalized := true } else a := by
  simp only [confirmInclusions, Table.get_update, inclusionProven]
  rfl

theorem confirmKnown_get (k : Nat × Nat) :
    (db.confirmKnown spec p).attestationDuties.get k = (db.attestationDuties.get k).map fun a =>
      if db.windowProven spec p k.1 k.2 a then { a with inclusionKnown := true } else a := by
  simp only [confirmKnown, Table.get_update]

theorem confirmOutcomes_get (k : Nat × Nat) :
    (db.confirmOutcomes spec p).attestationDuties.get k = (db.attestationDuties.get k).map fun a =>
      if db.windowProven spec p k.1 k.2 a && a.inclusionKnown then { a with finalized := true } else a := by
  simp only [confirmOutcomes, Table.get_update]

theorem promoteEvidence_att (k : Nat × Nat) :
    (db.promoteEvidence spec p).attestationDuties.get k =
      (db.attestationDuties.get k).map (db.promotedRow spec p k.1 k.2) := by
  let joined := ((db.joinAttestationRewards p).joinProposalRewards p).joinSyncRewards p
  have h1 : (db.promoteEvidence spec p).attestationDuties =
      (((joined.confirmInclusions p).confirmKnown spec p).confirmOutcomes spec p).attestationDuties := rfl
  have h2 : joined.attestationDuties = (db.joinAttestationRewards p).attestationDuties := rfl
  rw [h1, confirmOutcomes_get, confirmKnown_get, confirmInclusions_get, h2, joinAttestationRewards_get]
  simp only [Option.map_map]
  congr 1
  funext a
  -- only the two flags are changed after the join, so the conditions are those of the row itself
  obtain ⟨e1, e2, e3, e4⟩ := db.joinedRow_duty p k.1 k.2 a
  have hi : ∀ b : AttestationRow, b.included = a.included → b.inclusionSlot = a.inclusionSlot →
      joined.inclusionProven p k.1 b = db.inclusionProven p k.1 a := fun b h h' => db.inclusionProven_congr p h h'
  have hw : ∀ b : AttestationRow, b.included = a.included → b.inclusionSlot = a.inclusionSlot →
      (joined.confirmInclusions p).windowProven spec p k.1 k.2 b = db.windowProven spec p k.1 k.2 a ∧
      ((joined.confirmInclusions p).confirmKnown spec p).windowProven spec p k.1 k.2 b =
        db.windowProven spec p k.1 k.2 a :=
    fun b h h' => ⟨db.windowProven_congr spec p h h', db.windowProven_congr spec p h h'⟩
  generalize hj : db.joinedRow p k.1 k.2 a = j at e1 e2 e3 e4
  simp only [Function.comp_apply, promotedRow, hj, hi j e1 e2]
  cases hp : db.inclusionProven p k.1 a <;> cases hq : db.windowProven spec p k.1 k.2 a <;>
    cases j <;> simp_all

/-- The proposal row the evidence statements leave. -/
def promotedProposal (s : Nat) (d : ProposalRow) : ProposalRow :=
  let joined := match db.stagedProposalReward p s d.proposerIndex with
    | some r => { d with
        rewardTotal := some (r.total : Int)
        rewardAttestations := some (r.attestations : Int)
        rewardSync := some (r.syncAggregate : Int)
        rewardSlashings := some ((r.proposerSlashings : Int) + r.attesterSlashings) }
    | none => d
  { joined with finalized := d.finalized || db.slotProven spec p d.proposerIndex s d.proposed }

@[simp]
theorem promotedProposal_proposer (s : Nat) (d : ProposalRow) :
    (db.promotedProposal spec p s d).proposerIndex = d.proposerIndex := by
  unfold promotedProposal
  dsimp only
  split
  · rfl
  · rfl

@[simp]
theorem promotedProposal_proposed (s : Nat) (d : ProposalRow) :
    (db.promotedProposal spec p s d).proposed = d.proposed := by
  unfold promotedProposal
  dsimp only
  split
  · rfl
  · rfl

theorem promoteEvidence_proposals (s : Nat) :
    (db.promoteEvidence spec p).blockProposals.get s =
      (db.blockProposals.get s).map (db.promotedProposal spec p s) := by
  let confirmed := ((((((db.joinAttestationRewards p).joinProposalRewards p).joinSyncRewards p).confirmInclusions
    p).confirmKnown spec p).confirmOutcomes spec p)
  have h1 : (db.promoteEvidence spec p).blockProposals = (confirmed.confirmProposals spec p).blockProposals := rfl
  have h2 : confirmed.blockProposals = ((db.joinAttestationRewards p).joinProposalRewards p).blockProposals := rfl
  have h3 : ∀ o x, confirmed.slotProven spec p o s x = db.slotProven spec p o s x := fun _ _ => rfl
  have h4 : ∀ o, (db.joinAttestationRewards p).stagedProposalReward p s o = db.stagedProposalReward p s o :=
    fun _ => rfl
  have h5 : (db.joinAttestationRewards p).blockProposals = db.blockProposals := rfl
  rw [h1]
  simp only [confirmProposals, Table.get_update, h2, joinProposalRewards, Table.get_modify, h3, h4, h5]
  cases db.blockProposals.get s with
  | none => rfl
  | some d =>
    simp only [Option.bind_some, Option.map_some, Option.some.injEq, promotedProposal]
    cases db.stagedProposalReward p s d.proposerIndex <;>
      cases hp : db.slotProven spec p d.proposerIndex s d.proposed <;> cases d <;> simp_all

/-- The sync row the evidence statements leave. -/
def promotedSync (v s : Nat) (d : SyncRow) : SyncRow :=
  { d with
    reward := (db.stagedSyncReward p v s).or d.reward
    finalized := d.finalized || db.slotProven spec p v s (!d.missedBlock) }

theorem promoteEvidence_sync (k : Nat × Nat) :
    (db.promoteEvidence spec p).syncDuties.get k = (db.syncDuties.get k).map (db.promotedSync spec p k.1 k.2) := by
  let confirmed := (((((((db.joinAttestationRewards p).joinProposalRewards p).joinSyncRewards p).confirmInclusions
    p).confirmKnown spec p).confirmOutcomes spec p).confirmProposals spec p)
  have h1 : (db.promoteEvidence spec p).syncDuties = (confirmed.confirmSync spec p).syncDuties := rfl
  have h2 : confirmed.syncDuties =
      (((db.joinAttestationRewards p).joinProposalRewards p).joinSyncRewards p).syncDuties := rfl
  have h3 : ∀ x, confirmed.slotProven spec p k.1 k.2 x = db.slotProven spec p k.1 k.2 x := fun _ => rfl
  have h4 : ((db.joinAttestationRewards p).joinProposalRewards p).stagedSyncReward p k.1 k.2 =
      db.stagedSyncReward p k.1 k.2 := rfl
  have h5 : ((db.joinAttestationRewards p).joinProposalRewards p).syncDuties = db.syncDuties := rfl
  rw [h1]
  simp only [confirmSync, Table.get_update, h2, joinSyncRewards, Table.get_modify, h5]
  cases db.syncDuties.get k with
  | none => rfl
  | some d =>
    simp only [Option.bind_some, Option.map_some, Option.some.injEq, promotedSync, h3, h4]
    cases db.stagedSyncReward p k.1 k.2 <;> cases hp : db.slotProven spec p k.1 k.2 (!d.missedBlock) <;>
      cases d <;> simp_all

/-! ## Promotion: the completions -/

/-- What completing a list of pairs does to the tables. -/
theorem completePairs_spec (ks : List (Nat × Nat)) : ∀ d : Db,
    let d' := ks.foldl (fun d k => d.completePair spec k.1 k.2) d
    (d'.liveBlocks = d.liveBlocks ∧ d'.liveCoverage = d.liveCoverage ∧ d'.liveTrackingStart = d.liveTrackingStart ∧
      d'.liveGaps = d.liveGaps ∧ d'.liveJobs = d.liveJobs) ∧
    (∀ k, d'.attestationDuties.get k = (d.attestationDuties.get k).map fun a =>
      { a with finalized := a.finalized || ks.contains k }) ∧
    (∀ s, d'.blockProposals.get s = (d.blockProposals.get s).map fun r =>
      { r with finalized := r.finalized || ks.any fun k => r.proposerIndex == k.1 && inEpoch spec k.2 s }) ∧
    (∀ v s, d'.syncDuties.get (v, s) = (d.syncDuties.get (v, s)).map fun r =>
      { r with finalized := r.finalized || ks.any fun k => v == k.1 && inEpoch spec k.2 s }) ∧
    (∀ v e, d'.completed v e = (d.completed v e || ks.contains (v, e))) := by
  induction ks with
  | nil =>
    intro d
    refine ⟨⟨rfl, rfl, rfl, rfl, rfl⟩, fun k => ?_, fun s => ?_, fun v s => ?_, fun v e => ?_⟩ <;> simp
  | cons k ks ih =>
    intro d
    obtain ⟨⟨h1, h2, h3, h4, h5⟩, ha, hp, hs, hc⟩ := ih (d.completePair spec k.1 k.2)
    refine ⟨⟨h1, h2, h3, h4, h5⟩, fun k' => ?_, fun s => ?_, fun v s => ?_, fun v e => ?_⟩
    · rw [List.foldl_cons, ha]
      simp only [completePair, Table.get_update, Option.map_map]
      congr 1; funext a
      by_cases hk : k' = k
      · subst hk; simp
      · simp [hk]
    · rw [List.foldl_cons, hp]
      simp only [completePair, Table.get_update, Option.map_map]
      congr 1; funext r
      cases hk : r.proposerIndex == k.1 && inEpoch spec k.2 s <;>
        simp only [Function.comp_apply, hk, List.any_cons, Bool.false_eq_true, if_false, if_true, Bool.false_or,
          Bool.true_or, Bool.or_true]
    · rw [List.foldl_cons, hs]
      simp only [completePair, Table.get_update, Option.map_map]
      congr 1; funext r
      cases hk : v == k.1 && inEpoch spec k.2 s <;>
        simp only [Function.comp_apply, hk, List.any_cons, Bool.false_eq_true, if_false, if_true, Bool.false_or,
          Bool.true_or, Bool.or_true]
    · rw [List.foldl_cons, hc]
      have : (d.completePair spec k.1 k.2).completed v e = (d.completed v e || decide ((v, e) = k)) := by
        simp only [completed, completePair, Table.has, Table.get_insertNew]
        by_cases hk : (v, e) = k
        · subst hk; simp
        · simp [hk]
      rw [this]
      simp [Bool.or_assoc]

theorem mem_ready {v e : Nat} : (v, e) ∈ db.ready spec p ↔
    ∃ a, db.attestationDuties.get (v, e) = some a ∧ db.isReady spec p v e a = true := by
  unfold ready
  simp only [List.mem_map, Prod.exists]
  constructor
  · rintro ⟨v', e', a, h, hk⟩
    obtain ⟨rfl, rfl⟩ := Prod.mk.inj hk
    exact ⟨a, Table.mem_select.1 h⟩
  · rintro ⟨a, h⟩
    exact ⟨v, e, a, Table.mem_select.2 h, rfl⟩

/-- The pairs one promotion completes. -/
def readyPairs : List (Nat × Nat) := (db.promoteEvidence spec p).ready spec p

theorem promoteCollected_frame :
    (db.promoteCollected spec p).2.liveBlocks = db.liveBlocks ∧
    (db.promoteCollected spec p).2.liveCoverage = db.liveCoverage ∧
    (db.promoteCollected spec p).2.liveTrackingStart = db.liveTrackingStart ∧
    (db.promoteCollected spec p).2.liveJobs = db.liveJobs := by
  obtain ⟨⟨h1, h2, h3, _, h5⟩, _⟩ := completePairs_spec spec (db.readyPairs spec p) (db.promoteEvidence spec p)
  exact ⟨h1, h2, h3, h5⟩

theorem promoteCollected_att (k : Nat × Nat) :
    (db.promoteCollected spec p).2.attestationDuties.get k = (db.attestationDuties.get k).map fun a =>
      { db.promotedRow spec p k.1 k.2 a with
        finalized := (db.promotedRow spec p k.1 k.2 a).finalized || (db.readyPairs spec p).contains k } := by
  obtain ⟨_, ha, _⟩ := completePairs_spec spec (db.readyPairs spec p) (db.promoteEvidence spec p)
  have h := ha k
  rw [promoteEvidence_att, Option.map_map] at h
  exact h

theorem promoteCollected_proposals (s : Nat) :
    (db.promoteCollected spec p).2.blockProposals.get s = (db.blockProposals.get s).map fun d =>
      { db.promotedProposal spec p s d with
        finalized := (db.promotedProposal spec p s d).finalized ||
          (db.readyPairs spec p).any fun k => d.proposerIndex == k.1 && inEpoch spec k.2 s } := by
  obtain ⟨_, _, hp, _⟩ := completePairs_spec spec (db.readyPairs spec p) (db.promoteEvidence spec p)
  have h := hp s
  rw [promoteEvidence_proposals, Option.map_map] at h
  refine h.trans ?_
  congr 1; funext d
  simp only [Function.comp_apply, promotedProposal_proposer]

theorem promoteCollected_sync (v s : Nat) :
    (db.promoteCollected spec p).2.syncDuties.get (v, s) = (db.syncDuties.get (v, s)).map fun d =>
      { db.promotedSync spec p v s d with
        finalized := (db.promotedSync spec p v s d).finalized ||
          (db.readyPairs spec p).any fun k => v == k.1 && inEpoch spec k.2 s } := by
  obtain ⟨_, _, _, hs, _⟩ := completePairs_spec spec (db.readyPairs spec p) (db.promoteEvidence spec p)
  have h := hs v s
  rw [promoteEvidence_sync, Option.map_map] at h
  exact h

theorem promoteCollected_completed (v e : Nat) :
    (db.promoteCollected spec p).2.completed v e = (db.completed v e || (db.readyPairs spec p).contains (v, e)) := by
  obtain ⟨_, _, _, _, hc⟩ := completePairs_spec spec (db.readyPairs spec p) (db.promoteEvidence spec p)
  exact hc v e

/-- A pair is listed as incomplete when it is tracked since then, active and not complete. -/
theorem mem_incomplete {v e : Nat} : (v, e) ∈ db.incomplete p ↔
    ∃ started row, db.liveTrackingStart.get v = some started ∧ db.validators.get v = some row ∧
      v ∈ p.validators ∧ started ≤ e ∧ e ≤ p.completionTarget ∧ row.activeAt e = true ∧ db.completed v e = false := by
  unfold incomplete
  simp only [List.mem_flatMap, Prod.exists]
  constructor
  · rintro ⟨v', started, hmem, h⟩
    rw [Table.mem_rows] at hmem
    cases hv : db.validators.get v' with
    | none => simp [hv] at h
    | some row =>
      simp only [hv] at h
      split at h
      · rename_i hc
        simp only [List.mem_map, List.mem_filter, List.mem_range, Bool.and_eq_true, decide_eq_true_eq,
          Bool.not_eq_true', Prod.mk.injEq] at h
        obtain ⟨e', ⟨hle, ⟨hs, ha⟩, hn⟩, rfl, rfl⟩ := h
        exact ⟨started, row, hmem, hv, by simpa using hc, hs, by omega, ha, hn⟩
      · simp at h
  · rintro ⟨started, row, h1, h2, h3, h4, h5, h6, h7⟩
    refine ⟨v, started, Table.mem_rows.2 h1, ?_⟩
    simp only [h2, List.contains_iff_mem, h3, if_true, List.mem_map, List.mem_filter, List.mem_range,
      Bool.and_eq_true, decide_eq_true_eq, Bool.not_eq_true', Prod.mk.injEq]
    exact ⟨e, ⟨by omega, ⟨h4, h6⟩, h7⟩, by simp⟩

theorem promoteCollected_gaps (k : Nat × Nat) :
    (db.promoteCollected spec p).2.liveGaps.get k =
      if k ∈ ((db.promoteEvidence spec p).completeReady spec p).incomplete p then
        some "finalized live collection incomplete" else db.liveGaps.get k := by
  obtain ⟨⟨_, _, _, h4, _⟩, _⟩ := completePairs_spec spec (db.readyPairs spec p) (db.promoteEvidence spec p)
  have h : (db.promoteCollected spec p).2.liveGaps.get k =
      (((db.promoteEvidence spec p).completeReady spec p).liveGaps.putAll
        (((db.promoteEvidence spec p).completeReady spec p).incomplete p)
        "finalized live collection incomplete").get k := rfl
  rw [h, Table.get_putAll]
  have h4' : ((db.promoteEvidence spec p).completeReady spec p).liveGaps = db.liveGaps := h4
  rw [h4']
  by_cases hk : k ∈ ((db.promoteEvidence spec p).completeReady spec p).incomplete p <;> simp only [hk, if_true, if_false]

end Promotion

end Db

end BeaconIndexer
