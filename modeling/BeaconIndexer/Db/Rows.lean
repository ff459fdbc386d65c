/-
The life of a duty row: what one statement can do to the attestation row of a pair, and what no
statement takes back.
-/
import BeaconIndexer.Db.Run

namespace BeaconIndexer

open Relational

variable {spec : ChainSpec}

/-! ## What a statement can do to an attestation row -/

/-- The change of the row of a pair, from before to after the statement. -/
inductive DutyChange (spec : ChainSpec) (op : DbOp) (db : Db) (v e : Nat) : Option AttestationRow → Option AttestationRow → Prop
  | kept (row : Option AttestationRow) : DutyChange spec op db v e row row
  | inserted {w : AttestationWrite} (issued : op = .upsertAttestationDuty v e w) : DutyChange spec op db v e none (some w.toRow)
  | replaced {w : AttestationWrite} (old : AttestationRow) (issued : op = .upsertAttestationDuty v e w)
      (replaces : w.replaces (db.completed v e) old = true) : DutyChange spec op db v e (some old) (some (w.merge old))
  | repaired {d : InclusionDetails} (old : AttestationRow) (issued : op = .repairFinalizedInclusion v e d)
      (repairable : old.repairable (db.completed v e) d = true) : DutyChange spec op db v e (some old) (some (old.withDetails d))
  | rewarded {rewards : List RewardTuple} (old : AttestationRow) (r : RewardTuple)
      (issued : op = .updateAttestationRewardsBatch rewards) (provisional : old.finalized = false) :
      DutyChange spec op db v e (some old) (some (old.withRewards r.source r.target r.head r.inactivity))
  | marked {vs : List Nat} (old : AttestationRow) (issued : op = .markComplete vs e) (mem : v ∈ vs) :
      DutyChange spec op db v e (some old) (some { old with inclusionKnown := true })
  | promoted {p : Promotion} (old : AttestationRow) (issued : op = .promoteCollected p) :
      DutyChange spec op db v e (some old) (some { db.promotedRow spec p v e old with
        finalized := (db.promotedRow spec p v e old).finalized || (db.readyPairs spec p).contains (v, e) })
  | invalidated {slot : Nat} (old : AttestationRow) (issued : op = .invalidateFrom slot) (replayed : spec.slotToEpoch slot ≤ e)
      (provisional : old.finalized = false) : DutyChange spec op db v e (some old) none

section Change

variable {db : Db} {v e : Nat}

theorem dutyChange_upsert (v' e' : Nat) (w : AttestationWrite) : DutyChange spec (.upsertAttestationDuty v' e' w) db v e
    (db.attestationDuties.get (v, e)) ((db.upsertAttestationDuty v' e' w).attestationDuties.get (v, e)) := by
  rw [Db.upsertAttestationDuty_get]
  split
  · rename_i hk
    cases hk
    cases hold : db.attestationDuties.get (v, e) with
    | none => exact .inserted rfl
    | some old =>
      rw [Db.upsertedAttestation]
      split
      · rename_i hr
        exact .replaced old rfl hr
      · exact .kept _
  · exact .kept _

theorem dutyChange_repair (v' e' : Nat) (d : InclusionDetails) : DutyChange spec (.repairFinalizedInclusion v' e' d) db v e
    (db.attestationDuties.get (v, e)) ((db.repairFinalizedInclusion v' e' d).attestationDuties.get (v, e)) := by
  simp only [Db.repairFinalizedInclusion, Table.get_update]
  cases hold : db.attestationDuties.get (v, e) with
  | none => exact .kept _
  | some old =>
    rw [Option.map_some]
    split
    · rename_i hc
      simp only [Bool.and_eq_true, beq_iff_eq] at hc
      obtain ⟨hk, hr⟩ := hc
      cases hk
      exact .repaired old rfl hr
    · exact .kept _

theorem dutyChange_rewards (rewards : List RewardTuple) : DutyChange spec (.updateAttestationRewardsBatch rewards) db v e
    (db.attestationDuties.get (v, e)) ((db.updateAttestationRewardsBatch rewards).attestationDuties.get (v, e)) := by
  simp only [Db.updateAttestationRewardsBatch, Table.get_modify]
  cases hold : db.attestationDuties.get (v, e) with
  | none => exact .kept _
  | some old =>
    rw [Option.bind_some]
    split
    · split
      · exact .kept _
      · rename_i hf
        exact .rewarded old _ rfl (by simpa using hf)
    · exact .kept _

theorem dutyChange_markComplete (vs : List Nat) (epoch : Nat) : DutyChange spec (.markComplete vs epoch) db v e
    (db.attestationDuties.get (v, e)) ((db.markComplete vs epoch).attestationDuties.get (v, e)) := by
  rw [Db.markComplete_att]
  cases hold : db.attestationDuties.get (v, e) with
  | none => exact .kept _
  | some old =>
    rw [Option.map_some]
    split
    · rename_i hc
      simp only [Bool.and_eq_true, List.contains_iff_mem, beq_iff_eq] at hc
      obtain ⟨hv, rfl⟩ := hc
      exact .marked old rfl hv
    · exact .kept _

theorem dutyChange_promote (p : Promotion) : DutyChange spec (.promoteCollected p) db v e
    (db.attestationDuties.get (v, e)) ((db.promoteCollected spec p).2.attestationDuties.get (v, e)) := by
  rw [Db.promoteCollected_att]
  cases hold : db.attestationDuties.get (v, e) with
  | none => exact .kept _
  | some old => exact .promoted old rfl

theorem dutyChange_invalidate (slot : Nat) : DutyChange spec (.invalidateFrom slot) db v e
    (db.attestationDuties.get (v, e)) ((db.invalidateFrom spec slot).attestationDuties.get (v, e)) := by
  simp only [Db.invalidateFrom, Table.get_deleteWhere]
  cases hold : db.attestationDuties.get (v, e) with
  | none => exact .kept _
  | some old =>
    rw [Option.filter_some]
    split
    · exact .kept _
    · rename_i hp
      simp only [Bool.not_eq_true', Bool.not_eq_false, Bool.and_eq_true, decide_eq_true_eq] at hp
      exact .invalidated old rfl hp.1 hp.2

end Change

/-- Every statement changes an attestation row in one of these ways. -/
theorem dutyChange (now : Nat) (op : DbOp) (db : Db) (v e : Nat) : DutyChange spec op db v e
    (db.attestationDuties.get (v, e)) ((op.exec spec now db).attestationDuties.get (v, e)) := by
  by_cases hw : op.writesAttestations = true
  · cases op with
    | upsertAttestationDuty v' e' w => exact dutyChange_upsert v' e' w
    | repairFinalizedInclusion v' e' d => exact dutyChange_repair v' e' d
    | updateAttestationRewardsBatch rewards => exact dutyChange_rewards rewards
    | markComplete vs epoch => exact dutyChange_markComplete vs epoch
    | promoteCollected p => exact dutyChange_promote p
    | invalidateFrom slot => exact dutyChange_invalidate slot
    | _ => cases hw
  · rw [DbOp.exec_attestations (by simpa using hw)]
    exact .kept _

/-- A statement that is about a present row finds it in the table. -/
theorem dutyChange_of_some {now : Nat} {op : DbOp} {db : Db} {v e : Nat} {a : AttestationRow}
    (h : (op.exec spec now db).attestationDuties.get (v, e) = some a) :
    DutyChange spec op db v e (db.attestationDuties.get (v, e)) (some a) := h ▸ dutyChange now op db v e

/-! ## What a row says about an inclusion -/

/-- The same inclusion, with every vote flag that was set. -/
structure AttestationRow.SameVote (a b : AttestationRow) : Prop where
  included : b.included = a.included
  inclusionSlot : b.inclusionSlot = a.inclusionSlot
  source : ∀ x, a.sourceCorrect = some x → b.sourceCorrect = some x
  target : ∀ x, a.targetCorrect = some x → b.targetCorrect = some x
  head : ∀ x, a.headCorrect = some x → b.headCorrect = some x

theorem AttestationRow.SameVote.refl (a : AttestationRow) : a.SameVote a := ⟨rfl, rfl, fun _ h => h, fun _ h => h, fun _ h => h⟩

/-- Rewards only fill in the flags that are missing. -/
theorem AttestationRow.sameVote_withRewards (a : AttestationRow) (source target head inactivity : Option Int) :
    a.SameVote (a.withRewards source target head inactivity) := by
  have keep : ∀ {flag : Option Bool} {reward : Option Int} {x : Bool}, flag = some x →
      coalesce flag (ifPositive reward) = some x := by
    intro flag reward x h
    rw [h, coalesce_some_left]
  exact ⟨rfl, rfl, fun _ => keep, fun _ => keep, fun _ => keep⟩

/-- A write that replaces a row leaves its own inclusion. -/
theorem AttestationWrite.sameVote_merge (w : AttestationWrite) (old : AttestationRow) : w.toRow.SameVote (w.merge old) := by
  have keep : ∀ {flag : Option Bool} {old : Option Bool} {x : Bool}, flag = some x → coalesce flag old = some x := by
    intro flag old x h
    rw [h, coalesce_some_left]
  exact ⟨rfl, rfl, fun _ => keep, fun _ => keep, fun _ => keep⟩

theorem Db.sameVote_joinedRow (db : Db) (p : Promotion) (v e : Nat) (a : AttestationRow) :
    a.SameVote (db.joinedRow p v e a) := by
  unfold Db.joinedRow
  split
  · split
    · exact .refl a
    · exact a.sameVote_withRewards ..
  · exact .refl a

/-- Where the inclusion of a row comes from: the row before, a write or a repair. -/
theorem DutyChange.vote_cases {op : DbOp} {db : Db} {v e : Nat} {old : Option AttestationRow} {a : AttestationRow}
    (h : DutyChange spec op db v e old (some a)) :
    (∃ a₀, old = some a₀ ∧ a₀.SameVote a) ∨
    (∃ w, op = .upsertAttestationDuty v e w ∧ (∀ a₀, old = some a₀ → w.replaces (db.completed v e) a₀ = true) ∧
      w.toRow.SameVote a) ∨
    ∃ d a₀, op = .repairFinalizedInclusion v e d ∧ old = some a₀ ∧ a₀.repairable (db.completed v e) d = true ∧
      a = a₀.withDetails d := by
  cases h with
  | kept => exact .inl ⟨a, rfl, .refl a⟩
  | inserted issued =>
    refine .inr (.inl ⟨_, issued, fun a₀ h => ?_, .refl _⟩)
    cases h
  | replaced old issued hr =>
    refine .inr (.inl ⟨_, issued, fun a₀ h => ?_, AttestationWrite.sameVote_merge _ old⟩)
    cases h
    exact hr
  | repaired old issued hr => exact .inr (.inr ⟨_, old, issued, rfl, hr, rfl⟩)
  | rewarded old r => exact .inl ⟨old, rfl, old.sameVote_withRewards ..⟩
  | marked old => exact .inl ⟨old, rfl, rfl, rfl, fun _ h => h, fun _ h => h, fun _ h => h⟩
  | promoted old =>
    obtain ⟨h1, h2, h3, h4, h5⟩ := db.sameVote_joinedRow _ v e old
    exact .inl ⟨old, rfl, h1, h2, h3, h4, h5⟩

/-! ## What a statement can do to a proposal or a sync row -/

/-- A promotion finalizes the row of the slot: the slot is proven, or the pair it belongs to completes. -/
def Db.SlotPromoted (spec : ChainSpec) (db : Db) (p : Promotion) (owner s : Nat) (present : Bool) : Prop :=
  db.slotProven spec p owner s present = true ∨ ∃ e, (owner, e) ∈ db.readyPairs spec p ∧ inEpoch spec e s = true

/-- The flag a promotion leaves is the old one, or the slot was promoted. -/
theorem Db.slotPromoted_cases {db : Db} {p : Promotion} {owner s : Nat} {present : Bool} (old : Bool) :
    ((old || db.slotProven spec p owner s present) ||
      (db.readyPairs spec p).any fun k => owner == k.1 && inEpoch spec k.2 s) = old ∨
    db.SlotPromoted spec p owner s present := by
  cases old with
  | true => exact .inl rfl
  | false =>
    cases hproven : db.slotProven spec p owner s present with
    | true => exact .inr (.inl hproven)
    | false =>
      rw [Bool.false_or, Bool.false_or]
      cases hready : (db.readyPairs spec p).any fun k => owner == k.1 && inEpoch spec k.2 s with
      | false => exact .inl rfl
      | true =>
        obtain ⟨k, hk, hkey⟩ := List.any_eq_true.1 hready
        simp only [Bool.and_eq_true, beq_iff_eq] at hkey
        obtain ⟨rfl, hs⟩ := hkey
        exact .inr (.inr ⟨k.2, hk, hs⟩)

/-- Where the outcome of a proposal row comes from, and what makes it final. -/
theorem exec_proposal_cases {now : Nat} {op : DbOp} {db : Db} {s : Nat} {d : ProposalRow}
    (h : (op.exec spec now db).blockProposals.get s = some d) :
    (∃ d₀, db.blockProposals.get s = some d₀ ∧ d.proposerIndex = d₀.proposerIndex ∧ d.proposed = d₀.proposed ∧
      (d.finalized = d₀.finalized ∨ ∃ p, op = .promoteCollected p ∧ db.SlotPromoted spec p d₀.proposerIndex s d₀.proposed)) ∨
    ∃ w, op = .upsertBlockProposal s w ∧ d.proposerIndex = w.proposerIndex ∧ d.proposed = w.proposed ∧
      d.finalized = w.finalized := by
  by_cases hw : op.writesProposals = true
  · cases op with
    | upsertBlockProposal s' w =>
      replace h : (db.upsertBlockProposal spec s' w).blockProposals.get s = some d := h
      rw [Db.upsertBlockProposal_get] at h
      split at h
      · rename_i hs
        subst hs
        obtain rfl := Option.some.inj h
        cases hold : db.blockProposals.get s with
        | none => exact .inr ⟨w, rfl, rfl, rfl, rfl⟩
        | some old =>
          unfold Db.upsertedProposal
          dsimp only
          split
          · exact .inr ⟨w, rfl, rfl, rfl, rfl⟩
          · exact .inl ⟨old, rfl, rfl, rfl, .inl rfl⟩
      · exact .inl ⟨d, h, rfl, rfl, .inl rfl⟩
    | promoteCollected p =>
      replace h : (db.promoteCollected spec p).2.blockProposals.get s = some d := h
      rw [Db.promoteCollected_proposals] at h
      obtain ⟨d₀, hd₀, rfl⟩ := Option.map_eq_some_iff.1 h
      refine .inl ⟨d₀, hd₀, Db.promotedProposal_proposer spec db p s d₀, Db.promotedProposal_proposed spec db p s d₀, ?_⟩
      rcases Db.slotPromoted_cases d₀.finalized with hflag | hpromoted
      · exact .inl hflag
      · exact .inr ⟨p, rfl, hpromoted⟩
    | invalidateFrom r =>
      replace h : (db.blockProposals.deleteWhere _).get s = some d := h
      rw [Table.get_deleteWhere] at h
      exact .inl ⟨d, (Option.filter_eq_some_iff.1 h).1, rfl, rfl, .inl rfl⟩
    | _ => cases hw
  · rw [DbOp.exec_proposals (by simpa using hw)] at h
    exact .inl ⟨d, h, rfl, rfl, .inl rfl⟩

/-- Where the outcome of a sync row comes from, and what makes it final. -/
theorem exec_sync_cases {now : Nat} {op : DbOp} {db : Db} {v s : Nat} {d : SyncRow}
    (h : (op.exec spec now db).syncDuties.get (v, s) = some d) :
    (∃ d₀, db.syncDuties.get (v, s) = some d₀ ∧ d.participated = d₀.participated ∧ d.missedBlock = d₀.missedBlock ∧
      (d.finalized = d₀.finalized ∨ ∃ p, op = .promoteCollected p ∧ db.SlotPromoted spec p v s (!d₀.missedBlock))) ∨
    ∃ w, op = .upsertSyncDuty v s w ∧ d.participated = w.participated ∧ d.missedBlock = w.missedBlock ∧
      d.finalized = w.finalized := by
  by_cases hw : op.writesSync = true
  · cases op with
    | upsertSyncDuty v' s' w =>
      replace h : (db.upsertSyncDuty spec v' s' w).syncDuties.get (v, s) = some d := h
      rw [Db.upsertSyncDuty_get] at h
      split at h
      · rename_i hk
        cases hk
        obtain rfl := Option.some.inj h
        cases hold : db.syncDuties.get (v, s) with
        | none => exact .inr ⟨w, rfl, rfl, rfl, rfl⟩
        | some old =>
          unfold Db.upsertedSync
          dsimp only
          split
          · exact .inr ⟨w, rfl, rfl, rfl, rfl⟩
          · exact .inl ⟨old, rfl, rfl, rfl, .inl rfl⟩
      · exact .inl ⟨d, h, rfl, rfl, .inl rfl⟩
    | persistLiveSyncRewards s' rewards =>
      replace h : (db.syncDuties.modify _).get (v, s) = some d := h
      rw [Table.get_modify] at h
      obtain ⟨d₀, hd₀, hd⟩ := Option.bind_eq_some_iff.1 h
      refine .inl ⟨d₀, hd₀, ?_⟩
      obtain rfl := Option.some.inj hd
      -- only the reward changes
      split
      · split
        · exact ⟨rfl, rfl, .inl rfl⟩
        · exact ⟨rfl, rfl, .inl rfl⟩
      · exact ⟨rfl, rfl, .inl rfl⟩
    | promoteCollected p =>
      replace h : (db.promoteCollected spec p).2.syncDuties.get (v, s) = some d := h
      rw [Db.promoteCollected_sync] at h
      obtain ⟨d₀, hd₀, rfl⟩ := Option.map_eq_some_iff.1 h
      refine .inl ⟨d₀, hd₀, rfl, rfl, ?_⟩
      rcases Db.slotPromoted_cases d₀.finalized with hflag | hpromoted
      · exact .inl hflag
      · exact .inr ⟨p, rfl, hpromoted⟩
    | invalidateFrom r =>
      replace h : (db.syncDuties.deleteWhere _).get (v, s) = some d := h
      rw [Table.get_deleteWhere] at h
      exact .inl ⟨d, (Option.filter_eq_some_iff.1 h).1, rfl, rfl, .inl rfl⟩
    | _ => cases hw
  · rw [DbOp.exec_sync (by simpa using hw)] at h
    exact .inl ⟨d, h, rfl, rfl, .inl rfl⟩

/-! ## Coverage of a window -/

/-- The slots of the window that are covered for a validator. -/
def Db.coveredSlots (spec : ChainSpec) (db : Db) (v e : Nat) : List Nat :=
  (db.liveCoverage.select fun (v', s) _ => v' == v && decide (e * spec.slotsPerEpoch ≤ s)
    && decide (s < (e + 2) * spec.slotsPerEpoch)).map fun r => r.1.2

theorem Db.mem_coveredSlots {db : Db} {v e s : Nat} : s ∈ db.coveredSlots spec v e ↔
    db.covered v s = true ∧ e * spec.slotsPerEpoch ≤ s ∧ s < (e + 2) * spec.slotsPerEpoch := by
  unfold Db.coveredSlots
  simp only [List.mem_map, Prod.exists, Table.mem_select, Bool.and_eq_true, beq_iff_eq, decide_eq_true_eq]
  constructor
  · rintro ⟨v', s', _, ⟨hget, ⟨rfl, hlo⟩, hhi⟩, rfl⟩
    exact ⟨Table.has_iff.2 ⟨_, hget⟩, hlo, hhi⟩
  · rintro ⟨hcov, hlo, hhi⟩
    exact ⟨v, s, (), ⟨(db.covered_iff).1 hcov, ⟨rfl, hlo⟩, hhi⟩, rfl⟩

/-- One validator has at most one coverage row a slot. -/
theorem Db.nodup_coveredSlots (db : Db) (v e : Nat) : (db.coveredSlots spec v e).Nodup := by
  unfold Db.coveredSlots
  have hrows : ∀ q : Nat × Nat → Unit → Bool, (db.liveCoverage.select q).Nodup :=
    fun q => (List.Nodup.of_map _ db.liveCoverage.nodup).filter _
  refine (hrows _).map_on ?_
  rintro ⟨⟨v₁, s₁⟩, _⟩ h₁ ⟨⟨v₂, s₂⟩, _⟩ h₂ (rfl : s₁ = s₂)
  have hv₁ := (Table.mem_select.1 h₁).2
  have hv₂ := (Table.mem_select.1 h₂).2
  simp only [Bool.and_eq_true, beq_iff_eq] at hv₁ hv₂
  rw [hv₁.1.1, hv₂.1.1]

/-- The coverage rows of a window are as many as its slots exactly if every slot is covered. -/
theorem Db.fullyCovered_iff (db : Db) (v e : Nat) : db.fullyCovered spec v e = true ↔
    ∀ s, e * spec.slotsPerEpoch ≤ s → s < (e + 2) * spec.slotsPerEpoch → db.covered v s = true := by
  have hlen : db.fullyCovered spec v e = true ↔ (db.coveredSlots spec v e).length = 2 * spec.slotsPerEpoch := by
    unfold Db.fullyCovered Db.coveredSlots
    rw [beq_iff_eq, List.length_map]
  have hwindow : ∀ s, s ∈ List.range' (e * spec.slotsPerEpoch) (2 * spec.slotsPerEpoch) ↔
      e * spec.slotsPerEpoch ≤ s ∧ s < (e + 2) * spec.slotsPerEpoch := by
    intro s
    rw [List.mem_range'_1, add_mul]
  have hsub : db.coveredSlots spec v e ⊆ List.range' (e * spec.slotsPerEpoch) (2 * spec.slotsPerEpoch) := by
    intro s hs
    exact (hwindow s).2 (Db.mem_coveredSlots.1 hs).2
  have hsubperm := (@Db.nodup_coveredSlots spec db v e).subperm hsub
  rw [hlen]
  constructor
  · intro hfull s hlo hhi
    have hperm := hsubperm.perm_of_length_le (by rw [List.length_range', hfull])
    exact (Db.mem_coveredSlots.1 (hperm.mem_iff.2 ((hwindow s).2 ⟨hlo, hhi⟩))).1
  · intro hcov
    refine le_antisymm (hsubperm.length_le.trans_eq (List.length_range' ..)) ?_
    have hback : List.range' (e * spec.slotsPerEpoch) (2 * spec.slotsPerEpoch) ⊆ db.coveredSlots spec v e := by
      intro s hs
      obtain ⟨hlo, hhi⟩ := (hwindow s).1 hs
      exact Db.mem_coveredSlots.2 ⟨hcov s hlo hhi, hlo, hhi⟩
    have hle := ((List.nodup_range' 1 Nat.zero_lt_one).subperm hback).length_le
    rwa [List.length_range'] at hle

/-! ## Ready pairs -/

/-- A pair that a promotion completes has a row whose outcome the evidence statements know, a covered window and an
attestation reward job. -/
theorem Db.readyPairs_row {db : Db} {p : Promotion} {v e : Nat} (h : (v, e) ∈ db.readyPairs spec p) :
    ∃ a, db.attestationDuties.get (v, e) = some a ∧ (db.promotedRow spec p v e a).inclusionKnown = true ∧
      db.fullyCovered spec v e = true ∧ ∃ j row, db.liveJobs.get j = some row ∧ j.validator = v ∧ j.epoch = e ∧
        j.component = .attestationRewards := by
  obtain ⟨a', hget, hready⟩ := (Db.mem_ready spec _ p).1 h
  rw [Db.promoteEvidence_att] at hget
  obtain ⟨a, ha, rfl⟩ := Option.map_eq_some_iff.1 hget
  unfold Db.isReady at hready
  simp only [Bool.and_eq_true] at hready
  obtain ⟨⟨⟨⟨⟨⟨⟨⟨⟨⟨⟨-, hknown⟩, -⟩, -⟩, -⟩, -⟩, hcovered⟩, hjob⟩, -⟩, -⟩, -⟩, -⟩ := hready
  refine ⟨a, ha, hknown, hcovered, ?_⟩
  obtain ⟨j, row, hrow, hj⟩ := Table.any_iff.1 hjob
  simp only [Bool.and_eq_true, beq_iff_eq] at hj
  exact ⟨j, row, hrow, hj.1.1.1, hj.1.1.2, hj.1.2⟩

/-- Some job has staged the component of the slot on the confirmed branch. -/
def Db.StagedAt (db : Db) (p : Promotion) (s : Nat) (component : Component) : Prop :=
  ∃ j row root, db.liveJobs.get j = some row ∧ j.slot = some s ∧ j.component = component ∧ row.dependency = some root ∧
    root ∈ p.roots

theorem Db.StagedAt.of_slotJob {db : Db} {p : Promotion} {v s : Nat} {component : Component}
    (h : db.slotJobConfirmed p v s component = true) : db.StagedAt p s component := by
  obtain ⟨j, row, hrow, hj⟩ := Table.any_iff.1 h
  simp only [JobRow.confirmed, Bool.and_eq_true, beq_iff_eq, Option.any_eq_true, List.contains_iff_mem] at hj
  obtain ⟨⟨⟨-, hslot⟩, hcomponent⟩, -, root, hroot, hmem⟩ := hj
  exact ⟨j, row, root, hrow, hslot, hcomponent, hroot, hmem⟩

/-- Where the rows of a pair that a promotion completes show a block, the query found them ready. -/
theorem Db.readyPairs_ready {db : Db} {p : Promotion} {v e : Nat} (h : (v, e) ∈ db.readyPairs spec p) :
    (∀ s d, db.blockProposals.get s = some d → d.proposerIndex = v → inEpoch spec e s = true → d.proposed = true →
      (db.promoteEvidence spec p).proposalReady p v s (db.promotedProposal spec p s d) = true) ∧
    ∀ s d, db.syncDuties.get (v, s) = some d → inEpoch spec e s = true → d.missedBlock = false →
      (db.promoteEvidence spec p).syncReady p v s (db.promotedSync spec p v s d) = true := by
  obtain ⟨a, -, hready⟩ := (Db.mem_ready spec _ p).1 h
  unfold Db.isReady at hready
  simp only [Bool.and_eq_true, Bool.not_eq_true'] at hready
  obtain ⟨⟨⟨-, hproposals⟩, hsync⟩, -⟩ := hready
  refine ⟨fun s d hd hv hs hp => ?_, fun s d hd hs hm => ?_⟩
  · have hrow : (db.promoteEvidence spec p).blockProposals.get s = some (db.promotedProposal spec p s d) := by
      rw [Db.promoteEvidence_proposals, hd, Option.map_some]
    refine Bool.eq_true_of_not_eq_false fun hr => ?_
    -- the query finds no proposal of the pair that is not ready
    refine absurd (Table.any_iff.2 ⟨s, _, hrow, ?_⟩) (Bool.eq_false_iff.1 hproposals)
    simp [hv, hs, hp, hr]
  · have hrow : (db.promoteEvidence spec p).syncDuties.get (v, s) = some (db.promotedSync spec p v s d) := by
      rw [Db.promoteEvidence_sync, hd, Option.map_some]
    have hm' : (db.promotedSync spec p v s d).missedBlock = false := hm
    refine Bool.eq_true_of_not_eq_false fun hr => ?_
    refine absurd (Table.any_iff.2 ⟨(v, s), _, hrow, ?_⟩) (Bool.eq_false_iff.1 hsync)
    simp [hs, hm', hr]

/-- The slots of a pair that a promotion completes lie inside its floor and its target, and where the rows of the pair
show a block its rewards were staged. -/
theorem Db.readyPairs_slots {db : Db} {p : Promotion} {v e : Nat} (h : (v, e) ∈ db.readyPairs spec p) :
    e ≤ p.completionTarget ∧ p.floor ≤ e * spec.slotsPerEpoch ∧
    (∀ s d, db.blockProposals.get s = some d → d.proposerIndex = v → inEpoch spec e s = true → d.proposed = true →
      db.StagedAt p s .proposalRewards) ∧
    ∀ s d, db.syncDuties.get (v, s) = some d → inEpoch spec e s = true → d.missedBlock = false →
      db.StagedAt p s .syncRewards := by
  obtain ⟨hproposals, hsync⟩ := Db.readyPairs_ready h
  obtain ⟨a, -, hready⟩ := (Db.mem_ready spec _ p).1 h
  unfold Db.isReady at hready
  simp only [Bool.and_eq_true, decide_eq_true_eq] at hready
  obtain ⟨⟨⟨⟨⟨⟨⟨⟨⟨⟨⟨⟨⟨-, hle⟩, hfloor⟩, -⟩, -⟩, -⟩, -⟩, -⟩, -⟩, -⟩, -⟩, -⟩, -⟩, -⟩ := hready
  refine ⟨hle, hfloor, fun s d hd hv hs hp => ?_, fun s d hd hs hm => ?_⟩
  · have hr := hproposals s d hd hv hs hp
    unfold Db.proposalReady at hr
    exact .of_slotJob (Bool.and_eq_true_iff.1 hr).2
  · have hr := hsync s d hd hs hm
    unfold Db.syncReady at hr
    exact .of_slotJob (Bool.and_eq_true_iff.1 hr).2

end BeaconIndexer
