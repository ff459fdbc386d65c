/-
Which reward values reach the database unchanged: the columns of a proposal, in the archive scan and the
live worker, and the sync rewards of an epoch, in the arithmetic the code computes them with.
-/
import BeaconIndexer.Scanner.Native
import BeaconIndexer.Proofs.SyncRows

namespace BeaconIndexer

open Native Effects Relational

variable {checks : Bool}

/-- The operation stores this value or rejects its input as inconsistent. -/
def StoresOrRejects {α : Type} (exact : α) (outcome : Option (Except Error α)) : Prop :=
  outcome = some (.ok exact) ∨ ∃ m, outcome = some (.error (.inconsistentBeaconData m))

/-! ## Proposals -/

namespace BlockRewards

/-- The four values as integers. -/
def columns (r : BlockRewards) : RewardColumns :=
  ⟨r.total, r.attestations, r.syncAggregate, (r.proposerSlashings + r.attesterSlashings : Nat)⟩

/-- Every column fits a BIGINT. -/
def Fits (r : BlockRewards) : Prop :=
  r.total < 2 ^ 63 ∧ r.attestations < 2 ^ 63 ∧ r.syncAggregate < 2 ^ 63 ∧
    r.proposerSlashings + r.attesterSlashings < 2 ^ 63

end BlockRewards

theorem archiveProposalRewards_write (finalized : Bool) (proposer : Nat) (r : BlockRewards) :
    (archiveProposalRewards false r).map (·.write finalized proposer) = some (proposalWithRewards finalized proposer r) := by
  unfold archiveProposalRewards addU64 proposalWithRewards
  split
  · rename_i h
    rw [Nat.mod_eq_of_lt h]
    rfl
  · rfl

theorem persistLiveProposalRewards_eq (slot : Nat) (r : BlockRewards) :
    persistLiveProposalRewards slot r = (do
      let columns ← ofExcept (liveProposalRewards r)
      statement (.upsertBlockProposal slot (columns.write false r.proposerIndex))) := by
  unfold persistLiveProposalRewards liveProposalRewards
  by_cases hsum : 2 ^ 64 ≤ r.proposerSlashings + r.attesterSlashings
  · rw [if_pos hsum, if_pos hsum]
    rfl
  rw [if_neg hsum, if_neg hsum]
  cases signedReward r.total with
  | error e => rfl
  | ok total =>
    cases signedReward r.attestations with
    | error e => rfl
    | ok attestations =>
      cases signedReward r.syncAggregate with
      | error e => rfl
      | ok sync =>
        cases signedReward (r.proposerSlashings + r.attesterSlashings) with
        | error e => rfl
        | ok slash => rfl

/-- `as` keeps a value exactly if it fits, so the archive columns are exact exactly if all four are. -/
theorem archiveProposalRewards_exact_iff (r : BlockRewards) :
    archiveProposalRewards checks r = some r.columns ↔ r.Fits := by
  unfold archiveProposalRewards
  constructor
  · intro h
    cases hs : addU64 checks r.proposerSlashings r.attesterSlashings with
    | none => simp [hs] at h
    | some s =>
      simp only [hs, Option.bind_eq_bind, Option.bind_some, Option.pure_def, Option.some.injEq, BlockRewards.columns,
        RewardColumns.mk.injEq] at h
      obtain ⟨ht, ha, hsync, hslash⟩ := h
      have hsum : s < 2 ^ 63 ∧ s = r.proposerSlashings + r.attesterSlashings := by
        unfold addU64 at hs
        unfold asI64 at hslash
        split at hslash
        · exact ⟨‹_›, by omega⟩
        · split at hs
          · cases hs
            omega
          · cases checks with
            | true => simp at hs
            | false =>
              simp only [Bool.false_eq_true, if_false, Option.some.injEq] at hs
              omega
      exact ⟨asI64_exact_iff.1 ht, asI64_exact_iff.1 ha, asI64_exact_iff.1 hsync, hsum.2 ▸ hsum.1⟩
  · rintro ⟨ht, ha, hsync, hslash⟩
    have hadd : addU64 checks r.proposerSlashings r.attesterSlashings =
        some (r.proposerSlashings + r.attesterSlashings) := addU64_exact_iff.2 (by omega)
    simp [hadd, BlockRewards.columns, asI64_lt ht, asI64_lt ha, asI64_lt hsync, asI64_lt hslash]

/-- The live worker stores the four values or rejects the response. -/
theorem liveProposalRewards_storesOrRejects (r : BlockRewards) :
    StoresOrRejects r.columns (some (liveProposalRewards r)) := by
  unfold liveProposalRewards signedReward
  by_cases hsum : 2 ^ 64 ≤ r.proposerSlashings + r.attesterSlashings
  · exact .inr ⟨_, by rw [if_pos hsum]; rfl⟩
  rw [if_neg hsum]
  by_cases ht : r.total < 2 ^ 63
  · by_cases ha : r.attestations < 2 ^ 63
    · by_cases hsync : r.syncAggregate < 2 ^ 63
      · by_cases hslash : r.proposerSlashings + r.attesterSlashings < 2 ^ 63
        · exact .inl (by rw [if_pos ht, if_pos ha, if_pos hsync, if_pos hslash]; rfl)
        · exact .inr ⟨_, by rw [if_pos ht, if_pos ha, if_pos hsync, if_neg hslash]; rfl⟩
      · exact .inr ⟨_, by rw [if_pos ht, if_pos ha, if_neg hsync]; rfl⟩
    · exact .inr ⟨_, by rw [if_pos ht, if_neg ha]; rfl⟩
  · exact .inr ⟨_, by rw [if_neg ht]; rfl⟩

theorem liveProposalRewards_fits {r : BlockRewards} (h : r.Fits) : liveProposalRewards r = .ok r.columns := by
  obtain ⟨ht, ha, hsync, hslash⟩ := h
  unfold liveProposalRewards signedReward
  rw [if_neg (by omega), if_pos ht, if_pos ha, if_pos hsync, if_pos hslash]
  rfl

/-- The archive path has no rejection. -/
def archiveOutcome (checks : Bool) (r : BlockRewards) : Option (Except Error RewardColumns) :=
  (archiveProposalRewards checks r).map .ok

/-- Both paths store the four values or reject the response, and they do the same. -/
structure ProposalRewardsExact (checks : Bool) (r : BlockRewards) : Prop where
  archive : StoresOrRejects r.columns (archiveOutcome checks r)
  live : StoresOrRejects r.columns (some (liveProposalRewards r))
  agree : (∃ e e', archiveOutcome checks r = some (.error e) ∧ liveProposalRewards r = .error e') ∨
    ∃ c, archiveOutcome checks r = some (.ok c) ∧ liveProposalRewards r = .ok c

/-- The archive path rejects nothing, so it is exact only where every column fits. -/
theorem proposalRewardsExact_iff (r : BlockRewards) : ProposalRewardsExact checks r ↔ r.Fits := by
  constructor
  · intro h
    have hx := h.archive
    unfold archiveOutcome at hx
    cases ha : archiveProposalRewards checks r with
    | none => simp [ha, StoresOrRejects] at hx
    | some c =>
      obtain rfl : c = r.columns := by simpa [ha, StoresOrRejects] using hx
      exact (archiveProposalRewards_exact_iff r).1 ha
  · intro h
    have ha : archiveOutcome checks r = some (.ok r.columns) := by
      unfold archiveOutcome
      rw [(archiveProposalRewards_exact_iff r).2 h]
      rfl
    exact ⟨.inl ha, liveProposalRewards_storesOrRejects r, .inr ⟨_, ha, liveProposalRewards_fits h⟩⟩

/-! ## Outcomes and magnitudes in 64 bits -/

/-- Net positions stay within the number of positions counted, so no count overflows. -/
theorem foldlM_outcomes : ∀ (l : List (Nat × Bool)) (t : Table Nat (Bool × Int)),
    (∀ v, ((t.get v).getD (false, 0)).2.natAbs + l.length < 2 ^ 63) →
      l.foldlM (fun outcomes (x : Nat × Bool) => do
          let entry := (outcomes.get x.1).getD (false, 0)
          let netPositions ← addI64 checks entry.2 (if x.2 then 1 else -1)
          return outcomes.put x.1 (entry.1 || x.2, netPositions)) t =
        some (l.foldl (fun outcomes (x : Nat × Bool) =>
          let entry := (outcomes.get x.1).getD (false, 0)
          outcomes.put x.1 (entry.1 || x.2, entry.2 + if x.2 then 1 else -1)) t)
  | [], t, _ => rfl
  | (u, bit) :: l, t, h => by
    have hu := h u
    rw [List.length_cons] at hu
    have hadd : addI64 checks ((t.get u).getD (false, 0)).2 (if bit then 1 else -1) =
        some (((t.get u).getD (false, 0)).2 + if bit then 1 else -1) := by
      apply addI64_of_inI64
      unfold InI64
      split <;> omega
    rw [List.foldlM_cons, List.foldl_cons]
    simp only [hadd, Option.bind_eq_bind, Option.bind_some, Option.pure_def]
    apply foldlM_outcomes
    intro v
    have hv := h v
    rw [List.length_cons] at hv
    rw [Table.get_put]
    by_cases hvu : v = u
    · subst hvu
      rw [if_pos rfl, Option.getD_some]
      simp only
      split <;> omega
    · rw [if_neg hvu]
      omega

theorem syncOutcomesNative_eq {committee : List Nat} (h : committee.length < 2 ^ 63) (bits : List Bool) :
    syncOutcomesNative checks committee bits = some (syncOutcomes committee bits) := by
  apply foldlM_outcomes
  intro v
  rw [Table.get_empty, Option.getD_none, List.length_zip]
  simp only [Int.natAbs_zero]
  omega

/-- A quotient that does not fit: the division panics. -/
theorem perPositionRewardNative_min : perPositionRewardNative (-2 ^ 63) (-1) = none := by decide

/-- Elsewhere the native computation is the one on integers. -/
theorem perPositionRewardNative_eq {t n : Int} (ht : InI64 t) (h : ¬(t = -2 ^ 63 ∧ n = -1)) :
    perPositionRewardNative t n = some (perPositionReward t n) := by
  unfold perPositionRewardNative perPositionReward
  by_cases hn : n = 0
  · rw [if_pos hn, if_pos hn]
    rfl
  have hq : InI64 (t.tdiv n) := (tdiv_inI64_iff ht hn).2 h
  rw [if_neg hn, if_neg hn]
  simp only [remI64_eq_some hn hq, divI64_eq_some hn hq, Option.bind_eq_bind, Option.bind_some, Option.pure_def]
  by_cases hr : t.tmod n ≠ 0
  · rw [if_pos hr, if_pos (.inl hr)]
  · by_cases hneg : t.tdiv n < 0
    · rw [if_neg hr, if_pos hneg, if_pos (.inr hneg)]
    · rw [if_neg hr, if_neg hneg, if_neg (by tauto)]

/-- A total reveals the magnitude if it is a nonnegative multiple of the net positions, and is rejected
otherwise. -/
theorem perPositionReward_revealing {t n : Int} (hn : n ≠ 0) :
    perPositionReward t n = if n ∣ t ∧ 0 ≤ t / n then .ok (some (t / n)) else
      .error (.inconsistentBeaconData "sync reward disagrees with participation") := by
  unfold perPositionReward
  rw [if_neg hn]
  by_cases hd : n ∣ t
  · have hq : t.tdiv n = t / n := Int.tdiv_eq_ediv_of_dvd hd
    have hr : t.tmod n = 0 := Int.tmod_eq_zero_of_dvd hd
    rw [hq, hr]
    by_cases h0 : 0 ≤ t / n
    · rw [if_neg (by omega), if_pos ⟨hd, h0⟩]
    · rw [if_pos (by omega), if_neg fun h => h0 h.2]
  · have hr : t.tmod n ≠ 0 := fun h => hd (Int.dvd_of_tmod_eq_zero h)
    rw [if_pos (.inl hr), if_neg fun h => hd h.1]

theorem perPositionRewardNative_ne_none {t n : Int} (ht : InI64 t) (hn : n ≠ 0) :
    perPositionRewardNative t n ≠ some (.ok none) := by
  intro h
  by_cases hmin : t = -2 ^ 63 ∧ n = -1
  · rw [hmin.1, hmin.2, perPositionRewardNative_min] at h
    cases h
  · rw [perPositionRewardNative_eq ht hmin, perPositionReward_revealing hn] at h
    split at h <;> cases h

/-! ## The sync rewards of an epoch -/

/-- What an epoch scan computes the sync rewards from: the slots whose blocks have an aggregate, with bits for
the whole committee and rewards that fit an `i64`. -/
structure SyncInputs where
  relevant : List Nat
  committee : List Nat
  slots : List SyncSlot
  small : committee.length < 2 ^ 63
  seated : ∀ s ∈ slots, s.bits.length = committee.length
  wire : ∀ s ∈ slots, ∀ rs, s.rewards = some rs → ∀ r ∈ rs, InI64 r.reward

/-- The first total of a response whose validator has net positions, with these. -/
def revealedBy (committee : List Nat) (bits : List Bool) (rewards : List SyncCommitteeReward) : Option (Int × Int) :=
  rewards.findSome? fun r =>
    if netPositions committee bits r.validatorIndex = 0 then none
    else some (r.reward, netPositions committee bits r.validatorIndex)

/-- The total the magnitude of the epoch is computed from, with the net positions it is divided by. -/
def revealed (committee : List Nat) (slots : List SyncSlot) : Option (Int × Int) :=
  slots.findSome? fun s => revealedBy committee s.bits (s.rewards.getD [])

theorem netPositions_of_notMem {committee : List Nat} {bits : List Bool} {v : Nat} (h : v ∉ committee) :
    netPositions committee bits v = 0 := by
  have h0 : ∀ b, positionsWith committee bits b v = 0 := by
    intro b
    apply List.count_eq_zero.2
    exact fun hm => h (List.of_mem_zip hm).1
  simp [netPositions, h0]

theorem revealedBy_spec {committee : List Nat} {bits : List Bool} :
    ∀ {rewards : List SyncCommitteeReward} {t n : Int}, revealedBy committee bits rewards = some (t, n) →
      n ≠ 0 ∧ ∃ r ∈ rewards, t = r.reward
  | r :: rest, t, n, h => by
    unfold revealedBy at h
    rw [List.findSome?_cons] at h
    by_cases h0 : netPositions committee bits r.validatorIndex = 0
    · rw [if_pos h0] at h
      obtain ⟨hn, r', hr', ht⟩ := revealedBy_spec h
      exact ⟨hn, r', List.mem_cons_of_mem _ hr', ht⟩
    · rw [if_neg h0] at h
      cases h
      exact ⟨h0, r, List.mem_cons_self .., rfl⟩

/-- The result of a probe that divides the total it finds. -/
def probed : Option (Int × Int) → Option (Except Error (Option Int))
  | none => some (.ok none)
  | some (t, n) => perPositionRewardNative t n

theorem probeRewardsNative_eq {committee : List Nat} {bits : List Bool} (hb : bits.length = committee.length) :
    ∀ {rewards : List SyncCommitteeReward}, (∀ r ∈ rewards, InI64 r.reward) →
      probeRewardsNative (syncOutcomes committee bits) rewards = probed (revealedBy committee bits rewards)
  | [], _ => rfl
  | r :: rest, h => by
    have ih := probeRewardsNative_eq hb fun x hx => h x (List.mem_cons_of_mem _ hx)
    unfold probeRewardsNative revealedBy
    rw [syncOutcomes_get hb, List.findSome?_cons]
    by_cases hv : r.validatorIndex ∈ committee
    · rw [if_pos hv]
      simp only
      by_cases h0 : netPositions committee bits r.validatorIndex = 0
      · rw [if_pos h0, h0]
        exact ih
      · rw [if_neg h0]
        have hsome := perPositionRewardNative_ne_none (h r (List.mem_cons_self ..)) h0
        change _ = perPositionRewardNative r.reward (netPositions committee bits r.validatorIndex)
        split
        · exact absurd ‹_› hsome
        · rfl
    · rw [if_neg hv, if_pos (netPositions_of_notMem hv)]
      exact ih

theorem probeSyncRewardNative_eq {committee : List Nat} (hc : committee.length < 2 ^ 63) :
    ∀ {slots : List SyncSlot}, (∀ s ∈ slots, s.bits.length = committee.length) →
      (∀ s ∈ slots, ∀ rs, s.rewards = some rs → ∀ r ∈ rs, InI64 r.reward) →
      probeSyncRewardNative checks committee slots = probed (revealed committee slots)
  | [], _, _ => rfl
  | s :: rest, hs, hw => by
    have ih := probeSyncRewardNative_eq hc (fun x hx => hs x (List.mem_cons_of_mem _ hx))
      fun x hx => hw x (List.mem_cons_of_mem _ hx)
    unfold probeSyncRewardNative revealed
    rw [syncOutcomesNative_eq hc, List.findSome?_cons]
    simp only [Option.bind_eq_bind, Option.bind_some]
    cases hr : s.rewards with
    | none => exact ih
    | some rs =>
      simp only [Option.getD_some]
      have hwire := hw s (List.mem_cons_self ..) rs hr
      rw [probeRewardsNative_eq (hs s (List.mem_cons_self ..)) hwire]
      cases hf : revealedBy committee s.bits rs with
      | none => exact ih
      | some found =>
        obtain ⟨t, n⟩ := found
        obtain ⟨hn, r, hr', rfl⟩ := revealedBy_spec hf
        have hsome := perPositionRewardNative_ne_none (hwire r hr') hn
        simp only [probed]
        cases hp : perPositionRewardNative r.reward n with
        | none => rfl
        | some outcome =>
          rw [Option.bind_some]
          split
          · exact absurd hp hsome
          · rfl

/-- The rows of one slot: every relevant member of the committee, with these rewards. -/
def SlotRewards (relevant committee : List Nat) (reward : Nat → Option Int) (rows : List (Nat × Option Int)) : Prop :=
  ∀ v x, (v, x) ∈ rows ↔ v ∈ relevant ∧ v ∈ committee ∧ x = reward v

theorem slotRewardsNative_some {relevant committee : List Nat} {bits : List Bool} {magnitude : Option Int}
    (hc : committee.length < 2 ^ 63) :
    slotRewardsNative checks relevant committee magnitude bits =
      ((syncOutcomes committee bits).rows.filter fun r => relevant.contains r.1).mapM fun r =>
        match magnitude with
        | none => some (r.1, none)
        | some m => (mulI64 checks m r.2.2).map fun reward => (r.1, some reward) := by
  unfold slotRewardsNative
  rw [syncOutcomesNative_eq hc]
  cases magnitude with
  | none => rfl
  | some m =>
    simp only [Option.bind_eq_bind, Option.bind_some, Option.pure_def]
    congr 1
    funext r
    cases mulI64 checks m r.2.2 <;> rfl

theorem mem_outcomes {committee : List Nat} {bits : List Bool} (hb : bits.length = committee.length)
    (r : Nat × Bool × Int) : r ∈ (syncOutcomes committee bits).rows ↔
      r.1 ∈ committee ∧ r.2 = (participates committee bits r.1, netPositions committee bits r.1) := by
  obtain ⟨v, o⟩ := r
  rw [Table.mem_rows, syncOutcomes_get hb]
  split
  · rename_i hm
    simp [hm, eq_comm]
  · rename_i hm
    simp [hm]

/-- A slot stores its exact rewards exactly if the magnitude times each member's net positions fits. -/
theorem slotRewardsNative_exact_iff {relevant committee : List Nat} {bits : List Bool} {magnitude : Option Int}
    (hc : committee.length < 2 ^ 63) (hb : bits.length = committee.length) :
    (∃ rows, slotRewardsNative checks relevant committee magnitude bits = some rows ∧
      SlotRewards relevant committee (fun v => magnitude.map (· * netPositions committee bits v)) rows) ↔
    ∀ m, magnitude = some m → ∀ v ∈ relevant, v ∈ committee → InI64 (m * netPositions committee bits v) := by
  rw [slotRewardsNative_some hc]
  constructor
  · rintro ⟨rows, hrows, hexact⟩ m rfl v hv hvc
    have hmem : (v, participates committee bits v, netPositions committee bits v) ∈
        (syncOutcomes committee bits).rows.filter fun r => relevant.contains r.1 := by
      rw [List.mem_filter, mem_outcomes hb]
      exact ⟨⟨hvc, rfl⟩, by simpa using hv⟩
    have himage : Option.map (fun reward => (v, some reward)) (mulI64 checks m (netPositions committee bits v)) ∈
        rows.map some := by
      rw [← mapM_eq_some_iff.1 hrows]
      exact List.mem_map.2 ⟨_, hmem, rfl⟩
    obtain ⟨row, hrow, heq⟩ := List.mem_map.1 himage
    cases hmul : mulI64 checks m (netPositions committee bits v) with
    | none => simp [hmul] at heq
    | some x =>
      rw [hmul] at heq
      obtain rfl := Option.some.inj heq
      obtain rfl := Option.some.inj ((hexact v (some x)).1 hrow).2.2
      exact mulI64_exact_iff.1 hmul
  · intro hfits
    refine ⟨((syncOutcomes committee bits).rows.filter fun r => relevant.contains r.1).map fun r =>
      (r.1, magnitude.map (· * r.2.2)), mapM_eq_some_iff.2 ?_, ?_⟩
    · rw [List.map_map]
      apply List.map_congr_left
      intro r hr
      rw [List.mem_filter, mem_outcomes hb] at hr
      obtain ⟨⟨hrc, hr2⟩, hrel⟩ := hr
      cases magnitude with
      | none => rfl
      | some m =>
        have hnet : r.2.2 = netPositions committee bits r.1 := by rw [hr2]
        have hmul : mulI64 checks m r.2.2 = some (m * r.2.2) := by
          rw [hnet]
          exact mulI64_exact_iff.2 (hfits m rfl r.1 (by simpa using hrel) hrc)
        simp [hmul]
    · intro v x
      simp only [List.mem_map, List.mem_filter, mem_outcomes hb, Prod.mk.injEq, Prod.exists]
      constructor
      · rintro ⟨u, participated, net, ⟨⟨huc, -, rfl⟩, hrel⟩, rfl, rfl⟩
        exact ⟨by simpa using hrel, huc, rfl⟩
      · rintro ⟨hv, hvc, rfl⟩
        exact ⟨v, _, _, ⟨⟨hvc, rfl, rfl⟩, by simpa using hv⟩, rfl, rfl⟩

theorem mapM_forall₂_iff {α β : Type} {f : α → Option β} {R : α → β → Prop} : ∀ {l : List α},
    (∃ r, l.mapM f = some r ∧ List.Forall₂ R l r) ↔ ∀ x ∈ l, ∃ y, f x = some y ∧ R x y
  | [] => by simp
  | x :: l => by
    rw [List.forall_mem_cons, ← mapM_forall₂_iff]
    simp only [mapM_eq_some_iff]
    constructor
    · rintro ⟨r, hr, hR⟩
      cases hR with
      | cons hx hrest =>
        rw [List.map_cons, List.map_cons, List.cons.injEq] at hr
        exact ⟨⟨_, hr.1, hx⟩, _, hr.2, hrest⟩
    · rintro ⟨⟨y, hy, hx⟩, r, hr, hrest⟩
      exact ⟨y :: r, by rw [List.map_cons, List.map_cons, hy, hr], .cons hx hrest⟩

namespace SyncInputs

variable (E : SyncInputs)

/-- The reward of a member at a slot, unknown where no total reveals the magnitude. -/
def exactReward (bits : List Bool) (v : Nat) : Option Int :=
  (revealed E.committee E.slots).map fun found => found.1 / found.2 * netPositions E.committee bits v

/-- The scan rejects the epoch, or stores the exact reward of every relevant member at every slot. -/
def Exact (checks : Bool) : Prop :=
  (∃ m, epochRewardsNative checks E.relevant E.committee E.slots = some (.error (.inconsistentBeaconData m))) ∨
  (∀ t n, revealed E.committee E.slots = some (t, n) → n ∣ t) ∧
    ∃ stored, epochRewardsNative checks E.relevant E.committee E.slots = some (.ok stored) ∧
      List.Forall₂ (fun s => SlotRewards E.relevant E.committee (E.exactReward s.bits)) E.slots stored

/-- Where the revealing total is a nonnegative multiple of its net positions, its division does not overflow
and neither does its product with the net positions of a stored row. -/
def Fits : Prop :=
  ∀ t n, revealed E.committee E.slots = some (t, n) → n ∣ t → 0 ≤ t / n →
    ¬(t = -2 ^ 63 ∧ n = -1) ∧
      ∀ s ∈ E.slots, ∀ v ∈ E.relevant, v ∈ E.committee → InI64 (t / n * netPositions E.committee s.bits v)

theorem revealed_spec {t n : Int} (h : revealed E.committee E.slots = some (t, n)) : n ≠ 0 ∧ InI64 t := by
  obtain ⟨s, hs, hfound⟩ := List.exists_of_findSome?_eq_some h
  obtain ⟨hn, r, hr, rfl⟩ := revealedBy_spec hfound
  cases hrs : s.rewards with
  | none =>
    rw [hrs] at hr
    cases hr
  | some rs =>
    rw [hrs, Option.getD_some] at hr
    exact ⟨hn, E.wire s hs rs hrs r hr⟩

variable {E}

/-- With a magnitude, the rows are exact exactly if every product fits. -/
theorem stored_exact_iff {magnitude : Option Int} :
    (∃ stored, E.slots.mapM (fun s => slotRewardsNative checks E.relevant E.committee magnitude s.bits) = some stored ∧
      List.Forall₂ (fun s => SlotRewards E.relevant E.committee fun v =>
        magnitude.map (· * netPositions E.committee s.bits v)) E.slots stored) ↔
    ∀ s ∈ E.slots, ∀ m, magnitude = some m → ∀ v ∈ E.relevant, v ∈ E.committee →
      InI64 (m * netPositions E.committee s.bits v) := by
  rw [mapM_forall₂_iff]
  apply forall₂_congr
  intro s hs
  exact slotRewardsNative_exact_iff E.small (E.seated s hs)

theorem epochRewardsNative_ok {magnitude : Option Int}
    (h : probed (revealed E.committee E.slots) = some (.ok magnitude)) :
    epochRewardsNative checks E.relevant E.committee E.slots =
      (E.slots.mapM fun s => slotRewardsNative checks E.relevant E.committee magnitude s.bits).map .ok := by
  unfold epochRewardsNative
  rw [probeSyncRewardNative_eq E.small E.seated E.wire, h]
  simp only [Option.bind_eq_bind, Option.bind_some, Option.pure_def]
  cases E.slots.mapM fun s => slotRewardsNative checks E.relevant E.committee magnitude s.bits <;> rfl

theorem exact_of_magnitude {magnitude : Option Int}
    (h : probed (revealed E.committee E.slots) = some (.ok magnitude))
    (hm : magnitude = (revealed E.committee E.slots).map fun found => found.1 / found.2)
    (hd : ∀ t n, revealed E.committee E.slots = some (t, n) → n ∣ t) :
    E.Exact checks ↔ ∀ s ∈ E.slots, ∀ m, magnitude = some m → ∀ v ∈ E.relevant, v ∈ E.committee →
      InI64 (m * netPositions E.committee s.bits v) := by
  have hexact : ∀ bits, E.exactReward bits = fun v => magnitude.map (· * netPositions E.committee bits v) := by
    intro bits
    funext v
    rw [hm, Option.map_map]
    rfl
  rw [← @stored_exact_iff checks]
  unfold Exact
  simp only [epochRewardsNative_ok h, hexact]
  constructor
  · rintro (⟨m, herr⟩ | ⟨-, stored, hok, hrows⟩)
    · obtain ⟨stored, -, hbad⟩ := Option.map_eq_some_iff.1 herr
      cases hbad
    · obtain ⟨stored', hs, heq⟩ := Option.map_eq_some_iff.1 hok
      cases heq
      exact ⟨stored, hs, hrows⟩
  · rintro ⟨stored, hs, hrows⟩
    exact .inr ⟨hd, stored, by rw [hs]; rfl, hrows⟩

/-- The sync rewards of an epoch are exact or rejected exactly if no division or product overflows. -/
theorem exact_iff : E.Exact checks ↔ E.Fits := by
  cases hr : revealed E.committee E.slots with
  | none =>
    -- nothing reveals the magnitude, and nothing is computed with it
    have hp : probed (revealed E.committee E.slots) = some (.ok none) := by rw [hr]; rfl
    rw [exact_of_magnitude hp (by rw [hr]; rfl) fun t n h => by rw [hr] at h; cases h]
    constructor
    · intro _ t n h
      rw [hr] at h
      cases h
    · intro _ s _ m h
      cases h
  | some found =>
    obtain ⟨t, n⟩ := found
    obtain ⟨hn, ht⟩ := E.revealed_spec hr
    by_cases hmin : t = -2 ^ 63 ∧ n = -1
    · -- the quotient is 2^63: the division panics
      have hpanic : epochRewardsNative checks E.relevant E.committee E.slots = none := by
        unfold epochRewardsNative
        rw [probeSyncRewardNative_eq E.small E.seated E.wire, hr, hmin.1, hmin.2]
        change (perPositionRewardNative (-2 ^ 63) (-1)).bind _ = none
        rw [perPositionRewardNative_min]
        rfl
      constructor
      · rintro (⟨m, h⟩ | ⟨-, stored, h, -⟩)
        · rw [hpanic] at h
          cases h
        · rw [hpanic] at h
          cases h
      · intro h
        refine absurd hmin (h t n hr ?_ ?_).1
        · rw [hmin.2]
          exact ⟨-t, by omega⟩
        · rw [hmin.1, hmin.2]
          decide
    · have hp := perPositionRewardNative_eq ht hmin
      rw [perPositionReward_revealing hn] at hp
      by_cases hq : n ∣ t ∧ 0 ≤ t / n
      · rw [if_pos hq] at hp
        have hprobed : probed (revealed E.committee E.slots) = some (.ok (some (t / n))) := by rw [hr]; exact hp
        rw [exact_of_magnitude hprobed (by rw [hr]; rfl) fun t' n' h => by rw [hr] at h; cases h; exact hq.1]
        constructor
        · intro h t' n' h' _ _
          rw [hr] at h'
          cases h'
          exact ⟨hmin, fun s hs => h s hs _ rfl⟩
        · intro h s hs m hm
          cases hm
          exact (h t n hr hq.1 hq.2).2 s hs
      · -- the response is rejected before anything is stored
        rw [if_neg hq] at hp
        constructor
        · intro _ t' n' h' hd h0
          rw [hr] at h'
          cases h'
          exact absurd ⟨hd, h0⟩ hq
        · intro _
          refine .inl ⟨"sync reward disagrees with participation", ?_⟩
          unfold epochRewardsNative
          rw [probeSyncRewardNative_eq E.small E.seated E.wire, hr]
          simp [probed, hp]

end SyncInputs

/-- A joined row keeps its reward or has one of the response's totals. -/
theorem persistLiveSyncRewards_reward {db : Db} {slot : Nat} {rewards : List SyncCommitteeReward} {v s : Nat}
    {d : SyncRow} (h : (db.persistLiveSyncRewards slot rewards).syncDuties.get (v, s) = some d) :
    ∃ old, db.syncDuties.get (v, s) = some old ∧
      (d.reward = old.reward ∨ s = slot ∧ ∃ r ∈ rewards, r.validatorIndex = v ∧ d.reward = some r.reward) := by
  rw [Db.persistLiveSyncRewards, Table.get_modify] at h
  obtain ⟨old, hold, hd⟩ := Option.bind_eq_some_iff.1 h
  refine ⟨old, hold, ?_⟩
  simp only [Option.some.injEq] at hd
  split at hd
  · rename_i r hr
    split at hd
    · rename_i hslot
      subst hd
      simp only [Bool.and_eq_true, beq_iff_eq] at hslot
      have hv : r.validatorIndex = v := by simpa using List.find?_some hr
      exact .inr ⟨hslot.1, r, List.mem_of_find?_eq_some hr, hv, rfl⟩
    · exact .inl (by rw [hd])
  · exact .inl (by rw [hd])

/-! ## The reward values of both paths -/

/-- Every reward value is stored exactly or rejected, in the archive and the live path, whether the build checks
for overflow or not, exactly if every proposal column fits a BIGINT and no division or product of the sync
rewards overflows. The proposal columns are those the two programs write. -/
theorem rewards_exact_iff (checks : Bool) (r : BlockRewards) (E : SyncInputs) :
    ((ProposalRewardsExact checks r ∧ E.Exact checks ∧
      ∀ (db : Db) (slot : Nat) (rewards : List SyncCommitteeReward) (v s : Nat) (d : SyncRow),
        (db.persistLiveSyncRewards slot rewards).syncDuties.get (v, s) = some d →
          ∃ old, db.syncDuties.get (v, s) = some old ∧
            (d.reward = old.reward ∨ s = slot ∧ ∃ r ∈ rewards, r.validatorIndex = v ∧ d.reward = some r.reward)) ↔
    r.Fits ∧ E.Fits) ∧
    (∀ finalized proposer, (archiveProposalRewards false r).map (·.write finalized proposer) =
      some (proposalWithRewards finalized proposer r)) ∧
    ∀ slot, persistLiveProposalRewards slot r = (do
      let columns ← ofExcept (liveProposalRewards r)
      statement (.upsertBlockProposal slot (columns.write false r.proposerIndex))) := by
  refine ⟨⟨?_, ?_⟩, fun finalized proposer => archiveProposalRewards_write finalized proposer r,
    fun slot => persistLiveProposalRewards_eq slot r⟩
  · rintro ⟨hproposal, hsync, -⟩
    exact ⟨(proposalRewardsExact_iff r).1 hproposal, SyncInputs.exact_iff.1 hsync⟩
  · rintro ⟨hr, hE⟩
    refine ⟨(proposalRewardsExact_iff r).2 hr, SyncInputs.exact_iff.2 hE, ?_⟩
    intro db slot rewards v s d h
    exact persistLiveSyncRewards_reward h

/-- Of the committee of 7, 8 and 7, only the second position is unset: the total of validator 8 reveals the magnitude. -/
def threePositions : SyncInputs where
  relevant := [7]
  committee := [7, 8, 7]
  slots := [⟨[true, false, true], some [⟨8, -10⟩, ⟨7, 20⟩]⟩]
  small := by decide
  seated := by decide
  wire := by decide

theorem rewards_exact_iff_three : ProposalRewardsExact true ⟨7, 100, 60, 30, 4, 6⟩ ∧ threePositions.Exact true ∧
    epochRewardsNative true [7] [7, 8, 7] threePositions.slots = some (.ok [[(7, some 20)]]) := by
  have hrevealed : revealed threePositions.committee threePositions.slots = some (-10, -1) := by decide
  have hfits : threePositions.Fits := by
    intro t n h _ _
    rw [hrevealed] at h
    cases h
    exact ⟨by decide, by decide⟩
  have hcolumns : BlockRewards.Fits ⟨7, 100, 60, 30, 4, 6⟩ := ⟨by decide, by decide, by decide, by decide⟩
  obtain ⟨hproposal, hsync, -⟩ := (rewards_exact_iff true ⟨7, 100, 60, 30, 4, 6⟩ threePositions).1.2 ⟨hcolumns, hfits⟩
  exact ⟨hproposal, hsync, by decide⟩

/-- A total of 2^63: the archive scan of a build without overflow checks stores -2^63, the live worker rejects the
response. A sync total of -2^63 for one missed position panics in every build. -/
theorem wrapped_proposal_reward :
    let r : BlockRewards := ⟨0, 2 ^ 63, 0, 0, 0, 0⟩
    archiveProposalRewards false r = some ⟨-2 ^ 63, 0, 0, 0⟩ ∧
      liveProposalRewards r = .error (.inconsistentBeaconData "proposal reward exceeds database range") ∧
      ¬ProposalRewardsExact false r ∧
      epochRewardsNative false [7] [7] [⟨[false], some [⟨7, -2 ^ 63⟩]⟩] = none := by
  refine ⟨by decide, rfl, ?_, by decide⟩
  rw [proposalRewardsExact_iff]
  exact fun h => absurd h.1 (by decide)

end BeaconIndexer
