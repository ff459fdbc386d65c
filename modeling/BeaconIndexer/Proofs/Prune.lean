/-
Pruning and later finality: the walk over a pruned table collects the part of the confirmed chain that is
kept, and a promotion reads nothing else of the pruned rows for the epochs that are retained.
-/
import BeaconIndexer.Proofs.Ancestry
import BeaconIndexer.Proofs.Settle

namespace BeaconIndexer

open Relational

/-! ## The walk over the blocks from a slot on -/

/-- Where a suffix of the slots is kept, the loop collects the kept part of its list. -/
theorem ConfirmedLoop.restrict {byRoot byRoot' : Table Root (Nat × Root)} {keep : Nat → Bool}
    (hget : ∀ r, byRoot'.get r = (byRoot.get r).filter fun e => keep e.1)
    (hmono : ∀ s s', s ≤ s' → keep s = true → keep s' = true) {child : Option Nat} {cursor : Root} {l : List (Nat × Root)}
    (h : ConfirmedLoop byRoot child cursor l) :
    ConfirmedLoop byRoot' child cursor (l.filter fun x => keep x.1) := by
  induction h with
  | @missing child cursor h => exact .missing (by rw [hget, h]; rfl)
  | @notBelow child slot cursor parent h hle =>
    by_cases hk : keep slot = true
    · have hkept : byRoot'.get cursor = some (slot, parent) := by
        rw [hget, h, Option.filter_some, if_pos hk]
      exact .notBelow hkept hle
    · exact .missing (by rw [hget, h, Option.filter_some, if_neg hk])
  | @push child slot cursor parent rest h hlt next ih =>
    by_cases hk : keep slot = true
    · have hkept : byRoot'.get cursor = some (slot, parent) := by
        rw [hget, h, Option.filter_some, if_pos hk]
      rw [List.filter_cons, if_pos hk]
      exact .push hkept hlt ih
    · -- slots fall, so nothing behind a dropped block is kept
      have hnone : ((slot, cursor) :: rest).filter (fun x => keep x.1) = [] := by
        have hfall := (ConfirmedLoop.push h hlt next).slots_fall
        rw [List.filter_eq_nil_iff]
        intro x hx hkx
        obtain rfl | hx := List.mem_cons.1 hx
        · exact hk hkx
        · have hlow := List.rel_of_pairwise_cons hfall hx
          exact hk (hmono _ _ (Nat.le_of_lt hlow) hkx)
      rw [hnone]
      exact .missing (by rw [hget, h, Option.filter_some, if_neg hk])

namespace Db

variable (spec : ChainSpec) (R : Nat) (db : Db)

/-- A root is stored at one slot: the column is UNIQUE. -/
def RootsUnique : Prop := ∀ s s' r, db.storedRoot s = some r → db.storedRoot s' = some r → s = s'

/-- The last stored block before the retained epochs. -/
def anchor : Option Nat := ((db.liveBlocks.select fun s _ => decide (s < spec.epochStartSlot R)).map Prod.fst).max?

/-- Pruning keeps the blocks of this slot. -/
def keepsBlocksAt (s : Nat) : Bool := (db.anchor spec R).all (· ≤ s)

variable {spec R db}

theorem anchor_lt {a : Nat} (h : db.anchor spec R = some a) : a < spec.epochStartSlot R := by
  obtain ⟨⟨a', row⟩, hmem, rfl⟩ := List.mem_map.1 (List.max?_mem h)
  simpa using (Table.mem_select.1 hmem).2

theorem keepsBlocksAt_of_retained {s : Nat} (h : spec.epochStartSlot R ≤ s) : db.keepsBlocksAt spec R s = true := by
  unfold keepsBlocksAt
  cases ha : db.anchor spec R with
  | none => rfl
  | some a =>
    have := anchor_lt ha
    simp only [Option.all_some, decide_eq_true_eq]
    omega

theorem keepsBlocksAt_mono {s s' : Nat} (hle : s ≤ s') (h : db.keepsBlocksAt spec R s = true) :
    db.keepsBlocksAt spec R s' = true := by
  unfold keepsBlocksAt at h ⊢
  cases ha : db.anchor spec R with
  | none => rfl
  | some a =>
    rw [ha] at h
    simp only [Option.all_some, decide_eq_true_eq] at h ⊢
    omega

theorem prune_liveBlocks (s : Nat) : (db.pruneCompletedEvidence spec R).liveBlocks.get s =
    (db.liveBlocks.get s).filter fun _ => db.keepsBlocksAt spec R s := by
  unfold pruneCompletedEvidence
  dsimp only
  rw [Table.get_deleteWhere]
  congr 1
  funext _
  unfold keepsBlocksAt anchor
  cases ((db.liveBlocks.select fun s _ => decide (s < spec.epochStartSlot R)).map Prod.fst).max? with
  | none => rfl
  | some a =>
    simp only [Option.any_some, Option.all_some, ← decide_not]
    exact decide_eq_decide.2 Nat.not_lt

theorem prune_storedRoot (s : Nat) : (db.pruneCompletedEvidence spec R).storedRoot s =
    (db.storedRoot s).filter fun _ => db.keepsBlocksAt spec R s := by
  unfold storedRoot
  rw [prune_liveBlocks]
  cases db.liveBlocks.get s with
  | none => rfl
  | some b => cases db.keepsBlocksAt spec R s <;> rfl

theorem RootsUnique.of_nodup (h : (db.liveBlocks.rows.map fun x => x.2.root).Nodup) : db.RootsUnique := by
  intro s s' r hs hs'
  obtain ⟨b, hb, rfl⟩ := Option.map_eq_some_iff.1 hs
  obtain ⟨b', hb', hroot⟩ := Option.map_eq_some_iff.1 hs'
  have heq := List.inj_on_of_nodup_map h (Table.mem_rows.2 hb) (Table.mem_rows.2 hb') hroot.symm
  exact congrArg Prod.fst heq

theorem RootsUnique.prune (h : db.RootsUnique) : (db.pruneCompletedEvidence spec R).RootsUnique := by
  intro s s' r hs hs'
  rw [prune_storedRoot, Option.filter_eq_some_iff] at hs hs'
  exact h s s' r hs.1 hs'.1

theorem RootsUnique.recentBlocks (h : db.RootsUnique) : ((db.recentBlocks 0).map (·.2.1)).Nodup := by
  have hslots : ((db.recentBlocks 0).map Prod.fst).Nodup := by
    have hperm : (db.recentBlocks 0).Perm ((db.liveBlocks.select fun s _ => decide (0 ≤ s)).map fun x =>
        (x.1, x.2.root, x.2.parentRoot)) := List.perm_insertionSort _ _
    rw [(hperm.map Prod.fst).nodup_iff, List.map_map]
    exact (List.filter_sublist.map Prod.fst).nodup db.liveBlocks.nodup
  refine List.Nodup.map_on ?_ hslots.of_map
  rintro ⟨s, r, p⟩ hx ⟨s', r', p'⟩ hy heq
  obtain rfl : r = r' := heq
  rw [mem_recentBlocks] at hx hy
  obtain rfl : s = s' := h s s' r (by rw [storedRoot, hx.2]; rfl) (by rw [storedRoot, hy.2]; rfl)
  rw [hx.2] at hy
  cases hy.2
  rfl

theorem RootsUnique.blocksByRoot_get (h : db.RootsUnique) {r p : Root} {s : Nat} :
    (blocksByRoot (db.recentBlocks 0)).get r = some (s, p) ↔ db.liveBlocks.get s = some ⟨r, p⟩ := by
  rw [blocksByRoot_get_iff h.recentBlocks, mem_recentBlocks]
  simp

end Db

/-- The confirmed chain over a pruned table is the kept part of the chain. -/
theorem confirmedAncestry_prune {spec : ChainSpec} {R : Nat} {db : Db} (h : db.RootsUnique) (root : Root) :
    confirmedAncestry ((db.pruneCompletedEvidence spec R).recentBlocks 0) root =
      (confirmedAncestry (db.recentBlocks 0) root).filter fun x => db.keepsBlocksAt spec R x.1 := by
  have hget : ∀ r, (blocksByRoot ((db.pruneCompletedEvidence spec R).recentBlocks 0)).get r =
      ((blocksByRoot (db.recentBlocks 0)).get r).filter fun e => db.keepsBlocksAt spec R e.1 := by
    intro r
    apply Option.ext
    rintro ⟨s, p⟩
    rw [h.prune.blocksByRoot_get, Option.filter_eq_some_iff, h.blocksByRoot_get, Db.prune_liveBlocks,
      Option.filter_eq_some_iff]
  exact ((confirmedAncestry_loop (db.recentBlocks 0) root).restrict hget fun _ _ => Db.keepsBlocksAt_mono).unique
    (confirmedAncestry_loop _ _)

theorem confirmedAncestry_stored {db : Db} (h : db.RootsUnique) {root : Root} {x : Nat × Root}
    (hx : x ∈ confirmedAncestry (db.recentBlocks 0) root) : db.storedRoot x.1 = some x.2 := by
  obtain ⟨p, hp⟩ := (confirmedAncestry_loop (db.recentBlocks 0) root).stored x hx
  rw [h.blocksByRoot_get] at hp
  rw [Db.storedRoot, hp]
  rfl

/-! ## What a promotion reads of the retained epochs -/

/-- The same promotion on another part of the ancestry. -/
abbrev Promotion.over (p : Promotion) (floor : Nat) (roots : List Root) : Promotion :=
  { p with
    floor := floor
    roots := roots }

/-- The floor and the roots of a promotion may be replaced as far as the epochs from `R` on go: the floor separates the
same retained slots, and the same retained blocks and dependencies of retained jobs are confirmed. No job of an earlier
epoch is for a retained slot, and no retained duty was included before the boundary. -/
structure KeepsEvidence (spec : ChainSpec) (R : Nat) (db : Db) (p : Promotion) (floor : Nat) (roots : List Root) : Prop where
  floor : ∀ x, spec.epochStartSlot R ≤ x → (floor ≤ x ↔ p.floor ≤ x)
  confirmed : ∀ s r, spec.epochStartSlot R ≤ s → db.storedRoot s = some r → (r ∈ roots ↔ r ∈ p.roots)
  dependencies : ∀ j row d, db.liveJobs.get j = some row → R ≤ j.epoch → row.dependency = some d → (d ∈ roots ↔ d ∈ p.roots)
  jobs : ∀ j row s, db.liveJobs.get j = some row → j.slot = some s → spec.epochStartSlot R ≤ s → R ≤ j.epoch
  inclusions : ∀ v e a s, db.attestationDuties.get (v, e) = some a → R ≤ e → a.included = true →
    a.inclusionSlot = some s → spec.epochStartSlot R ≤ s

theorem contains_eq {α : Type} [BEq α] [LawfulBEq α] {l l' : List α} {x : α} (h : x ∈ l' ↔ x ∈ l) :
    l'.contains x = l.contains x := by
  rw [Bool.eq_iff_iff, List.contains_iff_mem, List.contains_iff_mem]
  exact h

/-- A search that finds nothing in what is dropped. -/
theorem findSome?_filter {α β : Type} {f f' : α → Option β} {keep : α → Bool} : ∀ {l : List α},
    (∀ x ∈ l, f' x = f x ∧ (keep x = false → f x = none)) → (l.filter keep).findSome? f' = l.findSome? f
  | [], _ => rfl
  | x :: l, h => by
    have ih := findSome?_filter fun y hy => h y (List.mem_cons_of_mem _ hy)
    obtain ⟨heq, hdrop⟩ := h x (List.mem_cons_self ..)
    rw [List.findSome?_cons]
    cases hk : keep x with
    | true => rw [List.filter_cons_of_pos hk, List.findSome?_cons, heq, ih]
    | false => rw [List.filter_cons_of_neg (by simp [hk]), hdrop hk, ih]

namespace KeepsEvidence

variable {spec : ChainSpec} {R : Nat} {db : Db} {p : Promotion} {floor : Nat} {roots : List Root}

theorem job_confirmed (h : KeepsEvidence spec R db p floor roots) {j : JobKey} {row : JobRow}
    (hj : db.liveJobs.get j = some row) (hR : R ≤ j.epoch) : row.confirmed roots = row.confirmed p.roots := by
  unfold JobRow.confirmed
  cases hd : row.dependency with
  | none => rfl
  | some d =>
    simp only [Option.any_some]
    rw [contains_eq (h.dependencies j row d hj hR hd)]

/-- A search of the jobs for the retained epochs finds the same job. -/
theorem jobs_findSome {β : Type} {f f' : JobKey × JobRow → Option β}
    (hf : ∀ j row, db.liveJobs.get j = some row → f' (j, row) = f (j, row) ∧ (j.epoch < R → f (j, row) = none)) :
    (db.pruneCompletedEvidence spec R).liveJobs.rows.findSome? f' = db.liveJobs.rows.findSome? f := by
  have hrows : (db.pruneCompletedEvidence spec R).liveJobs.rows = db.liveJobs.rows.filter fun x =>
      !(decide (x.1.epoch < R) && db.completed x.1.validator x.1.epoch) := Table.rows_deleteWhere _ _
  rw [hrows]
  apply findSome?_filter
  rintro ⟨j, row⟩ hx
  obtain ⟨heq, hdrop⟩ := hf j row (Table.mem_rows.1 hx)
  refine ⟨heq, fun hk => hdrop ?_⟩
  simp only [Bool.not_eq_false', Bool.and_eq_true, decide_eq_true_eq] at hk
  exact hk.1

theorem jobs_any {q q' : JobKey → JobRow → Bool}
    (hq : ∀ j row, db.liveJobs.get j = some row → q' j row = q j row ∧ (j.epoch < R → q j row = false)) :
    (db.pruneCompletedEvidence spec R).liveJobs.any q' = db.liveJobs.any q := by
  rw [Bool.eq_iff_iff, Table.any_iff, Table.any_iff]
  constructor
  · rintro ⟨j, row, hj, hqj⟩
    change (db.liveJobs.deleteWhere _).get j = some row at hj
    rw [Table.get_deleteWhere, Option.filter_eq_some_iff] at hj
    exact ⟨j, row, hj.1, (hq j row hj.1).1 ▸ hqj⟩
  · rintro ⟨j, row, hj, hqj⟩
    obtain ⟨heq, hdrop⟩ := hq j row hj
    refine ⟨j, row, ?_, heq ▸ hqj⟩
    change (db.liveJobs.deleteWhere _).get j = some row
    rw [Table.get_deleteWhere, hj, Option.filter_some, if_pos]
    by_cases hR : j.epoch < R
    · rw [hdrop hR] at hqj
      cases hqj
    · simp [hR]

theorem blockConfirmed_eq (h : KeepsEvidence spec R db p floor roots) {s : Nat} (hs : spec.epochStartSlot R ≤ s) :
    (db.pruneCompletedEvidence spec R).blockConfirmed (p.over floor roots) (some s) = db.blockConfirmed p (some s) := by
  simp only [Db.blockConfirmed, Option.any_some]
  rw [Db.prune_storedRoot]
  cases hr : db.storedRoot s with
  | none => rfl
  | some r =>
    rw [Option.filter_some, if_pos (Db.keepsBlocksAt_of_retained hs), Option.any_some, Option.any_some]
    exact contains_eq (h.confirmed s r hs hr)

theorem storedRoot_isNone {s : Nat} (hs : spec.epochStartSlot R ≤ s) :
    ((db.pruneCompletedEvidence spec R).storedRoot s).isNone = (db.storedRoot s).isNone := by
  rw [Db.prune_storedRoot]
  cases hr : db.storedRoot s with
  | none => rfl
  | some r => rw [Option.filter_some, if_pos (Db.keepsBlocksAt_of_retained hs)]

theorem covered_eq {v s : Nat} (hs : spec.epochStartSlot R ≤ s) :
    (db.pruneCompletedEvidence spec R).covered v s = db.covered v s := by
  unfold Db.covered Table.has
  change ((db.liveCoverage.deleteWhere _).get (v, s)).isSome = _
  rw [Table.get_deleteWhere]
  have hkeep : (!decide (s < spec.epochStartSlot R)) = true := by simpa using hs
  cases hc : db.liveCoverage.get (v, s) with
  | none => rfl
  | some u => simp only [Option.filter_some, if_pos hkeep]

theorem fullyCovered_eq {v e : Nat} (he : R ≤ e) :
    (db.pruneCompletedEvidence spec R).fullyCovered spec v e = db.fullyCovered spec v e := by
  unfold Db.fullyCovered Table.select
  have hrows : (db.pruneCompletedEvidence spec R).liveCoverage.rows = db.liveCoverage.rows.filter fun x =>
      !decide (x.1.2 < spec.epochStartSlot R) := Table.rows_deleteWhere _ _
  rw [hrows, List.filter_filter]
  congr 2
  apply List.filter_congr
  rintro ⟨⟨v', s⟩, u⟩ _
  by_cases hs : e * spec.slotsPerEpoch ≤ s
  · have hstart : spec.epochStartSlot R ≤ s := le_trans (spec.epochStartSlot_mono he) hs
    have hlt : ¬s < spec.epochStartSlot R := by omega
    simp [hlt]
  · simp [hs]

theorem floor_epoch (h : KeepsEvidence spec R db p floor roots) {e : Nat} (he : R ≤ e) :
    decide (floor ≤ e * spec.slotsPerEpoch) = decide (p.floor ≤ e * spec.slotsPerEpoch) :=
  decide_eq_decide.2 (h.floor _ (spec.epochStartSlot_mono he))

theorem included_confirmed (h : KeepsEvidence spec R db p floor roots) {v e : Nat} {a : AttestationRow} (he : R ≤ e)
    (ha : db.attestationDuties.get (v, e) = some a) (hi : a.included = true) :
    (db.pruneCompletedEvidence spec R).blockConfirmed (p.over floor roots) a.inclusionSlot =
      db.blockConfirmed p a.inclusionSlot := by
  cases hs : a.inclusionSlot with
  | none => rfl
  | some s => exact h.blockConfirmed_eq (h.inclusions v e a s ha he hi hs)

theorem inclusionProven_eq (h : KeepsEvidence spec R db p floor roots) {v e : Nat} {a : AttestationRow} (he : R ≤ e)
    (ha : db.attestationDuties.get (v, e) = some a) :
    (db.pruneCompletedEvidence spec R).inclusionProven (p.over floor roots) v a = db.inclusionProven p v a := by
  unfold Db.inclusionProven
  cases hi : a.included with
  | false => simp
  | true =>
    rw [h.included_confirmed he ha hi]
    cases hs : a.inclusionSlot with
    | none => rfl
    | some s =>
      have hfloor := h.floor s (h.inclusions v e a s ha he hi hs)
      simp only [Option.any_some, decide_eq_decide.2 hfloor]

theorem windowProven_eq (h : KeepsEvidence spec R db p floor roots) {v e : Nat} {a : AttestationRow} (he : R ≤ e)
    (ha : db.attestationDuties.get (v, e) = some a) :
    (db.pruneCompletedEvidence spec R).windowProven spec (p.over floor roots) v e a = db.windowProven spec p v e a := by
  unfold Db.windowProven
  rw [fullyCovered_eq he]
  simp only [h.floor_epoch he]
  cases hi : a.included with
  | false => simp
  | true => rw [h.included_confirmed he ha hi]

theorem slotProven_eq (h : KeepsEvidence spec R db p floor roots) {owner s : Nat} {present : Bool}
    (hs : spec.epochStartSlot R ≤ s) :
    (db.pruneCompletedEvidence spec R).slotProven spec (p.over floor roots) owner s present =
      db.slotProven spec p owner s present := by
  unfold Db.slotProven
  rw [covered_eq hs, storedRoot_isNone hs, h.blockConfirmed_eq hs]
  simp only [decide_eq_decide.2 (h.floor s hs)]

/-! ### Staged rewards -/

theorem stagedAttestationReward_eq (h : KeepsEvidence spec R db p floor roots) {v e : Nat} (he : R ≤ e) :
    (db.pruneCompletedEvidence spec R).stagedAttestationReward (p.over floor roots) v e =
      db.stagedAttestationReward p v e := by
  apply jobs_findSome
  intro j row hj
  by_cases hje : j.epoch = e
  · simp only [h.job_confirmed hj (hje ▸ he)]
    exact ⟨trivial, fun hlt => by omega⟩
  · simp [hje]

theorem stagedProposalReward_eq (h : KeepsEvidence spec R db p floor roots) {s proposer : Nat}
    (hs : spec.epochStartSlot R ≤ s) :
    (db.pruneCompletedEvidence spec R).stagedProposalReward (p.over floor roots) s proposer =
      db.stagedProposalReward p s proposer := by
  apply jobs_findSome
  intro j row hj
  by_cases hslot : j.slot = some s
  · have hR := h.jobs j row s hj hslot hs
    simp only [h.job_confirmed hj hR]
    exact ⟨rfl, fun hlt => by omega⟩
  · simp [hslot]

theorem stagedSyncReward_eq (h : KeepsEvidence spec R db p floor roots) {v s : Nat} (hs : spec.epochStartSlot R ≤ s) :
    (db.pruneCompletedEvidence spec R).stagedSyncReward (p.over floor roots) v s = db.stagedSyncReward p v s := by
  apply jobs_findSome
  intro j row hj
  by_cases hslot : j.slot = some s
  · have hR := h.jobs j row s hj hslot hs
    simp only [h.job_confirmed hj hR]
    exact ⟨rfl, fun hlt => by omega⟩
  · simp [hslot]

/-! ### The rows the evidence statements leave -/

theorem promotedRow_eq (h : KeepsEvidence spec R db p floor roots) {v e : Nat} {a : AttestationRow} (he : R ≤ e)
    (ha : db.attestationDuties.get (v, e) = some a) :
    (db.pruneCompletedEvidence spec R).promotedRow spec (p.over floor roots) v e a = db.promotedRow spec p v e a := by
  unfold Db.promotedRow Db.joinedRow
  rw [h.stagedAttestationReward_eq he, h.inclusionProven_eq he ha, h.windowProven_eq he ha]
  rfl

theorem promotedProposal_eq (h : KeepsEvidence spec R db p floor roots) {s : Nat} (d : ProposalRow)
    (hs : spec.epochStartSlot R ≤ s) :
    (db.pruneCompletedEvidence spec R).promotedProposal spec (p.over floor roots) s d = db.promotedProposal spec p s d := by
  unfold Db.promotedProposal
  rw [h.stagedProposalReward_eq hs, h.slotProven_eq hs]

theorem promotedSync_eq (h : KeepsEvidence spec R db p floor roots) {v s : Nat} (d : SyncRow)
    (hs : spec.epochStartSlot R ≤ s) :
    (db.pruneCompletedEvidence spec R).promotedSync spec (p.over floor roots) v s d = db.promotedSync spec p v s d := by
  unfold Db.promotedSync
  rw [h.stagedSyncReward_eq hs, h.slotProven_eq hs]

/-! ### Readiness -/

theorem inEpoch_start {e s : Nat} (h : Db.inEpoch spec e s = true) : spec.epochStartSlot e ≤ s ∧ spec.slotToEpoch s = e := by
  simp only [Db.inEpoch, Bool.and_eq_true, decide_eq_true_eq] at h
  exact ⟨h.1, Nat.le_antisymm (Nat.lt_succ_iff.1 (spec.slotToEpoch_lt_iff.2 h.2)) (spec.le_slotToEpoch_iff.2 h.1)⟩

theorem slotJobConfirmed_eq (h : KeepsEvidence spec R db p floor roots) {v s : Nat} {component : Component}
    (hs : spec.epochStartSlot R ≤ s) :
    (db.pruneCompletedEvidence spec R).slotJobConfirmed (p.over floor roots) v s component =
      db.slotJobConfirmed p v s component := by
  apply jobs_any
  intro j row hj
  by_cases hslot : j.slot = some s
  · have hR := h.jobs j row s hj hslot hs
    rw [h.job_confirmed hj hR]
    exact ⟨rfl, fun hlt => by omega⟩
  · have hother : (j.slot == some s) = false := by simpa using hslot
    simp [hother]

/-- Jobs asked for by their epoch. -/
theorem epochJobs_any (h : KeepsEvidence spec R db p floor roots) {e : Nat} (he : R ≤ e) (q : JobKey → Bool → Bool)
    (hq : ∀ j c, q j c = true → j.epoch = e) :
    ((db.pruneCompletedEvidence spec R).liveJobs.any fun j row => q j (row.confirmed roots)) =
      db.liveJobs.any fun j row => q j (row.confirmed p.roots) := by
  apply jobs_any
  intro j row hj
  by_cases hje : j.epoch = e
  · rw [h.job_confirmed hj (hje ▸ he)]
    exact ⟨rfl, fun hlt => by omega⟩
  · have hother : ∀ c, q j c = false := fun c => by
      cases hc : q j c with
      | false => rfl
      | true => exact absurd (hq j c hc) hje
    simp [hother]

theorem promotedProposals_get (h : KeepsEvidence spec R db p floor roots) {s : Nat} (hs : spec.epochStartSlot R ≤ s) :
    ((db.pruneCompletedEvidence spec R).promoteEvidence spec (p.over floor roots)).blockProposals.get s =
      (db.promoteEvidence spec p).blockProposals.get s := by
  rw [Db.promoteEvidence_proposals, Db.promoteEvidence_proposals]
  exact congrArg (fun f => (db.blockProposals.get s).map f) (funext fun d => h.promotedProposal_eq d hs)

theorem promotedSyncDuties_get (h : KeepsEvidence spec R db p floor roots) {k : Nat × Nat}
    (hs : spec.epochStartSlot R ≤ k.2) :
    ((db.pruneCompletedEvidence spec R).promoteEvidence spec (p.over floor roots)).syncDuties.get k =
      (db.promoteEvidence spec p).syncDuties.get k := by
  rw [Db.promoteEvidence_sync, Db.promoteEvidence_sync]
  exact congrArg (fun f => (db.syncDuties.get k).map f) (funext fun d => h.promotedSync_eq d hs)

theorem promotedAttestations_get (h : KeepsEvidence spec R db p floor roots) {v e : Nat} (he : R ≤ e) :
    ((db.pruneCompletedEvidence spec R).promoteEvidence spec (p.over floor roots)).attestationDuties.get (v, e) =
      (db.promoteEvidence spec p).attestationDuties.get (v, e) := by
  rw [Db.promoteEvidence_att, Db.promoteEvidence_att]
  change (db.attestationDuties.get (v, e)).map _ = _
  cases ha : db.attestationDuties.get (v, e) with
  | none => rfl
  | some a => exact congrArg some (h.promotedRow_eq he ha)

/-- The verdict over the duties of an epoch is the same where the tables agree on its slots. -/
theorem any_agree {κ ρ : Type} [DecidableEq κ] {t t' : Table κ ρ} {q q' : κ → ρ → Bool} (P : κ → Prop)
    (hget : ∀ k, P k → t'.get k = t.get k) (hq : ∀ k d, P k → q' k d = q k d)
    (hP : ∀ k d, q k d = true ∨ q' k d = true → P k) : t'.any q' = t.any q := by
  rw [Bool.eq_iff_iff, Table.any_iff, Table.any_iff]
  constructor
  · rintro ⟨k, d, hd, hqk⟩
    have hk := hP k d (Or.inr hqk)
    exact ⟨k, d, (hget k hk).symm.trans hd, (hq k d hk).symm.trans hqk⟩
  · rintro ⟨k, d, hd, hqk⟩
    have hk := hP k d (Or.inl hqk)
    exact ⟨k, d, (hget k hk).trans hd, (hq k d hk).trans hqk⟩

end KeepsEvidence

theorem Db.promoteEvidence_liveJobs {spec : ChainSpec} {db : Db} {p : Promotion} :
    (db.promoteEvidence spec p).liveJobs = db.liveJobs := rfl

theorem Db.promoteEvidence_covered {spec : ChainSpec} {db : Db} {p : Promotion} {v e : Nat} :
    (db.promoteEvidence spec p).fullyCovered spec v e = db.fullyCovered spec v e := rfl

theorem Db.promoteEvidence_completed {spec : ChainSpec} {db : Db} {p : Promotion} {v e : Nat} :
    (db.promoteEvidence spec p).completed v e = db.completed v e := rfl

theorem Db.promoteEvidence_jobs {spec : ChainSpec} {db : Db} {p q : Promotion} {v s : Nat} {component : Component} :
    (db.promoteEvidence spec p).slotJobConfirmed q v s component = db.slotJobConfirmed q v s component := rfl

namespace KeepsEvidence

variable {spec : ChainSpec} {R : Nat} {db : Db} {p : Promotion} {floor : Nat} {roots : List Root}

/-- What the `ready` query reads besides the row. -/
theorem isReady_congr {pruned full : Db} {p' : Promotion} {v e : Nat} {a : AttestationRow}
    (hvalidators : p'.validators = p.validators) (htarget : p'.completionTarget = p.completionTarget)
    (hfloor : decide (p'.floor ≤ e * spec.slotsPerEpoch) = decide (p.floor ≤ e * spec.slotsPerEpoch))
    (hcompleted : pruned.completed v e = full.completed v e)
    (hcovered : pruned.fullyCovered spec v e = full.fullyCovered spec v e)
    (hstaged : (pruned.liveJobs.any fun j row => j.validator == v && j.epoch == e &&
        j.component == .attestationRewards && row.confirmed p'.roots) =
      full.liveJobs.any fun j row => j.validator == v && j.epoch == e && j.component == .attestationRewards &&
        row.confirmed p.roots)
    (hopen : (pruned.liveJobs.any fun j row => j.validator == v && j.epoch == e && !row.confirmed p'.roots) =
      full.liveJobs.any fun j row => j.validator == v && j.epoch == e && !row.confirmed p.roots)
    (hproposals : (pruned.blockProposals.any fun s d => d.proposerIndex == v && Db.inEpoch spec e s && d.proposed &&
        !pruned.proposalReady p' v s d) =
      full.blockProposals.any fun s d => d.proposerIndex == v && Db.inEpoch spec e s && d.proposed &&
        !full.proposalReady p v s d)
    (hduties : (pruned.syncDuties.any fun (v', s) d => v' == v && Db.inEpoch spec e s && !d.missedBlock &&
        !pruned.syncReady p' v s d) =
      full.syncDuties.any fun (v', s) d => v' == v && Db.inEpoch spec e s && !d.missedBlock && !full.syncReady p v s d) :
    pruned.isReady spec p' v e a = full.isReady spec p v e a := by
  unfold Db.isReady
  rw [hvalidators, htarget, hfloor, hcompleted, hcovered, hstaged, hopen, hproposals, hduties]

theorem proposalReady_eq (h : KeepsEvidence spec R db p floor roots) {v s : Nat} (d : ProposalRow)
    (hs : spec.epochStartSlot R ≤ s) :
    ((db.pruneCompletedEvidence spec R).promoteEvidence spec (p.over floor roots)).proposalReady (p.over floor roots) v s d =
      (db.promoteEvidence spec p).proposalReady p v s d := by
  unfold Db.proposalReady
  rw [Db.promoteEvidence_jobs, Db.promoteEvidence_jobs, h.slotJobConfirmed_eq hs]

theorem syncReady_eq (h : KeepsEvidence spec R db p floor roots) {v s : Nat} (d : SyncRow)
    (hs : spec.epochStartSlot R ≤ s) :
    ((db.pruneCompletedEvidence spec R).promoteEvidence spec (p.over floor roots)).syncReady (p.over floor roots) v s d =
      (db.promoteEvidence spec p).syncReady p v s d := by
  unfold Db.syncReady
  rw [Db.promoteEvidence_jobs, Db.promoteEvidence_jobs, h.slotJobConfirmed_eq hs]

theorem isReady_eq (h : KeepsEvidence spec R db p floor roots) {v e : Nat} {a : AttestationRow} (he : R ≤ e) :
    ((db.pruneCompletedEvidence spec R).promoteEvidence spec (p.over floor roots)).isReady spec (p.over floor roots) v e a =
      (db.promoteEvidence spec p).isReady spec p v e a := by
  have hstart : ∀ {s}, Db.inEpoch spec e s = true → spec.epochStartSlot R ≤ s := fun hs =>
    le_trans (spec.epochStartSlot_mono he) (inEpoch_start hs).1
  apply isReady_congr
  case hvalidators => rfl
  case htarget => rfl
  case hfloor => exact h.floor_epoch he
  case hcompleted =>
    rw [Db.promoteEvidence_completed, Db.promoteEvidence_completed]
    rfl
  case hcovered => rw [Db.promoteEvidence_covered, Db.promoteEvidence_covered, fullyCovered_eq he]
  case hstaged =>
    rw [Db.promoteEvidence_liveJobs, Db.promoteEvidence_liveJobs]
    refine h.epochJobs_any he (fun j c => j.validator == v && j.epoch == e && j.component == .attestationRewards && c) ?_
    intro j c hq
    simp only [Bool.and_eq_true, beq_iff_eq] at hq
    exact hq.1.1.2
  case hopen =>
    rw [Db.promoteEvidence_liveJobs, Db.promoteEvidence_liveJobs]
    refine h.epochJobs_any he (fun j c => j.validator == v && j.epoch == e && !c) ?_
    intro j c hq
    simp only [Bool.and_eq_true, beq_iff_eq] at hq
    exact hq.1.2
  case hproposals =>
    apply any_agree fun s => Db.inEpoch spec e s = true
    · intro s hs
      exact h.promotedProposals_get (hstart hs)
    · intro s d hs
      rw [h.proposalReady_eq d (hstart hs)]
    · intro s d hq
      simp only [Bool.and_eq_true] at hq
      obtain hq | hq := hq
      · exact hq.1.1.2
      · exact hq.1.1.2
  case hduties =>
    apply any_agree fun k => Db.inEpoch spec e k.2 = true
    · intro k hs
      exact h.promotedSyncDuties_get (hstart hs)
    · rintro ⟨v', s⟩ d hs
      dsimp only
      rw [h.syncReady_eq d (hstart hs)]
    · rintro ⟨v', s⟩ d hq
      simp only [Bool.and_eq_true] at hq
      obtain hq | hq := hq
      · exact hq.1.1.2
      · exact hq.1.1.2

/-- The pairs of retained epochs that are ready are the same. -/
theorem readyPairs_iff (h : KeepsEvidence spec R db p floor roots) {k : Nat × Nat} (he : R ≤ k.2) :
    k ∈ (db.pruneCompletedEvidence spec R).readyPairs spec (p.over floor roots) ↔ k ∈ db.readyPairs spec p := by
  unfold Db.readyPairs
  rw [Db.mem_ready, Db.mem_ready, h.promotedAttestations_get he]
  simp only [h.isReady_eq he]

theorem readyPairs_contains (h : KeepsEvidence spec R db p floor roots) {k : Nat × Nat} (he : R ≤ k.2) :
    ((db.pruneCompletedEvidence spec R).readyPairs spec (p.over floor roots)).contains k =
      (db.readyPairs spec p).contains k := contains_eq (h.readyPairs_iff he)

/-- A slot of a retained epoch is frozen by the pairs of that epoch. -/
theorem readyPairs_any (h : KeepsEvidence spec R db p floor roots) (owner : Nat) {s : Nat}
    (hs : spec.epochStartSlot R ≤ s) :
    (((db.pruneCompletedEvidence spec R).readyPairs spec (p.over floor roots)).any fun k =>
        owner == k.1 && Db.inEpoch spec k.2 s) =
      (db.readyPairs spec p).any fun k => owner == k.1 && Db.inEpoch spec k.2 s := by
  have hretained : ∀ {e}, Db.inEpoch spec e s = true → R ≤ e := fun he => by
    rw [← (inEpoch_start he).2]
    exact spec.le_slotToEpoch_iff.2 hs
  rw [Bool.eq_iff_iff, List.any_eq_true, List.any_eq_true]
  constructor
  · rintro ⟨k, hk, hq⟩
    have he := hretained (Bool.and_eq_true_iff.1 hq).2
    exact ⟨k, (h.readyPairs_iff he).1 hk, hq⟩
  · rintro ⟨k, hk, hq⟩
    have he := hretained (Bool.and_eq_true_iff.1 hq).2
    exact ⟨k, (h.readyPairs_iff he).2 hk, hq⟩

end KeepsEvidence

/-- The rows of the epochs from `R` on and their completed pairs are the same. -/
structure SameFrom (spec : ChainSpec) (R : Nat) (db db' : Db) : Prop where
  attestations : ∀ v e, R ≤ e → db'.attestationDuties.get (v, e) = db.attestationDuties.get (v, e)
  proposals : ∀ s, spec.epochStartSlot R ≤ s → db'.blockProposals.get s = db.blockProposals.get s
  sync : ∀ v s, spec.epochStartSlot R ≤ s → db'.syncDuties.get (v, s) = db.syncDuties.get (v, s)
  completed : ∀ v e, R ≤ e → db'.completed v e = db.completed v e

theorem SameFrom.prune (spec : ChainSpec) (R : Nat) (db : Db) : SameFrom spec R db (db.pruneCompletedEvidence spec R) where
  attestations _ _ _ := rfl
  proposals _ _ := rfl
  sync _ _ _ := rfl
  completed _ _ _ := rfl

/-- A promotion that keeps the evidence of the retained epochs leaves the same rows of them. -/
theorem KeepsEvidence.sameFrom {spec : ChainSpec} {R : Nat} {db : Db} {p : Promotion} {floor : Nat} {roots : List Root}
    (h : KeepsEvidence spec R db p floor roots) :
    SameFrom spec R (db.promoteCollected spec p).2
      ((db.pruneCompletedEvidence spec R).promoteCollected spec (p.over floor roots)).2 where
  attestations v e he := by
    rw [Db.promoteCollected_att, Db.promoteCollected_att, h.readyPairs_contains he]
    change (db.attestationDuties.get (v, e)).map _ = _
    cases ha : db.attestationDuties.get (v, e) with
    | none => rfl
    | some a => simp only [Option.map_some, h.promotedRow_eq he ha]
  proposals s hs := by
    rw [Db.promoteCollected_proposals, Db.promoteCollected_proposals]
    change (db.blockProposals.get s).map _ = _
    cases hd : db.blockProposals.get s with
    | none => rfl
    | some d => simp only [Option.map_some, h.promotedProposal_eq d hs, h.readyPairs_any d.proposerIndex hs]
  sync v s hs := by
    rw [Db.promoteCollected_sync, Db.promoteCollected_sync]
    change (db.syncDuties.get (v, s)).map _ = _
    cases hd : db.syncDuties.get (v, s) with
    | none => rfl
    | some d => simp only [Option.map_some, h.promotedSync_eq d hs, h.readyPairs_any v hs]
  completed v e he := by
    rw [Db.promoteCollected_completed, Db.promoteCollected_completed, h.readyPairs_contains he]
    rfl

/-! ## Later finality over a pruned database -/

namespace Db

variable (spec : ChainSpec)

/-- The ancestry walk of `finalize_collected_evidence` over the stored blocks and the promotion on what it confirms. -/
def finalizeConfirmed (validators : List Nat) (target finalizedEpoch : Nat) (root : Root) (db : Db) : Db :=
  let confirmed := confirmedAncestry (db.recentBlocks 0) root
  match (confirmed.map Prod.fst).min? with
  | none => db
  | some floor => (db.promoteCollected spec ⟨validators, target, finalizedEpoch, floor, confirmed.map Prod.snd⟩).2

/-- What pruning relies on for the evidence of the epochs from `R` on, and the chain below `root`. -/
structure Prunable (R : Nat) (root : Root) (db : Db) : Prop where
  unique : db.RootsUnique
  jobs : ∀ j row s, db.liveJobs.get j = some row → j.slot = some s → spec.epochStartSlot R ≤ s → R ≤ j.epoch
  dependencies : ∀ j row d s, db.liveJobs.get j = some row → R ≤ j.epoch → row.dependency = some d →
    db.storedRoot s = some d → db.keepsBlocksAt spec R s = true
  inclusions : ∀ v e a s, db.attestationDuties.get (v, e) = some a → R ≤ e → a.included = true →
    a.inclusionSlot = some s → spec.epochStartSlot R ≤ s
  /-- the chain loses no block, or keeps one from which on every retained slot lies -/
  chain : (∀ x ∈ confirmedAncestry (db.recentBlocks 0) root, db.keepsBlocksAt spec R x.1 = true) ∨
    ∃ x ∈ confirmedAncestry (db.recentBlocks 0) root, db.keepsBlocksAt spec R x.1 = true ∧ x.1 ≤ spec.epochStartSlot R

end Db

/-- A list with an entry at or before `start` has its least entry there. -/
theorem min?_le_of_mem {l : List Nat} {m x : Nat} (hm : l.min? = some m) (hx : x ∈ l) : m ≤ x :=
  (List.min?_eq_some_iff.1 hm).2 x hx

theorem Db.Prunable.keepsEvidence {spec : ChainSpec} {R : Nat} {db : Db} {root : Root} (h : db.Prunable spec R root)
    {p : Promotion} {floor : Nat}
    (hp : ((confirmedAncestry (db.recentBlocks 0) root).map Prod.fst).min? = some p.floor)
    (hroots : p.roots = (confirmedAncestry (db.recentBlocks 0) root).map Prod.snd)
    (hfloor : (((confirmedAncestry (db.recentBlocks 0) root).filter fun x => db.keepsBlocksAt spec R x.1).map
      Prod.fst).min? = some floor) :
    KeepsEvidence spec R db p floor
      (((confirmedAncestry (db.recentBlocks 0) root).filter fun x => db.keepsBlocksAt spec R x.1).map Prod.snd) := by
  generalize hconf : confirmedAncestry (db.recentBlocks 0) root = conf at *
  have hstored : ∀ x ∈ conf, db.storedRoot x.1 = some x.2 := fun x hx =>
    confirmedAncestry_stored h.unique (hconf.symm ▸ hx)
  -- a confirmed root at a kept slot is confirmed by the shorter chain
  have hkept : ∀ {r}, (∀ s, db.storedRoot s = some r → db.keepsBlocksAt spec R s = true) →
      (r ∈ (conf.filter fun x => db.keepsBlocksAt spec R x.1).map Prod.snd ↔ r ∈ p.roots) := by
    intro r hr
    rw [hroots, List.mem_map, List.mem_map]
    constructor
    · rintro ⟨x, hx, rfl⟩
      exact ⟨x, (List.mem_filter.1 hx).1, rfl⟩
    · rintro ⟨x, hx, rfl⟩
      exact ⟨x, List.mem_filter.2 ⟨hx, hr x.1 (hstored x hx)⟩, rfl⟩
  constructor
  case floor =>
    intro y hy
    have hle : p.floor ≤ floor := by
      have hmem := List.min?_mem hfloor
      obtain ⟨x, hx, hxf⟩ := List.mem_map.1 hmem
      rw [← hxf]
      exact min?_le_of_mem hp (List.mem_map_of_mem (List.mem_filter.1 hx).1)
    obtain hall | ⟨x, hx, hxk, hxs⟩ := hconf ▸ h.chain
    · rw [List.filter_eq_self.2 hall, hp] at hfloor
      rw [Option.some.inj hfloor]
    · have hlow : floor ≤ x.1 := min?_le_of_mem hfloor (List.mem_map_of_mem (List.mem_filter.2 ⟨hx, hxk⟩))
      omega
  case confirmed =>
    intro s r hs hr
    apply hkept
    intro s' hs'
    rw [← h.unique s s' r hr hs']
    exact Db.keepsBlocksAt_of_retained hs
  case dependencies =>
    intro j row d hj hR hd
    exact hkept fun s hs => h.dependencies j row d s hj hR hd hs
  case jobs => exact h.jobs
  case inclusions => exact h.inclusions

theorem Db.Prunable.sameFrom {spec : ChainSpec} {R : Nat} {db : Db} {root : Root} (h : db.Prunable spec R root)
    (validators : List Nat) (target finalizedEpoch : Nat) :
    SameFrom spec R (db.finalizeConfirmed spec validators target finalizedEpoch root)
      ((db.pruneCompletedEvidence spec R).finalizeConfirmed spec validators target finalizedEpoch root) := by
  unfold Db.finalizeConfirmed
  rw [confirmedAncestry_prune h.unique]
  dsimp only
  cases hp : ((confirmedAncestry (db.recentBlocks 0) root).map Prod.fst).min? with
  | none =>
    -- the checkpoint is connected to nothing, before and after
    have hnil : confirmedAncestry (db.recentBlocks 0) root = [] := by simpa using hp
    rw [hnil]
    exact .prune spec R db
  | some full =>
    cases hfloor : (((confirmedAncestry (db.recentBlocks 0) root).filter fun x => db.keepsBlocksAt spec R x.1).map
        Prod.fst).min? with
    | none =>
      have hnone : ∀ x ∈ confirmedAncestry (db.recentBlocks 0) root, ¬db.keepsBlocksAt spec R x.1 = true := by
        simpa using hfloor
      obtain hall | ⟨x, hx, hxk, -⟩ := h.chain
      · have hmem := List.min?_mem hp
        obtain ⟨x, hx, -⟩ := List.mem_map.1 hmem
        exact absurd (hall x hx) (hnone x hx)
      · exact absurd hxk (hnone x hx)
    | some floor =>
      exact (h.keepsEvidence (p := ⟨validators, target, finalizedEpoch, full,
        (confirmedAncestry (db.recentBlocks 0) root).map Prod.snd⟩) hp rfl hfloor).sameFrom

/-! ## Block presence -/

namespace Db

variable {spec : ChainSpec} {R : Nat} {db : Db}

/-- A slot that keeps its coverage keeps its block. -/
theorem prune_covered {v s : Nat} (h : (db.pruneCompletedEvidence spec R).covered v s = true) :
    db.covered v s = true ∧ (db.pruneCompletedEvidence spec R).liveBlocks.get s = db.liveBlocks.get s := by
  obtain ⟨u, hu⟩ := Table.has_iff.1 h
  change (db.liveCoverage.deleteWhere _).get (v, s) = some u at hu
  rw [Table.get_deleteWhere, Option.filter_eq_some_iff] at hu
  obtain ⟨hu, hs⟩ := hu
  have hs : spec.epochStartSlot R ≤ s := by simpa using hs
  refine ⟨Table.has_iff.2 ⟨u, hu⟩, ?_⟩
  rw [prune_liveBlocks, keepsBlocksAt_of_retained hs]
  cases db.liveBlocks.get s <;> rfl

/-- What the endpoint shows for a slot. -/
theorem fetchBlockPresence_get (tracked : List Nat) (start stop : Nat) (db : Db) (s : Nat) :
    (db.fetchBlockPresence tracked start stop).get s =
      if start ≤ s ∧ s < stop then
        if db.liveBlocks.has s then some true else if tracked.any (db.covered · s) then some false else none
      else none := by
  have hmem : ∀ b, (s, b) ∈ (db.liveBlocks.select fun s _ => decide (start ≤ s) && decide (s < stop)).map
        (fun x => (x.1, true)) ++
      ((db.liveCoverage.select fun k _ => tracked.contains k.1 && decide (start ≤ k.2) && decide (k.2 < stop)
        && !db.liveBlocks.has k.2).map fun x => x.1.2).dedup.map (·, false) ↔
      (start ≤ s ∧ s < stop) ∧ (b = true ∧ db.liveBlocks.has s = true ∨
        b = false ∧ db.liveBlocks.has s = false ∧ tracked.any (db.covered · s) = true) := by
    intro b
    have hcovered : (∃ v, v ∈ tracked ∧ ∃ u, db.liveCoverage.get (v, s) = some u) ↔
        tracked.any (db.covered · s) = true := by
      simp only [List.any_eq_true, covered, Table.has_iff]
    rw [← hcovered, Table.has_iff]
    simp only [List.mem_append, List.mem_map, Prod.exists, Table.mem_select, List.mem_dedup, Bool.and_eq_true,
      decide_eq_true_eq, Prod.mk.injEq, List.contains_iff_mem, Bool.not_eq_true']
    constructor
    · rintro (⟨s', row, ⟨hget, hr⟩, rfl, rfl⟩ | ⟨s', ⟨v, s'', u, ⟨hget, ⟨⟨hv, h1⟩, h2⟩, hno⟩, rfl⟩, rfl, rfl⟩)
      · exact ⟨hr, .inl ⟨rfl, row, hget⟩⟩
      · exact ⟨⟨h1, h2⟩, .inr ⟨rfl, hno, v, hv, u, hget⟩⟩
    · rintro ⟨⟨h1, h2⟩, ⟨rfl, row, hget⟩ | ⟨rfl, hno, v, hv, u, hget⟩⟩
      · exact .inl ⟨s, row, ⟨hget, h1, h2⟩, rfl, rfl⟩
      · exact .inr ⟨s, ⟨v, s, u, ⟨hget, ⟨⟨hv, h1⟩, h2⟩, hno⟩, rfl⟩, rfl, rfl⟩
  have hshown : ∀ b, (db.fetchBlockPresence tracked start stop).get s = some b ↔
      (start ≤ s ∧ s < stop) ∧ (b = true ∧ db.liveBlocks.has s = true ∨
        b = false ∧ db.liveBlocks.has s = false ∧ tracked.any (db.covered · s) = true) := by
    intro b
    refine ⟨fun hb => (hmem b).1 (Table.mem_of_get_ofList hb), fun hb => ?_⟩
    apply Table.get_ofList_of_unique ((hmem b).2 hb)
    intro b' hb'
    have hb' := (hmem b').1 hb'
    grind
  cases hget : (db.fetchBlockPresence tracked start stop).get s with
  | some b =>
    have hb := (hshown b).1 hget
    grind
  | none =>
    have htrue := (hshown true).2.mt (by simp [hget])
    have hfalse := (hshown false).2.mt (by simp [hget])
    grind

end Db

/-- Pruning first changes no row and no completed pair of the retained epochs, and no covered slot loses its block: a
present block is never shown as a skipped slot. -/
theorem prune_keeps_finality (spec : ChainSpec) (R : Nat) (db : Db) :
    (∀ root, db.Prunable spec R root → ∀ validators target finalizedEpoch,
      SameFrom spec R (db.finalizeConfirmed spec validators target finalizedEpoch root)
        ((db.pruneCompletedEvidence spec R).finalizeConfirmed spec validators target finalizedEpoch root)) ∧
    (∀ v s, (db.pruneCompletedEvidence spec R).covered v s = true →
      db.covered v s = true ∧ (db.pruneCompletedEvidence spec R).liveBlocks.get s = db.liveBlocks.get s) ∧
    ∀ tracked start stop s, (db.fetchBlockPresence tracked start stop).get s = some true →
      ((db.pruneCompletedEvidence spec R).fetchBlockPresence tracked start stop).get s ≠ some false := by
  refine ⟨fun root h => h.sameFrom, fun v s => Db.prune_covered, fun tracked start stop s hpresent hskipped => ?_⟩
  rw [Db.fetchBlockPresence_get] at hpresent hskipped
  split at hpresent
  case isFalse => cases hpresent
  case isTrue hrange =>
    rw [if_pos hrange] at hskipped
    split at hskipped
    · cases hskipped
    · rename_i hgone
      split at hskipped
      · rename_i hcovered
        -- the slot is still covered, so its block is still there
        obtain ⟨v, -, hv⟩ := List.any_eq_true.1 hcovered
        rw [Table.has, (Db.prune_covered hv).2, ← Table.has] at hgone
        rw [if_neg hgone] at hpresent
        split at hpresent <;> cases hpresent
      · cases hskipped

def twoSlots : ChainSpec := ⟨2, 2, 8, 1000, Nat.zero_lt_two⟩

/-- Validator 7 proposes in slot 4, which has no block, and its vote of epoch 2 is included in slot 5. Slots 1, 3 and 5
are stored, where `parent` is the parent of the block of slot 5. -/
def boundaryDb (parent : Root) : Db :=
  { Db.empty with
    attestationDuties := .ofList [((7, 2), ⟨4, 0, 0, true, some 5, some 1, some 1, some true, some true, some true, none, none,
      none, none, false, false⟩)]
    blockProposals := .ofList [(4, ⟨7, false, none, none, none, none, false⟩)]
    liveBlocks := .ofList [(1, ⟨⟨11⟩, ⟨9⟩⟩), (3, ⟨⟨13⟩, ⟨11⟩⟩), (5, ⟨⟨15⟩, parent⟩)]
    liveCoverage := .ofList [((7, 4), ()), ((7, 5), ())]
    liveJobs := .ofList [(⟨7, 2, some 5, .syncRewards⟩, ⟨some ⟨15⟩, some ⟨15⟩, .complete, 0, 0, none, some (.sync [])⟩)] }

/-- Both outcomes of epoch 2 are final after the checkpoint of epoch 3. -/
def boundaryFinal (db : Db) : Bool :=
  (db.attestationDuties.get (7, 2)).any (·.finalized) && (db.blockProposals.get 4).any (·.finalized)

/-- The first slot of the retained epoch is skipped, and slot 3 is the anchor. -/
theorem prune_keeps_finality_skippedBoundary :
    ((boundaryDb ⟨13⟩).pruneCompletedEvidence twoSlots 2).storedRoot 1 = none ∧
    boundaryFinal ((boundaryDb ⟨13⟩).finalizeConfirmed twoSlots [7] 1 3 ⟨15⟩) = true ∧
    SameFrom twoSlots 2 ((boundaryDb ⟨13⟩).finalizeConfirmed twoSlots [7] 1 3 ⟨15⟩)
      (((boundaryDb ⟨13⟩).pruneCompletedEvidence twoSlots 2).finalizeConfirmed twoSlots [7] 1 3 ⟨15⟩) := by
  refine ⟨by decide, by decide, (prune_keeps_finality twoSlots 2 (boundaryDb ⟨13⟩)).1 ⟨15⟩ ?_ [7] 1 3⟩
  have hjob : ∀ {j row}, (boundaryDb ⟨13⟩).liveJobs.get j = some row → j = ⟨7, 2, some 5, .syncRewards⟩ ∧
      row.dependency = some ⟨15⟩ := by
    intro j row hj
    have hmem := List.mem_singleton.1 (Table.mem_of_get_ofList hj)
    obtain ⟨rfl, rfl⟩ := Prod.mk.inj hmem
    exact ⟨rfl, rfl⟩
  have hunique : (boundaryDb ⟨13⟩).RootsUnique := .of_nodup (by decide)
  constructor
  case unique => exact hunique
  case jobs =>
    intro j row s hj hs _
    rw [(hjob hj).1]
  case dependencies =>
    intro j row d s hj _ hd hs
    rw [(hjob hj).2] at hd
    rw [hunique s 5 d hs (hd ▸ rfl)]
    decide
  case inclusions =>
    intro v e a s ha _ _ hs
    have hmem := List.mem_singleton.1 (Table.mem_of_get_ofList ha)
    obtain ⟨-, rfl⟩ := Prod.mk.inj hmem
    cases hs
    decide
  case chain =>
    exact Or.inr ⟨(3, ⟨13⟩), by decide, by decide, by decide⟩

/-- A vote of epoch 2 that is ready for completion, with its inclusion slot, the dependency of its reward job and the
epoch of the job for slot 5. -/
def strayDb (inclusion : Nat) (dependency : Root) (epoch : Nat) : Db :=
  { Db.empty with
    attestationDuties := .ofList [((7, 2), ⟨4, 0, 0, true, some inclusion, some 1, some 1, some true, some true, some true,
      some 1, some 1, some 1, none, false, false⟩)]
    syncDuties := .ofList [((7, 5), ⟨true, some 1, false, false⟩)]
    completedScans := .ofList [((7, 1), ())]
    liveBlocks := .ofList [(1, ⟨⟨11⟩, ⟨9⟩⟩), (3, ⟨⟨13⟩, ⟨11⟩⟩), (5, ⟨⟨15⟩, ⟨13⟩⟩)]
    liveCoverage := .ofList [((7, 4), ()), ((7, 5), ()), ((7, 6), ()), ((7, 7), ())]
    liveJobs := .ofList [
      (⟨7, 2, none, .attestationRewards⟩, ⟨none, some dependency, .complete, 0, 0, none, some (.attestation [])⟩),
      (⟨7, epoch, some 5, .syncRewards⟩, ⟨some ⟨15⟩, some ⟨15⟩, .complete, 0, 0, none, some (.sync [])⟩)] }

/-- The pair (7, 2) is completed without pruning and stays open after it. -/
def losesPair (db : Db) : Bool :=
  (db.finalizeConfirmed twoSlots [7] 2 4 ⟨15⟩).completed 7 2 &&
    !((db.pruneCompletedEvidence twoSlots 2).finalizeConfirmed twoSlots [7] 2 4 ⟨15⟩).completed 7 2

/-- The last stored block before the boundary is off the chain of the checkpoint: it is kept as the anchor, the chain's
own block below it is deleted, and the skipped slot lies below what is left of the chain. A pair is lost where its vote
was included at a deleted block, its reward job depends on one, or the job of its slot belongs to a completed epoch. -/
theorem prune_orphaned_anchor :
    (boundaryDb ⟨11⟩).RootsUnique ∧
    ((boundaryDb ⟨11⟩).finalizeConfirmed twoSlots [7] 1 3 ⟨15⟩).blockProposals.get 4 =
      some ⟨7, false, none, none, none, none, true⟩ ∧
    (((boundaryDb ⟨11⟩).pruneCompletedEvidence twoSlots 2).finalizeConfirmed twoSlots [7] 1 3 ⟨15⟩).blockProposals.get 4 =
      some ⟨7, false, none, none, none, none, false⟩ ∧
    losesPair (strayDb 5 ⟨15⟩ 2) = false ∧ losesPair (strayDb 1 ⟨15⟩ 2) = true ∧ losesPair (strayDb 5 ⟨11⟩ 2) = true ∧
      losesPair (strayDb 5 ⟨15⟩ 1) = true :=
  ⟨.of_nodup (by decide), by decide, by decide, by decide, by decide, by decide, by decide⟩

end BeaconIndexer
