/-
The inclusion of a completed duty, on one chain: slots are collected in any order and an inclusion is
frozen as soon as its own block is final, so an earlier inclusion that is collected later is lost.
Where a promotion freezes an inclusion only after every earlier block with the vote was collected,
the row of each completed duty holds the first inclusion of the chain, which is the one an archive
scan of the epoch writes.
-/
import BeaconIndexer.Proofs.Canonical
import BeaconIndexer.Proofs.Evidence
import BeaconIndexer.Proofs.ArchiveRows

namespace BeaconIndexer

open Effects Ancestry Relational

variable {spec : ChainSpec}

/-! ## The first inclusion -/

namespace Ledger

variable (L : Ledger spec) (top : Root)

/-- The smallest slot of the chain whose block carries the vote. -/
def FirstVoteAt (e v s : Nat) : Prop := L.VotedAt top e v s ∧ ∀ s', L.VotedAt top e v s' → s ≤ s'

/-- An epoch of the chain, with the duties and the rewards of its validators. -/
def attested (e : Nat) (duty : Nat → AttesterDuty) (reward : Nat → ValidatorAttestationReward) (justified : Checkpoint) :
    AttestedEpoch where
  epoch := e
  block s := (L.rootAt top s).bind fun r => (L.block r).map (r, ·)
  committees := L.committeesOf top e
  duty := duty
  reward := reward
  justified := justified

variable {L top} {e v s : Nat} {duty : Nat → AttesterDuty} {reward : Nat → ValidatorAttestationReward}
  {justified : Checkpoint}

/-- What the scan of an epoch finds in a slot is the vote in the block of the chain. -/
theorem inclusionAt_eq (hs : spec.epochStartSlot e ≤ s) :
    (L.attested top e duty reward justified).inclusionAt spec v s = (L.rootAt top s).bind fun r =>
      (L.vote r e v).map ((L.attested top e duty reward justified).recorded spec s) := by
  have hblock : (L.attested top e duty reward justified).block s = (L.rootAt top s).bind fun r =>
      (L.block r).map (r, ·) := rfl
  unfold AttestedEpoch.inclusionAt SlotBlocks.blockAt vote
  rw [hblock]
  cases hr : L.rootAt top s with
  | none => rfl
  | some r =>
    obtain ⟨hanc, hslot⟩ := rootAt_iff.1 hr
    have hcmap : (L.attested top e duty reward justified).committeeMap = L.cmapOf r e := cmapOf_eq hanc (hslot ▸ hs)
    rw [hcmap, Option.bind_some, Option.bind_some]
    cases hb : L.block r with
    | none => rfl
    | some b => rfl

theorem inclusionAt_some {inc : AttestationInclusion} (hs : spec.epochStartSlot e ≤ s)
    (h : (L.attested top e duty reward justified).inclusionAt spec v s = some inc) :
    L.VotedAt top e v s ∧ inc.inclusionSlot = s := by
  rw [inclusionAt_eq hs] at h
  obtain ⟨r, hr, h⟩ := Option.bind_eq_some_iff.1 h
  obtain ⟨data, hv, rfl⟩ := Option.map_eq_some_iff.1 h
  exact ⟨⟨r, data, hr, hv⟩, rfl⟩

theorem VotedAt.inclusionAt (h : L.VotedAt top e v s) (duty : Nat → AttesterDuty)
    (reward : Nat → ValidatorAttestationReward) (justified : Checkpoint) :
    ((L.attested top e duty reward justified).inclusionAt spec v s).isSome = true := by
  rw [inclusionAt_eq (spec.le_slotToEpoch_iff.1 h.epoch_le)]
  obtain ⟨r, data, hr, hv⟩ := h
  rw [hr, Option.bind_some, hv]
  rfl

/-- The scan of an epoch records the first inclusion of its window. -/
theorem FirstVoteAt.inclusion (h : L.FirstVoteAt top e v s) (hw : s < spec.epochStartSlot (e + 2)) :
    ((L.attested top e duty reward justified).inclusion spec v).map (·.inclusionSlot) = some s := by
  obtain ⟨hvote, hfirst⟩ := h
  have hlow : spec.epochStartSlot e ≤ s := spec.le_slotToEpoch_iff.1 hvote.epoch_le
  have hmem : s ∈ List.range' (spec.epochStartSlot e) (spec.slotsPerEpoch * 2) := by
    rw [List.mem_range'_1]
    rw [spec.epochStartSlot_succ, spec.epochStartSlot_succ] at hw
    omega
  cases hinc : (L.attested top e duty reward justified).inclusion spec v with
  | none =>
    have hnone := List.findSome?_eq_none_iff.1 hinc s hmem
    have hsome := hvote.inclusionAt duty reward justified
    rw [hnone] at hsome
    cases hsome
  | some inc =>
    obtain ⟨before, s', after, hsplit, hat, hbefore⟩ := List.findSome?_eq_some_iff.1 hinc
    have hsorted : (before ++ s' :: after).Pairwise (· < ·) := hsplit ▸ List.pairwise_lt_range'
    have hlow' : spec.epochStartSlot e ≤ s' := by
      have : s' ∈ List.range' (spec.epochStartSlot e) (spec.slotsPerEpoch * 2) := by
        rw [show List.range' (spec.epochStartSlot e) (spec.slotsPerEpoch * 2) = _ from hsplit]
        exact List.mem_append_right _ (List.mem_cons_self ..)
      exact (List.mem_range'_1.1 this).1
    obtain ⟨hvote', hslot⟩ := inclusionAt_some hlow' hat
    have hle := hfirst s' hvote'
    rw [Option.map_some, hslot, Option.some.injEq]
    -- the slots before the one that was found have no vote, those after it are larger
    rw [show List.range' (spec.epochStartSlot e) (spec.slotsPerEpoch * 2) = _ from hsplit, List.mem_append,
      List.mem_cons] at hmem
    rcases hmem with hmem | rfl | hmem
    · have hsome := hvote.inclusionAt duty reward justified
      rw [hbefore s hmem] at hsome
      cases hsome
    · rfl
    · have hlt := (List.pairwise_cons.1 (List.pairwise_append.1 hsorted).2.1).1 s hmem
      omega

end Ledger

/-! ## Promotions that wait for earlier votes -/

section Chain

variable (L : Ledger spec) (top : Root) (cfg : LiveConfig spec) (reg : Nat → Nat → Prop)

/-- Views whose heads are blocks of the chain that ends in `top`. -/
abbrev OneChain (_ : Unit) (V : View L) (_ : Unit) : Prop := L.rootAt top (L.slotOf V.head) = some V.head

/-- A promotion freezes an inclusion only if every earlier block with the vote has been collected for the validator. -/
def Waits (op : DbOp) (db : Db) : Prop :=
  ∀ p, op = .promoteCollected p → ∀ v e a x, reg v e → db.attestationDuties.get (v, e) = some a → a.finalized = false →
    db.inclusionProven p v a = true → a.inclusionSlot = some x →
      ∀ s < x, L.VotedAt top e v s → db.covered v s = true

/-- Passes over one chain whose promotions wait. -/
abbrev waitingPasses : System indexer (Unit × Role) (View L) Memory (Db × Unit) :=
  passes (OneChain L top) cfg (fun _ _ _ => True) fun _ op s => Waits L top reg op s.1

/-- The inclusions of the rows are votes of the chain, a covered slot has no unseen vote, and a final row of a
registered duty holds its first vote. -/
structure Db.Earliest (db : Db) : Prop where
  collected : db.Collected reg
  registered : db.Registered reg
  votes : ∀ v e a x, db.attestationDuties.get (v, e) = some a → a.inclusionSlot = some x →
    L.VotedAt top e v x ∧ spec.slotToEpoch x ≤ e + 1
  covered : ∀ v s r, db.covered v s = true → L.rootAt top s = some r → db.VotesSeen L reg v r
  first : ∀ v e a x, reg v e → db.attestationDuties.get (v, e) = some a → a.finalized = true →
    a.inclusionSlot = some x → L.FirstVoteAt top e v x

end Chain

section Kept

variable {L : Ledger spec} {top : Root} {cfg : LiveConfig spec} {reg : Nat → Nat → Prop} {V : View L} {tracked : List Nat}
  {now : Nat} {op : DbOp} {db : Db}

/-- Inclusions of rows stay votes of the chain. -/
theorem exec_votedAt (hvotes : ∀ v e a x, db.attestationDuties.get (v, e) = some a → a.inclusionSlot = some x →
      L.VotedAt top e v x ∧ spec.slotToEpoch x ≤ e + 1) (htop : L.forest.Anc top V.head)
    (hp : LivePromise V cfg tracked reg op db) {v e x : Nat} {a : AttestationRow}
    (ha : (op.exec spec now db).attestationDuties.get (v, e) = some a) (hx : a.inclusionSlot = some x) :
    L.VotedAt top e v x ∧ spec.slotToEpoch x ≤ e + 1 := by
  rcases (dutyChange_of_some ha).vote_cases with ⟨a₀, ha₀, hs⟩ | ⟨w, rfl, -, hs⟩ | ⟨d, a₀, rfl, ha₀, hr, rfl⟩
  · exact hvotes v e a₀ x ha₀ (hs.inclusionSlot.symm.trans hx)
  · have hw : w.inclusionSlot = some x := hs.inclusionSlot.symm.trans hx
    obtain ⟨-, ⟨-, hnone, -⟩ | ⟨-, r, hanc, -, hwindow, hcols⟩⟩ := hp
    · rw [hnone] at hw
      cases hw
    · rw [hw] at hcols
      obtain ⟨hvote, rfl⟩ := hcols.votedAt (htop.trans hanc)
      exact ⟨hvote, hwindow⟩
  · obtain ⟨r, hanc, -, hcols⟩ := hp
    obtain rfl := Option.some.inj hx
    refine ⟨(hcols.votedAt ((htop.trans V.finalized_anc).trans hanc)).1, ?_⟩
    -- a repair only lowers the inclusion slot
    simp only [AttestationRow.repairable, Bool.and_eq_true, Option.any_eq_true, decide_eq_true_eq] at hr
    obtain ⟨⟨-, y, hy, hle⟩, -⟩ := hr
    exact (spec.slotToEpoch_mono hle).trans (hvotes v e a₀ y ha₀ hy).2

/-- The votes of covered blocks of the chain stay observed. -/
theorem exec_votesSeen (hcovered : ∀ v s r, db.covered v s = true → L.rootAt top s = some r → db.VotesSeen L reg v r)
    (htop : L.forest.Anc top V.head) (hp : LivePromise V cfg tracked reg op db) {v s : Nat} {r : Root}
    (hcov : (op.exec spec now db).covered v s = true) (hr : L.rootAt top s = some r) :
    (op.exec spec now db).VotesSeen L reg v r := by
  have hslot := (Ledger.rootAt_iff.1 hr).2
  rcases exec_coverage_sub hcov with hold | ⟨vs, rfl, hv⟩
  · exact (hcovered v s r hold hr).exec hp (hslot ▸ hcov)
  · -- the slot is not above the head, so the chain has the same block there
    obtain ⟨rfl, -, htarget, -, hseen⟩ := hp
    have hle : s ≤ L.slotOf V.head := htarget.trans (Nat.sub_le _ _)
    have hhead : L.rootAt V.head s = some r := (Forest.node_eq_of_anc htop hle).symm.trans hr
    intro e data hreg hvote hwindow
    rw [hslot] at hwindow ⊢
    exact hseen r hhead v hv e data hreg hvote hwindow

theorem Db.Earliest.exec_votes (hdb : db.Earliest L top reg) (htop : L.forest.Anc top V.head)
    (hp : LivePromise V cfg tracked reg op db) {v e x : Nat} {a : AttestationRow}
    (ha : (op.exec spec now db).attestationDuties.get (v, e) = some a) (hx : a.inclusionSlot = some x) :
    L.VotedAt top e v x ∧ spec.slotToEpoch x ≤ e + 1 := exec_votedAt hdb.votes htop hp ha hx

theorem Db.Earliest.exec_covered (hdb : db.Earliest L top reg) (htop : L.forest.Anc top V.head)
    (hp : LivePromise V cfg tracked reg op db) {v s : Nat} {r : Root}
    (hcov : (op.exec spec now db).covered v s = true) (hr : L.rootAt top s = some r) :
    (op.exec spec now db).VotesSeen L reg v r := exec_votesSeen hdb.covered htop hp hcov hr

/-- A provisional row below which every vote was collected holds the first one. -/
theorem Db.Earliest.first_of_covered (hdb : db.Earliest L top reg) {v e x : Nat} {a : AttestationRow} (hreg : reg v e)
    (ha : db.attestationDuties.get (v, e) = some a) (hf : a.finalized = false) (hx : a.inclusionSlot = some x)
    (hcov : ∀ s < x, L.VotedAt top e v s → db.covered v s = true) : L.FirstVoteAt top e v x := by
  obtain ⟨hvote, hwindow⟩ := hdb.votes v e a x ha hx
  refine ⟨hvote, fun s hs => ?_⟩
  by_contra hlt
  have hlt : s < x := not_le.1 hlt
  obtain ⟨r, data, hr, hv⟩ := hs
  have hslot := (Ledger.rootAt_iff.1 hr).2
  have hseen := hdb.covered v s r (hcov s hlt ⟨r, data, hr, hv⟩) hr e data hreg hv
    (hslot ▸ (spec.slotToEpoch_mono hlt.le).trans hwindow)
  obtain ⟨a', ha', ⟨y, hy, hslot'⟩ | hfinal⟩ := hseen
  · rw [ha] at ha'
    obtain rfl := Option.some.inj ha'
    rw [hx] at hslot'
    obtain rfl := Option.some.inj hslot'
    omega
  · rw [ha] at ha'
    obtain rfl := Option.some.inj ha'
    rw [hf] at hfinal
    cases hfinal

theorem Db.Earliest.exec_first (hdb : db.Earliest L top reg) (htop : L.forest.Anc top V.head)
    (hp : LivePromise V cfg tracked reg op db) (hwait : Waits L top reg op db) {v e x : Nat} {a : AttestationRow}
    (hreg : reg v e) (ha : (op.exec spec now db).attestationDuties.get (v, e) = some a) (hf : a.finalized = true)
    (hx : a.inclusionSlot = some x) : L.FirstVoteAt top e v x := by
  obtain ⟨hvote, -⟩ := hdb.exec_votes htop hp ha hx
  have hcases := (dutyChange_of_some ha).vote_cases
  rcases hdb.collected.final_cases hp ha hf with ⟨a₀, ha₀, hf₀⟩ | ⟨p, a₀, rfl, ha₀, hf₀, hproven⟩
  · rcases hcases with ⟨a₁, ha₁, hs⟩ | ⟨w, rfl, hr, -⟩ | ⟨d, a₁, rfl, ha₁, hr, rfl⟩
    · rw [ha₀] at ha₁
      obtain rfl := Option.some.inj ha₁
      exact hdb.first v e a₀ x hreg ha₀ hf₀ (hs.inclusionSlot.symm.trans hx)
    · -- a live write never replaces a final row
      rw [AttestationWrite.replaces_provisional hp.1 (hr a₀ ha₀)] at hf₀
      cases hf₀
    · rw [ha₀] at ha₁
      obtain rfl := Option.some.inj ha₁
      obtain rfl := Option.some.inj hx
      simp only [AttestationRow.repairable, Bool.and_eq_true, Option.any_eq_true, decide_eq_true_eq] at hr
      obtain ⟨⟨-, y, hy, hle⟩, -⟩ := hr
      have hfirst := hdb.first v e a₀ y hreg ha₀ hf₀ hy
      exact ⟨hvote, fun s hs => hle.trans (hfirst.2 s hs)⟩
  · rcases hcases with ⟨a₁, ha₁, hs⟩ | ⟨w, hop, -⟩ | ⟨d, a₁, hop, -⟩
    · rw [ha₀] at ha₁
      obtain rfl := Option.some.inj ha₁
      have hx₀ : a₀.inclusionSlot = some x := hs.inclusionSlot.symm.trans hx
      refine hdb.first_of_covered hreg ha₀ hf₀ hx₀ fun s hlt hs => ?_
      rcases hproven with hproven | hproven
      · exact hwait p rfl v e a₀ x hreg ha₀ hf₀ hproven hx₀ s hlt hs
      · -- the whole window is covered
        simp only [Db.windowProven, Bool.and_eq_true] at hproven
        have hfull := (Db.fullyCovered_iff db v e).1 hproven.1.2
        have hlow : spec.epochStartSlot e ≤ s := spec.le_slotToEpoch_iff.1 hs.epoch_le
        have hhigh : s < spec.epochStartSlot (e + 2) := by
          refine spec.slotToEpoch_lt_iff.1 ?_
          have hwindow := (hdb.votes v e a₀ x ha₀ hx₀).2
          have := spec.slotToEpoch_mono hlt.le
          omega
        exact hfull s hlow hhigh
    · cases hop
    · cases hop

theorem Db.Earliest.exec (hdb : db.Earliest L top reg) (htop : L.forest.Anc top V.head)
    (hp : LivePromise V cfg tracked reg op db) (hwait : Waits L top reg op db) :
    (op.exec spec now db).Earliest L top reg where
  collected := hdb.collected.exec hp
  registered := hdb.registered.exec hp
  votes _ _ _ _ := hdb.exec_votes htop hp
  covered _ _ _ := hdb.exec_covered htop hp
  first _ _ _ _ := hdb.exec_first htop hp hwait

theorem earliest_empty (registry : Table Nat ValidatorRow) :
    ({ Db.empty with validators := registry } : Db).Earliest L top reg := by
  refine ⟨fun v e a h => ?_, ⟨fun j row h => ?_, fun v e h => ?_⟩, fun v e a x h => ?_, fun v s r h => ?_,
    fun v e a x _ h => ?_⟩ <;> cases h

end Kept

variable {L : Ledger spec}

theorem earliest_kept (L : Ledger spec) (top : Root) (cfg : LiveConfig spec) (registry : Table Nat ValidatorRow) :
    PassInvariant (OneChain L top) cfg (fun _ op s => Waits L top (activeIn registry) op s.1) (activeIn registry)
      fun s => Grounded L s.1 ∧ s.1.RegisteredAs registry ∧ s.1.Earliest L top (activeIn registry) where
  grounded h := h.1
  registered h := by rw [mem_activeValidatorsAt, h.2.1]
  starts h _ := h
  keeps := by
    rintro V tracked op db past now ⟨hg, hr, he⟩ ⟨_, hchain⟩ hp hwait
    exact ⟨hg.exec hp, hr.exec hp, he.exec (Ledger.rootAt_iff.1 hchain).1 hp hwait⟩

/-- In every run over one chain whose promotions wait for the earlier votes, each completed duty that shows an inclusion
holds the first inclusion of the chain, as an archive scan of the epoch writes it. -/
theorem completed_earliest (L : Ledger spec) (top : Root) (cfg : LiveConfig spec) (registry : Table Nat ValidatorRow)
    {c : Config indexer (Unit × Role) (View L) Memory (Db × Unit)}
    (hr : (waitingPasses L top cfg (activeIn registry)).Reach (started registry ()) c) {v e : Nat} {row : AttestationRow}
    (hdone : c.state.1.completed v e = true) (hrow : c.state.1.attestationDuties.get (v, e) = some row)
    (hinc : row.included = true) :
    ∃ s, row.inclusionSlot = some s ∧ L.FirstVoteAt top e v s ∧ ∀ duty reward justified finalized,
      ((L.attested top e duty reward justified).write spec finalized v).inclusionSlot = some s := by
  obtain ⟨-, -, he⟩ := (earliest_kept L top cfg registry).reach hr ⟨grounded_empty registry, fun _ _ => Iff.rfl,
    earliest_empty registry⟩
  obtain ⟨hreg, row', hrow', hfinal⟩ := he.registered.completed v e hdone
  rw [hrow] at hrow'
  obtain rfl := Option.some.inj hrow'
  -- a row that shows an inclusion has its slot
  have hslot : row.inclusionSlot.isSome = true := (he.collected v e row hrow).included ▸ hinc
  obtain ⟨s, hs⟩ := Option.isSome_iff_exists.1 hslot
  have hfirst := he.first v e row s hreg hrow hfinal hs
  refine ⟨s, hs, hfirst, fun duty reward justified finalized => ?_⟩
  have hwindow := (he.votes v e row s hrow hs).2
  exact hfirst.inclusion (spec.slotToEpoch_lt_iff.1 (by omega))

/-! ## A vote that two blocks carry -/

/-- `Waits`, evaluated. -/
def waits (L : Ledger spec) (top : Root) : Effect → Db × Unit → Bool
  | .db (.promoteCollected p), s => s.1.attestationDuties.rows.all fun (k, a) =>
      a.finalized || !s.1.inclusionProven p k.1 a || a.inclusionSlot.all fun x => (List.range x).all fun slot =>
        s.1.covered k.1 slot || (L.rootAt top slot).all fun r => (L.vote r k.2 k.1).isNone
  | _, _ => true

theorem waits_of_eval {top : Root} {reg : Nat → Nat → Prop} {op : DbOp} {s : Db × Unit}
    (h : waits L top (.db op) s = true) : Waits L top reg op s.1 := by
  rintro p rfl v e a x - ha hf hproven hx slot hlt ⟨r, data, hr, hv⟩
  have hrow := List.all_eq_true.1 h _ (Table.mem_rows.2 ha)
  simp only [hf, hproven, hx, Bool.not_true, Bool.false_or, Option.all_some, List.all_eq_true, List.mem_range] at hrow
  have hslot := hrow slot hlt
  rw [hr, Option.all_some, hv] at hslot
  simpa using hslot

/-- The blocks of the slots 3 and 4 carry the same vote of slot 2, in the epoch 1. -/
def twiceVoted : Ledger pairs :=
  .ofBlocks (.ofList [(⟨100⟩, bareBlock 0 ⟨0⟩), (⟨102⟩, bareBlock 2 ⟨100⟩), (⟨103⟩, votingBlock 3 ⟨102⟩ 2 ⟨1, ⟨102⟩⟩),
    (⟨104⟩, votingBlock 4 ⟨103⟩ 2 ⟨1, ⟨102⟩⟩), (⟨106⟩, bareBlock 6 ⟨104⟩)]) (by decide) (fun e => [⟨0, 2 * e, [7]⟩]) fun _ => 0

theorem lagZero_window : 2 ≤ 5 := by decide

def lagZero : LiveConfig pairs := ⟨0, 5, lagZero_window, by decide⟩

def atDuty : View twiceVoted := ⟨⟨102⟩, ⟨_, rfl⟩, ⟨0, ⟨100⟩⟩, by decide +kernel, by decide⟩

def atSecondVote : View twiceVoted := ⟨⟨104⟩, ⟨_, rfl⟩, ⟨0, ⟨100⟩⟩, by decide +kernel, by decide⟩

def secondVoteFinal : View twiceVoted := ⟨⟨104⟩, ⟨_, rfl⟩, ⟨2, ⟨104⟩⟩, by decide +kernel, by decide⟩

def windowFinal : View twiceVoted := ⟨⟨106⟩, ⟨_, rfl⟩, ⟨3, ⟨106⟩⟩, by decide +kernel, by decide⟩

def voteTurn (V : View twiceVoted) (available : Request → Bool) : Turn twiceVoted Unit := ⟨[7], V, available, ()⟩

abbrev playVotes (ok : Effect → Db × Unit → Bool) := Turn.play (OneChain twiceVoted ⟨106⟩) lagZero ok 100

abbrev proceedVotes (ok : Effect → Db × Unit → Bool) := Turn.proceed (OneChain twiceVoted ⟨106⟩) lagZero ok

/-- The worker is stopped and validator 7 is registered. -/
def beforeVotes : Memory × (Db × Unit) := (.stopped, ({ Db.empty with validators := sevenActive }, ()))

theorem completed_earliest_collected_once : ∃ (c : Config indexer (Unit × Role) (View twiceVoted) Memory (Db × Unit)) (row : AttestationRow),
    (waitingPasses twiceVoted ⟨106⟩ lagZero (activeIn sevenActive)).Reach (started sevenActive ()) c ∧
    c.state.1.completed 7 1 = true ∧ c.state.1.attestationDuties.get (7, 1) = some row ∧
    ∃ s, row.inclusionSlot = some s ∧ twiceVoted.FirstVoteAt ⟨106⟩ 1 7 s ∧ ∀ duty reward justified finalized,
      ((twiceVoted.attested ⟨106⟩ 1 duty reward justified).write pairs finalized 7).inclusionSlot = some s := by
  have hplay : (([voteTurn atDuty fun _ => true, voteTurn atDuty fun _ => true].foldlM (playVotes (waits twiceVoted ⟨106⟩))
      beforeVotes).bind fun x => proceedVotes (waits twiceVoted ⟨106⟩) 100 x (voteTurn windowFinal fun _ => true)).any (fun y =>
        y.2.1.completed 7 1 && (y.2.1.attestationDuties.get (7, 1)).any (·.included)) = true := by decide +kernel
  obtain ⟨y, hy, hcheck⟩ := (Option.any_eq_true _ _).1 hplay
  obtain ⟨hdone, hany⟩ := Bool.and_eq_true_iff.1 hcheck
  obtain ⟨row, hrow, hinc⟩ := (Option.any_eq_true _ _).1 hany
  have hr : (waitingPasses twiceVoted ⟨106⟩ lagZero (activeIn sevenActive)).Reach (started sevenActive ())
      ((started sevenActive ()).set ((), .live) (.running windowFinal y.1) y.2) :=
    Turn.reach_turns (hosts_passes fun _ _ _ h => waits_of_eval h) (opens_passes fun _ _ _ => trivial) _ rfl rfl hy
  exact ⟨_, row, hr, hdone, hrow, completed_earliest twiceVoted ⟨106⟩ lagZero sevenActive hr hdone hrow hinc⟩

/-- The worker stops after it has collected slot 4 and before it collects slot 3. Slot 4 is finalized while slot 3 cannot
be decoded; when slot 3 is collected at last, the row of the duty is frozen and completes with the later inclusion. -/
theorem frozen_inclusion_completes : ∃ (c : Config indexer (Unit × Role) (View twiceVoted) Memory (Db × Unit)) (row : AttestationRow),
    (passes (OneChain twiceVoted ⟨106⟩) lagZero (fun _ _ _ => True) fun _ _ _ => True).Reach (started sevenActive ()) c ∧
    c.state.1.completed 7 1 = true ∧ c.state.1.attestationDuties.get (7, 1) = some row ∧ row.included = true ∧
    row.inclusionSlot = some 4 ∧ twiceVoted.VotedAt ⟨106⟩ 1 7 3 := by
  let A := passes (OneChain twiceVoted ⟨106⟩) lagZero (fun _ _ _ => True) fun _ _ _ => True
  have hhosts : Turn.Hosts A fun _ _ => true := hosts_passes fun _ _ _ _ => trivial
  have hopens : Turn.Opens A (OneChain twiceVoted ⟨106⟩) lagZero := opens_passes fun _ _ _ => trivial
  have hplay : (([voteTurn atDuty fun _ => true, voteTurn atDuty fun _ => true].foldlM (playVotes fun _ _ => true)
      beforeVotes).bind fun x => proceedVotes (fun _ _ => true) 29 x (voteTurn atSecondVote fun _ => true)).any (fun y =>
        (([voteTurn secondVoteFinal fun _ => true, voteTurn secondVoteFinal (committeesMissing 1)].foldlM
          (playVotes fun _ _ => true) (.stopped, y.2)).bind fun x => proceedVotes (fun _ _ => true) 100 x
            (voteTurn windowFinal fun _ => true)).any fun z =>
          z.2.1.completed 7 1 && (z.2.1.attestationDuties.get (7, 1)).any fun row =>
            row.included && row.inclusionSlot == some 4) = true := by decide +kernel
  obtain ⟨y, hy, hrest⟩ := (Option.any_eq_true _ _).1 hplay
  obtain ⟨z, hz, hcheck⟩ := (Option.any_eq_true _ _).1 hrest
  obtain ⟨hdone, hany⟩ := Bool.and_eq_true_iff.1 hcheck
  obtain ⟨row, hrow, hincluded⟩ := (Option.any_eq_true _ _).1 hany
  simp only [Bool.and_eq_true, beq_iff_eq] at hincluded
  let crashed := ((started (L := twiceVoted) sevenActive ()).set ((), .live) (.running atSecondVote y.1) y.2).set ((), .live)
    (.idle .stopped) y.2
  have h1 : A.Reach (started sevenActive ()) crashed := (Turn.reach_turns hhosts hopens _ rfl rfl hy).tail (.crash rfl)
  have h2 : A.Reach crashed _ := Turn.reach_turns (x := (.stopped, y.2)) hhosts hopens _ (Config.set_proc ..) rfl hz
  exact ⟨_, row, h1.trans h2, hdone, hrow, hincluded.1, hincluded.2, ⟨103⟩, _, by decide +kernel, rfl⟩

end BeaconIndexer
