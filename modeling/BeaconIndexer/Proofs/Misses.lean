/-
Proven misses over any sequence of chains. A miss is inferred from the coverage of its window, and
coverage of a slot that was collected as empty survives when a block is recorded there later. Where
no block is recorded under coverage with a vote that was not seen, every miss that a promotion
proves is one: no block of the finalized chain in the window carries the vote.
-/
import BeaconIndexer.Proofs.Canonical
import BeaconIndexer.Proofs.Evidence
import BeaconIndexer.Proofs.Partition

namespace BeaconIndexer

open Effects Ancestry Relational

variable {spec : ChainSpec} {L : Ledger spec}

/-! ## Finalized chains -/

/-- The chain of a checkpoint is the head's chain up to the start of its epoch. -/
theorem Ledger.rootAt_boundary {head r : Root} {e s : Nat} (h : L.boundary head e = some r)
    (hs : s ≤ spec.epochStartSlot e) : L.rootAt r s = L.rootAt head s := by
  obtain ⟨hanc, -, -⟩ := Forest.below_iff.1 h
  by_cases hle : s ≤ L.slotOf r
  · exact (Forest.node_eq_of_anc hanc hle).symm
  · -- neither chain has a block between the checkpoint's and the start of its epoch
    have hhead : L.rootAt head s = none := Forest.node_none_of_below h (not_le.1 hle) hs
    rw [hhead]
    cases hr : L.rootAt r s with
    | none => rfl
    | some r' =>
      obtain ⟨hanc', hslot⟩ := Ledger.rootAt_iff.1 hr
      have hge := hanc'.height_le
      exact absurd (hslot ▸ hge) hle

/-- The chain may be replaced, except below the finalized checkpoint. -/
abbrev FinalityKept (L : Ledger spec) (past : Checkpoint) (V : View L) (past' : Checkpoint) : Prop :=
  past' = V.finalized ∧ past.epoch ≤ V.finalized.epoch ∧ L.boundary V.head past.epoch = some past.root

/-- The finalized chain only grows. -/
theorem FinalityKept.rootAt {past past' : Checkpoint} {V : View L} (h : FinalityKept L past V past') {s : Nat}
    (hs : s ≤ spec.epochStartSlot past.epoch) : L.rootAt past'.root s = L.rootAt past.root s := by
  obtain ⟨rfl, hle, hpast⟩ := h
  rw [Ledger.rootAt_boundary V.boundary (hs.trans (spec.epochStartSlot_mono hle)), Ledger.rootAt_boundary hpast hs]

/-! ## Blocks recorded under coverage -/

section Setting

variable (L : Ledger spec) (cfg : LiveConfig spec) (reg : Nat → Nat → Prop)

/-- A block that is recorded in a slot without one carries no vote that was not seen, for the validators the slot is
already covered for. -/
def RecordsSeen (op : DbOp) (db : Db) : Prop :=
  ∀ s r p, op = .recordBlock s r p → db.storedRoot s = none → ∀ v, db.covered v s = true → db.VotesSeen L reg v r

/-- Passes over chains that keep their finalized part, recording blocks only so. -/
abbrev seenPasses : System indexer (Unit × Role) (View L) Memory (Db × Checkpoint) :=
  passes (FinalityKept L) cfg (fun _ _ _ => True) fun _ op s => RecordsSeen L reg op s.1

/-- The row claims that the duty was missed. -/
def AttestationRow.missed (a : AttestationRow) : Bool := !a.included && a.inclusionKnown

/-- The votes of every covered block have been seen, and every miss is true of the finalized chain. -/
structure Db.MissesTrue (final : Checkpoint) (db : Db) : Prop where
  collected : db.Collected reg
  covered : ∀ v s r, db.covered v s = true → db.storedRoot s = some r → db.VotesSeen L reg v r
  missed : ∀ v e a, db.attestationDuties.get (v, e) = some a → a.missed = true → e + 2 ≤ final.epoch ∧
    ∀ s < spec.epochStartSlot (e + 2), ¬L.VotedAt final.root e v s

end Setting

section Kept

variable {cfg : LiveConfig spec} {reg : Nat → Nat → Prop} {V : View L} {tracked : List Nat} {now : Nat} {op : DbOp} {db : Db}
  {final : Checkpoint}

theorem Db.MissesTrue.exec_covered (hdb : db.MissesTrue L reg final) (hg : Grounded L db)
    (hp : LivePromise V cfg tracked reg op db) (hrec : RecordsSeen L reg op db) {v s : Nat} {r : Root}
    (hcov : (op.exec spec now db).covered v s = true) (hr : (op.exec spec now db).storedRoot s = some r) :
    (op.exec spec now db).VotesSeen L reg v r := by
  have slot : ∀ {d : Db}, Grounded L d → d.storedRoot s = some r → L.slotOf r = s := by
    intro d hd hstored
    obtain ⟨parent, hrow⟩ := (Db.storedRoot_eq_some d).1 hstored
    obtain ⟨b, hb, hslot, -⟩ := hd.blocks s _ hrow
    rw [Ledger.slotOf_eq hb, hslot]
  have hslot := slot (hg.exec hp) hr
  obtain ⟨parent, hrow⟩ := (Db.storedRoot_eq_some _).1 hr
  rcases exec_blocks_sub hrow with hold | ⟨p, rfl, -⟩
  · have hstored : db.storedRoot s = some r := (Db.storedRoot_eq_some db).2 ⟨parent, hold⟩
    rcases exec_coverage_sub hcov with hcov' | ⟨vs, rfl, hv⟩
    · exact (hdb.covered v s r hcov' hstored).exec hp (hslot ▸ hcov)
    · obtain ⟨rfl, -, -, hroot, hseen⟩ := hp
      intro e data hreg hvote hwindow
      rw [hslot] at hwindow ⊢
      exact hseen r (hroot.symm.trans hstored) v hv e data hreg hvote hwindow
  · -- recording a block leaves the coverage and the rows alone
    cases hstored : db.storedRoot s with
    | none => exact hrec s r p rfl hstored v hcov
    | some r' =>
      obtain rfl := hp.2.2.2.2 r' hstored
      exact hdb.covered v s r' hcov hstored

/-- A promotion that proves the window of a row without an inclusion proves a miss. -/
theorem Db.Collected.window (hcol : db.Collected reg)
    (hcovered : ∀ v s r, db.covered v s = true → db.storedRoot s = some r → db.VotesSeen L reg v r) {p : Promotion}
    (hp : PromotionPromise V p db) {v e : Nat} {a : AttestationRow} (ha : db.attestationDuties.get (v, e) = some a)
    (hf : a.finalized = false) (hinc : a.included = false) (hproven : db.windowProven spec p v e a = true) :
    e + 2 ≤ V.finalized.epoch ∧ ∀ s < spec.epochStartSlot (e + 2), ¬L.VotedAt V.finalized.root e v s := by
  unfold Db.windowProven at hproven
  simp only [Bool.and_eq_true, decide_eq_true_eq] at hproven
  obtain ⟨⟨⟨⟨-, hle⟩, hfloor⟩, hfull⟩, -⟩ := hproven
  refine ⟨hp.target ▸ Nat.add_le_add_right hle 2, fun s hs hvoted => ?_⟩
  have hlow : spec.epochStartSlot e ≤ s := spec.le_slotToEpoch_iff.1 hvoted.epoch_le
  have hcov : db.covered v s = true := (Db.fullyCovered_iff db v e).1 hfull s hlow hs
  obtain ⟨r, data, hr, hv⟩ := hvoted
  have hslot := (Ledger.rootAt_iff.1 hr).2
  -- the block of the finalized chain is the stored one, so its vote was seen
  obtain ⟨-, hstored⟩ := hp.roots r (hp.confirmed s r (hfloor.trans hlow) hr)
  rw [hslot] at hstored
  have hwindow : spec.slotToEpoch (L.slotOf r) ≤ e + 1 := by
    have := spec.slotToEpoch_lt_iff.2 hs
    rw [hslot]
    omega
  have hrow := hcol v e a ha
  obtain ⟨a', ha', hseen⟩ := hcovered v s r hcov hstored e data (hrow.seeded hinc) hv hwindow
  rw [ha] at ha'
  obtain rfl := Option.some.inj ha'
  rcases hseen with ⟨x, -, hx⟩ | hfinal
  · have hsome := hrow.included
    rw [hinc, hx] at hsome
    cases hsome
  · rw [hf] at hfinal
    cases hfinal

/-- A row claims a miss because it did so before, or because a promotion proves its window. -/
theorem Db.Collected.missed_cases (hcol : db.Collected reg) (hp : LivePromise V cfg tracked reg op db) {v e : Nat}
    {a : AttestationRow} (ha : (op.exec spec now db).attestationDuties.get (v, e) = some a) (hmissed : a.missed = true) :
    (∃ a₀, db.attestationDuties.get (v, e) = some a₀ ∧ a₀.missed = true) ∨
    ∃ p a₀, op = .promoteCollected p ∧ db.attestationDuties.get (v, e) = some a₀ ∧ a₀.finalized = false ∧
      a₀.included = false ∧ db.windowProven spec p v e a₀ = true := by
  obtain ⟨hinc, hknown⟩ : a.included = false ∧ a.inclusionKnown = true := by
    simpa [AttestationRow.missed] using hmissed
  have hfinal : a.finalized = true := ((hcol.exec hp) v e a ha).known.symm.trans hknown
  have hcases := (dutyChange_of_some ha).vote_cases
  rcases hcol.final_cases hp ha hfinal with ⟨a₀, ha₀, hf₀⟩ | ⟨p, a₀, rfl, ha₀, hf₀, hproven⟩
  · rcases hcases with ⟨a₁, ha₁, hs⟩ | ⟨w, rfl, hr, -⟩ | ⟨d, a₁, rfl, ha₁, hr, rfl⟩
    · rw [ha₀] at ha₁
      obtain rfl := Option.some.inj ha₁
      refine .inl ⟨a₀, ha₀, ?_⟩
      unfold AttestationRow.missed
      rw [← hs.included, hinc, (hcol v e a₀ ha₀).known, hf₀]
      rfl
    · rw [AttestationWrite.replaces_provisional hp.1 (hr a₀ ha₀)] at hf₀
      cases hf₀
    · -- a repaired row shows its inclusion
      simp only [AttestationRow.repairable, Bool.and_eq_true] at hr
      exact absurd (hr.1.1.symm.trans hinc) (by decide)
  · rcases hcases with ⟨a₁, ha₁, hs⟩ | ⟨w, hop, -⟩ | ⟨d, a₁, hop, -⟩
    · rw [ha₀] at ha₁
      obtain rfl := Option.some.inj ha₁
      have hinc₀ : a₀.included = false := hs.included.symm.trans hinc
      rcases hproven with hproven | hproven
      · simp [Db.inclusionProven, hinc₀] at hproven
      · exact .inr ⟨p, a₀, rfl, ha₀, hf₀, hinc₀, hproven⟩
    · cases hop
    · cases hop

theorem Db.MissesTrue.exec_missed (hdb : db.MissesTrue L reg V.finalized) (hp : LivePromise V cfg tracked reg op db)
    {v e : Nat} {a : AttestationRow} (ha : (op.exec spec now db).attestationDuties.get (v, e) = some a)
    (hmissed : a.missed = true) :
    e + 2 ≤ V.finalized.epoch ∧ ∀ s < spec.epochStartSlot (e + 2), ¬L.VotedAt V.finalized.root e v s := by
  rcases hdb.collected.missed_cases hp ha hmissed with ⟨a₀, ha₀, hm⟩ | ⟨p, a₀, rfl, ha₀, hf, hinc, hproven⟩
  · exact hdb.missed v e a₀ ha₀ hm
  · exact hdb.collected.window hdb.covered hp ha₀ hf hinc hproven

theorem Db.MissesTrue.exec (hdb : db.MissesTrue L reg V.finalized) (hg : Grounded L db) (hp : LivePromise V cfg tracked reg op db)
    (hrec : RecordsSeen L reg op db) : (op.exec spec now db).MissesTrue L reg V.finalized where
  collected := hdb.collected.exec hp
  covered _ _ _ := hdb.exec_covered hg hp hrec
  missed _ _ _ := hdb.exec_missed hp

/-- A new view keeps the finalized chain below the windows of the misses. -/
theorem Db.MissesTrue.enter {final' : Checkpoint} (hdb : db.MissesTrue L reg final) (h : FinalityKept L final V final') :
    db.MissesTrue L reg final' where
  collected := hdb.collected
  covered := hdb.covered
  missed v e a ha hmissed := by
    obtain ⟨hle, hnone⟩ := hdb.missed v e a ha hmissed
    have hle' : final.epoch ≤ final'.epoch := by
      rw [h.1]
      exact h.2.1
    refine ⟨hle.trans hle', fun s hs hvoted => hnone s hs ?_⟩
    obtain ⟨r, data, hr, hv⟩ := hvoted
    exact ⟨r, data, (h.rootAt (hs.le.trans (spec.epochStartSlot_mono hle))).symm.trans hr, hv⟩

end Kept

theorem missesTrue_kept (L : Ledger spec) (cfg : LiveConfig spec) (registry : Table Nat ValidatorRow) :
    PassInvariant (FinalityKept L) cfg (fun _ op s => RecordsSeen L (activeIn registry) op s.1) (activeIn registry)
      fun s => Grounded L s.1 ∧ s.1.RegisteredAs registry ∧ s.1.MissesTrue L (activeIn registry) s.2 where
  grounded h := h.1
  registered h := by rw [mem_activeValidatorsAt, h.2.1]
  starts h hadm := ⟨h.1, h.2.1, h.2.2.enter hadm⟩
  keeps := by
    rintro V tracked op db past now ⟨hg, hr, hm⟩ ⟨_, rfl, -⟩ hp hrec
    exact ⟨hg.exec hp, hr.exec hp, hm.exec hg hp hrec⟩

/-- In every run over chains that keep their finalized part, where no block is recorded under coverage with an unseen
vote, a row that claims a miss is right: the window is on the finalized chain and none of its blocks carries the vote. -/
theorem proven_misses_true (L : Ledger spec) (cfg : LiveConfig spec) (registry : Table Nat ValidatorRow) (first : Checkpoint)
    {c : Config indexer (Unit × Role) (View L) Memory (Db × Checkpoint)}
    (hr : (seenPasses L cfg (activeIn registry)).Reach (started registry first) c) {v e : Nat} {row : AttestationRow}
    (hrow : c.state.1.attestationDuties.get (v, e) = some row) (hinc : row.included = false)
    (hknown : row.inclusionKnown = true) :
    e + 2 ≤ c.state.2.epoch ∧ ∀ s, spec.epochStartSlot e ≤ s → s < spec.epochStartSlot (e + 2) →
      ¬L.VotedAt c.state.2.root e v s := by
  have hempty : ({ Db.empty with validators := registry } : Db).MissesTrue L (activeIn registry) first := by
    refine ⟨fun v e a h => ?_, fun v s r h => ?_, fun v e a h => ?_⟩ <;> cases h
  obtain ⟨-, -, hm⟩ := (missesTrue_kept L cfg registry).reach hr ⟨grounded_empty registry, fun _ _ => Iff.rfl, hempty⟩
  obtain ⟨hle, hnone⟩ := hm.missed v e row hrow (by simp [AttestationRow.missed, hinc, hknown])
  exact ⟨hle, fun s _ hs => hnone s hs⟩

/-! ## A skip that is filled under its coverage -/

/-- Blocks are recorded in slots that nobody covers, or that have a block. -/
def recordsUncovered : Effect → Db × Checkpoint → Bool
  | .db (.recordBlock slot _ _), s => (s.1.storedRoot slot).isSome || s.1.liveCoverage.rows.all fun r => r.1.2 != slot
  | _, _ => true

theorem recordsSeen_of_uncovered {reg : Nat → Nat → Prop} {op : DbOp} {s : Db × Checkpoint}
    (h : recordsUncovered (.db op) s = true) : RecordsSeen L reg op s.1 := by
  rintro slot r p rfl hnone v hcov
  replace h : ((s.1.storedRoot slot).isSome || s.1.liveCoverage.rows.all fun r => r.1.2 != slot) = true := h
  rw [hnone, Option.isSome_none, Bool.false_or, List.all_eq_true] at h
  have hrow := h _ (Table.mem_rows.2 ((Db.covered_iff _).1 hcov))
  simp at hrow

/-- Slot 3 is skipped on one chain; on the other its block carries the vote of slot 2. -/
def filledThree : Ledger unitEpochs :=
  .ofBlocks (.ofList [(⟨100⟩, bareBlock 0 ⟨0⟩), (⟨102⟩, bareBlock 2 ⟨100⟩), (⟨104⟩, bareBlock 4 ⟨102⟩), (⟨105⟩, bareBlock 5 ⟨104⟩),
    (⟨203⟩, votingBlock 3 ⟨102⟩ 2 ⟨2, ⟨102⟩⟩), (⟨204⟩, bareBlock 4 ⟨203⟩), (⟨205⟩, bareBlock 5 ⟨204⟩)]) (by decide)
    (fun e => [⟨0, e, [7]⟩]) fun _ => 0

theorem lagOne_window : 2 ≤ 5 := by decide

def lagOne : LiveConfig unitEpochs := ⟨1, 5, lagOne_window, by decide⟩

def dutySlot : View filledThree := ⟨⟨102⟩, ⟨_, rfl⟩, ⟨0, ⟨100⟩⟩, by decide +kernel, by decide⟩

def skippedThree : View filledThree := ⟨⟨104⟩, ⟨_, rfl⟩, ⟨0, ⟨100⟩⟩, by decide +kernel, by decide⟩

def skipFinal : View filledThree := ⟨⟨105⟩, ⟨_, rfl⟩, ⟨4, ⟨104⟩⟩, by decide +kernel, by decide⟩

def fillFinal : View filledThree := ⟨⟨205⟩, ⟨_, rfl⟩, ⟨4, ⟨204⟩⟩, by decide +kernel, by decide⟩

def missTurn (tracked : List Nat) (V : View filledThree) (available : Request → Bool) : Turn filledThree Checkpoint :=
  ⟨tracked, V, available, V.finalized⟩

abbrev playMisses (ok : Effect → Db × Checkpoint → Bool) := Turn.play (FinalityKept filledThree) lagOne ok 100

abbrev proceedMisses (ok : Effect → Db × Checkpoint → Bool) := Turn.proceed (FinalityKept filledThree) lagOne ok 100

def beforeMisses (registry : Table Nat ValidatorRow) : Memory × (Db × Checkpoint) :=
  (.stopped, ({ Db.empty with validators := registry }, ⟨0, ⟨100⟩⟩))

theorem proven_misses_true_skipped : ∃ (c : Config indexer (Unit × Role) (View filledThree) Memory (Db × Checkpoint))
    (row : AttestationRow),
    (seenPasses filledThree lagOne (activeIn sevenActive)).Reach (started sevenActive ⟨0, ⟨100⟩⟩) c ∧
    c.state.1.attestationDuties.get (7, 2) = some row ∧ row.missed = true ∧ 2 + 2 ≤ c.state.2.epoch ∧
    ∀ s, unitEpochs.epochStartSlot 2 ≤ s → s < unitEpochs.epochStartSlot (2 + 2) →
      ¬filledThree.VotedAt c.state.2.root 2 7 s := by
  have hplay : (([missTurn [7] dutySlot fun _ => true, missTurn [7] dutySlot fun _ => true].foldlM
      (playMisses recordsUncovered) (beforeMisses sevenActive)).bind fun x =>
        proceedMisses recordsUncovered x (missTurn [7] skipFinal fun _ => true)).any (fun y =>
          (y.2.1.attestationDuties.get (7, 2)).any (·.missed)) = true := by decide +kernel
  obtain ⟨y, hy, hany⟩ := (Option.any_eq_true _ _).1 hplay
  obtain ⟨row, hrow, hmissed⟩ := (Option.any_eq_true _ _).1 hany
  have hr : (seenPasses filledThree lagOne (activeIn sevenActive)).Reach (started sevenActive ⟨0, ⟨100⟩⟩)
      ((started sevenActive ⟨0, ⟨100⟩⟩).set ((), .live) (.running skipFinal y.1) y.2) :=
    Turn.reach_turns (hosts_passes fun _ _ _ h => recordsSeen_of_uncovered h) (opens_passes fun _ _ _ => trivial) _ rfl rfl hy
  obtain ⟨hinc, hknown⟩ : row.included = false ∧ row.inclusionKnown = true := by
    simpa [AttestationRow.missed] using hmissed
  exact ⟨_, row, hr, hrow, hmissed, proven_misses_true filledThree lagOne sevenActive ⟨0, ⟨100⟩⟩ hr hrow hinc hknown⟩

/-- Validator 9 is registered too and becomes active later. -/
def nineLater : Table Nat ValidatorRow := .ofList [(7, ⟨0, none, none⟩), (9, ⟨100, none, none⟩)]

/-- Slot 3 is collected as skipped below a head that is never stored. After the chain is replaced the worker restarts with
a further validator and retries the slot: it records the block and fails on the committees. The coverage of validator 7
stands, and its duty of epoch 2 is proven missed although the block of slot 3 carries its vote. -/
theorem filled_skip_proves_miss : ∃ (c : Config indexer (Unit × Role) (View filledThree) Memory (Db × Checkpoint))
    (row : AttestationRow),
    (passes (FinalityKept filledThree) lagOne (fun _ _ _ => True) fun _ _ _ => True).Reach
      (started nineLater ⟨0, ⟨100⟩⟩) c ∧
    c.state.1.attestationDuties.get (7, 2) = some row ∧ row.included = false ∧ row.inclusionKnown = true ∧
    unitEpochs.epochStartSlot 2 ≤ 3 ∧ 3 < unitEpochs.epochStartSlot (2 + 2) ∧
    filledThree.VotedAt c.state.2.root 2 7 3 := by
  have hplay : (([missTurn [7] dutySlot fun _ => true, missTurn [7] dutySlot fun _ => true,
      missTurn [7] skippedThree fun _ => true, missTurn [7, 9] fillFinal fun _ => true].foldlM
      (playMisses fun _ _ => true) (beforeMisses nineLater)).bind fun x =>
        proceedMisses (fun _ _ => true) x (missTurn [7, 9] fillFinal (committeesMissing 2))).any (fun y =>
          (y.2.1.attestationDuties.get (7, 2)).any (·.missed) && y.2.2.root == ⟨204⟩) = true := by decide +kernel
  obtain ⟨y, hy, hcheck⟩ := (Option.any_eq_true _ _).1 hplay
  obtain ⟨hany, hroot⟩ := Bool.and_eq_true_iff.1 hcheck
  obtain ⟨row, hrow, hmissed⟩ := (Option.any_eq_true _ _).1 hany
  have hr : (passes (FinalityKept filledThree) lagOne (fun _ _ _ => True) fun _ _ _ => True).Reach
      (started nineLater ⟨0, ⟨100⟩⟩) ((started nineLater ⟨0, ⟨100⟩⟩).set ((), .live) (.running fillFinal y.1) y.2) :=
    Turn.reach_turns (hosts_passes fun _ _ _ _ => trivial) (opens_passes fun _ _ _ => trivial) _ rfl rfl hy
  obtain ⟨hinc, hknown⟩ : row.included = false ∧ row.inclusionKnown = true := by
    simpa [AttestationRow.missed] using hmissed
  refine ⟨_, row, hr, hrow, hinc, hknown, by decide, by decide, ⟨203⟩, ?_⟩
  show ∃ data, filledThree.rootAt y.2.2.root 3 = _ ∧ _
  rw [beq_iff_eq.1 hroot]
  exact ⟨_, by decide +kernel, rfl⟩

end BeaconIndexer
