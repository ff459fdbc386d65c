/-
Stored evidence and the canonical chain. A pass compares only stored roots with the head's chain,
so a slot recorded as skipped can hold a block of a replacement chain without the pass noticing.
Where no such slot is missed, a pass that ends without rolling back leaves the coverage of its
window in agreement with the head.
-/
import BeaconIndexer.Proofs.Passes

namespace BeaconIndexer

open Effects Ancestry Relational

variable {spec : ChainSpec} {L : Ledger spec}

/-- In the window of the pass, a slot recorded as skipped holds no block of the head's chain, or the
stored blocks make the pass notice. -/
def Unmissed (cfg : LiveConfig spec) (m : Memory) (s : Db × Unit) (V : View L) : Prop :=
  ∀ tracked last cursor, m = .live tracked last cursor → ∀ slot, V.floor cfg ≤ slot → slot ≤ V.target cfg →
    SkipTrue L V.head slot s.1 ∨ Noticed V cfg cursor s.1 slot

/-- Passes that may meet any chain, but miss no replaced skip. -/
abbrev unmissedPasses (L : Ledger spec) (cfg : LiveConfig spec) :
    System indexer (Unit × Role) (View L) Memory (Db × Unit) :=
  passes (fun _ _ _ => True) cfg (Unmissed cfg) fun _ _ _ => True

/-- Passes that may meet any chain. -/
abbrev anyPasses (L : Ledger spec) (cfg : LiveConfig spec) : System indexer (Unit × Role) (View L) Memory (Db × Unit) :=
  passes (fun _ _ _ => True) cfg (fun _ _ _ => True) fun _ _ _ => True

/-- The window of a finished pass agrees with its head. -/
def WindowAgrees (cfg : LiveConfig spec) (V : View L) (m : Memory) (s : Db × Unit) : Prop :=
  ∀ tracked scan cursor, m = .live tracked (some (.ok (.collected scan))) cursor → ∀ v slot, V.floor cfg ≤ slot →
    slot ≤ V.target cfg → s.1.covered v slot = true → s.1.storedRoot slot = L.rootAt V.head slot

theorem grounded_kept (cfg : LiveConfig spec) (registry : Table Nat ValidatorRow) :
    PassInvariant (fun (_ : Unit) (_ : View L) _ => True) cfg (fun _ _ _ => True) (activeIn registry)
      fun s => Grounded L s.1 ∧ s.1.RegisteredAs registry where
  grounded h := h.1
  registered h := by rw [mem_activeValidatorsAt, h.2]
  starts h _ := h
  keeps h _ hp _ := ⟨h.1.exec hp, h.2.exec hp⟩

theorem windowAgrees_sound (L : Ledger spec) (cfg : LiveConfig spec) (registry : Table Nat ValidatorRow) :
    (unmissedPasses L cfg).Sound
      (promising (fun _ _ _ => True) cfg (Unmissed cfg) (fun _ _ _ => True) (activeIn registry) (WindowAgrees cfg))
      fun s => Grounded L s.1 ∧ s.1.RegisteredAs registry := by
  refine (grounded_kept cfg registry).sound ?_ ?_ ?_
  · rintro V tracked cursor m ⟨db, past⟩ ⟨db', past'⟩ last hs _ ⟨_, hst⟩ hcol hkeep tracked' scan cursor' hm v slot hlo hhi hv
    have hc := hcol tracked' scan cursor' hm
    cases hst' : db'.storedRoot slot with
    | some r => exact (hc.branch slot r hlo hst').symm
    | none =>
      -- the skip was true at the start, or the pass noticed and forgot it
      have hskip : SkipTrue L V.head slot db' := by
        rcases hst tracked last cursor rfl slot hlo hhi with h | h
        · exact hkeep _ (fun op now d hp => SkipTrue.exec hp hlo) h
        · exact hc.skips slot hlo h
      exact (hskip v hv hst').symm
  · rintro V tracked c s tracked' scan cursor hm
    cases hm
  · rintro V s tracked' scan cursor hm
    cases hm

/-- After every pass that ends without rolling back, each covered slot of its window is stored
exactly as the head's chain has it. -/
theorem covered_canonical (L : Ledger spec) (cfg : LiveConfig spec) (registry : Table Nat ValidatorRow)
    {c : Config indexer (Unit × Role) (View L) Memory (Db × Unit)} (hr : (unmissedPasses L cfg).Reach (started registry ()) c)
    {V : View L} {tracked : List Nat} {scan : Option Error} {cursor : Cursor}
    (hp : c.proc ((), .live) = .running V (.pure (.live tracked (some (.ok (.collected scan))) cursor))) :
    ∀ v slot, V.floor cfg ≤ slot → slot ≤ V.target cfg → c.state.1.covered v slot = true →
      c.state.1.storedRoot slot = L.rootAt V.head slot := by
  have hempty : Grounded L (started (L := L) registry ()).state.1 := by
    refine ⟨fun s row hrow => ?_, fun j row s hrow => ?_⟩
    · cases hrow
    · cases hrow
  obtain ⟨_, hproc⟩ := (windowAgrees_sound L cfg registry).reach hr ⟨⟨hempty, fun _ _ => Iff.rfl⟩, fun _ => trivial⟩
  have hlive := hproc ((), .live)
  rw [hp] at hlive
  exact hlive.done tracked scan cursor rfl

/-! ## A skip replaced by a block -/

theorem eightSlots_pos : 0 < 8 := by decide

def eightSlots : ChainSpec := ⟨8, 1, 64, 1000, eightSlots_pos⟩

theorem lagTwo_window : 2 ≤ 2 := le_rfl

def lagTwo : LiveConfig eightSlots := ⟨2, 2, lagTwo_window, by decide⟩

/-- Two chains over the blocks of slots 0 and 1: one goes on with slot 4, the other with 2 and 5. -/
def forkAtOne : Ledger eightSlots :=
  .ofBlocks (.ofList [(⟨100⟩, bareBlock 0 ⟨0⟩), (⟨101⟩, bareBlock 1 ⟨100⟩), (⟨104⟩, bareBlock 4 ⟨101⟩),
    (⟨202⟩, bareBlock 2 ⟨101⟩), (⟨205⟩, bareBlock 5 ⟨202⟩)]) (by decide) (fun e => [⟨0, 8 * e, [7, 8]⟩]) fun _ => 0

def skipView : View forkAtOne := ⟨⟨104⟩, ⟨_, rfl⟩, ⟨0, ⟨100⟩⟩, by decide +kernel, by decide⟩

def filledView : View forkAtOne := ⟨⟨205⟩, ⟨_, rfl⟩, ⟨0, ⟨100⟩⟩, by decide +kernel, by decide⟩

def sevenActive : Table Nat ValidatorRow := .ofList [(7, ⟨0, none, none⟩)]

def turnOf (V : View forkAtOne) : Turn forkAtOne Unit := ⟨[7], V, fun _ => true, ()⟩

/-- The worker's memory and the database it starts with. -/
def atStart : Memory × (Db × Unit) := (.stopped, ({ Db.empty with validators := sevenActive }, ()))

/-- The worker after resuming on the empty tables. -/
def resumed : Memory × (Db × Unit) := (.live [7] none none, ({ Db.empty with validators := sevenActive }, ()))

abbrev playFork := Turn.play (L := forkAtOne) (fun (_ : Unit) (_ : View forkAtOne) (_ : Unit) => True) lagTwo (fun _ _ => true) 200

abbrev proceedFork := Turn.proceed (L := forkAtOne) (fun (_ : Unit) (_ : View forkAtOne) (_ : Unit) => True) lagTwo (fun _ _ => true) 200

theorem covered_canonical_first_pass : ∃ c cursor, (unmissedPasses forkAtOne lagTwo).Reach (started sevenActive ()) c ∧
    c.proc ((), .live) = .running skipView (.pure (.live [7] (some (.ok (.collected none))) cursor)) ∧
    c.state.1.covered 7 2 = true ∧ c.state.1.storedRoot 2 = forkAtOne.rootAt skipView.head 2 := by
  have hboot : playFork atStart (turnOf skipView) = some resumed := rfl
  have hpass : (proceedFork resumed (turnOf skipView)).any (fun y =>
      y.1.result? == some (.live [7] (some (.ok (.collected none))) (some 2)) && y.2.1.covered 7 2) = true := by
    decide +kernel
  obtain ⟨y, hy, hcheck⟩ := (Option.any_eq_true _ _).1 hpass
  simp only [Bool.and_eq_true, beq_iff_eq] at hcheck
  have hhosts : Turn.Hosts (unmissedPasses forkAtOne lagTwo) fun _ _ => true := hosts_passes fun _ _ _ _ => trivial
  have hbegin : ∀ m s, Unmissed lagTwo m s skipView → (unmissedPasses forkAtOne lagTwo).begins ((), .live) m s skipView
      ((turnOf skipView).program lagTwo m) (s.1, ()) :=
    fun m s hst => ⟨⟨rfl, hst⟩, Turn.begins_program .., trivial, rfl⟩
  have h1 : (unmissedPasses forkAtOne lagTwo).Reach (started sevenActive ())
      ((started sevenActive ()).set ((), .live) (.idle resumed.1) resumed.2) :=
    Turn.reach_play (t := turnOf skipView) (x := atStart) hhosts (fun _ => hbegin _ _ fun _ _ _ h => by cases h) rfl rfl hboot
  have hstart : Unmissed lagTwo resumed.1 resumed.2 skipView := by
    intro _ _ _ _ slot _ _
    refine Or.inl fun v hv => ?_
    cases hv
  let c := ((started sevenActive ()).set ((), .live) (.idle resumed.1) resumed.2).set ((), .live) (.running skipView y.1) y.2
  have hr : (unmissedPasses forkAtOne lagTwo).Reach (started sevenActive ()) c :=
    h1.trans (Turn.reach_proceed (t := turnOf skipView) (x := resumed) hhosts (fun _ => hbegin _ _ hstart) (Config.set_proc ..) rfl hy)
  have hproc : c.proc ((), .live) = .running skipView (.pure (.live [7] (some (.ok (.collected none))) (some 2))) := by
    rw [Config.set_proc, Prog.result?_eq_some hcheck.1]
  have hwindow := covered_canonical forkAtOne lagTwo sevenActive hr hproc
  exact ⟨c, some 2, hr, hproc, hcheck.2, hwindow 7 2 (by decide) (by decide) hcheck.2⟩

/-- The slot 2 of the first chain is skipped below a head that is never stored; after the chain is
replaced, its coverage still stands without the block the new head has there. -/
theorem replaced_skip_stays_covered : ∃ c cursor, (anyPasses forkAtOne lagTwo).Reach (started sevenActive ()) c ∧
    c.proc ((), .live) = .running filledView (.pure (.live [7] (some (.ok (.collected none))) cursor)) ∧
    filledView.floor lagTwo ≤ 2 ∧ 2 ≤ filledView.target lagTwo ∧ c.state.1.covered 7 2 = true ∧
    c.state.1.storedRoot 2 = none ∧ forkAtOne.rootAt filledView.head 2 = some ⟨202⟩ := by
  have hplay : (([turnOf skipView, turnOf skipView].foldlM playFork atStart).bind fun x =>
      proceedFork x (turnOf filledView)).any (fun y =>
        y.1.result? == some (.live [7] (some (.ok (.collected none))) (some 3)) && y.2.1.covered 7 2 &&
          y.2.1.storedRoot 2 == none) = true := by decide +kernel
  obtain ⟨y, hy, hcheck⟩ := (Option.any_eq_true _ _).1 hplay
  simp only [Bool.and_eq_true, beq_iff_eq] at hcheck
  have hr : (anyPasses forkAtOne lagTwo).Reach (started sevenActive ())
      ((started sevenActive ()).set ((), .live) (.running filledView y.1) y.2) :=
    Turn.reach_turns (hosts_passes fun _ _ _ _ => trivial) (opens_passes fun _ _ _ => trivial) _ rfl rfl hy
  refine ⟨_, some 3, hr, ?_, by decide, by decide, hcheck.1.2, hcheck.2, by decide +kernel⟩
  rw [Config.set_proc, Prog.result?_eq_some hcheck.1.1]

end BeaconIndexer
