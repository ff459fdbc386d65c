/-
Runs of reconcile passes of one instance against coherent nodes: the chain may be replaced between
two passes, and the instance may be restarted with any tracked set. An invariant that every
promised statement keeps holds in every reachable state.
-/
import BeaconIndexer.Proofs.Pass
import BeaconIndexer.Turns

namespace BeaconIndexer

open Effects Ancestry Relational

variable {spec : ChainSpec}

/-! ## The registry -/

/-- The registry has the validator active in the epoch. -/
def activeIn (registry : Table Nat ValidatorRow) (v e : Nat) : Prop :=
  ∃ row, registry.get v = some row ∧ row.activeAt e = true

/-- The validators are active as they were registered. -/
def Db.RegisteredAs (registry : Table Nat ValidatorRow) (db : Db) : Prop :=
  ∀ v e, activeIn db.validators v e ↔ activeIn registry v e

theorem mem_activeValidatorsAt {db : Db} {vs : List Nat} {e v : Nat} :
    v ∈ db.activeValidatorsAt vs e ↔ v ∈ vs ∧ activeIn db.validators v e := by
  unfold Db.activeValidatorsAt activeIn
  simp only [List.mem_map, Prod.exists, Table.mem_select, Bool.and_eq_true, List.contains_iff_mem]
  constructor
  · rintro ⟨_, row, ⟨hrow, hv, hact⟩, rfl⟩
    exact ⟨hv, row, hrow, hact⟩
  · rintro ⟨hv, row, hrow, hact⟩
    exact ⟨v, row, ⟨hrow, hv, hact⟩, rfl⟩

theorem completePairs_active (ks : List (Nat × Nat)) (v e : Nat) : ∀ d : Db,
    activeIn (ks.foldl (fun d k => d.completePair spec k.1 k.2) d).validators v e ↔ activeIn d.validators v e := by
  induction ks with
  | nil => exact fun d => Iff.rfl
  | cons k ks ih =>
    intro d
    rw [List.foldl_cons, ih]
    unfold activeIn
    simp only [Db.completePair, Table.get_update, Option.map_eq_some_iff]
    constructor
    · rintro ⟨_, ⟨row, hrow, rfl⟩, hact⟩
      refine ⟨row, hrow, ?_⟩
      split at hact
      · exact hact
      · exact hact
    · rintro ⟨row, hrow, hact⟩
      refine ⟨_, ⟨row, hrow, rfl⟩, ?_⟩
      split
      · exact hact
      · exact hact

theorem Db.RegisteredAs.exec {L : Ledger spec} {V : View L} {cfg : LiveConfig spec} {tracked : List Nat}
    {reg : Nat → Nat → Prop} {op : DbOp} {db : Db} {now : Nat} {registry : Table Nat ValidatorRow}
    (h : db.RegisteredAs registry) (hp : LivePromise V cfg tracked reg op db) :
    (op.exec spec now db).RegisteredAs registry := by
  cases op with
  | promoteCollected p => exact fun v e => (completePairs_active _ v e _).trans (h v e)
  | markComplete vs e => exact hp.elim
  | upsertValidator v a x => exact hp.elim
  | _ => exact h

section Passes

variable {L : Ledger spec} {Past : Type} (admits : Past → View L → Past → Prop) (cfg : LiveConfig spec)

/-- The live worker of one instance, on passes whose start meets `start` and statements that meet
`cond`. -/
def passes (start : Memory → Db × Past → View L → Prop) (cond : View L → DbOp → Db × Past → Prop) :
    System indexer (Unit × Role) (View L) Memory (Db × Past) :=
  ((indexers spec (L.network Past admits) (fun _ : Unit => cfg) fun _ _ => True).restrictStart fun i m s w =>
    i.2 = .live ∧ start m s w).restrict fun _ w e s => match e with
      | .db op => cond w op s
      | .node _ => True

/-- All workers stopped, the validator registry loaded and nothing else stored. -/
def started (registry : Table Nat ValidatorRow) (past : Past) : Config indexer (Unit × Role) (View L) Memory (Db × Past) :=
  ⟨({ Db.empty with validators := registry }, past), fun _ => .idle .stopped⟩

/-- What a view's pass finds: some past admitted the view. -/
def Entered (V : View L) (past : Past) : Prop := ∃ before, admits before V past

variable {admits cfg} {start : Memory → Db × Past → View L → Prop} {cond : View L → DbOp → Db × Past → Prop}
  {reg : Nat → Nat → Prop} {I : Db × Past → Prop}

/-- Every promised statement and every change of view keep `I`. -/
structure PassInvariant (admits : Past → View L → Past → Prop) (cfg : LiveConfig spec) (cond : View L → DbOp → Db × Past → Prop)
    (reg : Nat → Nat → Prop) (I : Db × Past → Prop) : Prop where
  grounded : ∀ {s}, I s → Grounded L s.1
  registered : ∀ {s vs e v}, I s → (v ∈ s.1.activeValidatorsAt vs e ↔ v ∈ vs ∧ reg v e)
  starts : ∀ {db past V past'}, I (db, past) → admits past V past' → I (db, past')
  keeps : ∀ {V tracked op db past now}, I (db, past) → Entered admits V past → LivePromise V cfg tracked reg op db →
    cond V op (db, past) → I (op.exec spec now db, past)

variable (admits cfg) in
/-- The live worker promises its statements; no other worker runs. -/
def promising (start : Memory → Db × Past → View L → Prop) (cond : View L → DbOp → Db × Past → Prop)
    (reg : Nat → Nat → Prop) (post : View L → Memory → Db × Past → Prop) : (passes admits cfg start cond).Discipline where
  rely i s s' := i.2 = .live → s' = s
  guar i w e s := match e with
    | .db op => i.2 = .live ∧ Entered admits w s.2 ∧ ∃ tracked, LivePromise w cfg tracked reg op s.1
    | .node _ => True
  post _ w m s := post w m s
  idle _ _ _ := True
  refl _ _ _ := rfl
  trans _ := fun h h' hi => (h' hi).trans (h hi)

/-- What a pass with this tracked set promises. -/
def passGuar (admits : Past → View L → Past → Prop) (cfg : LiveConfig spec) (reg : Nat → Nat → Prop) (V : View L)
    (tracked : List Nat) : Effect → Db × Past → Prop
  | .db op, s => Entered admits V s.2 ∧ LivePromise V cfg tracked reg op s.1
  | .node _, _ => True

variable {V : View L}

/-- A statement of a run, undisturbed. -/
theorem passes_sem {op : DbOp} {s s' : Db × Past} {r : Except Error op.Answer}
    (hs : (passes admits cfg start cond).sem ((), .live) V (.db op) s r s') : cond V op s ∧ s'.2 = s.2 ∧
      ((∃ now, r = .ok (op.answer spec now s.1) ∧ s'.1 = op.exec spec now s.1) ∨
        ((∃ m, r = .error (.database m)) ∧ s'.1 = s.1)) := by
  obtain ⟨hc, hsem, hp⟩ := hs
  refine ⟨hc, hp, ?_⟩
  rcases hsem with ⟨now, hr, hdb⟩ | ⟨m, hr, hdb⟩
  · exact Or.inl ⟨now, hr, hdb⟩
  · exact Or.inr ⟨⟨m, hr⟩, hdb⟩

variable (hI : PassInvariant admits cfg cond reg I) {post : View L → Memory → Db × Past → Prop}
include hI

theorem PassInvariant.setting (start : Memory → Db × Past → View L → Prop) (post : View L → Memory → Db × Past → Prop)
    (V : View L) (tracked : List Nat) :
    PassSetting ((((promising admits cfg start cond reg post).contract ((), .live) V).withGuar
      (passGuar admits cfg reg V tracked)).within fun s => I s ∧ Entered admits V s.2) (fun s => s.1.1) V cfg tracked reg where
  faces := ⟨fun _ _ => trivial, fun hs => hs.2.1.1⟩
  promise _ s hp := ⟨s.2.2, hp⟩
  promised hg := hg.2
  db hs := (passes_sem hs).2.2
  node hs := hs.2.1.2
  rely {s s'} hr := by
    have hr : s'.1 = s.1 := hr rfl
    rw [hr]
    exact LiveRely.refl _
  registered {vs e s s' r} hs v := by
    rcases (passes_sem hs).2.2 with ⟨now, hr, _⟩ | ⟨⟨m, hr⟩, _⟩
    · cases hr
      exact hI.registered s.2.1
    · cases hr
  grounded s := hI.grounded s.2.1

/-- One pass from a state of the invariant. -/
theorem PassInvariant.pass (tracked : List Nat) (cursor : Cursor) {s : Db × Past} (hs : I s) (he : Entered admits V s.2) :
    ((promising admits cfg start cond reg post).contract ((), .live) V).Safe (pass spec cfg tracked cursor)
      (fun m s' => (∀ t scan c, m = .live t (some (.ok (.collected scan))) c → Collecting V cfg cursor s.1 s'.1) ∧
        ∀ J : Db → Prop, (∀ op now d, LivePromise V cfg tracked reg op d → J d → J (op.exec spec now d)) → J s.1 → J s'.1) s := by
  have h := hI.setting start post V tracked
  refine Contract.Safe.weaken (g := passGuar admits cfg reg V tracked) ?_ (Contract.Safe.of_within
    (I := fun s => I s ∧ Entered admits V s.2) ?_ ?_ ⟨hs, he⟩ ?_)
  · rintro (q | op) s' hg
    · trivial
    · exact ⟨rfl, hg.1, tracked, hg.2⟩
  · rintro s₁ s₂ hr hs₁
    obtain rfl : s₂ = s₁ := hr rfl
    exact hs₁
  · rintro (q | op) s₁ r s₂ hg hsem ⟨hs₁, he₁⟩
    · have hdb : s₂ = s₁ := Prod.ext hsem.2.1.2 hsem.2.2
      rw [hdb]
      exact ⟨hs₁, he₁⟩
    · obtain ⟨hc, hp, hdb⟩ := passes_sem hsem
      rw [hp]
      refine ⟨?_, he₁⟩
      obtain ⟨db₂, past₂⟩ := s₂
      obtain rfl : past₂ = s₁.2 := hp
      rcases hdb with ⟨now, _, rfl⟩ | ⟨_, rfl⟩
      · exact hI.keeps hs₁ he₁ hg.2 hc
      · exact hs₁
  · refine Contract.Safe.frame (I := fun (s' : {s // I s ∧ Entered admits V s.2}) => ∀ J : Db → Prop, (∀ op now d,
      LivePromise V cfg tracked reg op d → J d → J (op.exec spec now d)) → J s.1 → J s'.1.1) ?_ ?_ ?_ fun _ _ hJ => hJ
    · rintro s₁ s₂ hr hs₁
      obtain hr : s₂.1 = s₁.1 := hr rfl
      rw [hr]
      exact hs₁
    · rintro (q | op) s₁ r s₂ hg hsem hs₁ J hJ hs₀
      · rw [hsem.2.1.2]
        exact hs₁ J hJ hs₀
      · rcases (passes_sem hsem).2.2 with ⟨now, _, hdb⟩ | ⟨_, hdb⟩
        · rw [hdb]
          exact hJ op now _ hg.2 (hs₁ J hJ hs₀)
        · rw [hdb]
          exact hs₁ J hJ hs₀
    · refine (h.reconcilePass cursor ⟨s, hs, he⟩).seal fun r s' hr s'' hr' t scan c hm => ?_
      obtain hr' : s''.1 = s'.1 := hr' rfl
      obtain ⟨out | e, c'⟩ := r
      · cases hm
      · cases hm
        rw [hr']
        exact hr scan rfl

/-- The invariant holds along every run, and every finished pass leaves what it promises. -/
theorem PassInvariant.sound (hpost : ∀ {V tracked cursor m s s' last}, I s → Entered admits V s.2 →
      (∃ past, start (.live tracked last cursor) (s.1, past) V) →
      (∀ t scan c, m = .live t (some (.ok (.collected scan))) c → Collecting V cfg cursor s.1 s'.1) →
      (∀ J : Db → Prop, (∀ op now d, LivePromise V cfg tracked reg op d → J d → J (op.exec spec now d)) → J s.1 → J s'.1) →
      post V m s') (hboot : ∀ {V tracked c s}, post V (.live tracked none c) s) (hstop : ∀ {V s}, post V .stopped s) :
    (passes admits cfg start cond).Sound (promising admits cfg start cond reg post) I where
  begins := by
    rintro ⟨⟨⟩, role⟩ m ⟨db, past⟩ V p ⟨db', past'⟩ hs _ ⟨⟨hrole, hst⟩, hb, hadm, hdb⟩
    obtain rfl : db' = db := hdb
    obtain rfl : role = .live := hrole
    have hs' : I (db', past') := hI.starts hs hadm
    refine ⟨hs', ?_, fun j hne hj => (hne (Prod.ext rfl hj)).elim⟩
    · cases hb with
      | @boot tracked _ =>
        -- resuming reads the stored tip and begins without a pass
        have hread : LivePromise V cfg [] reg (.processedTip tracked) db' := trivial
        have htip : ((promising admits cfg start cond reg post).contract ((), .live) V).Ok
            (resume tracked) (db', past') (fun _ _ => True) fun _ _ => True := by
          refine .ask (fun s₁ hr => ?_) fun s₁ r s₂ s₃ _ _ _ => ?_
          · obtain rfl : s₁ = (db', past') := hr rfl
            exact ⟨rfl, ⟨past, hadm⟩, [], hread⟩
          · cases (id r : Except Error (Option Nat)) <;> trivial
        refine htip.seal fun r s _ => ?_
        cases r with
        | ok c => exact fun _ _ => hboot
        | error e => exact fun _ _ => hstop
      | @pass tracked last cursor _ =>
        refine Contract.Safe.mono (fun m s' hq => ?_) (hI.pass tracked cursor hs' ⟨past, hadm⟩)
        exact hpost hs' ⟨past, hadm⟩ ⟨past, hst⟩ hq.1 hq.2
  acts := by
    rintro ⟨⟨⟩, role⟩ V (q | op) ⟨db, past⟩ r ⟨db', past'⟩ hs hg ⟨hc, hsem, hp⟩
    · obtain ⟨_, rfl⟩ := hsem
      obtain rfl : past' = past := hp
      exact ⟨hs, fun _ _ _ => rfl⟩
    · obtain ⟨hrole, he, tracked, hprom⟩ := hg
      obtain rfl : past' = past := hp
      obtain rfl : role = .live := hrole
      refine ⟨?_, fun j hne hj => (hne (Prod.ext rfl hj)).elim⟩
      rcases hsem with ⟨now, _, rfl⟩ | ⟨m, _, rfl⟩
      · exact hI.keeps hs he hprom hc
      · exact hs
  finish _ _ := trivial
  restart _ _ := trivial
  idle _ _ := trivial

/-- The invariant holds in every state a run reaches. -/
theorem PassInvariant.reach {registry : Table Nat ValidatorRow} {past : Past}
    {c : Config indexer (Unit × Role) (View L) Memory (Db × Past)} (hr : (passes admits cfg start cond).Reach (started registry past) c)
    (h : I ({ Db.empty with validators := registry }, past)) : I c.state := by
  have hsound : (passes admits cfg start cond).Sound (promising admits cfg start cond reg fun _ _ _ => True) I :=
    hI.sound (fun _ _ _ _ _ => trivial) trivial trivial
  exact (hsound.reach hr ⟨h, fun _ => trivial⟩).1

end Passes

section Turns

variable {L : Ledger spec} {Past : Type} {admits : Past → View L → Past → Prop} {cfg : LiveConfig spec}
  {start : Memory → Db × Past → View L → Prop} {cond : View L → DbOp → Db × Past → Prop} {ok : Effect → Db × Past → Bool}

theorem hosts_passes (hok : ∀ V op s, ok (.db op) s = true → cond V op s) : Turn.Hosts (passes admits cfg start cond) ok :=
  ((Turn.hosts_indexers (fun _ => cfg) ok).restrictStart _).restrict (fun _ _ _ => trivial) hok

theorem opens_passes (hst : ∀ m s V, start m s V) : Turn.Opens (passes admits cfg start cond) admits cfg :=
  fun _ _ _ _ _ hb hadm => ⟨⟨rfl, hst _ _ _⟩, hb, hadm, rfl⟩

end Turns

end BeaconIndexer
