/-
Gaps and completions (`live_gaps`, `completed_scans`): every promotion lists each finalized,
tracked and active pair that is not complete as a gap. That no completed pair is listed as well
rests on two conditions the statements do not check.
-/
import BeaconIndexer.Db.Run
import BeaconIndexer.Proofs.Issued
import BeaconIndexer.Turns

namespace BeaconIndexer

open Effects Relational

/-- No completed pair is listed as a gap. -/
def Db.Separate (db : Db) : Prop := ∀ v e, db.completed v e = true → db.liveGaps.has (v, e) = false

/-- Every tracked and active pair up to the completion target is either complete or a gap. -/
def Db.Partitioned (db : Db) (completionTarget : Nat) : Prop :=
  ∀ v started row e, db.liveTrackingStart.get v = some started → db.validators.get v = some row →
    started ≤ e → e ≤ completionTarget → row.activeAt e = true →
    (db.completed v e = true ∧ db.liveGaps.has (v, e) = false) ∨
    (db.completed v e = false ∧ db.liveGaps.has (v, e) = true)

/-- No listed gap is completed by promotion, and no job of a completed pair expires. -/
def GapsRespected (spec : ChainSpec) : DbOp → Db → Prop
  | .promoteCollected p, db => ∀ k ∈ db.readyPairs spec p, db.liveGaps.has k = false
  | .expireJobs minEpoch, db => ∀ j row, db.liveJobs.get j = some row → row.status = .pending → j.epoch < minEpoch →
      db.completed j.validator j.epoch = false
  | _, _ => True

variable {spec : ChainSpec}

/-! ## Steps -/

theorem has_putAll {κ ν : Type} [DecidableEq κ] (t : Table κ ν) (ks : List κ) (v : ν) (k : κ) :
    (t.putAll ks v).has k = (decide (k ∈ ks) || t.has k) := by
  unfold Table.has
  rw [Table.get_putAll]
  by_cases hk : k ∈ ks
  · simp [hk]
  · simp [hk]

theorem promoteCollected_gap (p : Promotion) (db : Db) (k : Nat × Nat) :
    (db.promoteCollected spec p).2.liveGaps.has k =
      (decide (k ∈ ((db.promoteEvidence spec p).completeReady spec p).incomplete p) || db.liveGaps.has k) := by
  unfold Table.has
  rw [Db.promoteCollected_gaps]
  by_cases hk : k ∈ ((db.promoteEvidence spec p).completeReady spec p).incomplete p
  · simp only [hk, if_true, decide_true, Option.isSome_some, Bool.true_or]
  · simp only [hk, if_false, decide_false, Bool.false_or]

/-- What counts as incomplete after the completions is judged on the final completions. -/
theorem completed_not_incomplete {p : Promotion} {db : Db} {v e : Nat}
    (h : (v, e) ∈ ((db.promoteEvidence spec p).completeReady spec p).incomplete p) :
    (db.promoteCollected spec p).2.completed v e = false := by
  obtain ⟨_, _, _, _, _, _, _, _, hc⟩ := (Db.mem_incomplete _ p).1 h
  exact hc

theorem Db.Separate.promote {p : Promotion} {db : Db} (hs : db.Separate) (hok : GapsRespected spec (.promoteCollected p) db) :
    (db.promoteCollected spec p).2.Separate := by
  intro v e hc
  rw [promoteCollected_gap, Bool.or_eq_false_iff, decide_eq_false_iff_not]
  refine ⟨fun hi => ?_, ?_⟩
  · rw [completed_not_incomplete hi] at hc
    cases hc
  · rw [Db.promoteCollected_completed, Bool.or_eq_true] at hc
    rcases hc with hc | hc
    · exact hs v e hc
    · exact hok _ (List.contains_iff_mem.1 hc)

theorem Db.Separate.expire {minEpoch : Nat} {db : Db} (hs : db.Separate) (hok : GapsRespected spec (.expireJobs minEpoch) db) :
    (db.expireJobs minEpoch).Separate := by
  intro v e hc
  change (db.liveGaps.putAll _ _).has (v, e) = false
  rw [has_putAll, Bool.or_eq_false_iff, decide_eq_false_iff_not]
  refine ⟨fun hm => ?_, hs v e hc⟩
  obtain ⟨⟨j, row⟩, hsel, he⟩ := List.mem_map.1 hm
  obtain ⟨hget, hcond⟩ := Table.mem_select.1 hsel
  obtain ⟨rfl, rfl⟩ := Prod.mk.inj he
  simp only [Bool.and_eq_true, decide_eq_true_eq, beq_iff_eq] at hcond
  have : db.completed j.validator j.epoch = true := hc
  rw [show db.completed j.validator j.epoch = false from hok j row hget hcond.2 hcond.1] at this
  cases this

/-- Every statement that meets the condition keeps gaps and completions apart. -/
theorem Db.Separate.exec {now : Nat} {op : DbOp} {db : Db} (hs : db.Separate) (hok : GapsRespected spec op db) :
    (op.exec spec now db).Separate := by
  by_cases hg : op.writesGaps = true
  · cases op with
    | promoteCollected p => exact hs.promote hok
    | expireJobs minEpoch => exact hs.expire hok
    | markComplete vs epoch =>
      intro v e hc
      change (db.liveGaps.deleteWhere _).has (v, e) = false
      have hc : (db.markComplete vs epoch).completed v e = true := hc
      rw [Db.markComplete_completed, Bool.or_eq_true] at hc
      rw [Table.has_eq_false, Table.get_deleteWhere]
      rcases hc with hc | hc
      · rw [Table.has_eq_false.1 (hs v e hc)]; rfl
      · cases db.liveGaps.get (v, e) with
        | none => rfl
        | some reason => simp only [Option.filter, hc, Bool.not_true, Bool.false_eq_true, if_false]
    | registerTrackingStart vs epoch =>
      intro v e hc
      change (db.liveGaps.deleteWhere _).has (v, e) = false
      rw [Table.has_eq_false, Table.get_deleteWhere, Table.has_eq_false.1 (hs v e hc)]
      rfl
    | _ => cases hg
  · simp only [Bool.not_eq_true] at hg
    intro v e hc
    rw [DbOp.exec_gaps hg]
    refine hs v e ?_
    have hcomp : op.completes = false := by cases op <;> first | rfl | cases hg
    unfold Db.completed at hc ⊢
    rwa [DbOp.exec_completed hcomp] at hc

/-- A promotion for every tracked validator leaves no pair unaccounted for. -/
theorem promote_accounts {p : Promotion} {db : Db} (hv : ∀ v, db.liveTrackingStart.has v = true → v ∈ p.validators)
    (hs : (db.promoteCollected spec p).2.Separate) :
    (db.promoteCollected spec p).2.Partitioned p.completionTarget := by
  intro v started row e ht hrow hst hle hact
  cases hc : (db.promoteCollected spec p).2.completed v e with
  | true => exact Or.inl ⟨rfl, hs v e hc⟩
  | false =>
    refine Or.inr ⟨rfl, ?_⟩
    rw [promoteCollected_gap, Bool.or_eq_true, decide_eq_true_eq]
    have ht' : db.liveTrackingStart.get v = some started := by
      rw [← (db.promoteCollected_frame spec p).2.2.1]; exact ht
    refine Or.inl ((Db.mem_incomplete _ p).2 ⟨started, row, ht, hrow, hv v ?_, hst, hle, hact, hc⟩)
    exact Table.has_iff.2 ⟨started, ht'⟩

/-! ## Runs -/

/-- The live worker's statements change live tracking only at the start of a pass, and it promotes
for every tracked validator; no other worker does either. -/
def Bookkeeping : Role → DbOp → Db → Prop
  | .live, .promoteCollected p, db => ∀ v, db.liveTrackingStart.has v = true → v ∈ p.validators
  | .live, _, _ => True
  | _, .promoteCollected _, _ => False
  | _, op, _ => op.writesTracking = false

/-- One instance whose statements all meet `GapsRespected`. -/
def respectful (spec : ChainSpec) (net : Network) (cfg : Unit → LiveConfig spec) :
    System indexer (Unit × Role) net.View Memory (Db × net.Past) :=
  (indexers spec net cfg fun _ _ => True).restrict fun _ _ e s => match e with
    | .db op => GapsRespected spec op s.1
    | .node _ => True

variable {net : Network} {cfg : Unit → LiveConfig spec}

def bookkeeping (spec : ChainSpec) (net : Network) (cfg : Unit → LiveConfig spec) : (respectful spec net cfg).Discipline where
  rely i s s' := i.2 = .live → s'.1.liveTrackingStart = s.1.liveTrackingStart
  guar i _ e s := match e with
    | .db op => Bookkeeping i.2 op s.1
    | .node _ => True
  post _ _ _ _ := True
  idle _ _ _ := True
  refl _ _ _ := rfl
  trans _ := fun h h' hi => (h' hi).trans (h hi)

theorem bookkeeping_grants (spec : ChainSpec) (cfg : Unit → LiveConfig spec) (i : Unit × Role) (w : net.View)
    {G : DbOp → Prop} (hG : ∀ op (s : Db × net.Past), G op → Bookkeeping i.2 op s.1) :
    Grants ((bookkeeping spec net cfg).contract i w) G fun _ => True where
  node _ _ := trivial
  db op s hop := hG op s hop
  active h := indexerSem_active h.2.1
  eligible h := indexerSem_eligible h.2.1
  sync _ _ _ _ := trivial

theorem bookkeeping_read {op : DbOp} {db : Db} (h : op.reads = true) : Bookkeeping .live op db := by
  cases op <;> trivial

theorem bookkeeping_live {tracked : List Nat} {own : Nat → Prop} {op : DbOp} {db : Db}
    (h : LiveIssue spec tracked own op) : Bookkeeping .live op db := by
  cases h with
  | read hr => exact bookkeeping_read hr
  | _ => trivial

/-- The statement leaves live tracking alone. -/
def KeepsTracking : Effect → Db × net.Past → Prop
  | .db op, _ => op.writesTracking = false
  | .node _, _ => True

/-- A part of the live worker's program that leaves tracking alone keeps what is known of it. -/
theorem keeps_tracked {w : net.View} {α : Type} {x : Task α} {s : Db × net.Past} {P : α → Prop} {indices : List Nat}
    (hx : (((bookkeeping spec net cfg).contract ((), .live) w).strengthen KeepsTracking).Always x P)
    (hs : ∀ v, s.1.liveTrackingStart.has v = true → v ∈ indices) :
    ((bookkeeping spec net cfg).contract ((), .live) w).Ok x s
      (fun a s' => P a ∧ ∀ v, s'.1.liveTrackingStart.has v = true → v ∈ indices) fun _ _ => True := by
  refine Contract.Ok.of_strengthen (g := KeepsTracking) (Contract.Ok.mono (Contract.Ok.frame
    (I := fun s => ∀ v, s.1.liveTrackingStart.has v = true → v ∈ indices) ?_ ?_ (hx s) hs)
    (fun _ _ h => h) fun _ _ _ => trivial)
  · intro s s' hr hi
    rw [hr rfl]; exact hi
  · rintro (q | op) s r s' ⟨_, hk⟩ ⟨_, hsem, _⟩ hi
    · rw [hsem.2]; exact hi
    · rcases hsem with ⟨now, _, hdb⟩ | ⟨m, _, hdb⟩
      · rw [hdb, DbOp.exec_tracking hk]; exact hi
      · rw [hdb]; exact hi

/-- The finality step promotes for all validators tracked when it runs. -/
theorem finalize_bookkeeping (w : net.View) (checkpoint : Checkpoint) (resolved : ResolvedChain) :
    ((bookkeeping spec net cfg).contract ((), .live) w).Always (finalizeCollectedEvidence spec checkpoint resolved)
      fun _ => True := by
  let quiet : DbOp → Prop := fun op => op.reads = true ∨ (∃ v e w, op = .upsertAttestationDuty v e w) ∨
    ∃ v e d, op = .repairFinalizedInclusion v e d
  have hbook : ∀ op (s : Db × net.Past), quiet op → Bookkeeping .live op s.1 := by
    rintro op s (hop | ⟨v, e, w, rfl⟩ | ⟨v, e, d, rfl⟩)
    · exact bookkeeping_read hop
    · trivial
    · trivial
  have hkeeps : ∀ op (s : Db × net.Past), quiet op → KeepsTracking (.db op) s := by
    rintro op s (hop | ⟨v, e, w, rfl⟩ | ⟨v, e, d, rfl⟩)
    · cases op <;> first | rfl | cases hop
    · rfl
    · rfl
  have h' := bookkeeping_grants spec cfg ((), .live) w hbook
  have h := h'.strengthen (fun _ _ => trivial) hkeeps
  unfold finalizeCollectedEvidence
  split
  · refine .bind (h'.getHeader _) fun header _ => .check fun _ =>
      .bind (h'.statement (Or.inl rfl)) fun blocks _ => ?_
    dsimp only
    split
    · intro s
      refine .bind (Contract.Ok.imp (Q := fun indices s' => ∀ v, s'.1.liveTrackingStart.has v = true → v ∈ indices)
        ?_ fun indices s' hs => ?_)
      · refine .ask (fun _ _ => trivial) fun s₁ r s₂ s₃ _ hsem hrely => ?_
        rcases hsem.2.1 with ⟨now, rfl, hdb⟩ | ⟨m, rfl, _⟩
        · intro v hv
          rw [hrely rfl, hdb] at hv
          obtain ⟨started, hv⟩ := Table.has_iff.1 hv
          exact (List.mem_insertionSort _).2 (List.mem_map.2 ⟨_, Table.mem_rows.2 hv, rfl⟩)
        · trivial
      · refine .bind ((keeps_tracked (h.statement (Or.inl rfl)) hs).imp fun slots s' ⟨_, hs⟩ => ?_)
        refine .bind ((keeps_tracked (h.repairDetails spec _ _ _ (fun v e w _ => Or.inr (Or.inl ⟨v, e, w, rfl⟩))
          fun v e d => Or.inr (Or.inr ⟨v, e, d, rfl⟩)) hs).imp fun _ s' ⟨_, hs⟩ => ?_)
        refine .bind (.ask (fun s₁ hr v hv => hs v ?_) fun s₁ r s₂ s₃ _ _ _ => ?_)
        · rwa [hr rfl] at hv
        · cases (id r : Except Error Nat) with
          | ok n => exact .pure fun _ _ => trivial
          | error e => trivial
    · exact .pure trivial
  · exact .pure trivial

/-- A worker's program keeps its part of the bookkeeping. -/
theorem begins_bookkeeping {i : Unit × Role} {w : net.View} {m : Memory} {p : Prog indexer Memory}
    (hb : Begins spec (cfg i.1) (fun _ => True) i.2 m p) (s : Db × net.Past) :
    ((bookkeeping spec net cfg).contract i w).Safe p (fun _ _ => True) s := by
  obtain ⟨⟨⟩, role⟩ := i
  cases hb with
  | @boot tracked _ =>
    have h := bookkeeping_grants spec cfg ((), .live) w fun op _ hop => bookkeeping_read hop
    have hread : DbOp.reads (.processedTip tracked) = true := rfl
    refine (h.statement hread s).seal fun r s _ => ?_
    cases r <;> exact fun _ _ => trivial
  | @pass tracked last cursor _ =>
    have h := bookkeeping_grants spec cfg ((), .live) w
      (G := LiveIssue spec tracked fun _ => True) fun op _ hop => bookkeeping_live hop
    exact (h.reconcilePass spec (fun _ _ => trivial) (fun _ h => h) (finalize_bookkeeping w) (cfg ()) cursor s).seal
      fun r _ _ _ _ => trivial
  | @scan n _ epoch validators mode _ =>
    have h := bookkeeping_grants spec cfg ((), .archive n) w
      (G := ScanIssue validators epoch fun _ => True) fun op _ hop => by cases hop <;> rfl
    exact (h.scanEpoch spec (fun _ h => h) mode s).seal fun r _ _ _ _ => trivial
  | @refresh _ v a x =>
    have h := bookkeeping_grants spec cfg ((), .metadata) w
      (G := fun op => op = .upsertValidator v a x) fun op _ hop => by subst hop; rfl
    exact (h.statement rfl s).seal fun r _ _ _ _ => trivial

theorem bookkeeping_sound (spec : ChainSpec) (net : Network) (cfg : Unit → LiveConfig spec) :
    (respectful spec net cfg).Sound (bookkeeping spec net cfg) fun s => s.1.Separate where
  begins hi _ hb := by
    obtain ⟨hb, _, hs⟩ := hb
    rw [hs]
    exact ⟨hi, begins_bookkeeping hb _, fun _ _ _ => congrArg Db.liveTrackingStart hs⟩
  acts := by
    rintro i w (q | op) s r s' hi hg ⟨hcond, hsem, _⟩
    · rw [hsem.2]; exact ⟨hi, fun _ _ _ => congrArg Db.liveTrackingStart hsem.2⟩
    · rcases hsem with ⟨now, _, hdb⟩ | ⟨m, _, hdb⟩
      · refine ⟨by rw [hdb]; exact hi.exec hcond, fun j hj hlive => ?_⟩
        rw [hdb]
        refine DbOp.exec_tracking ?_
        -- only the live worker changes tracking
        obtain ⟨⟨⟩, role⟩ := i
        obtain ⟨⟨⟩, role'⟩ := j
        cases hlive
        cases role with
        | live => exact absurd rfl hj
        | archive n => cases op <;> first | exact hg | cases hg
        | metadata => cases op <;> first | exact hg | cases hg
      · rw [hdb]; exact ⟨hi, fun _ _ _ => congrArg Db.liveTrackingStart hdb⟩
  finish _ _ := trivial
  restart _ _ := trivial
  idle _ _ := trivial

/-- Outside the two defects, gaps and completions partition the tracked, finalized and active
pairs after every promotion. -/
theorem gaps_partition (spec : ChainSpec) (net : Network) (cfg : Unit → LiveConfig spec) {past : net.Past}
    {c : Configuration Unit net} (hr : (respectful spec net cfg).Reach (initial Unit net past) c) {i : Unit × Role}
    {w : net.View} {p : Promotion} {k : Except Error Nat → Prog indexer Memory} {n : Nat} {s' : Db × net.Past}
    (hp : c.proc i = .running w (.call (.db (.promoteCollected p)) k))
    (hs : (respectful spec net cfg).sem i w (.db (.promoteCollected p)) c.state (.ok n) s') :
    s'.1.Partitioned p.completionTarget ∧ s'.1.Separate := by
  obtain ⟨hsep, hproc⟩ := (bookkeeping_sound spec net cfg).reach hr ⟨fun v e h => by
    simp [initial, Db.completed, Db.empty, Table.has] at h, fun _ => trivial⟩
  have hi := hproc i
  rw [hp] at hi
  obtain ⟨hg, _⟩ := hi c.state ((bookkeeping spec net cfg).refl i _)
  obtain ⟨hcond, hsem, _⟩ := hs
  rcases hsem with ⟨now, _, hdb⟩ | ⟨m, hm, _⟩
  · have hs' : s'.1.Separate := by rw [hdb]; exact hsep.exec hcond
    refine ⟨?_, hs'⟩
    rw [hdb] at hs' ⊢
    refine promote_accounts ?_ hs'
    obtain ⟨⟨⟩, role⟩ := i
    cases role with
    | live => exact hg
    | archive n => cases hg
    | metadata => cases hg
  · cases hm

/-! ## Late rewards -/

/-- `GapsRespected`, evaluated. -/
def respects (spec : ChainSpec) {Past : Type} : Effect → Db × Past → Bool
  | .db (.promoteCollected p), s => (s.1.readyPairs spec p).all fun k => !s.1.liveGaps.has k
  | .db (.expireJobs minEpoch), s => s.1.liveJobs.rows.all fun (j, row) =>
      !(row.status == .pending && decide (j.epoch < minEpoch) && s.1.completed j.validator j.epoch)
  | _, _ => true

theorem gapsRespected_of_respects {Past : Type} {op : DbOp} {s : Db × Past} (h : respects spec (.db op) s = true) :
    GapsRespected spec op s.1 := by
  cases op with
  | promoteCollected p =>
    intro k hk
    simpa using List.all_eq_true.1 h k hk
  | expireJobs minEpoch =>
    intro j row hrow hpend hlt
    have hj := List.all_eq_true.1 h _ (Table.mem_rows.2 hrow)
    simpa [hpend, hlt] using hj
  | _ => trivial

def unitEpochs : ChainSpec := ⟨1, 1, 64, 1000, Nat.zero_lt_one⟩

def lagTwoUnits : LiveConfig unitEpochs := ⟨2, 5, by decide, by decide⟩

/-- One block an epoch, except in epoch 4. -/
def skipAtFour : Ledger unitEpochs :=
  .ofBlocks (.ofList [(⟨100⟩, bareBlock 0 ⟨0⟩), (⟨101⟩, bareBlock 1 ⟨100⟩), (⟨102⟩, bareBlock 2 ⟨101⟩),
    (⟨103⟩, bareBlock 3 ⟨102⟩), (⟨105⟩, bareBlock 5 ⟨103⟩), (⟨106⟩, bareBlock 6 ⟨105⟩)]) (by decide)
    (fun e => [⟨0, e, [7]⟩]) fun _ => 0

def headTwo : View skipAtFour := ⟨⟨102⟩, ⟨_, rfl⟩, ⟨0, ⟨100⟩⟩, by decide +kernel, by decide⟩

def headFive : View skipAtFour := ⟨⟨105⟩, ⟨_, rfl⟩, ⟨4, ⟨103⟩⟩, by decide +kernel, by decide⟩

def headSix : View skipAtFour := ⟨⟨106⟩, ⟨_, rfl⟩, ⟨4, ⟨103⟩⟩, by decide +kernel, by decide⟩

def skipTurn (V : View skipAtFour) : Turn skipAtFour Unit := ⟨[7], V, fun _ => true, ()⟩

/-- Any view may follow any other. -/
abbrev anyView (_ : Unit) (_ : View skipAtFour) (_ : Unit) : Prop := True

/-- One instance, its statements unrestricted. -/
abbrev anyIndexer : System indexer (Unit × Role) (View skipAtFour) Memory (Db × Unit) :=
  indexers unitEpochs (skipAtFour.network Unit anyView) (fun _ => lagTwoUnits) fun _ _ => True

/-- The worker is stopped and the metadata worker has registered validator 7. -/
def sevenRegistered : Memory × (Db × Unit) := (.stopped, (.registered [7], ()))

theorem reach_registered {net : Network}
    {A : System indexer (Unit × Role) net.View Memory (Db × net.Past)} (w : net.View) (past : net.Past)
    (hb : A.begins ((), .metadata) .stopped (Db.empty, past) w (refresh 7 0 none) (Db.empty, past))
    (hs : A.sem ((), .metadata) w (.db (.upsertValidator 7 0 none)) (Db.empty, past) (.ok ()) (.registered [7], past)) :
    A.Reach (initial Unit net past)
      ((initial Unit net past).set ((), .metadata) (.idle .stopped) (.registered [7], past)) := by
  let c := initial Unit net past
  have h1 : A.Step c (c.set ((), .metadata) (.running w (refresh 7 0 none)) (Db.empty, past)) := .start rfl hb
  have h2 := System.Step.act (c.set_proc ((), .metadata) (.running w (refresh 7 0 none)) (Db.empty, past)) hs
  rw [Config.set_set] at h2
  have h3 := System.Step.finish (A := A) (c.set_proc ((), .metadata) (.running w (.pure .stopped))
    (.registered [7], past))
  rw [Config.set_set] at h3
  exact ((Relation.ReflTransGen.single h1).tail h2).tail h3

/-- The run up to the end of the turns `ts`, then `n` effects of a last turn. -/
abbrev playSkip (ok : Effect → Db × Unit → Bool) (ts : List (Turn skipAtFour Unit)) (n : Nat) (t : Turn skipAtFour Unit) :
    Option (Prog indexer Memory × (Db × Unit)) :=
  (ts.foldlM (Turn.play anyView lagTwoUnits ok 100) sevenRegistered).bind fun x => t.proceed anyView lagTwoUnits ok n x

theorem gaps_partition_first_promotion : ∃ (c : Configuration Unit (skipAtFour.network Unit anyView)) (p : Promotion)
    (k : Except Error Nat → Prog indexer Memory) (s' : Db × Unit),
    (respectful unitEpochs (skipAtFour.network Unit anyView) fun _ => lagTwoUnits).Reach
      (initial Unit (skipAtFour.network Unit anyView) ()) c ∧
    c.proc ((), .live) = .running headFive (.call (.db (.promoteCollected p)) k) ∧
    s'.1.liveTrackingStart.has 7 = true ∧ s'.1.Partitioned p.completionTarget ∧ s'.1.Separate := by
  have hplay : (playSkip (respects unitEpochs) [skipTurn headTwo, skipTurn headTwo] 42 (skipTurn headFive)).any (fun y =>
      (promotion? y.1).any fun p => respects unitEpochs (.db (.promoteCollected p)) y.2 &&
        y.2.1.liveTrackingStart.has 7) = true := by decide +kernel
  obtain ⟨⟨prog, s⟩, hy, hp⟩ := (Option.any_eq_true _ _).1 hplay
  obtain ⟨p, hprom, hcheck⟩ := (Option.any_eq_true _ _).1 hp
  obtain ⟨k, rfl⟩ := promotion?_eq_some hprom
  simp only [Bool.and_eq_true] at hcheck
  let A := respectful unitEpochs (skipAtFour.network Unit anyView) fun _ => lagTwoUnits
  have hhosts : Turn.Hosts A (respects unitEpochs) :=
    (Turn.hosts_indexers _ _).restrict (fun _ _ _ => trivial) fun _ _ _ h => gapsRespected_of_respects h
  have hopens : Turn.Opens A anyView lagTwoUnits := Turn.opens_indexers fun _ => lagTwoUnits
  have hmeta : A.Reach _ _ := reach_registered headFive () ⟨.refresh, trivial, rfl⟩
    ⟨trivial, Or.inl ⟨0, rfl, rfl⟩, rfl⟩
  have hreach := hmeta.trans (Turn.reach_turns (x := sevenRegistered) hhosts hopens _ rfl rfl hy)
  have hsem : A.sem ((), .live) headFive (.db (.promoteCollected p)) s (.ok (s.1.promoteCollected unitEpochs p).1)
      ((s.1.promoteCollected unitEpochs p).2, ()) := hhosts.db hcheck.1
  have htrack : ((s.1.promoteCollected unitEpochs p).2).liveTrackingStart.has 7 = true := by
    rw [(s.1.promoteCollected_frame unitEpochs p).2.2.1]
    exact hcheck.2
  have hpart := gaps_partition unitEpochs _ _ hreach (Config.set_proc ..) hsem
  exact ⟨_, p, k, _, hreach, Config.set_proc .., htrack, hpart.1, hpart.2⟩

/-- The rewards of epoch 2 arrive after the epoch was promoted and listed as a gap; the next
promotion completes it, and the gap stays. -/
theorem late_rewards_keep_gap : ∃ (c : Configuration Unit (skipAtFour.network Unit anyView)) (p : Promotion)
    (k : Except Error Nat → Prog indexer Memory) (n : Nat) (s' : Db × Unit),
    anyIndexer.Reach (initial Unit (skipAtFour.network Unit anyView) ()) c ∧
    c.proc ((), .live) = .running headSix (.call (.db (.promoteCollected p)) k) ∧
    anyIndexer.sem ((), .live) headSix (.db (.promoteCollected p)) c.state (.ok n) s' ∧
    s'.1.completed 7 2 = true ∧ s'.1.liveGaps.has (7, 2) = true ∧ ¬ s'.1.Partitioned p.completionTarget := by
  have hplay : (playSkip (fun _ _ => true) [skipTurn headTwo, skipTurn headTwo, skipTurn headFive] 41 (skipTurn headSix)).any
      (fun y => (promotion? y.1).any fun p => p.completionTarget == 2 &&
        (let d := (y.2.1.promoteCollected unitEpochs p).2
         d.liveTrackingStart.get 7 == some 2 && d.validators.get 7 == some ⟨0, none, some 2⟩ && d.completed 7 2 &&
          d.liveGaps.has (7, 2))) = true := by decide +kernel
  obtain ⟨⟨prog, s⟩, hy, hp⟩ := (Option.any_eq_true _ _).1 hplay
  obtain ⟨p, hprom, hcheck⟩ := (Option.any_eq_true _ _).1 hp
  obtain ⟨k, rfl⟩ := promotion?_eq_some hprom
  simp only [Bool.and_eq_true, beq_iff_eq] at hcheck
  obtain ⟨htarget, ⟨⟨hstart, hrow⟩, hdone⟩, hgap⟩ := hcheck
  have hhosts : Turn.Hosts anyIndexer fun _ _ => true := Turn.hosts_indexers _ _
  have hopens : Turn.Opens anyIndexer anyView lagTwoUnits := Turn.opens_indexers fun _ => lagTwoUnits
  have hmeta : anyIndexer.Reach _ _ := reach_registered headSix () ⟨.refresh, trivial, rfl⟩
    ⟨Or.inl ⟨0, rfl, rfl⟩, rfl⟩
  have hreach := hmeta.trans (Turn.reach_turns (x := sevenRegistered) hhosts hopens _ rfl rfl hy)
  refine ⟨_, p, k, _, _, hreach, Config.set_proc .., hhosts.db rfl, hdone, hgap, fun hpart => ?_⟩
  rcases hpart 7 2 ⟨0, none, some 2⟩ 2 hstart hrow le_rfl htarget.ge rfl with ⟨_, hno⟩ | ⟨hno, _⟩
  · exact Bool.false_ne_true (hno.symm.trans hgap)
  · exact Bool.false_ne_true (hno.symm.trans hdone)

end BeaconIndexer
