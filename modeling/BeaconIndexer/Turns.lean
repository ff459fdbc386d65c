/-
Runs of one instance's live worker against an honest node: a turn is one program of the worker
with every statement succeeding, and turns played one after another are a run of the system.
-/
import BeaconIndexer.Beacon.Node
import BeaconIndexer.Workers

namespace BeaconIndexer

open Effects

variable {spec : ChainSpec}

/-- Coherent nodes over one ledger; `admits` limits how the canonical chain may change. -/
def Ledger.network (L : Ledger spec) (Past : Type) (admits : Past → View L → Past → Prop) : Network :=
  ⟨View L, Past, fun V => Coherent V, admits⟩

/-- One program of the live worker: the view it sees and what the node has available. -/
structure Turn (L : Ledger spec) (Past : Type) where
  tracked : List Nat
  view : View L
  available : Request → Bool
  past : Past

variable {L : Ledger spec} {Past : Type}

namespace Turn

/-- The honest node answers, and statements succeed at clock zero. -/
def handler (t : Turn L Past) : (e : Effect) → Db × Past → e.Result × (Db × Past)
  | .node q, s => (t.view.serve t.available q, s)
  | .db op, s => (.ok (op.answer spec 0 s.1), (op.exec spec 0 s.1, s.2))

/-- What the worker starts the turn with: another tracked set means that it was restarted. -/
def memory (t : Turn L Past) : Memory → Memory
  | .stopped => .stopped
  | .live tracked last cursor => if tracked = t.tracked then .live tracked last cursor else .stopped

/-- The program a worker begins next: it resumes if it was stopped. -/
def program (cfg : LiveConfig spec) (t : Turn L Past) : Memory → Prog indexer Memory
  | .stopped => boot t.tracked
  | .live tracked _ cursor => pass spec cfg tracked cursor

section Play

variable (admits : Past → View L → Past → Prop) [∀ p V p', Decidable (admits p V p')] (cfg : LiveConfig spec)
  (ok : Effect → Db × Past → Bool) (n : Nat)

/-- The first `n` effects of the turn's program, if they all meet `ok` and the view is admitted. -/
def proceed (x : Memory × (Db × Past)) (t : Turn L Past) : Option (Prog indexer Memory × (Db × Past)) :=
  if admits x.2.2 t.view t.past then
    (t.program cfg (t.memory x.1)).advance ok t.handler n (x.2.1, t.past)
  else none

/-- The turn's program, if it ends within `n` effects. -/
def play (x : Memory × (Db × Past)) (t : Turn L Past) : Option (Memory × (Db × Past)) :=
  (t.proceed admits cfg ok n x).bind fun r => r.1.result?.map (·, r.2)

end Play

/-- The effects of a turn whose statements meet `ok` are steps of the live worker. -/
structure Hosts (A : System indexer (Unit × Role) (View L) Memory (Db × Past)) (ok : Effect → Db × Past → Bool) : Prop where
  node : ∀ {V : View L} {q r s}, Coherent V q r → A.sem ((), .live) V (.node q) s r s
  db : ∀ {V op s}, ok (.db op) s = true →
    A.sem ((), .live) V (.db op) s (.ok (op.answer spec 0 s.1)) (op.exec spec 0 s.1, s.2)
  restart : A.restart ((), .live) .stopped

variable {admits : Past → View L → Past → Prop} {cfg : LiveConfig spec}
  {ok : Effect → Db × Past → Bool} {n : Nat} {t : Turn L Past} {x y : Memory × (Db × Past)}
  {A : System indexer (Unit × Role) (View L) Memory (Db × Past)} {c : Config indexer (Unit × Role) (View L) Memory (Db × Past)}
  {p : Prog indexer Memory} {s : Db × Past}

/-- The system begins every admitted turn. -/
def Opens (A : System indexer (Unit × Role) (View L) Memory (Db × Past)) (admits : Past → View L → Past → Prop)
    (cfg : LiveConfig spec) : Prop :=
  ∀ m s V p past, Begins spec cfg (fun _ => True) .live m p → admits s.2 V past → A.begins ((), .live) m s V p (s.1, past)

theorem begins_program (t : Turn L Past) (m : Memory) : Begins spec cfg (fun _ => True) .live m (t.program cfg m) := by
  cases m with
  | stopped => exact .boot trivial
  | live tracked last cursor => exact .pass trivial

theorem handler_sem (h : Hosts A ok) (e : Effect) (s : Db × Past) (he : ok e s = true) :
    A.sem ((), .live) t.view e s (t.handler e s).1 (t.handler e s).2 := by
  cases e with
  | node q => exact h.node (t.view.serve_coherent t.available q)
  | db op => exact h.db he

/-- The worker is where the turn starts, restarted if need be. -/
theorem reach_memory (h : Hosts A ok) (hc : c.proc ((), .live) = .idle x.1) (hs : c.state = x.2) :
    A.Reach c (c.set ((), .live) (.idle (t.memory x.1)) x.2) := by
  have stay : c.set ((), .live) (.idle x.1) x.2 = c := by
    rw [← hc, ← hs, Config.set, Function.update_eq_self]
  cases hm : x.1 with
  | stopped =>
    rw [hm] at stay
    rw [memory, stay]
    exact .refl
  | live tracked last cursor =>
    rw [memory]
    split
    · rw [hm] at stay
      rw [stay]
      exact .refl
    · rw [← hs]
      exact .single (.crash h.restart)

variable [∀ p V p', Decidable (admits p V p')]

section Worker

variable {ι : Type} [DecidableEq ι] {B : System indexer ι (View L) Memory (Db × Past)}
  {d : Config indexer ι (View L) Memory (Db × Past)} {i : ι}

/-- A worker of any system that answers like the honest node begins the turn and runs it. -/
theorem reach_begun (hsem : ∀ e s, ok e s = true → B.sem i t.view e s (t.handler e s).1 (t.handler e s).2)
    (hb : admits x.2.2 t.view t.past → B.begins i (t.memory x.1) x.2 t.view (t.program cfg (t.memory x.1)) (x.2.1, t.past))
    (hc : d.proc i = .idle (t.memory x.1)) (hs : d.state = x.2) (hp : t.proceed admits cfg ok n x = some (p, s)) :
    B.Reach d (d.set i (.running t.view p) s) := by
  unfold proceed at hp
  split at hp
  · rename_i hadm
    have h1 : B.Step d (d.set i (.running t.view (t.program cfg (t.memory x.1))) (x.2.1, t.past)) :=
      .start hc (hs ▸ hb hadm)
    have h2 := System.reach_advance hsem hp _ (d.set_proc i (.running t.view (t.program cfg (t.memory x.1))) (x.2.1, t.past)) rfl
    rw [Config.set_set] at h2
    exact .head h1 h2
  · cases hp

theorem reach_ended (hsem : ∀ e s, ok e s = true → B.sem i t.view e s (t.handler e s).1 (t.handler e s).2)
    (hb : admits x.2.2 t.view t.past → B.begins i (t.memory x.1) x.2 t.view (t.program cfg (t.memory x.1)) (x.2.1, t.past))
    (hc : d.proc i = .idle (t.memory x.1)) (hs : d.state = x.2) (hp : t.play admits cfg ok n x = some y) :
    B.Reach d (d.set i (.idle y.1) y.2) := by
  obtain ⟨⟨p, s⟩, hx, hr⟩ := Option.bind_eq_some_iff.1 hp
  obtain ⟨m, hm, rfl⟩ := Option.map_eq_some_iff.1 hr
  have h1 := reach_begun hsem hb hc hs hx
  rw [show p = .pure m from Prog.result?_eq_some hm] at h1
  have h2 : B.Step _ ((d.set i (.running t.view (.pure m)) s).set i (.idle m) s) := .finish (Config.set_proc ..)
  rw [Config.set_set] at h2
  exact h1.tail h2

end Worker

theorem reach_proceed (h : Hosts A ok) (hb : admits x.2.2 t.view t.past → A.begins ((), .live) (t.memory x.1) x.2 t.view
    (t.program cfg (t.memory x.1)) (x.2.1, t.past)) (hc : c.proc ((), .live) = .idle x.1) (hs : c.state = x.2)
    (hp : t.proceed admits cfg ok n x = some (p, s)) : A.Reach c (c.set ((), .live) (.running t.view p) s) := by
  have h1 := reach_memory (t := t) h hc hs
  have h2 := reach_begun (handler_sem h) hb (Config.set_proc c ((), .live) (.idle (t.memory x.1)) x.2) rfl hp
  rw [Config.set_set] at h2
  exact h1.trans h2

theorem reach_play (h : Hosts A ok) (hb : admits x.2.2 t.view t.past → A.begins ((), .live) (t.memory x.1) x.2 t.view
    (t.program cfg (t.memory x.1)) (x.2.1, t.past)) (hc : c.proc ((), .live) = .idle x.1) (hs : c.state = x.2)
    (hp : t.play admits cfg ok n x = some y) : A.Reach c (c.set ((), .live) (.idle y.1) y.2) := by
  have h1 := reach_memory (t := t) h hc hs
  have h2 := reach_ended (handler_sem h) hb (Config.set_proc c ((), .live) (.idle (t.memory x.1)) x.2) rfl hp
  rw [Config.set_set] at h2
  exact h1.trans h2

/-- Turns played one after another, and a last one on its way. -/
theorem reach_turns {n' : Nat} (h : Hosts A ok) (hb : Opens A admits cfg) : ∀ (ts : List (Turn L Past)) {x : Memory × (Db × Past)}
    {c : Config indexer (Unit × Role) (View L) Memory (Db × Past)}, c.proc ((), .live) = .idle x.1 → c.state = x.2 →
      (ts.foldlM (play admits cfg ok n) x).bind (fun y => t.proceed admits cfg ok n' y) = some (p, s) →
      A.Reach c (c.set ((), .live) (.running t.view p) s)
  | [], x, c, hc, hs, hp => reach_proceed h (hb _ _ _ _ _ (begins_program ..)) hc hs hp
  | t₀ :: ts, x, c, hc, hs, hp => by
    rw [List.foldlM_cons] at hp
    obtain ⟨x₁, hx₁, hp⟩ := Option.bind_eq_some_iff.1 (Option.bind_assoc .. ▸ hp)
    have h1 := reach_play h (hb _ _ _ _ _ (begins_program ..)) hc hs hx₁
    have h2 := reach_turns h hb ts (c.set_proc ((), .live) (.idle x₁.1) x₁.2) rfl hp
    rw [Config.set_set] at h2
    exact h1.trans h2

omit [∀ p V p', Decidable (admits p V p')]

theorem hosts_indexers (cfg : Unit → LiveConfig spec) (ok : Effect → Db × Past → Bool) :
    Hosts (indexers spec (L.network Past admits) cfg fun _ _ => True) ok where
  node hq := ⟨⟨hq, rfl⟩, rfl⟩
  db _ := ⟨Or.inl ⟨0, rfl, rfl⟩, rfl⟩
  restart := rfl

theorem Hosts.restrict (h : Hosts A ok) {cond : Unit × Role → View L → Effect → Db × Past → Prop}
    (hnode : ∀ V q s, cond ((), .live) V (.node q) s) (hdb : ∀ V op s, ok (.db op) s = true → cond ((), .live) V (.db op) s) :
    Hosts (A.restrict cond) ok where
  node hq := ⟨hnode _ _ _, h.node hq⟩
  db hok := ⟨hdb _ _ _ hok, h.db hok⟩
  restart := h.restart

theorem Hosts.restrictStart (h : Hosts A ok) (cond : Unit × Role → Memory → Db × Past → View L → Prop) :
    Hosts (A.restrictStart cond) ok := ⟨h.node, h.db, h.restart⟩

theorem opens_indexers (cfg : Unit → LiveConfig spec) :
    Opens (indexers spec (L.network Past admits) cfg fun _ _ => True) admits (cfg ()) :=
  fun _ _ _ _ _ hb hadm => ⟨hb, hadm, rfl⟩

end Turn

/-- Everything is available but the committees of the epoch. -/
def committeesMissing (epoch : Nat) : Request → Bool
  | .committees e => e != epoch
  | _ => true

/-- The promotion a program waits at. -/
def promotion? (p : Prog indexer Memory) : Option Promotion :=
  match p.next? with
  | some (.db (.promoteCollected p)) => some p
  | _ => none

theorem promotion?_eq_some {prog : Prog indexer Memory} {p : Promotion} (h : promotion? prog = some p) :
    ∃ k, prog = .call (.db (.promoteCollected p)) k := by
  unfold promotion? at h
  split at h
  · rename_i hn
    obtain rfl := Option.some.inj h
    exact Prog.next?_eq_some hn
  · cases h

end BeaconIndexer
