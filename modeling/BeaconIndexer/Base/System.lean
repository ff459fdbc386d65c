/-
Several workers run effectful programs on one shared state. A worker is idle with a memory or is
inside a program; it begins a program against a view of the outside world, issues one effect at a
time, keeps the memory its program returns, and may be stopped at any effect.

`System.reach_inv` is the rely-guarantee rule: a state invariant kept by every effect that meets
its worker's guarantee holds in every reachable configuration, and every running program is safe
there.
-/
import BeaconIndexer.Base.Prog

namespace Effects

/-- `W` is what a worker may know about the outside while one program runs, `μ` what it keeps
from one program to the next. -/
structure System (S : Signature) (ι W μ σ : Type) where
  begins : ι → μ → σ → W → Prog S μ → σ → Prop
  sem : ι → W → Sem S σ
  restart : ι → μ → Prop

inductive Proc (S : Signature) (W μ : Type) where
  | idle (m : μ)
  | running (w : W) (p : Prog S μ)

/-- A configuration: the shared state and every worker's place in its program. -/
structure Config (S : Signature) (ι W μ σ : Type) where
  state : σ
  proc : ι → Proc S W μ

variable {S : Signature} {ι W μ σ : Type} [DecidableEq ι]

def Config.set (c : Config S ι W μ σ) (i : ι) (p : Proc S W μ) (s : σ) : Config S ι W μ σ :=
  ⟨s, Function.update c.proc i p⟩

@[simp]
theorem Config.set_proc (c : Config S ι W μ σ) (i : ι) (p : Proc S W μ) (s : σ) : (c.set i p s).proc i = p := by
  simp [Config.set]

@[simp]
theorem Config.set_set (c : Config S ι W μ σ) (i : ι) (p p' : Proc S W μ) (s s' : σ) :
    (c.set i p s).set i p' s' = c.set i p' s' := by
  simp [Config.set]

namespace System

inductive Step (A : System S ι W μ σ) : Config S ι W μ σ → Config S ι W μ σ → Prop
  /-- an idle worker begins a program -/
  | start {c i m w p s'} : c.proc i = .idle m → A.begins i m c.state w p s' →
      Step A c (c.set i (.running w p) s')
  /-- a running worker issues its next effect -/
  | act {c i w e k r s'} : c.proc i = .running w (.call e k) → A.sem i w e c.state r s' →
      Step A c (c.set i (.running w (k r)) s')
  /-- a finished program hands its memory over -/
  | finish {c i w m} : c.proc i = .running w (.pure m) → Step A c (c.set i (.idle m) c.state)
  /-- a worker is stopped wherever it is -/
  | crash {c i m} : A.restart i m → Step A c (c.set i (.idle m) c.state)

/-- Configurations reached from `c`. -/
def Reach (A : System S ι W μ σ) : Config S ι W μ σ → Config S ι W μ σ → Prop := Relation.ReflTransGen A.Step

/-- The same workers, restricted to effects that meet a condition on the state they are issued in. -/
def restrict (A : System S ι W μ σ) (cond : ι → W → S.Op → σ → Prop) : System S ι W μ σ :=
  { A with sem := fun i w e s r s' => cond i w e s ∧ A.sem i w e s r s' }

/-- The same workers, restricted to programs begun in states that meet a condition. -/
def restrictStart (A : System S ι W μ σ) (cond : ι → μ → σ → W → Prop) : System S ι W μ σ :=
  { A with begins := fun i m s w p s' => cond i m s w ∧ A.begins i m s w p s' }

/-! ## The rely-guarantee rule -/

/-- What each worker relies on, guarantees and leaves behind. -/
structure Discipline (A : System S ι W μ σ) where
  rely : ι → σ → σ → Prop
  guar : ι → W → S.Op → σ → Prop
  post : ι → W → μ → σ → Prop
  idle : ι → μ → σ → Prop
  refl : ∀ i s, rely i s s
  trans : ∀ i {a b c}, rely i a b → rely i b c → rely i a c

/-- The setting of worker `i`'s programs. -/
def Discipline.contract {A : System S ι W μ σ} (D : A.Discipline) (i : ι) (w : W) : Contract S σ where
  sem := A.sem i w
  rely := D.rely i
  guar := D.guar i w
  refl := D.refl i
  trans := D.trans i

/-- What holds of a worker's place in its program. -/
def Discipline.ProcOK {A : System S ι W μ σ} (D : A.Discipline) (i : ι) (s : σ) : Proc S W μ → Prop
  | .idle m => D.idle i m s
  | .running w p => (D.contract i w).Safe p (D.post i w) s

/-- What has to be shown of the workers for the invariant `I`. -/
structure Sound (A : System S ι W μ σ) (D : A.Discipline) (I : σ → Prop) : Prop where
  begins : ∀ {i m s w p s'}, I s → D.idle i m s → A.begins i m s w p s' →
    I s' ∧ (D.contract i w).Safe p (D.post i w) s' ∧ ∀ j, j ≠ i → D.rely j s s'
  acts : ∀ {i w e s r s'}, I s → D.guar i w e s → A.sem i w e s r s' → I s' ∧ ∀ j, j ≠ i → D.rely j s s'
  finish : ∀ {i w m s}, I s → D.post i w m s → D.idle i m s
  restart : ∀ {i m s}, I s → A.restart i m → D.idle i m s
  idle : ∀ {i m s s'}, D.rely i s s' → D.idle i m s → D.idle i m s'

/-- The invariant and the safety of every worker. -/
def Good {A : System S ι W μ σ} (D : A.Discipline) (I : σ → Prop) (c : Config S ι W μ σ) : Prop :=
  I c.state ∧ ∀ i, D.ProcOK i c.state (c.proc i)

variable {A : System S ι W μ σ} {D : A.Discipline} {I : σ → Prop}

omit [DecidableEq ι] in
theorem Sound.procOK_rely (h : A.Sound D I) {i : ι} {s s' : σ} (hr : D.rely i s s') :
    ∀ {p : Proc S W μ}, D.ProcOK i s p → D.ProcOK i s' p
  | .idle _, hp => h.idle hr hp
  | .running _ _, hp => Contract.Safe.rely (C := D.contract _ _) hr hp

/-- One worker moves: the others keep what they had. -/
theorem Sound.set (h : A.Sound D I) {c : Config S ι W μ σ} {i : ι} {p : Proc S W μ} {s' : σ} (hg : Good D I c)
    (hI : I s') (hp : D.ProcOK i s' p) (hr : ∀ j, j ≠ i → D.rely j c.state s') : Good D I (c.set i p s') := by
  refine ⟨hI, fun j => ?_⟩
  by_cases hj : j = i
  · subst hj; simpa [Config.set] using hp
  · simpa [Config.set, Function.update_of_ne hj] using h.procOK_rely (hr j hj) (hg.2 j)

theorem Sound.step (h : A.Sound D I) {c c' : Config S ι W μ σ} (hs : A.Step c c') (hg : Good D I c) :
    Good D I c' := by
  cases hs with
  | @start i m w p s' hp hb =>
    have hi : D.idle i m c.state := by have := hg.2 i; rwa [hp] at this
    obtain ⟨hI, hsafe, hr⟩ := h.begins hg.1 hi hb
    exact h.set hg hI hsafe hr
  | @act i w e k r s' hp hsem =>
    have hsafe : (D.contract i w).Safe (.call e k) (D.post i w) c.state := by have := hg.2 i; rwa [hp] at this
    obtain ⟨hgu, hk⟩ := hsafe c.state (D.refl i c.state)
    obtain ⟨hI, hr⟩ := h.acts hg.1 hgu hsem
    exact h.set hg hI (hk r s' hsem) hr
  | @finish i w m hp =>
    have hsafe : (D.contract i w).Safe (.pure m) (D.post i w) c.state := by have := hg.2 i; rwa [hp] at this
    exact h.set hg hg.1 (h.finish hg.1 hsafe.done) fun j _ => D.refl j _
  | @crash i m hre => exact h.set hg hg.1 (h.restart hg.1 hre) fun j _ => D.refl j _

/-- Every reachable configuration satisfies the invariant and every running program is safe. -/
theorem Sound.reach (h : A.Sound D I) {c c' : Config S ι W μ σ} (hr : A.Reach c c') (hg : Good D I c) :
    Good D I c' := by
  induction hr with
  | refl => exact hg
  | tail _ hs ih => exact h.step hs ih

/-- What the workers guarantee may be assumed of their runs: a system that allows every effect that meets its
guarantee has the same runs. -/
theorem Sound.reach_within {B : System S ι W μ σ} (h : A.Sound D I)
    (hbegins : ∀ {i m s w p s'}, I s → A.begins i m s w p s' → B.begins i m s w p s')
    (hsem : ∀ {i w e s r s'}, I s → D.guar i w e s → A.sem i w e s r s' → B.sem i w e s r s')
    (hrestart : ∀ {i m}, A.restart i m → B.restart i m) {c c' : Config S ι W μ σ} (hr : A.Reach c c') (hg : Good D I c) :
    B.Reach c c' := by
  induction hr with
  | refl => exact .refl
  | @tail c₁ c₂ hr hs ih =>
    obtain ⟨hI, hproc⟩ := h.reach hr hg
    refine ih.tail ?_
    cases hs with
    | start hp hb => exact .start hp (hbegins hI hb)
    | @act i w e k r s' hp hstep =>
      have hsafe : (D.contract i w).Safe (.call e k) (D.post i w) c₁.state := by have := hproc i; rwa [hp] at this
      exact .act hp (hsem hI (hsafe _ (D.refl i _)).1 hstep)
    | finish hp => exact .finish hp
    | crash hre => exact .crash (hrestart hre)

/-- What each worker guarantees may be assumed of every effect of a run. -/
theorem Sound.reach_guarded (h : A.Sound D I) {c c' : Config S ι W μ σ} (hr : A.Reach c c') (hg : Good D I c) :
    (A.restrict D.guar).Reach c c' :=
  h.reach_within (B := A.restrict D.guar) (fun _ hb => hb) (fun _ hgu hsem => ⟨hgu, hsem⟩) id hr hg

/-- A discipline of the workers is one of the same workers under a condition. -/
def Discipline.under (D : A.Discipline) (cond : ι → W → S.Op → σ → Prop) : (A.restrict cond).Discipline where
  rely := D.rely
  guar := D.guar
  post := D.post
  idle := D.idle
  refl := D.refl
  trans := D.trans

omit [DecidableEq ι] in
theorem Sound.under (h : A.Sound D I) (cond : ι → W → S.Op → σ → Prop) : (A.restrict cond).Sound (D.under cond) I where
  begins hI hi hb := by
    obtain ⟨hI', hsafe, hr⟩ := h.begins hI hi hb
    exact ⟨hI', hsafe.narrow fun _ _ _ _ hsem => hsem.2, hr⟩
  acts hI hg hsem := h.acts hI hg hsem.2
  finish := h.finish
  restart := h.restart
  idle := h.idle

/-! ## Programs beside the system -/

/-- A program that only reads the shared state: before each of its effects the workers take any number of steps. -/
def beside {T : Signature} (A : System S ι W μ σ) (sem : Sem T σ) : Sem T (Config S ι W μ σ) :=
  fun e c r c' => A.Reach c c' ∧ sem e c'.state r c'.state

/-- What is shown where every effect meets a reachable configuration holds of every execution beside the system. -/
theorem beside_exec {T : Signature} {ε α : Type} {sem : Sem T σ} {c₀ c c' : Config S ι W μ σ} {x : Async T ε α} {a : α}
    {Q : α → Config S ι W μ σ → Prop} (hr : A.Reach c₀ c) (hx : Exec (A.beside sem) x.run c (.ok a) c')
    (h : ∀ s, ((Contract.alone (A.beside sem)).within (A.Reach c₀)).Ok x s (fun a s' => Q a s'.1) fun _ _ => True) : Q a c' := by
  have hrely : ∀ s s' : Config S ι W μ σ, (Contract.alone (A.beside sem)).rely s s' → A.Reach c₀ s → A.Reach c₀ s' := by
    rintro s s' (rfl : s = s') hs
    exact hs
  have hok : (Contract.alone (A.beside sem)).Ok x c Q fun _ _ => True :=
    .of_within hrely (fun _ _ _ _ _ hsem hs => hs.trans hsem.1) hr (h ⟨c, hr⟩)
  exact hok.exec hx

/-- An execution that leaves the state as it is, while the workers rest. -/
theorem beside_of_exec {T : Signature} {α : Type} {sem : Sem T σ} {p : Prog T α} {s s' : σ} {a : α}
    (hx : Exec (fun e s r s' => s' = s ∧ sem e s r s) p s a s') {c : Config S ι W μ σ} (hc : c.state = s) :
    Exec (A.beside sem) p c a c := by
  induction hx with
  | done a s => exact .done a c
  | step h1 _ ih =>
    obtain ⟨rfl, hsem⟩ := h1
    exact .step ⟨.refl, by rw [hc]; exact hsem⟩ (ih hc)

/-! ## Steps of one worker are runs -/

/-- Effects a handler answers with possible answers are steps of the worker. -/
theorem reach_advance {i : ι} {w : W} {ok : S.Op → σ → Bool} {h : (e : S.Op) → σ → S.Res e × σ}
    (hh : ∀ e s, ok e s = true → A.sem i w e s (h e s).1 (h e s).2) :
    ∀ {n : Nat} {p p' : Prog S μ} {s s' : σ}, p.advance ok h n s = some (p', s') →
      ∀ c : Config S ι W μ σ, c.proc i = .running w p → c.state = s → A.Reach c (c.set i (.running w p') s')
  | 0, p, p', s, s', ha, c, hp, hs => by
    obtain ⟨rfl, rfl⟩ := Prod.mk.inj (Option.some.inj ha)
    subst hs
    rw [← hp, Config.set, Function.update_eq_self]
    exact .refl
  | n + 1, .pure a, p', s, s', ha, c, hp, hs => by
    obtain ⟨rfl, rfl⟩ := Prod.mk.inj (Option.some.inj ha)
    subst hs
    rw [← hp, Config.set, Function.update_eq_self]
    exact .refl
  | n + 1, .call e k, p', s, s', ha, c, hp, hs => by
    subst hs
    unfold Prog.advance at ha
    split at ha
    · rename_i hok
      have h1 : A.Step c (c.set i (.running w (k (h e c.state).1)) (h e c.state).2) := .act hp (hh e c.state hok)
      have h2 := reach_advance hh ha _ (c.set_proc ..) rfl
      rw [Config.set_set] at h2
      exact .head h1 h2
    · cases ha

/-- An execution of the program a worker is inside of is a run. -/
theorem reach_exec {i : ι} {w : W} {p : Prog S μ} {s s' : σ} {m : μ} (hx : Exec (A.sem i w) p s m s') :
    ∀ c : Config S ι W μ σ, c.proc i = .running w p → c.state = s → A.Reach c (c.set i (.running w (.pure m)) s') := by
  induction hx with
  | done m s =>
    rintro c hp rfl
    rw [← hp, Config.set, Function.update_eq_self]
    exact .refl
  | step h1 _ ih =>
    rintro c hp rfl
    have h2 := ih _ (c.set_proc ..) rfl
    rw [Config.set_set] at h2
    exact .head (.act hp h1) h2

/-- A worker that is idle begins a program, runs it to its end and is idle again. -/
theorem reach_program {i : ι} {w : W} {ok : S.Op → σ → Bool} {h : (e : S.Op) → σ → S.Res e × σ}
    (hh : ∀ e s, ok e s = true → A.sem i w e s (h e s).1 (h e s).2) {c : Config S ι W μ σ} {m m' : μ} {p p' : Prog S μ}
    {s s' : σ} {n : Nat} (hi : c.proc i = .idle m) (hb : A.begins i m c.state w p s)
    (ha : p.advance ok h n s = some (p', s')) (hr : p'.result? = some m') :
    A.Reach c (c.set i (.running w (.pure m')) s') ∧ A.Reach c (c.set i (.idle m') s') := by
  have h1 : A.Step c (c.set i (.running w p) s) := .start hi hb
  have h2 := reach_advance hh ha _ (c.set_proc ..) rfl
  rw [Config.set_set, Prog.result?_eq_some hr] at h2
  have h3 : A.Step (c.set i (.running w (.pure m')) s') ((c.set i (.running w (.pure m')) s').set i (.idle m') s') :=
    .finish (c.set_proc ..)
  rw [Config.set_set] at h3
  exact ⟨.head h1 h2, (Relation.ReflTransGen.head h1 h2).tail h3⟩

end System

end Effects
