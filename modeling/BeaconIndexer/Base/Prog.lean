/-
Programs that wait for effects: a program is either finished or waits at one effect with a
continuation for each answer. An effect acts on a shared state as a relation `sem`, so that an
answer may be any of several and a request may fail.

`Contract.Safe` is the program logic: between two effects of the program other parties move the
state along `rely`, every effect the program issues meets `guar`, and a finished program meets
its postcondition. `Contract.Ok` is the same judgement for programs that can fail, and
`Contract.OkMem` for programs that can fail and carry a memory that outlives the failure.
-/
import Mathlib.Tactic

namespace Effects

/-- The effects of a program and the type of answer each one waits for. -/
structure Signature where
  Op : Type
  Res : Op → Type

inductive Prog (S : Signature) (α : Type) where
  | pure (a : α)
  | call (e : S.Op) (k : S.Res e → Prog S α)

variable {S : Signature} {α β ε σ μ : Type}

namespace Prog

def bind : Prog S α → (α → Prog S β) → Prog S β
  | .pure a, f => f a
  | .call e k, f => .call e fun r => (k r).bind f

instance : Monad (Prog S) where
  pure := .pure
  bind := .bind

@[simp]
theorem pure_def (a : α) : (Pure.pure a : Prog S α) = .pure a := rfl

@[simp]
theorem bind_def (p : Prog S α) (f : α → Prog S β) : (p >>= f) = p.bind f := rfl

@[simp]
theorem pure_bind (a : α) (f : α → Prog S β) : (Prog.pure a).bind f = f a := rfl

theorem bind_assoc {γ : Type} (p : Prog S α) (f : α → Prog S β) (g : β → Prog S γ) :
    (p.bind f).bind g = p.bind fun a => (f a).bind g := by
  induction p with
  | pure a => rfl
  | call e k ih =>
    show Prog.call e (fun r => ((k r).bind f).bind g) = _
    simp only [ih]
    rfl

theorem bind_pure (p : Prog S α) : p.bind .pure = p := by
  induction p with
  | pure a => rfl
  | call e k ih => exact congrArg (Prog.call e) (funext ih)

instance : LawfulMonad (Prog S) := .mk' _ bind_pure (fun _ _ => rfl) bind_assoc

/-- Wait for one effect. -/
def perform (e : S.Op) : Prog S (S.Res e) := .call e .pure

end Prog

/-- What an effect does: which answers and which next states are possible. -/
abbrev Sem (S : Signature) (σ : Type) := (e : S.Op) → σ → S.Res e → σ → Prop

/-! ## Complete executions -/

/-- An undisturbed execution of a program to its end. -/
inductive Exec (sem : Sem S σ) : Prog S α → σ → α → σ → Prop
  | done (a : α) (s : σ) : Exec sem (.pure a) s a s
  | step {e : S.Op} {k : S.Res e → Prog S α} {s s₁ s₂ : σ} {r : S.Res e} {a : α} :
      sem e s r s₁ → Exec sem (k r) s₁ a s₂ → Exec sem (.call e k) s a s₂

theorem Exec.pure_iff {sem : Sem S σ} {a b : α} {s s' : σ} :
    Exec sem (.pure a) s b s' ↔ b = a ∧ s' = s := by
  constructor
  · intro h; cases h; exact ⟨rfl, rfl⟩
  · rintro ⟨rfl, rfl⟩; exact .done _ _

theorem Exec.call_iff {sem : Sem S σ} {e : S.Op} {k : S.Res e → Prog S α} {b : α} {s s' : σ} :
    Exec sem (.call e k) s b s' ↔ ∃ r s₁, sem e s r s₁ ∧ Exec sem (k r) s₁ b s' := by
  constructor
  · intro h; cases h with | step h1 h2 => exact ⟨_, _, h1, h2⟩
  · rintro ⟨r, s₁, h1, h2⟩; exact .step h1 h2

theorem Exec.bind_iff {sem : Sem S σ} {f : α → Prog S β} {b : β} {s' : σ} :
    ∀ {p : Prog S α} {s : σ}, Exec sem (p.bind f) s b s' ↔
      ∃ a s₁, Exec sem p s a s₁ ∧ Exec sem (f a) s₁ b s'
  | .pure a, s => by
    simp only [Prog.pure_bind, Exec.pure_iff]
    constructor
    · intro h; exact ⟨a, s, ⟨rfl, rfl⟩, h⟩
    · rintro ⟨_, _, ⟨rfl, rfl⟩, h⟩; exact h
  | .call e k, s => by
    simp only [Prog.bind, Exec.call_iff]
    constructor
    · rintro ⟨r, s₁, h1, h2⟩
      obtain ⟨a, s₂, h3, h4⟩ := Exec.bind_iff.1 h2
      exact ⟨a, s₂, ⟨r, s₁, h1, h3⟩, h4⟩
    · rintro ⟨a, s₂, ⟨r, s₁, h1, h3⟩, h4⟩
      exact ⟨r, s₁, h1, Exec.bind_iff.2 ⟨a, s₂, h3, h4⟩⟩

/-- What every effect does to the state, in the sense of a preorder, a whole run does. -/
theorem Exec.relates {sem : Sem S σ} {R : σ → σ → Prop} (hrefl : ∀ s, R s s) (htrans : ∀ s s' s'', R s s' → R s' s'' → R s s'')
    (hstep : ∀ e s r s', sem e s r s' → R s s') {p : Prog S α} {s s' : σ} {a : α} (h : Exec sem p s a s') : R s s' := by
  induction h with
  | done a s => exact hrefl s
  | step h1 _ ih => exact htrans _ _ _ (hstep _ _ _ _ h1) ih

/-- Where every effect has an answer, every program runs to its end. -/
theorem Exec.exists {sem : Sem S σ} (h : ∀ e s, ∃ r s', sem e s r s') : ∀ (p : Prog S α) (s : σ), ∃ a s', Exec sem p s a s'
  | .pure a, s => ⟨a, s, .done a s⟩
  | .call e k, s => by
    obtain ⟨r, s₁, h1⟩ := h e s
    obtain ⟨a, s₂, h2⟩ := Exec.exists h (k r) s₁
    exact ⟨a, s₂, .step h1 h2⟩

/-- More behaviours of the effects allow more executions. -/
theorem Exec.mono {sem sem' : Sem S σ} (h : ∀ e s r s', sem e s r s' → sem' e s r s') {p : Prog S α} {s s' : σ} {a : α}
    (hx : Exec sem p s a s') : Exec sem' p s a s' := by
  induction hx with
  | done a s => exact .done a s
  | step h1 _ ih => exact .step (h _ _ _ _ h1) ih

/-! ## Stepping a program -/

/-- At most `n` effects of a program against a handler that gives every effect one answer; each
effect has to pass a check. -/
def Prog.advance (ok : S.Op → σ → Bool) (h : (e : S.Op) → σ → S.Res e × σ) : (n : Nat) → Prog S α → σ → Option (Prog S α × σ)
  | 0, p, s => some (p, s)
  | _ + 1, .pure a, s => some (.pure a, s)
  | n + 1, .call e k, s => if ok e s then Prog.advance ok h n (k (h e s).1) (h e s).2 else none

/-- The result of a finished program. -/
def Prog.result? : Prog S α → Option α
  | .pure a => some a
  | .call _ _ => none

/-- The effect a program waits at. -/
def Prog.next? : Prog S α → Option S.Op
  | .pure _ => none
  | .call e _ => some e

theorem Prog.result?_eq_some {p : Prog S α} {a : α} (h : p.result? = some a) : p = .pure a := by
  cases p with
  | pure b => exact congrArg _ (Option.some.inj h)
  | call e k => cases h

/-- Stepping against a handler whose answers the semantics allows is an execution. -/
theorem Exec.of_advance {sem : Sem S σ} {ok : S.Op → σ → Bool} {h : (e : S.Op) → σ → S.Res e × σ}
    (hh : ∀ e s, ok e s = true → sem e s (h e s).1 (h e s).2) : ∀ {n : Nat} {p p' : Prog S α} {s s' : σ} {a : α},
      p.advance ok h n s = some (p', s') → p'.result? = some a → Exec sem p s a s'
  | 0, p, p', s, s', a, hp, ha => by
    cases hp
    obtain rfl := Prog.result?_eq_some ha
    exact .done a s
  | n + 1, .pure b, p', s, s', a, hp, ha => by
    cases hp
    obtain rfl := Option.some.inj ha
    exact .done b s
  | n + 1, .call e k, p', s, s', a, hp, ha => by
    unfold Prog.advance at hp
    split at hp
    · rename_i hok
      exact .step (hh e s hok) (Exec.of_advance hh hp ha)
    · cases hp

theorem Prog.next?_eq_some {p : Prog S α} {e : S.Op} (h : p.next? = some e) : ∃ k, p = .call e k := by
  cases p with
  | pure b => cases h
  | call e' k =>
    obtain rfl := Option.some.inj h
    exact ⟨k, rfl⟩

/-! ## Programs over other effects -/

/-- Issue the effects of a program as effects of a larger signature, which answers them alike. -/
def Prog.within {T : Signature} (f : S.Op → T.Op) (h : ∀ e, T.Res (f e) → S.Res e) : Prog S α → Prog T α
  | .pure a => .pure a
  | .call e k => .call (f e) fun r => (k (h e r)).within f h

/-- A run there is a run here, if the larger world projects to this one. -/
theorem Exec.of_within {T : Signature} {τ : Type} {f : S.Op → T.Op} {h : ∀ e, T.Res (f e) → S.Res e} {sem : Sem S σ}
    {tem : Sem T τ} {π : τ → σ} (hstep : ∀ e t r t', tem (f e) t r t' → sem e (π t) (h e r) (π t')) :
    ∀ {p : Prog S α} {t t' : τ} {a : α}, Exec tem (p.within f h) t a t' → Exec sem p (π t) a (π t')
  | .pure a, t, t', b, hx => by
    obtain ⟨rfl, rfl⟩ := Exec.pure_iff.1 hx
    exact .done _ _
  | .call e k, t, t', b, hx => by
    obtain ⟨r, t₁, h₁, hk⟩ := Exec.call_iff.1 hx
    exact .step (hstep e t r t₁ h₁) (Exec.of_within hstep hk)

/-- What every effect of the smaller signature does to the larger world, a run of the program does. -/
theorem Exec.within_relates {T : Signature} {τ : Type} {f : S.Op → T.Op} {h : ∀ e, T.Res (f e) → S.Res e} {tem : Sem T τ}
    {R : τ → τ → Prop} (hrefl : ∀ t, R t t) (htrans : ∀ t t' t'', R t t' → R t' t'' → R t t'')
    (hstep : ∀ e t r t', tem (f e) t r t' → R t t') :
    ∀ {p : Prog S α} {t t' : τ} {a : α}, Exec tem (p.within f h) t a t' → R t t'
  | .pure a, t, t', b, hx => by
    obtain ⟨-, rfl⟩ := Exec.pure_iff.1 hx
    exact hrefl _
  | .call e k, t, t', b, hx => by
    obtain ⟨r, t₁, h₁, hk⟩ := Exec.call_iff.1 hx
    exact htrans _ _ _ (hstep e t r t₁ h₁) (Exec.within_relates hrefl htrans hstep hk)

/-! ## Bounded programs -/

/-- Whatever the answers, at most `n` effects. -/
def Prog.Within : (n : Nat) → Prog S α → Prop
  | _, .pure _ => True
  | 0, .call _ _ => False
  | n + 1, .call _ k => ∀ r, Prog.Within n (k r)

theorem Prog.Within.mono : ∀ {n m : Nat} {p : Prog S α}, n ≤ m → Prog.Within n p → Prog.Within m p
  | _, _, .pure _, _, _ => by unfold Prog.Within; trivial
  | n + 1, m + 1, .call _ _, h, hp => fun r => Prog.Within.mono (by omega) (hp r)

theorem Prog.Within.bind {f : α → Prog S β} {m : Nat} (hf : ∀ a, Prog.Within m (f a)) :
    ∀ {n : Nat} {p : Prog S α}, Prog.Within n p → Prog.Within (n + m) (p.bind f)
  | n, .pure a, _ => Prog.Within.mono (Nat.le_add_left m n) (hf a)
  | n + 1, .call e k, hp => by
    rw [Nat.succ_add]
    exact fun r => Prog.Within.bind hf (hp r)

/-! ## The program logic -/

/-- The setting of a program: what effects do, what others may do in between, and what the
program promises of the effects it issues. -/
structure Contract (S : Signature) (σ : Type) where
  sem : Sem S σ
  rely : σ → σ → Prop
  guar : S.Op → σ → Prop
  refl : ∀ s, rely s s
  trans : ∀ {a b c}, rely a b → rely b c → rely a c

namespace Contract

variable (C : Contract S σ)

def Safe : Prog S α → (α → σ → Prop) → σ → Prop
  | .pure a, Q, s => ∀ s₁, C.rely s s₁ → Q a s₁
  | .call e k, Q, s => ∀ s₁, C.rely s s₁ → C.guar e s₁ ∧ ∀ r s₂, C.sem e s₁ r s₂ → Safe (k r) Q s₂

variable {C}

theorem Safe.rely {Q : α → σ → Prop} {s s' : σ} (hr : C.rely s s') :
    ∀ {p : Prog S α}, C.Safe p Q s → C.Safe p Q s'
  | .pure _, h => fun s₁ h1 => h s₁ (C.trans hr h1)
  | .call _ _, h => fun s₁ h1 => h s₁ (C.trans hr h1)

theorem Safe.done {Q : α → σ → Prop} {a : α} {s : σ} (h : C.Safe (.pure a) Q s) : Q a s := h s (C.refl s)

/-- Weakening may use that the postcondition holds wherever others move the final state. -/
theorem Safe.mono_stable {Q Q' : α → σ → Prop} (hQ : ∀ a s, (∀ s', C.rely s s' → Q a s') → Q' a s) :
    ∀ {p : Prog S α} {s : σ}, C.Safe p Q s → C.Safe p Q' s
  | .pure a, _, h => fun s₁ h1 => hQ a s₁ fun s' h' => h s' (C.trans h1 h')
  | .call _ _, _, h => fun s₁ h1 => ⟨(h s₁ h1).1, fun r s₂ h2 => Safe.mono_stable hQ ((h s₁ h1).2 r s₂ h2)⟩

theorem Safe.mono {Q Q' : α → σ → Prop} (hQ : ∀ a s, Q a s → Q' a s) {p : Prog S α} {s : σ} (h : C.Safe p Q s) :
    C.Safe p Q' s :=
  h.mono_stable fun a s' ha => hQ a s' (ha s' (C.refl s'))

theorem Safe.bind {Q : β → σ → Prop} {f : α → Prog S β} :
    ∀ {p : Prog S α} {s : σ}, C.Safe p (fun a s' => C.Safe (f a) Q s') s → C.Safe (p.bind f) Q s
  | .pure _, _, h => h.done
  | .call _ _, _, h => fun s₁ h1 => ⟨(h s₁ h1).1, fun r s₂ h2 => Safe.bind ((h s₁ h1).2 r s₂ h2)⟩

/-- A state predicate that effects and others keep holds at the end as well. -/
theorem Safe.frame {I : σ → Prop} {Q : α → σ → Prop} (hrely : ∀ s s', C.rely s s' → I s → I s')
    (hsem : ∀ e s r s', C.guar e s → C.sem e s r s' → I s → I s') :
    ∀ {p : Prog S α} {s : σ}, C.Safe p Q s → I s → C.Safe p (fun a s' => Q a s' ∧ I s') s
  | .pure _, _, h, hi => fun s₁ h1 => ⟨h s₁ h1, hrely _ _ h1 hi⟩
  | .call _ _, _, h, hi => fun s₁ h1 => ⟨(h s₁ h1).1, fun r s₂ h2 =>
      Safe.frame hrely hsem ((h s₁ h1).2 r s₂ h2) (hsem _ _ _ _ (h s₁ h1).1 h2 (hrely _ _ h1 hi))⟩

/-- The same setting with a stronger guarantee. -/
def strengthen (C : Contract S σ) (g : S.Op → σ → Prop) : Contract S σ :=
  { C with guar := fun e s => C.guar e s ∧ g e s }

theorem Safe.of_strengthen {g : S.Op → σ → Prop} {Q : α → σ → Prop} :
    ∀ {p : Prog S α} {s : σ}, (C.strengthen g).Safe p Q s → C.Safe p Q s
  | .pure _, _, h => h
  | .call _ _, _, h => fun s₁ h1 => ⟨(h s₁ h1).1.1, fun r s₂ h2 => Safe.of_strengthen ((h s₁ h1).2 r s₂ h2)⟩

/-- The same setting with another guarantee. -/
def withGuar (C : Contract S σ) (g : S.Op → σ → Prop) : Contract S σ := { C with guar := g }

/-- A guarantee may be weakened. -/
theorem Safe.weaken {g : S.Op → σ → Prop} {Q : α → σ → Prop} (hg : ∀ e s, g e s → C.guar e s) :
    ∀ {p : Prog S α} {s : σ}, (C.withGuar g).Safe p Q s → C.Safe p Q s
  | .pure _, _, h => h
  | .call _ _, _, h => fun s₁ h1 => ⟨hg _ _ (h s₁ h1).1, fun r s₂ h2 => Safe.weaken hg ((h s₁ h1).2 r s₂ h2)⟩

/-- The same setting with other effects. -/
def withSem (C : Contract S σ) (sem : Sem S σ) : Contract S σ := { C with sem }

/-- What is safe stays so where the effects have fewer behaviours. -/
theorem Safe.narrow {sem : Sem S σ} {Q : α → σ → Prop} (hsem : ∀ e s r s', sem e s r s' → C.sem e s r s') :
    ∀ {p : Prog S α} {s : σ}, C.Safe p Q s → (C.withSem sem).Safe p Q s
  | .pure _, _, h => h
  | .call _ _, _, h => fun s₁ h1 => ⟨(h s₁ h1).1, fun r s₂ h2 => Safe.narrow hsem ((h s₁ h1).2 r s₂ (hsem _ _ _ _ h2))⟩

/-- What is shown under two guarantees holds under both at once. -/
theorem Safe.both {g : S.Op → σ → Prop} {Q Q' : α → σ → Prop} :
    ∀ {p : Prog S α} {s : σ}, C.Safe p Q s → (C.withGuar g).Safe p Q' s →
      (C.strengthen g).Safe p (fun a s => Q a s ∧ Q' a s) s
  | .pure _, _, h, h' => fun s₁ h1 => ⟨h s₁ h1, h' s₁ h1⟩
  | .call _ _, _, h, h' => fun s₁ h1 => ⟨⟨(h s₁ h1).1, (h' s₁ h1).1⟩, fun r s₂ h2 =>
      Safe.both ((h s₁ h1).2 r s₂ h2) ((h' s₁ h1).2 r s₂ h2)⟩

/-- The same setting on the states that satisfy an invariant. -/
def within (C : Contract S σ) (I : σ → Prop) : Contract S {s // I s} where
  sem e s r s' := C.sem e s.1 r s'.1
  rely s s' := C.rely s.1 s'.1
  guar e s := C.guar e s.1
  refl s := C.refl s.1
  trans := C.trans

/-- A program may be proved safe among the states of an invariant that others and its own
guaranteed effects keep. -/
theorem Safe.of_within {I : σ → Prop} {Q : α → σ → Prop} (hrely : ∀ s s', C.rely s s' → I s → I s')
    (hsem : ∀ e s r s', C.guar e s → C.sem e s r s' → I s → I s') :
    ∀ {p : Prog S α} {s : σ} (hs : I s), (C.within I).Safe p (fun a s => Q a s.1) ⟨s, hs⟩ → C.Safe p Q s
  | .pure _, _, hs, h => fun s₁ h1 => h ⟨s₁, hrely _ _ h1 hs⟩ h1
  | .call _ _, _, hs, h => fun s₁ h1 => by
      have hs₁ := hrely _ _ h1 hs
      obtain ⟨hg, hk⟩ := h ⟨s₁, hs₁⟩ h1
      refine ⟨hg, fun r s₂ h2 => ?_⟩
      have hs₂ := hsem _ _ _ _ hg h2 hs₁
      exact Safe.of_within hrely hsem hs₂ (hk r ⟨s₂, hs₂⟩ h2)

/-- An undisturbed execution of a safe program ends in its postcondition. -/
theorem Safe.exec {Q : α → σ → Prop} {p : Prog S α} {s s' : σ} {a : α} (hx : Exec C.sem p s a s') :
    C.Safe p Q s → Q a s' := by
  induction hx with
  | done a s => exact Safe.done
  | step h1 _ ih => intro h; exact ih ((h _ (C.refl _)).2 _ _ h1)

end Contract

/-! ## Programs that can fail -/

abbrev Async (S : Signature) (ε α : Type) := ExceptT ε (Prog S) α

/-- Catch the outcome of a program instead of passing its error on. -/
def attempt (x : Async S ε α) : Async S ε (Except ε α) := ExceptT.mk (x.run.bind fun r => .pure (.ok r))

/-- One effect, whose answer may be an error. -/
def ask (e : S.Op) (f : S.Res e → Except ε α) : Async S ε α := ExceptT.mk (.call e fun r => .pure (f r))

/-- Run a program for each element, keeping the results in order. -/
def collect {γ : Type} (f : γ → Async S ε α) : List γ → Async S ε (List α)
  | [] => pure []
  | x :: l => do
    let a ← f x
    let as ← collect f l
    pure (a :: as)

/-- Run a program for each element. -/
def each {γ : Type} (f : γ → Async S ε Unit) : List γ → Async S ε Unit
  | [] => pure ()
  | x :: l => do
    f x
    each f l

/-- Whatever the answers, at most `n` effects until the value or the error. -/
def Takes (n : Nat) (x : Async S ε α) : Prop := x.run.Within n

theorem Takes.mono {n m : Nat} {x : Async S ε α} (h : Takes n x) (hle : n ≤ m) : Takes m x := Prog.Within.mono hle h

theorem Takes.pure {a : α} : Takes 0 (Pure.pure a : Async S ε α) := trivial

theorem Takes.throw {e : ε} : Takes 0 (throw e : Async S ε α) := trivial

theorem Takes.ask {e : S.Op} {f : S.Res e → Except ε α} : Takes 1 (ask e f) := fun _ => trivial

theorem Takes.bind {n m : Nat} {x : Async S ε α} {f : α → Async S ε β} (h : Takes n x) (hf : ∀ a, Takes m (f a)) :
    Takes (n + m) (x >>= f) := by
  unfold Takes
  rw [ExceptT.run_bind]
  refine Prog.Within.bind (fun r => ?_) h
  cases r with
  | ok a => exact hf a
  | error e => exact Prog.Within.mono (Nat.zero_le m) (show Prog.Within 0 (Prog.pure (Except.error e)) from trivial)

theorem Takes.ite {n : Nat} {c : Prop} [Decidable c] {x y : Async S ε α} (hx : c → Takes n x) (hy : ¬c → Takes n y) :
    Takes n (if c then x else y) := by
  split
  · exact hx ‹_›
  · exact hy ‹_›

/-- A check that throws, in front of the rest. -/
theorem Takes.check {n : Nat} {c : Prop} [Decidable c] {e : ε} {f : Unit → Async S ε α} (h : ¬c → Takes n (f ())) :
    Takes n (if c then (MonadExcept.throw e >>= f) else f ()) := by
  split
  · exact Takes.mono (Takes.throw (e := e)) (Nat.zero_le n)
  · exact h ‹_›

namespace Contract

variable {C : Contract S σ}

/-- `x` ends in `Q` with a value or in `Z` with an error. -/
def Ok (C : Contract S σ) (x : Async S ε α) (s : σ) (Q : α → σ → Prop) (Z : ε → σ → Prop) : Prop :=
  C.Safe x.run (fun r s' => match r with
    | .ok a => Q a s'
    | .error e => Z e s') s

variable {Q Q' : α → σ → Prop} {Z Z' : ε → σ → Prop} {s : σ}

theorem Ok.mono {x : Async S ε α} (h : C.Ok x s Q Z) (hQ : ∀ a s, Q a s → Q' a s)
    (hZ : ∀ e s, Z e s → Z' e s) : C.Ok x s Q' Z' := by
  refine Safe.mono ?_ h
  rintro (e | a) s' h
  · exact hZ e s' h
  · exact hQ a s' h

theorem Ok.imp {x : Async S ε α} (h : C.Ok x s Q Z) (hQ : ∀ a s, Q a s → Q' a s) : C.Ok x s Q' Z :=
  h.mono hQ fun _ _ h => h

theorem Ok.frame {I : σ → Prop} {x : Async S ε α} (hrely : ∀ s s', C.rely s s' → I s → I s')
    (hsem : ∀ e s r s', C.guar e s → C.sem e s r s' → I s → I s') (h : C.Ok x s Q Z) (hi : I s) :
    C.Ok x s (fun a s' => Q a s' ∧ I s') fun e s' => Z e s' ∧ I s' := by
  refine Safe.mono ?_ (Safe.frame hrely hsem h hi)
  rintro (e | a) s' h
  · exact h
  · exact h

theorem Ok.of_strengthen {g : S.Op → σ → Prop} {x : Async S ε α} (h : (C.strengthen g).Ok x s Q Z) : C.Ok x s Q Z :=
  Safe.of_strengthen h

theorem Ok.of_within {I : σ → Prop} {x : Async S ε α} (hrely : ∀ s s', C.rely s s' → I s → I s')
    (hsem : ∀ e s r s', C.guar e s → C.sem e s r s' → I s → I s') (hs : I s)
    (h : (C.within I).Ok x ⟨s, hs⟩ (fun a s => Q a s.1) fun e s => Z e s.1) : C.Ok x s Q Z := by
  refine Safe.of_within hrely hsem hs (Safe.mono ?_ h)
  rintro (e | a) s' h
  · exact h
  · exact h

/-- A state predicate that every effect meeting `g` keeps holds at the end of a program that
meets `g`. -/
theorem Ok.keep {g : S.Op → σ → Prop} {I : σ → Prop} {x : Async S ε α} (h : C.Ok x s Q Z)
    (hg : (C.withGuar g).Ok x s (fun _ _ => True) fun _ _ => True) (hrely : ∀ s s', C.rely s s' → I s → I s')
    (hsem : ∀ e s r s', g e s → C.sem e s r s' → I s → I s') (hi : I s) :
    C.Ok x s (fun a s' => Q a s' ∧ I s') fun e s' => Z e s' ∧ I s' := by
  have hframe := Safe.of_strengthen (Safe.frame (C := C.strengthen g) hrely
    (fun e s r s' hg hs => hsem e s r s' hg.2 hs) (Safe.both h hg) hi)
  refine Safe.mono ?_ hframe
  rintro (e | a) s' ⟨⟨h, _⟩, hi⟩
  · exact ⟨h, hi⟩
  · exact ⟨h, hi⟩

/-- A program that can fail, followed by what is done with its outcome. -/
theorem Ok.seal {x : Async S ε α} {f : Except ε α → Prog S β} {R : β → σ → Prop} (h : C.Ok x s Q Z)
    (hf : ∀ r s', (match r with | .ok a => Q a s' | .error e => Z e s') → C.Safe (f r) R s') :
    C.Safe (x.run.bind f) R s :=
  Safe.bind (Safe.mono (fun r s' hr => hf r s' hr) h)

theorem Ok.pure {a : α} (h : ∀ s', C.rely s s' → Q a s') : C.Ok (Pure.pure a : Async S ε α) s Q Z := h

theorem Ok.throw {e : ε} (h : ∀ s', C.rely s s' → Z e s') : C.Ok (throw e : Async S ε α) s Q Z := h

theorem Ok.bind {x : Async S ε α} {f : α → Async S ε β} {Q : β → σ → Prop}
    (h : C.Ok x s (fun a s' => C.Ok (f a) s' Q Z) Z) : C.Ok (x >>= f) s Q Z := by
  unfold Ok
  rw [ExceptT.run_bind]
  refine Safe.bind (Safe.mono_stable ?_ h)
  rintro (e | a) s' h
  · exact h
  · exact h s' (C.refl s')

theorem Ok.ite {c : Prop} [Decidable c] {x y : Async S ε α} (hx : c → C.Ok x s Q Z) (hy : ¬c → C.Ok y s Q Z) :
    C.Ok (if c then x else y) s Q Z := by
  split
  · exact hx ‹_›
  · exact hy ‹_›

/-- A check that throws, in front of the rest. -/
theorem Ok.check {c : Prop} [Decidable c] {e : ε} {f : Unit → Async S ε α} (hz : c → ∀ s', C.rely s s' → Z e s')
    (h : ¬c → C.Ok (f ()) s Q Z) : C.Ok (if c then (MonadExcept.throw e >>= f) else f ()) s Q Z := by
  split
  · exact Ok.bind (Q := Q) (Ok.throw (hz ‹_›))
  · exact h ‹_›

theorem Ok.attempt {x : Async S ε α} {Q : Except ε α → σ → Prop}
    (h : C.Ok x s (fun a s' => Q (.ok a) s') (fun e s' => Q (.error e) s')) : C.Ok (attempt x) s Q Z := by
  refine Safe.bind (Safe.mono_stable ?_ h)
  rintro (e | a) s' h
  · exact h
  · exact h

theorem Ok.ask {e : S.Op} {f : S.Res e → Except ε α} (hg : ∀ s₁, C.rely s s₁ → C.guar e s₁)
    (h : ∀ s₁ r s₂ s₃, C.rely s s₁ → C.sem e s₁ r s₂ → C.rely s₂ s₃ →
      match f r with
      | .ok a => Q a s₃
      | .error er => Z er s₃) : C.Ok (ask e f) s Q Z :=
  fun s₁ h1 => ⟨hg s₁ h1, fun r s₂ h2 s₃ h3 => h s₁ r s₂ s₃ h1 h2 h3⟩

/-- A loop keeps an invariant indexed by the part of the list already done. -/
theorem Ok.foldlM {γ : Type} {f : β → γ → Async S ε β} (I : List γ → β → σ → Prop)
    (hI : ∀ done b s s', C.rely s s' → I done b s → I done b s') :
    ∀ {l : List γ}, (∀ done b, ∀ x ∈ l, ∀ s, I done b s → C.Ok (f b x) s (fun b' s' => I (done ++ [x]) b' s') Z) →
      ∀ (done : List γ) (b : β) (s : σ), I done b s → C.Ok (l.foldlM f b) s (fun b' s' => I (done ++ l) b' s') Z
  | [], _, done, b, s, h => by
    simp only [List.foldlM_nil, List.append_nil]
    exact Ok.pure fun s' hr => hI _ _ _ _ hr h
  | x :: l, hf, done, b, s, h => by
    rw [List.foldlM_cons]
    refine Ok.bind ((hf done b x (List.mem_cons_self ..) s h).imp fun b' s' h' => ?_)
    simpa using Ok.foldlM I hI (fun done b y hy => hf done b y (List.mem_cons_of_mem x hy)) (done ++ [x]) b' s' h'

theorem Ok.each {γ : Type} {f : γ → Async S ε Unit} (I : List γ → σ → Prop)
    (hI : ∀ done s s', C.rely s s' → I done s → I done s') :
    ∀ {l : List γ}, (∀ done, ∀ x ∈ l, ∀ s, I done s → C.Ok (f x) s (fun _ s' => I (done ++ [x]) s') Z) →
      ∀ (done : List γ) (s : σ), I done s → C.Ok (each f l) s (fun _ s' => I (done ++ l) s') Z
  | [], _, done, s, h => by
    simp only [Effects.each, List.append_nil]
    exact Ok.pure fun s' hr => hI _ _ _ hr h
  | x :: l, hf, done, s, h => by
    refine Ok.bind ((hf done x (List.mem_cons_self ..) s h).imp fun _ s' h' => ?_)
    simpa using Ok.each I hI (fun done y hy => hf done y (List.mem_cons_of_mem x hy)) (done ++ [x]) s' h'

/-- What each pass of a loop establishes, and nothing takes back, holds of all elements at the end. -/
theorem Ok.each_all {γ : Type} {f : γ → Async S ε Unit} {F : γ → σ → Prop} {l : List γ}
    (hrely : ∀ x s s', C.rely s s' → F x s → F x s')
    (hkeep : ∀ x e s r s', C.guar e s → C.sem e s r s' → F x s → F x s')
    (hf : ∀ x ∈ l, ∀ s, C.Ok (f x) s (fun _ s' => F x s') fun _ _ => True) (s : σ) :
    C.Ok (Effects.each f l) s (fun _ s' => ∀ x ∈ l, F x s') fun _ _ => True := by
  have hdone : ∀ (done : List γ) s s', C.rely s s' → (∀ x ∈ done, F x s) → ∀ x ∈ done, F x s' :=
    fun done s s' hr h x hx => hrely x s s' hr (h x hx)
  refine Ok.each (fun done s => ∀ x ∈ done, F x s) hdone (fun done x hx s hi => ?_) [] s fun x hx => by cases hx
  have hframe := (hf x hx s).frame (hdone done) (fun e s r s' hg hsem h y hy => hkeep y e s r s' hg hsem (h y hy)) hi
  refine hframe.mono (fun _ s' hs y hy => ?_) fun _ _ _ => trivial
  rcases List.mem_append.1 hy with hy | hy
  · exact hs.2 y hy
  · obtain rfl := List.mem_singleton.1 hy
    exact hs.1

/-- The setting of a program nobody disturbs. -/
def alone (sem : Sem S σ) : Contract S σ := ⟨sem, Eq, fun _ _ => True, fun _ => rfl, Eq.trans⟩

/-- A complete execution that returns a value ends in the postcondition of values. -/
theorem Ok.exec {x : Async S ε α} {s' : σ} {a : α} (h : C.Ok x s Q Z) (hx : Exec C.sem x.run s (.ok a) s') : Q a s' := by
  have hpost := Safe.exec hx h
  exact hpost

/-! ## Facts that hold in every state -/

/-- Wherever it starts, `x` keeps its guarantee and returns only what satisfies `P`. -/
def Always (C : Contract S σ) (x : Async S ε α) (P : α → Prop) : Prop :=
  ∀ s, C.Ok x s (fun a _ => P a) fun _ _ => True

variable {P P' : α → Prop}

theorem Always.mono {x : Async S ε α} (h : C.Always x P) (hP : ∀ a, P a → P' a) : C.Always x P' :=
  fun s => (h s).imp fun a _ => hP a

/-- Where every effect is free, so is every program. -/
theorem Safe.free (hg : ∀ e s, C.guar e s) : ∀ (p : Prog S α) (s : σ), C.Safe p (fun _ _ => True) s
  | .pure _, _ => fun _ _ => trivial
  | .call _ k, _ => fun s₁ _ => ⟨hg _ s₁, fun r s₂ _ => Safe.free hg (k r) s₂⟩

theorem Always.free (hg : ∀ e s, C.guar e s) (x : Async S ε α) : C.Always x fun _ => True := by
  refine fun s => Safe.mono ?_ (Safe.free hg x.run s)
  rintro (e | a) s' _ <;> trivial

theorem Always.pure {a : α} (h : P a) : C.Always (Pure.pure a : Async S ε α) P := fun _ => Ok.pure fun _ _ => h

theorem Always.throw {e : ε} : C.Always (throw e : Async S ε α) P := fun _ => Ok.throw fun _ _ => trivial

theorem Always.bind {x : Async S ε α} {f : α → Async S ε β} {R : β → Prop} (h : C.Always x P)
    (hf : ∀ a, P a → C.Always (f a) R) : C.Always (x >>= f) R :=
  fun s => Ok.bind ((h s).imp fun a s' ha => hf a ha s')

theorem Always.ite {c : Prop} [Decidable c] {x y : Async S ε α} (hx : c → C.Always x P) (hy : ¬c → C.Always y P) :
    C.Always (if c then x else y) P := by
  split
  · exact hx ‹_›
  · exact hy ‹_›

/-- A check that throws, in front of the rest. -/
theorem Always.check {c : Prop} [Decidable c] {e : ε} {f : Unit → Async S ε α} (h : ¬c → C.Always (f ()) P) :
    C.Always (if c then (MonadExcept.throw e >>= f) else f ()) P := by
  split
  · exact Always.bind (P := fun _ => False) Always.throw fun _ hf => hf.elim
  · exact h ‹_›

theorem Always.attempt {x : Async S ε α} (h : C.Always x P) :
    C.Always (attempt x) fun r => ∀ a, r = .ok a → P a :=
  fun s => Ok.attempt ((h s).mono (fun _ _ ha _ hr => by cases hr; exact ha) fun _ _ _ _ hr => by cases hr)

theorem Always.ask {e : S.Op} {f : S.Res e → Except ε α} (hg : ∀ s, C.guar e s)
    (h : ∀ s r s', C.sem e s r s' → ∀ a, f r = .ok a → P a) : C.Always (ask e f) P := by
  intro s
  refine Ok.ask (fun s₁ _ => hg s₁) fun s₁ r s₂ s₃ _ hr _ => ?_
  cases hf : f r with
  | ok a => exact h s₁ r s₂ hr a hf
  | error e => trivial

theorem Always.each {γ : Type} {f : γ → Async S ε Unit} :
    ∀ {l : List γ}, (∀ x ∈ l, C.Always (f x) fun _ => True) → C.Always (each f l) fun _ => True
  | [], _ => Always.pure trivial
  | x :: _, h => Always.bind (h x (List.mem_cons_self ..)) fun _ _ =>
      Always.each fun y hy => h y (List.mem_cons_of_mem x hy)

theorem Always.foldlM {γ : Type} {f : β → γ → Async S ε β} {I : β → Prop} :
    ∀ {l : List γ} {b : β}, I b → (∀ b, ∀ x ∈ l, I b → C.Always (f b x) I) → C.Always (l.foldlM f b) I
  | [], _, hb, _ => Always.pure hb
  | x :: l, b, hb, h => by
    rw [List.foldlM_cons]
    exact Always.bind (h b x (List.mem_cons_self ..) hb) fun b' hb' =>
      Always.foldlM hb' fun b y hy => h b y (List.mem_cons_of_mem x hy)

theorem Always.collect {γ : Type} {f : γ → Async S ε α} :
    ∀ {l : List γ}, (∀ x ∈ l, C.Always (f x) P) → C.Always (collect f l) fun as => ∀ a ∈ as, P a
  | [], _ => Always.pure fun _ h => by cases h
  | x :: _, h => Always.bind (h x (List.mem_cons_self ..)) fun a ha =>
      Always.bind (Always.collect fun y hy => h y (List.mem_cons_of_mem x hy)) fun as has =>
        Always.pure fun b hb => by
          rcases List.mem_cons.1 hb with rfl | hb
          · exact ha
          · exact has b hb

/-- Every element has its value among what is collected, and every value its element. -/
theorem Always.collect_related {γ : Type} {f : γ → Async S ε α} {R : γ → α → Prop} :
    ∀ {l : List γ}, (∀ x ∈ l, C.Always (f x) (R x)) → C.Always (Effects.collect f l) fun as =>
      (∀ x ∈ l, ∃ a ∈ as, R x a) ∧ ∀ a ∈ as, ∃ x ∈ l, R x a
  | [], _ => by
    refine Always.pure ⟨fun x hx => ?_, fun a ha => ?_⟩
    · cases hx
    · cases ha
  | x :: l, h => by
    refine Always.bind (h x (List.mem_cons_self ..)) fun a ha => ?_
    refine Always.bind (Always.collect_related fun y hy => h y (List.mem_cons_of_mem x hy)) fun as has => Always.pure ?_
    refine ⟨fun y hy => ?_, fun b hb => ?_⟩
    · rcases List.mem_cons.1 hy with rfl | hy
      · exact ⟨a, List.mem_cons_self .., ha⟩
      · obtain ⟨b, hb, hr⟩ := has.1 y hy
        exact ⟨b, List.mem_cons_of_mem a hb, hr⟩
    · rcases List.mem_cons.1 hb with rfl | hb
      · exact ⟨x, List.mem_cons_self .., ha⟩
      · obtain ⟨y, hy, hr⟩ := has.2 b hb
        exact ⟨y, List.mem_cons_of_mem x hy, hr⟩

/-! ## Programs that only read -/

/-- Undisturbed, `x` leaves the state as it is and returns only what satisfies `P`. -/
def Reads (sem : Sem S σ) (x : Async S ε α) (P : α → Prop) : Prop :=
  ∀ s, (alone sem).Ok x s (fun a s' => P a ∧ s' = s) fun _ s' => s' = s

variable {sem : Sem S σ}

theorem Reads.mono {x : Async S ε α} (h : Reads sem x P) (hP : ∀ a, P a → P' a) : Reads sem x P' :=
  fun s => (h s).imp fun a _ ha => ⟨hP a ha.1, ha.2⟩

theorem Reads.pure {a : α} (h : P a) : Reads sem (Pure.pure a : Async S ε α) P := by
  intro s
  refine Ok.pure fun s' hs => ?_
  obtain rfl : s = s' := hs
  exact ⟨h, rfl⟩

theorem Reads.throw {e : ε} : Reads sem (throw e : Async S ε α) P := by
  intro s
  refine Ok.throw fun s' hs => ?_
  obtain rfl : s = s' := hs
  rfl

/-- A reading program in front of any other. -/
theorem Reads.andThen {x : Async S ε α} {f : α → Async S ε β} {Q : β → σ → Prop} (h : Reads sem x P)
    (hf : ∀ a, P a → (alone sem).Ok (f a) s Q Z) (hz : ∀ e, Z e s) : (alone sem).Ok (x >>= f) s Q Z := by
  refine Ok.bind ((h s).mono (fun a s' ha => ?_) fun e s' he => ?_)
  · obtain ⟨ha, rfl⟩ := ha
    exact hf a ha
  · obtain rfl := he
    exact hz e

theorem Reads.bind {x : Async S ε α} {f : α → Async S ε β} {R : β → Prop} (h : Reads sem x P)
    (hf : ∀ a, P a → Reads sem (f a) R) : Reads sem (x >>= f) R :=
  fun s => h.andThen (fun a ha => hf a ha s) fun _ => rfl

theorem Reads.ite {c : Prop} [Decidable c] {x y : Async S ε α} (hx : c → Reads sem x P) (hy : ¬c → Reads sem y P) :
    Reads sem (if c then x else y) P := by
  split
  · exact hx ‹_›
  · exact hy ‹_›

/-- A check that throws, in front of the rest. -/
theorem Reads.check {c : Prop} [Decidable c] {e : ε} {f : Unit → Async S ε α} (h : ¬c → Reads sem (f ()) P) :
    Reads sem (if c then (MonadExcept.throw e >>= f) else f ()) P := by
  split
  · exact Reads.bind (P := fun _ => False) Reads.throw fun _ hf => hf.elim
  · exact h ‹_›

theorem Reads.attempt {x : Async S ε α} (h : Reads sem x P) :
    Reads sem (attempt x) fun r => ∀ a, r = .ok a → P a := by
  intro s
  refine Ok.attempt ((h s).mono (fun a s' ha => ⟨fun b hb => ?_, ha.2⟩) fun e s' he => ⟨fun b hb => ?_, he⟩)
  · cases hb
    exact ha.1
  · cases hb

/-- Two facts about what is read. -/
theorem Reads.both {x : Async S ε α} (h : Reads sem x P) (h' : Reads sem x P') : Reads sem x fun a => P a ∧ P' a := by
  intro s
  have hboth : ((alone sem).strengthen fun _ _ => True).Ok x s (fun a s' => P a ∧ P' a ∧ s' = s) fun _ s' => s' = s := by
    refine Safe.mono ?_ (Safe.both (h s) (h' s))
    rintro (e | a) s' ⟨h1, h2⟩
    · exact h1
    · exact ⟨h1.1, h2.1, h1.2⟩
  exact hboth.of_strengthen.imp fun a s' ha => ⟨⟨ha.1, ha.2.1⟩, ha.2.2⟩

/-- Programs that each read the value of `g`. -/
theorem Reads.collect {γ : Type} {f : γ → Async S ε α} {g : γ → α} :
    ∀ {l : List γ}, (∀ x ∈ l, Reads sem (f x) (· = g x)) → Reads sem (Effects.collect f l) (· = l.map g)
  | [], _ => Reads.pure rfl
  | x :: l, h => by
    refine Reads.bind (h x (List.mem_cons_self ..)) fun a ha => ?_
    refine Reads.bind (Reads.collect fun y hy => h y (List.mem_cons_of_mem x hy)) fun as has => ?_
    exact Reads.pure (by rw [ha, has]; rfl)

end Contract

/-! ## Programs with a memory that outlives a failure -/

abbrev Session (S : Signature) (ε μ α : Type) := ExceptT ε (StateT μ (Prog S)) α

namespace Session

/-- Run a program that does not touch the memory. -/
def lift (x : Async S ε α) : Session S ε μ α := ExceptT.mk fun m => x.run.bind fun r => .pure (r, m)

def load : Session S ε μ μ := ExceptT.mk fun m => .pure (.ok m, m)

def store (m : μ) : Session S ε μ Unit := ExceptT.mk fun _ => .pure (.ok (), m)

/-- The program as seen from outside: the outcome with the memory it leaves. -/
def start (x : Session S ε μ α) (m : μ) : Prog S (Except ε α × μ) := x.run.run m

theorem start_bind (x : Session S ε μ α) (f : α → Session S ε μ β) (m : μ) :
    (x >>= f).start m = (x.start m).bind fun r => match r with
      | (.ok a, m') => (f a).start m'
      | (.error e, m') => .pure (.error e, m') := by
  unfold start
  rw [ExceptT.run_bind, StateT.run_bind]
  refine congrArg _ (funext fun r => ?_)
  obtain ⟨e | a, m'⟩ := r <;> rfl

end Session

namespace Contract

variable {C : Contract S σ} {Q Q' : α → μ → σ → Prop} {Z Z' : ε → μ → σ → Prop} {s : σ} {m : μ}

/-- `x`, begun with memory `m`, ends in `Q` with a value or in `Z` with an error. -/
def OkMem (C : Contract S σ) (x : Session S ε μ α) (m : μ) (s : σ) (Q : α → μ → σ → Prop)
    (Z : ε → μ → σ → Prop) : Prop :=
  C.Safe (x.start m) (fun r s' => match r with
    | (.ok a, m') => Q a m' s'
    | (.error e, m') => Z e m' s') s

theorem OkMem.mono {x : Session S ε μ α} (h : C.OkMem x m s Q Z) (hQ : ∀ a m s, Q a m s → Q' a m s)
    (hZ : ∀ e m s, Z e m s → Z' e m s) : C.OkMem x m s Q' Z' := by
  refine Safe.mono ?_ h
  rintro ⟨e | a, m'⟩ s' h
  · exact hZ e m' s' h
  · exact hQ a m' s' h

theorem OkMem.imp {x : Session S ε μ α} (h : C.OkMem x m s Q Z) (hQ : ∀ a m s, Q a m s → Q' a m s) :
    C.OkMem x m s Q' Z :=
  h.mono hQ fun _ _ _ h => h

theorem OkMem.seal {x : Session S ε μ α} {f : Except ε α × μ → Prog S β} {R : β → σ → Prop} (h : C.OkMem x m s Q Z)
    (hf : ∀ r s', (match r with | (.ok a, m') => Q a m' s' | (.error e, m') => Z e m' s') → C.Safe (f r) R s') :
    C.Safe ((x.start m).bind f) R s :=
  Safe.bind (Safe.mono (fun r s' hr => hf r s' hr) h)

theorem OkMem.of_within {I : σ → Prop} {x : Session S ε μ α} (hrely : ∀ s s', C.rely s s' → I s → I s')
    (hsem : ∀ e s r s', C.guar e s → C.sem e s r s' → I s → I s') (hs : I s)
    (h : (C.within I).OkMem x m ⟨s, hs⟩ (fun a m s => Q a m s.1) fun e m s => Z e m s.1) : C.OkMem x m s Q Z := by
  refine Safe.of_within hrely hsem hs (Safe.mono ?_ h)
  rintro ⟨e | a, m'⟩ s' h
  · exact h
  · exact h

theorem OkMem.pure {a : α} (h : ∀ s', C.rely s s' → Q a m s') : C.OkMem (Pure.pure a) m s Q Z := h

theorem OkMem.throw {e : ε} (h : ∀ s', C.rely s s' → Z e m s') : C.OkMem (throw e) m s Q Z := h

theorem OkMem.load {Q : μ → μ → σ → Prop} (h : ∀ s', C.rely s s' → Q m m s') : C.OkMem Session.load m s Q Z := h

theorem OkMem.store {m' : μ} {Q : Unit → μ → σ → Prop} (h : ∀ s', C.rely s s' → Q () m' s') :
    C.OkMem (Session.store m') m s Q Z := h

theorem OkMem.lift {x : Async S ε α} (h : C.Ok x s (fun a s' => Q a m s') (fun e s' => Z e m s')) :
    C.OkMem (Session.lift x) m s Q Z := by
  refine Safe.bind (Safe.mono_stable ?_ h)
  rintro (e | a) s' h
  · exact h
  · exact h

theorem OkMem.bind {x : Session S ε μ α} {f : α → Session S ε μ β} {Q : β → μ → σ → Prop}
    (h : C.OkMem x m s (fun a m' s' => C.OkMem (f a) m' s' Q Z) Z) : C.OkMem (x >>= f) m s Q Z := by
  unfold OkMem
  rw [Session.start_bind]
  refine Safe.bind (Safe.mono_stable ?_ h)
  rintro ⟨e | a, m'⟩ s' h
  · exact h
  · exact h s' (C.refl s')

theorem OkMem.ite {c : Prop} [Decidable c] {x y : Session S ε μ α} (hx : c → C.OkMem x m s Q Z)
    (hy : ¬c → C.OkMem y m s Q Z) : C.OkMem (if c then x else y) m s Q Z := by
  split
  · exact hx ‹_›
  · exact hy ‹_›

/-- Wherever it starts and whatever its memory, `x` keeps its guarantee. -/
def AlwaysMem (C : Contract S σ) (x : Session S ε μ α) : Prop :=
  ∀ m s, C.OkMem x m s (fun _ _ _ => True) fun _ _ _ => True

theorem AlwaysMem.pure {a : α} : C.AlwaysMem (Pure.pure a : Session S ε μ α) :=
  fun _ _ => OkMem.pure fun _ _ => trivial

theorem AlwaysMem.ite {c : Prop} [Decidable c] {x y : Session S ε μ α} (hx : c → C.AlwaysMem x)
    (hy : ¬c → C.AlwaysMem y) : C.AlwaysMem (if c then x else y) := by
  split
  · exact hx ‹_›
  · exact hy ‹_›

theorem AlwaysMem.load : C.AlwaysMem (Session.load : Session S ε μ μ) := fun _ _ => OkMem.load fun _ _ => trivial

theorem AlwaysMem.store {m' : μ} : C.AlwaysMem (Session.store m' : Session S ε μ Unit) :=
  fun _ _ => OkMem.store fun _ _ => trivial

theorem AlwaysMem.lift {x : Async S ε α} {P : α → Prop} (h : C.Always x P) :
    C.AlwaysMem (Session.lift x : Session S ε μ α) :=
  fun _ s => OkMem.lift ((h s).mono (fun _ _ _ => trivial) fun _ _ _ => trivial)

theorem AlwaysMem.bind {x : Session S ε μ α} {f : α → Session S ε μ β} (h : C.AlwaysMem x)
    (hf : ∀ a, C.AlwaysMem (f a)) : C.AlwaysMem (x >>= f) :=
  fun m s => OkMem.bind ((h m s).imp fun a m' s' _ => hf a m' s')

/-- What a lifted program returns may be used by the rest. -/
theorem AlwaysMem.liftBind {x : Async S ε α} {P : α → Prop} {f : α → Session S ε μ β} (h : C.Always x P)
    (hf : ∀ a, P a → C.AlwaysMem (f a)) : C.AlwaysMem (Session.lift x >>= f) :=
  fun m s => OkMem.bind (OkMem.lift ((h s).mono (fun a s' ha => hf a ha m s') fun _ _ _ => trivial))

end Contract

end Effects
