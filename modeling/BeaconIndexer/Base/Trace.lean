/-
Traces: the effects of a complete run of a program in their order, each with its answer. Answers are
arbitrary, so a trace speaks of every pattern of failures and of any interference by others; a run that
is cut short has a prefix of the trace of one that ends.
-/
import BeaconIndexer.Base.Prog

namespace Effects

variable {S : Signature} {α β γ ε σ : Type}

/-- An effect with its answer. -/
abbrev Event (S : Signature) : Type := (e : S.Op) × S.Res e

inductive Trace : Prog S α → List (Event S) → α → Prop
  | done (a : α) : Trace (.pure a) [] a
  | step {e : S.Op} {k : S.Res e → Prog S α} {r : S.Res e} {l : List (Event S)} {a : α} :
      Trace (k r) l a → Trace (.call e k) (⟨e, r⟩ :: l) a

theorem Trace.pure_iff {a b : α} {l : List (Event S)} : Trace (.pure a : Prog S α) l b ↔ l = [] ∧ b = a := by
  constructor
  · intro h
    cases h
    exact ⟨rfl, rfl⟩
  · rintro ⟨rfl, rfl⟩
    exact .done _

theorem Trace.call_iff {e : S.Op} {k : S.Res e → Prog S α} {l : List (Event S)} {b : α} :
    Trace (.call e k) l b ↔ ∃ r l', l = ⟨e, r⟩ :: l' ∧ Trace (k r) l' b := by
  constructor
  · intro h
    cases h with
    | step h => exact ⟨_, _, rfl, h⟩
  · rintro ⟨r, l', rfl, h⟩
    exact .step h

theorem Trace.bind_iff {f : α → Prog S β} {b : β} : ∀ {p : Prog S α} {l : List (Event S)},
    Trace (p.bind f) l b ↔ ∃ a l₁ l₂, Trace p l₁ a ∧ Trace (f a) l₂ b ∧ l = l₁ ++ l₂
  | .pure a, l => by
    constructor
    · exact fun h => ⟨a, [], l, .done a, h, rfl⟩
    · rintro ⟨_, l₁, l₂, h, hf, rfl⟩
      obtain ⟨rfl, rfl⟩ := Trace.pure_iff.1 h
      exact hf
  | .call e k, l => by
    constructor
    · intro h
      obtain ⟨r, l', rfl, hk⟩ := Trace.call_iff.1 h
      obtain ⟨a, l₁, l₂, h₁, h₂, rfl⟩ := Trace.bind_iff.1 hk
      exact ⟨a, _, l₂, .step h₁, h₂, rfl⟩
    · rintro ⟨a, l₁, l₂, h, hf, rfl⟩
      obtain ⟨r, l', rfl, hk⟩ := Trace.call_iff.1 h
      exact .step (Trace.bind_iff.2 ⟨a, l', l₂, hk, hf, rfl⟩)

/-- The answers decide how far a program runs: of two traces that begin one list, neither is longer. -/
theorem Trace.unique {l₁ m₁ : List (Event S)} {a b : α} {p : Prog S α} (h : Trace p l₁ a) :
    ∀ {l₂ m₂ : List (Event S)}, Trace p l₂ b → l₁ ++ m₁ = l₂ ++ m₂ → l₁ = l₂ ∧ a = b := by
  induction h with
  | done a =>
    intro l₂ m₂ h' _
    obtain ⟨rfl, rfl⟩ := Trace.pure_iff.1 h'
    exact ⟨rfl, rfl⟩
  | step _ ih =>
    intro l₂ m₂ h' heq
    obtain ⟨r', l', rfl, hk⟩ := Trace.call_iff.1 h'
    simp only [List.cons_append, List.cons.injEq, Sigma.mk.injEq, heq_eq_eq, true_and] at heq
    obtain ⟨rfl, hrest⟩ := heq
    obtain ⟨rfl, rfl⟩ := ih hk hrest
    exact ⟨rfl, rfl⟩

/-! ## Programs that can fail -/

/-- `x` issues these effects and ends in a value or an error. -/
def Ends (x : Async S ε α) (l : List (Event S)) (r : Except ε α) : Prop := Trace x.run l r

variable {x : Async S ε α} {l : List (Event S)} {r : Except ε α}

theorem Ends.pure_iff {a : α} : Ends (pure a : Async S ε α) l r ↔ l = [] ∧ r = .ok a := Trace.pure_iff

theorem Ends.throw_iff {e : ε} : Ends (throw e : Async S ε α) l r ↔ l = [] ∧ r = .error e := Trace.pure_iff

theorem Ends.ask_iff {e : S.Op} {f : S.Res e → Except ε α} :
    Ends (ask e f) l r ↔ ∃ a, l = [⟨e, a⟩] ∧ r = f a := by
  constructor
  · intro h
    obtain ⟨a, l', rfl, hk⟩ := Trace.call_iff.1 h
    obtain ⟨rfl, rfl⟩ := Trace.pure_iff.1 hk
    exact ⟨a, rfl, rfl⟩
  · rintro ⟨a, rfl, rfl⟩
    exact .step (.done _)

theorem Ends.bind_iff {f : α → Async S ε β} {r : Except ε β} : Ends (x >>= f) l r ↔
    (∃ e, Ends x l (.error e) ∧ r = .error e) ∨
      ∃ a l₁ l₂, Ends x l₁ (.ok a) ∧ Ends (f a) l₂ r ∧ l = l₁ ++ l₂ := by
  unfold Ends
  rw [ExceptT.run_bind]
  constructor
  · intro h
    obtain ⟨o, l₁, l₂, hx, hf, rfl⟩ := Trace.bind_iff.1 h
    cases o with
    | ok a => exact .inr ⟨a, l₁, l₂, hx, hf, rfl⟩
    | error e =>
      obtain ⟨rfl, rfl⟩ := Trace.pure_iff.1 hf
      exact .inl ⟨e, by simpa using hx, rfl⟩
  · rintro (⟨e, hx, rfl⟩ | ⟨a, l₁, l₂, hx, hf, rfl⟩)
    · exact Trace.bind_iff.2 ⟨.error e, l, [], hx, .done _, by simp⟩
    · exact Trace.bind_iff.2 ⟨.ok a, l₁, l₂, hx, hf, rfl⟩

/-- A sequence that ends in a value has run both of its programs to values. -/
theorem Ends.bind_ok_iff {f : α → Async S ε β} {b : β} : Ends (x >>= f) l (.ok b) ↔
    ∃ a l₁ l₂, Ends x l₁ (.ok a) ∧ Ends (f a) l₂ (.ok b) ∧ l = l₁ ++ l₂ := by
  rw [Ends.bind_iff]
  simp

theorem Ends.attempt_iff {r : Except ε (Except ε α)} : Ends (attempt x) l r ↔ ∃ o, Ends x l o ∧ r = .ok o := by
  constructor
  · intro h
    obtain ⟨o, l₁, l₂, hx, hf, rfl⟩ := Trace.bind_iff.1 h
    obtain ⟨rfl, rfl⟩ := Trace.pure_iff.1 hf
    rw [List.append_nil]
    exact ⟨o, hx, rfl⟩
  · rintro ⟨o, hx, rfl⟩
    exact Trace.bind_iff.2 ⟨o, l, [], hx, .done _, by simp⟩

/-- A loop that ends in a value has run its program for each element. -/
theorem Ends.each_ok {f : γ → Async S ε Unit} : ∀ {xs : List γ} {l : List (Event S)}, Ends (each f xs) l (.ok ()) →
    ∀ x ∈ xs, ∃ seg, Ends (f x) seg (.ok ()) ∧ seg <:+: l
  | [], _, _ => by simp
  | x :: xs, l, h => by
    obtain ⟨_, l₁, l₂, hx, hrest, rfl⟩ := Ends.bind_ok_iff.1 h
    intro y hy
    obtain rfl | hy := List.mem_cons.1 hy
    · exact ⟨l₁, hx, [], l₂, rfl⟩
    · obtain ⟨seg, hseg, hin⟩ := Ends.each_ok hrest y hy
      exact ⟨seg, hseg, hin.trans (List.suffix_append l₁ l₂).isInfix⟩

/-- A loop that ends in an error ends in the error of one of its elements. -/
theorem Ends.each_error {f : γ → Async S ε Unit} {e : ε} : ∀ {xs : List γ} {l : List (Event S)},
    Ends (each f xs) l (.error e) → ∃ x ∈ xs, ∃ seg, Ends (f x) seg (.error e) ∧ seg <:+: l
  | [], l, h => by
    have hr := (Ends.pure_iff.1 h).2
    cases hr
  | x :: xs, l, h => by
    obtain ⟨e', hx, he⟩ | ⟨_, l₁, l₂, hx, hrest, rfl⟩ := Ends.bind_iff.1 h
    · cases he
      exact ⟨x, List.mem_cons_self .., l, hx, List.infix_refl l⟩
    · obtain ⟨y, hy, seg, hseg, hin⟩ := Ends.each_error hrest
      exact ⟨y, List.mem_cons_of_mem _ hy, seg, hseg, hin.trans (List.suffix_append l₁ l₂).isInfix⟩

/-- `R` relates each element in turn to a segment of the trace and to an outcome; other effects may stand
between the segments. -/
inductive Attempts (R : γ → List (Event S) → β → Prop) : List γ → List (Event S) → List β → Prop
  | done (gap : List (Event S)) : Attempts R [] gap []
  | step (gap : List (Event S)) {x : γ} {seg l : List (Event S)} {o : β} {xs : List γ} {os : List β} :
      R x seg o → Attempts R xs l os → Attempts R (x :: xs) (gap ++ (seg ++ l)) (o :: os)

namespace Attempts

variable {R : γ → List (Event S) → β → Prop} {xs : List γ} {l : List (Event S)} {os : List β}

theorem later (h : Attempts R xs l os) (gap : List (Event S)) : Attempts R xs (gap ++ l) os := by
  cases h with
  | done gap' => exact .done _
  | step gap' hx hrest =>
    rw [← List.append_assoc]
    exact .step _ hx hrest

theorem earlier (h : Attempts R xs l os) (gap : List (Event S)) : Attempts R xs (l ++ gap) os := by
  induction h with
  | done gap' => exact .done _
  | step gap' hx _ ih =>
    rw [List.append_assoc, List.append_assoc]
    exact .step _ hx ih

/-- Every element has its outcome. -/
theorem mem (h : Attempts R xs l os) : ∀ x ∈ xs, ∃ seg, ∃ o ∈ os, R x seg o ∧ seg <:+: l := by
  induction h with
  | done gap => simp
  | @step gap x seg l o xs os hx _ ih =>
    intro y hy
    rcases List.mem_cons.1 hy with rfl | hy
    · exact ⟨seg, o, List.mem_cons_self .., hx, ⟨gap, l, List.append_assoc ..⟩⟩
    · obtain ⟨seg', o', ho', hseg, hin⟩ := ih y hy
      refine ⟨seg', o', List.mem_cons_of_mem _ ho', hseg, hin.trans ?_⟩
      rw [← List.append_assoc]
      exact (List.suffix_append (gap ++ seg) l).isInfix

/-- Finer outcomes for each element, of which the given ones are a summary. -/
theorem refine {β' : Type} {R' : γ → List (Event S) → β' → Prop} {Q : β → β' → Prop} (h : Attempts R xs l os)
    (hR : ∀ x seg o, R x seg o → ∃ o', R' x seg o' ∧ Q o o') :
    ∃ os', Attempts R' xs l os' ∧ List.Forall₂ Q os os' := by
  induction h with
  | done gap => exact ⟨[], .done gap, .nil⟩
  | step gap hx _ ih =>
    obtain ⟨o', ho', hQ⟩ := hR _ _ _ hx
    obtain ⟨os', hos', hQs⟩ := ih
    exact ⟨o' :: os', .step gap ho' hos', .cons hQ hQs⟩

end Attempts

/-- A loop whose steps run a program for each element and fold its outcome in. The elements all run, whatever
the outcomes of the others. -/
theorem Ends.foldlM {f : β → γ → Async S ε β} {g : γ → Async S ε α} {next : β → Except ε α → β}
    (hf : ∀ b x l r, Ends (f b x) l r → ∃ o, Ends (g x) l o ∧ r = .ok (next b o)) :
    ∀ {xs : List γ} {b : β} {l : List (Event S)} {r : Except ε β}, Ends (xs.foldlM f b) l r →
      ∃ outcomes : List (Except ε α), r = .ok (outcomes.foldl next b) ∧
        Attempts (fun x => Ends (g x)) xs l outcomes
  | [], b, l, r, h => by
    obtain ⟨rfl, rfl⟩ := Ends.pure_iff.1 h
    exact ⟨[], rfl, .done []⟩
  | x :: xs, b, l, r, h => by
    rw [List.foldlM_cons] at h
    rcases Ends.bind_iff.1 h with ⟨e, hx, rfl⟩ | ⟨b', l₁, l₂, hx, hrest, rfl⟩
    · obtain ⟨o, -, ho⟩ := hf _ _ _ _ hx
      cases ho
    · obtain ⟨o, hg, ho⟩ := hf _ _ _ _ hx
      cases ho
      obtain ⟨outcomes, rfl, hruns⟩ := Ends.foldlM hf hrest
      exact ⟨o :: outcomes, rfl, .step [] hg hruns⟩

/-- What the events of a loop amount to, where each program's events amount to what is wanted of its element: the
list of a run that fails breaks off. -/
theorem Ends.each_collect {δ : Type} {f : γ → Async S ε Unit} {pick : Event S → Option δ} {want : γ → List δ}
    (hf : ∀ x l r, Ends (f x) l r → l.filterMap pick <+: want x ∧ (r = .ok () → l.filterMap pick = want x)) :
    ∀ {xs : List γ} {l : List (Event S)} {r : Except ε Unit}, Ends (each f xs) l r →
      l.filterMap pick <+: xs.flatMap want ∧ (r = .ok () → l.filterMap pick = xs.flatMap want)
  | [], l, r, h => by
    obtain ⟨rfl, rfl⟩ := Ends.pure_iff.1 h
    simp
  | x :: xs, l, r, h => by
    rw [List.flatMap_cons]
    rcases Ends.bind_iff.1 h with ⟨e, hx, rfl⟩ | ⟨⟨⟩, l₁, l₂, hx, hrest, rfl⟩
    · refine ⟨(hf x l _ hx).1.trans (List.prefix_append _ _), fun hok => ?_⟩
      cases hok
    · rw [List.filterMap_append, (hf x l₁ _ hx).2 rfl]
      obtain ⟨hpre, hall⟩ := Ends.each_collect hf hrest
      refine ⟨(List.prefix_append_right_inj _).2 hpre, fun hok => ?_⟩
      rw [hall hok]

namespace Contract

/-- The setting in which answers and states are arbitrary and effects meet `g`. -/
def issuing (g : S.Op → Prop) : Contract S Unit := ⟨fun _ _ _ _ => True, fun _ _ => True, fun e _ => g e, fun _ => trivial, fun _ _ => trivial⟩

theorem Safe.issued {g : S.Op → Prop} {Q : α → Unit → Prop} {p : Prog S α} {l : List (Event S)} {a : α} (h : Trace p l a) :
    (issuing g).Safe p Q () → ∀ ev ∈ l, g ev.1 := by
  induction h with
  | done a => intro _ ev hev; cases hev
  | step _ ih =>
    intro hp ev hev
    obtain ⟨hg, hk⟩ := hp () trivial
    obtain rfl | hev := List.mem_cons.1 hev
    · exact hg
    · exact ih (hk _ () trivial) ev hev

/-- What a program promises of its effects holds of every event of its traces. -/
theorem Always.issued {g : S.Op → Prop} {P : α → Prop} (h : (issuing g).Always x P) (hx : Ends x l r) :
    ∀ ev ∈ l, g ev.1 :=
  Safe.issued hx (h ())

/-- The setting in which every answer is one that `sem` gives in some state, and effects meet `g`. -/
def answeredBy (sem : Sem S σ) (g : S.Op → Prop) : Contract S Unit :=
  ⟨fun e _ r _ => ∃ s s', sem e s r s', fun _ _ => True, fun e _ => g e, fun _ => trivial, fun _ _ => trivial⟩

theorem Safe.answered {sem : Sem S σ} {g : S.Op → Prop} {Q : α → Unit → Prop} {p : Prog S α} {l : List (Event S)}
    {a : α} (h : Trace p l a) : (answeredBy sem g).Safe p Q () → (∀ ev ∈ l, ∃ s s', sem ev.1 s ev.2 s') →
      (∀ ev ∈ l, g ev.1) ∧ Q a () := by
  induction h with
  | done a =>
    intro hp _
    exact ⟨fun ev hev => (by cases hev), hp () trivial⟩
  | step _ ih =>
    intro hp hanswers
    obtain ⟨hg, hk⟩ := hp () trivial
    obtain ⟨hrest, hQ⟩ := ih (hk _ () (hanswers _ (List.mem_cons_self ..))) fun ev hev =>
      hanswers ev (List.mem_cons_of_mem _ hev)
    exact ⟨List.forall_mem_cons.2 ⟨hg, hrest⟩, hQ⟩

/-- The same where the answers are those of `sem`, whatever the states between them; and a value returned is as promised. -/
theorem Always.answered {sem : Sem S σ} {g : S.Op → Prop} {P : α → Prop} (h : (answeredBy sem g).Always x P)
    (hx : Ends x l r) (hanswers : ∀ ev ∈ l, ∃ s s', sem ev.1 s ev.2 s') :
    (∀ ev ∈ l, g ev.1) ∧ ∀ a, r = .ok a → P a := by
  obtain ⟨hg, hpost⟩ := Safe.answered hx (h ()) hanswers
  refine ⟨hg, ?_⟩
  rintro a rfl
  exact hpost

end Contract

end Effects
