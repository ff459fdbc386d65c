/-
Two runs of one program, from two states, that both return a value. The program issues one list of writes if
in both runs it returns the same value and ends in the state that these writes make of the one it started in.
-/
import BeaconIndexer.Base.Prog

namespace Effects

variable {S : Signature} {α β γ ε σ ω : Type} {sem : Sem S σ} {act : ω → σ → σ}

/-- A sequence that returns a value has run both of its programs to values. -/
theorem Exec.bind_ok_iff {x : Async S ε α} {f : α → Async S ε β} {b : β} {s t : σ} :
    Exec sem (x >>= f).run s (.ok b) t ↔ ∃ a s₁, Exec sem x.run s (.ok a) s₁ ∧ Exec sem (f a).run s₁ (.ok b) t := by
  rw [ExceptT.run_bind]
  constructor
  · intro h
    obtain ⟨r, s₁, hx, hf⟩ := Exec.bind_iff.1 h
    cases r with
    | ok a => exact ⟨a, s₁, hx, hf⟩
    | error e =>
      obtain ⟨he, -⟩ := Exec.pure_iff.1 hf
      cases he
  · rintro ⟨a, s₁, hx, hf⟩
    exact Exec.bind_iff.2 ⟨.ok a, s₁, hx, hf⟩

/-- The state after a list of writes. -/
def replay (act : ω → σ → σ) (ws : List ω) (s : σ) : σ := ws.foldl (fun s w => act w s) s

@[simp]
theorem replay_nil (s : σ) : replay act [] s = s := rfl

@[simp]
theorem replay_cons (w : ω) (ws : List ω) (s : σ) : replay act (w :: ws) s = replay act ws (act w s) := rfl

@[simp]
theorem replay_append (ws ws' : List ω) (s : σ) : replay act (ws ++ ws') s = replay act ws' (replay act ws s) :=
  List.foldl_append

/-- What every write of a list keeps, the list keeps. -/
theorem replay_frame {δ : Type} (f : σ → δ) : ∀ {ws : List ω}, (∀ w ∈ ws, ∀ s, f (act w s) = f s) → ∀ s,
    f (replay act ws s) = f s
  | [], _, _ => rfl
  | w :: ws, h, s => by
    rw [replay_cons, replay_frame f fun w' hw' => h w' (List.mem_cons_of_mem w hw')]
    exact h w (List.mem_cons_self ..) s

/-- What every write makes alike of what is alike, the list does. -/
theorem replay_congr {δ : Type} (f : σ → δ) : ∀ {ws : List ω},
    (∀ w ∈ ws, ∀ s s', f s = f s' → f (act w s) = f (act w s')) → ∀ s s', f s = f s' →
      f (replay act ws s) = f (replay act ws s')
  | [], _, _, _, hs => hs
  | w :: ws, h, s, s', hs => by
    rw [replay_cons, replay_cons]
    apply replay_congr f fun w' hw' => h w' (List.mem_cons_of_mem w hw')
    exact h w (List.mem_cons_self ..) s s' hs

theorem mem_part {P : γ → List ω → Prop} {w : ω} : ∀ {l : List γ} {parts : List (List ω)}, List.Forall₂ P l parts →
    w ∈ parts.flatten → ∃ x ∈ l, ∃ part, P x part ∧ w ∈ part
  | _, _, .nil, hw => (List.not_mem_nil hw).elim
  | x :: l, part :: parts, .cons hpart hparts, hw => by
    rw [List.flatten_cons, List.mem_append] at hw
    obtain hw | hw := hw
    · exact ⟨x, List.mem_cons_self .., part, hpart, hw⟩
    · obtain ⟨y, hy, hrest⟩ := mem_part hparts hw
      exact ⟨y, List.mem_cons_of_mem x hy, hrest⟩

/-- Of the parts of a list without duplicates, one alone decides what the others keep. -/
theorem replay_part {δ : Type} {P : γ → List ω → Prop} (f : σ → δ) {x : γ} : ∀ {l : List γ} {parts : List (List ω)},
    List.Forall₂ P l parts → l.Nodup → x ∈ l →
      (∀ y part, P y part → y ≠ x → ∀ w ∈ part, ∀ s, f (act w s) = f s) →
      ∃ part, P x part ∧ ∀ s, ∃ s₁, f s₁ = f s ∧ f (replay act parts.flatten s) = f (replay act part s₁)
  | _, _, .nil, _, hx, _ => (List.not_mem_nil hx).elim
  | y :: l, part :: parts, .cons hpart hparts, hn, hx, hf => by
    obtain ⟨hy, hn⟩ := List.nodup_cons.1 hn
    simp only [List.flatten_cons, replay_append]
    obtain rfl | hx := List.mem_cons.1 hx
    · have hrest : ∀ w ∈ parts.flatten, ∀ s, f (act w s) = f s := by
        intro w hw
        obtain ⟨z, hz, part', hpart', hw⟩ := mem_part hparts hw
        exact hf z part' hpart' (fun h => hy (h ▸ hz)) w hw
      exact ⟨part, hpart, fun s => ⟨s, rfl, replay_frame f hrest _⟩⟩
    · have hne : y ≠ x := fun h => hy (h ▸ hx)
      obtain ⟨part', hpart', hs⟩ := replay_part f hparts hn hx hf
      refine ⟨part', hpart', fun s => ?_⟩
      obtain ⟨s₁, hs₁, hrun⟩ := hs (replay act part s)
      exact ⟨s₁, hs₁.trans (replay_frame f (hf y part hpart hne) s), hrun⟩

/-- From any two states, two runs of `x` that return values return the same one and issue the same writes;
`F` says which. -/
def Issues (sem : Sem S σ) (act : ω → σ → σ) (x : Async S ε α) (F : α → List ω → Prop) : Prop :=
  ∀ s s' a a' t t', Exec sem x.run s (.ok a) t → Exec sem x.run s' (.ok a') t' →
    a = a' ∧ ∃ ws, F a ws ∧ t = replay act ws s ∧ t' = replay act ws s'

/-- `x` writes nothing, and two runs of it read the same. -/
def Agrees (sem : Sem S σ) (x : Async S ε α) (P : α → Prop) : Prop :=
  ∀ s s' a a' t t', Exec sem x.run s (.ok a) t → Exec sem x.run s' (.ok a') t' → a = a' ∧ P a ∧ t = s ∧ t' = s'

namespace Issues

variable {F F' : α → List ω → Prop} {G : β → List ω → Prop}

theorem mono {x : Async S ε α} (h : Issues sem act x F) (hF : ∀ a ws, F a ws → F' a ws) : Issues sem act x F' := by
  intro s s' a a' t t' h₁ h₂
  obtain ⟨heq, ws, hws, ht, ht'⟩ := h s s' a a' t t' h₁ h₂
  exact ⟨heq, ws, hF a ws hws, ht, ht'⟩

theorem pure {a : α} (h : F a []) : Issues sem act (Pure.pure a : Async S ε α) F := by
  intro s s' b b' t t' h₁ h₂
  obtain ⟨hb, rfl⟩ := Exec.pure_iff.1 h₁
  obtain ⟨hb', rfl⟩ := Exec.pure_iff.1 h₂
  cases hb
  cases hb'
  exact ⟨rfl, [], h, rfl, rfl⟩

theorem throw {e : ε} : Issues sem act (throw e : Async S ε α) F := by
  intro s s' b b' t t' h₁ _
  obtain ⟨hb, -⟩ := Exec.pure_iff.1 h₁
  cases hb

theorem bind {x : Async S ε α} {f : α → Async S ε β} (h : Issues sem act x F)
    (hf : ∀ a ws, F a ws → Issues sem act (f a) fun b ws' => G b (ws ++ ws')) : Issues sem act (x >>= f) G := by
  intro s s' b b' t t' h₁ h₂
  obtain ⟨a, s₁, hx, hfa⟩ := Exec.bind_ok_iff.1 h₁
  obtain ⟨a', s₁', hx', hfa'⟩ := Exec.bind_ok_iff.1 h₂
  obtain ⟨rfl, ws, hws, rfl, rfl⟩ := h s s' a a' s₁ s₁' hx hx'
  obtain ⟨heq, ws', hws', ht, ht'⟩ := hf a ws hws _ _ b b' t t' hfa hfa'
  exact ⟨heq, ws ++ ws', hws', by rw [replay_append, ht], by rw [replay_append, ht']⟩

/-- A reading program in front of any other. -/
theorem read {x : Async S ε α} {f : α → Async S ε β} {P : α → Prop} (h : Agrees sem x P)
    (hf : ∀ a, P a → Issues sem act (f a) G) : Issues sem act (x >>= f) G := by
  intro s s' b b' t t' h₁ h₂
  obtain ⟨a, s₁, hx, hfa⟩ := Exec.bind_ok_iff.1 h₁
  obtain ⟨a', s₁', hx', hfa'⟩ := Exec.bind_ok_iff.1 h₂
  obtain ⟨rfl, ha, rfl, rfl⟩ := h s s' a a' s₁ s₁' hx hx'
  exact hf a ha _ _ b b' t t' hfa hfa'

/-- A check that throws, in front of the rest. -/
theorem check {c : Prop} [Decidable c] {e : ε} {f : Unit → Async S ε α} (h : ¬c → Issues sem act (f ()) F) :
    Issues sem act (if c then (MonadExcept.throw e >>= f) else f ()) F := by
  split
  · exact bind (F := fun _ _ => False) throw fun _ _ hf => hf.elim
  · exact h ‹_›

/-- A loop issues what its passes issue, one after the other. -/
theorem each {P : γ → List ω → Prop} {f : γ → Async S ε Unit} :
    ∀ {l : List γ}, (∀ x ∈ l, Issues sem act (f x) fun _ => P x) →
      Issues sem act (Effects.each f l) fun _ ws => ∃ parts, List.Forall₂ P l parts ∧ ws = parts.flatten
  | [], _ => pure ⟨[], .nil, rfl⟩
  | x :: l, h => by
    refine bind (h x (List.mem_cons_self ..)) fun _ part hpart => ?_
    refine (each fun y hy => h y (List.mem_cons_of_mem x hy)).mono fun _ ws hws => ?_
    obtain ⟨parts, hparts, rfl⟩ := hws
    exact ⟨part :: parts, .cons hpart hparts, rfl⟩

end Issues

namespace Agrees

variable {P P' : α → Prop} {R : β → Prop}

theorem mono {x : Async S ε α} (h : Agrees sem x P) (hP : ∀ a, P a → P' a) : Agrees sem x P' := by
  intro s s' a a' t t' h₁ h₂
  obtain ⟨heq, ha, ht⟩ := h s s' a a' t t' h₁ h₂
  exact ⟨heq, hP a ha, ht⟩

theorem pure {a : α} (h : P a) : Agrees sem (Pure.pure a : Async S ε α) P := by
  intro s s' b b' t t' h₁ h₂
  obtain ⟨hb, rfl⟩ := Exec.pure_iff.1 h₁
  obtain ⟨hb', rfl⟩ := Exec.pure_iff.1 h₂
  cases hb
  cases hb'
  exact ⟨rfl, h, rfl, rfl⟩

theorem throw {e : ε} : Agrees sem (throw e : Async S ε α) P := by
  intro s s' b b' t t' h₁ _
  obtain ⟨hb, -⟩ := Exec.pure_iff.1 h₁
  cases hb

theorem bind {x : Async S ε α} {f : α → Async S ε β} (h : Agrees sem x P) (hf : ∀ a, P a → Agrees sem (f a) R) :
    Agrees sem (x >>= f) R := by
  intro s s' b b' t t' h₁ h₂
  obtain ⟨a, s₁, hx, hfa⟩ := Exec.bind_ok_iff.1 h₁
  obtain ⟨a', s₁', hx', hfa'⟩ := Exec.bind_ok_iff.1 h₂
  obtain ⟨rfl, ha, rfl, rfl⟩ := h s s' a a' s₁ s₁' hx hx'
  exact hf a ha _ _ b b' t t' hfa hfa'

/-- A check that throws, in front of the rest. -/
theorem check {c : Prop} [Decidable c] {e : ε} {f : Unit → Async S ε α} (h : ¬c → Agrees sem (f ()) P) :
    Agrees sem (if c then (MonadExcept.throw e >>= f) else f ()) P := by
  split
  · exact bind (P := fun _ => False) throw fun _ hf => hf.elim
  · exact h ‹_›

/-- Programs that read the values which `P` relates to their elements. -/
theorem collect {P : γ → α → Prop} {f : γ → Async S ε α} :
    ∀ {l : List γ}, (∀ x ∈ l, Agrees sem (f x) (P x)) → Agrees sem (Effects.collect f l) (List.Forall₂ P l)
  | [], _ => pure .nil
  | x :: l, h => by
    refine bind (h x (List.mem_cons_self ..)) fun a ha => ?_
    refine bind (collect fun y hy => h y (List.mem_cons_of_mem x hy)) fun as has => ?_
    exact pure (.cons ha has)

end Agrees

end Effects
