/-
Reuse of durable inputs: a stored response is served only while the last canonical block at or
before its epoch boundary is the one it was fetched under.
-/
import BeaconIndexer.Beacon.Inputs

namespace BeaconIndexer

open Effects Relational Ancestry

variable {spec : ChainSpec} {L : Ledger spec} {F : InputFormat} {N : InputNode F}

/-! ## Headers of one chain -/

/-- A header the client accepts. -/
def Accepted (a : BeaconResponse HeaderData) : Prop := a.executionOptimistic ≠ some true ∧ a.data.canonical = true

/-- Accepted headers are those of the chain, and 404 stands for an empty slot. -/
def Truthful (L : Ledger spec) (head : Root) : HeaderId → Except Error (BeaconResponse HeaderData) → Prop
  | .head, .ok a => Accepted a → a.data.root = head ∧ a.data.slot = L.slotOf head
  | .slot s, .ok a => Accepted a → L.rootAt head s = some a.data.root
  | .slot s, .error (.beaconApi 404 _) => L.rootAt head s = none
  | _, _ => True

/-- A header request ends with an error: the node's, or one for a header that is not accepted. -/
def Refused (N : InputNode F) (head : Root) (id : HeaderId) (e : Error) : Prop :=
  N.header head id (.error e) ∨ ∃ a message, N.header head id (.ok a) ∧ ¬Accepted a ∧ e = .inconsistentBeaconData message

/-- A program of the client that runs undisturbed. -/
abbrev InputOk {α : Type} (N : InputNode F) (x : InputTask F α) (w : InputWorld F) (Q : α → InputWorld F → Prop)
    (Z : Error → InputWorld F → Prop) : Prop := (Contract.alone (inputSem N)).Ok x w Q Z

section Rules

variable {α : Type} {w : InputWorld F} {Q : α → InputWorld F → Prop} {Z : Error → InputWorld F → Prop}

theorem InputOk.pure {a : α} (h : Q a w) : InputOk N (Pure.pure a) w Q Z := by
  refine Contract.Ok.pure fun w' hw => ?_
  obtain rfl : w = w' := hw
  exact h

theorem InputOk.throw {e : Error} (h : Z e w) : InputOk N (MonadExcept.throw e : InputTask F α) w Q Z := by
  refine Contract.Ok.throw fun w' hw => ?_
  obtain rfl : w = w' := hw
  exact h

theorem InputOk.ask {e : (inputs F).Op} {f : (inputs F).Res e → Except Error α}
    (h : ∀ r w', inputSem N e w r w' → match f r with | .ok a => Q a w' | .error er => Z er w') :
    InputOk N (Effects.ask e f) w Q Z := by
  refine Contract.Ok.ask (fun _ _ => trivial) fun w₁ r w₂ w₃ h1 hr h3 => ?_
  obtain rfl : w = w₁ := h1
  obtain rfl : w₂ = w₃ := h3
  have hpost := h r _ hr
  cases hf : f r with
  | ok a => rw [hf] at hpost; exact hpost
  | error er => rw [hf] at hpost; exact hpost

end Rules

theorem ok_readHeader (block : HeaderId) (w : InputWorld F) :
    InputOk N (readHeader block) w (fun a w' => N.header w.head block (.ok a) ∧ Accepted a ∧ w' = w)
      fun e w' => Refused N w.head block e ∧ w' = w := by
  refine Contract.Ok.bind (InputOk.ask fun r w' hr => ?_)
  obtain ⟨hr, rfl⟩ := hr
  cases r with
  | error e => exact ⟨.inl hr, rfl⟩
  | ok a =>
    change InputOk N _ _ _ _
    by_cases ho : a.executionOptimistic = some true
    · simp only [ho, if_true]
      exact Contract.Ok.bind (InputOk.throw ⟨.inr ⟨a, _, hr, fun h => h.1 ho, rfl⟩, rfl⟩)
    · simp only [ho, if_false]
      by_cases hc : a.data.canonical = false
      · simp only [hc, if_true]
        exact Contract.Ok.bind (InputOk.throw ⟨.inr ⟨a, _, hr, fun h => absurd (hc.symm.trans h.2) (by decide), rfl⟩, rfl⟩)
      · rw [if_neg hc]
        exact InputOk.pure ⟨hr, ⟨ho, by simpa using hc⟩, rfl⟩

/-! ## Anchors -/

/-- The last canonical block at or before a slot, from what the chain has at each slot. -/
theorem lastRoot_of_rootAt {head r : Root} {s t : Nat} (hr : L.rootAt head s = some r) (hs : s ≤ t)
    (hgap : ∀ u, s < u → u ≤ t → L.rootAt head u = none) : L.lastRoot head t = some r := by
  obtain ⟨hanc, hslot⟩ := Ledger.rootAt_iff.1 hr
  refine Forest.below_iff.2 ⟨hanc, ?_, fun z hz hzt => ?_⟩
  · change L.slotOf r ≤ t
    omega
  · refine hanc.of_height_le hz ?_
    change L.slotOf z ≤ L.slotOf r
    by_contra hlt
    have hnone := hgap (L.slotOf z) (by omega) hzt
    rw [Ledger.rootAt_iff.2 ⟨hz, rfl⟩] at hnone
    cases hnone

theorem lastRoot_head {head : Root} {t : Nat} (h : L.slotOf head ≤ t) : L.lastRoot head t = some head :=
  Forest.below_iff.2 ⟨.refl _, h, fun _ hz _ => hz⟩

/-- Some slot of the search has a block, or the epoch has not begun. -/
def Near (L : Ledger spec) (head : Root) (epoch : Nat) : Prop :=
  L.slotOf head ≤ spec.epochStartSlot epoch ∨ ∃ s ≤ spec.epochStartSlot epoch,
    spec.epochStartSlot epoch ≤ s + spec.slotsPerEpoch * 2 ∧ L.rootAt head s ≠ none

/-- A header request fails although the chain has an answer. -/
def Faulty (N : InputNode F) (head : Root) : Prop :=
  (∃ e, Refused N head .head e) ∨ ∃ s e, Refused N head (.slot s) e ∧ ∀ message, e ≠ .beaconApi 404 message

theorem ok_searchAnchor (hN : ∀ head block r, N.header head block r → Truthful L head block r) (w : InputWorld F) :
    ∀ (tries slot : Nat), InputOk N (searchAnchor tries slot) w
      (fun a w' => w' = w ∧ match a with
        | some (s, r) => s ≤ slot ∧ L.rootAt w.head s = some r ∧ ∀ u, s < u → u ≤ slot → L.rootAt w.head u = none
        | none => ∀ u ≤ slot, slot < u + tries → L.rootAt w.head u = none)
      fun _ w' => w' = w ∧ Faulty N w.head
  | 0, slot => InputOk.pure ⟨rfl, fun u hu hlt => by omega⟩
  | tries + 1, slot => by
    refine Contract.Ok.bind (Contract.Ok.attempt ((ok_readHeader _ w).mono (fun a w' h => ?_) fun e w' h => ?_))
    · obtain ⟨hr, hacc, rfl⟩ := h
      exact InputOk.pure ⟨rfl, le_rfl, hN _ _ _ hr hacc, fun u h1 h2 => by omega⟩
    · obtain ⟨hr, rfl⟩ := h
      split
      · rename_i heq
        cases heq
      · rename_i message heq
        cases heq
        -- 404 stands for an empty slot, and the search goes on below it
        have hnone : L.rootAt w'.head slot = none := by
          rcases hr with hr | ⟨_, _, _, _, he⟩
          · exact hN _ _ _ hr
          · cases he
        by_cases h0 : slot = 0
        · rw [if_pos h0]
          refine InputOk.pure ⟨rfl, fun u hu _ => ?_⟩
          obtain rfl : u = slot := by omega
          exact hnone
        · rw [if_neg h0]
          refine (ok_searchAnchor hN w' tries (slot - 1)).mono (fun a w h => ⟨h.1, ?_⟩) fun _ _ h => h
          have hpost := h.2
          cases a with
          | none =>
            intro u hu hlt
            by_cases hus : u = slot
            · exact hus ▸ hnone
            · exact hpost u (by omega) (by omega)
          | some a =>
            refine ⟨by omega, hpost.2.1, fun u h1 h2 => ?_⟩
            by_cases hus : u = slot
            · exact hus ▸ hnone
            · exact hpost.2.2 u h1 (by omega)
      · rename_i e' hne heq
        cases heq
        exact InputOk.throw ⟨rfl, .inr ⟨slot, e, hr, fun message he => hne message (by rw [he])⟩⟩

/-- The anchor is the last canonical block at or before the boundary. -/
theorem ok_inputAnchor (hN : ∀ head block r, N.header head block r → Truthful L head block r) (epoch : Nat)
    (w : InputWorld F) : InputOk N (inputAnchor spec epoch) w
      (fun a w' => w' = w ∧ L.boundary w.head epoch = some a.2 ∧ L.slotOf a.2 = a.1)
      fun _ w' => w' = w ∧ (Faulty N w.head ∨ ¬Near L w.head epoch) := by
  refine Contract.Ok.bind ((ok_readHeader _ w).mono (fun a w' h => ?_) fun e w' h => ?_)
  · obtain ⟨hr, hacc, rfl⟩ := h
    obtain ⟨hroot, hslot⟩ := hN _ _ _ hr hacc
    change InputOk N _ _ _ _
    by_cases hle : a.data.slot ≤ spec.epochStartSlot epoch
    · simp only [hle, if_true]
      refine InputOk.pure ⟨rfl, ?_, ?_⟩
      · rw [hroot]
        exact lastRoot_head (hslot ▸ hle)
      · rw [hroot, hslot]
    · simp only [hle, if_false]
      refine Contract.Ok.bind ((ok_searchAnchor hN w' _ _).mono (fun found w h => ?_) fun _ w h => ⟨h.1, .inl h.2⟩)
      obtain ⟨rfl, hfound⟩ := h
      cases found with
      | none =>
        refine InputOk.throw ⟨rfl, .inr ?_⟩
        rintro (hhead | ⟨s, hs, hfar, hne⟩)
        · exact hle (hslot ▸ hhead)
        · exact hne (hfound s hs (by omega))
      | some anchor =>
        obtain ⟨s, r⟩ := anchor
        obtain ⟨hs, hr, hgap⟩ := hfound
        exact InputOk.pure ⟨rfl, lastRoot_of_rootAt hr hs hgap, (Ledger.rootAt_iff.1 hr).2⟩
  · exact ⟨h.2, .inl (.inl ⟨e, h.1⟩)⟩

theorem ok_anchorUnchanged (hN : ∀ head block r, N.header head block r → Truthful L head block r) (hit : CachedInput F)
    (w : InputWorld F) : InputOk N (anchorUnchanged hit) w
      (fun b w' => w' = w ∧ (b = true ↔ L.rootAt w.head hit.anchorSlot = some hit.anchorRoot) ∧
        L.rootAt w.head hit.anchorSlot ≠ none)
      fun e w' => w' = w ∧ Refused N w.head (.slot hit.anchorSlot) e := by
  refine Contract.Ok.bind ((ok_readHeader _ w).mono (fun a w' h => ?_) fun e w' h => ⟨h.2, h.1⟩)
  obtain ⟨hr, hacc, rfl⟩ := h
  have hroot : L.rootAt w'.head hit.anchorSlot = some a.data.root := hN _ _ _ hr hacc
  refine InputOk.pure ⟨rfl, ?_, by rw [hroot]; exact Option.some_ne_none _⟩
  rw [hroot, decide_eq_true_eq, Option.some.injEq]

/-- The anchor of an entry is what it was: as the last block before the boundary, or at its slot. -/
def Current (L : Ledger spec) (head : Root) (epoch : Nat) (hit : CachedInput F) : Prop :=
  if hit.anchorSlot < spec.epochStartSlot epoch then
    L.boundary head epoch = some hit.anchorRoot ∧ L.slotOf hit.anchorRoot = hit.anchorSlot
  else L.rootAt head hit.anchorSlot = some hit.anchorRoot

/-! ## Reusing an entry -/

/-- The response passes the checks: its header requests were accepted. -/
def Checked (N : InputNode F) (head : Root) (p : InputResponse F.Data) : Prop :=
  p.executionOptimistic ≠ some true ∧
    ∀ d, p.dependentRoot = some d → ∃ a, N.header head (.root d) (.ok a) ∧ Accepted a

/-- The response may fail a check. -/
def Uncertain (N : InputNode F) (head : Root) (p : InputResponse F.Data) : Prop :=
  p.executionOptimistic = some true ∨ ∃ d e, p.dependentRoot = some d ∧ Refused N head (.root d) e

theorem ok_checkResponse (p : InputResponse F.Data) (w : InputWorld F) :
    InputOk N (checkResponse p) w (fun _ w' => w' = w ∧ Checked N w.head p)
      fun _ w' => w' = w ∧ Uncertain N w.head p := by
  unfold checkResponse
  by_cases ho : p.executionOptimistic = some true
  · simp only [ho, if_true]
    exact Contract.Ok.bind (InputOk.throw ⟨rfl, .inl ho⟩)
  · simp only [ho, if_false]
    cases hd : p.dependentRoot with
    | none => exact InputOk.pure ⟨rfl, ho, fun d h => by rw [hd] at h; cases h⟩
    | some d =>
      refine Contract.Ok.bind ((ok_readHeader _ w).mono (fun a w' h => ?_) fun e w' h => ⟨h.2, .inr ⟨d, e, hd, h.1⟩⟩)
      obtain ⟨hr, hacc, rfl⟩ := h
      refine InputOk.pure ⟨rfl, ho, fun d' h => ?_⟩
      rw [hd] at h
      cases h
      exact ⟨a, hr, hacc⟩

theorem ok_ofResult {α : Type} (x : Except Error α) (w : InputWorld F) :
    InputOk N (InputTask.ofResult x) w (fun a w' => w' = w ∧ x = .ok a) fun e w' => w' = w ∧ x = .error e := by
  cases x with
  | ok a => exact InputOk.pure ⟨rfl, rfl⟩
  | error e => exact InputOk.throw ⟨rfl, rfl⟩

/-- What may keep an entry from being judged: a refused header, or a current response that fails a check. -/
def Undecided (N : InputNode F) (L : Ledger spec) (head : Root) (path : InputPath) (hit : CachedInput F) : Prop :=
  (hit.anchorSlot < spec.epochStartSlot path.epoch ∧ (Faulty N head ∨ ¬Near L head path.epoch)) ∨
  (spec.epochStartSlot path.epoch ≤ hit.anchorSlot ∧ ∃ e, Refused N head (.slot hit.anchorSlot) e) ∨
  (Current L head path.epoch hit ∧ ((∃ e, F.parse path hit.response = .error e) ∨
    ∃ p, F.parse path hit.response = .ok p ∧ Uncertain N head p))

theorem ok_stillCurrent (hN : ∀ head block r, N.header head block r → Truthful L head block r) (path : InputPath)
    (hit : CachedInput F) (w : InputWorld F) : InputOk N (stillCurrent spec path hit) w
      (fun b w' => w' = w ∧ (b = true ↔ Current L w.head path.epoch hit) ∧
        (hit.anchorSlot < spec.epochStartSlot path.epoch ∨ L.rootAt w.head hit.anchorSlot ≠ none))
      fun _ w' => w' = w ∧ Undecided N L w.head path hit := by
  refine Contract.Ok.ite (fun hlt => ?_) fun hlt => ?_
  · refine Contract.Ok.bind ((ok_inputAnchor hN path.epoch w).mono (fun a w' h => ?_) fun e w' h => ?_)
    · obtain ⟨rfl, hb, hs⟩ := h
      refine InputOk.pure ⟨rfl, ?_, .inl hlt⟩
      unfold Current
      rw [if_pos hlt, hb, decide_eq_true_eq, Option.some.injEq]
      constructor
      · rintro rfl
        exact ⟨rfl, hs⟩
      · rintro ⟨hr, hslot⟩
        exact Prod.ext (by rw [← hs, hr, hslot]) hr
    · exact ⟨h.1, .inl ⟨hlt, h.2⟩⟩
  · refine (ok_anchorUnchanged hN hit w).mono (fun b w' h => ?_) fun e w' h => ?_
    · obtain ⟨rfl, hb, hne⟩ := h
      refine ⟨rfl, ?_, .inr hne⟩
      unfold Current
      rw [if_neg hlt, hb]
    · exact ⟨h.1, .inr (.inl ⟨not_lt.1 hlt, e, h.2⟩)⟩

theorem ok_reuseInput (hN : ∀ head block r, N.header head block r → Truthful L head block r) (path : InputPath)
    (hit : CachedInput F) (w : InputWorld F) : InputOk N (reuseInput spec path hit) w
      (fun a w' => w' = w ∧ match a with
        | some p => Current L w.head path.epoch hit ∧ F.parse path hit.response = .ok p ∧ Checked N w.head p
        | none => ¬Current L w.head path.epoch hit ∧
            (hit.anchorSlot < spec.epochStartSlot path.epoch ∨ L.rootAt w.head hit.anchorSlot ≠ none))
      fun _ w' => w' = w ∧ Undecided N L w.head path hit := by
  refine Contract.Ok.bind ((ok_stillCurrent hN path hit w).imp fun b w' h => ?_)
  obtain ⟨rfl, hcur, hne⟩ := h
  refine Contract.Ok.ite (fun hb => ?_) fun hb => ?_
  · have hc := hcur.1 hb
    refine Contract.Ok.bind ((ok_ofResult _ w').mono (fun p w'' h => ?_) fun e w'' h => ?_)
    · obtain ⟨rfl, hp⟩ := h
      refine Contract.Ok.bind ((ok_checkResponse p w'').mono (fun _ w h => ?_) fun _ w h => ?_)
      · obtain ⟨rfl, hchecked⟩ := h
        exact InputOk.pure ⟨rfl, hc, hp, hchecked⟩
      · exact ⟨h.1, .inr (.inr ⟨hc, .inr ⟨p, hp, h.2⟩⟩)⟩
    · exact ⟨h.1, .inr (.inr ⟨hc, .inl ⟨e, h.2⟩⟩)⟩
  · exact InputOk.pure ⟨rfl, fun hc => hb (hcur.2 hc), hne⟩

/-! ## Fetching -/

/-- The same chain and stored inputs, at a later time and with more answers. -/
structure Later (w w' : InputWorld F) : Prop where
  head : w'.head = w.head
  durable : w'.durable = w.durable
  clock : w.clock ≤ w'.clock
  answered : ∀ x ∈ w.answered, x ∈ w'.answered

theorem Later.refl (w : InputWorld F) : Later w w := ⟨rfl, rfl, le_rfl, fun _ h => h⟩

theorem Later.trans {w₁ w₂ w₃ : InputWorld F} (h1 : Later w₁ w₂) (h2 : Later w₂ w₃) : Later w₁ w₃ :=
  ⟨h2.head.trans h1.head, h2.durable.trans h1.durable, h1.clock.trans h2.clock, fun x hx => h2.answered x (h1.answered x hx)⟩

/-- The node answers a request for the entry. -/
def Answers (N : InputNode F) (head : Root) (key : InputKey) (r : Except Error F.Raw) : Prop :=
  ∃ req : InputRequest, req.key = key ∧ N.fetch head req r

theorem ok_fetch (req : InputRequest) (w : InputWorld F) : InputOk N (InputTask.fetch req) w
    (fun raw w' => Later w w' ∧ (req.key, raw, w.head) ∈ w'.answered ∧ Answers N w.head req.key (.ok raw))
    fun e w' => Later w w' ∧ Answers N w.head req.key (.error e) := by
  refine InputOk.ask fun r w' hr => ?_
  obtain ⟨hr, rfl⟩ := hr
  cases r with
  | ok raw => exact ⟨⟨rfl, rfl, le_rfl, fun _ h => List.mem_cons_of_mem _ h⟩, List.mem_cons_self .., req, rfl, hr⟩
  | error e => exact ⟨.refl w, req, rfl, hr⟩

theorem ok_getInputResponse (path : InputPath) (w : InputWorld F) : InputOk N (getInputResponse spec path) w
    (fun raw w' => Later w w' ∧ (⟨path, []⟩, raw, w.head) ∈ w'.answered ∧ Answers N w.head ⟨path, []⟩ (.ok raw))
    fun _ w' => Later w w' ∧ ∃ e, Answers N w.head ⟨path, []⟩ (.error e) := by
  refine Contract.Ok.bind (Contract.Ok.attempt ((ok_fetch (.get path) w).mono (fun raw w' h => ?_) fun e w' h => ?_))
  · exact InputOk.pure h
  · obtain ⟨hw, ha⟩ := h
    have hfail : ∃ e, Answers N w.head ⟨path, []⟩ (.error e) := ⟨e, ha⟩
    split
    · rename_i heq
      cases heq
    · rename_i message heq
      cases heq
      cases path with
      | committees epoch =>
        -- the fallback: committees from the state of the head
        refine Contract.Ok.bind ((ok_readHeader .head w').mono (fun a w₁ h => ?_) fun e w₁ h => ⟨h.2 ▸ hw, hfail⟩)
        obtain ⟨-, -, rfl⟩ := h
        refine Contract.Ok.ite (fun _ => ?_) fun _ => InputOk.throw ⟨hw, hfail⟩
        refine Contract.Ok.bind ((ok_fetch _ w₁).mono (fun raw w₂ h => ?_) fun e w₂ h => ⟨hw.trans h.1, hfail⟩)
        obtain ⟨hw₂, hmem, hans⟩ := h
        rw [hw.head] at hmem hans
        refine Contract.Ok.bind ((ok_readHeader _ w₂).mono (fun a w₃ h => ?_) fun e w₃ h => ?_)
        · obtain ⟨-, -, rfl⟩ := h
          refine Contract.Ok.check (fun _ w₄ h => ?_) fun _ => InputOk.pure ⟨hw.trans hw₂, hmem, hans⟩
          obtain rfl : w₃ = w₄ := h
          exact ⟨hw.trans hw₂, hfail⟩
        · obtain ⟨-, rfl⟩ := h
          exact ⟨hw.trans hw₂, hfail⟩
      | _ => exact InputOk.throw ⟨hw, hfail⟩
    · rename_i heq
      cases heq
      exact InputOk.throw ⟨hw, hfail⟩

theorem ok_requestInput (path : InputPath) {body : Option (List String)} {indices : List String}
    (hi : body = none → indices = []) (w : InputWorld F) : InputOk N (requestInput spec path body indices) w
      (fun raw w' => Later w w' ∧ (⟨path, indices⟩, raw, w.head) ∈ w'.answered ∧ Answers N w.head ⟨path, indices⟩ (.ok raw))
      fun _ w' => Later w w' ∧ ∃ e, Answers N w.head ⟨path, indices⟩ (.error e) := by
  cases body with
  | some b => exact (ok_fetch _ w).mono (fun _ _ h => h) fun e _ h => ⟨h.1, e, h.2⟩
  | none =>
    rw [hi rfl]
    exact ok_getInputResponse path w

/-- A part of a call that runs undisturbed with its caches. -/
abbrev InputOkMem {α : Type} (N : InputNode F) (x : InputSession F α) (m : InputCaches F) (w : InputWorld F)
    (Q : α → InputCaches F → InputWorld F → Prop) (Z : Error → InputCaches F → InputWorld F → Prop) : Prop :=
  (Contract.alone (inputSem N)).OkMem x m w Q Z

section MemRules

variable {α β : Type} {m : InputCaches F} {w : InputWorld F} {Q : α → InputCaches F → InputWorld F → Prop}
  {Z : Error → InputCaches F → InputWorld F → Prop}

theorem InputOkMem.pure {a : α} (h : Q a m w) : InputOkMem N (Pure.pure a) m w Q Z := by
  refine Contract.OkMem.pure fun w' hw => ?_
  obtain rfl : w = w' := hw
  exact h

theorem InputOkMem.throw {e : Error} (h : Z e m w) :
    InputOkMem N (MonadExcept.throw e : InputSession F α) m w Q Z := by
  refine Contract.OkMem.throw fun w' hw => ?_
  obtain rfl : w = w' := hw
  exact h

theorem InputOkMem.load {f : InputCaches F → InputSession F α} (h : InputOkMem N (f m) m w Q Z) :
    InputOkMem N (Session.load >>= f) m w Q Z := by
  refine Contract.OkMem.bind (Contract.OkMem.load fun w' hw => ?_)
  obtain rfl : w = w' := hw
  exact h

theorem InputOkMem.store {m' : InputCaches F} {f : Unit → InputSession F α} (h : InputOkMem N (f ()) m' w Q Z) :
    InputOkMem N (Session.store m' >>= f) m w Q Z := by
  refine Contract.OkMem.bind (Contract.OkMem.store fun w' hw => ?_)
  obtain rfl : w = w' := hw
  exact h

theorem InputOkMem.lift {x : InputTask F β} {f : β → InputSession F α} {P : β → InputWorld F → Prop}
    {Y : Error → InputWorld F → Prop} (hx : InputOk N x w P Y) (hf : ∀ b w', P b w' → InputOkMem N (f b) m w' Q Z)
    (hz : ∀ e w', Y e w' → Z e m w') : InputOkMem N (Session.lift x >>= f) m w Q Z :=
  Contract.OkMem.bind (Contract.OkMem.lift (hx.mono hf hz))

end MemRules

theorem ok_now (w : InputWorld F) : InputOk N InputTask.now w (fun t w' => Later w w' ∧ w'.clock = t)
    fun _ _ => False := by
  refine InputOk.ask fun r w' hr => ?_
  obtain ⟨hle, rfl⟩ := hr
  exact ⟨⟨rfl, rfl, hle, fun _ h => h⟩, rfl⟩

/-- A 404 of the entry is less than 30 seconds old. -/
def Unexpired (m : InputCaches F) (key : InputKey) (clock : Nat) : Prop :=
  ∃ since message, m.unavailable.peek key = some (since, message) ∧ clock - since < 30000

theorem ok_checkUnavailable (key : InputKey) (m : InputCaches F) (w : InputWorld F) :
    InputOkMem N (checkUnavailable key) m w (fun _ m' w' => m' = m ∧ Later w w')
      fun _ m' w' => m' = m ∧ Later w w' ∧ Unexpired m key w.clock := by
  refine InputOkMem.load ?_
  cases hu : m.unavailable.peek key with
  | none => exact InputOkMem.pure ⟨rfl, .refl w⟩
  | some entry =>
    obtain ⟨since, message⟩ := entry
    refine InputOkMem.lift (ok_now w) (fun t w' h => ?_) fun _ _ h => h.elim
    obtain ⟨hw, rfl⟩ := h
    have hclock := hw.clock
    refine Contract.OkMem.ite (fun hlt => ?_) fun _ => InputOkMem.pure ⟨rfl, hw⟩
    exact InputOkMem.throw ⟨rfl, hw, since, message, hu, by omega⟩

theorem ok_noteUnavailable (key : InputKey) (r : Except Error F.Raw) (m : InputCaches F) (w : InputWorld F) :
    InputOkMem N (noteUnavailable key r) m w (fun raw m' w' => m'.input = m.input ∧ w' = w ∧ r = .ok raw)
      fun _ m' w' => m'.input = m.input ∧ Later w w' ∧ ∃ e, r = .error e := by
  unfold noteUnavailable
  split
  · exact InputOkMem.load (InputOkMem.store (InputOkMem.pure ⟨rfl, rfl, rfl⟩))
  · refine InputOkMem.lift (ok_now w) (fun t w' h => ?_) fun _ _ h => h.elim
    exact InputOkMem.load (InputOkMem.store (InputOkMem.throw ⟨rfl, h.1, _, rfl⟩))
  · exact InputOkMem.throw ⟨rfl, .refl w, _, rfl⟩

/-- What may keep a call from fetching the entry. -/
def Unfetchable (N : InputNode F) (L : Ledger spec) (m : InputCaches F) (w : InputWorld F) (key : InputKey) : Prop :=
  Unexpired m key w.clock ∨ Faulty N w.head ∨ ¬Near L w.head key.path.epoch ∨ N.dbFails ∨
    (∃ e, Answers N w.head key (.error e)) ∨
    ∃ raw, Answers N w.head key (.ok raw) ∧ ((∃ e, F.parse key.path raw = .error e) ∨
      ∃ p, F.parse key.path raw = .ok p ∧ Uncertain N w.head p)

/-- The entry was answered on the chain of a head, and its anchor is the last block before the boundary
there. -/
structure FetchedOn (L : Ledger spec) (w : InputWorld F) (head : Root) (key : InputKey) (input : CachedInput F) : Prop where
  answered : (key, input.response, head) ∈ w.answered
  boundary : L.boundary head key.path.epoch = some input.anchorRoot
  slot : L.slotOf input.anchorRoot = input.anchorSlot

theorem ok_fetchInput (hN : ∀ head block r, N.header head block r → Truthful L head block r) (pooled : Bool)
    (path : InputPath) {body : Option (List String)} {indices : List String} (hi : body = none → indices = [])
    (m : InputCaches F) (w : InputWorld F) :
    InputOkMem N (fetchInput spec pooled path body indices) m w
      (fun p m' w' => ∃ input, F.parse path input.response = .ok p ∧ FetchedOn L w' w.head ⟨path, indices⟩ input ∧
        m'.input = m.input.put ⟨path, indices⟩ input ∧
        w'.durable = (if pooled then w.durable.put ⟨path, indices⟩ input else w.durable) ∧
        w'.head = w.head ∧ ∀ x ∈ w.answered, x ∈ w'.answered)
      fun _ m' w' => m'.input = m.input ∧ Later w w' ∧ Unfetchable N L m w ⟨path, indices⟩ := by
  refine Contract.OkMem.bind ((ok_checkUnavailable _ m w).mono (fun _ m₁ w₁ h => ?_) fun _ m₁ w₁ h => ?_)
  rotate_left
  · obtain ⟨rfl, hw, hu⟩ := h
    exact ⟨rfl, hw, .inl hu⟩
  obtain ⟨rfl, hw⟩ := h
  refine InputOkMem.lift (ok_inputAnchor hN path.epoch w₁) (fun anchor w₂ h => ?_) fun _ w₂ h => ?_
  rotate_left
  · obtain ⟨rfl, h⟩ := h
    rw [hw.head] at h
    exact ⟨rfl, hw, .inr (h.imp_right .inl)⟩
  obtain ⟨rfl, hboundary, hslot⟩ := h
  rw [hw.head] at hboundary
  -- the outcome of the request is looked at together with the note it leaves
  have hrequest : InputOk N (attempt (requestInput spec path body indices)) w₂
      (fun r w₃ => Later w₂ w₃ ∧ match r with
        | .ok raw => (⟨path, indices⟩, raw, w.head) ∈ w₃.answered ∧ Answers N w.head ⟨path, indices⟩ (.ok raw)
        | .error _ => ∃ e, Answers N w.head ⟨path, indices⟩ (.error e)) fun _ _ => False := by
    rw [← hw.head]
    exact Contract.Ok.attempt ((ok_requestInput path hi w₂).mono (fun raw w₃ h => h) fun e w₃ h => h)
  refine InputOkMem.lift hrequest (fun r w₃ h => ?_) fun _ _ h => h.elim
  obtain ⟨hw₃, hr⟩ := h
  have hw₃ := hw.trans hw₃
  refine Contract.OkMem.bind ((ok_noteUnavailable _ r m₁ w₃).mono (fun raw m₂ w₄ h => ?_) fun _ m₂ w₄ h => ?_)
  rotate_left
  · obtain ⟨hm, hw₄, e, rfl⟩ := h
    exact ⟨hm, hw₃.trans hw₄, .inr (.inr (.inr (.inr (.inl hr))))⟩
  obtain ⟨hm, rfl, rfl⟩ := h
  obtain ⟨hanswered, hans⟩ := hr
  have hunparsed : ∀ {e}, F.parse path raw = .error e → Unfetchable N L m₁ w ⟨path, indices⟩ :=
    fun h => .inr (.inr (.inr (.inr (.inr ⟨raw, hans, .inl ⟨_, h⟩⟩))))
  refine InputOkMem.lift (ok_ofResult (F.parse path raw) w₄) (fun p w₅ h => ?_) fun e w₅ h => ?_
  rotate_left
  · obtain ⟨rfl, h⟩ := h
    exact ⟨hm, hw₃, hunparsed h⟩
  obtain ⟨rfl, hp⟩ := h
  refine InputOkMem.lift (ok_checkResponse p w₅) (fun _ w₆ h => ?_) fun e w₆ h => ?_
  rotate_left
  · obtain ⟨rfl, h⟩ := h
    rw [hw₃.head] at h
    exact ⟨hm, hw₃, .inr (.inr (.inr (.inr (.inr ⟨raw, hans, .inr ⟨p, hp, h⟩⟩))))⟩
  obtain ⟨rfl, -⟩ := h
  refine InputOkMem.lift (ok_inputAnchor hN path.epoch w₆) (fun after w₇ h => ?_) fun _ w₇ h => ?_
  rotate_left
  · obtain ⟨rfl, h⟩ := h
    rw [hw₃.head] at h
    exact ⟨hm, hw₃, .inr (h.imp_right .inl)⟩
  obtain ⟨rfl, hafter, hafterSlot⟩ := h
  rw [hw₃.head, hboundary, Option.some.injEq] at hafter
  have hsame : after = anchor := Prod.ext (by rw [← hafterSlot, ← hslot, hafter]) hafter.symm
  dsimp only
  rw [if_neg (not_not.2 hsame)]
  have hsave : InputOk N (if pooled then InputTask.save ⟨path, indices⟩ ⟨anchor.1, anchor.2, raw⟩ else pure ()) w₇
      (fun _ w₈ => w₈ = { w₇ with durable := if pooled then w₇.durable.put ⟨path, indices⟩ ⟨anchor.1, anchor.2, raw⟩
        else w₇.durable }) fun _ w₈ => w₈ = w₇ ∧ N.dbFails := by
    refine Contract.Ok.ite (fun hp => InputOk.ask fun r w₈ hr => ?_) fun hp => InputOk.pure ?_
    · rw [if_pos hp]
      rcases hr with ⟨rfl, rfl⟩ | ⟨hdb, message, rfl, rfl⟩
      · rfl
      · exact ⟨rfl, hdb⟩
    · rw [if_neg hp]
  refine InputOkMem.lift hsave (fun _ w₈ h => ?_) fun _ w₈ h => ?_
  rotate_left
  · obtain ⟨rfl, h⟩ := h
    exact ⟨hm, hw₃, .inr (.inr (.inr (.inl h)))⟩
  subst h
  refine InputOkMem.load (InputOkMem.store (InputOkMem.pure ⟨⟨anchor.1, anchor.2, raw⟩, hp, ?_, ?_, ?_, hw₃.head, ?_⟩))
  · exact ⟨hanswered, hboundary, hslot⟩
  · rw [hm]
  · rw [hw₃.durable]
  · exact hw₃.answered

/-! ## A call -/

def entryOf (pooled : Bool) (m : InputCaches F) (w : InputWorld F) (key : InputKey) : Option (CachedInput F) :=
  match m.input.peek key with
  | some hit => some hit
  | none => if pooled then w.durable.get key else none

theorem ok_cachedEntry (pooled : Bool) (key : InputKey) (m : InputCaches F) (w : InputWorld F) :
    InputOkMem N (cachedEntry pooled key) m w (fun cached m' w' => cached = entryOf pooled m w key ∧ m' = m ∧ w' = w)
      fun _ m' w' => m' = m ∧ w' = w ∧ N.dbFails := by
  refine InputOkMem.load ?_
  unfold entryOf
  cases hp : m.input.peek key with
  | some hit => exact InputOkMem.pure ⟨rfl, rfl, rfl⟩
  | none =>
    refine Contract.OkMem.ite (fun hpool => Contract.OkMem.lift (InputOk.ask fun r w' hr => ?_)) fun hpool => ?_
    · obtain ⟨rfl, rfl | ⟨hdb, message, rfl⟩⟩ := hr
      · exact ⟨(if_pos hpool).symm, rfl, rfl⟩
      · exact ⟨rfl, rfl, hdb⟩
    · exact InputOkMem.pure ⟨(if_neg hpool).symm, rfl, rfl⟩

theorem ok_reuseCached (hN : ∀ head block r, N.header head block r → Truthful L head block r) (key : InputKey)
    (cached : Option (CachedInput F)) (m : InputCaches F) (w : InputWorld F) :
    InputOkMem N (reuseCached spec key cached) m w
      (fun a m' w' => w' = w ∧ match a with
        | some p => ∃ hit, cached = some hit ∧ Current L w.head key.path.epoch hit ∧
            F.parse key.path hit.response = .ok p ∧ Checked N w.head p ∧ m' = { m with input := m.input.put key hit }
        | none => m' = m ∧ ∀ hit, cached = some hit → ¬Current L w.head key.path.epoch hit ∧
            (hit.anchorSlot < spec.epochStartSlot key.path.epoch ∨ L.rootAt w.head hit.anchorSlot ≠ none))
      fun _ m' w' => m' = m ∧ w' = w ∧ ∃ hit, cached = some hit ∧ Undecided N L w.head key.path hit := by
  cases cached with
  | none => exact InputOkMem.pure ⟨rfl, rfl, nofun⟩
  | some hit =>
    refine InputOkMem.lift (ok_reuseInput hN key.path hit w) (fun a w' h => ?_) fun _ w' h => ⟨rfl, h.1, hit, rfl, h.2⟩
    obtain ⟨rfl, h⟩ := h
    cases a with
    | none =>
      refine InputOkMem.pure ⟨rfl, rfl, ?_⟩
      rintro _ ⟨⟩
      exact h
    | some p =>
      obtain ⟨hcur, hparse, hchecked⟩ := h
      exact InputOkMem.load (InputOkMem.store (InputOkMem.pure ⟨rfl, hit, rfl, hcur, hparse, hchecked, rfl⟩))

/-- The key of a call. -/
def callKey (path : InputPath) (body : Option (List String)) : InputKey := ⟨path, (body.getD []).mergeSort.dedup⟩

/-- The call returned a stored response: it is kept in memory and nothing else changed. -/
structure ServedStored (N : InputNode F) (L : Ledger spec) (pooled : Bool) (key : InputKey) (m : InputCaches F)
    (w : InputWorld F) (p : InputResponse F.Data) (hit : CachedInput F) (m' : InputCaches F) (w' : InputWorld F) : Prop where
  entry : entryOf pooled m w key = some hit
  current : Current L w.head key.path.epoch hit
  parsed : F.parse key.path hit.response = .ok p
  checked : Checked N w.head p
  caches : m' = { m with input := m.input.put key hit }
  world : w' = w

/-- The call returned a fresh response, which replaces whatever was stored. -/
structure ServedFetched (L : Ledger spec) (pooled : Bool) (key : InputKey) (m : InputCaches F) (w : InputWorld F)
    (p : InputResponse F.Data) (input : CachedInput F) (m' : InputCaches F) (w' : InputWorld F) : Prop where
  stale : ∀ hit, entryOf pooled m w key = some hit → ¬Current L w.head key.path.epoch hit ∧
    (hit.anchorSlot < spec.epochStartSlot key.path.epoch ∨ L.rootAt w.head hit.anchorSlot ≠ none)
  parsed : F.parse key.path input.response = .ok p
  fetched : FetchedOn L w' w.head key input
  caches : m'.input = m.input.put key input
  durable : w'.durable = if pooled then w.durable.put key input else w.durable
  head : w'.head = w.head
  answered : ∀ x ∈ w.answered, x ∈ w'.answered

theorem ok_cachedInput (hN : ∀ head block r, N.header head block r → Truthful L head block r) (pooled : Bool)
    (path : InputPath) (body : Option (List String)) (m : InputCaches F) (w : InputWorld F) :
    InputOkMem N (cachedInput spec pooled path body) m w
      (fun a m' w' => match a with
        | (.stored, p) => ∃ hit, ServedStored N L pooled (callKey path body) m w p hit m' w'
        | (.fetched, p) => ∃ input, ServedFetched L pooled (callKey path body) m w p input m' w')
      fun _ m' w' => m'.input = m.input ∧ Later w w' ∧ (N.dbFails ∨
        (∃ hit, entryOf pooled m w (callKey path body) = some hit ∧ Undecided N L w.head path hit) ∨
        Unfetchable N L m w (callKey path body)) := by
  refine Contract.OkMem.bind ((ok_cachedEntry pooled _ m w).mono (fun cached m₁ w₁ h => ?_) fun _ m₁ w₁ h => ?_)
  rotate_left
  · obtain ⟨rfl, rfl, hdb⟩ := h
    exact ⟨rfl, .refl _, .inl hdb⟩
  obtain ⟨rfl, rfl, rfl⟩ := h
  refine Contract.OkMem.bind ((ok_reuseCached hN _ _ m₁ w₁).mono (fun a m₂ w₂ h => ?_) fun _ m₂ w₂ h => ?_)
  rotate_left
  · obtain ⟨rfl, rfl, h⟩ := h
    exact ⟨rfl, .refl _, .inr (.inl h)⟩
  obtain ⟨rfl, h⟩ := h
  cases a with
  | some p =>
    obtain ⟨hit, hentry, hcur, hparse, hchecked, rfl⟩ := h
    exact InputOkMem.pure ⟨hit, hentry, hcur, hparse, hchecked, rfl, rfl⟩
  | none =>
    obtain ⟨rfl, hstale⟩ := h
    refine Contract.OkMem.bind ((ok_fetchInput hN pooled path (fun hb => ?_) m₂ w₂).mono (fun p m₃ w₃ h => ?_)
      fun _ m₃ w₃ h => ⟨h.1, h.2.1, .inr (.inr h.2.2)⟩)
    · rw [hb]
      simp
    · obtain ⟨input, hparse, hfetched, hm, hdurable, hhead, hmore⟩ := h
      exact InputOkMem.pure ⟨input, hstale, hparse, hfetched, hm, hdurable, hhead, hmore⟩

/-! ## Runs -/

/-- A node that answers headers by its chain; anything may fail. -/
def truthfulNode (L : Ledger spec) (F : InputFormat) : InputNode F := ⟨Truthful L, fun _ _ _ => True, True⟩

/-- What can happen between calls and in one: a call on a fixed chain, a restart, the cleared caches of a
rollback, pruning of old epochs, another canonical chain, and time. -/
inductive InputStep (L : Ledger spec) (pooled : Bool) : InputCaches F × InputWorld F → InputCaches F × InputWorld F → Prop
  | call {m w r m' w'} (path : InputPath) (body : Option (List String)) :
      Exec (inputSem (truthfulNode L F)) ((cachedInput spec pooled path body).start m) w (r, m') w' →
      InputStep L pooled (m, w) (m', w')
  | restart {m w} : InputStep L pooled (m, w) (.new F, w)
  | invalidate {m w} : InputStep L pooled (m, w) (m.invalidated F, w)
  | prune {m w} (oldestNeeded : Nat) :
      InputStep L pooled (m, w) (m, { w with durable := w.durable.deleteWhere fun key _ => key.path.epoch < oldestNeeded })
  | reorg {m w} (head : Root) : InputStep L pooled (m, w) (m, { w with head })
  | wait {m w} (time : Nat) : InputStep L pooled (m, w) (m, { w with clock := w.clock + time })

/-- Nothing is stored and nothing was answered yet. -/
def InputWorld.fresh (head : Root) : InputWorld F := ⟨head, .empty, 0, []⟩

def InputReach (L : Ledger spec) (pooled : Bool) (m : InputCaches F) (w : InputWorld F) : Prop :=
  ∃ head, Relation.ReflTransGen (InputStep L pooled) (.new F, .fresh head) (m, w)

/-- Every entry was fetched under its anchor. -/
def Anchored (L : Ledger spec) (m : InputCaches F) (w : InputWorld F) : Prop :=
  ∀ key input, m.input.peek key = some input ∨ w.durable.get key = some input → ∃ head, FetchedOn L w head key input

theorem Anchored.entry {pooled : Bool} {m : InputCaches F} {w : InputWorld F} (h : Anchored L m w) {key : InputKey}
    {hit : CachedInput F} (he : entryOf pooled m w key = some hit) : ∃ head, FetchedOn L w head key hit := by
  unfold entryOf at he
  cases hp : m.input.peek key with
  | some input =>
    rw [hp] at he
    cases he
    exact h key hit (.inl hp)
  | none =>
    rw [hp] at he
    simp only at he
    split at he
    · exact h key hit (.inr he)
    · cases he

theorem FetchedOn.mono {w w' : InputWorld F} {head : Root} {key : InputKey} {input : CachedInput F}
    (h : FetchedOn L w head key input) (hw : ∀ x ∈ w.answered, x ∈ w'.answered) : FetchedOn L w' head key input :=
  ⟨hw _ h.answered, h.boundary, h.slot⟩

theorem Anchored.sub {m m' : InputCaches F} {w w' : InputWorld F} (h : Anchored L m w)
    (hm : ∀ key input, m'.input.peek key = some input → m.input.peek key = some input)
    (hd : ∀ key input, w'.durable.get key = some input → w.durable.get key = some input)
    (hw : ∀ x ∈ w.answered, x ∈ w'.answered) : Anchored L m' w' := by
  intro key input hin
  obtain ⟨head, hf⟩ := h key input (hin.imp (hm key input) (hd key input))
  exact ⟨head, hf.mono hw⟩

theorem Anchored.stored {pooled : Bool} {key : InputKey} {m m' : InputCaches F} {w w' : InputWorld F}
    {p : InputResponse F.Data} {hit : CachedInput F} (h : Anchored L m w)
    (hs : ServedStored N L pooled key m w p hit m' w') : Anchored L m' w' := by
  obtain rfl := hs.world
  intro key' input hin
  rcases hin with hin | hin
  · rw [hs.caches] at hin
    rcases Lru.of_peek_put hin with ⟨rfl, rfl⟩ | ⟨-, hin⟩
    · exact h.entry hs.entry
    · exact h key' input (.inl hin)
  · exact h key' input (.inr hin)

theorem Anchored.fetched {pooled : Bool} {key : InputKey} {m m' : InputCaches F} {w w' : InputWorld F}
    {p : InputResponse F.Data} {fresh : CachedInput F} (h : Anchored L m w)
    (hs : ServedFetched L pooled key m w p fresh m' w') : Anchored L m' w' := by
  have hold : ∀ key' input, m.input.peek key' = some input ∨ w.durable.get key' = some input →
      ∃ head, FetchedOn L w' head key' input := fun key' input hin => by
    obtain ⟨head, hf⟩ := h key' input hin
    exact ⟨head, hf.mono hs.answered⟩
  intro key' input hin
  rcases hin with hin | hin
  · rw [hs.caches] at hin
    rcases Lru.of_peek_put hin with ⟨rfl, rfl⟩ | ⟨-, hin⟩
    · exact ⟨w.head, hs.fetched⟩
    · exact hold key' input (.inl hin)
  · rw [hs.durable] at hin
    split at hin
    · rw [Table.get_put] at hin
      split at hin
      · rename_i hk
        cases hin
        exact ⟨w.head, hk ▸ hs.fetched⟩
      · exact hold key' input (.inr hin)
    · exact hold key' input (.inr hin)

theorem Anchored.step {pooled : Bool} {x y : InputCaches F × InputWorld F} (hs : InputStep L pooled x y)
    (h : Anchored L x.1 x.2) : Anchored L y.1 y.2 := by
  cases hs with
  | @call m w r m' w' path body hx =>
    have hpost := Contract.Safe.exec hx (ok_cachedInput (N := truthfulNode L F) (fun _ _ _ h => h) pooled path body m w)
    rcases r with e | ⟨_ | _, p⟩
    · obtain ⟨hm, hw, -⟩ := hpost
      exact h.sub (fun key input hin => by rw [← hm]; exact hin) (fun key input hin => by rw [← hw.durable]; exact hin)
        hw.answered
    · obtain ⟨hit, hserved⟩ := hpost
      exact h.stored hserved
    · obtain ⟨input, hserved⟩ := hpost
      exact h.fetched hserved
  | restart => exact h.sub (fun _ _ hin => by cases hin) (fun _ _ hin => hin) fun _ hx => hx
  | invalidate => exact h.sub (fun _ _ hin => by cases hin) (fun _ _ hin => hin) fun _ hx => hx
  | prune oldestNeeded =>
    refine h.sub (fun _ _ hin => hin) (fun key input hin => ?_) fun _ hx => hx
    rw [Table.get_deleteWhere] at hin
    exact (Option.filter_eq_some_iff.1 hin).1
  | reorg head => exact h.sub (fun _ _ hin => hin) (fun _ _ hin => hin) fun _ hx => hx
  | wait time => exact h.sub (fun _ _ hin => hin) (fun _ _ hin => hin) fun _ hx => hx

theorem anchored_reach {pooled : Bool} {m : InputCaches F} {w : InputWorld F} (h : InputReach L pooled m w) :
    Anchored L m w := by
  obtain ⟨head, h⟩ := h
  have hrun : ∀ {x}, Relation.ReflTransGen (InputStep L pooled) (.new F, .fresh head) x → Anchored L x.1 x.2 := by
    intro x hx
    induction hx with
    | refl =>
      rintro key input (hin | hin)
      · cases hin
      · cases hin
    | tail _ hs ih => exact ih.step hs
  exact hrun h

/-- A current anchor is the last canonical block before the boundary. -/
theorem FetchedOn.boundary_eq {w : InputWorld F} {head head' : Root} {key : InputKey} {hit : CachedInput F}
    (h : FetchedOn L w head' key hit) (hc : Current L head key.path.epoch hit) :
    L.boundary head key.path.epoch = L.boundary head' key.path.epoch := by
  rw [h.boundary]
  unfold Current at hc
  split at hc
  · exact hc.1
  · -- the anchor is at the boundary slot itself
    rename_i hle
    have hslot : L.slotOf hit.anchorRoot ≤ spec.epochStartSlot key.path.epoch := (Forest.below_iff.1 h.boundary).2.1
    have hs := h.slot
    exact lastRoot_of_rootAt hc (by omega) fun u h1 h2 => by omega

/-- Two chains with the same last block before a slot agree up to it. -/
theorem rootAt_eq_of_lastRoot {head head' root : Root} {t : Nat} (h : L.lastRoot head t = some root)
    (h' : L.lastRoot head' t = some root) {s : Nat} (hs : s ≤ t) : L.rootAt head s = L.rootAt head' s := by
  by_cases hle : s ≤ L.slotOf root
  · exact (Forest.node_eq_of_anc (Forest.below_iff.1 h).1 hle).trans
      (Forest.node_eq_of_anc (Forest.below_iff.1 h').1 hle).symm
  · exact (Forest.node_none_of_below h (not_le.1 hle) hs).trans (Forest.node_none_of_below h' (not_le.1 hle) hs).symm

/-- A response that is served without a request was answered for the same entry on a chain with the same
last block at or before the epoch boundary (the head, before the epoch has begun), so with the same chain
up to there. -/
theorem stored_input_same_branch {pooled : Bool} {m : InputCaches F} {w : InputWorld F} (h : InputReach L pooled m w)
    {path : InputPath} {body : Option (List String)} {p : InputResponse F.Data} {m' : InputCaches F} {w' : InputWorld F}
    (hx : Exec (inputSem (truthfulNode L F)) ((cachedInput spec pooled path body).start m) w (.ok (.stored, p), m') w') :
    w' = w ∧ ∃ raw head root, (callKey path body, raw, head) ∈ w.answered ∧ F.parse path raw = .ok p ∧
      L.boundary head path.epoch = some root ∧ L.boundary w.head path.epoch = some root ∧
      ∀ s ≤ spec.epochStartSlot path.epoch, L.rootAt w.head s = L.rootAt head s := by
  obtain ⟨hit, hserved⟩ := Contract.Safe.exec hx
    (ok_cachedInput (N := truthfulNode L F) (fun _ _ _ h => h) pooled path body m w)
  obtain ⟨head, hf⟩ := (anchored_reach h).entry hserved.entry
  have hb : L.boundary w.head path.epoch = some hit.anchorRoot := (hf.boundary_eq hserved.current).trans hf.boundary
  exact ⟨hserved.world, hit.response, head, hit.anchorRoot, hf.answered, hserved.parsed, hf.boundary, hb,
    fun s hs => rootAt_eq_of_lastRoot hb hf.boundary hs⟩

/-- A genesis block and its child. -/
def shortLedger : Ledger (⟨2, 8, 8, 0, by decide⟩ : ChainSpec) :=
  .ofBlocks ((Table.empty.put ⟨0⟩ (bareBlock 0 ⟨0⟩)).put ⟨1⟩ (bareBlock 1 ⟨0⟩)) (by decide) (fun _ => []) fun _ => 0

/-- Every response is empty and settled. -/
def emptyFormat : InputFormat := ⟨Unit, Unit, fun _ _ => .ok ⟨(), some false, none⟩⟩

def genesisInput : CachedInput emptyFormat := ⟨0, ⟨0⟩, ()⟩

def genesisKey : InputKey := ⟨.proposerDuties 0, []⟩

def genesisCached : InputCaches emptyFormat :=
  let caches := InputCaches.new emptyFormat
  ⟨caches.input.put genesisKey genesisInput, caches.unavailable.pop genesisKey⟩

def genesisAnswered (head : Root) : InputWorld emptyFormat :=
  ⟨head, Table.empty.put genesisKey genesisInput, 0, [(genesisKey, (), ⟨0⟩)]⟩

theorem genesis_fetched : Exec (inputSem (truthfulNode shortLedger emptyFormat))
    ((cachedInput ⟨2, 8, 8, 0, by decide⟩ true (.proposerDuties 0) none).start (.new emptyFormat)) (.fresh ⟨0⟩)
    (.ok (.fetched, ⟨(), some false, none⟩), genesisCached) (genesisAnswered ⟨0⟩) := by
  unfold cachedInput
  simp only [Option.getD_none, List.mergeSort_nil, List.dedup_nil]
  have hhead : Truthful shortLedger ⟨0⟩ .head (.ok ⟨⟨⟨0⟩, true, 0, ⟨0⟩⟩, some false⟩) := fun _ => ⟨rfl, rfl⟩
  refine Exec.call_iff.2 ⟨.ok none, _, ⟨rfl, .inl rfl⟩, ?_⟩
  refine Exec.call_iff.2 ⟨.ok ⟨⟨⟨0⟩, true, 0, ⟨0⟩⟩, some false⟩, _, ⟨hhead, rfl⟩, ?_⟩
  refine Exec.call_iff.2 ⟨.ok (), _, ⟨trivial, rfl⟩, ?_⟩
  refine Exec.call_iff.2 ⟨.ok ⟨⟨⟨0⟩, true, 0, ⟨0⟩⟩, some false⟩, _, ⟨hhead, rfl⟩, ?_⟩
  exact Exec.call_iff.2 ⟨.ok (), _, .inl ⟨rfl, rfl⟩, .done _ _⟩

/-- After the child became the head, the boundary block is still the genesis block. -/
theorem genesis_reused : Exec (inputSem (truthfulNode shortLedger emptyFormat))
    ((cachedInput ⟨2, 8, 8, 0, by decide⟩ true (.proposerDuties 0) none).start genesisCached) (genesisAnswered ⟨1⟩)
    (.ok (.stored, ⟨(), some false, none⟩), { genesisCached with input := genesisCached.input.put genesisKey genesisInput })
    (genesisAnswered ⟨1⟩) := by
  unfold cachedInput
  simp only [Option.getD_none, List.mergeSort_nil, List.dedup_nil]
  have hheader : Truthful shortLedger ⟨1⟩ (.slot 0) (.ok ⟨⟨⟨0⟩, true, 0, ⟨0⟩⟩, some false⟩) := fun _ => rfl
  refine Exec.call_iff.2 ⟨.ok ⟨⟨⟨0⟩, true, 0, ⟨0⟩⟩, some false⟩, _, ⟨hheader, rfl⟩, ?_⟩
  exact .done _ _

theorem stored_input_same_branch_genesis : ∃ raw head root, (genesisKey, raw, head) ∈ (genesisAnswered ⟨1⟩).answered ∧
    emptyFormat.parse (.proposerDuties 0) raw = .ok ⟨(), some false, none⟩ ∧
    shortLedger.boundary head 0 = some root ∧ shortLedger.boundary ⟨1⟩ 0 = some root := by
  have hreach : InputReach shortLedger true genesisCached (genesisAnswered ⟨1⟩) :=
    ⟨⟨0⟩, (Relation.ReflTransGen.single (.call _ _ genesis_fetched)).tail (.reorg ⟨1⟩)⟩
  obtain ⟨-, raw, head, root, hmem, hparse, hb, hb', -⟩ := stored_input_same_branch hreach genesis_reused
  have hkey : callKey (.proposerDuties 0) none = genesisKey := by simp [callKey, genesisKey]
  exact ⟨raw, head, root, hkey ▸ hmem, hparse, hb, hb'⟩

end BeaconIndexer
