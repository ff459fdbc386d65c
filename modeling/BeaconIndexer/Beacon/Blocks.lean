/-
Block and block root lookups with their caches (`src/beacon_client/blocks.rs`). A node's answers
during one call are a function of what is asked; the caches outlive a call that fails.
-/
import BeaconIndexer.Base.Lru
import BeaconIndexer.Beacon.Types

namespace BeaconIndexer

open Relational

inductive BlockId where
  | slot (slot : Nat)
  | root (root : Root)
  | head
  | genesis
  | finalized

/-- A block or root response; a missing `finalized` is false. -/
structure BlockResponse (α : Type) where
  data : α
  executionOptimistic : Option Bool
  finalized : Bool

/-- What a node answers to the two block requests. -/
structure BlockNode where
  blockRoot : BlockId → Except Error (BlockResponse Root)
  block : BlockId → Except Error (BlockResponse SignedBeaconBlock)

structure BlockCaches where
  rootBlock : Lru Root SignedBeaconBlock
  slotRoot : Lru Nat Root

def BlockCaches.new : BlockCaches := ⟨.new 128 (by decide), .new 512 (by decide)⟩

abbrev Cached (α : Type) := ExceptT Error (StateM BlockCaches) α

namespace Cached

def ofResult {α : Type} (x : Except Error α) : Cached α := ExceptT.mk (pure x)

def cachedBlock (root : Root) : Cached (Option SignedBeaconBlock) := ExceptT.mk fun c =>
  let (block, rootBlock) := c.rootBlock.get root
  (.ok block, { c with rootBlock })

def cachedSlotRoot (slot : Nat) : Cached (Option Root) := ExceptT.mk fun c =>
  let (root, slotRoot) := c.slotRoot.get slot
  (.ok root, { c with slotRoot })

def putBlock (root : Root) (block : SignedBeaconBlock) : Cached Unit := ExceptT.mk fun c =>
  (.ok (), { c with rootBlock := c.rootBlock.put root block })

def putSlotRoot (slot : Nat) (root : Root) : Cached Unit := ExceptT.mk fun c =>
  (.ok (), { c with slotRoot := c.slotRoot.put slot root })

/-- One call: its result and the caches it leaves. -/
def call {α : Type} (x : Cached α) (c : BlockCaches) : Except Error α × BlockCaches := x.run.run c

theorem call_bind {α β : Type} (x : Cached α) (f : α → Cached β) (c : BlockCaches) :
    (x >>= f).call c = match x.call c with
      | (.ok a, c') => (f a).call c'
      | (.error e, c') => (.error e, c') := by
  unfold call
  rw [ExceptT.run_bind, StateT.run_bind]
  change ((match x.run.run c with | (r, c') => _) : Except Error β × BlockCaches) = _
  obtain ⟨e | a, c'⟩ := x.run.run c <;> rfl

@[simp]
theorem call_ofResult {α : Type} (x : Except Error α) (c : BlockCaches) : (ofResult x).call c = (x, c) := rfl

end Cached

open Cached

/-! ## The lookups -/

/-- The answer of a request, where 404 is nothing. -/
def foundWithFinalized {α : Type} (what : String) : Except Error (BlockResponse α) → Except Error (Option α × Bool)
  | .error (.beaconApi 404 _) => .ok (none, false)
  | .error e => .error e
  | .ok response =>
    if response.executionOptimistic = some true then .error (.inconsistentBeaconData s!"execution-optimistic {what}")
    else .ok (some response.data, response.finalized)

namespace BlockNode

variable (node : BlockNode)

def getBlockWithFinalized (id : BlockId) : Except Error (Option SignedBeaconBlock × Bool) :=
  foundWithFinalized "block" (node.block id)

/-- Only a finalized slot lookup is cached. -/
def getBlockRoot : BlockId → Cached (Option Root × Bool)
  | .slot slot => do
    match ← cachedSlotRoot slot with
    | some root => pure (some root, true)
    | none =>
      let (root, finalized) ← ofResult (foundWithFinalized "block root" (node.blockRoot (.slot slot)))
      match root with
      | some root => if finalized then putSlotRoot slot root
      | none => pure ()
      pure (root, finalized)
  | id => ofResult (foundWithFinalized "block root" (node.blockRoot id))

/-- Every block fetched by its root is cached under it. -/
def getBlock : BlockId → Cached (Option SignedBeaconBlock × Bool)
  | .slot slot => do
    let (slotRoot, slotRootFinalized) ← node.getBlockRoot (.slot slot)
    match slotRoot with
    | none => pure (none, false)
    | some root =>
      match ← cachedBlock root with
      | some block => pure (some block, slotRootFinalized)
      | none =>
        -- two slot requests could straddle a reorganisation, so the block is asked for by root
        let (block, finalized) ← ofResult (node.getBlockWithFinalized (.root root))
        match block with
        | some fetched =>
          if fetched.slot ≠ slot then throw (.inconsistentBeaconData "block slot disagrees with root lookup")
          putBlock root fetched
          if finalized || slotRootFinalized then putSlotRoot slot root
        | none => pure ()
        pure (block, finalized)
  | .root root => do
    match ← cachedBlock root with
    | some cached =>
      let slotRoot ← cachedSlotRoot cached.slot
      pure (some cached, slotRoot == some root)
    | none =>
      let (block, finalized) ← ofResult (node.getBlockWithFinalized (.root root))
      match block with
      | some b =>
        putBlock root b
        if finalized then putSlotRoot b.slot root
      | none => pure ()
      pure (block, finalized)
  | id => ofResult (node.getBlockWithFinalized id)

/-! ## What a slot lookup reports -/

/-- The root of a slot: the cached one, or else what the node reports. -/
def reportedRoot (c : BlockCaches) (s : Nat) : Except Error (Option Root) :=
  match c.slotRoot.peek s with
  | some root => .ok (some root)
  | none => (foundWithFinalized "block root" (node.blockRoot (.slot s))).map Prod.fst

/-- The block of a root: the cached one, or else what the node serves. -/
def blockOf (c : BlockCaches) (r : Root) : Except Error (Option SignedBeaconBlock) :=
  match c.rootBlock.peek r with
  | some block => .ok (some block)
  | none => (node.getBlockWithFinalized (.root r)).map Prod.fst

/-- What a call with a slot returns. -/
def slotLookup (c : BlockCaches) (s : Nat) : Except Error (Option SignedBeaconBlock) :=
  ((node.getBlock (.slot s)).call c).1.map Prod.fst

theorem getBlockRoot_call (c : BlockCaches) (s : Nat) :
    ((node.getBlockRoot (.slot s)).call c).1.map Prod.fst = node.reportedRoot c s ∧
      ((node.getBlockRoot (.slot s)).call c).2.rootBlock = c.rootBlock := by
  unfold getBlockRoot reportedRoot
  rw [call_bind]
  have hcached : (cachedSlotRoot s).call c = (.ok (c.slotRoot.peek s), { c with slotRoot := (c.slotRoot.get s).2 }) :=
    congrArg (fun r => ((.ok r : Except Error (Option Root)), ({ c with slotRoot := (c.slotRoot.get s).2 } : BlockCaches)))
      (c.slotRoot.get_fst s)
  rw [hcached]
  cases hs : c.slotRoot.peek s with
  | some r => exact ⟨rfl, rfl⟩
  | none =>
    simp only
    rw [call_bind]
    cases hf : foundWithFinalized "block root" (node.blockRoot (.slot s)) with
    | error e => exact ⟨rfl, rfl⟩
    | ok found =>
      obtain ⟨root, finalized⟩ := found
      cases root with
      | none => exact ⟨rfl, rfl⟩
      | some r => cases finalized <;> exact ⟨rfl, rfl⟩

theorem slotLookup_eq (c : BlockCaches) (s : Nat) : node.slotLookup c s =
    match node.reportedRoot c s with
    | .error e => .error e
    | .ok none => .ok none
    | .ok (some r) => match c.rootBlock.peek r with
      | some b => .ok (some b)
      | none => match (node.getBlockWithFinalized (.root r)).map Prod.fst with
        | .error e => .error e
        | .ok none => .ok none
        | .ok (some b) =>
          if b.slot ≠ s then .error (.inconsistentBeaconData "block slot disagrees with root lookup")
          else .ok (some b) := by
  obtain ⟨hroot, hblocks⟩ := node.getBlockRoot_call c s
  unfold slotLookup getBlock
  rw [call_bind, ← hroot]
  generalize (node.getBlockRoot (.slot s)).call c = lookup at hblocks
  obtain ⟨e | ⟨root, finalized⟩, c'⟩ := lookup
  · rfl
  cases root with
  | none => rfl
  | some r =>
    simp only [Except.map]
    have hcached : (cachedBlock r).call c' = (.ok (c.rootBlock.peek r), { c' with rootBlock := (c'.rootBlock.get r).2 }) := by
      rw [← hblocks, ← Lru.get_fst]
      rfl
    rw [call_bind, hcached]
    cases hp : c.rootBlock.peek r with
    | some b => rfl
    | none =>
      simp only
      rw [call_bind]
      cases hf : node.getBlockWithFinalized (.root r) with
      | error e => rfl
      | ok found =>
        obtain ⟨block, isFinalized⟩ := found
        cases block with
        | none => rfl
        | some b =>
          rw [call_ofResult]
          simp only
          by_cases hslot : b.slot ≠ s
          · rw [if_pos hslot, if_pos hslot]
            rfl
          · rw [if_neg hslot, if_neg hslot]
            cases isFinalized <;> cases finalized <;> rfl

/-- Nothing is reported only where no root is, a reported block is the slot's own, and a known root whose
block is missing or of another slot is an error. -/
structure Exact (c : BlockCaches) (s : Nat) : Prop where
  nothing : node.slotLookup c s = .ok none → node.reportedRoot c s = .ok none
  found : ∀ b, node.slotLookup c s = .ok (some b) →
    b.slot = s ∧ ∃ r, node.reportedRoot c s = .ok (some r) ∧ node.blockOf c r = .ok (some b)
  unavailable : ∀ r, node.reportedRoot c s = .ok (some r) →
    (node.blockOf c r = .ok none ∨ ∃ b, node.blockOf c r = .ok (some b) ∧ b.slot ≠ s) →
    ∃ e, node.slotLookup c s = .error e

/-- The block cached under the reported root is the slot's own, or there is none and the node has a body. -/
def Served (c : BlockCaches) (s : Nat) : Prop :=
  ∀ r, node.reportedRoot c s = .ok (some r) → match c.rootBlock.peek r with
    | some b => b.slot = s
    | none => ∀ message, node.block (.root r) ≠ .error (.beaconApi 404 message)

variable {node}

theorem getBlockWithFinalized_none {id : BlockId} :
    (node.getBlockWithFinalized id).map Prod.fst = .ok none ↔ ∃ message, node.block id = .error (.beaconApi 404 message) := by
  unfold getBlockWithFinalized foundWithFinalized
  constructor
  · intro h
    split at h
    · exact ⟨_, ‹_›⟩
    · cases h
    · split at h <;> cases h
  · rintro ⟨message, h⟩
    rw [h]
    rfl

/-- With a known root the block is the cached one, or the one the node serves if its slot is right. -/
theorem slotLookup_root {c : BlockCaches} {s : Nat} {r : Root} (hr : node.reportedRoot c s = .ok (some r)) :
    node.slotLookup c s = match c.rootBlock.peek r with
      | some b => .ok (some b)
      | none => match (node.getBlockWithFinalized (.root r)).map Prod.fst with
        | .error e => .error e
        | .ok none => .ok none
        | .ok (some b) =>
          if b.slot ≠ s then .error (.inconsistentBeaconData "block slot disagrees with root lookup")
          else .ok (some b) := by
  rw [slotLookup_eq, hr]

theorem slotLookup_skipped {c : BlockCaches} {s : Nat} (hr : node.reportedRoot c s = .ok none) :
    node.slotLookup c s = .ok none := by
  rw [slotLookup_eq, hr]

theorem slotLookup_error {c : BlockCaches} {s : Nat} {e : Error} (hr : node.reportedRoot c s = .error e) :
    node.slotLookup c s = .error e := by
  rw [slotLookup_eq, hr]

theorem Exact.of_error {c : BlockCaches} {s : Nat} {e : Error} (h : node.slotLookup c s = .error e) :
    node.Exact c s := by
  refine ⟨fun h' => ?_, fun b h' => ?_, fun _ _ _ => ⟨e, h⟩⟩
  · rw [h] at h'
    cases h'
  · rw [h] at h'
    cases h'

theorem Exact.of_skipped {c : BlockCaches} {s : Nat} (h : node.reportedRoot c s = .ok none) : node.Exact c s := by
  refine ⟨fun _ => h, fun b hb => ?_, fun r hr => ?_⟩
  · rw [slotLookup_skipped h] at hb
    cases hb
  · rw [h] at hr
    cases hr

theorem Exact.of_found {c : BlockCaches} {s : Nat} {r : Root} {b : SignedBeaconBlock}
    (hr : node.reportedRoot c s = .ok (some r)) (hb : node.blockOf c r = .ok (some b)) (hslot : b.slot = s)
    (h : node.slotLookup c s = .ok (some b)) : node.Exact c s := by
  refine ⟨fun h' => ?_, fun b' h' => ?_, fun r' hr' h' => ?_⟩
  · rw [h] at h'
    cases h'
  · rw [h] at h'
    cases h'
    exact ⟨hslot, r, hr, hb⟩
  · rw [hr] at hr'
    cases hr'
    rw [hb] at h'
    rcases h' with h' | ⟨b', h', hne⟩
    · cases h'
    · cases h'
      exact absurd hslot hne

/-- A root without cached block, whose body the node has or refuses with another error than 404. -/
theorem exact_of_fetched {c : BlockCaches} {s : Nat} {r : Root} (hr : node.reportedRoot c s = .ok (some r))
    (hb : c.rootBlock.peek r = none) (hbody : ∀ message, node.block (.root r) ≠ .error (.beaconApi 404 message)) :
    node.Exact c s := by
  have hlookup := slotLookup_root hr
  have hblock : node.blockOf c r = (node.getBlockWithFinalized (.root r)).map Prod.fst := by rw [blockOf, hb]
  rw [hb, ← hblock] at hlookup
  cases hof : node.blockOf c r with
  | error e =>
    rw [hof] at hlookup
    exact .of_error hlookup
  | ok found =>
    rw [hof] at hlookup
    cases found with
    | none =>
      rw [hblock] at hof
      obtain ⟨message, hm⟩ := getBlockWithFinalized_none.1 hof
      exact absurd hm (hbody message)
    | some b =>
      simp only at hlookup
      by_cases hslot : b.slot = s
      · rw [if_neg (not_not.2 hslot)] at hlookup
        exact .of_found hr hof hslot hlookup
      · rw [if_pos hslot] at hlookup
        exact .of_error hlookup

/-- A slot lookup reports the block of the slot's root exactly when that block is served. -/
theorem exact_iff_served (node : BlockNode) (c : BlockCaches) (s : Nat) : node.Exact c s ↔ node.Served c s := by
  constructor
  · intro h r hr
    have hlookup := slotLookup_root hr
    cases hp : c.rootBlock.peek r with
    | some b =>
      rw [hp] at hlookup
      exact (h.found b hlookup).1
    | none =>
      intro message hm
      rw [hp, getBlockWithFinalized_none.2 ⟨message, hm⟩] at hlookup
      have hroot := h.nothing hlookup
      rw [hr] at hroot
      cases hroot
  · intro h
    cases hr : node.reportedRoot c s with
    | error e => exact .of_error (slotLookup_error hr)
    | ok root =>
      cases root with
      | none => exact .of_skipped hr
      | some r =>
        have hserved := h r hr
        cases hp : c.rootBlock.peek r with
        | some b =>
          -- the cached block is returned whatever its slot
          rw [hp] at hserved
          refine .of_found hr ?_ hserved ?_
          · rw [blockOf, hp]
          · rw [slotLookup_root hr, hp]
        | none =>
          rw [hp] at hserved
          exact exact_of_fetched hr hp hserved

end BlockNode

end BeaconIndexer
