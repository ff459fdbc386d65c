/-
Durable inputs (`src/beacon_client/inputs.rs`): assignments are kept in memory and in the database
and reused only while their canonical anchor is unchanged. A client is a program over header
requests, input requests, the `beacon_inputs` table and the clock, with its caches as memory.
-/
import BeaconIndexer.Base.Lru
import BeaconIndexer.Base.Prog
import BeaconIndexer.Beacon.Ledger

namespace BeaconIndexer

open Effects Relational

/-- The paths of the assignment endpoints; each names one epoch. -/
inductive InputPath where
  | attesterDuties (epoch : Nat)
  | proposerDuties (epoch : Nat)
  | syncDuties (epoch : Nat)
  | committees (epoch : Nat)
  | syncCommittee (epoch : Nat)
  deriving DecidableEq

def InputPath.epoch : InputPath → Nat
  | attesterDuties epoch | proposerDuties epoch | syncDuties epoch | committees epoch | syncCommittee epoch => epoch

/-- The path with the sorted indices of the body. -/
structure InputKey where
  path : InputPath
  indices : List String
  deriving DecidableEq

/-- A parsed response with its safety metadata. -/
structure InputResponse (α : Type) where
  data : α
  executionOptimistic : Option Bool
  dependentRoot : Option Root

/-- Raw JSON, what it is parsed to, and the parser of each endpoint. -/
structure InputFormat where
  Raw : Type
  Data : Type
  parse : InputPath → Raw → Except Error (InputResponse Data)

structure CachedInput (F : InputFormat) where
  anchorSlot : Nat
  anchorRoot : Root
  response : F.Raw

inductive InputRequest where
  | get (path : InputPath)
  | post (path : InputPath) (indices : List String)
  | recentCommittees (stateRoot : Root) (epoch : Nat)

/-- The entry a request is made for. -/
def InputRequest.key : InputRequest → InputKey
  | get path => ⟨path, []⟩
  | post path indices => ⟨path, indices⟩
  | recentCommittees _ epoch => ⟨.committees epoch, []⟩

variable (F : InputFormat)

inductive InputEffect where
  | header (id : HeaderId)
  | fetch (request : InputRequest)
  | load (key : InputKey)
  | save (key : InputKey) (input : CachedInput F)
  | now

abbrev InputEffect.Result : InputEffect F → Type
  | header _ => Except Error (BeaconResponse HeaderData)
  | fetch _ => Except Error F.Raw
  | load _ => Except Error (Option (CachedInput F))
  | save .. => Except Error Unit
  | now => Nat

abbrev inputs : Signature := ⟨InputEffect F, InputEffect.Result F⟩

abbrev InputTask (α : Type) := Async (inputs F) Error α

structure InputCaches where
  input : Lru InputKey (CachedInput F)
  /-- since when an input is unavailable, in milliseconds, and the message of its 404 -/
  unavailable : Lru InputKey (Nat × String)

theorem inputCapacity_pos : 0 < 128 := by decide

def InputCaches.new : InputCaches F := ⟨.new 128 inputCapacity_pos, .new 128 inputCapacity_pos⟩

/-- The caches of duties, as `invalidate_duty_caches` leaves them. -/
def InputCaches.invalidated (caches : InputCaches F) : InputCaches F := ⟨caches.input.clear, caches.unavailable.clear⟩

abbrev InputSession (α : Type) := Session (inputs F) Error (InputCaches F) α

variable {F}

namespace InputTask

def header (block : HeaderId) : InputTask F (BeaconResponse HeaderData) := ask (S := inputs F) (.header block) id

def fetch (request : InputRequest) : InputTask F F.Raw := ask (S := inputs F) (.fetch request) id

def load (key : InputKey) : InputTask F (Option (CachedInput F)) := ask (S := inputs F) (.load key) id

def save (key : InputKey) (input : CachedInput F) : InputTask F Unit := ask (S := inputs F) (.save key input) id

def now : InputTask F Nat := ask (S := inputs F) .now .ok

def ofResult {α : Type} : Except Error α → InputTask F α
  | .ok a => pure a
  | .error e => throw e

end InputTask

open InputTask

variable (spec : ChainSpec)

/-! ## Anchors -/

/-- Uncached, and never noncanonical or optimistic. -/
def readHeader (id : HeaderId) : InputTask F (BeaconResponse HeaderData) := do
  let response ← header id
  if response.executionOptimistic = some true then throw (.inconsistentBeaconData "execution-optimistic response")
  if response.data.canonical = false then throw (.inconsistentBeaconData "noncanonical block header")
  return response

/-- The first header at or below a slot, within a number of requests. -/
def searchAnchor : Nat → Nat → InputTask F (Option (Nat × Root))
  | 0, _ => pure none
  | tries + 1, slot => do
    match ← attempt (readHeader (.slot slot)) with
    | .ok response => pure (some (slot, response.data.root))
    | .error (.beaconApi 404 _) => if slot = 0 then pure none else searchAnchor tries (slot - 1)
    | .error e => throw e

/-- The boundary block, or its parent for a skipped boundary slot; for an epoch that has not begun the
head. The search covers two epochs. -/
def inputAnchor (epoch : Nat) : InputTask F (Nat × Root) := do
  let head ← readHeader .head
  let boundary := spec.epochStartSlot epoch
  if head.data.slot ≤ boundary then return (head.data.slot, head.data.root)
  match ← searchAnchor (spec.slotsPerEpoch * 2 + 1) boundary with
  | some anchor => pure anchor
  | none => throw (.beaconDataUnavailable
      s!"no input anchor at or before epoch {epoch} (slot {boundary}); history may be pruned")

def anchorUnchanged (input : CachedInput F) : InputTask F Bool := do
  let response ← readHeader (.slot input.anchorSlot)
  return response.data.root = input.anchorRoot

/-! ## Reusing and fetching -/

/-- An optimistic response is not authoritative, and a dependent root has to be canonical. -/
def checkResponse (response : InputResponse F.Data) : InputTask F Unit := do
  if response.executionOptimistic = some true then throw (.inconsistentBeaconData "execution-optimistic response")
  match response.dependentRoot with
  | some dependency => let _ ← readHeader (.root dependency)
  | none => pure ()

/-- A future-epoch snapshot is reusable only while the head is unchanged; once that epoch starts, its
boundary anchor counts. -/
def stillCurrent (path : InputPath) (hit : CachedInput F) : InputTask F Bool :=
  if hit.anchorSlot < spec.epochStartSlot path.epoch then do
    let anchor ← inputAnchor spec path.epoch
    pure (decide (anchor = (hit.anchorSlot, hit.anchorRoot)))
  else anchorUnchanged hit

/-- The stored response, if its anchor is still current. -/
def reuseInput (path : InputPath) (hit : CachedInput F) : InputTask F (Option (InputResponse F.Data)) := do
  if ← stillCurrent spec path hit then
    let parsed ← ofResult (F.parse path hit.response)
    checkResponse parsed
    return some parsed
  else return none

/-- Committees of the current and the previous epoch can be obtained from the head's state when the
boundary state is pruned. -/
def getInputResponse (path : InputPath) : InputTask F F.Raw := do
  match ← attempt (fetch (.get path)) with
  | .ok response => pure response
  | .error (.beaconApi 404 message) =>
    match path with
    | .committees epoch =>
      let head ← readHeader .head
      let headEpoch := spec.slotToEpoch head.data.slot
      if headEpoch - 1 ≤ epoch ∧ epoch ≤ headEpoch then
        let response ← fetch (.recentCommittees head.data.stateRoot epoch)
        let after ← readHeader (.slot head.data.slot)
        if after.data.root ≠ head.data.root ∨ after.data.canonical = false then
          throw (.inconsistentBeaconData "Committee fallback branch changed")
        return response
      else throw (.beaconApi 404 message)
    | _ => throw (.beaconApi 404 message)
  | .error e => throw e

/-- Where a response comes from. -/
inductive InputSource where
  | stored
  | fetched
  deriving DecidableEq

/-- The entry under a key: the one in memory, or else the durable one. -/
def cachedEntry (pooled : Bool) (key : InputKey) : InputSession F (Option (CachedInput F)) := do
  let caches ← Session.load
  match caches.input.peek key with
  | some hit => pure (some hit)
  | none => if pooled then Session.lift (load key) else pure none

/-- An input that was missing less than 30 seconds ago is not requested again. -/
def checkUnavailable (key : InputKey) : InputSession F Unit := do
  let caches ← Session.load
  match caches.unavailable.peek key with
  | some (since, message) =>
    let time ← Session.lift now
    if time - since < 30000 then throw (.beaconApi 404 message)
  | none => pure ()

def requestInput (path : InputPath) (body : Option (List String)) (indices : List String) : InputTask F F.Raw :=
  match body with
  | some _ => fetch (.post path indices)
  | none => getInputResponse spec path

/-- A 404 is remembered for the next calls, a response ends it. -/
def noteUnavailable (key : InputKey) : Except Error F.Raw → InputSession F F.Raw
  | .ok response => do
    let caches ← Session.load
    Session.store { caches with unavailable := caches.unavailable.pop key }
    return response
  | .error (.beaconApi 404 message) => do
    let time ← Session.lift now
    let caches ← Session.load
    Session.store { caches with unavailable := caches.unavailable.put key (time, message) }
    throw (.beaconApi 404 message)
  | .error e => throw e

/-- A fresh response, kept with the anchor it was requested under. -/
def fetchInput (pooled : Bool) (path : InputPath) (body : Option (List String)) (indices : List String) :
    InputSession F (InputResponse F.Data) := do
  let key : InputKey := ⟨path, indices⟩
  checkUnavailable key
  let anchor ← Session.lift (inputAnchor spec path.epoch)
  let fetched ← Session.lift (attempt (requestInput spec path body indices))
  let response ← noteUnavailable key fetched
  let parsed ← Session.lift (ofResult (F.parse path response))
  Session.lift (checkResponse parsed)
  -- a boundary slot that was skipped may have become occupied while its earlier anchor stayed canonical
  let after ← Session.lift (inputAnchor spec path.epoch)
  if after ≠ anchor then throw (.inconsistentBeaconData "input dependency changed during request")
  let input : CachedInput F := ⟨anchor.1, anchor.2, response⟩
  Session.lift (if pooled then save key input else pure ())
  let caches ← Session.load
  Session.store { caches with input := caches.input.put key input }
  return parsed

def reuseCached (key : InputKey) : Option (CachedInput F) → InputSession F (Option (InputResponse F.Data))
  | none => return none
  | some hit => do
    match ← Session.lift (reuseInput spec key.path hit) with
    | none => return none
    | some parsed =>
      let caches ← Session.load
      Session.store { caches with input := caches.input.put key hit }
      return some parsed

def cachedInput (pooled : Bool) (path : InputPath) (body : Option (List String)) :
    InputSession F (InputSource × InputResponse F.Data) := do
  let indices := (body.getD []).mergeSort.dedup
  let key : InputKey := ⟨path, indices⟩
  let cached ← cachedEntry pooled key
  match ← reuseCached spec key cached with
  | some parsed => return (.stored, parsed)
  | none =>
    let parsed ← fetchInput spec pooled path body indices
    return (.fetched, parsed)

/-! ## What the client runs on -/

/-- The canonical head, the durable inputs, the clock, and what the node answered so far: each response
with the entry it was requested for and the head at that time. -/
structure InputWorld (F : InputFormat) where
  head : Root
  durable : Table InputKey (CachedInput F)
  clock : Nat
  answered : List (InputKey × F.Raw × Root)

/-- How a node with a given head answers, and whether statements can fail. -/
structure InputNode (F : InputFormat) where
  header : Root → HeaderId → Except Error (BeaconResponse HeaderData) → Prop
  fetch : Root → InputRequest → Except Error F.Raw → Prop
  dbFails : Prop

/-- A request leaves the chain as it is, and time passes. -/
def inputSem (N : InputNode F) : Sem (inputs F) (InputWorld F)
  | .header id, w, r, w' => N.header w.head id r ∧ w' = w
  | .fetch req, w, r, w' => N.fetch w.head req r ∧ w' = match r with
    | .ok raw => { w with answered := (req.key, raw, w.head) :: w.answered }
    | .error _ => w
  | .load key, w, r, w' => w' = w ∧ (r = .ok (w.durable.get key) ∨ (N.dbFails ∧ ∃ message, r = .error (.database message)))
  | .save key input, w, r, w' => (r = .ok () ∧ w' = { w with durable := w.durable.put key input }) ∨
      (N.dbFails ∧ ∃ message, r = .error (.database message) ∧ w' = w)
  | .now, w, r, w' => w.clock ≤ r ∧ w' = { w with clock := r }

end BeaconIndexer
