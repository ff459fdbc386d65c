/-
Stale inputs: what keeps a client from serving a stored response or fetching a new one, when the node
answers for its canonical chain and has the input.
-/
import BeaconIndexer.Proofs.InputReuse

namespace BeaconIndexer

open Effects Relational Ancestry

variable {spec : ChainSpec} {L : Ledger spec} {F : InputFormat}

/-! ## A node that serves its chain -/

/-- The root lies on the chain. -/
def Canonical (L : Ledger spec) (head r : Root) : Prop := L.rootAt head (L.slotOf r) = some r

/-- Headers are answered for the canonical chain and for nothing else, with 404 for empty slots. -/
def Serving (L : Ledger spec) (head : Root) : HeaderId → Except Error (BeaconResponse HeaderData) → Prop
  | .head, r => ∃ a, r = .ok a ∧ Accepted a ∧ a.data.root = head ∧ a.data.slot = L.slotOf head
  | .slot s, r => match L.rootAt head s with
    | some root => ∃ a, r = .ok a ∧ Accepted a ∧ a.data.root = root
    | none => ∃ message, r = .error (.beaconApi 404 message)
  | .root x, r => (Canonical L head x → ∃ a, r = .ok a ∧ Accepted a) ∧
      (¬Canonical L head x → ∀ a, r = .ok a → ¬Accepted a)

/-- Non-optimistic, with a canonical dependent root. -/
def Usable (L : Ledger spec) (head : Root) (p : InputResponse F.Data) : Prop :=
  p.executionOptimistic ≠ some true ∧ ∀ d, p.dependentRoot = some d → Canonical L head d

/-- A node that serves its chain and answers the input endpoints, with a working database. -/
def servingNode (L : Ledger spec) (reply : InputRequest → F.Raw) : InputNode F :=
  ⟨Serving L, fun _ req r => r = .ok (reply req), False⟩

variable {reply : InputRequest → F.Raw}

theorem serving_occupied {head root : Root} {s : Nat} (hs : L.rootAt head s = some root)
    {r : Except Error (BeaconResponse HeaderData)} :
    Serving L head (.slot s) r ↔ ∃ a, r = .ok a ∧ Accepted a ∧ a.data.root = root := by
  simp only [Serving, hs]

theorem serving_empty {head : Root} {s : Nat} (hs : L.rootAt head s = none)
    {r : Except Error (BeaconResponse HeaderData)} :
    Serving L head (.slot s) r ↔ ∃ message, r = .error (.beaconApi 404 message) := by
  simp only [Serving, hs]

theorem serving_truthful {head : Root} {block : HeaderId} {r : Except Error (BeaconResponse HeaderData)}
    (h : Serving L head block r) : Truthful L head block r := by
  cases block with
  | head =>
    obtain ⟨a, rfl, -, hroot, hslot⟩ := h
    exact fun _ => ⟨hroot, hslot⟩
  | slot s =>
    cases hs : L.rootAt head s with
    | some root =>
      obtain ⟨a, rfl, -, rfl⟩ := (serving_occupied hs).1 h
      exact fun _ => hs
    | none =>
      obtain ⟨message, rfl⟩ := (serving_empty hs).1 h
      exact hs
  | root x => cases r <;> trivial

theorem serving_answers (e : (inputs F).Op) (w : InputWorld F) :
    ∃ r w', inputSem (servingNode L reply) e w r w' := by
  have haccepted : Accepted ⟨⟨w.head, true, L.slotOf w.head, w.head⟩, some false⟩ := ⟨nofun, rfl⟩
  cases e with
  | header block =>
    cases block with
    | head => exact ⟨_, _, ⟨_, rfl, haccepted, rfl, rfl⟩, rfl⟩
    | slot s =>
      cases hs : L.rootAt w.head s with
      | some root =>
        exact ⟨.ok ⟨⟨root, true, s, root⟩, some false⟩, w, (serving_occupied hs).2 ⟨_, rfl, ⟨nofun, rfl⟩, rfl⟩, rfl⟩
      | none =>
        exact ⟨.error (.beaconApi 404 "not found"), w, (serving_empty hs).2 ⟨_, rfl⟩, rfl⟩
    | root x =>
      by_cases hx : Canonical L w.head x
      · exact ⟨_, _, ⟨fun _ => ⟨_, rfl, haccepted⟩, fun h => absurd hx h⟩, rfl⟩
      · exact ⟨.error (.beaconApi 404 "not found"), _, ⟨fun h => absurd h hx, fun _ => nofun⟩, rfl⟩
  | fetch req => exact ⟨_, _, rfl, rfl⟩
  | load key => exact ⟨_, _, rfl, .inl rfl⟩
  | save key input => exact ⟨_, _, .inl ⟨rfl, rfl⟩⟩
  | now => exact ⟨w.clock, _, le_rfl, rfl⟩

theorem not_refused_head {head : Root} {e : Error} : ¬Refused (servingNode L reply) head .head e := by
  rintro (⟨a, ha, -⟩ | ⟨a, message, ⟨a', ha, hacc, -⟩, hna, -⟩)
  · cases ha
  · cases ha
    exact hna hacc

theorem refused_slot {head : Root} {s : Nat} {e : Error} (h : Refused (servingNode L reply) head (.slot s) e) :
    L.rootAt head s = none ∧ ∃ message, e = .beaconApi 404 message := by
  cases hs : L.rootAt head s with
  | some root =>
    rcases h with h | ⟨a, message, h, hna, -⟩
    · obtain ⟨a, ha, -⟩ := (serving_occupied hs).1 h
      cases ha
    · obtain ⟨a', ha, hacc, -⟩ := (serving_occupied hs).1 h
      cases ha
      exact absurd hacc hna
  | none =>
    rcases h with h | ⟨a, message, h, -, -⟩
    · obtain ⟨message, he⟩ := (serving_empty hs).1 h
      exact ⟨rfl, message, Except.error.inj he⟩
    · obtain ⟨message, he⟩ := (serving_empty hs).1 h
      cases he

theorem not_faulty {head : Root} : ¬Faulty (servingNode L reply) head := by
  rintro (⟨e, h⟩ | ⟨s, e, h, hne⟩)
  · exact not_refused_head h
  · obtain ⟨-, message, he⟩ := refused_slot h
    exact hne message he

theorem not_uncertain {head : Root} {p : InputResponse F.Data} (h : Usable L head p) :
    ¬Uncertain (servingNode L reply) head p := by
  rintro (ho | ⟨d, e, hd, href⟩)
  · exact h.1 ho
  · have hc := h.2 d hd
    rcases href with href | ⟨a, message, href, hna, -⟩
    · obtain ⟨a, ha, -⟩ := href.1 hc
      cases ha
    · obtain ⟨a', ha, hacc⟩ := href.1 hc
      cases ha
      exact hna hacc

theorem usable_of_checked {head : Root} {p : InputResponse F.Data} (h : Checked (servingNode L reply) head p) :
    Usable L head p := by
  refine ⟨h.1, fun d hd => ?_⟩
  obtain ⟨a, ha, hacc⟩ := h.2 d hd
  by_contra hc
  exact ha.2 hc a rfl hacc

/-! ## Calls that settle -/

/-- The call returned a response: the stored one while its anchor is current, or a fresh one that replaces
it in memory and in the database. -/
def Settled (L : Ledger spec) (pooled : Bool) (key : InputKey) (m : InputCaches F) (w : InputWorld F) :
    Except Error (InputSource × InputResponse F.Data) × InputCaches F → InputWorld F → Prop
  | (.ok (.stored, p), _), _ => ∃ hit, entryOf pooled m w key = some hit ∧ Current L w.head key.path.epoch hit ∧
      F.parse key.path hit.response = .ok p
  | (.ok (.fetched, p), m'), w' => ∃ input, F.parse key.path input.response = .ok p ∧
      FetchedOn L w' w.head key input ∧ m'.input.peek key = some input ∧
      (pooled = true → w'.durable.get key = some input)
  | (.error _, _), _ => False

/-- The slot of a boundary anchor is occupied, and a response with a current anchor is still usable. -/
def Replaceable (L : Ledger spec) (head : Root) (path : InputPath) (hit : CachedInput F) : Prop :=
  (spec.epochStartSlot path.epoch ≤ hit.anchorSlot → L.rootAt head hit.anchorSlot ≠ none) ∧
  (Current L head path.epoch hit → ∃ p, F.parse path hit.response = .ok p ∧ Usable L head p)

theorem not_undecided {head : Root} {path : InputPath} {hit : CachedInput F} (hnear : Near L head path.epoch)
    (h : Replaceable L head path hit) : ¬Undecided (servingNode L reply) L head path hit := by
  rintro (⟨-, hf | hfar⟩ | ⟨hle, e, href⟩ | ⟨hcur, hbad⟩)
  · exact not_faulty hf
  · exact hfar hnear
  · exact h.1 hle (refused_slot href).1
  · obtain ⟨p, hp, husable⟩ := h.2 hcur
    rcases hbad with ⟨e, he⟩ | ⟨p', hp', hu⟩
    · rw [hp] at he
      cases he
    · rw [hp] at hp'
      cases hp'
      exact not_uncertain husable hu

theorem not_unfetchable {m : InputCaches F} {w : InputWorld F} {key : InputKey} (hnear : Near L w.head key.path.epoch)
    (hneg : ¬Unexpired m key w.clock)
    (hreply : ∀ req, req.key = key → ∃ p, F.parse key.path (reply req) = .ok p ∧ Usable L w.head p) :
    ¬Unfetchable (servingNode L reply) L m w key := by
  rintro (hu | hf | hfar | hdb | ⟨e, req, -, hans⟩ | ⟨raw, ⟨req, hkey, hans⟩, hbad⟩)
  · exact hneg hu
  · exact not_faulty hf
  · exact hfar hnear
  · exact hdb
  · cases hans
  · cases hans
    obtain ⟨p, hp, husable⟩ := hreply req hkey
    rcases hbad with ⟨e, he⟩ | ⟨p', hp', hu⟩
    · rw [hp] at he
      cases he
    · rw [hp] at hp'
      cases hp'
      exact not_uncertain husable hu

/-- With the chain and the input served, every call settles if and only if the entry is replaceable. -/
theorem cachedInput_settles_iff {pooled : Bool} {path : InputPath} {body : Option (List String)} {m : InputCaches F}
    {w : InputWorld F} (hnear : Near L w.head path.epoch) (hneg : ¬Unexpired m (callKey path body) w.clock)
    (hreply : ∀ req, req.key = callKey path body → ∃ p, F.parse path (reply req) = .ok p ∧ Usable L w.head p) :
    (∀ r w', Exec (inputSem (servingNode L reply)) ((cachedInput spec pooled path body).start m) w r w' →
      Settled L pooled (callKey path body) m w r w') ↔
    ∀ hit, entryOf pooled m w (callKey path body) = some hit → Replaceable L w.head path hit := by
  have hspec := ok_cachedInput (N := servingNode L reply) (fun _ _ _ h => serving_truthful h) pooled path body m w
  constructor
  · intro h hit hentry
    -- some run exists, and it ends with a response
    obtain ⟨⟨r, m'⟩, w', hx⟩ := Exec.exists (@serving_answers _ L F reply) ((cachedInput spec pooled path body).start m) w
    have hsettled := h _ _ hx
    have hpost := Contract.Safe.exec hx hspec
    rcases r with e | ⟨_ | _, p⟩
    · exact hsettled.elim
    · obtain ⟨hit', hserved⟩ := hpost
      obtain rfl : hit = hit' := Option.some.inj (hentry.symm.trans hserved.entry)
      refine ⟨fun hle hnone => ?_, fun _ => ⟨p, hserved.parsed, usable_of_checked hserved.checked⟩⟩
      have hcur : Current L w.head path.epoch hit := hserved.current
      unfold Current at hcur
      rw [if_neg (not_lt.2 hle), hnone] at hcur
      cases hcur
    · obtain ⟨input, hserved⟩ := hpost
      obtain ⟨hstale, hanchor⟩ := hserved.stale hit hentry
      refine ⟨fun hle => ?_, fun hcur => absurd hcur hstale⟩
      rcases hanchor with hlt | hne
      · exact absurd hlt (not_lt.2 hle)
      · exact hne
  · intro h r w' hx
    have hpost := Contract.Safe.exec hx hspec
    obtain ⟨e | ⟨_ | _, p⟩, m'⟩ := r
    · obtain ⟨-, -, hdb | ⟨hit, hentry, hu⟩ | hu⟩ := hpost
      · exact hdb
      · exact not_undecided hnear (h hit hentry) hu
      · exact not_unfetchable hnear hneg hreply hu
    · obtain ⟨hit, hserved⟩ := hpost
      exact ⟨hit, hserved.entry, hserved.current, hserved.parsed⟩
    · obtain ⟨input, hserved⟩ := hpost
      refine ⟨input, hserved.parsed, hserved.fetched, ?_, fun hpool => ?_⟩
      · rw [hserved.caches]
        exact Lru.peek_put_self ..
      · rw [hserved.durable, if_pos hpool, Table.get_put, if_pos rfl]

/-! ## A boundary block that is orphaned -/

/-- Two slots an epoch; block 3 follows block 2 at the boundary slot 2, block 4 skips that slot. -/
def forkLedger : Ledger (⟨2, 8, 8, 0, Nat.zero_lt_two⟩ : ChainSpec) :=
  .ofBlocks ((((Table.empty.put ⟨0⟩ (bareBlock 0 ⟨0⟩)).put ⟨2⟩ (bareBlock 2 ⟨0⟩)).put ⟨3⟩ (bareBlock 3 ⟨2⟩)).put ⟨4⟩
    (bareBlock 3 ⟨0⟩)) (by decide) (fun _ => []) fun _ => 0

def boundaryKey : InputKey := ⟨.proposerDuties 1, []⟩

def boundaryInput : CachedInput emptyFormat := ⟨2, ⟨2⟩, ()⟩

def boundaryCached : InputCaches emptyFormat :=
  let caches := InputCaches.new emptyFormat
  ⟨caches.input.put boundaryKey boundaryInput, caches.unavailable.pop boundaryKey⟩

def boundaryAnswered (head : Root) : InputWorld emptyFormat :=
  ⟨head, Table.empty.put boundaryKey boundaryInput, 0, [(boundaryKey, (), ⟨3⟩)]⟩

theorem boundary_callKey : callKey (.proposerDuties 1) none = boundaryKey := by simp [callKey, boundaryKey]

theorem boundary_fetched : Exec (inputSem (truthfulNode forkLedger emptyFormat))
    ((cachedInput ⟨2, 8, 8, 0, by decide⟩ true (.proposerDuties 1) none).start (.new emptyFormat)) (.fresh ⟨3⟩)
    (.ok (.fetched, ⟨(), some false, none⟩), boundaryCached) (boundaryAnswered ⟨3⟩) := by
  unfold cachedInput
  simp only [Option.getD_none, List.mergeSort_nil, List.dedup_nil]
  have hhead : Truthful forkLedger ⟨3⟩ .head (.ok ⟨⟨⟨3⟩, true, 3, ⟨0⟩⟩, some false⟩) := fun _ => ⟨rfl, rfl⟩
  have hboundary : Truthful forkLedger ⟨3⟩ (.slot 2) (.ok ⟨⟨⟨2⟩, true, 2, ⟨0⟩⟩, some false⟩) := fun _ => rfl
  refine Exec.call_iff.2 ⟨.ok none, _, ⟨rfl, .inl rfl⟩, ?_⟩
  refine Exec.call_iff.2 ⟨.ok ⟨⟨⟨3⟩, true, 3, ⟨0⟩⟩, some false⟩, _, ⟨hhead, rfl⟩, ?_⟩
  refine Exec.call_iff.2 ⟨.ok ⟨⟨⟨2⟩, true, 2, ⟨0⟩⟩, some false⟩, _, ⟨hboundary, rfl⟩, ?_⟩
  refine Exec.call_iff.2 ⟨.ok (), _, ⟨trivial, rfl⟩, ?_⟩
  refine Exec.call_iff.2 ⟨.ok ⟨⟨⟨3⟩, true, 3, ⟨0⟩⟩, some false⟩, _, ⟨hhead, rfl⟩, ?_⟩
  refine Exec.call_iff.2 ⟨.ok ⟨⟨⟨2⟩, true, 2, ⟨0⟩⟩, some false⟩, _, ⟨hboundary, rfl⟩, ?_⟩
  exact Exec.call_iff.2 ⟨.ok (), _, .inl ⟨rfl, rfl⟩, .done _ _⟩

theorem forkLedger_near : Near forkLedger ⟨4⟩ 1 := .inr ⟨0, by decide, by decide, by decide⟩

theorem boundary_not_unexpired (head : Root) :
    ¬Unexpired boundaryCached boundaryKey (boundaryAnswered head).clock := by
  rintro ⟨since, message, h, -⟩
  rw [boundaryCached, Lru.peek_pop_self] at h
  cases h

theorem emptyFormat_usable {key : InputKey} {head : Root} (req : InputRequest) (_ : req.key = key) :
    ∃ p, emptyFormat.parse key.path ((fun _ => ()) req : emptyFormat.Raw) = .ok p ∧ Usable forkLedger head p :=
  ⟨_, rfl, nofun, nofun⟩

theorem cachedInput_settles_boundary :
    entryOf true boundaryCached (boundaryAnswered ⟨3⟩) (callKey (.proposerDuties 1) none) = some boundaryInput ∧
    ∀ r w', Exec (inputSem (servingNode forkLedger fun _ => ()))
      ((cachedInput ⟨2, 8, 8, 0, by decide⟩ true (.proposerDuties 1) none).start boundaryCached) (boundaryAnswered ⟨3⟩) r w' →
      Settled forkLedger true (callKey (.proposerDuties 1) none) boundaryCached (boundaryAnswered ⟨3⟩) r w' := by
  have hentry : entryOf true boundaryCached (boundaryAnswered ⟨3⟩) (callKey (.proposerDuties 1) none) = some boundaryInput := by
    rw [boundary_callKey]
    rfl
  refine ⟨hentry, ?_⟩
  refine (cachedInput_settles_iff (.inr ⟨2, by decide, by decide, by decide⟩) ?_ emptyFormat_usable).2 fun hit hhit => ?_
  · rw [boundary_callKey]
    exact boundary_not_unexpired ⟨3⟩
  · rw [hentry] at hhit
    obtain rfl : boundaryInput = hit := Option.some.inj hhit
    exact ⟨fun _ => by decide, fun _ => ⟨_, rfl, nofun, nofun⟩⟩

/-- The boundary block was orphaned and its slot is empty now: the header request of the entry's anchor ends
in a 404, which the call passes on. -/
theorem orphaned_boundary_blocks_refetch : ∃ (m : InputCaches emptyFormat) (w : InputWorld emptyFormat) (e : Error),
    InputReach forkLedger true m w ∧ Near forkLedger w.head 1 ∧
    ¬Unexpired m (callKey (.proposerDuties 1) none) w.clock ∧
    (∀ req : InputRequest, req.key = callKey (.proposerDuties 1) none →
      ∃ p, emptyFormat.parse (.proposerDuties 1) () = .ok p ∧ Usable forkLedger w.head p) ∧
    Exec (inputSem (servingNode forkLedger fun _ => ()))
      ((cachedInput ⟨2, 8, 8, 0, by decide⟩ true (.proposerDuties 1) none).start m) w (.error e, m) w := by
  refine ⟨boundaryCached, boundaryAnswered ⟨4⟩, .beaconApi 404 "not found",
    ⟨⟨3⟩, (Relation.ReflTransGen.single (.call _ _ boundary_fetched)).tail (.reorg ⟨4⟩)⟩, forkLedger_near, ?_,
    fun _ _ => ⟨_, rfl, nofun, nofun⟩, ?_⟩
  · rw [boundary_callKey]
    exact boundary_not_unexpired ⟨4⟩
  · unfold cachedInput
    simp only [Option.getD_none, List.mergeSort_nil, List.dedup_nil]
    have hempty : Serving forkLedger ⟨4⟩ (.slot 2) (.error (.beaconApi 404 "not found")) :=
      (serving_empty (by decide)).2 ⟨_, rfl⟩
    exact Exec.call_iff.2 ⟨.error (.beaconApi 404 "not found"), _, ⟨hempty, rfl⟩, .done _ _⟩

end BeaconIndexer
