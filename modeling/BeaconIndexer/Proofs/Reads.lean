/-
What the archive scan reads: on a node whose block lookups answer from one chain, blocks come back
slot by slot, and a search backwards finds the last root before a slot.
-/
import BeaconIndexer.Scanner.Sparse

namespace BeaconIndexer

open Effects Relational Contract

variable {spec : ChainSpec} {node : (q : Request) → Except Error q.Answer → Prop}

theorem reads_request {q : Request} {P : q.Answer → Prop} (h : ∀ a, node q (.ok a) → P a) :
    Reads (indexerSem spec node) (request q) P := by
  intro db
  refine Ok.ask (fun _ _ => trivial) fun s₁ r s₂ s₃ h1 hr h3 => ?_
  obtain rfl : db = s₁ := h1
  obtain rfl : s₂ = s₃ := h3
  obtain ⟨hr, rfl⟩ := hr
  cases r with
  | ok a => exact ⟨h a hr, rfl⟩
  | error e => rfl

theorem reads_ofExcept {α : Type} {x : Except Error α} {P : α → Prop} (h : ∀ a, x = .ok a → P a) :
    Reads (indexerSem spec node) (ofExcept x) P := by
  cases x with
  | ok a => exact Reads.pure (h a rfl)
  | error e => exact Reads.throw

theorem reads_ensureNotOptimistic {α : Type} (response : BeaconResponse α) :
    Reads (indexerSem spec node) (ensureNotOptimistic response) fun _ => True := by
  unfold ensureNotOptimistic
  exact Reads.ite (fun _ => Reads.throw) fun _ => Reads.pure trivial

theorem reads_getAttestationRewards {epoch : Nat} {vs : List Nat} {P : List ValidatorAttestationReward → Prop}
    (h : ∀ a, node (.attestationRewards epoch vs) (.ok a) → P a.data) :
    Reads (indexerSem spec node) (getAttestationRewards epoch vs) P := by
  unfold getAttestationRewards getAttestationRewardsResponse
  refine Reads.bind (P := fun response => P response.data) ?_ fun response hr => Reads.pure hr
  refine Reads.bind (reads_request h) fun response hr => ?_
  exact Reads.bind (reads_ensureNotOptimistic response) fun _ _ => Reads.pure hr

theorem reads_getFinalityCheckpoints {id : StateId} {P : BeaconResponse FinalityCheckpoints → Prop}
    (h : ∀ a, node (.finalityCheckpoints id) (.ok a) → P a) :
    Reads (indexerSem spec node) (getFinalityCheckpoints id) P := by
  unfold getFinalityCheckpoints
  refine Reads.bind (reads_request h) fun response hr => ?_
  exact Reads.bind (reads_ensureNotOptimistic response) fun _ _ => Reads.pure hr

/-! ## Runs on a fixed node -/

/-- The node answers by a function, and no statement fails. -/
def serve (spec : ChainSpec) (node : (q : Request) → Except Error q.Answer) : (e : Effect) → Db → Effect.Result e × Db
  | .node q, db => (node q, db)
  | .db op, db => (.ok (op.answer spec 0 db), op.exec spec 0 db)

/-- A run that was computed. -/
theorem exec_of_advance {spec : ChainSpec} {node : (q : Request) → Except Error q.Answer} {α : Type} {x : Task α} {n : Nat}
    {db : Db} {check : α → Db → Bool} (h : (x.run.advance (fun _ _ => true) (serve spec node) n db).any (fun y =>
      match y.1.result? with | some (.ok a) => check a y.2 | _ => false) = true) :
    ∃ a db', Exec (indexerSem spec fun q r => r = node q) x.run db (.ok a) db' ∧ check a db' = true := by
  obtain ⟨⟨p, db'⟩, hp, hcheck⟩ := (Option.any_eq_true _ _).1 h
  dsimp only at hcheck
  split at hcheck
  · rename_i a hresult
    refine ⟨a, db', Exec.of_advance (fun e s _ => ?_) hp hresult, hcheck⟩
    cases e with
    | node q => exact ⟨rfl, rfl⟩
    | db op => exact Or.inl ⟨0, rfl, rfl⟩
  · cases hcheck

/-! ## Blocks of one chain -/

/-- The canonical block of each slot with its root. -/
abbrev SlotBlocks := Nat → Option (Root × SignedBeaconBlock)

namespace SlotBlocks

variable (block : SlotBlocks)

def rootAt (s : Nat) : Option Root := (block s).map Prod.fst

def blockAt (s : Nat) : Option SignedBeaconBlock := (block s).map Prod.snd

/-- The root of the last block before a slot. -/
def rootBefore : Nat → Option Root
  | 0 => none
  | s + 1 => (rootAt block s).or (rootBefore s)

/-- Lookups by slot and by root answer from these blocks; any of them may fail. -/
structure ServedBy (node : (q : Request) → Except Error q.Answer → Prop) : Prop where
  slot_eq : ∀ {s r b}, block s = some (r, b) → b.slot = s
  root : ∀ {s a}, node (.blockRoot s) (.ok a) → a = rootAt block s
  byRoot : ∀ {s r b a}, node (.blockByRoot r) (.ok a) → block s = some (r, b) → a = some b

variable {block}

theorem blockAt_of_some {s : Nat} {r : Root} {b : SignedBeaconBlock} (h : block s = some (r, b)) :
    blockAt block s = some b := by rw [blockAt, h]; rfl

theorem rootAt_isSome_iff {s : Nat} : (rootAt block s).isSome = (blockAt block s).isSome := by
  unfold rootAt blockAt
  cases block s <;> rfl

theorem reads_getBlockRoot (h : ServedBy block node) (s : Nat) :
    Reads (indexerSem spec node) (getBlockRoot s) (· = rootAt block s) :=
  reads_request fun _ ha => h.root ha

theorem reads_getBlockBySlot (h : ServedBy block node) (s : Nat) :
    Reads (indexerSem spec node) (getBlockBySlot s) (· = blockAt block s) := by
  unfold getBlockBySlot
  refine Reads.bind (reads_getBlockRoot h s) fun root hroot => ?_
  unfold rootAt at hroot
  unfold blockAt
  cases hb : block s with
  | none =>
    rw [hb] at hroot
    subst hroot
    exact Reads.pure rfl
  | some rb =>
    obtain ⟨r, b⟩ := rb
    rw [hb] at hroot
    subst hroot
    refine Reads.bind (P := (· = some b)) (reads_request fun a ha => h.byRoot ha hb) fun a ha => ?_
    subst ha
    have hslot : (some b).any (fun b => b.slot != s) = false := by simp [h.slot_eq hb]
    simp only [hslot, Bool.false_eq_true, if_false]
    exact Reads.pure rfl

theorem reads_fetchBlocksForSlots (h : ServedBy block node) (slots : List Nat) :
    Reads (indexerSem spec node) (fetchBlocksForSlots slots) (· = slots.map fun s => (s, blockAt block s)) := by
  refine Reads.collect fun s _ => ?_
  refine Reads.bind (reads_getBlockBySlot h s) fun b hb => ?_
  exact Reads.pure (by rw [hb])

/-- The roots of fetched blocks, slot by slot. -/
theorem reads_fetchBlockRoots (h : ServedBy block node) (slots : List Nat) :
    Reads (indexerSem spec node) (fetchBlockRoots (slots.map fun s => (s, blockAt block s)))
      fun roots => ∀ s r, (s, r) ∈ roots ↔ s ∈ slots ∧ rootAt block s = some r := by
  have hcollect : Reads (indexerSem spec node) (fetchBlockRoots (slots.map fun s => (s, blockAt block s)))
      (· = ((slots.map fun s => (s, blockAt block s)).filter (·.2.isSome)).map
        fun b => (b.1, (rootAt block b.1).getD default)) := by
    refine Reads.collect fun b _ => ?_
    refine Reads.bind (reads_getBlockRoot h b.1) fun root hroot => ?_
    rw [← hroot]
    cases root with
    | some r => exact Reads.pure rfl
    | none => exact Reads.throw
  refine hcollect.mono fun roots hroots s r => ?_
  subst hroots
  simp only [List.mem_map, List.mem_filter, Prod.mk.injEq]
  constructor
  · rintro ⟨_, ⟨⟨t, ht, rfl⟩, hsome⟩, rfl, rfl⟩
    rw [← rootAt_isSome_iff] at hsome
    obtain ⟨x, hx⟩ := Option.isSome_iff_exists.1 hsome
    exact ⟨ht, by rw [hx]; rfl⟩
  · rintro ⟨hs, hr⟩
    refine ⟨_, ⟨⟨s, hs, rfl⟩, ?_⟩, rfl, by rw [hr]; rfl⟩
    rw [← rootAt_isSome_iff, hr]
    rfl

theorem slotsDown_succ {a b : Nat} (h : a ≤ b) : slotsDown a (b + 1) = b :: slotsDown a b := by
  unfold slotsDown
  rw [Nat.succ_sub h, List.range'_concat, List.reverse_append]
  simp
  omega

/-- A root found going back from a slot is the last one before it. -/
theorem reads_firstRoot (h : ServedBy block node) (a : Nat) : ∀ b : Nat,
    Reads (indexerSem spec node) (firstRoot (slotsDown a b)) fun found => ∀ r, found = some r → rootBefore block b = some r := by
  intro b
  induction b with
  | zero =>
    have hnil : slotsDown a 0 = [] := by simp [slotsDown]
    rw [hnil]
    exact Reads.pure fun r hr => by cases hr
  | succ b ih =>
    by_cases hab : a ≤ b
    · rw [slotsDown_succ hab]
      refine Reads.bind (reads_getBlockRoot h b) fun root hroot => ?_
      unfold rootBefore
      rw [← hroot]
      cases root with
      | some r => exact Reads.pure fun r' hr => hr
      | none => exact ih
    · have hnil : slotsDown a (b + 1) = [] := by
        unfold slotsDown
        rw [Nat.sub_eq_zero_of_le (by omega)]
        rfl
      rw [hnil]
      exact Reads.pure fun r hr => by cases hr

end SlotBlocks

end BeaconIndexer
