/-
What a beacon node tells the truth about: every block that exists under its root, and the
assignments its states determine. A view is one canonical chain with its finalized checkpoint; a
coherent node answers a request from the view or fails.
-/
import BeaconIndexer.Base.Forest
import BeaconIndexer.Scanner.Decode

namespace BeaconIndexer

open Ancestry Relational

/-- Roots name their blocks, parents precede children down to the genesis slot, attestations precede
the blocks that carry them, and the assignments of an epoch are determined by the last block before it. -/
structure Ledger (spec : ChainSpec) where
  block : Root → Option SignedBeaconBlock
  parent_known : ∀ {r b}, block r = some b → b.slot ≠ 0 → ∃ p, block b.parentRoot = some p ∧ p.slot < b.slot
  votes_earlier : ∀ {r b}, block r = some b → ∀ s ∈ b.attestationSlots, s < b.slot
  committees : Option Root → Nat → List Committee
  proposer : Option Root → Nat → Nat
  syncCommittee : Option Root → Nat → List Nat

namespace Ledger

variable {spec : ChainSpec} (L : Ledger spec)

def slotOf (r : Root) : Nat := ((L.block r).map (·.slot)).getD 0

def parentOf (r : Root) : Option Root := (L.block r).bind fun b => if b.slot = 0 then none else some b.parentRoot

/-- The tree of blocks. -/
def forest : Forest Root where
  parent := L.parentOf
  height := L.slotOf
  falls {x y} h := by
    obtain ⟨b, hb, hp⟩ := Option.bind_eq_some_iff.1 h
    split at hp
    · cases hp
    · rename_i hs
      obtain rfl := Option.some.inj hp
      obtain ⟨p, hpb, hlt⟩ := L.parent_known hb hs
      simpa [slotOf, hb, hpb] using hlt

/-- The root at a slot of the chain that ends in `head`. -/
def rootAt (head : Root) (slot : Nat) : Option Root := L.forest.node head slot

/-- The last root at or before a slot. -/
def lastRoot (head : Root) (slot : Nat) : Option Root := L.forest.below head slot

/-- The block that determines the assignments of an epoch. -/
def decisive (head : Root) (epoch : Nat) : Option Root := L.lastRoot head (spec.epochStartSlot epoch - 1)

/-- The checkpoint root of an epoch. -/
def boundary (head : Root) (epoch : Nat) : Option Root := L.lastRoot head (spec.epochStartSlot epoch)

def committeesOf (head : Root) (epoch : Nat) : List Committee := L.committees (L.decisive head epoch) epoch

/-- The proposer of the block at a slot, or the one assigned to a slot without a block. -/
def proposerOf (head : Root) (slot : Nat) : Nat :=
  match (L.rootAt head slot).bind L.block with
  | some b => b.proposerIndex
  | none => L.proposer (L.decisive head (spec.slotToEpoch slot)) slot

def syncCommitteeOf (head : Root) (epoch : Nat) : List Nat := L.syncCommittee (L.decisive head epoch) epoch

variable {L} {head r : Root} {b : SignedBeaconBlock} {s : Nat}

theorem slotOf_eq (h : L.block r = some b) : L.slotOf r = b.slot := by simp [slotOf, h]

theorem rootAt_iff : L.rootAt head s = some r ↔ L.forest.Anc head r ∧ L.slotOf r = s := Forest.node_iff

/-- A chain of known blocks: whatever descends from a known block is known. -/
theorem anc_known {r' : Root} (ha : L.forest.Anc r r') (h : ∃ b, L.block r = some b) : ∃ b, L.block r' = some b := by
  induction ha with
  | refl => exact h
  | tail _ hp ih =>
    obtain ⟨b, hb⟩ := ih
    obtain ⟨b', hb', he⟩ := Option.bind_eq_some_iff.1 (show L.parentOf _ = some _ from hp)
    split at he
    · cases he
    · rename_i hs
      obtain ⟨p, hp, _⟩ := L.parent_known hb' hs
      exact ⟨p, Option.some.inj he ▸ hp⟩

/-- The duties a node may name for an epoch. -/
def Seat (L : Ledger spec) (head : Root) (epoch : Nat) (d : AttesterDuty) : Prop :=
  ∃ c ∈ L.committeesOf head epoch, c.slot = d.slot ∧ c.index = d.committeeIndex ∧
    c.validators[d.validatorCommitteeIndex]? = some d.validatorIndex

end Ledger

/-- A block without attestations. -/
def bareBlock (slot : Nat) (parent : Root) : SignedBeaconBlock := ⟨slot, 0, parent, ⟨0⟩, .phase0 []⟩

/-- A block with one attestation: the vote of a committee's first member for its slot and target, the block of the target
being its head. -/
def votingBlock (slot : Nat) (parent : Root) (duty : Nat) (target : Checkpoint) : SignedBeaconBlock :=
  ⟨slot, 0, parent, ⟨0⟩, .phase0 [⟨['0', 'x', '0', '3'], ⟨duty, 0, target.root, ⟨0, ⟨100⟩⟩, target⟩⟩]⟩

/-- In a table of blocks, parents and attestations come before the blocks that name them. -/
def wellFormed (blocks : Table Root SignedBeaconBlock) : Bool :=
  blocks.rows.all fun (_, b) => (b.slot == 0 || (blocks.get b.parentRoot).any fun p => decide (p.slot < b.slot))
    && b.attestationSlots.all fun s => decide (s < b.slot)

/-- The ledger of finitely many blocks whose assignments are the same on every chain. -/
def Ledger.ofBlocks {spec : ChainSpec} (blocks : Table Root SignedBeaconBlock) (h : wellFormed blocks = true)
    (committees : Nat → List Committee) (proposer : Nat → Nat) : Ledger spec where
  block := blocks.get
  parent_known {r b} hb hs := by
    have hrow := List.all_eq_true.1 h _ (Table.mem_rows.2 hb)
    simp only [Bool.and_eq_true, Bool.or_eq_true, beq_iff_eq, hs, false_or, Option.any_eq_true, decide_eq_true_eq] at hrow
    exact hrow.1
  votes_earlier {r b} hb s hs := by
    have hrow := List.all_eq_true.1 h _ (Table.mem_rows.2 hb)
    simp only [Bool.and_eq_true, List.all_eq_true, decide_eq_true_eq] at hrow
    exact hrow.2 s hs
  committees _ := committees
  proposer _ := proposer
  syncCommittee _ _ := []

/-! ## Views -/

/-- One canonical chain and its finalized checkpoint. -/
structure View {spec : ChainSpec} (L : Ledger spec) where
  head : Root
  known : ∃ b, L.block head = some b
  finalized : Checkpoint
  boundary : L.boundary head finalized.epoch = some finalized.root
  settled : spec.epochStartSlot finalized.epoch ≤ L.slotOf head

variable {spec : ChainSpec} {L : Ledger spec}

/-- A coherent node answers from one view; any request may fail, and a block may be unavailable. -/
def Coherent (V : View L) : (q : Request) → Except Error q.Answer → Prop
  | _, .error _ => True
  | .header .head, .ok a => a.data.root = V.head ∧ a.data.slot = L.slotOf V.head
  | .header (.slot s), .ok a => a.data.canonical = true → L.rootAt V.head s = some a.data.root
  | .header (.root r), .ok a => a.data.canonical = true → a.data.root = r ∧ L.forest.Anc V.head r
  | .blockByRoot r, .ok block => ∀ b, block = some b → L.block r = some b
  | .blockRoot s, .ok root => root = L.rootAt V.head s
  | .attesterDuties e vs, .ok duties => ∀ d ∈ duties, d.validatorIndex ∈ vs ∧ L.Seat V.head e d
  | .proposerDuties e, .ok duties => ∀ d ∈ duties, spec.slotToEpoch d.slot = e → d.validatorIndex = L.proposerOf V.head d.slot
  | .syncDuties e vs, .ok duties => ∀ d ∈ duties, d.validatorIndex ∈ vs ∧
      ∀ p, p ∈ d.validatorSyncCommitteeIndices ↔ (L.syncCommitteeOf V.head e)[p]? = some d.validatorIndex
  | .committees e, .ok cs => cs = L.committeesOf V.head e
  | .syncCommittee e, .ok vs => vs = L.syncCommitteeOf V.head e
  | .finalityCheckpoints _, .ok a => a.data.finalized = V.finalized
  | _, .ok _ => True

end BeaconIndexer
