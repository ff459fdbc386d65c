/-
An honest node: it answers every request from one view, as long as the requested data is
available. Every view has one, so coherent nodes exist.
-/
import BeaconIndexer.Beacon.Ledger
import Mathlib.Data.UInt

namespace BeaconIndexer

open Ancestry Relational

variable {spec : ChainSpec} {L : Ledger spec}

namespace Ledger

variable (L)

/-- The duties of `indices` in the committees of an epoch. -/
def seats (head : Root) (epoch : Nat) (indices : List Nat) : List AttesterDuty :=
  (L.committeesOf head epoch).flatMap fun c => (c.validators.zipIdx.filter fun m => indices.contains m.1).map fun m =>
    ⟨m.1, c.index, m.2, c.slot⟩

/-- The positions of a validator in the sync committee of an epoch. -/
def syncSeats (head : Root) (epoch v : Nat) : List Nat :=
  (List.range (L.syncCommitteeOf head epoch).length).filter fun p => (L.syncCommitteeOf head epoch)[p]? == some v

end Ledger

def notFound {α : Type} : Except Error α := .error (.beaconApi 404 "not found")

def BeaconResponse.settled {α : Type} (data : α) : BeaconResponse α := ⟨data, some false⟩

/-- The header of a known block of the canonical chain. -/
def Ledger.header (L : Ledger spec) (r : Root) : Except Error (BeaconResponse HeaderData) :=
  match L.block r with
  | some b => .ok (.settled ⟨r, true, b.slot, b.stateRoot⟩)
  | none => notFound

/-- The header a view has under an identifier. -/
def View.headerReply (V : View L) : HeaderId → Except Error (BeaconResponse HeaderData)
  | .head => L.header V.head
  | .slot s => (L.rootAt V.head s).elim notFound L.header
  | .root r => if L.rootAt V.head (L.slotOf r) = some r then L.header r else notFound

/-- What the view says about a request. Rewards are flat and every validator is active. -/
def View.reply (V : View L) : (q : Request) → Except Error q.Answer
  | .header id => V.headerReply id
  | .blockByRoot r => .ok (L.block r)
  | .blockBySlot s => .ok ((L.rootAt V.head s).bind L.block)
  | .blockRoot s => .ok (L.rootAt V.head s)
  | .attesterDuties e vs => .ok (L.seats V.head e vs)
  | .proposerDuties e => .ok ((List.range' (spec.epochStartSlot e) spec.slotsPerEpoch).map fun s => ⟨L.proposerOf V.head s, s⟩)
  | .syncDuties e vs => .ok ((vs.filter fun v => !(L.syncSeats V.head e v).isEmpty).map fun v => ⟨v, L.syncSeats V.head e v⟩)
  | .committees e => .ok (L.committeesOf V.head e)
  | .syncCommittee e => .ok (L.syncCommitteeOf V.head e)
  | .attestationRewards _ vs => .ok (.settled (vs.map fun v => ⟨v, 1, 1, 1, none, none⟩))
  | .blockRewardsBySlot s => match (L.rootAt V.head s).bind L.block with
    | some b => .ok ⟨b.proposerIndex, 1, 1, 0, 0, 0⟩
    | none => notFound
  | .blockRewardsByRoot r => match L.block r with
    | some b => .ok (.settled ⟨b.proposerIndex, 1, 1, 0, 0, 0⟩)
    | none => notFound
  | .syncRewardsBySlot _ vs => .ok (vs.map fun v => ⟨v, 1⟩)
  | .syncRewardsByRoot _ vs => .ok (.settled (vs.map fun v => ⟨v, 1⟩))
  | .stateRoot s => .ok (.settled ⟨s⟩)
  | .finalityCheckpoints _ => .ok (.settled ⟨V.finalized, V.finalized⟩)
  | .pruneInputsBefore _ => .ok ()
  | .headValidators vs => .ok (vs.map fun v => ⟨v, 0, 2 ^ 64 - 1⟩)

/-- The view's answer where the data is available. -/
def View.serve (V : View L) (available : Request → Bool) (q : Request) : Except Error q.Answer :=
  if available q then V.reply q else notFound

theorem Ledger.header_ok {r : Root} {a : BeaconResponse HeaderData} (h : L.header r = .ok a) :
    a.data.root = r ∧ a.data.slot = L.slotOf r := by
  unfold Ledger.header at h
  split at h
  · rename_i b hb
    cases h
    exact ⟨rfl, (Ledger.slotOf_eq hb).symm⟩
  · cases h

theorem mem_seats {head : Root} {e : Nat} {vs : List Nat} {d : AttesterDuty} (h : d ∈ L.seats head e vs) :
    d.validatorIndex ∈ vs ∧ L.Seat head e d := by
  obtain ⟨c, hc, hd⟩ := List.mem_flatMap.1 h
  obtain ⟨⟨v, p⟩, hm, rfl⟩ := List.mem_map.1 hd
  obtain ⟨hm, hv⟩ := List.mem_filter.1 hm
  refine ⟨by simpa using hv, c, hc, rfl, rfl, ?_⟩
  exact List.mem_zipIdx_iff_getElem?.1 hm

theorem mem_syncSeats {head : Root} {e v p : Nat} :
    p ∈ L.syncSeats head e v ↔ (L.syncCommitteeOf head e)[p]? = some v := by
  unfold Ledger.syncSeats
  rw [List.mem_filter, List.mem_range, beq_iff_eq]
  constructor
  · exact fun h => h.2
  · intro h
    obtain ⟨hp, _⟩ := List.getElem?_eq_some_iff.1 h
    exact ⟨hp, h⟩

theorem View.headerReply_coherent (V : View L) (id : HeaderId) : Coherent V (.header id) (V.headerReply id) := by
  cases hr : V.headerReply id with
  | error e => trivial
  | ok a =>
    cases id with
    | head => exact Ledger.header_ok hr
    | slot s =>
      intro _
      unfold View.headerReply at hr
      cases hroot : L.rootAt V.head s with
      | none => simp [hroot, notFound] at hr
      | some r =>
        simp only [hroot, Option.elim_some] at hr
        rw [(Ledger.header_ok hr).1]
    | root r =>
      intro _
      unfold View.headerReply at hr
      dsimp only at hr
      split at hr
      · rename_i hroot
        exact ⟨(Ledger.header_ok hr).1, (Ledger.rootAt_iff.1 hroot).1⟩
      · cases hr

theorem View.reply_coherent (V : View L) (q : Request) : Coherent V q (V.reply q) := by
  cases q with
  | header id => exact V.headerReply_coherent id
  | blockByRoot r => exact fun b hb => hb
  | blockRoot s => rfl
  | attesterDuties e vs => exact fun d hd => mem_seats hd
  | proposerDuties e =>
    intro d hd _
    obtain ⟨s, _, rfl⟩ := List.mem_map.1 hd
    rfl
  | syncDuties e vs =>
    intro d hd
    obtain ⟨v, hv, rfl⟩ := List.mem_map.1 hd
    exact ⟨(List.mem_filter.1 hv).1, fun p => mem_syncSeats⟩
  | committees e => rfl
  | syncCommittee e => rfl
  | finalityCheckpoints id => rfl
  | blockRewardsBySlot s =>
    cases hr : V.reply (.blockRewardsBySlot s) <;> trivial
  | blockRewardsByRoot r =>
    cases hr : V.reply (.blockRewardsByRoot r) <;> trivial
  | _ => trivial

/-- Whatever is available, the honest node is coherent. -/
theorem View.serve_coherent (V : View L) (available : Request → Bool) (q : Request) :
    Coherent V q (V.serve available q) := by
  unfold View.serve
  split
  · exact V.reply_coherent q
  · cases q <;> trivial

end BeaconIndexer
