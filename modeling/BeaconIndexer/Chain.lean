/-
Chain constants, slot arithmetic and the error type of the indexer (`src/chain.rs`,
`src/error.rs`). The installed `OnceLock` spec is an explicit argument here.
-/
import Mathlib.Tactic

namespace BeaconIndexer

/-- The chain parameters the modelled code reads. Slots and epochs are natural numbers here and `u64` in the
code; the two agree as long as the slots named stay below 2^64 (`epochStartSlotNative_exact_iff`). -/
structure ChainSpec where
  slotsPerEpoch : Nat
  syncCommitteeSize : Nat
  maxCommitteesPerSlot : Nat
  altairForkEpoch : Nat
  slotsPerEpoch_pos : 0 < slotsPerEpoch

namespace ChainSpec

variable (spec : ChainSpec)

def epochStartSlot (epoch : Nat) : Nat := epoch * spec.slotsPerEpoch

def slotToEpoch (slot : Nat) : Nat := slot / spec.slotsPerEpoch

/-- Epoch E may include attestations through the end of E+1. -/
def finalizedScanTarget (checkpointEpoch : Nat) : Option Nat :=
  if 2 ≤ checkpointEpoch then some (checkpointEpoch - 2) else none

theorem epochStartSlot_mono {e e' : Nat} (h : e ≤ e') : spec.epochStartSlot e ≤ spec.epochStartSlot e' :=
  Nat.mul_le_mul_right _ h

theorem epochStartSlot_succ (e : Nat) : spec.epochStartSlot (e + 1) = spec.epochStartSlot e + spec.slotsPerEpoch := by
  unfold epochStartSlot; ring

theorem slotToEpoch_mono {s s' : Nat} (h : s ≤ s') : spec.slotToEpoch s ≤ spec.slotToEpoch s' :=
  Nat.div_le_div_right h

theorem le_slotToEpoch_iff {e s : Nat} : e ≤ spec.slotToEpoch s ↔ spec.epochStartSlot e ≤ s :=
  Nat.le_div_iff_mul_le spec.slotsPerEpoch_pos

theorem slotToEpoch_lt_iff {e s : Nat} : spec.slotToEpoch s < e ↔ s < spec.epochStartSlot e :=
  Nat.div_lt_iff_lt_mul spec.slotsPerEpoch_pos

@[simp]
theorem slotToEpoch_epochStartSlot (e : Nat) : spec.slotToEpoch (spec.epochStartSlot e) = e :=
  Nat.mul_div_cancel _ spec.slotsPerEpoch_pos

theorem epochStartSlot_slotToEpoch_le (s : Nat) : spec.epochStartSlot (spec.slotToEpoch s) ≤ s :=
  spec.le_slotToEpoch_iff.1 le_rfl

end ChainSpec

/-- `value as i64` of a `u64`. -/
def asI64 (value : Nat) : Int := if value < 2 ^ 63 then value else (value : Int) - 2 ^ 64

theorem asI64_lt {n : Nat} (h : n < 2 ^ 63) : asI64 n = n := if_pos h

theorem asI64_neg {n : Nat} (h : 2 ^ 63 ≤ n) (h' : n < 2 ^ 64) : asI64 n < 0 := by
  unfold asI64
  rw [if_neg (by omega)]
  omega

theorem asI64_exact_iff {n : Nat} : asI64 n = n ↔ n < 2 ^ 63 := by
  constructor
  · intro h
    by_contra hn
    rw [asI64, if_neg hn] at h
    omega
  · exact asI64_lt

/-- `value as i32` of an `i64`: its low 32 bits. -/
def asI32 (value : Int) : Int := (value + 2 ^ 31) % 2 ^ 32 - 2 ^ 31

theorem asI32_eq {n : Int} (h : -2 ^ 31 ≤ n) (h' : n < 2 ^ 31) : asI32 n = n := by
  unfold asI32
  omega

/-- The failures of the library that the modelled code raises or passes on. -/
inductive Error where
  | http (message : String)
  | beaconApi (status : Nat) (message : String)
  | json (message : String)
  | database (message : String)
  | beaconDataUnavailable (message : String)
  | inconsistentBeaconData (message : String)
  deriving DecidableEq

namespace Error

def isUnavailableInput : Error → Bool
  | beaconDataUnavailable _ => true
  | beaconApi status _ => status == 404
  | _ => false

/-- The error to keep when a later step fails as well: the first one, except that an unavailable
input never hides a later error of another kind. The live worker applies this rule in three loops. -/
def note (first : Option Error) (error : Error) : Error :=
  match first with
  | none => error
  | some kept => if kept.isUnavailableInput && !error.isUnavailableInput then error else kept

end Error

end BeaconIndexer
