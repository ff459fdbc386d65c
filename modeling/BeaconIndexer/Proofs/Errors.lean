/-
Which error a scan reports, over every pattern of outcomes of its steps: the first one that is not an
unavailable input, however many unavailable inputs come before or after it.
-/
import BeaconIndexer.Proofs.Coverage

namespace BeaconIndexer

open Effects Relational

/-! ## The error of several steps -/

/-- The error of a step, unless it is an unavailable input. -/
def otherError : Except Error Unit → Option Error
  | .ok () => none
  | .error e => if e.isUnavailableInput then none else some e

/-- The first error that is not an unavailable input. -/
def firstOther (outcomes : List (Except Error Unit)) : Option Error := outcomes.findSome? otherError

/-- `report` is what becomes of the outcomes of several steps. -/
structure Reported (outcomes : List (Except Error Unit)) (report : Except Error Unit) : Prop where
  ok : report = .ok () ↔ ∀ o ∈ outcomes, o = .ok ()
  attempted : ∀ e, report = .error e → .error e ∈ outcomes
  unavailable : ∀ e, report = .error e → e.isUnavailableInput = true → ∀ o ∈ outcomes, otherError o = none
  other : ∀ e, firstOther outcomes = some e → report = .error e

/-- What the loops report of the outcomes of their steps. -/
def report (outcomes : List (Except Error Unit)) : Except Error Unit := toResult (outcomes.foldl noteOutcome none)

section Slot

variable (spec : ChainSpec) (slot : Nat) (tracked active : List Nat) (duties : EpochDuties) (resolved : ResolvedChain)

end Slot

variable {spec : ChainSpec} {slot : Nat} {tracked active : List Nat} {duties : EpochDuties} {resolved : ResolvedChain}

/-- A read that a pass cannot do without failed with this error. -/
def ReadFailed (indices : List Nat) (l : List (Event indexer)) (e : Error) : Prop :=
  (∃ start target, (⟨.db (.missingCoverageSlots indices start target 12), .error e⟩ : Event indexer) ∈ l) ∨
    ∃ epoch, (⟨.db (.activeValidatorsAt indices epoch), .error e⟩ : Event indexer) ∈ l

theorem ReadFailed.mono {indices : List Nat} {l m : List (Event indexer)} {e : Error} (h : ReadFailed indices l e)
    (hsub : l ⊆ m) : ReadFailed indices m e := by
  rcases h with ⟨start, target, h⟩ | ⟨epoch, h⟩
  · exact .inl ⟨start, target, hsub h⟩
  · exact .inr ⟨epoch, hsub h⟩

variable {indices : List Nat}

end BeaconIndexer
