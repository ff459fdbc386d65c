/-
Sparse attestation scan (`src/scanner/attestations/sparse.rs`): for each tracked duty, walk
forward from the duty's slot to the end of the next epoch until a block includes the vote.
-/
import BeaconIndexer.Scanner.Dense

namespace BeaconIndexer

open Effects Relational

variable (spec : ChainSpec)

/-- A skipped duty or boundary slot votes for the preceding block. -/
def rootAtOrBefore (slot : Nat) : Task Root := do
  match ← firstRoot (slotsDown (slot - spec.slotsPerEpoch * 2) (slot + 1)) with
  | some root => pure root
  | none => throw (.beaconDataUnavailable s!"No canonical root at or before slot {slot}")

/-- Walk `n` slots from `slot` on, counting those without a block before the first inclusion. -/
def scanForward (duty : AttesterDuty) (targetEpoch : Nat) (committeeMap : CommitteeMap) (context : VoteContext) :
    (n : Nat) → (slot missedBefore : Nat) → Task (Option (AttestationInclusion × Nat))
  | 0, _, _ => pure none
  | n + 1, slot, missedBefore => do
    match ← getBlockBySlot slot with
    | none => scanForward duty targetEpoch committeeMap context n (slot + 1) (missedBefore + 1)
    | some block =>
      let inclusions ← ofExcept (decodeInclusions spec block slot targetEpoch committeeMap
        [duty.validatorIndex] (some context) .empty)
      match inclusions.get duty.validatorIndex with
      | some inc => pure (some (inc, missedBefore))
      | none => scanForward duty targetEpoch committeeMap context n (slot + 1) missedBefore

def scanForwardForInclusion (duty : AttesterDuty) (targetEpoch : Nat) (committeeMap : CommitteeMap) :
    Task (Option (AttestationInclusion × Nat)) := do
  let lastSlot := spec.epochStartSlot (targetEpoch + 2) - 1
  let targetRoot ← rootAtOrBefore spec (spec.epochStartSlot targetEpoch)
  let headRoot ← rootAtOrBefore spec duty.slot
  let context : VoteContext := ⟨Table.empty.put duty.slot headRoot, targetRoot, targetEpoch, none⟩
  scanForward spec duty targetEpoch committeeMap context (lastSlot - duty.slot) (duty.slot + 1) 0

/-- The delays of a sparse row; a response delay without the including block gives no effective delay. The
slots of an inclusion are too close for the casts to `i32` to cut anything (`sparseDelays_eq_native`), a
response delay can be any `i64`. -/
def sparseDelays (duty : AttesterDuty) (reward : Option ValidatorAttestationReward) (found : Option (Nat × Nat)) :
    Option Nat × Option Int × Option Int :=
  match found, reward.bind (·.inclusionDelay) with
  | some (slot, missedBefore), _ =>
    let delay : Int := (slot : Int) - duty.slot
    (some slot, some delay, some (delay - missedBefore))
  | none, some delay => (none, some (asI32 delay), none)
  | none, none => (none, none, none)

/-- Derive the row from `(duty, reward, found inclusion)`; the caller overrides the vote fields
with the decoded ones when an inclusion was found. -/
def deriveSparseRow (finalized : Bool) (duty : AttesterDuty) (reward : Option ValidatorAttestationReward)
    (found : Option (Nat × Nat)) : AttestationWrite where
  assignedSlot := duty.slot
  committeeIndex := duty.committeeIndex
  committeePosition := duty.validatorCommitteeIndex
  included := found.isSome
  inclusionSlot := (sparseDelays duty reward found).1
  inclusionDelay := (sparseDelays duty reward found).2.1
  effectiveInclusionDelay := (sparseDelays duty reward found).2.2
  sourceCorrect := ifPositive (reward.map (·.source))
  targetCorrect := ifPositive (reward.map (·.target))
  headCorrect := ifPositive (reward.map (·.head))
  sourceReward := reward.map (·.source)
  targetReward := reward.map (·.target)
  headReward := reward.map (·.head)
  inactivityPenalty := reward.bind (·.inactivity)
  finalized := finalized

/-- The row the sparse scan writes for a duty. -/
def sparseRow (finalized : Bool) (duty : AttesterDuty) (reward : Option ValidatorAttestationReward)
    (found : Option (AttestationInclusion × Nat)) : AttestationWrite :=
  let row := deriveSparseRow finalized duty reward (found.map fun (inc, missed) => (inc.inclusionSlot, missed))
  match found with
  | some (inc, _) => { row with
      sourceCorrect := some inc.sourceCorrect
      targetCorrect := some inc.targetCorrect
      headCorrect := some inc.headCorrect }
  | none => row

/-- A zero reward is not evidence of a miss, but a positive one contradicts it. -/
def rewardedWithoutInclusion (reward : Option ValidatorAttestationReward)
    (found : Option (AttestationInclusion × Nat)) : Bool :=
  found.isNone && reward.any fun r => decide (0 < r.source) || decide (0 < r.target) || decide (0 < r.head)

def processEpochAttestationDutiesSparse (epoch : Nat) (scanValidators : List Nat) (finalized : Bool) : Task Unit := do
  if scanValidators.isEmpty then return
  let duties ← getAttesterDuties epoch scanValidators
  let attRewards ← getAttestationRewards epoch scanValidators
  let rewards := rewardsMap attRewards
  ofExcept (validateEpochResponse scanValidators duties rewards)
  let committees ← getCommittees epoch
  let committeeMap := buildCommitteeMap committees
  each (fun (duty : AttesterDuty) => do
    let reward := rewards.get duty.validatorIndex
    let found ← scanForwardForInclusion spec duty epoch committeeMap
    if rewardedWithoutInclusion reward found then
      throw (.inconsistentBeaconData
        s!"positive rewards but no inclusion for validator {duty.validatorIndex} in epoch {epoch}")
    statement (.upsertAttestationDuty duty.validatorIndex epoch (sparseRow finalized duty reward found)))
    (duties.filter fun duty => scanValidators.contains duty.validatorIndex)

end BeaconIndexer
