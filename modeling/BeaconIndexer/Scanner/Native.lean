/-
The arithmetic of the scanners on the machine integers the code computes with: slots (`src/chain.rs`),
inclusion delays (`src/scanner/attestations/sparse.rs`) and rewards
(`src/scanner/{proposals,sync_committee}.rs`). `checks` is the `overflow-checks` of the build; `none` is
a panic.
-/
import BeaconIndexer.Base.Native
import BeaconIndexer.Scanner.Duties
import BeaconIndexer.Scanner.Sparse

namespace BeaconIndexer

open Native Effects Relational

variable (checks : Bool)

/-! ## Slots and delays -/

def ChainSpec.epochStartSlotNative (spec : ChainSpec) (epoch : Nat) : Option Nat :=
  mulU64 checks epoch spec.slotsPerEpoch

/-- Slots are exact exactly below 2^64. -/
theorem ChainSpec.epochStartSlotNative_exact_iff {spec : ChainSpec} {epoch : Nat} :
    spec.epochStartSlotNative checks epoch = some (spec.epochStartSlot epoch) ↔ spec.epochStartSlot epoch < 2 ^ 64 :=
  mulU64_exact_iff

/-- The delays of a sparse row with every cast of the code. -/
def sparseDelaysNative (duty : AttesterDuty) (reward : Option ValidatorAttestationReward) (found : Option (Nat × Nat)) :
    Option Nat × Option Int × Option Int :=
  match found, reward.bind (·.inclusionDelay) with
  | some (slot, missedBefore), _ =>
    let delay := asI32 (asI64 slot - asI64 duty.slot)
    (some slot, some delay, some (satSubI32 delay (asI32 missedBefore)))
  | none, some delay => (none, some (asI32 delay), none)
  | none, none => (none, none, none)

/-- Within 2^31 slots of the duty the casts leave the delays of an inclusion as they are. -/
theorem sparseDelays_eq_native {duty : AttesterDuty} {found : Option (Nat × Nat)}
    (h : ∀ slot missed, found = some (slot, missed) → slot < 2 ^ 63 ∧ duty.slot ≤ slot ∧ slot - duty.slot < 2 ^ 31 ∧
      missed ≤ slot - duty.slot) (reward : Option ValidatorAttestationReward) :
    sparseDelays duty reward found = sparseDelaysNative duty reward found := by
  unfold sparseDelays sparseDelaysNative
  cases found with
  | none => cases reward.bind (·.inclusionDelay) <;> rfl
  | some f =>
    obtain ⟨slot, missed⟩ := f
    obtain ⟨hslot, hduty, hdelay, hmissed⟩ := h slot missed rfl
    have hd : asI32 ((slot : Int) - duty.slot) = slot - duty.slot := asI32_eq (by omega) (by omega)
    have hm : asI32 missed = missed := asI32_eq (by omega) (by omega)
    have hsat : satSubI32 ((slot : Int) - duty.slot) missed = slot - duty.slot - missed := by
      unfold satSubI32
      omega
    simp only [asI64_lt hslot, asI64_lt (show duty.slot < 2 ^ 63 by omega), hd, hm, hsat]

/-! ## Proposals -/

/-- `reward_total, reward_att, reward_sync, reward_slash`. -/
structure RewardColumns where
  total : Int
  attestations : Int
  sync : Int
  slash : Int
  deriving DecidableEq

/-- The columns the archive scan stores. -/
def archiveProposalRewards (rewards : BlockRewards) : Option RewardColumns := do
  let slashings ← addU64 checks rewards.proposerSlashings rewards.attesterSlashings
  return ⟨asI64 rewards.total, asI64 rewards.attestations, asI64 rewards.syncAggregate, asI64 slashings⟩

/-- The columns the live reward worker stores. -/
def liveProposalRewards (rewards : BlockRewards) : Except Error RewardColumns := do
  let slashings := rewards.proposerSlashings + rewards.attesterSlashings
  if 2 ^ 64 ≤ slashings then throw (.inconsistentBeaconData "proposal slashing reward overflow")
  let total ← signedReward rewards.total
  let attestations ← signedReward rewards.attestations
  let sync ← signedReward rewards.syncAggregate
  let slash ← signedReward slashings
  return ⟨total, attestations, sync, slash⟩

def RewardColumns.write (columns : RewardColumns) (finalized : Bool) (proposer : Nat) : ProposalWrite :=
  ⟨proposer, true, some columns.total, some columns.attestations, some columns.sync, some columns.slash, finalized⟩

/-! ## Sync committee -/

def perPositionRewardNative (total netPositions : Int) : Option (Except Error (Option Int)) := do
  if netPositions = 0 then return .ok none
  let remainder ← remI64 total netPositions
  if remainder ≠ 0 then return .error (.inconsistentBeaconData "sync reward disagrees with participation")
  let quotient ← divI64 total netPositions
  if quotient < 0 then return .error (.inconsistentBeaconData "sync reward disagrees with participation")
  return .ok (some quotient)

def syncOutcomesNative (committee : List Nat) (bits : List Bool) : Option (Table Nat (Bool × Int)) :=
  (committee.zip bits).foldlM (fun outcomes (validator, bit) => do
    let entry := (outcomes.get validator).getD (false, 0)
    let netPositions ← addI64 checks entry.2 (if bit then 1 else -1)
    return outcomes.put validator (entry.1 || bit, netPositions)) .empty

def probeRewardsNative (outcomes : Table Nat (Bool × Int)) :
    List SyncCommitteeReward → Option (Except Error (Option Int))
  | [] => some (.ok none)
  | reward :: rest =>
    match outcomes.get reward.validatorIndex with
    | none => probeRewardsNative outcomes rest
    | some (_, netPositions) =>
      match perPositionRewardNative reward.reward netPositions with
      | some (.ok none) => probeRewardsNative outcomes rest
      | found => found

/-- A slot of the epoch whose block has a sync aggregate: the bits, and what the rewards endpoint answers
for it, `none` where the parent state is pruned. -/
structure SyncSlot where
  bits : List Bool
  rewards : Option (List SyncCommitteeReward)

def probeSyncRewardNative (committee : List Nat) : List SyncSlot → Option (Except Error (Option Int))
  | [] => some (.ok none)
  | slot :: rest => do
    let outcomes ← syncOutcomesNative checks committee slot.bits
    match slot.rewards with
    | none => probeSyncRewardNative committee rest
    | some rewards =>
      match ← probeRewardsNative outcomes rewards with
      | .ok none => probeSyncRewardNative committee rest
      | found => return found

/-- The reward of each relevant member of a slot. -/
def slotRewardsNative (relevant committee : List Nat) (magnitude : Option Int) (bits : List Bool) :
    Option (List (Nat × Option Int)) := do
  let outcomes ← syncOutcomesNative checks committee bits
  (outcomes.rows.filter fun r => relevant.contains r.1).mapM fun r =>
    match magnitude with
    | none => some (r.1, none)
    | some m => do
      let reward ← mulI64 checks m r.2.2
      return (r.1, some reward)

/-- The rewards an epoch scan stores, slot by slot. -/
def epochRewardsNative (relevant committee : List Nat) (slots : List SyncSlot) :
    Option (Except Error (List (List (Nat × Option Int)))) := do
  match ← probeSyncRewardNative checks committee slots with
  | .error e => return .error e
  | .ok magnitude =>
    let stored ← slots.mapM fun slot => slotRewardsNative checks relevant committee magnitude slot.bits
    return .ok stored

end BeaconIndexer
