/-
Epoch scans and the live reward and seed entry points (`src/scanner/mod.rs`,
`fetch_live_sync_rewards` of `src/scanner/sync_committee.rs`).
-/
import BeaconIndexer.Scanner.Sparse
import BeaconIndexer.Scanner.Duties

namespace BeaconIndexer

open Effects

variable (spec : ChainSpec)

inductive EffectiveScanMode where
  | dense
  | sparse

/-- Partial writes stay on failure; only a successful finalized scan records completion. -/
def scanEpoch (epoch : Nat) (scanValidators : List Nat) (finalized : Bool) (mode : EffectiveScanMode) : Task Unit := do
  if scanValidators.isEmpty then return
  match mode with
  | .dense => processEpochAttestationDuties spec epoch scanValidators finalized
  | .sparse => processEpochAttestationDutiesSparse spec epoch scanValidators finalized
  processEpochProposals spec epoch scanValidators finalized
  if spec.altairForkEpoch ≤ epoch then processEpochSync spec epoch scanValidators finalized
  if finalized then statement (.markComplete scanValidators epoch)

/-- Exactly the expected validators, each once. -/
def validateRewardIndices (expected actual : List Nat) : Except Error Unit :=
  if actual.any (fun v => !expected.contains v) || !decide actual.Nodup then
    .error (.inconsistentBeaconData "unexpected or duplicate validator in reward response")
  else if expected.any fun v => !actual.contains v then
    .error (.inconsistentBeaconData "missing validator in reward response")
  else .ok ()

/-- A reward response is accepted exactly when its validators are those asked for, each once, in any order. -/
theorem validateRewardIndices_ok_iff {expected actual : List Nat} :
    validateRewardIndices expected actual = .ok () ↔ actual.Perm expected.dedup := by
  have hok : validateRewardIndices expected actual = .ok () ↔
      ((∀ v ∈ actual, v ∈ expected) ∧ actual.Nodup) ∧ ∀ v ∈ expected, v ∈ actual := by
    unfold validateRewardIndices
    split
    · rename_i hextra
      simp only [reduceCtorEq, false_iff, not_and]
      simp only [Bool.or_eq_true, List.any_eq_true, Bool.not_eq_true', List.contains_eq_mem, decide_eq_false_iff_not] at hextra
      rintro ⟨hsub, hnodup⟩
      rcases hextra with ⟨v, hv, hnot⟩ | hnot
      · exact absurd (hsub v hv) hnot
      · exact absurd hnodup hnot
    · split <;> simp_all
  rw [hok]
  constructor
  · rintro ⟨⟨hsub, hnodup⟩, hsup⟩
    refine (List.perm_ext_iff_of_nodup hnodup (List.nodup_dedup _)).2 fun v => ?_
    rw [List.mem_dedup]
    exact ⟨hsub v, hsup v⟩
  · intro h
    have hmem : ∀ v, v ∈ actual ↔ v ∈ expected := fun v => by rw [h.mem_iff, List.mem_dedup]
    exact ⟨⟨fun v => (hmem v).1, h.nodup_iff.2 (List.nodup_dedup _)⟩, fun v => (hmem v).2⟩

def fetchLiveAttestationRewards (epoch : Nat) (validators : List Nat) :
    Task (BeaconResponse (List ValidatorAttestationReward)) := do
  if validators.isEmpty then throw (.inconsistentBeaconData "refusing an unfiltered live reward request")
  let response ← getAttestationRewardsResponse epoch validators
  ofExcept (validateRewardIndices validators (response.data.map (·.validatorIndex)))
  return response

/-- Join a staged response to existing duties; missing duties do not discard it. -/
def persistLiveAttestationRewards (epoch : Nat) (rewards : List ValidatorAttestationReward) : Task Unit :=
  if rewards.isEmpty then pure ()
  else statement (.updateAttestationRewardsBatch (rewards.map fun r =>
    ⟨r.validatorIndex, epoch, some r.source, some r.target, some r.head, r.inactivity⟩))

/-- The provisional row of an assignment whose inclusion is not observed yet. -/
def seedRow (duty : AttesterDuty) : AttestationWrite :=
  ⟨duty.slot, duty.committeeIndex, duty.validatorCommitteeIndex, false, none, none, none, none, none, none, none, none,
    none, none, false⟩

def seedLiveAttestationDuties (epoch : Nat) (validators : List Nat) : Task Unit := do
  if validators.isEmpty then return
  let duties ← getAttesterDuties epoch validators
  ofExcept (validateRewardIndices validators (duties.map (·.validatorIndex)))
  each (fun (duty : AttesterDuty) => statement (.upsertAttestationDuty duty.validatorIndex epoch (seedRow duty))) duties

def fetchLiveSyncRewards (root : Root) (members : List Nat) : Task (BeaconResponse (List SyncCommitteeReward)) := do
  if members.isEmpty then throw (.inconsistentBeaconData "refusing an unfiltered live sync reward request")
  let response ← getSyncCommitteeRewardsByRoot root members
  ofExcept (validateRewardIndices members (response.data.map (·.validatorIndex)))
  return response

end BeaconIndexer
