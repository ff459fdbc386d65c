/-
Payloads of the beacon node API (`src/beacon_client/types.rs`) and the requests the indexer
sends. Fields no modelled function reads are left out.
-/
import BeaconIndexer.Chain

namespace BeaconIndexer

/-- A 32-byte block or state root. -/
structure Root where
  value : Nat
  deriving DecidableEq, Inhabited

/-- Lower-case hex with the `0x` prefix, as `Root::parse` normalises it. -/
def Root.asStr (r : Root) : String :=
  let digits := Nat.toDigits 16 r.value
  "0x" ++ String.ofList (List.replicate (64 - digits.length) '0' ++ digits)

structure Checkpoint where
  epoch : Nat
  root : Root
  deriving DecidableEq

structure AttestationData where
  slot : Nat
  index : Nat
  beaconBlockRoot : Root
  source : Checkpoint
  target : Checkpoint

/-- One committee, named by `data.index`. -/
structure PreElectraAttestation where
  aggregationBits : List Char
  data : AttestationData

/-- The committees selected by `committeeBits`, their bits concatenated in order. -/
structure Attestation where
  aggregationBits : List Char
  committeeBits : List Char
  data : AttestationData

inductive Attestations where
  | preElectra (atts : List PreElectraAttestation)
  | electra (atts : List Attestation)

structure SyncAggregate where
  syncCommitteeBits : List Char

/-- What the forks' bodies differ in: Phase 0; Altair to Deneb; Electra and Fulu. -/
inductive BlockBody where
  | phase0 (attestations : List PreElectraAttestation)
  | altair (attestations : List PreElectraAttestation) (syncAggregate : SyncAggregate)
  | electra (attestations : List Attestation) (syncAggregate : SyncAggregate)

structure SignedBeaconBlock where
  slot : Nat
  proposerIndex : Nat
  parentRoot : Root
  stateRoot : Root
  body : BlockBody

namespace SignedBeaconBlock

def attestations (b : SignedBeaconBlock) : Attestations :=
  match b.body with
  | .phase0 atts => .preElectra atts
  | .altair atts _ => .preElectra atts
  | .electra atts _ => .electra atts

/-- `data.slot` of every attestation of the block. -/
def attestationSlots (b : SignedBeaconBlock) : List Nat :=
  match b.attestations with
  | .preElectra atts => atts.map (·.data.slot)
  | .electra atts => atts.map (·.data.slot)

def syncAggregate (b : SignedBeaconBlock) : Option SyncAggregate :=
  match b.body with
  | .phase0 _ => none
  | .altair _ sync => some sync
  | .electra _ sync => some sync

end SignedBeaconBlock

structure Committee where
  index : Nat
  slot : Nat
  validators : List Nat

structure AttesterDuty where
  validatorIndex : Nat
  committeeIndex : Nat
  validatorCommitteeIndex : Nat
  slot : Nat
  deriving DecidableEq

structure ProposerDuty where
  validatorIndex : Nat
  slot : Nat
  deriving DecidableEq

structure SyncDuty where
  validatorIndex : Nat
  validatorSyncCommitteeIndices : List Nat

structure ValidatorAttestationReward where
  validatorIndex : Nat
  head : Int
  target : Int
  source : Int
  inclusionDelay : Option Int
  inactivity : Option Int
  deriving DecidableEq

structure SyncCommitteeReward where
  validatorIndex : Nat
  reward : Int
  deriving DecidableEq

structure BlockRewards where
  proposerIndex : Nat
  total : Nat
  attestations : Nat
  syncAggregate : Nat
  proposerSlashings : Nat
  attesterSlashings : Nat
  deriving DecidableEq

/-- A validator record: its epochs are `u64`, and 2^64 - 1 stands for an epoch that is not set. -/
structure ValidatorData where
  index : Nat
  activationEpoch : UInt64
  exitEpoch : UInt64

/-- A response with its safety metadata; `none` is unknown. -/
structure BeaconResponse (α : Type) where
  data : α
  executionOptimistic : Option Bool

structure HeaderData where
  root : Root
  canonical : Bool
  slot : Nat
  stateRoot : Root

structure FinalityCheckpoints where
  currentJustified : Checkpoint
  finalized : Checkpoint

/-! ## Requests -/

inductive HeaderId where
  | head
  | slot (slot : Nat)
  | root (root : Root)
  deriving DecidableEq

inductive StateId where
  | slot (slot : Nat)
  | root (root : Root)
  deriving DecidableEq

/-- The calls of the beacon client that reach the node or its caches. -/
inductive Request where
  | header (id : HeaderId)
  | blockByRoot (root : Root)
  | blockBySlot (slot : Nat)
  | blockRoot (slot : Nat)
  | attesterDuties (epoch : Nat) (indices : List Nat)
  | proposerDuties (epoch : Nat)
  | syncDuties (epoch : Nat) (indices : List Nat)
  | committees (epoch : Nat)
  | syncCommittee (epoch : Nat)
  | attestationRewards (epoch : Nat) (indices : List Nat)
  | blockRewardsBySlot (slot : Nat)
  | blockRewardsByRoot (root : Root)
  | syncRewardsBySlot (slot : Nat) (indices : List Nat)
  | syncRewardsByRoot (root : Root) (indices : List Nat)
  | stateRoot (slot : Nat)
  | finalityCheckpoints (id : StateId)
  | pruneInputsBefore (oldestNeededEpoch : Nat)
  | headValidators (indices : List Nat)

abbrev Request.Answer : Request → Type
  | header _ => BeaconResponse HeaderData
  | blockByRoot _ => Option SignedBeaconBlock
  | blockBySlot _ => Option SignedBeaconBlock
  | blockRoot _ => Option Root
  | attesterDuties _ _ => List AttesterDuty
  | proposerDuties _ => List ProposerDuty
  | syncDuties _ _ => List SyncDuty
  | committees _ => List Committee
  | syncCommittee _ => List Nat
  | attestationRewards _ _ => BeaconResponse (List ValidatorAttestationReward)
  | blockRewardsBySlot _ => BlockRewards
  | blockRewardsByRoot _ => BeaconResponse BlockRewards
  | syncRewardsBySlot _ _ => List SyncCommitteeReward
  | syncRewardsByRoot _ _ => BeaconResponse (List SyncCommitteeReward)
  | stateRoot _ => BeaconResponse Root
  | finalityCheckpoints _ => BeaconResponse FinalityCheckpoints
  | pruneInputsBefore _ => Unit
  | headValidators _ => List ValidatorData

end BeaconIndexer
