/-
Fork-specific attestation decoding (`src/scanner/attestations/{mod,decode}.rs`): which
validators' votes a block includes for one target epoch, and how correct they are.
-/
import BeaconIndexer.Base.Table
import BeaconIndexer.Beacon.Types
import BeaconIndexer.Scanner.Bits

namespace BeaconIndexer

open Relational

/-- The chain context vote correctness is checked against. -/
structure VoteContext where
  /-- the canonical root at each slot; a skipped slot carries the root before it -/
  blockRoots : Table Nat Root
  targetRoot : Root
  targetEpoch : Nat
  /-- `none`: the source was validated by inclusion in an accepted block -/
  source : Option Checkpoint

structure AttestationInclusion where
  inclusionSlot : Nat
  inclusionDelay : Nat
  sourceCorrect : Bool
  targetCorrect : Bool
  headCorrect : Bool
  deriving DecidableEq

structure VoteMarks where
  headCorrect : Bool
  targetCorrect : Bool
  sourceCorrect : Bool

/-- A committee whose bits are `agg_bits[bitOffset ..]`. -/
structure AssignedCommittee where
  index : Nat
  validators : List Nat
  bitOffset : Nat

/-- `(slot, committee_index) -> validators`. -/
abbrev CommitteeMap := Table (Nat × Nat) (List Nat)

abbrev Inclusions := Table Nat AttestationInclusion

def inclusionDelay (inclusionSlot attSlot : Nat) : Except Error Nat :=
  if attSlot ≤ inclusionSlot then .ok (inclusionSlot - attSlot)
  else .error (.inconsistentBeaconData
    s!"attestation slot {attSlot} is after inclusion slot {inclusionSlot}")

/-- The delay without the missed proposer slots between duty and inclusion. -/
def effectiveInclusionDelay (attSlot inclusionSlot rawDelay : Nat) (missedSlots : List Nat) : Nat :=
  rawDelay - ((List.range' (attSlot + 1) (inclusionSlot - (attSlot + 1))).filter missedSlots.contains).length

def computeVoteCorrectness (data : AttestationData) (ctx : VoteContext) : Except Error VoteMarks :=
  match ctx.blockRoots.get data.slot with
  | none => .error (.inconsistentBeaconData
      s!"no canonical block root for attestation slot {data.slot} (target epoch {ctx.targetEpoch})")
  | some canonicalHeadRoot => .ok {
      headCorrect := data.beaconBlockRoot == canonicalHeadRoot
      targetCorrect := data.target.epoch == ctx.targetEpoch && data.target.root == ctx.targetRoot
      sourceCorrect := ctx.source.all fun source => data.source.epoch == source.epoch && data.source.root == source.root }

def buildCommitteeMap (committees : List Committee) : CommitteeMap :=
  committees.foldl (fun map c => map.put (c.slot, c.index) c.validators) .empty

/-! ## Committees of an attestation -/

def resolvePreElectraCommittees (att : PreElectraAttestation) (committeeMap : CommitteeMap) (aggBitsLen : Nat) :
    Except Error (List AssignedCommittee) :=
  match committeeMap.get (att.data.slot, att.data.index) with
  | none => .error (.inconsistentBeaconData
      (s!"pre-Electra attestation references committee (slot={att.data.slot}, index={att.data.index}) not present in "
        ++ "the epoch's committee list"))
  | some committee =>
    if aggBitsLen ≠ committee.length then
      .error (.inconsistentBeaconData
        (s!"pre-Electra aggregation_bits length {aggBitsLen} != committee size {committee.length} "
          ++ s!"(slot={att.data.slot}, index={att.data.index})"))
    else .ok [⟨att.data.index, committee, 0⟩]

/-- The selected committees in order, each with the offset of its bits. -/
def assignCommittees (slot : Nat) (committeeMap : CommitteeMap) :
    List (Bool × Nat) → Nat → Except Error (List AssignedCommittee × Nat)
  | [], bitOffset => .ok ([], bitOffset)
  | (false, _) :: rest, bitOffset => assignCommittees slot committeeMap rest bitOffset
  | (true, committeeIdx) :: rest, bitOffset =>
    match committeeMap.get (slot, committeeIdx) with
    | none => .error (.inconsistentBeaconData
        (s!"Electra attestation references committee (slot={slot}, index={committeeIdx}) not in "
          ++ "epoch's committee list"))
    | some committee =>
      (assignCommittees slot committeeMap rest (bitOffset + committee.length)).map fun (assigned, stop) =>
        (⟨committeeIdx, committee, bitOffset⟩ :: assigned, stop)

def resolveElectraCommittees (spec : ChainSpec) (att : Attestation) (committeeMap : CommitteeMap) (aggBitsLen : Nat) :
    Except Error (List AssignedCommittee) := do
  if att.data.index ≠ 0 then
    throw (.inconsistentBeaconData
      s!"Electra attestation has data.index={att.data.index} (must be 0 per EIP-7549), slot={att.data.slot}")
  let committeeBits ← decodeBitvector att.committeeBits
  if committeeBits.length ≠ spec.maxCommitteesPerSlot then
    throw (.inconsistentBeaconData
      (s!"Electra committee_bits length {committeeBits.length} != MAX_COMMITTEES_PER_SLOT "
        ++ s!"({spec.maxCommitteesPerSlot}) at slot {att.data.slot}"))
  let (assigned, bitOffset) ← assignCommittees att.data.slot committeeMap committeeBits.zipIdx 0
  if assigned.isEmpty then
    throw (.inconsistentBeaconData s!"Electra attestation has empty committee_bits at slot {att.data.slot}")
  if aggBitsLen ≠ bitOffset then
    throw (.inconsistentBeaconData
      (s!"Electra aggregation_bits length {aggBitsLen} != Σ included committee sizes {bitOffset} "
        ++ s!"at slot {att.data.slot}"))
  return assigned

/-! ## Inclusions -/

/-- A decoding fails with an error or gives a result; `none` is a panic. -/
abbrev Decoding (α : Type) := ExceptT Error Option α

/-- The aggregation bit of a committee member; looking it up outside the bitlist panics. -/
def AssignedCommittee.bit (assigned : AssignedCommittee) (aggBits : List Bool) (pos : Nat) : Option Bool :=
  aggBits[assigned.bitOffset + pos]?

/-- The member at `pos` is tracked and voted; the bit of an untracked member is not looked up. -/
def AssignedCommittee.voted (assigned : AssignedCommittee) (aggBits : List Bool) (scanSet : List Nat)
    (validatorIndex pos : Nat) : Option Bool :=
  if scanSet.contains validatorIndex then assigned.bit aggBits pos else some false

/-- Some tracked member voted; the search ends at the first one. -/
def anyVoted (committees : List AssignedCommittee) (aggBits : List Bool) (scanSet : List Nat) : Option Bool :=
  committees.anyM fun assigned => assigned.validators.zipIdx.anyM fun (validatorIndex, pos) =>
    assigned.voted aggBits scanSet validatorIndex pos

/-- An inclusion found earlier is kept. -/
def recordCommitteeInclusions (assigned : AssignedCommittee) (aggBits : List Bool) (scanSet : List Nat)
    (inclusionSlot delay : Nat) (marks : VoteMarks) (inclusions : Inclusions) : Option Inclusions :=
  assigned.validators.zipIdx.foldlM (fun inclusions (validatorIndex, pos) => do
    if ← assigned.voted aggBits scanSet validatorIndex pos then
      return inclusions.insertNew validatorIndex
        ⟨inclusionSlot, delay, marks.sourceCorrect, marks.targetCorrect, marks.headCorrect⟩
    else return inclusions) inclusions

def processResolvedAttestation (data : AttestationData) (aggBits : List Bool) (committees : List AssignedCommittee)
    (inclusionSlot : Nat) (scanSet : List Nat) (ctx : Option VoteContext) (inclusions : Inclusions) :
    Decoding Inclusions := do
  let delay ← inclusionDelay inclusionSlot data.slot
  if !(← anyVoted committees aggBits scanSet) then return inclusions
  let marks ← match ctx with
    | some ctx => computeVoteCorrectness data ctx
    | none => pure ⟨false, false, false⟩
  ExceptT.lift (committees.foldlM (fun inclusions assigned =>
    recordCommitteeInclusions assigned aggBits scanSet inclusionSlot delay marks inclusions) inclusions)

def processPreElectraAttestation (spec : ChainSpec) (inclusionSlot targetEpoch : Nat) (committeeMap : CommitteeMap)
    (validators : List Nat) (ctx : Option VoteContext) (inclusions : Inclusions) (att : PreElectraAttestation) :
    Decoding Inclusions := do
  if spec.slotToEpoch att.data.slot ≠ targetEpoch then return inclusions
  let aggBits ← decodeBitlist att.aggregationBits
  let committees ← resolvePreElectraCommittees att committeeMap aggBits.length
  processResolvedAttestation att.data aggBits committees inclusionSlot validators ctx inclusions

def processElectraAttestation (spec : ChainSpec) (inclusionSlot targetEpoch : Nat) (committeeMap : CommitteeMap)
    (validators : List Nat) (ctx : Option VoteContext) (inclusions : Inclusions) (att : Attestation) :
    Decoding Inclusions := do
  if spec.slotToEpoch att.data.slot ≠ targetEpoch then return inclusions
  let aggBits ← decodeBitlist att.aggregationBits
  let committees ← resolveElectraCommittees spec att committeeMap aggBits.length
  processResolvedAttestation att.data aggBits committees inclusionSlot validators ctx inclusions

/-- Add a block's inclusions for one target epoch to the ones found so far. -/
def extractAttestationInclusions (spec : ChainSpec) (block : SignedBeaconBlock) (inclusionSlot targetEpoch : Nat)
    (committeeMap : CommitteeMap) (validators : List Nat) (ctx : Option VoteContext) (inclusions : Inclusions) :
    Decoding Inclusions :=
  match block.attestations with
  | .preElectra atts =>
    atts.foldlM (processPreElectraAttestation spec inclusionSlot targetEpoch committeeMap validators ctx) inclusions
  | .electra atts =>
    atts.foldlM (processElectraAttestation spec inclusionSlot targetEpoch committeeMap validators ctx) inclusions

end BeaconIndexer
