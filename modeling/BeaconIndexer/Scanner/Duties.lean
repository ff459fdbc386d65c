/-
Proposals and sync committee participation (`src/scanner/{proposals,sync_committee}.rs`), archive
and live.
-/
import BeaconIndexer.Scanner.Dense

namespace BeaconIndexer

open Effects Relational

variable (spec : ChainSpec)

/-! ## Proposals -/

/-- The row of a missed proposal, or of one whose rewards are joined later. -/
def proposalOutcome (finalized : Bool) (proposer : Nat) (proposed : Bool) : ProposalWrite :=
  ⟨proposer, proposed, none, none, none, none, finalized⟩

def proposalWithRewards (finalized : Bool) (proposer : Nat) (rewards : BlockRewards) : ProposalWrite :=
  ⟨proposer, true, some (asI64 rewards.total), some (asI64 rewards.attestations), some (asI64 rewards.syncAggregate),
    some (asI64 ((rewards.proposerSlashings + rewards.attesterSlashings) % 2 ^ 64)), finalized⟩

def processEpochProposals (epoch : Nat) (trackedValidators : List Nat) (finalized : Bool) : Task Unit := do
  let proposerDuties ← getProposerDuties spec epoch
  let trackedProposerSlots := Table.ofList ((proposerDuties.filter fun d =>
    trackedValidators.contains d.validatorIndex).map fun d => (d.slot, d.validatorIndex))
  if trackedProposerSlots.rows.isEmpty then return
  each (fun slot =>
    match trackedProposerSlots.get slot with
    | none => pure ()
    | some proposerIndex => do
      match ← getBlockBySlot slot with
      | some _ =>
        let rewards ← getBlockRewards slot
        statement (.upsertBlockProposal slot (proposalWithRewards finalized proposerIndex rewards))
      | none => statement (.upsertBlockProposal slot (proposalOutcome finalized proposerIndex false)))
    (List.range' (spec.epochStartSlot epoch) spec.slotsPerEpoch)

def upsertLiveProposalInSlot (slot proposerIndex : Nat) (block : Option SignedBeaconBlock) : Task Unit :=
  statement (.upsertBlockProposal slot (proposalOutcome false proposerIndex block.isSome))

/-- Fetch by the root already resolved by the live chain worker, not a mutable slot. -/
def fetchLiveProposalRewards (root : Root) (block : SignedBeaconBlock) : Task (BeaconResponse BlockRewards) := do
  let response ← getBlockRewardsByRoot root
  if response.data.proposerIndex ≠ block.proposerIndex then
    throw (.inconsistentBeaconData "block reward proposer disagrees with resolved block")
  return response

/-- `i64::try_from`. -/
def signedReward (value : Nat) : Except Error Int :=
  if value < 2 ^ 63 then .ok value else .error (.inconsistentBeaconData "proposal reward exceeds database range")

/-- Persist only after the caller verifies that the job's block remains canonical. -/
def persistLiveProposalRewards (slot : Nat) (rewards : BlockRewards) : Task Unit := do
  let slashings := rewards.proposerSlashings + rewards.attesterSlashings
  if 2 ^ 64 ≤ slashings then throw (.inconsistentBeaconData "proposal slashing reward overflow")
  let total ← ofExcept (signedReward rewards.total)
  let attestations ← ofExcept (signedReward rewards.attestations)
  let sync ← ofExcept (signedReward rewards.syncAggregate)
  let slash ← ofExcept (signedReward slashings)
  statement (.upsertBlockProposal slot
    ⟨rewards.proposerIndex, true, some total, some attestations, some sync, some slash, false⟩)

/-! ## Sync committee -/

/-- One (participated, net positions) outcome for each validator, which may hold several positions. -/
def syncOutcomes (committee : List Nat) (bits : List Bool) : Table Nat (Bool × Int) :=
  (committee.zip bits).foldl (fun outcomes (validator, bit) =>
    let entry := (outcomes.get validator).getD (false, 0)
    outcomes.put validator (entry.1 || bit, entry.2 + if bit then 1 else -1)) .empty

/-- Zero net positions cancel and cannot reveal the per-position amount. -/
def perPositionReward (total netPositions : Int) : Except Error (Option Int) :=
  if netPositions = 0 then .ok none
  else if total.tmod netPositions ≠ 0 ∨ total.tdiv netPositions < 0 then
    .error (.inconsistentBeaconData "sync reward disagrees with participation")
  else .ok (some (total.tdiv netPositions))

/-- The first reward of a response that reveals the magnitude. -/
def probeRewards (outcomes : Table Nat (Bool × Int)) : List SyncCommitteeReward → Except Error (Option Int)
  | [] => .ok none
  | reward :: rest =>
    match outcomes.get reward.validatorIndex with
    | none => probeRewards outcomes rest
    | some (_, netPositions) =>
      match perPositionReward reward.reward netPositions with
      | .error e => .error e
      | .ok (some magnitude) => .ok (some magnitude)
      | .ok none => probeRewards outcomes rest

/-- Probe the epoch's per-position reward at its first slot whose parent state is available. -/
def probeSyncParticipantReward (relevant committee : List Nat) :
    List (Nat × Option SignedBeaconBlock) → Task (Option Int)
  | [] => pure none
  | (slot, block) :: rest =>
    match block.bind (·.syncAggregate) with
    | none => probeSyncParticipantReward relevant committee rest
    | some aggregate => do
      let bits ← ofExcept (decodeSyncCommitteeBits spec aggregate.syncCommitteeBits)
      let outcomes := syncOutcomes committee bits
      match ← attempt (getSyncCommitteeRewards slot relevant) with
      | .error (.beaconApi 404 _) => probeSyncParticipantReward relevant committee rest
      | .error e => throw e
      | .ok rewards =>
        match ← ofExcept (probeRewards outcomes rewards) with
        | some magnitude => pure (some magnitude)
        | none => probeSyncParticipantReward relevant committee rest

/-- Every relevant member of a slot's committee, from the block's bits or as missed. -/
def processSlotSync (finalized : Bool) (relevant committee : List Nat) (magnitude : Option Int) (slot : Nat)
    (block : Option SignedBeaconBlock) : Task Unit :=
  match block with
  | some block =>
    match block.syncAggregate with
    | none => pure ()
    | some syncAgg => do
      let bits ← ofExcept (decodeSyncCommitteeBits spec syncAgg.syncCommitteeBits)
      each (fun (r : Nat × Bool × Int) =>
        statement (.upsertSyncDuty r.1 slot ⟨r.2.1, magnitude.map (· * r.2.2), false, finalized⟩))
        ((syncOutcomes committee bits).rows.filter fun r => relevant.contains r.1)
  | none => each (fun v => statement (.upsertSyncDuty v slot ⟨false, some 0, true, finalized⟩)) relevant

def processEpochSync (epoch : Nat) (trackedValidators : List Nat) (finalized : Bool) : Task Unit := do
  let duties ← getSyncDuties epoch trackedValidators
  let syncValidatorSet := (duties.map (·.validatorIndex)).dedup
  if syncValidatorSet.isEmpty then return
  let syncCommitteeValidators ← getSyncCommittee epoch
  if syncCommitteeValidators.length ≠ spec.syncCommitteeSize then
    throw (.inconsistentBeaconData
      (s!"sync committee for epoch {epoch} has {syncCommitteeValidators.length} validators, "
        ++ s!"expected {spec.syncCommitteeSize}"))
  let relevant := syncValidatorSet.filter trackedValidators.contains
  if relevant.isEmpty then return
  let slotBlocks ← fetchBlocksForSlots (List.range' (spec.epochStartSlot epoch) spec.slotsPerEpoch)
  let hasBlocks := slotBlocks.any (·.2.isSome)
  let magnitude ← probeSyncParticipantReward spec relevant syncCommitteeValidators slotBlocks
  each (fun (b : Nat × Option SignedBeaconBlock) =>
    processSlotSync spec finalized relevant syncCommitteeValidators magnitude b.1 b.2) slotBlocks
  if magnitude.isNone && hasBlocks then
    throw (.beaconApi 404 s!"sync rewards unavailable for epoch {epoch}; participation saved, scan incomplete")

/-- `positions` of each tracked member in the sync committee. -/
abbrev SyncPositions := Table Nat (List Nat)

/-- Write one member's participation; every position must be inside the bitvector. -/
def upsertLiveSyncMember (slot : Nat) (bits : List Bool) (validatorIndex : Nat) (positions : List Nat) : Task Unit := do
  match positions.find? fun p => decide (bits.length ≤ p) with
  | some p => throw (.inconsistentBeaconData
      (s!"tracked sync-committee position {p} for validator {validatorIndex} is out of range "
        ++ s!"(bits.len()={bits.length})"))
  | none =>
    statement (.upsertSyncDuty validatorIndex slot ⟨positions.any fun p => bits.getD p false, none, false, false⟩)

/-- Rewards are joined independently by the recent-block reward worker. -/
def upsertLiveSyncInSlot (slot : Nat) (block : Option SignedBeaconBlock) (trackedPositions : SyncPositions) :
    Task Unit := do
  if trackedPositions.rows.isEmpty then return
  match block with
  | some block =>
    let some syncAgg := block.syncAggregate | return
    let bits ← ofExcept (decodeSyncCommitteeBits spec syncAgg.syncCommitteeBits)
    each (fun (r : Nat × List Nat) => upsertLiveSyncMember slot bits r.1 r.2) trackedPositions.rows
  | none =>
    each (fun (r : Nat × List Nat) => statement (.upsertSyncDuty r.1 slot ⟨false, some 0, true, false⟩))
      trackedPositions.rows

end BeaconIndexer
