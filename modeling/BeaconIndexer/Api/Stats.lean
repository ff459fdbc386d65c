/-
The aggregate views of the web API: `/api/stats`, `/api/validators` and `/api/epochs`
(`src/{db,web}/api/{stats,validators,epochs}.rs`). Three queries count the same duties, over all rows, for each
validator and for each epoch. Counters are natural numbers and rates are rationals.
-/
import BeaconIndexer.Api.Attestations
import BeaconIndexer.Api.Rewards
import BeaconIndexer.Base.Grouped

namespace BeaconIndexer

open Relational Native

/-- `AVG`, which skips NULLs and has no value over no rows. -/
def average (values : List (Option Int)) : Option ℚ :=
  let known := values.filterMap id
  if known.isEmpty then none else some ((known.sum : ℚ) / known.length)

/-! ## The whole database -/

/-- Raw counts; rates and ratios are computed in the caller. -/
structure DbStats where
  totalValidators : Nat
  totalEpochsScanned : Nat
  attTotal : Nat
  attIncluded : Nat
  attMissed : Nat
  attDecided : Nat
  headOk : Nat
  targetOk : Nat
  sourceOk : Nat
  avgInclusionDelay : Option ℚ
  avgEffectiveInclusionDelay : Option ℚ
  proposalsTotal : Nat
  proposalsMissed : Nat
  syncParticipated : Nat
  syncMissed : Nat
  latestScannedEpoch : Option Nat
  earliestScannedEpoch : Option Nat

def fetchStats (db : Db) : DbStats :=
  let att := db.attestationDuties.rows
  let sync := db.syncDuties.rows
  { totalValidators := db.validators.rows.length
    totalEpochsScanned := (att.map (·.1.2)).dedup.length
    attTotal := att.countP fun e => e.2.included || e.2.inclusionKnown
    attIncluded := att.countP (·.2.included)
    attMissed := att.countP fun e => !e.2.included && e.2.inclusionKnown
    attDecided := att.countP fun e => e.2.included && e.2.sourceCorrect.isSome
    -- the vote counters do not ask for an inclusion
    headOk := att.countP (·.2.headCorrect == some true)
    targetOk := att.countP (·.2.targetCorrect == some true)
    sourceOk := att.countP (·.2.sourceCorrect == some true)
    avgInclusionDelay := average ((att.filter (·.2.included)).map (·.2.inclusionDelay))
    avgEffectiveInclusionDelay := average ((att.filter (·.2.included)).map (·.2.effectiveInclusionDelay))
    proposalsTotal := db.blockProposals.rows.length
    proposalsMissed := db.blockProposals.rows.countP (!·.2.proposed)
    syncParticipated := sync.countP fun d => d.2.participated && !d.2.missedBlock
    syncMissed := sync.countP fun d => !d.2.participated && !d.2.missedBlock
    latestScannedEpoch := (att.map (·.1.2)).max?
    earliestScannedEpoch := (att.map (·.1.2)).min? }

/-! ## One row for each validator -/

structure ValidatorSummary where
  validatorIndex : Nat
  activationEpoch : Int
  exitEpoch : Option Int
  lastScannedEpoch : Option Nat
  attTotal : Nat
  attIncluded : Nat
  attMissed : Nat
  attDecided : Nat
  headOk : Nat
  targetOk : Nat
  sourceOk : Nat
  proposalsTotal : Nat
  proposalsMissed : Nat
  syncParticipated : Nat
  syncMissed : Nat

def validatorSummary (db : Db) (v : Nat) (row : ValidatorRow) : ValidatorSummary :=
  let att := db.attestationDuties.rows.filter fun e => decide (e.1.1 = v)
  let proposals := db.blockProposals.rows.filter fun p => decide (p.2.proposerIndex = v)
  -- a slot without a block counts as missed here
  let sync := db.syncDuties.rows.filter fun d => decide (d.1.1 = v)
  { validatorIndex := v
    activationEpoch := row.activationEpoch
    exitEpoch := row.exitEpoch
    lastScannedEpoch := row.lastScannedEpoch
    attTotal := att.countP fun e => e.2.included || e.2.inclusionKnown
    attIncluded := att.countP (·.2.included)
    attMissed := att.countP fun e => !e.2.included && e.2.inclusionKnown
    attDecided := att.countP fun e => e.2.included && e.2.sourceCorrect.isSome
    headOk := att.countP (·.2.headCorrect == some true)
    targetOk := att.countP (·.2.targetCorrect == some true)
    sourceOk := att.countP (·.2.sourceCorrect == some true)
    proposalsTotal := proposals.length
    proposalsMissed := proposals.countP (!·.2.proposed)
    syncParticipated := sync.countP (·.2.participated)
    syncMissed := sync.countP (!·.2.participated) }

/-- `ORDER BY v.validator_index`. -/
def listValidatorSummaries (db : Db) : List ValidatorSummary :=
  (db.validators.rows.insertionSort fun a b => a.1 ≤ b.1).map fun (v, row) => validatorSummary db v row

/-! ## One row for each epoch -/

structure EpochFilter where
  validatorIndices : Option (List Int)
  epochFrom : Option Int
  epochTo : Option Int

namespace EpochFilter

variable (f : EpochFilter)

/-- `EpochFilter::default()`. -/
def default : EpochFilter := ⟨none, none, none⟩

/-- The conditions of `build_att_where`, in its order, and the number of its placeholders. -/
def build : Nat × List Condition :=
  let acc := pushNext f.validatorIndices.isSome (fun k => [.anyOf k]) (0, [])
  let acc := pushNext f.epochFrom.isSome (fun k => [.compare .epoch .ge k]) acc
  pushNext f.epochTo.isSome (fun k => [.compare .epoch .le k]) acc

def conditions : List Condition := f.build.2

/-- The parameters of `bind_epoch_att!`, in its order. -/
def bindings : List Param :=
  let q := (f.validatorIndices.map Param.ints).toList
  let q := q ++ (f.epochFrom.map Param.int).toList
  q ++ (f.epochTo.map Param.int).toList

/-- `WHERE validator_index = ANY($1)`, for sync and proposal rows. -/
def owns (v : Nat) : Bool := f.validatorIndices.all fun vs => vs.contains (v : Int)

end EpochFilter

structure EpochSummaryRow where
  epoch : Nat
  totalDuties : Nat
  included : Nat
  missed : Nat
  headCorrect : Nat
  targetCorrect : Nat
  sourceCorrect : Nat
  totalReward : Int
  syncParticipated : Nat
  syncMissed : Nat
  proposals : Nat
  proposalsMissed : Nat

/-- `COALESCE(SUM(...), 0)::BIGINT` over the rows of an epoch; one overflow fails the query. -/
def epochReward (att : List DutyEntry) : Except SqlError Int := do
  let totals ← att.mapM fun e => e.2.rewardTotal
  bigint totals.sum

/-- The group of `epoch` among the selected duties, joined with the sync and proposal groups of its slots. -/
def epochSummary (spec : ChainSpec) (f : EpochFilter) (db : Db) (duties : List DutyEntry) (epoch : Nat) :
    Except SqlError EpochSummaryRow := do
  let att := duties.filter fun e => decide (e.1.2 = epoch)
  let sync := db.syncDuties.rows.filter fun d => f.owns d.1.1 && decide (spec.slotToEpoch d.1.2 = epoch)
  let proposals := db.blockProposals.rows.filter fun p =>
    f.owns p.2.proposerIndex && decide (spec.slotToEpoch p.1 = epoch)
  let totalReward ← epochReward att
  return {
    epoch
    totalDuties := att.countP fun e => e.2.included || e.2.inclusionKnown
    included := att.countP (·.2.included)
    missed := att.countP fun e => !e.2.included && e.2.inclusionKnown
    headCorrect := att.countP fun e => e.2.headCorrect == some true && e.2.included
    targetCorrect := att.countP fun e => e.2.targetCorrect == some true && e.2.included
    sourceCorrect := att.countP fun e => e.2.sourceCorrect == some true && e.2.included
    totalReward
    syncParticipated := sync.countP (·.2.participated)
    syncMissed := sync.countP (!·.2.participated)
    proposals := proposals.countP (·.2.proposed)
    proposalsMissed := proposals.countP (!·.2.proposed) }

/-- The epochs of the selected duties, `ORDER BY att.epoch`. -/
def groupedEpochs (order : SortOrder) (duties : List DutyEntry) : List Nat :=
  let ascending := (duties.map (·.1.2)).dedup.insertionSort (· ≤ ·)
  match order with
  | .asc => ascending
  | .desc => ascending.reverse

/-- The page and `COUNT(DISTINCT a.epoch)`; `none` if the conditions do not fit their parameters. -/
def listEpochSummariesPaginated (spec : ChainSpec) (db : Db) (f : EpochFilter) (order : SortOrder) (limit offset : Nat) :
    Option (Except SqlError (List EpochSummaryRow × Nat)) := do
  let duties ← selectDuties f.conditions f.bindings db
  let epochs := groupedEpochs order duties
  return do
    let rows ← epochs.mapM (epochSummary spec f db duties)
    return ((rows.drop offset).take limit, epochs.length)

/-! ## The responses -/

def ratio (num denom : Nat) : ℚ := if 0 < denom then (num : ℚ) / denom else 0

namespace Web

structure Stats where
  totalValidators : Nat
  totalEpochsScanned : Nat
  attestationRate : ℚ
  headCorrectRate : ℚ
  targetCorrectRate : ℚ
  sourceCorrectRate : ℚ
  totalAttestations : Nat
  totalMissed : Nat
  avgInclusionDelay : Option ℚ
  avgEffectiveInclusionDelay : Option ℚ
  totalProposals : Nat
  totalProposalsMissed : Nat
  totalSyncParticipated : Nat
  totalSyncMissed : Nat
  latestScannedEpoch : Option Nat
  earliestScannedEpoch : Option Nat

def getStats (db : Db) : Stats :=
  let s := fetchStats db
  { totalValidators := s.totalValidators
    totalEpochsScanned := s.totalEpochsScanned
    attestationRate := ratio s.attIncluded s.attTotal
    headCorrectRate := ratio s.headOk s.attDecided
    targetCorrectRate := ratio s.targetOk s.attDecided
    sourceCorrectRate := ratio s.sourceOk s.attDecided
    totalAttestations := s.attIncluded
    totalMissed := s.attMissed
    avgInclusionDelay := s.avgInclusionDelay
    avgEffectiveInclusionDelay := s.avgEffectiveInclusionDelay
    totalProposals := s.proposalsTotal
    totalProposalsMissed := s.proposalsMissed
    totalSyncParticipated := s.syncParticipated
    totalSyncMissed := s.syncMissed
    latestScannedEpoch := s.latestScannedEpoch
    earliestScannedEpoch := s.earliestScannedEpoch }

structure ValidatorSummary where
  validatorIndex : Nat
  activationEpoch : Int
  exitEpoch : Option Int
  lastScannedEpoch : Option Nat
  totalAttestations : Nat
  missedAttestations : Nat
  attestationRate : ℚ
  headCorrectRate : ℚ
  targetCorrectRate : ℚ
  sourceCorrectRate : ℚ
  totalProposals : Nat
  missedProposals : Nat
  syncParticipated : Nat
  syncMissed : Nat

def getValidators (db : Db) : List ValidatorSummary :=
  (listValidatorSummaries db).map fun r =>
    { validatorIndex := r.validatorIndex
      activationEpoch := r.activationEpoch
      exitEpoch := r.exitEpoch
      lastScannedEpoch := r.lastScannedEpoch
      totalAttestations := r.attIncluded
      missedAttestations := r.attMissed
      attestationRate := ratio r.attIncluded r.attTotal
      headCorrectRate := ratio r.headOk r.attDecided
      targetCorrectRate := ratio r.targetOk r.attDecided
      sourceCorrectRate := ratio r.sourceOk r.attDecided
      totalProposals := r.proposalsTotal
      missedProposals := r.proposalsMissed
      syncParticipated := r.syncParticipated
      syncMissed := r.syncMissed }

end Web

end BeaconIndexer
