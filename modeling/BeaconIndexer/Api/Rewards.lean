/-
The reward windows of the web API (`src/web/api/rewards.rs`, `src/db/api/rewards.rs`): sums of rewards over the
last 1, 7 and 30 days and over everything. The three queries group different rows by validator and are one
function of those rows. Additions of `i64` wrap, as in the release build.
-/
import BeaconIndexer.Base.Native
import BeaconIndexer.Db.Replay

namespace BeaconIndexer

open Relational Native

namespace ChainSpec

/-- `epochs_per_day`, for a spec with these seconds per slot. -/
def epochsPerDay (spec : ChainSpec) (secondsPerSlot : Nat) : Nat := 86400 / (secondsPerSlot * spec.slotsPerEpoch)

end ChainSpec

/-! ## Queries -/

structure WindowSums where
  d1 : Int
  d7 : Int
  d30 : Int
  all : Int
  epochsD1 : Nat
  epochsD7 : Nat
  epochsD30 : Nat
  epochsAll : Nat
  deriving DecidableEq

/-- `WindowSums::default()`. -/
def WindowSums.default : WindowSums := ⟨0, 0, 0, 0, 0, 0, 0, 0⟩

/-- The sums of a query that counts no epochs. -/
def WindowSums.withoutEpochs (s : WindowSums) : WindowSums := ⟨s.d1, s.d7, s.d30, s.all, 0, 0, 0, 0⟩

/-- A row of a window query: the validator it is grouped by, the epoch or slot that is compared with the cutoffs, and
the reward. -/
structure RewardRow where
  validator : Nat
  position : Nat
  reward : Option Int
  deriving DecidableEq

/-- `COALESCE(SUM(reward) FILTER (WHERE ...), 0)` of one group, before its cast. -/
def sumWhere (rows : List RewardRow) (v : Nat) (p : Nat → Bool) : Int :=
  ((rows.filter fun r => r.validator == v && p r.position).map fun r => r.reward.getD 0).sum

/-- `COUNT(*) FILTER (WHERE ...)` of one group. -/
def countWhere (rows : List RewardRow) (v : Nat) (p : Nat → Bool) : Nat :=
  (rows.filter fun r => r.validator == v && p r.position).length

/-- `position >= $n`. -/
def since (cutoff : Int) (position : Nat) : Bool := decide (cutoff ≤ position)

/-- The sums of one group; a sum out of the range of BIGINT fails the query. -/
def groupSums (rows : List RewardRow) (cutoff1d cutoff7d cutoff30d : Int) (v : Nat) : Except SqlError WindowSums := do
  let d1 ← bigint (sumWhere rows v (since cutoff1d))
  let d7 ← bigint (sumWhere rows v (since cutoff7d))
  let d30 ← bigint (sumWhere rows v (since cutoff30d))
  let all ← bigint (sumWhere rows v fun _ => true)
  return ⟨d1, d7, d30, all, countWhere rows v (since cutoff1d), countWhere rows v (since cutoff7d),
    countWhere rows v (since cutoff30d), countWhere rows v fun _ => true⟩

/-- `GROUP BY validator`. -/
def windowSums (rows : List RewardRow) (cutoff1d cutoff7d cutoff30d : Int) : Except SqlError (List (Nat × WindowSums)) :=
  (rows.map (·.validator)).dedup.mapM fun v => do
    let sums ← groupSums rows cutoff1d cutoff7d cutoff30d v
    return (v, sums)

/-- `COALESCE(source_reward,0) + COALESCE(target_reward,0) + COALESCE(head_reward,0) + COALESCE(inactivity_penalty,0)`,
an addition of BIGINTs. -/
def AttestationRow.rewardTotal (r : AttestationRow) : Except SqlError Int := do
  let votes ← bigint (r.sourceReward.getD 0 + r.targetReward.getD 0)
  let votes ← bigint (votes + r.headReward.getD 0)
  bigint (votes + r.inactivityPenalty.getD 0)

namespace Db

variable (db : Db)

/-- `COALESCE(MAX(epoch), 0)`. -/
def latestScannedEpoch : Nat := (db.attestationDuties.rows.map fun r => r.1.2).max?.getD 0

def listValidatorIndices : List Nat := (db.validators.rows.map Prod.fst).insertionSort (· ≤ ·)

def attestationRewardWindows (cutoff1d cutoff7d cutoff30d : Int) : Except SqlError (List (Nat × WindowSums)) := do
  let rows ← db.attestationDuties.rows.mapM fun ((v, epoch), row) => do
    let total ← row.rewardTotal
    return ⟨v, epoch, some total⟩
  windowSums rows cutoff1d cutoff7d cutoff30d

def syncRewardRows : List RewardRow := db.syncDuties.rows.map fun ((v, slot), row) => ⟨v, slot, row.reward⟩

def syncRewardWindows (slot1d slot7d slot30d : Int) : Except SqlError (List (Nat × WindowSums)) :=
  (windowSums db.syncRewardRows slot1d slot7d slot30d).map fun l => l.map fun (v, s) => (v, s.withoutEpochs)

def proposalRewardRows : List RewardRow :=
  db.blockProposals.rows.map fun (slot, row) => ⟨row.proposerIndex, slot, row.rewardTotal⟩

def proposalRewardWindows (slot1d slot7d slot30d : Int) : Except SqlError (List (Nat × WindowSums)) :=
  (windowSums db.proposalRewardRows slot1d slot7d slot30d).map fun l => l.map fun (v, s) => (v, s.withoutEpochs)

end Db

/-! ## The response -/

structure RewardWindow where
  attestationReward : Int
  syncReward : Int
  proposalReward : Int
  total : Int
  epochs : Nat
  deriving DecidableEq

structure ValidatorRewards where
  validatorIndex : Nat
  day1 : RewardWindow
  day7 : RewardWindow
  day30 : RewardWindow
  allTime : RewardWindow
  deriving DecidableEq

structure TotalRewards where
  day1 : RewardWindow
  day7 : RewardWindow
  day30 : RewardWindow
  allTime : RewardWindow
  deriving DecidableEq

structure RewardsResponse where
  validators : List ValidatorRewards
  totals : TotalRewards
  latestEpoch : Nat

def emptyWindow : RewardWindow := ⟨0, 0, 0, 0, 0⟩

/-- `a.total + s.total + p.total` and the like. -/
def wrappingSum (a b c : Int) : Int := wrapI64 (wrapI64 (a + b) + c)

def sumWindows (a b : RewardWindow) : RewardWindow where
  attestationReward := wrapI64 (a.attestationReward + b.attestationReward)
  syncReward := wrapI64 (a.syncReward + b.syncReward)
  proposalReward := wrapI64 (a.proposalReward + b.proposalReward)
  total := wrapI64 (a.total + b.total)
  epochs := max a.epochs b.epochs

/-- `(latest_epoch - epochs_per_day * days).max(0)`. -/
def epochCutoff (epochsPerDay latestEpoch days : Nat) : Int := max ((latestEpoch : Int) - epochsPerDay * days) 0

/-- `cutoff * spe`. -/
def slotCutoff (spec : ChainSpec) (cutoff : Int) : Int := wrapI64 (cutoff * spec.slotsPerEpoch)

/-- The entry of one validator; a validator without rows has no sums. -/
def validatorRewards (att sync proposal : List (Nat × WindowSums)) (v : Nat) : ValidatorRewards :=
  let a := (att.lookup v).getD .default
  let s := (sync.lookup v).getD .default
  let p := (proposal.lookup v).getD .default
  ⟨v, ⟨a.d1, s.d1, p.d1, wrappingSum a.d1 s.d1 p.d1, a.epochsD1⟩, ⟨a.d7, s.d7, p.d7, wrappingSum a.d7 s.d7 p.d7, a.epochsD7⟩,
    ⟨a.d30, s.d30, p.d30, wrappingSum a.d30 s.d30 p.d30, a.epochsD30⟩,
    ⟨a.all, s.all, p.all, wrappingSum a.all s.all p.all, a.epochsAll⟩⟩

/-- A query that fails counts as empty (`unwrap_or_default`). -/
def getRewards (spec : ChainSpec) (secondsPerSlot : Nat) (db : Db) : RewardsResponse :=
  let latestEpoch := db.latestScannedEpoch
  let epochsPerDay := spec.epochsPerDay secondsPerSlot
  let cutoff1d := epochCutoff epochsPerDay latestEpoch 1
  let cutoff7d := epochCutoff epochsPerDay latestEpoch 7
  let cutoff30d := epochCutoff epochsPerDay latestEpoch 30
  let att := (db.attestationRewardWindows cutoff1d cutoff7d cutoff30d).toOption.getD []
  let sync := (db.syncRewardWindows (slotCutoff spec cutoff1d) (slotCutoff spec cutoff7d)
    (slotCutoff spec cutoff30d)).toOption.getD []
  let proposal := (db.proposalRewardWindows (slotCutoff spec cutoff1d) (slotCutoff spec cutoff7d)
    (slotCutoff spec cutoff30d)).toOption.getD []
  let validators := db.listValidatorIndices.map (validatorRewards att sync proposal)
  ⟨validators,
    ⟨validators.foldl (fun t r => sumWindows t r.day1) emptyWindow, validators.foldl (fun t r => sumWindows t r.day7) emptyWindow,
      validators.foldl (fun t r => sumWindows t r.day30) emptyWindow,
      validators.foldl (fun t r => sumWindows t r.allTime) emptyWindow⟩, latestEpoch⟩

end BeaconIndexer
