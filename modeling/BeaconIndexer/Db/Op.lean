/-
The database statements the indexer issues, as effects: what each one answers and what it does.
Every constructor is one function of `src/db/scanner`, run in one transaction.
-/
import BeaconIndexer.Db.Promote

namespace BeaconIndexer

inductive DbOp where
  | registerTrackingStart (validators : List Nat) (epoch : Nat)
  | eligibleForLiveEpoch (validators : List Nat) (epoch : Nat)
  | trackedValidators
  | recordBlock (slot : Nat) (root parent : Root)
  | recentBlocks (minSlot : Nat)
  | recordCoverage (validators : List Nat) (slot : Nat)
  | processedTip (validators : List Nat)
  | missingCoverageSlots (validators : List Nat) (start stop limit : Nat)
  | invalidateFrom (replayFrom : Nat)
  | enqueueJobs (epoch : Nat) (slot : Option Nat) (component : Component) (validators : List Nat) (root : Option Root)
  | pendingJobs (minEpoch limit : Nat)
  | completeJob (job : LiveJob) (payload : Payload) (dependency : Root)
  | failJob (job : LiveJob) (error : String)
  | expireJobs (minEpoch : Nat)
  | pruneCompletedEvidence (retainEpoch : Nat)
  | reportProgress
  | upsertAttestationDuty (validator epoch : Nat) (w : AttestationWrite)
  | repairFinalizedInclusion (validator epoch : Nat) (details : InclusionDetails)
  | updateAttestationRewardsBatch (rewards : List RewardTuple)
  | upsertBlockProposal (slot : Nat) (w : ProposalWrite)
  | upsertSyncDuty (validator slot : Nat) (w : SyncWrite)
  | persistLiveSyncRewards (slot : Nat) (rewards : List SyncCommitteeReward)
  | markComplete (validators : List Nat) (epoch : Nat)
  | activeValidatorsAt (tracked : List Nat) (epoch : Nat)
  | repairSlots (roots : List Root) (minSlot : Nat)
  | promoteCollected (p : Promotion)
  | upsertValidator (validator : Nat) (activationEpoch : Int) (exitEpoch : Option Int)

namespace DbOp

abbrev Answer : DbOp → Type
  | eligibleForLiveEpoch _ _ => List Nat
  | trackedValidators => List Nat
  | recentBlocks _ => List (Nat × Root × Root)
  | processedTip _ => Option Nat
  | missingCoverageSlots _ _ _ _ => List Nat
  | pendingJobs _ _ => List LiveJob
  | activeValidatorsAt _ _ => List Nat
  | repairSlots _ _ => List Nat
  | promoteCollected _ => Nat
  | _ => Unit

variable (spec : ChainSpec)

/-- The statement's effect on the database at clock `now`; queries leave it unchanged. -/
def exec (now : Nat) : DbOp → Db → Db
  | registerTrackingStart vs e, db => db.registerTrackingStart vs e
  | recordBlock s r p, db => db.recordBlock s r p
  | recordCoverage vs s, db => db.recordCoverage vs s
  | invalidateFrom r, db => db.invalidateFrom spec r
  | enqueueJobs e s c vs r, db => db.enqueueJobs now e s c vs r
  | completeJob job payload dep, db => db.completeJob job payload dep
  | failJob job error, db => db.failJob now job error
  | expireJobs e, db => db.expireJobs e
  | pruneCompletedEvidence e, db => db.pruneCompletedEvidence spec e
  | upsertAttestationDuty v e w, db => db.upsertAttestationDuty v e w
  | repairFinalizedInclusion v e d, db => db.repairFinalizedInclusion v e d
  | updateAttestationRewardsBatch rs, db => db.updateAttestationRewardsBatch rs
  | upsertBlockProposal s w, db => db.upsertBlockProposal spec s w
  | upsertSyncDuty v s w, db => db.upsertSyncDuty spec v s w
  | persistLiveSyncRewards s rs, db => db.persistLiveSyncRewards s rs
  | markComplete vs e, db => db.markComplete vs e
  | promoteCollected p, db => (db.promoteCollected spec p).2
  | upsertValidator v a x, db => db.upsertValidator v a x
  | _, db => db

/-- What the statement returns. -/
def answer (now : Nat) : (op : DbOp) → Db → op.Answer
  | eligibleForLiveEpoch vs e, db => db.eligibleForLiveEpoch vs e
  | trackedValidators, db => db.trackedValidators
  | recentBlocks s, db => db.recentBlocks s
  | processedTip vs, db => db.processedTip vs
  | missingCoverageSlots vs a b n, db => db.missingCoverageSlots spec vs a b n
  | pendingJobs e n, db => db.pendingJobs now e n
  | activeValidatorsAt vs e, db => db.activeValidatorsAt vs e
  | repairSlots roots s, db => db.repairSlots roots s
  | promoteCollected p, db => (db.promoteCollected spec p).1
  | registerTrackingStart .., _ => ()
  | recordBlock .., _ => ()
  | recordCoverage .., _ => ()
  | invalidateFrom .., _ => ()
  | enqueueJobs .., _ => ()
  | completeJob .., _ => ()
  | failJob .., _ => ()
  | expireJobs .., _ => ()
  | pruneCompletedEvidence .., _ => ()
  | reportProgress, _ => ()
  | upsertAttestationDuty .., _ => ()
  | repairFinalizedInclusion .., _ => ()
  | updateAttestationRewardsBatch .., _ => ()
  | upsertBlockProposal .., _ => ()
  | upsertSyncDuty .., _ => ()
  | persistLiveSyncRewards .., _ => ()
  | markComplete .., _ => ()
  | upsertValidator .., _ => ()

end DbOp

end BeaconIndexer
