/-
The indexer as an effectful program: its effects are requests to a beacon node and database
statements. Client calls that check or combine answers (`src/beacon_client/{blocks,duties,
metadata}.rs`) are programs over the requests.
-/
import BeaconIndexer.Base.Prog
import BeaconIndexer.Db.Op

namespace BeaconIndexer

open Effects

/-- What a program waits for. -/
inductive Effect where
  | node (q : Request)
  | db (op : DbOp)

/-- Every request and every statement may fail. -/
abbrev Effect.Result : Effect → Type
  | node q => Except Error q.Answer
  | db op => Except Error op.Answer

/-- The effects of the indexer with their results. -/
abbrev indexer : Signature := ⟨Effect, Effect.Result⟩

/-- An async function of the source, with its error. -/
abbrev Task (α : Type) := Async indexer Error α

/-- Ask the node. -/
def request (q : Request) : Task q.Answer := ask (S := indexer) (.node q) id

/-- Run a statement on the database. -/
def statement (op : DbOp) : Task op.Answer := ask (S := indexer) (.db op) id

/-- What effects do on the database: a node answers by `node`, a statement runs at some clock or
fails and leaves the database as it is. -/
def indexerSem (spec : ChainSpec) (node : (q : Request) → Except Error q.Answer → Prop) : Sem indexer Db
  | .node q, db, r, db' => node q r ∧ db' = db
  | .db op, db, r, db' =>
    (∃ now, r = .ok (op.answer spec now db) ∧ db' = op.exec spec now db) ∨
    (∃ message, r = .error (.database message) ∧ db' = db)

/-- An explicit optimistic response is never authoritative. -/
def ensureNotOptimistic {α : Type} (response : BeaconResponse α) : Task Unit :=
  if response.executionOptimistic = some true then
    throw (.inconsistentBeaconData "execution-optimistic response")
  else pure ()

/-- A header that is neither optimistic nor off the canonical chain. -/
def getHeader (id : HeaderId) : Task (BeaconResponse HeaderData) := do
  let response ← request (.header id)
  ensureNotOptimistic response
  if !response.data.canonical then throw (.inconsistentBeaconData "noncanonical block header")
  return response

/-- The header of the head. -/
def getHeadHeader : Task HeaderData := do
  let response ← getHeader .head
  return response.data

/-- The block of a root, none where the node has none. -/
def getBlockByRoot (root : Root) : Task (Option SignedBeaconBlock) := request (.blockByRoot root)

/-- The root of a slot, none where the node has none. -/
def getBlockRoot (slot : Nat) : Task (Option Root) := request (.blockRoot slot)

/-- The block request is pinned to the root the slot resolves to. The source checks the slot of a fetched block and not
of a cached one, which is the same unless a node reports one root for two slots (`exec_getBlockBySlot`). -/
def getBlockBySlot (slot : Nat) : Task (Option SignedBeaconBlock) := do
  let some root ← getBlockRoot slot | return none
  let block ← getBlockByRoot root
  if block.any fun b => b.slot != slot then
    throw (.inconsistentBeaconData "block slot disagrees with root lookup")
  return block

/-- The attester duties of an epoch for these validators. -/
def getAttesterDuties (epoch : Nat) (indices : List Nat) : Task (List AttesterDuty) :=
  request (.attesterDuties epoch indices)

/-- A proposer response must name every slot of the epoch once. -/
def getProposerDuties (spec : ChainSpec) (epoch : Nat) : Task (List ProposerDuty) := do
  let duties ← request (.proposerDuties epoch)
  let start := spec.epochStartSlot epoch
  let stop := spec.epochStartSlot (epoch + 1)
  let slots := (duties.map (·.slot)).dedup
  if duties.length != spec.slotsPerEpoch || slots.length != duties.length
      || slots.any fun slot => decide (slot < start) || decide (stop ≤ slot) then
    throw (.inconsistentBeaconData "proposer response does not cover every slot in the requested epoch")
  return duties

/-- The sync duties of an epoch for these validators. -/
def getSyncDuties (epoch : Nat) (indices : List Nat) : Task (List SyncDuty) := request (.syncDuties epoch indices)

/-- The beacon committees of an epoch. -/
def getCommittees (epoch : Nat) : Task (List Committee) := request (.committees epoch)

/-- The members of the sync committee, position by position. -/
def getSyncCommittee (epoch : Nat) : Task (List Nat) := request (.syncCommittee epoch)

/-- The attestation rewards of an epoch, as the response states them. -/
def getAttestationRewardsResponse (epoch : Nat) (indices : List Nat) :
    Task (BeaconResponse (List ValidatorAttestationReward)) := do
  let response ← request (.attestationRewards epoch indices)
  ensureNotOptimistic response
  return response

/-- The data of that response. -/
def getAttestationRewards (epoch : Nat) (indices : List Nat) : Task (List ValidatorAttestationReward) := do
  let response ← getAttestationRewardsResponse epoch indices
  return response.data

/-- The rewards of the block in a slot. -/
def getBlockRewards (slot : Nat) : Task BlockRewards := request (.blockRewardsBySlot slot)

/-- The rewards of a named block. -/
def getBlockRewardsByRoot (root : Root) : Task (BeaconResponse BlockRewards) := do
  let response ← request (.blockRewardsByRoot root)
  ensureNotOptimistic response
  return response

/-- The sync rewards of the block in a slot. -/
def getSyncCommitteeRewards (slot : Nat) (indices : List Nat) : Task (List SyncCommitteeReward) :=
  request (.syncRewardsBySlot slot indices)

/-- The sync rewards of a named block. -/
def getSyncCommitteeRewardsByRoot (root : Root) (indices : List Nat) :
    Task (BeaconResponse (List SyncCommitteeReward)) := do
  let response ← request (.syncRewardsByRoot root indices)
  ensureNotOptimistic response
  return response

/-- The state root of a slot. -/
def getStateRoot (slot : Nat) : Task (BeaconResponse Root) := do
  let response ← request (.stateRoot slot)
  ensureNotOptimistic response
  return response

/-- The checkpoints of a state. -/
def getFinalityCheckpoints (id : StateId) : Task (BeaconResponse FinalityCheckpoints) := do
  let response ← request (.finalityCheckpoints id)
  ensureNotOptimistic response
  return response

end BeaconIndexer
