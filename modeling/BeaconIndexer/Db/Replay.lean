/-
The replay of staged rewards in `promote_collected` (`src/live/finalization.rs`) with the casts of SQL: the
payload is the JSON of a response (`src/beacon_client/types.rs`), every joined row casts its fields to
BIGINT, and a field out of range fails the statement and with it the whole transaction.
-/
import BeaconIndexer.Db.Promote

namespace BeaconIndexer

open Relational

/-! ## Staged JSON -/

/-- The JSON of a staged response; a decimal string is given by the number it spells. -/
inductive Json where
  | null
  | decimal (n : Int)
  | array (elements : List Json)
  | object (fields : List (String × Json))

/-- `ser_i64_string_opt`. -/
def Json.decimalOpt (n : Option Int) : Json := n.elim .null .decimal

/-- `serde_json::to_value`. -/
def ValidatorAttestationReward.toValue (r : ValidatorAttestationReward) : Json :=
  .object [("validator_index", .decimal r.validatorIndex), ("head", .decimal r.head), ("target", .decimal r.target),
    ("source", .decimal r.source), ("inclusion_delay", .decimalOpt r.inclusionDelay),
    ("inactivity", .decimalOpt r.inactivity)]

def SyncCommitteeReward.toValue (r : SyncCommitteeReward) : Json :=
  .object [("validator_index", .decimal r.validatorIndex), ("reward", .decimal r.reward)]

def BlockRewards.toValue (r : BlockRewards) : Json :=
  .object [("proposer_index", .decimal r.proposerIndex), ("total", .decimal r.total),
    ("attestations", .decimal r.attestations), ("sync_aggregate", .decimal r.syncAggregate),
    ("proposer_slashings", .decimal r.proposerSlashings), ("attester_slashings", .decimal r.attesterSlashings)]

/-- The ideal rewards of an attestation response are staged as well and never read back. -/
def Payload.toValue : Payload → Json
  | attestation totalRewards => .object [("total_rewards", .array (totalRewards.map (·.toValue)))]
  | proposal rewards => rewards.toValue
  | sync rewards => .array (rewards.map (·.toValue))

theorem except_bind_eq_ok {ε β : Type} {x : Except ε α} {f : α → Except ε β} {b : β} :
    (x >>= f) = .ok b ↔ ∃ a, x = .ok a ∧ f a = .ok b := by
  cases x with
  | error e =>
    constructor
    · intro h; cases h
    · rintro ⟨_, h, _⟩; cases h
  | ok a =>
    constructor
    · intro h; exact ⟨a, rfl, h⟩
    · rintro ⟨_, h, hf⟩; cases h; exact hf

/-! ## SQL on JSON -/

inductive SqlError where
  | bigintOutOfRange
  | invalidBigint
  | notAnArray
  deriving DecidableEq

/-- `j -> key`, where `none` is NULL. -/
def jsonField (j : Option Json) (key : String) : Option Json :=
  match j with
  | some (.object fields) => fields.lookup key
  | _ => none

/-- `JSONB_ARRAY_ELEMENTS(j)`. -/
def jsonArrayElements : Option Json → Except SqlError (List Json)
  | none => .ok []
  | some (.array elements) => .ok elements
  | some _ => .error .notAnArray

def inBigint (n : Int) : Prop := -2 ^ 63 ≤ n ∧ n < 2 ^ 63

instance (n : Int) : Decidable (inBigint n) := inferInstanceAs (Decidable (_ ∧ _))

def bigint (n : Int) : Except SqlError Int := if inBigint n then .ok n else .error .bigintOutOfRange

theorem bigint_ok {n : Int} (h : inBigint n) : bigint n = .ok n := if_pos h

theorem bigint_eq_ok {n m : Int} : bigint n = .ok m ↔ inBigint n ∧ m = n := by
  unfold bigint
  split
  · rename_i h
    simp [h, eq_comm]
  · rename_i h
    simp [h]

/-- `(j ->> key)::BIGINT`. -/
def bigintField (j : Option Json) (key : String) : Except SqlError (Option Int) :=
  match jsonField j key with
  | none | some .null => .ok none
  | some (.decimal n) => some <$> bigint n
  | some _ => .error .invalidBigint

/-- `a + b` on BIGINT. -/
def addBigint (a b : Option Int) : Except SqlError (Option Int) :=
  match a, b with
  | some a, some b => some <$> bigint (a + b)
  | _, _ => .ok none

/-! ## The three statements -/

variable {α : Type}

/-- The staged values of the joined jobs, job by job; one failure fails the statement. -/
def evalJobs (eval : Nat → Option Json → Except SqlError (Option α)) :
    List (JobKey × JobRow) → Except SqlError (List (JobKey × α))
  | [] => .ok []
  | (j, row) :: rest => do
    let value ← eval j.validator (row.payload.map Payload.toValue)
    let values ← evalJobs eval rest
    return (value.map (j, ·)).toList ++ values

/-- The first element that names the validator; the index of every element is cast. -/
def evalElements (eval : Json → Except SqlError α) (validator : Nat) : List Json → Except SqlError (Option α)
  | [] => .ok none
  | r :: rest => do
    let index ← bigintField (some r) "validator_index"
    let value ← if index = some (validator : Int) then some <$> eval r else pure none
    let later ← evalElements eval validator rest
    return value.or later

/-- The `SET` list of the attestation statement. -/
structure AttestationColumns where
  source : Option Int
  target : Option Int
  head : Option Int
  inactivity : Option Int
  deriving DecidableEq

def attestationColumns (r : Json) : Except SqlError AttestationColumns := do
  let source ← bigintField (some r) "source"
  let target ← bigintField (some r) "target"
  let head ← bigintField (some r) "head"
  let inactivity ← bigintField (some r) "inactivity"
  return ⟨source, target, head, inactivity⟩

def replayAttestation (validator : Nat) (payload : Option Json) : Except SqlError (Option AttestationColumns) := do
  let elements ← jsonArrayElements (jsonField payload "total_rewards")
  evalElements attestationColumns validator elements

/-- The `SET` list of the proposal statement. -/
structure ProposalColumns where
  total : Option Int
  attestations : Option Int
  sync : Option Int
  slashings : Option Int
  deriving DecidableEq

def proposalColumns (payload : Option Json) : Except SqlError ProposalColumns := do
  let total ← bigintField payload "total"
  let attestations ← bigintField payload "attestations"
  let sync ← bigintField payload "sync_aggregate"
  let proposerSlashings ← bigintField payload "proposer_slashings"
  let attesterSlashings ← bigintField payload "attester_slashings"
  let slashings ← addBigint proposerSlashings attesterSlashings
  return ⟨total, attestations, sync, slashings⟩

def replayProposal (validator : Nat) (payload : Option Json) : Except SqlError (Option ProposalColumns) := do
  let proposer ← bigintField payload "proposer_index"
  if proposer = some (validator : Int) then some <$> proposalColumns payload else return none

def replaySync (validator : Nat) (payload : Option Json) : Except SqlError (Option (Option Int)) := do
  let elements ← jsonArrayElements payload
  evalElements (fun r => bigintField (some r) "reward") validator elements

namespace Db

variable (p : Promotion) (db : Db)

/-- A confirmed job of the promoted validators, up to an epoch. -/
def joinsJob (component : Component) (bound : Nat) (j : JobKey) (row : JobRow) : Bool :=
  j.component == component && row.confirmed p.roots && p.validators.contains j.validator && decide (j.epoch ≤ bound)
    && !db.completed j.validator j.epoch

/-- The job is joined to a duty row. -/
def joinsAttestation (j : JobKey) (row : JobRow) : Bool :=
  db.joinsJob p .attestationRewards p.completionTarget j row && db.attestationDuties.has (j.validator, j.epoch)

def joinsProposal (j : JobKey) (row : JobRow) : Bool :=
  db.joinsJob p .proposalRewards p.finalizedEpoch j row &&
    j.slot.any fun s => (db.blockProposals.get s).any (·.proposerIndex == j.validator)

def joinsSync (j : JobKey) (row : JobRow) : Bool :=
  db.joinsJob p .syncRewards p.finalizedEpoch j row && j.slot.any fun s => db.syncDuties.has (j.validator, s)

def replayAttestationRewards : Except SqlError Db := do
  let staged ← evalJobs replayAttestation (db.liveJobs.select (db.joinsAttestation p))
  return { db with
    attestationDuties := db.attestationDuties.modify fun (v, e) a => some <|
      match staged.find? fun r => r.1.validator == v && r.1.epoch == e with
      | some (_, c) => a.withRewards c.source c.target c.head c.inactivity
      | none => a }

def replayProposalRewards : Except SqlError Db := do
  let staged ← evalJobs replayProposal (db.liveJobs.select (db.joinsProposal p))
  return { db with
    blockProposals := db.blockProposals.modify fun s d => some <|
      match staged.find? fun r => r.1.slot == some s && r.1.validator == d.proposerIndex with
      | some (_, c) => { d with
          rewardTotal := c.total
          rewardAttestations := c.attestations
          rewardSync := c.sync
          rewardSlashings := c.slashings }
      | none => d }

def replaySyncRewards : Except SqlError Db := do
  let staged ← evalJobs replaySync (db.liveJobs.select (db.joinsSync p))
  return { db with
    syncDuties := db.syncDuties.modify fun (v, s) d => some <|
      match staged.find? fun r => r.1.slot == some s && r.1.validator == v with
      | some (_, reward) => { d with reward }
      | none => d }

/-- The replay of one promotion, all or nothing. -/
def replayRewards : Except SqlError Db := do
  let db ← db.replayAttestationRewards p
  let db ← db.replayProposalRewards p
  db.replaySyncRewards p

end Db

end BeaconIndexer
