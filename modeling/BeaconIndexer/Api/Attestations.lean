/-
The attestation list of the web API (`src/db/api/attestations.rs`): a filter becomes conditions with numbered
placeholders and a list of parameters, and one page is cut from the matching rows in some ordering that the
ORDER BY clause allows.
-/
import BeaconIndexer.Base.Native
import BeaconIndexer.Base.Paging
import BeaconIndexer.Db.Schema

namespace BeaconIndexer

open Relational Native

/-- A row of `attestation_duties`, keyed by validator and epoch. -/
abbrev DutyEntry : Type := (Nat × Nat) × AttestationRow

/-! ## Columns -/

inductive Column where
  | validatorIndex
  | epoch
  | assignedSlot
  | included
  | headCorrect
  | targetCorrect
  | sourceCorrect
  | finalized
  | effectiveInclusionDelay
  deriving DecidableEq

inductive Value where
  | int (n : Int)
  | bool (b : Bool)
  deriving DecidableEq

namespace Column

def name : Column → String
  | validatorIndex => "validator_index"
  | epoch => "epoch"
  | assignedSlot => "assigned_slot"
  | included => "included"
  | headCorrect => "head_correct"
  | targetCorrect => "target_correct"
  | sourceCorrect => "source_correct"
  | finalized => "finalized"
  | effectiveInclusionDelay => "effective_inclusion_delay"

/-- The value of a row, `none` for NULL. -/
def value (e : DutyEntry) : Column → Option Value
  | validatorIndex => some (.int e.1.1)
  | epoch => some (.int e.1.2)
  | assignedSlot => some (.int e.2.assignedSlot)
  | included => some (.bool e.2.included)
  | headCorrect => e.2.headCorrect.map .bool
  | targetCorrect => e.2.targetCorrect.map .bool
  | sourceCorrect => e.2.sourceCorrect.map .bool
  | finalized => some (.bool e.2.finalized)
  | effectiveInclusionDelay => e.2.effectiveInclusionDelay.map .int

end Column

/-! ## Filters -/

/-- Omitted fields yield no WHERE constraint. -/
structure AttestationFilter where
  validatorIndices : Option (List Int)
  epochFrom : Option Int
  epochTo : Option Int
  processedOnly : Bool
  included : Option Bool
  headCorrect : Option Bool
  targetCorrect : Option Bool
  sourceCorrect : Option Bool
  finalized : Option Bool
  minEffectiveDelay : Option Int
  maxEffectiveDelay : Option Int

/-- A bound value. -/
inductive Param where
  | ints (l : List Int)
  | int (n : Int)
  | bool (b : Bool)
  deriving DecidableEq

inductive CompareOp where
  | eq
  | ge
  | le
  deriving DecidableEq

def CompareOp.sql : CompareOp → String
  | eq => "="
  | ge => ">="
  | le => "<="

/-- A condition of the WHERE clause; `k` is the number of its placeholder. -/
inductive Condition where
  | anyOf (k : Nat)
  | compare (column : Column) (op : CompareOp) (k : Nat)
  | processed
  | inclusionKnown
  deriving DecidableEq

namespace Condition

def sql : Condition → String
  | anyOf k => s!"validator_index = ANY(${k})"
  | compare column op k => s!"{column.name} {op.sql} ${k}"
  | processed => "(included OR inclusion_known)"
  | inclusionKnown => "inclusion_known = TRUE"

def placeholder : Condition → Option Nat
  | anyOf k => some k
  | compare _ _ k => some k
  | processed => none
  | inclusionKnown => none

/-- A comparison with NULL selects nothing; `none` is a comparison of different types. -/
def compareValue (op : CompareOp) (value : Option Value) (param : Param) : Option Bool :=
  match value, param with
  | some (.int a), .int b => match op with
    | .eq => some (decide (a = b))
    | .ge => some (decide (b ≤ a))
    | .le => some (decide (a ≤ b))
  | some (.bool a), .bool b => match op with
    | .eq => some (a == b)
    | _ => none
  | none, .int _ => some false
  | none, .bool _ => some false
  | _, _ => none

/-- Whether a row meets the condition; `none` if the statement fails, for want of a parameter or for its type. -/
def holds (params : List Param) (e : DutyEntry) : Condition → Option Bool
  | anyOf k => match params[k - 1]? with
    | some (.ints vs) => some (vs.contains (e.1.1 : Int))
    | _ => none
  | compare column op k => match params[k - 1]? with
    | some param => compareValue op (column.value e) param
    | none => none
  | processed => some (e.2.included || e.2.inclusionKnown)
  | inclusionKnown => some e.2.inclusionKnown

end Condition

/-- One step of `build_where`: where the field is present, the conditions of the next placeholder. -/
def pushNext (present : Bool) (conds : Nat → List Condition) (acc : Nat × List Condition) : Nat × List Condition :=
  if present then (acc.1 + 1, acc.2 ++ conds (acc.1 + 1)) else acc

def pushFixed (present : Bool) (cond : Condition) (acc : Nat × List Condition) : Nat × List Condition :=
  if present then (acc.1, acc.2 ++ [cond]) else acc

namespace AttestationFilter

variable (f : AttestationFilter)

/-- The conditions of `build_where`, in its order, and the number of its placeholders. -/
def build : Nat × List Condition :=
  let acc := pushNext f.validatorIndices.isSome (fun k => [.anyOf k]) (0, [])
  let acc := pushNext f.epochFrom.isSome (fun k => [.compare .epoch .ge k]) acc
  let acc := pushNext f.epochTo.isSome (fun k => [.compare .epoch .le k]) acc
  let acc := pushFixed f.processedOnly .processed acc
  let acc := pushNext f.included.isSome (fun k => .compare .included .eq k ::
    if f.included = some false then [.inclusionKnown] else []) acc
  let acc := pushNext f.headCorrect.isSome (fun k => [.compare .headCorrect .eq k]) acc
  let acc := pushNext f.targetCorrect.isSome (fun k => [.compare .targetCorrect .eq k]) acc
  let acc := pushNext f.sourceCorrect.isSome (fun k => [.compare .sourceCorrect .eq k]) acc
  let acc := pushNext f.finalized.isSome (fun k => [.compare .finalized .eq k]) acc
  let acc := pushNext f.minEffectiveDelay.isSome (fun k => [.compare .effectiveInclusionDelay .ge k]) acc
  pushNext f.maxEffectiveDelay.isSome (fun k => [.compare .effectiveInclusionDelay .le k]) acc

def conditions : List Condition := f.build.2

def buildWhere : String :=
  if f.conditions.isEmpty then "" else "WHERE " ++ " AND ".intercalate (f.conditions.map Condition.sql)

/-- The parameters of `bind_attestation_filter!`, in its order. -/
def bindings : List Param :=
  let q := (f.validatorIndices.map Param.ints).toList
  let q := q ++ (f.epochFrom.map Param.int).toList
  let q := q ++ (f.epochTo.map Param.int).toList
  let q := q ++ (f.included.map Param.bool).toList
  let q := q ++ (f.headCorrect.map Param.bool).toList
  let q := q ++ (f.targetCorrect.map Param.bool).toList
  let q := q ++ (f.sourceCorrect.map Param.bool).toList
  let q := q ++ (f.finalized.map Param.bool).toList
  let q := q ++ (f.minEffectiveDelay.map Param.int).toList
  q ++ (f.maxEffectiveDelay.map Param.int).toList

end AttestationFilter

/-! ## Orderings -/

inductive AttestationSort where
  | validatorIndex
  | epoch
  | assignedSlot
  | effectiveInclusionDelay
  | included
  deriving DecidableEq

namespace AttestationSort

def column : AttestationSort → Column
  | validatorIndex => .validatorIndex
  | epoch => .epoch
  | assignedSlot => .assignedSlot
  | effectiveInclusionDelay => .effectiveInclusionDelay
  | included => .included

end AttestationSort

inductive SortOrder where
  | asc
  | desc
  deriving DecidableEq

namespace SortOrder

/-- `ORDER BY ... NULLS LAST`: whether a value may stand in front of another. -/
def le (order : SortOrder) : Option Int → Option Int → Prop
  | _, none => True
  | none, some _ => False
  | some a, some b => match order with
    | asc => a ≤ b
    | desc => b ≤ a

instance (order : SortOrder) : DecidableRel order.le := by
  intro a b
  cases a <;> cases b <;> cases order <;> unfold le <;> infer_instance

end SortOrder

/-- The place of a value in the order of its type; FALSE comes before TRUE. -/
def Value.rank : Value → Int
  | int n => n
  | bool b => if b then 1 else 0

def sortKey (sort : AttestationSort) (e : DutyEntry) : Option Int := (sort.column.value e).map Value.rank

/-- Whether the ORDER BY clause lets one row stand in front of another. -/
def rowLe (sort : AttestationSort) (order : SortOrder) (a b : DutyEntry) : Prop := order.le (sortKey sort a) (sortKey sort b)

instance (sort : AttestationSort) (order : SortOrder) : DecidableRel (rowLe sort order) :=
  fun a b => inferInstanceAs (Decidable (order.le (sortKey sort a) (sortKey sort b)))

/-! ## Rows -/

structure AttestationDutyRow where
  validatorIndex : Nat
  epoch : Nat
  assignedSlot : Nat
  committeeIndex : Nat
  committeePosition : Nat
  included : Option Bool
  inclusionSlot : Option Nat
  inclusionDelay : Option Int
  effectiveInclusionDelay : Option Int
  sourceCorrect : Option Bool
  targetCorrect : Option Bool
  headCorrect : Option Bool
  sourceReward : Option Int
  targetReward : Option Int
  headReward : Option Int
  inactivityPenalty : Option Int
  totalReward : Option Int
  finalized : Bool
  deriving DecidableEq

/-- `(included || inclusion_known).then_some(included)`. -/
def shownIncluded (row : AttestationRow) : Option Bool :=
  if row.included || row.inclusionKnown then some row.included else none

/-- The total wraps, as in the release build. -/
def shownTotal (row : AttestationRow) : Option Int :=
  match row.sourceReward, row.targetReward, row.headReward with
  | some s, some t, some h => some (wrapI64 (wrapI64 (wrapI64 (s + t) + h) + row.inactivityPenalty.getD 0))
  | _, _, _ => none

def toDutyRow : DutyEntry → AttestationDutyRow
  | ((v, epoch), row) => ⟨v, epoch, row.assignedSlot, row.committeeIndex, row.committeePosition, shownIncluded row,
    row.inclusionSlot, row.inclusionDelay, row.effectiveInclusionDelay, row.sourceCorrect, row.targetCorrect, row.headCorrect,
    row.sourceReward, row.targetReward, row.headReward, row.inactivityPenalty, shownTotal row, row.finalized⟩

/-! ## The queries -/

/-- A row meets all conditions. -/
def whereHolds (conds : List Condition) (params : List Param) (e : DutyEntry) : Option Bool :=
  (conds.mapM (Condition.holds params e)).map fun flags => flags.all id

/-- `SELECT * FROM attestation_duties WHERE ...` in the order of the table; `none` if the statement fails. -/
def selectDuties (conds : List Condition) (params : List Param) (db : Db) : Option (List DutyEntry) :=
  (db.attestationDuties.rows.mapM fun e => (whereHolds conds params e).map fun flag => (e, flag)).map fun rows =>
    (rows.filter Prod.snd).map Prod.fst

/-- What `list_attestation_duties_paginated` may answer: a page of some ordering that the clause allows, and the total. -/
def listAttestationDutiesPaginated (db : Db) (f : AttestationFilter) (sort : AttestationSort) (order : SortOrder)
    (limit offset : Nat) (answer : List AttestationDutyRow × Nat) : Prop :=
  ∃ matching page, selectDuties f.conditions f.bindings db = some matching ∧
    Paging.Page (rowLe sort order) matching limit offset page ∧ answer = (page.map toDutyRow, matching.length)

end BeaconIndexer
