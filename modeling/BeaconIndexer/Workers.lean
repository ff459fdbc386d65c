/-
The workers that share one database (`src/main.rs`, `src/live/mod.rs`, `src/backfill.rs`,
`src/validators_update.rs`): each instance has a live worker that resumes once and then runs
passes, archive workers that scan finalized epochs, and a metadata worker. Every worker waits at
one request or statement at a time and may be stopped there.
-/
import BeaconIndexer.Base.System
import BeaconIndexer.Live.Reconcile

namespace BeaconIndexer

open Effects

/-- What the workers see of the beacon chain: a view answers the requests of one program, and the
past limits the views that may follow. -/
structure Network where
  View : Type
  Past : Type
  answers : View → (q : Request) → Except Error q.Answer → Prop
  admits : Past → View → Past → Prop

inductive Role where
  | live
  | archive (n : Nat)
  | metadata
  deriving DecidableEq

/-- What a worker keeps between two programs: how its last pass ended and the cursor. -/
inductive Memory where
  | stopped
  | live (tracked : List Nat) (last : Option (Except Error Outcome)) (cursor : Cursor)
  deriving DecidableEq

variable (spec : ChainSpec)

/-! ## Programs of the workers -/

def boot (tracked : List Nat) : Prog indexer Memory :=
  (resume tracked).run.bind fun r => match r with
    | .ok cursor => .pure (.live tracked none cursor)
    | .error _ => .pure .stopped

def pass (cfg : LiveConfig spec) (tracked : List Nat) (cursor : Cursor) : Prog indexer Memory :=
  ((reconcilePass spec cfg tracked).start cursor).bind fun r => .pure (.live tracked (some r.1) r.2)

def archiveScan (epoch : Nat) (validators : List Nat) (mode : EffectiveScanMode) : Prog indexer Memory :=
  (scanEpoch spec epoch validators true mode).run.bind fun _ => .pure .stopped

def refresh (validator : Nat) (activationEpoch : Int) (exitEpoch : Option Int) : Prog indexer Memory :=
  (statement (.upsertValidator validator activationEpoch exitEpoch)).run.bind fun _ => .pure .stopped

/-! ## The system -/

/-- The programs a worker may begin, for the validator sets its instance may be configured with. -/
inductive Begins (cfg : LiveConfig spec) (owns : List Nat → Prop) : Role → Memory → Prog indexer Memory → Prop
  | boot {tracked} : owns tracked → Begins cfg owns .live .stopped (boot tracked)
  | pass {tracked last cursor} : owns tracked →
      Begins cfg owns .live (.live tracked last cursor) (pass spec cfg tracked cursor)
  | scan {n m epoch validators mode} : owns validators →
      Begins cfg owns (.archive n) m (archiveScan spec epoch validators mode)
  | refresh {m v a x} : Begins cfg owns .metadata m (refresh v a x)

/-- The workers of the instances `κ` on one database. -/
def indexers {κ : Type} (net : Network) (cfg : κ → LiveConfig spec) (owns : κ → List Nat → Prop) :
    System indexer (κ × Role) net.View Memory (Db × net.Past) where
  begins i m s w p s' := Begins spec (cfg i.1) (owns i.1) i.2 m p ∧ net.admits s.2 w s'.2 ∧ s'.1 = s.1
  sem _ w e s r s' := indexerSem spec (net.answers w) e s.1 r s'.1 ∧ s'.2 = s.2
  restart _ m := m = .stopped

abbrev Configuration (κ : Type) (net : Network) := Config indexer (κ × Role) net.View Memory (Db × net.Past)

/-- All workers stopped on the migrated, empty database. -/
def initial (κ : Type) (net : Network) (past : net.Past) : Configuration κ net :=
  ⟨(Db.empty, past), fun _ => .idle .stopped⟩

end BeaconIndexer
