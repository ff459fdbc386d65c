/-
Finality (`src/live/finalization.rs`): confirm collected evidence against the stored ancestry of
the finalized checkpoint.
-/
import BeaconIndexer.Live.Head

namespace BeaconIndexer

open Effects Relational

variable (spec : ChainSpec)

/-- Stored blocks by root. -/
def blocksByRoot (blocks : List (Nat × Root × Root)) : Table Root (Nat × Root) :=
  .ofList (blocks.map fun (slot, root, parent) => (root, (slot, parent)))

/-- The parent chain from `cursor` on, below the child's slot. Slots fall along it, so `child`
steps are enough. -/
def confirmedFrom (byRoot : Table Root (Nat × Root)) : (fuel : Nat) → (child : Nat) → Root → List (Nat × Root)
  | 0, _, _ => []
  | fuel + 1, child, cursor =>
    match byRoot.get cursor with
    | none => []
    | some (slot, parent) =>
      if child ≤ slot then [] else (slot, cursor) :: confirmedFrom byRoot fuel slot parent

/-- Only the uninterrupted parent chain ending at the checkpoint is confirmed. -/
def confirmedAncestry (blocks : List (Nat × Root × Root)) (root : Root) : List (Nat × Root) :=
  let byRoot := blocksByRoot blocks
  match byRoot.get root with
  | none => []
  | some (slot, parent) => (slot, root) :: confirmedFrom byRoot slot slot parent

/-- Decode missing details of confirmed inclusions again, a few slots a pass. -/
def repairDetails (tracked : List Nat) (resolved : ResolvedChain) (slots : List Nat) : Task Unit :=
  each (fun slot =>
    match resolved.blocks.get slot with
    | some block => do
      let _ ← attempt (scanLiveAttestationsInSlot spec tracked block resolved.roots true)
      pure ()
    | none => pure ()) slots

/-- Finality confirms previously collected evidence; it never requires an old state rescan. -/
def finalizeCollectedEvidence (finalized : Checkpoint) (resolved : ResolvedChain) : Task Unit := do
  let some target := ChainSpec.finalizedScanTarget finalized.epoch | return
  let header ← getHeader (.root finalized.root)
  if header.executionOptimistic = some true ∨ ¬ header.data.canonical ∨ header.data.root ≠ finalized.root then
    throw (.inconsistentBeaconData "Finalized root is not verified canonical")
  let blocks ← statement (.recentBlocks 0)
  let confirmed := confirmedAncestry blocks finalized.root
  let some floor := (confirmed.map Prod.fst).min? | return
  let roots := confirmed.map Prod.snd
  -- validators removed from the current config can still have provisional evidence
  let indices ← statement .trackedValidators
  let repairSlots ← statement (.repairSlots roots (resolved.minSlot.getD 0))
  repairDetails spec indices resolved repairSlots
  let _ ← statement (.promoteCollected ⟨indices, target, finalized.epoch, floor, roots⟩)

end BeaconIndexer
