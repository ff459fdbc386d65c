/-
What one run of `processSlot` writes, over every pattern of failures: coverage only after everything else
of the slot, the inclusions of every epoch whose inputs are available, and no outcome of a block before the
block.
-/
import BeaconIndexer.Base.Trace
import BeaconIndexer.Db.Run
import BeaconIndexer.Db.Spec
import BeaconIndexer.Proofs.Issued

namespace BeaconIndexer

open Effects Relational Contract

/-! ## The stages of a slot -/

section Stages

variable (spec : ChainSpec) (slot : Nat) (active : List Nat) (duties : EpochDuties) (resolved : ResolvedChain)

/-- The block, the proposal and the sync participation of a slot. -/
def slotOutcomes : Task Unit := do
  match resolved.entries.get slot with
  | some (root, block) => statement (.recordBlock slot root block.parentRoot)
  | none => pure ()
  collectProposal spec slot (resolved.entries.get slot) (duties.proposerBySlot.get slot)
  collectSync spec slot (resolved.entries.get slot) duties.syncPositions

/-- The attestations of a slot's block. -/
def slotAttestations : Task Unit :=
  match resolved.entries.get slot with
  | some (_, block) => if !active.isEmpty then scanLiveAttestationsInSlot spec active block resolved.roots false else pure ()
  | none => pure ()

/-- The epochs whose attestations are collected from a slot's block. -/
def attestationEpochs : List Nat :=
  match resolved.entries.get slot with
  | some (_, block) => if active.isEmpty ∨ block.slot = 0 then [] else candidateEpochs spec block
  | none => []

theorem processSlot_stages (tracked : List Nat) : processSlot spec slot tracked active duties resolved = (do
    slotOutcomes spec slot duties resolved
    slotAttestations spec slot active resolved
    if !duties.complete then throw (.beaconDataUnavailable "Assignments incomplete; retaining slot coverage gap")
    statement (.recordCoverage tracked slot)) := by
  unfold processSlot slotOutcomes slotAttestations
  cases resolved.entries.get slot with
  | none => simp only [bind_assoc, pure_bind]
  | some entry =>
    simp only [bind_assoc]
    split <;> rfl

end Stages

variable {spec : ChainSpec} {slot : Nat} {active : List Nat} {duties : EpochDuties} {resolved : ResolvedChain}

/-! ## Which effects a stage issues -/

/-- Anything but the coverage of a slot. -/
def Effect.KeepsCoverage : Effect → Prop
  | .db op => op.writesCoverage = false
  | .node _ => True

theorem always_request {g : Effect → Prop} (q : Request) (h : g (.node q)) :
    (issuing (S := indexer) g).Always (request q) fun _ => True :=
  .ask (fun _ => h) fun _ _ _ _ _ _ => trivial

theorem always_statement {g : Effect → Prop} (op : DbOp) (h : g (.db op)) :
    (issuing (S := indexer) g).Always (statement op) fun _ => True :=
  .ask (fun _ => h) fun _ _ _ _ _ _ => trivial

theorem collectProposal_keepsCoverage (entry : Option (Root × SignedBeaconBlock)) (proposer : Option Nat) :
    (issuing Effect.KeepsCoverage).Always (collectProposal spec slot entry proposer) fun _ => True := by
  cases proposer with
  | none => exact .pure trivial
  | some v =>
    refine .bind (always_statement _ rfl) fun _ _ => ?_
    cases entry with
    | none => exact .pure trivial
    | some b => exact always_statement _ rfl

theorem upsertLiveSyncInSlot_keepsCoverage (block : Option SignedBeaconBlock) (positions : SyncPositions) :
    (issuing Effect.KeepsCoverage).Always (upsertLiveSyncInSlot spec slot block positions) fun _ => True := by
  refine .ite (fun _ => .pure trivial) fun _ => ?_
  cases block with
  | none => exact .each fun _ _ => always_statement _ rfl
  | some block =>
    cases hs : block.syncAggregate with
    | none => simp only [hs]; exact .pure trivial
    | some syncAgg =>
      simp only [hs]
      refine .bind (always_ofExcept _) fun bits _ => .each fun r _ => ?_
      unfold upsertLiveSyncMember
      split
      · exact .throw
      · exact always_statement _ rfl

theorem slotOutcomes_keepsCoverage :
    (issuing Effect.KeepsCoverage).Always (slotOutcomes spec slot duties resolved) fun _ => True := by
  have rest : (issuing Effect.KeepsCoverage).Always (do
      collectProposal spec slot (resolved.entries.get slot) (duties.proposerBySlot.get slot)
      collectSync spec slot (resolved.entries.get slot) duties.syncPositions) fun _ => True := by
    refine .bind (collectProposal_keepsCoverage _ _) fun _ _ => ?_
    unfold collectSync
    cases duties.syncPositions with
    | none => exact .pure trivial
    | some positions =>
      refine .bind (upsertLiveSyncInSlot_keepsCoverage _ _) fun _ _ => ?_
      cases resolved.entries.get slot with
      | none => exact .pure trivial
      | some entry => exact .ite (fun _ => always_statement _ rfl) fun _ => .pure trivial
  unfold slotOutcomes
  cases h : resolved.entries.get slot with
  | none =>
    rw [h] at rest
    exact rest
  | some entry =>
    rw [h] at rest
    exact .bind (always_statement _ rfl) fun _ _ => rest

theorem scanLiveAttestationEpoch_keepsCoverage (vs : List Nat) (block : SignedBeaconBlock) (roots : Table Nat Root)
    (finalized : Bool) (epoch : Nat) : (issuing Effect.KeepsCoverage).Always
      (scanLiveAttestationEpoch spec vs block roots finalized epoch) fun _ => True := by
  refine .bind (always_request _ trivial) fun committees _ => .bind (always_ofExcept _) fun ctx _ =>
    .bind (always_ofExcept _) fun inclusions _ => .ite (fun _ => .pure trivial) fun _ =>
    .bind (always_request _ trivial) fun duties _ => .each fun r _ => ?_
  unfold writeLiveInclusion
  split
  · exact .check fun _ => .bind (always_statement _ rfl) fun _ _ =>
      .ite (fun _ => always_statement _ rfl) fun _ => .pure trivial
  · exact .throw

theorem slotAttestations_keepsCoverage :
    (issuing Effect.KeepsCoverage).Always (slotAttestations spec slot active resolved) fun _ => True := by
  unfold slotAttestations
  split
  · refine .ite (fun _ => ?_) fun _ => .pure trivial
    refine .ite (fun _ => .pure trivial) fun _ => .ite (fun _ => .pure trivial) fun _ => ?_
    refine .bind (P := fun _ => True) (.foldlM trivial fun b e _ _ => ?_) fun firstError _ => ?_
    · refine .bind (Always.attempt (scanLiveAttestationEpoch_keepsCoverage _ _ _ _ _)) fun r _ => ?_
      cases r with
      | ok _ => exact .pure trivial
      | error _ => exact .pure trivial
    · cases firstError with
      | none => exact .pure trivial
      | some e => exact .throw
  · exact .pure trivial

/-! ## Every epoch is scanned -/

/-- What the loop over the epochs keeps of one outcome. -/
def noteOutcome (firstError : Option Error) : Except Error Unit → Option Error
  | .ok () => firstError
  | .error error => some (Error.note firstError error)

theorem noteOutcomes_none : ∀ {outcomes : List (Except Error Unit)} {firstError : Option Error},
    outcomes.foldl noteOutcome firstError = none → firstError = none ∧ ∀ o ∈ outcomes, o = .ok ()
  | [], _, h => ⟨h, by simp⟩
  | o :: outcomes, firstError, h => by
    obtain ⟨hb, hrest⟩ := noteOutcomes_none (show outcomes.foldl noteOutcome (noteOutcome firstError o) = none from h)
    cases o with
    | error e => cases hb
    | ok u => exact ⟨hb, List.forall_mem_cons.2 ⟨rfl, hrest⟩⟩

/-- One step of the loop over the epochs notes the outcome of the epoch's scan. -/
theorem noteScan_ends (block : SignedBeaconBlock) (roots : Table Nat Root) (finalized : Bool) (b : Option Error) (x : Nat)
    (l : List (Event indexer)) (r : Except Error (Option Error)) (h : Ends (do
        match ← attempt (scanLiveAttestationEpoch spec active block roots finalized x) with
        | .ok () => pure b
        | .error error => pure (some (Error.note b error)) : Task (Option Error)) l r) :
    ∃ o, Ends (scanLiveAttestationEpoch spec active block roots finalized x) l o ∧ r = .ok (noteOutcome b o) := by
  rcases Ends.bind_iff.1 h with ⟨err, ha, -⟩ | ⟨o, l₁, l₂, ha, hrest, rfl⟩
  · obtain ⟨o, -, ho⟩ := Ends.attempt_iff.1 ha
    cases ho
  · obtain ⟨o', ho', heq⟩ := Ends.attempt_iff.1 ha
    cases heq
    cases o with
    | ok u =>
      obtain ⟨rfl, rfl⟩ := Ends.pure_iff.1 hrest
      exact ⟨_, by rw [List.append_nil]; exact ho', rfl⟩
    | error error =>
      obtain ⟨rfl, rfl⟩ := Ends.pure_iff.1 hrest
      exact ⟨_, by rw [List.append_nil]; exact ho', rfl⟩

/-- The result of a loop that keeps an error. -/
def toResult : Option Error → Except Error Unit
  | none => .ok ()
  | some error => .error error

theorem toResult_ok {firstError : Option Error} : toResult firstError = .ok () ↔ firstError = none := by
  cases firstError <;> simp [toResult]

/-- The epochs of a block whose scans are attempted. -/
def scannedEpochs (spec : ChainSpec) (scanValidators : List Nat) (block : SignedBeaconBlock) : List Nat :=
  if scanValidators.isEmpty ∨ block.slot = 0 then [] else candidateEpochs spec block

/-- The scan of each epoch runs to its end, whatever the outcomes of the others. -/
theorem scanLiveAttestationsInSlot_attempts {block : SignedBeaconBlock} {roots : Table Nat Root} {finalized : Bool}
    {l : List (Event indexer)} {r : Except Error Unit}
    (h : Ends (scanLiveAttestationsInSlot spec active block roots finalized) l r) : ∃ outcomes,
      Attempts (fun e => Ends (scanLiveAttestationEpoch spec active block roots finalized e))
        (scannedEpochs spec active block) l outcomes ∧ r = toResult (outcomes.foldl noteOutcome none) := by
  unfold scanLiveAttestationsInSlot at h
  unfold scannedEpochs
  by_cases hempty : active.isEmpty = true
  · rw [if_pos hempty] at h
    obtain ⟨rfl, rfl⟩ := Ends.pure_iff.1 h
    exact ⟨[], by simpa [hempty] using Attempts.done [], rfl⟩
  rw [if_neg hempty] at h
  by_cases hzero : block.slot = 0
  · rw [if_pos hzero] at h
    obtain ⟨rfl, rfl⟩ := Ends.pure_iff.1 h
    exact ⟨[], by simpa [hzero] using Attempts.done [], rfl⟩
  rw [if_neg hzero] at h
  rw [if_neg (not_or.2 ⟨hempty, hzero⟩)]
  rcases Ends.bind_iff.1 h with ⟨err, hfold, -⟩ | ⟨firstError, l₁, l₂, hfold, hrest, rfl⟩
  · obtain ⟨outcomes, hr, -⟩ := Ends.foldlM (noteScan_ends block roots finalized) hfold
    cases hr
  · obtain ⟨outcomes, hr, hruns⟩ := Ends.foldlM (noteScan_ends block roots finalized) hfold
    cases hr
    refine ⟨outcomes, hruns.earlier l₂, ?_⟩
    cases hnone : outcomes.foldl noteOutcome none with
    | none =>
      rw [hnone] at hrest
      exact (Ends.pure_iff.1 hrest).2
    | some error =>
      rw [hnone] at hrest
      exact (Ends.throw_iff.1 hrest).2

/-- The stage of a slot with a block attempts the epochs of the block. -/
theorem slotAttestations_attempts {l : List (Event indexer)} {r : Except Error Unit}
    (h : Ends (slotAttestations spec slot active resolved) l r) {root : Root} {block : SignedBeaconBlock}
    (hentry : resolved.entries.get slot = some (root, block)) : ∃ outcomes,
      Attempts (fun e => Ends (scanLiveAttestationEpoch spec active block resolved.roots false e))
        (attestationEpochs spec slot active resolved) l outcomes ∧ r = toResult (outcomes.foldl noteOutcome none) := by
  unfold slotAttestations at h
  unfold attestationEpochs
  simp only [hentry] at h ⊢
  by_cases hempty : active.isEmpty = true
  · rw [if_neg (by simp [hempty])] at h
    obtain ⟨rfl, rfl⟩ := Ends.pure_iff.1 h
    exact ⟨[], by simpa [hempty] using Attempts.done [], rfl⟩
  · rw [if_pos (by simpa using hempty)] at h
    exact scanLiveAttestationsInSlot_attempts h

/-- The stage succeeds only if the scans of all epochs do. -/
theorem slotAttestations_runs {l : List (Event indexer)} {r : Except Error Unit}
    (h : Ends (slotAttestations spec slot active resolved) l r) {root : Root} {block : SignedBeaconBlock}
    (hentry : resolved.entries.get slot = some (root, block)) :
    ∀ e ∈ attestationEpochs spec slot active resolved, ∃ seg o, seg <:+: l ∧
      Ends (scanLiveAttestationEpoch spec active block resolved.roots false e) seg o ∧ (r = .ok () → o = .ok ()) := by
  obtain ⟨outcomes, hruns, rfl⟩ := slotAttestations_attempts h hentry
  intro e he
  obtain ⟨seg, o, ho, hends, hin⟩ := hruns.mem e he
  exact ⟨seg, o, hin, hends, fun hok => (noteOutcomes_none (toResult_ok.1 hok)).2 o ho⟩

/-! ## Complete assignments -/

theorem orUnavailable_some {α : Type} {x : Task α} {l : List (Event indexer)} {a : α}
    (h : Ends (orUnavailable x) l (.ok (some a))) : Ends x l (.ok a) := by
  obtain ⟨r, l₁, l₂, hx, hrest, rfl⟩ := Ends.bind_ok_iff.1 h
  obtain ⟨r', hr', heq⟩ := Ends.attempt_iff.1 hx
  cases heq
  cases r with
  | ok b =>
    obtain ⟨rfl, hb⟩ := Ends.pure_iff.1 hrest
    cases hb
    rw [List.append_nil]
    exact hr'
  | error e =>
    simp only at hrest
    split at hrest
    · have := (Ends.pure_iff.1 hrest).2
      cases this
    · have := (Ends.throw_iff.1 hrest).2
      cases this

theorem orUnavailable_none {α : Type} {x : Task α} {l : List (Event indexer)} (h : Ends (orUnavailable x) l (.ok none)) :
    ∃ error, Ends x l (.error error) ∧ error.isUnavailableInput = true := by
  obtain ⟨r, l₁, l₂, hx, hrest, rfl⟩ := Ends.bind_ok_iff.1 h
  obtain ⟨r', hr', heq⟩ := Ends.attempt_iff.1 hx
  cases heq
  cases r with
  | ok b =>
    have := (Ends.pure_iff.1 hrest).2
    cases this
  | error e =>
    simp only at hrest
    split at hrest
    · rename_i hu
      obtain ⟨rfl, -⟩ := Ends.pure_iff.1 hrest
      rw [List.append_nil]
      exact ⟨e, hr', hu⟩
    · have := (Ends.throw_iff.1 hrest).2
      cases this

/-- The slot's epoch has no active tracked validator, or its attester, proposer and sync assignments were fetched. -/
def AssignmentsFetched (spec : ChainSpec) (tracked : List Nat) (slot : Nat) (l : List (Event indexer)) : Prop :=
  slot = 0 ∨ ∃ active, (⟨.db (.activeValidatorsAt tracked (spec.slotToEpoch slot)), .ok active⟩ : Event indexer) ∈ l ∧
    (active = [] ∨
      (∃ seg, seg <:+: l ∧ Ends (seedLiveAttestationDuties (spec.slotToEpoch slot) active) seg (.ok ())) ∧
      (∃ seg proposers, seg <:+: l ∧ Ends (getProposerDuties spec (spec.slotToEpoch slot)) seg (.ok proposers)) ∧
      (spec.slotToEpoch slot < spec.altairForkEpoch ∨
        ∃ seg sync, seg <:+: l ∧ Ends (getSyncDuties (spec.slotToEpoch slot) active) seg (.ok sync)))

theorem fetchEpochDuties_complete {tracked : List Nat} {l : List (Event indexer)}
    (h : Ends (fetchEpochDuties spec tracked slot) l (.ok duties)) (hc : duties.complete = true) :
    AssignmentsFetched spec tracked slot l := by
  unfold fetchEpochDuties at h
  by_cases h0 : slot = 0
  · exact .inl h0
  rw [if_neg h0] at h
  obtain ⟨active, l₁, m₁, hactive, hrest, rfl⟩ := Ends.bind_ok_iff.1 h
  obtain ⟨a, rfl, ha⟩ := Ends.ask_iff.1 hactive
  obtain rfl : a = .ok active := ha.symm
  refine .inr ⟨active, List.mem_append_left _ (List.mem_singleton_self _), ?_⟩
  by_cases hempty : active.isEmpty = true
  · exact .inl (List.isEmpty_iff.1 hempty)
  rw [if_neg hempty] at hrest
  obtain ⟨seeded, l₂, m₂, hseed, hseeded, rfl⟩ := Ends.bind_ok_iff.1 hrest
  obtain ⟨proposers, l₃, l', hprop, hlast, rfl⟩ := Ends.bind_ok_iff.1 hseeded
  have hin : ∀ {seg : List (Event indexer)}, seg <:+: l₂ ++ (l₃ ++ l') →
      seg <:+: [(⟨.db (.activeValidatorsAt tracked (spec.slotToEpoch slot)), .ok active⟩ : Event indexer)] ++ (l₂ ++ (l₃ ++ l')) :=
    fun hseg => hseg.trans (List.suffix_append _ _).isInfix
  have hparts : seeded.isSome = true ∧ proposers.isSome = true ∧ (spec.slotToEpoch slot < spec.altairForkEpoch ∨
      ∃ seg sync, seg <:+: l' ∧ Ends (getSyncDuties (spec.slotToEpoch slot) active) seg (.ok sync)) := by
    by_cases hfork : spec.slotToEpoch slot < spec.altairForkEpoch
    · rw [if_pos hfork] at hlast
      obtain ⟨-, hd⟩ := Ends.pure_iff.1 hlast
      cases hd
      simp only [Bool.and_eq_true] at hc
      exact ⟨hc.1, hc.2, .inl hfork⟩
    · rw [if_neg hfork] at hlast
      obtain ⟨sync, l₄, l₅, hsync, hpure, rfl⟩ := Ends.bind_ok_iff.1 hlast
      obtain ⟨-, hd⟩ := Ends.pure_iff.1 hpure
      cases hd
      simp only [Bool.and_eq_true] at hc
      obtain ⟨answer, rfl⟩ := Option.isSome_iff_exists.1 hc.2
      exact ⟨hc.1.1, hc.1.2, .inr ⟨l₄, answer, (List.prefix_append l₄ l₅).isInfix, orUnavailable_some hsync⟩⟩
  obtain ⟨hs, hp, hsync⟩ := hparts
  obtain ⟨⟨⟩, rfl⟩ := Option.isSome_iff_exists.1 hs
  obtain ⟨answer, rfl⟩ := Option.isSome_iff_exists.1 hp
  have hseeded := orUnavailable_some hseed
  have hproposers := orUnavailable_some hprop
  refine .inr ⟨⟨l₂, hin (List.prefix_append _ _).isInfix, hseeded⟩,
    ⟨l₃, answer, hin ((List.prefix_append l₃ l').isInfix.trans (List.suffix_append l₂ _).isInfix), hproposers⟩, ?_⟩
  obtain hfork | ⟨seg, sync, hseg, hends⟩ := hsync
  · exact .inl hfork
  · exact .inr ⟨seg, sync,
      hin ((hseg.trans (List.suffix_append l₃ l').isInfix).trans (List.suffix_append l₂ _).isInfix), hends⟩

/-! ## An epoch whose inputs are available -/

/-- The requests of a run are answered by `node`, which fails where it likes. -/
def Answered (node : (q : Request) → Except Error q.Answer) (l : List (Event indexer)) : Prop :=
  ∀ q r, (⟨.node q, r⟩ : Event indexer) ∈ l → r = node q

/-- The inputs of one epoch of a block are available: committees and duties are served, the resolved roots cover
the epoch, the block decodes, and every observed validator has a duty in the window of the block. -/
structure EpochAvailable (spec : ChainSpec) (node : (q : Request) → Except Error q.Answer) (active : List Nat)
    (block : SignedBeaconBlock) (roots : Table Nat Root) (e : Nat) (inclusions : Inclusions)
    (duties : List AttesterDuty) : Prop where
  decoded : ∃ committees ctx, node (.committees e) = .ok committees ∧
    liveVoteContext spec e block.slot roots = .ok ctx ∧
    decodeInclusions spec block block.slot e (buildCommitteeMap committees) active (some ctx) .empty =
      .ok inclusions
  served : node (.attesterDuties e active) = .ok duties
  seated : ∀ v inc, inclusions.get v = some inc → ∃ duty,
    (Table.ofList (duties.map fun d => (d.validatorIndex, d))).get v = some duty ∧
      spec.epochStartSlot (spec.slotToEpoch block.slot - 1) ≤ duty.slot ∧ duty.slot ≤ block.slot - 1

theorem Answered.segment {node : (q : Request) → Except Error q.Answer} {l seg : List (Event indexer)}
    (h : Answered node l) (hin : seg <:+: l) : Answered node seg :=
  fun q r hm => h q r (hin.subset hm)

/-- A served request hands its answer to the rest of the program. -/
theorem Answered.rest {node : (q : Request) → Except Error q.Answer} {l : List (Event indexer)} (h : Answered node l)
    {q : Request} {a : q.Answer} (ha : node q = .ok a) {β : Type} {f : q.Answer → Task β} {r : Except Error β}
    (hends : Ends (request q >>= f) l r) : ∃ l', Ends (f a) l' r ∧ l' <:+: l := by
  obtain ⟨e, hq, -⟩ | ⟨b, l₁, l₂, hq, hf, rfl⟩ := Ends.bind_iff.1 hends
  · obtain ⟨x, rfl, hx⟩ := Ends.ask_iff.1 hq
    have hnode := h q x (List.mem_singleton_self _)
    rw [hnode, ha] at hx
    cases hx
  · obtain ⟨x, rfl, hx⟩ := Ends.ask_iff.1 hq
    have hnode := h q x (List.mem_append_left _ (List.mem_singleton_self _))
    rw [hnode, ha] at hx
    cases hx
    exact ⟨l₂, hf, (List.suffix_append _ l₂).isInfix⟩

theorem writeLiveInclusion_write {epoch lo hi : Nat} {roots : Table Nat Root} {duties : Table Nat AttesterDuty} {v : Nat}
    {inc : AttestationInclusion} {duty : AttesterDuty} (hd : duties.get v = some duty) (hw : lo ≤ duty.slot ∧ duty.slot ≤ hi) :
    writeLiveInclusion epoch lo hi roots false duties v inc = statement (.upsertAttestationDuty v epoch
      (liveRow duty inc (liveEffectiveDelay roots duty.slot inc.inclusionSlot))) := by
  unfold writeLiveInclusion
  rw [hd]
  simp only [if_neg (show ¬(duty.slot < lo ∨ hi < duty.slot) by omega), Bool.false_eq_true, if_false]
  exact bind_pure _

/-- Every inclusion of the epoch is written, unless one of its own writes fails. -/
theorem scanLiveAttestationEpoch_writes {node : (q : Request) → Except Error q.Answer} {block : SignedBeaconBlock}
    {roots : Table Nat Root} {e : Nat} {inclusions : Inclusions} {duties : List AttesterDuty}
    (h : EpochAvailable spec node active block roots e inclusions duties) {seg : List (Event indexer)}
    {o : Except Error Unit} (hends : Ends (scanLiveAttestationEpoch spec active block roots false e) seg o)
    (hnode : Answered node seg)
    (hdb : ∀ v w m, (⟨.db (.upsertAttestationDuty v e w), .error m⟩ : Event indexer) ∉ seg) {v : Nat}
    {inc : AttestationInclusion} (hinc : inclusions.get v = some inc) :
    ∃ duty, (Table.ofList (duties.map fun d => (d.validatorIndex, d))).get v = some duty ∧
      (⟨.db (.upsertAttestationDuty v e (liveRow duty inc (liveEffectiveDelay roots duty.slot inc.inclusionSlot))),
        .ok ()⟩ : Event indexer) ∈ seg := by
  obtain ⟨committees, ctx, hc, hctx, hextract⟩ := h.decoded
  unfold scanLiveAttestationEpoch at hends
  obtain ⟨l₁, h₁, hin₁⟩ := hnode.rest hc hends
  rw [hctx] at h₁
  change Ends (do
    let inclusions ← ofExcept (decodeInclusions spec block block.slot e (buildCommitteeMap committees) active
      (some ctx) .empty)
    _) l₁ o at h₁
  rw [hextract] at h₁
  change Ends (if inclusions.rows.isEmpty then _ else _) l₁ o at h₁
  have hmem : (v, inc) ∈ inclusions.rows := Table.mem_rows.2 hinc
  rw [if_neg (by simpa using List.ne_nil_of_mem hmem)] at h₁
  obtain ⟨l₂, h₂, hin₂⟩ := (hnode.segment hin₁).rest h.served h₁
  have hin : l₂ <:+: seg := hin₂.trans hin₁
  have hwrite : ∀ r ∈ inclusions.rows, ∃ duty,
      (Table.ofList (duties.map fun d => (d.validatorIndex, d))).get r.1 = some duty ∧
      writeLiveInclusion e (spec.epochStartSlot (spec.slotToEpoch block.slot - 1)) (block.slot - 1) roots false
        (Table.ofList (duties.map fun d => (d.validatorIndex, d))) r.1 r.2 = statement (.upsertAttestationDuty r.1 e
          (liveRow duty r.2 (liveEffectiveDelay roots duty.slot r.2.inclusionSlot))) := by
    intro r hr
    obtain ⟨duty, hd, hw⟩ := h.seated r.1 r.2 (Table.mem_rows.1 hr)
    exact ⟨duty, hd, writeLiveInclusion_write hd hw⟩
  cases o with
  | error err =>
    obtain ⟨r, hr, seg', hr', hin'⟩ := Ends.each_error h₂
    obtain ⟨duty, -, heq⟩ := hwrite r hr
    rw [heq] at hr'
    obtain ⟨a, rfl, ha⟩ := Ends.ask_iff.1 hr'
    obtain rfl : a = .error err := ha.symm
    exact absurd ((hin'.trans hin).subset (List.mem_singleton_self _)) (hdb _ _ _)
  | ok u =>
    obtain ⟨seg', hr', hin'⟩ := Ends.each_ok h₂ _ hmem
    obtain ⟨duty, hd, heq⟩ := hwrite _ hmem
    rw [heq] at hr'
    obtain ⟨a, rfl, ha⟩ := Ends.ask_iff.1 hr'
    obtain rfl : a = .ok () := ha.symm
    exact ⟨duty, hd, (hin'.trans hin).subset (List.mem_singleton_self _)⟩

/-- The write leaves a finalized row or one with an inclusion that is no later. -/
theorem upsertAttestationDuty_stores (db : Db) (v e : Nat) (duty : AttesterDuty) (inc : AttestationInclusion) (n : Nat) :
    ∃ row, (db.upsertAttestationDuty v e (liveRow duty inc n)).attestationDuties.get (v, e) = some row ∧
      (row.finalized = true ∨ ∃ s ≤ inc.inclusionSlot, row.inclusionSlot = some s) := by
  rw [Db.upsertAttestationDuty_get, if_pos rfl]
  refine ⟨_, rfl, ?_⟩
  cases db.attestationDuties.get (v, e) with
  | none => exact .inr ⟨inc.inclusionSlot, le_rfl, rfl⟩
  | some old =>
    simp only [Db.upsertedAttestation]
    split
    · exact .inr ⟨inc.inclusionSlot, le_rfl, rfl⟩
    · rename_i hkept
      -- a row that is not replaced is final or already has an inclusion that is no later
      cases hf : old.finalized with
      | true => exact .inl rfl
      | false =>
        cases hs : old.inclusionSlot with
        | none => exact absurd (by simp [AttestationWrite.replaces, hf, hs]) hkept
        | some s =>
          refine .inr ⟨s, ?_, rfl⟩
          by_contra hlt
          refine hkept ?_
          have hlt' : sqlLt (liveRow duty inc n).inclusionSlot old.inclusionSlot = true := by
            rw [hs]
            exact sqlLt_iff.2 ⟨_, _, rfl, rfl, by omega⟩
          simp [AttestationWrite.replaces, hf, hlt']

/-! ## One run of a slot -/

/-- The statement may change an outcome row. -/
def DbOp.writesOutcome (op : DbOp) : Bool := op.writesAttestations || op.writesProposals || op.writesSync

/-- Everything of the slot but its coverage has succeeded in `l`: the assignments were complete, and the proposal,
the sync participation and every candidate epoch were processed without an error. -/
structure SlotSucceeded (spec : ChainSpec) (slot : Nat) (active : List Nat) (duties : EpochDuties) (resolved : ResolvedChain)
    (l : List (Event indexer)) : Prop where
  complete : duties.complete = true
  proposal : ∃ seg, seg <:+: l ∧
    Ends (collectProposal spec slot (resolved.entries.get slot) (duties.proposerBySlot.get slot)) seg (.ok ())
  sync : ∃ seg, seg <:+: l ∧ Ends (collectSync spec slot (resolved.entries.get slot) duties.syncPositions) seg (.ok ())
  attestations : ∀ root block, resolved.entries.get slot = some (root, block) →
    ∀ e ∈ attestationEpochs spec slot active resolved, ∃ seg, seg <:+: l ∧
      Ends (scanLiveAttestationEpoch spec active block resolved.roots false e) seg (.ok ())

/-- An inclusion is stored: it was written, and the write leaves any database with a finalized row or with an
inclusion that is no later. -/
def InclusionStored (l : List (Event indexer)) (v e : Nat) (inc : AttestationInclusion) : Prop :=
  ∃ w, (⟨.db (.upsertAttestationDuty v e w), .ok ()⟩ : Event indexer) ∈ l ∧ w.included = true ∧
    w.inclusionSlot = some inc.inclusionSlot ∧ ∀ db : Db, ∃ row,
      (db.upsertAttestationDuty v e w).attestationDuties.get (v, e) = some row ∧
        (row.finalized = true ∨ ∃ s ≤ inc.inclusionSlot, row.inclusionSlot = some s)

/-- What holds of the effects of one run. -/
structure SlotDiscipline (spec : ChainSpec) (slot : Nat) (tracked active : List Nat) (duties : EpochDuties)
    (resolved : ResolvedChain) (node : (q : Request) → Except Error q.Answer) (l : List (Event indexer)) : Prop where
  /-- Coverage is recorded after everything else has succeeded, with assignments that were all fetched. -/
  coverage : ∀ l₁ op a l₂, l = l₁ ++ (⟨.db op, a⟩ : Event indexer) :: l₂ → op.writesCoverage = true →
    op = .recordCoverage tracked slot ∧ SlotSucceeded spec slot active duties resolved l₁ ∧
      ∀ m, Ends (fetchEpochDuties spec tracked slot) m (.ok duties) → AssignmentsFetched spec tracked slot m
  /-- Once the block, the proposal and the sync participation are written, every epoch whose inputs are available is
  stored, whatever becomes of the other epochs. -/
  evidence : ∀ root block, resolved.entries.get slot = some (root, block) →
    ∀ l₀, l₀ <+: l → Ends (slotOutcomes spec slot duties resolved) l₀ (.ok ()) →
    ∀ e ∈ attestationEpochs spec slot active resolved, ∀ inclusions seats,
      EpochAvailable spec node active block resolved.roots e inclusions seats →
      (∀ v w m, (⟨.db (.upsertAttestationDuty v e w), .error m⟩ : Event indexer) ∉ l) →
      ∀ v inc, inclusions.get v = some inc → InclusionStored l v e inc
  /-- A block is recorded before any outcome. -/
  block : ∀ root block, resolved.entries.get slot = some (root, block) →
    ∀ l₁ op a l₂, l = l₁ ++ (⟨.db op, a⟩ : Event indexer) :: l₂ → op.writesOutcome = true →
      (⟨.db (.recordBlock slot root block.parentRoot), .ok ()⟩ : Event indexer) ∈ l₁

/-- An element that is not in `m` can only be the last one of `m ++ [y]`. -/
theorem append_singleton_eq_append_cons {α : Type} {m l₁ l₂ : List α} {x y : α} (hx : x ∉ m)
    (h : m ++ [y] = l₁ ++ x :: l₂) : m = l₁ ∧ y = x := by
  obtain rfl | ⟨t, z, rfl⟩ := l₂.eq_nil_or_concat
  · obtain ⟨rfl, hxy⟩ := List.append_inj' h rfl
    exact ⟨rfl, (List.singleton_inj.1 hxy)⟩
  · rw [List.concat_eq_append, ← List.cons_append, ← List.append_assoc] at h
    obtain ⟨rfl, -⟩ := List.append_inj' h rfl
    exact absurd (List.mem_append_right _ (List.mem_cons_self ..)) hx

theorem slotOutcomes_ok {l : List (Event indexer)} (h : Ends (slotOutcomes spec slot duties resolved) l (.ok ())) :
    (∃ seg, seg <:+: l ∧
      Ends (collectProposal spec slot (resolved.entries.get slot) (duties.proposerBySlot.get slot)) seg (.ok ())) ∧
    ∃ seg, seg <:+: l ∧ Ends (collectSync spec slot (resolved.entries.get slot) duties.syncPositions) seg (.ok ()) := by
  have rest : ∀ {l'}, Ends (do
      collectProposal spec slot (resolved.entries.get slot) (duties.proposerBySlot.get slot)
      collectSync spec slot (resolved.entries.get slot) duties.syncPositions) l' (.ok ()) → l' <:+: l →
      (∃ seg, seg <:+: l ∧
        Ends (collectProposal spec slot (resolved.entries.get slot) (duties.proposerBySlot.get slot)) seg (.ok ())) ∧
      ∃ seg, seg <:+: l ∧ Ends (collectSync spec slot (resolved.entries.get slot) duties.syncPositions) seg (.ok ()) := by
    intro l' h' hin
    obtain ⟨_, l₁, l₂, hp, hs, rfl⟩ := Ends.bind_ok_iff.1 h'
    exact ⟨⟨l₁, (List.prefix_append l₁ l₂).isInfix.trans hin, hp⟩, l₂, (List.suffix_append l₁ l₂).isInfix.trans hin, hs⟩
  unfold slotOutcomes at h
  cases hentry : resolved.entries.get slot with
  | none =>
    rw [hentry] at rest h
    exact rest h (List.infix_refl l)
  | some entry =>
    rw [hentry] at rest h
    obtain ⟨_, l₁, l₂, -, hrest, rfl⟩ := Ends.bind_ok_iff.1 h
    exact rest hrest (List.suffix_append l₁ l₂).isInfix

/-- A run either stops in one of its stages or ends with the coverage of the slot. -/
theorem processSlot_runs {tracked : List Nat} {l : List (Event indexer)} {r : Except Error Unit}
    (h : Ends (processSlot spec slot tracked active duties resolved) l r) :
    (∃ e, Ends (slotOutcomes spec slot duties resolved) l (.error e)) ∨
    ∃ l₀ l₁, Ends (slotOutcomes spec slot duties resolved) l₀ (.ok ()) ∧ l₀ ++ l₁ <+: l ∧
      ∃ o, Ends (slotAttestations spec slot active resolved) l₁ o ∧
        (l = l₀ ++ l₁ ∨ o = .ok () ∧ duties.complete = true ∧
          ∃ a, l = (l₀ ++ l₁) ++ [(⟨.db (.recordCoverage tracked slot), a⟩ : Event indexer)]) := by
  rw [processSlot_stages] at h
  obtain ⟨e, hs, -⟩ | ⟨_, l₀, l', hs, hrest, rfl⟩ := Ends.bind_iff.1 h
  · exact .inl ⟨e, hs⟩
  obtain ⟨e, ha, -⟩ | ⟨_, l₁, l₂, ha, hcover, rfl⟩ := Ends.bind_iff.1 hrest
  · exact .inr ⟨l₀, l', hs, List.prefix_rfl, _, ha, .inl rfl⟩
  refine .inr ⟨l₀, l₁, hs, ?_, _, ha, ?_⟩
  · rw [← List.append_assoc]
    exact List.prefix_append _ _
  · cases hd : duties.complete with
    | false =>
      rw [hd] at hcover
      obtain ⟨_, hthrow, -⟩ | ⟨_, m, _, hthrow, -, -⟩ := Ends.bind_iff.1 hcover
      · obtain ⟨rfl, -⟩ := Ends.throw_iff.1 hthrow
        exact .inl (by rw [List.append_nil])
      · have := (Ends.throw_iff.1 hthrow).2
        cases this
    | true =>
      rw [hd] at hcover
      obtain ⟨a, rfl, -⟩ := Ends.ask_iff.1 hcover
      exact .inr ⟨rfl, rfl, a, by rw [List.append_assoc]⟩

/-- The first effect of a present block's slot records the block, and nothing follows if that fails. -/
theorem processSlot_block {tracked : List Nat} {l : List (Event indexer)} {r : Except Error Unit}
    (h : Ends (processSlot spec slot tracked active duties resolved) l r) {root : Root} {block : SignedBeaconBlock}
    (hentry : resolved.entries.get slot = some (root, block)) :
    ∃ a l', l = (⟨.db (.recordBlock slot root block.parentRoot), a⟩ : Event indexer) :: l' ∧ (a = .ok () ∨ l' = []) := by
  unfold processSlot at h
  rw [hentry] at h
  obtain ⟨e, hrecord, -⟩ | ⟨_, l₁, l₂, hrecord, -, rfl⟩ := Ends.bind_iff.1 h
  · obtain ⟨a, rfl, -⟩ := Ends.ask_iff.1 hrecord
    exact ⟨a, [], rfl, .inr rfl⟩
  · obtain ⟨a, rfl, ha⟩ := Ends.ask_iff.1 hrecord
    exact ⟨a, l₂, rfl, .inl ha.symm⟩

/-- Coverage is recorded only when everything else of the slot has succeeded; each epoch's evidence is stored if its
own inputs are available; no outcome is written before the block. -/
theorem slot_evidence_best_effort (spec : ChainSpec) (slot : Nat) (tracked active : List Nat) (duties : EpochDuties)
    (resolved : ResolvedChain) (node : (q : Request) → Except Error q.Answer) {l : List (Event indexer)}
    {r : Except Error Unit} (h : Ends (processSlot spec slot tracked active duties resolved) l r)
    (hnode : Answered node l) : SlotDiscipline spec slot tracked active duties resolved node l := by
  have houtcomes {l₀ o} (hs : Ends (slotOutcomes spec slot duties resolved) l₀ o) :=
    slotOutcomes_keepsCoverage.issued hs
  have hscans {l₁ o} (ha : Ends (slotAttestations spec slot active resolved) l₁ o) :=
    slotAttestations_keepsCoverage.issued ha
  constructor
  · intro l₁ op a l₂ hl hop
    have hcover : ∀ m : List (Event indexer), (∀ ev ∈ m, ev.1.KeepsCoverage) → (⟨.db op, a⟩ : Event indexer) ∉ m := by
      intro m hm hmem
      have hkeep : op.writesCoverage = false := hm _ hmem
      rw [hop] at hkeep
      cases hkeep
    have hmem : (⟨.db op, a⟩ : Event indexer) ∈ l := hl ▸ List.mem_append_right _ (List.mem_cons_self ..)
    obtain ⟨e, hs⟩ | ⟨m₀, m₁, hs, -, o, ha, hend⟩ := processSlot_runs h
    · exact absurd hmem (hcover l (houtcomes hs))
    have hstages : (⟨.db op, a⟩ : Event indexer) ∉ m₀ ++ m₁ := by
      apply hcover
      intro ev hev
      obtain hev | hev := List.mem_append.1 hev
      · exact houtcomes hs ev hev
      · exact hscans ha ev hev
    obtain rfl | ⟨rfl, hcomplete, x, rfl⟩ := hend
    · exact absurd hmem hstages
    obtain ⟨rfl, heq⟩ := append_singleton_eq_append_cons hstages hl
    cases heq
    obtain ⟨⟨lp, hlp, hproposal⟩, ls, hls, hsync⟩ := slotOutcomes_ok hs
    have hin : m₀ <:+: m₀ ++ m₁ := (List.prefix_append m₀ m₁).isInfix
    refine ⟨rfl, ⟨hcomplete, ⟨lp, hlp.trans hin, hproposal⟩, ⟨ls, hls.trans hin, hsync⟩, ?_⟩,
      fun m hm => fetchEpochDuties_complete hm hcomplete⟩
    intro root block hentry e he
    obtain ⟨seg, o, hseg, hends, hok⟩ := slotAttestations_runs ha hentry e he
    rw [hok rfl] at hends
    exact ⟨seg, hseg.trans (List.suffix_append m₀ m₁).isInfix, hends⟩
  · intro root block hentry l₀ hl₀ hreached e he inclusions seats havailable hwrites v inc hinc
    obtain ⟨err, hs⟩ | ⟨m₀, m₁, -, hm, o, ha, -⟩ := processSlot_runs h
    · -- the stages before the attestations have one outcome
      obtain ⟨rest, rfl⟩ := hl₀
      have hsame := (Trace.unique hs hreached (show (l₀ ++ rest) ++ [] = l₀ ++ rest from List.append_nil _)).2
      cases hsame
    · obtain ⟨seg, o', hseg, hends, -⟩ := slotAttestations_runs ha hentry e he
      have hin : seg <:+: l := (hseg.trans (List.suffix_append m₀ m₁).isInfix).trans hm.isInfix
      obtain ⟨duty, -, hmem⟩ := scanLiveAttestationEpoch_writes havailable hends (hnode.segment hin)
        (fun v w m hbad => hwrites v w m (hin.subset hbad)) hinc
      exact ⟨_, hin.subset hmem, rfl, rfl, fun db => upsertAttestationDuty_stores db v e duty inc _⟩
  · intro root block hentry l₁ op a l₂ hl hop
    obtain ⟨x, l', hrecord, hx⟩ := processSlot_block h hentry
    rw [hrecord] at hl
    cases l₁ with
    | nil =>
      obtain ⟨heq, -⟩ := List.cons.inj hl
      cases heq
      cases hop
    | cons first l₁ =>
      obtain ⟨rfl, rfl⟩ := List.cons.inj hl
      obtain rfl | hnil := hx
      · exact List.mem_cons_self ..
      · simp at hnil

/-! ## A run in which one epoch fails -/

/-- The block at slot 6 carries the votes of validator 7 in slot 3 (epoch 0) and slot 5 (epoch 1). -/
def votedBlock : SignedBeaconBlock :=
  ⟨6, 9, ⟨100⟩, ⟨0⟩, .phase0 [⟨['0', 'x', '0', '3'], ⟨3, 0, ⟨100⟩, ⟨0, ⟨100⟩⟩, ⟨0, ⟨100⟩⟩⟩⟩,
    ⟨['0', 'x', '0', '3'], ⟨5, 0, ⟨100⟩, ⟨0, ⟨100⟩⟩, ⟨1, ⟨100⟩⟩⟩⟩]⟩

theorem votedSpec_pos : 0 < 4 := by decide

def votedSpec : ChainSpec := ⟨4, 2, 8, 1000, votedSpec_pos⟩

def votedChain : ResolvedChain := ⟨.ofList [(0, ⟨100⟩, ⟨0, 0, ⟨0⟩, ⟨0⟩, .phase0 []⟩), (6, ⟨106⟩, votedBlock)]⟩

/-- Validator 9 proposes. -/
def votedDuties : EpochDuties := ⟨true, .ofList [(6, 9)], none⟩

/-- The committees of epoch 0 are pruned. -/
def votedNode : (q : Request) → Except Error q.Answer
  | .committees e => if e = 1 then .ok [⟨0, 5, [7]⟩] else .error (.beaconApi 404 "pruned")
  | .attesterDuties _ _ => .ok [⟨7, 0, 0, 5⟩]
  | _ => .error (.http "no answer")

def votedInclusion : AttestationInclusion := ⟨6, 1, true, true, true⟩

theorem votedBlock_available : EpochAvailable votedSpec votedNode [7] votedBlock votedChain.roots 1
    (.ofList [(7, votedInclusion)]) [⟨7, 0, 0, 5⟩] := by
  refine ⟨⟨[⟨0, 5, [7]⟩], _, rfl, rfl, rfl⟩, rfl, fun v inc hv => ?_⟩
  have hmem := Table.mem_of_get_ofList hv
  obtain ⟨rfl, rfl⟩ := Prod.mk.inj (List.mem_singleton.1 hmem)
  exact ⟨_, rfl, by decide, by decide⟩

/-- The effects of a run in which epoch 0 fails. -/
def votedTrace : List (Event indexer) :=
  [⟨.db (.recordBlock 6 ⟨106⟩ ⟨100⟩), .ok ()⟩, ⟨.db (.upsertBlockProposal 6 (proposalOutcome false 9 true)), .ok ()⟩,
    ⟨.db (.enqueueJobs 1 (some 6) .proposalRewards [9] (some ⟨106⟩)), .ok ()⟩,
    ⟨.node (.committees 0), .error (.beaconApi 404 "pruned")⟩, ⟨.node (.committees 1), .ok [⟨0, 5, [7]⟩]⟩,
    ⟨.node (.attesterDuties 1 [7]), .ok [⟨7, 0, 0, 5⟩]⟩,
    ⟨.db (.upsertAttestationDuty 7 1 (liveRow ⟨7, 0, 0, 5⟩ votedInclusion 1)), .ok ()⟩]

theorem votedTrace_ends : Ends (processSlot votedSpec 6 [7, 9] [7] votedDuties votedChain) votedTrace
    (.error (.beaconApi 404 "pruned")) :=
  .step (.step (.step (.step (.step (.step (.step (.done _)))))))

theorem votedTrace_answered : Answered votedNode votedTrace := by
  intro q r h
  simp only [votedTrace, List.mem_cons, List.not_mem_nil, or_false, Sigma.mk.injEq, reduceCtorEq, false_and, false_or,
    Effect.node.injEq] at h
  obtain ⟨rfl, h⟩ | ⟨rfl, h⟩ | ⟨rfl, h⟩ := h
  · cases h; rfl
  · cases h; rfl
  · cases h; rfl

theorem slot_evidence_best_effort_oneEpochFails :
    SlotDiscipline votedSpec 6 [7, 9] [7] votedDuties votedChain votedNode votedTrace ∧
      attestationEpochs votedSpec 6 [7] votedChain = [0, 1] ∧ InclusionStored votedTrace 7 1 votedInclusion := by
  have hrun := slot_evidence_best_effort votedSpec 6 [7, 9] [7] votedDuties votedChain votedNode votedTrace_ends
    votedTrace_answered
  refine ⟨hrun, rfl, ?_⟩
  refine hrun.evidence ⟨106⟩ votedBlock rfl (votedTrace.take 3) (List.take_prefix _ _) ?_ 1 (by decide) _ _
    votedBlock_available ?_ 7 votedInclusion rfl
  · exact .step (.step (.step (.done _)))
  · intro v w m h
    simp [votedTrace] at h

/-- The proposal's write fails: the slot stops before its attestations, although the inputs of epoch 1 are available. -/
theorem failed_proposal_skips_evidence :
    ∃ (l : List (Event indexer)) (r : Except Error Unit),
      Ends (processSlot votedSpec 6 [7, 9] [7] votedDuties votedChain) l r ∧ Answered votedNode l ∧
      1 ∈ attestationEpochs votedSpec 6 [7] votedChain ∧
      EpochAvailable votedSpec votedNode [7] votedBlock votedChain.roots 1 (.ofList [(7, votedInclusion)]) [⟨7, 0, 0, 5⟩] ∧
      (∀ v w m, (⟨.db (.upsertAttestationDuty v 1 w), .error m⟩ : Event indexer) ∉ l) ∧
      ¬InclusionStored l 7 1 votedInclusion := by
  refine ⟨[⟨.db (.recordBlock 6 ⟨106⟩ ⟨100⟩), .ok ()⟩,
    ⟨.db (.upsertBlockProposal 6 (proposalOutcome false 9 true)), .error (.database "down")⟩], .error (.database "down"),
    .step (.step (.done _)), ?_, by decide, votedBlock_available, ?_, ?_⟩
  · intro q r h
    simp at h
  · intro v w m h
    simp at h
  · rintro ⟨w, h, -⟩
    simp at h

end BeaconIndexer
