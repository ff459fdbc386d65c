/-
Completed pairs in the running system: whatever the node answers and however the programs of any
number of instances interleave, a (validator, epoch) is marked complete only over a final row with its
rewards and details, and from then on that row stays as it is.

The statements alone do not give this. An archive scan establishes it for its own validators in its
attestation stage, and no statement another worker can issue in between takes it back, so it still
holds when the scan records the completion.
-/
import BeaconIndexer.Proofs.Immutable
import BeaconIndexer.Proofs.Partition

namespace BeaconIndexer

open Effects Relational

variable {spec : ChainSpec}

/-! ## Rows a finalized scan leaves -/

/-- Final, with the rewards of the duty and the decoded vote of an inclusion. -/
structure AttestationRow.Scanned (a : AttestationRow) : Prop where
  finalized : a.finalized = true
  details : a.included = true → a.lacksDetails = false
  source : a.sourceReward.isSome = true
  target : a.targetReward.isSome = true
  head : a.headReward.isSome = true

/-- The attestation row of the pair is a scanned one. -/
def Db.ScannedRow (db : Db) (v e : Nat) : Prop := ∃ a, db.attestationDuties.get (v, e) = some a ∧ a.Scanned

/-- The rows of completed pairs: frozen, and with everything a scan fetches. -/
structure Db.Whole (spec : ChainSpec) (db : Db) : Prop where
  frozen : CompleteInv spec db
  scanned : ∀ v e, db.completed v e = true → db.ScannedRow v e

/-- What a worker takes care of when it issues a statement. -/
def DbOp.Careful (spec : ChainSpec) : DbOp → Db → Prop
  | .upsertAttestationDuty _ _ w, _ => w.finalized = true → w.toRow.Scanned
  | .markComplete vs e, db => ∀ v ∈ vs, db.ScannedRow v e
  | .enqueueJobs e slot _ _ _, _ => ∀ s, slot = some s → e = spec.slotToEpoch s
  | _, _ => True

theorem AttestationRow.lacksDetails_eq_false {a : AttestationRow} : a.lacksDetails = false ↔
    a.effectiveInclusionDelay.isSome = true ∧ a.sourceCorrect.isSome = true ∧ a.targetCorrect.isSome = true ∧
      a.headCorrect.isSome = true := by
  simp [lacksDetails, and_assoc]

theorem AttestationWrite.Scanned.merge {w : AttestationWrite} (hw : w.toRow.Scanned) (old : AttestationRow) :
    (w.merge old).Scanned where
  finalized := hw.finalized
  details hi := by
    obtain ⟨h1, h2, h3, h4⟩ := AttestationRow.lacksDetails_eq_false.1 (hw.details hi)
    exact AttestationRow.lacksDetails_eq_false.2 ⟨h1, coalesce_isSome h2, coalesce_isSome h3, coalesce_isSome h4⟩
  source := coalesce_isSome hw.source
  target := coalesce_isSome hw.target
  head := coalesce_isSome hw.head

namespace AttestationRow.Scanned

variable {a : AttestationRow} (h : a.Scanned)
include h

theorem withDetails (d : InclusionDetails) : (a.withDetails d).Scanned where
  finalized := h.finalized
  details _ := rfl
  source := h.source
  target := h.target
  head := h.head

theorem withRewards (source target head : Int) (inactivity : Option Int) :
    (a.withRewards (some source) (some target) (some head) inactivity).Scanned where
  finalized := h.finalized
  details hi := by
    obtain ⟨h1, h2, h3, h4⟩ := lacksDetails_eq_false.1 (h.details hi)
    exact lacksDetails_eq_false.2 ⟨h1, coalesce_isSome h2, coalesce_isSome h3, coalesce_isSome h4⟩
  source := rfl
  target := rfl
  head := rfl

theorem promoted (db : Db) (p : Promotion) (v e : Nat) : (db.promotedRow spec p v e a).Scanned := by
  have hj : (db.joinedRow p v e a).Scanned := by
    unfold Db.joinedRow
    split
    · split
      · exact h
      · exact h.withRewards ..
    · exact h
  obtain ⟨h1, h2, h3, h4, h5⟩ := hj
  refine ⟨?_, h2, h3, h4, h5⟩
  show (a.finalized || _ || _) = true
  rw [h.finalized, Bool.true_or, Bool.true_or]

end AttestationRow.Scanned

/-! ## Statements -/

section Exec

variable {now : Nat} {op : DbOp} {db : Db} {v e : Nat}

/-- A careful statement leaves a scanned row scanned, even where the pair is not completed yet. -/
theorem Db.ScannedRow.exec (ho : op.Careful spec db) (h : db.ScannedRow v e) : (op.exec spec now db).ScannedRow v e := by
  obtain ⟨a, ha, hs⟩ := h
  have hchange : DutyChange spec op db v e _ _ := dutyChange now op db v e
  rw [ha] at hchange
  generalize hafter : (op.exec spec now db).attestationDuties.get (v, e) = after at hchange
  cases hchange with
  | kept => exact ⟨a, hafter, hs⟩
  | replaced old issued hr =>
    -- only a final write replaces a final row
    subst issued
    simp only [AttestationWrite.replaces, hs.finalized, Bool.not_true, Bool.false_and, Bool.false_or, Bool.and_eq_true] at hr
    exact ⟨_, hafter, AttestationWrite.Scanned.merge (ho hr.1) _⟩
  | repaired old issued hr => exact ⟨_, hafter, hs.withDetails _⟩
  | rewarded old r issued hp =>
    rw [hs.finalized] at hp
    cases hp
  | marked old issued mem => exact ⟨_, hafter, hs.1, hs.2, hs.3, hs.4, hs.5⟩
  | promoted old issued =>
    rename_i p
    have hp : (db.promotedRow spec p v e a).Scanned := hs.promoted db p v e
    refine ⟨_, hafter, ?_, hp.details, hp.source, hp.target, hp.head⟩
    show ((db.promotedRow spec p v e a).finalized || _) = true
    rw [hp.finalized, Bool.true_or]
  | invalidated old issued replayed hp =>
    rw [hs.finalized] at hp
    cases hp

/-- The row a finalized upsert leaves, unless it is kept for being complete. -/
theorem Db.scannedRow_upsert {w : AttestationWrite} (hw : w.toRow.Scanned)
    (hc : db.completed v e = true → db.ScannedRow v e) : (db.upsertAttestationDuty v e w).ScannedRow v e := by
  unfold ScannedRow
  rw [Db.upsertAttestationDuty_get, if_pos rfl]
  cases hold : db.attestationDuties.get (v, e) with
  | none => exact ⟨_, rfl, hw⟩
  | some old =>
    rw [Db.upsertedAttestation]
    split
    · exact ⟨_, rfl, AttestationWrite.Scanned.merge hw old⟩
    · rename_i hr
      have hfinal : w.finalized = true := hw.finalized
      have hcomplete : db.completed v e = true := by
        cases hdone : db.completed v e with
        | true => rfl
        | false => simp [AttestationWrite.replaces, hfinal, hdone] at hr
      obtain ⟨a, ha, hs⟩ := hc hcomplete
      rw [hold] at ha
      cases ha
      exact ⟨old, rfl, hs⟩

theorem DbOp.Careful.issued (ho : op.Careful spec db) : Issued spec op db := by
  cases op with
  | markComplete vs epoch =>
    intro v hv
    obtain ⟨a, ha, hs⟩ := ho v hv
    exact ⟨a, ha, hs.finalized, hs.details⟩
  | enqueueJobs => exact ho
  | _ => trivial

/-- A promotion completes only pairs whose rewards have arrived. -/
theorem Db.promoted_scanned {p : Promotion} (hi : (db.promoteCollected spec p).2.completed v e = true)
    (hold : db.completed v e = false) : (db.promoteCollected spec p).2.ScannedRow v e := by
  rw [Db.promoteCollected_completed, hold, Bool.false_or] at hi
  obtain ⟨b, hb, hr⟩ := (Db.mem_ready spec _ p).1 (List.contains_iff_mem.1 hi)
  rw [Db.promoteEvidence_att] at hb
  obtain ⟨a, ha, rfl⟩ := Option.map_eq_some_iff.1 hb
  have hdetails := (isReady_row hr).2
  simp only [Db.isReady, Bool.and_eq_true] at hr
  obtain ⟨⟨⟨⟨⟨⟨⟨⟨⟨⟨⟨_, _⟩, _⟩, hsource⟩, htarget⟩, hhead⟩, _⟩, _⟩, _⟩, _⟩, _⟩, _⟩ := hr
  unfold ScannedRow
  rw [Db.promoteCollected_att, ha, Option.map_some]
  exact ⟨_, rfl, (Bool.or_eq_true _ _).mpr (Or.inr hi), hdetails, hsource, htarget, hhead⟩

theorem Db.Whole.exec (h : db.Whole spec) (ho : op.Careful spec db) : (op.exec spec now db).Whole spec := by
  refine ⟨h.frozen.exec ho.issued, fun v e hc => ?_⟩
  by_cases hold : db.completed v e = true
  · exact (h.scanned v e hold).exec ho
  · simp only [Bool.not_eq_true] at hold
    by_cases hw : op.completes = true
    · cases op with
      | markComplete vs epoch =>
        have hmark : (db.markComplete vs epoch).completed v e = true := hc
        rw [Db.markComplete_completed, hold, Bool.false_or] at hmark
        have hv : v ∈ vs ∧ e = epoch := by simpa using hmark
        obtain ⟨hv, rfl⟩ := hv
        exact Db.ScannedRow.exec ho (ho v hv)
      | promoteCollected p => exact Db.promoted_scanned hc hold
      | _ => cases hw
    · have hsame : (op.exec spec now db).completed v e = db.completed v e := by
        unfold Db.completed
        rw [DbOp.exec_completed (by simpa using hw)]
      rw [hsame, hold] at hc
      cases hc

theorem Db.Whole.empty : Db.empty.Whole spec :=
  ⟨CompleteInv.empty, fun v e h => by simp [Db.completed, Db.empty, Table.has] at h⟩

end Exec

/-! ## Archive scans -/

/-- Every duty of a validated response has a reward, and every scanned validator a duty. -/
theorem validateEpochResponse_covers {tracked : List Nat} {duties : List AttesterDuty}
    {rewards : Table Nat ValidatorAttestationReward} (h : validateEpochResponse tracked duties rewards = .ok ()) {v : Nat}
    (hv : v ∈ tracked) : (∃ d ∈ duties, d.validatorIndex = v) ∧ (rewards.get v).isSome = true := by
  unfold validateEpochResponse at h
  split at h
  · cases h
  · rename_i hnone
    have hcovers := List.find?_eq_none.1 hnone v hv
    simp only [Bool.or_eq_true, Bool.not_eq_true', not_or, Bool.not_eq_false, List.contains_iff_mem, List.mem_map] at hcovers
    exact hcovers

theorem denseRow_scanned (duty : AttesterDuty) (inclusion : Option AttestationInclusion) (missedSlots : List Nat)
    {reward : Option ValidatorAttestationReward} (hr : reward.isSome = true) :
    (denseRow true duty inclusion reward missedSlots).toRow.Scanned := by
  obtain ⟨r, rfl⟩ := Option.isSome_iff_exists.1 hr
  refine ⟨rfl, fun hi => ?_, rfl, rfl, rfl⟩
  cases inclusion with
  | none => cases hi
  | some inc => rfl

theorem sparseRow_scanned (duty : AttesterDuty) (found : Option (AttestationInclusion × Nat))
    {reward : Option ValidatorAttestationReward} (hr : reward.isSome = true) :
    (sparseRow true duty reward found).toRow.Scanned := by
  obtain ⟨r, rfl⟩ := Option.isSome_iff_exists.1 hr
  cases found with
  | none =>
    refine ⟨rfl, fun hi => ?_, rfl, rfl, rfl⟩
    cases hi
  | some f => exact ⟨rfl, fun _ => rfl, rfl, rfl, rfl⟩

/-- A setting on whole databases in which careful statements are allowed and scanned rows stay. -/
structure Completing {σ : Type} (C : Contract indexer σ) (spec : ChainSpec) (db : σ → Db) : Prop where
  node : ∀ q s, C.guar (.node q) s
  careful : ∀ {op s}, op.Careful spec (db s) → C.guar (.db op) s
  whole : ∀ s, (db s).Whole spec
  rely : ∀ {s s' v e}, C.rely s s' → (db s).ScannedRow v e → (db s').ScannedRow v e
  keeps : ∀ {o s r s' v e}, C.guar o s → C.sem o s r s' → (db s).ScannedRow v e → (db s').ScannedRow v e
  statement : ∀ {op s r s'}, C.sem (.db op) s r s' →
    (∃ now, db s' = op.exec spec now (db s)) ∨ (∃ m, r = .error (.database m) ∧ db s' = db s)

section Scan

variable {σ : Type} {C : Contract indexer σ} {db : σ → Db} (h : Completing C spec db) {epoch : Nat} {vs : List Nat}
include h

/-- The upsert of a scanned row leaves one, whatever stood there before. -/
theorem Completing.upsert {v : Nat} {w : AttestationWrite} (hw : w.toRow.Scanned) (s : σ) :
    C.Ok (BeaconIndexer.statement (.upsertAttestationDuty v epoch w)) s (fun _ s' => (db s').ScannedRow v epoch)
      fun _ _ => True := by
  have hop : ∀ db, (DbOp.upsertAttestationDuty v epoch w).Careful spec db := fun _ _ => hw
  refine .ask (fun s₁ _ => h.careful (hop _)) fun s₁ r s₂ s₃ _ hsem hr => ?_
  rcases h.statement hsem with ⟨now, hdb⟩ | ⟨m, rfl, -⟩
  · have hrow : (db s₃).ScannedRow v epoch := by
      apply h.rely hr
      rw [hdb]
      exact Db.scannedRow_upsert hw fun hc => (h.whole s₁).scanned v epoch hc
    cases r with
    | ok a => exact hrow
    | error e => trivial
  · trivial

/-- Rows that are written one after another are all there at the end. -/
theorem Completing.each (epoch : Nat) {l : List AttesterDuty} {f : AttesterDuty → Task Unit}
    (hf : ∀ duty ∈ l, ∀ s, C.Ok (f duty) s (fun _ s' => (db s').ScannedRow duty.validatorIndex epoch) fun _ _ => True)
    (s : σ) : C.Ok (Effects.each f l) s (fun _ s' => ∀ duty ∈ l, (db s').ScannedRow duty.validatorIndex epoch)
      fun _ _ => True := by
  let Written : AttesterDuty → σ → Prop := fun duty s => (db s).ScannedRow duty.validatorIndex epoch
  exact .each_all (F := Written) (fun _ _ _ hr hs => h.rely hr hs) (fun _ _ _ _ _ hg hsem hs => h.keeps hg hsem hs) hf s

/-- After the attestation stage every scanned validator has its row. -/
theorem Completing.processEpochAttestationDuties {G : DbOp → Prop} {own : Nat → Prop} (hg : Grants C G own) (s : σ) :
    C.Ok (BeaconIndexer.processEpochAttestationDuties spec epoch vs true) s
      (fun _ s' => ∀ v ∈ vs, (db s').ScannedRow v epoch) fun _ _ => True := by
  refine .bind ((hg.fetchBlocksForSlots _ s).imp fun blocks s _ => ?_)
  refine .bind ((hg.request _ s).imp fun committees s _ => ?_)
  refine .bind ((hg.buildVoteContext spec _ _ s).imp fun ctx s _ => ?_)
  refine .bind ((hg.request _ s).imp fun duties s _ => ?_)
  refine .bind ((hg.getAttestationRewards _ _ s).imp fun rewards s _ => ?_)
  refine .bind ((always_ofExcept _ s).imp fun _ s hvalid => ?_)
  refine .bind ((always_ofExcept _ s).imp fun inclusions s _ => ?_)
  refine (h.each epoch (fun duty hd s => ?_) s).imp fun _ s' hs v hv => ?_
  · have hv : duty.validatorIndex ∈ vs := List.contains_iff_mem.1 (List.mem_filter.1 hd).2
    exact h.upsert (denseRow_scanned duty _ _ (validateEpochResponse_covers hvalid hv).2) s
  · obtain ⟨⟨duty, hd, rfl⟩, -⟩ := validateEpochResponse_covers hvalid hv
    exact hs duty (List.mem_filter.2 ⟨hd, List.contains_iff_mem.2 hv⟩)

theorem Completing.processEpochAttestationDutiesSparse {G : DbOp → Prop} {own : Nat → Prop} (hg : Grants C G own) (s : σ) :
    C.Ok (BeaconIndexer.processEpochAttestationDutiesSparse spec epoch vs true) s
      (fun _ s' => ∀ v ∈ vs, (db s').ScannedRow v epoch) fun _ _ => True := by
  refine .ite (fun hempty => .pure fun s' _ v hv => ?_) fun _ => ?_
  · rw [List.isEmpty_iff.1 hempty] at hv
    cases hv
  refine .bind ((hg.request _ s).imp fun duties s _ => ?_)
  refine .bind ((hg.getAttestationRewards _ _ s).imp fun rewards s _ => ?_)
  refine .bind ((always_ofExcept _ s).imp fun _ s hvalid => ?_)
  refine .bind ((hg.request _ s).imp fun committees s _ => ?_)
  refine (h.each epoch (fun duty hd s => ?_) s).imp fun _ s' hs v hv => ?_
  · have hv : duty.validatorIndex ∈ vs := List.contains_iff_mem.1 (List.mem_filter.1 hd).2
    refine .bind ((hg.scanForwardForInclusion spec duty _ s).imp fun found s _ => ?_)
    exact .check (fun _ _ _ => trivial) fun _ =>
      h.upsert (sparseRow_scanned duty _ (validateEpochResponse_covers hvalid hv).2) s
  · obtain ⟨⟨duty, hd, rfl⟩, -⟩ := validateEpochResponse_covers hvalid hv
    exact hs duty (List.mem_filter.2 ⟨hd, List.contains_iff_mem.2 hv⟩)

end Scan

/-! ## Runs -/

section Runs

variable {κ : Type} (spec : ChainSpec) (net : Network) (cfg : κ → LiveConfig spec) (owns : κ → List Nat → Prop)

/-- Workers issue careful statements, and rely on the scanned rows of the others' whole database. -/
def completing : (indexers spec net cfg owns).Discipline where
  rely _ s s' := (s.1.Whole spec → s'.1.Whole spec) ∧ ∀ v e, s.1.ScannedRow v e → s'.1.ScannedRow v e
  guar _ _ e s := match e with
    | .node _ => True
    | .db op => op.Careful spec s.1
  post _ _ _ _ := True
  idle _ _ _ := True
  refl _ _ := ⟨fun h => h, fun _ _ h => h⟩
  trans _ := fun h h' => ⟨fun hw => h'.1 (h.1 hw), fun v e hs => h'.2 v e (h.2 v e hs)⟩

variable {spec net cfg owns} {i : κ × Role} {w : net.View}

/-- An effect issued with care keeps the database whole and its scanned rows. -/
theorem completing_sem {e : Effect} {s s' : Db × net.Past} {r : Effect.Result e}
    (hg : ((completing spec net cfg owns).contract i w).guar e s)
    (hsem : ((completing spec net cfg owns).contract i w).sem e s r s') :
    ((completing spec net cfg owns).contract i w).rely s s' := by
  cases e with
  | node q =>
    have hdb : s'.1 = s.1 := hsem.1.2
    exact ⟨fun h => hdb ▸ h, fun v e h => hdb ▸ h⟩
  | db op =>
    rcases hsem.1 with ⟨now, -, hdb⟩ | ⟨m, -, hdb⟩
    · exact ⟨fun h => hdb ▸ h.exec hg, fun v e h => hdb ▸ h.exec hg⟩
    · exact ⟨fun h => hdb ▸ h, fun v e h => hdb ▸ h⟩

theorem completing_grants {G : DbOp → Prop} (hG : ∀ op db, G op → op.Careful spec db) :
    Grants ((completing spec net cfg owns).contract i w) G fun _ => True where
  node _ _ := trivial
  db _ _ hop := hG _ _ hop
  active h := indexerSem_active h.1
  eligible h := indexerSem_eligible h.1
  sync _ _ _ _ := trivial

/-- The setting of a worker among whole databases. -/
theorem completing_within : Completing (((completing spec net cfg owns).contract i w).within fun s => s.1.Whole spec) spec
    fun s => s.1.1 where
  node _ _ := trivial
  careful h := h
  whole s := s.2
  rely h hs := h.2 _ _ hs
  keeps := by
    intro o s r s' v e hg hsem hs
    have hr : ((completing spec net cfg owns).contract i w).rely s.1 s'.1 := completing_sem hg hsem
    exact hr.2 v e hs
  statement h := by
    rcases h.1 with ⟨now, -, hdb⟩ | ⟨m, hr, hdb⟩
    · exact .inl ⟨now, hdb⟩
    · exact .inr ⟨m, hr, hdb⟩

theorem completing_grants_within {I : Db × net.Past → Prop} {G : DbOp → Prop}
    (hG : ∀ op s, I s → G op → op.Careful spec s.1) :
    Grants (((completing spec net cfg owns).contract i w).within I) G fun _ => True where
  node _ _ := trivial
  db _ s hop := hG _ s.1 s.2 hop
  active h := indexerSem_active h.1
  eligible h := indexerSem_eligible h.1
  sync _ _ _ _ := trivial

/-- What a scan does after its attestation stage only completes pairs whose rows are there. -/
theorem scanTail_whole {epoch : Nat} {vs : List Nat} {s : Db × net.Past} (hw : s.1.Whole spec)
    (hrows : ∀ v ∈ vs, s.1.ScannedRow v epoch) : ((completing spec net cfg owns).contract i w).Ok (do
      processEpochProposals spec epoch vs true
      if spec.altairForkEpoch ≤ epoch then processEpochSync spec epoch vs true
      statement (.markComplete vs epoch)) s (fun _ _ => True) fun _ _ => True := by
  let Kept : Db × net.Past → Prop := fun s => s.1.Whole spec ∧ ∀ v ∈ vs, s.1.ScannedRow v epoch
  have hrely : ∀ s s', ((completing spec net cfg owns).contract i w).rely s s' → Kept s → Kept s' :=
    fun s s' hr hs => ⟨hr.1 hs.1, fun v hv => hr.2 v epoch (hs.2 v hv)⟩
  refine .of_within hrely (fun e s r s' hg hsem => hrely s s' (completing_sem hg hsem)) ⟨hw, hrows⟩ ?_
  let Tail : DbOp → Prop := fun op => ScanIssue vs epoch (fun _ => True) op ∧ op.writesInclusions = false
  have hg : Grants (((completing spec net cfg owns).contract i w).within Kept) Tail fun _ => True := by
    apply completing_grants_within
    rintro op s hs ⟨hop, hinc⟩
    cases hop with
    | upsertAttestationDuty => cases hinc
    | upsertBlockProposal => trivial
    | upsertSyncDuty => trivial
    | markComplete => exact hs.2
  have hG : ∀ op, ScanIssue vs epoch (fun _ => True) op → op.writesInclusions = false → Tail op := fun _ h h' => ⟨h, h'⟩
  have mark := hg.statement (hG _ .markComplete rfl)
  refine .bind ((hg.processEpochProposals spec (fun op hop hw _ => hG op hop hw) _).imp fun _ s _ => .ite (fun _ => ?_) fun _ => mark s)
  exact .bind ((hg.processEpochSync spec (fun op hop hw _ => hG op hop hw) s).imp fun _ s _ => mark s)

theorem scanEpoch_whole {epoch : Nat} {vs : List Nat} (mode : EffectiveScanMode) {s : Db × net.Past} (hw : s.1.Whole spec) :
    ((completing spec net cfg owns).contract i w).Ok (scanEpoch spec epoch vs true mode) s (fun _ _ => True)
      fun _ _ => True := by
  have hrely : ∀ s s', ((completing spec net cfg owns).contract i w).rely s s' → s.1.Whole spec → s'.1.Whole spec :=
    fun _ _ hr => hr.1
  have hsem : ∀ e s r s', ((completing spec net cfg owns).contract i w).guar e s →
      ((completing spec net cfg owns).contract i w).sem e s r s' → s.1.Whole spec → s'.1.Whole spec :=
    fun _ _ _ _ hg hsem => (completing_sem hg hsem).1
  have hg : Grants (((completing spec net cfg owns).contract i w).within fun s => s.1.Whole spec) (fun _ => False)
      fun _ => True := completing_grants_within fun _ _ _ h => h.elim
  have stage : ∀ {x : Task Unit}, (((completing spec net cfg owns).contract i w).within fun s => s.1.Whole spec).Ok x ⟨s, hw⟩
      (fun _ s' => ∀ v ∈ vs, s'.1.1.ScannedRow v epoch) (fun _ _ => True) →
      ((completing spec net cfg owns).contract i w).Ok x s
        (fun _ s' => s'.1.Whole spec ∧ ∀ v ∈ vs, s'.1.ScannedRow v epoch) fun _ _ => True :=
    fun hx => .of_within hrely hsem hw (hx.imp fun _ s' hrows => ⟨s'.2, hrows⟩)
  refine .ite (fun _ => .pure fun _ _ => trivial) fun _ => ?_
  cases mode with
  | dense => exact .bind ((stage (completing_within.processEpochAttestationDuties hg _)).imp fun _ s' hs =>
      scanTail_whole hs.1 hs.2)
  | sparse => exact .bind ((stage (completing_within.processEpochAttestationDutiesSparse hg _)).imp fun _ s' hs =>
      scanTail_whole hs.1 hs.2)

theorem begins_completing {m : Memory} {p : Prog indexer Memory} (hb : Begins spec (cfg i.1) (owns i.1) i.2 m p)
    {s : Db × net.Past} (hw : s.1.Whole spec) :
    ((completing spec net cfg owns).contract i w).Safe p (fun _ _ => True) s := by
  obtain ⟨inst, role⟩ := i
  let Provisional : DbOp → Prop := fun op => ∀ db, op.Careful spec db
  have hg : Grants ((completing spec net cfg owns).contract (inst, role) w) Provisional fun _ => True :=
    completing_grants fun op db hop => hop db
  have hread : ∀ op : DbOp, op.reads = true → Provisional op := fun op hop db => by
    cases op <;> trivial
  have hup : ∀ v e (w : AttestationWrite), w.finalized = false → Provisional (.upsertAttestationDuty v e w) :=
    fun v e w hf db ht => by rw [hf] at ht; cases ht
  cases hb with
  | @boot tracked _ =>
    exact (hg.statement (hread _ rfl) s).seal fun r _ _ => by cases r <;> exact fun _ _ => trivial
  | @pass tracked last cursor _ =>
    have hG : ∀ op, LiveIssue spec tracked (fun _ => True) op → Provisional op := by
      intro op hop
      cases hop with
      | read h => exact hread op h
      | enqueueJobs _ h => exact fun _ => h
      | upsertAttestationDuty h => exact hup _ _ _ h
      | _ => exact fun _ => trivial
    have hfin := fun checkpoint resolved => hg.finalizeCollectedEvidence spec hread hup (fun _ _ _ _ => trivial)
      (fun _ _ => trivial) checkpoint resolved
    exact (hg.reconcilePass spec (fun _ _ => trivial) hG hfin (cfg inst) cursor s).seal fun r _ _ _ _ => trivial
  | @scan n _ epoch validators mode _ =>
    exact (scanEpoch_whole mode hw).seal fun r _ _ _ _ => trivial
  | @refresh _ v a x =>
    have hop : Provisional (.upsertValidator v a x) := fun _ => trivial
    exact (hg.statement hop s).seal fun r _ _ _ _ => trivial

/-- The workers keep the database whole, and whatever else careful statements keep of whole databases. -/
theorem completing_sound [DecidableEq κ] (J : Db → Prop)
    (hJ : ∀ now (op : DbOp) (db : Db), db.Whole spec → op.Careful spec db → J db → J (op.exec spec now db)) :
    (indexers spec net cfg owns).Sound (completing spec net cfg owns) fun s => s.1.Whole spec ∧ J s.1 where
  begins hi _ hb := by
    obtain ⟨hb, -, hdb⟩ := hb
    rw [hdb]
    exact ⟨hi, begins_completing hb (hdb ▸ hi.1), fun _ _ => ⟨fun _ => hdb ▸ hi.1, fun _ _ h => hdb ▸ h⟩⟩
  acts := by
    intro i w e s r s' hi hg hsem
    have hr : ((completing spec net cfg owns).contract i w).rely s s' := completing_sem hg hsem
    refine ⟨⟨hr.1 hi.1, ?_⟩, fun _ _ => hr⟩
    cases e with
    | node q =>
      have hdb : s'.1 = s.1 := hsem.1.2
      exact hdb ▸ hi.2
    | db op =>
      rcases hsem.1 with ⟨now, -, hdb⟩ | ⟨m, -, hdb⟩
      · exact hdb ▸ hJ now op s.1 hi.1 hg hi.2
      · exact hdb ▸ hi.2
  finish _ _ := trivial
  restart _ _ := trivial
  idle _ _ := trivial

theorem good_initial [DecidableEq κ] (past : net.Past) :
    System.Good (completing spec net cfg owns) (fun s => s.1.Whole spec ∧ True) (initial κ net past) :=
  ⟨⟨Db.Whole.empty, trivial⟩, fun _ => trivial⟩

/-- In every run of the workers a completed pair has its attestation row: final, known, with all rewards
and, if the duty was included, with its decoded vote. -/
theorem completed_pairs_whole [DecidableEq κ] {past : net.Past} {c : Configuration κ net}
    (hr : (indexers spec net cfg owns).Reach (initial κ net past) c) {v e : Nat} (hc : c.state.1.completed v e = true) :
    ∃ a, c.state.1.attestationDuties.get (v, e) = some a ∧ a.finalized = true ∧ a.inclusionKnown = true ∧
      a.sourceReward.isSome = true ∧ a.targetReward.isSome = true ∧ a.headReward.isSome = true ∧
      (a.included = true → a.effectiveInclusionDelay.isSome = true ∧ a.sourceCorrect.isSome = true ∧
        a.targetCorrect.isSome = true ∧ a.headCorrect.isSome = true) := by
  have hsound : (indexers spec net cfg owns).Sound (completing spec net cfg owns) fun s => s.1.Whole spec ∧ True :=
    completing_sound (fun _ => True) fun _ _ _ _ _ h => h
  obtain ⟨⟨hw, -⟩, -⟩ := hsound.reach hr (good_initial past)
  obtain ⟨a, ha, hf⟩ := hw.frozen.rows v e hc
  obtain ⟨a', ha', hs⟩ := hw.scanned v e hc
  obtain rfl : a = a' := Option.some.inj (ha.symm.trans ha')
  exact ⟨a, ha, hf.finalized, hf.known, hs.source, hs.target, hs.head, fun hi =>
    AttestationRow.lacksDetails_eq_false.1 (hs.details hi)⟩

/-- Along every run of the workers the rows of completed pairs stay as they are, attestations, proposals and
sync duties alike, and no final row becomes provisional again or is deleted. -/
theorem completed_rows_stay [DecidableEq κ] {past : net.Past} {c c' : Configuration κ net}
    (hr : (indexers spec net cfg owns).Reach (initial κ net past) c) (hr' : (indexers spec net cfg owns).Reach c c') :
    KeptRows spec c.state.1 c'.state.1 ∧ Kept spec c.state.1 c'.state.1 := by
  have hsound : (indexers spec net cfg owns).Sound (completing spec net cfg owns) fun s => s.1.Whole spec ∧ True :=
    completing_sound (fun _ => True) fun _ _ _ _ _ h => h
  obtain ⟨⟨hw, -⟩, hproc⟩ := hsound.reach hr (good_initial past)
  -- from `c` on, the database runs through carefully issued statements
  have hruns : (indexers spec net cfg owns).Sound (completing spec net cfg owns) fun s =>
      s.1.Whole spec ∧ Run spec (Issued spec) c.state.1 s.1 :=
    completing_sound (Run spec (Issued spec) c.state.1) fun now op db _ hop hrun => hrun.tail now op hop.issued
  obtain ⟨⟨-, hrun⟩, -⟩ := hruns.reach hr' ⟨⟨hw, .refl _⟩, hproc⟩
  obtain ⟨hkept, -⟩ := keptRows_run hw.frozen hrun
  obtain ⟨hatt, hproposal, hsync⟩ := final_run hrun
  exact ⟨hkept, fun v e a hc h => ⟨a, hkept.att v e a hc h, rfl⟩, fun s d hc h hf => ⟨d, hkept.proposal s d hc h hf, rfl⟩,
    fun v s d hc h hf => ⟨d, hkept.sync v s d hc h hf, rfl⟩, hatt, hproposal, hsync⟩

end Runs

/-! ## A pair scanned twice -/

/-- The vote of validator 7 for its duty of slot 0 is in the block of slot 1; the node reports `reward` three times. -/
def votedDutyAnswers (reward : Int) : (q : Request) → Except Error q.Answer
  | .attesterDuties _ _ => .ok [⟨7, 0, 0, 0⟩]
  | .attestationRewards _ _ => .ok ⟨[⟨7, reward, reward, reward, none, none⟩], none⟩
  | .committees _ => .ok [⟨0, 0, [7]⟩]
  | .proposerDuties _ => .ok [⟨9, 0⟩]
  | .blockRoot s => .ok (if s ≤ 1 then some ⟨100 + s⟩ else none)
  | .blockByRoot r => .ok (some (if r = ⟨101⟩ then votingBlock 1 ⟨100⟩ 0 ⟨0, ⟨100⟩⟩ else bareBlock 0 ⟨0⟩))
  | _ => .error (.http "no answer")

def votedDutyNet : Network := ⟨Int, Unit, fun reward q r => r = votedDutyAnswers reward q, fun _ _ _ => True⟩

def votedDutyHandler (reward : Int) : (e : Effect) → Db × Unit → e.Result × (Db × Unit)
  | .node q, s => (votedDutyAnswers reward q, s)
  | .db op, s => (.ok (op.answer unitEpochs 0 s.1), (op.exec unitEpochs 0 s.1, s.2))

/-- The archive worker scans epoch 0 while the node reports `reward`. -/
def votedDutyScan (reward : Int) (s : Db × Unit) : Option (Prog indexer Memory × (Db × Unit)) :=
  (archiveScan unitEpochs 0 [7] .sparse).advance (fun _ _ => true) (votedDutyHandler reward) 40 s

abbrev votedDutyIndexer : System indexer (Unit × Role) Int Memory (Db × Unit) :=
  indexers unitEpochs votedDutyNet (fun _ => lagTwoUnits) fun _ _ => True

theorem votedDuty_reach {reward : Int} {c : Configuration Unit votedDutyNet} {m : Memory} {p : Prog indexer Memory}
    {s : Db × Unit} (hi : c.proc ((), .archive 0) = .idle m) (hs : votedDutyScan reward c.state = some (p, s))
    (hp : p.result? = some .stopped) : ∃ c', votedDutyIndexer.Reach c c' ∧ c'.proc ((), .archive 0) = .idle .stopped ∧
      c'.state = s := by
  have hsem : ∀ e s, votedDutyIndexer.sem ((), .archive 0) reward e s (votedDutyHandler reward e s).1
      (votedDutyHandler reward e s).2 := by
    rintro (q | op) s
    · exact ⟨⟨rfl, rfl⟩, rfl⟩
    · exact ⟨.inl ⟨0, rfl, rfl⟩, rfl⟩
  obtain ⟨-, hr⟩ := System.reach_program (fun e s _ => hsem e s) hi ⟨.scan trivial, trivial, rfl⟩ hs hp
  exact ⟨_, hr, Config.set_proc .., rfl⟩

/-- The row and the completion that the first scan leaves, and the second one finds. -/
def votedDutyDone (s : Db × Unit) : Bool :=
  s.1.completed 7 0 && (s.1.attestationDuties.get (7, 0)).any fun a => a.finalized && a.included && a.sourceReward == some 1

/-- Validator 7 is registered and scanned. -/
theorem votedDuty_scanned : ∃ c, votedDutyIndexer.Reach (initial Unit votedDutyNet ()) c ∧
    c.proc ((), .archive 0) = .idle .stopped ∧ votedDutyDone c.state = true ∧
      (votedDutyScan (-5) c.state).any (fun r => r.1.result? == some .stopped) = true := by
  have hscan : (votedDutyScan 1 (.registered [7], ())).any (fun r => r.1.result? == some .stopped && votedDutyDone r.2 &&
      (votedDutyScan (-5) r.2).any fun r => r.1.result? == some .stopped) = true := by decide +kernel
  obtain ⟨⟨p, s⟩, hs, hp⟩ := (Option.any_eq_true _ _).1 hscan
  simp only [Bool.and_eq_true, beq_iff_eq] at hp
  obtain ⟨⟨hend, hdone⟩, hagain⟩ := hp
  have hmeta : votedDutyIndexer.Reach _ _ :=
    @reach_registered votedDutyNet votedDutyIndexer (1 : Int) () ⟨.refresh, trivial, rfl⟩ ⟨.inl ⟨0, rfl, rfl⟩, rfl⟩
  obtain ⟨c, hr, hidle, rfl⟩ := votedDuty_reach (c := (initial Unit votedDutyNet ()).set ((), .metadata) (.idle .stopped)
    (.registered [7], ())) rfl hs hend
  exact ⟨c, hmeta.trans hr, hidle, hdone, hagain⟩

theorem completed_pairs_whole_voted : ∃ c a, votedDutyIndexer.Reach (initial Unit votedDutyNet ()) c ∧
    c.state.1.completed 7 0 = true ∧ c.state.1.attestationDuties.get (7, 0) = some a ∧ a.finalized = true ∧
      a.included = true ∧ a.sourceReward.isSome = true ∧ a.effectiveInclusionDelay.isSome = true ∧
      a.headCorrect.isSome = true := by
  obtain ⟨c, hr, -, hdone, -⟩ := votedDuty_scanned
  obtain ⟨hc, hrow⟩ := (Bool.and_eq_true _ _).mp hdone
  obtain ⟨a, ha, hf, -, hsource, -, -, hvote⟩ := completed_pairs_whole hr hc
  rw [ha] at hrow
  have hincluded : a.included = true := by
    simp only [Option.any_some, Bool.and_eq_true] at hrow
    exact hrow.1.2
  obtain ⟨hdelay, -, -, hhead⟩ := hvote hincluded
  exact ⟨c, a, hr, hc, ha, hf, hincluded, hsource, hdelay, hhead⟩

/-- A second scan reports other rewards, and the row keeps those of the first. -/
theorem completed_rows_stay_rescanned : ∃ c c' a, votedDutyIndexer.Reach (initial Unit votedDutyNet ()) c ∧
    votedDutyIndexer.Reach c c' ∧ (votedDutyScan (-5) c.state).map Prod.snd = some c'.state ∧
      c'.state.1.attestationDuties.get (7, 0) = some a ∧ a.sourceReward = some 1 := by
  obtain ⟨c, hr, hidle, hdone, hagain⟩ := votedDuty_scanned
  obtain ⟨⟨p, s⟩, hs, hp⟩ := (Option.any_eq_true _ _).1 hagain
  obtain ⟨c', hr', -, hs'⟩ := votedDuty_reach hidle hs (by simpa using hp)
  obtain ⟨hc, hrow⟩ := (Bool.and_eq_true _ _).mp hdone
  obtain ⟨a, ha, hsource⟩ := (Option.any_eq_true _ _).1 hrow
  have hkept := (completed_rows_stay hr hr').1.att 7 0 a hc ha
  refine ⟨c, c', a, hr, hr', ?_, hkept, ?_⟩
  · rw [hs, hs']
    rfl
  · simpa using ((Bool.and_eq_true _ _).mp hsource).2

end BeaconIndexer
