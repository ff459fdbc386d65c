/-
The aggregate views against each other. An included row always has its three vote flags, whoever wrote it, so that
the flags of included rows never outnumber the decided ones. Two kinds of rows are counted differently by the
queries: rows with a correct vote but no inclusion, and sync duties of slots without a block.
-/
import BeaconIndexer.Api.Stats
import BeaconIndexer.Proofs.DutyShape
import BeaconIndexer.Proofs.Windows

namespace BeaconIndexer

open Effects Relational

/-! ## Vote flags -/

/-- The three parts of a vote that are marked right or wrong. -/
inductive VoteFlag where
  | head
  | target
  | source
  deriving DecidableEq

/-- The mark in a row. -/
def AttestationRow.flag (a : AttestationRow) : VoteFlag → Option Bool
  | .head => a.headCorrect
  | .target => a.targetCorrect
  | .source => a.sourceCorrect

/-- The mark that a write brings. -/
def AttestationWrite.flag (w : AttestationWrite) : VoteFlag → Option Bool
  | .head => w.headCorrect
  | .target => w.targetCorrect
  | .source => w.sourceCorrect

/-- The votes of an included row were decoded. -/
def AttestationRow.Decoded (a : AttestationRow) : Prop := a.included = true → ∀ f, (a.flag f).isSome = true

/-- An upsert of an included duty brings the slot of its inclusion and its votes. -/
def DbOp.Decodes : DbOp → Prop
  | .upsertAttestationDuty _ _ w => w.included = true → w.inclusionSlot.isSome = true ∧ ∀ f, (w.flag f).isSome = true
  | _ => True

/-- Every included row has its three vote flags. -/
def Db.Decoded (db : Db) : Prop := ∀ k a, db.attestationDuties.get k = some a → a.Decoded

section Exec

variable {spec : ChainSpec} {now : Nat} {op : DbOp} {db : Db} {a : AttestationRow}

/-- A reward join never takes a flag back. -/
theorem AttestationRow.Decoded.withRewards (h : a.Decoded) (source target head inactivity : Option Int) :
    (a.withRewards source target head inactivity).Decoded := by
  intro hi f
  have hf := h hi f
  cases f <;> exact coalesce_isSome hf

theorem AttestationRow.decoded_withDetails (a : AttestationRow) (d : InclusionDetails) : (a.withDetails d).Decoded :=
  fun _ f => by cases f <;> rfl

theorem AttestationWrite.decoded_toRow {w : AttestationWrite} (h : w.included = true → ∀ f, (w.flag f).isSome = true) :
    w.toRow.Decoded := by
  intro hi f
  have hf := h hi f
  cases f <;> exact hf

theorem AttestationWrite.decoded_merge {w : AttestationWrite} (h : w.included = true → ∀ f, (w.flag f).isSome = true)
    (old : AttestationRow) : (w.merge old).Decoded := by
  intro hi f
  have hf := h hi f
  cases f <;> exact coalesce_isSome hf

/-- The flags and the inclusion decide whether a row is decoded. -/
theorem AttestationRow.Decoded.congr {b : AttestationRow} (h : a.Decoded) (hi : b.included = a.included)
    (hf : ∀ f, b.flag f = a.flag f) : b.Decoded := by
  intro hb f
  rw [hf]
  exact h (hi ▸ hb) f

theorem Db.decoded_joinedRow (p : Promotion) (v e : Nat) (h : a.Decoded) : (db.joinedRow p v e a).Decoded := by
  unfold Db.joinedRow
  split
  · split
    · exact h
    · exact h.withRewards _ _ _ _
  · exact h

/-- A statement keeps the included rows decoded. -/
theorem Db.Decoded.exec (hdb : db.Decoded) (hop : op.Decodes) : (op.exec spec now db).Decoded := by
  rintro ⟨v, e⟩ a h
  have hchange := dutyChange_of_some h
  generalize hbefore : db.attestationDuties.get (v, e) = before at hchange
  cases hchange with
  | kept => exact hdb _ a hbefore
  | inserted issued =>
    subst issued
    exact AttestationWrite.decoded_toRow fun hi => (hop hi).2
  | replaced old issued hr =>
    subst issued
    exact AttestationWrite.decoded_merge (fun hi => (hop hi).2) old
  | repaired old issued hr => exact AttestationRow.decoded_withDetails old _
  | rewarded old r issued hp => exact (hdb _ old hbefore).withRewards _ _ _ _
  | marked old issued mem => exact (hdb _ old hbefore).congr rfl fun f => by cases f <;> rfl
  | promoted old issued => exact (db.decoded_joinedRow _ v e (hdb _ old hbefore)).congr rfl fun f => by cases f <;> rfl

end Exec

/-! ## What the writers issue -/

theorem DbOp.decodes_of_writesInclusions {op : DbOp} (h : op.writesInclusions = false) : op.Decodes := by
  cases op with
  | upsertAttestationDuty v e w => cases h
  | _ => trivial

theorem decodes_seedRow {v e : Nat} (duty : AttesterDuty) : DbOp.Decodes (.upsertAttestationDuty v e (seedRow duty)) :=
  fun h => by cases h

theorem decodes_liveRow {v e : Nat} (duty : AttesterDuty) (inc : AttestationInclusion) (n : Nat) :
    DbOp.Decodes (.upsertAttestationDuty v e (liveRow duty inc n)) :=
  fun _ => ⟨rfl, fun f => by cases f <;> rfl⟩

theorem decodes_denseRow {v e : Nat} (duty : AttesterDuty) (inclusion : Option AttestationInclusion)
    (reward : Option ValidatorAttestationReward) (missedSlots : List Nat) :
    DbOp.Decodes (.upsertAttestationDuty v e (denseRow true duty inclusion reward missedSlots)) := by
  intro hi
  cases inclusion with
  | none => cases hi
  | some inc => exact ⟨rfl, fun f => by cases f <;> rfl⟩

/-- The decoded votes replace those read off the rewards. -/
theorem decodes_sparseRow {v e : Nat} (duty : AttesterDuty) (reward : Option ValidatorAttestationReward)
    (found : Option (AttestationInclusion × Nat)) :
    DbOp.Decodes (.upsertAttestationDuty v e (sparseRow true duty reward found)) := by
  intro hi
  cases found with
  | none => cases hi
  | some found => exact ⟨rfl, fun f => by cases f <;> rfl⟩

/-! ## Runs -/

section Runs

variable {κ : Type} (spec : ChainSpec) (net : Network) (cfg : κ → LiveConfig spec) (owns : κ → List Nat → Prop)

/-- Workers write decoded rows and rely on nothing. -/
def decoding : (indexers spec net cfg owns).Discipline where
  rely _ _ _ := True
  guar _ _ e _ := match e with
    | .node _ => True
    | .db op => op.Decodes
  post _ _ _ _ := True
  idle _ _ _ := True
  refl _ _ := trivial
  trans _ := fun _ _ => trivial

variable {spec net cfg owns}

theorem decoding_grants (i : κ × Role) (w : net.View) :
    Grants ((decoding spec net cfg owns).contract i w) DbOp.Decodes fun _ => True where
  node _ _ := trivial
  db _ _ hop := hop
  active h := indexerSem_active h.1
  eligible h := indexerSem_eligible h.1
  sync _ _ _ _ := trivial

theorem begins_decoding {i : κ × Role} {w : net.View} {m : Memory} {p : Prog indexer Memory}
    (hb : Begins spec (cfg i.1) (owns i.1) i.2 m p) (s : Db × net.Past) :
    ((decoding spec net cfg owns).contract i w).Safe p (fun _ _ => True) s := by
  have hg : Grants ((decoding spec net cfg owns).contract i w) DbOp.Decodes fun _ => True := decoding_grants i w
  have hread : ∀ op : DbOp, op.writesInclusions = false → op.Decodes := fun _ => DbOp.decodes_of_writesInclusions
  obtain ⟨inst, role⟩ := i
  cases hb with
  | @boot tracked _ =>
    have hop : (DbOp.processedTip tracked).Decodes := hread _ rfl
    refine (hg.statement hop s).seal fun r _ _ => ?_
    cases r <;> exact fun _ _ => trivial
  | @pass tracked last cursor _ =>
    have hscan : ∀ vs block roots (finalized : Bool),
        ((decoding spec net cfg owns).contract (inst, Role.live) w).Always
          (scanLiveAttestationsInSlot spec vs block roots finalized) fun _ => True :=
      fun vs block roots finalized => hg.scanLiveAttestationsInSlot_of spec vs block roots
        (fun _ _ _ _ _ => decodes_liveRow _ _ _) fun _ _ _ _ => trivial
    exact (hg.reconcilePass_of spec (fun _ _ => trivial) (fun _ _ hop => hread _ hop)
      (fun e vs => hg.seedLiveAttestationDuties_of e vs fun _ _ => decodes_seedRow _)
      (fun vs _ _ _ _ _ _ => hscan vs _ _ false)
      (fun checkpoint _ _ => hg.finalizeCollectedEvidence_of spec (fun _ hop => hread _ (DbOp.writesInclusions_of_reads hop))
        (fun _ => trivial) checkpoint fun vs _ _ _ _ => hscan vs _ _ true)
      (cfg inst) cursor s).seal fun r _ _ _ _ => trivial
  | @scan n _ epoch validators mode hv =>
    exact (hg.scanEpoch_of spec (fun _ _ hop => hread _ hop) mode
      (hg.processEpochAttestationDuties_of spec fun _ _ _ _ _ => decodes_denseRow _ _ _ _)
      (hg.processEpochAttestationDutiesSparse_of spec fun _ _ _ _ => decodes_sparseRow _ _ _) s).seal fun r _ _ _ _ => trivial
  | @refresh _ v a x =>
    have hop : (DbOp.upsertValidator v a x).Decodes := hread _ rfl
    exact (hg.statement hop s).seal fun r _ _ _ _ => trivial

theorem decoding_sound [DecidableEq κ] (J : Db → Prop)
    (hJ : ∀ now (op : DbOp) (db : Db), op.Decodes → J db → J (op.exec spec now db)) :
    (indexers spec net cfg owns).Sound (decoding spec net cfg owns) fun s => J s.1 where
  begins hi _ hb := ⟨hb.2.2 ▸ hi, begins_decoding hb.1 _, fun _ _ => trivial⟩
  acts := by
    rintro i w (q | op) s r s' hi hg ⟨hsem, -⟩
    · exact ⟨hsem.2 ▸ hi, fun _ _ => trivial⟩
    · rcases hsem with ⟨now, -, hdb⟩ | ⟨m, -, hdb⟩
      · exact ⟨hdb ▸ hJ now op s.1 hg hi, fun _ _ => trivial⟩
      · exact ⟨hdb ▸ hi, fun _ _ => trivial⟩
  finish _ _ := trivial
  restart _ _ := trivial
  idle _ _ := trivial

/-- In every run of the workers the included rows are decoded. -/
theorem reachable_decoded [DecidableEq κ] {past : net.Past} {c : Configuration κ net}
    (hr : (indexers spec net cfg owns).Reach (initial κ net past) c) : c.state.1.Decoded := by
  have hsound : (indexers spec net cfg owns).Sound (decoding spec net cfg owns) fun s => s.1.Decoded :=
    decoding_sound Db.Decoded fun _ _ _ ho h => h.exec ho
  exact (hsound.reach hr ⟨(fun k a ha => by cases ha), fun _ => trivial⟩).1

end Runs

/-! ## Counters that the views share -/

/-- What is counted of attestation duties. -/
inductive DutyCounter where
  | included
  | missed
  | correct (f : VoteFlag)
  deriving DecidableEq

/-- What is counted of sync duties. -/
inductive SyncCounter where
  | participated
  | missed
  deriving DecidableEq

/-- The duties a counter is about. -/
def DutyCounter.selects (a : AttestationRow) : DutyCounter → Bool
  | included => a.included
  | missed => !a.included && a.inclusionKnown
  | correct f => a.flag f == some true

/-- The sync duties a counter is about. -/
def SyncCounter.selects (d : SyncRow) : SyncCounter → Bool
  | participated => d.participated
  | missed => !d.participated

/-- A counter in the statistics of the database. -/
def DbStats.duties (s : DbStats) : DutyCounter → Nat
  | .included => s.attIncluded
  | .missed => s.attMissed
  | .correct .head => s.headOk
  | .correct .target => s.targetOk
  | .correct .source => s.sourceOk

/-- A sync counter there. -/
def DbStats.sync (s : DbStats) : SyncCounter → Nat
  | .participated => s.syncParticipated
  | .missed => s.syncMissed

/-- A counter in the summary of a validator. -/
def ValidatorSummary.duties (s : ValidatorSummary) : DutyCounter → Nat
  | .included => s.attIncluded
  | .missed => s.attMissed
  | .correct .head => s.headOk
  | .correct .target => s.targetOk
  | .correct .source => s.sourceOk

/-- A sync counter there. -/
def ValidatorSummary.sync (s : ValidatorSummary) : SyncCounter → Nat
  | .participated => s.syncParticipated
  | .missed => s.syncMissed

/-- A counter in the summary of an epoch. -/
def EpochSummaryRow.duties (s : EpochSummaryRow) : DutyCounter → Nat
  | .included => s.included
  | .missed => s.missed
  | .correct .head => s.headCorrect
  | .correct .target => s.targetCorrect
  | .correct .source => s.sourceCorrect

/-- A sync counter there. -/
def EpochSummaryRow.sync (s : EpochSummaryRow) : SyncCounter → Nat
  | .participated => s.syncParticipated
  | .missed => s.syncMissed

/-- The published rate of correct votes. -/
def Web.Stats.correctRate (s : Web.Stats) : VoteFlag → ℚ
  | .head => s.headCorrectRate
  | .target => s.targetCorrectRate
  | .source => s.sourceCorrectRate

/-- The published rate of a validator. -/
def Web.ValidatorSummary.correctRate (s : Web.ValidatorSummary) : VoteFlag → ℚ
  | .head => s.headCorrectRate
  | .target => s.targetCorrectRate
  | .source => s.sourceCorrectRate

namespace Db

variable (spec : ChainSpec) (db : Db)

/-- An epoch that has attestation rows. -/
def scanned (e : Nat) : Bool := db.attestationDuties.any fun (_, e') _ => e' == e

/-- The rows of the validators that are listed. -/
def ofListed : Db :=
  { db with
    attestationDuties := db.attestationDuties.deleteWhere fun (v, _) _ => !db.validators.has v
    syncDuties := db.syncDuties.deleteWhere fun (v, _) _ => !db.validators.has v }

/-- The rows of the epochs that have attestation rows. -/
def ofScanned : Db :=
  { db with
    attestationDuties := db.attestationDuties.deleteWhere fun (_, e) _ => !db.scanned e
    syncDuties := db.syncDuties.deleteWhere fun (_, s) _ => !db.scanned (spec.slotToEpoch s) }

/-- A page that holds the summary of every epoch, and the counts of all of them together. -/
def EpochsAgree (order : SortOrder) (limit : Nat) : Prop :=
  ∃ rows, listEpochSummariesPaginated spec db .default order limit 0 =
      some (.ok (rows, (fetchStats db).totalEpochsScanned)) ∧
    (∀ k, (rows.map (·.duties k)).sum = (fetchStats (db.ofScanned spec)).duties k) ∧
    ∀ k, (rows.map (·.sync k)).sum = (fetchStats (db.ofScanned spec)).sync k

/-- The aggregate views fit together. -/
structure ViewsAgree : Prop where
  stats : ∀ f, (fetchStats db).duties (.correct f) ≤ (fetchStats db).attDecided
  validators : ∀ s ∈ listValidatorSummaries db, ∀ f, s.duties (.correct f) ≤ s.attDecided
  statsRates : ∀ f, 0 ≤ (Web.getStats db).correctRate f ∧ (Web.getStats db).correctRate f ≤ 1
  validatorRates : ∀ s ∈ Web.getValidators db, ∀ f, 0 ≤ s.correctRate f ∧ s.correctRate f ≤ 1
  dutiesByValidator : ∀ k, ((listValidatorSummaries db).map (·.duties k)).sum = (fetchStats db.ofListed).duties k
  syncByValidator : ∀ k, ((listValidatorSummaries db).map (·.sync k)).sum = (fetchStats db.ofListed).sync k
  byEpoch : ∀ order limit, (fetchStats db).totalEpochsScanned ≤ limit → db.EpochsAgree spec order limit

/-- No row that the queries count differently, and no sum of rewards out of the range of BIGINT. -/
structure CountedAlike : Prop where
  votes : ∀ k a, db.attestationDuties.get k = some a → a.included = false → ∀ f, a.flag f ≠ some true
  blocks : ∀ v s d, db.syncDuties.get (v, s) = some d → d.missedBlock = true →
    db.validators.has v = false ∧ db.scanned (spec.slotToEpoch s) = false
  rewards : ∀ r ∈ db.attestationDuties.rows, r.2.TotalFits
  rewardSums : ∀ e, inBigint ((db.attestationDuties.rows.filter fun r => decide (r.1.2 = e)).map (·.2.exactTotal)).sum

end Db

/-! ## Sums over the listed validators -/

section Views

variable {spec : ChainSpec} {db : Db}

theorem fetchStats_duties (db : Db) (k : DutyCounter) :
    (fetchStats db).duties k = db.attestationDuties.rows.countP fun e => k.selects e.2 := by
  rcases k with _ | _ | f
  · rfl
  · rfl
  · cases f <;> rfl

theorem fetchStats_sync (db : Db) (k : SyncCounter) :
    (fetchStats db).sync k = db.syncDuties.rows.countP fun d => k.selects d.2 && !d.2.missedBlock := by
  cases k <;> rfl

theorem ofListed_duties (db : Db) : db.ofListed.attestationDuties.rows =
    db.attestationDuties.rows.filter fun e => db.validators.has e.1.1 := by
  simp [Db.ofListed, Table.rows_deleteWhere]

theorem ofListed_sync (db : Db) : db.ofListed.syncDuties.rows =
    db.syncDuties.rows.filter fun d => db.validators.has d.1.1 := by
  simp [Db.ofListed, Table.rows_deleteWhere]

theorem summary_duties {s : ValidatorSummary} (hs : s ∈ listValidatorSummaries db) (k : DutyCounter) :
    s.duties k = (db.attestationDuties.rows.filter fun e => decide (e.1.1 = s.validatorIndex)).countP
      fun e => k.selects e.2 := by
  obtain ⟨⟨v, row⟩, -, rfl⟩ := List.mem_map.1 hs
  rcases k with _ | _ | f
  · rfl
  · rfl
  · cases f <;> rfl

theorem summary_sync {s : ValidatorSummary} (hs : s ∈ listValidatorSummaries db) (k : SyncCounter) :
    s.sync k = (db.syncDuties.rows.filter fun d => decide (d.1.1 = s.validatorIndex)).countP fun d => k.selects d.2 := by
  obtain ⟨⟨v, row⟩, -, rfl⟩ := List.mem_map.1 hs
  cases k <;> rfl

theorem listed_indices (db : Db) :
    ((listValidatorSummaries db).map (·.validatorIndex)).Perm (db.validators.rows.map Prod.fst) := by
  unfold listValidatorSummaries
  rw [List.map_map]
  exact (List.perm_insertionSort _ _).map _

/-- The counts of the listed validators add up to the count over their rows. -/
theorem sum_listed {ρ : Type} (rows : List ρ) (key : ρ → Nat) (p : ρ → Bool) :
    ((listValidatorSummaries db).map fun s => (rows.filter fun r => decide (key r = s.validatorIndex)).countP p).sum =
      (rows.filter fun r => db.validators.has (key r)).countP p := by
  have hperm := listed_indices db
  have hsum := @Grouped.sum_countP _ _ _ key p rows _ (hperm.nodup_iff.2 db.validators.nodup)
  rw [List.map_map] at hsum
  refine hsum.trans ?_
  congr 2
  funext r
  rw [← Table.decide_mem_keys]
  exact decide_eq_decide.2 hperm.mem_iff

/-- Duties are counted alike for each validator and over all. -/
theorem duties_by_validator (db : Db) (k : DutyCounter) :
    ((listValidatorSummaries db).map (·.duties k)).sum = (fetchStats db.ofListed).duties k := by
  rw [List.map_congr_left fun s hs => summary_duties hs k, fetchStats_duties, ofListed_duties]
  exact sum_listed db.attestationDuties.rows (fun e => e.1.1) fun e => k.selects e.2

/-- Of some sync duties, those of slots without a block make the difference. -/
theorem sync_counts_iff {rows : List ((Nat × Nat) × SyncRow)} :
    (∀ k : SyncCounter, rows.countP (fun d => k.selects d.2) = rows.countP fun d => k.selects d.2 && !d.2.missedBlock) ↔
      ∀ d ∈ rows, d.2.missedBlock = false := by
  have hiff : ∀ k : SyncCounter,
      (rows.countP (fun d => k.selects d.2) = rows.countP fun d => k.selects d.2 && !d.2.missedBlock) ↔
        ∀ d ∈ rows, k.selects d.2 = true → (k.selects d.2 && !d.2.missedBlock) = true := fun k => by
    rw [eq_comm, Grouped.countP_eq_iff]
    exact fun d _ h => (Bool.and_eq_true_iff.1 h).1
  constructor
  · intro h d hd
    cases hp : d.2.participated with
    | true =>
      have := (hiff .participated).1 (h .participated) d hd hp
      simpa [SyncCounter.selects, hp] using this
    | false =>
      have := (hiff .missed).1 (h .missed) d hd (by simp [SyncCounter.selects, hp])
      simpa [SyncCounter.selects, hp] using this
  · intro h k
    refine (hiff k).2 fun d hd hk => ?_
    simp [hk, h d hd]

theorem sync_by_validator_iff (db : Db) :
    (∀ k, ((listValidatorSummaries db).map (·.sync k)).sum = (fetchStats db.ofListed).sync k) ↔
      ∀ v s d, db.syncDuties.get (v, s) = some d → db.validators.has v = true → d.missedBlock = false := by
  have hsum : ∀ k : SyncCounter, ((listValidatorSummaries db).map (·.sync k)).sum =
      (db.syncDuties.rows.filter fun d => db.validators.has d.1.1).countP fun d => k.selects d.2 := fun k => by
    rw [List.map_congr_left fun s hs => summary_sync hs k]
    exact sum_listed db.syncDuties.rows (fun d => d.1.1) fun d => k.selects d.2
  simp only [hsum, fetchStats_sync, ofListed_sync]
  rw [sync_counts_iff]
  constructor
  · exact fun h v s d hd hv => h ((v, s), d) (List.mem_filter.2 ⟨Table.mem_rows.2 hd, hv⟩)
  · rintro h ⟨⟨v, s⟩, d⟩ hd
    obtain ⟨hd, hv⟩ := List.mem_filter.1 hd
    exact h v s d (Table.mem_rows.1 hd) hv

/-! ## Sums over the epochs -/

theorem groupedEpochs_perm (order : SortOrder) (duties : List DutyEntry) :
    (groupedEpochs order duties).Perm (duties.map (·.1.2)).dedup := by
  cases order with
  | asc => exact List.perm_insertionSort _ _
  | desc => exact (List.reverse_perm _).trans (List.perm_insertionSort _ _)

/-- The row of an epoch, whatever the size of its rewards. -/
def exactSummary (spec : ChainSpec) (f : EpochFilter) (db : Db) (duties : List DutyEntry) (epoch : Nat) : EpochSummaryRow :=
  let att := duties.filter fun e => decide (e.1.2 = epoch)
  let sync := db.syncDuties.rows.filter fun d => f.owns d.1.1 && decide (spec.slotToEpoch d.1.2 = epoch)
  let proposals := db.blockProposals.rows.filter fun p =>
    f.owns p.2.proposerIndex && decide (spec.slotToEpoch p.1 = epoch)
  { epoch
    totalDuties := att.countP fun e => e.2.included || e.2.inclusionKnown
    included := att.countP (·.2.included)
    missed := att.countP fun e => !e.2.included && e.2.inclusionKnown
    headCorrect := att.countP fun e => e.2.headCorrect == some true && e.2.included
    targetCorrect := att.countP fun e => e.2.targetCorrect == some true && e.2.included
    sourceCorrect := att.countP fun e => e.2.sourceCorrect == some true && e.2.included
    totalReward := (att.map (·.2.exactTotal)).sum
    syncParticipated := sync.countP (·.2.participated)
    syncMissed := sync.countP (!·.2.participated)
    proposals := proposals.countP (·.2.proposed)
    proposalsMissed := proposals.countP (!·.2.proposed) }

theorem epochReward_ok_iff {att : List DutyEntry} {n : Int} : epochReward att = .ok n ↔
    (∀ e ∈ att, e.2.TotalFits) ∧ inBigint (att.map (·.2.exactTotal)).sum ∧ n = (att.map (·.2.exactTotal)).sum := by
  have hlist : ∀ {l : List Int}, List.Forall₂ (fun e n => n = AttestationRow.exactTotal (Prod.snd e)) att l ↔
      l = att.map fun e => e.2.exactTotal := by
    intro l
    rw [eq_comm, ← List.forall₂_eq_eq_eq, List.forall₂_map_left_iff]
    simp only [eq_comm]
  unfold epochReward
  simp only [except_bind_eq_ok, except_mapM_ok_iff, AttestationRow.rewardTotal_ok_iff, List.forall₂_and_left, hlist, bigint_eq_ok]
  constructor
  · rintro ⟨_, ⟨hfit, rfl⟩, hsum, rfl⟩
    exact ⟨hfit, hsum, rfl⟩
  · rintro ⟨hfit, hsum, rfl⟩
    exact ⟨_, ⟨hfit, rfl⟩, hsum, rfl⟩

theorem epochSummary_ok_iff {f : EpochFilter} {duties : List DutyEntry} {epoch : Nat} {s : EpochSummaryRow} :
    epochSummary spec f db duties epoch = .ok s ↔
      ((∀ e ∈ duties.filter fun e => decide (e.1.2 = epoch), e.2.TotalFits) ∧
        inBigint ((duties.filter fun e => decide (e.1.2 = epoch)).map (·.2.exactTotal)).sum) ∧
      s = exactSummary spec f db duties epoch := by
  unfold epochSummary
  rw [except_bind_eq_ok]
  constructor
  · rintro ⟨n, hn, hs⟩
    obtain ⟨hfit, hsum, rfl⟩ := epochReward_ok_iff.1 hn
    cases hs
    exact ⟨⟨hfit, hsum⟩, rfl⟩
  · rintro ⟨⟨hfit, hsum⟩, rfl⟩
    exact ⟨_, epochReward_ok_iff.2 ⟨hfit, hsum, rfl⟩, rfl⟩

/-- Without a filter every duty is selected. -/
theorem selectDuties_default (db : Db) :
    selectDuties EpochFilter.default.conditions EpochFilter.default.bindings db = some db.attestationDuties.rows := by
  have hflags : (db.attestationDuties.rows.mapM fun e =>
      (whereHolds EpochFilter.default.conditions EpochFilter.default.bindings e).map fun flag => (e, flag)) =
      some (db.attestationDuties.rows.map fun e => (e, true)) := by
    rw [Native.mapM_eq_some_iff, List.map_map]
    exact List.map_congr_left fun e _ => rfl
  unfold selectDuties
  rw [hflags, Option.map_some, List.filter_map, List.map_map]
  simp [Function.comp_def]

/-- The query over all epochs gives the exact summaries, or fails for a reward out of range. -/
theorem listEpochSummaries_ok_iff {order : SortOrder} {limit n : Nat} {rows : List EpochSummaryRow}
    (hlimit : (fetchStats db).totalEpochsScanned ≤ limit) :
    listEpochSummariesPaginated spec db .default order limit 0 = some (.ok (rows, n)) ↔
      ((∀ r ∈ db.attestationDuties.rows, r.2.TotalFits) ∧
        ∀ e, inBigint ((db.attestationDuties.rows.filter fun r => decide (r.1.2 = e)).map (·.2.exactTotal)).sum) ∧
      rows = (groupedEpochs order db.attestationDuties.rows).map
        (exactSummary spec .default db db.attestationDuties.rows) ∧
      n = (fetchStats db).totalEpochsScanned := by
  have hlength : (groupedEpochs order db.attestationDuties.rows).length = (fetchStats db).totalEpochsScanned :=
    (groupedEpochs_perm order _).length_eq
  have hlist : ∀ {l : List EpochSummaryRow}, List.Forall₂ (fun e s => s = exactSummary spec .default db db.attestationDuties.rows e)
      (groupedEpochs order db.attestationDuties.rows) l ↔
      l = (groupedEpochs order db.attestationDuties.rows).map (exactSummary spec .default db db.attestationDuties.rows) := by
    intro l
    rw [eq_comm, ← List.forall₂_eq_eq_eq, List.forall₂_map_left_iff]
    simp only [eq_comm]
  have hfits : (∀ e ∈ groupedEpochs order db.attestationDuties.rows,
      (∀ r ∈ db.attestationDuties.rows.filter fun r => decide (r.1.2 = e), r.2.TotalFits) ∧
        inBigint ((db.attestationDuties.rows.filter fun r => decide (r.1.2 = e)).map (·.2.exactTotal)).sum) ↔
      (∀ r ∈ db.attestationDuties.rows, r.2.TotalFits) ∧
        ∀ e, inBigint ((db.attestationDuties.rows.filter fun r => decide (r.1.2 = e)).map (·.2.exactTotal)).sum := by
    have hmem : ∀ e, e ∈ groupedEpochs order db.attestationDuties.rows ↔ ∃ r ∈ db.attestationDuties.rows, r.1.2 = e := by
      intro e
      rw [(groupedEpochs_perm order _).mem_iff, List.mem_dedup, List.mem_map]
    constructor
    · intro h
      refine ⟨fun r hr => (h r.1.2 ((hmem _).2 ⟨r, hr, rfl⟩)).1 r (List.mem_filter.2 ⟨hr, by simp⟩), fun e => ?_⟩
      by_cases he : e ∈ groupedEpochs order db.attestationDuties.rows
      · exact (h e he).2
      · -- no row, and so no reward
        rw [List.filter_eq_nil_iff.2 fun r hr heq => he ((hmem e).2 ⟨r, hr, by simpa using heq⟩)]
        decide
    · exact fun h e _ => ⟨fun r hr => h.1 r (List.mem_filter.1 hr).1, h.2 e⟩
  unfold listEpochSummariesPaginated
  rw [selectDuties_default]
  simp only [Option.bind_eq_bind, Option.bind_some, Option.some.injEq, Option.pure_def]
  rw [except_bind_eq_ok]
  simp only [except_mapM_ok_iff, epochSummary_ok_iff, List.forall₂_and_left, hlist, hfits]
  constructor
  · rintro ⟨l, ⟨hfit, rfl⟩, hpage⟩
    obtain ⟨rfl, rfl⟩ := Prod.mk.inj (Except.ok.inj hpage)
    refine ⟨hfit, ?_, hlength⟩
    rw [List.drop_zero, List.take_of_length_le (by rw [List.length_map, hlength]; exact hlimit)]
  · rintro ⟨hfit, rfl, rfl⟩
    refine ⟨_, ⟨hfit, rfl⟩, ?_⟩
    rw [List.drop_zero, List.take_of_length_le (by rw [List.length_map, hlength]; exact hlimit), hlength]
    rfl

theorem summary_of_epoch_duties (e : Nat) (k : DutyCounter) :
    (exactSummary spec .default db db.attestationDuties.rows e).duties k =
      (db.attestationDuties.rows.filter fun r => decide (r.1.2 = e)).countP fun r =>
        match k with
        | .correct _ => k.selects r.2 && r.2.included
        | _ => k.selects r.2 := by
  rcases k with _ | _ | f
  · rfl
  · rfl
  · cases f <;> rfl

theorem summary_of_epoch_sync (e : Nat) (k : SyncCounter) :
    (exactSummary spec .default db db.attestationDuties.rows e).sync k =
      (db.syncDuties.rows.filter fun d => decide (spec.slotToEpoch d.1.2 = e)).countP fun d => k.selects d.2 := by
  cases k <;> rfl

theorem scanned_iff {e : Nat} : db.scanned e = true ↔ ∃ r ∈ db.attestationDuties.rows, r.1.2 = e := by
  simp [Db.scanned, Table.any]

theorem mem_groupedEpochs {order : SortOrder} {e : Nat} :
    e ∈ groupedEpochs order db.attestationDuties.rows ↔ db.scanned e = true := by
  rw [(groupedEpochs_perm order _).mem_iff, List.mem_dedup, List.mem_map, scanned_iff]

/-- The counts of the scanned epochs add up to the count over their rows. -/
theorem sum_scanned {ρ : Type} (order : SortOrder) (rows : List ρ) (key : ρ → Nat) (p : ρ → Bool) :
    ((groupedEpochs order db.attestationDuties.rows).map fun e => (rows.filter fun r => decide (key r = e)).countP p).sum =
      (rows.filter fun r => db.scanned (key r)).countP p := by
  have hnodup := (groupedEpochs_perm order db.attestationDuties.rows).nodup_iff.2 (List.nodup_dedup _)
  rw [Grouped.sum_countP hnodup]
  simp only [mem_groupedEpochs, Bool.decide_eq_true]

theorem ofScanned_duties (spec : ChainSpec) (db : Db) :
    (db.ofScanned spec).attestationDuties.rows = db.attestationDuties.rows.filter fun e => db.scanned e.1.2 := by
  simp [Db.ofScanned, Table.rows_deleteWhere]

theorem ofScanned_sync (spec : ChainSpec) (db : Db) :
    (db.ofScanned spec).syncDuties.rows = db.syncDuties.rows.filter fun d => db.scanned (spec.slotToEpoch d.1.2) := by
  simp [Db.ofScanned, Table.rows_deleteWhere]

/-- Only correct votes are counted differently for an epoch. -/
theorem duties_by_epoch_iff (order : SortOrder) :
    (∀ k, (((groupedEpochs order db.attestationDuties.rows).map
        (exactSummary spec .default db db.attestationDuties.rows)).map (·.duties k)).sum =
      (fetchStats (db.ofScanned spec)).duties k) ↔
    ∀ k a, db.attestationDuties.get k = some a → a.included = false → ∀ f, a.flag f ≠ some true := by
  have hrows : (db.attestationDuties.rows.filter fun e => db.scanned e.1.2) = db.attestationDuties.rows :=
    List.filter_eq_self.2 fun e he => scanned_iff.2 ⟨e, he, rfl⟩
  simp only [List.map_map, Function.comp_def, summary_of_epoch_duties, sum_scanned, fetchStats_duties, ofScanned_duties, hrows]
  have hflag : ∀ f : VoteFlag, (db.attestationDuties.rows.countP (fun e =>
      DutyCounter.selects e.2 (.correct f) && e.2.included) =
        db.attestationDuties.rows.countP fun e => DutyCounter.selects e.2 (.correct f)) ↔
      ∀ e ∈ db.attestationDuties.rows, e.2.flag f = some true → e.2.included = true := by
    intro f
    rw [Grouped.countP_eq_iff fun e _ h => (Bool.and_eq_true_iff.1 h).1]
    refine forall₂_congr fun e _ => ?_
    simp only [DutyCounter.selects, beq_iff_eq, Bool.and_eq_true]
    exact ⟨fun h hf => (h hf).2, fun h hf => ⟨hf, h hf⟩⟩
  constructor
  · intro h k a ha hi f hf
    have := (hflag f).1 (h (.correct f)) (k, a) (Table.mem_rows.2 ha) hf
    rw [hi] at this
    cases this
  · intro h k
    rcases k with _ | _ | f
    · rfl
    · rfl
    · refine (hflag f).2 fun e he hf => ?_
      cases hi : e.2.included with
      | true => rfl
      | false => exact absurd hf (h e.1 e.2 (Table.mem_rows.1 he) hi f)

theorem sync_by_epoch_iff (order : SortOrder) :
    (∀ k, (((groupedEpochs order db.attestationDuties.rows).map
        (exactSummary spec .default db db.attestationDuties.rows)).map (·.sync k)).sum =
      (fetchStats (db.ofScanned spec)).sync k) ↔
    ∀ v s d, db.syncDuties.get (v, s) = some d → db.scanned (spec.slotToEpoch s) = true → d.missedBlock = false := by
  simp only [List.map_map, Function.comp_def, summary_of_epoch_sync, fetchStats_sync, ofScanned_sync]
  rw [forall_congr' fun k : SyncCounter => by
    rw [sum_scanned order db.syncDuties.rows (fun d => spec.slotToEpoch d.1.2) fun d => k.selects d.2]]
  rw [sync_counts_iff]
  constructor
  · exact fun h v s d hd hs => h ((v, s), d) (List.mem_filter.2 ⟨Table.mem_rows.2 hd, hs⟩)
  · rintro h ⟨⟨v, s⟩, d⟩ hd
    obtain ⟨hd, hs⟩ := List.mem_filter.1 hd
    exact h v s d (Table.mem_rows.1 hd) hs

theorem epochsAgree_iff {order : SortOrder} {limit : Nat} (hlimit : (fetchStats db).totalEpochsScanned ≤ limit) :
    db.EpochsAgree spec order limit ↔
      ((∀ r ∈ db.attestationDuties.rows, r.2.TotalFits) ∧
        ∀ e, inBigint ((db.attestationDuties.rows.filter fun r => decide (r.1.2 = e)).map (·.2.exactTotal)).sum) ∧
      (∀ k a, db.attestationDuties.get k = some a → a.included = false → ∀ f, a.flag f ≠ some true) ∧
      ∀ v s d, db.syncDuties.get (v, s) = some d → db.scanned (spec.slotToEpoch s) = true → d.missedBlock = false := by
  unfold Db.EpochsAgree
  simp only [listEpochSummaries_ok_iff hlimit]
  constructor
  · rintro ⟨_, ⟨hfit, rfl, -⟩, hduties, hsync⟩
    exact ⟨hfit, (duties_by_epoch_iff order).1 hduties, (sync_by_epoch_iff order).1 hsync⟩
  · rintro ⟨hfit, hvotes, hblocks⟩
    exact ⟨_, ⟨hfit, rfl, trivial⟩, (duties_by_epoch_iff order).2 hvotes, (sync_by_epoch_iff order).2 hblocks⟩

/-! ## Rates -/

theorem ratio_bounds {num denom : Nat} (h : num ≤ denom) : 0 ≤ ratio num denom ∧ ratio num denom ≤ 1 := by
  unfold ratio
  split
  · rename_i hpos
    have hcast : (0 : ℚ) < denom := Nat.cast_pos.2 hpos
    exact ⟨by positivity, (div_le_one hcast).2 (Nat.cast_le.2 h)⟩
  · exact ⟨le_rfl, zero_le_one⟩

theorem correctRate_stats (db : Db) (f : VoteFlag) :
    (Web.getStats db).correctRate f = ratio ((fetchStats db).duties (.correct f)) (fetchStats db).attDecided := by
  cases f <;> rfl

theorem correctRate_validators {s : Web.ValidatorSummary} (hs : s ∈ Web.getValidators db) :
    ∃ r ∈ listValidatorSummaries db, ∀ f, s.correctRate f = ratio (r.duties (.correct f)) r.attDecided := by
  obtain ⟨r, hr, rfl⟩ := List.mem_map.1 hs
  exact ⟨r, hr, fun f => by cases f <;> rfl⟩

/-- Among decoded rows without a stray vote, the correct votes are decided ones. -/
theorem correct_le_decided {rows : List DutyEntry} (hrows : ∀ e ∈ rows, db.attestationDuties.get e.1 = some e.2)
    (hdecoded : db.Decoded)
    (hvotes : ∀ k a, db.attestationDuties.get k = some a → a.included = false → ∀ f, a.flag f ≠ some true) (f : VoteFlag) :
    rows.countP (fun e => DutyCounter.selects e.2 (.correct f)) ≤
      rows.countP fun e => e.2.included && e.2.sourceCorrect.isSome := by
  refine List.countP_mono_left fun e he hf => ?_
  have hget := hrows e he
  cases hi : e.2.included with
  | true =>
    have hsource : e.2.sourceCorrect.isSome = true := hdecoded e.1 e.2 hget hi .source
    simp [hsource]
  | false => exact absurd (by simpa [DutyCounter.selects] using hf) (hvotes e.1 e.2 hget hi f)

/-- The views of decoded rows fit together exactly if no row is counted differently. -/
theorem Db.Decoded.viewsAgree_iff (hdecoded : db.Decoded) : db.ViewsAgree spec ↔ db.CountedAlike spec := by
  constructor
  · intro h
    obtain ⟨⟨hfit, hsums⟩, hvotes, hblocks⟩ := (epochsAgree_iff le_rfl).1 (h.byEpoch .asc _ le_rfl)
    have hlisted := (sync_by_validator_iff db).1 h.syncByValidator
    refine ⟨hvotes, fun v s d hd hmissed => ⟨?_, ?_⟩, hfit, hsums⟩
    · rw [← Bool.not_eq_true]
      intro hv
      rw [hlisted v s d hd hv] at hmissed
      cases hmissed
    · rw [← Bool.not_eq_true]
      intro hs
      rw [hblocks v s d hd hs] at hmissed
      cases hmissed
  · intro h
    have hstats : ∀ f, (fetchStats db).duties (.correct f) ≤ (fetchStats db).attDecided := fun f => by
      rw [fetchStats_duties]
      exact correct_le_decided (fun e he => Table.mem_rows.1 he) hdecoded h.votes f
    have hvalidators : ∀ s ∈ listValidatorSummaries db, ∀ f, s.duties (.correct f) ≤ s.attDecided := fun s hs f => by
      rw [summary_duties hs]
      obtain ⟨⟨v, row⟩, -, rfl⟩ := List.mem_map.1 hs
      exact correct_le_decided (fun e he => Table.mem_rows.1 (List.mem_filter.1 he).1) hdecoded h.votes f
    refine ⟨hstats, hvalidators, fun f => ?_, fun s hs f => ?_, duties_by_validator db, ?_, fun order limit hlimit => ?_⟩
    · rw [correctRate_stats]
      exact ratio_bounds (hstats f)
    · obtain ⟨r, hr, hrate⟩ := correctRate_validators hs
      rw [hrate]
      exact ratio_bounds (hvalidators r hr f)
    · refine (sync_by_validator_iff db).2 fun v s d hd hv => ?_
      rw [← Bool.not_eq_true]
      intro hmissed
      rw [(h.blocks v s d hd hmissed).1] at hv
      cases hv
    · refine (epochsAgree_iff hlimit).2 ⟨⟨h.rewards, h.rewardSums⟩, h.votes, fun v s d hd hs => ?_⟩
      rw [← Bool.not_eq_true]
      intro hmissed
      rw [(h.blocks v s d hd hmissed).2] at hs
      cases hs

end Views

section Runs

variable {κ : Type} [DecidableEq κ] {spec : ChainSpec} {net : Network} {cfg : κ → LiveConfig spec} {owns : κ → List Nat → Prop}

/-- In every state that the workers reach, the views agree exactly if no row is counted differently: a correct vote
without an inclusion is counted over all rows and for its validator but not for its epoch, and a sync duty of a slot
without a block for its validator and its epoch but not over all rows. -/
theorem views_agree_iff {past : net.Past} {c : Configuration κ net}
    (hr : (indexers spec net cfg owns).Reach (initial κ net past) c) :
    c.state.1.ViewsAgree spec ↔ c.state.1.CountedAlike spec :=
  (reachable_decoded hr).viewsAgree_iff

end Runs

/-- The sparse scan of an epoch has written the row of a missed duty. -/
theorem views_agree_after_miss : ∃ c : Configuration Unit reportedDelayNet,
    (indexers unitEpochs reportedDelayNet (fun _ => lagTwoUnits) fun _ _ => True).Reach (initial Unit reportedDelayNet ()) c ∧
    c.state.1.attestationDuties.has (7, 0) = true ∧ c.state.1.ViewsAgree unitEpochs := by
  obtain ⟨c, hr, hdb⟩ := reportedDelay_reach lagTwoUnits
  have hrows : c.state.1.attestationDuties.rows = [((7, 0), reportedDelayRow.toRow)] := by
    rw [hdb]
    rfl
  refine ⟨c, hr, by rw [hdb]; rfl, (views_agree_iff hr).2 ⟨?_, ?_, ?_, ?_⟩⟩
  · intro k a ha _ f hf
    have hmem := Table.mem_rows.2 ha
    rw [hrows] at hmem
    obtain ⟨-, rfl⟩ := Prod.mk.inj (List.mem_singleton.1 hmem)
    cases f <;> cases hf
  · intro v s d hd
    rw [hdb] at hd
    cases hd
  · rw [hrows]
    decide
  · intro e
    rw [hrows]
    by_cases he : 0 = e
    · subst he
      decide
    · rw [List.filter_cons_of_neg (by simpa using he), List.filter_nil]
      decide

/-! ## A rewarded vote whose inclusion was not read -/

/-- The worker collects up to the head. -/
def lagless : LiveConfig unitEpochs := ⟨0, 2, by decide, by decide⟩

/-- The block of slot 3 carries the vote of validator 7 for slot 2. -/
def voteAtThree : Ledger unitEpochs :=
  .ofBlocks (.ofList [(⟨100⟩, bareBlock 0 ⟨0⟩), (⟨101⟩, bareBlock 1 ⟨100⟩), (⟨102⟩, bareBlock 2 ⟨101⟩),
    (⟨103⟩, ⟨3, 0, ⟨102⟩, ⟨0⟩, .phase0 [⟨['0', 'x', '0', '3'], ⟨2, 0, ⟨102⟩, ⟨1, ⟨101⟩⟩, ⟨2, ⟨102⟩⟩⟩⟩]⟩),
    (⟨104⟩, bareBlock 4 ⟨103⟩)]) (by decide) (fun e => [⟨0, e, [7]⟩]) fun _ => 0

/-- The chain up to slot 2. -/
def seenAtTwo : View voteAtThree := ⟨⟨102⟩, ⟨_, rfl⟩, ⟨0, ⟨100⟩⟩, by decide +kernel, by decide⟩

/-- The chain up to slot 4. -/
def seenAtFour : View voteAtThree := ⟨⟨104⟩, ⟨_, rfl⟩, ⟨0, ⟨100⟩⟩, by decide +kernel, by decide⟩

/-- The node has lost the committees. -/
def withoutCommittees (V : View voteAtThree) : Turn voteAtThree Unit :=
  ⟨[7], V, fun q => match q with | .committees _ => false | _ => true, ()⟩

/-- Any view of the ledger may follow any other. -/
abbrev anySight (_ : Unit) (_ : View voteAtThree) (_ : Unit) : Prop := True

/-- Instances of that worker on any views of the ledger. -/
abbrev laglessIndexer : System indexer (Unit × Role) (View voteAtThree) Memory (Db × Unit) :=
  indexers unitEpochs (voteAtThree.network Unit anySight) (fun _ => lagless) fun _ _ => True

/-- The passes at slots 2 and 4. The second cannot read the vote in slot 3, but it joins the rewards of epoch 2: one
correct head vote is counted, and no duty is decided. -/
theorem rewarded_vote_undecided : ∃ c : Configuration Unit (voteAtThree.network Unit anySight),
    laglessIndexer.Reach (initial Unit (voteAtThree.network Unit anySight) ()) c ∧
    (fetchStats c.state.1).headOk = 1 ∧ (fetchStats c.state.1).attDecided = 0 ∧ ¬c.state.1.ViewsAgree unitEpochs := by
  have hplay : (([withoutCommittees seenAtTwo, withoutCommittees seenAtTwo].foldlM
      (Turn.play anySight lagless (fun _ _ => true) 100) sevenRegistered).bind fun x =>
        (withoutCommittees seenAtFour).proceed anySight lagless (fun _ _ => true) 100 x).any
      (fun y => (fetchStats y.2.1).headOk == 1 && (fetchStats y.2.1).attDecided == 0) = true := by decide +kernel
  obtain ⟨⟨prog, s⟩, hy, hcheck⟩ := (Option.any_eq_true _ _).1 hplay
  simp only [Bool.and_eq_true, beq_iff_eq] at hcheck
  obtain ⟨hhead, hdecided⟩ := hcheck
  have hhosts : Turn.Hosts laglessIndexer fun _ _ => true := Turn.hosts_indexers _ _
  have hopens : Turn.Opens laglessIndexer anySight lagless := Turn.opens_indexers fun _ => lagless
  have hmeta : laglessIndexer.Reach _ _ := reach_registered seenAtTwo () ⟨.refresh, trivial, rfl⟩
    ⟨Or.inl ⟨0, rfl, rfl⟩, rfl⟩
  have hreach := hmeta.trans (Turn.reach_turns (x := sevenRegistered) hhosts hopens _ rfl rfl hy)
  refine ⟨_, hreach, hhead, hdecided, fun h => ?_⟩
  have hle : (fetchStats s.1).headOk ≤ (fetchStats s.1).attDecided := h.stats .head
  rw [hhead, hdecided] at hle
  cases hle

end BeaconIndexer
