/-
What a rollback deletes and what it keeps: the evidence that may depend on the orphaned suffix goes,
finalized and completed data stay, and the cursor returns to before everything deleted.
-/
import BeaconIndexer.Db.Run
import BeaconIndexer.Live.Reconcile

namespace BeaconIndexer

open Effects Relational

variable {spec : ChainSpec}

/-- The job was queued for the block or its answer was computed on it. -/
def JobRow.DependsOn (row : JobRow) (r : Root) : Prop := row.root = some r ∨ row.dependency = some r

/-- Evidence is keyed by the slots it depends on. `slotOf` is the slot of a block root; a row holds an
inclusion slot when it is included. -/
structure Db.Keyed (spec : ChainSpec) (slotOf : Root → Nat) (db : Db) : Prop where
  inclusion : ∀ {v e a s}, db.attestationDuties.get (v, e) = some a → a.inclusionSlot = some s →
    spec.slotToEpoch s = e ∨ spec.slotToEpoch s = e + 1
  epochJob : ∀ {j row r}, db.liveJobs.get j = some row → j.slot = none → row.DependsOn r →
    slotOf r < spec.epochStartSlot (j.epoch + 2)
  blockJob : ∀ {j row s}, db.liveJobs.get j = some row → j.slot = some s →
    spec.slotToEpoch s = j.epoch ∧ ∀ r, row.DependsOn r → slotOf r = s

/-- The stored block or somebody's coverage at the slot was deleted. -/
def DeletedAt (db db' : Db) (s : Nat) : Prop :=
  db'.liveBlocks.get s ≠ db.liveBlocks.get s ∨ ∃ v, db'.covered v s ≠ db.covered v s

/-- Nothing unfinalized depends on a slot from `c` on. -/
structure Orphaned (slotOf : Root → Nat) (c : Nat) (db : Db) : Prop where
  attestations : ∀ k a s, db.attestationDuties.get k = some a → a.finalized = false → a.inclusionSlot = some s → s < c
  proposals : ∀ s d, db.blockProposals.get s = some d → d.finalized = false → s < c
  sync : ∀ v s d, db.syncDuties.get (v, s) = some d → d.finalized = false → s < c
  blocks : ∀ s b, db.liveBlocks.get s = some b → s < c
  coverage : ∀ v s, db.covered v s = true → s < c
  jobs : ∀ j row, db.liveJobs.get j = some row → db.completed j.validator j.epoch = false →
    (∀ s, j.slot = some s → s < c) ∧ ∀ r, row.DependsOn r → slotOf r < c

/-- Every finalized row, every job of a completed pair and every row of an epoch more than one before
the one of `c` is as it was, and nothing is new. -/
structure Untouched (spec : ChainSpec) (c : Nat) (db db' : Db) : Prop where
  attestations : ∀ k a, db.attestationDuties.get k = some a →
    a.finalized = true ∨ k.2 + 1 < spec.slotToEpoch c → db'.attestationDuties.get k = some a
  proposals : ∀ s d, db.blockProposals.get s = some d →
    d.finalized = true ∨ spec.slotToEpoch s + 1 < spec.slotToEpoch c → db'.blockProposals.get s = some d
  sync : ∀ v s d, db.syncDuties.get (v, s) = some d →
    d.finalized = true ∨ spec.slotToEpoch s + 1 < spec.slotToEpoch c → db'.syncDuties.get (v, s) = some d
  jobs : ∀ j row, db.liveJobs.get j = some row →
    db.completed j.validator j.epoch = true ∨ j.epoch + 1 < spec.slotToEpoch c → db'.liveJobs.get j = some row
  blocks : ∀ s b, db.liveBlocks.get s = some b → spec.slotToEpoch s + 1 < spec.slotToEpoch c →
    db'.liveBlocks.get s = some b
  coverage : ∀ v s, db.covered v s = true → spec.slotToEpoch s + 1 < spec.slotToEpoch c → db'.covered v s = true
  others : db'.validators = db.validators ∧ db'.completedScans = db.completedScans ∧
    db'.liveTrackingStart = db.liveTrackingStart ∧ db'.liveGaps = db.liveGaps
  noneNew : (∀ k a, db'.attestationDuties.get k = some a → db.attestationDuties.get k = some a) ∧
    (∀ s d, db'.blockProposals.get s = some d → db.blockProposals.get s = some d) ∧
    (∀ k d, db'.syncDuties.get k = some d → db.syncDuties.get k = some d) ∧
    (∀ j row, db'.liveJobs.get j = some row → db.liveJobs.get j = some row) ∧
    (∀ s b, db'.liveBlocks.get s = some b → db.liveBlocks.get s = some b) ∧
    ∀ v s, db'.covered v s = true → db.covered v s = true

/-- Every deleted slot is after the cursor and counts as missing for whoever is tracked. -/
structure Replays (db db' : Db) (cursor : Cursor) : Prop where
  after : ∀ s, DeletedAt db db' s → ∀ last, cursor = some last → last < s
  start_le : ∀ s, DeletedAt db db' s → (cursor.map (· + 1)).getD 0 ≤ s
  missing : ∀ s, DeletedAt db db' s → ∀ vs, vs ≠ [] → db'.coverageCount vs s < vs.length

/-! ## The replay start -/

theorem slotToEpoch_reorgReplayStart (c : Nat) :
    spec.slotToEpoch (reorgReplayStart spec c) = spec.slotToEpoch c - 1 :=
  spec.slotToEpoch_epochStartSlot _

theorem reorgReplayStart_le (c : Nat) : reorgReplayStart spec c ≤ c :=
  le_trans (spec.epochStartSlot_mono (Nat.sub_le _ _)) (spec.epochStartSlot_slotToEpoch_le c)

/-- A slot before the replay start is more than one epoch before `c`. -/
theorem lt_reorgReplayStart_iff {c s : Nat} :
    s < reorgReplayStart spec c ↔ spec.slotToEpoch s + 1 < spec.slotToEpoch c := by
  unfold reorgReplayStart
  rw [← spec.slotToEpoch_lt_iff]
  omega

/-! ## Invalidation -/

section Invalidate

variable (db : Db) (r : Nat)

theorem Db.invalidateFrom_attestations {k : Nat × Nat} {a : AttestationRow} :
    (db.invalidateFrom spec r).attestationDuties.get k = some a ↔
      db.attestationDuties.get k = some a ∧ (a.finalized = true ∨ k.2 < spec.slotToEpoch r) := by
  change (db.attestationDuties.deleteWhere _).get k = some a ↔ _
  rw [Table.get_deleteWhere, Option.filter_eq_some_iff]
  apply and_congr_right
  intro _
  cases a.finalized <;> simp

theorem Db.invalidateFrom_proposals {s : Nat} {d : ProposalRow} :
    (db.invalidateFrom spec r).blockProposals.get s = some d ↔
      db.blockProposals.get s = some d ∧ (d.finalized = true ∨ s < r) := by
  change (db.blockProposals.deleteWhere _).get s = some d ↔ _
  rw [Table.get_deleteWhere, Option.filter_eq_some_iff]
  apply and_congr_right
  intro _
  cases d.finalized <;> simp

theorem Db.invalidateFrom_sync {v s : Nat} {d : SyncRow} :
    (db.invalidateFrom spec r).syncDuties.get (v, s) = some d ↔
      db.syncDuties.get (v, s) = some d ∧ (d.finalized = true ∨ s < r) := by
  change (db.syncDuties.deleteWhere _).get (v, s) = some d ↔ _
  rw [Table.get_deleteWhere, Option.filter_eq_some_iff]
  apply and_congr_right
  intro _
  cases d.finalized <;> simp

theorem Db.invalidateFrom_jobs {j : JobKey} {row : JobRow} :
    (db.invalidateFrom spec r).liveJobs.get j = some row ↔
      db.liveJobs.get j = some row ∧ (db.completed j.validator j.epoch = true ∨ j.epoch < spec.slotToEpoch r) := by
  change (db.liveJobs.deleteWhere _).get j = some row ↔ _
  rw [Table.get_deleteWhere, Option.filter_eq_some_iff]
  apply and_congr_right
  intro _
  cases db.completed j.validator j.epoch <;> simp

theorem Db.invalidateFrom_blocks {s : Nat} {b : LiveBlockRow} :
    (db.invalidateFrom spec r).liveBlocks.get s = some b ↔ db.liveBlocks.get s = some b ∧ s < r := by
  change (db.liveBlocks.deleteWhere _).get s = some b ↔ _
  rw [Table.get_deleteWhere, Option.filter_eq_some_iff]
  simp

theorem Db.invalidateFrom_covered {v s : Nat} :
    (db.invalidateFrom spec r).covered v s = true ↔ db.covered v s = true ∧ s < r := by
  rw [Db.covered_iff, Db.covered_iff]
  change (db.liveCoverage.deleteWhere _).get (v, s) = some () ↔ _
  rw [Table.get_deleteWhere, Option.filter_eq_some_iff]
  simp

end Invalidate

/-- Without coverage a slot is missing for any list of validators. -/
theorem Db.coverageCount_eq_zero {db : Db} {s : Nat} (h : ∀ v, db.covered v s = false) (vs : List Nat) :
    db.coverageCount vs s = 0 := by
  unfold coverageCount
  rw [List.length_eq_zero_iff, List.eq_nil_iff_forall_not_mem]
  rintro ⟨⟨v, s'⟩, u⟩ hmem
  obtain ⟨hget, hp⟩ := Table.mem_select.1 hmem
  rw [Bool.and_eq_true, beq_iff_eq] at hp
  obtain rfl := hp.2
  have := Table.has_eq_false.1 (h v)
  rw [hget] at this
  cases this

/-! ## Rollback -/

/-- A finished rollback has run its one statement and moved the cursor. -/
theorem rollback_exec {node : (q : Request) → Except Error q.Answer → Prop} {c : Nat} {cursor cursor' : Cursor}
    {db db' : Db} (h : Exec (indexerSem spec node) ((rollback spec c).start cursor) db (.ok (), cursor') db') :
    db' = db.invalidateFrom spec (reorgReplayStart spec c) ∧
      cursor' = if reorgReplayStart spec c = 0 then none else some (reorgReplayStart spec c - 1) := by
  unfold rollback at h
  rw [Session.start_bind] at h
  obtain ⟨⟨res, m⟩, db₁, h1, h2⟩ := Exec.bind_iff.1 h
  change Exec (indexerSem spec node)
    (.call (.db (.invalidateFrom (reorgReplayStart spec c))) fun r => .pure (r, cursor)) db (res, m) db₁ at h1
  obtain ⟨r, db₂, hs, hrest⟩ := Exec.call_iff.1 h1
  clear h1
  rcases hs with ⟨now, rfl, rfl⟩ | ⟨message, rfl, rfl⟩
  · obtain ⟨hres, rfl⟩ := Exec.pure_iff.1 hrest
    obtain ⟨rfl, rfl⟩ := Prod.mk.inj hres
    obtain ⟨hres, rfl⟩ := Exec.pure_iff.1 h2
    exact ⟨rfl, (Prod.mk.inj hres).2⟩
  · obtain ⟨hres, rfl⟩ := Exec.pure_iff.1 hrest
    obtain ⟨rfl, rfl⟩ := Prod.mk.inj hres
    obtain ⟨hres, -⟩ := Exec.pure_iff.1 h2
    cases (Prod.mk.inj hres).1

theorem invalidateFrom_orphaned {slotOf : Root → Nat} {db : Db} (hk : db.Keyed spec slotOf) (c : Nat) :
    Orphaned slotOf c (db.invalidateFrom spec (reorgReplayStart spec c)) := by
  have hle : reorgReplayStart spec c ≤ c := reorgReplayStart_le c
  -- what survives of an epoch is so early that the inclusions and rewards of the next one are before `c`
  have hepoch : ∀ {e s : Nat}, e < spec.slotToEpoch (reorgReplayStart spec c) → s < spec.epochStartSlot (e + 2) →
      s < c := by
    intro e s he hs
    rw [slotToEpoch_reorgReplayStart] at he
    have : spec.epochStartSlot (e + 2) ≤ c := spec.le_slotToEpoch_iff.1 (by omega)
    omega
  constructor
  · rintro ⟨v, e⟩ a s hget hf hs
    obtain ⟨hget, hor⟩ := (db.invalidateFrom_attestations _).1 hget
    rw [hf] at hor
    rcases hor with h | he
    · cases h
    · have hin := hk.inclusion hget hs
      exact hepoch he (spec.slotToEpoch_lt_iff.1 (by omega))
  · intro s d hget hf
    obtain ⟨-, hor⟩ := (db.invalidateFrom_proposals _).1 hget
    rw [hf] at hor
    rcases hor with h | h
    · cases h
    · omega
  · intro v s d hget hf
    obtain ⟨-, hor⟩ := (db.invalidateFrom_sync _).1 hget
    rw [hf] at hor
    rcases hor with h | h
    · cases h
    · omega
  · intro s b hget
    have := ((db.invalidateFrom_blocks _).1 hget).2
    omega
  · intro v s hcov
    have := ((db.invalidateFrom_covered _).1 hcov).2
    omega
  · intro j row hget hn
    obtain ⟨hget, hor⟩ := (db.invalidateFrom_jobs _).1 hget
    have hn : db.completed j.validator j.epoch = false := hn
    rw [hn] at hor
    rcases hor with h | he
    · cases h
    · constructor
      · intro s hs
        have hse := (hk.blockJob hget hs).1
        exact hepoch he (spec.slotToEpoch_lt_iff.1 (by omega))
      · intro r hr
        cases hslot : j.slot with
        | none => exact hepoch he (hk.epochJob hget hslot hr)
        | some s =>
          obtain ⟨hse, hroot⟩ := hk.blockJob hget hslot
          rw [hroot r hr]
          exact hepoch he (spec.slotToEpoch_lt_iff.1 (by omega))

theorem invalidateFrom_untouched (db : Db) (c : Nat) :
    Untouched spec c db (db.invalidateFrom spec (reorgReplayStart spec c)) := by
  constructor
  · intro k a hget hor
    refine (db.invalidateFrom_attestations _).2 ⟨hget, hor.imp_right fun h => ?_⟩
    rw [slotToEpoch_reorgReplayStart]
    omega
  · intro s d hget hor
    exact (db.invalidateFrom_proposals _).2 ⟨hget, hor.imp_right lt_reorgReplayStart_iff.2⟩
  · intro v s d hget hor
    exact (db.invalidateFrom_sync _).2 ⟨hget, hor.imp_right lt_reorgReplayStart_iff.2⟩
  · intro j row hget hor
    refine (db.invalidateFrom_jobs _).2 ⟨hget, hor.imp_right fun h => ?_⟩
    rw [slotToEpoch_reorgReplayStart]
    omega
  · intro s b hget h
    exact (db.invalidateFrom_blocks _).2 ⟨hget, lt_reorgReplayStart_iff.2 h⟩
  · intro v s hcov h
    exact (db.invalidateFrom_covered _).2 ⟨hcov, lt_reorgReplayStart_iff.2 h⟩
  · exact ⟨rfl, rfl, rfl, rfl⟩
  · exact ⟨fun _ _ h => ((db.invalidateFrom_attestations _).1 h).1, fun _ _ h => ((db.invalidateFrom_proposals _).1 h).1,
      fun _ _ h => ((db.invalidateFrom_sync _).1 h).1, fun _ _ h => ((db.invalidateFrom_jobs _).1 h).1,
      fun _ _ h => ((db.invalidateFrom_blocks _).1 h).1, fun _ _ h => ((db.invalidateFrom_covered _).1 h).1⟩

theorem DeletedAt.replayed {db : Db} {c s : Nat}
    (h : DeletedAt db (db.invalidateFrom spec (reorgReplayStart spec c)) s) : reorgReplayStart spec c ≤ s := by
  by_contra hle
  have hlt : s < reorgReplayStart spec c := Nat.lt_of_not_le hle
  rcases h with h | ⟨v, h⟩
  · apply h
    apply Option.ext
    intro b
    rw [db.invalidateFrom_blocks]
    exact and_iff_left hlt
  · apply h
    rw [Bool.eq_iff_iff, db.invalidateFrom_covered]
    exact and_iff_left hlt

theorem invalidateFrom_replays (db : Db) (c : Nat) :
    Replays db (db.invalidateFrom spec (reorgReplayStart spec c))
      (if reorgReplayStart spec c = 0 then none else some (reorgReplayStart spec c - 1)) := by
  constructor
  · intro s hs last hlast
    have := hs.replayed
    split at hlast
    · cases hlast
    · cases hlast; omega
  · intro s hs
    have := hs.replayed
    split
    · exact Nat.zero_le s
    · simp only [Option.map_some, Option.getD_some]; omega
  · intro s hs vs hvs
    have hle := hs.replayed
    rw [Db.coverageCount_eq_zero]
    · exact List.length_pos_of_ne_nil hvs
    · intro v
      rw [← Bool.not_eq_true, db.invalidateFrom_covered]
      rintro ⟨-, hlt⟩
      omega

/-- A rollback to the first changed slot removes everything unfinalized that depends on that slot or a
later one, nothing finalized, completed or older, and resumes before all it removed. -/
theorem rollback_removes_orphaned {node : (q : Request) → Except Error q.Answer → Prop} {slotOf : Root → Nat} {db db' : Db}
    (hk : db.Keyed spec slotOf) (c : Nat) {cursor cursor' : Cursor}
    (h : Exec (indexerSem spec node) ((rollback spec c).start cursor) db (.ok (), cursor') db') :
    Orphaned slotOf c db' ∧ Untouched spec c db db' ∧ Replays db db' cursor' := by
  obtain ⟨rfl, rfl⟩ := rollback_exec h
  exact ⟨invalidateFrom_orphaned hk c, invalidateFrom_untouched db c, invalidateFrom_replays db c⟩

/-- Four slots an epoch: a vote of epoch 3 included at slot 14, whose block and reward job are stored. -/
def fourSlots : ChainSpec := ⟨4, 2, 8, 0, by decide⟩

def orphanedVote : AttestationRow :=
  ⟨13, 0, 0, true, some 14, some 1, some 0, some true, some true, some true, none, none, none, none, false, false⟩

def orphanedJob : JobKey := ⟨1, 3, some 14, .proposalRewards⟩

def orphanedDb : Db :=
  { Db.empty with
    attestationDuties := Table.empty.put (1, 3) orphanedVote
    liveBlocks := Table.empty.put 14 ⟨⟨14⟩, ⟨13⟩⟩
    liveJobs := Table.empty.put orphanedJob ⟨some ⟨14⟩, none, .pending, 0, 0, none, none⟩ }

theorem orphanedDb_keyed : orphanedDb.Keyed fourSlots Root.value := by
  constructor
  · intro v e a s hget hs
    change (Table.empty.put (1, 3) orphanedVote).get (v, e) = some a at hget
    rw [Table.get_put] at hget
    split at hget
    · rename_i hk
      obtain ⟨rfl, rfl⟩ := Prod.mk.inj hk
      cases hget
      cases hs
      exact .inl rfl
    · cases hget
  · intro j row r hget hslot
    change (Table.empty.put orphanedJob _).get j = some row at hget
    rw [Table.get_put] at hget
    split at hget
    · rename_i hk
      subst hk; cases hslot
    · cases hget
  · intro j row s hget hslot
    change (Table.empty.put orphanedJob _).get j = some row at hget
    rw [Table.get_put] at hget
    split at hget
    · rename_i hk
      subst hk
      cases hslot
      cases hget
      refine ⟨rfl, fun r hr => ?_⟩
      rcases hr with hr | hr
      · cases hr; rfl
      · cases hr
    · cases hget

theorem rollback_removes_orphaned_fourSlots :
    Orphaned Root.value 14 (orphanedDb.invalidateFrom fourSlots 8) ∧
      Untouched fourSlots 14 orphanedDb (orphanedDb.invalidateFrom fourSlots 8) ∧
      Replays orphanedDb (orphanedDb.invalidateFrom fourSlots 8) (some 7) :=
  rollback_removes_orphaned orphanedDb_keyed 14
    (show Exec (indexerSem fourSlots fun _ _ => True) ((rollback fourSlots 14).start (some 15)) orphanedDb
      (.ok (), some 7) (orphanedDb.invalidateFrom fourSlots 8) from .step (.inl ⟨0, rfl, rfl⟩) (.done _ _))

end BeaconIndexer
