/-
Validator metadata (`src/validators_update.rs`): the epochs of the beacon state as the validators
table stores them, and the active sets read back from it.
-/
import BeaconIndexer.Db.Run
import BeaconIndexer.Live.Head

namespace BeaconIndexer

open Effects Relational

def getValidators (indices : List Nat) : Task (List ValidatorData) := request (.headValidators indices)

/-- FAR_FUTURE_EPOCH collapses to NULL, the storage form of "still active". -/
def storedExit (v : ValidatorData) : Option Int :=
  if v.exitEpoch.toNat = 2 ^ 64 - 1 then none else some (asI64 v.exitEpoch.toNat)

def storeValidator (v : ValidatorData) : Task Unit :=
  statement (.upsertValidator v.index (asI64 v.activationEpoch.toNat) (storedExit v))

/-- Fetch the current state of `indices` and upsert each row. -/
def update (indices : List Nat) : Task Unit := do
  if indices.isEmpty then return
  let validators ← getValidators indices
  each storeValidator validators

/-! ## Consensus activity -/

/-- `activation_epoch <= epoch < exit_epoch` of the record. -/
def ValidatorData.ActiveAt (v : ValidatorData) (epoch : Nat) : Prop :=
  v.activationEpoch.toNat ≤ epoch ∧ epoch < v.exitEpoch.toNat

/-- The epochs survive the conversion to BIGINT: an activation that is set, with an exit that is set or
FAR_FUTURE_EPOCH; or no set activation and an exit that no epoch is before. -/
def ValidatorData.Storable (v : ValidatorData) : Prop :=
  (v.activationEpoch.toNat < 2 ^ 63 ∧ (v.exitEpoch.toNat < 2 ^ 63 ∨ v.exitEpoch.toNat = 2 ^ 64 - 1)) ∨
  (2 ^ 63 ≤ v.activationEpoch.toNat ∧
    (v.exitEpoch.toNat = 0 ∨ (2 ^ 63 ≤ v.exitEpoch.toNat ∧ v.exitEpoch.toNat ≠ 2 ^ 64 - 1)))

/-- The row a record is stored as. -/
def ValidatorData.row (v : ValidatorData) (lastScanned : Option Nat) : ValidatorRow :=
  ⟨asI64 v.activationEpoch.toNat, storedExit v, lastScanned⟩

theorem ValidatorData.row_activeAt (v : ValidatorData) (l : Option Nat) (epoch : Nat) :
    (v.row l).activeAt epoch = true ↔
      asI64 v.activationEpoch.toNat ≤ epoch ∧ (v.exitEpoch.toNat = 2 ^ 64 - 1 ∨ (epoch : Int) < asI64 v.exitEpoch.toNat) := by
  have hexit : (storedExit v).all ((epoch : Int) < ·) = true ↔
      v.exitEpoch.toNat = 2 ^ 64 - 1 ∨ (epoch : Int) < asI64 v.exitEpoch.toNat := by
    unfold storedExit
    split
    · rename_i hx; exact iff_of_true rfl (.inl hx)
    · rename_i hx
      rw [Option.all_some, decide_eq_true_eq]
      exact (or_iff_right hx).symm
  unfold ValidatorRow.activeAt ValidatorData.row
  rw [Bool.and_eq_true, decide_eq_true_eq, hexit]

/-- The stored row is active exactly when the record is, at every epoch below 2^63, if and only if the
epochs are storable. -/
theorem ValidatorData.row_active_iff (v : ValidatorData) (l : Option Nat) :
    (∀ epoch < 2 ^ 63, (v.row l).activeAt epoch = true ↔ v.ActiveAt epoch) ↔ v.Storable := by
  simp only [row_activeAt]
  unfold ActiveAt Storable
  have ha := v.activationEpoch.toNat_lt
  have hx := v.exitEpoch.toNat_lt
  generalize v.activationEpoch.toNat = a at ha
  generalize v.exitEpoch.toNat = x at hx
  constructor
  · intro h
    -- the two epochs at which a wrong sign shows: the first one and the activation
    have h0 := h 0 (by norm_num)
    have h1 := h a
    by_cases hal : a < 2 ^ 63
    · left
      refine ⟨hal, ?_⟩
      by_contra hcon
      have hneg := asI64_neg (n := x) (by omega) hx
      have := (h1 hal).2 ⟨le_rfl, by omega⟩
      rcases this.2 with h | h <;> omega
    · right
      refine ⟨by omega, ?_⟩
      by_contra hcon
      have hneg := asI64_neg (n := a) (by omega) ha
      have : a ≤ 0 ∧ 0 < x := by
        apply h0.1
        refine ⟨by simp; omega, ?_⟩
        by_cases hxm : x = 2 ^ 64 - 1
        · exact .inl hxm
        · right
          rw [asI64_lt (by omega)]
          simp; omega
      omega
  · rintro (⟨hal, hxl⟩ | ⟨hal, hxl⟩) epoch he
    · rw [asI64_lt hal]
      rcases hxl with hxl | hxl
      · rw [asI64_lt hxl]; omega
      · omega
    · have hneg := asI64_neg hal ha
      rcases hxl with rfl | ⟨hxl, hne⟩
      · have hzero : asI64 0 = 0 := rfl
        rw [hzero]
        omega
      · have hxneg := asI64_neg hxl hx
        omega

/-! ## The stored active set -/

/-- A node whose validator records are `records`. -/
def reports (records : List ValidatorData) : (q : Request) → Except Error q.Answer → Prop
  | .headValidators _, r => r = .ok records
  | _, _ => True

variable {spec : ChainSpec} {records : List ValidatorData} {d : ValidatorData}

/-- The row of the record is stored. -/
def Stored (d : ValidatorData) (db : Db) : Prop := ∃ l, db.validators.get d.index = some (d.row l)

theorem Stored.upsert (x : ValidatorData) (hx : x.index = d.index → x = d) {db : Db} (h : x = d ∨ Stored d db) :
    Stored d (db.upsertValidator x.index (asI64 x.activationEpoch.toNat) (storedExit x)) := by
  unfold Stored Db.upsertValidator
  simp only [Table.get_upsert]
  by_cases hi : d.index = x.index
  · obtain rfl := hx hi.symm
    rw [if_pos rfl]
    cases db.validators.get x.index with
    | none => exact ⟨none, rfl⟩
    | some old => exact ⟨old.lastScannedEpoch, rfl⟩
  · rw [if_neg hi]
    rcases h with rfl | h
    · exact absurd rfl hi
    · exact h

/-- Every record is in its row once it has been written. -/
theorem update_stored {indices : List Nat} (hi : indices ≠ []) (hd : d ∈ records)
    (hone : ∀ x ∈ records, x.index = d.index → x = d) {db db' : Db}
    (h : Exec (indexerSem spec (reports records)) (update indices).run db (.ok ()) db') : Stored d db' := by
  let C := Contract.alone (indexerSem spec (reports records))
  have hok : C.Ok (update indices) db (fun _ s => Stored d s) fun _ _ => True := by
    have hne : indices.isEmpty = false := by cases indices <;> first | rfl | exact absurd rfl hi
    unfold update
    rw [hne]
    refine Contract.Ok.bind (Contract.Ok.ask (fun _ _ => trivial) fun s₁ r s₂ s₃ _ hr _ => ?_)
    obtain rfl : r = .ok records := hr.1
    -- the writes go through the records one by one, and no other record has the index of `d`
    have hloop := Contract.Ok.each (C := C) (Z := fun _ _ => True) (f := storeValidator)
      (fun done s => d ∈ done → Stored d s) (fun _ _ _ hr h => hr ▸ h) (l := records)
      (fun done x hx s hs => by
        refine Contract.Ok.ask (fun _ _ => trivial) fun t₁ r t₂ t₃ h1 hr h3 => ?_
        obtain rfl : s = t₁ := h1
        obtain rfl : t₂ = t₃ := h3
        rcases hr with ⟨now, rfl, rfl⟩ | ⟨message, rfl, -⟩
        · intro hmem
          refine Stored.upsert x (hone x hx) ?_
          rcases List.mem_append.1 hmem with hmem | hmem
          · exact .inr (hs hmem)
          · exact .inl (List.mem_singleton.1 hmem).symm
        · trivial) [] s₃ (fun h => by cases h)
    exact hloop.imp fun _ _ hs => hs hd
  exact hok.exec h

/-- The active set holds the validator of a stored row when the row is active. -/
theorem active_of_stored {tracked : List Nat} (ht : d.index ∈ tracked) {db : Db} {l : Option Nat}
    (hrow : db.validators.get d.index = some (d.row l)) (epoch : Nat) :
    d.index ∈ db.activeValidatorsAt tracked epoch ↔ (d.row l).activeAt epoch = true := by
  unfold Db.activeValidatorsAt
  rw [List.mem_map]
  constructor
  · rintro ⟨⟨v, row⟩, hsel, hv⟩
    obtain ⟨hget, hp⟩ := Table.mem_select.1 hsel
    obtain rfl : v = d.index := hv
    rw [hrow] at hget
    cases hget
    exact (Bool.and_eq_true _ _ ▸ hp).2
  · intro ha
    exact ⟨(d.index, d.row l), Table.mem_select.2 ⟨hrow, by simp [ht, ha]⟩, rfl⟩

/-- A run of `fetch_epoch_duties` fails at the read of the active set, finds it empty, or seeds the duties of exactly
that set. -/
def SeedsActive (spec : ChainSpec) (node : (q : Request) → Except Error q.Answer → Prop) (tracked : List Nat) (slot : Nat)
    (db : Db) : Prop :=
  ∀ r db', Exec (indexerSem spec node) (fetchEpochDuties spec tracked slot).run db r db' →
    (∃ e, r = .error e ∧ db' = db) ∨ (db.activeValidatorsAt tracked (spec.slotToEpoch slot) = [] ∧ db' = db) ∨
    ∃ seeded db₁, Exec (indexerSem spec node)
      (seedLiveAttestationDuties (spec.slotToEpoch slot) (db.activeValidatorsAt tracked (spec.slotToEpoch slot))).run db seeded db₁

theorem seedsActive (node : (q : Request) → Except Error q.Answer → Prop) (tracked : List Nat) {slot : Nat} (hslot : slot ≠ 0)
    (db : Db) : SeedsActive spec node tracked slot db := by
  intro r db' h
  unfold fetchEpochDuties at h
  rw [if_neg hslot] at h
  obtain ⟨outcome, db₁, hread, hrest⟩ := Exec.bind_iff.1 h
  obtain ⟨answer, db₂, hsem, hread⟩ := Exec.call_iff.1 hread
  obtain ⟨rfl, rfl⟩ := Exec.pure_iff.1 hread
  rcases hsem with ⟨now, hanswer, hdb⟩ | ⟨message, hanswer, hdb⟩
  · replace hdb : db₁ = db := hdb
    subst hdb
    cases hanswer
    change Exec _ (ExceptT.run (ite _ _ _)) _ _ _ at hrest
    split at hrest
    · rename_i hempty
      obtain ⟨rfl, rfl⟩ := Exec.pure_iff.1 hrest
      exact .inr (.inl ⟨List.isEmpty_iff.1 hempty, rfl⟩)
    · -- the seeding is attempted before anything else
      obtain ⟨_, _, hfirst, -⟩ := Exec.bind_iff.1 hrest
      obtain ⟨_, _, hattempt, -⟩ := Exec.bind_iff.1 hfirst
      obtain ⟨seeded, db₂, hseed, -⟩ := Exec.bind_iff.1 hattempt
      exact .inr (.inr ⟨seeded, db₂, hseed⟩)
  · cases hanswer
    obtain ⟨rfl, rfl⟩ := Exec.pure_iff.1 hrest
    exact .inl ⟨_, rfl, hdb⟩

/-- After the record is stored, the validator is in the active set of an epoch below 2^63 exactly when it is
active by the record, if and only if its epochs are storable; and the active set of a slot's epoch is what the live
worker seeds. -/
theorem update_active_iff {indices tracked : List Nat} (hi : indices ≠ []) (hd : d ∈ records)
    (hone : ∀ x ∈ records, x.index = d.index → x = d) (ht : d.index ∈ tracked) {db db' : Db}
    (h : Exec (indexerSem spec (reports records)) (update indices).run db (.ok ()) db') :
    ((∀ epoch < 2 ^ 63, d.index ∈ db'.activeValidatorsAt tracked epoch ↔ d.ActiveAt epoch) ↔ d.Storable) ∧
    ∀ node slot, slot ≠ 0 → SeedsActive spec node tracked slot db' := by
  obtain ⟨l, hrow⟩ := update_stored hi hd hone h
  refine ⟨?_, fun node slot hslot => seedsActive node tracked hslot db'⟩
  rw [← d.row_active_iff l]
  simp only [active_of_stored ht hrow]

/-- One write of the only record. -/
theorem update_single (spec : ChainSpec) (x : ValidatorData) : Exec (indexerSem spec (reports [x])) (update [x.index]).run .empty (.ok ())
    (Db.empty.upsertValidator x.index (asI64 x.activationEpoch.toNat) (storedExit x)) :=
  .step ⟨rfl, rfl⟩ (.step (.inl ⟨0, rfl, rfl⟩) (.done _ _))

/-- Active since epoch 5 and not leaving. -/
def activeSeven : ValidatorData := ⟨7, 5, 18446744073709551615⟩

/-- Waiting for activation: neither epoch is set. -/
def pendingSeven : ValidatorData := ⟨7, 18446744073709551615, 18446744073709551615⟩

theorem update_active_iff_activeSeven : ∃ db', Exec (indexerSem ⟨4, 2, 8, 0, by decide⟩ (reports [activeSeven]))
    (update [7]).run .empty (.ok ()) db' ∧
    ((∀ epoch < 2 ^ 63, activeSeven.index ∈ db'.activeValidatorsAt [7] epoch ↔ activeSeven.ActiveAt epoch) ↔
      activeSeven.Storable) ∧ ∀ node slot, slot ≠ 0 → SeedsActive ⟨4, 2, 8, 0, by decide⟩ node [7] slot db' :=
  have hrun := update_single ⟨4, 2, 8, 0, by decide⟩ activeSeven
  ⟨_, hrun, update_active_iff (by simp) (List.mem_singleton.2 rfl) (fun _ hx _ => List.mem_singleton.1 hx)
    (List.mem_singleton.2 rfl) hrun⟩

/-- FAR_FUTURE_EPOCH as an activation is stored as -1, so the pending validator is active at once and
is among the validators whose duties are seeded. -/
theorem pendingSeven_active : ∃ db', Exec (indexerSem ⟨4, 2, 8, 0, by decide⟩ (reports [pendingSeven]))
    (update [7]).run .empty (.ok ()) db' ∧ 7 ∈ db'.activeValidatorsAt [7] 0 ∧ ¬pendingSeven.ActiveAt 0 := by
  have hact : pendingSeven.activationEpoch.toNat = 18446744073709551615 := by simp [pendingSeven]
  have hexit : pendingSeven.exitEpoch.toNat = 2 ^ 64 - 1 := by simp [pendingSeven]
  refine ⟨_, update_single ⟨4, 2, 8, 0, by decide⟩ pendingSeven, ?_, ?_⟩
  · have hrow : (Db.empty.upsertValidator 7 (asI64 pendingSeven.activationEpoch.toNat)
        (storedExit pendingSeven)).validators.get 7 = some (pendingSeven.row none) := rfl
    refine (active_of_stored (d := pendingSeven) (List.mem_singleton.2 rfl) hrow 0).2 ?_
    rw [ValidatorData.row_activeAt]
    have hneg : asI64 pendingSeven.activationEpoch.toNat < 0 := asI64_neg (by omega) (by omega)
    exact ⟨by simp; omega, .inl hexit⟩
  · intro h
    have := h.1
    omega

end BeaconIndexer
