/-
Archive and live sync committee rows: the archive scan reconstructs the per-position reward of an
epoch from one validator's total, the live worker stores the reported totals, and both describe the
same participation.
-/
import BeaconIndexer.Db.Run
import BeaconIndexer.Scanner.Epoch
import BeaconIndexer.Proofs.Reads

namespace BeaconIndexer

open Effects Relational Contract

variable {spec : ChainSpec}

/-! ## Participation -/

/-- The positions of a member whose bit is `b`. -/
def positionsWith (committee : List Nat) (bits : List Bool) (b : Bool) (v : Nat) : Nat :=
  (committee.zip bits).count (v, b)

/-- Set positions minus unset positions. -/
def netPositions (committee : List Nat) (bits : List Bool) (v : Nat) : Int :=
  positionsWith committee bits true v - positionsWith committee bits false v

/-- Some position is set. -/
def participates (committee : List Nat) (bits : List Bool) (v : Nat) : Bool :=
  decide (0 < positionsWith committee bits true v)

/-- The fold of `syncOutcomes`, begun with any outcomes. -/
theorem foldl_outcomes_get (v : Nat) : ∀ (l : List (Nat × Bool)) (t : Table Nat (Bool × Int)),
    (l.foldl (fun outcomes (validator, bit) =>
        let entry := (outcomes.get validator).getD (false, 0)
        outcomes.put validator (entry.1 || bit, entry.2 + if bit then 1 else -1)) t).get v =
      if v ∈ l.map Prod.fst then
        some (((t.get v).getD (false, 0)).1 || decide (0 < l.count (v, true)),
          ((t.get v).getD (false, 0)).2 + ((l.count (v, true) : Int) - l.count (v, false)))
      else t.get v
  | [], t => by simp
  | (u, bit) :: l, t => by
    rw [List.foldl_cons, foldl_outcomes_get v l]
    simp only [Table.get_put]
    by_cases huv : v = u
    · subst huv
      have hmem : v ∈ ((v, bit) :: l).map Prod.fst := List.mem_cons_self ..
      rw [if_pos hmem, if_pos rfl]
      cases bit with
      | true =>
        simp only [List.count_cons_self, Option.getD_some, List.count_cons, Bool.or_true, Bool.true_or]
        by_cases hl : v ∈ l.map Prod.fst
        · rw [if_pos hl]
          simp
          omega
        · have h0 : ∀ b, l.count (v, b) = 0 := fun b =>
            List.count_eq_zero.2 fun h => hl (List.mem_map.2 ⟨_, h, rfl⟩)
          rw [if_neg hl]
          simp [h0]
      | false =>
        simp only [Option.getD_some, List.count_cons, Bool.or_false]
        by_cases hl : v ∈ l.map Prod.fst
        · rw [if_pos hl]
          simp
          omega
        · have h0 : ∀ b, l.count (v, b) = 0 := fun b =>
            List.count_eq_zero.2 fun h => hl (List.mem_map.2 ⟨_, h, rfl⟩)
          rw [if_neg hl]
          simp [h0]
    · have hc : ∀ b, ((u, bit) :: l).count (v, b) = l.count (v, b) := by
        intro b
        rw [List.count_cons_of_ne]
        intro h
        exact huv (Prod.mk.inj h).1.symm
      simp [huv, hc]

/-- Every member has one outcome: whether it took part, and its net positions. -/
theorem syncOutcomes_get {committee : List Nat} {bits : List Bool} (h : bits.length = committee.length) (v : Nat) :
    (syncOutcomes committee bits).get v =
      if v ∈ committee then some (participates committee bits v, netPositions committee bits v) else none := by
  unfold syncOutcomes
  rw [foldl_outcomes_get, List.map_fst_zip (by omega)]
  simp only [Table.get_empty, Option.getD_none, Bool.false_or, zero_add]
  rfl

/-- A set position in the list of a member's positions. -/
theorem any_position_iff {committee : List Nat} {bits : List Bool} {v : Nat} {positions : List Nat}
    (h : ∀ p, p ∈ positions ↔ committee[p]? = some v) :
    (positions.any fun p => bits.getD p false) = participates committee bits v := by
  unfold participates positionsWith
  rw [Bool.eq_iff_iff, decide_eq_true_eq, List.count_pos_iff, List.any_eq_true]
  constructor
  · rintro ⟨p, hp, hbit⟩
    rw [List.getD_eq_getElem?_getD] at hbit
    have hb : bits[p]? = some true := by
      cases hb : bits[p]? with
      | none => rw [hb] at hbit; cases hbit
      | some b => rw [hb] at hbit; exact congrArg some hbit
    exact List.mem_of_getElem? (i := p) (List.getElem?_zip_eq_some.2 ⟨(h p).1 hp, hb⟩)
  · intro hm
    obtain ⟨p, hp⟩ := List.getElem?_of_mem hm
    obtain ⟨hc, hb⟩ := List.getElem?_zip_eq_some.1 hp
    exact ⟨p, (h p).2 hc, by rw [List.getD_eq_getElem?_getD, hb]; rfl⟩

/-! ## The probed magnitude -/

/-- The total of a uniform reward reveals it unless the positions cancel. -/
theorem perPositionReward_ok (m : Nat) (net : Int) :
    perPositionReward (m * net) net = .ok (if net = 0 then none else some (m : Int)) := by
  unfold perPositionReward
  by_cases hn : net = 0
  · rw [if_pos hn, if_pos hn]
  · rw [if_neg hn, if_neg hn, Int.mul_tdiv_cancel _ hn, Int.mul_tmod_left, if_neg (by omega)]

theorem probeRewards_total {m : Nat} {outcomes : Table Nat (Bool × Int)} : ∀ {rewards : List SyncCommitteeReward}
    {r : Option Int}, (∀ x ∈ rewards, ∀ o, outcomes.get x.validatorIndex = some o → x.reward = m * o.2) →
      probeRewards outcomes rewards = .ok r → ∀ x, r = some x → x = m
  | [], r, _, h => by cases h; intro x hx; cases hx
  | reward :: rest, r, hr, h => by
    unfold probeRewards at h
    have hrest : ∀ x ∈ rest, ∀ o, outcomes.get x.validatorIndex = some o → x.reward = m * o.2 :=
      fun x hx => hr x (List.mem_cons_of_mem _ hx)
    cases ho : outcomes.get reward.validatorIndex with
    | none =>
      rw [ho] at h
      exact probeRewards_total hrest h
    | some o =>
      obtain ⟨participated, net⟩ := o
      rw [ho] at h
      have htotal := hr reward (List.mem_cons_self ..) _ ho
      simp only at h htotal
      rw [htotal, perPositionReward_ok] at h
      by_cases hn : net = 0
      · rw [if_pos hn] at h
        exact probeRewards_total hrest h
      · rw [if_neg hn] at h
        cases h
        intro x hx
        cases hx
        rfl

/-! ## Which rows are written -/

/-- The write of each row, by validator and slot. -/
abbrev SyncWrites := Nat → Nat → Option SyncWrite

/-- One row. -/
def SyncWrites.single (v slot : Nat) (w : SyncWrite) : SyncWrites :=
  fun v' s => if v' = v ∧ s = slot then some w else none

/-- Every row with a write is as the write leaves it, every other one as before. -/
structure Written (spec : ChainSpec) (W : SyncWrites) (db db' : Db) : Prop where
  row : ∀ v s, db'.syncDuties.get (v, s) = match W v s with
    | some w => some (db.upsertedSync spec v s w (db.syncDuties.get (v, s)))
    | none => db.syncDuties.get (v, s)
  completed : db'.completedScans = db.completedScans

/-- Some of the writes happened: a row is as its write leaves it, or as before. -/
structure PartlyWritten (spec : ChainSpec) (W : SyncWrites) (db db' : Db) : Prop where
  row : ∀ v s, db'.syncDuties.get (v, s) = db.syncDuties.get (v, s) ∨ ∃ w, W v s = some w ∧
    db'.syncDuties.get (v, s) = some (db.upsertedSync spec v s w (db.syncDuties.get (v, s)))
  completed : db'.completedScans = db.completedScans

theorem Db.upsertedSync_congr {db db' : Db} (h : db'.completedScans = db.completedScans) (v s : Nat) (w : SyncWrite)
    (old : Option SyncRow) : db'.upsertedSync spec v s w old = db.upsertedSync spec v s w old := by
  unfold upsertedSync completed
  rw [h]

section Written

variable {W W₁ W₂ : SyncWrites} {db d d' : Db}

theorem Written.of_some (h : Written spec W db d) {v s : Nat} {w : SyncWrite} (hw : W v s = some w) :
    d.syncDuties.get (v, s) = some (db.upsertedSync spec v s w (db.syncDuties.get (v, s))) := by
  rw [h.row, hw]

theorem Written.of_none (h : Written spec W db d) {v s : Nat} (hw : W v s = none) :
    d.syncDuties.get (v, s) = db.syncDuties.get (v, s) := by
  rw [h.row, hw]

theorem Written.partly (h : Written spec W db d) : PartlyWritten spec W db d := by
  refine ⟨fun v s => ?_, h.completed⟩
  cases hw : W v s with
  | none => exact .inl (h.of_none hw)
  | some w => exact .inr ⟨w, rfl, h.of_some hw⟩

theorem Written.nothing (db : Db) : Written spec (fun _ _ => none) db db := ⟨fun _ _ => rfl, rfl⟩

theorem PartlyWritten.nothing (db : Db) : PartlyWritten spec W db db := ⟨fun _ _ => .inl rfl, rfl⟩

theorem Written.congr (h : Written spec W₁ db d) (hW : ∀ v s, W₁ v s = W₂ v s) : Written spec W₂ db d :=
  (funext fun v => funext (hW v) : W₁ = W₂) ▸ h

theorem PartlyWritten.mono (h : PartlyWritten spec W₁ db d) (hW : ∀ v s w, W₁ v s = some w → W₂ v s = some w) :
    PartlyWritten spec W₂ db d :=
  ⟨fun v s => (h.row v s).imp_right fun ⟨w, hw, hr⟩ => ⟨w, hW v s w hw, hr⟩, h.completed⟩

/-- Writes of different rows add up. -/
theorem Written.trans (h₁ : Written spec W₁ db d) (h₂ : Written spec W₂ d d')
    (hne : ∀ v s, W₁ v s = none ∨ W₂ v s = none) :
    Written spec (fun v s => (W₁ v s).or (W₂ v s)) db d' := by
  refine ⟨fun v s => ?_, h₂.completed.trans h₁.completed⟩
  cases hw₁ : W₁ v s with
  | some w =>
    have hw₂ := (hne v s).resolve_left (by simp [hw₁])
    exact (h₂.of_none hw₂).trans (h₁.of_some hw₁)
  | none =>
    rw [h₂.row, h₁.of_none hw₁]
    cases hw₂ : W₂ v s with
    | none => rfl
    | some w => exact congrArg _ (Db.upsertedSync_congr h₁.completed v s w _)

theorem Written.trans_partly (h₁ : Written spec W₁ db d) (h₂ : PartlyWritten spec W₂ d d')
    (hne : ∀ v s, W₁ v s = none ∨ W₂ v s = none) :
    PartlyWritten spec (fun v s => (W₁ v s).or (W₂ v s)) db d' := by
  refine ⟨fun v s => ?_, h₂.completed.trans h₁.completed⟩
  cases hw₁ : W₁ v s with
  | some w =>
    refine .inr ⟨w, rfl, ?_⟩
    rcases h₂.row v s with h | ⟨w', hw', -⟩
    · exact h.trans (h₁.of_some hw₁)
    · rcases hne v s with h | h
      · rw [hw₁] at h; cases h
      · rw [hw'] at h; cases h
  | none =>
    rcases h₂.row v s with h | ⟨w, hw, hr⟩
    · exact .inl (h.trans (h₁.of_none hw₁))
    · refine .inr ⟨w, hw, ?_⟩
      rw [hr, h₁.of_none hw₁, Db.upsertedSync_congr h₁.completed]

end Written

section Programs

variable {node : (q : Request) → Except Error q.Answer → Prop}

/-- The program makes the writes, or some of them and fails. -/
def Writes (spec : ChainSpec) (node : (q : Request) → Except Error q.Answer → Prop) (x : Task Unit)
    (W : SyncWrites) : Prop :=
  ∀ db, (Contract.alone (indexerSem spec node)).Ok x db (fun _ db' => Written spec W db db')
    fun _ db' => PartlyWritten spec W db db'

theorem Writes.congr {x : Task Unit} {W₁ W₂ : SyncWrites} (h : Writes spec node x W₁) (hW : ∀ v s, W₁ v s = W₂ v s) :
    Writes spec node x W₂ :=
  (funext fun v => funext (hW v) : W₁ = W₂) ▸ h

theorem writes_nothing : Writes spec node (pure ()) fun _ _ => none := by
  intro db
  refine Contract.Ok.pure fun db' h => ?_
  obtain rfl : db = db' := h
  exact .nothing db

theorem writes_throw (e : Error) (W : SyncWrites) : Writes spec node (throw e) W := by
  intro db
  refine Contract.Ok.throw fun db' h => ?_
  obtain rfl : db = db' := h
  exact .nothing db

theorem writes_upsertSyncDuty (v slot : Nat) (w : SyncWrite) :
    Writes spec node (statement (.upsertSyncDuty v slot w)) (.single v slot w) := by
  intro db
  refine Contract.Ok.ask (fun _ _ => trivial) fun s₁ r s₂ s₃ h1 hr h3 => ?_
  obtain rfl : db = s₁ := h1
  obtain rfl : s₂ = s₃ := h3
  rcases hr with ⟨now, rfl, rfl⟩ | ⟨message, rfl, rfl⟩
  · refine ⟨fun v' s => ?_, rfl⟩
    refine (Db.upsertSyncDuty_get ..).trans ?_
    unfold SyncWrites.single
    by_cases h : v' = v ∧ s = slot
    · obtain ⟨rfl, rfl⟩ := h
      rw [if_pos rfl, if_pos ⟨rfl, rfl⟩]
    · rw [if_neg fun he => h (Prod.mk.inj he), if_neg h]
  · exact .nothing _

/-- Programs that write different rows. -/
theorem writes_each {α : Type} {f : α → Task Unit} {W : α → SyncWrites} :
    ∀ {l : List α}, (∀ x ∈ l, Writes spec node (f x) (W x)) →
      (l.Pairwise fun x y => ∀ v s, W x v s = none ∨ W y v s = none) →
      Writes spec node (each f l) fun v s => l.findSome? fun x => W x v s
  | [], _, _ => writes_nothing
  | x :: l, hf, hl => by
    obtain ⟨hx, hl⟩ := List.pairwise_cons.1 hl
    have hrest := writes_each (fun y hy => hf y (List.mem_cons_of_mem x hy)) hl
    -- the rows of `x` are not written again
    have hne : ∀ v s, W x v s = none ∨ (l.findSome? fun y => W y v s) = none := by
      intro v s
      by_cases h : W x v s = none
      · exact .inl h
      · exact .inr (List.findSome?_eq_none_iff.2 fun y hy => (hx y hy v s).resolve_left h)
    have hor : ∀ v s, (W x v s).or (l.findSome? fun y => W y v s) = (x :: l).findSome? fun y => W y v s := by
      intro v s
      rw [List.findSome?_cons]
      cases W x v s <;> rfl
    intro db
    refine Contract.Ok.bind ((hf x (List.mem_cons_self ..) db).mono (fun _ d hd => ?_) fun _ d hd => ?_)
    · refine (hrest d).mono (fun _ d' h => (hd.trans h hne).congr hor) fun _ d' h => ?_
      exact (hd.trans_partly h hne).mono fun v s w hw => (hor v s).symm.trans hw
    · refine hd.mono fun v s w hw => ?_
      rw [List.findSome?_cons, hw]

/-- One row each, at one slot. -/
theorem writes_members {α : Type} {slot : Nat} {f : α → Task Unit} {k : α → Nat} {w : α → SyncWrite} {l : List α}
    {W : Nat → Option SyncWrite} (hf : ∀ x ∈ l, Writes spec node (f x) (.single (k x) slot (w x)))
    (hl : (l.map k).Nodup) (hW : ∀ x ∈ l, W (k x) = some (w x)) (hnone : ∀ v, v ∉ l.map k → W v = none) :
    Writes spec node (each f l) fun v s => if s = slot then W v else none := by
  have hloop := writes_each hf (List.pairwise_map.1 hl |>.imp fun {x y} hxy v s => by
    unfold SyncWrites.single
    by_cases h : v = k x ∧ s = slot
    · exact .inr (if_neg fun h' => hxy (h.1.symm.trans h'.1))
    · exact .inl (if_neg h))
  refine hloop.congr fun v s => ?_
  by_cases hs : s = slot
  · rw [if_pos hs]
    by_cases hv : v ∈ l.map k
    · obtain ⟨x, hx, rfl⟩ := List.mem_map.1 hv
      cases hfind : l.findSome? fun y => SyncWrites.single (k y) slot (w y) (k x) s with
      | none =>
        have := List.findSome?_eq_none_iff.1 hfind x hx
        rw [SyncWrites.single, if_pos ⟨rfl, hs⟩] at this
        cases this
      | some u =>
        obtain ⟨y, hy, hu⟩ := List.exists_of_findSome?_eq_some hfind
        unfold SyncWrites.single at hu
        split at hu
        · rename_i hk
          rw [hk.1, hW y hy, ← hu]
        · cases hu
    · rw [hnone v hv]
      refine List.findSome?_eq_none_iff.2 fun x hx => if_neg fun h => hv ?_
      exact List.mem_map.2 ⟨x, hx, h.1.symm⟩
  · rw [if_neg hs]
    exact List.findSome?_eq_none_iff.2 fun x _ => if_neg fun h => hs h.2

end Programs

/-! ## An epoch of the sync committee -/

/-- The participation bits of the block at a slot. -/
def BitsAt (spec : ChainSpec) (block : Nat → Option (Root × SignedBeaconBlock)) (s : Nat) (bits : List Bool) : Prop :=
  ∃ r b agg, block s = some (r, b) ∧ b.syncAggregate = some agg ∧
    decodeSyncCommitteeBits spec agg.syncCommitteeBits = .ok bits

/-- The committee, the blocks and the uniform reward per position of an epoch. The totals of the blocks fit
BIGINT, and with them everything the scan computes. -/
structure SyncEpoch (spec : ChainSpec) where
  committee : List Nat
  size : committee.length = spec.syncCommitteeSize
  block : Nat → Option (Root × SignedBeaconBlock)
  slot_eq : ∀ {s r b}, block s = some (r, b) → b.slot = s
  one_block : ∀ {s s' r b b'}, block s = some (r, b) → block s' = some (r, b') → b = b'
  reward : Nat
  total_lt : ∀ {s bits}, BitsAt spec block s bits → ∀ v,
    -2 ^ 63 ≤ reward * netPositions committee bits v ∧ reward * netPositions committee bits v < 2 ^ 63

namespace SyncEpoch

variable (E : SyncEpoch spec)

/-- The positions of a duty are the member's places in the committee. -/
def Consistent (v : Nat) (positions : List Nat) : Prop := ∀ p, p ∈ positions ↔ E.committee[p]? = some v

/-- Every answer agrees with the epoch; any request may fail. -/
def answers : (q : Request) → Except Error q.Answer → Prop
  | .blockRoot s, r => ∀ a, r = .ok a → a = (E.block s).map Prod.fst
  | .blockByRoot root, r => ∀ a, r = .ok a → ∀ s b, E.block s = some (root, b) → a = some b
  | .syncCommittee _, r => ∀ a, r = .ok a → a = E.committee
  | .syncDuties _ vs, r => ∀ a, r = .ok a →
      (∀ d ∈ a, d.validatorIndex ∈ E.committee) ∧ ∀ v ∈ vs, v ∈ E.committee → ∃ d ∈ a, d.validatorIndex = v
  | .syncRewardsBySlot s _, r => ∀ a, r = .ok a → ∀ x ∈ a, ∀ bits, BitsAt spec E.block s bits →
      x.reward = E.reward * netPositions E.committee bits x.validatorIndex
  | _, _ => True

/-- The block at a slot as the scan sees it. -/
def blockAt (s : Nat) : Option SignedBeaconBlock := (E.block s).map Prod.snd

/-- The block at a slot has no readable participation. -/
def Bitless (s : Nat) : Prop := E.block s ≠ none ∧ ∀ bits, ¬BitsAt spec E.block s bits

/-- What a member's row is written with, given the probed magnitude. -/
def write (finalized : Bool) (magnitude : Option Int) (s v : Nat) : Option SyncWrite :=
  match E.block s with
  | none => some ⟨false, some 0, true, finalized⟩
  | some (_, b) => match b.syncAggregate with
    | none => none
    | some agg => match decodeSyncCommitteeBits spec agg.syncCommitteeBits with
      | .error _ => none
      | .ok bits => some ⟨participates E.committee bits v,
          magnitude.map (· * netPositions E.committee bits v), false, finalized⟩

/-- The reward response of the live worker for the block at a slot: every tracked member's total. -/
structure Reported (s : Nat) (positions : SyncPositions) (rewards : List SyncCommitteeReward) : Prop where
  total : ∀ x ∈ rewards, ∃ bits, BitsAt spec E.block s bits ∧
    x.reward = E.reward * netPositions E.committee bits x.validatorIndex
  all : ∀ bits, BitsAt spec E.block s bits → ∀ v ps, positions.get v = some ps → ∃ x ∈ rewards, x.validatorIndex = v

variable {E}

theorem write_skipped {s : Nat} (h : E.block s = none) (finalized : Bool) (magnitude : Option Int) (v : Nat) :
    E.write finalized magnitude s v = some ⟨false, some 0, true, finalized⟩ := by
  unfold write
  rw [h]

theorem write_bitless {s : Nat} (h : E.Bitless s) (finalized : Bool) (magnitude : Option Int) (v : Nat) :
    E.write finalized magnitude s v = none := by
  obtain ⟨hblock, hbits⟩ := h
  unfold write
  cases hb : E.block s with
  | none => exact absurd hb hblock
  | some rb =>
    obtain ⟨r, b⟩ := rb
    simp only
    cases ha : b.syncAggregate with
    | none => rfl
    | some agg =>
      simp only
      cases hd : decodeSyncCommitteeBits spec agg.syncCommitteeBits with
      | error e => rfl
      | ok bits => exact absurd ⟨r, b, agg, hb, ha, hd⟩ (hbits bits)

/-- A block without aggregate is one. -/
theorem bitless_of_none {s : Nat} {r : Root} {b : SignedBeaconBlock} (hb : E.block s = some (r, b))
    (ha : b.syncAggregate = none) : E.Bitless s := by
  refine ⟨by rw [hb]; exact Option.some_ne_none _, ?_⟩
  rintro bits ⟨r', b', agg, hb', ha', -⟩
  rw [hb] at hb'
  cases hb'
  rw [ha] at ha'
  cases ha'

theorem write_bits {s : Nat} {bits : List Bool} (h : BitsAt spec E.block s bits) (finalized : Bool)
    (magnitude : Option Int) (v : Nat) :
    E.write finalized magnitude s v = some ⟨participates E.committee bits v,
      magnitude.map (· * netPositions E.committee bits v), false, finalized⟩ := by
  obtain ⟨r, b, agg, hb, ha, hd⟩ := h
  unfold write
  rw [hb]
  simp only
  rw [ha]
  simp only
  rw [hd]

theorem bitsAt_unique {s : Nat} {bits bits' : List Bool} (h : BitsAt spec E.block s bits)
    (h' : BitsAt spec E.block s bits') : bits = bits' := by
  obtain ⟨r, b, agg, hb, ha, hd⟩ := h
  obtain ⟨r', b', agg', hb', ha', hd'⟩ := h'
  rw [hb] at hb'
  cases hb'
  rw [ha] at ha'
  cases ha'
  rw [hd] at hd'
  exact Except.ok.inj hd'

theorem bits_length {s : Nat} {bits : List Bool} (h : BitsAt spec E.block s bits) :
    bits.length = E.committee.length := by
  obtain ⟨r, b, agg, hb, ha, hd⟩ := h
  exact (decodeSyncCommitteeBits_length hd).trans E.size.symm

theorem slot_cases (E : SyncEpoch spec) (s : Nat) :
    E.block s = none ∨ (∃ bits, BitsAt spec E.block s bits) ∨ E.Bitless s := by
  by_cases hb : E.block s = none
  · exact .inl hb
  by_cases hbits : ∃ bits, BitsAt spec E.block s bits
  · exact .inr (.inl hbits)
  · exact .inr (.inr ⟨hb, fun bits h => hbits ⟨bits, h⟩⟩)

theorem Reported.nil {s : Nat} {positions : SyncPositions} {rewards : List SyncCommitteeReward}
    (h : E.Reported s positions rewards) (hbits : ∀ bits, ¬BitsAt spec E.block s bits) : rewards = [] := by
  refine List.eq_nil_iff_forall_not_mem.2 fun x hx => ?_
  obtain ⟨bits, hb, -⟩ := h.total x hx
  exact hbits bits hb

/-! ## The archive scan -/

variable {node : (q : Request) → Except Error q.Answer → Prop} {R : List Nat}

theorem writes_processSlotSync (hn : R.Nodup) (hR : ∀ v ∈ R, v ∈ E.committee) (finalized : Bool)
    (magnitude : Option Int) (slot : Nat) :
    Writes spec node (processSlotSync spec finalized R E.committee magnitude slot (E.blockAt slot))
      fun v s => if s = slot then (if v ∈ R then E.write finalized magnitude slot v else none) else none := by
  unfold processSlotSync blockAt
  cases hb : E.block slot with
  | none =>
    refine writes_members (k := fun v => v) (w := fun _ => ⟨false, some 0, true, finalized⟩)
      (fun v _ => writes_upsertSyncDuty v slot _) (by simpa using hn) (fun v hv => ?_) fun v hv => ?_
    · rw [if_pos hv, write_skipped hb]
    · rw [if_neg (by simpa using hv)]
  | some rb =>
    obtain ⟨r, b⟩ := rb
    simp only [Option.map_some]
    cases ha : b.syncAggregate with
    | none =>
      refine writes_nothing.congr fun v s => ?_
      rw [write_bitless (bitless_of_none hb ha), ite_self, ite_self]
    | some agg =>
      cases hd : decodeSyncCommitteeBits spec agg.syncCommitteeBits with
      | error e =>
        simp only [hd, ofExcept]
        exact fun db => Contract.Ok.bind (writes_throw e _ db)
      | ok bits =>
        have hbits : BitsAt spec E.block slot bits := ⟨r, b, agg, hb, ha, hd⟩
        have hget := syncOutcomes_get (bits_length hbits)
        let rows := (syncOutcomes E.committee bits).rows.filter fun r => R.contains r.1
        have hrows : (rows.map Prod.fst).Nodup :=
          (List.filter_sublist.map Prod.fst).nodup (syncOutcomes E.committee bits).nodup
        have hmem : ∀ x, x ∈ rows ↔ x.1 ∈ R ∧ (syncOutcomes E.committee bits).get x.1 = some x.2 := by
          intro x
          rw [List.mem_filter, Table.mem_rows, List.contains_iff_mem]
          exact and_comm
        intro db
        simp only [hd, ofExcept]
        refine Contract.Ok.bind (Contract.Ok.pure fun db' h => ?_)
        obtain rfl : db = db' := h
        refine writes_members (k := Prod.fst)
          (w := fun r : Nat × Bool × Int => ⟨r.2.1, magnitude.map (· * r.2.2), false, finalized⟩)
          (W := fun v => if v ∈ R then E.write finalized magnitude slot v else none)
          (fun r _ => writes_upsertSyncDuty r.1 slot _) hrows (fun x hx => ?_) (fun v hv => ?_) db
        · obtain ⟨hxR, hx⟩ := (hmem x).1 hx
          rw [hget, if_pos (hR _ hxR)] at hx
          rw [if_pos hxR, write_bits hbits, ← Option.some.inj hx]
        · refine if_neg fun hvR => hv (List.mem_map.2 ⟨(v, participates E.committee bits v,
            netPositions E.committee bits v), (hmem _).2 ⟨hvR, ?_⟩, rfl⟩)
          rw [hget, if_pos (hR v hvR)]

/-- Only the element itself is looked at. -/
theorem findSome?_at {α : Type} {g : Nat → Option α} (s : Nat) : ∀ l : List Nat,
    (l.findSome? fun t => if s = t then g t else none) = if s ∈ l then g s else none
  | [] => rfl
  | t :: l => by
    rw [List.findSome?_cons, findSome?_at s l]
    by_cases hst : s = t
    · subst hst
      rw [if_pos rfl, if_pos (List.mem_cons_self ..)]
      cases hg : g s with
      | none => simp
      | some x => rfl
    · rw [if_neg hst]
      simp [hst]

/-- All slots, one after the other. -/
theorem writes_slots (hn : R.Nodup) (hR : ∀ v ∈ R, v ∈ E.committee) (finalized : Bool) (magnitude : Option Int)
    {slots : List Nat} (hslots : slots.Nodup) :
    Writes spec node (each (fun (b : Nat × Option SignedBeaconBlock) =>
        processSlotSync spec finalized R E.committee magnitude b.1 b.2) (slots.map fun s => (s, E.blockAt s)))
      fun v s => if s ∈ slots ∧ v ∈ R then E.write finalized magnitude s v else none := by
  have hloop : Writes spec node (each (fun (b : Nat × Option SignedBeaconBlock) =>
      processSlotSync spec finalized R E.committee magnitude b.1 b.2) (slots.map fun s => (s, E.blockAt s)))
      fun v s => (slots.map fun s => (s, E.blockAt s)).findSome? fun b =>
        if s = b.1 then (if v ∈ R then E.write finalized magnitude b.1 v else none) else none := by
    refine writes_each (fun b hb => ?_) (List.pairwise_map.2 (hslots.imp fun {a b} hab v s => ?_))
    · obtain ⟨s, -, rfl⟩ := List.mem_map.1 hb
      exact writes_processSlotSync hn hR finalized magnitude s
    · by_cases h : s = a
      · exact .inr (if_neg fun h' => hab (h.symm.trans h'))
      · exact .inl (if_neg h)
  refine hloop.congr fun v s => ?_
  rw [List.findSome?_map]
  refine (findSome?_at (g := fun t => if v ∈ R then E.write finalized magnitude t v else none) s slots).trans ?_
  by_cases hs : s ∈ slots
  · by_cases hv : v ∈ R
    · rw [if_pos hs, if_pos hv, if_pos ⟨hs, hv⟩]
    · rw [if_pos hs, if_neg hv, if_neg fun h => hv h.2]
  · rw [if_neg hs, if_neg fun h => hs h.1]

/-! ## What the scan reads -/

variable (hnode : ∀ q r, node q r → E.answers q r)

include hnode

theorem servedBy : SlotBlocks.ServedBy E.block node :=
  ⟨E.slot_eq, fun ha => hnode _ _ ha _ rfl, fun ha hb => hnode _ _ ha _ rfl _ _ hb⟩

/-- A probed magnitude is the uniform reward. -/
theorem reads_probe (relevant slots : List Nat) : Reads (indexerSem spec node)
    (probeSyncParticipantReward spec relevant E.committee (slots.map fun s => (s, E.blockAt s)))
    fun a => ∀ x, a = some x → x = E.reward := by
  induction slots with
  | nil => exact Reads.pure nofun
  | cons s slots ih =>
    rw [List.map_cons]
    unfold probeSyncParticipantReward
    cases hb : E.block s with
    | none =>
      unfold blockAt
      rw [hb]
      exact ih
    | some rb =>
      obtain ⟨r, b⟩ := rb
      unfold blockAt
      rw [hb]
      simp only [Option.map_some, Option.bind_some]
      cases ha : b.syncAggregate with
      | none => exact ih
      | some agg =>
        refine Reads.bind (reads_ofExcept fun bits hd => hd) fun bits hd => ?_
        have hbits : BitsAt spec E.block s bits := ⟨r, b, agg, hb, ha, hd⟩
        refine Reads.bind (Reads.attempt (reads_request fun rewards h => h)) fun r hr => ?_
        cases r with
        | error e =>
          split
          · exact ih
          · exact Reads.throw
          · rename_i heq
            cases heq
        | ok rewards =>
          have hrewards := hr rewards rfl
          have htotal : ∀ x ∈ rewards, ∀ o, (syncOutcomes E.committee bits).get x.validatorIndex = some o →
              x.reward = E.reward * o.2 := by
            intro x hx o ho
            rw [syncOutcomes_get (bits_length hbits)] at ho
            split at ho
            · rw [← Option.some.inj ho]
              exact hnode _ _ hrewards rewards rfl x hx bits hbits
            · cases ho
          refine Reads.bind (reads_ofExcept fun found hp => probeRewards_total htotal hp) fun found hfound => ?_
          cases found with
          | none => exact ih
          | some magnitude => exact Reads.pure hfound

/-- The writes of a scan of an epoch with the probed magnitude. -/
def scanWrites (E : SyncEpoch spec) (epoch : Nat) (tracked : List Nat) (finalized : Bool) (magnitude : Option Int) :
    SyncWrites := fun v s =>
  if s ∈ List.range' (spec.epochStartSlot epoch) spec.slotsPerEpoch ∧ v ∈ tracked ∧ v ∈ E.committee then
    E.write finalized magnitude s v
  else none

theorem ok_processEpochSync (epoch : Nat) (tracked : List Nat) (finalized : Bool) (db : Db) :
    (Contract.alone (indexerSem spec node)).Ok (processEpochSync spec epoch tracked finalized) db
      (fun _ db' => ∃ magnitude : Option Int, (∀ x, magnitude = some x → x = E.reward) ∧
        (magnitude = none → ∀ s ∈ List.range' (spec.epochStartSlot epoch) spec.slotsPerEpoch, E.block s = none) ∧
        Written spec (E.scanWrites epoch tracked finalized magnitude) db db')
      fun _ db' => ∃ magnitude : Option Int, (∀ x, magnitude = some x → x = E.reward) ∧
        PartlyWritten spec (E.scanWrites epoch tracked finalized magnitude) db db' := by
  have hfail : ∀ {db' : Db}, db' = db → ∃ magnitude : Option Int, (∀ x, magnitude = some x → x = E.reward) ∧
      PartlyWritten spec (E.scanWrites epoch tracked finalized magnitude) db db' := by
    rintro _ rfl
    exact ⟨none, nofun, .nothing _⟩
  -- no tracked member: nothing to write
  have hempty : (∀ v, ¬(v ∈ tracked ∧ v ∈ E.committee)) → ∃ magnitude : Option Int,
      (∀ x, magnitude = some x → x = E.reward) ∧
      (magnitude = none → ∀ s ∈ List.range' (spec.epochStartSlot epoch) spec.slotsPerEpoch, E.block s = none) ∧
      Written spec (E.scanWrites epoch tracked finalized magnitude) db db := by
    intro h
    refine ⟨some E.reward, fun x hx => (Option.some.inj hx).symm, nofun, (Written.nothing db).congr ?_⟩
    intro v s
    exact (if_neg fun h' => h v h'.2).symm
  unfold processEpochSync getSyncDuties getSyncCommittee
  refine (reads_request fun _ h => h).andThen (fun duties hduties => ?_) fun _ => hfail rfl
  obtain ⟨hin, hcover⟩ := hnode _ _ hduties duties rfl
  have hmem : ∀ v, v ∈ (duties.map (·.validatorIndex)).dedup.filter tracked.contains ↔
      v ∈ tracked ∧ v ∈ E.committee := by
    intro v
    rw [List.mem_filter, List.mem_dedup, List.contains_iff_mem, List.mem_map]
    constructor
    · rintro ⟨⟨d, hd, rfl⟩, ht⟩
      exact ⟨ht, hin d hd⟩
    · rintro ⟨ht, hc⟩
      exact ⟨hcover v ht hc, ht⟩
  dsimp only
  refine Contract.Ok.ite (fun hnil => Contract.Ok.pure fun db' h => ?_) fun _ => ?_
  · obtain rfl : db = db' := h
    refine hempty fun v hv => ?_
    have := (hmem v).2 hv
    rw [List.isEmpty_iff.1 hnil] at this
    cases this
  refine (reads_request fun _ h => h).andThen (fun committee hcommittee => ?_) fun _ => hfail rfl
  obtain rfl := hnode _ _ hcommittee committee rfl
  refine Contract.Ok.check (fun hne => absurd E.size hne) fun _ => ?_
  refine Contract.Ok.ite (fun hnil => Contract.Ok.pure fun db' h => ?_) fun _ => ?_
  · obtain rfl : db = db' := h
    refine hempty fun v hv => ?_
    have := (hmem v).2 hv
    rw [List.isEmpty_iff.1 hnil] at this
    cases this
  refine (SlotBlocks.reads_fetchBlocksForSlots (servedBy hnode) _).andThen (fun blocks hblocks => ?_) fun _ => hfail rfl
  subst hblocks
  refine (reads_probe hnode _ _).andThen (fun magnitude hmag => ?_) fun _ => hfail rfl
  have hslots : (List.range' (spec.epochStartSlot epoch) spec.slotsPerEpoch).Nodup := List.nodup_range'
  have hwrites : Writes spec node _ (E.scanWrites epoch tracked finalized magnitude) :=
    (writes_slots ((List.nodup_dedup _).filter _) (fun v hv => ((hmem v).1 hv).2) finalized magnitude hslots).congr
      fun v s => by
        unfold scanWrites
        simp only [hmem]
  refine Contract.Ok.bind ((hwrites db).mono (fun _ db₅ h => ?_) fun _ _ h => ⟨magnitude, hmag, h⟩)
  refine Contract.Ok.ite (fun _ => Contract.Ok.throw fun db₆ h' => ?_) fun hb => Contract.Ok.pure fun db₆ h' => ?_
  · obtain rfl : db₅ = db₆ := h'
    exact ⟨magnitude, hmag, h.partly⟩
  · obtain rfl : db₅ = db₆ := h'
    refine ⟨magnitude, hmag, fun hnone s hs => ?_, h⟩
    subst hnone
    cases hblock : E.block s with
    | none => rfl
    | some rb =>
      refine absurd ?_ hb
      rw [Option.isNone_none, Bool.true_and, List.any_eq_true]
      exact ⟨(s, E.blockAt s), List.mem_map_of_mem hs, by simp [blockAt, hblock]⟩

omit hnode

/-! ## The live worker -/

/-- Every tracked member's row at the slot, without the total that is joined later. -/
theorem writes_upsertLiveSyncInSlot {positions : SyncPositions}
    (hpos : ∀ v ps, positions.get v = some ps → E.Consistent v ps) (slot : Nat) :
    Writes spec node (upsertLiveSyncInSlot spec slot (E.blockAt slot) positions) fun v s =>
      if s = slot then (if positions.has v then E.write false none slot v else none) else none := by
  have hmem : ∀ v, v ∈ positions.rows.map Prod.fst ↔ positions.has v = true := by
    intro v
    rw [Table.has_iff, List.mem_map]
    constructor
    · rintro ⟨⟨v', ps⟩, hps, rfl⟩
      exact ⟨ps, Table.mem_rows.1 hps⟩
    · rintro ⟨ps, hps⟩
      exact ⟨(v, ps), Table.mem_rows.2 hps, rfl⟩
  have hnone : ∀ {W : Nat → Option SyncWrite}, ∀ v, v ∉ positions.rows.map Prod.fst →
      (if positions.has v then W v else none) = none :=
    fun v hv => if_neg fun h => hv ((hmem v).2 h)
  unfold upsertLiveSyncInSlot
  intro db
  refine Contract.Ok.ite (fun hnil => ?_) fun _ => ?_
  · refine writes_nothing.congr (fun v s => ?_) db
    rw [hnone v, ite_self]
    rw [List.isEmpty_iff.1 hnil]
    exact List.not_mem_nil
  unfold blockAt
  cases hb : E.block slot with
  | none =>
    refine writes_members (k := Prod.fst) (w := fun _ : Nat × List Nat => ⟨false, some 0, true, false⟩)
      (fun r _ => writes_upsertSyncDuty r.1 slot _) positions.nodup (fun x hx => ?_) hnone db
    rw [if_pos ((hmem _).1 (List.mem_map_of_mem hx)), write_skipped hb]
  | some rb =>
    obtain ⟨r, b⟩ := rb
    simp only [Option.map_some]
    cases ha : b.syncAggregate with
    | none =>
      refine writes_nothing.congr (fun v s => ?_) db
      rw [write_bitless (bitless_of_none hb ha), ite_self, ite_self]
    | some agg =>
      cases hd : decodeSyncCommitteeBits spec agg.syncCommitteeBits with
      | error e =>
        simp only [hd, ofExcept]
        exact Contract.Ok.bind (writes_throw e _ db)
      | ok bits =>
        have hbits : BitsAt spec E.block slot bits := ⟨r, b, agg, hb, ha, hd⟩
        simp only [hd, ofExcept]
        refine Contract.Ok.bind (Contract.Ok.pure fun db' h => ?_)
        obtain rfl : db = db' := h
        refine writes_members (k := Prod.fst)
          (w := fun r : Nat × List Nat => ⟨r.2.any fun p => bits.getD p false, none, false, false⟩)
          (fun r hr => ?_) positions.nodup (fun x hx => ?_) hnone db
        · -- a consistent position is inside the bits
          have hps := hpos _ _ (Table.mem_rows.1 hr)
          have hfind : (r.2.find? fun p => decide (bits.length ≤ p)) = none := by
            refine List.find?_eq_none.2 fun p hp => ?_
            obtain ⟨hlt, -⟩ := List.getElem?_eq_some_iff.1 ((hps p).1 hp)
            rw [bits_length hbits, decide_eq_true_eq]
            omega
          unfold upsertLiveSyncMember
          rw [hfind]
          exact writes_upsertSyncDuty r.1 slot _
        · rw [if_pos ((hmem _).1 (List.mem_map_of_mem hx)), write_bits hbits,
            any_position_iff (hpos _ _ (Table.mem_rows.1 hx))]
          rfl

end SyncEpoch

/-- Participation of one slot, and then the totals reported for its block. -/
def liveSyncSlot (spec : ChainSpec) (slot : Nat) (block : Option SignedBeaconBlock) (positions : SyncPositions)
    (rewards : List SyncCommitteeReward) : Task Unit := do
  upsertLiveSyncInSlot spec slot block positions
  statement (.persistLiveSyncRewards slot rewards)

/-- A sync write replaces the row, if there is one. -/
def Db.SyncWritable (spec : ChainSpec) (finalized : Bool) (v s : Nat) (db : Db) : Prop :=
  ∀ old, db.syncDuties.get (v, s) = some old →
    old.finalized = false ∨ (finalized = true ∧ db.completed v (spec.slotToEpoch s) = false)

/-- A writable row takes every value of its write but a missing reward. -/
theorem Db.SyncWritable.upserted {db : Db} {v s : Nat} {w : SyncWrite} (h : db.SyncWritable spec w.finalized v s) :
    db.upsertedSync spec v s w (db.syncDuties.get (v, s)) = ⟨w.participated,
      coalesce w.reward ((db.syncDuties.get (v, s)).bind (·.reward)), w.missedBlock, w.finalized⟩ := by
  unfold Db.upsertedSync
  cases hold : db.syncDuties.get (v, s) with
  | none => cases hr : w.reward <;> simp [SyncWrite.toRow, hr, coalesce]
  | some old =>
    have hcond : (!old.finalized || (w.finalized && !db.completed v (spec.slotToEpoch s))) = true := by
      rcases h old hold with h | ⟨hf, hc⟩
      · rw [h]; rfl
      · rw [hf, hc, Bool.not_false, Bool.and_true, Bool.or_true]
    simp only [hcond, if_true]
    rfl

theorem Written.writable {W : SyncWrites} {db d : Db} (h : Written spec W db d) {v s : Nat} {w : SyncWrite}
    (hw : W v s = some w) (hdb : db.SyncWritable spec w.finalized v s) :
    d.syncDuties.get (v, s) = some ⟨w.participated,
      coalesce w.reward ((db.syncDuties.get (v, s)).bind (·.reward)), w.missedBlock, w.finalized⟩ := by
  rw [h.of_some hw, hdb.upserted]

theorem PartlyWritten.writable {W : SyncWrites} {db d : Db} (h : PartlyWritten spec W db d) {v s : Nat}
    {w : SyncWrite} (hw : W v s = some w) (hdb : db.SyncWritable spec w.finalized v s) :
    d.syncDuties.get (v, s) = db.syncDuties.get (v, s) ∨ d.syncDuties.get (v, s) = some ⟨w.participated,
      coalesce w.reward ((db.syncDuties.get (v, s)).bind (·.reward)), w.missedBlock, w.finalized⟩ := by
  refine (h.row v s).imp_right ?_
  rintro ⟨w', hw', hrow⟩
  rw [hw] at hw'
  cases hw'
  rw [hrow, hdb.upserted]

theorem PartlyWritten.of_none {W : SyncWrites} {db d : Db} (h : PartlyWritten spec W db d) {v s : Nat}
    (hw : W v s = none) : d.syncDuties.get (v, s) = db.syncDuties.get (v, s) := by
  rcases h.row v s with h | ⟨w, hw', -⟩
  · exact h
  · rw [hw] at hw'
    cases hw'

namespace SyncEpoch

variable {E : SyncEpoch spec} {node : (q : Request) → Except Error q.Answer → Prop} {positions : SyncPositions}

/-- The live row of a member ends with its total, and is left alone when there is no participation. -/
theorem ok_liveSyncSlot (hpos : ∀ v ps, positions.get v = some ps → E.Consistent v ps) {s v : Nat}
    (hv : positions.has v = true) {rewards : List SyncCommitteeReward} (hr : E.Reported s positions rewards) {db : Db}
    (hdb : db.SyncWritable spec false v s) :
    (Contract.alone (indexerSem spec node)).Ok (liveSyncSlot spec s (E.blockAt s) positions rewards) db
      (fun _ db' => db'.syncDuties.get (v, s) = match E.write false (some E.reward) s v with
        | some w => some w.toRow
        | none => db.syncDuties.get (v, s)) fun _ _ => True := by
  refine Contract.Ok.bind ((writes_upsertLiveSyncInSlot hpos s db).mono (fun _ db₁ h => ?_) fun _ _ _ => trivial)
  refine Contract.Ok.ask (fun _ _ => trivial) fun s₁ r s₂ s₃ h1 hres h3 => ?_
  obtain rfl : db₁ = s₁ := h1
  obtain rfl : s₂ = s₃ := h3
  rcases hres with ⟨now, rfl, rfl⟩ | ⟨message, rfl, -⟩
  · change (db₁.persistLiveSyncRewards s rewards).syncDuties.get (v, s) = _
    rw [Db.persistLiveSyncRewards, Table.get_modify]
    have hW : ∀ {w}, E.write false none s v = w →
        (if s = s then (if positions.has v then E.write false none s v else none) else none) = w :=
      fun h => by rw [if_pos rfl, if_pos hv, h]
    rcases E.slot_cases s with hb | ⟨bits, hbits⟩ | hb
    · have hnil := hr.nil fun bits ⟨r, b, _, hb', _⟩ => by
        rw [hb] at hb'
        cases hb'
      rw [h.writable (hW (write_skipped hb false none v)) hdb, hnil, write_skipped hb]
      rfl
    · rw [h.writable (hW (write_bits hbits false none v)) hdb, write_bits hbits]
      obtain ⟨ps, hps⟩ := Table.has_iff.1 hv
      obtain ⟨x, hx, hxv⟩ := hr.all bits hbits v ps hps
      cases hfind : rewards.find? (·.validatorIndex == v) with
      | none => exact absurd (List.find?_eq_none.1 hfind x hx) (by simp [hxv])
      | some y =>
        obtain ⟨bits', hbits', htotal⟩ := hr.total y (List.mem_of_find?_eq_some hfind)
        obtain rfl : y.validatorIndex = v := by simpa using List.find?_some hfind
        obtain rfl : bits = bits' := bitsAt_unique hbits hbits'
        simp [hfind, htotal, SyncWrite.toRow]
    · rw [h.of_none (hW (write_bitless hb false none v)), write_bitless hb, hr.nil hb.2]
      cases db.syncDuties.get (v, s) <;> rfl
  · trivial

/-- Two rows tell the same of a member. -/
def SameRow (a l : SyncRow) : Prop :=
  a.participated = l.participated ∧ a.missedBlock = l.missedBlock ∧ a.reward = l.reward

/-- A probed magnitude is the uniform reward. The rows of a completed archive scan are the rows of the live
worker; a scan that fails may leave rows unwritten, or written without the reward it could not learn. -/
theorem sync_rows_agree (hnode : ∀ q r, node q r → E.answers q r)
    (hpos : ∀ v ps, positions.get v = some ps → E.Consistent v ps) :
    (∀ relevant (slots : List Nat) db x db', Exec (indexerSem spec node) (probeSyncParticipantReward spec relevant E.committee
        (slots.map fun s => (s, E.blockAt s))).run db (.ok (some x)) db' → x = E.reward) ∧
    ∀ epoch tracked finalized db r db',
      Exec (indexerSem spec node) (processEpochSync spec epoch tracked finalized).run db r db' →
      ∀ v ∈ tracked, v ∈ E.committee → positions.has v = true →
      ∀ s ∈ List.range' (spec.epochStartSlot epoch) spec.slotsPerEpoch, db.SyncWritable spec finalized v s →
      ∀ rewards live live', E.Reported s positions rewards → live.SyncWritable spec false v s →
        Exec (indexerSem spec node) (liveSyncSlot spec s (E.blockAt s) positions rewards).run live (.ok ()) live' →
        (E.Bitless s ∧ db'.syncDuties.get (v, s) = db.syncDuties.get (v, s) ∧
          live'.syncDuties.get (v, s) = live.syncDuties.get (v, s)) ∨
        ∃ l, live'.syncDuties.get (v, s) = some l ∧ match r with
          | .ok _ => ∃ a, db'.syncDuties.get (v, s) = some a ∧ SameRow a l
          | .error _ => db'.syncDuties.get (v, s) = db.syncDuties.get (v, s) ∨
              ∃ a, db'.syncDuties.get (v, s) = some a ∧ (SameRow a l ∨
                SameRow a { l with reward := (db.syncDuties.get (v, s)).bind (·.reward) }) := by
  constructor
  · intro relevant slots db x db' hx
    exact ((reads_probe hnode relevant slots db).exec hx).1 x rfl
  · intro epoch tracked finalized db r db' hx v hv hc hp s hs hdb rewards live live' hrep hlive hlx
    have hl := (ok_liveSyncSlot hpos hp hrep hlive).exec hlx
    have hscan := Contract.Safe.exec hx (ok_processEpochSync hnode epoch tracked finalized db)
    have hW : ∀ {magnitude w}, E.write finalized magnitude s v = w →
        E.scanWrites epoch tracked finalized magnitude v s = w :=
      fun h => (if_pos ⟨hs, hv, hc⟩).trans h
    rcases E.slot_cases s with hb | ⟨bits, hbits⟩ | hb
    · rw [write_skipped hb] at hl
      refine .inr ⟨_, hl, ?_⟩
      cases r with
      | ok u =>
        obtain ⟨magnitude, -, -, hw⟩ := hscan
        exact ⟨_, hw.writable (hW (write_skipped hb finalized magnitude v)) hdb, rfl, rfl, rfl⟩
      | error e =>
        obtain ⟨magnitude, -, hw⟩ := hscan
        refine (hw.writable (hW (write_skipped hb finalized magnitude v)) hdb).imp_right fun h => ?_
        exact ⟨_, h, .inl ⟨rfl, rfl, rfl⟩⟩
    · rw [write_bits hbits] at hl
      refine .inr ⟨_, hl, ?_⟩
      cases r with
      | ok u =>
        obtain ⟨magnitude, hmag, hblocks, hw⟩ := hscan
        refine ⟨_, hw.writable (hW (write_bits hbits finalized magnitude v)) hdb, rfl, rfl, ?_⟩
        cases magnitude with
        | none =>
          obtain ⟨r, b, agg, hb, -⟩ := hbits
          rw [hblocks rfl s hs] at hb
          cases hb
        | some x =>
          rw [hmag x rfl]
          rfl
      | error e =>
        obtain ⟨magnitude, hmag, hw⟩ := hscan
        refine (hw.writable (hW (write_bits hbits finalized magnitude v)) hdb).imp_right fun h => ⟨_, h, ?_⟩
        cases magnitude with
        | none => exact .inr ⟨rfl, rfl, rfl⟩
        | some x =>
          rw [hmag x rfl]
          exact .inl ⟨rfl, rfl, rfl⟩
    · rw [write_bitless hb] at hl
      refine .inl ⟨hb, ?_, hl⟩
      cases r with
      | ok u =>
        obtain ⟨magnitude, -, -, hw⟩ := hscan
        exact hw.of_none (hW (write_bitless hb finalized magnitude v))
      | error e =>
        obtain ⟨magnitude, -, hw⟩ := hscan
        exact hw.of_none (hW (write_bitless hb finalized magnitude v))

/-! ## A member with two positions -/

/-- One slot an epoch, and a committee of eight in which 7 sits twice. -/
abbrev oneSlotSpec : ChainSpec := ⟨1, 8, 8, 0, by decide⟩

def repeatedCommittee : List Nat := [7, 7, 1, 2, 3, 4, 5, 6]

/-- The only block, at slot 0. -/
def onlyBlock (bits : List Char) (s : Nat) : Option (Root × SignedBeaconBlock) :=
  if s = 0 then some (⟨11⟩, ⟨0, 1, ⟨10⟩, ⟨12⟩, .altair [] ⟨bits⟩⟩) else none

theorem onlyBlock_eq {bits : List Char} {s : Nat} {r : Root} {b : SignedBeaconBlock}
    (h : onlyBlock bits s = some (r, b)) : s = 0 ∧ r = ⟨11⟩ ∧ b = ⟨0, 1, ⟨10⟩, ⟨12⟩, .altair [] ⟨bits⟩⟩ := by
  unfold onlyBlock at h
  split at h
  · cases h
    exact ⟨‹_›, rfl, rfl⟩
  · cases h

/-- Five for each position. -/
def oneSlotEpoch (bits : List Char) : SyncEpoch oneSlotSpec where
  committee := repeatedCommittee
  size := rfl
  block := onlyBlock bits
  slot_eq h := by
    obtain ⟨rfl, -, rfl⟩ := onlyBlock_eq h
    rfl
  one_block h h' := (onlyBlock_eq h).2.2.trans (onlyBlock_eq h').2.2.symm
  reward := 5
  total_lt {s bits} _ v := by
    have hle : ∀ b, positionsWith repeatedCommittee bits b v ≤ 8 := by
      intro b
      refine List.count_le_length.trans ?_
      rw [List.length_zip]
      exact Nat.min_le_left ..
    have h1 := hle true
    have h2 := hle false
    unfold netPositions
    omega

section Answers

variable {bits : List Char}

theorem oneSlotEpoch_duties : (oneSlotEpoch bits).answers (.syncDuties 0 [7]) (.ok [⟨7, [0, 1]⟩]) := by
  intro a h
  cases h
  refine ⟨fun d hd => ?_, fun v hv _ => ⟨⟨7, [0, 1]⟩, List.mem_singleton.2 rfl, (List.mem_singleton.1 hv).symm⟩⟩
  rw [List.mem_singleton.1 hd]
  exact List.mem_cons_self ..

theorem oneSlotEpoch_committee : (oneSlotEpoch bits).answers (.syncCommittee 0) (.ok repeatedCommittee) := by
  intro a h
  cases h
  rfl

theorem oneSlotEpoch_root : (oneSlotEpoch bits).answers (.blockRoot 0) (.ok (some ⟨11⟩)) := by
  intro a h
  cases h
  rfl

theorem oneSlotEpoch_block : (oneSlotEpoch bits).answers (.blockByRoot ⟨11⟩)
    (.ok (some ⟨0, 1, ⟨10⟩, ⟨12⟩, .altair [] ⟨bits⟩⟩)) := by
  intro a h s b hb
  cases h
  rw [(onlyBlock_eq hb).2.2]

theorem oneSlotEpoch_bitsAt {bs : List Bool} (h : decodeSyncCommitteeBits oneSlotSpec bits = .ok bs) :
    BitsAt oneSlotSpec (oneSlotEpoch bits).block 0 bs := ⟨_, _, _, rfl, rfl, h⟩

theorem oneSlotEpoch_total {bs : List Bool} (h : decodeSyncCommitteeBits oneSlotSpec bits = .ok bs) {x : Int}
    (hx : x = 5 * netPositions repeatedCommittee bs 7) :
    (oneSlotEpoch bits).answers (.syncRewardsBySlot 0 [7]) (.ok [⟨7, x⟩]) := by
  intro a ha y hy bs' hbs
  cases ha
  rw [List.mem_singleton.1 hy, bitsAt_unique hbs (oneSlotEpoch_bitsAt h)]
  exact hx

/-- 7 sits at the first two positions. -/
def positionsOfSeven : SyncPositions := Table.empty.put 7 [0, 1]

theorem positionsOfSeven_consistent (v : Nat) (ps : List Nat) (h : positionsOfSeven.get v = some ps) :
    (oneSlotEpoch bits).Consistent v ps := by
  unfold positionsOfSeven at h
  rw [Table.get_put] at h
  split at h
  · rename_i hv
    cases h
    subst hv
    intro p
    change p ∈ [0, 1] ↔ [7, 7, 1, 2, 3, 4, 5, 6][p]? = some 7
    match p with
    | 0 | 1 | 2 | 3 | 4 | 5 | 6 | 7 => decide
    | p + 8 => simp
  · cases h

theorem oneSlotEpoch_reported {bs : List Bool} (h : decodeSyncCommitteeBits oneSlotSpec bits = .ok bs) {x : Int}
    (hx : x = 5 * netPositions repeatedCommittee bs 7) : (oneSlotEpoch bits).Reported 0 positionsOfSeven [⟨7, x⟩] := by
  constructor
  · intro y hy
    rw [List.mem_singleton.1 hy]
    exact ⟨bs, oneSlotEpoch_bitsAt h, hx⟩
  · intro _ _ v ps hv
    unfold positionsOfSeven at hv
    rw [Table.get_put] at hv
    split at hv
    · exact ⟨_, List.mem_singleton.2 rfl, Eq.symm ‹_›⟩
    · cases hv

end Answers

/-- Both positions of 7 are set: the scan learns 5 a position from the total 10. -/
theorem oneSlotEpoch_scanned : Exec (indexerSem oneSlotSpec (oneSlotEpoch ['0', '3']).answers)
    (processEpochSync oneSlotSpec 0 [7] true).run .empty (.ok ())
    (Db.empty.upsertSyncDuty oneSlotSpec 7 0 ⟨true, some 10, false, true⟩) := by
  refine Exec.call_iff.2 ⟨.ok [⟨7, [0, 1]⟩], _, ⟨oneSlotEpoch_duties, rfl⟩, ?_⟩
  refine Exec.call_iff.2 ⟨.ok repeatedCommittee, _, ⟨oneSlotEpoch_committee, rfl⟩, ?_⟩
  refine Exec.call_iff.2 ⟨.ok (some ⟨11⟩), _, ⟨oneSlotEpoch_root, rfl⟩, ?_⟩
  refine Exec.call_iff.2 ⟨.ok (some ⟨0, 1, ⟨10⟩, ⟨12⟩, .altair [] ⟨['0', '3']⟩⟩), _, ⟨oneSlotEpoch_block, rfl⟩, ?_⟩
  refine Exec.call_iff.2 ⟨.ok [⟨7, 10⟩], _, ⟨oneSlotEpoch_total rfl rfl, rfl⟩, ?_⟩
  exact Exec.call_iff.2 ⟨_, _, .inl ⟨0, rfl, rfl⟩, .done _ _⟩

/-- One position of 7 is set: its total is 0 and the scan learns nothing. -/
theorem oneSlotEpoch_cancelled : Exec (indexerSem oneSlotSpec (oneSlotEpoch ['0', '1']).answers)
    (processEpochSync oneSlotSpec 0 [7] true).run .empty
    (.error (.beaconApi 404 "sync rewards unavailable for epoch 0; participation saved, scan incomplete"))
    (Db.empty.upsertSyncDuty oneSlotSpec 7 0 ⟨true, none, false, true⟩) := by
  refine Exec.call_iff.2 ⟨.ok [⟨7, [0, 1]⟩], _, ⟨oneSlotEpoch_duties, rfl⟩, ?_⟩
  refine Exec.call_iff.2 ⟨.ok repeatedCommittee, _, ⟨oneSlotEpoch_committee, rfl⟩, ?_⟩
  refine Exec.call_iff.2 ⟨.ok (some ⟨11⟩), _, ⟨oneSlotEpoch_root, rfl⟩, ?_⟩
  refine Exec.call_iff.2 ⟨.ok (some ⟨0, 1, ⟨10⟩, ⟨12⟩, .altair [] ⟨['0', '1']⟩⟩), _, ⟨oneSlotEpoch_block, rfl⟩, ?_⟩
  refine Exec.call_iff.2 ⟨.ok [⟨7, 0⟩], _, ⟨oneSlotEpoch_total rfl rfl, rfl⟩, ?_⟩
  exact Exec.call_iff.2 ⟨_, _, .inl ⟨0, rfl, rfl⟩, .done _ _⟩

theorem sync_rows_agree_bothSet : ∃ a l,
    (Db.empty.upsertSyncDuty oneSlotSpec 7 0 ⟨true, some 10, false, true⟩).syncDuties.get (7, 0) = some a ∧
    ((Db.empty.upsertSyncDuty oneSlotSpec 7 0 ⟨true, none, false, false⟩).persistLiveSyncRewards 0
      [⟨7, 10⟩]).syncDuties.get (7, 0) = some l ∧ SameRow a l := by
  have hlive : Exec (indexerSem oneSlotSpec (oneSlotEpoch ['0', '3']).answers) (liveSyncSlot oneSlotSpec 0
      ((oneSlotEpoch ['0', '3']).blockAt 0) positionsOfSeven [⟨7, 10⟩]).run .empty (.ok ()) _ :=
    Exec.call_iff.2 ⟨_, _, .inl ⟨0, rfl, rfl⟩, Exec.call_iff.2 ⟨_, _, .inl ⟨0, rfl, rfl⟩, .done _ _⟩⟩
  have hagree := (sync_rows_agree (E := oneSlotEpoch ['0', '3']) (fun _ _ h => h) positionsOfSeven_consistent).2 0 [7]
    true .empty _ _ oneSlotEpoch_scanned 7 (List.mem_cons_self ..) (List.mem_cons_self ..) rfl 0 (List.mem_singleton.2 rfl)
    (by intro old h; cases h) [⟨7, 10⟩] .empty _ (oneSlotEpoch_reported rfl rfl) (by intro old h; cases h) hlive
  rcases hagree with ⟨hb, -⟩ | ⟨l, hl, a, ha, hsame⟩
  · exact absurd (oneSlotEpoch_bitsAt rfl) (hb.2 _)
  · exact ⟨a, l, ha, hl, hsame⟩

/-- Where the positions of every tracked member cancel, the scan leaves its row without the reward that the
live worker stores. -/
theorem cancelled_rows_differ : ∃ e db' live' a l,
    Exec (indexerSem oneSlotSpec (oneSlotEpoch ['0', '1']).answers) (processEpochSync oneSlotSpec 0 [7] true).run .empty
      (.error e) db' ∧
    (∀ v ps, positionsOfSeven.get v = some ps → (oneSlotEpoch ['0', '1']).Consistent v ps) ∧
    (oneSlotEpoch ['0', '1']).Reported 0 positionsOfSeven [⟨7, 0⟩] ∧
    Exec (indexerSem oneSlotSpec (oneSlotEpoch ['0', '1']).answers) (liveSyncSlot oneSlotSpec 0
      ((oneSlotEpoch ['0', '1']).blockAt 0) positionsOfSeven [⟨7, 0⟩]).run .empty (.ok ()) live' ∧
    db'.syncDuties.get (7, 0) = some a ∧ live'.syncDuties.get (7, 0) = some l ∧
    a.reward = none ∧ l.reward = some 0 :=
  ⟨_, _, _, _, _, oneSlotEpoch_cancelled, positionsOfSeven_consistent, oneSlotEpoch_reported rfl rfl,
    Exec.call_iff.2 ⟨_, _, .inl ⟨0, rfl, rfl⟩, Exec.call_iff.2 ⟨_, _, .inl ⟨0, rfl, rfl⟩, .done _ _⟩⟩,
    rfl, rfl, rfl, rfl⟩

end SyncEpoch

end BeaconIndexer
