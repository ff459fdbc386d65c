/-
Decoding stays inside the bitlist: the committees resolved for an attestation take up as many bits as it
has, so no lookup panics, and every block decodes to inclusions or to an error.
-/
import BeaconIndexer.Base.Native
import BeaconIndexer.Scanner.Decode

namespace BeaconIndexer

open Native Relational

/-! ## Resolved committees -/

/-- The total size of the first `k` committees from index `i` on that the bits select. -/
def selectedSize (cmap : CommitteeMap) (slot i : Nat) (selection : List Bool) (k : Nat) : Nat :=
  ((List.range k).map fun j =>
    if selection.getD j false then ((cmap.get (slot, i + j)).getD []).length else 0).sum

/-- A step that may fail, followed by a last one. -/
theorem bind_eq_ok {ε α β : Type} {x : Except ε α} {f : α → Except ε β} {b : β} (h : (x >>= f) = .ok b) :
    ∃ a, x = .ok a ∧ f a = .ok b := by
  cases x with
  | error e => cases h
  | ok a => exact ⟨a, rfl, h⟩

theorem selectedSize_cons (cmap : CommitteeMap) (slot i : Nat) (b : Bool) (selection : List Bool) (k : Nat) :
    selectedSize cmap slot i (b :: selection) (k + 1) =
      (if b then ((cmap.get (slot, i)).getD []).length else 0) + selectedSize cmap slot (i + 1) selection k := by
  unfold selectedSize
  rw [List.range_succ_eq_map, List.map_cons, List.sum_cons, List.map_map]
  congr 2
  apply List.map_congr_left
  intro j _
  simp only [Function.comp_apply, Nat.succ_eq_add_one, List.getD_cons_succ]
  rw [show i + (j + 1) = i + 1 + j by omega]

/-- The committee is one that the bits select from index `i` on, at the total size of those before it. -/
def Selects (cmap : CommitteeMap) (slot i off : Nat) (selection : List Bool) (c : AssignedCommittee) : Prop :=
  ∃ k members, selection[k]? = some true ∧ cmap.get (slot, i + k) = some members ∧
    c = ⟨i + k, members, off + selectedSize cmap slot i selection k⟩

/-- What is selected is the first committee or is selected from the next index on. -/
theorem selects_cons {cmap : CommitteeMap} {slot i off n : Nat} {b : Bool} {selection : List Bool} {c : AssignedCommittee}
    (hn : (if b then ((cmap.get (slot, i)).getD []).length else 0) = n) :
    Selects cmap slot i off (b :: selection) c ↔
      (b = true ∧ ∃ members, cmap.get (slot, i) = some members ∧ c = ⟨i, members, off⟩) ∨
        Selects cmap slot (i + 1) (off + n) selection c := by
  unfold Selects
  rw [← Nat.or_exists_add_one]
  refine or_congr (by simp [selectedSize]) (exists_congr fun k => ?_)
  rw [List.getElem?_cons_succ, selectedSize_cons, hn, show i + (k + 1) = i + 1 + k by omega, Nat.add_assoc off]

/-- The committees are those the bits select, and they end before `stop`. -/
theorem assignCommittees_spec {slot : Nat} {cmap : CommitteeMap} :
    ∀ (selection : List Bool) (i off : Nat) {cs : List AssignedCommittee} {stop : Nat},
      assignCommittees slot cmap (selection.zipIdx i) off = .ok (cs, stop) →
      (∀ c, c ∈ cs ↔ Selects cmap slot i off selection c) ∧ off ≤ stop ∧ ∀ c ∈ cs, c.bitOffset + c.validators.length ≤ stop
  | [], i, off, cs, stop, h => by
    simp only [List.zipIdx_nil, assignCommittees] at h
    cases h
    simp [Selects]
  | false :: selection, i, off, cs, stop, h => by
    simp only [List.zipIdx_cons, assignCommittees] at h
    obtain ⟨hmem, hle, hin⟩ := assignCommittees_spec selection (i + 1) off h
    refine ⟨fun c => (hmem c).trans ?_, hle, hin⟩
    rw [selects_cons rfl]
    simp
  | true :: selection, i, off, cs, stop, h => by
    simp only [List.zipIdx_cons, assignCommittees] at h
    cases hc : cmap.get (slot, i) with
    | none => rw [hc] at h; cases h
    | some members =>
      rw [hc] at h
      simp only at h
      cases hr : assignCommittees slot cmap (selection.zipIdx (i + 1)) (off + members.length) with
      | error e => rw [hr] at h; cases h
      | ok r =>
        obtain ⟨rest, stop'⟩ := r
        rw [hr] at h
        cases h
        obtain ⟨hmem, hle, hin⟩ := assignCommittees_spec selection (i + 1) (off + members.length) hr
        refine ⟨fun c => ?_, by omega, List.forall_mem_cons.2 ⟨hle, hin⟩⟩
        rw [List.mem_cons, hmem, selects_cons rfl, hc]
        simp

theorem resolvePreElectraCommittees_ok {att : PreElectraAttestation} {cmap : CommitteeMap} {n : Nat}
    {cs : List AssignedCommittee} (h : resolvePreElectraCommittees att cmap n = .ok cs) :
    ∃ members, cmap.get (att.data.slot, att.data.index) = some members ∧ n = members.length ∧
      cs = [⟨att.data.index, members, 0⟩] := by
  unfold resolvePreElectraCommittees at h
  cases hc : cmap.get (att.data.slot, att.data.index) with
  | none => rw [hc] at h; cases h
  | some members =>
    rw [hc] at h
    simp only at h
    by_cases hn : n = members.length
    · rw [if_neg (not_not.2 hn)] at h
      cases h; exact ⟨members, rfl, hn, rfl⟩
    · rw [if_pos hn] at h; cases h

theorem resolveElectraCommittees_ok {spec : ChainSpec} {att : Attestation} {cmap : CommitteeMap} {n : Nat}
    {cs : List AssignedCommittee} (h : resolveElectraCommittees spec att cmap n = .ok cs) :
    ∃ selection, decodeBitvector att.committeeBits = .ok selection ∧
      (∀ c, c ∈ cs ↔ ∃ k members, selection[k]? = some true ∧ cmap.get (att.data.slot, k) = some members ∧
        c = ⟨k, members, selectedSize cmap att.data.slot 0 selection k⟩) ∧
      ∀ c ∈ cs, c.bitOffset + c.validators.length ≤ n := by
  unfold resolveElectraCommittees at h
  by_cases hi : att.data.index = 0
  · rw [if_neg (not_not.2 hi)] at h
    obtain ⟨selection, hs, h⟩ := bind_eq_ok h
    by_cases hl : selection.length = spec.maxCommitteesPerSlot
    · rw [if_neg (not_not.2 hl)] at h
      obtain ⟨⟨assigned, stop⟩, ha, h⟩ := bind_eq_ok h
      obtain ⟨hmem, -, hin⟩ := assignCommittees_spec selection 0 0 ha
      simp only [Selects, Nat.zero_add] at hmem
      dsimp only at h
      by_cases he : assigned.isEmpty = true
      · rw [if_pos he] at h; cases h
      · rw [if_neg he] at h
        by_cases hn : n = stop
        · rw [if_neg (not_not.2 hn)] at h
          cases h
          exact ⟨selection, hs, hmem, hn ▸ hin⟩
        · rw [if_pos (show n ≠ stop from hn)] at h; cases h
    · rw [if_pos hl] at h; cases h
  · rw [if_pos hi] at h; cases h

/-! ## Lookups -/

/-- The committees take up no more bits than there are. -/
def InRange (cs : List AssignedCommittee) (bits : List Bool) : Prop :=
  ∀ c ∈ cs, c.bitOffset + c.validators.length ≤ bits.length

/-- The tracked members of the committee whose bit is set. -/
def AssignedCommittee.voters (c : AssignedCommittee) (bits : List Bool) (vs : List Nat) : List Nat :=
  (c.validators.zipIdx.filter fun (v, pos) => vs.contains v && c.bit bits pos == some true).map Prod.fst

/-- The marks of a vote; without a context nothing is marked. -/
def voteMarks (ctx : Option VoteContext) (data : AttestationData) : Except Error VoteMarks :=
  match ctx with
  | some c => computeVoteCorrectness data c
  | none => .ok ⟨false, false, false⟩

section Lookups

variable {c : AssignedCommittee} {cs : List AssignedCommittee} {bits : List Bool} {vs : List Nat} {slot : Nat}
  {ctx : Option VoteContext} {incs : Inclusions}

theorem AssignedCommittee.voted_eq (h : c.bitOffset + c.validators.length ≤ bits.length) {v pos : Nat}
    (hm : (v, pos) ∈ c.validators.zipIdx) :
    c.voted bits vs v pos = some (vs.contains v && c.bit bits pos == some true) := by
  have hpos : pos < c.validators.length := (List.getElem?_eq_some_iff.1 (List.mem_zipIdx_iff_getElem?.1 hm)).1
  obtain ⟨b, hb⟩ : ∃ b, c.bit bits pos = some b := ⟨_, List.getElem?_eq_getElem (by omega)⟩
  unfold AssignedCommittee.voted
  rw [hb]
  cases vs.contains v <;> simp

theorem anyVoted_eq (h : InRange cs bits) :
    anyVoted cs bits vs = some (cs.any fun c => !(c.voters bits vs).isEmpty) := by
  refine anyM_eq_some fun c hc => (anyM_eq_some fun x hx => AssignedCommittee.voted_eq (h c hc) hx).trans ?_
  rw [AssignedCommittee.voters, List.isEmpty_map, Option.some.injEq, Bool.eq_iff_iff]
  simp

/-- In range a committee adds the inclusions of its voters. -/
theorem recordCommitteeInclusions_eq (h : c.bitOffset + c.validators.length ≤ bits.length) (delay : Nat)
    (marks : VoteMarks) : recordCommitteeInclusions c bits vs slot delay marks incs = some (incs.insertAll
      (c.voters bits vs) ⟨slot, delay, marks.sourceCorrect, marks.targetCorrect, marks.headCorrect⟩) := by
  unfold recordCommitteeInclusions AssignedCommittee.voters Table.insertAll
  rw [List.foldl_map, List.foldl_filter]
  refine foldlM_eq_some fun incs x hx => ?_
  obtain ⟨v, pos⟩ := x
  dsimp only
  rw [AssignedCommittee.voted_eq h hx, Option.bind_eq_bind, Option.bind_some]
  split <;> rfl

/-- In range an attestation is processed without a panic. -/
theorem processResolvedAttestation_eq (h : InRange cs bits) (data : AttestationData) :
    processResolvedAttestation data bits cs slot vs ctx incs = some (do
      let delay ← inclusionDelay slot data.slot
      if !cs.any fun c => !(c.voters bits vs).isEmpty then return incs
      let marks ← voteMarks ctx data
      return cs.foldl (fun incs c => incs.insertAll (c.voters bits vs)
        ⟨slot, delay, marks.sourceCorrect, marks.targetCorrect, marks.headCorrect⟩) incs) := by
  have hrecord : ∀ delay marks, cs.foldlM (fun incs c => recordCommitteeInclusions c bits vs slot delay marks incs) incs =
      some (cs.foldl (fun incs c => incs.insertAll (c.voters bits vs)
        ⟨slot, delay, marks.sourceCorrect, marks.targetCorrect, marks.headCorrect⟩) incs) := fun delay marks =>
    foldlM_eq_some fun _ c hc => recordCommitteeInclusions_eq (h c hc) delay marks
  unfold processResolvedAttestation
  rw [anyVoted_eq h]
  cases inclusionDelay slot data.slot with
  | error e => rfl
  | ok delay =>
    cases cs.any fun c => !(c.voters bits vs).isEmpty with
    | false => rfl
    | true =>
      cases ctx with
      | none => exact congrArg (Option.map Except.ok) (hrecord delay ⟨false, false, false⟩)
      | some c =>
        cases hm : computeVoteCorrectness data c with
        | error e => simp only [voteMarks, hm]; rfl
        | ok marks =>
          simp only [voteMarks, hm]
          exact congrArg (Option.map Except.ok) (hrecord delay marks)

end Lookups

/-! ## Decoding -/

theorem Decoding.bind_isSome {α β : Type} {x : Decoding α} {f : α → Decoding β} (hx : x.run.isSome)
    (hf : ∀ a, x.run = some (.ok a) → (f a).run.isSome) : (x >>= f).run.isSome := by
  obtain ⟨r, hr⟩ := Option.isSome_iff_exists.1 hx
  cases r with
  | error e => rw [ExceptT.run_bind, hr]; rfl
  | ok a => rw [ExceptT.run_bind, hr]; exact hf a hr

/-- A step of a decoding that succeeds, followed by the rest. -/
theorem Decoding.bind_eq_ok {α β : Type} {x : Decoding α} {f : α → Decoding β} {b : β} (h : (x >>= f) = some (.ok b)) :
    ∃ a, x = some (.ok a) ∧ f a = some (.ok b) := by
  cases x with
  | none => cases h
  | some r =>
    cases r with
    | error e => cases h
    | ok a => exact ⟨a, rfl, h⟩

/-- The checks before an attestation's votes do not panic, and they leave its committees in range. -/
theorem Decoding.resolved_isSome {resolve : Nat → Except Error (List AssignedCommittee)}
    {bits : Except Error (List Bool)} {f : List Bool → List AssignedCommittee → Decoding Inclusions}
    (hf : ∀ bits cs, resolve bits.length = .ok cs → (f bits cs).run.isSome) :
    (do
      let bits ← (bits : Decoding _)
      let cs ← (resolve bits.length : Decoding _)
      f bits cs : Decoding Inclusions).run.isSome := by
  refine bind_isSome rfl fun bs _ => bind_isSome rfl fun cs hcs => hf bs cs ?_
  exact Option.some.inj hcs

theorem resolvePreElectraCommittees_inRange {att : PreElectraAttestation} {cmap : CommitteeMap} {bits : List Bool}
    {cs : List AssignedCommittee} (h : resolvePreElectraCommittees att cmap bits.length = .ok cs) : InRange cs bits := by
  obtain ⟨members, -, hlen, rfl⟩ := resolvePreElectraCommittees_ok h
  intro c hc
  obtain rfl := List.mem_singleton.1 hc
  simp [hlen]

theorem resolveElectraCommittees_inRange {spec : ChainSpec} {att : Attestation} {cmap : CommitteeMap} {bits : List Bool}
    {cs : List AssignedCommittee} (h : resolveElectraCommittees spec att cmap bits.length = .ok cs) : InRange cs bits := by
  obtain ⟨-, -, -, hin⟩ := resolveElectraCommittees_ok h
  exact hin

theorem processPreElectraAttestation_isSome (spec : ChainSpec) (slot epoch : Nat) (cmap : CommitteeMap) (vs : List Nat)
    (ctx : Option VoteContext) (incs : Inclusions) (att : PreElectraAttestation) :
    (processPreElectraAttestation spec slot epoch cmap vs ctx incs att).run.isSome := by
  unfold processPreElectraAttestation
  split
  · rfl
  · exact Decoding.resolved_isSome fun bits cs hcs =>
      Option.isSome_of_eq_some (processResolvedAttestation_eq (resolvePreElectraCommittees_inRange hcs) att.data)

theorem processElectraAttestation_isSome (spec : ChainSpec) (slot epoch : Nat) (cmap : CommitteeMap) (vs : List Nat)
    (ctx : Option VoteContext) (incs : Inclusions) (att : Attestation) :
    (processElectraAttestation spec slot epoch cmap vs ctx incs att).run.isSome := by
  unfold processElectraAttestation
  split
  · rfl
  · exact Decoding.resolved_isSome fun bits cs hcs =>
      Option.isSome_of_eq_some (processResolvedAttestation_eq (resolveElectraCommittees_inRange hcs) att.data)

/-- An attestation of the epoch that is processed has passed every check before its votes. -/
theorem processPreElectraAttestation_ok {spec : ChainSpec} {slot epoch : Nat} {cmap : CommitteeMap} {vs : List Nat}
    {ctx : Option VoteContext} {incs incs' : Inclusions} {att : PreElectraAttestation}
    (h : processPreElectraAttestation spec slot epoch cmap vs ctx incs att = some (.ok incs'))
    (he : spec.slotToEpoch att.data.slot = epoch) :
    ∃ bits cs, decodeBitlist att.aggregationBits = .ok bits ∧ resolvePreElectraCommittees att cmap bits.length = .ok cs ∧
      processResolvedAttestation att.data bits cs slot vs ctx incs = some (.ok incs') := by
  unfold processPreElectraAttestation at h
  rw [if_neg (not_not.2 he)] at h
  obtain ⟨bits, hb, h⟩ := Decoding.bind_eq_ok h
  obtain ⟨cs, hc, h⟩ := Decoding.bind_eq_ok h
  exact ⟨bits, cs, Option.some.inj hb, Option.some.inj hc, h⟩

theorem processElectraAttestation_ok {spec : ChainSpec} {slot epoch : Nat} {cmap : CommitteeMap} {vs : List Nat}
    {ctx : Option VoteContext} {incs incs' : Inclusions} {att : Attestation}
    (h : processElectraAttestation spec slot epoch cmap vs ctx incs att = some (.ok incs'))
    (he : spec.slotToEpoch att.data.slot = epoch) :
    ∃ bits cs, decodeBitlist att.aggregationBits = .ok bits ∧ resolveElectraCommittees spec att cmap bits.length = .ok cs ∧
      processResolvedAttestation att.data bits cs slot vs ctx incs = some (.ok incs') := by
  unfold processElectraAttestation at h
  rw [if_neg (not_not.2 he)] at h
  obtain ⟨bits, hb, h⟩ := Decoding.bind_eq_ok h
  obtain ⟨cs, hc, h⟩ := Decoding.bind_eq_ok h
  exact ⟨bits, cs, Option.some.inj hb, Option.some.inj hc, h⟩

theorem Decoding.foldlM_isSome {α σ : Type} {f : σ → α → Decoding σ} (hf : ∀ s a, (f s a).run.isSome) :
    ∀ (l : List α) (s : σ), (l.foldlM f s).run.isSome
  | [], _ => rfl
  | a :: l, s => by
    rw [List.foldlM_cons]
    exact bind_isSome (hf s a) fun s _ => foldlM_isSome hf l s

/-- Decoding a block never panics. -/
theorem extractAttestationInclusions_isSome (spec : ChainSpec) (block : SignedBeaconBlock) (slot epoch : Nat)
    (cmap : CommitteeMap) (vs : List Nat) (ctx : Option VoteContext) (incs : Inclusions) :
    (extractAttestationInclusions spec block slot epoch cmap vs ctx incs).run.isSome := by
  unfold extractAttestationInclusions
  cases block.attestations with
  | preElectra atts => exact Decoding.foldlM_isSome (processPreElectraAttestation_isSome spec slot epoch cmap vs ctx) atts incs
  | electra atts => exact Decoding.foldlM_isSome (processElectraAttestation_isSome spec slot epoch cmap vs ctx) atts incs

/-- What a block decodes to. -/
def decodeInclusions (spec : ChainSpec) (block : SignedBeaconBlock) (inclusionSlot targetEpoch : Nat)
    (committeeMap : CommitteeMap) (validators : List Nat) (ctx : Option VoteContext) (inclusions : Inclusions) :
    Except Error Inclusions :=
  (extractAttestationInclusions spec block inclusionSlot targetEpoch committeeMap validators ctx inclusions).run.get
    (extractAttestationInclusions_isSome spec block inclusionSlot targetEpoch committeeMap validators ctx inclusions)

theorem extractAttestationInclusions_eq (spec : ChainSpec) (block : SignedBeaconBlock) (slot epoch : Nat)
    (cmap : CommitteeMap) (vs : List Nat) (ctx : Option VoteContext) (incs : Inclusions) :
    extractAttestationInclusions spec block slot epoch cmap vs ctx incs =
      some (decodeInclusions spec block slot epoch cmap vs ctx incs) :=
  (Option.some_get _).symm

/-- Each validator's earliest inclusion over the blocks of a window wins. -/
def collectInclusionsFromBlocks (spec : ChainSpec) (blocks : List (Nat × Option SignedBeaconBlock))
    (committeeMap : CommitteeMap) (validators : List Nat) (ctx : VoteContext) : Except Error Inclusions :=
  blocks.foldlM (fun inclusions (slot, block) => match block with
    | some block => decodeInclusions spec block slot ctx.targetEpoch committeeMap validators (some ctx) inclusions
    | none => pure inclusions) .empty

end BeaconIndexer
