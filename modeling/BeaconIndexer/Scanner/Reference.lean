/-
The reference meaning of a block's attestations: the bit of each committee member by the layout of
the two wire formats. Decoding records exactly the first vote of each scanned validator.
-/
import BeaconIndexer.Scanner.Votes

namespace BeaconIndexer

open Relational

/-! ## Reference -/

/-- One committee: the bit of a member is its position. -/
def PreElectraAttestation.VoteOf (cmap : CommitteeMap) (att : PreElectraAttestation) (v : Nat) : Prop :=
  ∃ (bits : List Bool) (members : List Nat) (p : Nat), decodeBitlist att.aggregationBits = .ok bits ∧
    cmap.get (att.data.slot, att.data.index) = some members ∧ members[p]? = some v ∧ bits[p]? = some true

/-- Several committees: the bits of a committee follow those of the selected ones before it. -/
def Attestation.VoteOf (cmap : CommitteeMap) (att : Attestation) (v : Nat) : Prop :=
  ∃ (selection bits : List Bool) (c : Nat) (members : List Nat) (p : Nat), decodeBitvector att.committeeBits = .ok selection ∧
    decodeBitlist att.aggregationBits = .ok bits ∧ selection[c]? = some true ∧
    cmap.get (att.data.slot, c) = some members ∧ members[p]? = some v ∧
    bits[p + selectedSize cmap att.data.slot 0 selection c]? = some true

/-- An attestation of either format: its data and the validators whose bit is set. -/
structure Aggregate where
  data : AttestationData
  VoteOf : Nat → Prop

def SignedBeaconBlock.aggregates (cmap : CommitteeMap) (block : SignedBeaconBlock) : List Aggregate :=
  match block.attestations with
  | .preElectra atts => atts.map fun att => ⟨att.data, att.VoteOf cmap⟩
  | .electra atts => atts.map fun att => ⟨att.data, att.VoteOf cmap⟩

/-- The attestation votes for the epoch on behalf of `v`. -/
def Aggregate.Votes (spec : ChainSpec) (epoch v : Nat) (a : Aggregate) : Prop :=
  spec.slotToEpoch a.data.slot = epoch ∧ a.VoteOf v

/-- `data` is that of the first attestation of the list that votes for the epoch on behalf of `v`. -/
def FirstVote (spec : ChainSpec) (epoch v : Nat) (aggregates : List Aggregate) (data : AttestationData) : Prop :=
  ∃ before a after, aggregates = before ++ a :: after ∧ a.data = data ∧ a.Votes spec epoch v ∧
    ∀ b ∈ before, ¬b.Votes spec epoch v

/-- The marks of a vote against a chain; without one nothing is marked. -/
inductive MarkedAgainst (data : AttestationData) : Option VoteContext → VoteMarks → Prop
  | unchecked : MarkedAgainst data none ⟨false, false, false⟩
  | checked (ctx : VoteContext) (root : Root) (marks : VoteMarks) (hroot : ctx.blockRoots.get data.slot = some root)
      (hhead : marks.headCorrect = true ↔ data.beaconBlockRoot = root)
      (htarget : marks.targetCorrect = true ↔ data.target = ⟨ctx.targetEpoch, ctx.targetRoot⟩)
      (hsource : marks.sourceCorrect = true ↔ ∀ source, ctx.source = some source → data.source = source) :
      MarkedAgainst data (some ctx) marks

/-! ## Votes -/

theorem AssignedCommittee.hasVote_iff {c : AssignedCommittee} {bits : List Bool} {v : Nat} :
    c.hasVote bits v = true ↔ ∃ p : Nat, c.validators[p]? = some v ∧ bits[p + c.bitOffset]? = some true := by
  have hbit : ∀ p, c.bit bits p = bits[p + c.bitOffset]? := by
    intro p
    rw [AssignedCommittee.bit, Nat.add_comm]
  unfold AssignedCommittee.hasVote
  simp only [List.any_eq_true, Prod.exists, Bool.and_eq_true, beq_iff_eq, List.mem_zipIdx_iff_getElem?]
  constructor
  · rintro ⟨v', p, hp, rfl, hb⟩; exact ⟨p, hp, (hbit p).symm.trans hb⟩
  · rintro ⟨p, hp, hb⟩; exact ⟨v, p, hp, rfl, (hbit p).trans hb⟩

/-- The attestation has passed every check of decoding. -/
def Resolves (resolve : Nat → Except Error (List AssignedCommittee)) (bits : Except Error (List Bool)) : Prop :=
  ∃ bs cs, bits = .ok bs ∧ resolve bs.length = .ok cs

theorem PreElectraAttestation.carries_iff {cmap : CommitteeMap} {att : PreElectraAttestation} {v : Nat}
    (h : Resolves (resolvePreElectraCommittees att cmap) (decodeBitlist att.aggregationBits)) :
    att.carries cmap v = true ↔ att.VoteOf cmap v := by
  obtain ⟨bits, cs, hb, hc⟩ := h
  obtain ⟨members, hm, -, hcs⟩ := resolvePreElectraCommittees_ok hc
  unfold PreElectraAttestation.carries BeaconIndexer.carries PreElectraAttestation.VoteOf
  rw [hb]
  simp only
  rw [hc]
  simp only [hcs, List.any_cons, List.any_nil, Bool.or_false, AssignedCommittee.hasVote_iff, Nat.add_zero]
  constructor
  · rintro ⟨p, hp, hbit⟩; exact ⟨bits, members, p, rfl, hm, hp, hbit⟩
  · rintro ⟨bits', members', p, hbits, hm', hp, hbit⟩
    cases hbits
    rw [hm] at hm'
    cases hm'
    exact ⟨p, hp, hbit⟩

theorem Attestation.carries_iff {spec : ChainSpec} {cmap : CommitteeMap} {att : Attestation} {v : Nat}
    (h : Resolves (resolveElectraCommittees spec att cmap) (decodeBitlist att.aggregationBits)) :
    att.carries spec cmap v = true ↔ att.VoteOf cmap v := by
  obtain ⟨bits, cs, hb, hc⟩ := h
  obtain ⟨selection, hs, hmem, -⟩ := resolveElectraCommittees_ok hc
  unfold Attestation.carries BeaconIndexer.carries Attestation.VoteOf
  rw [hb]
  simp only
  rw [hc]
  simp only [List.any_eq_true, AssignedCommittee.hasVote_iff]
  constructor
  · rintro ⟨c, hcs, p, hp, hbit⟩
    obtain ⟨k, members, hk, hm, rfl⟩ := (hmem c).1 hcs
    exact ⟨selection, bits, k, members, p, hs, rfl, hk, hm, hp, hbit⟩
  · rintro ⟨selection', bits', k, members, p, hs', hbits, hk, hm, hp, hbit⟩
    cases hbits
    rw [hs] at hs'
    cases hs'
    exact ⟨_, (hmem _).2 ⟨k, members, hk, hm, rfl⟩, p, hp, hbit⟩

/-- Every step of a fold that succeeds has succeeded. -/
theorem foldlM_ok_of_mem {α σ : Type} {f : σ → α → Decoding σ} : ∀ (l : List α) {s s' : σ},
    l.foldlM f s = some (.ok s') → ∀ a ∈ l, ∃ t t', f t a = some (.ok t')
  | a :: l, s, s', h, b, hb => by
    rw [List.foldlM_cons] at h
    obtain ⟨mid, h1, h2⟩ := Decoding.bind_eq_ok h
    rcases List.mem_cons.1 hb with rfl | hb
    · exact ⟨s, mid, h1⟩
    · exact foldlM_ok_of_mem l h2 b hb

theorem processPreElectraAttestation_resolves {spec : ChainSpec} {slot epoch : Nat} {cmap : CommitteeMap}
    {vs : List Nat} {ctx : Option VoteContext} {incs incs' : Inclusions} {att : PreElectraAttestation}
    (h : processPreElectraAttestation spec slot epoch cmap vs ctx incs att = some (.ok incs'))
    (he : spec.slotToEpoch att.data.slot = epoch) :
    Resolves (resolvePreElectraCommittees att cmap) (decodeBitlist att.aggregationBits) := by
  obtain ⟨bits, cs, hb, hc, -⟩ := processPreElectraAttestation_ok h he
  exact ⟨bits, cs, hb, hc⟩

theorem processElectraAttestation_resolves {spec : ChainSpec} {slot epoch : Nat} {cmap : CommitteeMap}
    {vs : List Nat} {ctx : Option VoteContext} {incs incs' : Inclusions} {att : Attestation}
    (h : processElectraAttestation spec slot epoch cmap vs ctx incs att = some (.ok incs'))
    (he : spec.slotToEpoch att.data.slot = epoch) :
    Resolves (resolveElectraCommittees spec att cmap) (decodeBitlist att.aggregationBits) := by
  obtain ⟨bits, cs, hb, hc, -⟩ := processElectraAttestation_ok h he
  exact ⟨bits, cs, hb, hc⟩

/-- A search that decides the votes of every aggregate finds the first one. -/
theorem firstVote_iff_find {α : Type} {spec : ChainSpec} {epoch v : Nat} {l : List α} {g : α → Aggregate}
    {p : α → Bool} (hp : ∀ a ∈ l, p a = true ↔ (g a).Votes spec epoch v) (data : AttestationData) :
    (l.find? p).map (fun a => (g a).data) = some data ↔ FirstVote spec epoch v (l.map g) data := by
  constructor
  · intro h
    obtain ⟨a, hf, rfl⟩ := Option.map_eq_some_iff.1 h
    obtain ⟨ha, before, after, rfl, hbefore⟩ := List.find?_eq_some_iff_append.1 hf
    refine ⟨before.map g, g a, after.map g, by simp, rfl, (hp a (by simp)).1 ha, ?_⟩
    intro b hb
    obtain ⟨x, hx, rfl⟩ := List.mem_map.1 hb
    intro hv
    have := hbefore x hx
    rw [(hp x (by simp [hx])).2 hv] at this
    cases this
  · rintro ⟨before, a, after, hl, rfl, ha, hbefore⟩
    obtain ⟨xs, rest, rfl, rfl, hrest⟩ := List.map_eq_append_iff.1 hl
    obtain ⟨x, ys, rfl, rfl, rfl⟩ := List.map_eq_cons_iff.1 hrest
    have hf : (xs ++ x :: ys).find? p = some x := by
      refine List.find?_eq_some_iff_append.2 ⟨(hp x (by simp)).2 ha, xs, ys, rfl, fun b hb => ?_⟩
      have := hbefore (g b) (List.mem_map_of_mem hb)
      rw [← hp b (by simp [hb])] at this
      simpa using this
    rw [hf]; rfl

/-- When decoding succeeds, the vote it looks for is the first one of the reference. -/
theorem SignedBeaconBlock.voteOf_iff {spec : ChainSpec} {block : SignedBeaconBlock} {slot epoch : Nat}
    {cmap : CommitteeMap} {vs : List Nat} {ctx : Option VoteContext} {incs incs' : Inclusions}
    (h : extractAttestationInclusions spec block slot epoch cmap vs ctx incs = some (.ok incs')) (v : Nat)
    (data : AttestationData) :
    block.voteOf spec cmap epoch v = some data ↔ FirstVote spec epoch v (block.aggregates cmap) data := by
  unfold extractAttestationInclusions at h
  unfold SignedBeaconBlock.voteOf SignedBeaconBlock.aggregates
  cases ha : block.attestations with
  | preElectra atts =>
    rw [ha] at h
    simp only
    refine firstVote_iff_find (g := fun att : PreElectraAttestation => ⟨att.data, att.VoteOf cmap⟩) ?_ data
    intro att hatt
    obtain ⟨t, t', ht⟩ := foldlM_ok_of_mem atts h att hatt
    rw [Bool.and_eq_true, beq_iff_eq]
    apply and_congr_right
    intro he
    exact PreElectraAttestation.carries_iff (processPreElectraAttestation_resolves ht he)
  | electra atts =>
    rw [ha] at h
    simp only
    refine firstVote_iff_find (g := fun att : Attestation => ⟨att.data, att.VoteOf cmap⟩) ?_ data
    intro att hatt
    obtain ⟨t, t', ht⟩ := foldlM_ok_of_mem atts h att hatt
    rw [Bool.and_eq_true, beq_iff_eq]
    apply and_congr_right
    intro he
    exact Attestation.carries_iff (processElectraAttestation_resolves ht he)

theorem voteMarks_marked {ctx : Option VoteContext} {data : AttestationData} {marks : VoteMarks}
    (h : voteMarks ctx data = .ok marks) : MarkedAgainst data ctx marks := by
  cases ctx with
  | none => cases h; exact .unchecked
  | some c =>
    simp only [voteMarks, computeVoteCorrectness] at h
    cases hroot : c.blockRoots.get data.slot with
    | none => rw [hroot] at h; cases h
    | some root =>
      rw [hroot] at h
      cases h
      refine .checked c root _ hroot ?_ ?_ ?_
      · simp
      · obtain ⟨slot, index, head, source, epoch, target⟩ := data
        simp
      · obtain ⟨slot, index, head, ⟨epoch, source⟩, target⟩ := data
        cases hsource : c.source with
        | none => simp
        | some s => obtain ⟨e, r⟩ := s; simp

/-! ## Decoding a block -/

/-- What decoding a block at `slot` must leave in the inclusion map. -/
structure Decoded (spec : ChainSpec) (slot epoch : Nat) (vs : List Nat) (ctx : Option VoteContext)
    (aggregates : List Aggregate) (incs incs' : Inclusions) : Prop where
  keeps : ∀ v inc, incs.get v = some inc → incs'.get v = some inc
  added : ∀ v, incs.get v = none →
    ((∃ inc, incs'.get v = some inc) ↔ v ∈ vs ∧ ∃ a ∈ aggregates, a.Votes spec epoch v)
  entry : ∀ v inc, incs.get v = none → incs'.get v = some inc → ∃ data marks,
    FirstVote spec epoch v aggregates data ∧ data.slot ≤ slot ∧ MarkedAgainst data ctx marks ∧
    inc = ⟨slot, slot - data.slot, marks.sourceCorrect, marks.targetCorrect, marks.headCorrect⟩

theorem exists_firstVote_iff {spec : ChainSpec} {epoch v : Nat} {aggregates : List Aggregate} :
    (∃ data, FirstVote spec epoch v aggregates data) ↔ ∃ a ∈ aggregates, a.Votes spec epoch v := by
  constructor
  · rintro ⟨data, before, a, after, rfl, -, ha, -⟩
    exact ⟨a, by simp, ha⟩
  · induction aggregates with
    | nil => rintro ⟨a, ha, -⟩; cases ha
    | cons b rest ih =>
      rintro ⟨a, ha, hv⟩
      by_cases hb : b.Votes spec epoch v
      · exact ⟨b.data, [], b, rest, rfl, rfl, hb, by simp⟩
      · have hmem : a ∈ rest := by
          rcases List.mem_cons.1 ha with rfl | h
          · exact absurd hv hb
          · exact h
        obtain ⟨data, before, x, after, rfl, hd, hx, hn⟩ := ih ⟨a, hmem, hv⟩
        refine ⟨data, b :: before, x, after, rfl, hd, hx, fun y hy => ?_⟩
        rcases List.mem_cons.1 hy with rfl | hy
        · exact hb
        · exact hn y hy

/-- Decoding a block never looks up an aggregation bit out of range, and a block that decodes leaves the
inclusions of the reference. -/
theorem extractAttestationInclusions_decodes (spec : ChainSpec) (block : SignedBeaconBlock) (slot epoch : Nat)
    (cmap : CommitteeMap) (vs : List Nat) (ctx : Option VoteContext) (incs : Inclusions) :
    ∃ result, extractAttestationInclusions spec block slot epoch cmap vs ctx incs = some result ∧
      ∀ incs', result = .ok incs' → Decoded spec slot epoch vs ctx (block.aggregates cmap) incs incs' := by
  refine ⟨_, extractAttestationInclusions_eq spec block slot epoch cmap vs ctx incs, fun incs' h => ?_⟩
  have hadds := decodeInclusions_adds h
  have hvote := SignedBeaconBlock.voteOf_iff
    ((extractAttestationInclusions_eq spec block slot epoch cmap vs ctx incs).trans (congrArg some h))
  refine ⟨hadds.keeps, fun v hn => ?_, fun v inc hn hi => ?_⟩
  · rw [← exists_firstVote_iff]
    constructor
    · rintro ⟨inc, hi⟩
      obtain ⟨hv, data, hd, -⟩ := hadds.recorded hn hi
      exact ⟨hv, data, (hvote v data).1 hd⟩
    · rintro ⟨hv, data, hd⟩
      obtain ⟨inc, hi, -⟩ := hadds.found v hv data hn ((hvote v data).2 hd)
      exact ⟨inc, hi⟩
  · obtain ⟨_, data, hd, hslot, marks, hm, rfl⟩ := hadds.recorded hn hi
    exact ⟨data, marks, (hvote v data).1 hd, hslot, voteMarks_marked hm, rfl⟩

/-- Committees 1 and 3 of slot 1, and a block at slot 2 in which only the second member of committee
3 votes: its bit comes after the one of committee 1. -/
def twoCommittees : CommitteeMap := .ofList [((1, 1), [5]), ((1, 3), [7, 9])]

def twoCommitteeBlock : SignedBeaconBlock :=
  ⟨2, 0, ⟨1⟩, ⟨2⟩, .electra [⟨['0', 'x', '0', 'c'], ['0', 'x', '0', 'a'], ⟨1, 0, ⟨1⟩, ⟨0, ⟨0⟩⟩, ⟨0, ⟨0⟩⟩⟩⟩] ⟨[]⟩⟩

theorem extractAttestationInclusions_decodes_twoCommittees :
    ∃ incs', extractAttestationInclusions ⟨4, 2, 8, 0, by decide⟩ twoCommitteeBlock 2 0 twoCommittees [7, 9] none
      .empty = some (.ok incs') ∧ incs'.get 7 = none ∧ incs'.get 9 = some ⟨2, 1, false, false, false⟩ ∧
      Decoded ⟨4, 2, 8, 0, by decide⟩ 2 0 [7, 9] none (twoCommitteeBlock.aggregates twoCommittees) .empty incs' := by
  obtain ⟨result, hresult, hdecoded⟩ := extractAttestationInclusions_decodes ⟨4, 2, 8, 0, by decide⟩ twoCommitteeBlock 2 0
    twoCommittees [7, 9] none .empty
  obtain rfl := Option.some.inj hresult
  exact ⟨_, rfl, rfl, rfl, hdecoded _ rfl⟩

end BeaconIndexer
