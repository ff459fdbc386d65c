/-
What a block's attestations say: the first attestation that carries a validator's vote for an
epoch, and that decoding a block records exactly these votes.
-/
import BeaconIndexer.Scanner.InRange

namespace BeaconIndexer

open Relational

/-- The member sits in the committee and its bit is set. -/
def AssignedCommittee.hasVote (c : AssignedCommittee) (aggBits : List Bool) (v : Nat) : Bool :=
  c.validators.zipIdx.any fun (v', pos) => v' == v && c.bit aggBits pos == some true

/-- The aggregate with these bits carries the vote of `v`. -/
def carries (resolve : Nat → Except Error (List AssignedCommittee)) (bits : Except Error (List Bool)) (v : Nat) : Bool :=
  match bits with
  | .ok bits => match resolve bits.length with
    | .ok cs => cs.any fun c => c.hasVote bits v
    | .error _ => false
  | .error _ => false

def PreElectraAttestation.carries (cmap : CommitteeMap) (att : PreElectraAttestation) (v : Nat) : Bool :=
  BeaconIndexer.carries (resolvePreElectraCommittees att cmap) (decodeBitlist att.aggregationBits) v

def Attestation.carries (spec : ChainSpec) (cmap : CommitteeMap) (att : Attestation) (v : Nat) : Bool :=
  BeaconIndexer.carries (resolveElectraCommittees spec att cmap) (decodeBitlist att.aggregationBits) v

/-- The data of the block's first attestation by `v` for `epoch`. -/
def SignedBeaconBlock.voteOf (spec : ChainSpec) (block : SignedBeaconBlock) (cmap : CommitteeMap) (epoch v : Nat) :
    Option AttestationData :=
  match block.attestations with
  | .preElectra atts => (atts.find? fun att => spec.slotToEpoch att.data.slot == epoch && att.carries cmap v).map (·.data)
  | .electra atts => (atts.find? fun att => spec.slotToEpoch att.data.slot == epoch && att.carries spec cmap v).map
      (·.data)

/-- The inclusion a vote in a block at `slot` is recorded as. -/
def Recorded (slot : Nat) (ctx : Option VoteContext) (data : AttestationData) (inc : AttestationInclusion) : Prop :=
  data.slot ≤ slot ∧ ∃ marks, voteMarks ctx data = .ok marks ∧
    inc = ⟨slot, slot - data.slot, marks.sourceCorrect, marks.targetCorrect, marks.headCorrect⟩

theorem mem_voters {c : AssignedCommittee} {bits : List Bool} {vs : List Nat} {v : Nat} :
    v ∈ c.voters bits vs ↔ v ∈ vs ∧ c.hasVote bits v = true := by
  unfold AssignedCommittee.voters AssignedCommittee.hasVote
  simp only [List.mem_map, List.mem_filter, Prod.exists, Bool.and_eq_true, List.contains_iff_mem, List.any_eq_true,
    beq_iff_eq]
  constructor
  · rintro ⟨v', pos, ⟨hm, hv, hb⟩, rfl⟩
    exact ⟨hv, v', pos, hm, rfl, hb⟩
  · rintro ⟨hv, v', pos, hm, rfl, hb⟩
    exact ⟨v', pos, ⟨hm, hv, hb⟩, rfl⟩

/-! ## What decoding adds -/

/-- Inclusions that are there stay, and every validator of `vs` without one gets its vote. -/
structure Adds (slot : Nat) (ctx : Option VoteContext) (vs : List Nat) (vote : Nat → Option AttestationData)
    (incs incs' : Inclusions) : Prop where
  outside : ∀ v, v ∉ vs → incs'.get v = incs.get v
  keeps : ∀ v inc, incs.get v = some inc → incs'.get v = some inc
  absent : ∀ v, incs.get v = none → vote v = none → incs'.get v = none
  found : ∀ v ∈ vs, ∀ data, incs.get v = none → vote v = some data →
    ∃ inc, incs'.get v = some inc ∧ Recorded slot ctx data inc

section Adds

variable {slot : Nat} {ctx : Option VoteContext} {vs : List Nat} {vote vote' : Nat → Option AttestationData}
  {i1 i2 i3 : Inclusions}

theorem Adds.unchanged (incs : Inclusions) (h : ∀ v ∈ vs, vote v = none) : Adds slot ctx vs vote incs incs :=
  ⟨fun _ _ => rfl, fun _ _ h => h, fun _ h _ => h, fun v hv data _ hd => by rw [h v hv] at hd; cases hd⟩

theorem Adds.trans (h : Adds slot ctx vs vote i1 i2) (h' : Adds slot ctx vs vote' i2 i3) :
    Adds slot ctx vs (fun v => (vote v).or (vote' v)) i1 i3 where
  outside v hv := (h'.outside v hv).trans (h.outside v hv)
  keeps v inc hi := h'.keeps v inc (h.keeps v inc hi)
  absent v hn hvote := by
    obtain ⟨h1, h2⟩ := Option.or_eq_none_iff.1 hvote
    exact h'.absent v (h.absent v hn h1) h2
  found v hv data hn hvote := by
    cases h1 : vote v with
    | some d =>
      rw [h1] at hvote
      cases hvote
      obtain ⟨inc, hi, hr⟩ := h.found v hv data hn h1
      exact ⟨inc, h'.keeps v inc hi, hr⟩
    | none =>
      rw [h1] at hvote
      exact h'.found v hv data (h.absent v hn h1) hvote

/-- A new inclusion records the vote of its validator. -/
theorem Adds.recorded (h : Adds slot ctx vs vote i1 i2) {v : Nat} {inc : AttestationInclusion} (hn : i1.get v = none)
    (hget : i2.get v = some inc) : v ∈ vs ∧ ∃ data, vote v = some data ∧ Recorded slot ctx data inc := by
  have hv : v ∈ vs := by
    by_contra hv
    rw [h.outside v hv, hn] at hget
    cases hget
  refine ⟨hv, ?_⟩
  cases hd : vote v with
  | none => rw [h.absent v hn hd] at hget; cases hget
  | some data =>
    obtain ⟨inc', hi, hr⟩ := h.found v hv data hn hd
    rw [hget] at hi
    cases hi
    exact ⟨data, rfl, hr⟩

theorem Adds.congr (h : Adds slot ctx vs vote i1 i2) (hv : ∀ v ∈ vs, vote v = vote' v) :
    Adds slot ctx vs vote' i1 i2 where
  outside := h.outside
  keeps := h.keeps
  absent v hn hvote := by
    by_cases hm : v ∈ vs
    · exact h.absent v hn ((hv v hm).trans hvote)
    · exact (h.outside v hm).trans hn
  found v hm data hn hvote := h.found v hm data hn ((hv v hm).trans hvote)

end Adds

/-- The fold over an attestation's committees. -/
theorem recordCommittees_get (bits : List Bool) (vs : List Nat) (slot delay : Nat) (marks : VoteMarks) (v : Nat) :
    ∀ (cs : List AssignedCommittee) (incs : Inclusions),
      (cs.foldl (fun incs c => incs.insertAll (c.voters bits vs)
          ⟨slot, delay, marks.sourceCorrect, marks.targetCorrect, marks.headCorrect⟩) incs).get v =
        (incs.get v).or (if v ∈ vs ∧ (cs.any fun c => c.hasVote bits v) = true then
          some ⟨slot, delay, marks.sourceCorrect, marks.targetCorrect, marks.headCorrect⟩ else none)
  | [], incs => by simp
  | c :: cs, incs => by
    rw [List.foldl_cons, recordCommittees_get bits vs slot delay marks v cs, Table.get_insertAll]
    by_cases hc : v ∈ c.voters bits vs
    · obtain ⟨hv, hb⟩ := mem_voters.1 hc
      have hany : ((c :: cs).any fun c => c.hasVote bits v) = true := by rw [List.any_cons, hb, Bool.true_or]
      rw [if_pos hc, if_pos (⟨hv, hany⟩ : v ∈ vs ∧ _)]
      cases incs.get v <;> rfl
    · rw [if_neg hc, Option.or_none]
      by_cases hv : v ∈ vs
      · have hb : c.hasVote bits v = false := by
          rw [← Bool.not_eq_true]
          exact fun hb => hc (mem_voters.2 ⟨hv, hb⟩)
        rw [List.any_cons, hb, Bool.false_or]
      · rw [if_neg fun h => hv h.1, if_neg fun h => hv h.1]

theorem processResolvedAttestation_adds {data : AttestationData} {bits : List Bool} {cs : List AssignedCommittee}
    {slot : Nat} {vs : List Nat} {ctx : Option VoteContext} {incs incs' : Inclusions}
    (hin : InRange cs bits) (h : processResolvedAttestation data bits cs slot vs ctx incs = some (.ok incs')) :
    Adds slot ctx vs (fun v => if (cs.any fun c => c.hasVote bits v) = true then some data else none) incs incs' := by
  rw [processResolvedAttestation_eq hin] at h
  replace h := Option.some.inj h
  unfold inclusionDelay at h
  by_cases hd : data.slot ≤ slot
  · rw [if_pos hd] at h
    by_cases hany : (cs.any fun c => !(c.voters bits vs).isEmpty) = true
    · -- somebody of `vs` voted, so the vote is checked against the chain and recorded
      rw [hany] at h
      obtain ⟨marks, hm, h⟩ := bind_eq_ok (x := voteMarks ctx data) h
      obtain rfl := Except.ok.inj h
      refine ⟨fun v hv => ?_, fun v inc hi => ?_, fun v hn hvote => ?_, fun v hv d hn hvote => ?_⟩
      · rw [recordCommittees_get, if_neg fun h => hv h.1, Option.or_none]
      · rw [recordCommittees_get, hi, Option.some_or]
      · rw [recordCommittees_get, hn, Option.none_or]
        split at hvote
        · cases hvote
        · rename_i hb
          rw [if_neg fun h => hb h.2]
      · split at hvote
        · rename_i hb
          cases hvote
          exact ⟨_, by rw [recordCommittees_get, hn, Option.none_or, if_pos ⟨hv, hb⟩], hd, marks, hm, rfl⟩
        · cases hvote
    · have hnone : ∀ v ∈ vs, (cs.any fun c => c.hasVote bits v) = false := by
        intro v hv
        rw [← Bool.not_eq_true, List.any_eq_true]
        rintro ⟨c, hc, hb⟩
        refine hany (List.any_eq_true.2 ⟨c, hc, ?_⟩)
        have hmem : v ∈ c.voters bits vs := mem_voters.2 ⟨hv, hb⟩
        cases hl : c.voters bits vs with
        | nil => rw [hl] at hmem; cases hmem
        | cons a l => rfl
      have heq : incs = incs' := by
        simp only [Bool.not_eq_true] at hany
        rw [hany] at h
        exact Except.ok.inj h
      rw [← heq]
      exact .unchanged incs fun v hv => if_neg (by rw [hnone v hv]; simp)
  · rw [if_neg hd] at h
    cases h

/-! ## One block -/

/-- The vote an aggregate of the epoch carries. -/
def voteIn (spec : ChainSpec) (epoch : Nat) (data : AttestationData) (c : Nat → Bool) (v : Nat) : Option AttestationData :=
  if (spec.slotToEpoch data.slot == epoch && c v) = true then some data else none

theorem processPreElectraAttestation_adds {spec : ChainSpec} {slot epoch : Nat} {cmap : CommitteeMap} {vs : List Nat}
    {ctx : Option VoteContext} {incs incs' : Inclusions} {att : PreElectraAttestation}
    (h : processPreElectraAttestation spec slot epoch cmap vs ctx incs att = some (.ok incs')) :
    Adds slot ctx vs (voteIn spec epoch att.data (att.carries cmap)) incs incs' := by
  by_cases he : spec.slotToEpoch att.data.slot = epoch
  · obtain ⟨bits, cs, hb, hc, h⟩ := processPreElectraAttestation_ok h he
    refine (processResolvedAttestation_adds (resolvePreElectraCommittees_inRange hc) h).congr fun v _ => ?_
    simp [voteIn, he, PreElectraAttestation.carries, carries, hb, hc]
  · unfold processPreElectraAttestation at h
    rw [if_pos he] at h
    obtain rfl := Except.ok.inj (Option.some.inj h)
    exact .unchanged _ fun v _ => by simp [voteIn, he]

theorem processElectraAttestation_adds {spec : ChainSpec} {slot epoch : Nat} {cmap : CommitteeMap} {vs : List Nat}
    {ctx : Option VoteContext} {incs incs' : Inclusions} {att : Attestation}
    (h : processElectraAttestation spec slot epoch cmap vs ctx incs att = some (.ok incs')) :
    Adds slot ctx vs (voteIn spec epoch att.data (att.carries spec cmap)) incs incs' := by
  by_cases he : spec.slotToEpoch att.data.slot = epoch
  · obtain ⟨bits, cs, hb, hc, h⟩ := processElectraAttestation_ok h he
    refine (processResolvedAttestation_adds (resolveElectraCommittees_inRange hc) h).congr fun v _ => ?_
    simp [voteIn, he, Attestation.carries, carries, hb, hc]
  · unfold processElectraAttestation at h
    rw [if_pos he] at h
    obtain rfl := Except.ok.inj (Option.some.inj h)
    exact .unchanged _ fun v _ => by simp [voteIn, he]

/-- A list of aggregates adds the first vote of each validator. -/
theorem foldlM_adds {α : Type} {slot : Nat} {ctx : Option VoteContext} {vs : List Nat}
    {f : Inclusions → α → Decoding Inclusions} {data : α → AttestationData} {p : α → Nat → Bool}
    (hf : ∀ incs incs' a, f incs a = some (.ok incs') →
      Adds slot ctx vs (fun v => if p a v = true then some (data a) else none) incs incs') :
    ∀ (l : List α) {incs incs' : Inclusions}, l.foldlM f incs = some (.ok incs') →
      Adds slot ctx vs (fun v => (l.find? fun a => p a v).map data) incs incs'
  | [], incs, incs', h => by
    obtain rfl := Except.ok.inj (Option.some.inj h)
    exact .unchanged incs fun _ _ => rfl
  | a :: l, incs, incs', h => by
    rw [List.foldlM_cons] at h
    obtain ⟨mid, h1, h⟩ := Decoding.bind_eq_ok h
    refine ((hf incs mid a h1).trans (foldlM_adds hf l h)).congr fun v _ => ?_
    cases hp : p a v <;> simp [hp]

/-- Decoding a block records, for every validator of `vs` without an inclusion, the first vote the
block carries for the epoch. -/
theorem decodeInclusions_adds {spec : ChainSpec} {block : SignedBeaconBlock} {slot epoch : Nat}
    {cmap : CommitteeMap} {vs : List Nat} {ctx : Option VoteContext} {incs incs' : Inclusions}
    (h : decodeInclusions spec block slot epoch cmap vs ctx incs = .ok incs') :
    Adds slot ctx vs (block.voteOf spec cmap epoch) incs incs' := by
  have h := (extractAttestationInclusions_eq spec block slot epoch cmap vs ctx incs).trans (congrArg some h)
  unfold extractAttestationInclusions at h
  unfold SignedBeaconBlock.voteOf
  cases ha : block.attestations with
  | preElectra atts =>
    rw [ha] at h
    exact foldlM_adds (fun _ _ att h => processPreElectraAttestation_adds h) atts h
  | electra atts =>
    rw [ha] at h
    exact foldlM_adds (fun _ _ att h => processElectraAttestation_adds h) atts h

end BeaconIndexer
