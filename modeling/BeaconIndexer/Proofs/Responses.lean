/-
What becomes of the responses that name one thing for each of a set: a proposer for each slot of an epoch,
a reward for each validator asked for. Exactly the bijective ones are accepted, so that no duty and no
reward is lost or doubled on its way.
-/
import BeaconIndexer.Proofs.Coverage

namespace BeaconIndexer

open Effects Relational

/-! ## Proposers -/

/-- The slots of an epoch. -/
def epochSlots (spec : ChainSpec) (epoch : Nat) : List Nat := List.range' (spec.epochStartSlot epoch) spec.slotsPerEpoch

/-- Every slot of the epoch is the slot of exactly one duty, and no duty is of another epoch. -/
structure Scheduled (spec : ChainSpec) (epoch : Nat) (duties : List ProposerDuty) : Prop where
  inEpoch : ∀ d ∈ duties, d.slot ∈ epochSlots spec epoch
  once : ∀ s ∈ epochSlots spec epoch, (duties.map (·.slot)).count s = 1

variable {spec : ChainSpec} {epoch : Nat} {duties : List ProposerDuty}

theorem epochSlots_nodup : (epochSlots spec epoch).Nodup := List.nodup_range'

theorem scheduled_iff_perm : Scheduled spec epoch duties ↔ (duties.map (·.slot)).Perm (epochSlots spec epoch) := by
  constructor
  · intro h
    rw [List.perm_iff_count]
    intro s
    by_cases hs : s ∈ epochSlots spec epoch
    · rw [h.once s hs, List.count_eq_one_of_mem epochSlots_nodup hs]
    · rw [List.count_eq_zero_of_not_mem hs, List.count_eq_zero_of_not_mem]
      intro hmem
      obtain ⟨d, hd, rfl⟩ := List.mem_map.1 hmem
      exact hs (h.inEpoch d hd)
  · intro h
    refine ⟨fun d hd => h.mem_iff.1 (List.mem_map_of_mem hd), fun s hs => ?_⟩
    rw [h.count_eq, List.count_eq_one_of_mem epochSlots_nodup hs]

theorem Scheduled.nodup (h : Scheduled spec epoch duties) : (duties.map (·.slot)).Nodup :=
  (scheduled_iff_perm.1 h).nodup_iff.2 epochSlots_nodup

/-- The check of a proposer response: as many duties as slots, no slot twice, none outside the epoch. -/
theorem proposerCheck_iff : (duties.length != spec.slotsPerEpoch || (duties.map (·.slot)).dedup.length != duties.length ||
      (duties.map (·.slot)).dedup.any fun slot =>
        decide (slot < spec.epochStartSlot epoch) || decide (spec.epochStartSlot (epoch + 1) ≤ slot)) = false ↔
    Scheduled spec epoch duties := by
  rw [scheduled_iff_perm]
  constructor
  · intro h
    simp only [Bool.or_eq_false_iff, bne_eq_false_iff_eq, List.any_eq_false, Bool.or_eq_true, decide_eq_true_eq, not_or,
      List.mem_dedup] at h
    obtain ⟨⟨hlen, hdistinct⟩, hrange⟩ := h
    have hnodup : (duties.map (·.slot)).Nodup := by
      have hsame : (duties.map (·.slot)).dedup.length = (duties.map (·.slot)).length := by rw [hdistinct, List.length_map]
      exact List.dedup_eq_self.1 ((List.dedup_sublist _).eq_of_length hsame)
    have hsub : duties.map (·.slot) ⊆ epochSlots spec epoch := by
      intro s hs
      have := hrange s hs
      rw [spec.epochStartSlot_succ] at this
      show s ∈ List.range' _ _
      rw [List.mem_range'_1]
      omega
    -- distinct slots within the epoch, as many as it has
    refine (List.subperm_of_subset hnodup hsub).perm_of_length_le ?_
    rw [List.length_map, hlen]
    simp [epochSlots]
  · intro h
    have hlen : duties.length = spec.slotsPerEpoch := by simpa [epochSlots] using h.length_eq
    have hnodup : (duties.map (·.slot)).Nodup := h.nodup_iff.2 epochSlots_nodup
    simp only [Bool.or_eq_false_iff, bne_eq_false_iff_eq, List.any_eq_false, Bool.or_eq_true, decide_eq_true_eq, not_or,
      List.mem_dedup]
    refine ⟨⟨hlen, by rw [List.dedup_eq_self.2 hnodup, List.length_map]⟩, fun s hs => ?_⟩
    have hmem : s ∈ List.range' (spec.epochStartSlot epoch) spec.slotsPerEpoch := h.mem_iff.1 hs
    rw [List.mem_range'_1] at hmem
    rw [spec.epochStartSlot_succ]
    omega

theorem getProposerDuties_ends {l : List (Event indexer)} {r : Except Error (List ProposerDuty)}
    (h : Ends (getProposerDuties spec epoch) l r) :
    (∃ e, r = .error e ∧ (e.isUnavailableInput = true → l = [⟨.node (.proposerDuties epoch), .error e⟩])) ∨ ∃ duties,
      l = [⟨.node (.proposerDuties epoch), .ok duties⟩] ∧ r = .ok duties ∧ Scheduled spec epoch duties := by
  unfold getProposerDuties at h
  rcases Ends.bind_iff.1 h with ⟨e, hrequest, rfl⟩ | ⟨duties, l₁, l₂, hrequest, hrest, rfl⟩
  · obtain ⟨a, rfl, ha⟩ := Ends.ask_iff.1 hrequest
    obtain rfl : a = .error e := ha.symm
    exact .inl ⟨e, rfl, fun _ => rfl⟩
  obtain ⟨a, rfl, ha⟩ := Ends.ask_iff.1 hrequest
  obtain rfl : a = .ok duties := ha.symm
  dsimp only at hrest
  split at hrest
  · rcases Ends.bind_iff.1 hrest with ⟨e, hthrow, rfl⟩ | ⟨u, _, _, hthrow, -, -⟩
    · -- a malformed response is no unavailable input
      obtain ⟨-, he⟩ := Ends.throw_iff.1 hthrow
      cases he
      exact .inl ⟨_, rfl, fun hu => by cases hu⟩
    · have := (Ends.throw_iff.1 hthrow).2
      cases this
  · rename_i hcheck
    obtain ⟨rfl, rfl⟩ := Ends.pure_iff.1 hrest
    exact .inr ⟨duties, rfl, rfl, proposerCheck_iff.1 (by simpa using hcheck)⟩

/-- A proposer response is accepted exactly when it schedules the epoch. -/
theorem getProposerDuties_accepts_iff :
    (∃ r, Ends (getProposerDuties spec epoch) [⟨.node (.proposerDuties epoch), .ok duties⟩] (.ok r)) ↔
      Scheduled spec epoch duties := by
  constructor
  · rintro ⟨r, h⟩
    rcases getProposerDuties_ends h with ⟨e, he, -⟩ | ⟨duties', hl, -, hs⟩
    · cases he
    · cases hl
      exact hs
  · intro h
    have hcheck := proposerCheck_iff.2 h
    refine ⟨duties, Ends.bind_iff.2 (.inr ⟨duties, _, [], Ends.ask_iff.2 ⟨.ok duties, rfl, rfl⟩, ?_, rfl⟩)⟩
    dsimp only
    rw [if_neg (by rw [hcheck]; exact Bool.false_ne_true)]
    exact Ends.pure_iff.2 ⟨rfl, rfl⟩

/-! ## The slots of tracked proposers -/

/-- `slots` is a table of a schedule's duties by slot, restricted to the validators of `vs`. -/
def TrackedSlots (duties : List ProposerDuty) (vs : List Nat) (slots : Table Nat Nat) : Prop :=
  ∀ s v, slots.get s = some v ↔ ⟨v, s⟩ ∈ duties ∧ v ∈ vs

/-- The slot-keyed map of the tracked duties loses none and takes none for another. -/
theorem Scheduled.trackedSlots (h : Scheduled spec epoch duties) (vs : List Nat) :
    TrackedSlots duties vs (Table.ofList ((duties.filter fun d => vs.contains d.validatorIndex).map
      fun d => (d.slot, d.validatorIndex))) := by
  intro s v
  rw [Table.get_ofList_iff]
  · constructor
    · intro hmem
      obtain ⟨d, hd, hsv⟩ := List.mem_map.1 hmem
      obtain ⟨hin, hv⟩ := List.mem_filter.1 hd
      obtain ⟨rfl, rfl⟩ := Prod.mk.inj hsv
      exact ⟨hin, List.contains_iff_mem.1 hv⟩
    · rintro ⟨hin, hv⟩
      exact List.mem_map.2 ⟨⟨v, s⟩, List.mem_filter.2 ⟨hin, List.contains_iff_mem.2 hv⟩, rfl⟩
  · rw [List.map_map]
    exact h.nodup.sublist (List.filter_sublist.map _)

/-- A proposal that a run has written: its slot and its proposer. -/
def recordedProposal : Event indexer → Option (Nat × Nat)
  | ⟨.db (.upsertBlockProposal slot w), .ok _⟩ => some (slot, w.proposerIndex)
  | _ => none

/-- `recorded` lists the scheduled slots whose proposer is tracked, with their proposers, in the order of the slots. -/
structure Records (duties : List ProposerDuty) (tracked : List Nat) (recorded : List (Nat × Nat)) : Prop where
  inOrder : (recorded.map Prod.fst).Pairwise (· < ·)
  exact : ∀ s v, (s, v) ∈ recorded ↔ ⟨v, s⟩ ∈ duties ∧ v ∈ tracked

/-- The proposal of one slot, if its proposer is tracked. -/
def wantedProposal (slots : Table Nat Nat) (slot : Nat) : List (Nat × Nat) := ((slots.get slot).map (slot, ·)).toList

theorem mem_wantedProposal {slots : Table Nat Nat} {slot : Nat} {p : Nat × Nat} :
    p ∈ wantedProposal slots slot ↔ p.1 = slot ∧ slots.get slot = some p.2 := by
  obtain ⟨s, v⟩ := p
  unfold wantedProposal
  simp only [Option.mem_toList, Option.map_eq_some_iff, Prod.mk.injEq]
  constructor
  · rintro ⟨v', hv', rfl, rfl⟩
    exact ⟨rfl, hv'⟩
  · rintro ⟨rfl, hv⟩
    exact ⟨v, hv, rfl, rfl⟩

/-- The slots of the epoch in their order give the records of a schedule. -/
theorem Scheduled.records (h : Scheduled spec epoch duties) {tracked : List Nat} {slots : Table Nat Nat}
    (hslots : TrackedSlots duties tracked slots) :
    Records duties tracked ((epochSlots spec epoch).flatMap (wantedProposal slots)) := by
  constructor
  · have hsub : ∀ xs : List Nat, ((xs.flatMap (wantedProposal slots)).map Prod.fst).Sublist xs := by
      intro xs
      induction xs with
      | nil => simp
      | cons x xs ih =>
        rw [List.flatMap_cons, List.map_append]
        unfold wantedProposal at ih ⊢
        cases slots.get x with
        | none => exact ih.cons x
        | some v => exact ih.cons_cons x
    exact List.Pairwise.sublist (hsub _) List.pairwise_lt_range'
  · intro s v
    rw [List.mem_flatMap]
    constructor
    · rintro ⟨slot, -, hmem⟩
      obtain ⟨rfl, hget⟩ := mem_wantedProposal.1 hmem
      exact (hslots _ _).1 hget
    · rintro ⟨hin, hv⟩
      exact ⟨s, h.inEpoch _ hin, mem_wantedProposal.2 ⟨rfl, (hslots s v).2 ⟨hin, hv⟩⟩⟩

/-- A request of the node. -/
def Effect.IsRequest : Effect → Prop
  | .node _ => True
  | .db _ => False

/-- Requests write no proposal. -/
theorem recorded_requests {l : List (Event indexer)} (h : ∀ ev ∈ l, Effect.IsRequest ev.1) :
    l.filterMap recordedProposal = [] := by
  rw [List.filterMap_eq_nil_iff]
  rintro ⟨e, r⟩ hev
  cases e with
  | node q => rfl
  | db op => exact (h _ hev).elim

theorem request_isRequest (q : Request) : (Contract.issuing Effect.IsRequest).Always (request q) fun _ => True :=
  .ask (fun _ => trivial) fun _ _ _ _ _ _ => trivial

theorem getBlockBySlot_isRequest (slot : Nat) :
    (Contract.issuing Effect.IsRequest).Always (getBlockBySlot slot) fun _ => True := by
  refine .bind (request_isRequest _) fun root _ => ?_
  cases root with
  | none => exact .pure trivial
  | some root => exact .bind (request_isRequest _) fun block _ => .check fun _ => .pure trivial

theorem getProposerDuties_isRequest (epoch : Nat) :
    (Contract.issuing Effect.IsRequest).Always (getProposerDuties spec epoch) fun _ => True :=
  .bind (request_isRequest _) fun _ _ => .check fun _ => .pure trivial

/-- The statement of one slot. -/
theorem statement_recorded {slot : Nat} {w : ProposalWrite} {l : List (Event indexer)} {r : Except Error Unit}
    (h : Ends (statement (.upsertBlockProposal slot w)) l r) :
    l.filterMap recordedProposal <+: [(slot, w.proposerIndex)] ∧
      (r = .ok () → l.filterMap recordedProposal = [(slot, w.proposerIndex)]) := by
  obtain ⟨a, rfl, rfl⟩ := Ends.ask_iff.1 h
  cases r with
  | ok u => exact ⟨List.prefix_refl _, fun _ => rfl⟩
  | error e => exact ⟨List.nil_prefix, fun hok => by cases hok⟩

/-- Programs in sequence of which the first writes no proposal. -/
theorem recorded_bind {α β : Type} {x : Task α} {f : α → Task β} {l : List (Event indexer)} {r : Except Error β}
    {want : List (Nat × Nat)} (h : Ends (x >>= f) l r)
    (hx : (Contract.issuing Effect.IsRequest).Always x fun _ => True)
    (hf : ∀ a m, Ends (f a) m r → m.filterMap recordedProposal <+: want ∧
      (∀ b, r = .ok b → m.filterMap recordedProposal = want)) :
    l.filterMap recordedProposal <+: want ∧ (∀ b, r = .ok b → l.filterMap recordedProposal = want) := by
  rcases Ends.bind_iff.1 h with ⟨e, hends, rfl⟩ | ⟨a, l₁, l₂, hends, hrest, rfl⟩
  · rw [recorded_requests (hx.issued hends)]
    exact ⟨List.nil_prefix, fun b hb => by cases hb⟩
  · rw [List.filterMap_append, recorded_requests (hx.issued hends), List.nil_append]
    exact hf a l₂ hrest

/-- A run of `processEpochProposals` over an accepted response records the scheduled slots of tracked proposers, in
order, as far as it gets. -/
theorem processEpochProposals_ends {tracked : List Nat} {finalized : Bool} {l : List (Event indexer)}
    {r : Except Error Unit} (h : Ends (processEpochProposals spec epoch tracked finalized) l r) :
    (l.filterMap recordedProposal = [] ∧ ∃ e, r = .error e) ∨ ∃ duties full,
      (⟨.node (.proposerDuties epoch), .ok duties⟩ : Event indexer) ∈ l ∧ Scheduled spec epoch duties ∧
      Records duties tracked full ∧ l.filterMap recordedProposal <+: full ∧
      (r = .ok () → l.filterMap recordedProposal = full) := by
  unfold processEpochProposals at h
  rcases Ends.bind_iff.1 h with ⟨e, hduties, rfl⟩ | ⟨duties, l₁, l₂, hduties, hrest, rfl⟩
  · refine .inl ⟨?_, e, rfl⟩
    exact recorded_requests ((getProposerDuties_isRequest epoch).issued hduties)
  rcases getProposerDuties_ends hduties with ⟨e, he, -⟩ | ⟨duties', rfl, he, hs⟩
  · cases he
  cases he
  have htracked := hs.trackedSlots tracked
  dsimp only at hrest
  generalize Table.ofList ((duties.filter fun d => tracked.contains d.validatorIndex).map fun d =>
    (d.slot, d.validatorIndex)) = slots at hrest htracked
  refine .inr ⟨duties, _, List.mem_append_left _ (List.mem_singleton_self _), hs, hs.records htracked, ?_⟩
  show l₂.filterMap recordedProposal <+: _ ∧ (_ → l₂.filterMap recordedProposal = _)
  split at hrest
  · rename_i hempty
    obtain ⟨rfl, rfl⟩ := Ends.pure_iff.1 hrest
    have hnone : ∀ slot, wantedProposal slots slot = [] := by
      intro slot
      unfold wantedProposal Table.get
      rw [List.isEmpty_iff.1 hempty]
      rfl
    simp [hnone]
  · refine Ends.each_collect (fun slot m o hbody => ?_) hrest
    unfold wantedProposal
    cases hget : slots.get slot with
    | none =>
      simp only [hget] at hbody
      obtain ⟨rfl, rfl⟩ := Ends.pure_iff.1 hbody
      exact ⟨List.nil_prefix, fun _ => rfl⟩
    | some proposer =>
      simp only [hget] at hbody
      refine (recorded_bind hbody (getBlockBySlot_isRequest slot) fun block m hrest => ?_).imp_right fun h hok => h () hok
      cases block with
      | none => exact (statement_recorded hrest).imp_right fun h _ hok => h hok
      | some block =>
        exact recorded_bind hrest (request_isRequest _) fun rewards m hrest =>
          (statement_recorded hrest).imp_right fun h _ hok => h hok

/-! ## The assignments of the live worker -/

/-- Where the assignments of a slot's epoch come from: there is nothing to fetch, or the proposer response is an
unavailable input and the assignments are incomplete, or they hold the scheduled slots of the active tracked
validators. -/
def ProposersFetched (spec : ChainSpec) (tracked : List Nat) (slot : Nat) (l : List (Event indexer))
    (result : EpochDuties) : Prop :=
  (slot = 0 ∧ result.proposerBySlot.rows = []) ∨ ∃ active,
    (⟨.db (.activeValidatorsAt tracked (spec.slotToEpoch slot)), .ok active⟩ : Event indexer) ∈ l ∧
      ((active = [] ∧ result.proposerBySlot.rows = []) ∨
        (result.complete = false ∧ result.proposerBySlot.rows = [] ∧ ∃ error : Error, error.isUnavailableInput = true ∧
          (⟨.node (.proposerDuties (spec.slotToEpoch slot)), .error error⟩ : Event indexer) ∈ l) ∨
        ∃ duties, (⟨.node (.proposerDuties (spec.slotToEpoch slot)), .ok duties⟩ : Event indexer) ∈ l ∧
          Scheduled spec (spec.slotToEpoch slot) duties ∧ TrackedSlots duties active result.proposerBySlot)

theorem fetchEpochDuties_proposers {tracked : List Nat} {slot : Nat} {l : List (Event indexer)} {result : EpochDuties}
    (h : Ends (fetchEpochDuties spec tracked slot) l (.ok result)) : ProposersFetched spec tracked slot l result := by
  unfold fetchEpochDuties at h
  by_cases h0 : slot = 0
  · rw [if_pos h0] at h
    obtain ⟨rfl, hr⟩ := Ends.pure_iff.1 h
    cases hr
    exact .inl ⟨h0, rfl⟩
  rw [if_neg h0] at h
  obtain ⟨active, l₁, m₁, hactive, hrest, rfl⟩ := Ends.bind_ok_iff.1 h
  obtain ⟨a, rfl, ha⟩ := Ends.ask_iff.1 hactive
  obtain rfl : a = .ok active := ha.symm
  refine .inr ⟨active, List.mem_append_left _ (List.mem_singleton_self _), ?_⟩
  by_cases hempty : active.isEmpty = true
  · rw [if_pos hempty] at hrest
    obtain ⟨rfl, hr⟩ := Ends.pure_iff.1 hrest
    cases hr
    exact .inl ⟨List.isEmpty_iff.1 hempty, rfl⟩
  rw [if_neg hempty] at hrest
  obtain ⟨seeded, l₂, m₂, -, hseeded, rfl⟩ := Ends.bind_ok_iff.1 hrest
  obtain ⟨proposers, l₃, l', hprop, hlast, rfl⟩ := Ends.bind_ok_iff.1 hseeded
  -- the rest only adds the sync positions
  have hresult : result.proposerBySlot = Table.ofList (((proposers.getD []).filter fun d =>
      active.contains d.validatorIndex).map fun d => (d.slot, d.validatorIndex)) ∧
      (proposers = none → result.complete = false) := by
    dsimp only at hlast
    split at hlast
    · obtain ⟨-, hr⟩ := Ends.pure_iff.1 hlast
      cases hr
      exact ⟨rfl, fun hnone => by simp [hnone]⟩
    · obtain ⟨sync, _, _, -, hpure, -⟩ := Ends.bind_ok_iff.1 hlast
      obtain ⟨-, hr⟩ := Ends.pure_iff.1 hpure
      cases hr
      exact ⟨rfl, fun hnone => by simp [hnone]⟩
  obtain ⟨htable, hcomplete⟩ := hresult
  cases proposers with
  | none =>
    obtain ⟨error, hprop, hu⟩ := orUnavailable_none hprop
    rcases getProposerDuties_ends hprop with ⟨e, he, hl⟩ | ⟨_, -, he, -⟩
    · cases he
      refine .inr (.inl ⟨hcomplete rfl, ?_, error, hu, by simp [hl hu]⟩)
      rw [htable]
      rfl
    · cases he
  | some duties =>
    rcases getProposerDuties_ends (orUnavailable_some hprop) with ⟨e, he, -⟩ | ⟨duties', rfl, he, hs⟩
    · cases he
    · cases he
      refine .inr (.inr ⟨duties, by simp, hs, ?_⟩)
      rw [htable]
      exact hs.trackedSlots active

/-! ## What is accepted and what becomes of it -/

/-- A reward response is accepted exactly when it is a permutation of the validators asked for, and a proposer
response exactly when it is a schedule of the epoch. The archive scan then records an outcome for exactly the scheduled
slots of tracked proposers, each once; the assignments of the live worker hold exactly the scheduled slots of active
tracked proposers. -/
theorem accepted_responses_bijective :
    (∀ expected actual : List Nat, validateRewardIndices expected actual = .ok () ↔ actual.Perm expected.dedup) ∧
    (∀ (spec : ChainSpec) (epoch : Nat) (duties : List ProposerDuty),
      (∃ r, Ends (getProposerDuties spec epoch) [⟨.node (.proposerDuties epoch), .ok duties⟩] (.ok r)) ↔
        Scheduled spec epoch duties) ∧
    (∀ (spec : ChainSpec) (epoch : Nat) (tracked : List Nat) (finalized : Bool) (l : List (Event indexer))
      (r : Except Error Unit), Ends (processEpochProposals spec epoch tracked finalized) l r →
        (l.filterMap recordedProposal = [] ∧ ∃ e, r = .error e) ∨ ∃ duties full,
          (⟨.node (.proposerDuties epoch), .ok duties⟩ : Event indexer) ∈ l ∧ Scheduled spec epoch duties ∧
          Records duties tracked full ∧ l.filterMap recordedProposal <+: full ∧
          (r = .ok () → l.filterMap recordedProposal = full)) ∧
    ∀ (spec : ChainSpec) (tracked : List Nat) (slot : Nat) (l : List (Event indexer)) (result : EpochDuties),
      Ends (fetchEpochDuties spec tracked slot) l (.ok result) → ProposersFetched spec tracked slot l result :=
  ⟨fun _ _ => validateRewardIndices_ok_iff, fun _ _ _ => getProposerDuties_accepts_iff,
    fun _ _ _ _ _ _ => processEpochProposals_ends, fun _ _ _ _ _ => fetchEpochDuties_proposers⟩

/-- A chain with two slots an epoch. -/
def pairSpec : ChainSpec := ⟨2, 2, 8, 1000, Nat.zero_lt_two⟩

/-- Validators 5 and 6 propose the slots of epoch 1, and 5 alone is active. -/
def pairFetch : List (Event indexer) :=
  [⟨.db (.activeValidatorsAt [5, 6] 1), .ok [5]⟩, ⟨.node (.attesterDuties 1 [5]), .ok [⟨5, 0, 0, 2⟩]⟩,
    ⟨.db (.upsertAttestationDuty 5 1 (seedRow ⟨5, 0, 0, 2⟩)), .ok ()⟩, ⟨.node (.proposerDuties 1), .ok [⟨6, 3⟩, ⟨5, 2⟩]⟩]

theorem ends_pairFetch : Ends (fetchEpochDuties pairSpec [5, 6] 2) pairFetch (.ok ⟨true, .ofList [(2, 5)], none⟩) :=
  .step (.step (.step (.step (.done _))))

/-- The archive scan for 6 records its missed slot; the live worker for both takes the slot of 5. -/
theorem scheduled_pair_recorded :
    (∃ duties full, (⟨.node (.proposerDuties 1), .ok duties⟩ : Event indexer) ∈
        [⟨.node (.proposerDuties 1), .ok [⟨6, 3⟩, ⟨5, 2⟩]⟩, ⟨.node (.blockRoot 3), .ok none⟩,
          ⟨.db (.upsertBlockProposal 3 (proposalOutcome true 6 false)), .ok ()⟩] ∧
      Scheduled pairSpec 1 duties ∧ Records duties [6] full ∧ full = [(3, 6)]) ∧
    ProposersFetched pairSpec [5, 6] 2 pairFetch ⟨true, .ofList [(2, 5)], none⟩ := by
  refine ⟨?_, accepted_responses_bijective.2.2.2 pairSpec [5, 6] 2 pairFetch _ ends_pairFetch⟩
  rcases accepted_responses_bijective.2.2.1 pairSpec 1 [6] true
    [⟨.node (.proposerDuties 1), .ok [⟨6, 3⟩, ⟨5, 2⟩]⟩, ⟨.node (.blockRoot 3), .ok none⟩,
      ⟨.db (.upsertBlockProposal 3 (proposalOutcome true 6 false)), .ok ()⟩] (.ok ())
    (.step (.step (.step (.done _)))) with ⟨-, e, he⟩ | ⟨duties, full, hin, hs, hrecords, -, hall⟩
  · cases he
  · exact ⟨duties, full, hin, hs, hrecords, (hall rfl).symm⟩

/-- A response that names both slots of the epoch once, and slot 9 as well, is rejected; and a tracked validator that
proposes without being active is left out of the assignments. -/
theorem extra_duty_rejected :
    (¬∀ (spec : ChainSpec) (epoch : Nat) (duties : List ProposerDuty),
      (∃ r, Ends (getProposerDuties spec epoch) [⟨.node (.proposerDuties epoch), .ok duties⟩] (.ok r)) ↔
        ∀ s ∈ epochSlots spec epoch, (duties.map (·.slot)).count s = 1) ∧
    ∃ (l : List (Event indexer)) (duties : List ProposerDuty) (result : EpochDuties),
      Ends (fetchEpochDuties pairSpec [5, 6] 2) l (.ok result) ∧ result.complete = true ∧
        (⟨.node (.proposerDuties 1), .ok duties⟩ : Event indexer) ∈ l ∧ Scheduled pairSpec 1 duties ∧
        ⟨6, 3⟩ ∈ duties ∧ result.proposerBySlot.get 3 = none := by
  constructor
  · intro h
    have haccepted := (h pairSpec 1 [⟨6, 3⟩, ⟨5, 2⟩, ⟨5, 9⟩]).2 (by decide)
    have hs := getProposerDuties_accepts_iff.1 haccepted
    exact absurd (hs.inEpoch ⟨5, 9⟩ (by simp)) (by decide)
  · exact ⟨pairFetch, [⟨6, 3⟩, ⟨5, 2⟩], ⟨true, .ofList [(2, 5)], none⟩, ends_pairFetch, rfl, by simp [pairFetch],
      ⟨by decide, by decide⟩, by simp, rfl⟩

end BeaconIndexer
