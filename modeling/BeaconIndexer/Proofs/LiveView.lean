/-
The live page over one chain: whatever the node answers and however the workers move between two of its
reads, no block, skip, proposal, sync participation, inclusion or miss on the page contradicts the chain.
-/
import BeaconIndexer.Api.LiveView
import BeaconIndexer.Proofs.DutyShape
import BeaconIndexer.Proofs.Earliest
import BeaconIndexer.Proofs.Finality
import BeaconIndexer.Proofs.Placed
import BeaconIndexer.Proofs.Prune

namespace BeaconIndexer

open Effects Ancestry Relational

variable {spec : ChainSpec}

/-! ## Rows that are true of one chain -/

/-- What the live tables and the duty rows say of the chain that ends in `top`. -/
structure Db.TrueOn (L : Ledger spec) (top : Root) (reg : Nat → Nat → Prop) (db : Db) : Prop where
  collected : db.Collected reg
  stored : ∀ s r, db.storedRoot s = some r → L.rootAt top s = some r
  covered : ∀ v s, db.covered v s = true → db.storedRoot s = L.rootAt top s
  seen : ∀ v s r, db.covered v s = true → L.rootAt top s = some r → db.VotesSeen L reg v r
  assigned : ∀ v e a, db.attestationDuties.get (v, e) = some a → spec.slotToEpoch a.assignedSlot = e
  votes : ∀ v e a x, db.attestationDuties.get (v, e) = some a → a.inclusionSlot = some x →
    L.VotedAt top e v x ∧ spec.slotToEpoch x ≤ e + 1
  missed : ∀ v e a, db.attestationDuties.get (v, e) = some a → a.missed = true →
    ∀ s < spec.epochStartSlot (e + 2), ¬L.VotedAt top e v s
  proposals : ∀ s d, db.blockProposals.get s = some d → d.TrueAt L top s
  sync : ∀ v s d, db.syncDuties.get (v, s) = some d → d.TrueAt L top v s ∧ (d.missedBlock = true → d.participated = false)

section Exec

variable {L : Ledger spec} {top : Root} {cfg : LiveConfig spec} {reg : Nat → Nat → Prop} {V : View L} {tracked : List Nat}
  {now : Nat} {op : DbOp} {db : Db}

/-- Up to the head of a view, the chain is the view's. -/
theorem View.rootAt_top (V : View L) (htop : L.forest.Anc top V.head) {s : Nat} (hs : s ≤ L.slotOf V.head) :
    L.rootAt top s = L.rootAt V.head s := Forest.node_eq_of_anc htop hs

theorem View.rootAt_top_some (V : View L) (htop : L.forest.Anc top V.head) {s : Nat} {r : Root}
    (hr : L.rootAt V.head s = some r) : L.rootAt top s = some r := by
  obtain ⟨hanc, hslot⟩ := Ledger.rootAt_iff.1 hr
  exact Ledger.rootAt_iff.2 ⟨htop.trans hanc, hslot⟩

/-- Below its checkpoint the finalized chain of a view is the chain. -/
theorem View.votedAt_finalized (V : View L) (htop : L.forest.Anc top V.head) {e v s : Nat}
    (hs : s ≤ spec.epochStartSlot V.finalized.epoch) (h : L.VotedAt top e v s) : L.VotedAt V.finalized.root e v s := by
  obtain ⟨r, data, hr, hv⟩ := h
  refine ⟨r, data, ?_, hv⟩
  rw [Ledger.rootAt_boundary V.boundary hs, ← V.rootAt_top htop (hs.trans V.settled)]
  exact hr

variable (hdb : db.TrueOn L top reg) (htop : L.forest.Anc top V.head) (hp : LivePromise V cfg tracked reg op db)
include hdb htop hp

theorem Db.TrueOn.exec_stored {s : Nat} {r : Root} (hr : (op.exec spec now db).storedRoot s = some r) :
    L.rootAt top s = some r := by
  obtain ⟨parent, hrow⟩ := (Db.storedRoot_eq_some _).1 hr
  rcases exec_blocks_sub hrow with hold | ⟨p, rfl, -⟩
  · exact hdb.stored s r ((Db.storedRoot_eq_some _).2 ⟨parent, hold⟩)
  · exact V.rootAt_top_some htop hp.2.2.1

theorem Db.TrueOn.exec_covered {v s : Nat} (hcov : (op.exec spec now db).covered v s = true) :
    (op.exec spec now db).storedRoot s = L.rootAt top s := by
  cases hr : (op.exec spec now db).storedRoot s with
  | some r => exact (hdb.exec_stored htop hp hr).symm
  | none =>
    have hn : db.storedRoot s = none := exec_storedRoot_of_covered hcov hr
    rcases exec_coverage_sub hcov with hold | ⟨vs, rfl, hv⟩
    · rw [← hdb.covered v s hold, hn]
    · obtain ⟨-, -, htarget, hroot, -⟩ := hp
      rw [V.rootAt_top htop (htarget.trans (Nat.sub_le ..)), ← hroot, hn]

theorem Db.TrueOn.exec_missed {v e : Nat} {a : AttestationRow}
    (ha : (op.exec spec now db).attestationDuties.get (v, e) = some a) (hm : a.missed = true) :
    ∀ s < spec.epochStartSlot (e + 2), ¬L.VotedAt top e v s := by
  rcases hdb.collected.missed_cases hp ha hm with ⟨a₀, ha₀, hm₀⟩ | ⟨p, a₀, rfl, ha₀, hf, hinc, hproven⟩
  · exact hdb.missed v e a₀ ha₀ hm₀
  · obtain ⟨hle, hnone⟩ := hdb.collected.window (fun v s r hc hr => hdb.seen v s r hc (hdb.stored s r hr)) hp ha₀ hf hinc hproven
    intro s hs hvoted
    exact hnone s hs (V.votedAt_finalized htop (hs.le.trans (spec.epochStartSlot_mono hle)) hvoted)

variable (hplaced : op.Placed spec (V.target cfg))
include hplaced

omit htop hp in
theorem Db.TrueOn.exec_assigned {v e : Nat} {a : AttestationRow}
    (ha : (op.exec spec now db).attestationDuties.get (v, e) = some a) : spec.slotToEpoch a.assignedSlot = e := by
  rcases DbOp.exec_inclusion_cases ha with ⟨a₀, ha₀, hs⟩ | ⟨w, rfl, hs⟩ | ⟨d, a₀, rfl, ha₀, -, rfl⟩
  · rw [hs.assignedSlot]
    exact hdb.assigned v e a₀ ha₀
  · rw [hs.assignedSlot]
    exact hplaced
  · exact hdb.assigned v e a₀ ha₀

/-- A slot that a pass may record as missed and its view has no block at has none on the chain. -/
theorem Db.TrueOn.exec_proposal {s : Nat} {d : ProposalRow} (hd : (op.exec spec now db).blockProposals.get s = some d) :
    d.TrueAt L top s := by
  rcases exec_proposal_cases hd with ⟨d₀, hd₀, hidx, hprop, -⟩ | ⟨w, rfl, hidx, hprop, -⟩
  · exact (hdb.proposals s d₀ hd₀).congr hidx hprop
  · unfold ProposalRow.TrueAt
    obtain ⟨-, ⟨-, hw, hproposer⟩ | ⟨hw, r, b, hr, hb, hproposer, -⟩⟩ := hp
    · cases hr : L.rootAt V.head s with
      | some r =>
        obtain ⟨b, hb⟩ := Ledger.anc_known (Ledger.rootAt_iff.1 hr).1 V.known
        rw [hr] at hw
        rw [V.rootAt_top_some htop hr]
        refine ⟨hprop.trans hw, b, hb, ?_⟩
        rw [hidx, hproposer, Ledger.proposerOf, hr, Option.bind_some, hb]
      | none =>
        rw [hr] at hw
        have hle : s ≤ L.slotOf V.head := (hplaced hw).trans (Nat.sub_le ..)
        rw [V.rootAt_top htop hle, hr]
        exact hprop.trans hw
    · rw [V.rootAt_top_some htop hr]
      exact ⟨hprop.trans hw, b, hb, hidx.trans hproposer⟩

theorem Db.TrueOn.exec_sync {v s : Nat} {d : SyncRow} (hd : (op.exec spec now db).syncDuties.get (v, s) = some d) :
    d.TrueAt L top v s ∧ (d.missedBlock = true → d.participated = false) := by
  rcases exec_sync_cases hd with ⟨d₀, hd₀, hpart, hmiss, -⟩ | ⟨w, rfl, hpart, hmiss, -⟩
  · obtain ⟨htrue, hnone⟩ := hdb.sync v s d₀ hd₀
    refine ⟨htrue.congr hpart hmiss, fun hm => ?_⟩
    rw [hpart]
    exact hnone (hmiss.symm.trans hm)
  · obtain ⟨-, -, hcols⟩ := hp
    unfold SyncRow.TrueAt
    cases hr : L.rootAt V.head s with
    | some r =>
      rw [hr] at hcols
      rw [V.rootAt_top_some htop hr]
      refine ⟨⟨hmiss.trans hcols.1, hpart ▸ hcols.2⟩, fun hm => ?_⟩
      exact absurd ((hmiss.trans hcols.1).symm.trans hm) (by decide)
    | none =>
      rw [hr] at hcols
      have hle : s ≤ L.slotOf V.head := (hplaced hcols.1).trans (Nat.sub_le ..)
      rw [V.rootAt_top htop hle, hr]
      exact ⟨hmiss.trans hcols.1, fun _ => hpart.trans hcols.2⟩

theorem Db.TrueOn.exec : (op.exec spec now db).TrueOn L top reg where
  collected := hdb.collected.exec hp
  stored _ _ := hdb.exec_stored htop hp
  covered _ _ := hdb.exec_covered htop hp
  seen _ _ _ := exec_votesSeen hdb.seen htop hp
  assigned _ _ _ := hdb.exec_assigned hplaced
  votes _ _ _ _ := exec_votedAt hdb.votes htop hp
  missed _ _ _ := hdb.exec_missed htop hp
  proposals _ _ := hdb.exec_proposal htop hp hplaced
  sync _ _ _ := hdb.exec_sync htop hp hplaced

end Exec

/-! ## Runs over one chain -/

/-- Passes of one instance over one chain, whose head may move along it in any way. -/
abbrev chainPasses (L : Ledger spec) (top : Root) (cfg : LiveConfig spec) :
    System indexer (Unit × Role) (View L) Memory (Db × Unit) :=
  passes (OneChain L top) cfg (fun _ _ _ => True) fun _ _ _ => True

theorem trueOn_kept (L : Ledger spec) (top : Root) (cfg : LiveConfig spec) (registry : Table Nat ValidatorRow) :
    PassInvariant (OneChain L top) cfg (fun V op _ => op.Placed spec (V.target cfg)) (activeIn registry)
      fun s => Grounded L s.1 ∧ s.1.RegisteredAs registry ∧ s.1.TrueOn L top (activeIn registry) where
  grounded h := h.1
  registered h := by rw [mem_activeValidatorsAt, h.2.1]
  starts h _ := h
  keeps := by
    rintro V tracked op db past now ⟨hg, hr, ht⟩ ⟨_, hchain⟩ hp hplaced
    exact ⟨hg.exec hp, hr.exec hp, ht.exec (Ledger.rootAt_iff.1 hchain).1 hp hplaced⟩

/-- In every run over one chain the rows are true of it. -/
theorem chainPasses_true {L : Ledger spec} (hL : L.Spans) {top : Root} {cfg : LiveConfig spec} {registry : Table Nat ValidatorRow}
    {c : Config indexer (Unit × Role) (View L) Memory (Db × Unit)} (hr : (chainPasses L top cfg).Reach (started registry ()) c) :
    c.state.1.TrueOn L top (activeIn registry) := by
  have hempty : ({ Db.empty with validators := registry } : Db).TrueOn L top (activeIn registry) := by
    refine ⟨fun v e a h => ?_, fun s r h => ?_, fun v s h => ?_, fun v s r h => ?_, fun v e a h => ?_, fun v e a x h => ?_,
      fun v e a h => ?_, fun s d h => ?_, fun v s d h => ?_⟩ <;> cases h
  exact ((trueOn_kept L top cfg registry).reach (passes_placed hL hr) ⟨grounded_empty registry, fun _ _ => Iff.rfl, hempty⟩).2.2

/-! ## What a page shows -/

section Shown

variable (L : Ledger spec) (top : Root)

/-- An inclusion on the page is a vote of the chain, and a miss means that the chain has none in the window. -/
def AttestationOutcome.TrueOn (slot : Nat) (o : AttestationOutcome) : Prop :=
  (o.included = some true → ∃ x, o.inclusionSlot = some x ∧ L.VotedAt top (spec.slotToEpoch slot) o.validatorIndex x ∧
    spec.slotToEpoch x ≤ spec.slotToEpoch slot + 1) ∧
  (o.included = some false → ∀ s < spec.epochStartSlot (spec.slotToEpoch slot + 2),
    ¬L.VotedAt top (spec.slotToEpoch slot) o.validatorIndex s)

/-- The participation of a member, which nobody has without a block. -/
def Ledger.SyncShown (slot v : Nat) (participated : Bool) : Prop :=
  match L.rootAt top slot with
  | some r => L.SyncColumns r v participated
  | none => participated = false

structure LiveSlot.TrueOn (committee : List Nat) (row : LiveSlot) : Prop where
  block : row.block = true → (L.rootAt top row.slot).isSome = true
  skipped : row.skipped = true → L.rootAt top row.slot = none
  proposed : ∀ b, row.proposed = some b → b = (L.rootAt top row.slot).isSome
  attestations : ∀ o ∈ row.attestations, o.TrueOn L top row.slot
  sync : ∀ (k : Nat) v b, committee[k]? = some v → row.sync[k]? = some (some b) → L.SyncShown top row.slot v b

/-- What a page is built from is true of the chain. -/
structure Outcomes.TrueOn (o : Outcomes) : Prop where
  attestations : ∀ slot duty, (o.attestation slot duty).TrueOn L top slot
  sync : ∀ slot v st, o.syncStatus.get (slot, v) = some st → L.SyncShown top slot v st.1
  proposals : ∀ slot st, o.proposalStatus.get slot = some st → st.2 = (L.rootAt top slot).isSome
  blocks : ∀ slot b, o.blockPresent.get slot = some b → b = (L.rootAt top slot).isSome

variable {L top}

theorem Outcomes.TrueOn.liveSlot {o : Outcomes} (h : o.TrueOn L top) (schedule : Schedule) (slot : Nat) :
    (liveSlot spec schedule o slot).TrueOn L top schedule.syncCommittee where
  block hb := by
    obtain ⟨b, hget, rfl⟩ : ∃ b, o.blockPresent.get slot = some b ∧ b = true := by
      cases hget : o.blockPresent.get slot with
      | none => simp [BeaconIndexer.liveSlot, hget] at hb
      | some b => exact ⟨b, rfl, by simpa [BeaconIndexer.liveSlot, hget] using hb⟩
    exact (h.blocks slot true hget).symm
  skipped hs := by
    have hget : o.blockPresent.get slot = some false := by simpa [BeaconIndexer.liveSlot] using hs
    exact Option.isNone_iff_eq_none.1 (Option.isSome_eq_false_iff.1 (h.blocks slot false hget).symm)
  proposed b hb := by
    obtain ⟨duty, -, hb⟩ := Option.bind_eq_some_iff.1 hb
    obtain ⟨st, hget, rfl⟩ := Option.map_eq_some_iff.1 hb
    exact h.proposals slot st hget
  attestations a ha := by
    obtain ⟨duty, -, rfl⟩ := List.mem_map.1 ha
    exact h.attestations slot duty
  sync k v b hv hb := by
    replace hb : (schedule.syncCommittee.map (o.sync spec schedule slot))[k]? = some (some b) := hb
    rw [List.getElem?_map, hv, Option.map_some, Option.some.injEq] at hb
    unfold Outcomes.sync at hb
    split at hb
    · cases hb
    · obtain ⟨st, hget, rfl⟩ := Option.map_eq_some_iff.1 hb
      exact h.sync slot v st hget

end Shown

/-! ## What the queries return -/

section Queries

variable {L : Ledger spec} {top : Root} {reg : Nat → Nat → Prop} {db : Db} (h : db.TrueOn L top reg)
include h

/-- The status under a duty's slot is the row of that slot's epoch. -/
theorem Db.TrueOn.attestation {o : Outcomes} {tracked : List Nat} {start current : Nat}
    (ho : o.attestationStatus = db.fetchAttestationStatus tracked start current) (slot : Nat) (duty : AttesterDuty) :
    (o.attestation slot duty).TrueOn L top slot := by
  unfold Outcomes.attestation
  rw [ho]
  cases hget : (db.fetchAttestationStatus tracked start current).get (slot, duty.validatorIndex) with
  | none =>
    constructor
    · intro hi
      cases hi
    · intro hi
      cases hi
  | some st =>
    obtain ⟨⟨⟨v, e⟩, a⟩, hmem, heq⟩ := List.mem_map.1 (Table.mem_of_get_ofList hget)
    have ha : db.attestationDuties.get (v, e) = some a := (Table.mem_select.1 hmem).1
    obtain ⟨hkey, rfl⟩ := Prod.mk.inj heq
    obtain ⟨rfl, rfl⟩ := Prod.mk.inj hkey
    have he := h.assigned _ e a ha
    constructor
    · intro hi
      have hinc : a.included = true := by
        cases hinc : a.included with
        | true => rfl
        | false => cases hknown : a.inclusionKnown <;> simp [hinc, hknown, resolveIncluded] at hi
      obtain ⟨x, hx⟩ := Option.isSome_iff_exists.1 ((h.collected _ e a ha).included ▸ hinc)
      refine ⟨x, hx, ?_⟩
      show L.VotedAt top (spec.slotToEpoch a.assignedSlot) _ x ∧ _
      rw [he]
      exact h.votes _ e a x ha hx
    · intro hi
      have hmissed : a.missed = true := by
        unfold AttestationRow.missed
        cases hinc : a.included with
        | true => simp [hinc, resolveIncluded] at hi
        | false => cases hknown : a.inclusionKnown <;> simp [hinc, hknown, resolveIncluded] at hi ⊢
      show ∀ s < spec.epochStartSlot (spec.slotToEpoch a.assignedSlot + 2), ¬L.VotedAt top (spec.slotToEpoch a.assignedSlot) _ s
      rw [he]
      exact h.missed _ e a ha hmissed

theorem Db.TrueOn.syncStatus {tracked : List Nat} {start stop slot v : Nat} {st : Bool × Bool}
    (hget : (db.fetchSyncStatus tracked start stop).get (slot, v) = some st) : L.SyncShown top slot v st.1 := by
  obtain ⟨⟨⟨v', slot'⟩, d⟩, hmem, heq⟩ := List.mem_map.1 (Table.mem_of_get_ofList hget)
  obtain ⟨hkey, rfl⟩ := Prod.mk.inj heq
  obtain ⟨rfl, rfl⟩ := Prod.mk.inj hkey
  obtain ⟨htrue, hnone⟩ := h.sync v' slot' d (Table.mem_select.1 hmem).1
  unfold SyncRow.TrueAt at htrue
  unfold Ledger.SyncShown
  cases hr : L.rootAt top slot' with
  | some r =>
    rw [hr] at htrue
    exact htrue.2
  | none =>
    rw [hr] at htrue
    exact hnone htrue

theorem Db.TrueOn.proposalStatus {start stop slot : Nat} {st : Nat × Bool}
    (hget : (db.fetchProposalStatus start stop).get slot = some st) : st.2 = (L.rootAt top slot).isSome := by
  obtain ⟨⟨slot', d⟩, hmem, heq⟩ := List.mem_map.1 (Table.mem_of_get_ofList hget)
  obtain ⟨rfl, rfl⟩ := Prod.mk.inj heq
  have htrue := h.proposals slot' d (Table.mem_select.1 hmem).1
  unfold ProposalRow.TrueAt at htrue
  cases hr : L.rootAt top slot' with
  | some r =>
    rw [hr] at htrue
    exact htrue.1
  | none =>
    rw [hr] at htrue
    exact htrue

theorem Db.TrueOn.blockPresence {tracked : List Nat} {start stop slot : Nat} {b : Bool}
    (hget : (db.fetchBlockPresence tracked start stop).get slot = some b) : b = (L.rootAt top slot).isSome := by
  rw [Db.fetchBlockPresence_get] at hget
  split at hget
  · split at hget
    · rename_i hhas
      obtain ⟨row, hrow⟩ := Table.has_iff.1 hhas
      have hstored : db.storedRoot slot = some row.root := by rw [Db.storedRoot, hrow, Option.map_some]
      rw [h.stored slot row.root hstored]
      exact (Option.some.inj hget).symm
    · rename_i hhas
      split at hget
      · rename_i hany
        obtain ⟨v, -, hcov⟩ := List.any_eq_true.1 hany
        have hn : db.storedRoot slot = none := by
          rw [Db.storedRoot, Table.has_eq_false.1 (Bool.not_eq_true _ ▸ hhas), Option.map_none]
        rw [← h.covered v slot hcov, hn]
        exact (Option.some.inj hget).symm
      · cases hget
  · cases hget

end Queries

/-- A slot of the window for which the query returns nothing is not covered. -/
theorem fetchBlockPresence_none {db : Db} {tracked : List Nat} {start stop slot v : Nat}
    (hget : (db.fetchBlockPresence tracked start stop).get slot = none) (hs : start ≤ slot ∧ slot < stop) (hv : v ∈ tracked) :
    db.covered v slot = false := by
  rw [Db.fetchBlockPresence_get, if_pos hs] at hget
  split at hget
  · cases hget
  · split at hget
    · cases hget
    · rename_i hany
      by_contra hcov
      exact hany (List.any_eq_true.2 ⟨v, hv, by simpa using hcov⟩)

/-! ## Building a page -/

section Build

variable {L : Ledger spec} {top : Root} {cfg : LiveConfig spec} {registry : Table Nat ValidatorRow}

/-- The page's reads, among the states a run reaches. -/
abbrev pageContract (L : Ledger spec) (top : Root) (cfg : LiveConfig spec) (registry : Table Nat ValidatorRow) :=
  (Contract.alone ((chainPasses L top cfg).beside (pageSem spec))).within ((chainPasses L top cfg).Reach (started registry ()))

/-- A status that is read is read from a database that is true of the chain. -/
theorem pageContract_fetch (hL : L.Spans) (q : PageQuery)
    (s : {c // (chainPasses L top cfg).Reach (started registry ()) c}) :
    (pageContract L top cfg registry).Ok (fetchStatus q) s (fun a s' => a = q.answer s'.1.state.1 ∧
      s'.1.state.1.TrueOn L top (activeIn registry)) fun _ _ => True := by
  refine .ask (fun _ _ => trivial) fun s₁ r s₂ s₃ _ hsem hr => ?_
  obtain rfl : s₂ = s₃ := Subtype.ext hr
  obtain ⟨-, -, rfl | ⟨m, rfl⟩⟩ := hsem
  · exact ⟨rfl, chainPasses_true hL s₂.2⟩
  · trivial

theorem pageContract_free {α : Type} (x : PageTask α) : (pageContract L top cfg registry).Always x fun _ => True :=
  .free (fun _ _ => trivial) x

/-- What a slot without a known block and without a known skip means. -/
def LiveUpdate.UnknownUncovered (page : LiveUpdate) (tracked : List Nat) (db : Db) : Prop :=
  ∀ row ∈ page.slots, row.block = false → row.skipped = false → ∀ v ∈ tracked, db.covered v row.slot = false

theorem buildLiveUpdate_ok (hL : L.Spans) (tracked : List Nat)
    (s : {c // (chainPasses L top cfg).Reach (started registry ()) c}) :
    (pageContract L top cfg registry).Ok (buildLiveUpdate spec tracked) s (fun page s' =>
      (∀ row ∈ page.slots, row.TrueOn L top page.syncCommittee) ∧ page.UnknownUncovered tracked s'.1.state.1) fun _ _ => True := by
  refine .bind ((pageContract_free _ s).imp fun headSlot s₁ _ => .bind ((pageContract_free _ s₁).imp fun processed s₂ _ => ?_))
  dsimp only
  refine .bind ((pageContract_free _ s₂).imp fun schedule s₃ _ => ?_)
  refine .bind ((pageContract_fetch hL _ s₃).imp fun attestation s₄ ha => .bind ((pageContract_fetch hL _ s₄).imp fun sync s₅ hs =>
    .bind ((pageContract_fetch hL _ s₅).imp fun proposal s₆ hp => .bind ((pageContract_fetch hL _ s₆).imp fun blocks s₇ hb => ?_))))
  refine .pure fun s₈ hr => ?_
  obtain rfl : s₇ = s₈ := Subtype.ext hr
  have htrue : Outcomes.TrueOn L top ⟨attestation, sync, proposal, blocks⟩ :=
    ⟨ha.2.attestation ha.1, fun slot v st hget => hs.2.syncStatus (hs.1 ▸ hget), fun slot st hget => hp.2.proposalStatus (hp.1 ▸ hget),
      fun slot b hget => hb.2.blockPresence (hb.1 ▸ hget)⟩
  refine ⟨fun row hrow => ?_, fun row hrow hblock hskip v hv => ?_⟩
  · obtain ⟨slot, -, rfl⟩ := List.mem_map.1 hrow
    exact htrue.liveSlot schedule slot
  · obtain ⟨slot, hslot, rfl⟩ := List.mem_map.1 hrow
    have hnone : blocks.get slot = none := by
      replace hblock : (blocks.get slot).getD false = false := hblock
      replace hskip : (blocks.get slot == some false) = false := hskip
      cases hget : blocks.get slot with
      | none => rfl
      | some b => cases b <;> simp [hget] at hblock hskip
    rw [hb.1] at hnone
    refine fetchBlockPresence_none hnone ?_ hv
    have hwindow := List.mem_range'_1.1 hslot
    show _ ≤ slot ∧ slot < _
    omega

/-- In every run over one chain, whatever the node answers and wherever the workers are between two reads of the page: every
block, skip, proposal, participation, inclusion and miss that the page shows is the chain's, and a slot that is shown neither
with a block nor as skipped has not been processed. -/
theorem live_page_true (hL : L.Spans) (tracked : List Nat) {c c' : Config indexer (Unit × Role) (View L) Memory (Db × Unit)}
    (hr : (chainPasses L top cfg).Reach (started registry ()) c) {page : LiveUpdate}
    (hx : Exec ((chainPasses L top cfg).beside (pageSem spec)) (buildLiveUpdate spec tracked).run c (.ok page) c') :
    (∀ row ∈ page.slots, row.TrueOn L top page.syncCommittee) ∧ page.UnknownUncovered tracked c'.state.1 :=
  System.beside_exec (Q := fun page c => (∀ row ∈ page.slots, row.TrueOn L top page.syncCommittee) ∧
    page.UnknownUncovered tracked c.state.1) hr hx (buildLiveUpdate_ok hL tracked)

end Build

/-! ## A page with a vote -/

theorem twiceVoted_spans : twiceVoted.Spans := by
  intro head e c hc
  obtain rfl : c = ⟨0, 2 * e, [7]⟩ := List.mem_singleton.1 hc
  show 2 * e / 2 = e
  omega

/-- The node of a view and the rows of the database answer. -/
def pageHandler (V : View twiceVoted) : (e : PageEffect) → Db × Unit → e.Result × (Db × Unit)
  | .indexer (.node q), s => (V.serve (fun _ => true) q, s)
  | .indexer (.db op), s => (.ok (op.answer pairs 0 s.1), s)
  | .query q, s => (.ok (q.answer s.1), s)

/-- The page issues no statement that writes. -/
def onlyReads : PageEffect → Db × Unit → Bool
  | .indexer (.db op), _ => op.reads
  | _, _ => true

theorem pageHandler_reads (V : View twiceVoted) (e : PageEffect) (s : Db × Unit) (h : onlyReads e s = true) :
    (pageHandler V e s).2 = s ∧ pageSem pairs e s (pageHandler V e s).1 s := by
  cases e with
  | indexer e =>
    cases e with
    | node q => exact ⟨rfl, ⟨trivial, rfl⟩, rfl⟩
    | db op =>
      refine ⟨rfl, .inl ⟨0, rfl, ?_⟩, rfl⟩
      -- a reading statement leaves the database as it is
      cases op <;> first | rfl | cases h
  | query q => exact ⟨rfl, rfl, .inl rfl⟩

/-- The page of validator 7 as one reader builds it. -/
def pageOf (V : View twiceVoted) (s : Db × Unit) : Option (Except Error LiveUpdate) :=
  ((buildLiveUpdate pairs [7]).run.advance onlyReads (pageHandler V) 40 s).bind fun r => r.1.result?

/-- After the three collected turns the page shows the vote of slot 2 with its first inclusion, and slot 5 as skipped. -/
theorem live_page_true_voted : ∃ (c : Config indexer (Unit × Role) (View twiceVoted) Memory (Db × Unit)) (page : LiveUpdate)
    (voted skipped : LiveSlot),
    (chainPasses twiceVoted ⟨106⟩ lagZero).Reach (started sevenActive ()) c ∧ voted ∈ page.slots ∧ skipped ∈ page.slots ∧
    voted.slot = 2 ∧ voted.attestations = [⟨7, some true, some 3⟩] ∧ skipped.slot = 5 ∧ skipped.skipped = true ∧
    voted.TrueOn twiceVoted ⟨106⟩ page.syncCommittee ∧ skipped.TrueOn twiceVoted ⟨106⟩ page.syncCommittee := by
  have hplay : (([voteTurn atDuty fun _ => true, voteTurn atDuty fun _ => true].foldlM (playVotes fun _ _ => true)
      beforeVotes).bind fun x => proceedVotes (fun _ _ => true) 100 x (voteTurn windowFinal fun _ => true)).any (fun y =>
        (pageOf atSecondVote y.2).any fun page => page.toOption.any fun page =>
          page.slots.any (fun row => row.slot == 2 && row.attestations == [⟨7, some true, some 3⟩]) &&
          page.slots.any fun row => row.slot == 5 && row.skipped) = true := by decide +kernel
  obtain ⟨y, hy, hpage⟩ := (Option.any_eq_true _ _).1 hplay
  obtain ⟨r, hr, hshown⟩ := (Option.any_eq_true _ _).1 hpage
  obtain ⟨page, hok, hrows⟩ := (Option.any_eq_true _ _).1 hshown
  obtain rfl : r = .ok page := by
    cases r with
    | error e => cases hok
    | ok p => rw [Option.some.inj hok]
  obtain ⟨hvoted, hskipped⟩ := Bool.and_eq_true_iff.1 hrows
  obtain ⟨voted, hv, hv'⟩ := List.any_eq_true.1 hvoted
  obtain ⟨skipped, hs, hs'⟩ := List.any_eq_true.1 hskipped
  simp only [Bool.and_eq_true, beq_iff_eq] at hv' hs'
  have hreach : (chainPasses twiceVoted ⟨106⟩ lagZero).Reach (started sevenActive ())
      ((started sevenActive ()).set ((), .live) (.running windowFinal y.1) y.2) :=
    Turn.reach_turns (hosts_passes fun _ _ _ _ => trivial) (opens_passes fun _ _ _ => trivial) _ rfl rfl hy
  obtain ⟨⟨p, s⟩, hp, hres⟩ := Option.bind_eq_some_iff.1 hr
  have hexec : Exec (fun e s r s' => s' = s ∧ pageSem pairs e s r s) (buildLiveUpdate pairs [7]).run y.2 (.ok page) s :=
    Exec.of_advance (fun e s he => pageHandler_reads atSecondVote e s he) hp hres
  obtain ⟨htrue, -⟩ := live_page_true twiceVoted_spans [7] hreach (System.beside_of_exec hexec rfl)
  exact ⟨_, page, voted, skipped, hreach, hv, hs, hv'.1, hv'.2, hs'.1, hs'.2, htrue voted hv, htrue skipped hs⟩

end BeaconIndexer
