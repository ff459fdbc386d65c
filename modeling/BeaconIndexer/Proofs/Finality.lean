/-
What is final, over any sequence of chains. A row stores the slot of its evidence and not the root,
so it is only as good as the block that is stored at that slot when a promotion confirms it. Where
every block that is recorded in a slot agrees with the provisional rows that are already there,
every final row describes the finalized chain, and a rollback needs no more than it deletes.
-/
import BeaconIndexer.Proofs.Misses

namespace BeaconIndexer

open Effects Ancestry Relational

variable {spec : ChainSpec}

/-! ## What rows say of a block -/

section Describes

variable (L : Ledger spec) (db : Db)

/-- The proposal row says what the chain has at the slot. -/
def ProposalRow.TrueAt (top : Root) (s : Nat) (d : ProposalRow) : Prop :=
  match L.rootAt top s with
  | some r => d.proposed = true ∧ ∃ b, L.block r = some b ∧ d.proposerIndex = b.proposerIndex
  | none => d.proposed = false

/-- The sync row says what the chain has at the slot. -/
def SyncRow.TrueAt (top : Root) (v s : Nat) (d : SyncRow) : Prop :=
  match L.rootAt top s with
  | some r => d.missedBlock = false ∧ L.SyncColumns r v d.participated
  | none => d.missedBlock = true

/-- The provisional rows about a slot describe the block. -/
structure Db.DescribesAt (s : Nat) (r : Root) : Prop where
  attestations : ∀ v e a, db.attestationDuties.get (v, e) = some a → a.finalized = false → a.inclusionSlot = some s →
    L.VoteColumns r v e (some s) a.sourceCorrect a.targetCorrect a.headCorrect
  proposals : ∀ d, db.blockProposals.get s = some d → d.finalized = false →
    d.proposed = true ∧ ∃ b, L.block r = some b ∧ d.proposerIndex = b.proposerIndex
  sync : ∀ v d, db.syncDuties.get (v, s) = some d → d.finalized = false →
    d.missedBlock = false ∧ L.SyncColumns r v d.participated

/-- Provisional rows describe the stored blocks, and the dependency of a block's reward job is the block of its slot. -/
structure Db.Described : Prop where
  rows : ∀ s r, db.storedRoot s = some r → db.DescribesAt L s r
  jobs : ∀ j row s root, db.liveJobs.get j = some row → j.slot = some s → j.component ≠ .attestationRewards →
    row.dependency = some root → L.slotOf root = s

/-- Final rows describe the chain of the finalized checkpoint. -/
structure Db.FinalTrue (final : Checkpoint) : Prop where
  attestations : ∀ v e a x, db.attestationDuties.get (v, e) = some a → a.finalized = true → a.inclusionSlot = some x →
    x ≤ spec.epochStartSlot final.epoch ∧ ∃ r, L.rootAt final.root x = some r ∧
      L.VoteColumns r v e (some x) a.sourceCorrect a.targetCorrect a.headCorrect
  proposals : ∀ s d, db.blockProposals.get s = some d → d.finalized = true →
    s ≤ spec.epochStartSlot final.epoch ∧ d.TrueAt L final.root s
  sync : ∀ v s d, db.syncDuties.get (v, s) = some d → d.finalized = true →
    s ≤ spec.epochStartSlot final.epoch ∧ d.TrueAt L final.root v s

/-- A block that is recorded in a slot without one is described by the provisional rows about the slot. -/
def RecordsDescribed (op : DbOp) : Prop :=
  ∀ s r p, op = .recordBlock s r p → db.storedRoot s = none → db.DescribesAt L s r

end Describes

variable {L : Ledger spec} {cfg : LiveConfig spec} {reg : Nat → Nat → Prop} {V : View L} {tracked : List Nat} {now : Nat}
  {op : DbOp} {db : Db} {final : Checkpoint} {s : Nat} {r : Root}

theorem AttestationRow.SameVote.columns {v e x : Nat} {a b : AttestationRow} (hs : a.SameVote b)
    (h : L.VoteColumns r v e (some x) a.sourceCorrect a.targetCorrect a.headCorrect) :
    L.VoteColumns r v e (some x) b.sourceCorrect b.targetCorrect b.headCorrect := by
  obtain ⟨data, hv, hslot, hsource, htarget, hhead⟩ := h
  exact ⟨data, hv, hslot, hs.source _ hsource, hs.target _ htarget, hs.head _ hhead⟩

theorem Grounded.slotOf (hg : Grounded L db) (hr : db.storedRoot s = some r) :
    L.slotOf r = s ∧ ∃ b, L.block r = some b := by
  obtain ⟨parent, hrow⟩ := (Db.storedRoot_eq_some db).1 hr
  obtain ⟨b, hb, hslot, -⟩ := hg.blocks s _ hrow
  exact ⟨(Ledger.slotOf_eq hb).trans hslot, b, hb⟩

/-! ## Provisional rows -/

/-- A row that is provisional now was never final. -/
theorem provisional_before {ρ : Type} {f : ρ → Bool} {old new : ρ} {after : Option ρ}
    (hmono : f old = true → ∃ d, after = some d ∧ f d = true) (hnew : after = some new) (hf : f new = false) :
    f old = false := by
  cases hold : f old with
  | false => rfl
  | true =>
    obtain ⟨d, hd, hfd⟩ := hmono hold
    rw [hnew] at hd
    obtain rfl := Option.some.inj hd
    exact absurd (hfd.symm.trans hf) (by decide)

theorem Db.Described.exec_attestation (hdb : db.Described L) (hp : LivePromise V cfg tracked reg op db)
    (hr : db.storedRoot s = some r) {v e : Nat} {a : AttestationRow}
    (ha : (op.exec spec now db).attestationDuties.get (v, e) = some a) (hf : a.finalized = false)
    (hx : a.inclusionSlot = some s) : L.VoteColumns r v e (some s) a.sourceCorrect a.targetCorrect a.headCorrect := by
  -- the stored block of the slot is the one the columns were decoded from
  have same : ∀ {r'}, db.storedRoot (L.slotOf r') = some r' → s = L.slotOf r' → r' = r := by
    intro r' hr' hslot
    rw [← hslot, hr] at hr'
    exact (Option.some.inj hr').symm
  rcases (dutyChange_of_some ha).vote_cases with ⟨a₀, ha₀, hs⟩ | ⟨w, rfl, -, hs⟩ | ⟨d, a₀, rfl, ha₀, -, rfl⟩
  · have hf₀ : a₀.finalized = false := provisional_before (fun h => exec_att_final ha₀ h) ha hf
    exact hs.columns ((hdb.rows s r hr).attestations v e a₀ ha₀ hf₀ (hs.inclusionSlot.symm.trans hx))
  · have hw : w.inclusionSlot = some s := hs.inclusionSlot.symm.trans hx
    obtain ⟨-, ⟨-, hnone, -⟩ | ⟨-, r', -, hstored, -, hcols⟩⟩ := hp
    · rw [hnone] at hw
      cases hw
    · rw [hw] at hcols
      obtain rfl := same hstored (Option.some.inj hcols.choose_spec.2.1)
      exact hs.columns hcols
  · obtain ⟨r', -, hstored, hcols⟩ := hp
    obtain rfl := Option.some.inj hx
    obtain rfl := same hstored (Option.some.inj hcols.choose_spec.2.1)
    exact hcols

theorem Db.Described.exec_proposal (hdb : db.Described L) (hg : Grounded L db) (hp : LivePromise V cfg tracked reg op db)
    (hr : db.storedRoot s = some r) {d : ProposalRow} (hd : (op.exec spec now db).blockProposals.get s = some d)
    (hf : d.finalized = false) : d.proposed = true ∧ ∃ b, L.block r = some b ∧ d.proposerIndex = b.proposerIndex := by
  rcases exec_proposal_cases hd with ⟨d₀, hd₀, hidx, hprop, -⟩ | ⟨w, rfl, hidx, hprop, -⟩
  · have hf₀ : d₀.finalized = false := provisional_before (fun h => exec_proposal_final hd₀ h) hd hf
    obtain ⟨h1, b, hb, h2⟩ := (hdb.rows s r hr).proposals d₀ hd₀ hf₀
    exact ⟨hprop.trans h1, b, hb, hidx.trans h2⟩
  · obtain ⟨-, ⟨hroot, hw, hproposer⟩ | ⟨hw, r', b, -, hb, hproposer, hsame⟩⟩ := hp
    · rw [hr] at hroot
      obtain ⟨-, b, hb⟩ := hg.slotOf hr
      refine ⟨by rw [hprop, hw, ← hroot]; rfl, b, hb, ?_⟩
      rw [hidx, hproposer, Ledger.proposerOf, ← hroot, Option.bind_some, hb]
    · obtain rfl := hsame r hr
      exact ⟨hprop.trans hw, b, hb, hidx.trans hproposer⟩

theorem Db.Described.exec_sync (hdb : db.Described L) (hp : LivePromise V cfg tracked reg op db)
    (hr : db.storedRoot s = some r) {v : Nat} {d : SyncRow} (hd : (op.exec spec now db).syncDuties.get (v, s) = some d)
    (hf : d.finalized = false) : d.missedBlock = false ∧ L.SyncColumns r v d.participated := by
  rcases exec_sync_cases hd with ⟨d₀, hd₀, hpart, hmiss, -⟩ | ⟨w, rfl, hpart, hmiss, -⟩
  · have hf₀ : d₀.finalized = false := provisional_before (fun h => exec_sync_final hd₀ h) hd hf
    obtain ⟨h1, h2⟩ := (hdb.rows s r hr).sync v d₀ hd₀ hf₀
    exact ⟨hmiss.trans h1, hpart ▸ h2⟩
  · obtain ⟨-, hroot, hcols⟩ := hp
    rw [← hroot, hr] at hcols
    exact ⟨hmiss.trans hcols.1, hpart ▸ hcols.2⟩

theorem Db.DescribesAt.congr {db' : Db} (h : db.DescribesAt L s r) (ha : db'.attestationDuties = db.attestationDuties)
    (hp : db'.blockProposals = db.blockProposals) (hs : db'.syncDuties = db.syncDuties) : db'.DescribesAt L s r :=
  ⟨fun v e a hget => h.attestations v e a (ha ▸ hget), fun d hget => h.proposals d (hp ▸ hget),
    fun v d hget => h.sync v d (hs ▸ hget)⟩

theorem Db.Described.exec (hdb : db.Described L) (hg : Grounded L db) (hp : LivePromise V cfg tracked reg op db)
    (hrec : RecordsDescribed L db op) : (op.exec spec now db).Described L where
  rows s r hr := by
    obtain ⟨parent, hrow⟩ := (Db.storedRoot_eq_some _).1 hr
    rcases exec_blocks_sub hrow with hold | ⟨p, rfl, -⟩
    · have hstored : db.storedRoot s = some r := (Db.storedRoot_eq_some db).2 ⟨parent, hold⟩
      exact ⟨fun v e a => hdb.exec_attestation hp hstored, fun d => hdb.exec_proposal hg hp hstored,
        fun v d => hdb.exec_sync hp hstored⟩
    · -- the rows are the same, and so is the block if one was stored
      have hrows : db.DescribesAt L s r := by
        cases hstored : db.storedRoot s with
        | none => exact hrec s r p rfl hstored
        | some r' =>
          obtain rfl := hp.2.2.2.2 r' hstored
          exact hdb.rows s r' hstored
      exact hrows.congr rfl rfl rfl
  jobs j row s root hrow hs hc hd := by
    rcases exec_dependency_cases hrow hd with ⟨row', hrow', hd'⟩ | ⟨job, payload, rfl, hof⟩
    · exact hdb.jobs j row' s root hrow' hs hc hd'
    · simp only [Db.ofJob, Bool.and_eq_true, beq_iff_eq] at hof
      obtain ⟨⟨⟨-, hslot⟩, hcomponent⟩, -⟩ := hof
      exact (Ledger.rootAt_iff.1 (hp s (hslot.symm.trans hs) (hcomponent ▸ hc))).2

/-! ## Promotions -/

section Promotion

variable {p : Promotion} (hp : PromotionPromise V p db)
include hp

/-- A stored block that is confirmed is the finalized chain's. -/
theorem PromotionPromise.rootAt (hg : Grounded L db) (hr : db.storedRoot s = some r) (hmem : r ∈ p.roots) :
    L.rootAt V.finalized.root s = some r :=
  Ledger.rootAt_iff.2 ⟨(hp.roots r hmem).1, (hg.slotOf hr).1⟩

theorem PromotionPromise.blockConfirmed (hg : Grounded L db) (h : db.blockConfirmed p (some s) = true) :
    ∃ r, db.storedRoot s = some r ∧ L.rootAt V.finalized.root s = some r := by
  unfold Db.blockConfirmed at h
  rw [Option.any_some, Option.any_eq_true] at h
  obtain ⟨r, hr, hmem⟩ := h
  exact ⟨r, hr, hp.rootAt hg hr (List.contains_iff_mem.1 hmem)⟩

/-- A block whose rewards were staged on the confirmed branch is stored and the finalized chain's. -/
theorem PromotionPromise.staged (hdb : db.Described L) {component : Component} (hc : component ≠ .attestationRewards)
    (h : db.StagedAt p s component) : ∃ r, db.storedRoot s = some r ∧ L.rootAt V.finalized.root s = some r := by
  obtain ⟨j, row, root, hrow, hs, rfl, hd, hmem⟩ := h
  obtain ⟨hanc, hstored⟩ := hp.roots root hmem
  have hslot : L.slotOf root = s := hdb.jobs j row s root hrow hs hc hd
  exact ⟨root, hslot ▸ hstored, Ledger.rootAt_iff.2 ⟨hanc, hslot⟩⟩

/-- Inside the floor the finalized chain has no block where none is stored. -/
theorem PromotionPromise.absent (hs : p.floor ≤ s) (hn : db.storedRoot s = none) : L.rootAt V.finalized.root s = none := by
  cases hr : L.rootAt V.finalized.root s with
  | none => rfl
  | some r =>
    obtain ⟨-, hstored⟩ := hp.roots r (hp.confirmed s r hs hr)
    rw [(Ledger.rootAt_iff.1 hr).2, hn] at hstored
    cases hstored

/-- A promoted slot lies between the floor and the checkpoint. -/
theorem PromotionPromise.bounds {owner : Nat} {present : Bool} (h : db.SlotPromoted spec p owner s present) :
    p.floor ≤ s ∧ s ≤ spec.epochStartSlot V.finalized.epoch := by
  rcases h with h | ⟨e, hready, hs⟩
  · simp only [Db.slotProven, Bool.and_eq_true, decide_eq_true_eq] at h
    obtain ⟨⟨⟨⟨-, hlt⟩, hfloor⟩, -⟩, -⟩ := h
    rw [hp.epoch] at hlt
    exact ⟨hfloor, (spec.slotToEpoch_lt_iff.1 hlt).le⟩
  · obtain ⟨hle, hfloor, -, -⟩ := Db.readyPairs_slots hready
    simp only [Db.inEpoch, Bool.and_eq_true, decide_eq_true_eq] at hs
    refine ⟨hfloor.trans hs.1, hs.2.le.trans (spec.epochStartSlot_mono ?_)⟩
    have := hp.target
    omega

theorem PromotionPromise.proposal (hdb : db.Described L) (hg : Grounded L db) {d : ProposalRow}
    (hd : db.blockProposals.get s = some d) (hf : d.finalized = false)
    (h : db.SlotPromoted spec p d.proposerIndex s d.proposed) : d.TrueAt L V.finalized.root s := by
  have present : d.proposed = true → ∃ r, db.storedRoot s = some r ∧ L.rootAt V.finalized.root s = some r := by
    intro hprop
    rcases h with h | ⟨e, hready, hs⟩
    · rw [hprop] at h
      simp only [Db.slotProven, Bool.and_eq_true, if_true] at h
      exact hp.blockConfirmed hg h.2
    · obtain ⟨-, -, hstaged, -⟩ := Db.readyPairs_slots hready
      exact hp.staged hdb (by decide) (hstaged s d hd rfl hs hprop)
  unfold ProposalRow.TrueAt
  cases hprop : d.proposed with
  | true =>
    obtain ⟨r, hr, hroot⟩ := present hprop
    rw [hroot]
    exact ⟨rfl, ((hdb.rows s r hr).proposals d hd hf).2⟩
  | false =>
    -- a stored block would make the row a proposal
    have hn : db.storedRoot s = none := by
      cases hr : db.storedRoot s with
      | none => rfl
      | some r => exact absurd (((hdb.rows s r hr).proposals d hd hf).1.symm.trans hprop) (by decide)
    rw [hp.absent (hp.bounds h).1 hn]

theorem PromotionPromise.sync (hdb : db.Described L) (hg : Grounded L db) {v : Nat} {d : SyncRow}
    (hd : db.syncDuties.get (v, s) = some d) (hf : d.finalized = false)
    (h : db.SlotPromoted spec p v s (!d.missedBlock)) : d.TrueAt L V.finalized.root v s := by
  have present : d.missedBlock = false → ∃ r, db.storedRoot s = some r ∧ L.rootAt V.finalized.root s = some r := by
    intro hmiss
    rcases h with h | ⟨e, hready, hs⟩
    · rw [hmiss] at h
      simp only [Db.slotProven, Bool.and_eq_true, Bool.not_false, if_true] at h
      exact hp.blockConfirmed hg h.2
    · obtain ⟨-, -, -, hstaged⟩ := Db.readyPairs_slots hready
      exact hp.staged hdb (by decide) (hstaged s d hd hs hmiss)
  unfold SyncRow.TrueAt
  cases hmiss : d.missedBlock with
  | false =>
    obtain ⟨r, hr, hroot⟩ := present hmiss
    rw [hroot]
    exact ⟨rfl, ((hdb.rows s r hr).sync v d hd hf).2⟩
  | true =>
    have hn : db.storedRoot s = none := by
      cases hr : db.storedRoot s with
      | none => rfl
      | some r => exact absurd (((hdb.rows s r hr).sync v d hd hf).1.symm.trans hmiss) (by decide)
    rw [hp.absent (hp.bounds h).1 hn]

end Promotion

/-! ## Final rows -/

/-- A block of the finalized chain is not after the start of the checkpoint's epoch. -/
theorem View.slotOf_le_finalized (V : View L) (h : L.forest.Anc V.finalized.root r) :
    L.slotOf r ≤ spec.epochStartSlot V.finalized.epoch :=
  h.height_le.trans (Forest.below_iff.1 V.boundary).2.1

theorem Db.FinalTrue.exec_attestation (hdb : db.FinalTrue L V.finalized) (hd : db.Described L) (hg : Grounded L db)
    (hcol : db.Collected reg) (hp : LivePromise V cfg tracked reg op db) {v e x : Nat} {a : AttestationRow}
    (ha : (op.exec spec now db).attestationDuties.get (v, e) = some a) (hf : a.finalized = true)
    (hx : a.inclusionSlot = some x) : x ≤ spec.epochStartSlot V.finalized.epoch ∧
      ∃ r, L.rootAt V.finalized.root x = some r ∧ L.VoteColumns r v e (some x) a.sourceCorrect a.targetCorrect a.headCorrect := by
  have hcases := (dutyChange_of_some ha).vote_cases
  rcases hcol.final_cases hp ha hf with ⟨a₀, ha₀, hf₀⟩ | ⟨p, a₀, rfl, ha₀, hf₀, hproven⟩
  · rcases hcases with ⟨a₁, ha₁, hs⟩ | ⟨w, rfl, hr, -⟩ | ⟨d, a₁, rfl, ha₁, -, rfl⟩
    · rw [ha₀] at ha₁
      obtain rfl := Option.some.inj ha₁
      obtain ⟨hle, r, hr, hcols⟩ := hdb.attestations v e a₀ x ha₀ hf₀ (hs.inclusionSlot.symm.trans hx)
      exact ⟨hle, r, hr, hs.columns hcols⟩
    · rw [AttestationWrite.replaces_provisional hp.1 (hr a₀ ha₀)] at hf₀
      cases hf₀
    · -- a repair decodes a block of the finalized chain
      obtain ⟨r, hanc, -, hcols⟩ := hp
      obtain rfl := Option.some.inj hx
      have hslot := (hcols.votedAt hanc).2
      exact ⟨hslot ▸ V.slotOf_le_finalized hanc, r, Ledger.rootAt_iff.2 ⟨hanc, hslot.symm⟩, hcols⟩
  · rcases hcases with ⟨a₁, ha₁, hs⟩ | ⟨w, hop, -⟩ | ⟨d, a₁, hop, -⟩
    · rw [ha₀] at ha₁
      obtain rfl := Option.some.inj ha₁
      have hx₀ : a₀.inclusionSlot = some x := hs.inclusionSlot.symm.trans hx
      have hinc : a₀.included = true := by
        rw [(hcol v e a₀ ha₀).included, hx₀]
        rfl
      have hconfirmed : db.blockConfirmed p (some x) = true := by
        rcases hproven with hproven | hproven
        · simp only [Db.inclusionProven, Bool.and_eq_true, hx₀] at hproven
          exact hproven.2
        · simp only [Db.windowProven, Bool.and_eq_true, hinc, hx₀, Bool.not_true, Bool.false_or] at hproven
          exact hproven.2
      obtain ⟨r, hr, hroot⟩ := PromotionPromise.blockConfirmed hp hg hconfirmed
      obtain ⟨hanc, hslot⟩ := Ledger.rootAt_iff.1 hroot
      exact ⟨hslot ▸ V.slotOf_le_finalized hanc, r, hroot,
        hs.columns ((hd.rows x r hr).attestations v e a₀ ha₀ hf₀ hx₀)⟩
    · cases hop
    · cases hop

theorem ProposalRow.TrueAt.congr {top : Root} {d d' : ProposalRow} (h : d.TrueAt L top s)
    (hi : d'.proposerIndex = d.proposerIndex) (hp : d'.proposed = d.proposed) : d'.TrueAt L top s := by
  unfold ProposalRow.TrueAt at h ⊢
  rw [hi, hp]
  exact h

theorem SyncRow.TrueAt.congr {top : Root} {v : Nat} {d d' : SyncRow} (h : d.TrueAt L top v s)
    (hp : d'.participated = d.participated) (hm : d'.missedBlock = d.missedBlock) : d'.TrueAt L top v s := by
  unfold SyncRow.TrueAt at h ⊢
  rw [hp, hm]
  exact h

theorem Db.FinalTrue.exec_proposal (hdb : db.FinalTrue L V.finalized) (hd : db.Described L) (hg : Grounded L db)
    (hp : LivePromise V cfg tracked reg op db) {d : ProposalRow} (hget : (op.exec spec now db).blockProposals.get s = some d)
    (hf : d.finalized = true) : s ≤ spec.epochStartSlot V.finalized.epoch ∧ d.TrueAt L V.finalized.root s := by
  rcases exec_proposal_cases hget with ⟨d₀, hd₀, hidx, hprop, hflag⟩ | ⟨w, rfl, -, -, hflag⟩
  · cases hf₀ : d₀.finalized with
    | true =>
      obtain ⟨hle, htrue⟩ := hdb.proposals s d₀ hd₀ hf₀
      exact ⟨hle, htrue.congr hidx hprop⟩
    | false =>
      rcases hflag with hflag | ⟨p, rfl, hpromoted⟩
      · rw [hf, hf₀] at hflag
        cases hflag
      · exact ⟨(PromotionPromise.bounds hp hpromoted).2,
          (PromotionPromise.proposal hp hd hg hd₀ hf₀ hpromoted).congr hidx hprop⟩
  · rw [hp.1, hf] at hflag
    cases hflag

theorem Db.FinalTrue.exec_sync (hdb : db.FinalTrue L V.finalized) (hd : db.Described L) (hg : Grounded L db)
    (hp : LivePromise V cfg tracked reg op db) {v : Nat} {d : SyncRow}
    (hget : (op.exec spec now db).syncDuties.get (v, s) = some d) (hf : d.finalized = true) :
    s ≤ spec.epochStartSlot V.finalized.epoch ∧ d.TrueAt L V.finalized.root v s := by
  rcases exec_sync_cases hget with ⟨d₀, hd₀, hpart, hmiss, hflag⟩ | ⟨w, rfl, -, -, hflag⟩
  · cases hf₀ : d₀.finalized with
    | true =>
      obtain ⟨hle, htrue⟩ := hdb.sync v s d₀ hd₀ hf₀
      exact ⟨hle, htrue.congr hpart hmiss⟩
    | false =>
      rcases hflag with hflag | ⟨p, rfl, hpromoted⟩
      · rw [hf, hf₀] at hflag
        cases hflag
      · exact ⟨(PromotionPromise.bounds hp hpromoted).2,
          (PromotionPromise.sync hp hd hg hd₀ hf₀ hpromoted).congr hpart hmiss⟩
  · rw [hp.1, hf] at hflag
    cases hflag

theorem Db.FinalTrue.exec (hdb : db.FinalTrue L V.finalized) (hd : db.Described L) (hg : Grounded L db)
    (hcol : db.Collected reg) (hp : LivePromise V cfg tracked reg op db) : (op.exec spec now db).FinalTrue L V.finalized where
  attestations _ _ _ _ := hdb.exec_attestation hd hg hcol hp
  proposals _ _ := hdb.exec_proposal hd hg hp
  sync _ _ _ := hdb.exec_sync hd hg hp

/-- The rows stay true of a finalized chain that grows. -/
theorem Db.FinalTrue.enter {final' : Checkpoint} (hdb : db.FinalTrue L final) (h : FinalityKept L final V final') :
    db.FinalTrue L final' := by
  have hle : spec.epochStartSlot final.epoch ≤ spec.epochStartSlot final'.epoch := by
    rw [h.1]
    exact spec.epochStartSlot_mono h.2.1
  constructor
  · intro v e a x ha hf hx
    obtain ⟨hx', r, hr, hcols⟩ := hdb.attestations v e a x ha hf hx
    exact ⟨hx'.trans hle, r, (h.rootAt hx').trans hr, hcols⟩
  · intro s d hd hf
    obtain ⟨hs, htrue⟩ := hdb.proposals s d hd hf
    refine ⟨hs.trans hle, ?_⟩
    unfold ProposalRow.TrueAt at htrue ⊢
    rw [h.rootAt hs]
    exact htrue
  · intro v s d hd hf
    obtain ⟨hs, htrue⟩ := hdb.sync v s d hd hf
    refine ⟨hs.trans hle, ?_⟩
    unfold SyncRow.TrueAt at htrue ⊢
    rw [h.rootAt hs]
    exact htrue

/-! ## Runs -/

/-- Passes over chains that keep their finalized part, recording only blocks that the rows describe. -/
abbrev describedPasses (L : Ledger spec) (cfg : LiveConfig spec) :
    System indexer (Unit × Role) (View L) Memory (Db × Checkpoint) :=
  passes (FinalityKept L) cfg (fun _ _ _ => True) fun _ op s => RecordsDescribed L s.1 op

theorem finalTrue_kept (L : Ledger spec) (cfg : LiveConfig spec) (registry : Table Nat ValidatorRow) :
    PassInvariant (FinalityKept L) cfg (fun _ op s => RecordsDescribed L s.1 op) (activeIn registry) fun s =>
      Grounded L s.1 ∧ s.1.RegisteredAs registry ∧ s.1.Collected (activeIn registry) ∧ s.1.Described L ∧
        s.1.FinalTrue L s.2 where
  grounded h := h.1
  registered h := by rw [mem_activeValidatorsAt, h.2.1]
  starts h hadm := ⟨h.1, h.2.1, h.2.2.1, h.2.2.2.1, h.2.2.2.2.enter hadm⟩
  keeps := by
    rintro V tracked op db past now ⟨hg, hr, hcol, hd, hf⟩ ⟨_, rfl, -⟩ hp hrec
    exact ⟨hg.exec hp, hr.exec hp, hcol.exec hp, hd.exec hg hp hrec, hf.exec hd hg hcol hp⟩

/-- In every run over chains that keep their finalized part, where every block recorded in a slot without one agrees with
the provisional rows about the slot, the final rows describe the finalized chain: an inclusion is a vote of its block,
compared with the block's own ancestry, and a proposal or sync row shows the block of its slot, or that there is none. -/
theorem finalized_rows_true (L : Ledger spec) (cfg : LiveConfig spec) (registry : Table Nat ValidatorRow) (first : Checkpoint)
    {c : Config indexer (Unit × Role) (View L) Memory (Db × Checkpoint)}
    (hr : (describedPasses L cfg).Reach (started registry first) c) :
    (∀ v e row, c.state.1.attestationDuties.get (v, e) = some row → row.finalized = true → row.included = true →
      ∃ s r, row.inclusionSlot = some s ∧ L.rootAt c.state.2.root s = some r ∧
        L.VoteColumns r v e row.inclusionSlot row.sourceCorrect row.targetCorrect row.headCorrect) ∧
    (∀ s row, c.state.1.blockProposals.get s = some row → row.finalized = true → row.TrueAt L c.state.2.root s) ∧
    ∀ v s row, c.state.1.syncDuties.get (v, s) = some row → row.finalized = true → row.TrueAt L c.state.2.root v s := by
  have hcol : ({ Db.empty with validators := registry } : Db).Collected (activeIn registry) := by
    intro v e a h
    cases h
  have hdescribed : ({ Db.empty with validators := registry } : Db).Described L := by
    refine ⟨fun s r h => ?_, fun j row s root h => ?_⟩ <;> cases h
  have hfinal : ({ Db.empty with validators := registry } : Db).FinalTrue L first := by
    refine ⟨fun v e a x h => ?_, fun s d h => ?_, fun v s d h => ?_⟩ <;> cases h
  obtain ⟨-, -, hcol, -, hf⟩ := (finalTrue_kept L cfg registry).reach hr ⟨grounded_empty registry, fun _ _ => Iff.rfl, hcol,
    hdescribed, hfinal⟩
  refine ⟨fun v e row hrow hfin hinc => ?_, fun s row hrow hfin => (hf.proposals s row hrow hfin).2,
    fun v s row hrow hfin => (hf.sync v s row hrow hfin).2⟩
  have hslot : row.inclusionSlot.isSome = true := (hcol v e row hrow).included ▸ hinc
  obtain ⟨s, hs⟩ := Option.isSome_iff_exists.1 hslot
  obtain ⟨-, r, hr, hcols⟩ := hf.attestations v e row s hrow hfin hs
  exact ⟨s, r, hs, hr, hs ▸ hcols⟩

/-! ## Two reorganisations in a row -/

/-- Blocks are recorded in slots that no provisional row is about, or that have a block. -/
def recordsFresh : Effect → Db × Checkpoint → Bool
  | .db (.recordBlock slot _ _), s => (s.1.storedRoot slot).isSome ||
      (s.1.attestationDuties.rows.all fun r => r.2.finalized || r.2.inclusionSlot != some slot) &&
        ((s.1.blockProposals.get slot).all fun d => d.finalized) &&
        s.1.syncDuties.rows.all fun r => r.2.finalized || r.1.2 != slot
  | _, _ => true

theorem recordsDescribed_of_fresh {x : Db × Checkpoint} (h : recordsFresh (.db op) x = true) : RecordsDescribed L x.1 op := by
  rintro slot r p rfl hnone
  replace h : ((x.1.storedRoot slot).isSome ||
      (x.1.attestationDuties.rows.all fun r => r.2.finalized || r.2.inclusionSlot != some slot) &&
        ((x.1.blockProposals.get slot).all fun d => d.finalized) &&
        x.1.syncDuties.rows.all fun r => r.2.finalized || r.1.2 != slot) = true := h
  rw [hnone, Option.isSome_none, Bool.false_or, Bool.and_eq_true, Bool.and_eq_true] at h
  obtain ⟨⟨hatt, hprop⟩, hsync⟩ := h
  constructor
  · intro v e a ha hf hslot
    have hrow := List.all_eq_true.1 hatt _ (Table.mem_rows.2 ha)
    simp [hf, hslot] at hrow
  · intro d hd hf
    rw [hd, Option.all_some, hf] at hprop
    cases hprop
  · intro v d hd hf
    have hrow := List.all_eq_true.1 hsync _ (Table.mem_rows.2 hd)
    simp [hf] at hrow

/-- The block 102 carries the vote of slot 1; the block 302 that replaces it does not. -/
def replacedTwice : Ledger unitEpochs :=
  .ofBlocks (.ofList [(⟨100⟩, bareBlock 0 ⟨0⟩), (⟨102⟩, votingBlock 2 ⟨100⟩ 1 ⟨1, ⟨100⟩⟩), (⟨103⟩, bareBlock 3 ⟨102⟩),
    (⟨203⟩, bareBlock 3 ⟨102⟩), (⟨302⟩, bareBlock 2 ⟨100⟩), (⟨303⟩, bareBlock 3 ⟨302⟩), (⟨304⟩, bareBlock 4 ⟨303⟩)]) (by decide)
    (fun e => [⟨0, e, [7]⟩]) fun _ => 0

theorem lagNone_window : 2 ≤ 5 := by decide

def lagNone : LiveConfig unitEpochs := ⟨0, 5, lagNone_window, by decide⟩

def voteSeen : View replacedTwice := ⟨⟨102⟩, ⟨_, rfl⟩, ⟨0, ⟨100⟩⟩, by decide +kernel, by decide⟩

def voteBuried : View replacedTwice := ⟨⟨103⟩, ⟨_, rfl⟩, ⟨0, ⟨100⟩⟩, by decide +kernel, by decide⟩

def voteFinal : View replacedTwice := ⟨⟨103⟩, ⟨_, rfl⟩, ⟨2, ⟨102⟩⟩, by decide +kernel, by decide⟩

def tipReplaced : View replacedTwice := ⟨⟨203⟩, ⟨_, rfl⟩, ⟨0, ⟨100⟩⟩, by decide +kernel, by decide⟩

def voteReplaced : View replacedTwice := ⟨⟨304⟩, ⟨_, rfl⟩, ⟨3, ⟨303⟩⟩, by decide +kernel, by decide⟩

def reorgTurn (V : View replacedTwice) : Turn replacedTwice Checkpoint := ⟨[7], V, fun _ => true, V.finalized⟩

abbrev playReorgs (ok : Effect → Db × Checkpoint → Bool) := Turn.play (FinalityKept replacedTwice) lagNone ok 100

abbrev proceedReorgs (ok : Effect → Db × Checkpoint → Bool) := Turn.proceed (FinalityKept replacedTwice) lagNone ok 100

theorem finalized_rows_true_vote : ∃ (c : Config indexer (Unit × Role) (View replacedTwice) Memory (Db × Checkpoint))
    (row : AttestationRow), (describedPasses replacedTwice lagNone).Reach (started sevenActive ⟨0, ⟨100⟩⟩) c ∧
    c.state.1.attestationDuties.get (7, 1) = some row ∧ row.finalized = true ∧ row.included = true ∧
    ∃ s r, row.inclusionSlot = some s ∧ replacedTwice.rootAt c.state.2.root s = some r ∧
      replacedTwice.VoteColumns r 7 1 row.inclusionSlot row.sourceCorrect row.targetCorrect row.headCorrect := by
  have hplay : (([reorgTurn voteSeen, reorgTurn voteSeen].foldlM (playReorgs recordsFresh) (beforeMisses sevenActive)).bind fun x =>
      proceedReorgs recordsFresh x (reorgTurn voteFinal)).any (fun y =>
        (y.2.1.attestationDuties.get (7, 1)).any fun row => row.finalized && row.included) = true := by decide +kernel
  obtain ⟨y, hy, hany⟩ := (Option.any_eq_true _ _).1 hplay
  obtain ⟨row, hrow, hcheck⟩ := (Option.any_eq_true _ _).1 hany
  obtain ⟨hfinal, hinc⟩ := Bool.and_eq_true_iff.1 hcheck
  have hr : (describedPasses replacedTwice lagNone).Reach (started sevenActive ⟨0, ⟨100⟩⟩)
      ((started sevenActive ⟨0, ⟨100⟩⟩).set ((), .live) (.running voteFinal y.1) y.2) :=
    Turn.reach_turns (hosts_passes fun _ _ _ h => recordsDescribed_of_fresh h) (opens_passes fun _ _ _ => trivial) _ rfl rfl hy
  exact ⟨_, row, hr, hrow, hfinal, hinc,
    (finalized_rows_true replacedTwice lagNone sevenActive ⟨0, ⟨100⟩⟩ hr).1 7 1 row hrow hfinal hinc⟩

/-- The first reorganisation rolls back from epoch 2 on and forgets the block 102 of slot 2, but keeps the row of epoch 1
that was decoded from it. The second one then goes unnoticed: the slot is recorded with the block 302, and the row is
finalized although 302 carries no vote. -/
theorem forgotten_block_finalizes : ∃ (c : Config indexer (Unit × Role) (View replacedTwice) Memory (Db × Checkpoint))
    (row : AttestationRow),
    (passes (FinalityKept replacedTwice) lagNone (fun _ _ _ => True) fun _ _ _ => True).Reach
      (started sevenActive ⟨0, ⟨100⟩⟩) c ∧
    c.state.1.attestationDuties.get (7, 1) = some row ∧ row.finalized = true ∧ row.included = true ∧
    row.inclusionSlot = some 2 ∧ replacedTwice.rootAt c.state.2.root 2 = some ⟨302⟩ ∧ replacedTwice.vote ⟨302⟩ 1 7 = none := by
  have hplay : (([reorgTurn voteSeen, reorgTurn voteSeen, reorgTurn voteBuried, reorgTurn tipReplaced].foldlM
      (playReorgs fun _ _ => true) (beforeMisses sevenActive)).bind fun x =>
        proceedReorgs (fun _ _ => true) x (reorgTurn voteReplaced)).any (fun y =>
          (y.2.1.attestationDuties.get (7, 1)).any (fun row => row.finalized && row.included && row.inclusionSlot == some 2) &&
            y.2.2.root == ⟨303⟩) = true := by decide +kernel
  obtain ⟨y, hy, hcheck⟩ := (Option.any_eq_true _ _).1 hplay
  obtain ⟨hany, hroot⟩ := Bool.and_eq_true_iff.1 hcheck
  obtain ⟨row, hrow, hflags⟩ := (Option.any_eq_true _ _).1 hany
  simp only [Bool.and_eq_true, beq_iff_eq] at hflags
  obtain ⟨⟨hfinal, hinc⟩, hslot⟩ := hflags
  have hr : (passes (FinalityKept replacedTwice) lagNone (fun _ _ _ => True) fun _ _ _ => True).Reach
      (started sevenActive ⟨0, ⟨100⟩⟩) ((started sevenActive ⟨0, ⟨100⟩⟩).set ((), .live) (.running voteReplaced y.1) y.2) :=
    Turn.reach_turns (hosts_passes fun _ _ _ _ => trivial) (opens_passes fun _ _ _ => trivial) _ rfl rfl hy
  refine ⟨_, row, hr, hrow, hfinal, hinc, hslot, ?_, rfl⟩
  show replacedTwice.rootAt y.2.2.root 2 = _
  rw [beq_iff_eq.1 hroot]
  decide +kernel

end BeaconIndexer
