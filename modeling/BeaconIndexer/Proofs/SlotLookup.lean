/-
A slot lookup through the caches, as the scanners issue it: it reports the block of the slot's root exactly when that
block is served, and an archive scan takes only those slots for skipped whose root the node does not report.
-/
import BeaconIndexer.Base.Trace
import BeaconIndexer.Beacon.Blocks
import BeaconIndexer.Proofs.Issued

namespace BeaconIndexer

open Effects Relational Contract

variable {spec : ChainSpec}

/-- A request fails, or the program goes on with its answer. -/
theorem exec_request {α : Type} {answers : (q : Request) → Except Error q.Answer → Prop} {q : Request}
    {next : q.Answer → Task α} {db db' : Db} {r : Except Error α} :
    Exec (indexerSem spec answers) (request q >>= next).run db r db' ↔
      (∃ e, answers q (.error e) ∧ r = .error e ∧ db' = db) ∨
      ∃ a, answers q (.ok a) ∧ Exec (indexerSem spec answers) (next a).run db r db' := by
  constructor
  · intro h
    obtain ⟨outcome, db₁, hrequest, hnext⟩ := Exec.bind_iff.1 h
    obtain ⟨answer, db₂, ⟨hanswer, hdb⟩, hdone⟩ := Exec.call_iff.1 hrequest
    obtain ⟨rfl, rfl⟩ := Exec.pure_iff.1 hdone
    cases outcome with
    | error e =>
      obtain ⟨rfl, rfl⟩ := Exec.pure_iff.1 hnext
      exact .inl ⟨e, hanswer, rfl, hdb⟩
    | ok a => exact .inr ⟨a, hanswer, hdb ▸ hnext⟩
  · rintro (⟨e, hanswer, rfl, rfl⟩ | ⟨a, hanswer, hnext⟩)
    · exact Exec.bind_iff.2 ⟨.error e, _, Exec.call_iff.2 ⟨.error e, _, ⟨hanswer, rfl⟩, .done _ _⟩, .done _ _⟩
    · exact Exec.bind_iff.2 ⟨.ok a, _, Exec.call_iff.2 ⟨.ok a, _, ⟨hanswer, rfl⟩, .done _ _⟩, hnext⟩

namespace BlockNode

variable (node : BlockNode)

/-- What the two requests of a slot lookup answer through these caches. -/
def seen (c : BlockCaches) : (q : Request) → Except Error q.Answer → Prop
  | .blockRoot slot, r => r = node.reportedRoot c slot
  | .blockByRoot root, r => r = node.blockOf c root
  | _, _ => True

/-- A cached block stands at the slot whose root is reported: the cached path of `get_block` has no slot check. -/
def OwnSlot (c : BlockCaches) (s : Nat) : Prop :=
  ∀ r b, node.reportedRoot c s = .ok (some r) → c.rootBlock.peek r = some b → b.slot = s

variable {node} {c : BlockCaches} {s : Nat}

/-- With the slot check on every block a lookup is the program that asks for the root and then for its block. -/
theorem slotLookup_eq_checked (h : node.OwnSlot c s) : node.slotLookup c s =
    match node.reportedRoot c s with
    | .error e => .error e
    | .ok none => .ok none
    | .ok (some r) => match node.blockOf c r with
      | .error e => .error e
      | .ok block =>
        if block.any fun b => b.slot != s then .error (.inconsistentBeaconData "block slot disagrees with root lookup")
        else .ok block := by
  rw [slotLookup_eq]
  cases hr : node.reportedRoot c s with
  | error e => rfl
  | ok root =>
    cases root with
    | none => rfl
    | some r =>
      simp only [blockOf]
      cases hp : c.rootBlock.peek r with
      | some b => simp [h r b hr hp]
      | none =>
        cases (node.getBlockWithFinalized (.root r)).map Prod.fst with
        | error e => rfl
        | ok block => cases block <;> simp

/-- A run of the scanner's lookup is the lookup through the caches. -/
theorem exec_getBlockBySlot (h : node.OwnSlot c s) {db db' : Db} {r : Except Error (Option SignedBeaconBlock)} :
    Exec (indexerSem spec (node.seen c)) (getBlockBySlot s).run db r db' ↔ r = node.slotLookup c s ∧ db' = db := by
  rw [slotLookup_eq_checked h]
  refine exec_request.trans ?_
  cases hr : node.reportedRoot c s with
  | error e => simp [seen, hr]
  | ok root =>
    cases root with
    | none => simp [seen, hr, Exec.pure_iff]
    | some root =>
      simp only [seen, hr, reduceCtorEq, false_and, exists_false, false_or, Except.ok.injEq, exists_eq_left]
      refine exec_request.trans ?_
      cases hb : node.blockOf c root with
      | error e => simp [seen, hb]
      | ok block =>
        simp only [seen, hb, reduceCtorEq, false_and, exists_false, false_or, Except.ok.injEq, exists_eq_left]
        by_cases hslot : (block.any fun b => b.slot != s) = true
        · rw [if_pos hslot, if_pos hslot]
          exact Exec.pure_iff
        · rw [if_neg hslot, if_neg hslot]
          exact Exec.pure_iff

/-- A node that has the bodies of the roots it reports. -/
def HasBodies (node : BlockNode) : Prop := ∀ root message, node.block (.root root) ≠ .error (.beaconApi 404 message)

theorem blockOf_ne_none (h : node.HasBodies) (c : BlockCaches) (root : Root) : node.blockOf c root ≠ .ok none := by
  unfold blockOf
  split
  · exact nofun
  · intro hnone
    obtain ⟨message, hm⟩ := getBlockWithFinalized_none.1 hnone
    exact h root message hm

/-- The node has no root for the slot. -/
def Unreported (node : BlockNode) (slot : Nat) : Prop :=
  ∃ message, node.blockRoot (.slot slot) = .error (.beaconApi 404 message)

theorem unreported {slot : Nat} (h : node.reportedRoot c slot = .ok none) : node.Unreported slot := by
  unfold reportedRoot at h
  split at h
  · cases h
  · unfold foundWithFinalized at h
    split at h
    · exact ⟨_, ‹_›⟩
    · cases h
    · split at h <;> cases h

/-! ## Archive scans -/

/-- A node answers each request of a run through whatever its caches hold by then. -/
def Through (node : BlockNode) (q : Request) (r : Except Error q.Answer) : Prop := ∃ c, node.seen c q r

/-- The statement takes the slot for skipped: it writes a missed proposal, or a sync duty of a missed block. -/
def Skips (slot : Nat) : DbOp → Prop
  | .upsertBlockProposal s w => s = slot ∧ w.proposed = false
  | .upsertSyncDuty _ s w => s = slot ∧ w.missedBlock = true
  | _ => False

/-- Only slots without root are taken for skipped. -/
def SkipsUnreported (node : BlockNode) (op : DbOp) : Prop := ∀ slot, Skips slot op → node.Unreported slot

def Effect.KeepsSlots (node : BlockNode) : Effect → Prop
  | .node _ => True
  | .db op => node.SkipsUnreported op

/-- The setting of a scan whose requests are answered through the caches. -/
abbrev scanning (spec : ChainSpec) (node : BlockNode) : Contract indexer Unit :=
  answeredBy (indexerSem spec node.Through) (Effect.KeepsSlots node)

theorem scanning_grants : Grants (scanning spec node) node.SkipsUnreported fun _ => True where
  node _ _ := trivial
  db _ _ hop := hop
  active := fun ⟨_, _, hr⟩ => indexerSem_active hr
  eligible := fun ⟨_, _, hr⟩ => indexerSem_eligible hr
  sync _ _ _ _ := trivial

/-- Whatever the caches hold at a request, its answer is one that some caches give. -/
theorem scanning_request {q : Request} {P : q.Answer → Prop} (h : ∀ c a, node.seen c q (.ok a) → P a) :
    (scanning spec node).Always (request q) P := by
  refine .ask (fun _ => trivial) fun s r s' hr a hok => ?_
  obtain ⟨_, _, ⟨c, hc⟩, -⟩ := hr
  cases (hok : r = .ok a)
  exact h c a hc

/-- A lookup that finds no block is one of a slot without root. -/
theorem scanning_getBlockBySlot (h : node.HasBodies) (slot : Nat) :
    (scanning spec node).Always (getBlockBySlot slot) fun block => block = none → node.Unreported slot := by
  refine .bind (P := fun root => root = none → node.Unreported slot) (scanning_request ?_) fun root hroot => ?_
  · rintro c root hseen rfl
    exact unreported hseen.symm
  · cases root with
    | none => exact .pure fun _ => hroot rfl
    | some root =>
      refine .bind (P := fun block => block ≠ none) (scanning_request ?_) fun block hsome => ?_
      · rintro c block hseen rfl
        exact blockOf_ne_none h c root hseen.symm
      · exact .check fun _ => .pure fun hnone => absurd hnone hsome

theorem scanning_fetchBlocksForSlots (h : node.HasBodies) (slots : List Nat) :
    (scanning spec node).Always (fetchBlocksForSlots slots) fun blocks =>
      ∀ b ∈ blocks, b.2 = none → node.Unreported b.1 :=
  .collect fun slot _ => .bind (scanning_getBlockBySlot h slot) fun _ hb => .pure hb

theorem scanning_processEpochProposals (h : node.HasBodies) (epoch : Nat) (validators : List Nat) :
    (scanning spec node).Always (processEpochProposals spec epoch validators true) fun _ => True := by
  refine .bind (scanning_grants.getProposerDuties spec epoch) fun duties _ => .ite (fun _ => .pure trivial) fun _ =>
    .each fun slot _ => ?_
  split
  · exact .pure trivial
  · refine .bind (scanning_getBlockBySlot h slot) fun block hblock => ?_
    cases block with
    | some block =>
      refine .bind (scanning_grants.request _) fun rewards _ => scanning_grants.statement ?_
      rintro s ⟨-, hproposed⟩
      cases hproposed
    | none =>
      refine scanning_grants.statement ?_
      rintro s ⟨rfl, -⟩
      exact hblock rfl

theorem scanning_processSlotSync (relevant committee : List Nat) (magnitude : Option Int) (slot : Nat)
    {block : Option SignedBeaconBlock} (hblock : block = none → node.Unreported slot) :
    (scanning spec node).Always (processSlotSync spec true relevant committee magnitude slot block) fun _ => True := by
  unfold processSlotSync
  cases block with
  | none =>
    refine .each fun v _ => scanning_grants.statement ?_
    rintro s ⟨rfl, -⟩
    exact hblock rfl
  | some block =>
    simp only
    split
    · exact .pure trivial
    · refine .bind (always_ofExcept _) fun bits _ => .each fun r _ => scanning_grants.statement ?_
      rintro s ⟨-, hmissed⟩
      cases hmissed

theorem scanning_processEpochSync (h : node.HasBodies) (epoch : Nat) (validators : List Nat) :
    (scanning spec node).Always (processEpochSync spec epoch validators true) fun _ => True := by
  refine .bind (scanning_grants.request _) fun duties _ => .ite (fun _ => .pure trivial) fun _ =>
    .bind (scanning_grants.request _) fun committee _ => .check fun _ => .ite (fun _ => .pure trivial) fun _ =>
    .bind (scanning_fetchBlocksForSlots h _) fun blocks hblocks =>
    .bind (scanning_grants.probeSyncParticipantReward spec _ _ _) fun magnitude _ =>
    .bind (.each fun b hb => scanning_processSlotSync _ _ _ _ (hblocks b hb)) fun _ _ =>
    .ite (fun _ => .throw) fun _ => .pure trivial

theorem scanning_scanEpoch (h : node.HasBodies) (epoch : Nat) (validators : List Nat) (mode : EffectiveScanMode) :
    (scanning spec node).Always (scanEpoch spec epoch validators true mode) fun _ => True := by
  have mark : (scanning spec node).Always (statement (.markComplete validators epoch)) fun _ => True :=
    scanning_grants.statement nofun
  have rest : (scanning spec node).Always (do
      processEpochProposals spec epoch validators true
      if spec.altairForkEpoch ≤ epoch then processEpochSync spec epoch validators true
      statement (.markComplete validators epoch)) fun _ => True :=
    .bind (scanning_processEpochProposals h epoch validators) fun _ _ => .ite
      (fun _ => .bind (scanning_processEpochSync h epoch validators) fun _ _ => mark) fun _ => mark
  refine .ite (fun _ => .pure trivial) fun _ => ?_
  cases mode with
  | dense =>
    exact .bind (scanning_grants.processEpochAttestationDuties_of spec fun _ _ _ _ _ => nofun) fun _ _ => rest
  | sparse =>
    exact .bind (scanning_grants.processEpochAttestationDutiesSparse_of spec fun _ _ _ _ => nofun) fun _ _ => rest

/-- Every answer of a run is one that some caches and some database give. -/
def Answered (spec : ChainSpec) (node : BlockNode) (l : List (Event indexer)) : Prop :=
  ∀ ev ∈ l, ∃ db db', indexerSem spec node.Through ev.1 db ev.2 db'

/-- A slot lookup reports the block of the slot's root exactly when that block is served, and is what the scanners'
requests return; so where bodies are served, no lookup and no archive scan takes a slot for skipped whose root is
reported. -/
theorem slotLookup_exact_iff (spec : ChainSpec) (node : BlockNode) :
    (∀ c s, node.Exact c s ↔ node.Served c s) ∧
    (∀ c s, node.OwnSlot c s → ∀ db r db',
      Exec (indexerSem spec (node.seen c)) (getBlockBySlot s).run db r db' ↔ r = node.slotLookup c s ∧ db' = db) ∧
    (node.HasBodies →
      (∀ s l, Ends (getBlockBySlot s) l (.ok none) → node.Answered spec l → node.Unreported s) ∧
      ∀ epoch validators mode l r, Ends (scanEpoch spec epoch validators true mode) l r → node.Answered spec l →
        ∀ op answer s, ⟨.db op, answer⟩ ∈ l → Skips s op → node.Unreported s) := by
  refine ⟨node.exact_iff_served, fun _ _ h _ _ _ => exec_getBlockBySlot h, fun h => ⟨?_, ?_⟩⟩
  · intro s l hends hanswers
    exact ((scanning_getBlockBySlot h s).answered hends hanswers).2 none rfl rfl
  · intro epoch validators mode l r hends hanswers op answer s hop
    exact ((scanning_scanEpoch h epoch validators mode).answered hends hanswers).1 _ hop s

/-- Two slots an epoch, and no sync committees. -/
def twoSlots : ChainSpec := ⟨2, 2, 8, 1000, Nat.zero_lt_two⟩

/-- The block of slot 3, the last one. -/
def lastBlock : SignedBeaconBlock := ⟨3, 6, ⟨1⟩, ⟨31⟩, .phase0 []⟩

/-- The slots 1 and 3 have a root, slot 2 is skipped. -/
def skipsTwo : BlockNode where
  blockRoot
    | .slot 1 => .ok ⟨⟨1⟩, some false, true⟩
    | .slot 3 => .ok ⟨⟨3⟩, some false, true⟩
    | _ => .error (.beaconApi 404 "block not found")
  block _ := .ok ⟨lastBlock, some false, true⟩

/-- A scan of epoch 1 for validator 7, the proposer of slot 2, whose vote is in no block. -/
def skippedScan : List (Event indexer) :=
  [⟨.node (.attesterDuties 1 [7]), .ok [⟨7, 0, 0, 2⟩]⟩,
    ⟨.node (.attestationRewards 1 [7]), .ok ⟨[⟨7, 0, 0, 0, none, none⟩], none⟩⟩, ⟨.node (.committees 1), .ok []⟩,
    ⟨.node (.blockRoot 2), .ok none⟩, ⟨.node (.blockRoot 1), .ok (some ⟨1⟩)⟩,
    ⟨.node (.blockRoot 2), .ok none⟩, ⟨.node (.blockRoot 1), .ok (some ⟨1⟩)⟩,
    ⟨.node (.blockRoot 3), .ok (some ⟨3⟩)⟩, ⟨.node (.blockByRoot ⟨3⟩), .ok (some lastBlock)⟩,
    ⟨.node (.blockRoot 4), .ok none⟩, ⟨.node (.blockRoot 5), .ok none⟩,
    ⟨.db (.upsertAttestationDuty 7 1 (sparseRow true ⟨7, 0, 0, 2⟩ (some ⟨7, 0, 0, 0, none, none⟩) none)), .ok ()⟩,
    ⟨.node (.proposerDuties 1), .ok [⟨7, 2⟩, ⟨6, 3⟩]⟩, ⟨.node (.blockRoot 2), .ok none⟩,
    ⟨.db (.upsertBlockProposal 2 (proposalOutcome true 7 false)), .ok ()⟩, ⟨.db (.markComplete [7] 1), .ok ()⟩]

theorem ends_skippedScan : Ends (scanEpoch twoSlots 1 [7] true .sparse) skippedScan (.ok ()) :=
  .step (.step (.step (.step (.step (.step (.step (.step
    (.step (.step (.step (.step (.step (.step (.step (.step (.done _))))))))))))))))

theorem skippedScan_answered : skipsTwo.Answered twoSlots skippedScan := by
  have hnode : ∀ {q : Request} {r : Except Error q.Answer}, skipsTwo.seen BlockCaches.new q r →
      ∃ db db', indexerSem twoSlots skipsTwo.Through (.node q) db r db' :=
    fun hr => ⟨.empty, .empty, ⟨BlockCaches.new, hr⟩, rfl⟩
  have hdb : ∀ op : DbOp, ∃ db db',
      indexerSem twoSlots skipsTwo.Through (.db op) db (.ok (op.answer twoSlots 0 .empty)) db' :=
    fun op => ⟨.empty, op.exec twoSlots 0 .empty, .inl ⟨0, rfl, rfl⟩⟩
  unfold Answered skippedScan
  simp only [List.forall_mem_cons]
  exact ⟨hnode trivial, hnode trivial, hnode trivial, hnode rfl, hnode rfl, hnode rfl, hnode rfl, hnode rfl, hnode rfl,
    hnode rfl, hnode rfl, hdb (.upsertAttestationDuty 7 1 _), hnode trivial, hnode rfl, hdb (.upsertBlockProposal 2 _),
    hdb (.markComplete [7] 1), fun _ h => by cases h⟩

theorem slotLookup_exact_iff_skipsTwo : skipsTwo.Exact BlockCaches.new 3 ∧
    (∀ db r db', Exec (indexerSem twoSlots (skipsTwo.seen BlockCaches.new)) (getBlockBySlot 3).run db r db' ↔
      r = .ok (some lastBlock) ∧ db' = db) ∧
    (⟨.db (.upsertBlockProposal 2 (proposalOutcome true 7 false)), .ok ()⟩ : Event indexer) ∈ skippedScan ∧
    skipsTwo.Unreported 2 := by
  obtain ⟨hexact, hrun, hscan⟩ := slotLookup_exact_iff twoSlots skipsTwo
  have hwrite : (⟨.db (.upsertBlockProposal 2 (proposalOutcome true 7 false)), .ok ()⟩ : Event indexer) ∈ skippedScan := by
    simp [skippedScan]
  have hserved : skipsTwo.Served BlockCaches.new 3 := fun r _ => by
    rw [show BlockCaches.new.rootBlock.peek r = none from rfl]
    exact nofun
  have hown : skipsTwo.OwnSlot BlockCaches.new 3 := fun r b _ hb => by cases hb
  exact ⟨(hexact _ _).2 hserved, hrun _ _ hown, hwrite,
    (hscan nofun).2 1 [7] .sparse skippedScan _ ends_skippedScan skippedScan_answered _ _ 2 hwrite ⟨rfl, rfl⟩⟩

/-- Slot 5 has root 50, whose body is gone. -/
def withoutBody : BlockNode where
  blockRoot _ := .ok ⟨⟨50⟩, some false, true⟩
  block _ := .error (.beaconApi 404 "block not found")

/-- The block of slot 4 is cached under the root that is now reported for slot 5. -/
def otherSlotCached : BlockCaches :=
  { BlockCaches.new with rootBlock := BlockCaches.new.rootBlock.put ⟨50⟩ ⟨4, 1, ⟨40⟩, ⟨41⟩, .phase0 []⟩ }

/-- A root without body is reported as a skipped slot, and a cached block of another slot as the slot's own. -/
theorem withoutBody_not_exact : ¬withoutBody.Exact BlockCaches.new 5 ∧ ¬withoutBody.Exact otherSlotCached 5 := by
  constructor
  · intro h
    have hroot := h.nothing rfl
    cases hroot
  · intro h
    have hslot := (h.found _ rfl).1
    cases hslot

end BlockNode

end BeaconIndexer
