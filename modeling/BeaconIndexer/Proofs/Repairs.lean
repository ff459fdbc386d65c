/-
Which recorded gaps are repaired (`src/backfill.rs`, `src/main.rs`): each turn of the archive worker tries the 8 newest
gap epochs, so that a gap of an epoch that is served is repaired exactly if fewer than 8 newer gap epochs
cannot be served.
-/
import BeaconIndexer.Base.Newest
import BeaconIndexer.Proofs.Archive

namespace BeaconIndexer

open Effects Relational

variable {E : ArchiveEnv} {setup : ArchiveSetup} {m m' : ArchiveMemory} {w w₁ w₂ w' : ArchiveWorld} {mode : EffectiveScanMode}

/-! ## The newest gaps -/

variable {db db' : Db} {tracked : List Nat} {target : Nat}

theorem mem_gapEpochs {e : Nat} :
    e ∈ db.gapEpochs tracked target ↔ e ≤ target ∧ ∃ v ∈ tracked, db.openGap v e = true := by
  unfold Db.gapEpochs Db.openGap
  rw [List.mem_insertionSort, List.mem_dedup, List.mem_map]
  constructor
  · rintro ⟨⟨⟨v, e'⟩, reason⟩, hmem, rfl⟩
    obtain ⟨hget, hp⟩ := Table.mem_select.1 hmem
    simp only [Bool.and_eq_true, List.contains_iff_mem, decide_eq_true_eq] at hp
    exact ⟨hp.1.2, v, hp.1.1, by simp [Table.has_iff.2 ⟨reason, hget⟩, hp.2]⟩
  · rintro ⟨hle, v, hv, hopen⟩
    rw [Bool.and_eq_true] at hopen
    obtain ⟨reason, hget⟩ := Table.has_iff.1 hopen.1
    exact ⟨((v, e), reason), Table.mem_select.2 ⟨hget, by simp [hv, hle, hopen.2]⟩, rfl⟩

theorem mem_gapValidators {e v : Nat} : v ∈ db.gapValidators tracked e ↔ v ∈ tracked ∧ db.openGap v e = true := by
  unfold Db.gapValidators Db.openGap
  rw [List.mem_insertionSort, List.mem_map]
  constructor
  · rintro ⟨⟨⟨v', e'⟩, reason⟩, hmem, rfl⟩
    obtain ⟨hget, hp⟩ := Table.mem_select.1 hmem
    simp only [Bool.and_eq_true, List.contains_iff_mem, beq_iff_eq] at hp
    obtain ⟨⟨hv, rfl⟩, hc⟩ := hp
    exact ⟨hv, by simp [Table.has_iff.2 ⟨reason, hget⟩, hc]⟩
  · rintro ⟨hv, hopen⟩
    rw [Bool.and_eq_true] at hopen
    obtain ⟨reason, hget⟩ := Table.has_iff.1 hopen.1
    exact ⟨((v, e), reason), Table.mem_select.2 ⟨hget, by simp [hv, hopen.2]⟩, rfl⟩

theorem nodup_gapEpochs : (db.gapEpochs tracked target).Nodup :=
  (List.perm_insertionSort _ _).nodup_iff.2 (List.nodup_dedup _)

theorem gapEpochs_descending : (db.gapEpochs tracked target).Pairwise (· > ·) :=
  ((List.pairwise_insertionSort (· ≥ ·) _).and nodup_gapEpochs).imp fun h => lt_of_le_of_ne h.1 (Ne.symm h.2)

theorem openGap_eq_false_of_completed {v e : Nat} (h : db.completed v e = true) : db.openGap v e = false := by
  unfold Db.openGap
  rw [h]
  exact Bool.and_false _

/-- Gap epochs that are all among others are counted no more often than these. -/
theorem countP_gapEpochs_le {t t' : Nat} {p : Nat → Bool}
    (h : ∀ y, p y = true → y ∈ db.gapEpochs tracked t → y ∈ db'.gapEpochs tracked t') :
    (db.gapEpochs tracked t).countP p ≤ (db'.gapEpochs tracked t').countP p := by
  rw [List.countP_eq_length_filter, List.countP_eq_length_filter]
  apply List.Subperm.length_le
  apply List.Nodup.subperm (nodup_gapEpochs.filter _)
  intro y hy
  rw [List.mem_filter] at hy ⊢
  exact ⟨h y hy.2 hy.1, hy.2⟩

/-- ... and less often, if one of these is missing. -/
theorem countP_gapEpochs_lt {t t' : Nat} {p : Nat → Bool} {x : Nat}
    (h : ∀ y, p y = true → y ∈ db.gapEpochs tracked t → y ∈ db'.gapEpochs tracked t' ∧ y ≠ x)
    (hx : x ∈ db'.gapEpochs tracked t') (hp : p x = true) :
    (db.gapEpochs tracked t).countP p < (db'.gapEpochs tracked t').countP p := by
  have hle : ((db.gapEpochs tracked t).filter p).length ≤ (((db'.gapEpochs tracked t').filter p).erase x).length := by
    apply List.Subperm.length_le
    apply List.Nodup.subperm (nodup_gapEpochs.filter _)
    intro y hy
    rw [List.mem_filter] at hy
    obtain ⟨hy', hne⟩ := h y hy.2 hy.1
    exact (List.mem_erase_of_ne hne).2 (List.mem_filter.2 ⟨hy', hy.2⟩)
  have hmem : x ∈ (db'.gapEpochs tracked t').filter p := List.mem_filter.2 ⟨hx, hp⟩
  have hpos := List.length_pos_of_mem hmem
  rw [List.length_erase_of_mem hmem] at hle
  rw [List.countP_eq_length_filter, List.countP_eq_length_filter]
  omega

/-! ## Repairs -/

/-- The archive worker, undisturbed within a turn. -/
abbrev archiveAlone (E : ArchiveEnv) : Contract archive ArchiveWorld := Contract.alone (archiveSem E)

/-- Whatever becomes of a repair, the worker goes on. -/
theorem ok_repair {sem : Sem archive ArchiveWorld} {gap : Nat × List Nat} {w : ArchiveWorld}
    {Q : ArchiveWorld → Prop} (h : ∀ r w', sem (.repair gap.1 gap.2 mode) w r w' → Q w') :
    (Contract.alone sem).Ok (do
      let _ ← attempt (ask (S := archive) (ε := Error) (.repair gap.1 gap.2 mode) id)) w (fun _ w' => Q w') fun _ _ => False := by
  apply Contract.Ok.bind
  refine Contract.Ok.attempt (Q := fun _ w' => (Contract.alone sem).Ok (pure ()) w' _ _) ?_
  refine Contract.Ok.ask (fun _ _ => trivial) ?_
  rintro w₁ r w₂ w₃ rfl hs rfl
  cases r with
  | ok _ => exact Contract.Ok.pure fun w' hw => hw ▸ h _ _ hs
  | error _ => exact Contract.Ok.pure fun w' hw => hw ▸ h _ _ hs

/-- One repair after the other: those of served epochs complete their pairs. -/
theorem ok_repairs (gaps : List (Nat × List Nat)) (w : ArchiveWorld) :
    (archiveAlone E).Ok (each (fun (gap : Nat × List Nat) => do
      let _ ← attempt (ask (S := archive) (ε := Error) (.repair gap.1 gap.2 mode) id)) gaps) w
      (fun _ w' => E.Meanwhile w w' ∧
        ∀ gap ∈ gaps, E.served gap.1 = true → ∀ v ∈ gap.2, w'.db.completed v gap.1 = true) fun _ _ => False := by
  refine Contract.Ok.each (C := archiveAlone E) (fun done w' => E.Meanwhile w w' ∧
    ∀ gap : Nat × List Nat, gap ∈ done → E.served gap.1 = true → ∀ v ∈ gap.2, w'.db.completed v gap.1 = true) (fun _ _ _ hr h => hr ▸ h) ?_
    [] w ⟨.refl w, fun gap hgap => by cases hgap⟩
  intro done gap _ w₁ ⟨hm₁, hdone⟩
  apply ok_repair
  rintro r w₂ ⟨hm₂, h⟩
  refine ⟨hm₁.trans hm₂, fun g hg hs v hv => ?_⟩
  rcases List.mem_append.1 hg with hg | hg
  · exact hm₂.kept v g.1 (hdone g hg hs v hv)
  · obtain rfl := List.mem_singleton.1 hg
    rcases h with ⟨-, hall⟩ | ⟨hs', -⟩
    · exact hall v hv
    · rw [hs'] at hs
      cases hs

/-- Each of the 8 newest gap epochs that is served is repaired for all tracked validators. -/
theorem ok_repairLiveGaps (mode : EffectiveScanMode) (w : ArchiveWorld) :
    (archiveAlone E).Ok (repairLiveGaps tracked target mode) w (fun _ w' => E.Meanwhile w w' ∧
      ∀ y ∈ (w.db.gapEpochs tracked target).take 8, E.served y = true → ∀ v ∈ tracked, w.db.openGap v y = true →
        w'.db.completed v y = true) fun _ _ => E.unread := by
  unfold repairLiveGaps
  apply Contract.Ok.bind
  refine Contract.Ok.ask (fun _ _ => trivial) ?_
  rintro w₁ r w₂ w₃ rfl ⟨hm, h⟩ rfl
  rcases h with rfl | ⟨hu, er, rfl⟩
  · refine (ok_repairs _ w₂).mono (fun _ w' ⟨hm', hdone⟩ => ⟨hm.trans hm', fun y hy hs v hv hopen => ?_⟩)
      fun _ _ hz => absurd hz id
    have hmem : (y, w.db.gapValidators tracked y) ∈ w.db.recentGaps tracked target := List.mem_map.2 ⟨y, hy, rfl⟩
    exact hdone _ hmem hs v (mem_gapValidators.2 ⟨hv, hopen⟩)
  · exact hu

/-! ## The fate of one gap -/

variable {served : Nat → Bool} {e limit v : Nat}

/-- The epochs that can be served are given, the reads before a repair succeed, the scan target stays from `e` to `limit`
and nobody records further gaps there. The backfill may fail. -/
def repairEnv (served : Nat → Bool) (e limit : Nat) : ArchiveEnv where
  fails := True
  finality c := ∃ t, ChainSpec.finalizedScanTarget c = some t ∧ e ≤ t ∧ t ≤ limit
  unread := False
  served := served
  opened _ y := y < e ∨ limit < y

/-- The gap epochs from `e` on that are served. -/
def dueRepairs (served : Nat → Bool) (tracked : List Nat) (e limit : Nat) (db : Db) : Nat :=
  (db.gapEpochs tracked limit).countP fun y => decide (e ≤ y) && served y

/-- The gap epochs after `e` that are not served. -/
def blockedRepairs (served : Nat → Bool) (tracked : List Nat) (e limit : Nat) (db : Db) : Nat :=
  (db.gapEpochs tracked limit).countP fun y => decide (e < y) && !served y

/-- In the range no gap is new. -/
theorem gapEpochs_mono (hm : (repairEnv served e limit).Meanwhile w w') {y : Nat} (hy : e ≤ y)
    (hmem : y ∈ w'.db.gapEpochs tracked limit) : y ∈ w.db.gapEpochs tracked limit := by
  obtain ⟨hle, u, hu, hopen⟩ := mem_gapEpochs.1 hmem
  rcases hm.gaps u y hopen with hopen | hout
  · exact mem_gapEpochs.2 ⟨hle, u, hu, hopen⟩
  · have hout : y < e ∨ limit < y := hout
    omega

theorem blockedRepairs_mono (hm : (repairEnv served e limit).Meanwhile w w') :
    blockedRepairs served tracked e limit w'.db ≤ blockedRepairs served tracked e limit w.db := by
  apply countP_gapEpochs_le
  intro y hp hmem
  rw [Bool.and_eq_true, decide_eq_true_eq] at hp
  exact gapEpochs_mono hm hp.1.le hmem

theorem dueRepairs_mono (hm : (repairEnv served e limit).Meanwhile w w') :
    dueRepairs served tracked e limit w'.db ≤ dueRepairs served tracked e limit w.db := by
  apply countP_gapEpochs_le
  intro y hp hmem
  rw [Bool.and_eq_true, decide_eq_true_eq] at hp
  exact gapEpochs_mono hm hp.1 hmem

/-- A round of repairs gets a gap at `e` out of the way, or a newer one that is served. -/
theorem exec_repairRecent (hs : served e = true) (hblocked : blockedRepairs served tracked e limit w.db < 8)
    (hgap : e ∈ w.db.gapEpochs tracked limit)
    (hx : Exec (archiveSem (repairEnv served e limit)) (repairRecent tracked mode) w () w') :
    dueRepairs served tracked e limit w'.db < dueRepairs served tracked e limit w.db := by
  obtain ⟨r, w₁, ⟨hm₁, h⟩, hx⟩ := Exec.call_iff.1 hx
  rcases h with ⟨c, ⟨t, ht, hle, hlimit⟩, rfl⟩ | ⟨hu, -⟩
  swap
  · exact absurd hu id
  have hx : Exec (archiveSem (repairEnv served e limit)) ((repairLiveGaps tracked t mode).run.bind fun _ => .pure ()) w₁ () w' := by
    have heq : (Except.ok c : Except Error Nat).toOption.bind ChainSpec.finalizedScanTarget = some t := ht
    rw [Prog.pure_bind, heq] at hx
    exact hx
  obtain ⟨result, w₂, hx, hpure⟩ := Exec.bind_iff.1 hx
  obtain ⟨-, rfl⟩ := Exec.pure_iff.1 hpure
  have hpost := Contract.Safe.exec hx (ok_repairLiveGaps mode w₁)
  cases result with
  | error er => exact absurd hpost id
  | ok _ =>
    obtain ⟨hm₂, hdone⟩ := hpost
    have hm : (repairEnv served e limit).Meanwhile w w' := hm₁.trans hm₂
    by_cases hgap₁ : e ∈ w₁.db.gapEpochs tracked limit
    · -- fewer than 8 newer gaps are not served, so one that is served is in this round
      have hquery : ∀ y, y ∈ w₁.db.gapEpochs tracked t → y ∈ w₁.db.gapEpochs tracked limit := fun y hy =>
        mem_gapEpochs.2 ⟨(mem_gapEpochs.1 hy).1.trans hlimit, (mem_gapEpochs.1 hy).2⟩
      have hlt : (w₁.db.gapEpochs tracked t).countP (fun y => decide (e < y) && !served y) < 8 :=
        calc (w₁.db.gapEpochs tracked t).countP (fun y => decide (e < y) && !served y)
            ≤ blockedRepairs served tracked e limit w₁.db := countP_gapEpochs_le fun y _ => hquery y
          _ ≤ blockedRepairs served tracked e limit w.db := blockedRepairs_mono hm₁
          _ < 8 := hblocked
      have hmem : e ∈ w₁.db.gapEpochs tracked t := mem_gapEpochs.2 ⟨hle, (mem_gapEpochs.1 hgap₁).2⟩
      obtain ⟨y, hy, hey, hsy⟩ := Newest.exists_served gapEpochs_descending hmem hs hlt
      have hclosed : y ∉ w'.db.gapEpochs tracked limit := by
        intro hopen
        obtain ⟨hylimit, u, hu, hopen⟩ := mem_gapEpochs.1 hopen
        rcases hm₂.gaps u y hopen with hopen₁ | hout
        · rw [openGap_eq_false_of_completed (hdone y hy hsy u hu hopen₁)] at hopen
          cases hopen
        · have hout : y < e ∨ limit < y := hout
          omega
      refine (countP_gapEpochs_lt (fun z hp hz => ⟨?_, ?_⟩) (hquery y (List.mem_of_mem_take hy)) ?_).trans_le (dueRepairs_mono hm₁)
      · rw [Bool.and_eq_true, decide_eq_true_eq] at hp
        exact gapEpochs_mono hm₂ hp.1 hz
      · rintro rfl
        exact hclosed hz
      · simp [hey, hsy]
    · -- someone else completed the gap before the query
      refine countP_gapEpochs_lt (x := e) (fun z hp hz => ⟨?_, ?_⟩) hgap (by simp [hs])
      · rw [Bool.and_eq_true, decide_eq_true_eq] at hp
        exact gapEpochs_mono hm hp.1 hz
      · rintro rfl
        exact hgap₁ (gapEpochs_mono hm₂ le_rfl hz)

/-- Each turn with the gap open repairs a newer one that is due, as long as fewer than 8 are blocked. -/
theorem exec_turns_repair (hs : served e = true) : ∀ (turns : Nat) {m : ArchiveMemory} {w : ArchiveWorld},
    blockedRepairs served setup.tracked e limit w.db < 8 →
    Exec (archiveSem (repairEnv served e limit)) (setup.archiveTurns turns m) w m' w' →
    e ∈ w'.db.gapEpochs setup.tracked limit →
    dueRepairs served setup.tracked e limit w'.db + turns ≤ dueRepairs served setup.tracked e limit w.db
  | 0, m, w, _, hx, _ => by
    obtain ⟨-, rfl⟩ := Exec.pure_iff.1 hx
    exact le_rfl
  | turns + 1, m, w, hblocked, hx, hgap => by
    have hgap₀ := gapEpochs_mono (exec_meanwhile hx) le_rfl hgap
    obtain ⟨m₁, w₁, hturn, hrest⟩ := Exec.bind_iff.1 hx
    have hm := exec_meanwhile hturn
    obtain ⟨_, w₂, hrepair, hturn⟩ := Exec.bind_iff.1 hturn
    have hlt := exec_repairRecent hs hblocked hgap₀ hrepair
    have hle : dueRepairs served setup.tracked e limit w₁.db ≤ dueRepairs served setup.tracked e limit w₂.db :=
      dueRepairs_mono (exec_meanwhile hturn)
    have hih := exec_turns_repair hs turns ((blockedRepairs_mono hm).trans_lt hblocked) hrest hgap
    omega

/-! ## A gap that is never tried -/

/-- The answer of a database that refuses every statement. -/
def BackfillOp.refused : (op : BackfillOp) → op.Result
  | .activeValidatorsAt .. => .error (.database "refused")
  | .validatorsWithCompletedScan .. => .error (.database "refused")
  | .scanEpoch .. => .error (.database "refused")
  | .updateValidatorsScannedEpoch .. => .error (.database "refused")
  | .updateHeartbeat => .error (.database "refused")
  | .getFinalityCheckpoints => .error (.database "refused")

/-- Nobody else acts, finality stays at the limit and every attempt at the history fails. -/
def stuckSem (served : Nat → Bool) (limit : Nat) : Sem archive ArchiveWorld
  | .now, w, r, w' => r = w.clock ∧ w' = w
  | .sleep seconds, w, _, w' => w' = { w with clock := w.clock + 1000 * seconds }
  | .getFinalityCheckpoints, w, r, w' => r = .ok (limit + 2) ∧ w' = w
  | .recentGaps tracked target, w, r, w' => r = .ok (w.db.recentGaps tracked target) ∧ w' = w
  | .repair e vs _, w, r, w' =>
    (served e = true ∧ r = .ok () ∧ w' = { w with history := { w.history with db := w.db.markComplete vs e } }) ∨
    (served e = false ∧ r = .error (.beaconDataUnavailable "pruned") ∧ w' = w)
  | .report .., w, _, w' => w' = w
  | .backfill op, w, r, w' => r = op.refused ∧ w' = w

theorem stuck_total (served : Nat → Bool) (limit : Nat) : ∀ op w, ∃ r w', stuckSem served limit op w r w'
  | .now, w => ⟨_, w, rfl, rfl⟩
  | .sleep _, w => ⟨(), _, rfl⟩
  | .getFinalityCheckpoints, w => ⟨_, w, rfl, rfl⟩
  | .recentGaps .., w => ⟨_, w, rfl, rfl⟩
  | .repair e vs _, w => by
    cases hs : served e with
    | true => exact ⟨_, _, .inl ⟨hs, rfl, rfl⟩⟩
    | false => exact ⟨_, w, .inr ⟨hs, rfl, rfl⟩⟩
  | .report .., w => ⟨(), w, rfl⟩
  | .backfill op, w => ⟨_, w, rfl, rfl⟩

theorem openGap_markComplete (vs : List Nat) (epoch u y : Nat) :
    (db.markComplete vs epoch).openGap u y = (db.openGap u y && !(vs.contains u && y == epoch)) := by
  unfold Db.openGap
  rw [Db.markComplete_completed]
  have hgaps : (db.markComplete vs epoch).liveGaps.has (u, y) = (db.liveGaps.has (u, y) && !(vs.contains u && y == epoch)) := by
    unfold Db.markComplete Table.has
    simp only [Table.get_deleteWhere]
    cases db.liveGaps.get (u, y) with
    | none => rfl
    | some reason => cases hc : (vs.contains u && y == epoch) <;> simp_all
  rw [hgaps]
  cases db.liveGaps.has (u, y) <;> cases db.completed u y <;> simp

theorem stuckSem_archiveSem (hle : e ≤ limit) : ∀ op w r w', stuckSem served limit op w r w' →
    archiveSem (repairEnv served e limit) op w r w'
  | .now, w, r, w', ⟨hr, hw⟩ => by
    subst hw
    exact ⟨hr, .refl w'⟩
  | .sleep s, w, r, w', hw => by
    obtain rfl : w' = { w with clock := w.clock + 1000 * s } := hw
    exact ⟨le_rfl, ⟨Nat.le_add_right _ _, rfl, fun _ _ => rfl, fun _ _ => id, fun _ _ => .inl⟩⟩
  | .getFinalityCheckpoints, w, r, w', ⟨hr, hw⟩ => by
    subst hw
    refine ⟨.refl w', .inl ⟨limit + 2, ⟨limit, ?_, hle, le_rfl⟩, hr⟩⟩
    simp [ChainSpec.finalizedScanTarget]
  | .recentGaps .., w, r, w', ⟨hr, hw⟩ => by
    subst hw
    exact ⟨.refl w', .inl hr⟩
  | .repair y vs _, w, r, w', h => by
    rcases h with ⟨hs, rfl, rfl⟩ | ⟨hs, hr, rfl⟩
    · refine ⟨⟨le_rfl, rfl, fun _ _ => rfl, fun v y' hc => ?_, fun v y' hg => .inl ?_⟩, .inl ⟨rfl, fun v hv => ?_⟩⟩
      · show (w.db.markComplete vs y).completed v y' = true
        rw [Db.markComplete_completed, hc, Bool.true_or]
      · have hg : (w.db.markComplete vs y).openGap v y' = true := hg
        rw [openGap_markComplete, Bool.and_eq_true] at hg
        exact hg.1
      · show (w.db.markComplete vs y).completed v y = true
        rw [Db.markComplete_completed]
        simp [hv]
    · exact ⟨.refl w', .inr ⟨hs, _, hr⟩⟩
  | .report .., w, r, w', hw => by
    obtain rfl : w' = w := hw
    exact .refl w'
  | .backfill op, w, r, w', ⟨hr, hw⟩ => by
    subst hr hw
    refine ⟨le_rfl, fun _ _ => .inl, ?_⟩
    cases op with
    | activeValidatorsAt => exact ⟨rfl, .inr ⟨trivial, _, rfl⟩⟩
    | validatorsWithCompletedScan => exact ⟨rfl, .inr ⟨trivial, _, rfl⟩⟩
    | scanEpoch => exact ⟨rfl, ⟨rfl, id, .inl⟩, .inr ⟨trivial, _, rfl⟩⟩
    | updateValidatorsScannedEpoch => exact .inr ⟨trivial, _, rfl, rfl⟩
    | updateHeartbeat => exact ⟨rfl, .inr ⟨trivial, _, rfl⟩⟩
    | getFinalityCheckpoints => exact .inr ⟨trivial, _, rfl, rfl⟩

/-- The gaps at `e` and at the epochs that are not served stay open. -/
def Stays (served : Nat → Bool) (e : Nat) (w w' : ArchiveWorld) : Prop :=
  ∀ u y, (y = e ∨ served y = false) → w.db.openGap u y = true → w'.db.openGap u y = true

theorem Stays.refl (w : ArchiveWorld) : Stays served e w w := fun _ _ _ => id

theorem Stays.trans (h : Stays served e w w₁) (h' : Stays served e w₁ w₂) : Stays served e w w₂ :=
  fun u y hy ho => h' u y hy (h u y hy ho)

theorem Stays.gap (h : Stays served e w w') (hgap : e ∈ w.db.gapEpochs tracked limit) : e ∈ w'.db.gapEpochs tracked limit := by
  obtain ⟨hle, u, hu, hopen⟩ := mem_gapEpochs.1 hgap
  exact mem_gapEpochs.2 ⟨hle, u, hu, h u e (.inl rfl) hopen⟩

theorem Stays.blocked (h : Stays served e w w') :
    blockedRepairs served tracked e limit w.db ≤ blockedRepairs served tracked e limit w'.db := by
  apply countP_gapEpochs_le
  intro y hp hmem
  rw [Bool.and_eq_true, Bool.not_eq_true'] at hp
  obtain ⟨hle, u, hu, hopen⟩ := mem_gapEpochs.1 hmem
  exact mem_gapEpochs.2 ⟨hle, u, hu, h u y (.inr hp.2) hopen⟩

/-- Behind 8 blocked epochs a gap is not among those tried. -/
theorem notMem_take (hgap : e ∈ w.db.gapEpochs tracked limit) (hblocked : 8 ≤ blockedRepairs served tracked e limit w.db) :
    e ∉ (w.db.gapEpochs tracked limit).take 8 := by
  rw [Newest.mem_take_iff gapEpochs_descending hgap, not_lt]
  refine hblocked.trans (List.countP_mono_left fun y _ hp => ?_)
  rw [Bool.and_eq_true] at hp
  exact hp.1

theorem stuck_repairRecent (hgap : e ∈ w.db.gapEpochs tracked limit)
    (hblocked : 8 ≤ blockedRepairs served tracked e limit w.db)
    (hx : Exec (stuckSem served limit) (repairRecent tracked mode) w () w') : Stays served e w w' := by
  obtain ⟨r, w₁, ⟨rfl, rfl⟩, hrest⟩ := Exec.call_iff.1 hx
  have htarget : (Except.ok (limit + 2) : Except Error Nat).toOption.bind ChainSpec.finalizedScanTarget = some limit := by
    simp [Except.toOption, ChainSpec.finalizedScanTarget]
  rw [Prog.pure_bind, htarget] at hrest
  obtain ⟨result, w₂, hrepair, hpure⟩ := Exec.bind_iff.1 hrest
  obtain ⟨-, rfl⟩ := Exec.pure_iff.1 hpure
  have hok : (Contract.alone (stuckSem served limit)).Ok (repairLiveGaps tracked limit mode) w₁
      (fun _ w' => Stays served e w₁ w') fun _ _ => False := by
    unfold repairLiveGaps
    apply Contract.Ok.bind
    refine Contract.Ok.ask (fun _ _ => trivial) ?_
    rintro s r s' s'' hs ⟨rfl, hs'⟩ hs''
    obtain rfl : w₁ = s := hs
    obtain rfl : w₁ = s' := hs'.symm
    obtain rfl : w₁ = s'' := hs''
    refine Contract.Ok.each (C := Contract.alone (stuckSem served limit)) (fun _ w' => Stays served e w₁ w')
      (fun _ _ _ hr h => hr ▸ h) ?_ [] w₁ (.refl w₁)
    intro _ gap hmem w₂ hstays
    apply ok_repair
    intro r w₃ hs
    apply hstays.trans
    obtain ⟨y, hy, rfl⟩ := List.mem_map.1 hmem
    have hne : y ≠ e := by
      rintro rfl
      exact notMem_take hgap hblocked hy
    rcases hs with ⟨hserved, -, rfl⟩ | ⟨-, -, rfl⟩
    · -- the repaired epoch is neither `e` nor one that is not served
      intro u z hz hopen
      have hzy : z ≠ y := by
        rintro rfl
        rcases hz with hz | hz
        · exact hne hz
        · rw [hserved] at hz
          cases hz
      show (w₂.db.markComplete _ y).openGap u z = true
      rw [openGap_markComplete, hopen]
      simp [hzy]
    · exact .refl w₃
  have hpost := Contract.Safe.exec hrepair hok
  cases result with
  | error er => exact absurd hpost id
  | ok _ => exact hpost

/-- Apart from repairs nothing changes the database. -/
theorem stuck_advanceHistory (hx : Exec (stuckSem served limit) (setup.advanceHistory m) w m' w') : w' = w := by
  unfold ArchiveSetup.advanceHistory at hx
  split at hx
  · exact (Exec.pure_iff.1 hx).2
  · obtain ⟨now, w₁, ⟨-, rfl⟩, hrest⟩ := Exec.call_iff.1 hx
    rw [Prog.pure_bind] at hrest
    split at hrest
    · obtain ⟨result, w₂, hrun, hrest⟩ := Exec.bind_iff.1 hrest
      have hsame : w₂ = w₁ := Exec.within_relates (R := fun s s' => s' = s) (fun _ => rfl)
        (fun _ _ _ h h' => h'.trans h) (fun _ _ _ _ hs => hs.2) hrun
      subst hsame
      cases result with
      | ok _ => exact (Exec.pure_iff.1 hrest).2
      | error _ =>
        obtain ⟨_, w₃, ⟨-, hw₃⟩, hrest⟩ := Exec.call_iff.1 hrest
        obtain ⟨_, w₄, hreport, hrest⟩ := Exec.call_iff.1 hrest
        have hw₄ : w₄ = w₃ := hreport
        rw [(Exec.pure_iff.1 hrest).2, hw₄, hw₃]
    · exact (Exec.pure_iff.1 hrest).2

theorem stuck_turns : ∀ (turns : Nat) {m : ArchiveMemory} {w : ArchiveWorld},
    e ∈ w.db.gapEpochs setup.tracked limit → 8 ≤ blockedRepairs served setup.tracked e limit w.db →
    Exec (stuckSem served limit) (setup.archiveTurns turns m) w m' w' → Stays served e w w'
  | 0, m, w, _, _, hx => by
    obtain ⟨-, rfl⟩ := Exec.pure_iff.1 hx
    exact .refl w'
  | turns + 1, m, w, hgap, hblocked, hx => by
    obtain ⟨m₁, w₁, hturn, hrest⟩ := Exec.bind_iff.1 hx
    obtain ⟨_, w₂, hrepair, hturn⟩ := Exec.bind_iff.1 hturn
    obtain ⟨m₂, w₃, hadvance, hturn⟩ := Exec.bind_iff.1 hturn
    obtain ⟨_, w₄, hsleep, hturn⟩ := Exec.call_iff.1 hturn
    obtain ⟨-, rfl⟩ := Exec.pure_iff.1 hturn
    obtain rfl := stuck_advanceHistory hadvance
    have hstays : Stays served e w w₁ := by
      have hrepaired := stuck_repairRecent hgap hblocked hrepair
      have hsleep : w₁ = { w₃ with clock := w₃.clock + 1000 * 60 } := hsleep
      subst hsleep
      exact hrepaired
    exact hstays.trans (stuck_turns turns (hstays.gap hgap) (hblocked.trans hstays.blocked) hrest)

/-- Whatever becomes of the history, a gap of a served epoch is repaired in every run that has a turn for each served
gap epoch from it on, exactly if fewer than 8 newer gap epochs cannot be served. -/
theorem gap_repaired_iff (setup : ArchiveSetup) (served : Nat → Bool) (e limit : Nat) (m : ArchiveMemory) (w : ArchiveWorld)
    (hs : served e = true) (hgap : e ∈ w.db.gapEpochs setup.tracked limit) :
    (∀ turns m' w', dueRepairs served setup.tracked e limit w.db ≤ turns →
      Exec (archiveSem (repairEnv served e limit)) (setup.archiveTurns turns m) w m' w' →
        ∀ v ∈ setup.tracked, w'.db.openGap v e = false) ↔
    blockedRepairs served setup.tracked e limit w.db < 8 := by
  have hlimit := (mem_gapEpochs.1 hgap).1
  constructor
  · intro h
    by_contra hblocked
    obtain ⟨m', w', hx⟩ := Exec.exists (stuck_total served limit)
      (setup.archiveTurns (dueRepairs served setup.tracked e limit w.db) m) w
    obtain ⟨-, v, hv, hopen⟩ := mem_gapEpochs.1 ((stuck_turns _ hgap (not_lt.1 hblocked) hx).gap hgap)
    rw [h _ m' w' le_rfl (hx.mono (stuckSem_archiveSem hlimit)) v hv] at hopen
    cases hopen
  · intro hblocked turns m' w' hturns hx v hv
    by_contra hopen
    rw [Bool.not_eq_false] at hopen
    have hmem : e ∈ w'.db.gapEpochs setup.tracked limit := mem_gapEpochs.2 ⟨hlimit, v, hv, hopen⟩
    have hle := exec_turns_repair hs turns hblocked hx hmem
    have hpos : 0 < dueRepairs served setup.tracked e limit w'.db := List.countP_pos_iff.2 ⟨e, hmem, by simp [hs]⟩
    omega

/-- Gaps of validator 1 at epochs 1 to 9. -/
def gappedWorld : ArchiveWorld :=
  ⟨⟨{ Db.empty with liveGaps := .ofList ((List.range' 1 9).map fun e => ((1, e), "reward retry window expired")) }, 3⟩, 0⟩

/-- The node serves epoch 1 but none of the 8 after it, and epoch 1 is not sure to be repaired. -/
theorem gap_repaired_iff_starved : ¬∀ turns m' w', dueRepairs (· == 1) firstSetup.tracked 1 9 gappedWorld.db ≤ turns →
    Exec (archiveSem (repairEnv (· == 1) 1 9)) (firstSetup.archiveTurns turns firstSetup.start) gappedWorld m' w' →
      ∀ v ∈ firstSetup.tracked, w'.db.openGap v 1 = false := by
  rw [gap_repaired_iff firstSetup (· == 1) 1 9 firstSetup.start gappedWorld (by decide)
    (mem_gapEpochs.2 ⟨by decide, 1, by decide, by decide⟩)]
  decide

end BeaconIndexer
