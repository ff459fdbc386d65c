/-
The attestation list: every placeholder is bound to the value its condition tests, for every combination of
filter fields, and the pages list the matching rows once exactly if no rows that tie on the sort key stand on
both sides of a border between pages.
-/
import BeaconIndexer.Api.Attestations

namespace BeaconIndexer

open Relational Native

/-! ## What a filter accepts -/

namespace AttestationFilter

variable (f : AttestationFilter)

/-- A row has the filter's values in all fields that are present; `included` is compared with what the list shows. -/
def accepts (e : DutyEntry) : Bool :=
  f.validatorIndices.all (fun vs => vs.contains (e.1.1 : Int)) && f.epochFrom.all (fun n => decide (n ≤ (e.1.2 : Int))) &&
    f.epochTo.all (fun n => decide ((e.1.2 : Int) ≤ n)) && (!f.processedOnly || (shownIncluded e.2).isSome) &&
    f.included.all (fun b => shownIncluded e.2 == some b) && f.headCorrect.all (fun b => e.2.headCorrect == some b) &&
    f.targetCorrect.all (fun b => e.2.targetCorrect == some b) && f.sourceCorrect.all (fun b => e.2.sourceCorrect == some b) &&
    f.finalized.all (fun b => e.2.finalized == b) &&
    f.minEffectiveDelay.all (fun n => e.2.effectiveInclusionDelay.any fun d => decide (n ≤ d)) &&
    f.maxEffectiveDelay.all (fun n => e.2.effectiveInclusionDelay.any fun d => decide (d ≤ n))

/-- The filter value that a condition tests for. -/
def tested : Condition → Option Param
  | .anyOf _ => f.validatorIndices.map .ints
  | .compare .epoch .ge _ => f.epochFrom.map .int
  | .compare .epoch .le _ => f.epochTo.map .int
  | .compare .included .eq _ => f.included.map .bool
  | .compare .headCorrect .eq _ => f.headCorrect.map .bool
  | .compare .targetCorrect .eq _ => f.targetCorrect.map .bool
  | .compare .sourceCorrect .eq _ => f.sourceCorrect.map .bool
  | .compare .finalized .eq _ => f.finalized.map .bool
  | .compare .effectiveInclusionDelay .ge _ => f.minEffectiveDelay.map .int
  | .compare .effectiveInclusionDelay .le _ => f.maxEffectiveDelay.map .int
  | _ => none

/-- The conditions built so far count the parameters bound so far; whatever is bound after them, each of their
placeholders holds the value it tests for and together they hold of the rows that `p` accepts. -/
structure Built (acc : Nat × List Condition) (q : List Param) (p : DutyEntry → Bool) : Prop where
  count : acc.1 = q.length
  bound : ∀ c ∈ acc.2, ∀ k, c.placeholder = some k → 1 ≤ k ∧ ∃ param, q[k - 1]? = some param ∧ f.tested c = some param
  holds : ∀ params, q <+: params → ∀ e, whereHolds acc.2 params e = some (p e)

variable {f} {acc : Nat × List Condition} {q : List Param} {p : DutyEntry → Bool}

theorem whereHolds_append {cs ds : List Condition} {params : List Param} {e : DutyEntry} {a b : Bool}
    (hc : whereHolds cs params e = some a) (hd : whereHolds ds params e = some b) :
    whereHolds (cs ++ ds) params e = some (a && b) := by
  unfold whereHolds at hc hd ⊢
  obtain ⟨as, has, rfl⟩ := Option.map_eq_some_iff.1 hc
  obtain ⟨bs, hbs, rfl⟩ := Option.map_eq_some_iff.1 hd
  rw [List.mapM_append, has, hbs]
  simp

theorem whereHolds_single {c : Condition} {params : List Param} {e : DutyEntry} {b : Bool} (h : c.holds params e = some b) :
    whereHolds [c] params e = some b := by
  unfold whereHolds
  rw [List.mapM_cons, h]
  simp

theorem built_nil : Built f (0, []) [] fun _ => true :=
  ⟨rfl, by simp, fun _ _ _ => by simp [whereHolds]⟩

/-- The parameter of the next placeholder. -/
theorem getElem_of_prefix {params : List Param} {param : Param} (h : q ++ [param] <+: params) : params[q.length]? = some param := by
  obtain ⟨rest, rfl⟩ := h
  simp

section Field

variable {β : Type} {field : Option β} {wrap : β → Param} {test : DutyEntry → β → Bool}

/-- A field that is absent adds no condition and binds no value; one that is present adds conditions of the next
placeholder and binds its value there. -/
theorem Built.pushNext {conds : Nat → List Condition} (h : Built f acc q p)
    (htested : ∀ k, ∀ c ∈ conds k, ∀ k', c.placeholder = some k' → k' = k ∧ f.tested c = field.map wrap)
    (hholds : ∀ x, field = some x → ∀ k params e, params[k]? = some (wrap x) →
      whereHolds (conds (k + 1)) params e = some (test e x)) :
    Built f (BeaconIndexer.pushNext field.isSome conds acc) (q ++ (field.map wrap).toList) fun e => p e && field.all (test e) := by
  cases hfield : field with
  | none =>
    refine ⟨by simpa [BeaconIndexer.pushNext] using h.count, ?_, ?_⟩
    · simpa [BeaconIndexer.pushNext] using h.bound
    · intro params hparams e
      rw [Option.all_none, Bool.and_true]
      exact h.holds params (by simpa using hparams) e
  | some x =>
    refine ⟨by simp [BeaconIndexer.pushNext, h.count], ?_, ?_⟩
    · intro c hc k hk
      rcases List.mem_append.1 hc with hc | hc
      · obtain ⟨hk, param, hget, ht⟩ := h.bound c hc k hk
        obtain ⟨hlt, -⟩ := List.getElem?_eq_some_iff.1 hget
        exact ⟨hk, param, by rwa [List.getElem?_append_left hlt], ht⟩
      · obtain ⟨rfl, ht⟩ := htested _ c hc k hk
        exact ⟨Nat.le_add_left 1 _, wrap x, by simp [h.count], by rw [ht, hfield]; rfl⟩
    · intro params hparams e
      refine whereHolds_append (h.holds params ((List.prefix_append q [wrap x]).trans hparams) e) ?_
      refine hholds x hfield acc.1 params e ?_
      rw [h.count]
      exact getElem_of_prefix hparams

/-- A field that one comparison tests for. -/
theorem Built.compare {column : Column} {op : CompareOp} (h : Built f acc q p)
    (htested : ∀ k, f.tested (.compare column op k) = field.map wrap)
    (hvalue : ∀ x e, Condition.compareValue op (column.value e) (wrap x) = some (test e x)) :
    Built f (BeaconIndexer.pushNext field.isSome (fun k => [.compare column op k]) acc) (q ++ (field.map wrap).toList)
      fun e => p e && field.all (test e) := by
  refine h.pushNext (fun k c hc k' hk => ?_) fun x _ k params e hget => whereHolds_single ?_
  · rw [List.mem_singleton.1 hc] at hk ⊢
    cases hk
    exact ⟨rfl, htested k⟩
  · simp only [Condition.holds, Nat.add_sub_cancel, hget]
    exact hvalue x e

end Field

theorem Built.pushFixed {present : Bool} {cond : Condition} {r : DutyEntry → Bool} (h : Built f acc q p)
    (hfixed : cond.placeholder = none) (hholds : ∀ params e, cond.holds params e = some (r e)) :
    Built f (BeaconIndexer.pushFixed present cond acc) q fun e => p e && (!present || r e) := by
  cases present with
  | false =>
    refine ⟨h.count, h.bound, fun params hparams e => ?_⟩
    rw [Bool.not_false, Bool.true_or, Bool.and_true]
    exact h.holds params hparams e
  | true =>
    refine ⟨h.count, ?_, fun params hparams e => ?_⟩
    · intro c hc k hk
      rcases List.mem_append.1 hc with hc | hc
      · exact h.bound c hc k hk
      · rw [List.mem_singleton.1 hc, hfixed] at hk
        cases hk
    · rw [Bool.not_true, Bool.false_or]
      exact whereHolds_append (h.holds params hparams e) (whereHolds_single (hholds params e))

theorem compare_flag {flag : Option Bool} {b : Bool} :
    Condition.compareValue .eq (flag.map Value.bool) (.bool b) = some (flag == some b) := by
  cases flag with
  | none => rfl
  | some a => cases a <;> cases b <;> rfl

theorem compare_delay_ge {delay : Option Int} {n : Int} :
    Condition.compareValue .ge (delay.map Value.int) (.int n) = some (delay.any fun d => decide (n ≤ d)) := by
  cases delay <;> rfl

theorem compare_delay_le {delay : Option Int} {n : Int} :
    Condition.compareValue .le (delay.map Value.int) (.int n) = some (delay.any fun d => decide (d ≤ n)) := by
  cases delay <;> rfl

/-- The list shows whether a duty was included once that is known. -/
theorem holds_processed (params : List Param) (e : DutyEntry) :
    Condition.processed.holds params e = some (shownIncluded e.2).isSome := by
  unfold Condition.holds shownIncluded
  cases e.2.included || e.2.inclusionKnown <;> rfl

theorem holds_included {b : Bool} {k : Nat} {params : List Param} {e : DutyEntry} (hget : params[k]? = some (.bool b)) :
    whereHolds (.compare .included .eq (k + 1) :: if some b = some false then [.inclusionKnown] else []) params e =
      some (shownIncluded e.2 == some b) := by
  have hcompare : (Condition.compare .included .eq (k + 1)).holds params e = some (e.2.included == b) := by
    simp only [Condition.holds, Nat.add_sub_cancel, hget]
    rfl
  cases b with
  | true =>
    rw [if_neg (by simp), whereHolds_single hcompare]
    unfold shownIncluded
    cases e.2.included <;> cases e.2.inclusionKnown <;> rfl
  | false =>
    have hknown : Condition.inclusionKnown.holds params e = some e.2.inclusionKnown := rfl
    rw [if_pos rfl, ← List.singleton_append, whereHolds_append (whereHolds_single hcompare) (whereHolds_single hknown)]
    unfold shownIncluded
    cases e.2.included <;> cases e.2.inclusionKnown <;> rfl

theorem built_validators : Built f (BeaconIndexer.pushNext f.validatorIndices.isSome (fun k => [.anyOf k]) (0, []))
    (f.validatorIndices.map Param.ints).toList fun e => f.validatorIndices.all fun vs => vs.contains (e.1.1 : Int) := by
  refine built_nil.pushNext (fun k c hc k' hk => ?_) fun vs _ k params e hget => whereHolds_single ?_
  · rw [List.mem_singleton.1 hc] at hk ⊢
    cases hk
    exact ⟨rfl, rfl⟩
  · simp only [Condition.holds, Nat.add_sub_cancel, hget]

/-- Both field sequences run in step, whatever fields are present. -/
theorem built (f : AttestationFilter) : Built f f.build f.bindings f.accepts := by
  unfold build bindings accepts
  dsimp only
  -- from the last field to the first
  refine Built.compare ?_ (fun _ => rfl) fun _ _ => compare_delay_le
  refine Built.compare ?_ (fun _ => rfl) fun _ _ => compare_delay_ge
  refine Built.compare ?_ (fun _ => rfl) fun _ _ => rfl
  refine Built.compare ?_ (fun _ => rfl) fun _ _ => compare_flag
  refine Built.compare ?_ (fun _ => rfl) fun _ _ => compare_flag
  refine Built.compare ?_ (fun _ => rfl) fun _ _ => compare_flag
  refine Built.pushNext ?_ (fun k c hc k' hk => ?_) fun b hb k params e hget => ?_
  · refine Built.pushFixed ?_ rfl holds_processed
    refine Built.compare ?_ (fun _ => rfl) fun _ _ => rfl
    refine Built.compare ?_ (fun _ => rfl) fun _ _ => rfl
    exact built_validators
  · rcases List.mem_cons.1 hc with rfl | hc
    · cases hk
      exact ⟨rfl, rfl⟩
    · split at hc
      · rw [List.mem_singleton.1 hc] at hk
        cases hk
      · cases hc
  · rw [hb]
    exact holds_included hget

example : (⟨some [7], some 3, none, false, none, none, none, none, none, none, none⟩ : AttestationFilter).buildWhere =
    "WHERE validator_index = ANY($1) AND epoch >= $2" := by decide +kernel

/-- The WHERE clause selects the rows that the filter accepts. -/
theorem selectDuties_eq (f : AttestationFilter) (db : Db) :
    selectDuties f.conditions f.bindings db = some (db.attestationDuties.rows.filter f.accepts) := by
  have hflags : (db.attestationDuties.rows.mapM fun e => (whereHolds f.conditions f.bindings e).map fun flag => (e, flag)) =
      some (db.attestationDuties.rows.map fun e => (e, f.accepts e)) := by
    rw [mapM_eq_some_iff, List.map_map]
    refine List.map_congr_left fun e _ => ?_
    rw [show whereHolds f.conditions f.bindings e = _ from (built f).holds _ (List.prefix_refl _) e]
    rfl
  unfold selectDuties
  rw [hflags, Option.map_some, List.filter_map, List.map_map]
  simp [Function.comp_def]

end AttestationFilter

/-! ## Orderings -/

namespace SortOrder

theorem le_total (order : SortOrder) (a b : Option Int) : order.le a b ∨ order.le b a := by
  cases a with
  | none => exact .inr (by cases b <;> trivial)
  | some x =>
    cases b with
    | none => exact .inl trivial
    | some y =>
      cases order with
      | asc => exact Int.le_total x y
      | desc => exact Int.le_total y x

theorem le_trans {order : SortOrder} {a b c : Option Int} (hab : order.le a b) (hbc : order.le b c) : order.le a c := by
  cases c with
  | none => cases a <;> trivial
  | some z =>
    cases b with
    | none => exact hbc.elim
    | some y =>
      cases a with
      | none => exact hab.elim
      | some x =>
        cases order with
        | asc => exact Int.le_trans hab hbc
        | desc => exact Int.le_trans hbc hab

end SortOrder

instance (sort : AttestationSort) (order : SortOrder) : Std.Total (rowLe sort order) := ⟨fun _ _ => order.le_total _ _⟩

instance (sort : AttestationSort) (order : SortOrder) : IsTrans DutyEntry (rowLe sort order) := ⟨fun _ _ _ => SortOrder.le_trans⟩

/-! ## Pages -/

/-- Every placeholder is bound to the value it tests for, the clause selects what the filter accepts, and the pages up
to the reported total list each of these rows once. -/
structure PagesEnumerate (db : Db) (f : AttestationFilter) (sort : AttestationSort) (order : SortOrder) (n : Nat) : Prop where
  bound : ∀ c ∈ f.conditions, ∀ k, c.placeholder = some k → 1 ≤ k ∧ ∃ param, f.bindings[k - 1]? = some param ∧ f.tested c = some param
  selects : selectDuties f.conditions f.bindings db = some (db.attestationDuties.rows.filter f.accepts)
  pages : ∀ answers : Nat → List AttestationDutyRow × Nat,
    (∀ k, listAttestationDutiesPaginated db f sort order n (k * n) (answers k)) →
    ((List.range ((answers 0).2 / n + 1)).flatMap fun k => (answers k).1).Perm
      ((db.attestationDuties.rows.filter f.accepts).map toDutyRow)

variable {db : Db} {f : AttestationFilter} {sort : AttestationSort} {order : SortOrder} {n : Nat}

theorem accepted_nodup : (db.attestationDuties.rows.filter f.accepts).Nodup :=
  (List.Nodup.of_map Prod.fst db.attestationDuties.nodup).filter _

theorem shown_nodup : ((db.attestationDuties.rows.filter f.accepts).map toDutyRow).Nodup := by
  have hkeys : ((db.attestationDuties.rows.filter f.accepts).map Prod.fst).Nodup :=
    db.attestationDuties.nodup.sublist (List.filter_sublist.map _)
  refine List.Nodup.of_map (fun r => (r.validatorIndex, r.epoch)) ?_
  rw [List.map_map]
  exact hkeys

theorem pages_of_clear (hn : 0 < n) (h : ∀ k, Paging.Clear (rowLe sort order) (db.attestationDuties.rows.filter f.accepts) (k * n)) :
    PagesEnumerate db f sort order n := by
  refine ⟨(f.built).bound, f.selectDuties_eq db, fun answers hanswers => ?_⟩
  have hpage : ∀ k, ∃ page, Paging.Page (rowLe sort order) (db.attestationDuties.rows.filter f.accepts) n (k * n) page ∧
      answers k = (page.map toDutyRow, (db.attestationDuties.rows.filter f.accepts).length) := by
    intro k
    obtain ⟨matching, page, hmatching, hpage, hanswer⟩ := hanswers k
    rw [f.selectDuties_eq db, Option.some.injEq] at hmatching
    subst hmatching
    exact ⟨page, hpage, hanswer⟩
  choose pages hpages hanswer using hpage
  simp only [hanswer]
  rw [← List.map_flatMap]
  refine (Paging.pages_perm accepted_nodup hpages h ?_).map _
  exact (Nat.lt_div_mul_add hn).le.trans (by rw [Nat.add_mul, Nat.one_mul])

theorem clear_of_pages (h : PagesEnumerate db f sort order n) (hn : 0 < n) (k : Nat) :
    Paging.Clear (rowLe sort order) (db.attestationDuties.rows.filter f.accepts) (k * n) := by
  have hlen : (db.attestationDuties.rows.filter f.accepts).length ≤
      ((db.attestationDuties.rows.filter f.accepts).length / n + 1) * n := by
    rw [Nat.add_mul, Nat.one_mul]
    exact (Nat.lt_div_mul_add hn).le
  refine Paging.clear_of_nodup hlen (fun pages hpages => ?_) k
  have hperm := h.pages (fun k => ((pages k).map toDutyRow, (db.attestationDuties.rows.filter f.accepts).length))
    fun k => ⟨_, pages k, f.selectDuties_eq db, hpages k, rfl⟩
  rw [← List.map_flatMap] at hperm
  exact List.Nodup.of_map _ (hperm.nodup_iff.2 shown_nodup)

/-- The pages of a filter enumerate its rows exactly if no rows with one sort key reach across a border of a page. -/
theorem pages_enumerate_iff (db : Db) (f : AttestationFilter) (sort : AttestationSort) (order : SortOrder) (n : Nat)
    (hn : 0 < n) : PagesEnumerate db f sort order n ↔
      ∀ k, Paging.Clear (rowLe sort order) (db.attestationDuties.rows.filter f.accepts) (k * n) :=
  ⟨fun h => clear_of_pages h hn, pages_of_clear hn⟩

/-- The filter of a request without parameters. -/
def everyDuty : AttestationFilter := ⟨none, none, none, true, none, none, none, none, none, none, none⟩

example : everyDuty.buildWhere = "WHERE (included OR inclusion_known)" := by decide +kernel

def listedDuty (epoch : Nat) : AttestationRow :=
  ⟨32 * epoch, 0, 0, true, some (32 * epoch + 1), some 1, some 1, some true, some true, some true, some 5, some 5, some 5,
    some 0, true, true⟩

def listedDb (keys : List (Nat × Nat)) : Db :=
  { Db.empty with attestationDuties := .ofList (keys.map fun k => (k, listedDuty k.2)) }

/-- One validator has one duty in an epoch: no two of its rows tie, so that pages of one row list both. -/
theorem pages_of_one_validator : PagesEnumerate (listedDb [(1, 0), (1, 1)]) everyDuty .epoch .desc 1 := by
  refine (pages_enumerate_iff (listedDb [(1, 0), (1, 1)]) everyDuty .epoch .desc 1 (by decide)).2 ?_
  have hrows : (listedDb [(1, 0), (1, 1)]).attestationDuties.rows.filter everyDuty.accepts =
      [((1, 0), listedDuty 0), ((1, 1), listedDuty 1)] := by decide +kernel
  intro k
  rw [hrows]
  rintro a ha ⟨hlow, hhigh⟩
  have hties : Paging.upTo (rowLe .epoch .desc) [((1, 0), listedDuty 0), ((1, 1), listedDuty 1)] a ≤
      Paging.before (rowLe .epoch .desc) [((1, 0), listedDuty 0), ((1, 1), listedDuty 1)] a + 1 := by
    rcases List.mem_pair.1 ha with rfl | rfl
    · decide +kernel
    · decide +kernel
  omega

/-- Two validators have a duty in epoch 0. The first page orders them one way and the second the other way: both hold
the duty of validator 1. -/
theorem tied_duty_listed_twice : ¬∀ (db : Db) (f : AttestationFilter) (sort : AttestationSort) (order : SortOrder) (n : Nat),
    0 < n → PagesEnumerate db f sort order n := by
  intro h
  have hpages := (h (listedDb [(1, 0), (2, 0)]) everyDuty .epoch .desc 1 (by decide)).pages
    (fun k => (((if k = 0 then ([((1, 0), listedDuty 0), ((2, 0), listedDuty 0)].drop (k * 1)).take 1
      else ([((2, 0), listedDuty 0), ((1, 0), listedDuty 0)].drop (k * 1)).take 1) : List DutyEntry).map toDutyRow, 2))
  have hrows : selectDuties everyDuty.conditions everyDuty.bindings (listedDb [(1, 0), (2, 0)]) =
      some [((1, 0), listedDuty 0), ((2, 0), listedDuty 0)] := by decide +kernel
  have hperm := hpages fun k => ⟨_, _, hrows, ?_, rfl⟩
  · have hshown : ((listedDb [(1, 0), (2, 0)]).attestationDuties.rows.filter everyDuty.accepts).map toDutyRow =
        [toDutyRow ((1, 0), listedDuty 0), toDutyRow ((2, 0), listedDuty 0)] := by decide +kernel
    rw [hshown] at hperm
    exact absurd hperm (by decide +kernel)
  · split
    · exact ⟨_, ⟨List.Perm.refl _, by decide +kernel⟩, rfl⟩
    · exact ⟨_, ⟨List.Perm.swap _ _ _, by decide +kernel⟩, rfl⟩

end BeaconIndexer
