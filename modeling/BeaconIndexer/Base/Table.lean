/-
Keyed relational tables: a finite list of rows whose keys are pairwise distinct, with the
statements a program runs on them (insert or ignore, insert or update, update or delete where).
Every statement is described by what it does to `get`, so that proofs never look at the list.
-/
import Mathlib.Data.List.Basic
import Mathlib.Data.List.Nodup
import Mathlib.Tactic

namespace Relational

/-- The rows of a table, one for each key. -/
structure Table (κ ν : Type) where
  rows : List (κ × ν)
  nodup : (rows.map Prod.fst).Nodup

namespace Table

variable {κ ν : Type}

def empty : Table κ ν := ⟨[], List.nodup_nil⟩

instance : Inhabited (Table κ ν) := ⟨empty⟩

variable [DecidableEq κ]

/-- The value stored in a list of rows under a key. -/
def find (k : κ) : List (κ × ν) → Option ν
  | [] => none
  | (k', v) :: rest => if k' = k then some v else find k rest

def get (t : Table κ ν) (k : κ) : Option ν := find k t.rows

def has (t : Table κ ν) (k : κ) : Bool := (t.get k).isSome

/-! ## Rows and lookups -/

@[simp]
theorem find_nil (k : κ) : find k ([] : List (κ × ν)) = none := rfl

theorem find_cons (k k' : κ) (v : ν) (rest : List (κ × ν)) :
    find k ((k', v) :: rest) = if k' = k then some v else find k rest := rfl

theorem find_eq_none {k : κ} : ∀ {l : List (κ × ν)}, k ∉ l.map Prod.fst → find k l = none
  | [], _ => rfl
  | (k', v) :: rest, h => by
    simp only [List.map_cons, List.mem_cons, not_or] at h
    rw [find_cons, if_neg (Ne.symm h.1)]
    exact find_eq_none h.2

theorem mem_of_find {k : κ} {v : ν} : ∀ {l : List (κ × ν)}, find k l = some v → (k, v) ∈ l
  | (k', v') :: rest, h => by
    rw [find_cons] at h
    by_cases hk : k' = k
    · rw [if_pos hk] at h
      obtain rfl := Option.some.inj h
      subst hk; exact List.mem_cons_self ..
    · rw [if_neg hk] at h
      exact List.mem_cons_of_mem _ (mem_of_find h)

theorem find_of_mem {k : κ} {v : ν} : ∀ {l : List (κ × ν)}, (l.map Prod.fst).Nodup → (k, v) ∈ l → find k l = some v
  | (k', v') :: rest, hn, h => by
    simp only [List.map_cons, List.nodup_cons] at hn
    rw [find_cons]
    rcases List.mem_cons.1 h with h | h
    · obtain ⟨rfl, rfl⟩ := Prod.mk.inj h
      rw [if_pos rfl]
    · have : k ∈ rest.map Prod.fst := List.mem_map.2 ⟨_, h, rfl⟩
      rw [if_neg (fun e : k' = k => hn.1 (e ▸ this))]
      exact find_of_mem hn.2 h

/-- The rows are exactly the stored pairs. -/
theorem mem_rows {t : Table κ ν} {k : κ} {v : ν} : (k, v) ∈ t.rows ↔ t.get k = some v :=
  ⟨find_of_mem t.nodup, mem_of_find⟩

@[simp]
theorem get_empty (k : κ) : (empty : Table κ ν).get k = none := rfl

theorem has_iff {t : Table κ ν} {k : κ} : t.has k = true ↔ ∃ v, t.get k = some v :=
  Option.isSome_iff_exists

theorem has_eq_false {t : Table κ ν} {k : κ} : t.has k = false ↔ t.get k = none := by
  simp [has]

theorem decide_mem_keys (t : Table κ ν) (k : κ) : decide (k ∈ t.rows.map Prod.fst) = t.has k := by
  rw [Bool.eq_iff_iff, decide_eq_true_eq, has_iff, List.mem_map]
  constructor
  · rintro ⟨⟨k, v⟩, hr, rfl⟩
    exact ⟨v, mem_rows.1 hr⟩
  · rintro ⟨v, hv⟩
    exact ⟨(k, v), mem_rows.2 hv, rfl⟩

/-! ## INSERT ... ON CONFLICT DO UPDATE -/

/-- The rows with the value under `k` replaced, or a new row at the end. -/
def putRows (k : κ) (v : ν) : List (κ × ν) → List (κ × ν)
  | [] => [(k, v)]
  | (k', v') :: rest => if k' = k then (k, v) :: rest else (k', v') :: putRows k v rest

theorem putRows_keys (k : κ) (v : ν) : ∀ (l : List (κ × ν)) (x : κ),
    x ∈ (putRows k v l).map Prod.fst ↔ x = k ∨ x ∈ l.map Prod.fst
  | [], x => by simp [putRows]
  | (k', v') :: rest, x => by
    unfold putRows
    by_cases hk : k' = k
    · subst hk; simp
    · simp only [if_neg hk, List.map_cons, List.mem_cons, putRows_keys k v rest x]
      tauto

theorem putRows_nodup (k : κ) (v : ν) : ∀ {l : List (κ × ν)}, (l.map Prod.fst).Nodup →
    ((putRows k v l).map Prod.fst).Nodup
  | [], _ => by simp [putRows]
  | (k', v') :: rest, h => by
    simp only [List.map_cons, List.nodup_cons] at h
    unfold putRows
    by_cases hk : k' = k
    · subst hk; simpa using h
    · simp only [if_neg hk, List.map_cons, List.nodup_cons]
      refine ⟨fun hm => ?_, putRows_nodup k v h.2⟩
      rcases (putRows_keys k v rest k').1 hm with rfl | hm
      · exact hk rfl
      · exact h.1 hm

theorem find_putRows (k : κ) (v : ν) (x : κ) : ∀ l : List (κ × ν),
    find x (putRows k v l) = if x = k then some v else find x l
  | [] => by simp [putRows, find_cons, eq_comm]
  | (k', v') :: rest => by
    unfold putRows
    by_cases hk : k' = k
    · subst hk
      by_cases hx : x = k' <;> simp [find_cons, hx, eq_comm]
    · simp only [if_neg hk, find_cons, find_putRows k v x rest]
      by_cases hx : x = k
      · subst hx; simp [hk]
      · simp [hx]

/-- Store `v` under `k`, replacing the row that is there. -/
def put (t : Table κ ν) (k : κ) (v : ν) : Table κ ν := ⟨putRows k v t.rows, putRows_nodup k v t.nodup⟩

@[simp]
theorem get_put (t : Table κ ν) (k : κ) (v : ν) (x : κ) :
    (t.put k v).get x = if x = k then some v else t.get x := find_putRows k v x t.rows

/-- Insert `v` under `k`; where a row is there, `f` says what becomes of it (`none` keeps it). -/
def upsert (t : Table κ ν) (k : κ) (v : ν) (f : ν → Option ν) : Table κ ν :=
  match t.get k with
  | none => t.put k v
  | some old => match f old with
    | none => t
    | some new => t.put k new

/-- The value an `upsert` leaves under its key. -/
def upserted (v : ν) (f : ν → Option ν) : Option ν → ν
  | none => v
  | some old => (f old).getD old

theorem get_upsert (t : Table κ ν) (k : κ) (v : ν) (f : ν → Option ν) (x : κ) :
    (t.upsert k v f).get x = if x = k then some (upserted v f (t.get k)) else t.get x := by
  unfold upsert upserted
  cases h : t.get k with
  | none => simp
  | some old =>
    cases hf : f old with
    | none =>
      by_cases hx : x = k
      · subst hx; simp [h, hf]
      · simp [hf, hx]
    | some new => simp [hf]

/-- Store `v` under each key of a list. -/
def putAll (t : Table κ ν) (ks : List κ) (v : ν) : Table κ ν := ks.foldl (fun t k => t.put k v) t

theorem get_putAll (v : ν) (x : κ) : ∀ (ks : List κ) (t : Table κ ν),
    (t.putAll ks v).get x = if x ∈ ks then some v else t.get x
  | [], t => by simp [putAll]
  | k :: ks, t => by
    have ih := get_putAll v x ks (t.put k v)
    simp only [putAll, List.foldl_cons] at ih ⊢
    rw [ih, get_put]
    by_cases hk : x = k
    · simp [hk]
    · simp [hk]

/-! ## INSERT ... ON CONFLICT DO NOTHING -/

/-- Insert a row unless its key is taken. -/
def insertNew (t : Table κ ν) (k : κ) (v : ν) : Table κ ν := if t.has k then t else t.put k v

theorem get_insertNew (t : Table κ ν) (k : κ) (v : ν) (x : κ) :
    (t.insertNew k v).get x = if x = k then some ((t.get k).getD v) else t.get x := by
  unfold insertNew
  cases h : t.get k with
  | none => simp [has, h]
  | some old =>
    simp only [has, h, Option.isSome_some, if_true, Option.getD_some]
    by_cases hx : x = k
    · subst hx; simp [h]
    · simp [hx]

/-- Insert one row for each key of a list, keeping the rows that are there. -/
def insertAll (t : Table κ ν) (ks : List κ) (v : ν) : Table κ ν := ks.foldl (fun t k => t.insertNew k v) t

theorem get_insertAll (v : ν) (x : κ) : ∀ (ks : List κ) (t : Table κ ν),
    (t.insertAll ks v).get x = (t.get x).or (if x ∈ ks then some v else none)
  | [], t => by simp [insertAll]
  | k :: ks, t => by
    have ih := get_insertAll v x ks (t.insertNew k v)
    simp only [insertAll, List.foldl_cons] at ih ⊢
    rw [ih, get_insertNew]
    by_cases hx : x = k
    · subst hx
      cases h : t.get x <;> simp
    · simp [hx]

/-! ## UPDATE and DELETE ... WHERE -/

/-- Rewrite every row by `f`; `none` deletes it. -/
def modify (t : Table κ ν) (f : κ → ν → Option ν) : Table κ ν where
  rows := t.rows.filterMap fun (k, v) => (f k v).map (k, ·)
  nodup := by
    have h : (t.rows.filterMap fun (k, v) => (f k v).map (k, ·)).map Prod.fst =
        (t.rows.filter fun (k, v) => (f k v).isSome).map Prod.fst := by
      induction t.rows with
      | nil => rfl
      | cons p rest ih =>
        obtain ⟨k, v⟩ := p
        cases hf : f k v <;> simp [hf, ih]
    rw [h]
    exact (List.filter_sublist.map _).nodup t.nodup

theorem find_filterMap (f : κ → ν → Option ν) (x : κ) : ∀ {l : List (κ × ν)}, (l.map Prod.fst).Nodup →
    find x (l.filterMap fun (k, v) => (f k v).map (k, ·)) = (find x l).bind (f x)
  | [], _ => rfl
  | (k, v) :: rest, h => by
    simp only [List.map_cons, List.nodup_cons] at h
    have ih := find_filterMap f x h.2
    by_cases hk : k = x
    · subst hk
      cases hf : f k v with
      | none => simp [hf, find_cons, ih, find_eq_none h.1]
      | some w => simp [hf, find_cons]
    · cases hf : f k v with
      | none => simp [hf, find_cons, hk, ih]
      | some w => simp [hf, find_cons, hk, ih]

@[simp]
theorem get_modify (t : Table κ ν) (f : κ → ν → Option ν) (x : κ) :
    (t.modify f).get x = (t.get x).bind (f x) := find_filterMap f x t.nodup

/-- UPDATE ... SET ... WHERE. -/
def update (t : Table κ ν) (p : κ → ν → Bool) (f : κ → ν → ν) : Table κ ν :=
  t.modify fun k v => some (if p k v then f k v else v)

@[simp]
theorem get_update (t : Table κ ν) (p : κ → ν → Bool) (f : κ → ν → ν) (x : κ) :
    (t.update p f).get x = (t.get x).map fun v => if p x v then f x v else v := by
  cases h : t.get x <;> simp [update, h]

/-- DELETE ... WHERE. -/
def deleteWhere (t : Table κ ν) (p : κ → ν → Bool) : Table κ ν :=
  t.modify fun k v => if p k v then none else some v

@[simp]
theorem get_deleteWhere (t : Table κ ν) (p : κ → ν → Bool) (x : κ) :
    (t.deleteWhere p).get x = (t.get x).filter fun v => !p x v := by
  cases h : t.get x with
  | none => simp [deleteWhere, h]
  | some v => cases hp : p x v <;> simp [deleteWhere, h, hp, Option.filter]

omit [DecidableEq κ] in
theorem rows_deleteWhere (t : Table κ ν) (p : κ → ν → Bool) :
    (t.deleteWhere p).rows = t.rows.filter fun (k, v) => !p k v := by
  change t.rows.filterMap (fun (k, v) => (if p k v then none else some v).map (k, ·)) = _
  rw [← List.filterMap_eq_filter]
  apply List.filterMap_congr
  rintro ⟨k, v⟩ _
  cases hp : p k v <;> simp [Option.guard, hp]

/-- Change every value, keeping the keys. -/
def mapVal {ν' : Type} (t : Table κ ν) (f : ν → ν') : Table κ ν' where
  rows := t.rows.map fun (k, v) => (k, f v)
  nodup := by simpa [Function.comp_def] using t.nodup

theorem find_map {ν' : Type} (f : ν → ν') (x : κ) : ∀ l : List (κ × ν),
    find x (l.map fun (k, v) => (k, f v)) = (find x l).map f
  | [] => rfl
  | (k, v) :: rest => by
    simp only [List.map_cons, find_cons, find_map f x rest]
    split <;> rfl

@[simp]
theorem get_mapVal {ν' : Type} (t : Table κ ν) (f : ν → ν') (x : κ) : (t.mapVal f).get x = (t.get x).map f :=
  find_map f x t.rows

/-- The rows of a list of pairs, a later pair replacing an earlier one with its key. -/
def ofList (l : List (κ × ν)) : Table κ ν := l.foldl (fun t (k, v) => t.put k v) empty

/-- Every row comes from the list. -/
theorem mem_of_get_foldl_put {k : κ} {v : ν} : ∀ {l : List (κ × ν)} {t : Table κ ν},
    (l.foldl (fun t (k, v) => t.put k v) t).get k = some v → (k, v) ∈ l ∨ t.get k = some v
  | [], _, h => Or.inr h
  | (k', v') :: rest, t, h => by
    rcases mem_of_get_foldl_put (l := rest) h with h | h
    · exact Or.inl (List.mem_cons_of_mem _ h)
    · rw [get_put] at h
      by_cases hk : k = k'
      · subst hk
        rw [if_pos rfl, Option.some.injEq] at h
        subst h
        exact Or.inl (List.mem_cons_self ..)
      · rw [if_neg hk] at h
        exact Or.inr h

theorem mem_of_get_ofList {k : κ} {v : ν} {l : List (κ × ν)} (h : (ofList l).get k = some v) : (k, v) ∈ l := by
  rcases mem_of_get_foldl_put h with h | h
  · exact h
  · cases h

theorem get_foldl_put_of_notMem {k : κ} : ∀ {l : List (κ × ν)} {t : Table κ ν}, k ∉ l.map Prod.fst →
    (l.foldl (fun t (k, v) => t.put k v) t).get k = t.get k
  | [], _, _ => rfl
  | (k', v') :: rest, t, h => by
    simp only [List.map_cons, List.mem_cons, not_or] at h
    rw [List.foldl_cons, get_foldl_put_of_notMem h.2, get_put, if_neg h.1]

theorem get_foldl_put_of_mem {k : κ} {v : ν} : ∀ {l : List (κ × ν)} {t : Table κ ν}, (l.map Prod.fst).Nodup → (k, v) ∈ l →
    (l.foldl (fun t (k, v) => t.put k v) t).get k = some v
  | (k', v') :: rest, t, hn, h => by
    obtain ⟨hk, hn⟩ := List.nodup_cons.1 hn
    rw [List.foldl_cons]
    rcases List.mem_cons.1 h with he | h
    · cases he
      rw [get_foldl_put_of_notMem hk, get_put, if_pos rfl]
    · exact get_foldl_put_of_mem hn h

/-- Pairs with distinct keys are all stored. -/
theorem get_ofList_iff {k : κ} {v : ν} {l : List (κ × ν)} (hn : (l.map Prod.fst).Nodup) :
    (ofList l).get k = some v ↔ (k, v) ∈ l :=
  ⟨mem_of_get_ofList, get_foldl_put_of_mem hn⟩

theorem exists_get_foldl_put {k : κ} : ∀ {l : List (κ × ν)} {t : Table κ ν}, k ∈ l.map Prod.fst →
    ∃ v, (l.foldl (fun t (k, v) => t.put k v) t).get k = some v
  | [], _, h => by cases h
  | x :: rest, t, h => by
    by_cases hk : k ∈ rest.map Prod.fst
    · exact exists_get_foldl_put (l := rest) hk
    · obtain rfl : k = x.1 := by simpa [hk] using h
      exact ⟨x.2, by rw [List.foldl_cons, get_foldl_put_of_notMem hk, get_put, if_pos rfl]⟩

/-- A key of the list has a row. -/
theorem has_ofList {k : κ} {l : List (κ × ν)} (h : k ∈ l.map Prod.fst) : (ofList l).has k = true :=
  has_iff.2 (exists_get_foldl_put (t := .empty) h)

/-- A key whose entries all hold the same value. -/
theorem get_ofList_of_unique {k : κ} {v : ν} {l : List (κ × ν)} (hm : (k, v) ∈ l) (hu : ∀ v', (k, v') ∈ l → v' = v) :
    (ofList l).get k = some v := by
  obtain ⟨v', hget⟩ := has_iff.1 (has_ofList (List.mem_map_of_mem hm))
  rw [hget, hu v' (mem_of_get_ofList hget)]

/-! ## SELECT -/

/-- The rows that satisfy a condition. -/
def select (t : Table κ ν) (p : κ → ν → Bool) : List (κ × ν) := t.rows.filter fun (k, v) => p k v

theorem mem_select {t : Table κ ν} {p : κ → ν → Bool} {k : κ} {v : ν} :
    (k, v) ∈ t.select p ↔ t.get k = some v ∧ p k v = true := by
  simp [select, mem_rows]

/-- SELECT EXISTS ... WHERE. -/
def any (t : Table κ ν) (p : κ → ν → Bool) : Bool := t.rows.any fun (k, v) => p k v

theorem any_iff {t : Table κ ν} {p : κ → ν → Bool} :
    t.any p = true ↔ ∃ k v, t.get k = some v ∧ p k v = true := by
  simp only [any, List.any_eq_true, Prod.exists, mem_rows]

/-! ## Rows that two tables share -/

/-- The rows of `p` are the same in both tables: none is inserted, changed or deleted. -/
def Agree (p : κ → ν → Prop) (t t' : Table κ ν) : Prop := ∀ k v, p k v → (t.get k = some v ↔ t'.get k = some v)

section Agree

variable {p : κ → ν → Prop} {t t' : Table κ ν}

theorem Agree.refl (p : κ → ν → Prop) (t : Table κ ν) : Agree p t t := fun _ _ _ => Iff.rfl

theorem agree_keys {P : κ → Prop} : Agree (fun k _ => P k) t t' ↔ ∀ k, P k → t'.get k = t.get k := by
  constructor
  · intro h k hk
    apply Option.ext
    intro v
    exact (h k v hk).symm
  · intro h k v hk
    rw [h k hk]

/-- Rows that are mapped in place. -/
theorem agree_of_map {g : κ → ν → ν} (hg : ∀ k v, p k (g k v) ↔ p k v) (h : ∀ k, t'.get k = (t.get k).map (g k)) :
    Agree p t t' ↔ ∀ k v, t.get k = some v → p k v → g k v = v := by
  constructor
  · intro ha k v hv hp
    have hk := (ha k v hp).1 hv
    rw [h, hv] at hk
    exact Option.some.inj hk
  · intro hs k v hp
    rw [h, Option.map_eq_some_iff]
    constructor
    · exact fun hv => ⟨v, hv, hs k v hv hp⟩
    · rintro ⟨w, hw, rfl⟩
      rw [hs k w hw ((hg k w).1 hp)]
      exact hw

theorem agree_keys_of_map {P : κ → Prop} {g : κ → ν → ν} (h : ∀ k, t'.get k = (t.get k).map (g k)) :
    Agree (fun k _ => P k) t t' ↔ ∀ k v, t.get k = some v → P k → g k v = v :=
  agree_of_map (fun _ _ => Iff.rfl) h

theorem agree_update {P : κ → Prop} {q : κ → ν → Bool} {f : κ → ν → ν} :
    Agree (fun k _ => P k) t (t.update q f) ↔ ∀ k v, t.get k = some v → P k → q k v = true → f k v = v := by
  rw [agree_keys_of_map fun k => get_update t q f k]
  simp only [ite_eq_right_iff]

theorem agree_deleteWhere {q : κ → ν → Bool} :
    Agree p t (t.deleteWhere q) ↔ ∀ k v, t.get k = some v → p k v → q k v = false := by
  simp only [Agree, get_deleteWhere, Option.filter_eq_some_iff, Bool.not_eq_true', iff_self_and]
  exact ⟨fun h k v hv hp => h k v hp hv, fun h k v hp hv => h k v hv hp⟩

theorem agree_insertAll {P : κ → Prop} {ks : List κ} {v : ν} :
    Agree (fun k _ => P k) t (t.insertAll ks v) ↔ ∀ k ∈ ks, P k → t.has k = true := by
  rw [agree_keys]
  constructor
  · intro h k hk hp
    have hget := h k hp
    rw [get_insertAll, if_pos hk] at hget
    cases hn : t.get k with
    | none => simp [hn] at hget
    | some w => exact has_iff.2 ⟨w, hn⟩
  · intro h k hp
    rw [get_insertAll]
    by_cases hk : k ∈ ks
    · obtain ⟨w, hw⟩ := has_iff.1 (h k hk hp)
      rw [hw, Option.some_or]
    · rw [if_neg hk, Option.or_none]

theorem agree_putAll {P : κ → Prop} {ks : List κ} {v : ν} :
    Agree (fun k _ => P k) t (t.putAll ks v) ↔ ∀ k ∈ ks, P k → t.get k = some v := by
  rw [agree_keys]
  constructor
  · intro h k hk hp
    have hget := h k hp
    rw [get_putAll, if_pos hk] at hget
    exact hget.symm
  · intro h k hp
    rw [get_putAll]
    split
    · exact (h k ‹_› hp).symm
    · rfl

/-- A query about shared rows only. -/
theorem Agree.any_eq (h : Agree p t t') {q : κ → ν → Bool} (hq : ∀ k v, q k v = true → p k v) : t.any q = t'.any q := by
  rw [Bool.eq_iff_iff, any_iff, any_iff]
  constructor
  · rintro ⟨k, v, hv, hc⟩
    exact ⟨k, v, (h k v (hq k v hc)).1 hv, hc⟩
  · rintro ⟨k, v, hv, hc⟩
    exact ⟨k, v, (h k v (hq k v hc)).2 hv, hc⟩

/-- A table of keys only. -/
theorem agree_unit {P : κ → Prop} {t t' : Table κ Unit} :
    Agree (fun k _ => P k) t t' ↔ ∀ k, P k → t'.has k = t.has k := by
  have hget : ∀ t : Table κ Unit, ∀ k, t.has k = true ↔ t.get k = some () :=
    fun t k => has_iff.trans ⟨fun ⟨_, h⟩ => h, fun h => ⟨_, h⟩⟩
  constructor
  · intro h k hk
    rw [Bool.eq_iff_iff, hget, hget]
    exact (h k () hk).symm
  · intro h k v hk
    rw [← hget, ← hget, h k hk]

end Agree

end Table

end Relational
