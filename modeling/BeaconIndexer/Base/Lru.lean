/-
A cache of bounded size that forgets the least recently used key. A lookup that counts as a use
moves its key to the front; a peek does not. What the cache holds is described by `peek` alone.
-/
import BeaconIndexer.Base.Table

namespace Relational

/-- At most `capacity` keys, the most recently used first. -/
structure Lru (κ ν : Type) where
  table : Table κ ν
  capacity : Nat
  pos : 0 < capacity
  bounded : table.rows.length ≤ capacity

namespace Lru

variable {κ ν : Type}

/-- The empty cache. -/
def new (capacity : Nat) (pos : 0 < capacity) : Lru κ ν := ⟨.empty, capacity, pos, Nat.zero_le _⟩

def clear (c : Lru κ ν) : Lru κ ν := new c.capacity c.pos

variable [DecidableEq κ]

def peek (c : Lru κ ν) (k : κ) : Option ν := c.table.get k

/-- The key becomes the most recent one; past the capacity the last key is dropped. -/
def put (c : Lru κ ν) (k : κ) (v : ν) : Lru κ ν where
  table := {
    rows := ((k, v) :: c.table.rows.filter (·.1 ≠ k)).take c.capacity
    nodup := by
      refine ((List.take_sublist _ _).map _).nodup ?_
      rw [List.map_cons, List.nodup_cons]
      refine ⟨fun h => ?_, (List.filter_sublist.map _).nodup c.table.nodup⟩
      obtain ⟨r, hr, hk⟩ := List.mem_map.1 h
      exact (of_decide_eq_true (List.mem_filter.1 hr).2) hk }
  capacity := c.capacity
  pos := c.pos
  bounded := List.length_take_le ..

def get (c : Lru κ ν) (k : κ) : Option ν × Lru κ ν :=
  match c.peek k with
  | some v => (some v, c.put k v)
  | none => (none, c)

def pop (c : Lru κ ν) (k : κ) : Lru κ ν where
  table := c.table.deleteWhere fun k' _ => k' == k
  capacity := c.capacity
  pos := c.pos
  bounded := (List.length_filterMap_le ..).trans c.bounded

@[simp]
theorem peek_new (capacity : Nat) (pos : 0 < capacity) (k : κ) : (new capacity pos : Lru κ ν).peek k = none := rfl

@[simp]
theorem peek_clear (c : Lru κ ν) (k : κ) : c.clear.peek k = none := rfl

theorem peek_put_self (c : Lru κ ν) (k : κ) (v : ν) : (c.put k v).peek k = some v := by
  refine Table.mem_rows.1 ?_
  obtain ⟨n, hn⟩ := Nat.exists_eq_succ_of_ne_zero c.pos.ne'
  simp only [put, hn, List.take_succ_cons]
  exact List.mem_cons_self ..

/-- Whatever the cache holds after a write was written or held before; it may hold less. -/
theorem of_peek_put {c : Lru κ ν} {k x : κ} {v w : ν} (h : (c.put k v).peek x = some w) :
    (x = k ∧ w = v) ∨ (x ≠ k ∧ c.peek x = some w) := by
  have hmem : (x, w) ∈ (c.put k v).table.rows := Table.mem_rows.2 h
  rcases List.mem_cons.1 (List.mem_of_mem_take hmem) with h | h
  · exact .inl (Prod.mk.inj h)
  · obtain ⟨h, hne⟩ := List.mem_filter.1 h
    exact .inr ⟨of_decide_eq_true hne, Table.mem_rows.1 h⟩

@[simp]
theorem get_fst (c : Lru κ ν) (k : κ) : (c.get k).1 = c.peek k := by
  unfold get
  cases c.peek k <;> rfl

/-- Using a key drops nothing. -/
@[simp]
theorem peek_get (c : Lru κ ν) (k x : κ) : (c.get k).2.peek x = c.peek x := by
  unfold get
  cases hk : c.peek k with
  | none => rfl
  | some v =>
    have hmem : (k, v) ∈ c.table.rows := Table.mem_rows.2 hk
    have hlt : (c.table.rows.filter (·.1 ≠ k)).length < c.table.rows.length :=
      List.length_filter_lt_length_iff_exists.2 ⟨(k, v), hmem, by simp⟩
    have hrows : (c.put k v).table.rows = (k, v) :: c.table.rows.filter (·.1 ≠ k) := by
      refine List.take_of_length_le ?_
      have := c.bounded
      rw [List.length_cons]
      omega
    refine Option.ext fun w => ?_
    change (c.put k v).table.get x = some w ↔ c.table.get x = some w
    rw [← Table.mem_rows, ← Table.mem_rows, hrows, List.mem_cons, List.mem_filter, decide_eq_true_eq]
    constructor
    · rintro (h | ⟨h, -⟩)
      · exact h ▸ hmem
      · exact h
    · intro h
      by_cases hx : x = k
      · subst hx
        have hw : some w = some v := (Table.mem_rows.1 h).symm.trans (Table.mem_rows.1 hmem)
        exact .inl (by rw [Option.some.inj hw])
      · exact .inr ⟨h, hx⟩

theorem peek_pop_self (c : Lru κ ν) (k : κ) : (c.pop k).peek k = none := by
  change (c.table.deleteWhere fun k' _ => k' == k).get k = none
  rw [Table.get_deleteWhere]
  cases c.table.get k <;> simp [Option.filter]

end Lru

end Relational
