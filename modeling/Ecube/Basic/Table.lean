import Mathlib.Data.List.Basic
import Mathlib.Data.List.Nodup
import Mathlib.Data.List.Sort

/-!
Database tables with a serial primary key.

A table is a list of rows whose keys are pairwise distinct and do not exceed
the key sequence, so a key names at most one row and the next key is always
free. The operations are the statements a service issues: `get` (SELECT by
key), `select` and `first` (SELECT with a condition and an order), `any`
(EXISTS), `update` and `modify` (UPDATE), `insert` and `insertAt` (INSERT with
the next or with a chosen key) and `delete` (DELETE). An update may not change
keys and a new row must take the key it is given; both carry the proof.

The `mem_...` lemmas say which rows a table has after each write.
-/

namespace Ecube

/-- Rows with a numeric primary key. -/
class Row (ρ : Type) where
  id : ρ → Nat

/-- Rows with pairwise distinct keys up to the last value of the key sequence. -/
structure Table (ρ : Type) [Row ρ] where
  rows : List ρ
  seq : Nat
  nodup : (rows.map Row.id).Nodup
  bounded : ∀ r ∈ rows, Row.id r ≤ seq

namespace Table

variable {ρ : Type} [Row ρ]

instance : Membership ρ (Table ρ) := ⟨fun t r => r ∈ t.rows⟩

instance decidableBAll (t : Table ρ) (P : ρ → Prop) [∀ r, Decidable (P r)] :
    Decidable (∀ r ∈ t, P r) :=
  List.decidableBAll P t.rows

instance decidableBEx (t : Table ρ) (P : ρ → Prop) [∀ r, Decidable (P r)] :
    Decidable (∃ r ∈ t, P r) :=
  List.decidableBEx P t.rows

def empty : Table ρ := ⟨[], 0, List.nodup_nil, by simp⟩

/-- SELECT by primary key. -/
def get (t : Table ρ) (k : Nat) : Option ρ :=
  t.rows.find? fun r => Row.id r = k

/-- UPDATE the rows that meet `p`. -/
def update (t : Table ρ) (p : ρ → Bool) (f : ρ → ρ) (key : ∀ r, Row.id (f r) = Row.id r) :
    Table ρ where
  rows := t.rows.map fun r => if p r then f r else r
  seq := t.seq
  nodup := by
    have same : (t.rows.map fun r => if p r then f r else r).map Row.id = t.rows.map Row.id := by
      rw [List.map_map]
      apply List.map_congr_left
      intro r _
      simp only [Function.comp]
      split <;> simp [key]
    rw [same]
    exact t.nodup
  bounded := by
    intro r hr
    obtain ⟨r₀, mem, rfl⟩ := List.mem_map.mp hr
    split
    · rw [key]; exact t.bounded r₀ mem
    · exact t.bounded r₀ mem

/-- UPDATE the row with key `k`. -/
def modify (t : Table ρ) (k : Nat) (f : ρ → ρ) (key : ∀ r, Row.id (f r) = Row.id r) : Table ρ :=
  t.update (fun r => Row.id r = k) f key

/-- INSERT a row with the next key of the sequence. -/
def insert (t : Table ρ) (mk : Nat → ρ) (key : ∀ k, Row.id (mk k) = k) : Table ρ where
  rows := t.rows ++ [mk (t.seq + 1)]
  seq := t.seq + 1
  nodup := by
    rw [List.map_append, List.map_singleton, key]
    refine List.nodup_append.mpr ⟨t.nodup, List.nodup_singleton _, ?_⟩
    rintro a ha b hb rfl
    obtain ⟨r, mem, rfl⟩ := List.mem_map.mp ha
    have := t.bounded r mem
    rw [List.mem_singleton.mp hb] at this
    omega
  bounded := by
    intro r hr
    rcases List.mem_append.mp hr with mem | mem
    · have := t.bounded r mem
      omega
    · rw [List.mem_singleton.mp mem, key]

/-- The largest key in use, as `COALESCE(MAX(id), 1)`. -/
def maxKey (rows : List ρ) : Nat := (rows.map Row.id).foldr max 1

theorem le_maxKey {rows : List ρ} {r : ρ} (h : r ∈ rows) : Row.id r ≤ maxKey rows := by
  induction rows with
  | nil => exact absurd h List.not_mem_nil
  | cons a rows ih =>
      rw [maxKey, List.map_cons, List.foldr_cons, ← maxKey]
      rcases List.mem_cons.mp h with rfl | h
      · omega
      · have := ih h
        omega

/-- INSERT a row with a chosen free key and set the sequence to the largest key. -/
def insertAt (t : Table ρ) (r : ρ) (free : t.get (Row.id r) = none) : Table ρ where
  rows := t.rows ++ [r]
  seq := maxKey (t.rows ++ [r])
  nodup := by
    rw [List.map_append, List.map_singleton]
    refine List.nodup_append.mpr ⟨t.nodup, List.nodup_singleton _, ?_⟩
    rintro a ha b hb rfl
    obtain ⟨r', mem, rfl⟩ := List.mem_map.mp ha
    have := List.find?_eq_none.mp free r' mem
    simp [List.mem_singleton.mp hb] at this
  bounded := fun _ => le_maxKey

/-- DELETE the rows that meet `p`. -/
def delete (t : Table ρ) (p : ρ → Bool) : Table ρ where
  rows := t.rows.filter fun r => !p r
  seq := t.seq
  nodup := t.nodup.sublist (List.filter_sublist.map _)
  bounded := fun r hr => t.bounded r (List.mem_filter.mp hr).1

/-- SELECT the rows that meet `p`, ordered by `le`. -/
def select (t : Table ρ) (p : ρ → Bool) (le : ρ → ρ → Bool) : List ρ :=
  (t.rows.filter p).insertionSort fun a b => le a b

/-- SELECT ... LIMIT 1. -/
def first (t : Table ρ) (p : ρ → Bool) (le : ρ → ρ → Bool) : Option ρ :=
  (t.select p le).head?

/-- Whether some row meets `p`. -/
def any (t : Table ρ) (p : ρ → Bool) : Bool := t.rows.any p

/-! ### Reading -/

theorem eq_of_rows_eq {t u : Table ρ} (rows : t.rows = u.rows) (seq : t.seq = u.seq) : t = u := by
  cases t
  cases u
  cases rows
  cases seq
  rfl

theorem eq_of_id_eq {t : Table ρ} {a b : ρ} (ha : a ∈ t) (hb : b ∈ t) (h : Row.id a = Row.id b) :
    a = b :=
  List.inj_on_of_nodup_map t.nodup ha hb h

theorem get_eq_some_iff {t : Table ρ} {k : Nat} {r : ρ} :
    t.get k = some r ↔ r ∈ t ∧ Row.id r = k := by
  constructor
  · intro h
    exact ⟨List.mem_of_find?_eq_some h, by simpa using List.find?_some h⟩
  · rintro ⟨mem, rfl⟩
    cases found : t.get (Row.id r) with
    | none => exact absurd (List.find?_eq_none.mp found r mem) (by simp)
    | some r' =>
        have key : Row.id r' = Row.id r := by simpa using List.find?_some found
        rw [eq_of_id_eq (List.mem_of_find?_eq_some found) mem key]

theorem mem_of_get {t : Table ρ} {k : Nat} {r : ρ} (h : t.get k = some r) : r ∈ t :=
  (get_eq_some_iff.mp h).1

theorem id_of_get {t : Table ρ} {k : Nat} {r : ρ} (h : t.get k = some r) : Row.id r = k :=
  (get_eq_some_iff.mp h).2

/-- A row with the key that was looked up is the row that was found. -/
theorem eq_of_get {t : Table ρ} {k : Nat} {r r' : ρ} (h : t.get k = some r) (mem : r' ∈ t)
    (key : Row.id r' = k) : r' = r :=
  eq_of_id_eq mem (mem_of_get h) (key.trans (id_of_get h).symm)

theorem get_eq_none_iff {t : Table ρ} {k : Nat} :
    t.get k = none ↔ ∀ r ∈ t, Row.id r ≠ k := by
  rw [get, List.find?_eq_none]
  simp [Membership.mem]

theorem get_congr {t u : Table ρ} {k : Nat} (same : ∀ r, Row.id r = k → (r ∈ t ↔ r ∈ u)) :
    t.get k = u.get k := by
  refine Option.ext fun r => ?_
  rw [get_eq_some_iff, get_eq_some_iff]
  exact and_congr_left (same r)

theorem mem_select {t : Table ρ} {p : ρ → Bool} {le : ρ → ρ → Bool} {r : ρ} :
    r ∈ t.select p le ↔ r ∈ t ∧ p r = true := by
  rw [select, List.mem_insertionSort, List.mem_filter]
  rfl

/-- A selection in the order of the keys lists each key once. -/
theorem pairwise_select_id (t : Table ρ) (p : ρ → Bool) :
    ((t.select p fun a b => Row.id a ≤ Row.id b).map Row.id).Pairwise (· < ·) := by
  let le : ρ → ρ → Prop := fun a b => decide (Row.id a ≤ Row.id b) = true
  have total : Std.Total le := ⟨fun a b => by simpa [le] using Nat.le_total (Row.id a) (Row.id b)⟩
  have trans : IsTrans ρ le := ⟨fun a b c hab hbc => by simp only [le, decide_eq_true_eq] at *; omega⟩
  have ordered := List.pairwise_insertionSort le (t.rows.filter p)
  have distinct : ((t.select p fun a b => Row.id a ≤ Row.id b).map Row.id).Nodup := by
    refine ((List.perm_insertionSort _ _).map Row.id).nodup_iff.mpr ?_
    exact t.nodup.sublist (List.filter_sublist.map _)
  rw [List.nodup_iff_pairwise_ne, List.pairwise_map] at distinct
  rw [List.pairwise_map]
  refine (ordered.and distinct).imp fun h => ?_
  have := of_decide_eq_true h.1
  omega

theorem mem_of_first {t : Table ρ} {p : ρ → Bool} {le : ρ → ρ → Bool} {r : ρ}
    (h : t.first p le = some r) : r ∈ t ∧ p r = true :=
  mem_select.mp (List.mem_of_head? h)

theorem first_eq_none_iff {t : Table ρ} {p : ρ → Bool} {le : ρ → ρ → Bool} :
    t.first p le = none ↔ ∀ r ∈ t, p r = false := by
  rw [first, List.head?_eq_none_iff, List.eq_nil_iff_forall_not_mem]
  simp only [mem_select, not_and, Bool.not_eq_true]

/-- When only one row meets the condition, it is the one a LIMIT 1 query returns. -/
theorem first_eq_some_of_unique {t : Table ρ} {p : ρ → Bool} {le : ρ → ρ → Bool} {r : ρ}
    (mem : r ∈ t) (hp : p r = true) (unique : ∀ r' ∈ t, p r' = true → r' = r) :
    t.first p le = some r := by
  cases h : t.first p le with
  | none => exact absurd (first_eq_none_iff.mp h r mem) (by simp [hp])
  | some r' => rw [unique r' (mem_of_first h).1 (mem_of_first h).2]

theorem any_eq_true_iff {t : Table ρ} {p : ρ → Bool} : t.any p = true ↔ ∃ r ∈ t, p r = true :=
  List.any_eq_true

theorem any_eq_false_iff {t : Table ρ} {p : ρ → Bool} :
    t.any p = false ↔ ∀ r ∈ t, p r = false := by
  rw [any, List.any_eq_false]
  simp only [Bool.not_eq_true]
  rfl

/-! ### Writing -/

/-- The rows that meet `q` after an update, as rows that met `p` before it. -/
theorem filter_map_eq {α β : Type} {l : List α} {g h : α → β} {p : α → Bool} {q : β → Bool}
    (meets : ∀ r ∈ l, q (g r) = p r) (same : ∀ r ∈ l, p r = true → g r = h r) :
    (l.map g).filter q = (l.filter p).map h := by
  have before : l.filter (q ∘ g) = l.filter p := List.filter_congr meets
  rw [List.filter_map, before]
  apply List.map_congr_left
  intro r hr
  obtain ⟨mem, hp⟩ := List.mem_filter.mp hr
  exact same r mem hp

theorem mem_update {t : Table ρ} {p : ρ → Bool} {f : ρ → ρ}
    (key : ∀ r, Row.id (f r) = Row.id r) {r : ρ} :
    r ∈ t.update p f key ↔ ∃ r₀ ∈ t, (if p r₀ then f r₀ else r₀) = r :=
  List.mem_map

theorem mem_modify {t : Table ρ} {k : Nat} {f : ρ → ρ} (key : ∀ r, Row.id (f r) = Row.id r)
    {r : ρ} :
    r ∈ t.modify k f key ↔
      (r ∈ t ∧ Row.id r ≠ k) ∨ ∃ r₀ ∈ t, Row.id r₀ = k ∧ r = f r₀ := by
  rw [modify, mem_update key]
  constructor
  · rintro ⟨r₀, mem, rfl⟩
    by_cases h : Row.id r₀ = k
    · exact .inr ⟨r₀, mem, h, by simp [h]⟩
    · rw [if_neg (by simpa using h)]
      exact .inl ⟨mem, h⟩
  · rintro (⟨mem, ne⟩ | ⟨r₀, mem, h, rfl⟩)
    · exact ⟨r, mem, by simp [ne]⟩
    · exact ⟨r₀, mem, by simp [h]⟩

/-- The updated row. -/
theorem apply_mem_modify {t : Table ρ} {k : Nat} {f : ρ → ρ}
    (key : ∀ r, Row.id (f r) = Row.id r) {r : ρ} (mem : r ∈ t) (h : Row.id r = k) :
    f r ∈ t.modify k f key :=
  (mem_modify key).mpr (.inr ⟨r, mem, h, rfl⟩)

/-- Any other row. -/
theorem mem_modify_of_ne {t : Table ρ} {k : Nat} {f : ρ → ρ}
    (key : ∀ r, Row.id (f r) = Row.id r) {r : ρ} (mem : r ∈ t) (h : Row.id r ≠ k) :
    r ∈ t.modify k f key :=
  (mem_modify key).mpr (.inl ⟨mem, h⟩)

theorem mem_insert {t : Table ρ} {mk : Nat → ρ} (key : ∀ k, Row.id (mk k) = k) {r : ρ} :
    r ∈ t.insert mk key ↔ r ∈ t ∨ r = mk (t.seq + 1) := by
  change r ∈ t.rows ++ [mk (t.seq + 1)] ↔ _
  rw [List.mem_append, List.mem_singleton]
  rfl

theorem mem_insertAt {t : Table ρ} {r' : ρ} (free : t.get (Row.id r') = none) {r : ρ} :
    r ∈ t.insertAt r' free ↔ r ∈ t ∨ r = r' := by
  change r ∈ t.rows ++ [r'] ↔ _
  rw [List.mem_append, List.mem_singleton]
  rfl

theorem mem_delete {t : Table ρ} {p : ρ → Bool} {r : ρ} :
    r ∈ t.delete p ↔ r ∈ t ∧ p r = false := by
  change r ∈ t.rows.filter _ ↔ _
  rw [List.mem_filter, Bool.not_eq_true']
  rfl

/-- No row has a key beyond the sequence. -/
theorem ne_next {t : Table ρ} {r : ρ} (mem : r ∈ t) : Row.id r ≠ t.seq + 1 := by
  have := t.bounded r mem
  omega

theorem get_modify_self {t : Table ρ} {k : Nat} {f : ρ → ρ} (key : ∀ r, Row.id (f r) = Row.id r)
    {r : ρ} (h : t.get k = some r) : (t.modify k f key).get k = some (f r) :=
  get_eq_some_iff.mpr
    ⟨apply_mem_modify key (mem_of_get h) (id_of_get h), (key r).trans (id_of_get h)⟩

theorem get_modify_of_ne {t : Table ρ} {k k' : Nat} {f : ρ → ρ}
    (key : ∀ r, Row.id (f r) = Row.id r) (ne : k' ≠ k) :
    (t.modify k f key).get k' = t.get k' := by
  cases h : t.get k' with
  | none =>
      rw [get_eq_none_iff] at h ⊢
      intro r mem
      rcases (mem_modify key).mp mem with ⟨mem, -⟩ | ⟨r₀, -, h₀, rfl⟩
      · exact h r mem
      · rw [key, h₀]
        exact ne.symm
  | some r =>
      have other : Row.id r ≠ k := by
        rw [id_of_get h]
        exact ne
      exact get_eq_some_iff.mpr ⟨mem_modify_of_ne key (mem_of_get h) other, id_of_get h⟩

theorem get_modify {t : Table ρ} {k : Nat} {f : ρ → ρ} (key : ∀ r, Row.id (f r) = Row.id r) :
    (t.modify k f key).get k = (t.get k).map f := by
  cases found : t.get k with
  | some r => exact get_modify_self key found
  | none =>
      rw [Option.map_none]
      rw [get_eq_none_iff] at found ⊢
      intro r mem
      rcases (mem_modify key).mp mem with ⟨-, other⟩ | ⟨r₀, mem₀, h₀, -⟩
      · exact other
      · exact absurd h₀ (found r₀ mem₀)

/-- An update that leaves the row as it is. -/
theorem modify_eq_self {t : Table ρ} {k : Nat} {f : ρ → ρ} (key : ∀ r, Row.id (f r) = Row.id r)
    (same : ∀ r ∈ t, Row.id r = k → f r = r) : t.modify k f key = t := by
  refine eq_of_rows_eq ?_ rfl
  conv_rhs => rw [← List.map_id t.rows]
  apply List.map_congr_left
  intro r mem
  by_cases hit : Row.id r = k
  · rw [if_pos (by simpa using hit), same r mem hit]
    rfl
  · rw [if_neg (by simpa using hit)]
    rfl

/-- A column that an update leaves alone reads the same afterwards. -/
theorem get_modify_bind {α : Type} {t : Table ρ} {k k' : Nat} {f : ρ → ρ}
    (key : ∀ r, Row.id (f r) = Row.id r) {column : ρ → Option α}
    (same : ∀ r, column (f r) = column r) :
    ((t.modify k f key).get k').bind column = (t.get k').bind column := by
  by_cases h : k' = k
  · subst h
    rw [get_modify key, Option.bind_map]
    congr 1
    funext r
    exact same r
  · rw [get_modify_of_ne key h]

end Table

end Ecube
