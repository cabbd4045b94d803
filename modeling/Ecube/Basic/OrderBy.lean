import Ecube.Basic.Table

/-!
Rows in the order of a key (`ORDER BY`, `sorted` with a key).

Where the key tells the rows apart, the order is the only sorted one. A query
for more rows, filtered afterwards, then returns what a query for the fewer rows
returns (`filter_select`).
-/

namespace Ecube.OrderBy

variable {α κ : Type}

/-- The key tells the rows apart. -/
def KeyedBy (key : α → κ) (rows : List α) : Prop := ∀ a ∈ rows, ∀ b ∈ rows, key a = key b → a = b

theorem KeyedBy.filter {key : α → κ} {rows : List α} (keyed : KeyedBy key rows) (p : α → Bool) :
    KeyedBy key (rows.filter p) :=
  fun a ha b hb => keyed a (List.mem_of_mem_filter ha) b (List.mem_of_mem_filter hb)

variable [LinearOrder κ]

def byKey (key : α → κ) (a b : α) : Bool := key a ≤ key b

def orderBy (key : α → κ) (rows : List α) : List α := rows.insertionSort fun a b => byKey key a b

variable {key : α → κ} {rows : List α}

theorem mem_orderBy {a : α} : a ∈ orderBy key rows ↔ a ∈ rows := List.mem_insertionSort _

theorem perm_orderBy : (orderBy key rows).Perm rows := List.perm_insertionSort _ _

theorem pairwise_orderBy : (orderBy key rows).Pairwise fun a b => byKey key a b := by
  have : IsTrans α fun a b => byKey key a b :=
    ⟨fun a b c ab bc =>
      by simpa [byKey] using le_trans (of_decide_eq_true ab) (of_decide_eq_true bc)⟩
  have : Std.Total fun a b : α => byKey key a b := ⟨fun a b => by simpa [byKey] using le_total _ _⟩
  exact List.pairwise_insertionSort _ _

theorem filter_orderBy (keyed : KeyedBy key rows) (p : α → Bool) :
    (orderBy key rows).filter p = orderBy key (rows.filter p) := by
  have same : ((orderBy key rows).filter p).Perm (orderBy key (rows.filter p)) :=
    (perm_orderBy.filter p).trans perm_orderBy.symm
  refine same.eq_of_pairwise (fun a b ha hb le ge => ?_) (pairwise_orderBy.filter p)
    pairwise_orderBy
  have ha := mem_orderBy.mp (List.mem_of_mem_filter ha)
  have hb := List.mem_of_mem_filter (mem_orderBy.mp hb)
  exact keyed a ha b hb (le_antisymm (of_decide_eq_true le) (of_decide_eq_true ge))

/-- Keys that compare the rows in the same way give the same order. -/
theorem orderBy_congr {κ' : Type} [LinearOrder κ'] {key' : α → κ'} (keyed : KeyedBy key rows)
    (same : ∀ a ∈ rows, ∀ b ∈ rows, (key a ≤ key b ↔ key' a ≤ key' b)) :
    orderBy key rows = orderBy key' rows := by
  have perm : (orderBy key rows).Perm (orderBy key' rows) := perm_orderBy.trans perm_orderBy.symm
  have sorted : (orderBy key' rows).Pairwise fun a b => byKey key a b :=
    pairwise_orderBy.imp_of_mem fun ha hb le =>
      decide_eq_true ((same _ (mem_orderBy.mp ha) _ (mem_orderBy.mp hb)).mpr (of_decide_eq_true le))
  refine perm.eq_of_pairwise (fun a b ha hb le ge => ?_) pairwise_orderBy sorted
  exact keyed a (mem_orderBy.mp ha) b (mem_orderBy.mp hb)
    (le_antisymm (of_decide_eq_true le) (of_decide_eq_true ge))

/-- A row with the largest key comes last. -/
theorem orderBy_concat {a : α} (keyed : KeyedBy key (rows ++ [a])) (last : ∀ b ∈ rows, key b ≤ key a) :
    orderBy key (rows ++ [a]) = orderBy key rows ++ [a] := by
  have same : (orderBy key (rows ++ [a])).Perm (orderBy key rows ++ [a]) :=
    perm_orderBy.trans (perm_orderBy.symm.append_right [a])
  refine same.eq_of_pairwise (fun b c hb hc le ge => ?_) pairwise_orderBy ?_
  · have hc := (perm_orderBy.append_right [a]).mem_iff.mp hc
    exact keyed b (mem_orderBy.mp hb) c hc
      (le_antisymm (of_decide_eq_true le) (of_decide_eq_true ge))
  · refine List.pairwise_append.mpr ⟨pairwise_orderBy, List.pairwise_singleton _ _, ?_⟩
    intro b hb c hc
    rw [List.mem_singleton.mp hc]
    exact decide_eq_true (last b (mem_orderBy.mp hb))

/-- The last row of a sorted list has the largest key. -/
theorem key_le_of_getLast? {l : List α} (sorted : l.Pairwise fun a b => byKey key a b) {a last : α}
    (final : l.getLast? = some last) (mem : a ∈ l) : key a ≤ key last := by
  obtain ⟨front, rfl⟩ := List.getLast?_eq_some_iff.mp final
  rcases List.mem_append.mp mem with earlier | same
  · exact of_decide_eq_true
      ((List.pairwise_append.mp sorted).2.2 a earlier last (List.mem_singleton_self last))
  · exact le_of_eq (congrArg key (List.mem_singleton.mp same))

section Select

variable {ρ : Type} [Row ρ] {t : Table ρ} {key : ρ → κ}

theorem filter_select (keyed : KeyedBy key t.rows) (p q : ρ → Bool) :
    (t.select p (byKey key)).filter q = t.select (fun r => p r && q r) (byKey key) := by
  rw [Table.select, Table.select]
  refine (filter_orderBy (keyed.filter p) q).trans ?_
  rw [List.filter_filter]
  congr 2
  funext r
  exact Bool.and_comm _ _

theorem select_congr {p q : ρ → Bool} (same : ∀ r ∈ t, p r = q r) :
    t.select p (byKey key) = t.select q (byKey key) := by
  rw [Table.select, Table.select, List.filter_congr same]

/-- An inserted row that is not selected. -/
theorem select_insert_of_not {p : ρ → Bool} {mk : Nat → ρ} (row : ∀ k, Row.id (mk k) = k)
    (no : p (mk (t.seq + 1)) = false) :
    (t.insert mk row).select p (byKey key) = t.select p (byKey key) := by
  rw [Table.select, Table.select, Table.insert, List.filter_append, List.filter_singleton, no]
  exact congrArg (orderBy key) (List.append_nil _)

/-- An inserted row that is selected, in the order of the keys of the table. -/
theorem select_insert {p : ρ → Bool} {mk : Nat → ρ} (row : ∀ k, Row.id (mk k) = k)
    (yes : p (mk (t.seq + 1)) = true) :
    (t.insert mk row).select p (byKey Row.id) = t.select p (byKey Row.id) ++ [mk (t.seq + 1)] := by
  have rows : (t.insert mk row).rows.filter p = t.rows.filter p ++ [mk (t.seq + 1)] := by
    rw [Table.insert, List.filter_append, List.filter_singleton, yes]
    rfl
  rw [Table.select, Table.select, rows]
  refine orderBy_concat (fun a ha b hb same => ?_) fun b hb => ?_
  · rw [← rows] at ha hb
    exact Table.eq_of_id_eq (List.mem_of_mem_filter ha) (List.mem_of_mem_filter hb) same
  · rw [row]
    exact (t.bounded b (List.mem_of_mem_filter hb)).trans (Nat.le_succ _)

theorem pairwise_select {p : ρ → Bool} :
    (t.select p (byKey key)).Pairwise fun a b => byKey key a b :=
  pairwise_orderBy

end Select

end Ecube.OrderBy
