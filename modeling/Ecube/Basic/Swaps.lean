import Mathlib.Data.List.Basic
import Mathlib.Data.List.Range

/-!
Lists whose elements are swapped in place.

`separate` is one pass that swaps an element that equals the one before it with the first later
one that does not. `separated_separate`: equal neighbours are left only where nothing else follows.
-/

namespace Ecube.Swaps

variable {α : Type}

/-- `l[i], l[j] = l[j], l[i]`. -/
def swap (l : List α) (i j : Nat) : List α :=
  match l[i]?, l[j]? with
  | some a, some b => (l.set i b).set j a
  | _, _ => l

theorem swap_perm (l : List α) (i j : Nat) : (swap l i j).Perm l := by
  rw [swap]
  split
  next a b first second =>
    obtain ⟨hi, rfl⟩ := List.getElem?_eq_some_iff.mp first
    obtain ⟨hj, rfl⟩ := List.getElem?_eq_some_iff.mp second
    exact List.set_set_perm hi hj
  next => exact .refl l

@[simp] theorem length_swap (l : List α) (i j : Nat) : (swap l i j).length = l.length :=
  (swap_perm l i j).length_eq

theorem getElem?_swap {l : List α} {i j : Nat} (hi : i < l.length) (hj : j < l.length) (k : Nat) :
    (swap l i j)[k]? = if k = j then l[i]? else if k = i then l[j]? else l[k]? := by
  have first : l[i]? = some l[i] := List.getElem?_eq_getElem hi
  have second : l[j]? = some l[j] := List.getElem?_eq_getElem hj
  rw [swap, first, second]
  simp only [List.getElem?_set, List.length_set]
  split
  next same =>
    subst same
    rw [if_pos rfl]
  next other =>
    rw [if_neg (Ne.symm other)]
    split
    next same =>
      subst same
      rw [if_pos rfl]
    next other => rw [if_neg (Ne.symm other)]

/-! ### Separating neighbours -/

variable [DecidableEq α]

/-- The element at an index is swapped with the first later one that differs from the one
before, if it equals that one. -/
def separateAt (l : List α) (index : Nat) : List α :=
  if l[index]? = l[index - 1]? then
    match (List.range' (index + 1) (l.length - (index + 1))).find?
        fun j => l[j]? ≠ l[index - 1]? with
    | some j => swap l index j
    | none => l
  else l

def separate (l : List α) : List α := (List.range' 1 (l.length - 1)).foldl separateAt l

/-- Among the first neighbours, equal ones are followed by nothing else. -/
def Separated (n : Nat) (l : List α) : Prop :=
  ∀ k < n, l[k + 1]? = l[k]? → ∀ j, k ≤ j → j < l.length → l[j]? = l[k]?

theorem separateAt_perm (l : List α) (index : Nat) : (separateAt l index).Perm l := by
  rw [separateAt]
  split
  · split
    · exact swap_perm l _ _
    · exact .refl l
  · exact .refl l

theorem separated_separateAt {n : Nat} {l : List α} (inside : n + 1 < l.length)
    (before : Separated n l) : Separated (n + 1) (separateAt l (n + 1)) := by
  rw [separateAt, Nat.add_sub_cancel]
  split
  next equal =>
    split
    next j found =>
      have differs : l[j]? ≠ l[n]? := by simpa using List.find?_some found
      have later := List.mem_range'_1.mp (List.mem_of_find?_eq_some found)
      have hj : j < l.length := by omega
      -- Everything up to the neighbour is as before, and there the two differ now.
      have same : ∀ k ≤ n, (swap l (n + 1) j)[k]? = l[k]? := by
        intro k le
        rw [getElem?_swap inside hj, if_neg (by omega), if_neg (by omega)]
      intro k lt neighbours
      rcases Nat.lt_succ_iff_lt_or_eq.mp lt with earlier | rfl
      · rw [same (k + 1) (by omega), same k (by omega)] at neighbours
        have all := before k earlier neighbours
        exact absurd ((all j (by omega) hj).trans (all n (by omega) (by omega)).symm) differs
      · rw [getElem?_swap inside hj, if_neg (by omega), if_pos rfl, same k (Nat.le_refl k)]
          at neighbours
        exact absurd neighbours differs
    next none =>
      intro k lt neighbours
      rcases Nat.lt_succ_iff_lt_or_eq.mp lt with earlier | rfl
      · exact before k earlier neighbours
      · intro j le lt
        rcases Nat.lt_or_ge (k + 1) j with later | near
        · have listed : j ∈ List.range' (k + 1 + 1) (l.length - (k + 1 + 1)) :=
            List.mem_range'_1.mpr (by omega)
          simpa using List.find?_eq_none.mp none j listed
        · rcases Nat.lt_succ_iff_lt_or_eq.mp (Nat.lt_succ_of_le near) with first | rfl
          · obtain rfl : j = k := by omega
            rfl
          · exact equal
  next differs =>
    intro k lt neighbours
    rcases Nat.lt_succ_iff_lt_or_eq.mp lt with earlier | rfl
    · exact before k earlier neighbours
    · exact absurd neighbours differs

theorem foldl_separateAt (l : List α) {n : Nat} (inside : n < l.length ∨ n = 0) :
    ((List.range' 1 n).foldl separateAt l).Perm l ∧
      Separated n ((List.range' 1 n).foldl separateAt l) := by
  induction n with
  | zero => exact ⟨.refl l, fun k lt => absurd lt (Nat.not_lt_zero k)⟩
  | succ n ih =>
      obtain ⟨perm, separated⟩ := ih (by omega)
      rw [List.range'_1_concat, List.foldl_concat, Nat.add_comm 1 n]
      refine ⟨(separateAt_perm _ _).trans perm, separated_separateAt ?_ separated⟩
      rw [perm.length_eq]
      omega

theorem separate_perm (l : List α) : (separate l).Perm l :=
  (foldl_separateAt l (by omega)).1

/-- A run of equal elements that something else follows is not longer than one. -/
theorem length_le_of_separate {l front run back : List α} (split : separate l = front ++ run ++ back)
    (equal : run.IsChain (· = ·)) {c : α} (mem : c ∈ back) (other : c ∉ run) : run.length ≤ 1 := by
  match run, equal with
  | [], _ => exact Nat.zero_le 1
  | [_], _ => exact Nat.le_refl 1
  | a :: b :: rest, .cons_cons same _ =>
      subst same
      obtain ⟨before, behind, rfl⟩ := List.append_of_mem mem
      have first : (separate l)[front.length]? = some a := by simp [split]
      have second : (separate l)[front.length + 1]? = some a := by simp [split]
      have last : (separate l)[(front ++ a :: a :: rest ++ before).length]? = some c := by
        rw [split, ← List.append_assoc, List.getElem?_append_right (Nat.le_refl _), Nat.sub_self]
        rfl
      have later : front.length + 1 < (front ++ a :: a :: rest ++ before).length := by
        simp only [List.length_append, List.length_cons]
        omega
      have inside := (List.getElem?_eq_some_iff.mp last).1
      have separated := (foldl_separateAt l (n := l.length - 1) (by omega)).2
      rw [← separate] at separated
      have bound : front.length < l.length - 1 := by
        rw [(separate_perm l).length_eq] at inside
        omega
      have all := separated front.length bound (second.trans first.symm) _ (by omega) inside
      rw [last, first] at all
      exact absurd (Option.some.inj all ▸ List.mem_cons_self) other

end Ecube.Swaps
