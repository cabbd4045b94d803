import Mathlib.Algebra.GroupWithZero.Nat
import Ecube.Basic.Chunks

/-!
A buffer that is emptied at a threshold.

Pieces are added to the buffer one by one; with each comes whether emptying the buffer
would succeed then. The buffer is emptied after a piece with which it holds the
threshold, and otherwise kept.

* `leftover_eq_total_iff`: nothing has been emptied.
* `leftover_eq_zero_iff`: nothing is left just if the pieces divide into runs that end
  with the first successful emptying.
* `leftover_chunks_eq_zero_iff`: for the chunks of a text, and emptying that always
  succeeds, this is a condition on the length of the text alone.
-/

namespace Ecube.ThresholdBuffer

open Chunks

/-- A piece: its length, and whether the buffer can be emptied after it. -/
abbrev Piece := Nat × Bool

def total (pieces : List Piece) : Nat := (pieces.map Prod.fst).sum

/-- What the buffer holds after the pieces, from what it holds before. -/
def leftover (t : Nat) : Nat → List Piece → Nat
  | held, [] => held
  | held, (n, saved) :: rest =>
      if t ≤ held + n ∧ saved = true then leftover t 0 rest else leftover t (held + n) rest

variable {t held n c : Nat} {saved : Bool} {pieces run rest : List Piece}

@[simp] theorem total_nil : total [] = 0 := rfl

@[simp] theorem total_cons : total ((n, saved) :: rest) = n + total rest := by
  rw [total, List.map_cons, List.sum_cons, total]

theorem leftover_of_emptied (enough : t ≤ held + n) :
    leftover t held ((n, true) :: rest) = leftover t 0 rest := by
  rw [leftover, if_pos ⟨enough, rfl⟩]

theorem leftover_of_kept (kept : t ≤ held + n → saved = false) :
    leftover t held ((n, saved) :: rest) = leftover t (held + n) rest := by
  rw [leftover, if_neg]
  rintro ⟨enough, succeeds⟩
  rw [kept enough] at succeeds
  cases succeeds

theorem leftover_le (t held : Nat) (pieces : List Piece) :
    leftover t held pieces ≤ held + total pieces := by
  induction pieces generalizing held with
  | nil => exact Nat.le_refl _
  | cons piece rest ih =>
      obtain ⟨n, saved⟩ := piece
      rw [leftover, total_cons]
      split
      · have := ih 0
        omega
      · have := ih (held + n)
        omega

/-! ### Nothing emptied -/

/-- No emptying at or above the threshold succeeds. -/
def NeverEmptied (t : Nat) : Nat → List Piece → Prop
  | _, [] => True
  | held, (n, saved) :: rest =>
      (t ≤ held + n → saved = false) ∧ NeverEmptied t (held + n) rest

theorem neverEmptied_iff : NeverEmptied t held pieces ↔
    ∀ i, ∀ piece ∈ pieces[i]?, t ≤ held + total (pieces.take (i + 1)) → piece.2 = false := by
  induction pieces generalizing held with
  | nil => simp [NeverEmptied]
  | cons piece rest ih =>
      obtain ⟨n, saved⟩ := piece
      rw [NeverEmptied, ih]
      constructor
      · rintro ⟨first, later⟩ i piece found enough
        cases i with
        | zero =>
            cases found
            exact first (by simpa using enough)
        | succ i =>
            rw [List.take_succ_cons, total_cons, ← Nat.add_assoc] at enough
            exact later i piece (by simpa using found) enough
      · intro each
        constructor
        · intro enough
          exact each 0 (n, saved) rfl (by simpa using enough)
        · intro i piece found enough
          apply each (i + 1) piece (by simpa using found)
          rwa [List.take_succ_cons, total_cons, ← Nat.add_assoc]

theorem leftover_eq_total_iff (pos : 0 < t) :
    leftover t held pieces = held + total pieces ↔ NeverEmptied t held pieces := by
  induction pieces generalizing held with
  | nil => simp [leftover, NeverEmptied]
  | cons piece rest ih =>
      obtain ⟨n, saved⟩ := piece
      rw [NeverEmptied, total_cons]
      by_cases kept : t ≤ held + n → saved = false
      · rw [leftover_of_kept kept, ← Nat.add_assoc, ih, and_iff_right kept]
      · obtain ⟨enough, succeeds⟩ := not_forall.mp kept
        rw [Bool.not_eq_false] at succeeds
        subst succeeds
        rw [leftover_of_emptied enough]
        have := leftover_le t 0 rest
        constructor
        · intro all
          omega
        · exact fun h => absurd h.1 kept

/-! ### Nothing left -/

/-- The buffer is emptied after the last piece of the run and not before. -/
inductive Run (t : Nat) : Nat → List Piece → Prop
  | last {held n : Nat} (enough : t ≤ held + n) : Run t held [(n, true)]
  | more {held n : Nat} {saved : Bool} {run : List Piece}
      (kept : t ≤ held + n → saved = false) (later : Run t (held + n) run) :
      Run t held ((n, saved) :: run)

/-- The pieces are runs, one after the other. -/
inductive Runs (t : Nat) : List Piece → Prop
  | nil : Runs t []
  | cons {run rest : List Piece} (run_ : Run t 0 run) (later : Runs t rest) : Runs t (run ++ rest)

theorem leftover_run (h : Run t held run) (rest : List Piece) :
    leftover t held (run ++ rest) = leftover t 0 rest := by
  induction h with
  | last enough => exact leftover_of_emptied enough
  | more kept _ ih => rw [List.cons_append, leftover_of_kept kept, ih]

/-- Either the buffer is never emptied, or the pieces start with a run. -/
theorem neverEmptied_or_run (t held : Nat) (pieces : List Piece) :
    NeverEmptied t held pieces ∨ ∃ run rest, pieces = run ++ rest ∧ Run t held run := by
  induction pieces generalizing held with
  | nil => exact .inl trivial
  | cons piece rest ih =>
      obtain ⟨n, saved⟩ := piece
      by_cases kept : t ≤ held + n → saved = false
      · rcases ih (held + n) with never | ⟨run, rest, rfl, h⟩
        · exact .inl ⟨kept, never⟩
        · exact .inr ⟨(n, saved) :: run, rest, rfl, .more kept h⟩
      · obtain ⟨enough, succeeds⟩ := not_forall.mp kept
        rw [Bool.not_eq_false] at succeeds
        subst succeeds
        exact .inr ⟨[(n, true)], rest, rfl, .last enough⟩

theorem Run.ne_nil (h : Run t held run) : run ≠ [] := by
  cases h with
  | last => exact List.cons_ne_nil _ _
  | more => exact List.cons_ne_nil _ _

theorem leftover_of_runs (h : Runs t pieces) : leftover t 0 pieces = 0 := by
  induction h with
  | nil => rfl
  | cons run _ ih => rw [leftover_run run, ih]

theorem runs_of_leftover (pos : 0 < t) (long : ∀ piece ∈ pieces, 0 < piece.1)
    (h : leftover t 0 pieces = 0) : Runs t pieces := by
  induction size : pieces.length using Nat.strongRecOn generalizing pieces with
  | ind size ih =>
      subst size
      rcases neverEmptied_or_run t 0 pieces with never | ⟨run, rest, rfl, first⟩
      · rw [(leftover_eq_total_iff pos).mpr never, Nat.zero_add] at h
        cases pieces with
        | nil => exact .nil
        | cons piece rest =>
            have := long piece List.mem_cons_self
            rw [total, List.map_cons, List.sum_cons] at h
            omega
      · rw [leftover_run first] at h
        have shorter : rest.length < (run ++ rest).length := by
          have := List.length_pos_iff.mpr first.ne_nil
          rw [List.length_append]
          omega
        refine .cons first (ih _ shorter ?_ h rfl)
        exact fun piece mem => long piece (List.mem_append_right _ mem)

theorem leftover_eq_zero_iff (pos : 0 < t) (long : ∀ piece ∈ pieces, 0 < piece.1) :
    leftover t 0 pieces = 0 ↔ Runs t pieces :=
  ⟨runs_of_leftover pos long, leftover_of_runs⟩

/-! ### Chunks -/

/-- The least multiple of `c` that is not below the threshold. -/
def quantum (t c : Nat) : Nat := c * ((t + c - 1) / c)

theorem le_quantum (pos : 0 < c) : t ≤ quantum t c := by
  have := Nat.div_add_mod (t + c - 1) c
  have := Nat.mod_lt (t + c - 1) pos
  rw [quantum]
  omega

theorem quantum_lt (pos : 0 < c) : quantum t c < t + c := by
  have := Nat.div_add_mod (t + c - 1) c
  rw [quantum]
  omega

theorem dvd_quantum : c ∣ quantum t c := Nat.dvd_mul_right _ _

theorem add_le_of_dvd {a b : Nat} (ha : c ∣ a) (hb : c ∣ b) (lt : a < b) : a + c ≤ b := by
  have := Nat.le_of_dvd (Nat.sub_pos_of_lt lt) (Nat.dvd_sub hb ha)
  omega

variable {α : Type*}

/-- The chunks of a text as pieces that can all be emptied. -/
def chunkPieces (c : Nat) (l : List α) : List Piece :=
  (chunks c l).map fun chunk => (chunk.length, true)

theorem leftover_chunks (pos : 0 < c) (l : List α) (whole : c ∣ held) (below : held < t) :
    leftover t held (chunkPieces c l) = 0 ↔
      (held + l.length) % quantum t c = 0 ∨ t ≤ (held + l.length) % quantum t c := by
  have le : t ≤ quantum t c := le_quantum pos
  induction l using rest_induction pos generalizing held with
  | nil =>
      rw [List.length_nil, Nat.add_zero, Nat.mod_eq_of_lt (by omega)]
      change held = 0 ↔ _
      omega
  | more l some ih =>
      have room : held + c ≤ quantum t c := add_le_of_dvd whole dvd_quantum (by omega)
      have size := List.length_pos_iff.mpr some
      rw [chunkPieces, chunks_of_ne_nil pos some, List.map_cons, ← chunkPieces, List.length_take]
      by_cases last : l.length ≤ c
      · rw [Nat.min_eq_right last, List.drop_eq_nil_of_le last]
        by_cases enough : t ≤ held + l.length
        · rw [leftover_of_emptied enough]
          refine iff_of_true rfl ?_
          rcases Nat.lt_or_eq_of_le (show held + l.length ≤ quantum t c by omega) with lt | eq
          · right
            rwa [Nat.mod_eq_of_lt lt]
          · left
            rw [eq, Nat.mod_self]
        · rw [leftover_of_kept fun h => absurd h enough, Nat.mod_eq_of_lt (by omega)]
          change held + l.length = 0 ↔ _
          omega
      · rw [Nat.min_eq_left (by omega)]
        by_cases enough : t ≤ held + c
        · have full : held + c = quantum t c := by
            have := quantum_lt (t := t) pos
            by_contra other
            have := add_le_of_dvd (Nat.dvd_add whole (Nat.dvd_refl c)) (dvd_quantum (t := t))
              (by omega)
            omega
          have split : held + l.length = (l.length - c) + quantum t c := by omega
          have rest : leftover t 0 (chunkPieces c (l.drop c)) = 0 ↔ _ :=
            ih (Nat.dvd_zero c) (Nat.zero_lt_of_lt below)
          rw [leftover_of_emptied enough, rest, Nat.zero_add, List.length_drop, split,
            Nat.add_mod_right]
        · have same : held + c + (l.length - c) = held + l.length := by omega
          have rest : leftover t (held + c) (chunkPieces c (l.drop c)) = 0 ↔ _ :=
            ih (Nat.dvd_add whole (Nat.dvd_refl c)) (Nat.lt_of_not_le enough)
          rw [leftover_of_kept fun h => absurd h enough, rest, List.length_drop, same]

theorem leftover_chunks_eq_zero_iff (pos : 0 < c) (some : 0 < t) (l : List α) :
    leftover t 0 (chunkPieces c l) = 0 ↔
      l.length % quantum t c = 0 ∨ t ≤ l.length % quantum t c := by
  rw [leftover_chunks pos l (Nat.dvd_zero c) some, Nat.zero_add]

end Ecube.ThresholdBuffer
