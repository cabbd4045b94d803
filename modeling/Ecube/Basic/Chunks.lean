import Mathlib.Data.List.Basic

/-!
Reading in chunks.

A reader returns at most `c` elements at a time, and nothing when nothing is left.
`flatten_take_chunks`: after `i` chunks it has read the first `i * c` elements.
-/

namespace Ecube.Chunks

variable {α : Type*} {c : Nat} {l : List α}

/-- The chunks until nothing is left. -/
def chunks (c : Nat) (l : List α) : List (List α) := go l.length l
where
  go : Nat → List α → List (List α)
    | 0, _ => []
    | _ + 1, [] => []
    | fuel + 1, a :: l => (a :: l).take c :: go fuel ((a :: l).drop c)

theorem go_congr (pos : 0 < c) {n m : Nat} (hn : l.length ≤ n) (hm : l.length ≤ m) :
    chunks.go c n l = chunks.go c m l := by
  induction n generalizing m l with
  | zero =>
      rw [List.length_eq_zero_iff.mp (Nat.le_zero.mp hn)]
      cases m <;> rfl
  | succ n ih =>
      cases l with
      | nil => cases m <;> rfl
      | cons a l =>
          cases m with
          | zero => exact absurd hm (Nat.not_succ_le_zero _)
          | succ m =>
              rw [List.length_cons] at hn hm
              have shorter : ((a :: l).drop c).length ≤ l.length := by
                rw [List.length_drop, List.length_cons]
                omega
              rw [chunks.go, chunks.go]
              congr 1
              apply ih
              · omega
              · omega

@[simp] theorem chunks_nil : chunks c ([] : List α) = [] := rfl

theorem chunks_of_ne_nil (pos : 0 < c) (some : l ≠ []) :
    chunks c l = l.take c :: chunks c (l.drop c) := by
  obtain ⟨a, rest, rfl⟩ := List.exists_cons_of_ne_nil some
  rw [chunks, List.length_cons, chunks.go, chunks]
  congr 1
  apply go_congr pos _ (Nat.le_refl _)
  rw [List.length_drop, List.length_cons]
  omega

/-- Induction on what is left to read. -/
theorem rest_induction {P : List α → Prop} (pos : 0 < c) (nil : P [])
    (more : ∀ l, l ≠ [] → P (l.drop c) → P l) (l : List α) : P l := by
  induction n : l.length using Nat.strongRecOn generalizing l with
  | ind n ih =>
      by_cases empty : l = []
      · rw [empty]
        exact nil
      · apply more l empty
        apply ih _ _ _ rfl
        have := List.length_pos_iff.mpr empty
        rw [List.length_drop]
        omega

theorem flatten_take_chunks (pos : 0 < c) (l : List α) (i : Nat) :
    ((chunks c l).take i).flatten = l.take (i * c) := by
  induction l using rest_induction pos generalizing i with
  | nil => simp
  | more l some ih =>
      rw [chunks_of_ne_nil pos some]
      cases i with
      | zero => simp
      | succ i =>
          rw [List.take_succ_cons, List.flatten_cons, ih, ← List.take_add, Nat.succ_mul,
            Nat.add_comm]

theorem flatten_chunks (pos : 0 < c) (l : List α) : (chunks c l).flatten = l := by
  induction l using rest_induction pos with
  | nil => rfl
  | more l some ih =>
      rw [chunks_of_ne_nil pos some, List.flatten_cons, ih, List.take_append_drop]

theorem ne_nil_of_mem_chunks (pos : 0 < c) {l chunk : List α} (mem : chunk ∈ chunks c l) :
    chunk ≠ [] := by
  induction l using rest_induction pos with
  | nil => exact absurd mem List.not_mem_nil
  | more l some ih =>
      rw [chunks_of_ne_nil pos some] at mem
      rcases List.mem_cons.mp mem with rfl | later
      · rw [Ne, List.take_eq_nil_iff, not_or]
        exact ⟨Nat.ne_of_gt pos, some⟩
      · exact ih later

/-- There is an `i`-th chunk as long as something is left. -/
theorem lt_length_chunks_iff (pos : 0 < c) (l : List α) (i : Nat) :
    i < (chunks c l).length ↔ i * c < l.length := by
  induction l using rest_induction pos generalizing i with
  | nil => simp
  | more l some ih =>
      rw [chunks_of_ne_nil pos some, List.length_cons]
      have size := List.length_pos_iff.mpr some
      cases i with
      | zero => simp [size]
      | succ i =>
          rw [Nat.succ_lt_succ_iff, ih, List.length_drop, Nat.succ_mul]
          omega

end Ecube.Chunks
