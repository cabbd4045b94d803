import Mathlib.Data.List.Basic

/-!
Bounded retries: an operation is tried again, up to a number of times, as long as its answer
asks for it.

`tries` are the answers that are seen. All of them but the last ask for another try
(`again_of_mem_dropLast`), and the last one asks for none if an answer that asks for none is
among the first ones (`last_tries_iff`).
-/

namespace Ecube.Retries

variable {A : Type} (answer : Nat → A) (again : A → Bool)

/-- The answers from the `n`-th on, with the number of tries left. -/
def tries : Nat → Nat → List A
  | 0, _ => []
  | left + 1, n => answer n :: if again (answer n) then tries left (n + 1) else []

variable {answer again} {left n : Nat} {a : A}

theorem length_tries_le : (tries answer again left n).length ≤ left := by
  induction left generalizing n with
  | zero => exact Nat.le_refl 0
  | succ left ih =>
      rw [tries, List.length_cons]
      split
      · exact Nat.succ_le_succ ih
      · exact Nat.succ_le_succ (Nat.zero_le left)

/-- What is tried again asked for it. -/
theorem again_of_mem_dropLast (mem : a ∈ (tries answer again left n).dropLast) :
    again a = true := by
  induction left generalizing n with
  | zero => exact absurd mem List.not_mem_nil
  | succ left ih =>
      rw [tries] at mem
      split at mem
      next asks =>
        cases rest : tries answer again left (n + 1) with
        | nil =>
            rw [rest] at mem
            exact absurd mem List.not_mem_nil
        | cons b more =>
            rw [rest, List.dropLast_cons_cons] at mem
            rcases List.mem_cons.mp mem with rfl | later
            · exact asks
            · exact ih (rest ▸ later)
      next => exact absurd mem List.not_mem_nil

/-- The last answer, if it asks for no other try: the first such answer. -/
theorem last_tries_iff (stops : again a = false) :
    (tries answer again left n).getLast? = some a ↔
      ∃ i < left, (∀ j < i, again (answer (n + j)) = true) ∧ answer (n + i) = a := by
  induction left generalizing n with
  | zero => exact iff_of_false nofun fun ⟨_, few, _⟩ => absurd few (Nat.not_lt_zero _)
  | succ left ih =>
      rw [tries]
      split
      next asks =>
        have shifted : (answer n :: tries answer again left (n + 1)).getLast? = some a ↔
            (tries answer again left (n + 1)).getLast? = some a := by
          cases rest : tries answer again left (n + 1) with
          | nil =>
              refine iff_of_false (fun last => ?_) nofun
              rw [List.getLast?_singleton, Option.some_inj] at last
              rw [last, stops] at asks
              cases asks
          | cons b more => rw [List.getLast?_cons_cons]
        rw [shifted, ih]
        constructor
        · rintro ⟨i, few, before, here⟩
          refine ⟨i + 1, Nat.succ_lt_succ few, fun j earlier => ?_, ?_⟩
          · cases j with
            | zero => exact asks
            | succ j =>
                have := before j (Nat.lt_of_succ_lt_succ earlier)
                rwa [Nat.add_assoc, Nat.add_comm 1 j] at this
          · rwa [Nat.add_assoc, Nat.add_comm 1 i] at here
        · rintro ⟨i, few, before, here⟩
          cases i with
          | zero =>
              rw [Nat.add_zero] at here
              rw [here, stops] at asks
              cases asks
          | succ i =>
              refine ⟨i, Nat.lt_of_succ_lt_succ few, fun j earlier => ?_, ?_⟩
              · have := before (j + 1) (Nat.succ_lt_succ earlier)
                rwa [Nat.add_assoc, Nat.add_comm 1 j]
              · rwa [Nat.add_assoc, Nat.add_comm 1 i]
      next stop =>
        rw [List.getLast?_singleton, Option.some_inj]
        constructor
        · exact fun here => ⟨0, Nat.succ_pos left, fun j early => absurd early (Nat.not_lt_zero j),
            here⟩
        · rintro ⟨i, -, before, here⟩
          cases i with
          | zero => exact here
          | succ i => exact absurd (before 0 (Nat.succ_pos i)) stop

end Ecube.Retries
