import Mathlib.Data.List.Basic
import Mathlib.Data.List.Infix

/-!
Substitution of the matches of a pattern in a text, from the left and without overlaps.

A matcher looks at a position, with the element before it, and says how long the match is that
starts there and what replaces it. A text is gone through in parts: `scan` is the output for a
part and how much of what follows belongs to the last match in it.

* `sub_append`: what is substituted in a text, part by part.
* `scan_congr`, `scan_kept`: what a part depends on.
-/

namespace Ecube.Substitution

variable {α : Type}

abbrev Matcher (α : Type) := Option α → List α → Option (Nat × List α)

/-- The substitution. The number says how many elements still belong to a match. -/
def sub (m : Matcher α) : Nat → Option α → List α → List α
  | _, _, [] => []
  | skip + 1, _, a :: rest => sub m skip (some a) rest
  | 0, prev, a :: rest =>
      match m prev (a :: rest) with
      | some (length, replacement) => replacement ++ sub m (length - 1) (some a) rest
      | none => a :: sub m 0 (some a) rest

/-- The output for a part in front of `y`, and how many elements of `y` belong to a match. -/
def scan (m : Matcher α) (y : List α) : Nat → Option α → List α → List α × Nat
  | skip, _, [] => ([], skip)
  | skip + 1, _, a :: rest => scan m y skip (some a) rest
  | 0, prev, a :: rest =>
      match m prev (a :: rest ++ y) with
      | some (length, replacement) =>
          (replacement ++ (scan m y (length - 1) (some a) rest).1,
            (scan m y (length - 1) (some a) rest).2)
      | none => (a :: (scan m y 0 (some a) rest).1, (scan m y 0 (some a) rest).2)

variable {m : Matcher α} {x y z : List α} {skip : Nat} {prev : Option α}

/-- The element before what follows `x`. -/
def last (prev : Option α) (x : List α) : Option α := x.getLast?.or prev

theorem last_cons (prev : Option α) (a : α) (x : List α) :
    last prev (a :: x) = last (some a) x := by
  cases h : x.getLast? <;> simp [last, List.getLast?_cons, h]

theorem sub_append (skip : Nat) (prev : Option α) (x : List α) :
    sub m skip prev (x ++ y) =
      (scan m y skip prev x).1 ++ sub m (scan m y skip prev x).2 (last prev x) y := by
  induction x generalizing skip prev with
  | nil => rfl
  | cons a x ih =>
      rw [last_cons]
      cases skip with
      | succ skip => exact ih skip (some a)
      | zero =>
          rw [List.cons_append, sub, scan]
          rw [List.cons_append]
          cases m prev (a :: (x ++ y)) with
          | none => exact congrArg (a :: ·) (ih 0 (some a))
          | some found =>
              dsimp only
              rw [ih, List.append_assoc]

/-- A part is gone through alike in front of texts that do not make a difference to a match. -/
theorem scan_congr
    (same : ∀ s, s ≠ [] → s <:+ x → ∀ prev, m prev (s ++ y) = m prev (s ++ z)) :
    scan m y skip prev x = scan m z skip prev x := by
  induction x generalizing skip prev with
  | nil => rfl
  | cons a x ih =>
      have later : ∀ s, s ≠ [] → s <:+ x → ∀ prev, m prev (s ++ y) = m prev (s ++ z) :=
        fun s some_ within => same s some_ (within.trans (List.suffix_cons a x))
      cases skip with
      | succ skip => exact ih later
      | zero =>
          rw [scan, scan, same _ (List.cons_ne_nil a x) List.suffix_rfl]
          cases m prev (a :: x ++ z) with
          | none =>
              dsimp only
              rw [ih later]
          | some found =>
              dsimp only
              rw [ih later]

theorem scan_of_unmatched
    (unmatched : ∀ s, s ≠ [] → s <:+ x → ∀ prev, m prev (s ++ y) = none) (prev : Option α) :
    scan m y 0 prev x = (x, 0) := by
  induction x generalizing prev with
  | nil => rfl
  | cons a x ih =>
      have later : ∀ s, s ≠ [] → s <:+ x → ∀ prev, m prev (s ++ y) = none :=
        fun s some_ within => unmatched s some_ (within.trans (List.suffix_cons a x))
      rw [scan, unmatched _ (List.cons_ne_nil a x) List.suffix_rfl]
      dsimp only
      rw [ih later]

theorem scan_of_le {skip : Nat} (long : x.length ≤ skip) (prev : Option α) :
    scan m y skip prev x = ([], skip - x.length) := by
  induction x generalizing skip prev with
  | nil => rfl
  | cons a x ih =>
      rw [List.length_cons] at long ⊢
      obtain ⟨skip, rfl⟩ := Nat.exists_eq_add_of_le' (Nat.le_of_add_left_le long)
      rw [scan, ih (by omega), Nat.add_sub_add_right]

theorem sub_of_le {skip : Nat} (long : x.length ≤ skip) (prev : Option α) :
    sub m skip prev x = [] := by
  induction x generalizing skip prev with
  | nil => rw [sub]
  | cons a x ih =>
      rw [List.length_cons] at long
      obtain ⟨skip, rfl⟩ := Nat.exists_eq_add_of_le' (Nat.le_of_add_left_le long)
      rw [sub, ih (by omega)]

/-- In front of another text a part whose matches end in it is gone through alike, if these
matches do not change. -/
theorem scan_kept
    (none_ : ∀ s, s ≠ [] → s <:+ x → ∀ prev, m prev (s ++ y) = none → m prev (s ++ z) = none)
    (some_ : ∀ s, s ≠ [] → s <:+ x → ∀ prev length replacement,
      m prev (s ++ y) = some (length, replacement) → length ≤ s.length →
        m prev (s ++ z) = some (length, replacement))
    (kept : (scan m y skip prev x).2 = 0) : scan m z skip prev x = scan m y skip prev x := by
  induction x generalizing skip prev with
  | nil => rfl
  | cons a x ih =>
      have noneLater := fun s nonempty within => none_ s nonempty
        (List.IsSuffix.trans within (List.suffix_cons a x))
      have someLater := fun s nonempty within => some_ s nonempty
        (List.IsSuffix.trans within (List.suffix_cons a x))
      cases skip with
      | succ skip => exact ih noneLater someLater kept
      | zero =>
          rw [scan] at kept ⊢
          rw [scan]
          cases here : m prev (a :: x ++ y) with
          | none =>
              rw [here] at kept
              rw [none_ _ (List.cons_ne_nil a x) List.suffix_rfl _ here]
              dsimp only at kept ⊢
              rw [ih noneLater someLater kept]
          | some found =>
              obtain ⟨length, replacement⟩ := found
              rw [here] at kept
              dsimp only at kept
              have within : length ≤ (a :: x).length := by
                by_contra beyond
                rw [List.length_cons] at beyond
                rw [scan_of_le (by omega)] at kept
                dsimp only at kept
                omega
              rw [some_ _ (List.cons_ne_nil a x) List.suffix_rfl _ _ _ here within]
              dsimp only
              rw [ih noneLater someLater kept]

/-- The last match in a part ends in the text. -/
theorem scan_snd_le (within : ∀ prev s length replacement,
      m prev s = some (length, replacement) → length ≤ s.length)
    (inside : skip ≤ x.length + y.length) (prev : Option α) :
    (scan m y skip prev x).2 ≤ y.length := by
  induction x generalizing skip prev with
  | nil => rwa [List.length_nil, Nat.zero_add] at inside
  | cons a x ih =>
      cases skip with
      | succ skip =>
          rw [List.length_cons] at inside
          exact ih (by omega) (some a)
      | zero =>
          rw [scan]
          cases here : m prev (a :: x ++ y) with
          | none => exact ih (Nat.zero_le _) (some a)
          | some found =>
              have length := within _ _ found.1 found.2 here
              rw [List.length_append, List.length_cons] at length
              exact ih (by omega) (some a)

/-- At the end of a text the matches have ended, and what is put out is what is substituted. -/
theorem scan_nil (within : ∀ prev s length replacement,
      m prev s = some (length, replacement) → length ≤ s.length)
    (inside : skip ≤ x.length) (prev : Option α) :
    scan m [] skip prev x = (sub m skip prev x, 0) := by
  have ended : (scan m [] skip prev x).2 = 0 := Nat.le_zero.mp (scan_snd_le within inside prev)
  have whole := sub_append (m := m) (y := []) skip prev x
  rw [List.append_nil, ended, sub, List.append_nil] at whole
  exact Prod.ext whole.symm ended

/-- Something is put out for something. -/
theorem scan_ne_nil (replaces : ∀ prev s length replacement,
      m prev s = some (length, replacement) → replacement ≠ [])
    (some_ : x ≠ []) (prev : Option α) : (scan m y 0 prev x).1 ≠ [] := by
  cases x with
  | nil => exact absurd rfl some_
  | cons a x =>
      rw [scan]
      cases here : m prev (a :: x ++ y) with
      | none => exact List.cons_ne_nil _ _
      | some found =>
          exact List.append_ne_nil_of_left_ne_nil (replaces _ _ _ _ here) _

end Ecube.Substitution
