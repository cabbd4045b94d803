/-!
Conditions of queries.

A comparison with a missing value is neither true nor false, and a row is selected
only when the condition is true. So a condition and its negation may both leave a row
out: `not_eq_true` and `not_ne_true` say which rows a negation selects.
-/

namespace Ecube.Sql

/-- A truth value; `none` is `NULL`. -/
abbrev Truth := Option Bool

/-- Whether `WHERE` keeps a row. -/
def selects (t : Truth) : Bool := t = some true

def not : Truth → Truth
  | some b => some (!b)
  | none => none

def and : Truth → Truth → Truth
  | some false, _ | _, some false => some false
  | some true, some true => some true
  | _, _ => none

def or : Truth → Truth → Truth
  | some true, _ | _, some true => some true
  | some false, some false => some false
  | _, _ => none

section Comparisons

variable {α : Type} [DecidableEq α]

def eq (a b : Option α) : Truth :=
  match a, b with
  | some a, some b => some (a = b)
  | _, _ => none

def ne (a b : Option α) : Truth := not (eq a b)

/-- `a IN values`. -/
def isIn (a : Option α) (values : List α) : Truth := a.map fun a => a ∈ values

end Comparisons

/-! ### When a row is selected -/

variable {s t : Truth}

@[simp] theorem selects_iff : selects t = true ↔ t = some true := by
  rw [selects, decide_eq_true_eq]

@[simp] theorem and_eq_true : and s t = some true ↔ s = some true ∧ t = some true := by
  rcases s with - | (- | -) <;> rcases t with - | (- | -) <;> decide

@[simp] theorem or_eq_true : or s t = some true ↔ s = some true ∨ t = some true := by
  rcases s with - | (- | -) <;> rcases t with - | (- | -) <;> decide

@[simp] theorem and_eq_false : and s t = some false ↔ s = some false ∨ t = some false := by
  rcases s with - | (- | -) <;> rcases t with - | (- | -) <;> decide

@[simp] theorem or_eq_false : or s t = some false ↔ s = some false ∧ t = some false := by
  rcases s with - | (- | -) <;> rcases t with - | (- | -) <;> decide

/-- A negation selects the rows on which the condition is false, not those on which it
is unknown. -/
@[simp] theorem not_eq_true : not t = some true ↔ t = some false := by
  rcases t with - | (- | -) <;> decide

section Comparisons

variable {α : Type} [DecidableEq α] {a : α} {value : Option α} {values : List α}

@[simp] theorem eq_eq_true : eq value (some a) = some true ↔ value = some a := by
  cases value with
  | none => exact ⟨nofun, nofun⟩
  | some b => rw [eq, Option.some_inj, decide_eq_true_eq, Option.some_inj]

@[simp] theorem eq_eq_false : eq value (some a) = some false ↔ value ≠ none ∧ value ≠ some a := by
  cases value with
  | none => simp [eq]
  | some b => simp [eq]

@[simp] theorem ne_eq_true : ne value (some a) = some true ↔ value ≠ none ∧ value ≠ some a := by
  rw [ne, not_eq_true, eq_eq_false]

@[simp] theorem isIn_eq_true : isIn (some a) values = some true ↔ a ∈ values := by
  rw [isIn, Option.map_some, Option.some_inj, decide_eq_true_eq]

@[simp] theorem isIn_eq_false : isIn (some a) values = some false ↔ a ∉ values := by
  rw [isIn, Option.map_some, Option.some_inj, decide_eq_false_iff_not]

end Comparisons

end Ecube.Sql
