import Ecube.Basic.PosixPath
import Mathlib.Data.List.Infix

/-!
Patterns of the operator `LIKE`: `%` is any text, `_` is any character, and a backslash takes the
next character as it is.

`accepts_contains_iff`: a text without these characters between two `%` is found wherever it
occurs.
-/

namespace Ecube.Like

open PosixPath

inductive Item where
  | any
  | one
  | char (c : Char)
  deriving DecidableEq, Repr

def Item.ofChar (c : Char) : Item :=
  if c = '%' then .any else if c = '_' then .one else .char c

/-- The items of a pattern. A pattern must not end with a backslash. -/
def parse : Str → Option (List Item)
  | [] => some []
  | [c] => if c = '\\' then none else some [.ofChar c]
  | c :: d :: rest =>
      if c = '\\' then (parse rest).map (.char d :: ·) else (parse (d :: rest)).map (.ofChar c :: ·)

def accepts : List Item → Str → Bool
  | [], text => text.isEmpty
  | .any :: items, text => text.tails.any (accepts items)
  | .one :: items, _ :: text => accepts items text
  | .char c :: items, d :: text => c == d && accepts items text
  | _ :: _, [] => false

/-- `text LIKE pattern`. -/
def like (text pattern : Str) : Bool := (parse pattern).any fun items => accepts items text

/-- Characters that stand for themselves. -/
def Literal (s : Str) : Prop := '%' ∉ s ∧ '_' ∉ s ∧ '\\' ∉ s

instance (s : Str) : Decidable (Literal s) :=
  inferInstanceAs (Decidable ('%' ∉ s ∧ '_' ∉ s ∧ '\\' ∉ s))

theorem Literal.of_cons {c : Char} {s : Str} (literal : Literal (c :: s)) : Literal s :=
  ⟨fun mem => literal.1 (List.mem_cons_of_mem _ mem),
    fun mem => literal.2.1 (List.mem_cons_of_mem _ mem),
    fun mem => literal.2.2 (List.mem_cons_of_mem _ mem)⟩

theorem Literal.ofChar {c : Char} {s : Str} (literal : Literal (c :: s)) :
    Item.ofChar c = .char c := by
  have percent : c ≠ '%' := by
    rintro rfl
    exact literal.1 List.mem_cons_self
  have underscore : c ≠ '_' := by
    rintro rfl
    exact literal.2.1 List.mem_cons_self
  rw [Item.ofChar, if_neg percent, if_neg underscore]

theorem parse_cons {c : Char} (s : Str) (plain : c ≠ '\\') :
    parse (c :: s) = (parse s).map (.ofChar c :: ·) := by
  cases s with
  | nil => simp [parse, plain]
  | cons d s => simp [parse, plain]

theorem parse_append {s : Str} (literal : Literal s) (rest : Str) :
    parse (s ++ rest) = (parse rest).map (s.map .char ++ ·) := by
  induction s with
  | nil => simp
  | cons c s ih =>
      have escape : c ≠ '\\' := by
        rintro rfl
        exact literal.2.2 List.mem_cons_self
      rw [List.cons_append, parse_cons _ escape, ih literal.of_cons, literal.ofChar, Option.map_map]
      rfl

theorem accepts_prefix_iff {s text : Str} :
    accepts (s.map .char ++ [.any]) text = true ↔ s <+: text := by
  induction s generalizing text with
  | nil =>
      rw [List.map_nil, List.nil_append, accepts, List.any_eq_true]
      exact iff_of_true ⟨[], (List.mem_tails _ _).mpr List.nil_suffix, rfl⟩ List.nil_prefix
  | cons c s ih =>
      cases text with
      | nil => exact iff_of_false Bool.false_ne_true (by simp)
      | cons d text =>
          rw [List.map_cons, List.cons_append, accepts, Bool.and_eq_true, beq_iff_eq, ih,
            List.cons_prefix_cons]

/-- Between two `%` a text is found wherever it occurs. -/
theorem accepts_contains_iff {s text : Str} :
    accepts (.any :: (s.map .char ++ [.any])) text = true ↔ s <:+: text := by
  rw [accepts, List.any_eq_true, List.infix_iff_prefix_suffix]
  constructor
  · rintro ⟨rest, mem, found⟩
    exact ⟨rest, accepts_prefix_iff.mp found, (List.mem_tails _ _).mp mem⟩
  · rintro ⟨rest, starts, ends⟩
    exact ⟨rest, (List.mem_tails _ _).mpr ends, accepts_prefix_iff.mpr starts⟩

theorem like_contains_iff {s text : Str} (literal : Literal s) :
    like text ('%' :: (s ++ ['%'])) = true ↔ s <:+: text := by
  have items : parse ('%' :: (s ++ ['%'])) = some (.any :: (s.map .char ++ [.any])) := by
    rw [parse_cons _ (by decide), parse_append literal]
    rfl
  rw [like, items]
  exact accepts_contains_iff

end Ecube.Like
