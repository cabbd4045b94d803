import Mathlib.Data.Bool.AllAny
import Ecube.Basic.PosixPath

/-!
The lines of `/proc/mounts`.

The kernel writes a line for each mount, with blanks between the fields, and escapes in a field
the characters that would end it. A program reads lines, splits them at whitespace and undoes
the escapes. Python knows more whitespace and more ends of lines than the kernel escapes.

* `unescape_escape`: an escape is undone.
* `words_field`: a field without other whitespace is read as one word.
* `lines_line`: a line without other ends of lines is read as one line.
* `splitOnP_written`: any line is split at the separators in it that are not escaped.
-/

namespace Ecube.MountLines

open PosixPath

/-! ### Escapes -/

def octalDigit (n : Nat) : Char := Char.ofNat (48 + n)

def escapeChar (special : Str) (c : Char) : Str :=
  if c ∈ special then
    ['\\', octalDigit (c.toNat / 64), octalDigit (c.toNat / 8 % 8), octalDigit (c.toNat % 8)]
  else [c]

def escape (special s : Str) : Str := s.flatMap (escapeChar special)

/-- The characters that are escaped in a path. -/
def pathSpecial : Str := [' ', '\t', '\n', '\\']

/-- The characters that are escaped in a source. -/
def sourceSpecial : Str := [' ', '\t', '\n', '\\', '#']

def octalValue (c : Char) : Option Nat :=
  if 48 ≤ c.toNat ∧ c.toNat ≤ 55 then some (c.toNat - 48) else none

/-- `unescape_mountpoint`. In what a kernel writes an escape stands for an ASCII character. -/
def unescape : Str → Str
  | '\\' :: a :: b :: c :: rest =>
      match octalValue a, octalValue b, octalValue c with
      | some x, some y, some z => Char.ofNat (64 * x + 8 * y + z) :: unescape rest
      | _, _, _ => '\\' :: unescape (a :: b :: c :: rest)
  | c :: rest => c :: unescape rest
  | [] => []

section Escape

variable {special s : Str} {c : Char}

theorem unescape_cons (plain : c ≠ '\\') (rest : Str) :
    unescape (c :: rest) = c :: unescape rest := by
  conv_lhs => unfold unescape
  split
  next same => exact absurd (List.cons.inj same).1 plain
  next same =>
    cases same
    rfl
  next same => cases same

theorem unescape_escapeChar (some : c ∈ sourceSpecial) (rest : Str) :
    unescape ('\\' :: octalDigit (c.toNat / 64) :: octalDigit (c.toNat / 8 % 8) ::
      octalDigit (c.toNat % 8) :: rest) = c :: unescape rest := by
  simp only [sourceSpecial, List.mem_cons, List.not_mem_nil, or_false] at some
  rcases some with rfl | rfl | rfl | rfl | rfl <;> rfl

theorem unescape_escape (backslash : '\\' ∈ special) (few : special ⊆ sourceSpecial) (s : Str) :
    unescape (escape special s) = s := by
  induction s with
  | nil => rfl
  | cons c s ih =>
      rw [escape, List.flatMap_cons, ← escape, escapeChar]
      split
      next escaped => exact (unescape_escapeChar (few escaped) _).trans (congrArg (c :: ·) ih)
      next plain =>
        have other : c ≠ '\\' := fun same => plain (same ▸ backslash)
        exact (unescape_cons other _).trans (congrArg (c :: ·) ih)

end Escape

/-! ### Words and lines -/

/-- `line.split()`. -/
def words (line : Str) : List Str := (line.splitOnP isSpace).filter (· ≠ [])

/-- An end of a line, with universal newlines. -/
def isNewline (c : Char) : Bool := c = '\n' ∨ c = '\r'

/-- The lines of a text; an empty one may stand between `\r` and `\n`. -/
def lines (text : Str) : List Str := text.splitOnP isNewline

/-- A field that is read as it was written: all whitespace in it is escaped. -/
structure PlainField (s : Str) : Prop where
  nonempty : s ≠ []
  spaces : ∀ c ∈ s, isSpace c = true → c ∈ pathSpecial

section Fields

variable {special s : Str}

/-- What is escaped has no whitespace. -/
theorem isSpace_escape (all : pathSpecial ⊆ special) (few : special ⊆ sourceSpecial)
    (plain : PlainField s) : ∀ c ∈ escape special s, isSpace c = false := by
  intro c mem
  obtain ⟨d, here, escaped⟩ := List.mem_flatMap.mp mem
  rw [escapeChar] at escaped
  split at escaped
  next hit =>
    have hit := few hit
    simp only [sourceSpecial, List.mem_cons, List.not_mem_nil, or_false] at hit escaped
    rcases hit with rfl | rfl | rfl | rfl | rfl <;>
      rcases escaped with rfl | rfl | rfl | rfl <;> rfl
  next miss =>
    rw [List.mem_singleton.mp escaped, Bool.eq_false_iff]
    exact fun space => miss (all (plain.spaces d here space))

theorem escape_ne_nil (plain : PlainField s) : escape special s ≠ [] := by
  obtain ⟨c, rest, rfl⟩ := List.exists_cons_of_ne_nil plain.nonempty
  rw [escape, List.flatMap_cons, escapeChar]
  split <;> exact List.cons_ne_nil _ _

/-- A field and the blank after it. -/
theorem words_field (all : pathSpecial ⊆ special) (few : special ⊆ sourceSpecial)
    (plain : PlainField s) (rest : Str) :
    words (escape special s ++ ' ' :: rest) = escape special s :: words rest := by
  rw [words, List.splitOnP_append_cons_of_forall_mem (isSpace_escape all few plain) ' ' rfl,
    List.filter_cons_of_pos (by simpa using escape_ne_nil plain)]
  rfl

/-- A line and its end. -/
theorem lines_line {line : Str} (whole : ∀ c ∈ line, isNewline c = false) (rest : Str) :
    lines (line ++ '\n' :: rest) = line :: lines rest :=
  List.splitOnP_append_cons_of_forall_mem whole '\n' rfl rest

end Fields

theorem isSpace_of_isNewline {c : Char} (h : isNewline c = true) : isSpace c = true := by
  rcases of_decide_eq_true h with rfl | rfl <;> rfl

theorem isNewline_of_isSpace {c : Char} (h : isSpace c = false) : isNewline c = false := by
  rw [Bool.eq_false_iff] at h ⊢
  exact fun newline => h (isSpace_of_isNewline newline)

/-! ### Written characters -/

section Split

variable {α β : Type} {p : β → Bool} {q : α → Bool}

theorem splitOnP_append {front : List β} (whole : ∀ b ∈ front, p b = false) (rest : List β) :
    (front ++ rest).splitOnP p = (rest.splitOnP p).modifyHead (front ++ ·) := by
  induction front with
  | nil => cases split : rest.splitOnP p <;> simp [split]
  | cons b front ih =>
      rw [List.forall_mem_cons] at whole
      rw [List.cons_append, List.splitOnP_cons_eq_if_modifyHead, whole.1, if_neg Bool.false_ne_true,
        ih whole.2]
      cases rest.splitOnP p <;> rfl

/-- Items that are written one after the other are split where the separators among them
are. -/
theorem splitOnP_flatMap {text : α → List β} {items : List α}
    (separator : ∀ a ∈ items, q a = true → ∃ b, text a = [b] ∧ p b = true)
    (other : ∀ a ∈ items, q a = false → ∀ b ∈ text a, p b = false) :
    (items.flatMap text).splitOnP p = (items.splitOnP q).map (·.flatMap text) := by
  induction items with
  | nil => rfl
  | cons a items ih =>
      rw [List.forall_mem_cons] at separator other
      rw [List.flatMap_cons, List.splitOnP_cons_eq_if_modifyHead]
      cases sep : q a with
      | true =>
          obtain ⟨b, alone, splits⟩ := separator.1 sep
          rw [alone, List.singleton_append, List.splitOnP_cons_eq_if_modifyHead, if_pos splits,
            ih separator.2 other.2]
          rfl
      | false =>
          rw [splitOnP_append (other.1 sep), ih separator.2 other.2]
          cases split : items.splitOnP q with
          | nil => exact absurd split (List.splitOnP_ne_nil _ _)
          | cons first rest => simp

end Split

/-- A character, and whether it is written as an escape. -/
structure Written where
  char : Char
  escaped : Bool
  deriving DecidableEq, Repr

namespace Written

def text (w : Written) : Str :=
  if w.escaped then ['\\', octalDigit (w.char.toNat / 64), octalDigit (w.char.toNat / 8 % 8),
    octalDigit (w.char.toNat % 8)]
  else [w.char]

/-- As the kernel writes it: few characters are escaped, the backslash among them. -/
def Valid (w : Written) : Prop :=
  (w.escaped = true → w.char ∈ sourceSpecial) ∧ (w.escaped = false → w.char ≠ '\\')

/-- The character as such, if `p` holds of it. -/
def bare (p : Char → Bool) (w : Written) : Bool := !w.escaped && p w.char

theorem isSpace_text {w : Written} (valid : w.Valid) (escaped : w.escaped = true) :
    ∀ c ∈ w.text, isSpace c = false := by
  have few := valid.1 escaped
  rw [text, if_pos escaped]
  simp only [sourceSpecial, List.mem_cons, List.not_mem_nil, or_false] at few
  rcases few with same | same | same | same | same <;> rw [same] <;>
    exact List.all_iff_forall_prop.mp (by decide)

end Written

/-- How a text is written. -/
def written (special s : Str) : List Written := s.map fun c => ⟨c, c ∈ special⟩

theorem map_written (special s : Str) : (written special s).map Written.char = s := by
  rw [written, List.map_map]
  exact List.map_id s

theorem valid_written {special s : Str} (backslash : '\\' ∈ special)
    (few : special ⊆ sourceSpecial) : ∀ w ∈ written special s, w.Valid := by
  intro w mem
  obtain ⟨c, -, rfl⟩ := List.mem_map.mp mem
  refine ⟨fun escaped => few (of_decide_eq_true escaped), ?_⟩
  rintro plain rfl
  exact of_decide_eq_false plain backslash

/-- A line is split at the separators that are no escapes. -/
theorem splitOnP_written {p : Char → Bool} (spaces : ∀ c, p c = true → isSpace c = true)
    {ws : List Written} (valid : ∀ w ∈ ws, w.Valid) :
    (ws.flatMap Written.text).splitOnP p =
      (ws.splitOnP (Written.bare p)).map (·.flatMap Written.text) := by
  apply splitOnP_flatMap
  · intro w _ bare
    rw [Written.bare, Bool.and_eq_true, Bool.not_eq_true'] at bare
    refine ⟨w.char, ?_, bare.2⟩
    rw [Written.text, if_neg (Bool.eq_false_iff.mp bare.1)]
  · intro w mem other c within
    cases escaped : w.escaped with
    | true =>
        rw [Bool.eq_false_iff]
        intro found
        have plain := Written.isSpace_text (valid w mem) escaped c within
        exact absurd (spaces c found) (Bool.eq_false_iff.mp plain)
    | false =>
        rw [Written.text, if_neg (Bool.eq_false_iff.mp escaped), List.mem_singleton] at within
        rw [Written.bare, escaped, Bool.not_false, Bool.true_and] at other
        rw [within, other]

end Ecube.MountLines
