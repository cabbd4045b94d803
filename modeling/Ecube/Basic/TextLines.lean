import Ecube.Basic.PosixPath

/-!
Lines of a text as `str.splitlines` has them, and lines that are joined again.

`splitlines_join`: lines without a boundary come back. `rstrip_join`: trimming the joined lines
drops the blank lines at the end and trims the last of the others.
-/

namespace Ecube.TextLines

open PosixPath

def isBoundary (c : Char) : Bool :=
  c ∈ ['\n', '\r', '\x0b', '\x0c', '\x1c', '\x1d', '\x1e', '\x85', '\u2028', '\u2029']

/-- The lines from one that has begun, maybe after a carriage return. -/
def splitlinesFrom : Bool → Str → Str → List Str
  | _, line, [] => if line = [] then [] else [line]
  | afterReturn, line, c :: rest =>
      if c = '\n' ∧ afterReturn then splitlinesFrom false line rest
      else if isBoundary c then line :: splitlinesFrom (c = '\r') [] rest
      else splitlinesFrom false (line ++ [c]) rest

/-- `s.splitlines()`. -/
def splitlines (s : Str) : List Str := splitlinesFrom false [] s

/-- A line of a text. -/
def IsLine (line : Str) : Prop := ∀ c ∈ line, isBoundary c = false

theorem isLine_of_mem_splitlinesFrom {s : Str} : ∀ {afterReturn : Bool} {begun line : Str},
    IsLine begun → line ∈ splitlinesFrom afterReturn begun s → IsLine line := by
  induction s with
  | nil =>
      intro afterReturn begun line clean mem
      rw [splitlinesFrom] at mem
      split at mem
      · cases mem
      · rwa [List.mem_singleton.mp mem]
  | cons c rest ih =>
      intro afterReturn begun line clean mem
      rw [splitlinesFrom] at mem
      split at mem
      · exact ih clean mem
      · split at mem
        · rcases List.mem_cons.mp mem with rfl | later
          · exact clean
          · exact ih (fun _ mem => absurd mem List.not_mem_nil) later
        next plain =>
          refine ih (List.forall_mem_append.mpr ⟨clean, ?_⟩) mem
          exact List.forall_mem_singleton.mpr (Bool.eq_false_iff.mpr plain)

theorem isLine_of_mem_splitlines {s line : Str} (mem : line ∈ splitlines s) : IsLine line :=
  isLine_of_mem_splitlinesFrom (fun _ mem => absurd mem List.not_mem_nil) mem

theorem splitlinesFrom_append {line : Str} (clean : IsLine line) (begun rest : Str) :
    splitlinesFrom false begun (line ++ '\n' :: rest) =
      (begun ++ line) :: splitlines rest := by
  induction line generalizing begun with
  | nil =>
      have newline : isBoundary '\n' = true := rfl
      rw [List.nil_append, splitlinesFrom, if_neg fun both => Bool.false_ne_true both.2,
        if_pos newline, List.append_nil]
      rfl
  | cons c line ih =>
      rw [IsLine, List.forall_mem_cons] at clean
      rw [List.cons_append, splitlinesFrom, if_neg fun both => Bool.false_ne_true both.2,
        clean.1, if_neg Bool.false_ne_true, ih clean.2, List.append_assoc]
      rfl

/-! ### Joined lines -/

/-- Lines that are joined and ended with a newline come back. -/
theorem splitlines_join {lines : List Str} (some : lines ≠ []) (clean : ∀ l ∈ lines, IsLine l) :
    splitlines (List.intercalate ['\n'] lines ++ ['\n']) = lines := by
  induction lines with
  | nil => exact absurd rfl some
  | cons line lines ih =>
      rw [List.forall_mem_cons] at clean
      cases lines with
      | nil =>
          rw [List.intercalate_singleton, splitlines, splitlinesFrom_append clean.1]
          rfl
      | cons next lines =>
          rw [List.intercalate_cons_cons, List.append_assoc, List.append_assoc,
            List.singleton_append, splitlines, splitlinesFrom_append clean.1, List.nil_append,
            ih (List.cons_ne_nil _ _) clean.2]

/-- A line of whitespace. -/
def isBlank (line : Str) : Bool := line.all isSpace

theorem exists_split_of_not_isBlank {line : Str} (dark : isBlank line = false) :
    ∃ front c back, line = front ++ c :: back ∧ isSpace c = false := by
  obtain ⟨c, mem, plain⟩ := List.all_eq_false.mp dark
  obtain ⟨front, back, rfl⟩ := List.append_of_mem mem
  exact ⟨front, c, back, rfl, Bool.eq_false_iff.mpr plain⟩

theorem rstrip_append_of_not_isBlank (front : Str) {line : Str} (dark : isBlank line = false) :
    rstrip (front ++ line) = front ++ rstrip line := by
  obtain ⟨a, c, x, rfl, plain⟩ := exists_split_of_not_isBlank dark
  rw [← List.append_assoc, rstrip_append_cons plain, rstrip_append_cons plain, List.append_assoc]

theorem isBlank_rstrip {line : Str} (dark : isBlank line = false) :
    isBlank (rstrip line) = false := by
  obtain ⟨a, c, x, rfl, plain⟩ := exists_split_of_not_isBlank dark
  rw [rstrip_append_cons plain]
  exact List.all_eq_false.mpr ⟨c, by simp, Bool.eq_false_iff.mp plain⟩

theorem intercalate_append {lines : List Str} (some : lines ≠ []) (more : List Str) :
    List.intercalate ['\n'] (lines ++ more) =
      List.intercalate ['\n'] lines ++ more.flatMap fun line => '\n' :: line := by
  induction lines with
  | nil => exact absurd rfl some
  | cons line lines ih =>
      cases lines with
      | nil =>
          clear ih
          rw [List.singleton_append, List.intercalate_singleton]
          induction more generalizing line with
          | nil => simp
          | cons next more ih =>
              rw [List.intercalate_cons_cons, ih next (List.cons_ne_nil _ _), List.flatMap_cons]
              simp
      | cons next lines =>
          rw [List.cons_append, List.cons_append, List.intercalate_cons_cons,
            List.intercalate_cons_cons, ← List.cons_append, ih (List.cons_ne_nil _ _)]
          simp only [List.append_assoc]

/-- The blank lines at the end are dropped, and the last of the others is trimmed. -/
theorem rstrip_join {lines blanks : List Str} {last : Str} (dark : isBlank last = false)
    (blank : ∀ line ∈ blanks, isBlank line = true) :
    rstrip (List.intercalate ['\n'] (lines ++ [last] ++ blanks)) =
      List.intercalate ['\n'] (lines ++ [rstrip last]) := by
  have spaces : ∀ c ∈ blanks.flatMap fun line => '\n' :: line, isSpace c = true := by
    intro c mem
    obtain ⟨line, within, char⟩ := List.mem_flatMap.mp mem
    rcases List.mem_cons.mp char with rfl | inside
    · rfl
    · exact List.all_eq_true.mp (blank line within) c inside
  rw [intercalate_append (by simp), rstrip_append_spaces spaces]
  by_cases only : lines = []
  · subst only
    rw [List.nil_append, List.nil_append, List.intercalate_singleton, List.intercalate_singleton]
  · rw [intercalate_append only, intercalate_append only]
    simp only [List.flatMap_cons, List.flatMap_nil, List.append_nil]
    rw [List.append_cons, rstrip_append_of_not_isBlank _ dark, ← List.append_cons]

/-- Trimming the end first changes nothing. -/
theorem strip_rstrip (s : Str) : strip (rstrip s) = strip s := by
  induction s using List.reverseRecOn with
  | nil => rfl
  | append_singleton s d ih =>
      rw [rstrip, List.rdropWhile_concat, ← rstrip]
      split
      next space =>
        rw [ih, strip, strip, lstrip, lstrip, List.dropWhile_append]
        split
        next none =>
          rw [List.isEmpty_iff.mp none]
          simp [space]
        next =>
          exact (rstrip_append_spaces (List.forall_mem_singleton.mpr space)).symm
      next => rfl

/-- The last line that is not blank. -/
def lastLine (lines : List Str) : Option Str := lines.reverse.find? fun line => !isBlank line

theorem lastLine_cons (line : Str) (lines : List Str) :
    lastLine (line :: lines) =
      (lastLine lines).or (if isBlank line then none else some line) := by
  rw [lastLine, List.reverse_cons, List.find?_append, ← lastLine]
  cases blank : isBlank line <;> simp [blank]

theorem lastLine_append_of_blank {blanks : List Str} (lines : List Str)
    (blank : ∀ line ∈ blanks, isBlank line = true) :
    lastLine (lines ++ blanks) = lastLine lines := by
  have none : blanks.reverse.find? (fun line => !isBlank line) = none := by
    apply List.find?_eq_none.mpr
    intro line mem
    simp [blank line (List.mem_reverse.mp mem)]
  rw [lastLine, List.reverse_append, List.find?_append, none, Option.none_or]
  rfl

theorem lastLine_concat {line : Str} (lines : List Str) (dark : isBlank line = false) :
    lastLine (lines ++ [line]) = some line := by
  simp [lastLine, dark]

theorem exists_lastLine {lines : List Str} {line : Str} (mem : line ∈ lines)
    (dark : isBlank line = false) : ∃ last, lastLine lines = some last := by
  apply Option.isSome_iff_exists.mp
  rw [lastLine, List.find?_isSome]
  exact ⟨line, List.mem_reverse.mpr mem, by rw [dark]; rfl⟩

theorem exists_split_of_lastLine {lines : List Str} {last : Str}
    (found : lastLine lines = some last) :
    isBlank last = false ∧ ∃ init blanks, lines = init ++ [last] ++ blanks ∧
      ∀ line ∈ blanks, isBlank line = true := by
  obtain ⟨dark, back, front, split, blank⟩ := List.find?_eq_some_iff_append.mp found
  refine ⟨by simpa using dark, front.reverse, back.reverse, ?_, ?_⟩
  · rw [← List.reverse_reverse lines, split]
    simp
  · intro line mem
    simpa using blank line (List.mem_reverse.mp mem)

/-- Joined lines that are trimmed and ended with a newline come back without the blank ones at
the end, the last of them trimmed. -/
theorem splitlines_rstrip_join {init blanks : List Str} {last : Str}
    (dark : isBlank last = false) (blank : ∀ line ∈ blanks, isBlank line = true)
    (clean : ∀ l ∈ init ++ [last] ++ blanks, IsLine l) :
    splitlines (rstrip (List.intercalate ['\n'] (init ++ [last] ++ blanks)) ++ ['\n']) =
      init ++ [rstrip last] := by
  rw [rstrip_join dark blank, splitlines_join (by simp)]
  rw [List.forall_mem_append, List.forall_mem_append] at clean
  rw [List.forall_mem_append]
  refine ⟨clean.1.1, List.forall_mem_singleton.mpr fun c mem => ?_⟩
  exact List.forall_mem_singleton.mp clean.1.2 c ((List.rdropWhile_prefix isSpace last).mem mem)

end Ecube.TextLines
