import Ecube.Basic.Text
import Mathlib.Data.List.Nodup

/-!
Settings in a text file with lines `KEY=value`.

The file is read with universal newlines, and the last line for a key counts. A setting is
written into the first line for its key, or at the end of the file.

* `writeLines_cons`: a line gets the first setting that it sets, or it stays.
* `not_isBreak_of_read`: nothing that is read has a line break.
-/

namespace Ecube.EnvFile

open PosixPath Text

/-! ### Lines -/

def isBreak (c : Char) : Bool := c = '\n' || c = '\r'

/-- Universal newlines: a carriage return and a newline, or one of them alone, end a line. -/
def translate : Str → Str
  | [] => []
  | c :: rest =>
      if c = '\r' then if rest.head? = some '\n' then translate rest else '\n' :: translate rest
      else c :: translate rest

/-- The lines of a text, with their newlines. -/
def splitLines : Str → List Str
  | [] => []
  | c :: rest =>
      if c = '\n' then ['\n'] :: splitLines rest
      else
        match splitLines rest with
        | [] => [[c]]
        | line :: lines => (c :: line) :: lines

def readLines (content : Str) : List Str := splitLines (translate content)

/-- The last line of the file has its newline. -/
def EndsWithNewline (content : Str) : Prop := ∀ c ∈ (translate content).getLast?, c = '\n'

instance (content : Str) : Decidable (EndsWithNewline content) :=
  decidable_of_iff ((translate content).getLast?.all (· = '\n') = true) (by
    rw [Option.all_eq_true_iff_get]
    constructor
    · intro h c mem
      simpa [Option.mem_def.mp mem] using h
    · intro h some
      exact decide_eq_true (h _ (Option.get_mem some)))

theorem cr_not_mem_translate (s : Str) : '\r' ∉ translate s := by
  induction s with
  | nil => exact List.not_mem_nil
  | cons c rest ih =>
      rw [translate]
      split
      · split
        · exact ih
        · intro mem
          rcases List.mem_cons.mp mem with same | later
          · exact absurd same (by decide)
          · exact ih later
      next other =>
        intro mem
        rcases List.mem_cons.mp mem with same | later
        · exact other same.symm
        · exact ih later

theorem translate_of_not_mem {s : Str} (h : '\r' ∉ s) : translate s = s := by
  induction s with
  | nil => rfl
  | cons c rest ih =>
      rw [List.mem_cons, not_or] at h
      rw [translate, if_neg (Ne.symm h.1), ih h.2]

theorem translate_translate (s : Str) : translate (translate s) = translate s :=
  translate_of_not_mem (cr_not_mem_translate s)

/-- A line with its newline. -/
def IsLine (line : Str) : Prop := ∃ body, line = body ++ ['\n'] ∧ ∀ c ∈ body, isBreak c = false

theorem splitLines_append {body rest : Str} (h : ∀ c ∈ body, isBreak c = false) :
    splitLines (body ++ '\n' :: rest) = (body ++ ['\n']) :: splitLines rest := by
  induction body with
  | nil => rw [List.nil_append, splitLines, if_pos rfl, List.nil_append]
  | cons c body ih =>
      have other : c ≠ '\n' := by
        rintro rfl
        exact absurd (h _ List.mem_cons_self) (by decide)
      rw [List.cons_append, splitLines, if_neg other,
        ih fun d mem => h d (List.mem_cons_of_mem c mem)]
      rfl

theorem splitLines_of_plain {tail : Str} (h : ∀ c ∈ tail, isBreak c = false) :
    splitLines tail = if tail = [] then [] else [tail] := by
  induction tail with
  | nil => rfl
  | cons c tail ih =>
      have other : c ≠ '\n' := by
        rintro rfl
        exact absurd (h _ List.mem_cons_self) (by decide)
      rw [splitLines, if_neg other, ih fun d mem => h d (List.mem_cons_of_mem c mem)]
      cases tail with
      | nil => rfl
      | cons d tail => rfl

theorem splitLines_flatten_append {lines : List Str} {tail : Str}
    (h : ∀ line ∈ lines, IsLine line) (plain : ∀ c ∈ tail, isBreak c = false) :
    splitLines (lines.flatten ++ tail) = lines ++ if tail = [] then [] else [tail] := by
  induction lines with
  | nil => exact splitLines_of_plain plain
  | cons line lines ih =>
      obtain ⟨body, rfl, quiet⟩ := h line List.mem_cons_self
      rw [List.flatten_cons, List.append_assoc, List.append_assoc, List.singleton_append,
        splitLines_append quiet, ih fun other mem => h other (List.mem_cons_of_mem _ mem)]
      rfl

/-- A text without carriage returns is made up of lines and a rest without a newline. -/
theorem exists_lines {s : Str} (clean : '\r' ∉ s) : ∃ (lines : List Str) (tail : Str),
    s = lines.flatten ++ tail ∧ (∀ line ∈ lines, IsLine line) ∧
      ∀ c ∈ tail, isBreak c = false := by
  induction s with
  | nil =>
      exact ⟨[], [], rfl, fun _ mem => absurd mem List.not_mem_nil,
        fun _ mem => absurd mem List.not_mem_nil⟩
  | cons c rest ih =>
      rw [List.mem_cons, not_or] at clean
      obtain ⟨lines, tail, rfl, complete, plain⟩ := ih clean.2
      by_cases newline : c = '\n'
      · subst newline
        refine ⟨['\n'] :: lines, tail, rfl, fun line mem => ?_, plain⟩
        rcases List.mem_cons.mp mem with rfl | later
        · exact ⟨[], rfl, fun _ mem => absurd mem List.not_mem_nil⟩
        · exact complete line later
      · have quiet : isBreak c = false := by
          rw [isBreak, Bool.or_eq_false_iff, decide_eq_false_iff_not, decide_eq_false_iff_not]
          exact ⟨newline, Ne.symm clean.1⟩
        cases lines with
        | nil =>
            refine ⟨[], c :: tail, rfl, complete, fun d mem => ?_⟩
            rcases List.mem_cons.mp mem with rfl | later
            · exact quiet
            · exact plain d later
        | cons line lines =>
            refine ⟨(c :: line) :: lines, tail, rfl, fun other mem => ?_, plain⟩
            rcases List.mem_cons.mp mem with rfl | later
            · obtain ⟨body, rfl, silent⟩ := complete line List.mem_cons_self
              refine ⟨c :: body, rfl, fun d mem => ?_⟩
              rcases List.mem_cons.mp mem with rfl | later
              · exact quiet
              · exact silent d later
            · exact complete other (List.mem_cons_of_mem line later)

/-- The lines of a file, and the rest after the last newline. -/
theorem readLines_eq (content : Str) : ∃ (lines : List Str) (tail : Str),
    translate content = lines.flatten ++ tail ∧ (∀ line ∈ lines, IsLine line) ∧
      (∀ c ∈ tail, isBreak c = false) ∧
      readLines content = lines ++ if tail = [] then [] else [tail] := by
  obtain ⟨lines, tail, eq, complete, plain⟩ := exists_lines (cr_not_mem_translate content)
  exact ⟨lines, tail, eq, complete, plain, by
    rw [readLines, eq, splitLines_flatten_append complete plain]⟩

theorem isLine_of_endsWithNewline {content : Str} (h : EndsWithNewline content) :
    ∀ line ∈ readLines content, IsLine line := by
  obtain ⟨lines, tail, eq, complete, plain, read⟩ := readLines_eq content
  have empty : tail = [] := by
    cases last : tail.getLast? with
    | none => exact List.getLast?_eq_none_iff.mp last
    | some c =>
        have newline : c = '\n' := h c (by
          rw [eq, List.getLast?_append, last]
          rfl)
        subst newline
        exact absurd (plain _ (List.mem_of_getLast? last)) (by decide)
  rw [read, if_pos empty, List.append_nil]
  exact complete

theorem readLines_flatten {lines : List Str} (h : ∀ line ∈ lines, IsLine line) :
    readLines lines.flatten = lines := by
  have clean : '\r' ∉ lines.flatten := by
    intro mem
    obtain ⟨line, within, found⟩ := List.mem_flatten.mp mem
    obtain ⟨body, rfl, plain⟩ := h line within
    rcases List.mem_append.mp found with early | last
    · exact absurd (plain _ early) (by decide)
    · exact absurd (List.mem_singleton.mp last) (by decide)
  have parts := @splitLines_flatten_append lines [] h fun _ mem => absurd mem List.not_mem_nil
  rw [List.append_nil, if_pos rfl, List.append_nil] at parts
  rw [readLines, translate_of_not_mem clean, parts]

/-! ### Settings -/

/-- The key of a line and what is written after it. -/
def entry (line : Str) : Option (Str × Str) :=
  if (strip line).head? = some '#' then none
  else (cut '=' (strip line)).map fun parts => (strip parts.1, parts.2)

/-- What the lines hold for a key. -/
def valuesOf (key : Str) (lines : List Str) : List Str :=
  lines.filterMap fun line => (entry line).bind fun e => if e.1 = key then some e.2 else none

/-- No two lines are for the same key. -/
def OneLinePerKey (content : Str) : Prop :=
  (((readLines content).filterMap entry).map Prod.fst).Nodup

instance (content : Str) : Decidable (OneLinePerKey content) :=
  inferInstanceAs (Decidable (List.Nodup _))

/-- The last line for a key counts. -/
def read (content key : Str) : Option Str := (valuesOf key (readLines content)).getLast?

/-- Whether a line starts with the key and an equals sign, maybe with blanks in between. -/
def sets (key line : Str) : Bool :=
  key <+: line && ((line.drop key.length).dropWhile isSpace).head? = some '='

/-- No line sets the key. -/
def Unset (key : Str) (lines : List Str) : Prop := ∀ line ∈ lines, sets key line = false

instance (key : Str) (lines : List Str) : Decidable (Unset key lines) :=
  inferInstanceAs (Decidable (∀ line ∈ lines, sets key line = false))

def assignment (key value : Str) : Str := key ++ '=' :: value ++ ['\n']

/-- The lines with the new values, and the settings that have no line. -/
def writeLines : List (Str × Str) → List Str → List Str × List (Str × Str)
  | remaining, [] => ([], remaining)
  | remaining, line :: lines =>
      match remaining.find? fun u => sets u.1 line with
      | some (key, value) =>
          let rest := writeLines (remaining.filter (·.1 ≠ key)) lines
          (assignment key value :: rest.1, rest.2)
      | none =>
          let rest := writeLines remaining lines
          (line :: rest.1, rest.2)

def write (updates : List (Str × Str)) (content : Str) : Str :=
  if updates = [] then content
  else
    let lines := writeLines updates (readLines content)
    (lines.1 ++ lines.2.map fun u => assignment u.1 u.2).flatten

/-! ### One line -/

/-- A text that can stand for a setting. -/
def IsKey (key : Str) : Prop := key ≠ [] ∧ ∀ c ∈ key, isSpace c = false ∧ c ≠ '=' ∧ c ≠ '#'

/-- The entry of a line that starts with a key. -/
theorem entry_of_key {key blanks value : Str} (valid : IsKey key)
    (spaces : ∀ c ∈ blanks, isSpace c = true) :
    entry (key ++ blanks ++ '=' :: value) = some (key, rstrip value) := by
  obtain ⟨c, rest, rfl⟩ := List.exists_cons_of_ne_nil valid.1
  have first := valid.2 c List.mem_cons_self
  have line : strip (c :: rest ++ blanks ++ '=' :: value) =
      c :: rest ++ blanks ++ '=' :: rstrip value := by
    rw [List.cons_append, List.cons_append, strip_cons first.1, ← List.cons_append,
      ← List.cons_append, rstrip_append_cons (by decide)]
  have absent : '=' ∉ c :: rest ++ blanks := by
    intro mem
    rcases List.mem_append.mp mem with early | blank
    · exact (valid.2 '=' early).2.1 rfl
    · exact absurd (spaces '=' blank) (by decide)
  have named : strip (c :: rest ++ blanks) = c :: rest := by
    rw [List.cons_append, strip_cons first.1, ← List.cons_append, rstrip_append_spaces spaces,
      ← strip_cons first.1, strip_of_no_space fun d mem => (valid.2 d mem).1]
  rw [entry, line, cut_append_cons absent, Option.map_some, named, if_neg]
  intro hash
  exact first.2.2 (Option.some.inj hash)

theorem entry_assignment {key value : Str} (valid : IsKey key) :
    entry (assignment key value) = some (key, rstrip value) := by
  have line := @entry_of_key key [] (value ++ ['\n']) valid
    fun _ mem => absurd mem List.not_mem_nil
  rw [List.append_nil, rstrip_append_spaces fun c mem => by rw [List.mem_singleton.mp mem]; rfl]
    at line
  rw [assignment, List.append_assoc]
  exact line

theorem entry_of_sets {key line : Str} (valid : IsKey key) (h : sets key line = true) :
    ∃ value, entry line = some (key, value) := by
  rw [sets, Bool.and_eq_true, decide_eq_true_eq, decide_eq_true_eq] at h
  obtain ⟨⟨rest, rfl⟩, sign⟩ := h
  rw [List.drop_left] at sign
  obtain ⟨value, eq⟩ : ∃ value, rest.dropWhile isSpace = '=' :: value := by
    cases stop : rest.dropWhile isSpace with
    | nil => rw [stop] at sign; exact absurd sign nofun
    | cons c value =>
        rw [stop] at sign
        exact ⟨value, by rw [Option.some.inj sign]⟩
  refine ⟨rstrip value, ?_⟩
  rw [← List.takeWhile_append_dropWhile (p := isSpace) (l := rest), eq, ← List.append_assoc]
  exact entry_of_key valid fun c mem => List.mem_takeWhile_imp mem

/-! ### Writing and reading back -/

theorem valuesOf_cons (key line : Str) (lines : List Str) :
    valuesOf key (line :: lines) =
      ((entry line).bind fun e => if e.1 = key then some e.2 else none).toList ++
        valuesOf key lines := by
  rw [valuesOf, List.filterMap_cons]
  cases (entry line).bind fun e => if e.1 = key then some e.2 else none <;> rfl

theorem valuesOf_cons_of_entry {key line value : Str} (h : entry line = some (key, value))
    (lines : List Str) : valuesOf key (line :: lines) = value :: valuesOf key lines := by
  simp [valuesOf_cons, h]

theorem valuesOf_cons_of_other {key other line value : Str} (ne : other ≠ key)
    (h : entry line = some (other, value)) (lines : List Str) :
    valuesOf key (line :: lines) = valuesOf key lines := by
  simp [valuesOf_cons, h, ne]

theorem length_valuesOf_le {content : Str} (h : OneLinePerKey content) (key : Str) :
    (valuesOf key (readLines content)).length ≤ 1 := by
  rw [OneLinePerKey] at h
  generalize readLines content = lines at h ⊢
  induction lines with
  | nil => exact Nat.zero_le 1
  | cons line lines ih =>
      rw [List.filterMap_cons] at h
      cases named : entry line with
      | none =>
          rw [named] at h
          rw [valuesOf_cons, named]
          exact ih h
      | some e =>
          rw [named, List.map_cons, List.nodup_cons] at h
          rw [valuesOf_cons, named, Option.bind_some]
          split
          next same =>
            have none : valuesOf key lines = [] := by
              rw [valuesOf, List.filterMap_eq_nil_iff]
              intro other mem
              rw [Option.bind_eq_none_iff]
              intro e' named'
              rw [if_neg]
              intro same'
              apply h.1
              rw [same, ← same']
              exact List.mem_map_of_mem (List.mem_filterMap.mpr ⟨other, mem, named'⟩)
            rw [none]
            exact Nat.le_refl 1
          next => exact ih h.2

/-- The updates name keys, each once. -/
structure Valid (updates : List (Str × Str)) : Prop where
  keys : ∀ u ∈ updates, IsKey u.1
  nodup : (updates.map Prod.fst).Nodup

theorem Valid.filter {updates : List (Str × Str)} (valid : Valid updates)
    (p : Str × Str → Bool) : Valid (updates.filter p) :=
  ⟨fun u mem => valid.keys u (List.mem_filter.mp mem).1,
    valid.nodup.sublist (List.filter_sublist.map Prod.fst)⟩

/-- A key is written with one value. -/
theorem Valid.eq_of_mem {updates : List (Str × Str)} (valid : Valid updates) {u v : Str × Str}
    (hu : u ∈ updates) (hv : v ∈ updates) (same : u.1 = v.1) : u = v :=
  List.inj_on_of_nodup_map valid.nodup hu hv same

/-- The settings that have no line are among those to be written. -/
theorem mem_of_mem_left {updates : List (Str × Str)} {lines : List Str} {u : Str × Str}
    (h : u ∈ (writeLines updates lines).2) : u ∈ updates := by
  induction lines generalizing updates with
  | nil => exact h
  | cons line lines ih =>
      rw [writeLines] at h
      split at h
      · exact (List.mem_filter.mp (ih h)).1
      · exact ih h

theorem valid_left {updates : List (Str × Str)} (valid : Valid updates) (lines : List Str) :
    Valid (writeLines updates lines).2 := by
  induction lines generalizing updates with
  | nil => exact valid
  | cons line lines ih =>
      rw [writeLines]
      split
      · exact ih (valid.filter _)
      · exact ih valid

/-- A line gets the first setting that it sets, or it stays. -/
theorem writeLines_cons {updates : List (Str × Str)} (valid : Valid updates) (line : Str)
    (lines : List Str) :
    (∃ key value old, (key, value) ∈ updates ∧ sets key line = true ∧
        entry line = some (key, old) ∧
        writeLines updates (line :: lines) =
          (assignment key value :: (writeLines (updates.filter (·.1 ≠ key)) lines).1,
            (writeLines (updates.filter (·.1 ≠ key)) lines).2)) ∨
      (∀ u ∈ updates, sets u.1 line = false) ∧
        writeLines updates (line :: lines) =
          (line :: (writeLines updates lines).1, (writeLines updates lines).2) := by
  rw [writeLines]
  split
  next key value found =>
    have mem := List.mem_of_find?_eq_some found
    have starts : sets key line = true := by simpa using List.find?_some found
    obtain ⟨old, was⟩ := entry_of_sets (valid.keys _ mem) starts
    exact .inl ⟨key, value, old, mem, starts, was, rfl⟩
  next missing =>
    exact .inr ⟨fun u mem => Bool.eq_false_iff.mpr (List.find?_eq_none.mp missing u mem), rfl⟩

/-- A key is read from the same lines unless a new value for it has a line. -/
theorem valuesOf_writeLines {updates : List (Str × Str)} (valid : Valid updates) {key : Str}
    {lines : List Str} (untouched : ∀ u ∈ updates, u.1 = key → Unset key lines) :
    valuesOf key (writeLines updates lines).1 = valuesOf key lines := by
  induction lines generalizing updates with
  | nil => rfl
  | cons line lines ih =>
      have later : ∀ u ∈ updates, u.1 = key → Unset key lines := fun u mem same =>
        (List.forall_mem_cons.mp (untouched u mem same)).2
      rcases writeLines_cons valid line lines with
        ⟨other, value, old, mem, starts, was, eq⟩ | ⟨-, eq⟩
      · have differs : other ≠ key := by
          rintro rfl
          have free := untouched _ mem rfl line List.mem_cons_self
          rw [starts] at free
          cases free
        rw [eq, valuesOf_cons_of_other differs (entry_assignment (valid.keys _ mem)),
          valuesOf_cons_of_other differs was]
        exact ih (valid.filter _) fun u kept => later u (List.mem_filter.mp kept).1
      · rw [eq, valuesOf_cons, valuesOf_cons, ih valid later]

/-- The lines for a key that is not written stay. -/
theorem valuesOf_writeLines_of_not_mem {updates : List (Str × Str)} (valid : Valid updates)
    {key : Str} (absent : ∀ u ∈ updates, u.1 ≠ key) (lines : List Str) :
    valuesOf key (writeLines updates lines).1 = valuesOf key lines :=
  valuesOf_writeLines valid fun u mem same => absurd same (absent u mem)

theorem isLine_assignment {key value : Str} (valid : IsKey key)
    (plain : ∀ c ∈ value, isBreak c = false) : IsLine (assignment key value) := by
  refine ⟨key ++ '=' :: value, rfl, fun c mem => ?_⟩
  rcases List.mem_append.mp mem with early | late
  · have space := (valid.2 c early).1
    cases break_ : isBreak c with
    | false => rfl
    | true =>
        rw [isBreak, Bool.or_eq_true, decide_eq_true_eq, decide_eq_true_eq] at break_
        rcases break_ with rfl | rfl
        · exact absurd space (by decide)
        · exact absurd space (by decide)
  · rcases List.mem_cons.mp late with rfl | within
    · rfl
    · exact plain c within

theorem isLine_writeLines {updates : List (Str × Str)} (valid : Valid updates)
    (plain : ∀ u ∈ updates, ∀ c ∈ u.2, isBreak c = false) {lines : List Str}
    (complete : ∀ line ∈ lines, IsLine line) :
    ∀ line ∈ (writeLines updates lines).1, IsLine line := by
  induction lines generalizing updates with
  | nil => exact complete
  | cons first lines ih =>
      have later : ∀ line ∈ lines, IsLine line :=
        fun line mem => complete line (List.mem_cons_of_mem first mem)
      rcases writeLines_cons valid first lines with
        ⟨key, value, -, mem, -, -, eq⟩ | ⟨-, eq⟩ <;> rw [eq, List.forall_mem_cons]
      · exact ⟨isLine_assignment (valid.keys _ mem) (plain _ mem),
          ih (valid.filter _) (fun u kept => plain u (List.mem_filter.mp kept).1) later⟩
      · exact ⟨complete first List.mem_cons_self, ih valid plain later⟩

theorem valuesOf_assignments_of_not_mem {updates : List (Str × Str)} (valid : Valid updates)
    {key : Str} (absent : ∀ u ∈ updates, u.1 ≠ key) :
    valuesOf key (updates.map fun u => assignment u.1 u.2) = [] := by
  rw [valuesOf, List.filterMap_eq_nil_iff]
  intro line mem
  obtain ⟨u, within, rfl⟩ := List.mem_map.mp mem
  rw [entry_assignment (valid.keys u within), Option.bind_some, if_neg (absent u within)]

theorem getLast_valuesOf_assignments {updates : List (Str × Str)} (valid : Valid updates)
    {key value : Str} (mem : (key, value) ∈ updates) :
    (valuesOf key (updates.map fun u => assignment u.1 u.2)).getLast? =
      some (rstrip value) := by
  have found : rstrip value ∈ valuesOf key (updates.map fun u => assignment u.1 u.2) := by
    apply List.mem_filterMap.mpr
    refine ⟨assignment key value, List.mem_map.mpr ⟨_, mem, rfl⟩, ?_⟩
    rw [entry_assignment (valid.keys _ mem), Option.bind_some, if_pos rfl]
  have only : ∀ v ∈ valuesOf key (updates.map fun u => assignment u.1 u.2), v = rstrip value := by
    intro v within
    obtain ⟨line, listed, holds⟩ := List.mem_filterMap.mp within
    obtain ⟨u, named, rfl⟩ := List.mem_map.mp listed
    rw [entry_assignment (valid.keys u named), Option.bind_some] at holds
    split at holds
    next same =>
      cases valid.eq_of_mem named mem same
      exact (Option.some.inj holds).symm
    next => exact absurd holds nofun
  rw [List.getLast?_eq_some_getLast (List.ne_nil_of_mem found)]
  exact congrArg some (only _ (List.getLast_mem _))

/-! ### What can be read -/

theorem mem_of_mem_strip {c : Char} {s : Str} (h : c ∈ strip s) : c ∈ s :=
  (List.dropWhile_suffix isSpace).subset ((List.rdropWhile_prefix isSpace _).subset h)

theorem strip_append_newline (body : Str) : strip (body ++ ['\n']) = strip body := by
  rw [strip, strip, lstrip, lstrip, List.dropWhile_append]
  split
  next blank =>
    rw [List.isEmpty_iff.mp blank]
    rfl
  next =>
    exact rstrip_append_spaces fun c mem => by rw [List.mem_singleton.mp mem]; rfl

/-- A line has no break besides its newline, which is stripped. -/
theorem not_isBreak_of_mem_strip {content line : Str} (h : line ∈ readLines content) :
    ∀ c ∈ strip line, isBreak c = false := by
  obtain ⟨lines, tail, -, complete, plain, read⟩ := readLines_eq content
  rw [read] at h
  intro c mem
  rcases List.mem_append.mp h with early | last
  · obtain ⟨body, rfl, quiet⟩ := complete line early
    rw [strip_append_newline] at mem
    exact quiet c (mem_of_mem_strip mem)
  · split at last
    · exact absurd last List.not_mem_nil
    · rw [List.mem_singleton.mp last] at mem
      exact plain c (mem_of_mem_strip mem)

/-- Nothing that is read has a line break. -/
theorem not_isBreak_of_read {content key value : Str} (h : read content key = some value) :
    ∀ c ∈ value, isBreak c = false := by
  obtain ⟨line, listed, holds⟩ := List.mem_filterMap.mp (List.mem_of_getLast? h)
  obtain ⟨e, named, same⟩ := Option.bind_eq_some_iff.mp holds
  split at same
  next =>
    cases same
    rw [entry] at named
    split at named
    · exact absurd named nofun
    · obtain ⟨parts, cutAt, rfl⟩ := Option.map_eq_some_iff.mp named
      intro c mem
      apply not_isBreak_of_mem_strip listed c
      rw [append_of_cut cutAt]
      exact List.mem_append_right _ (List.mem_cons_of_mem _ mem)
  next => exact absurd same nofun

end Ecube.EnvFile
