import Ecube.Basic.EnvFile

/-!
What the settings writer does to the lines of a file.

A key that a line sets gets its new value in the first such line, and the other lines stay
(`valuesOf_writeLines_of_set`); the other keys are appended (`left_eq`). A file that is
written again has each key in one line (`valuesOf_afterFirst_newLines`).

* `read_write_mem`, `read_write_of_not_mem`: values without line breaks are read back as
  they were written when each key has one line, and the other keys are read as before.
-/

namespace Ecube.EnvFile

open PosixPath Text

/-- The lines behind the first one that sets a key. -/
def afterFirst (key : Str) (lines : List Str) : List Str :=
  (lines.dropWhile fun line => !sets key line).tail

/-! ### What the lines hold after writing -/

theorem valuesOf_append (key : Str) (lines more : List Str) :
    valuesOf key (lines ++ more) = valuesOf key lines ++ valuesOf key more :=
  List.filterMap_append

/-- A line that is not for the key does not show. -/
theorem valuesOf_cons_of_unnamed {key line : Str} (h : ∀ value, entry line ≠ some (key, value))
    (lines : List Str) : valuesOf key (line :: lines) = valuesOf key lines := by
  rw [valuesOf_cons, Option.bind_eq_none_iff.mpr]
  · rfl
  · intro e named
    exact if_neg fun same => h e.2 (named.trans (congrArg some (Prod.ext same rfl)))

/-- A line sets one key. -/
theorem sets_unique {key other line : Str} (valid : IsKey key) (named : IsKey other)
    (h : sets key line = true) (also : sets other line = true) : key = other := by
  obtain ⟨value, here⟩ := entry_of_sets valid h
  obtain ⟨same, there⟩ := entry_of_sets named also
  exact (Prod.mk.inj (Option.some.inj (here.symm.trans there))).1

variable {updates : List (Str × Str)}

/-- The settings that are appended are those that no line sets, in their order. -/
theorem left_eq (valid : Valid updates) (lines : List Str) :
    (writeLines updates lines).2 = updates.filter fun u => decide (Unset u.1 lines) := by
  induction lines generalizing updates with
  | nil =>
      rw [writeLines, List.filter_eq_self.mpr]
      exact fun u _ => decide_eq_true fun line mem => absurd mem List.not_mem_nil
  | cons line lines ih =>
      rcases writeLines_cons valid line lines with
        ⟨key, value, -, mem, starts, -, eq⟩ | ⟨free, eq⟩
      · rw [eq, ih (valid.filter _), List.filter_filter]
        refine List.filter_congr fun u within => ?_
        have first : sets u.1 line = false ↔ u.1 ≠ key := by
          constructor
          · rintro plain rfl
            rw [starts] at plain
            cases plain
          · exact fun other => Bool.eq_false_iff.mpr fun also =>
              other (sets_unique (valid.keys u within) (valid.keys _ mem) also starts)
        rw [Bool.eq_iff_iff, Bool.and_eq_true, decide_eq_true_eq, decide_eq_true_eq,
          decide_eq_true_eq, Unset, Unset, List.forall_mem_cons, first, and_comm]
      · rw [eq, ih valid]
        refine List.filter_congr fun u within => ?_
        rw [decide_eq_decide, Unset, Unset, List.forall_mem_cons, and_iff_right (free u within)]

theorem mem_left_iff (valid : Valid updates) {lines : List Str} {u : Str × Str} :
    u ∈ (writeLines updates lines).2 ↔ u ∈ updates ∧ Unset u.1 lines := by
  rw [left_eq valid, List.mem_filter, decide_eq_true_eq]

/-- A key that no line sets keeps the lines it is read from. -/
theorem valuesOf_writeLines_of_unset (valid : Valid updates) {key : Str} {lines : List Str}
    (unset : Unset key lines) : valuesOf key (writeLines updates lines).1 = valuesOf key lines :=
  valuesOf_writeLines valid fun _ _ _ => unset

/-- A key that the first line does not set is set by a later one. -/
theorem set_of_set_cons {key line : Str} {lines : List Str} (isSet : ¬Unset key (line :: lines))
    (free : sets key line = false) : ¬Unset key lines :=
  fun unset => isSet (List.forall_mem_cons.mpr ⟨free, unset⟩)

theorem afterFirst_of_unset {key : Str} {lines : List Str} (unset : Unset key lines) :
    afterFirst key lines = [] := by
  rw [afterFirst, List.dropWhile_eq_nil_iff.mpr fun line mem => by rw [unset line mem]; rfl]
  rfl

theorem afterFirst_cons (key line : Str) (lines : List Str) :
    afterFirst key (line :: lines) = if sets key line then lines else afterFirst key lines := by
  rw [afterFirst, List.dropWhile_cons]
  cases sets key line <;> rfl

/-- A key that a line sets has its new value there, and its further lines stay. -/
theorem valuesOf_writeLines_of_set (valid : Valid updates) {key value : Str}
    (mem : (key, value) ∈ updates) {lines : List Str} (isSet : ¬Unset key lines) :
    ∃ front, valuesOf key (writeLines updates lines).1 =
      front ++ rstrip value :: valuesOf key (afterFirst key lines) := by
  induction lines generalizing updates with
  | nil => exact absurd (fun _ within => absurd within List.not_mem_nil) isSet
  | cons line lines ih =>
      rw [afterFirst_cons]
      rcases writeLines_cons valid line lines with
        ⟨other, new, old, within, starts, was, eq⟩ | ⟨free, eq⟩ <;> rw [eq]
      · have named : IsKey other := valid.keys _ within
        by_cases same : other = key
        · subst same
          have equal : new = value := (Prod.mk.inj (valid.eq_of_mem within mem rfl)).2
          have gone : ∀ u ∈ updates.filter (·.1 ≠ other), u.1 ≠ other :=
            fun u kept => of_decide_eq_true (List.mem_filter.mp kept).2
          refine ⟨[], ?_⟩
          rw [if_pos starts, valuesOf_cons_of_entry (entry_assignment named), equal,
            valuesOf_writeLines_of_not_mem (valid.filter _) gone]
          rfl
        · have free : sets key line = false := Bool.eq_false_iff.mpr fun also =>
            same (sets_unique named (valid.keys _ mem) starts also)
          have kept : (key, value) ∈ updates.filter (·.1 ≠ other) :=
            List.mem_filter.mpr ⟨mem, decide_eq_true (Ne.symm same)⟩
          rw [free, valuesOf_cons_of_other same (entry_assignment named)]
          exact ih (valid.filter _) kept (set_of_set_cons isSet free)
      · obtain ⟨front, rest⟩ := ih valid mem (set_of_set_cons isSet (free _ mem))
        rw [free _ mem, valuesOf_cons, rest, ← List.append_assoc]
        exact ⟨_, rfl⟩

/-! ### Files whose lines are read as they are written -/

/-- The lines to be written: those of the file with the new values, and the new settings. -/
def newLines (updates : List (Str × Str)) (lines : List Str) : List Str :=
  (writeLines updates lines).1 ++ (writeLines updates lines).2.map fun u => assignment u.1 u.2

theorem valuesOf_newLines_of_not_mem (valid : Valid updates) {key : Str}
    (absent : ∀ u ∈ updates, u.1 ≠ key) (lines : List Str) :
    valuesOf key (newLines updates lines) = valuesOf key lines := by
  rw [newLines, valuesOf_append, valuesOf_writeLines_of_not_mem valid absent,
    valuesOf_assignments_of_not_mem (valid_left valid lines), List.append_nil]
  exact fun u left => absent u (mem_of_mem_left left)

/-- An updated key reads its new value from the lines unless a further line has another one. -/
theorem getLast_valuesOf_newLines (valid : Valid updates) {u : Str × Str} (mem : u ∈ updates)
    (lines : List Str) :
    (valuesOf u.1 (newLines updates lines)).getLast? = some (rstrip u.2) ↔
      ∀ value ∈ (valuesOf u.1 (afterFirst u.1 lines)).getLast?, value = rstrip u.2 := by
  rw [newLines, valuesOf_append, List.getLast?_append]
  by_cases unset : Unset u.1 lines
  · have appended := getLast_valuesOf_assignments (valid_left valid lines)
      ((mem_left_iff valid).mpr ⟨mem, unset⟩)
    rw [appended, afterFirst_of_unset unset]
    refine ⟨fun _ value listed => ?_, fun _ => rfl⟩
    cases listed
  · have gone : ∀ w ∈ (writeLines updates lines).2, w.1 ≠ u.1 := fun w left same =>
      unset (same ▸ ((mem_left_iff valid).mp left).2)
    obtain ⟨front, eq⟩ := valuesOf_writeLines_of_set valid mem unset
    rw [valuesOf_assignments_of_not_mem (valid_left valid lines) gone, eq,
      List.getLast?_append, List.getLast?_cons]
    cases (valuesOf u.1 (afterFirst u.1 lines)).getLast? <;> simp

theorem isLine_newLines (valid : Valid updates)
    (plain : ∀ u ∈ updates, ∀ c ∈ u.2, isBreak c = false) {lines : List Str}
    (complete : ∀ line ∈ lines, IsLine line) : ∀ line ∈ newLines updates lines, IsLine line := by
  intro line mem
  rcases List.mem_append.mp mem with old | new
  · exact isLine_writeLines valid plain complete line old
  · obtain ⟨u, left, rfl⟩ := List.mem_map.mp new
    have within := mem_of_mem_left left
    exact isLine_assignment (valid.keys u within) (plain u within)

theorem valuesOf_afterFirst_of_single {key : Str} (named : IsKey key) {lines : List Str}
    (single : (valuesOf key lines).length ≤ 1) : valuesOf key (afterFirst key lines) = [] := by
  induction lines with
  | nil => rfl
  | cons line lines ih =>
      rw [afterFirst_cons]
      cases here : sets key line with
      | true =>
          obtain ⟨value, entry⟩ := entry_of_sets named here
          rw [valuesOf_cons_of_entry entry, List.length_cons] at single
          rw [if_pos rfl]
          exact List.eq_nil_of_length_eq_zero (by omega)
      | false =>
          rw [valuesOf_cons, List.length_append] at single
          exact ih (by omega)

section Written

variable {content : Str} (valid : Valid updates)
  (plain : ∀ u ∈ updates, ∀ c ∈ u.2, isBreak c = false) (ends : EndsWithNewline content)

include valid plain ends

/-- The lines of the file after writing. -/
theorem readLines_write (some : updates ≠ []) :
    readLines (write updates content) = newLines updates (readLines content) := by
  rw [write, if_neg some]
  exact readLines_flatten (isLine_newLines valid plain (isLine_of_endsWithNewline ends))

theorem read_write_of_not_mem {key : Str} (absent : ∀ u ∈ updates, u.1 ≠ key) :
    read (write updates content) key = read content key := by
  by_cases empty : updates = []
  · rw [write, if_pos empty]
  · rw [read, readLines_write valid plain ends empty, valuesOf_newLines_of_not_mem valid absent]
    rfl

theorem read_write_mem {key value : Str} (mem : (key, value) ∈ updates)
    (single : (valuesOf key (readLines content)).length ≤ 1) :
    read (write updates content) key = some (rstrip value) := by
  rw [read, readLines_write valid plain ends (List.ne_nil_of_mem mem)]
  refine (getLast_valuesOf_newLines valid mem _).mpr fun later last => ?_
  rw [valuesOf_afterFirst_of_single (valid.keys _ mem) single] at last
  cases last

end Written

/-- All lines have their newlines, or only the last one has none. -/
theorem readLines_shape (content : Str) : (∀ line ∈ readLines content, IsLine line) ∨
    ∃ (complete : List Str) (last : Str), readLines content = complete ++ [last] ∧
      (∀ line ∈ complete, IsLine line) ∧ last ≠ [] ∧ ∀ c ∈ last, isBreak c = false := by
  obtain ⟨lines, tail, -, complete, plain, eq⟩ := readLines_eq content
  by_cases ended : tail = []
  · rw [if_pos ended, List.append_nil] at eq
    exact .inl (eq ▸ complete)
  · rw [if_neg ended] at eq
    exact .inr ⟨lines, tail, eq, complete, ended, plain⟩

theorem readLines_flatten_append {lines : List Str} {tail : Str}
    (complete : ∀ line ∈ lines, IsLine line) (plain : ∀ c ∈ tail, isBreak c = false) :
    readLines (lines.flatten ++ tail) = lines ++ if tail = [] then [] else [tail] := by
  have clean : '\r' ∉ lines.flatten ++ tail := by
    intro mem
    rcases List.mem_append.mp mem with early | late
    · obtain ⟨line, within, found⟩ := List.mem_flatten.mp early
      obtain ⟨body, rfl, quiet⟩ := complete line within
      rcases List.mem_append.mp found with inner | last
      · exact absurd (quiet _ inner) (by decide)
      · exact absurd (List.mem_singleton.mp last) (by decide)
    · exact absurd (plain _ late) (by decide)
  rw [readLines, translate_of_not_mem clean, splitLines_flatten_append complete plain]

/-- The last line is written when all other lines are. -/
theorem writeLines_concat (updates : List (Str × Str)) (lines : List Str) (last : Str) :
    writeLines updates (lines ++ [last]) =
      match (writeLines updates lines).2.find? fun u => sets u.1 last with
      | some (key, value) => ((writeLines updates lines).1 ++ [assignment key value],
          (writeLines updates lines).2.filter (·.1 ≠ key))
      | none => ((writeLines updates lines).1 ++ [last], (writeLines updates lines).2) := by
  induction lines generalizing updates with
  | nil =>
      rw [List.nil_append, writeLines]
      rfl
  | cons line lines ih =>
      rw [List.cons_append, writeLines, writeLines]
      split
      next key value found =>
        cases again : (writeLines (updates.filter (·.1 ≠ key)) lines).2.find? fun u =>
          sets u.1 last <;> simp only [ih, again]
        all_goals rfl
      next =>
        cases again : (writeLines updates lines).2.find? fun u => sets u.1 last <;>
          simp only [ih, again]
        all_goals rfl

/-! ### A file that is written twice -/

theorem sets_assignment (key value : Str) :
    sets key (assignment key value) = true := by
  rw [sets, Bool.and_eq_true, decide_eq_true_eq, decide_eq_true_eq]
  have text : assignment key value = key ++ '=' :: (value ++ ['\n']) := by
    simp [assignment]
  exact ⟨⟨_, text.symm⟩, by rw [text, List.drop_left]; rfl⟩

theorem sets_assignment_other {key other : Str} (valid : IsKey key) (named : IsKey other)
    (ne : other ≠ key) (value : Str) : sets key (assignment other value) = false :=
  Bool.eq_false_iff.mpr fun also =>
    ne (sets_unique named valid (sets_assignment other value) also)

theorem afterFirst_append_of_unset {key : Str} {lines : List Str} (unset : Unset key lines)
    (more : List Str) : afterFirst key (lines ++ more) = afterFirst key more := by
  rw [afterFirst, List.dropWhile_append_of_pos, ← afterFirst]
  intro line mem
  rw [unset line mem]
  rfl

theorem afterFirst_append_of_set {key : Str} {lines : List Str} (isSet : ¬Unset key lines)
    (more : List Str) : afterFirst key (lines ++ more) = afterFirst key lines ++ more := by
  induction lines with
  | nil => exact absurd (fun _ within => absurd within List.not_mem_nil) isSet
  | cons line lines ih =>
      rw [List.cons_append, afterFirst_cons, afterFirst_cons]
      split
      · rfl
      next free => exact ih (set_of_set_cons isSet (Bool.eq_false_iff.mpr free))

theorem unset_writeLines (valid : Valid updates) {key : Str} (named : IsKey key)
    {lines : List Str} (unset : Unset key lines) : Unset key (writeLines updates lines).1 := by
  induction lines generalizing updates with
  | nil => exact unset
  | cons line lines ih =>
      rw [Unset, List.forall_mem_cons] at unset
      rcases writeLines_cons valid line lines with
        ⟨other, value, -, mem, starts, -, eq⟩ | ⟨-, eq⟩ <;> rw [eq, Unset, List.forall_mem_cons]
      · have differs : other ≠ key := by
          rintro rfl
          rw [starts] at unset
          cases unset.1
        exact ⟨sets_assignment_other named (valid.keys _ mem) differs value,
          ih (valid.filter _) unset.2⟩
      · exact ⟨unset.1, ih valid unset.2⟩

/-- What follows the first line for a key stays. -/
theorem valuesOf_afterFirst_writeLines (valid : Valid updates) {key value : Str}
    (mem : (key, value) ∈ updates) {lines : List Str} (isSet : ¬Unset key lines) :
    ¬Unset key (writeLines updates lines).1 ∧
      valuesOf key (afterFirst key (writeLines updates lines).1) =
        valuesOf key (afterFirst key lines) := by
  induction lines generalizing updates with
  | nil => exact absurd (fun _ within => absurd within List.not_mem_nil) isSet
  | cons line lines ih =>
      rw [afterFirst_cons key line]
      rcases writeLines_cons valid line lines with
        ⟨other, new, -, within, starts, -, eq⟩ | ⟨free, eq⟩ <;> rw [eq]
      · have named : IsKey other := valid.keys _ within
        by_cases same : other = key
        · subst same
          have gone : ∀ u ∈ updates.filter (·.1 ≠ other), u.1 ≠ other :=
            fun u kept => of_decide_eq_true (List.mem_filter.mp kept).2
          constructor
          · intro unset
            have free := (List.forall_mem_cons.mp unset).1
            rw [sets_assignment] at free
            cases free
          · rw [afterFirst_cons, if_pos (sets_assignment other new), if_pos starts,
              valuesOf_writeLines_of_not_mem (valid.filter _) gone]
        · have free : sets key line = false := Bool.eq_false_iff.mpr fun also =>
            same (sets_unique named (valid.keys _ mem) starts also)
          have kept : (key, value) ∈ updates.filter (·.1 ≠ other) :=
            List.mem_filter.mpr ⟨mem, decide_eq_true (Ne.symm same)⟩
          have plain := sets_assignment_other (valid.keys _ mem) named same new
          obtain ⟨still, rest⟩ := ih (valid.filter _) kept (set_of_set_cons isSet free)
          refine ⟨fun unset => still (List.forall_mem_cons.mp unset).2, ?_⟩
          rw [afterFirst_cons, plain, free]
          exact rest
      · obtain ⟨still, rest⟩ := ih valid mem (set_of_set_cons isSet (free _ mem))
        refine ⟨fun unset => still (List.forall_mem_cons.mp unset).2, ?_⟩
        rw [afterFirst_cons, free _ mem]
        exact rest

theorem valuesOf_afterFirst_assignments (valid : Valid updates) {key : Str} (named : IsKey key) :
    valuesOf key (afterFirst key (updates.map fun u => assignment u.1 u.2)) = [] := by
  induction updates with
  | nil => rfl
  | cons u updates ih =>
      have rest : Valid updates :=
        ⟨fun w mem => valid.keys w (List.mem_cons_of_mem u mem), (List.nodup_cons.mp valid.nodup).2⟩
      rw [List.map_cons, afterFirst_cons]
      by_cases same : u.1 = key
      · subst same
        rw [if_pos (sets_assignment u.1 u.2), valuesOf_assignments_of_not_mem rest]
        exact fun w mem same => (List.nodup_cons.mp valid.nodup).1 (same ▸ List.mem_map_of_mem mem)
      · rw [sets_assignment_other named (valid.keys u List.mem_cons_self) same u.2]
        exact ih rest

/-- A key that had one line has no further one behind its new value. -/
theorem valuesOf_afterFirst_newLines (valid : Valid updates) {u : Str × Str} (mem : u ∈ updates)
    {lines : List Str} (single : (valuesOf u.1 lines).length ≤ 1) :
    valuesOf u.1 (afterFirst u.1 (newLines updates lines)) = [] := by
  have named := valid.keys u mem
  rw [newLines]
  by_cases unset : Unset u.1 lines
  · rw [afterFirst_append_of_unset (unset_writeLines valid named unset)]
    exact valuesOf_afterFirst_assignments (valid_left valid lines) named
  · obtain ⟨still, eq⟩ := valuesOf_afterFirst_writeLines valid mem unset
    have gone : ∀ w ∈ (writeLines updates lines).2, w.1 ≠ u.1 := fun w left same =>
      unset (same ▸ ((mem_left_iff valid).mp left).2)
    rw [afterFirst_append_of_set still, valuesOf_append, eq,
      valuesOf_assignments_of_not_mem (valid_left valid lines) gone, List.append_nil]
    exact valuesOf_afterFirst_of_single named single

/-- The second file is written into the lines of the first one. -/
theorem readLines_write_write {again : List (Str × Str)} {content : Str} (valid : Valid updates)
    (validAgain : Valid again) (plain : ∀ u ∈ updates, ∀ c ∈ u.2, isBreak c = false)
    (plainAgain : ∀ u ∈ again, ∀ c ∈ u.2, isBreak c = false) (ends : EndsWithNewline content)
    (some : updates ≠ []) (someAgain : again ≠ []) :
    readLines (write again (write updates content)) =
      newLines again (newLines updates (readLines content)) := by
  have complete := isLine_newLines valid plain (isLine_of_endsWithNewline ends)
  rw [write, if_neg someAgain, readLines_write valid plain ends some]
  exact readLines_flatten (isLine_newLines validAgain plainAgain complete)

end Ecube.EnvFile
