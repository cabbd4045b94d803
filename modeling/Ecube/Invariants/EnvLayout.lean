import Ecube.Basic.EnvLines

/-!
Which files the settings writer updates as its reader reads them.

The writer replaces the first line that sets a key and appends the keys without one; the reader
takes the last line. `write_settles`: they agree on the files where no key has a further line
with another value, and where a last line without a newline is not continued by a new setting.
`settles_iff`: besides these, only on files that absorb the setting that continues their last line.
-/

namespace Ecube.EnvFile

open PosixPath Text

/-- The updated keys read their new values and the other keys read as before. -/
def Settles (content : Str) (updates : List (Str × Str)) : Prop :=
  (∀ u ∈ updates, read (write updates content) u.1 = some u.2) ∧
    ∀ key, (∀ u ∈ updates, u.1 ≠ key) → read (write updates content) key = read content key

/-- The line is ended or blank, or it is replaced, or no setting is appended behind it. -/
def ClosesWith (updates : List (Str × Str)) (lines : List Str) (last : Str) : Prop :=
  last.getLast? = some '\n' ∨ strip last = [] ∨
    (∃ u ∈ updates, Unset u.1 lines ∧ sets u.1 last = true) ∨ ∀ u ∈ updates, ¬Unset u.1 lines

/-- Every updated key is set by one line or reads its new value behind the first one, and the
last line is not continued. -/
structure Clear (content : Str) (updates : List (Str × Str)) : Prop where
  single : ∀ u ∈ updates,
    ∀ value ∈ (valuesOf u.1 (afterFirst u.1 (readLines content))).getLast?, value = u.2
  closed : ∀ last ∈ (readLines content).getLast?,
    ClosesWith updates (readLines content).dropLast last

variable {updates : List (Str × Str)}

/-! ### Files whose lines are read as they are written -/

/-- What a written file is read as. -/
inductive Written (updates : List (Str × Str)) (content : Str) : Prop where
  /-- The lines are read as they were written. -/
  | separate (closed : ∀ last ∈ (readLines content).getLast?,
        last.getLast? = some '\n' ∨
          (∃ u ∈ updates, Unset u.1 (readLines content).dropLast ∧ sets u.1 last = true) ∨
            ∀ u ∈ updates, ¬Unset u.1 (readLines content).dropLast)
      (lines : readLines (write updates content) = newLines updates (readLines content))
  /-- The first new setting continues the last line. -/
  | joined (complete : List Str) (last : Str) (u : Str × Str) (more : List (Str × Str))
      (old : readLines content = complete ++ [last]) (plain : ∀ c ∈ last, isBreak c = false)
      (free : ∀ w ∈ updates, Unset w.1 complete → sets w.1 last = false)
      (left : (writeLines updates complete).2 = u :: more)
      (lines : readLines (write updates content) = (writeLines updates complete).1 ++
        (last ++ assignment u.1 u.2) :: more.map fun w => assignment w.1 w.2)

theorem written (valid : Valid updates) (plain : ∀ u ∈ updates, ∀ c ∈ u.2, isBreak c = false)
    (some : updates ≠ []) (content : Str) : Written updates content := by
  rcases readLines_shape content with complete | ⟨complete, last, old, ended, full, quiet⟩
  · refine .separate (fun last mem => .inl ?_) ?_
    · obtain ⟨body, rfl, -⟩ := complete last (List.mem_of_getLast? mem)
      exact List.getLast?_concat
    · rw [write, if_neg some]
      exact readLines_flatten (isLine_newLines valid plain complete)
  · have rest := writeLines_concat updates complete last
    rw [← old] at rest
    split at rest
    next key value found =>
      -- The last line is replaced.
      have mem := (mem_left_iff valid).mp (List.mem_of_find?_eq_some found)
      have starts : sets key last = true := by simpa using List.find?_some found
      refine .separate (fun other listed => ?_) ?_
      · rw [old, List.getLast?_concat] at listed
        cases listed
        rw [old, List.dropLast_concat]
        exact .inr (.inl ⟨_, mem.1, mem.2, starts⟩)
      · rw [write, if_neg some]
        refine readLines_flatten fun line within => ?_
        change line ∈ newLines updates (readLines content) at within
        rw [newLines, rest] at within
        rcases List.mem_append.mp within with early | new
        · rcases List.mem_append.mp early with before | here
          · exact isLine_writeLines valid plain ended line before
          · rw [List.mem_singleton.mp here]
            exact isLine_assignment (valid.keys _ mem.1) (plain _ mem.1)
        · obtain ⟨u, pending, rfl⟩ := List.mem_map.mp new
          have listed := mem_of_mem_left (List.mem_of_mem_filter pending)
          exact isLine_assignment (valid.keys u listed) (plain u listed)
    next missing =>
      cases left : (writeLines updates complete).2 with
      | nil =>
          refine .separate (fun _ _ => .inr (.inr fun u within => ?_)) ?_
          · rw [old, List.dropLast_concat]
            intro unset
            have pending := (mem_left_iff valid).mpr ⟨within, unset⟩
            rw [left] at pending
            cases pending
          · have lines : newLines updates (readLines content) =
                (writeLines updates complete).1 ++ [last] := by
              rw [newLines, rest, left, List.map_nil, List.append_nil]
            rw [write, if_neg some]
            change readLines (newLines updates (readLines content)).flatten = _
            rw [lines, List.flatten_append, List.flatten_singleton,
              readLines_flatten_append (isLine_writeLines valid plain ended) quiet, if_neg full]
      | cons u more =>
          refine .joined complete last u more old quiet ?_ left ?_
          · intro w within unset
            have pending := (mem_left_iff valid).mpr ⟨within, unset⟩
            exact Bool.eq_false_iff.mpr (List.find?_eq_none.mp missing w pending)
          · have listed : ∀ w ∈ u :: more, w ∈ updates := fun w pending =>
              mem_of_mem_left (left ▸ pending)
            have text : write updates content = ((writeLines updates complete).1 ++
                (last ++ assignment u.1 u.2) ::
                  more.map fun w => assignment w.1 w.2).flatten := by
              rw [write, if_neg some, rest, left]
              simp
            rw [text]
            refine readLines_flatten fun line within => ?_
            rcases List.mem_append.mp within with early | new
            · exact isLine_writeLines valid plain ended line early
            · rcases List.mem_cons.mp new with rfl | appended
              · obtain ⟨body, eq, silent⟩ := isLine_assignment (valid.keys u (listed u (by simp)))
                  (plain u (listed u (by simp)))
                refine ⟨last ++ body, by rw [eq, List.append_assoc], fun c hc => ?_⟩
                exact (List.mem_append.mp hc).elim (quiet c) (silent c)
              · obtain ⟨w, pending, rfl⟩ := List.mem_map.mp appended
                have mem := listed w (List.mem_cons_of_mem u pending)
                exact isLine_assignment (valid.keys w mem) (plain w mem)

/-! ### A last line that is continued -/

section Joined

variable {key value last : Str}

theorem exists_lstrip_cons {s : Str} (full : lstrip s ≠ []) :
    ∃ c rest, lstrip s = c :: rest ∧ isSpace c = false := by
  obtain ⟨c, rest, eq⟩ := List.exists_cons_of_ne_nil full
  have stop := List.head?_dropWhile_not isSpace s
  rw [← lstrip, eq] at stop
  exact ⟨c, rest, eq, by simpa using stop⟩

theorem strip_eq_nil_iff {s : Str} : strip s = [] ↔ lstrip s = [] := by
  constructor
  · intro blank
    by_contra full
    obtain ⟨c, rest, eq, dark⟩ := exists_lstrip_cons full
    have kept := rstrip_append_cons dark [] rest
    rw [List.nil_append] at kept
    rw [strip, eq, kept] at blank
    cases blank
  · intro blank
    rw [strip, blank, rstrip_nil]

theorem lstrip_append_of_blank {s : Str} (blank : lstrip last = []) :
    lstrip (last ++ s) = lstrip s := by
  rw [lstrip, List.dropWhile_append, ← lstrip, blank]
  rfl

theorem lstrip_append_of_full {s : Str} (full : lstrip last ≠ []) :
    lstrip (last ++ s) = lstrip last ++ s := by
  rw [lstrip, List.dropWhile_append, if_neg (by simpa [lstrip] using full)]
  rfl

/-- A blank line does not show in the setting that continues it. -/
theorem entry_append_of_blank {s : Str} (blank : strip last = []) :
    entry (last ++ s) = entry s := by
  have same : strip (last ++ s) = strip s := by
    rw [strip, lstrip_append_of_blank (strip_eq_nil_iff.mp blank), ← strip]
  rw [entry, entry, same]

/-- The continued line is read as one. -/
theorem strip_joined (full : lstrip last ≠ []) (trimmed : rstrip value = value) :
    strip (last ++ assignment key value) = lstrip last ++ key ++ '=' :: value := by
  have text : lstrip last ++ assignment key value =
      (lstrip last ++ key ++ '=' :: value) ++ ['\n'] := by
    simp [assignment]
  have newline : ∀ c ∈ ['\n'], isSpace c = true := by
    intro c mem
    rw [List.mem_singleton.mp mem]
    rfl
  rw [strip, lstrip_append_of_full full, text, rstrip_append_spaces newline,
    rstrip_append_cons rfl, trimmed]

/-- The new setting is lost in the line it continues. -/
theorem entry_joined_ne (valid : IsKey key) (full : lstrip last ≠ [])
    (trimmed : rstrip value = value) :
    entry (last ++ assignment key value) ≠ some (key, value) := by
  intro h
  rw [entry] at h
  split at h
  next => cases h
  next =>
    obtain ⟨⟨front, rest⟩, cutAt, parts⟩ := Option.map_eq_some_iff.mp h
    obtain ⟨named, rfl⟩ := Prod.mk.inj parts
    have line := append_of_cut cutAt
    rw [strip_joined full trimmed, List.append_left_inj] at line
    -- The key of the line starts with the text that was there.
    obtain ⟨c, text, eq, dark⟩ := exists_lstrip_cons full
    obtain ⟨d, lastChar, ends⟩ : ∃ d, isSpace d = false ∧ ∃ init, key = init ++ [d] := by
      obtain ⟨init, d, rfl⟩ := (List.eq_nil_or_concat' key).resolve_left valid.1
      exact ⟨d, (valid.2 d (by simp)).1, init, rfl⟩
    obtain ⟨init, rfl⟩ := ends
    have kept : strip front = front := by
      rw [← line, eq, List.cons_append, strip_cons dark, ← List.cons_append, ← List.append_assoc]
      exact rstrip_append_cons lastChar _ []
    have longer := congrArg List.length (kept.symm.trans named)
    rw [← line, eq] at longer
    simp only [List.length_append, List.length_cons] at longer
    omega

/-- A line for a key stays one when it is continued. -/
theorem entry_joined {other old : Str} (h : entry last = some (other, old))
    (trimmed : rstrip value = value) :
    ∃ new, entry (last ++ assignment key value) = some (other, new) := by
  rw [entry] at h
  split at h
  next => cases h
  next comment =>
    obtain ⟨⟨front, rest⟩, cutAt, parts⟩ := Option.map_eq_some_iff.mp h
    obtain ⟨rfl, rfl⟩ := Prod.mk.inj parts
    have line := append_of_cut cutAt
    have absent : '=' ∉ front := by
      rw [cut] at cutAt
      split at cutAt
      next =>
        cases cutAt
        intro mem
        simpa using List.mem_takeWhile_imp mem
      next => cases cutAt
    have full : lstrip last ≠ [] := by
      intro blank
      rw [strip_eq_nil_iff.mpr blank] at line
      simp at line
    obtain ⟨blanks, back⟩ : strip last <+: lstrip last := List.rdropWhile_prefix isSpace _
    have joined : strip (last ++ assignment key value) =
        front ++ '=' :: (rest ++ blanks ++ key ++ '=' :: value) := by
      rw [strip_joined full trimmed, ← back, line]
      simp
    refine ⟨rest ++ blanks ++ key ++ '=' :: value, ?_⟩
    rw [entry, joined, cut_append_cons absent, if_neg]
    · rfl
    · intro hash
      apply comment
      rw [line]
      cases front <;> exact hash

end Joined

/-! ### Exactly the clear files are updated -/

theorem settles_iff_single (valid : Valid updates) (content : Str)
    (trimmed : ∀ u ∈ updates, rstrip u.2 = u.2)
    (lines : ∀ key, valuesOf key (readLines (write updates content)) =
      valuesOf key (newLines updates (readLines content))) :
    Settles content updates ↔ ∀ u ∈ updates,
      ∀ value ∈ (valuesOf u.1 (afterFirst u.1 (readLines content))).getLast?, value = u.2 := by
  have updated : ∀ u ∈ updates, (read (write updates content) u.1 = some u.2 ↔
      ∀ value ∈ (valuesOf u.1 (afterFirst u.1 (readLines content))).getLast?, value = u.2) := by
    intro u mem
    have iff := getLast_valuesOf_newLines valid mem (readLines content)
    rwa [trimmed u mem, ← lines, ← read] at iff
  constructor
  · rintro ⟨new, -⟩ u mem
    exact (updated u mem).mp (new u mem)
  · intro single
    refine ⟨fun u mem => (updated u mem).mpr (single u mem), fun key absent => ?_⟩
    rw [read, lines, valuesOf_newLines_of_not_mem valid absent]
    rfl

theorem entry_of_blank {last : Str} (blank : strip last = []) : entry last = none := by
  rw [entry, blank]
  rfl

theorem newLines_of_joined {complete : List Str} {last : Str} {u : Str × Str}
    {more : List (Str × Str)}
    (free : ∀ w ∈ updates, Unset w.1 complete → sets w.1 last = false) (valid : Valid updates)
    (left : (writeLines updates complete).2 = u :: more) :
    newLines updates (complete ++ [last]) = (writeLines updates complete).1 ++
      (last :: (u :: more).map fun w => assignment w.1 w.2) := by
  have missing : (writeLines updates complete).2.find? (fun w => sets w.1 last) = none := by
    refine List.find?_eq_none.mpr fun w pending => ?_
    obtain ⟨mem, unset⟩ := (mem_left_iff valid).mp pending
    rw [free w mem unset]
    exact Bool.false_ne_true
  rw [newLines, writeLines_concat, missing, left]
  simp

/-- The new setting that continues the last line is not read. -/
theorem not_settles_of_joined (valid : Valid updates) (ended : ∀ u ∈ updates, rstrip u.2 = u.2)
    {content : Str} {complete : List Str} {last : Str} {u : Str × Str} {more : List (Str × Str)}
    (old : readLines content = complete ++ [last])
    (free : ∀ w ∈ updates, Unset w.1 complete → sets w.1 last = false)
    (left : (writeLines updates complete).2 = u :: more)
    (lines : readLines (write updates content) = (writeLines updates complete).1 ++
      (last ++ assignment u.1 u.2) :: more.map fun w => assignment w.1 w.2)
    (full : strip last ≠ [])
    (fresh : ∀ u ∈ updates, Unset u.1 (readLines content) → read content u.1 ≠ some u.2) :
    ¬Settles content updates := by
  intro settles
  obtain ⟨mem, unset⟩ := (mem_left_iff valid).mp (left ▸ List.mem_cons_self)
  have remains : Unset u.1 (readLines content) := by
    rw [old, Unset, List.forall_mem_append]
    exact ⟨unset, List.forall_mem_singleton.mpr (free u mem unset)⟩
  have others : ∀ w ∈ more, w.1 ≠ u.1 := by
    have nodup := (left ▸ valid_left valid complete).nodup
    rw [List.map_cons, List.nodup_cons] at nodup
    exact fun w pending same => nodup.1 (same ▸ List.mem_map_of_mem pending)
  have rest : Valid more := by
    have all := left ▸ valid_left valid complete
    exact ⟨fun w pending => all.keys w (List.mem_cons_of_mem u pending),
      (List.nodup_cons.mp all.nodup).2⟩
  have reads := settles.1 u mem
  have before := fresh u mem remains
  rw [read, lines, valuesOf_append, valuesOf_writeLines_of_unset valid unset] at reads
  rw [read, old, valuesOf_append] at before
  have dark : lstrip last ≠ [] := fun blank => full (strip_eq_nil_iff.mpr blank)
  by_cases named : ∃ new, entry (last ++ assignment u.1 u.2) = some (u.1, new)
  · -- The line is for the key, with a longer value.
    obtain ⟨new, joined⟩ := named
    rw [valuesOf_cons_of_entry joined, valuesOf_assignments_of_not_mem rest others,
      List.getLast?_concat] at reads
    cases reads
    exact entry_joined_ne (valid.keys u mem) dark (ended u mem) joined
  · have other : ∀ value, entry last ≠ some (u.1, value) := fun value was =>
      named (entry_joined was (ended u mem))
    rw [valuesOf_cons_of_unnamed (not_exists.mp named),
      valuesOf_assignments_of_not_mem rest others, List.append_nil] at reads
    rw [valuesOf_cons_of_unnamed other] at before
    have none : valuesOf u.1 [] = [] := rfl
    rw [none, List.append_nil] at before
    exact before reads

/--
An update settles a file that is clear; when the settings that no line sets are new, only
then.
-/
theorem write_settles {content : Str} (valid : Valid updates)
    (plain : ∀ u ∈ updates, ∀ c ∈ u.2, isBreak c = false)
    (trimmed : ∀ u ∈ updates, strip u.2 = u.2) :
    (Clear content updates → Settles content updates) ∧
      ((∀ u ∈ updates, Unset u.1 (readLines content) → read content u.1 ≠ some u.2) →
        Settles content updates → Clear content updates) := by
  have ended : ∀ u ∈ updates, rstrip u.2 = u.2 := fun u mem => by
    rw [← trimmed u mem, rstrip_strip]
  by_cases empty : updates = []
  · subst empty
    exact ⟨fun _ => ⟨nofun, fun key _ => rfl⟩,
      fun _ _ => ⟨nofun, fun _ _ => .inr (.inr (.inr nofun))⟩⟩
  cases written valid plain empty content with
  | separate closed lines =>
      have iff := settles_iff_single valid content ended fun key => congrArg (valuesOf key) lines
      exact ⟨fun clear => iff.mpr clear.single, fun _ settles => ⟨iff.mp settles, fun last mem =>
        (closed last mem).imp_right .inr⟩⟩
  | joined complete last u more old quiet free left lines =>
      have listed := (mem_left_iff valid).mp (left ▸ List.mem_cons_self)
      by_cases blank : strip last = []
      · -- The lines hold what they would hold had the last line been ended.
        have iff := settles_iff_single valid content ended fun key => by
          rw [lines, old, newLines_of_joined free valid left]
          simp only [valuesOf_append, valuesOf_cons, entry_append_of_blank blank,
            entry_of_blank blank, List.map_cons]
          simp
        refine ⟨fun clear => iff.mpr clear.single, fun _ settles => ⟨iff.mp settles, ?_⟩⟩
        intro other mem
        rw [old, List.getLast?_concat] at mem
        cases mem
        exact .inr (.inl blank)
      · have torn : ¬Clear content updates := fun clear => by
          have closed := clear.closed last (by rw [old, List.getLast?_concat]; rfl)
          rw [old, List.dropLast_concat] at closed
          rcases closed with newline | nothing | ⟨w, mem, unset, starts⟩ | all
          · exact absurd (quiet _ (List.mem_of_getLast? newline)) (by decide)
          · exact blank nothing
          · rw [free w mem unset] at starts
            cases starts
          · exact all u listed.1 listed.2
        refine ⟨fun clear => absurd clear torn, fun fresh settles => ?_⟩
        exact absurd settles (not_settles_of_joined valid ended old free left lines blank fresh)

theorem valid_two : Valid [("B".toList, "3".toList), ("C".toList, "4".toList)] where
  keys := by
    simp [IsKey]
    decide
  nodup := by decide

theorem write_settles_two_keys :
    Settles "A=1\nB=2\n".toList [("B".toList, "3".toList), ("C".toList, "4".toList)] ∧
      Clear "A=1\nB=2\n".toList [("B".toList, "3".toList), ("C".toList, "4".toList)] := by
  have clear : Clear "A=1\nB=2\n".toList
      [("B".toList, "3".toList), ("C".toList, "4".toList)] :=
    ⟨by decide, fun last mem => .inl (by revert last; decide)⟩
  have both := @write_settles _ "A=1\nB=2\n".toList valid_two (by simp [isBreak]) (by decide)
  exact ⟨both.1 clear, both.2 (by decide) (both.1 clear)⟩

/-- A further line for the key is left, and it is the one that is read. -/
theorem write_settles_fails : ¬∀ (content : Str) (updates : List (Str × Str)), Valid updates →
    (∀ u ∈ updates, ∀ c ∈ u.2, isBreak c = false) → (∀ u ∈ updates, strip u.2 = u.2) →
      Settles content updates := by
  intro claim
  have settles := claim "A=1\nA=2\n".toList [("A".toList, "3".toList)]
    ⟨by simp [IsKey]; decide, by decide⟩ (by simp [isBreak]) (by decide)
  exact absurd (settles.1 _ List.mem_cons_self) (by decide)

/-! ### Which other files are updated -/

/-- The first new setting continues the last line and nothing is lost: it reads its value already,
and what the continued line sets is set again behind it, or is a new value, or was so before. -/
structure Absorbed (content : Str) (updates : List (Str × Str)) (last : Str) (u : Str × Str)
    (more : List (Str × Str)) : Prop where
  ended : (readLines content).getLast? = some last
  torn : ¬ClosesWith updates (readLines content).dropLast last
  appended : (updates.filter fun w => decide (Unset w.1 (readLines content))) = u :: more
  already : read content u.1 = some u.2
  line : ∀ e, entry (last ++ assignment u.1 u.2) = some e → (∃ w ∈ more, w.1 = e.1) ∨
    e ∈ updates ∨ (∀ w ∈ updates, w.1 ≠ e.1) ∧ read content e.1 = some e.2
  single : ∀ w ∈ updates, (∀ value, entry (last ++ assignment u.1 u.2) ≠ some (w.1, value)) →
    ∀ value ∈ (valuesOf w.1 (afterFirst w.1 (readLines content))).getLast?, value = w.2

section Continued

variable {content last : Str} {complete : List Str} {u : Str × Str} {more : List (Str × Str)}
  (lines : readLines (write updates content) = (writeLines updates complete).1 ++
    (last ++ assignment u.1 u.2) :: more.map fun w => assignment w.1 w.2)

include lines

/-- A setting that is written behind the continued line is read from there. -/
theorem read_behind (rest : Valid more) {w : Str × Str} (pending : w ∈ more)
    (ended : rstrip w.2 = w.2) : read (write updates content) w.1 = some w.2 := by
  rw [read, lines, valuesOf_append, valuesOf_cons, List.getLast?_append, List.getLast?_append,
    getLast_valuesOf_assignments rest pending, ended]
  rfl

/-- The continued line is read for the key that it sets. -/
theorem read_named (rest : Valid more) {key value : Str} (absent : ∀ w ∈ more, w.1 ≠ key)
    (joined : entry (last ++ assignment u.1 u.2) = some (key, value)) :
    read (write updates content) key = some value := by
  rw [read, lines, valuesOf_append, valuesOf_cons_of_entry joined,
    valuesOf_assignments_of_not_mem rest absent, List.getLast?_concat]

theorem read_unnamed (rest : Valid more) {key : Str} (absent : ∀ w ∈ more, w.1 ≠ key)
    (joined : ∀ value, entry (last ++ assignment u.1 u.2) ≠ some (key, value)) :
    read (write updates content) key = (valuesOf key (writeLines updates complete).1).getLast? := by
  rw [read, lines, valuesOf_append, valuesOf_cons_of_unnamed joined,
    valuesOf_assignments_of_not_mem rest absent, List.append_nil]

end Continued

/-- A key that the continued line does not set was not set by the last line. -/
theorem valuesOf_concat_of_unnamed {last key : Str} {u : Str × Str} {complete : List Str}
    (ended : rstrip u.2 = u.2)
    (joined : ∀ value, entry (last ++ assignment u.1 u.2) ≠ some (key, value)) :
    valuesOf key (complete ++ [last]) = valuesOf key complete := by
  have unnamed : ∀ value, entry last ≠ some (key, value) := fun value was => by
    obtain ⟨new, same⟩ := entry_joined was ended
    exact joined new same
  rw [valuesOf_append, valuesOf_cons_of_unnamed unnamed]
  exact List.append_nil _

/-- In the lines before the last one, a key that they set reads its new value as it does when
the last line is ended. -/
theorem getLast_valuesOf_writeLines (valid : Valid updates) {u : Str × Str} (mem : u ∈ updates)
    {lines : List Str} (isSet : ¬Unset u.1 lines) :
    (valuesOf u.1 (writeLines updates lines).1).getLast? = some (rstrip u.2) ↔
      ∀ value ∈ (valuesOf u.1 (afterFirst u.1 lines)).getLast?, value = rstrip u.2 := by
  have gone : ∀ w ∈ (writeLines updates lines).2, w.1 ≠ u.1 := fun w left same =>
    isSet (same ▸ ((mem_left_iff valid).mp left).2)
  have both := getLast_valuesOf_newLines valid mem lines
  rwa [newLines, valuesOf_append, valuesOf_assignments_of_not_mem (valid_left valid lines) gone,
    List.append_nil] at both

/-- A last line that sets no missing key leaves the settings that are appended. -/
theorem appended_eq (valid : Valid updates) {complete : List Str} {last : Str}
    (free : ∀ w ∈ updates, Unset w.1 complete → sets w.1 last = false) :
    (updates.filter fun w => decide (Unset w.1 (complete ++ [last]))) =
      (writeLines updates complete).2 := by
  rw [left_eq valid]
  refine List.filter_congr fun w listed => ?_
  rw [decide_eq_decide, Unset, List.forall_mem_append, List.forall_mem_singleton]
  exact ⟨And.left, fun early => ⟨early, free w listed early⟩⟩

/-- A file whose last line is continued is updated exactly when nothing is lost in it. -/
theorem settles_joined (valid : Valid updates) (ended : ∀ u ∈ updates, rstrip u.2 = u.2)
    {content : Str} {complete : List Str} {last : Str} {u : Str × Str} {more : List (Str × Str)}
    (old : readLines content = complete ++ [last])
    (free : ∀ w ∈ updates, Unset w.1 complete → sets w.1 last = false)
    (left : (writeLines updates complete).2 = u :: more)
    (lines : readLines (write updates content) = (writeLines updates complete).1 ++
      (last ++ assignment u.1 u.2) :: more.map fun w => assignment w.1 w.2)
    (full : strip last ≠ []) (torn : ¬ClosesWith updates (readLines content).dropLast last) :
    Settles content updates ↔ Absorbed content updates last u more := by
  have all := left ▸ valid_left valid complete
  have rest : Valid more := ⟨fun w pending => all.keys w (List.mem_cons_of_mem u pending),
    (List.nodup_cons.mp all.nodup).2⟩
  have others : ∀ w ∈ more, w.1 ≠ u.1 := by
    have nodup := all.nodup
    rw [List.map_cons, List.nodup_cons] at nodup
    exact fun w pending same => nodup.1 (same ▸ List.mem_map_of_mem pending)
  have within : ∀ w ∈ u :: more, w ∈ updates ∧ Unset w.1 complete := fun w pending =>
    (mem_left_iff valid).mp (left ▸ pending)
  obtain ⟨mem, unset⟩ := within u List.mem_cons_self
  have dark : lstrip last ≠ [] := fun blank => full (strip_eq_nil_iff.mpr blank)
  have lost : entry (last ++ assignment u.1 u.2) ≠ some (u.1, u.2) :=
    entry_joined_ne (valid.keys u mem) dark (ended u mem)
  -- Reading the old file for a key that the continued line does not set.
  have before : ∀ key, (∀ value, entry (last ++ assignment u.1 u.2) ≠ some (key, value)) →
      read content key = (valuesOf key complete).getLast? := by
    intro key joined
    rw [read, old, valuesOf_concat_of_unnamed (ended u mem) joined]
  have behind : ∀ w ∈ updates, ¬Unset w.1 complete → ∀ v ∈ more, v.1 ≠ w.1 :=
    fun w _ isSet v pending same =>
      isSet (same ▸ (within v (List.mem_cons_of_mem u pending)).2)
  have single : ∀ w ∈ updates, ¬Unset w.1 complete →
      (∀ value, entry (last ++ assignment u.1 u.2) ≠ some (w.1, value)) →
      (read (write updates content) w.1 = some w.2 ↔
        ∀ value ∈ (valuesOf w.1 (afterFirst w.1 (readLines content))).getLast?, value = w.2) := by
    intro w listed isSet joined
    rw [read_unnamed lines rest (behind w listed isSet) joined, old,
      afterFirst_append_of_set isSet, valuesOf_concat_of_unnamed (ended u mem) joined]
    have iff := getLast_valuesOf_writeLines valid listed isSet
    rwa [ended w listed] at iff
  constructor
  · intro settles
    have unnamed : ∀ value, entry (last ++ assignment u.1 u.2) ≠ some (u.1, value) := by
      intro value joined
      have new := settles.1 u mem
      rw [read_named lines rest others joined] at new
      cases new
      exact lost joined
    refine ⟨by rw [old, List.getLast?_concat], torn, ?_, ?_, ?_, ?_⟩
    · rw [old, appended_eq valid free, left]
    · rw [before u.1 unnamed, ← valuesOf_writeLines_of_unset valid unset,
        ← read_unnamed lines rest others unnamed]
      exact settles.1 u mem
    · intro e joined
      by_cases later : ∃ w ∈ more, w.1 = e.1
      · exact .inl later
      · have absent : ∀ w ∈ more, w.1 ≠ e.1 := fun w pending same => later ⟨w, pending, same⟩
        have reads := read_named lines rest absent joined
        by_cases named : ∃ w ∈ updates, w.1 = e.1
        · obtain ⟨w, listed, same⟩ := named
          have new := settles.1 w listed
          rw [same, reads] at new
          have equal : e = w := Prod.ext same.symm (Option.some.inj new)
          exact .inr (.inl (equal ▸ listed))
        · have absent' : ∀ w ∈ updates, w.1 ≠ e.1 := fun w listed same => named ⟨w, listed, same⟩
          rw [settles.2 e.1 absent'] at reads
          exact .inr (.inr ⟨absent', reads⟩)
    · intro w listed joined
      by_cases early : Unset w.1 complete
      · have none : Unset w.1 (readLines content) := by
          rw [old, Unset, List.forall_mem_append, List.forall_mem_singleton]
          exact ⟨early, free w listed early⟩
        rw [afterFirst_of_unset none]
        intro value absurd_
        cases absurd_
      · exact (single w listed early joined).mp (settles.1 w listed)
  · intro absorbed
    have unnamed : ∀ value, entry (last ++ assignment u.1 u.2) ≠ some (u.1, value) := by
      intro value joined
      rcases absorbed.line _ joined with ⟨w, pending, same⟩ | listed | ⟨absent, -⟩
      · exact others w pending same
      · exact lost (joined.trans (congrArg some (valid.eq_of_mem listed mem rfl)))
      · exact absent u mem rfl
    constructor
    · intro w listed
      by_cases early : Unset w.1 complete
      · have pending : w ∈ u :: more := left ▸ (mem_left_iff valid).mpr ⟨listed, early⟩
        rcases List.mem_cons.mp pending with rfl | later
        · rw [read_unnamed lines rest others unnamed, valuesOf_writeLines_of_unset valid early,
            ← before _ unnamed]
          exact absorbed.already
        · exact read_behind lines rest later (ended w listed)
      · by_cases joined : ∀ value, entry (last ++ assignment u.1 u.2) ≠ some (w.1, value)
        · exact (single w listed early joined).mpr (absorbed.single w listed joined)
        · obtain ⟨value, joined⟩ := not_forall_not.mp joined
          rw [read_named lines rest (behind w listed early) joined]
          rcases absorbed.line _ joined with ⟨v, later, same⟩ | new | ⟨absent, -⟩
          · exact absurd same (behind w listed early v later)
          · exact congrArg some (Prod.mk.inj (valid.eq_of_mem new listed rfl)).2
          · exact absurd rfl (absent w listed)
    · intro key absent
      have absent' : ∀ w ∈ more, w.1 ≠ key := fun w pending =>
        absent w (within w (List.mem_cons_of_mem u pending)).1
      by_cases joined : ∀ value, entry (last ++ assignment u.1 u.2) ≠ some (key, value)
      · rw [read_unnamed lines rest absent' joined, valuesOf_writeLines_of_not_mem valid absent,
          before key joined]
      · obtain ⟨value, joined⟩ := not_forall_not.mp joined
        rw [read_named lines rest absent' joined]
        rcases absorbed.line _ joined with ⟨v, later, same⟩ | new | ⟨-, reads⟩
        · exact absurd same (absent' v later)
        · exact absurd rfl (absent _ new)
        · exact reads.symm

/-- Exactly the files that are clear, or absorb the setting that continues their last line, are
updated as claimed. -/
theorem settles_iff {content : Str} (valid : Valid updates)
    (plain : ∀ u ∈ updates, ∀ c ∈ u.2, isBreak c = false)
    (trimmed : ∀ u ∈ updates, strip u.2 = u.2) :
    Settles content updates ↔
      Clear content updates ∨ ∃ last u more, Absorbed content updates last u more := by
  have ended : ∀ u ∈ updates, rstrip u.2 = u.2 := fun u mem => by
    rw [← trimmed u mem, rstrip_strip]
  by_cases empty : updates = []
  · subst empty
    refine ⟨fun _ => .inl ⟨?_, fun _ _ => .inr (.inr (.inr ?_))⟩, fun _ => ⟨?_, fun _ _ => rfl⟩⟩ <;>
      exact fun _ mem => absurd mem List.not_mem_nil
  have of_closed : (∀ last ∈ (readLines content).getLast?,
      ClosesWith updates (readLines content).dropLast last) →
      (∀ key, valuesOf key (readLines (write updates content)) =
        valuesOf key (newLines updates (readLines content))) →
      (Settles content updates ↔
        Clear content updates ∨ ∃ last u more, Absorbed content updates last u more) := by
    intro closed lines
    have iff := settles_iff_single valid content ended lines
    constructor
    · exact fun settles => .inl ⟨iff.mp settles, closed⟩
    · rintro (clear | ⟨last, u, more, absorbed⟩)
      · exact iff.mpr clear.single
      · exact absurd (closed last absorbed.ended) absorbed.torn
  cases written valid plain empty content with
  | separate closed lines =>
      exact of_closed (fun last mem => (closed last mem).imp_right .inr)
        fun key => congrArg (valuesOf key) lines
  | joined complete last u more old quiet free left lines =>
      have final : (readLines content).getLast? = some last := by rw [old, List.getLast?_concat]
      by_cases blank : strip last = []
      · refine of_closed (fun other mem => ?_) fun key => ?_
        · cases final.symm.trans mem
          exact .inr (.inl blank)
        · rw [lines, old, newLines_of_joined free valid left]
          simp only [valuesOf_append, valuesOf_cons, entry_append_of_blank blank,
            entry_of_blank blank, List.map_cons]
          simp
      · have listed := (mem_left_iff valid).mp (left ▸ List.mem_cons_self)
        have torn : ¬ClosesWith updates (readLines content).dropLast last := by
          rw [old, List.dropLast_concat]
          rintro (newline | nothing | ⟨w, mem, unset, starts⟩ | all)
          · exact absurd (quiet _ (List.mem_of_getLast? newline)) (by decide)
          · exact blank nothing
          · rw [free w mem unset] at starts
            cases starts
          · exact all u listed.1 listed.2
        have iff := settles_joined valid ended old free left lines blank torn
        constructor
        · exact fun settles => .inr ⟨last, u, more, iff.mp settles⟩
        · rintro (clear | ⟨other, v, rest, absorbed⟩)
          · exact absurd (clear.closed last final) torn
          · cases final.symm.trans absorbed.ended
            have same := absorbed.appended
            rw [old, appended_eq valid free, left] at same
            cases same
            exact iff.mpr absorbed

/-- The setting is read from an indented line, and the one that is appended becomes part of a
comment. -/
theorem settles_iff_comment :
    Settles " A=3\n#note".toList [("A".toList, "3".toList)] := by
  have valid : Valid [("A".toList, "3".toList)] := ⟨by simp [IsKey]; decide, by decide⟩
  refine (settles_iff valid (by simp [isBreak]) (by decide)).mpr
    (.inr ⟨"#note".toList, ("A".toList, "3".toList), [], ?_⟩)
  have comment : entry ("#note".toList ++ assignment "A".toList "3".toList) = none := by decide
  refine ⟨by decide, ?_, by decide, by decide, fun e joined => ?_, fun w mem _ => ?_⟩
  · rintro (newline | blank | ⟨u, mem, -, starts⟩ | all)
    · revert newline; decide
    · revert blank; decide
    · rw [List.mem_singleton.mp mem] at starts
      revert starts; decide
    · exact all _ List.mem_cons_self (by decide)
  · rw [comment] at joined
    cases joined
  · rw [List.mem_singleton.mp mem]
    decide

end Ecube.EnvFile
