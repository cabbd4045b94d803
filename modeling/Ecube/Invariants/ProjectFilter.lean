import Ecube.Services.AuditTrail

/-!
Which audit events the filter for a project finds.

`project_filter_iff`: an event is found by every spelling of its project just if the project was
an argument of the call, is blank, or has nothing in it that looks like a path.
-/

namespace Ecube.AuditTrail

open PosixPath UpperCase AuditText AuditDetails OrderBy

variable {O R : Type}

/-- The project that a caller gives: the argument, or a text in the details. -/
def Entry.given (entry : Entry O R) : Option PyText :=
  match entry.projectId with
  | some text => some text
  | none =>
      match entry.details.lookup projectKey with
      | some (.str text) => some text
      | _ => none

variable (table : Char → Str)

/-- The call wrote the row for the entry. -/
def Writes (trail : Trail O R) (calls : List (Call O R)) (entry : Entry O R)
    (row : AuditLog O R) : Prop :=
  ∃ before call behind i, calls = before ++ call :: behind ∧ call.raises = false ∧
    call.request.entries[i]? = some entry ∧
    row = auditLog table ((trail.run table before).nextId + i) call.timestamp entry

/-- Every spelling of the project finds the row, with a limit that is large enough. -/
def Found (trail : Trail O R) (project : PyText) (row : AuditLog O R) : Prop :=
  ∀ query limit, normalizeProjectId table query = normalizeProjectId table project →
    (trail.filteredQuery table query).length ≤ limit → row ∈ trail.query table query limit

/-- The project is not changed on the way into the table. -/
def Searchable (entry : Entry O R) (project : PyText) : Prop :=
  entry.projectId ≠ none ∨ normalizeProjectId table project = [] ∨
    hasPathLike none (sanitizeString (chars project)) = false

variable {table}

/-! ### Rows -/

theorem getElem?_logRows {timestamp i : Nat} {entries : List (Entry O R)} {entry : Entry O R}
    (id : Nat) (found : entries[i]? = some entry) :
    (logRows table timestamp id entries)[i]? = some (auditLog table (id + i) timestamp entry) := by
  induction entries generalizing id i with
  | nil => cases found
  | cons first entries ih =>
      cases i with
      | zero =>
          cases found
          rfl
      | succ i =>
          rw [logRows, List.getElem?_cons_succ, ih (id + 1) found, Nat.add_right_comm, Nat.add_assoc]

theorem mem_run_of_mem {trail : Trail O R} {row : AuditLog O R} (calls : List (Call O R))
    (mem : row ∈ trail.rows) : row ∈ (trail.run table calls).rows := by
  induction calls generalizing trail with
  | nil => exact mem
  | cons call calls ih =>
      apply ih
      rw [Trail.step]
      dsimp only
      split
      · exact mem
      · exact List.mem_append_left _ mem

/-- What a call wrote stays. -/
theorem mem_run_of_writes {trail : Trail O R} {calls : List (Call O R)} {entry : Entry O R}
    {row : AuditLog O R} (writes : Writes table trail calls entry row) :
    row ∈ (trail.run table calls).rows := by
  obtain ⟨before, call, behind, i, rfl, kept, found, rfl⟩ := writes
  rw [Trail.run, List.foldl_append, List.foldl_cons, ← Trail.run, ← Trail.run]
  apply mem_run_of_mem
  rw [Trail.step, kept]
  exact List.mem_append_right _ (List.mem_of_getElem? (getElem?_logRows _ found))

theorem mem_query_iff {trail : Trail O R} {query : PyText} {limit : Nat} {row : AuditLog O R}
    (enough : (trail.filteredQuery table query).length ≤ limit) :
    row ∈ trail.query table query limit ↔ row ∈ trail.filteredQuery table query := by
  rw [Trail.query, List.take_of_length_le, mem_orderBy]
  rwa [perm_orderBy.length_eq]

theorem normalizedOrNone_of_blank {value : PyText} (blank : normalizeProjectId table value = []) :
    normalizedOrNone table (some value) = none := by
  rw [normalizedOrNone, Option.map_some, blank]
  rfl

theorem normalizedOrNone_of_not_blank {value : PyText}
    (dark : normalizeProjectId table value ≠ []) :
    normalizedOrNone table (some value) = some (normalizeProjectId table value) := by
  rw [normalizedOrNone, Option.map_some, Option.filter_some_pos (by simpa using dark)]

theorem normalizedOrNone_eq_some_iff {value : PyText} {text : Str} (dark : text ≠ []) :
    normalizedOrNone table (some value) = some text ↔ normalizeProjectId table value = text := by
  by_cases blank : normalizeProjectId table value = []
  · rw [normalizedOrNone_of_blank blank, blank]
    exact iff_of_false nofun (Ne.symm dark)
  · rw [normalizedOrNone_of_not_blank blank, Option.some.injEq]

/-- A row is found just if it has the project, or the project is blank. -/
theorem found_iff {trail : Trail O R} {project : PyText} {row : AuditLog O R}
    (mem : row ∈ trail.rows) :
    Found table trail project row ↔ normalizeProjectId table project = [] ∨
      row.projectId = some (normalizeProjectId table project) := by
  have filtered : ∀ {query}, normalizeProjectId table query = normalizeProjectId table project →
      (row ∈ trail.filteredQuery table query ↔ normalizeProjectId table project = [] ∨
        row.projectId = some (normalizeProjectId table project)) := by
    intro query same
    rw [Trail.filteredQuery]
    by_cases blank : normalizeProjectId table project = []
    · rw [normalizedOrNone_of_blank (same.trans blank)]
      exact iff_of_true mem (.inl blank)
    · rw [normalizedOrNone_of_not_blank (same ▸ blank), same]
      simp [blank, mem]
  constructor
  · intro found
    exact (filtered rfl).mp ((mem_query_iff (Nat.le_refl _)).mp (found project _ rfl (Nat.le_refl _)))
  · intro holds query limit same enough
    exact (mem_query_iff enough).mpr ((filtered same).mpr holds)

/-! ### What is stored -/

theorem normalizeProjectId_ofStr (unicode : IsUpperTable table) (value : PyText) :
    normalizeProjectId table (ofStr (normalizeProjectId table value)) =
      normalizeProjectId table value := by
  have absent : '\x00' ∉ strip (sanitizeString (chars value)) :=
    fun mem => not_mem_sanitizeString _ (mem_of_mem_strip mem)
  have clean := sanitizeString_eq_self ⟨_, not_mem_upper unicode absent⟩
  rw [normalizeProjectId, chars_ofStr, normalizeProjectId, clean, strip_upper unicode,
    upper_upper unicode]

theorem lookup_sanitizeFields (key : PyText) (details : List (PyText × Value PyText O)) :
    (sanitizeFields (fun key => key) details).lookup key =
      (details.lookup key).map (sanitizeValue (fun key => key) (some key)) := by
  induction details with
  | nil => rfl
  | cons item details ih =>
      obtain ⟨name, value⟩ := item
      rw [sanitizeFields, List.lookup_cons, List.lookup_cons]
      cases same : key == name with
      | true =>
          obtain rfl := eq_of_beq same
          rfl
      | false => exact ih

theorem sanitizeText_projectKey (value : PyText) :
    sanitizeText (some projectKey) value = sanitizeAuditText (chars value) := by
  have sensitive : keyIn auditSensitiveKeys (some projectKey) = false := by decide
  have path : keyIn ["path"] (some projectKey) = false := by decide
  have error : keyIn auditErrorTextKeys (some projectKey) = false := by decide
  rw [sanitizeText, sensitive, path, error]
  rfl

/-- The stored project of an event that has none as argument. -/
theorem storedProject_of_details {entry : Entry O R} {project : PyText}
    (noArgument : entry.projectId = none) (given : entry.given = some project) :
    normalizedOrNone table (resolvedProjectId table entry) =
      normalizedOrNone table (some (ofStr (sanitizeAuditText (chars project)))) := by
  have held : entry.details.lookup projectKey = some (.str project) := by
    rw [Entry.given, noArgument] at given
    dsimp only at given
    split at given
    next text found =>
      cases given
      exact found
    next => cases given
  have unresolved : normalizedOrNone table none = none := rfl
  rw [resolvedProjectId, noArgument, unresolved]
  dsimp only
  rw [extractProjectId, Entry.sanitizedDetails, lookup_sanitizeFields, held, Option.map_some,
    sanitizeValue, Option.map_some, sanitizeText_projectKey]
  dsimp only
  split
  next empty =>
    rw [normalizedOrNone_of_blank, normalizedOrNone]
    · rfl
    · rw [empty]
      rfl
  next => rfl

theorem count_rstrip (s : Str) : (rstrip s).count '/' = s.count '/' := by
  induction s using List.reverseRecOn with
  | nil => rfl
  | append_singleton s c ih =>
      rw [rstrip, List.rdropWhile_concat, ← rstrip]
      split
      next space =>
        have other : c ≠ '/' := by
          rintro rfl
          cases space
        rw [ih, List.count_append, List.count_singleton]
        simp [other]
      next => rfl

theorem count_lstrip (s : Str) : (lstrip s).count '/' = s.count '/' := by
  induction s with
  | nil => rfl
  | cons c s ih =>
      rw [lstrip, List.dropWhile_cons, ← lstrip]
      split
      next space =>
        have other : c ≠ '/' := by
          rintro rfl
          cases space
        rw [ih, List.count_cons]
        simp [other]
      next => rfl

theorem count_strip (s : Str) : (strip s).count '/' = s.count '/' := by
  rw [strip, count_rstrip, count_lstrip]

theorem count_sanitizeString (s : Str) : (sanitizeString s).count '/' = s.count '/' :=
  List.count_filter (by decide)

theorem count_normalizeProjectId (unicode : IsUpperTable table) (value : PyText) :
    (normalizeProjectId table value).count '/' = (chars value).count '/' := by
  rw [normalizeProjectId, count_upper unicode, count_strip, count_sanitizeString]

theorem count_subPathLike_le (text : Str) (prev : Option Char) (within : Bool) :
    (subPathLike prev within text).count '/' ≤ text.count '/' := by
  induction text generalizing prev within with
  | nil => exact Nat.le_refl 0
  | cons c rest ih =>
      have least : rest.count '/' ≤ (c :: rest).count '/' := List.count_le_count_cons
      rw [subPathLike]
      split
      next => exact Nat.le_trans (ih _ _) least
      split
      next =>
        have plain : placeholder.count '/' = 0 := by decide
        rw [List.count_append, plain, Nat.zero_add]
        exact Nat.le_trans (ih _ _) least
      next =>
        rw [List.count_cons, List.count_cons]
        exact Nat.add_le_add_right (ih _ _) _

/-- A redacted text has lost a slash. -/
theorem count_subPathLike_lt {text : Str} {prev : Option Char}
    (found : hasPathLike prev text = true) :
    (subPathLike prev false text).count '/' < text.count '/' := by
  induction text generalizing prev with
  | nil => cases found
  | cons c rest ih =>
      rw [subPathLike, Bool.false_and, if_neg Bool.false_ne_true]
      split
      next starts =>
        have slash : c = '/' := (of_decide_eq_true starts).1
        have plain : placeholder.count '/' = 0 := by decide
        rw [List.count_append, plain, Nat.zero_add, slash, List.count_cons_self]
        exact Nat.lt_succ_of_le (count_subPathLike_le rest _ _)
      next starts =>
        rw [hasPathLike, Bool.eq_false_iff.mpr starts, Bool.false_or] at found
        rw [List.count_cons, List.count_cons]
        exact Nat.add_lt_add_right (ih found) _

/-- The redacted text has the same normal form just if nothing was redacted. -/
theorem normalizeProjectId_sanitized_iff (unicode : IsUpperTable table) (project : PyText) :
    normalizeProjectId table (ofStr (sanitizeAuditText (chars project))) =
        normalizeProjectId table project ↔
      hasPathLike none (sanitizeString (chars project)) = false := by
  constructor
  · intro same
    by_contra redacted
    have fewer := count_subPathLike_lt (Bool.of_not_eq_false redacted)
    have counts := congrArg (List.count '/') same
    rw [count_normalizeProjectId unicode, count_normalizeProjectId unicode, chars_ofStr,
      sanitizeAuditText, count_strip, redactPathlikeSubstrings] at counts
    rw [counts, count_sanitizeString] at fewer
    exact Nat.lt_irrefl _ fewer
  · intro clean
    rw [normalizeProjectId, normalizeProjectId, chars_ofStr, sanitizeAuditText,
      redactPathlikeSubstrings, subPathLike_eq_self clean, sanitizeString_strip, strip_strip]

/-! ### Searching -/

/-- An event is found by every spelling of its project just if the project was an argument, is
blank, or has nothing in it that looks like a path. -/
theorem project_filter_iff (unicode : IsUpperTable table) {trail : Trail O R}
    {calls : List (Call O R)} {entry : Entry O R} {row : AuditLog O R} {project : PyText}
    (writes : Writes table trail calls entry row) (given : entry.given = some project) :
    Found table (trail.run table calls) project row ↔ Searchable table entry project := by
  rw [found_iff (mem_run_of_writes writes), Searchable]
  have stored : row.projectId = normalizedOrNone table (resolvedProjectId table entry) := by
    obtain ⟨_, _, _, _, _, _, _, rfl⟩ := writes
    rfl
  by_cases blank : normalizeProjectId table project = []
  · exact iff_of_true (.inl blank) (.inr (.inl blank))
  rw [or_iff_right blank, or_iff_right blank, stored]
  cases argument : entry.projectId with
  | some text =>
      have same : text = project := by
        rw [Entry.given, argument] at given
        exact Option.some.inj given
      subst same
      have resolved : resolvedProjectId table entry =
          some (ofStr (normalizeProjectId table text)) := by
        rw [resolvedProjectId, argument, normalizedOrNone_of_not_blank blank]
      rw [resolved, normalizedOrNone_eq_some_iff blank]
      exact iff_of_true (normalizeProjectId_ofStr unicode text) (.inl nofun)
  | none =>
      rw [storedProject_of_details argument given, normalizedOrNone_eq_some_iff blank,
        normalizeProjectId_sanitized_iff unicode]
      simp

/-! ### Projects that look like a path -/

/-- Upper case of ASCII letters only. -/
def asciiTable : Char → Str := fun c => [c]

theorem isUpperTable_asciiTable : IsUpperTable asciiTable where
  nonempty _ _ := List.cons_ne_nil _ _
  settled c wide d mem := by
    rw [List.mem_singleton.mp mem, upperChar, if_neg (Nat.not_lt.mpr wide)]
    rfl
  dark c _ dark d mem := by rwa [List.mem_singleton.mp mem]
  plain c wide d mem := by
    rw [List.mem_singleton.mp mem]
    constructor <;>
      · rintro rfl
        exact absurd wide (by decide)

/-- An event with a project in its details. -/
def detailsEntry (project : String) : Entry Unit Unit where
  projectId := none
  details := [(projectKey, .str (ofStr project.toList))]
  columns := ()

def detailsCall (project : String) : Call Unit Unit where
  request := .add (detailsEntry project)
  timestamp := 5
  raises := false

theorem writes_detailsCall (project : String) :
    Writes asciiTable ⟨[], 1⟩ [detailsCall project] (detailsEntry project)
      (auditLog asciiTable 1 5 (detailsEntry project)) :=
  ⟨[], detailsCall project, [], 0, rfl, rfl, rfl, rfl⟩

/-- The project `case-1` with blanks is found. -/
theorem plain_project_found :
    Found asciiTable (Trail.run asciiTable ⟨[], 1⟩ [detailsCall " case-1 "])
      (ofStr " case-1 ".toList) (auditLog asciiTable 1 5 (detailsEntry " case-1 ")) :=
  (project_filter_iff isUpperTable_asciiTable (writes_detailsCall _) rfl).mpr
    (.inr (.inr (by decide)))

/-- The project `/CASE` is stored as `[REDACTED-PATH]`, and is not found. -/
theorem path_project_not_found :
    Writes asciiTable ⟨[], 1⟩ [detailsCall "/CASE"] (detailsEntry "/CASE")
        (auditLog asciiTable 1 5 (detailsEntry "/CASE")) ∧
      (detailsEntry "/CASE").given = some (ofStr "/CASE".toList) ∧
      ¬ Found asciiTable (Trail.run asciiTable ⟨[], 1⟩ [detailsCall "/CASE"])
        (ofStr "/CASE".toList) (auditLog asciiTable 1 5 (detailsEntry "/CASE")) := by
  refine ⟨writes_detailsCall _, rfl, ?_⟩
  rw [found_iff (mem_run_of_writes (writes_detailsCall _))]
  decide

end Ecube.AuditTrail
