import Ecube.Services.PasswordPolicy

/-!
Which updates of the password policy take effect.

`update_takes_effect_iff`: the file is read as it is reported, and keeps its other lines, just
if no further line of an updated key has another value and the last line that is kept has no
blanks at its end.
-/

namespace Ecube.PasswordPolicy

open PosixPath Text TextLines Integers

/-! ### Lines -/

/-- The writable key that a line sets. -/
def keyOf (line : Str) : Option Key := (assigned line).bind fun parts => Key.ofText parts.1

/-- A line of the root setting. -/
def isRoot (line : Str) : Bool := (assigned line).any fun parts => parts.1 = enforceKey

/-- A line that sets neither a writable key nor the root setting. -/
def isOther (line : Str) : Bool := keyOf line = none && !isRoot line

variable (digit : Char → Option Nat)

/-- What a line holds for a key. -/
def valueOf (k : Key) (line : Str) : Option Int :=
  (parsedLine digit line).bind fun e => if e.1 = k then some e.2 else none

/-- What the lines hold for a key. -/
def valuesOf (k : Key) (lines : List Str) : List Int := lines.filterMap (valueOf digit k)

/-- The lines behind the first one that sets a key. -/
def afterFirst (k : Key) (lines : List Str) : List Str :=
  (lines.dropWhile fun line => keyOf line ≠ some k).tail

/-- The lines that are to be kept, without blank ones at the end. -/
def keptLines (lines : List Str) : List Str := (lines.filter isOther).rdropWhile isBlank

/-- The text has the values, enforces them for root, and has the other lines of the old text. -/
structure TakesEffect (existingText : Str) (values : Values) (text : Str) : Prop where
  values : parsePwqualityPolicyValues digit text = values
  enforced : ∃ line ∈ splitlines text, assigned line = some (enforceKey, ['1'])
  notDisabled : ∀ line ∈ splitlines text, ∀ value, assigned line = some (enforceKey, value) →
    value = ['1']
  kept : keptLines (splitlines text) = keptLines (splitlines existingText)

/-- No further line of an updated key has another value, and if every line is there already, then
the last one is trimmed or is replaced. -/
structure Clear (updates : Key → Option Int) (existingText : Str) : Prop where
  printable : ∀ k v, updates k = some v → (strInt v).isSome = true
  single : ∀ k v, updates k = some v →
    ∀ last ∈ (valuesOf digit k (afterFirst k (splitlines existingText))).getLast?, last = v
  trimmed : (∀ k, ∃ line ∈ splitlines existingText, keyOf line = some k) →
    (∃ line ∈ splitlines existingText, isRoot line = true) →
      ∀ last ∈ lastLine (splitlines existingText), isOther last = true → rstrip last = last

/-! ### Keys and values -/

theorem Key.ofText_text (k : Key) : Key.ofText k.text = some k := by
  cases k <;> decide

theorem Key.ofText_eq_some {name : Str} {k : Key} : Key.ofText name = some k ↔ k.text = name := by
  constructor
  · intro found
    simpa using List.find?_some found
  · rintro rfl
    exact k.ofText_text

theorem Key.ofText_enforceKey : Key.ofText enforceKey = none := by
  decide

theorem Key.text_injective {k l : Key} (h : k.text = l.text) : k = l := by
  have same : some k = some l := by rw [← k.ofText_text, h, l.ofText_text]
  exact Option.some.inj same

variable {digit}

theorem parseLines_eq (lines : List Str) (k : Key) :
    parseLines digit lines k = (valuesOf digit k lines).getLast?.getD (defaultValues k) := by
  induction lines using List.reverseRecOn with
  | nil => rfl
  | append_singleton lines line ih =>
      rw [parseLines, List.foldl_concat, ← parseLines, valuesOf, List.filterMap_append, ← valuesOf,
        List.getLast?_append]
      cases parsed : parsedLine digit line with
      | none => simpa [valueOf, parsed] using ih
      | some e =>
          obtain ⟨key, value⟩ := e
          by_cases same : key = k
          · subst same
            simp [valueOf, parsed]
          · simpa [valueOf, parsed, same, Function.update_of_ne (Ne.symm same)] using ih

theorem valueOf_eq_none {line : Str} {k : Key} (free : keyOf line ≠ some k) :
    valueOf digit k line = none := by
  cases parts : assigned line with
  | none => simp [valueOf, parsedLine, parts]
  | some pair =>
      rw [keyOf, parts, Option.bind_some] at free
      cases named : Key.ofText pair.1 with
      | none => simp [valueOf, parsedLine, parts, named]
      | some key =>
          have other : key ≠ k := fun same => free (by rw [named, same])
          cases number : parsePwqualityValue digit pair.2 with
          | none => simp [valueOf, parsedLine, parts, named, number]
          | some value => simp [valueOf, parsedLine, parts, named, number, other]

/-- A line and the same line without blanks at its end say the same. -/
theorem assigned_rstrip (line : Str) : assigned (rstrip line) = assigned line := by
  simp only [assigned, strip_rstrip]

theorem valueOf_rstrip (k : Key) (line : Str) :
    valueOf digit k (rstrip line) = valueOf digit k line := by
  rw [valueOf, parsedLine, assigned_rstrip, ← parsedLine, ← valueOf]

theorem isOther_rstrip (line : Str) : isOther (rstrip line) = isOther line := by
  unfold isOther keyOf isRoot
  rw [assigned_rstrip]

theorem strip_of_isBlank {line : Str} (blank : isBlank line = true) : strip line = [] := by
  have empty : lstrip line = [] := List.dropWhile_eq_nil_iff.mpr (List.all_eq_true.mp blank)
  rw [strip, empty, rstrip_nil]

theorem assigned_of_isBlank {line : Str} (blank : isBlank line = true) : assigned line = none := by
  simp [assigned, strip_of_isBlank blank]

theorem isOther_of_isBlank {line : Str} (blank : isBlank line = true) : isOther line = true := by
  simp [isOther, keyOf, isRoot, assigned_of_isBlank blank]

/-! ### The lines that are written -/

theorem strip_padded {front s back : Str} (before : ∀ c ∈ front, isSpace c = true)
    (within : ∀ c ∈ s, isSpace c = false) (behind : ∀ c ∈ back, isSpace c = true) :
    strip (front ++ (s ++ back)) = s := by
  have dropped : lstrip (front ++ (s ++ back)) = lstrip (s ++ back) :=
    List.dropWhile_append_of_pos before
  cases s with
  | nil =>
      have empty : lstrip back = [] := List.dropWhile_eq_nil_iff.mpr behind
      rw [strip, dropped, List.nil_append, empty, rstrip_nil]
  | cons c s =>
      have stop : lstrip ((c :: s) ++ back) = (c :: s) ++ back := by
        simp [lstrip, within c List.mem_cons_self]
      rw [strip, dropped, stop, rstrip_append_spaces behind,
        ← strip_cons (within c List.mem_cons_self), strip_of_no_space within]

theorem Key.plain_text (k : Key) {c : Char} (mem : c ∈ k.text) :
    isSpace c = false ∧ c ≠ '=' ∧ c ≠ '#' := by
  have plain : k.text.all (fun c => !isSpace c && c != '=' && c != '#') = true := by
    cases k <;> decide
  simpa [and_assoc] using List.all_eq_true.mp plain c mem

theorem isSpace_of_isBoundary {c : Char} (boundary : isBoundary c = true) : isSpace c = true := by
  have listed := of_decide_eq_true boundary
  simp only [List.mem_cons, List.not_mem_nil, or_false] at listed
  rcases listed with rfl | rfl | rfl | rfl | rfl | rfl | rfl | rfl | rfl | rfl <;> rfl

theorem isBoundary_of_not_isSpace {c : Char} (plain : isSpace c = false) :
    isBoundary c = false := by
  by_contra boundary
  rw [isSpace_of_isBoundary (Bool.of_not_eq_false boundary)] at plain
  cases plain

section Written

variable {values : Values} (k : Key)

theorem rstrip_settingLine (values : Values) (k : Key) :
    rstrip (settingLine values k) = settingLine values k := by
  have plain : ∀ c ∈ decimal (values k), isSpace c = false :=
    fun c mem => not_isSpace_of_mem_decimal mem
  have trimmed : rstrip (decimal (values k)) = decimal (values k) := by
    have whole := rstrip_strip (decimal (values k))
    rwa [strip_of_no_space plain] at whole
  have dark : isBlank (decimal (values k)) = false := by
    obtain ⟨c, mem⟩ := List.exists_mem_of_ne_nil _ (decimal_ne_nil (values k))
    exact List.all_eq_false.mpr ⟨c, mem, Bool.eq_false_iff.mp (plain c mem)⟩
  rw [settingLine, rstrip_append_of_not_isBlank _ dark, trimmed]

theorem isLine_settingLine : IsLine (settingLine values k) := by
  intro c mem
  rcases List.mem_append.mp mem with front | value
  · rcases List.mem_append.mp front with name | between
    · exact isBoundary_of_not_isSpace (k.plain_text name).1
    · exact Bool.eq_false_iff.mpr fun boundary => by
        have sides : " = ".toList.all (fun c => !isBoundary c) = true := rfl
        simpa [boundary] using List.all_eq_true.mp sides c between
  · exact isBoundary_of_not_isSpace (not_isSpace_of_mem_decimal value)

theorem assigned_settingLine :
    assigned (settingLine values k) = some (k.text, decimal (values k)) := by
  obtain ⟨c, name, cons⟩ : ∃ c name, k.text = c :: name :=
    List.exists_cons_of_ne_nil (by cases k <;> exact List.cons_ne_nil _ _)
  have head := k.plain_text (c := c) (cons ▸ List.mem_cons_self)
  have whole : strip (settingLine values k) = settingLine values k := by
    have trimmed := rstrip_settingLine values k
    rw [settingLine, cons] at trimmed ⊢
    rwa [List.cons_append, List.cons_append, strip_cons head.1]
  have shape : settingLine values k =
      (k.text ++ [' ']) ++ '=' :: ([' '] ++ decimal (values k)) := by
    simp [settingLine]
  have parts : cut '=' (settingLine values k) =
      some (k.text ++ [' '], [' '] ++ decimal (values k)) := by
    rw [shape]
    apply cut_append_cons
    intro mem
    rcases List.mem_append.mp mem with name | space
    · exact (k.plain_text name).2.1 rfl
    · simp at space
  have noComment : ¬ (settingLine values k = [] ∨ (settingLine values k).head? = some '#') := by
    rw [settingLine, cons]
    simpa using head.2.2
  have space : ∀ c ∈ [' '], isSpace c = true := List.forall_mem_singleton.mpr rfl
  have none : ∀ c ∈ ([] : Str), isSpace c = true := fun _ mem => absurd mem List.not_mem_nil
  have name := strip_padded none (fun c mem => (k.plain_text mem).1) space
  have value := strip_padded space
    (fun c mem => not_isSpace_of_mem_decimal (n := values k) mem) none
  rw [List.nil_append] at name
  rw [List.append_nil] at value
  rw [assigned, whole]
  simp only [if_neg noComment, parts, Option.map_some, name, value]

theorem keyOf_settingLine : keyOf (settingLine values k) = some k := by
  rw [keyOf, assigned_settingLine, Option.bind_some, k.ofText_text]

theorem isOther_settingLine : isOther (settingLine values k) = false := by
  rw [isOther, keyOf_settingLine]
  rfl

theorem isRoot_settingLine : isRoot (settingLine values k) = false := by
  have other : k.text ≠ enforceKey := by
    intro same
    have found := k.ofText_text
    rw [same, Key.ofText_enforceKey] at found
    cases found
  simpa [isRoot, assigned_settingLine] using other

theorem parsedLine_settingLine (printable : (strInt (values k)).isSome = true) :
    parsedLine digit (settingLine values k) = some (k, values k) := by
  obtain ⟨text, print⟩ := Option.isSome_iff_exists.mp printable
  have shown : text = decimal (values k) := by
    rw [strInt] at print
    split at print
    · exact (Option.some.inj print).symm
    · cases print
  have plain : strip text = text := by
    rw [shown]
    exact strip_of_no_space fun c mem => not_isSpace_of_mem_decimal mem
  rw [parsedLine, assigned_settingLine, ← shown]
  simp [k.ofText_text, parsePwqualityValue, plain, parseInt_strInt digit print]

end Written

theorem assigned_enforceForRootLine :
    assigned enforceForRootLine = some (enforceKey, ['1']) := by
  decide

/-! ### The rendered lines -/

/-- What is done with one line. -/
inductive Renders (values : Values) (remaining : List Key) (line : Str) (lines : List Str) :
    Prop where
  | replaced (key : Key) (waits : key ∈ remaining) (sets : keyOf line = some key)
      (renders : renderLines values remaining (line :: lines) =
        (settingLine values key :: (renderLines values (remaining.filter (· ≠ key)) lines).1,
          (renderLines values (remaining.filter (· ≠ key)) lines).2))
  | root (root : isRoot line = true) (free : keyOf line = none)
      (renders : renderLines values remaining (line :: lines) =
        (enforceForRootLine :: (renderLines values remaining lines).1,
          (renderLines values remaining lines).2.1, true))
  | kept (free : ∀ key ∈ remaining, keyOf line ≠ some key) (plain : isRoot line = false)
      (renders : renderLines values remaining (line :: lines) =
        (line :: (renderLines values remaining lines).1, (renderLines values remaining lines).2))

theorem renders_cons (values : Values) (remaining : List Key) (line : Str) (lines : List Str) :
    Renders values remaining line lines := by
  cases parts : assigned line with
  | none =>
      refine .kept ?_ ?_ ?_
      · simp [keyOf, parts]
      · simp [isRoot, parts]
      · simp only [renderLines, parts]
  | some pair =>
      obtain ⟨name, value⟩ := pair
      cases found : remaining.find? fun k => k.text = name with
      | some key =>
          have named : key.text = name := by simpa using List.find?_some found
          refine .replaced key (List.mem_of_find?_eq_some found) ?_ ?_
          · rw [keyOf, parts, Option.bind_some, Key.ofText_eq_some.mpr named]
          · simp only [renderLines, parts, found]
      | none =>
          have other : ∀ key ∈ remaining, keyOf line ≠ some key := by
            intro key mem sets
            rw [keyOf, parts, Option.bind_some, Key.ofText_eq_some] at sets
            exact List.find?_eq_none.mp found key mem (decide_eq_true sets)
          by_cases root : name = enforceKey
          · refine .root ?_ ?_ ?_
            · simp [isRoot, parts, root]
            · rw [keyOf, parts, Option.bind_some, root, Key.ofText_enforceKey]
            · simp only [renderLines, parts, found, if_pos root]
          · refine .kept other ?_ ?_
            · simp [isRoot, parts, root]
            · simp only [renderLines, parts, found, if_neg root]

section Rendered

variable {values : Values}

theorem isRoot_of_keyOf {line : Str} {k : Key} (sets : keyOf line = some k) :
    isRoot line = false := by
  cases parts : assigned line with
  | none => simp [isRoot, parts]
  | some pair =>
      rw [keyOf, parts, Option.bind_some] at sets
      by_contra root
      have name : pair.1 = enforceKey := by simpa [isRoot, parts] using root
      rw [name, Key.ofText_enforceKey] at sets
      cases sets

theorem isRoot_enforceForRootLine : isRoot enforceForRootLine = true := by
  simp [isRoot, assigned_enforceForRootLine]

theorem isLine_enforceForRootLine : IsLine enforceForRootLine := by
  intro c mem
  have plain : enforceForRootLine.all (fun c => !isBoundary c) = true := rfl
  simpa using List.all_eq_true.mp plain c mem

theorem isOther_enforceForRootLine : isOther enforceForRootLine = false := by
  simp [isOther, isRoot_enforceForRootLine]

theorem keyOf_enforceForRootLine : keyOf enforceForRootLine = none := by
  rw [keyOf, assigned_enforceForRootLine, Option.bind_some, Key.ofText_enforceKey]

theorem enforceWritten_iff (remaining : List Key) (lines : List Str) :
    (renderLines values remaining lines).2.2 = lines.any isRoot := by
  induction lines generalizing remaining with
  | nil => rfl
  | cons line lines ih =>
      rw [List.any_cons]
      cases renders_cons values remaining line lines with
      | replaced key waits sets renders => rw [renders, ih, isRoot_of_keyOf sets, Bool.false_or]
      | root root free renders => rw [renders, root, Bool.true_or]
      | kept free plain renders => rw [renders, ih, plain, Bool.false_or]

/-- A key that waited still does just if no line sets it. -/
theorem mem_remaining_iff {k : Key} (remaining : List Key) (lines : List Str) :
    k ∈ (renderLines values remaining lines).2.1 ↔
      k ∈ remaining ∧ ∀ line ∈ lines, keyOf line ≠ some k := by
  induction lines generalizing remaining with
  | nil => simp [renderLines]
  | cons line lines ih =>
      rw [List.forall_mem_cons]
      cases renders_cons values remaining line lines with
      | replaced key waits sets renders =>
          rw [renders, ih, List.mem_filter, sets]
          simp only [decide_eq_true_eq, ne_eq, Option.some.injEq, and_assoc]
          rw [eq_comm (a := k)]
      | root root free renders => simp [renders, ih, free]
      | kept free plain renders =>
          rw [renders, ih]
          refine ⟨fun h => ⟨h.1, free k h.1, h.2⟩, fun h => ⟨h.1, h.2.2⟩⟩

theorem filter_isOther_render (remaining : List Key) (lines : List Str) :
    (renderLines values remaining lines).1.filter isOther = lines.filter isOther := by
  induction lines generalizing remaining with
  | nil => rfl
  | cons line lines ih =>
      cases renders_cons values remaining line lines with
      | replaced key waits sets renders =>
          have set : isOther line = false := by simp [isOther, sets]
          rw [renders, List.filter_cons_of_neg (by simp [isOther_settingLine]), ih,
            List.filter_cons_of_neg (by simp [set])]
      | root root free renders =>
          have set : isOther line = false := by simp [isOther, root]
          rw [renders, List.filter_cons_of_neg (by simp [isOther_enforceForRootLine]), ih,
            List.filter_cons_of_neg (by simp [set])]
      | kept free plain renders => rw [renders, List.filter_cons, List.filter_cons, ih]

/-- The root setting is on in every line that was rendered. -/
theorem root_on_of_mem_render {remaining : List Key} {lines : List Str} {line value : Str}
    (mem : line ∈ (renderLines values remaining lines).1)
    (parts : assigned line = some (enforceKey, value)) : value = ['1'] := by
  induction lines generalizing remaining with
  | nil => cases mem
  | cons first lines ih =>
      have root : isRoot line = true := by simp [isRoot, parts]
      cases renders_cons values remaining first lines with
      | replaced key waits sets renders =>
          rw [renders] at mem
          rcases List.mem_cons.mp mem with rfl | later
          · rw [isRoot_settingLine] at root
            cases root
          · exact ih later
      | root _ free renders =>
          rw [renders] at mem
          rcases List.mem_cons.mp mem with rfl | later
          · rw [assigned_enforceForRootLine] at parts
            cases parts
            rfl
          · exact ih later
      | kept free plain renders =>
          rw [renders] at mem
          rcases List.mem_cons.mp mem with rfl | later
          · rw [plain] at root
            cases root
          · exact ih later

theorem isLine_of_mem_render {remaining : List Key} {lines : List Str} {line : Str}
    (clean : ∀ l ∈ lines, IsLine l) (mem : line ∈ (renderLines values remaining lines).1) :
    IsLine line := by
  induction lines generalizing remaining with
  | nil => cases mem
  | cons first lines ih =>
      rw [List.forall_mem_cons] at clean
      cases renders_cons values remaining first lines with
      | replaced key waits sets renders =>
          rw [renders] at mem
          rcases List.mem_cons.mp mem with rfl | later
          · exact isLine_settingLine key
          · exact ih clean.2 later
      | root root free renders =>
          rw [renders] at mem
          rcases List.mem_cons.mp mem with rfl | later
          · exact isLine_enforceForRootLine
          · exact ih clean.2 later
      | kept free plain renders =>
          rw [renders] at mem
          rcases List.mem_cons.mp mem with rfl | later
          · exact clean.1
          · exact ih clean.2 later

theorem any_isRoot_render (values : Values) (remaining : List Key) (lines : List Str) :
    (renderLines values remaining lines).1.any isRoot = lines.any isRoot := by
  induction lines generalizing remaining with
  | nil => rfl
  | cons line lines ih =>
      rw [List.any_cons]
      cases renders_cons values remaining line lines with
      | replaced key waits sets renders =>
          rw [renders, List.any_cons, ih, isRoot_settingLine, isRoot_of_keyOf sets]
      | root root free renders =>
          rw [renders, List.any_cons, ih, isRoot_enforceForRootLine, root]
      | kept free plain renders => rw [renders, List.any_cons, ih]

theorem valuesOf_cons_of_free {line : Str} {k : Key} (free : keyOf line ≠ some k)
    (lines : List Str) : valuesOf digit k (line :: lines) = valuesOf digit k lines := by
  rw [valuesOf, List.filterMap_cons_none (valueOf_eq_none free), ← valuesOf]

/-- The lines of a key that does not wait are left. -/
theorem valuesOf_render_of_not_mem {k : Key} {remaining : List Key} (done : k ∉ remaining)
    (lines : List Str) :
    valuesOf digit k (renderLines values remaining lines).1 = valuesOf digit k lines := by
  induction lines generalizing remaining with
  | nil => rfl
  | cons line lines ih =>
      cases renders_cons values remaining line lines with
      | replaced key waits sets renders =>
          have other : some key ≠ some k := fun same => done (Option.some.inj same ▸ waits)
          rw [renders, valuesOf_cons_of_free (by rwa [keyOf_settingLine]),
            valuesOf_cons_of_free (by rwa [sets])]
          exact ih fun mem => done (List.mem_of_mem_filter mem)
      | root root free renders =>
          rw [renders, valuesOf_cons_of_free (by rw [keyOf_enforceForRootLine]; exact nofun),
            valuesOf_cons_of_free (by rw [free]; exact nofun), ih done]
      | kept free plain renders =>
          rw [renders, valuesOf, valuesOf, List.filterMap_cons, List.filterMap_cons, ← valuesOf,
            ← valuesOf, ih done]

/-- The first line of a key gets the value, its further lines are left. -/
theorem valuesOf_render {k : Key} {remaining : List Key} {lines : List Str} (waits : k ∈ remaining)
    (printable : (strInt (values k)).isSome = true) :
    valuesOf digit k (renderLines values remaining lines).1 =
      if ∀ line ∈ lines, keyOf line ≠ some k then []
      else values k :: valuesOf digit k (afterFirst k lines) := by
  induction lines generalizing remaining with
  | nil => rfl
  | cons line lines ih =>
      by_cases sets : keyOf line = some k
      · have some : ¬ ∀ l ∈ line :: lines, keyOf l ≠ some k :=
          fun free => free line List.mem_cons_self sets
        have behind : afterFirst k (line :: lines) = lines := by simp [afterFirst, sets]
        rw [if_neg some, behind]
        cases renders_cons values remaining line lines with
        | replaced key waits' sets' renders =>
            obtain rfl : key = k := Option.some.inj (sets'.symm.trans sets)
            have value : valueOf digit key (settingLine values key) = values key := by
              simp [valueOf, parsedLine_settingLine key printable]
            rw [renders, valuesOf, List.filterMap_cons_some value, ← valuesOf,
              valuesOf_render_of_not_mem (by simp)]
        | root root free renders =>
            rw [free] at sets
            cases sets
        | kept free plain renders => exact absurd sets (free k waits)
      · have behind : afterFirst k (line :: lines) = afterFirst k lines := by
          simp [afterFirst, sets]
        have none : (∀ l ∈ line :: lines, keyOf l ≠ some k) ↔ ∀ l ∈ lines, keyOf l ≠ some k := by
          rw [List.forall_mem_cons]
          exact and_iff_right sets
        simp only [none, behind]
        cases renders_cons values remaining line lines with
        | replaced key waits' sets' renders =>
            have other : k ≠ key := fun same => sets (same ▸ sets')
            have waiting : k ∈ remaining.filter (· ≠ key) := by simp [waits, other]
            rw [renders, valuesOf_cons_of_free, ih waiting]
            rw [keyOf_settingLine]
            exact fun same => other (Option.some.inj same).symm
        | root root free renders =>
            rw [renders, valuesOf_cons_of_free, ih waits]
            rw [keyOf_enforceForRootLine]
            exact nofun
        | kept free plain renders => rw [renders, valuesOf_cons_of_free sets, ih waits]

/-- A line is kept, or it is replaced by another setting. -/
def IsImage (line rendered : Str) : Prop :=
  rendered = line ∨ isOther line = false ∧ isOther rendered = false

theorem forall₂_render (values : Values) (remaining : List Key) (lines : List Str) :
    List.Forall₂ IsImage lines (renderLines values remaining lines).1 := by
  induction lines generalizing remaining with
  | nil => exact .nil
  | cons line lines ih =>
      cases renders_cons values remaining line lines with
      | replaced key waits sets renders =>
          have set : isOther line = false := by simp [isOther, sets]
          rw [renders]
          exact .cons (.inr ⟨set, isOther_settingLine key⟩) (ih _)
      | root root free renders =>
          have set : isOther line = false := by simp [isOther, root]
          rw [renders]
          exact .cons (.inr ⟨set, isOther_enforceForRootLine⟩) (ih _)
      | kept free plain renders =>
          rw [renders]
          exact .cons (.inl rfl) (ih _)

theorem isBlank_of_isOther {line : Str} (set : isOther line = false) : isBlank line = false := by
  by_contra blank
  rw [isOther_of_isBlank (Bool.of_not_eq_false blank)] at set
  cases set

theorem isBlank_image {line rendered : Str} (image : IsImage line rendered) :
    isBlank rendered = isBlank line := by
  rcases image with rfl | ⟨set, fresh⟩
  · rfl
  · rw [isBlank_of_isOther set, isBlank_of_isOther fresh]

/-- The last line becomes the last line. -/
theorem lastLine_image {lines rendered : List Str} (images : List.Forall₂ IsImage lines rendered) :
    Option.Rel IsImage (lastLine lines) (lastLine rendered) := by
  induction images with
  | nil => exact .none
  | @cons line new lines rendered image images ih =>
      rw [lastLine_cons, lastLine_cons, isBlank_image image]
      generalize lastLine lines = a at ih
      generalize lastLine rendered = b at ih
      cases ih with
      | some related => exact .some related
      | none =>
          cases isBlank line with
          | true => exact .none
          | false => exact .some image

theorem lastLine_render {remaining : List Key} {lines : List Str} {last : Str}
    (other : isOther last = true) :
    lastLine (renderLines values remaining lines).1 = some last ↔ lastLine lines = some last := by
  have image := lastLine_image (forall₂_render values remaining lines)
  generalize lastLine lines = a at image
  generalize lastLine (renderLines values remaining lines).1 = b at image
  cases image with
  | none => exact Iff.rfl
  | some related =>
      rcases related with rfl | ⟨set, fresh⟩
      · exact Iff.rfl
      · constructor
        · rintro ⟨⟩
          exact absurd (other.symm.trans fresh) Bool.noConfusion
        · rintro ⟨⟩
          exact absurd (other.symm.trans set) Bool.noConfusion

/-! ### The text that is written -/

/-- The lines before they are joined. -/
def updatedLines (values : Values) (lines : List Str) : List Str :=
  let result := renderLines values Key.all lines
  let gap := if result.1.getLast?.any (fun line => strip line ≠ []) then [[]] else []
  let appended := (Key.all.filter (· ∈ result.2.1)).map (settingLine values)
  let root := if result.2.2 then [] else [enforceForRootLine]
  result.1 ++ gap ++ appended ++ root

theorem renderUpdatedPolicy_eq (existingText : Str)
    (printable : ∀ k, (strInt (values k)).isSome = true) :
    renderUpdatedPolicy existingText values = some
      (rstrip (List.intercalate ['\n'] (updatedLines values (splitlines existingText))) ++
        ['\n']) := by
  rw [renderUpdatedPolicy, if_pos (List.all_eq_true.mpr fun k _ => printable k)]
  rfl

theorem printable_of_renders {existingText text : Str}
    (renders : renderUpdatedPolicy existingText values = some text) (k : Key) :
    (strInt (values k)).isSome = true := by
  rw [renderUpdatedPolicy] at renders
  split at renders
  next printable => exact List.all_eq_true.mp printable k k.mem_all
  next => cases renders

/-- The lines that follow the rendered ones. -/
theorem updatedLines_eq (values : Values) (lines : List Str) : ∃ gap, (∀ line ∈ gap, line = []) ∧
    updatedLines values lines = (renderLines values Key.all lines).1 ++ gap ++
      (Key.all.filter fun k => ∀ line ∈ lines, keyOf line ≠ some k).map (settingLine values) ++
      (if lines.any isRoot then [] else [enforceForRootLine]) := by
  have waiting : (Key.all.filter fun k => k ∈ (renderLines values Key.all lines).2.1) =
      Key.all.filter fun k => ∀ line ∈ lines, keyOf line ≠ some k := by
    apply List.filter_congr
    intro k mem
    rw [decide_eq_decide, mem_remaining_iff]
    exact and_iff_right mem
  refine ⟨_, ?_, by simp only [updatedLines, waiting, enforceWritten_iff]; rfl⟩
  intro line mem
  split at mem
  · exact List.mem_singleton.mp mem
  · cases mem

theorem valuesOf_append (k : Key) (front back : List Str) :
    valuesOf digit k (front ++ back) = valuesOf digit k front ++ valuesOf digit k back :=
  List.filterMap_append

theorem valuesOf_eq_nil {k : Key} {lines : List Str} (free : ∀ line ∈ lines, keyOf line ≠ some k) :
    valuesOf digit k lines = [] :=
  List.filterMap_eq_nil_iff.mpr fun line mem => valueOf_eq_none (free line mem)

theorem keyOf_of_isBlank {line : Str} (blank : isBlank line = true) : keyOf line = none := by
  rw [keyOf, assigned_of_isBlank blank, Option.bind_none]

theorem valuesOf_map_settingLine {k : Key} (printable : (strInt (values k)).isSome = true)
    (p : Key → Bool) :
    valuesOf digit k ((Key.all.filter p).map (settingLine values)) =
      if p k then [values k] else [] := by
  have written : ∀ l, valueOf digit k (settingLine values l) =
      if l = k then some (values k) else none := by
    intro l
    split
    next same =>
      subst same
      simp [valueOf, parsedLine_settingLine l printable]
    next other =>
      apply valueOf_eq_none
      rw [keyOf_settingLine]
      exact fun same => other (Option.some.inj same)
  rw [valuesOf, List.filterMap_map, List.filterMap_filter]
  simp only [Function.comp_def, written]
  cases waits : p k <;> cases k <;> simp [Key.all, waits]

theorem valuesOf_updatedLines (k : Key) (lines : List Str)
    (printable : (strInt (values k)).isSome = true) :
    valuesOf digit k (updatedLines values lines) =
      values k :: valuesOf digit k (afterFirst k lines) := by
  obtain ⟨gap, empty, shape⟩ := updatedLines_eq values lines
  have noGap : valuesOf digit k gap = [] := by
    apply valuesOf_eq_nil
    intro line mem
    rw [empty line mem]
    exact nofun
  have noRoot : valuesOf digit k (if lines.any isRoot then [] else [enforceForRootLine]) = [] := by
    apply valuesOf_eq_nil
    intro line mem
    split at mem
    · cases mem
    · rw [List.mem_singleton.mp mem, keyOf_enforceForRootLine]
      exact nofun
  rw [shape, valuesOf_append, valuesOf_append, valuesOf_append, noGap, noRoot, List.append_nil,
    List.append_nil, valuesOf_render k.mem_all printable, valuesOf_map_settingLine printable]
  by_cases free : ∀ line ∈ lines, keyOf line ≠ some k
  · have none : afterFirst k lines = [] := by
      have all : lines.dropWhile (fun line => keyOf line ≠ some k) = [] := by
        apply List.dropWhile_eq_nil_iff.mpr
        intro line mem
        exact decide_eq_true (free line mem)
      rw [afterFirst, all, List.tail_nil]
    rw [if_pos free, if_pos (decide_eq_true free), none]
    rfl
  · rw [if_neg free, if_neg fun all => free (of_decide_eq_true all), List.append_nil]

/-- The root setting is on in every line that is written, and there is such a line. -/
theorem root_on_of_mem_updatedLines {lines : List Str} {line value : Str}
    (mem : line ∈ updatedLines values lines)
    (parts : assigned line = some (enforceKey, value)) : value = ['1'] := by
  obtain ⟨gap, empty, shape⟩ := updatedLines_eq values lines
  have root : isRoot line = true := by simp [isRoot, parts]
  rw [shape] at mem
  simp only [List.mem_append] at mem
  rcases mem with ((rendered | blank) | setting) | last
  · exact root_on_of_mem_render rendered parts
  · rw [empty line blank] at parts
    cases parts
  · obtain ⟨k, _, rfl⟩ := List.mem_map.mp setting
    rw [isRoot_settingLine] at root
    cases root
  · split at last
    · cases last
    · rw [List.mem_singleton.mp last, assigned_enforceForRootLine] at parts
      cases parts
      rfl

theorem exists_isRoot_updatedLines (values : Values) (lines : List Str) :
    ∃ line ∈ updatedLines values lines, isRoot line = true := by
  obtain ⟨gap, empty, shape⟩ := updatedLines_eq values lines
  by_cases root : lines.any isRoot = true
  · rw [← any_isRoot_render values Key.all] at root
    obtain ⟨line, mem, root⟩ := List.any_eq_true.mp root
    refine ⟨line, ?_, root⟩
    rw [shape]
    simp [mem]
  · refine ⟨enforceForRootLine, ?_, isRoot_enforceForRootLine⟩
    rw [shape, if_neg root]
    simp

theorem keptLines_append_of_blank {blanks : List Str} (lines : List Str)
    (blank : ∀ line ∈ blanks, isBlank line = true) :
    keptLines (lines ++ blanks) = keptLines lines := by
  induction blanks using List.reverseRecOn with
  | nil => rw [List.append_nil]
  | append_singleton blanks line ih =>
      have last := blank line (by simp)
      rw [← List.append_assoc, keptLines, List.filter_append,
        List.filter_cons_of_pos (isOther_of_isBlank last), List.filter_nil,
        List.rdropWhile_concat_pos _ _ _ last, ← keptLines]
      exact ih fun line mem => blank line (List.mem_append_left _ mem)

theorem keptLines_append_of_set {set : List Str} (lines : List Str)
    (settings : ∀ line ∈ set, isOther line = false) :
    keptLines (lines ++ set) = keptLines lines := by
  have none : set.filter isOther = [] := by
    apply List.filter_eq_nil_iff.mpr
    intro line mem
    rw [settings line mem]
    exact Bool.false_ne_true
  rw [keptLines, List.filter_append, none, List.append_nil, ← keptLines]

theorem keptLines_updatedLines (values : Values) (lines : List Str) :
    keptLines (updatedLines values lines) = keptLines lines := by
  obtain ⟨gap, empty, shape⟩ := updatedLines_eq values lines
  rw [shape, keptLines_append_of_set, keptLines_append_of_set, keptLines_append_of_blank, keptLines,
    filter_isOther_render, ← keptLines]
  · intro line mem
    rw [empty line mem]
    rfl
  · intro line mem
    obtain ⟨k, _, rfl⟩ := List.mem_map.mp mem
    exact isOther_settingLine k
  · intro line mem
    split at mem
    · cases mem
    · rw [List.mem_singleton.mp mem]
      exact isOther_enforceForRootLine

/-- The last line is one of the others just if nothing is added. -/
theorem lastLine_updatedLines {lines : List Str} {last : Str} (other : isOther last = true) :
    lastLine (updatedLines values lines) = some last ↔
      (∀ k, ∃ line ∈ lines, keyOf line = some k) ∧ (∃ line ∈ lines, isRoot line = true) ∧
        lastLine lines = some last := by
  obtain ⟨gap, empty, shape⟩ := updatedLines_eq values lines
  have ends : ∀ {front : List Str} {line : Str}, isOther line = false →
      lastLine (front ++ [line]) ≠ some last := by
    intro front line set same
    rw [lastLine_concat _ (isBlank_of_isOther set)] at same
    cases same
    exact absurd (other.symm.trans set) Bool.noConfusion
  rw [shape]
  by_cases root : lines.any isRoot = true
  · rw [if_pos root, List.append_nil]
    rcases List.eq_nil_or_concat (Key.all.filter fun k => ∀ line ∈ lines, keyOf line ≠ some k) with
      none | ⟨front, k, added⟩
    · have every : ∀ k, ∃ line ∈ lines, keyOf line = some k := by
        intro k
        by_contra free
        apply List.filter_eq_nil_iff.mp none k k.mem_all
        exact decide_eq_true fun line mem sets => free ⟨line, mem, sets⟩
      have blank : ∀ line ∈ gap, isBlank line = true := by
        intro line mem
        rw [empty line mem]
        rfl
      rw [none, List.map_nil, List.append_nil, lastLine_append_of_blank _ blank,
        lastLine_render other]
      exact ⟨fun found => ⟨every, List.any_eq_true.mp root, found⟩, fun h => h.2.2⟩
    · have waits : k ∈ Key.all.filter fun k => ∀ line ∈ lines, keyOf line ≠ some k := by
        rw [added]
        simp
      have free := of_decide_eq_true (List.mem_filter.mp waits).2
      rw [added, List.concat_eq_append, List.map_append, List.map_singleton, ← List.append_assoc]
      refine ⟨fun same => absurd same (ends (isOther_settingLine k)), fun h => ?_⟩
      obtain ⟨line, mem, sets⟩ := h.1 k
      exact absurd sets (free line mem)
  · rw [if_neg root]
    refine ⟨fun same => absurd same (ends isOther_enforceForRootLine), fun h => ?_⟩
    exact absurd (List.any_eq_true.mpr h.2.1) root

theorem isLine_updatedLines {existingText line : Str}
    (mem : line ∈ updatedLines values (splitlines existingText)) : IsLine line := by
  obtain ⟨gap, empty, shape⟩ := updatedLines_eq values (splitlines existingText)
  rw [shape] at mem
  simp only [List.mem_append] at mem
  rcases mem with ((rendered | blank) | setting) | last
  · exact isLine_of_mem_render (fun l mem => isLine_of_mem_splitlines mem) rendered
  · rw [empty line blank]
    exact fun c mem => absurd mem List.not_mem_nil
  · obtain ⟨k, _, rfl⟩ := List.mem_map.mp setting
    exact isLine_settingLine k
  · split at last
    · cases last
    · rw [List.mem_singleton.mp last]
      exact isLine_enforceForRootLine

/-- The lines of the text that is written: those before the last one, and that one trimmed. -/
theorem exists_lines (existingText : Str) (printable : ∀ k, (strInt (values k)).isSome = true) :
    ∃ text init last blanks, renderUpdatedPolicy existingText values = some text ∧
      updatedLines values (splitlines existingText) = init ++ [last] ++ blanks ∧
      (∀ line ∈ blanks, isBlank line = true) ∧
      lastLine (updatedLines values (splitlines existingText)) = some last ∧
      splitlines text = init ++ [rstrip last] := by
  obtain ⟨line, mem, root⟩ := exists_isRoot_updatedLines values (splitlines existingText)
  have set : isOther line = false := by simp [isOther, root]
  obtain ⟨last, found⟩ := exists_lastLine mem (isBlank_of_isOther set)
  obtain ⟨dark, init, blanks, shape, blank⟩ := exists_split_of_lastLine found
  refine ⟨_, init, last, blanks, renderUpdatedPolicy_eq existingText printable, shape, blank, found,
    ?_⟩
  rw [shape]
  apply splitlines_rstrip_join dark blank
  rw [← shape]
  exact fun line mem => isLine_updatedLines mem

end Rendered

/-! ### Which updates take effect -/

variable {updates : Key → Option Int} {existingText : Str}

theorem exists_value_of_isRoot {line : Str} (root : isRoot line = true) :
    ∃ value, assigned line = some (enforceKey, value) := by
  cases parts : assigned line with
  | none => simp [isRoot, parts] at root
  | some pair =>
      obtain ⟨name, value⟩ := pair
      have same : name = enforceKey := by simpa [isRoot, parts] using root
      exact ⟨value, by rw [same]⟩

theorem exists_of_written {init : List Str} {last line : Str} (blanks : List Str)
    (mem : line ∈ init ++ [rstrip last]) :
    ∃ old ∈ init ++ [last] ++ blanks, assigned old = assigned line := by
  rcases List.mem_append.mp mem with front | ends
  · exact ⟨line, by simp [front], rfl⟩
  · rw [List.mem_singleton.mp ends]
    exact ⟨last, by simp, (assigned_rstrip last).symm⟩

theorem exists_written {init blanks : List Str} {last old : Str}
    (mem : old ∈ init ++ [last] ++ blanks) (blank : ∀ line ∈ blanks, isBlank line = true)
    (set : assigned old ≠ none) : ∃ line ∈ init ++ [rstrip last], assigned line = assigned old := by
  rcases List.mem_append.mp mem with front | behind
  · rcases List.mem_append.mp front with front | ends
    · exact ⟨old, by simp [front], rfl⟩
    · rw [List.mem_singleton.mp ends]
      exact ⟨rstrip last, by simp, assigned_rstrip last⟩
  · exact absurd (assigned_of_isBlank (blank old behind)) set

theorem valuesOf_written {init blanks : List Str} {last : Str} (k : Key)
    (blank : ∀ line ∈ blanks, isBlank line = true) :
    valuesOf digit k (init ++ [rstrip last]) = valuesOf digit k (init ++ [last] ++ blanks) := by
  have none : valuesOf digit k blanks = [] := valuesOf_eq_nil fun line mem => by
    rw [keyOf_of_isBlank (blank line mem)]
    exact nofun
  rw [valuesOf_append, valuesOf_append, none, List.append_nil, valuesOf_append, valuesOf, valuesOf,
    valuesOf, List.filterMap_cons, List.filterMap_cons, valueOf_rstrip]

theorem keptLines_written_iff {init blanks : List Str} {last : Str} (dark : isBlank last = false)
    (blank : ∀ line ∈ blanks, isBlank line = true) :
    keptLines (init ++ [rstrip last]) = keptLines (init ++ [last] ++ blanks) ↔
      (isOther last = true → rstrip last = last) := by
  have dark' := isBlank_rstrip dark
  rw [keptLines_append_of_blank _ blank]
  cases other : isOther last with
  | false =>
      have other' : isOther (rstrip last) = false := by rw [isOther_rstrip, other]
      rw [keptLines_append_of_set _ (List.forall_mem_singleton.mpr other),
        keptLines_append_of_set _ (List.forall_mem_singleton.mpr other')]
      simp
  | true =>
      have other' : isOther (rstrip last) = true := by rw [isOther_rstrip, other]
      rw [keptLines, keptLines, List.filter_append, List.filter_append,
        List.filter_cons_of_pos other, List.filter_cons_of_pos other', List.filter_nil,
        List.rdropWhile_concat_neg _ _ _ (Bool.eq_false_iff.mp dark),
        List.rdropWhile_concat_neg _ _ _ (Bool.eq_false_iff.mp dark')]
      simp


theorem printable_parsed (small : ∀ c d, digit c = some d → d ≤ 9) (k : Key) :
    (strInt (parsePwqualityPolicyValues digit existingText k)).isSome = true := by
  rw [parsePwqualityPolicyValues, parseLines_eq]
  cases last : (valuesOf digit k (splitlines existingText)).getLast? with
  | none => cases k <;> rfl
  | some value =>
      obtain ⟨line, -, held⟩ := List.mem_filterMap.mp (List.mem_of_getLast? last)
      rw [valueOf, parsedLine, Option.bind_eq_some_iff] at held
      obtain ⟨⟨key, number⟩, read, same⟩ := held
      simp only [Option.bind_eq_bind, Option.bind_eq_some_iff, Option.pure_def,
        Option.some.injEq, Prod.mk.injEq] at read
      obtain ⟨parts, -, name, -, value', read, -, rfl⟩ := read
      obtain rfl : value' = value := by
        split at same
        · exact Option.some.inj same
        · cases same
      exact strInt_of_parseInt small read

theorem printable_next_iff (small : ∀ c d, digit c = some d → d ≤ 9) :
    (∀ k, (strInt (nextValues (parsePwqualityPolicyValues digit existingText) updates k)).isSome =
        true) ↔
      ∀ k v, updates k = some v → (strInt v).isSome = true := by
  constructor
  · intro every k v given
    have printable := every k
    rwa [nextValues, given, Option.getD_some] at printable
  · intro given k
    rw [nextValues]
    cases update : updates k with
    | none => exact printable_parsed small k
    | some v => exact given k v update

theorem afterFirst_suffix (k : Key) (lines : List Str) : afterFirst k lines <:+ lines :=
  (List.tail_suffix _).trans (List.dropWhile_suffix _)

/-- The last value behind the first one is the last one. -/
theorem getLast?_valuesOf_of_behind {k : Key} {lines : List Str} {value : Int}
    (last : (valuesOf digit k (afterFirst k lines)).getLast? = some value) :
    (valuesOf digit k lines).getLast? = some value := by
  obtain ⟨front, split⟩ := afterFirst_suffix k lines
  rw [← split, valuesOf_append, List.getLast?_append, last, Option.some_or]

/-- The value of a key is read from the text just if the last value behind its first line is
that value. -/
theorem reads_iff {values : Values} {text : Str} {init blanks : List Str} {last : Str} {k : Key}
    (printable : (strInt (values k)).isSome = true)
    (shape : updatedLines values (splitlines existingText) = init ++ [last] ++ blanks)
    (blank : ∀ line ∈ blanks, isBlank line = true)
    (lines : splitlines text = init ++ [rstrip last]) :
    parsePwqualityPolicyValues digit text k = values k ↔
      ∀ value ∈ (valuesOf digit k (afterFirst k (splitlines existingText))).getLast?,
        value = values k := by
  rw [parsePwqualityPolicyValues, parseLines_eq, lines, valuesOf_written k blank, ← shape,
    valuesOf_updatedLines k _ printable, List.getLast?_cons, Option.getD_some]
  cases (valuesOf digit k (afterFirst k (splitlines existingText))).getLast? with
  | none => simp
  | some value => simp

/-- The value of a key that is not updated is the last one of the old text. -/
theorem reads_iff_single {k : Key} :
    (∀ value ∈ (valuesOf digit k (afterFirst k (splitlines existingText))).getLast?,
        value = nextValues (parsePwqualityPolicyValues digit existingText) updates k) ↔
      ∀ v, updates k = some v →
        ∀ last ∈ (valuesOf digit k (afterFirst k (splitlines existingText))).getLast?,
          last = v := by
  cases update : updates k with
  | some v =>
      rw [nextValues, update, Option.getD_some]
      exact ⟨fun h w same => Option.some.inj same ▸ h, fun h => h v rfl⟩
  | none =>
      refine ⟨fun _ _ given => absurd given nofun, fun _ value behind => ?_⟩
      rw [nextValues, update, Option.getD_none, parsePwqualityPolicyValues, parseLines_eq,
        getLast?_valuesOf_of_behind behind, Option.getD_some]

/-- A policy update takes effect just if no further line of an updated key has another value and
the last line, if it is the last one of the new text too and is kept, is trimmed. -/
theorem update_takes_effect_iff (small : ∀ c d, digit c = some d → d ≤ 9)
    (updates : Key → Option Int) (existingText : Str) :
    (∃ previous next text,
        updatePolicySettings digit updates existingText = some (previous, next, text) ∧
          TakesEffect digit existingText next text) ↔
      Clear digit updates existingText := by
  by_cases printable : ∀ k v, updates k = some v → (strInt v).isSome = true
  · have prints : ∀ k,
        (strInt (nextValues (parsePwqualityPolicyValues digit existingText) updates k)).isSome =
          true := (printable_next_iff small).mpr printable
    obtain ⟨text, init, last, blanks, renders, shape, blank, found, lines⟩ :=
      exists_lines existingText prints
    have updated : updatePolicySettings digit updates existingText =
        some (parsePwqualityPolicyValues digit existingText,
          nextValues (parsePwqualityPolicyValues digit existingText) updates, text) := by
      rw [updatePolicySettings]
      simp only [renders]
      rfl
    have dark : isBlank last = false := (exists_split_of_lastLine found).1
    have kept : keptLines (splitlines text) = keptLines (splitlines existingText) ↔
        (isOther last = true → rstrip last = last) := by
      have old := keptLines_updatedLines
        (nextValues (parsePwqualityPolicyValues digit existingText) updates)
        (splitlines existingText)
      rw [lines, ← old, shape]
      exact keptLines_written_iff dark blank
    constructor
    · rintro ⟨_, _, _, result, takes⟩
      rw [updated] at result
      cases result
      refine ⟨printable, fun k => ?_, fun keys root line mem other => ?_⟩
      · exact reads_iff_single.mp
          ((reads_iff (prints k) shape blank lines).mp (congrFun takes.values k))
      · obtain rfl : last = line :=
          Option.some.inj (found.symm.trans ((lastLine_updatedLines other).mpr ⟨keys, root, mem⟩))
        exact kept.mp takes.kept other
    · intro clear
      refine ⟨_, _, _, updated, ?_, ?_, ?_, kept.mpr fun other => ?_⟩
      · funext k
        exact (reads_iff (prints k) shape blank lines).mpr (reads_iff_single.mpr (clear.single k))
      · obtain ⟨line, mem, root⟩ := exists_isRoot_updatedLines _ (splitlines existingText)
        obtain ⟨value, parts⟩ := exists_value_of_isRoot root
        have on := root_on_of_mem_updatedLines mem parts
        rw [shape] at mem
        obtain ⟨written, mem', same⟩ := exists_written mem blank (by rw [parts]; exact nofun)
        refine ⟨written, lines ▸ mem', ?_⟩
        rw [same, parts, on]
      · intro line mem value parts
        rw [lines] at mem
        obtain ⟨old, mem, same⟩ := exists_of_written blanks mem
        rw [← shape] at mem
        exact root_on_of_mem_updatedLines mem (same.trans parts)
      · obtain ⟨keys, root, mem⟩ := (lastLine_updatedLines other).mp found
        exact clear.trimmed keys root last mem other
  · constructor
    · rintro ⟨_, _, _, result, -⟩
      rw [updatePolicySettings] at result
      simp only [Option.bind_eq_bind, Option.bind_eq_some_iff] at result
      obtain ⟨_, renders, -⟩ := result
      exact absurd ((printable_next_iff small).mp (printable_of_renders renders)) printable
    · exact fun clear => absurd clear.printable printable

/-! ### An update of the minimal length -/

/-- Only ASCII digits. -/
def asciiDigit : Char → Option Nat := fun _ => none

/-- `{"minlen": 14}`. -/
def minlenUpdate : Key → Option Int := Function.update (fun _ => none) .minlen (some 14)

/-- The file has the key once. -/
theorem minlen_takes_effect : ∃ previous next text,
    updatePolicySettings asciiDigit minlenUpdate "# local\nminlen = 8\n".toList =
        some (previous, next, text) ∧
      TakesEffect asciiDigit "# local\nminlen = 8\n".toList next text := by
  have only : ∀ {k v}, minlenUpdate k = some v → k = .minlen ∧ v = 14 := by
    intro k v given
    cases k <;> cases given
    exact ⟨rfl, rfl⟩
  have small : ∀ c d, asciiDigit c = some d → d ≤ 9 := by
    rintro c d ⟨⟩
  apply (update_takes_effect_iff small minlenUpdate _).mpr
  refine ⟨fun k v given => ?_, fun k v given => ?_, fun keys => ?_⟩
  · obtain ⟨-, rfl⟩ := only given
    rfl
  · obtain ⟨rfl, rfl⟩ := only given
    exact nofun
  · obtain ⟨line, mem, sets⟩ := keys .retry
    have free : (splitlines "# local\nminlen = 8\n".toList).all
        (fun line => keyOf line ≠ some .retry) = true := by decide +kernel
    exact absurd sets (of_decide_eq_true (List.all_eq_true.mp free line mem))

/-- The file has the key twice: the second value stays. -/
theorem minlen_stays : ¬ ∃ previous next text,
    updatePolicySettings asciiDigit minlenUpdate "minlen = 8\nminlen = 10\n".toList =
        some (previous, next, text) ∧
      TakesEffect asciiDigit "minlen = 8\nminlen = 10\n".toList next text := by
  rintro ⟨previous, next, text, result, takes⟩
  have read : (updatePolicySettings asciiDigit minlenUpdate "minlen = 8\nminlen = 10\n".toList).map
      (fun r => (r.2.1 .minlen, parsePwqualityPolicyValues asciiDigit r.2.2 .minlen)) =
        some (14, 10) := by
    decide +kernel
  rw [result, Option.map_some, Option.some.injEq, Prod.mk.injEq] at read
  have value := congrFun takes.values .minlen
  have fourteen : next .minlen = 14 := read.1
  have ten : parsePwqualityPolicyValues asciiDigit text .minlen = 10 := read.2
  rw [fourteen, ten] at value
  cases value

end Ecube.PasswordPolicy
