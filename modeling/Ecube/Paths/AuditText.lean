import Ecube.Basic.PosixPath

/-!
Texts of audit events (`app/utils/sanitize.py`).

A text is stored in an audit event with its path-like parts replaced and its ends
trimmed (`sanitizeAuditText`). It is stored as it was submitted exactly if it has
no path-like part and starts and ends with no whitespace
(`sanitizeAuditText_eq_self_iff`), and what is stored is such a text
(`plain_sanitizeAuditText`). Surrogate code points do not occur.
-/

namespace Ecube.AuditText

open PosixPath

/-- The characters before which a slash starts no path. -/
def nameChar (c : Char) : Bool :=
  ('a' ≤ c ∧ c ≤ 'z') ∨ ('A' ≤ c ∧ c ≤ 'Z') ∨ ('0' ≤ c ∧ c ≤ '9') ∨ c ∈ ['.', '_', '-']

/-- The characters of a path-like part. -/
def pathChar (c : Char) : Bool := !(isSpace c || c ∈ ['\'', '"', '=', ':', ';', ','])

/-- A slash after `prev` and before `rest` starts a path-like part. -/
def startsPath (prev : Option Char) (c : Char) (rest : Str) : Bool :=
  c = '/' ∧ prev.any nameChar = false ∧ rest.head?.any pathChar = true

def placeholder : Str := "[redacted-path]".toList

/-- `_PATH_LIKE_RE.sub`, from the character before and whether it is within a match. -/
def subPathLike : Option Char → Bool → Str → Str
  | _, _, [] => []
  | prev, within, c :: rest =>
      if within && pathChar c then subPathLike (some c) true rest
      else if startsPath prev c rest then placeholder ++ subPathLike (some c) true rest
      else c :: subPathLike (some c) false rest

/-- `_PATH_LIKE_RE.search`. -/
def hasPathLike : Option Char → Str → Bool
  | _, [] => false
  | prev, c :: rest => startsPath prev c rest || hasPathLike (some c) rest

def sanitizeString (value : Str) : Str := value.filter (· ≠ '\x00')

def redactPathlikeSubstrings (value : Str) : Str := subPathLike none false (sanitizeString value)

/-- `_sanitize_audit_value` of a text under a key that names no path, device or error. -/
def sanitizeAuditText (value : Str) : Str := strip (redactPathlikeSubstrings value)

/-- A text as the request schemas let it through. -/
abbrev SafeStr := {s : Str // '\x00' ∉ s}

/-- The text has no path-like part, and no whitespace at its ends. -/
def Plain (text : Str) : Prop := strip text = text ∧ hasPathLike none text = false

instance (text : Str) : Decidable (Plain text) := inferInstanceAs (Decidable (_ ∧ _))

theorem subPathLike_eq_self {text : Str} {prev : Option Char}
    (clean : hasPathLike prev text = false) :
    subPathLike prev false text = text := by
  induction text generalizing prev with
  | nil => rfl
  | cons c rest ih =>
      rw [hasPathLike, Bool.or_eq_false_iff] at clean
      rw [subPathLike, Bool.false_and, clean.1, ih clean.2]
      rfl

/-- The first path-like part and what replaces it. -/
theorem subPathLike_of_hasPathLike {text : Str} {prev : Option Char}
    (found : hasPathLike prev text = true) :
    ∃ before after after', text = before ++ '/' :: after ∧
      subPathLike prev false text = before ++ '[' :: after' := by
  induction text generalizing prev with
  | nil => cases found
  | cons c rest ih =>
      rw [subPathLike, Bool.false_and]
      cases starts : startsPath prev c rest with
      | true =>
          have slash : c = '/' := (of_decide_eq_true starts).1
          exact ⟨[], rest, _, by rw [slash, List.nil_append], rfl⟩
      | false =>
          rw [hasPathLike, starts, Bool.false_or] at found
          obtain ⟨before, after, after', here, there⟩ := ih found
          exact ⟨c :: before, after, after', by rw [here, List.cons_append], by simp [there]⟩

theorem sanitizeString_eq_self (text : SafeStr) : sanitizeString text = text.1 := by
  refine List.filter_eq_self.mpr fun c mem => decide_eq_true ?_
  rintro rfl
  exact text.2 mem

theorem sanitizeAuditText_eq_self_iff (text : SafeStr) :
    sanitizeAuditText text = text.1 ↔ Plain text := by
  rw [sanitizeAuditText, redactPathlikeSubstrings, sanitizeString_eq_self, Plain]
  cases found : hasPathLike none text.1 with
  | false => rw [subPathLike_eq_self found, and_iff_left rfl]
  | true =>
      obtain ⟨before, after, after', here, there⟩ := subPathLike_of_hasPathLike found
      rw [there]
      refine iff_of_false (fun same => ?_) fun plain => Bool.noConfusion plain.2
      rw [here] at same
      have noSpace : ∀ c t, before ++ '/' :: after = c :: t → isSpace c = false :=
        fun c t h => head_strip (same.trans h)
      -- Nothing is trimmed at the start, so the two texts agree up to the slash.
      have front : lstrip (before ++ '[' :: after') = before ++ '[' :: after' := by
        cases before with
        | nil => rfl
        | cons c before => simp [lstrip, noSpace c _ rfl]
      have agree : before ++ '/' :: after <+: before ++ '[' :: after' := by
        rw [← same, strip, front]
        exact List.rdropWhile_prefix isSpace _
      have differ := (List.cons_prefix_cons.mp ((List.prefix_append_right_inj before).mp agree)).1
      exact absurd differ (by decide)

theorem hasPathLike_of_no_slash {text : Str} (none : '/' ∉ text) (prev : Option Char) :
    hasPathLike prev text = false := by
  induction text generalizing prev with
  | nil => rfl
  | cons c rest ih =>
      rw [List.mem_cons, not_or] at none
      rw [hasPathLike, ih none.2, Bool.or_false]
      exact decide_eq_false fun starts => none.1 starts.1.symm

/-- A text without slashes, whitespace and null characters is stored as it is. -/
theorem sanitizeAuditText_of_no_slash {text : Str}
    (ordinary : ∀ c ∈ text, c ≠ '/' ∧ c ≠ '\x00' ∧ isSpace c = false) :
    sanitizeAuditText text = text :=
  (sanitizeAuditText_eq_self_iff ⟨text, fun mem => (ordinary _ mem).2.1 rfl⟩).mpr
    ⟨strip_of_no_space fun c mem => (ordinary c mem).2.2,
      hasPathLike_of_no_slash (fun mem => (ordinary _ mem).1 rfl) none⟩

/-! ### What is left by the replacement -/

theorem hasPathLike_cons {c : Char} (other : c ≠ '/') (prev : Option Char) (rest : Str) :
    hasPathLike prev (c :: rest) = hasPathLike (some c) rest := by
  have none : startsPath prev c rest = false := decide_eq_false fun starts => other starts.1
  rw [hasPathLike, none, Bool.false_or]

theorem hasPathLike_placeholder (prev : Option Char) (rest : Str) :
    hasPathLike prev (placeholder ++ rest) = hasPathLike (some ']') rest := by
  change hasPathLike prev ('[' :: 'r' :: 'e' :: 'd' :: 'a' :: 'c' :: 't' :: 'e' :: 'd' :: '-' ::
    'p' :: 'a' :: 't' :: 'h' :: ']' :: rest) = _
  iterate 15 rw [hasPathLike_cons (by decide)]

theorem startsPath_of_not_pathChar {c : Char} (other : pathChar c = false) (prev : Option Char)
    (rest : Str) : startsPath prev c rest = false := by
  refine decide_eq_false fun starts => ?_
  rw [starts.1] at other
  exact absurd other (by decide)

/-- A slash that is left has before it and after it what it had. -/
theorem startsPath_subPathLike {prev : Option Char} {c : Char} {rest : Str}
    (kept : startsPath prev c rest = false) :
    startsPath prev c (subPathLike (some c) false rest) = false := by
  refine decide_eq_false fun starts => of_decide_eq_false kept ⟨starts.1, starts.2.1, ?_⟩
  cases rest with
  | nil => exact starts.2.2
  | cons d rest =>
      rw [subPathLike, Bool.false_and, if_neg Bool.false_ne_true] at starts
      split at starts
      next path =>
        have slash : d = '/' := (of_decide_eq_true path).1
        rw [slash]
        rfl
      next => exact starts.2.2

/-- Inside a match the replacement is already written. -/
theorem hasPathLike_subPathLike (text : Str) (prev : Option Char) :
    hasPathLike prev (subPathLike prev false text) = false ∧
      hasPathLike (some ']') (subPathLike prev true text) = false := by
  induction text generalizing prev with
  | nil => exact ⟨rfl, rfl⟩
  | cons c rest ih =>
      constructor
      · rw [subPathLike, Bool.false_and, if_neg Bool.false_ne_true]
        split
        next => rw [hasPathLike_placeholder, (ih (some c)).2]
        next kept =>
          rw [hasPathLike, startsPath_subPathLike (Bool.eq_false_iff.mpr kept), (ih (some c)).1]
          rfl
      · rw [subPathLike, Bool.true_and]
        split
        next => exact (ih (some c)).2
        next stop =>
          have other := Bool.eq_false_iff.mpr stop
          have slash : c ≠ '/' := by
            rintro rfl
            exact stop rfl
          rw [startsPath_of_not_pathChar other, if_neg Bool.false_ne_true,
            hasPathLike_cons slash, (ih (some c)).1]

theorem hasPathLike_append {text : Str} {prev : Option Char} (found : hasPathLike prev text = true)
    (more : Str) : hasPathLike prev (text ++ more) = true := by
  induction text generalizing prev with
  | nil => cases found
  | cons c rest ih =>
      rw [hasPathLike, Bool.or_eq_true] at found
      rw [List.cons_append, hasPathLike, Bool.or_eq_true]
      refine found.imp (fun starts => ?_) fun found => ih found
      have path := of_decide_eq_true starts
      refine decide_eq_true ⟨path.1, path.2.1, ?_⟩
      cases rest with
      | nil => cases path.2.2
      | cons d rest => exact path.2.2

/-- Before the first character stands as good as whitespace. -/
theorem hasPathLike_of_not_nameChar {prev : Option Char} (other : prev.any nameChar = false)
    (text : Str) : hasPathLike prev text = hasPathLike none text := by
  cases text with
  | nil => rfl
  | cons c rest => simp [hasPathLike, startsPath, other]

theorem nameChar_of_isSpace {c : Char} (space : isSpace c = true) : nameChar c = false := by
  have bounds : (9 ≤ c.toNat ∧ c.toNat ≤ 13) ∨ (28 ≤ c.toNat ∧ c.toNat ≤ 32) ∨ 0x85 ≤ c.toNat := by
    rw [isSpace, decide_eq_true_eq] at space
    omega
  rw [nameChar, decide_eq_false_iff_not]
  have order : ∀ d : Char, d ≤ c ↔ d.toNat ≤ c.toNat := fun _ => Iff.rfl
  have order' : ∀ d : Char, c ≤ d ↔ c.toNat ≤ d.toNat := fun _ => Iff.rfl
  simp only [order, order', List.mem_cons, List.not_mem_nil, or_false]
  rintro (⟨low, high⟩ | ⟨low, high⟩ | ⟨low, high⟩ | rfl | rfl | rfl)
  · have : 'a'.toNat = 97 := rfl
    have : 'z'.toNat = 122 := rfl
    omega
  · have : 'A'.toNat = 65 := rfl
    have : 'Z'.toNat = 90 := rfl
    omega
  · have : '0'.toNat = 48 := rfl
    have : '9'.toNat = 57 := rfl
    omega
  all_goals exact absurd space (by decide)

theorem hasPathLike_strip {text : Str} (clean : hasPathLike none text = false) :
    hasPathLike none (strip text) = false := by
  have front : hasPathLike none (lstrip text) = false := by
    induction text with
    | nil => rfl
    | cons c rest ih =>
        rw [lstrip, List.dropWhile_cons]
        split
        next space =>
          have slash : c ≠ '/' := by
            rintro rfl
            cases space
          have other : (some c).any nameChar = false := nameChar_of_isSpace space
          rw [hasPathLike_cons slash, hasPathLike_of_not_nameChar other] at clean
          exact ih clean
        next => exact clean
  obtain ⟨more, split⟩ := List.rdropWhile_prefix isSpace (lstrip text)
  rw [Bool.eq_false_iff]
  intro found
  have whole := hasPathLike_append found more
  rw [strip, rstrip, split, front] at whole
  cases whole

/-- Nothing path-like is left in a text that is stored. -/
theorem plain_sanitizeAuditText (value : Str) : Plain (sanitizeAuditText value) :=
  ⟨strip_strip _, hasPathLike_strip (hasPathLike_subPathLike _ none).1⟩

theorem not_mem_sanitizeString (value : Str) : '\x00' ∉ sanitizeString value :=
  fun mem => of_decide_eq_true (List.mem_filter.mp mem).2 rfl

theorem mem_of_mem_strip {c : Char} {s : Str} (mem : c ∈ strip s) : c ∈ s :=
  List.dropWhile_subset _ ((List.rdropWhile_prefix isSpace _).subset mem)

theorem sanitizeString_strip (value : Str) :
    sanitizeString (strip (sanitizeString value)) = strip (sanitizeString value) :=
  sanitizeString_eq_self ⟨_, fun mem => not_mem_sanitizeString value (mem_of_mem_strip mem)⟩

theorem not_mem_subPathLike {text : Str} (absent : '\x00' ∉ text) (prev : Option Char)
    (within : Bool) : '\x00' ∉ subPathLike prev within text := by
  induction text generalizing prev within with
  | nil => exact List.not_mem_nil
  | cons c rest ih =>
      rw [List.mem_cons, not_or] at absent
      rw [subPathLike]
      split
      next => exact ih absent.2 _ _
      split
      next =>
        rw [List.mem_append, not_or]
        exact ⟨by decide, ih absent.2 _ _⟩
      next =>
        rw [List.mem_cons, not_or]
        exact ⟨absent.1, ih absent.2 _ _⟩

theorem sanitizeAuditText_sanitizeAuditText (value : Str) :
    sanitizeAuditText (sanitizeAuditText value) = sanitizeAuditText value := by
  have absent := not_mem_subPathLike (not_mem_sanitizeString value) none false
  exact (sanitizeAuditText_eq_self_iff ⟨_, fun mem => absent (mem_of_mem_strip mem)⟩).mpr
    (plain_sanitizeAuditText value)

end Ecube.AuditText
