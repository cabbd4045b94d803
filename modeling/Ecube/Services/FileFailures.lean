import Ecube.Basic.Integers
import Ecube.Basic.Json
import Ecube.Basic.Text
import Ecube.Services.CopyEngine

/-!
The classification of file failures (`_classify_file_failure` in
`app/services/copy_engine.py`) and the messages it is given.

The message of an `OSError` holds the path of the file, and the classifier searches the
whole message. `firstKind_osErrorText` says which kind it finds: the first of those that
the error's text and the quoted path announce. `classify_osErrorText_iff` says when the
path does not matter.
-/

namespace Ecube.FileFailures

open PosixPath Text Integers

/-! ### The message of an error -/

/-- A character of a path. A byte that is not UTF-8 is read as a lone surrogate. -/
inductive PathChar where
  | char (c : Char)
  | surrogate (n : Fin 2048)
  deriving DecidableEq, Repr

/-- The quotation mark of `repr`. -/
def quoteOf (path : List PathChar) : Char :=
  if .char '\'' ∈ path ∧ .char '"' ∉ path then '"' else '\''

/-- `\xXX`, for a number below `2 ^ 8`. -/
def byteEscape (n : Nat) : Str := ['\\', 'x', (n / 16).digitChar, (n % 16).digitChar]

/-- `\UXXXXXXXX`. -/
def longEscape (n : Nat) : Str :=
  ['\\', 'U', '0', '0', (n / 1048576).digitChar, (n / 65536 % 16).digitChar,
    (n / 4096 % 16).digitChar, (n / 256 % 16).digitChar, (n / 16 % 16).digitChar,
    (n % 16).digitChar]

/-- A character as `repr` writes it. Which characters beyond ASCII are printable is left
to the Unicode database. -/
def reprChar (printable : Char → Bool) (quote : Char) : PathChar → Str
  | .surrogate n => Json.unicodeEscape (0xd800 + n)
  | .char c =>
      if c = quote ∨ c = '\\' then ['\\', c]
      else if c = '\t' then ['\\', 't']
      else if c = '\n' then ['\\', 'n']
      else if c = '\r' then ['\\', 'r']
      else if c.toNat < 32 ∨ c.toNat = 127 then byteEscape c.toNat
      else if c.toNat < 127 ∨ printable c then [c]
      else if c.toNat ≤ 0xff then byteEscape c.toNat
      else if c.toNat ≤ 0xffff then Json.unicodeEscape c.toNat
      else longEscape c.toNat

/-- The path between the quotation marks. -/
def pathText (printable : Char → Bool) (path : List PathChar) : Str :=
  path.flatMap (reprChar printable (quoteOf path))

def errnoText (errno : Int) : Str := "[Errno ".toList ++ decimal errno

/-- `str(OSError(errno, text, path))`. -/
def osErrorText (printable : Char → Bool) (errno : Int) (text : Str) (path : List PathChar) :
    Str :=
  errnoText errno ++ ']' :: ' ' :: text ++
    ':' :: ' ' :: quoteOf path :: (pathText printable path ++ [quoteOf path])

/-! ### Kinds of failures -/

def announces (s : Str) (kind : List String × String × String) : Bool :=
  kind.1.any (hasWord s)

/-- The place of the first kind that a text announces; `6` stands for none. -/
def firstKind (s : Str) : Nat := fileFailures.findIdx (announces s)

/-- `_classify_file_failure`, for any characters. -/
def classify (reason : Str) : String × String :=
  ((fileFailures.find? (announces (strip reason))).map Prod.snd).getD
    ("copy_failed", "File copy failed")

/-- A word that does not start or end with a blank, that no text `[Errno …]` has, and
that has none of the characters between the parts of the message. -/
structure Clear (word : Str) : Prop where
  nonempty : word ≠ []
  starts : word.head?.all (!isSpace ·) = true
  ends : word.getLast?.all (!isSpace ·) = true
  letter : word.any (· ∉ "[errno -0123456789".toList) = true
  marks : word.all (· ∉ [']', ':', '\'', '"']) = true

instance (word : Str) : Decidable (Clear word) :=
  decidable_of_iff
    (word ≠ [] ∧ word.head?.all (!isSpace ·) = true ∧ word.getLast?.all (!isSpace ·) = true ∧
      word.any (· ∉ "[errno -0123456789".toList) = true ∧
      word.all (· ∉ [']', ':', '\'', '"']) = true)
    ⟨fun ⟨nonempty, starts, ends, letter, marks⟩ => ⟨nonempty, starts, ends, letter, marks⟩,
      fun h => ⟨h.nonempty, h.starts, h.ends, h.letter, h.marks⟩⟩

theorem clear_tokens : ∀ kind ∈ fileFailures, ∀ token ∈ kind.1, Clear token.toList := by
  decide

section Search

variable {word : Str} {c : Char} {s : Str}

theorem Clear.absent (h : Clear word) (mark : c ∈ [']', ':', '\'', '"']) : c ∉ word := by
  intro mem
  have outside := List.all_eq_true.mp h.marks c mem
  exact of_decide_eq_true outside mark

theorem lowerChar_space (space : isSpace c = true) : lowerChar c = [c] := by
  apply lowerChar_eq
  rw [isSpace, decide_eq_true_eq] at space
  omega

theorem Clear.infix_space_cons (h : Clear word) (space : isSpace c = true) :
    word <:+: c :: s ↔ word <:+: s := by
  apply infix_cons_of_head h.nonempty
  intro first
  have starts := h.starts
  simp [first, space] at starts

theorem Clear.infix_concat_space (h : Clear word) (space : isSpace c = true) :
    word <:+: s ++ [c] ↔ word <:+: s := by
  apply infix_concat_of_getLast h.nonempty
  intro last
  have ends := h.ends
  simp [last, space] at ends

/-- Surrounding blanks do not matter. -/
theorem Clear.infix_strip (h : Clear word) : word <:+: lower (strip s) ↔ word <:+: lower s := by
  have front : ∀ s, word <:+: lower (lstrip s) ↔ word <:+: lower s := by
    intro s
    induction s with
    | nil => rfl
    | cons c s ih =>
        by_cases space : isSpace c = true
        · rw [lstrip, List.dropWhile_cons_of_pos space, ← lstrip, ih, lower, lower,
            List.flatMap_cons, lowerChar_space space]
          exact (h.infix_space_cons space).symm
        · rw [lstrip, List.dropWhile_cons_of_neg space]
  have back : ∀ s, word <:+: lower (rstrip s) ↔ word <:+: lower s := by
    intro s
    induction s using List.reverseRecOn with
    | nil => rfl
    | append_singleton s c ih =>
        by_cases space : isSpace c = true
        · rw [rstrip, List.rdropWhile_concat_pos _ _ _ space, ← rstrip, ih, lower_append]
          have single : lower [c] = [c] := by simp [lower, lowerChar_space space]
          rw [single]
          exact (h.infix_concat_space space).symm
        · rw [rstrip, List.rdropWhile_concat_neg _ _ _ space]
  rw [strip, back, front]

/-- A text of other characters does not have the word. -/
theorem Clear.not_infix_errno (h : Clear word)
    (within : ∀ c ∈ s, c ∈ "[errno -0123456789".toList) : ¬ word <:+: s := by
  obtain ⟨c, mem, outside⟩ := List.any_eq_true.mp h.letter
  intro found
  exact of_decide_eq_true outside (within c (found.subset mem))

theorem mem_decimal {n : Int} (mem : c ∈ decimal n) : c ∈ "-0123456789".toList := by
  have digit : ∀ n, c ∈ Nat.toDigits 10 n → c ∈ "-0123456789".toList := by
    intro n mem
    have digit := isDigit_of_mem_toDigits mem
    simp only [Char.isDigit, Bool.and_eq_true, decide_eq_true_eq] at digit
    have low : 48 ≤ c.toNat := digit.1
    have high : c.toNat ≤ 57 := digit.2
    rw [← Char.ofNat_toNat c]
    generalize c.toNat = k at low high
    interval_cases k <;> decide
  cases n with
  | ofNat n => exact digit n mem
  | negSucc n =>
      rcases List.mem_cons.mp mem with rfl | mem
      · decide
      · exact digit _ mem

theorem lower_cons : lower (c :: s) = lowerChar c ++ lower s := List.flatMap_cons

theorem lower_errnoText {errno : Int} :
    lower (errnoText errno) = lower "[Errno ".toList ++ lower (decimal errno) :=
  lower_append ..

/-- The text before the bracket is made of the characters that the word does not have. -/
theorem Clear.not_infix_front (h : Clear word) {errno : Int} :
    ¬ word <:+: lower (errnoText errno) := by
  apply h.not_infix_errno
  intro c mem
  rcases List.mem_append.mp (lower_errnoText ▸ mem) with front | number
  · have all : (lower "[Errno ".toList).all (· ∈ "[errno -0123456789".toList) = true := by decide
    exact of_decide_eq_true (List.all_eq_true.mp all c front)
  · obtain ⟨d, digit, lowered⟩ := List.mem_flatMap.mp number
    have plain : ("-0123456789".toList).all (fun d => lowerChar d = [d] ∧
        d ∈ "[errno -0123456789".toList) = true := by decide
    obtain ⟨same, within⟩ := of_decide_eq_true (List.all_eq_true.mp plain d (mem_decimal digit))
    rw [same, List.mem_singleton] at lowered
    exact lowered ▸ within

theorem quoteOf_cases (path : List PathChar) : quoteOf path = '"' ∨ quoteOf path = '\'' := by
  rw [quoteOf]
  split
  · exact .inl rfl
  · exact .inr rfl

/-- The words of a message are those of the error's text and those of the quoted path. -/
theorem Clear.infix_osErrorText (h : Clear word) {printable : Char → Bool} {errno : Int}
    {text : Str} {path : List PathChar} :
    word <:+: lower (osErrorText printable errno text path) ↔
      word <:+: lower text ∨ word <:+: lower (pathText printable path) := by
  have quote : quoteOf path ∉ word ∧ lowerChar (quoteOf path) = [quoteOf path] := by
    rcases quoteOf_cases path with eq | eq
    · exact eq ▸ ⟨h.absent (by decide), by decide⟩
    · exact eq ▸ ⟨h.absent (by decide), by decide⟩
  have bracket : lowerChar ']' = [']'] := by decide
  have colon : lowerChar ':' = [':'] := by decide
  have blank : lowerChar ' ' = [' '] := by decide
  have single : lower [quoteOf path] = [quoteOf path] := by
    rw [lower_cons, quote.2]
    rfl
  have lowered : lower (osErrorText printable errno text path) =
      lower (errnoText errno) ++ ']' :: ' ' :: (lower text ++ ':' :: ' ' ::
        quoteOf path :: (lower (pathText printable path) ++ [quoteOf path])) := by
    simp only [osErrorText, lower_append, lower_cons, bracket, colon, blank, quote.2, single,
      List.append_assoc, List.cons_append, List.nil_append]
  have space : isSpace ' ' = true := by decide
  have opening : word.head? ≠ some (quoteOf path) := fun first =>
    quote.1 (List.mem_of_mem_head? first)
  have closing : word.getLast? ≠ some (quoteOf path) := fun last =>
    quote.1 (List.mem_of_getLast? last)
  rw [lowered, infix_append_cons (h.absent (by decide)), h.infix_space_cons space,
    infix_append_cons (h.absent (by decide)), h.infix_space_cons space,
    infix_cons_of_head h.nonempty opening, infix_concat_of_getLast h.nonempty closing]
  exact or_iff_right h.not_infix_front

end Search

/-! ### Which kind is found -/

theorem findIdx_or {α : Type*} {p q : α → Bool} (l : List α) :
    l.findIdx (fun a => p a || q a) = min (l.findIdx p) (l.findIdx q) := by
  induction l with
  | nil => rfl
  | cons a l ih =>
      simp only [List.findIdx_cons, ih]
      cases p a <;> cases q a <;> simp

section Kinds

variable {printable : Char → Bool} {errno : Int} {text : Str} {path q : List PathChar}

theorem findIdx_congr {α : Type*} {p q : α → Bool} {l : List α} (same : ∀ a ∈ l, p a = q a) :
    l.findIdx p = l.findIdx q := by
  induction l with
  | nil => rfl
  | cons a l ih =>
      rw [List.findIdx_cons, List.findIdx_cons, same a List.mem_cons_self,
        ih fun b mem => same b (List.mem_cons_of_mem a mem)]

theorem any_or {α : Type*} {p q : α → Bool} (l : List α) :
    (l.any p || l.any q) = l.any fun a => p a || q a := by
  induction l with
  | nil => rfl
  | cons a l ih =>
      rw [List.any_cons, List.any_cons, List.any_cons, ← ih]
      cases p a <;> cases q a <;> simp

/-- Kinds are announced alike where the tokens, which are clear words, are. -/
theorem any_congr_clear {holds holds' : String → Bool}
    (same : ∀ token : String, Clear token.toList → holds token = holds' token) :
    ∀ kind ∈ fileFailures, kind.1.any holds = kind.1.any holds' := by
  intro kind mem
  rw [Bool.eq_iff_iff, List.any_eq_true, List.any_eq_true]
  constructor
  · rintro ⟨token, within, found⟩
    exact ⟨token, within, same token (clear_tokens kind mem token within) ▸ found⟩
  · rintro ⟨token, within, found⟩
    exact ⟨token, within, (same token (clear_tokens kind mem token within)).symm ▸ found⟩

theorem firstKind_strip (s : Str) : firstKind (strip s) = firstKind s := by
  apply findIdx_congr
  apply any_congr_clear
  intro token clear
  exact decide_eq_decide.mpr clear.infix_strip

/-- The message announces what the error's text or the quoted path announces first. -/
theorem firstKind_osErrorText : firstKind (osErrorText printable errno text path) =
    min (firstKind text) (firstKind (pathText printable path)) := by
  rw [firstKind, firstKind, firstKind, ← findIdx_or]
  apply findIdx_congr
  intro kind mem
  rw [announces, announces, announces, any_or]
  apply any_congr_clear _ kind mem
  intro token clear
  rw [hasWord, hasWord, hasWord, ← Bool.decide_or]
  exact decide_eq_decide.mpr clear.infix_osErrorText

/-- The pair that is returned for the kind at the place. -/
def outcome (kind : Nat) : String × String :=
  (fileFailures[kind]?.map Prod.snd).getD ("copy_failed", "File copy failed")

theorem classify_eq (s : Str) : classify s = outcome (firstKind s) := by
  rw [classify, List.find?_eq_getElem?_findIdx, ← firstKind, firstKind_strip, outcome]

theorem firstKind_le (s : Str) : firstKind s ≤ 6 := List.findIdx_le_length

theorem outcome_injective : ∀ i ≤ 6, ∀ j ≤ 6, outcome i = outcome j → i = j := by
  decide

theorem classify_eq_iff {s t : Str} : classify s = classify t ↔ firstKind s = firstKind t := by
  rw [classify_eq, classify_eq]
  constructor
  · exact outcome_injective _ (firstKind_le s) _ (firstKind_le t)
  · exact congrArg outcome

/-- On ASCII texts this is the classification that the copy engine's model uses. -/
theorem classify_of_ascii {reason : String} (ascii : ∀ c ∈ reason.toList, c.toNat < 128) :
    classify reason.toList = classifyFileFailure reason := by
  have lowered : lower reason.toList = reason.toList.map Char.toLower := by
    rw [lower, ← List.flatMap_singleton' (reason.toList.map Char.toLower), List.flatMap_map]
    apply List.flatMap_congr
    intro c mem
    have small := ascii c mem
    rw [lowerChar, if_neg, if_neg]
    · rintro rfl
      exact absurd small (by decide)
    · rintro rfl
      exact absurd small (by decide)
  rw [classify_eq, classifyFileFailure, List.find?_eq_getElem?_findIdx, outcome, firstKind]
  congr 4
  funext kind
  rw [announces]
  congr 1
  funext token
  rw [hasWord, lowered]

end Kinds

/-- Two paths lead to the same classification of an error exactly when neither of them, as
it is quoted, announces a kind before that of the error's text, or both announce the same
kind first. An error that is known for a full target by its text is classified so exactly
when the path announces no permission failure. -/
theorem classify_osErrorText_iff {printable : Char → Bool} {errno : Int} {text : Str}
    {p q : List PathChar} :
    (classify (osErrorText printable errno text p) =
        classify (osErrorText printable errno text q) ↔
      (firstKind text ≤ firstKind (pathText printable p) ∧
          firstKind text ≤ firstKind (pathText printable q)) ∨
        firstKind (pathText printable p) = firstKind (pathText printable q)) ∧
    (classify text = ("target_full", targetFullMessage) →
      (classify (osErrorText printable errno text p) = ("target_full", targetFullMessage) ↔
        classify (pathText printable p) ≠
          ("permission_failure", "Permission or authentication failure"))) := by
  constructor
  · rw [classify_eq_iff, firstKind_osErrorText, firstKind_osErrorText]
    omega
  · have full : ("target_full", targetFullMessage) = outcome 1 := rfl
    have permission : ("permission_failure", "Permission or authentication failure") =
        outcome 0 := rfl
    rw [full, permission, classify_eq, classify_eq, classify_eq, firstKind_osErrorText]
    intro known
    have one := outcome_injective _ (firstKind_le text) 1 (by decide) known
    rw [one]
    constructor
    · intro found denied
      have zero := outcome_injective _ (firstKind_le _) 0 (by decide) denied
      rw [zero] at found
      exact absurd found (by decide)
    · intro allowed
      have later : firstKind (pathText printable p) ≠ 0 := fun zero => allowed (by rw [zero])
      rw [Nat.min_eq_left (Nat.one_le_iff_ne_zero.mpr later)]

/-- The error of a full drive, below a directory whose name has `auth` in it. -/
theorem full_drive_misclassified :
    classify (osErrorText (fun _ => true) 28 "No space left on device".toList
        ("/mnt/author/x".toList.map .char)) =
      ("permission_failure", "Permission or authentication failure") ∧
    ¬ ∀ (printable : Char → Bool) (errno : Int) (text : Str) (p q : List PathChar),
      classify (osErrorText printable errno text p) =
        classify (osErrorText printable errno text q) := by
  constructor
  · decide
  · intro same
    have paths := same (fun _ => true) 28 "No space left on device".toList
      ("/mnt/author/x".toList.map .char) ("/mnt/other/x".toList.map .char)
    exact absurd paths (by decide)

end Ecube.FileFailures
