import Ecube.Basic.Substitution
import Ecube.Services.FileFailures

/-!
The patterns of `_redact_log_line`, and how far their matches reach.

The patterns know no JSON. The first two replace what looks like a credential up to the next
blank, comma or semicolon, the third the text between two quotation marks after a sensitive key.

* `Header.sub_comma`, `Header.sub_value`, `Header.scan_over`: the first two patterns in front of a
  comma and of a quotation mark.
* `fieldPattern_append`, `sub_guarded`, `sub_of_count`: where the third pattern has a match.
-/

namespace Ecube.LogRedaction

open PosixPath Substitution

/-! ### The patterns -/

/-- Whether a letter of a pattern matches a character, ignoring case. -/
def letter (p c : Char) : Bool :=
  c.toLower = p ∨ p = 's' ∧ c = '\u017f' ∨ p = 'k' ∧ c = '\u212a' ∨
    p = 'i' ∧ (c = '\u0130' ∨ c = '\u0131')

/-- What is left behind a word. -/
def eat : List Char → Str → Option Str
  | [], s => some s
  | p :: word, c :: s => if letter p c then eat word s else none
  | _ :: _, [] => none

/-- The words of `password|passwd|...|api[_-]?key|...`. None of them begins another. -/
def sensitiveWords : List (List Char) :=
  ["password".toList, "passwd".toList, "pwd".toList, "secret".toList, "token".toList,
    "api_key".toList, "api-key".toList, "apikey".toList, "client_secret".toList,
    "access_token".toList, "refresh_token".toList]

def eatWord (s : Str) : Option Str := sensitiveWords.findSome? fun word => eat word s

/-- What is left behind one of these characters. -/
def oneOf (cs : List Char) : Str → Option Str
  | [] => none
  | c :: s => if c ∈ cs then some s else none

def skipSpaces (s : Str) : Str := s.dropWhile isSpace

def inRun (c : Char) : Bool := !(isSpace c || c = ',' || c = ';')

/-- `[^\s,;]+`, or nothing. -/
def run (s : Str) : Str := s.takeWhile inRun

/-- A pattern that ends in `[^\s,;]+`. Before it stands what is kept, and maybe more. -/
def credential (header : Option Char → Str → Option (Str × Str)) (mark : String) : Matcher Char :=
  fun prev s =>
    match header prev s with
    | none => none
    | some (kept, rest) =>
        if run rest = [] then none
        else some (s.length - rest.length + (run rest).length,
          s.take (s.length - kept.length) ++ mark.toList)

/-- `authorization\s*[:=]\s*(bearer|basic)` and `\s+`. -/
def authorizationHeader (_prev : Option Char) (s : Str) : Option (Str × Str) := do
  let rest ← eat "authorization".toList s
  let rest ← oneOf [':', '='] (skipSpaces rest)
  let kept ← (eat "bearer".toList (skipSpaces rest)).or (eat "basic".toList (skipSpaces rest))
  if (kept.head?).any isSpace then some (kept, skipSpaces kept) else none

section Patterns

-- `str.isalnum` of a character
variable (isAlnum : Char → Bool)

def isWord (c : Char) : Bool := isAlnum c || c = '_'

/-- `\b(?:password|...)\b\s*[:=]\s*`. -/
def assignmentHeader (prev : Option Char) (s : Str) : Option (Str × Str) := do
  if prev.any (isWord isAlnum) then none
  else
    let rest ← eatWord s
    if (rest.head?).any (isWord isAlnum) then none
    else
      let rest ← oneOf [':', '='] (skipSpaces rest)
      some (skipSpaces rest, skipSpaces rest)

def authorizationPattern : Matcher Char := credential authorizationHeader " [REDACTED]"

def assignmentPattern : Matcher Char := credential (assignmentHeader isAlnum) "[REDACTED]"

/-- `"(?:password|...)"\s*:\s*"`. -/
def fieldHeader (s : Str) : Option Str := do
  let rest ← oneOf ['"'] s
  let rest ← eatWord rest
  let rest ← oneOf ['"'] rest
  let rest ← oneOf [':'] (skipSpaces rest)
  oneOf ['"'] (skipSpaces rest)

/-- `[^"]+"` after such a header. -/
def fieldPattern : Matcher Char := fun _prev s =>
  match fieldHeader s with
  | none => none
  | some rest =>
      let content := rest.takeWhile (· ≠ '"')
      if content = [] ∨ content.length = rest.length then none
      else some (s.length - rest.length + content.length + 1,
        s.take (s.length - rest.length) ++ "[REDACTED]\"".toList)

/-- `_redact_log_line`. -/
def redactLogLine (line : Str) : Str :=
  let redacted := sub authorizationPattern 0 none line
  let redacted := sub (assignmentPattern isAlnum) 0 none redacted
  sub fieldPattern 0 none redacted

end Patterns

/-! ### Where a match cannot reach -/

/-- A character that no word of a pattern has. -/
def Foreign (c : Char) : Prop :=
  ∀ word ∈ "authorization".toList :: "bearer".toList :: "basic".toList :: sensitiveWords,
    ∀ p ∈ word, letter p c = false

/-- Of the words only the characters matter. -/
theorem foreign_of_all {c : Char}
    (all : (("authorization".toList :: "bearer".toList :: "basic".toList :: sensitiveWords).all
      fun word => word.all fun p => !letter p c) = true) : Foreign c := by
  intro word mem p inside
  have each := List.all_eq_true.mp (List.all_eq_true.mp all word mem) p inside
  rwa [Bool.not_eq_true'] at each

/-- A character that no header of a pattern has. -/
structure Stop (c : Char) : Prop where
  space : isSpace c = false
  sign : c ∉ [':', '=']
  foreign : Foreign c

/-- The characters of the frame of a line, and the backslash. -/
def frame : List Char := [' ', ':', '=', '"', ',', '\x7b', '\x7d', ']', '\\']

theorem foreign_frame {c : Char} (mem : c ∈ frame) : Foreign c := by
  have all : (frame.all fun c =>
      ("authorization".toList :: "bearer".toList :: "basic".toList :: sensitiveWords).all
        fun word => word.all fun p => !letter p c) = true := by decide +kernel
  exact foreign_of_all (List.all_eq_true.mp all c mem)

theorem foreign_blank : Foreign ' ' := foreign_frame (by decide)

theorem foreign_colon : Foreign ':' := foreign_frame (by decide)

theorem foreign_close : Foreign '\x7d' := foreign_frame (by decide)

theorem stop_quote : Stop '"' := ⟨by decide, by decide, foreign_frame (by decide)⟩

theorem stop_comma : Stop ',' := ⟨by decide, by decide, foreign_frame (by decide)⟩

theorem stop_brace : Stop '\x7b' := ⟨by decide, by decide, foreign_frame (by decide)⟩

section Stopped

variable {c : Char}

theorem eat_append {word : List Char} (foreign : ∀ p ∈ word, letter p c = false) (s y : Str) :
    eat word (s ++ c :: y) = (eat word s).map (· ++ c :: y) := by
  induction word generalizing s with
  | nil => rfl
  | cons p word ih =>
      rw [List.forall_mem_cons] at foreign
      cases s with
      | nil => simp [eat, foreign.1]
      | cons d s =>
          rw [List.cons_append, eat, eat, ih foreign.2]
          split <;> rfl

theorem eatWord_append (stop : Stop c) (s y : Str) :
    eatWord (s ++ c :: y) = (eatWord s).map (· ++ c :: y) := by
  have foreign : ∀ word ∈ sensitiveWords, ∀ p ∈ word, letter p c = false := fun word mem =>
    stop.foreign word (by simp [mem])
  rw [eatWord, eatWord]
  generalize sensitiveWords = words at foreign
  induction words with
  | nil => rfl
  | cons word words ih =>
      rw [List.forall_mem_cons] at foreign
      rw [List.findSome?_cons, List.findSome?_cons, eat_append foreign.1]
      cases eat word s with
      | none => exact ih foreign.2
      | some rest => rfl

theorem oneOf_append {cs : List Char} (other : c ∉ cs) (s y : Str) :
    oneOf cs (s ++ c :: y) = (oneOf cs s).map (· ++ c :: y) := by
  cases s with
  | nil => simp [oneOf, other]
  | cons d s =>
      rw [List.cons_append, oneOf, oneOf]
      split <;> rfl

theorem skipSpaces_append (other : isSpace c = false) (s y : Str) :
    skipSpaces (s ++ c :: y) = skipSpaces s ++ c :: y := by
  induction s with
  | nil => simp [skipSpaces, other]
  | cons d s ih =>
      rw [skipSpaces, skipSpaces, List.cons_append, List.dropWhile_cons, List.dropWhile_cons]
      split
      · exact ih
      · rfl

/-- A header that is found, or not, whatever follows the character. -/
def Through (header : Option Char → Str → Option (Str × Str)) (c : Char) : Prop :=
  ∀ prev s y, header prev (s ++ c :: y) =
    (header prev s).map fun found => (found.1 ++ c :: y, found.2 ++ c :: y)

theorem through_authorization (stop : Stop c) : Through authorizationHeader c := by
  intro prev s y
  have foreign := stop.foreign
  simp only [Foreign, List.forall_mem_cons] at foreign
  rw [authorizationHeader, authorizationHeader, eat_append foreign.1]
  cases eat "authorization".toList s with
  | none => rfl
  | some rest =>
      simp only [Option.map_some, Option.bind_eq_bind, Option.bind_some]
      rw [skipSpaces_append stop.space, oneOf_append stop.sign]
      cases oneOf [':', '='] (skipSpaces rest) with
      | none => rfl
      | some rest =>
          simp only [Option.map_some, Option.bind_some]
          rw [skipSpaces_append stop.space, eat_append foreign.2.1, eat_append foreign.2.2.1,
            ← Option.map_or]
          cases (eat "bearer".toList (skipSpaces rest)).or
              (eat "basic".toList (skipSpaces rest)) with
          | none => rfl
          | some kept =>
              cases kept with
              | nil => simp [stop.space]
              | cons d kept =>
                  have skipped := skipSpaces_append stop.space (d :: kept) y
                  rw [List.cons_append] at skipped
                  simp only [Option.map_some, Option.bind_some, List.cons_append, skipped]
                  rw [List.head?_cons, List.head?_cons]
                  split <;> rfl

theorem through_assignment (stop : Stop c) (isAlnum : Char → Bool) :
    Through (assignmentHeader isAlnum) c := by
  intro prev s y
  rw [assignmentHeader, assignmentHeader]
  split
  next => rfl
  next =>
    rw [eatWord_append stop]
    cases eatWord s with
    | none => rfl
    | some rest =>
        simp only [Option.map_some, Option.bind_eq_bind, Option.bind_some]
        cases rest with
        | nil =>
            have none_ : oneOf [':', '='] (skipSpaces ([] ++ c :: y)) = none := by
              rw [skipSpaces_append stop.space, oneOf_append stop.sign]
              rfl
            rw [none_]
            split <;> rfl
        | cons d rest =>
            rw [skipSpaces_append stop.space, oneOf_append stop.sign, List.cons_append,
              List.head?_cons, List.head?_cons]
            split
            next => rfl
            next =>
              cases oneOf [':', '='] (skipSpaces (d :: rest)) with
              | none => rfl
              | some rest =>
                  simp only [Option.map_some, Option.bind_some]
                  rw [skipSpaces_append stop.space]

theorem run_append {rest : Str} (y : Str) (beyond : run rest = rest → inRun c = false) :
    run (rest ++ c :: y) = run rest := by
  induction rest with
  | nil =>
      rw [List.nil_append, run, List.takeWhile_cons_of_neg]
      · rfl
      · simp [beyond rfl]
  | cons d rest ih =>
      rw [run, run, List.cons_append, List.takeWhile_cons, List.takeWhile_cons]
      split
      next inside =>
        refine congrArg (d :: ·) (ih fun whole => beyond ?_)
        rw [run, List.takeWhile_cons_of_pos inside]
        exact congrArg (d :: ·) whole
      next => rfl

theorem run_append_of_inRun {rest : Str} (whole : run rest = rest) (inside : inRun c = true)
    (y : Str) : run (rest ++ c :: y) = rest ++ c :: run y := by
  have all : ∀ d ∈ rest, inRun d = true := List.takeWhile_eq_self_iff.mp whole
  rw [run, List.takeWhile_append_of_pos all, List.takeWhile_cons_of_pos inside]
  rfl

variable {header : Option Char → Str → Option (Str × Str)} (mark : String) {prev : Option Char}
  {s : Str}

theorem credential_append (through : Through header c) (prev : Option Char) (s y : Str) :
    credential header mark prev (s ++ c :: y) =
      match header prev s with
      | none => none
      | some (kept, rest) =>
          if run (rest ++ c :: y) = [] then none
          else some (s.length - rest.length + (run (rest ++ c :: y)).length,
            s.take (s.length - kept.length) ++ mark.toList) := by
  rw [credential, through]
  cases header prev s with
  | none => rfl
  | some found =>
      obtain ⟨kept, rest⟩ := found
      simp only [Option.map_some, List.length_append]
      rw [Nat.add_sub_add_right, Nat.add_sub_add_right, List.take_append_of_le_length (by omega)]

theorem credential_stop (through : Through header c) (outside : inRun c = false)
    (prev : Option Char) (s y : Str) :
    credential header mark prev (s ++ c :: y) = credential header mark prev s := by
  rw [credential_append mark through, credential]
  simp only [run_append _ fun _ => outside]

theorem credential_none (through : Through header c) {y : Str} (z : Str)
    (none_ : credential header mark prev (s ++ c :: y) = none) :
    credential header mark prev (s ++ c :: z) = none := by
  rw [credential_append mark through] at none_ ⊢
  cases found : header prev s with
  | none => rfl
  | some h =>
      obtain ⟨kept, rest⟩ := h
      rw [found] at none_
      dsimp only at none_ ⊢
      split at none_
      next empty =>
        by_cases beyond : run rest = rest → inRun c = false
        · rw [run_append y beyond] at empty
          rw [run_append z beyond, if_pos empty]
        · rw [Classical.not_imp, Bool.not_eq_false] at beyond
          rw [run_append_of_inRun beyond.1 beyond.2] at empty
          exact absurd empty (by simp)
      next => cases none_

theorem credential_some (through : Through header c) {y : Str} (z : Str) {length : Nat}
    {replacement : Str}
    (found : credential header mark prev (s ++ c :: y) = some (length, replacement))
    (within : length ≤ s.length) :
    credential header mark prev (s ++ c :: z) = some (length, replacement) := by
  rw [credential_append mark through] at found ⊢
  cases here : header prev s with
  | none =>
      rw [here] at found
      cases found
  | some h =>
      obtain ⟨kept, rest⟩ := h
      rw [here] at found
      dsimp only at found ⊢
      by_cases beyond : run rest = rest → inRun c = false
      · rw [run_append _ beyond] at found ⊢
        exact found
      · rw [Classical.not_imp, Bool.not_eq_false] at beyond
        rw [run_append_of_inRun beyond.1 beyond.2, if_neg (by simp)] at found
        cases found
        rw [List.length_append, List.length_cons] at within
        omega

end Stopped

/-! ### Headers -/

/-- A text without the sign of an assignment. -/
def Unsigned (s : Str) : Prop := ∀ c ∈ s, c ∉ [':', '=']

theorem eat_cons_of_foreign {word : List Char} {c : Char} (some_ : word ≠ [])
    (foreign : ∀ p ∈ word, letter p c = false) (s : Str) : eat word (c :: s) = none := by
  cases word with
  | nil => exact absurd rfl some_
  | cons p word => simp [eat, foreign p]

theorem eatWord_cons_of_foreign {c : Char} (foreign : Foreign c) (s : Str) :
    eatWord (c :: s) = none := by
  rw [eatWord, List.findSome?_eq_none_iff]
  intro word mem
  have some_ : ∀ word ∈ sensitiveWords, word ≠ [] := by decide
  exact eat_cons_of_foreign (some_ word mem) (foreign word (by simp [mem])) s

theorem exists_of_eat {word : List Char} {s rest : Str} (found : eat word s = some rest) :
    ∃ front, s = front ++ rest ∧ front.length = word.length ∧
      ∀ c, (∀ p ∈ word, letter p c = false) → c ∉ front := by
  induction word generalizing s with
  | nil =>
      cases found
      exact ⟨[], rfl, rfl, fun _ _ => List.not_mem_nil⟩
  | cons p word ih =>
      cases s with
      | nil => cases found
      | cons d s =>
          rw [eat] at found
          split at found
          next same =>
            obtain ⟨front, rfl, length, foreign⟩ := ih found
            refine ⟨d :: front, rfl, congrArg (· + 1) length, fun c other => ?_⟩
            rw [List.forall_mem_cons] at other
            rw [List.mem_cons, not_or]
            refine ⟨?_, foreign c other.2⟩
            rintro rfl
            rw [other.1] at same
            cases same
          next => cases found

theorem exists_of_eatWord {s rest : Str} (found : eatWord s = some rest) :
    ∃ front, s = front ++ rest ∧ front ≠ [] ∧ ∀ c, Foreign c → c ∉ front := by
  obtain ⟨word, mem, found⟩ := List.exists_of_findSome?_eq_some found
  obtain ⟨front, whole, length, foreign⟩ := exists_of_eat found
  have some_ : ∀ word ∈ sensitiveWords, word ≠ [] := by decide
  refine ⟨front, whole, ?_, fun c other => foreign c (other word (by simp [mem]))⟩
  rw [← List.length_pos_iff, length, List.length_pos_iff]
  exact some_ word mem

theorem suffix_of_eat {word : List Char} {s rest : Str} (found : eat word s = some rest) :
    rest <:+ s := by
  obtain ⟨front, rfl, -, -⟩ := exists_of_eat found
  exact List.suffix_append front rest

theorem suffix_of_eatWord {s rest : Str} (found : eatWord s = some rest) : rest <:+ s := by
  obtain ⟨front, rfl, -, -⟩ := exists_of_eatWord found
  exact List.suffix_append front rest

theorem mem_of_oneOf {cs : List Char} {s rest : Str} (found : oneOf cs s = some rest) :
    ∃ c ∈ cs, s = c :: rest := by
  cases s with
  | nil => cases found
  | cons c s =>
      rw [oneOf] at found
      split at found
      next mem =>
        cases found
        exact ⟨c, mem, rfl⟩
      next => cases found

theorem suffix_of_oneOf {cs : List Char} {s rest : Str} (found : oneOf cs s = some rest) :
    rest <:+ s := by
  obtain ⟨c, -, rfl⟩ := mem_of_oneOf found
  exact List.suffix_cons c rest

theorem suffix_skipSpaces (s : Str) : skipSpaces s <:+ s := List.dropWhile_suffix isSpace

/-- What the headers of the first two patterns have in common. -/
structure Header (header : Option Char → Str → Option (Str × Str)) : Prop where
  through : ∀ c, Stop c → Through header c
  foreign : ∀ c, Foreign c → ∀ prev s, header prev (c :: s) = none
  signed : ∀ prev s kept rest, header prev s = some (kept, rest) →
    ∃ sign ∈ [':', '='], ∃ middle, sign :: middle <:+ s ∧ rest <:+ middle

theorem header_authorization : Header authorizationHeader := by
  refine ⟨fun c => through_authorization, fun c foreign prev s => ?_, ?_⟩
  · rw [authorizationHeader, eat_cons_of_foreign (by decide) (foreign _ List.mem_cons_self)]
    rfl
  · intro prev s kept rest found
    simp only [authorizationHeader, Option.bind_eq_bind, Option.bind_eq_some_iff] at found
    obtain ⟨name, eaten, middle, signed, scheme, schemes, last⟩ := found
    split at last
    next =>
      cases last
      obtain ⟨sign, mem, whole⟩ := mem_of_oneOf signed
      refine ⟨sign, mem, middle, ?_, ?_⟩
      · rw [← whole]
        exact (suffix_skipSpaces name).trans (suffix_of_eat eaten)
      · refine (suffix_skipSpaces kept).trans (List.IsSuffix.trans ?_ (suffix_skipSpaces middle))
        rcases Option.or_eq_some_iff.mp schemes with bearer | ⟨-, basic⟩
        · exact suffix_of_eat bearer
        · exact suffix_of_eat basic
    next => cases last

theorem header_assignment (isAlnum : Char → Bool) : Header (assignmentHeader isAlnum) := by
  refine ⟨fun c stop => through_assignment stop isAlnum, fun c foreign prev s => ?_, ?_⟩
  · rw [assignmentHeader, eatWord_cons_of_foreign foreign]
    split <;> rfl
  · intro prev s kept rest found
    rw [assignmentHeader] at found
    split at found
    next => cases found
    next =>
      obtain ⟨name, eaten, found⟩ := Option.bind_eq_some_iff.mp found
      split at found
      next => cases found
      next =>
        obtain ⟨middle, signed, last⟩ := Option.bind_eq_some_iff.mp found
        cases last
        obtain ⟨sign, mem, whole⟩ := mem_of_oneOf signed
        refine ⟨sign, mem, middle, ?_, suffix_skipSpaces middle⟩
        rw [← whole]
        exact (suffix_skipSpaces name).trans (suffix_of_eatWord eaten)

namespace Header

variable {header : Option Char → Str → Option (Str × Str)} (h : Header header) (mark : String)
include h

theorem none_of_unsigned {s : Str} (unsigned : Unsigned s) (prev : Option Char) :
    header prev s = none := by
  cases found : header prev s with
  | none => rfl
  | some parts =>
      obtain ⟨sign, mem, middle, within, -⟩ := h.signed prev s parts.1 parts.2 found
      exact absurd mem (unsigned sign (within.subset List.mem_cons_self))

theorem length_le {prev : Option Char} {s : Str} {length : Nat} {replacement : Str}
    (found : credential header mark prev s = some (length, replacement)) : length ≤ s.length := by
  rw [credential] at found
  split at found
  next => cases found
  next kept rest here =>
    split at found
    next => cases found
    next =>
      obtain ⟨sign, -, middle, within, later⟩ := h.signed prev s kept rest here
      have shorter := (later.trans ((List.suffix_cons sign middle).trans within)).length_le
      have part : (run rest).length ≤ rest.length := (List.takeWhile_prefix _).length_le
      cases found
      omega

/-- Characters of no word are left as they are. -/
theorem sub_foreign {c : Char} (foreign : Foreign c) (prev : Option Char) (y : Str) :
    sub (credential header mark) 0 prev (c :: y) =
      c :: sub (credential header mark) 0 (some c) y := by
  rw [sub, credential, h.foreign c foreign]

/-- So is a name between quotation marks. -/
theorem sub_name {name : Str} (unsigned : Unsigned name) (prev : Option Char) (y : Str) :
    sub (credential header mark) 0 prev (name ++ '"' :: y) =
      name ++ '"' :: sub (credential header mark) 0 (some '"') y := by
  have unmatched : ∀ s, s ≠ [] → s <:+ name → ∀ prev,
      credential header mark prev (s ++ '"' :: y) = none := by
    intro s _ within prev
    have none_ := h.none_of_unsigned (fun c mem => unsigned c (within.subset mem)) prev
    rw [credential_append mark (h.through _ stop_quote), none_]
  rw [sub_append, scan_of_unmatched unmatched, h.sub_foreign mark stop_quote.foreign]

/-- A comma ends every match. -/
theorem sub_comma (prev : Option Char) (before y : Str) :
    sub (credential header mark) 0 prev (before ++ ',' :: y) =
      sub (credential header mark) 0 prev before ++
        ',' :: sub (credential header mark) 0 (some ',') y := by
  have same : ∀ s, s ≠ [] → s <:+ before → ∀ prev,
      credential header mark prev (s ++ ',' :: y) = credential header mark prev (s ++ []) := by
    intro s _ _ prev
    rw [credential_stop mark (h.through _ stop_comma) (by decide), List.append_nil]
  rw [sub_append, scan_congr same, scan_nil (fun _ _ _ _ => h.length_le mark) (Nat.zero_le _),
    h.sub_foreign mark stop_comma.foreign]

/-- A value in front of its closing quotation mark. -/
theorem sub_value {value : Str}
    (kept : (scan (credential header mark) ['"'] 0 (some '"') value).2 = 0) (y : Str) :
    sub (credential header mark) 0 (some '"') (value ++ '"' :: y) =
      (scan (credential header mark) ['"'] 0 (some '"') value).1 ++
        '"' :: sub (credential header mark) 0 (some '"') y := by
  have through := h.through _ stop_quote
  rw [sub_append, scan_kept (fun _ _ _ _ none_ => credential_none mark through y none_)
    (fun _ _ _ _ _ _ found within => credential_some mark through y found within) kept, kept,
    h.sub_foreign mark stop_quote.foreign]

end Header

theorem replaces_credential {header : Option Char → Str → Option (Str × Str)} {mark : String}
    (some_ : mark.toList ≠ []) (prev : Option Char) (s : Str) (length : Nat) (replacement : Str)
    (found : credential header mark prev s = some (length, replacement)) : replacement ≠ [] := by
  rw [credential] at found
  split at found
  next => cases found
  next =>
    split at found
    next => cases found
    next =>
      cases found
      exact List.append_ne_nil_of_right_ne_nil _ some_

/-! ### The third pattern -/

theorem takeWhile_quote (t y : Str) :
    (t ++ '"' :: y).takeWhile (· ≠ '"') = t.takeWhile (· ≠ '"') := by
  induction t with
  | nil => rfl
  | cons c t ih =>
      rw [List.cons_append, List.takeWhile_cons, List.takeWhile_cons, ih]

/-- A header in front of a quotation mark: the match ends there, or before. -/
theorem fieldPattern_append {t : Str} (rest : Str) {y : Str}
    (found : fieldHeader (t ++ '"' :: y) = some (rest ++ '"' :: y)) (prev : Option Char) :
    fieldPattern prev (t ++ '"' :: y) =
      if rest.takeWhile (· ≠ '"') = [] then none
      else some (t.length - rest.length + (rest.takeWhile (· ≠ '"')).length + 1,
        t.take (t.length - rest.length) ++ "[REDACTED]\"".toList) := by
  have shorter : (rest.takeWhile (· ≠ '"')).length ≤ rest.length :=
    (List.takeWhile_prefix _).length_le
  have open_ : (rest.takeWhile (· ≠ '"')).length ≠ (rest ++ '"' :: y).length := by
    rw [List.length_append, List.length_cons]
    omega
  rw [fieldPattern, found]
  dsimp only
  rw [takeWhile_quote, if_congr (or_iff_left open_) rfl rfl]
  simp only [List.length_append, Nat.add_sub_add_right]
  rw [List.take_append_of_le_length (by omega)]

theorem fieldHeader_append {c : Char} (stop : Stop c) (other : c ≠ '"') (s y : Str) :
    fieldHeader (s ++ c :: y) = (fieldHeader s).map (· ++ c :: y) := by
  have quote : c ∉ ['"'] := by simpa using other
  have colon : c ∉ [':'] := fun mem => stop.sign (by simp_all)
  simp only [fieldHeader, Option.bind_eq_bind]
  rw [oneOf_append quote]
  cases oneOf ['"'] s with
  | none => rfl
  | some rest =>
      simp only [Option.map_some, Option.bind_some]
      rw [eatWord_append stop]
      cases eatWord rest with
      | none => rfl
      | some rest =>
          simp only [Option.map_some, Option.bind_some]
          rw [oneOf_append quote]
          cases oneOf ['"'] rest with
          | none => rfl
          | some rest =>
              simp only [Option.map_some, Option.bind_some]
              rw [skipSpaces_append stop.space, oneOf_append colon]
              cases oneOf [':'] (skipSpaces rest) with
              | none => rfl
              | some rest =>
                  simp only [Option.map_some, Option.bind_some]
                  rw [skipSpaces_append stop.space, oneOf_append quote]

theorem fieldPattern_blanks {c : Char} (stop : Stop c) (other : c ≠ '"') (front : Str)
    {blanks : Str} (blank : blanks = [] ∨ blanks = [' ']) {s : Str} (some_ : s ≠ [])
    (within : s <:+ front ++ c :: blanks) (prev : Option Char) (y : Str) :
    fieldPattern prev (s ++ '"' :: y) = fieldPattern prev (s ++ ['"']) := by
  have whole : ∀ s, fieldPattern prev (s ++ c :: blanks ++ '"' :: y) =
      fieldPattern prev (s ++ c :: blanks ++ ['"']) := by
    intro s
    have header : ∀ z, fieldHeader (s ++ c :: blanks ++ '"' :: z) =
        (fieldHeader s).map (· ++ c :: blanks ++ '"' :: z) := by
      intro z
      rw [List.append_assoc, List.cons_append, fieldHeader_append stop other]
      simp only [List.append_assoc, List.cons_append]
    cases found : fieldHeader s with
    | none =>
        rw [fieldPattern, fieldPattern, header, header, found]
        rfl
    | some rest =>
        rw [fieldPattern_append (rest ++ c :: blanks) (by rw [header, found]; rfl),
          fieldPattern_append (rest ++ c :: blanks) (by rw [header, found]; rfl)]
  rcases List.suffix_or_suffix_of_suffix within (List.suffix_append front _) with late | ⟨s, rfl⟩
  · rcases List.suffix_cons_iff.mp late with rfl | later
    · exact whole []
    · rcases blank with rfl | rfl
      · exact absurd (List.suffix_nil.mp later) some_
      · rcases List.suffix_cons_iff.mp later with rfl | later
        · rfl
        · exact absurd (List.suffix_nil.mp later) some_
  · exact whole s

theorem suffix_of_fieldHeader {s rest : Str} (found : fieldHeader s = some rest) :
    rest <:+ s := by
  simp only [fieldHeader, Option.bind_eq_bind, Option.bind_eq_some_iff] at found
  obtain ⟨s₁, first, s₂, eaten, s₃, second, s₄, colon, third⟩ := found
  calc rest <:+ skipSpaces s₄ := suffix_of_oneOf third
    _ <:+ s₄ := suffix_skipSpaces s₄
    _ <:+ skipSpaces s₃ := suffix_of_oneOf colon
    _ <:+ s₃ := suffix_skipSpaces s₃
    _ <:+ s₂ := suffix_of_oneOf second
    _ <:+ s₁ := suffix_of_eatWord eaten
    _ <:+ s := suffix_of_oneOf first

theorem fieldPattern_length_le (prev : Option Char) (s : Str) (length : Nat) (replacement : Str)
    (found : fieldPattern prev s = some (length, replacement)) : length ≤ s.length := by
  rw [fieldPattern] at found
  split at found
  next => cases found
  next rest header =>
    dsimp only at found
    split at found
    next => cases found
    next ends =>
      have within := (suffix_of_fieldHeader header).length_le
      have part : (rest.takeWhile (· ≠ '"')).length ≤ rest.length :=
        (List.takeWhile_prefix _).length_le
      cases found
      omega

theorem sub_fieldPattern_prev (prev : Option Char) (s : Str) :
    sub fieldPattern 0 prev s = sub fieldPattern 0 none s := by
  cases s with
  | nil => rfl
  | cons c s => rw [sub, sub]; rfl

/-! ### Matches over a quotation mark -/

namespace Header

variable {header : Option Char → Str → Option (Str × Str)} (h : Header header) (mark : String)
include h

theorem credential_over {prev : Option Char} {s : Str} {length : Nat} {replacement : Str}
    (found : credential header mark prev (s ++ ['"']) = some (length, replacement))
    (beyond : s.length < length) :
    (∃ kept, replacement = kept ++ mark.toList) ∧ ∀ y, credential header mark prev (s ++ '"' :: y) =
      some (s.length + 1 + (run y).length, replacement) := by
  have through := h.through _ stop_quote
  have inside : inRun '"' = true := by decide
  rw [credential_append mark through] at found
  cases here : header prev s with
  | none =>
      rw [here] at found
      cases found
  | some parts =>
      obtain ⟨kept, rest⟩ := parts
      obtain ⟨sign, -, middle, within, later⟩ := h.signed prev s kept rest here
      have shorter := (later.trans ((List.suffix_cons sign middle).trans within)).length_le
      have part : (run rest).length ≤ rest.length := (List.takeWhile_prefix _).length_le
      rw [here] at found
      dsimp only at found
      have whole : run rest = rest := by
        by_contra stops
        rw [run_append _ fun whole => absurd whole stops] at found
        split at found
        · cases found
        · cases found
          omega
      rw [run_append_of_inRun whole inside, if_neg (by simp)] at found
      cases found
      refine ⟨⟨_, rfl⟩, fun y => ?_⟩
      rw [credential_append mark through, here]
      dsimp only
      rw [run_append_of_inRun whole inside, if_neg (by simp)]
      simp only [List.length_append, List.length_cons, Option.some.injEq, Prod.mk.injEq, and_true]
      omega

/-- When a match reaches the end of a value, it takes the quotation mark and what follows it up to
a comma. -/
theorem scan_over {value : Str} {skip : Nat} (within : skip ≤ value.length) (prev : Option Char)
    (beyond : (scan (credential header mark) ['"'] skip prev value).2 ≠ 0) :
    (∃ kept, (scan (credential header mark) ['"'] skip prev value).1 = kept ++ mark.toList) ∧
      ∀ y, scan (credential header mark) ('"' :: y) skip prev value =
        ((scan (credential header mark) ['"'] skip prev value).1, 1 + (run y).length) := by
  have through := h.through _ stop_quote
  induction value generalizing skip prev with
  | nil => exact absurd (Nat.le_zero.mp within) beyond
  | cons a value ih =>
      cases skip with
      | succ skip => exact ih (Nat.le_of_succ_le_succ within) (some a) beyond
      | zero =>
          simp only [scan] at beyond ⊢
          cases here : credential header mark prev (a :: value ++ ['"']) with
          | none =>
              rw [here] at beyond
              dsimp only at beyond ⊢
              obtain ⟨⟨kept, ends⟩, alike⟩ := ih (Nat.zero_le _) (some a) beyond
              refine ⟨⟨a :: kept, congrArg (a :: ·) ends⟩, fun y => ?_⟩
              rw [credential_none mark through y here]
              dsimp only
              rw [alike]
          | some found =>
              obtain ⟨length, replacement⟩ := found
              rw [here] at beyond
              dsimp only at beyond ⊢
              by_cases long : (a :: value).length < length
              · obtain ⟨⟨kept, ends⟩, alike⟩ := h.credential_over mark here long
                rw [List.length_cons] at long alike
                refine ⟨⟨kept, ?_⟩, fun y => ?_⟩
                · rw [scan_of_le (by omega), List.append_nil, ends]
                · rw [alike]
                  dsimp only
                  rw [scan_of_le (by omega), scan_of_le (by omega)]
                  simp only [Prod.mk.injEq, true_and]
                  omega
              · rw [List.length_cons] at long
                obtain ⟨⟨kept, ends⟩, alike⟩ := ih (by omega) (some a) beyond
                refine ⟨⟨replacement ++ kept, by rw [ends, List.append_assoc]⟩, fun y => ?_⟩
                rw [credential_some mark through y here (by rw [List.length_cons]; omega)]
                dsimp only
                rw [alike]

end Header

/-! ### Escaped quotation marks -/

/-- Every quotation mark has a backslash before it. -/
def Guarded : Option Char → Str → Prop
  | _, [] => True
  | prev, c :: s => (c = '"' → prev = some '\\') ∧ Guarded (some c) s

theorem guarded_append {prev : Option Char} {s t : Str} :
    Guarded prev (s ++ t) ↔ Guarded prev s ∧ Guarded (last prev s) t := by
  induction s generalizing prev with
  | nil => simp [Guarded, last]
  | cons c s ih => rw [List.cons_append, Guarded, Guarded, ih, and_assoc, last_cons]

theorem guarded_of_not_mem {prev : Option Char} {s : Str} (absent : '"' ∉ s) : Guarded prev s := by
  induction s generalizing prev with
  | nil => trivial
  | cons c s ih =>
      rw [List.mem_cons, not_or] at absent
      exact ⟨fun same => absurd same.symm absent.1, ih absent.2⟩

namespace Header

variable {header : Option Char → Str → Option (Str × Str)} (h : Header header) (mark : String)
include h

/-- A header has no quotation mark. -/
theorem quoteless {prev : Option Char} {s kept rest : Str}
    (found : header prev s = some (kept, rest)) : '"' ∉ s.take (s.length - kept.length) := by
  by_cases mem : '"' ∈ s
  · obtain ⟨before, after, whole, first⟩ := List.eq_append_cons_of_mem mem
    rw [whole, h.through _ stop_quote] at found
    obtain ⟨⟨kept', rest'⟩, -, same⟩ := Option.map_eq_some_iff.mp found
    cases same
    rw [whole, List.length_append, List.length_append, Nat.add_sub_add_right,
      List.take_append_of_le_length (by omega)]
    exact fun taken => first (List.mem_of_mem_take taken)
  · exact fun taken => mem (List.mem_of_mem_take taken)

/-- What stands behind a match is no quotation mark. -/
theorem head_drop {prev : Option Char} {s : Str} {length : Nat} {replacement : Str}
    (found : credential header mark prev s = some (length, replacement)) :
    (s.drop length).head? ≠ some '"' := by
  rw [credential] at found
  split at found
  next => cases found
  next kept rest here =>
    split at found
    next => cases found
    next =>
      obtain ⟨sign, -, middle, within, later⟩ := h.signed prev s kept rest here
      obtain ⟨front, rfl⟩ := later.trans ((List.suffix_cons sign middle).trans within)
      cases found
      have behind : (front ++ rest).drop ((front ++ rest).length - rest.length +
          (run rest).length) = rest.dropWhile inRun := by
        have whole : run rest ++ rest.dropWhile inRun = rest := List.takeWhile_append_dropWhile
        rw [List.length_append, Nat.add_sub_cancel, ← List.drop_drop, List.drop_left]
        calc rest.drop (run rest).length
            = (run rest ++ rest.dropWhile inRun).drop (run rest).length := by rw [whole]
          _ = rest.dropWhile inRun := List.drop_left
      rw [behind]
      intro head
      have stops := List.head?_dropWhile_not inRun rest
      rw [head] at stops
      exact absurd stops (by decide)

/-- How long a match is, and what it is replaced by. -/
theorem replacement {prev : Option Char} {s : Str} {length : Nat} {replacement : Str}
    (found : credential header mark prev s = some (length, replacement)) :
    1 ≤ length ∧ ∃ kept, '"' ∉ kept ∧ replacement = kept ++ mark.toList := by
  rw [credential] at found
  split at found
  next => cases found
  next kept rest here =>
    split at found
    next => cases found
    next some_ =>
      have long := List.length_pos_iff.mpr some_
      cases found
      exact ⟨by omega, _, h.quoteless here, rfl⟩

theorem guarded_scan (plain : '"' ∉ mark.toList) (y : Str) {skip : Nat} {prev out : Option Char}
    {x : Str} (guarded : Guarded prev x)
    (before : skip = 0 ∧ out = prev ∨ (x.drop skip).head? ≠ some '"') :
    Guarded out (scan (credential header mark) y skip prev x).1 := by
  induction x generalizing skip prev out with
  | nil => trivial
  | cons a x ih =>
      obtain ⟨here, later⟩ := guarded
      cases skip with
      | succ skip => exact ih later (.inr (before.resolve_left fun start => by cases start.1))
      | zero =>
          rw [scan]
          cases found : credential header mark prev (a :: x ++ y) with
          | none =>
              refine ⟨fun quote => ?_, ih later (.inl ⟨rfl, rfl⟩)⟩
              rcases before with ⟨-, rfl⟩ | other
              · exact here quote
              · exact absurd (congrArg some quote) other
          | some match_ =>
              obtain ⟨length, replaced⟩ := match_
              obtain ⟨long, kept, quoteless, rfl⟩ := h.replacement mark found
              obtain ⟨length, rfl⟩ := Nat.exists_eq_add_of_le' long
              refine guarded_append.mpr ⟨guarded_of_not_mem ?_, ih later (.inr ?_)⟩
              · rw [List.mem_append, not_or]
                exact ⟨quoteless, plain⟩
              · have behind := h.head_drop mark found
                rw [List.cons_append, List.drop_succ_cons] at behind
                rw [Nat.add_sub_cancel]
                by_cases inside : length < x.length
                · rw [List.drop_append_of_le_length (Nat.le_of_lt inside),
                    List.head?_append_of_ne_nil _ (by simpa using inside)] at behind
                  exact behind
                · rw [List.drop_of_length_le (by omega)]
                  intro same
                  cases same

theorem guarded_sub (plain : '"' ∉ mark.toList) {prev : Option Char} {x : Str}
    (guarded : Guarded prev x) : Guarded prev (sub (credential header mark) 0 prev x) := by
  have scanned := h.guarded_scan mark plain [] guarded (.inl ⟨rfl, rfl⟩)
  rwa [scan_nil (fun _ _ _ _ => h.length_le mark) (Nat.zero_le _)] at scanned

/-- What ends in a bracket still does. -/
theorem sub_ends (bracket : ∃ front, mark.toList = front ++ [']']) {x : Str} {skip : Nat}
    (prev : Option Char) (inside : skip ≤ x.length) :
    ∃ front, sub (credential header mark) skip prev (x ++ [']']) = front ++ [']'] := by
  obtain ⟨end_, marks⟩ := bracket
  induction x generalizing skip prev with
  | nil =>
      rw [Nat.le_zero.mp inside, List.nil_append, h.sub_foreign mark (foreign_frame (by decide))]
      exact ⟨[], rfl⟩
  | cons a x ih =>
      cases skip with
      | succ skip => exact ih (some a) (Nat.le_of_succ_le_succ inside)
      | zero =>
          rw [List.cons_append, sub]
          cases found : credential header mark prev (a :: (x ++ [']'])) with
          | none =>
              obtain ⟨front, ends⟩ := ih (some a) (Nat.zero_le x.length)
              exact ⟨a :: front, congrArg (a :: ·) ends⟩
          | some match_ =>
              obtain ⟨length, replaced⟩ := match_
              obtain ⟨-, kept, -, rfl⟩ := h.replacement mark found
              dsimp only
              by_cases beyond : length - 1 ≤ x.length
              · obtain ⟨front, ends⟩ := ih (some a) beyond
                exact ⟨kept ++ mark.toList ++ front, by rw [ends]; simp⟩
              · rw [sub_of_le (by rw [List.length_append, List.length_singleton]; omega),
                  List.append_nil, marks]
                exact ⟨kept ++ end_, (List.append_assoc ..).symm⟩

end Header

/-! ### The third pattern behind the first quotation mark -/

theorem guarded_suffix {prev : Option Char} {s t : Str} (guarded : Guarded prev t)
    (within : s <:+ t) : ∃ prev, Guarded prev s := by
  obtain ⟨front, rfl⟩ := within
  exact ⟨_, (guarded_append.mp guarded).2⟩

/-- A text in front of which a guarded text has no match. -/
def Apart (y : Str) : Prop :=
  y = [] ∨ (∃ t, y = ',' :: t) ∨ ∃ c t, y = '"' :: c :: t ∧ isSpace c = false ∧ c ≠ ':'

theorem fieldHeader_guarded {prev : Option Char} {s y : Str} (some_ : s ≠ [])
    (guarded : Guarded prev s) (apart : Apart y) : fieldHeader (s ++ y) = none := by
  cases s with
  | nil => exact absurd rfl some_
  | cons a s =>
      by_cases quote : a = '"'
      · have through : eatWord (s ++ y) = (eatWord s).map (· ++ y) := by
          rcases apart with rfl | ⟨t, rfl⟩ | ⟨c, t, rfl, -⟩
          · simp
          · exact eatWord_append stop_comma s t
          · exact eatWord_append stop_quote s (c :: t)
        have opened : oneOf ['"'] (a :: s ++ y) = some (s ++ y) := by
          rw [quote]
          rfl
        simp only [fieldHeader, opened, Option.bind_eq_bind, Option.bind_some, through]
        cases found : eatWord s with
        | none => rfl
        | some rest =>
            obtain ⟨front, rfl, nonempty, foreign⟩ := exists_of_eatWord found
            simp only [Option.map_some, Option.bind_some]
            cases rest with
            | nil =>
                rcases apart with rfl | ⟨t, rfl⟩ | ⟨c, t, rfl, space, colon⟩
                · rfl
                · rfl
                · simp [oneOf, skipSpaces, space, colon]
            | cons d rest =>
                have other : d ≠ '"' := by
                  rintro rfl
                  have guard := (guarded_append.mp guarded.2).2.1 rfl
                  obtain ⟨init, end_, rfl⟩ :=
                    (List.eq_nil_or_concat' front).resolve_left nonempty
                  rw [last, List.getLast?_concat] at guard
                  cases guard
                  exact foreign '\\' (foreign_frame (by decide)) (by simp)
                simp [oneOf, other]
      · simp [fieldHeader, oneOf, quote]

/-- The third pattern has no match that starts in a guarded text. -/
theorem sub_guarded {prev : Option Char} {s y : Str} (guarded : Guarded prev s)
    (apart : Apart y) : sub fieldPattern 0 none (s ++ y) = s ++ sub fieldPattern 0 none y := by
  have unmatched : ∀ t, t ≠ [] → t <:+ s → ∀ prev, fieldPattern prev (t ++ y) = none := by
    intro t some_ within prev
    obtain ⟨_, guarded⟩ := guarded_suffix guarded within
    rw [fieldPattern, fieldHeader_guarded some_ guarded apart]
  rw [sub_append, scan_of_unmatched unmatched, sub_fieldPattern_prev]

/-- A match of the third pattern has four quotation marks. -/
theorem four_le_count {prev : Option Char} {s : Str} {found : Nat × Str}
    (matches_ : fieldPattern prev s = some found) : 4 ≤ s.count '"' := by
  have counts : ∀ {s t : Str}, s <:+ t → s.count '"' ≤ t.count '"' := fun within =>
    within.sublist.count_le '"'
  rw [fieldPattern] at matches_
  split at matches_
  next => cases matches_
  next rest header =>
    simp only [fieldHeader, Option.bind_eq_bind, Option.bind_eq_some_iff] at header
    obtain ⟨s₁, first, s₂, eaten, s₃, second, s₄, colon, third⟩ := header
    have closing : '"' ∈ rest := by
      by_contra absent
      have whole : rest.takeWhile (· ≠ '"') = rest :=
        List.takeWhile_eq_self_iff.mpr fun c mem => by
          simpa using fun same : c = '"' => absent (same ▸ mem)
      dsimp only at matches_
      rw [whole, if_pos (.inr rfl)] at matches_
      cases matches_
    have fourth := List.count_pos_iff.mpr closing
    obtain ⟨_, mem₁, rfl⟩ := mem_of_oneOf first
    obtain ⟨_, mem₂, rfl⟩ := mem_of_oneOf second
    obtain ⟨_, -, colon⟩ := mem_of_oneOf colon
    obtain ⟨_, mem₃, third⟩ := mem_of_oneOf third
    rw [List.mem_singleton] at mem₁ mem₂ mem₃
    subst mem₁ mem₂ mem₃
    have le₁ := counts (suffix_of_eatWord eaten)
    have le₂ := counts ((List.suffix_cons _ s₄).trans (colon ▸ suffix_skipSpaces s₃))
    have le₃ := counts (third ▸ suffix_skipSpaces s₄)
    simp only [List.count_cons_self] at le₁ le₃ ⊢
    omega

theorem sub_of_count {s : Str} (few : s.count '"' < 4) : sub fieldPattern 0 none s = s := by
  have unmatched : ∀ t, t ≠ [] → t <:+ s → ∀ prev, fieldPattern prev (t ++ []) = none := by
    intro t _ within prev
    rw [List.append_nil]
    cases found : fieldPattern prev t with
    | none => rfl
    | some match_ =>
        have le := within.sublist.count_le '"'
        have four := four_le_count found
        omega
  have whole := sub_append (m := fieldPattern) (y := []) 0 none s
  rw [List.append_nil, scan_of_unmatched unmatched, sub, List.append_nil] at whole
  exact whole

end Ecube.LogRedaction
