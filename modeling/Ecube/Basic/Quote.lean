import Ecube.Basic.Json
import Ecube.Basic.Url

/-!
Percent-encoding: `urllib.parse.quote` without further safe characters.

A text is its own encoding just if it has unreserved characters only (`quote_eq_self_iff`), and
an encoding has no delimiter of a URL in it (`mem_quote`). A URL of encoded texts is taken apart
at its delimiters (`urlparse_of_encoded`).
-/

namespace Ecube.Url

open Json PosixPath Text

/-- Letters and digits of ASCII, and four signs. -/
def isUnreserved (c : Char) : Bool := c.isAlphanum || c ∈ ['_', '.', '-', '~']

def hexDigit (n : Nat) : Char := Char.ofNat (if n < 10 then 48 + n else 55 + n)

def quoteByte (b : UInt8) : Str :=
  if isUnreserved (Char.ofNat b.toNat) then [Char.ofNat b.toNat]
  else ['%', hexDigit (b.toNat / 16), hexDigit (b.toNat % 16)]

/-- `quote(s, safe="")`. -/
def quote (s : Str) : Str := (utf8 s).flatMap quoteByte

/-- What stands for one character. -/
def quoteChar (c : Char) : Str := (String.utf8EncodeChar c).flatMap quoteByte

theorem quote_eq (s : Str) : quote s = s.flatMap quoteChar := List.flatMap_assoc

theorem isUnreserved_hexDigit {n : Nat} (h : n < 16) : isUnreserved (hexDigit n) = true := by
  interval_cases n <;> rfl

/-- An encoding has unreserved characters and percent signs only. -/
theorem mem_quote {s : Str} {c : Char} (h : c ∈ quote s) : isUnreserved c = true ∨ c = '%' := by
  obtain ⟨b, -, mem⟩ := List.mem_flatMap.mp h
  rw [quoteByte] at mem
  split at mem
  next plain =>
    rw [List.mem_singleton.mp mem]
    exact .inl plain
  next =>
    have small : b.toNat < 256 := b.toNat_lt
    rcases List.mem_cons.mp mem with rfl | digit
    · exact .inr rfl
    · rcases List.mem_pair.mp digit with rfl | rfl
      · exact .inl (isUnreserved_hexDigit (by omega))
      · exact .inl (isUnreserved_hexDigit (by omega))

theorem isUnreserved_lt {c : Char} (h : isUnreserved c = true) : c.toNat < 128 := by
  delta isUnreserved Char.isAlphanum Char.isAlpha Char.isUpper Char.isLower Char.isDigit at h
  simp only [Bool.or_eq_true, Bool.and_eq_true, decide_eq_true_eq] at h
  rcases h with ((upper | lower) | digit) | sign
  · exact lt_of_le_of_lt (show c.toNat ≤ 90 from upper.2) (by decide)
  · exact lt_of_le_of_lt (show c.toNat ≤ 122 from lower.2) (by decide)
  · exact lt_of_le_of_lt (show c.toNat ≤ 57 from digit.2) (by decide)
  · simp only [List.mem_cons, List.not_mem_nil, or_false] at sign
    rcases sign with rfl | rfl | rfl | rfl <;> decide

theorem quoteByte_ofNat {n : Nat} (h : n < 256) : quoteByte (UInt8.ofNat n) =
    if isUnreserved (Char.ofNat n) then [Char.ofNat n]
    else ['%', hexDigit (n / 16), hexDigit (n % 16)] := by
  have same : (UInt8.ofNat n).toNat = n := Nat.mod_eq_of_lt h
  rw [quoteByte, same]

/-- A byte that is not ASCII is written with a percent sign. -/
theorem quoteByte_of_high {n : Nat} (low : 128 ≤ n) (high : n < 256) :
    ∃ d e, quoteByte (UInt8.ofNat n) = ['%', d, e] := by
  have reserved : isUnreserved (Char.ofNat n) = false := Bool.eq_false_iff.mpr fun plain => by
    have small := isUnreserved_lt plain
    have valid : n.isValidChar := .inl (by omega)
    have same : (Char.ofNat n).toNat = n := by
      rw [Char.ofNat, dif_pos valid]
      rfl
    omega
  rw [quoteByte_ofNat high, reserved]
  exact ⟨_, _, rfl⟩

theorem quoteChar_of_ascii {c : Char} (ascii : c.toNat < 128) :
    quoteChar c = if isUnreserved c then [c]
      else ['%', hexDigit (c.toNat / 16), hexDigit (c.toNat % 16)] := by
  have bytes : String.utf8EncodeChar c = [UInt8.ofNat c.toNat] := by
    have small : c.val.toNat ≤ 0x7f := Nat.le_of_lt_succ ascii
    rw [String.utf8EncodeChar]
    exact if_pos small
  rw [quoteChar, bytes, List.flatMap_singleton, quoteByte_ofNat (by omega), Char.ofNat_toNat]

/-- An unreserved character stands for itself. -/
theorem quoteChar_of_unreserved {c : Char} (h : isUnreserved c = true) : quoteChar c = [c] := by
  rw [quoteChar_of_ascii (isUnreserved_lt h), if_pos h]

/-- Any other character is written with a percent sign in front. -/
theorem quoteChar_of_reserved {c : Char} (h : isUnreserved c = false) :
    ∃ d e rest, quoteChar c = '%' :: d :: e :: rest := by
  by_cases ascii : c.toNat < 128
  · rw [quoteChar_of_ascii ascii, h]
    exact ⟨_, _, [], rfl⟩
  · -- The first byte of the character is not ASCII.
    obtain ⟨n, bytes, low, high, eq⟩ : ∃ n bytes, 128 ≤ n ∧ n < 256 ∧
        String.utf8EncodeChar c = UInt8.ofNat n :: bytes := by
      have large : ¬c.val.toNat ≤ 0x7f := by
        intro small
        exact ascii (Nat.lt_succ_of_le small)
      simp only [String.utf8EncodeChar, if_neg large]
      split_ifs
      · exact ⟨_, _, by omega, by omega, rfl⟩
      · exact ⟨_, _, by omega, by omega, rfl⟩
      · exact ⟨_, _, by omega, by omega, rfl⟩
    obtain ⟨d, e, first⟩ := quoteByte_of_high low high
    rw [quoteChar, eq, List.flatMap_cons, first]
    exact ⟨d, e, _, rfl⟩

theorem quote_of_unreserved {s : Str} (h : ∀ c ∈ s, isUnreserved c = true) : quote s = s := by
  induction s with
  | nil => rfl
  | cons c s ih =>
      rw [List.forall_mem_cons] at h
      rw [quote_eq, List.flatMap_cons, ← quote_eq, ih h.2, quoteChar_of_unreserved h.1]
      rfl

theorem length_quote (s : Str) : s.length ≤ (quote s).length := by
  induction s with
  | nil => exact Nat.zero_le _
  | cons c s ih =>
      have full : 1 ≤ (quoteChar c).length := by
        cases plain : isUnreserved c with
        | true => rw [quoteChar_of_unreserved plain, List.length_singleton]
        | false =>
            obtain ⟨d, e, rest, eq⟩ := quoteChar_of_reserved plain
            rw [eq, List.length_cons]
            omega
      rw [quote_eq, List.flatMap_cons, ← quote_eq, List.length_append, List.length_cons]
      omega

/-- Only unreserved texts are their own encodings. -/
theorem quote_eq_self_iff {s : Str} : quote s = s ↔ ∀ c ∈ s, isUnreserved c = true := by
  constructor
  · intro same
    induction s with
    | nil => exact nofun
    | cons c s ih =>
        rw [quote_eq, List.flatMap_cons, ← quote_eq] at same
        cases plain : isUnreserved c with
        | true =>
            rw [quoteChar_of_unreserved plain] at same
            exact List.forall_mem_cons.mpr ⟨plain, ih (List.cons.inj same).2⟩
        | false =>
            -- The encoding is longer than the text.
            obtain ⟨d, e, rest, eq⟩ := quoteChar_of_reserved plain
            have lengths := congrArg List.length same
            have longer := length_quote s
            rw [eq, List.length_append, List.length_cons, List.length_cons, List.length_cons,
              List.length_cons] at lengths
            omega
  · exact quote_of_unreserved

/-- A text whose encoding is encoded as itself is unreserved. -/
theorem unreserved_of_quote {s : Str} (h : ∀ c ∈ quote s, isUnreserved c = true) :
    ∀ c ∈ s, isUnreserved c = true := by
  intro c mem
  by_contra reserved
  obtain ⟨d, e, rest, eq⟩ := quoteChar_of_reserved (Bool.eq_false_iff.mpr reserved)
  have percent : '%' ∈ quote s := by
    rw [quote_eq]
    exact List.mem_flatMap.mpr ⟨c, mem, eq ▸ List.mem_cons_self⟩
  exact absurd (h _ percent) (by decide)

theorem quote_ne_nil {s : Str} (full : s ≠ []) : quote s ≠ [] := by
  have longer := length_quote s
  have positive := List.length_pos_of_ne_nil full
  exact List.ne_nil_of_length_pos (by omega)

/-! ### A URL of encoded texts -/

/-- The characters of an encoding. -/
def isEncoded (c : Char) : Bool := isUnreserved c || c = '%'

theorem isEncoded_quote {s : Str} : ∀ c ∈ quote s, isEncoded c = true := by
  intro c mem
  rcases mem_quote mem with plain | rfl
  · rw [isEncoded, plain, Bool.true_or]
  · rfl

/-- The characters of a network location with encoded parts. -/
def isLocation (c : Char) : Bool := isEncoded c || c = ':' || c = '@'

theorem isLocation_of_isEncoded {c : Char} (h : isEncoded c = true) : isLocation c = true := by
  rw [isLocation, h]
  rfl

theorem isLocation_lt {c : Char} (h : isLocation c = true) : c.toNat < 128 := by
  simp only [isLocation, isEncoded, Bool.or_eq_true, decide_eq_true_eq] at h
  rcases h with ((plain | rfl) | rfl) | rfl
  · exact isUnreserved_lt plain
  all_goals decide

theorem not_mem_of_isLocation {s : Str} (clean : ∀ c ∈ s, isLocation c = true) {d : Char}
    (other : isLocation d = false) : d ∉ s := by
  intro mem
  rw [clean d mem] at other
  cases other

theorem splitNetloc_of_location {netloc path : Str} (clean : ∀ c ∈ netloc, isLocation c = true) :
    splitNetloc (netloc ++ '/' :: path) = (netloc, '/' :: path) := by
  have plain : ∀ c ∈ netloc, (!isDelimiter c) = true := by
    intro c mem
    rw [Bool.not_eq_true', Bool.eq_false_iff]
    intro delimiter
    rw [isDelimiter, decide_eq_true_eq] at delimiter
    simp only [List.mem_cons, List.not_mem_nil, or_false] at delimiter
    have location := clean c mem
    rcases delimiter with rfl | rfl | rfl <;> exact absurd location (by decide)
  rw [splitNetloc, List.takeWhile_append_of_pos plain, List.dropWhile_append_of_pos plain]
  simp [isDelimiter]

theorem cut_of_not_mem {c : Char} {s : Str} (absent : c ∉ s) : cut c s = none := if_neg absent

/-- Nothing is removed from a URL without blanks and line breaks. -/
theorem kept_of_scheme {scheme : Str} (schemes : isScheme scheme = true) (rest : Str)
    (plain : ∀ c ∈ rest, isLocation c = true ∨ c = '/') :
    ((scheme ++ ':' :: rest).dropWhile isControlOrSpace).filter
        (fun c => c ∉ ['\t', '\r', '\n']) = scheme ++ ':' :: rest := by
  obtain ⟨first, all⟩ := Bool.and_eq_true_iff.mp schemes
  obtain ⟨c, scheme, rfl⟩ : ∃ c more, scheme = c :: more := by
    cases scheme with
    | nil => cases first
    | cons c more => exact ⟨c, more, rfl⟩
  have start : isControlOrSpace c = false := by
    rw [isControlOrSpace, decide_eq_false_iff_not]
    intro low
    have alpha : c.isAlpha = true := first
    delta Char.isAlpha Char.isUpper Char.isLower at alpha
    simp only [Bool.or_eq_true, Bool.and_eq_true, decide_eq_true_eq] at alpha
    rcases alpha with upper | lower
    · exact absurd (show 65 ≤ c.toNat from upper.1) (by omega)
    · exact absurd (show 97 ≤ c.toNat from lower.1) (by omega)
  rw [List.cons_append, List.dropWhile_cons_of_neg (by rw [start]; exact Bool.false_ne_true),
    ← List.cons_append, List.filter_eq_self]
  intro d mem
  rw [decide_eq_true_eq]
  intro blank
  simp only [List.mem_cons, List.not_mem_nil, or_false] at blank
  rcases List.mem_append.mp mem with inScheme | later
  · have schemeChar := List.all_eq_true.mp all d inScheme
    rcases blank with rfl | rfl | rfl <;> exact absurd schemeChar (by decide)
  · rcases List.mem_cons.mp later with rfl | within
    · rcases blank with blank | blank | blank <;> exact absurd blank (by decide)
    · rcases plain d within with location | rfl
      · rcases blank with rfl | rfl | rfl <;> exact absurd location (by decide)
      · rcases blank with blank | blank | blank <;> exact absurd blank (by decide)

theorem urlparse_of_encoded {u : Unicode} {scheme netloc path : Str}
    (schemes : isScheme scheme = true) (lower : scheme.map Char.toLower = scheme)
    (paramless : String.ofList scheme ∉ usesParams)
    (location : ∀ c ∈ netloc, isLocation c = true) (encoded : ∀ c ∈ path, isEncoded c = true) :
    urlparse u (scheme ++ ':' :: '/' :: '/' :: (netloc ++ '/' :: path)) =
      some { scheme, netloc, path := '/' :: path, params := [], query := [], fragment := [] } := by
  have kept := kept_of_scheme schemes ('/' :: '/' :: (netloc ++ '/' :: path)) (by
    intro c mem
    simp only [List.mem_cons, List.mem_append] at mem
    rcases mem with rfl | rfl | inside | rfl | inside
    · exact .inr rfl
    · exact .inr rfl
    · exact .inl (location c inside)
    · exact .inr rfl
    · exact .inl (isLocation_of_isEncoded (encoded c inside)))
  have brackets : checkBrackets netloc = true := by
    rw [checkBrackets, cut_of_not_mem (not_mem_of_isLocation location (by decide))]
    exact decide_eq_true (not_mem_of_isLocation location (by decide))
  have ascii : checkNetloc u netloc = true := by
    have all : netloc.all (fun c => decide (c.toNat < 128)) = true :=
      List.all_eq_true.mpr fun c mem => decide_eq_true (isLocation_lt (location c mem))
    simp only [checkNetloc, all, Bool.true_or]
  have rooted : ∀ d, isLocation d = false → d ≠ '/' → d ∉ '/' :: path := by
    intro d other slash mem
    rcases List.mem_cons.mp mem with same | inside
    · exact slash same
    · exact not_mem_of_isLocation (fun c h => isLocation_of_isEncoded (encoded c h)) other inside
  have noFragment := cut_of_not_mem (rooted '#' (by decide) (by decide))
  have noQuery := cut_of_not_mem (rooted '?' (by decide) (by decide))
  rw [urlparse, urlsplit, kept]
  simp only [splitScheme_append_colon schemes, lower, splitNetloc_of_location location, brackets,
    ascii, noFragment, noQuery, Option.getD_none, and_self, if_true, Option.map_some]
  rw [if_neg fun both => paramless both.1]

end Ecube.Url
