import Ecube.Basic.Integers
import Mathlib.Tactic.IntervalCases

/-!
JSON texts as `json.dump(value, fp, indent=2)` of the Python library writes
them: objects and lists over several lines, and strings in ASCII with escapes.

* `unescape_escape`: a character is read back from its escape.
* `dump_injective`: a text determines the value it was written for, and
  `utf8_injective` carries this over to the bytes of a file.
-/

namespace Ecube.Json

/-! ### Strings -/

/-- The characters with an escape of two characters. -/
def shortEscape (c : Char) : Option Char :=
  if c = '"' then some '"'
  else if c = '\\' then some '\\'
  else if c = '\n' then some 'n'
  else if c = '\r' then some 'r'
  else if c = '\t' then some 't'
  else if c = '\x0c' then some 'f'
  else if c = '\x08' then some 'b'
  else none

/-- `\uXXXX`, for a number below `2 ^ 16`. -/
def unicodeEscape (n : Nat) : Str :=
  ['\\', 'u', (n / 4096).digitChar, (n / 256 % 16).digitChar, (n / 16 % 16).digitChar,
    (n % 16).digitChar]

/-- Printable ASCII characters stand for themselves; characters above `2 ^ 16`
are written as a surrogate pair. -/
def escape (c : Char) : Str :=
  match shortEscape c with
  | some e => ['\\', e]
  | none =>
      if 32 ≤ c.toNat ∧ c.toNat ≤ 126 then [c]
      else if c.toNat < 0x10000 then unicodeEscape c.toNat
      else unicodeEscape (0xd800 + (c.toNat - 0x10000) / 1024) ++
        unicodeEscape (0xdc00 + (c.toNat - 0x10000) % 1024)

def quoted (s : Str) : Str := '"' :: (s.flatMap escape ++ ['"'])

def hexValue (c : Char) : Nat :=
  if c.toNat < 97 then c.toNat - 48 else c.toNat - 87

/-- Read a `\uXXXX` at the front of a text. -/
def readUnit : Str → Option (Nat × Str)
  | '\\' :: 'u' :: h₁ :: h₂ :: h₃ :: h₄ :: rest =>
      some (((hexValue h₁ * 16 + hexValue h₂) * 16 + hexValue h₃) * 16 + hexValue h₄, rest)
  | _ => none

def readShort (e : Char) : Char :=
  if e = 'n' then '\n'
  else if e = 'r' then '\r'
  else if e = 't' then '\t'
  else if e = 'f' then '\x0c'
  else if e = 'b' then '\x08'
  else e

/-- Read one character at the front of the inside of a string. -/
def unescape (s : Str) : Option (Char × Str) :=
  match readUnit s with
  | some (unit, rest) =>
      if 0xd800 ≤ unit ∧ unit < 0xdc00 then
        (readUnit rest).map fun low =>
          (Char.ofNat (0x10000 + (unit - 0xd800) * 1024 + (low.1 - 0xdc00)), low.2)
      else some (Char.ofNat unit, rest)
  | none =>
      match s with
      | '\\' :: e :: rest => some (readShort e, rest)
      | c :: rest => some (c, rest)
      | [] => none

theorem hexValue_digitChar {d : Nat} (h : d < 16) : hexValue d.digitChar = d := by
  interval_cases d <;> rfl

theorem readUnit_unicodeEscape {n : Nat} (h : n < 0x10000) (x : Str) :
    readUnit (unicodeEscape n ++ x) = some (n, x) := by
  have digits : ((n / 4096 * 16 + n / 256 % 16) * 16 + n / 16 % 16) * 16 + n % 16 = n := by omega
  simp only [unicodeEscape, List.cons_append, List.nil_append, readUnit]
  rw [hexValue_digitChar (by omega), hexValue_digitChar (by omega), hexValue_digitChar (by omega),
    hexValue_digitChar (by omega), digits]

theorem readShort_of_shortEscape {c e : Char} (h : shortEscape c = some e) :
    readShort e = c ∧ e ≠ 'u' := by
  unfold shortEscape at h
  split_ifs at h <;> (cases h; subst c; exact ⟨rfl, by decide⟩)

theorem unescape_short {e : Char} (h : e ≠ 'u') (x : Str) :
    unescape ('\\' :: e :: x) = some (readShort e, x) := by
  have noUnit : readUnit ('\\' :: e :: x) = none := by
    unfold readUnit
    split
    · rename_i front
      cases front
      contradiction
    · rfl
  rw [unescape, noUnit]

theorem unescape_self {c : Char} (h : c ≠ '\\') (x : Str) : unescape (c :: x) = some (c, x) := by
  have noUnit : readUnit (c :: x) = none := by
    unfold readUnit
    split
    · rename_i front
      cases front
      contradiction
    · rfl
  rw [unescape, noUnit]
  exact fun _ _ same _ => h same

/-- A character is read back from its escape. -/
theorem unescape_escape (c : Char) (x : Str) : unescape (escape c ++ x) = some (c, x) := by
  have valid : c.toNat < 0xd800 ∨ 0xdfff < c.toNat ∧ c.toNat < 0x110000 := c.valid
  unfold escape
  cases short : shortEscape c with
  | some e =>
      obtain ⟨back, notUnit⟩ := readShort_of_shortEscape short
      have read := unescape_short notUnit x
      rw [back] at read
      exact read
  | none =>
      dsimp only
      split
      · have plain : c ≠ '\\' := by
          rintro rfl
          cases short
        exact unescape_self plain x
      · split
        · rename_i below
          rw [unescape.eq_def, readUnit_unicodeEscape below]
          dsimp only
          rw [if_neg (by omega), Char.ofNat_toNat]
        · -- The number is put together again from the two surrogates.
          have joined : 0x10000 + (0xd800 + (c.toNat - 0x10000) / 1024 - 0xd800) * 1024 +
              (0xdc00 + (c.toNat - 0x10000) % 1024 - 0xdc00) = c.toNat := by omega
          rw [List.append_assoc, unescape.eq_def, readUnit_unicodeEscape (by omega)]
          dsimp only
          rw [if_pos (by omega), readUnit_unicodeEscape (by omega), Option.map_some, joined,
            Char.ofNat_toNat]

/-- Escapes can be cut off the front of a text. -/
theorem escape_cancel {c d : Char} {x y : Str} (h : escape c ++ x = escape d ++ y) :
    c = d ∧ x = y := by
  have read := congrArg unescape h
  rw [unescape_escape, unescape_escape] at read
  exact Prod.mk.inj (Option.some.inj read)

/-- An escape does not start with the quotation mark that closes the string. -/
theorem escape_ne_quote (c : Char) (x y : Str) : escape c ++ x ≠ '"' :: y := by
  intro h
  unfold escape at h
  cases short : shortEscape c with
  | some e =>
      rw [short] at h
      cases h
  | none =>
      rw [short] at h
      dsimp only at h
      split_ifs at h
      · cases h
        cases short
      · cases h
      · cases h

theorem quoted_cancel {s t x y : Str} (h : quoted s ++ x = quoted t ++ y) : s = t ∧ x = y := by
  simp only [quoted, List.cons_append, List.append_assoc, List.cons.injEq, true_and,
    List.nil_append] at h
  induction s generalizing t with
  | nil =>
      cases t with
      | nil =>
          cases h
          exact ⟨rfl, rfl⟩
      | cons d t =>
          rw [List.flatMap_cons, List.append_assoc] at h
          exact absurd h.symm (escape_ne_quote d _ x)
  | cons c s ih =>
      cases t with
      | nil =>
          rw [List.flatMap_cons, List.append_assoc] at h
          exact absurd h (escape_ne_quote c _ y)
      | cons d t =>
          rw [List.flatMap_cons, List.flatMap_cons, List.append_assoc, List.append_assoc] at h
          obtain ⟨rfl, rest⟩ := escape_cancel h
          obtain ⟨rfl, rfl⟩ := ih rest
          exact ⟨rfl, rfl⟩

/-! ### Numbers -/

/-- The text does not go on with a digit. -/
def Stop (x : Str) : Prop := ∀ c ∈ x.head?, c.isDigit = false

theorem stop_cons {c : Char} {x : Str} (h : c.isDigit = false) : Stop (c :: x) := by
  rintro d ⟨⟩
  exact h

theorem takeWhile_toDigits {x : Str} (stop : Stop x) (n : Nat) :
    (Nat.toDigits 10 n ++ x).takeWhile Char.isDigit = Nat.toDigits 10 n := by
  have digits : ∀ c ∈ Nat.toDigits 10 n, c.isDigit = true :=
    fun c hc => Integers.isDigit_of_mem_toDigits hc
  rw [List.takeWhile_append_of_pos digits]
  cases x with
  | nil => simp
  | cons c x => rw [List.takeWhile_cons_of_neg (by simp [stop c rfl]), List.append_nil]

theorem toDigits_cancel {n m : Nat} {x y : Str} (hx : Stop x) (hy : Stop y)
    (h : Nat.toDigits 10 n ++ x = Nat.toDigits 10 m ++ y) : n = m ∧ x = y := by
  have front := congrArg (List.takeWhile Char.isDigit) h
  rw [takeWhile_toDigits hx, takeWhile_toDigits hy] at front
  have same := congrArg (Nat.ofDigitChars 10 · 0) front
  simp only [Nat.ofDigitChars_ten_toDigits] at same
  subst same
  exact ⟨rfl, List.append_cancel_left h⟩

/-! ### Values -/

inductive Value where
  | null
  | num (n : Nat)
  | str (s : Str)
  | arr (items : List Value)
  | obj (fields : List (Str × Value))

def newline (level : Nat) : Str := '\n' :: List.replicate (2 * level) ' '

mutual

/-- The text of a value at a nesting level. -/
def dump (level : Nat) : Value → Str
  | .null => "null".toList
  | .num n => Nat.toDigits 10 n
  | .str s => quoted s
  | .arr [] => "[]".toList
  | .arr (v :: rest) =>
      '[' :: (newline (level + 1) ++ dump (level + 1) v ++ dumpItems (level + 1) rest ++
        newline level ++ "]".toList)
  | .obj [] => ['\x7b', '\x7d']
  | .obj ((key, v) :: rest) =>
      '\x7b' :: (newline (level + 1) ++ quoted key ++ ": ".toList ++ dump (level + 1) v ++
        dumpFields (level + 1) rest ++ newline level ++ ['\x7d'])

/-- The further items of a list. -/
def dumpItems (level : Nat) : List Value → Str
  | [] => []
  | v :: rest => ',' :: (newline level ++ dump level v ++ dumpItems level rest)

/-- The further fields of an object. -/
def dumpFields (level : Nat) : List (Str × Value) → Str
  | [] => []
  | (key, v) :: rest =>
      ',' :: (newline level ++ quoted key ++ ": ".toList ++ dump level v ++ dumpFields level rest)

end

/-- The first character of a text, with one digit for all. -/
def firstOf (c : Char) : Char := if c.isDigit then '0' else c

/-- The first character of the text of a value. -/
def Value.first : Value → Char
  | .null => 'n'
  | .num _ => '0'
  | .str _ => '"'
  | .arr _ => '['
  | .obj _ => '\x7b'

theorem head_dump (level : Nat) (v : Value) (x : Str) :
    (dump level v ++ x).head?.map firstOf = some v.first := by
  cases v with
  | null => rfl
  | num n =>
      rw [dump, List.head?_append]
      cases digits : Nat.toDigits 10 n with
      | nil => exact absurd digits Nat.toDigits_ne_nil
      | cons c rest =>
          have digit : c.isDigit = true :=
            Integers.isDigit_of_mem_toDigits (digits ▸ List.mem_cons_self)
          simp [firstOf, digit, Value.first]
  | str s => rfl
  | arr items =>
      cases items with
      | nil => rfl
      | cons v rest =>
          rw [dump]
          rfl
  | obj fields =>
      cases fields with
      | nil => rfl
      | cons field rest =>
          rw [dump]
          rfl

theorem first_eq_of_dump {level : Nat} {v w : Value} {x y : Str}
    (h : dump level v ++ x = dump level w ++ y) : v.first = w.first := by
  have heads := congrArg (fun s : Str => s.head?.map firstOf) h
  simp only [head_dump] at heads
  exact Option.some.inj heads

theorem stop_dumpItems {level : Nat} {vs : List Value} {x : Str} :
    Stop (dumpItems level vs ++ '\n' :: x) := by
  cases vs with
  | nil => exact stop_cons rfl
  | cons v rest =>
      rw [dumpItems]
      exact stop_cons rfl

theorem stop_dumpFields {level : Nat} {fields : List (Str × Value)} {x : Str} :
    Stop (dumpFields level fields ++ '\n' :: x) := by
  cases fields with
  | nil => exact stop_cons rfl
  | cons field rest =>
      rw [dumpFields]
      exact stop_cons rfl

mutual

/-- The text of a value can be cut off the front of a text. -/
theorem dump_cancel (level : Nat) (v w : Value) (x y : Str) (hx : Stop x) (hy : Stop y)
    (h : dump level v ++ x = dump level w ++ y) : v = w ∧ x = y := by
  have first := first_eq_of_dump h
  cases v with
  | null =>
      cases w with
      | null => exact ⟨rfl, List.append_cancel_left h⟩
      | num _ | str _ | arr _ | obj _ => simp [Value.first] at first
  | num n =>
      cases w with
      | num m =>
          rw [dump, dump] at h
          obtain ⟨rfl, rest⟩ := toDigits_cancel hx hy h
          exact ⟨rfl, rest⟩
      | null | str _ | arr _ | obj _ => simp [Value.first] at first
  | str s =>
      cases w with
      | str t =>
          rw [dump, dump] at h
          obtain ⟨rfl, rest⟩ := quoted_cancel h
          exact ⟨rfl, rest⟩
      | null | num _ | arr _ | obj _ => simp [Value.first] at first
  | arr items =>
      cases w with
      | arr items' =>
          match items, items' with
          | [], [] => exact ⟨rfl, List.append_cancel_left h⟩
          | [], _ :: _ | _ :: _, [] => simp [dump, newline] at h
          | v :: vs, w :: ws =>
              simp only [dump, newline, List.cons_append, List.append_assoc, List.cons.injEq,
                true_and, List.append_cancel_left_eq] at h
              obtain ⟨rfl, items⟩ := dump_cancel _ v w _ _ stop_dumpItems stop_dumpItems h
              obtain ⟨rfl, close⟩ := dumpItems_cancel _ vs ws _ _ items
              exact ⟨rfl, List.append_cancel_left (List.append_cancel_left close)⟩
      | null | num _ | str _ | obj _ => simp [Value.first] at first
  | obj fields =>
      cases w with
      | obj fields' =>
          match fields, fields' with
          | [], [] => exact ⟨rfl, List.append_cancel_left h⟩
          | [], _ :: _ | _ :: _, [] => simp [dump, newline] at h
          | (key, v) :: vs, (key', w) :: ws =>
              simp only [dump, newline, List.cons_append, List.append_assoc, List.cons.injEq,
                true_and, List.append_cancel_left_eq] at h
              obtain ⟨rfl, value⟩ := quoted_cancel h
              obtain ⟨rfl, fields⟩ := dump_cancel _ v w _ _ stop_dumpFields stop_dumpFields
                (List.append_cancel_left value)
              obtain ⟨rfl, close⟩ := dumpFields_cancel _ vs ws _ _ fields
              exact ⟨rfl, List.cons_inj_right _ |>.mp (List.append_cancel_left close)⟩
      | null | num _ | str _ | arr _ => simp [Value.first] at first

theorem dumpItems_cancel (level : Nat) (vs ws : List Value) (x y : Str)
    (h : dumpItems level vs ++ '\n' :: x = dumpItems level ws ++ '\n' :: y) : vs = ws ∧ x = y := by
  match vs, ws with
  | [], [] => simpa [dumpItems] using h
  | [], _ :: _ | _ :: _, [] => simp [dumpItems] at h
  | v :: vs, w :: ws =>
      simp only [dumpItems, List.cons_append, List.append_assoc, List.cons.injEq, true_and,
        List.append_cancel_left_eq] at h
      obtain ⟨rfl, items⟩ := dump_cancel level v w _ _ stop_dumpItems stop_dumpItems h
      obtain ⟨rfl, rest⟩ := dumpItems_cancel level vs ws _ _ items
      exact ⟨rfl, rest⟩

theorem dumpFields_cancel (level : Nat) (vs ws : List (Str × Value)) (x y : Str)
    (h : dumpFields level vs ++ '\n' :: x = dumpFields level ws ++ '\n' :: y) :
    vs = ws ∧ x = y := by
  match vs, ws with
  | [], [] => simpa [dumpFields] using h
  | [], (_, _) :: _ | (_, _) :: _, [] => simp [dumpFields] at h
  | (key, v) :: vs, (key', w) :: ws =>
      simp only [dumpFields, List.cons_append, List.append_assoc, List.cons.injEq, true_and,
        List.append_cancel_left_eq] at h
      obtain ⟨rfl, value⟩ := quoted_cancel h
      obtain ⟨rfl, fields⟩ := dump_cancel level v w _ _ stop_dumpFields stop_dumpFields
        (List.append_cancel_left value)
      obtain ⟨rfl, rest⟩ := dumpFields_cancel level vs ws _ _ fields
      exact ⟨rfl, rest⟩

end

theorem dump_injective (level : Nat) : Function.Injective (dump level) := by
  intro v w h
  have stop : Stop [] := fun c hc => by cases hc
  have texts : dump level v ++ [] = dump level w ++ [] := by rw [h]
  exact (dump_cancel level v w [] [] stop stop texts).1

/-! ### Bytes -/

/-- The bytes of a text in a file. -/
def utf8 (s : Str) : List UInt8 := s.flatMap String.utf8EncodeChar

/-- The text with these bytes, if there is one. -/
def decodeUtf8 (bytes : List UInt8) : Option Str := bytes.toByteArray.utf8Decode?.map Array.toList

theorem decodeUtf8_utf8 (s : Str) : decodeUtf8 (utf8 s) = some s := by
  have encoded : (utf8 s).toByteArray = s.utf8Encode := by rw [List.utf8Encode, utf8]
  rw [decodeUtf8, encoded, List.utf8Decode?_utf8Encode]
  rfl

theorem utf8_injective : Function.Injective utf8 := by
  intro s t h
  have decoded := congrArg decodeUtf8 h
  rw [decodeUtf8_utf8, decodeUtf8_utf8] at decoded
  exact Option.some.inj decoded

end Ecube.Json
