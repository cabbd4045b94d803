import Ecube.Basic.Json

/-!
Lists and dictionaries of texts as compact JSON, as
`json.dumps(value, separators=(",", ":"), ensure_ascii=False)` writes them.

`readList_dumpsList`, `readMap_dumpsMap`: they are read back. Only what is written this way
is read here.
-/

namespace Ecube.JsonText

open Json

/-! ### Strings -/

/-- Other characters than the control characters, the quotation mark and the backslash stand
for themselves. -/
def escape (c : Char) : Str :=
  match shortEscape c with
  | some e => ['\\', e]
  | none => if c.toNat < 32 then unicodeEscape c.toNat else [c]

def quoted (s : Str) : Str := '"' :: (s.flatMap escape ++ ['"'])

/-- Read one character of a string. -/
def readChar : Str → Option (Char × Str)
  | [] => none
  | c :: rest =>
      if c = '\\' then
        match rest with
        | [] => none
        | e :: after =>
            if e ∈ ['"', '\\', 'n', 'r', 't', 'f', 'b'] then some (readShort e, after)
            else
              match readUnit (c :: rest) with
              | some (n, left) =>
                  if n < 32 ∧ c :: rest = unicodeEscape n ++ left then some (Char.ofNat n, left)
                  else none
              | none => none
      else if c = '"' ∨ c.toNat < 32 then none
      else some (c, rest)

/-- Read the characters of a string up to the closing quotation mark. -/
def readChars : Nat → Str → Option (Str × Str)
  | 0, _ => none
  | fuel + 1, s =>
      if s.head? = some '"' then some ([], s.tail)
      else
        match readChar s with
        | some (c, rest) => (readChars fuel rest).map fun r => (c :: r.1, r.2)
        | none => none

def readQuoted (s : Str) : Option (Str × Str) :=
  if s.head? = some '"' then readChars s.length s.tail else none

theorem readChar_escape (c : Char) (x : Str) : readChar (escape c ++ x) = some (c, x) := by
  rw [escape]
  cases short : shortEscape c with
  | some e =>
      obtain ⟨back, -⟩ := readShort_of_shortEscape short
      have letter : e ∈ ['"', '\\', 'n', 'r', 't', 'f', 'b'] := by
        unfold shortEscape at short
        split_ifs at short <;> (cases short; decide)
      simp only [List.cons_append, List.nil_append, readChar, if_true, if_pos letter, back]
  | none =>
      dsimp only
      split
      next low =>
        have notLetter : ('u' : Char) ∉ ['"', '\\', 'n', 'r', 't', 'f', 'b'] := by decide
        have unit := readUnit_unicodeEscape (n := c.toNat) (by omega) x
        have eq : unicodeEscape c.toNat ++ x = '\\' :: 'u' :: (unicodeEscape c.toNat ++ x).drop 2 :=
          rfl
        rw [eq] at unit
        rw [eq, readChar.eq_def]
        dsimp only
        rw [if_pos rfl, if_neg notLetter, unit]
        dsimp only
        rw [if_pos ⟨low, eq.symm⟩, Char.ofNat_toNat]
      next high =>
        have plain : c ≠ '\\' ∧ c ≠ '"' := by
          constructor
          · rintro rfl
            cases short
          · rintro rfl
            cases short
        rw [List.singleton_append, readChar.eq_def]
        dsimp only
        rw [if_neg plain.1, if_neg]
        rintro (same | low)
        · exact plain.2 same
        · exact high low

theorem head_escape (c : Char) (x : Str) : (escape c ++ x).head? ≠ some '"' := by
  intro h
  cases rest : escape c ++ x with
  | nil =>
      rw [rest] at h
      cases h
  | cons d y =>
      have read := readChar_escape c x
      rw [rest] at h read
      cases h
      cases read

theorem readChars_flatMap {fuel : Nat} {s : Str} (enough : s.length < fuel) (x : Str) :
    readChars fuel (s.flatMap escape ++ '"' :: x) = some (s, x) := by
  induction s generalizing fuel with
  | nil =>
      cases fuel with
      | zero => exact absurd enough (Nat.not_lt_zero _)
      | succ fuel => rfl
  | cons c s ih =>
      cases fuel with
      | zero => exact absurd enough (Nat.not_lt_zero _)
      | succ fuel =>
          rw [List.length_cons] at enough
          rw [List.flatMap_cons, List.append_assoc, readChars, if_neg (head_escape c _),
            readChar_escape]
          dsimp only
          rw [ih (by omega)]
          rfl

theorem length_le_flatMap_escape (s : Str) : s.length ≤ (s.flatMap escape).length := by
  induction s with
  | nil => exact Nat.le_refl 0
  | cons c s ih =>
      have some : 1 ≤ (escape c).length := by
        cases text : escape c with
        | nil =>
            have read := readChar_escape c []
            rw [text] at read
            cases read
        | cons d rest => simp
      rw [List.flatMap_cons, List.length_append, List.length_cons]
      omega

theorem readQuoted_quoted (s x : Str) : readQuoted (quoted s ++ x) = some (s, x) := by
  have enough : s.length < (quoted s ++ x).length := by
    have le := length_le_flatMap_escape s
    simp only [quoted, List.cons_append, List.length_cons, List.length_append]
    omega
  have head : (quoted s ++ x).head? = some '"' := rfl
  rw [readQuoted, if_pos head]
  have text : (quoted s ++ x).tail = s.flatMap escape ++ '"' :: x := by simp [quoted]
  rw [text, readChars_flatMap enough]

/-! ### Sequences -/

section Sequences

variable {α : Type} (write : α → Str) (read : Str → Option (α × Str)) (close : Char)

def dumpsRest : List α → Str
  | [] => [close]
  | a :: rest => ',' :: (write a ++ dumpsRest rest)

/-- The items between commas, and the closing bracket. -/
def dumpsItems : List α → Str
  | [] => [close]
  | a :: rest => write a ++ dumpsRest write close rest

def readRest : Nat → Str → Option (List α)
  | 0, _ => none
  | fuel + 1, s =>
      if s = [close] then some []
      else if s.head? = some ',' then
        match read s.tail with
        | some (a, rest) => (readRest fuel rest).map (a :: ·)
        | none => none
      else none

def readItems (s : Str) : Option (List α) :=
  if s = [close] then some []
  else
    match read s with
    | some (a, rest) => (readRest read close s.length rest).map (a :: ·)
    | none => none

variable {write close}

theorem length_lt_dumpsRest (items : List α) :
    items.length < (dumpsRest write close items).length := by
  induction items with
  | nil => exact Nat.one_pos
  | cons a rest ih =>
      rw [dumpsRest, List.length_cons, List.length_cons, List.length_append]
      omega

variable {read} (back : ∀ a x, read (write a ++ x) = some (a, x))

include back

theorem readRest_dumpsRest (notComma : close ≠ ',') {fuel : Nat} {items : List α}
    (enough : items.length < fuel) :
    readRest read close fuel (dumpsRest write close items) = some items := by
  induction items generalizing fuel with
  | nil =>
      cases fuel with
      | zero => exact absurd enough (Nat.not_lt_zero _)
      | succ fuel => rw [dumpsRest, readRest, if_pos rfl]
  | cons a rest ih =>
      cases fuel with
      | zero => exact absurd enough (Nat.not_lt_zero _)
      | succ fuel =>
          rw [List.length_cons] at enough
          have other : dumpsRest write close (a :: rest) ≠ [close] := by
            intro h
            exact notComma (List.cons.inj h).1.symm
          rw [readRest, if_neg other, dumpsRest, if_pos List.head?_cons, List.tail_cons, back]
          dsimp only
          rw [ih (by omega)]
          rfl

theorem readItems_dumpsItems (notComma : close ≠ ',') (unread : read [close] = none)
    (items : List α) : readItems read close (dumpsItems write close items) = some items := by
  cases items with
  | nil => rw [dumpsItems, readItems, if_pos rfl]
  | cons a rest =>
      have first := back a (dumpsRest write close rest)
      have other : dumpsItems write close (a :: rest) ≠ [close] := by
        intro h
        rw [dumpsItems] at h
        rw [h, unread] at first
        cases first
      have enough : rest.length < (dumpsItems write close (a :: rest)).length := by
        have lt := @length_lt_dumpsRest _ write close rest
        rw [dumpsItems, List.length_append]
        omega
      rw [readItems, if_neg other, dumpsItems, first]
      dsimp only
      rw [← dumpsItems, readRest_dumpsRest back notComma enough]
      rfl

end Sequences

/-! ### Lists and dictionaries -/

def dumpsList (items : List Str) : Str := '[' :: dumpsItems quoted ']' items

def readList (s : Str) : Option (List Str) :=
  if s.head? = some '[' then readItems readQuoted ']' s.tail else none

def member (m : Str × Str) : Str := quoted m.1 ++ ':' :: quoted m.2

def readMember (s : Str) : Option ((Str × Str) × Str) :=
  match readQuoted s with
  | some (key, ':' :: rest) => (readQuoted rest).map fun r => ((key, r.1), r.2)
  | _ => none

def dumpsMap (members : List (Str × Str)) : Str := '\x7b' :: dumpsItems member '\x7d' members

/-- A key is written once. -/
def readMap (s : Str) : Option (List (Str × Str)) :=
  if s.head? = some '\x7b' then
    (readItems readMember '\x7d' s.tail).filter fun members => (members.map Prod.fst).Nodup
  else none

theorem readList_dumpsList (items : List Str) : readList (dumpsList items) = some items := by
  rw [readList, dumpsList, if_pos List.head?_cons, List.tail_cons]
  exact readItems_dumpsItems readQuoted_quoted (by decide) rfl items

theorem readMember_member (m : Str × Str) (x : Str) :
    readMember (member m ++ x) = some (m, x) := by
  rw [readMember, member, List.append_assoc, readQuoted_quoted]
  simp only [List.cons_append, readQuoted_quoted, Option.map_some]

theorem readMap_dumpsMap {members : List (Str × Str)}
    (nodup : (members.map Prod.fst).Nodup) : readMap (dumpsMap members) = some members := by
  rw [readMap, dumpsMap, if_pos List.head?_cons, List.tail_cons,
    readItems_dumpsItems readMember_member (by decide) rfl members]
  exact Option.filter_some_pos (decide_eq_true nodup)

/-! ### The characters of a text -/

/-- Characters above the control characters. -/
def Printable (s : Str) : Prop := ∀ c ∈ s, 32 ≤ c.toNat

theorem printable_append {s t : Str} (hs : Printable s) (ht : Printable t) :
    Printable (s ++ t) := by
  intro c mem
  rcases List.mem_append.mp mem with left | right
  · exact hs c left
  · exact ht c right

theorem printable_cons {c : Char} {s : Str} (hc : 32 ≤ c.toNat) (hs : Printable s) :
    Printable (c :: s) := by
  intro d mem
  rcases List.mem_cons.mp mem with rfl | later
  · exact hc
  · exact hs d later

theorem printable_nil : Printable [] := fun _ mem => absurd mem List.not_mem_nil

theorem le_digitChar {d : Nat} (h : d < 16) : 32 ≤ d.digitChar.toNat := by
  interval_cases d <;> decide

theorem printable_escape (c : Char) : Printable (escape c) := by
  rw [escape]
  cases short : shortEscape c with
  | some e =>
      have letter : 32 ≤ e.toNat := by
        unfold shortEscape at short
        split_ifs at short <;> (cases short; decide)
      exact printable_cons (by decide) (printable_cons letter printable_nil)
  | none =>
      dsimp only
      split
      next low =>
        rw [unicodeEscape]
        refine printable_cons (by decide) (printable_cons (by decide) ?_)
        refine printable_cons (le_digitChar (by omega)) ?_
        refine printable_cons (le_digitChar (by omega)) ?_
        exact printable_cons (le_digitChar (by omega))
          (printable_cons (le_digitChar (by omega)) printable_nil)
      next high => exact printable_cons (by omega) printable_nil

theorem printable_quoted (s : Str) : Printable (quoted s) := by
  refine printable_cons (by decide) (printable_append ?_ (printable_cons (by decide) printable_nil))
  intro c mem
  obtain ⟨d, -, within⟩ := List.mem_flatMap.mp mem
  exact printable_escape d c within

theorem printable_dumpsItems {α : Type} {write : α → Str} {close : Char}
    (items : List α) (each : ∀ a, Printable (write a)) (last : 32 ≤ close.toNat) :
    Printable (dumpsItems write close items) := by
  have rest : ∀ items : List α, Printable (dumpsRest write close items) := by
    intro items
    induction items with
    | nil => exact printable_cons last printable_nil
    | cons a items ih => exact printable_cons (by decide) (printable_append (each a) ih)
  cases items with
  | nil => exact printable_cons last printable_nil
  | cons a items => exact printable_append (each a) (rest items)

theorem printable_dumpsList (items : List Str) : Printable (dumpsList items) :=
  printable_cons (by decide) (printable_dumpsItems items printable_quoted (by decide))

theorem printable_dumpsMap (members : List (Str × Str)) : Printable (dumpsMap members) :=
  printable_cons (by decide) (printable_dumpsItems members
    (fun m => printable_append (printable_quoted m.1)
      (printable_cons (by decide) (printable_quoted m.2))) (by decide))

/-- The closing bracket is the last character. -/
theorem dumpsItems_eq_concat {α : Type} (write : α → Str) (close : Char) (items : List α) :
    ∃ inner, dumpsItems write close items = inner ++ [close] := by
  have rest : ∀ items : List α, ∃ inner, dumpsRest write close items = inner ++ [close] := by
    intro items
    induction items with
    | nil => exact ⟨[], rfl⟩
    | cons a items ih =>
        obtain ⟨inner, eq⟩ := ih
        exact ⟨',' :: (write a ++ inner), by rw [dumpsRest, eq]; simp⟩
  cases items with
  | nil => exact ⟨[], rfl⟩
  | cons a items =>
      obtain ⟨inner, eq⟩ := rest items
      exact ⟨write a ++ inner, by rw [dumpsItems, eq, List.append_assoc]⟩

end Ecube.JsonText
