import Ecube.Basic.Json
import Ecube.Basic.MountLines
import Ecube.Basic.MountStack

/-!
`read_mount_table`: the text of `/proc/mounts`, read as a dictionary.

The kernel escapes blanks, tabs and newlines in a mount, and leaves other whitespace as it is.
Python splits lines at a carriage return and fields at any whitespace.

* `readMountTable_procMounts`: a line is read field by field where its bare whitespace is.
* `readBack_iff`: when the dictionary has the source of the last mount at each mount point.
-/

namespace Ecube.MountTableText

open PosixPath MountLines MountStack

/-! ### Reading the table -/

/-- What `re.split` cuts a field into. -/
inductive Piece where
  | text (s : Str)
  | octal (n : Nat)
  deriving DecidableEq, Repr

def addChar (c : Char) : List Piece → List Piece
  | .text s :: rest => .text (c :: s) :: rest
  | pieces => .text [c] :: pieces

/-- `re.split(r'(\\[0-7]{3})', s)`, without the empty parts. -/
def splitEscapes : Str → List Piece
  | '\\' :: a :: b :: c :: rest =>
      match octalValue a, octalValue b, octalValue c with
      | some x, some y, some z => .octal (64 * x + 8 * y + z) :: splitEscapes rest
      | _, _, _ => addChar '\\' (splitEscapes (a :: b :: c :: rest))
  | c :: rest => addChar c (splitEscapes rest)
  | [] => []

section Read

-- `int(text, 8)`
variable (octalInt : Str → Option Int)

/-- A byte of the buffer; other numbers are a `ValueError`. -/
def byteOf (n : Int) : Option (List UInt8) :=
  if 0 ≤ n ∧ n < 256 then some [UInt8.ofNat n.toNat] else none

/-- What a part adds to the buffer. A part that only starts like an escape is read as a number. -/
def pieceBytes : Piece → Option (List UInt8)
  | .octal n => byteOf n
  | .text s => if s.head? = some '\\' then (octalInt s.tail).bind byteOf else some (Json.utf8 s)

/-- The loop over the parts. -/
def buffer : List Piece → Option (List UInt8)
  | [] => some []
  | piece :: rest => (pieceBytes octalInt piece).bind fun bytes => (buffer rest).map (bytes ++ ·)

/-- `unescape_mountpoint`. Bytes that are no UTF-8 would become lone surrogates; they are left
as they are written. -/
def unescapeMountpoint (escapedPath : Str) : Str :=
  ((buffer octalInt (splitEscapes escapedPath)).bind Json.decodeUtf8).getD escapedPath

/-- A line, read as a mount point and its source. -/
def readLine (line : Str) : Option (Str × Str) :=
  match words line with
  | source :: mountPoint :: _ =>
      some (unescapeMountpoint octalInt mountPoint, unescapeMountpoint octalInt source)
  | _ => none

/-- `read_mount_table`, for a file that can be read. -/
def readMountTable (text : Str) : List (Str × Str) :=
  ((lines text).filterMap (readLine octalInt)).foldl (fun d m => assign d m.1 m.2) []

/-! ### Escapes of the kernel -/

/-- A text that begins like no escape. -/
def Piece.Plain : Piece → Prop
  | .text s => s.head? ≠ some '\\'
  | .octal _ => True

variable {octalInt}

theorem splitEscapes_cons {c : Char} (plain : c ≠ '\\') (rest : Str) :
    splitEscapes (c :: rest) = addChar c (splitEscapes rest) := by
  conv_lhs => unfold splitEscapes
  split
  next same => exact absurd (List.cons.inj same).1 plain
  next same =>
    cases same
    rfl
  next same => cases same

theorem splitEscapes_text {c : Char} (few : c ∈ sourceSpecial) (rest : Str) :
    splitEscapes (Written.text ⟨c, true⟩ ++ rest) = .octal c.toNat :: splitEscapes rest := by
  simp only [sourceSpecial, List.mem_cons, List.not_mem_nil, or_false] at few
  rcases few with rfl | rfl | rfl | rfl | rfl <;> rfl

theorem byteOf_special :
    ∀ c ∈ sourceSpecial, byteOf c.toNat = some (String.utf8EncodeChar c) :=
  List.all_iff_forall_prop.mp (by decide)

theorem plain_addChar {c : Char} (plain : c ≠ '\\') {pieces : List Piece}
    (all : ∀ piece ∈ pieces, piece.Plain) : ∀ piece ∈ addChar c pieces, piece.Plain := by
  have head : ∀ s, (Piece.text (c :: s)).Plain := fun _ same => plain (Option.some.inj same)
  unfold addChar
  split
  next =>
    rw [List.forall_mem_cons] at all
    exact List.forall_mem_cons.mpr ⟨head _, all.2⟩
  next => exact List.forall_mem_cons.mpr ⟨head _, all⟩

theorem buffer_addChar {c : Char} (plain : c ≠ '\\') {pieces : List Piece}
    (all : ∀ piece ∈ pieces, piece.Plain) :
    buffer octalInt (addChar c pieces) =
      (buffer octalInt pieces).map (String.utf8EncodeChar c ++ ·) := by
  have head : ∀ s, pieceBytes octalInt (.text (c :: s)) = some (Json.utf8 (c :: s)) :=
    fun _ => if_neg fun same => plain (Option.some.inj same)
  unfold addChar
  split
  next s rest =>
    have begun : pieceBytes octalInt (.text s) = some (Json.utf8 s) :=
      if_neg (all _ List.mem_cons_self)
    rw [buffer, buffer, head, begun, Option.bind_some, Option.bind_some, Option.map_map]
    congr 1
    funext bytes
    simp [Json.utf8]
  next =>
    rw [buffer, head, Option.bind_some]
    congr 1
    funext bytes
    simp [Json.utf8]

/-- What is written as the kernel writes it is cut into parts with the bytes of its
characters. -/
theorem buffer_splitEscapes {ws : List Written} (valid : ∀ w ∈ ws, w.Valid) :
    (∀ piece ∈ splitEscapes (ws.flatMap Written.text), piece.Plain) ∧
      buffer octalInt (splitEscapes (ws.flatMap Written.text)) =
        some (Json.utf8 (ws.map Written.char)) := by
  induction ws with
  | nil => exact ⟨fun _ mem => absurd mem List.not_mem_nil, rfl⟩
  | cons w ws ih =>
      rw [List.forall_mem_cons] at valid
      obtain ⟨plain, bytes⟩ := ih valid.2
      obtain ⟨c, escaped⟩ := w
      rw [List.flatMap_cons, List.map_cons]
      cases escaped with
      | true =>
          have few : c ∈ sourceSpecial := valid.1.1 rfl
          have single : pieceBytes octalInt (.octal c.toNat) = some (String.utf8EncodeChar c) :=
            byteOf_special c few
          rw [splitEscapes_text few]
          refine ⟨List.forall_mem_cons.mpr ⟨trivial, plain⟩, ?_⟩
          rw [buffer, single, bytes]
          rfl
      | false =>
          have bare : c ≠ '\\' := valid.1.2 rfl
          have text : Written.text ⟨c, false⟩ = [c] := rfl
          rw [text, List.singleton_append, splitEscapes_cons bare]
          refine ⟨plain_addChar bare plain, ?_⟩
          rw [buffer_addChar bare plain, bytes]
          rfl

theorem unescapeMountpoint_text {ws : List Written} (valid : ∀ w ∈ ws, w.Valid) :
    unescapeMountpoint octalInt (ws.flatMap Written.text) = ws.map Written.char := by
  rw [unescapeMountpoint, (buffer_splitEscapes valid).2, Option.bind_some, Json.decodeUtf8_utf8,
    Option.getD_some]

/-! ### Lines of the kernel -/

/-- A mount. Neither its source nor its mount point is empty. -/
structure Mount where
  source : Str
  mountPoint : Str
  /-- the type, the options and the two numbers -/
  fields : List Str
  source_ne : source ≠ []
  mountPoint_ne : mountPoint ≠ []

namespace Mount

def blank : Written := ⟨' ', false⟩

/-- What follows the mount point. -/
def tail (m : Mount) : List Written := m.fields.flatMap fun f => blank :: written pathSpecial f

def line (m : Mount) : List Written :=
  written sourceSpecial m.source ++ blank :: (written sourceSpecial m.mountPoint ++ m.tail)

end Mount

def newline : Written := ⟨'\n', false⟩

/-- The file, as the kernel writes it. -/
def procMounts (mounts : List Mount) : List Written :=
  mounts.flatMap fun m => m.line ++ [newline]

/-- The words of a line, at the whitespace that is not escaped. -/
def wordsOf (line : List Written) : List (List Written) :=
  (line.splitOnP (Written.bare isSpace)).filter (· ≠ [])

def linesOf (text : List Written) : List (List Written) := text.splitOnP (Written.bare isNewline)

/-- The second word of a line and the first. -/
def readingOf (line : List Written) : Option (Str × Str) :=
  match wordsOf line with
  | source :: mountPoint :: _ =>
      some (mountPoint.map Written.char, source.map Written.char)
  | _ => none

/-- What a line of the kernel breaks into. -/
def readings (m : Mount) : List (Str × Str) := (linesOf m.line).filterMap readingOf

theorem blank_valid : Mount.blank.Valid := ⟨fun h => absurd h (by decide), fun _ => by decide⟩

theorem newline_valid : newline.Valid := ⟨fun h => absurd h (by decide), fun _ => by decide⟩

theorem valid_source (s : Str) : ∀ w ∈ written sourceSpecial s, w.Valid :=
  valid_written (by decide) (List.Subset.refl _)

theorem valid_tail (m : Mount) : ∀ w ∈ m.tail, w.Valid := by
  intro w mem
  obtain ⟨f, -, within⟩ := List.mem_flatMap.mp mem
  rcases List.mem_cons.mp within with rfl | within
  · exact blank_valid
  · exact valid_written (by decide) (by decide) w within

theorem valid_line (m : Mount) : ∀ w ∈ m.line, w.Valid := by
  intro w mem
  rcases List.mem_append.mp mem with source | rest
  · exact valid_source _ w source
  rcases List.mem_cons.mp rest with rfl | rest
  · exact blank_valid
  rcases List.mem_append.mp rest with mountPoint | tail
  · exact valid_source _ w mountPoint
  · exact valid_tail m w tail

theorem valid_procMounts (mounts : List Mount) : ∀ w ∈ procMounts mounts, w.Valid := by
  intro w mem
  obtain ⟨m, -, within⟩ := List.mem_flatMap.mp mem
  rcases List.mem_append.mp within with line | last
  · exact valid_line m w line
  · rw [List.mem_singleton.mp last]
    exact newline_valid

/-! ### Where lines and words end -/

theorem mem_splitOnP {α : Type} {p : α → Bool} {items part : List α}
    (mem : part ∈ items.splitOnP p) : ∀ a ∈ part, a ∈ items ∧ p a = false := by
  induction items generalizing part with
  | nil =>
      rw [List.splitOnP_nil, List.mem_singleton] at mem
      rw [mem]
      exact fun a none => absurd none List.not_mem_nil
  | cons b items ih =>
      have later : ∀ part ∈ items.splitOnP p, ∀ a ∈ part, a ∈ b :: items ∧ p a = false :=
        fun part mem a within => ⟨List.mem_cons_of_mem b (ih mem a within).1, (ih mem a within).2⟩
      rw [List.splitOnP_cons_eq_if_modifyHead] at mem
      split at mem
      next =>
        rcases List.mem_cons.mp mem with rfl | mem
        · exact fun a none => absurd none List.not_mem_nil
        · exact later part mem
      next plain =>
        cases parts : items.splitOnP p with
        | nil => exact absurd parts (List.splitOnP_ne_nil _ _)
        | cons first rest =>
            rw [parts, List.modifyHead_cons] at mem
            rcases List.mem_cons.mp mem with rfl | mem
            · intro a within
              rcases List.mem_cons.mp within with rfl | within
              · exact ⟨List.mem_cons_self, Bool.eq_false_iff.mpr plain⟩
              · exact later first (parts ▸ List.mem_cons_self) a within
            · exact later part (parts ▸ List.mem_cons_of_mem _ mem)

theorem words_flatMap {line : List Written} (valid : ∀ w ∈ line, w.Valid) :
    words (line.flatMap Written.text) = (wordsOf line).map (·.flatMap Written.text) := by
  have text : ∀ word : List Written, word.flatMap Written.text ≠ [] ↔ word ≠ [] := by
    rintro (_ | ⟨w, word⟩)
    · exact iff_of_false (fun ne => ne rfl) (fun ne => ne rfl)
    · refine iff_of_true ?_ (List.cons_ne_nil _ _)
      rw [List.flatMap_cons, Written.text]
      split <;> exact List.cons_ne_nil _ _
  rw [words, splitOnP_written (fun _ => id) valid, wordsOf, List.filter_map]
  congr 2
  funext word
  exact decide_eq_decide.mpr (text word)

theorem readLine_flatMap {line : List Written} (valid : ∀ w ∈ line, w.Valid) :
    readLine octalInt (line.flatMap Written.text) = readingOf line := by
  have within : ∀ word ∈ wordsOf line, ∀ w ∈ word, w.Valid := fun word mem w here =>
    valid w (mem_splitOnP (List.mem_of_mem_filter mem) w here).1
  rw [readLine, readingOf, words_flatMap valid]
  match h : wordsOf line with
  | [] => rfl
  | [_] => rfl
  | source :: mountPoint :: _ =>
      rw [h] at within
      have first := within source List.mem_cons_self
      have second := within mountPoint (List.mem_cons_of_mem _ List.mem_cons_self)
      simp only [List.map_cons, unescapeMountpoint_text first, unescapeMountpoint_text second]

theorem filterMap_linesOf (mounts : List Mount) :
    (linesOf (procMounts mounts)).filterMap readingOf = mounts.flatMap readings := by
  induction mounts with
  | nil => rfl
  | cons m mounts ih =>
      have text : procMounts (m :: mounts) = m.line ++ newline :: procMounts mounts := by
        rw [procMounts, List.flatMap_cons, List.append_assoc, List.singleton_append]
        rfl
      rw [text, linesOf, List.splitOnP_append_cons _ _ (by rfl), List.filterMap_append,
        List.flatMap_cons, ← ih]
      rfl

/-- The dictionary takes the words of each line that a mount's line breaks into. -/
theorem readMountTable_procMounts (mounts : List Mount) :
    readMountTable octalInt ((procMounts mounts).flatMap Written.text) =
      (mounts.flatMap readings).foldl (fun d m => assign d m.1 m.2) [] := by
  have valid := valid_procMounts mounts
  rw [readMountTable, lines,
    splitOnP_written (fun _ newline => isSpace_of_isNewline newline) valid, List.filterMap_map,
    ← filterMap_linesOf]
  congr 1
  refine List.filterMap_congr fun line mem => ?_
  exact readLine_flatMap fun w here => valid w (mem_splitOnP mem w here).1

/-! ### What is read back -/

/-- No whitespace but what the kernel escapes. -/
def Escaped (s : Str) : Prop := ∀ c ∈ s, isSpace c = true → c ∈ pathSpecial

instance : DecidablePred Escaped := fun s => inferInstanceAs (Decidable (∀ c ∈ s, _))

/-- A line that is read as it was written. -/
structure Mount.Clean (m : Mount) : Prop where
  source : Escaped m.source
  mountPoint : Escaped m.mountPoint
  fields : ∀ f ∈ m.fields, '\r' ∉ f

theorem escaped_of_mem_readings {m : Mount} {place source : Str}
    (mem : (place, source) ∈ readings m) : Escaped place ∧ Escaped source := by
  obtain ⟨line, within, read⟩ := List.mem_filterMap.mp mem
  have escaped : ∀ word ∈ wordsOf line, Escaped (word.map Written.char) := by
    intro word here c mem space
    obtain ⟨w, hw, rfl⟩ := List.mem_map.mp mem
    obtain ⟨inLine, bare⟩ := mem_splitOnP (List.mem_of_mem_filter here) w hw
    have valid := valid_line m w (mem_splitOnP within w inLine).1
    rw [Written.bare, space, Bool.and_true, Bool.not_eq_false'] at bare
    have few := valid.1 bare
    simp only [sourceSpecial, List.mem_cons, List.not_mem_nil, or_false] at few
    rcases few with same | same | same | same | same <;> rw [same] at space ⊢ <;>
      revert space <;> decide
  rw [readingOf] at read
  split at read
  next first second rest words =>
    obtain ⟨rfl, rfl⟩ := Prod.mk.inj (Option.some.inj read)
    rw [words] at escaped
    exact ⟨escaped _ (List.mem_cons_of_mem _ List.mem_cons_self),
      escaped _ List.mem_cons_self⟩
  next => cases read

theorem bare_written {special s : Str} (all : pathSpecial ⊆ special) (escaped : Escaped s) :
    ∀ w ∈ written special s, w.bare isSpace = false := by
  intro w mem
  obtain ⟨c, here, rfl⟩ := List.mem_map.mp mem
  rw [Written.bare, Bool.eq_false_iff, Ne, Bool.and_eq_true, Bool.not_eq_true',
    decide_eq_false_iff_not]
  exact fun h => h.1 (all (escaped c here h.2))

theorem wordsOf_written {s : Str} (escaped : Escaped s) (ne : s ≠ []) (rest : List Written) :
    wordsOf (written sourceSpecial s ++ Mount.blank :: rest) =
      written sourceSpecial s :: wordsOf rest := by
  rw [wordsOf, List.splitOnP_append_cons_of_forall_mem
    (bare_written (by decide) escaped) Mount.blank rfl, List.filter_cons_of_pos]
  · rfl
  · simpa [written] using ne

theorem newline_written {s : Str} (escaped : Escaped s) :
    ∀ w ∈ written sourceSpecial s, w.bare isNewline = false := by
  intro w mem
  rw [Bool.eq_false_iff]
  intro newline
  have space := bare_written (by decide) escaped w mem
  rw [Written.bare, Bool.and_eq_true] at newline
  rw [Written.bare, newline.1, Bool.true_and] at space
  exact absurd (isSpace_of_isNewline newline.2) (Bool.eq_false_iff.mp space)

def Mount.front (m : Mount) : List Written :=
  written sourceSpecial m.source ++ blank :: written sourceSpecial m.mountPoint

theorem line_eq_front (m : Mount) : m.line = m.front ++ m.tail := by
  rw [Mount.line, Mount.front, List.append_assoc, List.cons_append]

theorem newline_front {m : Mount} (source : Escaped m.source) (place : Escaped m.mountPoint) :
    ∀ w ∈ m.front, w.bare isNewline = false := by
  intro w mem
  rcases List.mem_append.mp mem with mem | mem
  · exact newline_written source w mem
  rcases List.mem_cons.mp mem with rfl | mem
  · rfl
  · exact newline_written place w mem

/-- The line up to the mount point, and what is left of it. -/
theorem readingOf_front {m : Mount} (source : Escaped m.source) (place : Escaped m.mountPoint)
    {rest : List Written} (ends : rest = [] ∨ rest.head? = some Mount.blank) :
    readingOf (m.front ++ rest) = some (m.mountPoint, m.source) := by
  have second : ∃ more, wordsOf (written sourceSpecial m.mountPoint ++ rest) =
      written sourceSpecial m.mountPoint :: more := by
    rcases ends with rfl | starts
    · refine ⟨[], ?_⟩
      rw [List.append_nil, wordsOf, List.splitOnP_eq_singleton (bare_written (by decide) place),
        List.filter_cons_of_pos, List.filter_nil]
      simpa [written] using m.mountPoint_ne
    · obtain ⟨more, rfl⟩ := List.head?_eq_some_iff.mp starts
      exact ⟨_, wordsOf_written place m.mountPoint_ne more⟩
  obtain ⟨more, words⟩ := second
  rw [Mount.front, List.append_assoc, List.cons_append, readingOf,
    wordsOf_written source m.source_ne, words]
  simp only [map_written]

theorem tail_starts (m : Mount) : m.tail = [] ∨ m.tail.head? = some Mount.blank := by
  rw [Mount.tail]
  cases m.fields with
  | nil => exact .inl rfl
  | cons f fields => exact .inr rfl

/-- A mount without odd whitespace in its source and its mount point is read, perhaps with
more. -/
theorem readings_escaped {m : Mount} (source : Escaped m.source) (place : Escaped m.mountPoint) :
    ∃ more, readings m = (m.mountPoint, m.source) :: more := by
  cases split : m.tail.splitOnP (Written.bare isNewline) with
  | nil => exact absurd split (List.splitOnP_ne_nil _ _)
  | cons first rest =>
      -- the first part of what follows the mount point starts where that starts
      have ends : first = [] ∨ first.head? = some Mount.blank := by
        rcases tail_starts m with none | starts
        · rw [none] at split
          exact .inl (List.cons.inj split).1.symm
        · obtain ⟨more, tail⟩ := List.head?_eq_some_iff.mp starts
          right
          rw [tail, List.splitOnP_cons_eq_if_modifyHead, if_neg (by decide)] at split
          cases parts : more.splitOnP (Written.bare isNewline) with
          | nil => exact absurd parts (List.splitOnP_ne_nil _ _)
          | cons part others =>
              rw [parts, List.modifyHead_cons] at split
              rw [← (List.cons.inj split).1]
              rfl
      refine ⟨rest.filterMap readingOf, ?_⟩
      rw [readings, linesOf, line_eq_front, splitOnP_append (newline_front source place), split,
        List.modifyHead_cons]
      exact List.filterMap_cons_some (readingOf_front source place ends)

theorem readings_clean {m : Mount} (clean : m.Clean) :
    readings m = [(m.mountPoint, m.source)] := by
  have tail : ∀ w ∈ m.tail, w.bare isNewline = false := by
    intro w mem
    obtain ⟨f, hf, within⟩ := List.mem_flatMap.mp mem
    rcases List.mem_cons.mp within with rfl | within
    · rfl
    obtain ⟨c, here, rfl⟩ := List.mem_map.mp within
    have other : c ≠ '\r' := fun same => clean.fields f hf (same ▸ here)
    by_cases newline : c = '\n'
    · rw [newline]
      rfl
    · have plain : isNewline c = false := by simp [isNewline, newline, other]
      rw [Written.bare, plain, Bool.and_false]
  have whole : ∀ w ∈ m.line, w.bare isNewline = false := by
    rw [line_eq_front]
    exact List.forall_mem_append.mpr
      ⟨newline_front clean.source clean.mountPoint, tail⟩
  have read := readingOf_front clean.source clean.mountPoint (tail_starts m)
  rw [readings, linesOf, List.splitOnP_eq_singleton whole, line_eq_front]
  exact List.filterMap_cons_some read

/-- The source of the last mount at a mount point. -/
def lastSource (mounts : List Mount) (place : Str) : Option Str :=
  (mounts.reverse.find? fun m => m.mountPoint = place).map Mount.source

/-- What was read last for a mount point. -/
def lastReading (mounts : List Mount) (place : Str) : Option Str :=
  ((mounts.flatMap readings).reverse.find? fun r => r.1 = place).map Prod.snd

theorem lookup_readMountTable (mounts : List Mount) (place : Str) :
    (readMountTable octalInt ((procMounts mounts).flatMap Written.text)).lookup place =
      lastReading mounts place := by
  rw [readMountTable_procMounts]
  exact lookup_foldl_assign.trans Option.or_none

theorem lastSource_append (front : List Mount) (m : Mount) (place : Str) :
    lastSource (front ++ [m]) place =
      if m.mountPoint = place then some m.source else lastSource front place := by
  rw [lastSource, lastSource, List.reverse_append, List.reverse_singleton, List.singleton_append,
    List.find?_cons]
  by_cases here : m.mountPoint = place
  · simp [here]
  · simp [here]

/-- The dictionary has the source of the last mount at each mount point, and nothing else. -/
def ReadBack (octalInt : Str → Option Int) (mounts : List Mount) : Prop :=
  ∀ place, (readMountTable octalInt ((procMounts mounts).flatMap Written.text)).lookup place =
    lastSource mounts place

/-- What else a line breaks into is right by chance, or overwritten by a later line. -/
def Harmless (mounts : List Mount) : Prop :=
  ∀ before m after, mounts = before ++ m :: after → ¬m.Clean → ∀ place,
    (lastReading [m] place).isSome = true → lastReading after place = none →
      lastReading [m] place = lastSource mounts place

theorem escaped_lastReading {mounts : List Mount} {place s : Str}
    (last : lastReading mounts place = some s) : Escaped place ∧ Escaped s := by
  obtain ⟨r, found, rfl⟩ := Option.map_eq_some_iff.mp last
  obtain ⟨m, -, mem⟩ := List.mem_flatMap.mp (List.mem_reverse.mp (List.mem_of_find?_eq_some found))
  have here := List.find?_some found
  rw [decide_eq_true_eq] at here
  rw [← here]
  exact escaped_of_mem_readings mem

theorem lastReading_split (before : List Mount) (m : Mount) (after : List Mount) (place : Str) :
    lastReading (before ++ m :: after) place =
      ((lastReading after place).or (lastReading [m] place)).or (lastReading before place) := by
  simp only [lastReading, List.flatMap_append, List.flatMap_cons, List.flatMap_nil,
    List.append_nil, List.reverse_append, List.find?_append, Option.map_or]

theorem lastSource_split (before : List Mount) (m : Mount) (after : List Mount) (place : Str) :
    lastSource (before ++ m :: after) place =
      ((lastSource after place).or (lastSource [m] place)).or (lastSource before place) := by
  simp only [lastSource, List.reverse_append, List.reverse_cons, List.find?_append,
    Option.map_or, List.reverse_nil, List.nil_append]

theorem lastReading_ne_none {m : Mount} (source : Escaped m.source)
    (place : Escaped m.mountPoint) : lastReading [m] m.mountPoint ≠ none := by
  obtain ⟨more, read⟩ := readings_escaped source place
  rw [lastReading, Ne, Option.map_eq_none_iff, List.find?_eq_none]
  push Not
  exact ⟨(m.mountPoint, m.source), by simp [read], by simp⟩

theorem lastSource_single (m : Mount) (place : Str) :
    lastSource [m] place = if m.mountPoint = place then some m.source else none := by
  by_cases here : m.mountPoint = place
  · simp [lastSource, here]
  · simp [lastSource, here]

theorem lastReading_clean {m : Mount} (clean : m.Clean) (place : Str) :
    lastReading [m] place = lastSource [m] place := by
  rw [lastSource_single, lastReading, List.flatMap_singleton, readings_clean clean]
  by_cases here : m.mountPoint = place
  · simp [here]
  · simp [here]

/-- A mount point that has a source is read, if all mount points and last sources are. -/
theorem lastReading_of_lastSource {mounts : List Mount} {place : Str}
    (places : ∀ m ∈ mounts, Escaped m.mountPoint)
    (sources : ∀ s, lastSource mounts place = some s → Escaped s)
    (unread : lastReading mounts place = none) : lastSource mounts place = none := by
  induction mounts using List.reverseRecOn with
  | nil => rfl
  | append_singleton front m ih =>
      rw [lastReading_split, Option.or_eq_none_iff, Option.or_eq_none_iff] at unread
      rw [lastSource_append] at sources ⊢
      split at sources
      next here =>
        have place := places m (List.mem_append_right _ (List.mem_singleton_self m))
        exact absurd (here ▸ unread.1.2) (lastReading_ne_none (sources _ rfl) place)
      next other =>
        rw [if_neg other]
        exact ih (fun n mem => places n (List.mem_append_left _ mem)) sources unread.2

theorem exists_last_reading {mounts : List Mount} {place s : Str}
    (read : lastReading mounts place = some s) :
    ∃ before m after, mounts = before ++ m :: after ∧ lastReading [m] place = some s ∧
      lastReading after place = none := by
  induction mounts with
  | nil => cases read
  | cons m mounts ih =>
      rw [← List.nil_append (m :: mounts), lastReading_split] at read
      cases later : lastReading mounts place with
      | none =>
          rw [later, Option.none_or] at read
          exact ⟨[], m, mounts, rfl, Option.or_none.symm.trans read, later⟩
      | some t =>
          rw [later, Option.some_or, Option.some_or] at read
          obtain ⟨before, n, after, split, here⟩ := ih (later.trans read)
          exact ⟨m :: before, n, after, congrArg (m :: ·) split, here⟩

/-- The table is read back when odd whitespace is in no mount point and in no source that is
the last at its mount point, and what other lines break into is harmless. -/
theorem readBack_iff (octalInt : Str → Option Int) (mounts : List Mount) :
    ReadBack octalInt mounts ↔
      (∀ m ∈ mounts, Escaped m.mountPoint) ∧
      (∀ m ∈ mounts, ∀ s, lastSource mounts m.mountPoint = some s → Escaped s) ∧
      Harmless mounts := by
  unfold ReadBack
  simp only [lookup_readMountTable]
  constructor
  · intro back
    refine ⟨fun m mem => ?_, fun m _ s last => ?_, ?_⟩
    · have some : ∃ s, lastSource mounts m.mountPoint = some s := by
        rw [← Option.isSome_iff_exists, lastSource, Option.isSome_map, List.find?_isSome]
        exact ⟨m, List.mem_reverse.mpr mem, decide_eq_true rfl⟩
      obtain ⟨s, last⟩ := some
      exact (escaped_lastReading ((back _).trans last)).1
    · exact (escaped_lastReading ((back _).trans last)).2
    · rintro before m after rfl - place read unread
      obtain ⟨s, read⟩ := Option.isSome_iff_exists.mp read
      rw [← back, lastReading_split, unread, read]
      rfl
  · rintro ⟨places, sources, harmless⟩ place
    have source : ∀ s, lastSource mounts place = some s → Escaped s := by
      intro s last
      obtain ⟨m, found, -⟩ := Option.map_eq_some_iff.mp last
      have here := List.find?_some found
      rw [decide_eq_true_eq] at here
      have mem := List.mem_reverse.mp (List.mem_of_find?_eq_some found)
      exact sources m mem s (here ▸ last)
    cases read : lastReading mounts place with
    | none => exact (lastReading_of_lastSource places source read).symm
    | some s =>
        -- the last mount whose line is read there
        obtain ⟨before, m, after, split, here, unread⟩ := exists_last_reading read
        by_cases clean : m.Clean
        · have none : lastSource after place = none := by
            refine lastReading_of_lastSource (fun n mem => places n ?_)
              (fun s last => source s ?_) unread
            · rw [split]
              exact List.mem_append_right _ (List.mem_cons_of_mem _ mem)
            · rw [split, lastSource_split, last]
              rfl
          rw [split, lastReading_split, unread, Option.none_or, here, Option.some_or] at read
          rw [split, lastSource_split, none, Option.none_or, ← lastReading_clean clean, here,
            Option.some_or, ← read]
        · rw [← harmless before m after split clean place (Option.isSome_of_eq_some here) unread,
            here]

/-- A share at a mount point with a no-break space in it. -/
def caseShare : Mount where
  source := "server:/case".toList
  mountPoint := "/nfs/case\u00a042".toList
  fields := ["nfs".toList, "rw".toList, "0".toList, "0".toList]
  source_ne := by decide
  mountPoint_ne := by decide

/-- The share is found at the part of its mount point before the blank, and not at its mount
point. -/
theorem noBreakSpace_lost :
    (readMountTable (fun _ => none) ((procMounts [caseShare]).flatMap Written.text)).lookup
        "/nfs/case".toList = some caseShare.source ∧
      ¬ReadBack (fun _ => none) [caseShare] := by
  refine ⟨?_, fun back => ?_⟩
  · rw [lookup_readMountTable]
    decide
  · have lost := back caseShare.mountPoint
    rw [lookup_readMountTable] at lost
    revert lost
    decide

end Read

end Ecube.MountTableText
