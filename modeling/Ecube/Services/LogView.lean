import Ecube.Basic.BackwardLines
import Ecube.Basic.Json
import Ecube.Paths.AuditText
import Ecube.Services.LogPatterns

/-!
The lines of the log files: `view_log_lines` in `app/routers/admin.py` and
`_find_recent_log_match` in `app/routers/jobs.py`.

Both read the files from their ends, block by block, and stop as soon as they have enough.

* `viewLogLines_readable`: the view shows a page of the lines that a scan from the start finds.
* `findRecentLogMatch_eq`: the match is the last one of the first file that has one.
* `findRecentLogMatch_other`: it is not returned as it stands in the file.
-/

namespace Ecube.LogView

open PosixPath BackwardLines AuditText

abbrev Bytes := List UInt8

/-! ### Bytes and texts -/

def newline : UInt8 := 10

def carriageReturn : UInt8 := 13

/-- `bytes.splitlines()`, from a line that has begun, maybe after a carriage return. -/
def splitlinesFrom : Bool → Bytes → Bytes → List Bytes
  | _, line, [] => if line = [] then [] else [line]
  | afterReturn, line, b :: rest =>
      if b = newline then
        if afterReturn then splitlinesFrom false line rest
        else line :: splitlinesFrom false [] rest
      else if b = carriageReturn then line :: splitlinesFrom true [] rest
      else splitlinesFrom false (line ++ [b]) rest

def splitlines (buffer : Bytes) : List Bytes := splitlinesFrom false [] buffer

/-- The ranges of the bytes that can follow a first byte in UTF-8. -/
def following (b : UInt8) : Option (List (UInt8 × UInt8)) :=
  if b < 0x80 then some []
  else if 0xc2 ≤ b ∧ b ≤ 0xdf then some [(0x80, 0xbf)]
  else if b = 0xe0 then some [(0xa0, 0xbf), (0x80, 0xbf)]
  else if b = 0xed then some [(0x80, 0x9f), (0x80, 0xbf)]
  else if 0xe1 ≤ b ∧ b ≤ 0xef then some [(0x80, 0xbf), (0x80, 0xbf)]
  else if b = 0xf0 then some [(0x90, 0xbf), (0x80, 0xbf), (0x80, 0xbf)]
  else if 0xf1 ≤ b ∧ b ≤ 0xf3 then some [(0x80, 0xbf), (0x80, 0xbf), (0x80, 0xbf)]
  else if b = 0xf4 then some [(0x80, 0x8f), (0x80, 0xbf), (0x80, 0xbf)]
  else none

/-- The bytes that do follow. -/
def follow : List (UInt8 × UInt8) → Bytes → Bytes
  | (low, high) :: ranges, b :: rest =>
      if low ≤ b ∧ b ≤ high then b :: follow ranges rest else []
  | _, _ => []

def codePoint (b : UInt8) (found : Bytes) : Nat :=
  found.foldl (fun n c => n * 64 + c.toNat % 64)
    (if found = [] then b.toNat else b.toNat % 2 ^ (6 - found.length))

/-- What cannot be continued is replaced as a whole. -/
def decodeFrom : Nat → Bytes → Str
  | _, [] => []
  | skip + 1, _ :: rest => decodeFrom skip rest
  | 0, b :: rest =>
      match following b with
      | none => '\ufffd' :: decodeFrom 0 rest
      | some ranges =>
          let found := follow ranges rest
          (if found.length = ranges.length then Char.ofNat (codePoint b found) else '\ufffd') ::
            decodeFrom found.length rest

/-- `bytes.decode("utf-8", errors="replace")`. -/
def decode (bytes : Bytes) : Str := decodeFrom 0 bytes

/-- `str.lower`, which depends on the Unicode database. -/
structure Lowering where
  lower : Str → Str
  lower_eq_nil : ∀ s, lower s = [] ↔ s = []

/-- `part in s`. -/
def contains (part s : Str) : Bool := part <:+: s

/-! ### The view -/

inductive ReadError where
  | fileNotFound
  | permission
  | other

structure ResolvedLogFile where
  name : Str
  content : Except ReadError Bytes

section View

variable (l : Lowering)

/-- `_tail_lines`. -/
def tailLines (content : Bytes) (maxLines : Nat) : List Str × Bool :=
  if maxLines = 0 then ([], false)
  else
    let chunks := tailBlocks newline 8192 maxLines content content.length content.length 0 []
    let lines := (splitlines chunks.reverse.flatten).map decode
    if maxLines < lines.length then (lines.drop (lines.length - maxLines), true)
    else (lines, false)

/-- A line in `_tail_filtered_lines`, where the matches so far are the newest. -/
def visitMatch (needle : Str) (maxLines : Nat) (found : List Str) (rawLine : Bytes) :
    Except (List Str) (List Str) :=
  let line := decode rawLine
  if contains (l.lower needle) (l.lower line) then
    let found := found ++ [line]
    if maxLines < found.length then .error found else .ok found
  else .ok found

/-- `_tail_filtered_lines`. -/
def tailFilteredLines (content : Bytes) (needle : Str) (maxLines : Nat) : List Str × Bool :=
  if maxLines = 0 then ([], false)
  else
    match readBack newline (64 * 1024) (visitMatch l needle maxLines)
        (fun found => found.length ≤ maxLines) content content.length content.length [] [] with
    | .error found => ((found.take maxLines).reverse, true)
    | .ok found => ((found.take maxLines).reverse, false)

/-- The text that is searched for, if there is one. -/
def searched (needle : Option Str) : Option Str := (needle.map strip).filter (· ≠ [])

def tailFile (needle : Option Str) (content : Bytes) (remaining : Nat) : List Str × Bool :=
  match searched needle with
  | some needle => tailFilteredLines l content needle remaining
  | none => tailLines content remaining

/-- The loop of `_tail_log_family_lines`. -/
def tailFiles (needle : Option Str) (target : Nat) :
    List ResolvedLogFile → List (Str × Str) → Bool → Except ReadError (List (Str × Str) × Bool)
  | [], newestFirst, hasMore => .ok (newestFirst, hasMore)
  | entry :: files, newestFirst, hasMore =>
      let remaining := target - newestFirst.length
      if remaining = 0 then .ok (newestFirst, true)
      else do
        let content ← entry.content
        let (lines, fileHasMore) := tailFile l needle content remaining
        let newestFirst := newestFirst ++ lines.reverse.map (entry.name, ·)
        if target ≤ newestFirst.length then .ok (newestFirst.take target, true)
        else tailFiles needle target files newestFirst (hasMore || fileHasMore)

/-- `_tail_log_family_lines`. -/
def tailLogFamilyLines (files : List ResolvedLogFile) (needle : Option Str) (maxLines : Nat) :
    Except ReadError (List (Str × Str) × Bool) :=
  if maxLines = 0 then .ok ([], false)
  else do
    let (newestFirst, hasMore) ← tailFiles l needle (maxLines + 1) files [] false
    if maxLines < newestFirst.length then .ok (newestFirst.take maxLines, true)
    else .ok (newestFirst, hasMore)

/-- The parameters of a request, within the bounds that the route checks. -/
structure LogViewQuery where
  limit : Nat
  offset : Nat
  search : Option Str
  reverse : Bool
  one_le_limit : 1 ≤ limit
  limit_le : limit ≤ 1000
  offset_le : offset ≤ 100000
  search_le : ∀ text ∈ search, text.length ≤ 256

structure LogViewLine where
  content : Str
  sourcePath : Str
  deriving DecidableEq

structure LogViewResponse where
  offset : Nat
  limit : Nat
  returned : Nat
  hasMore : Bool
  lines : List LogViewLine
  deriving DecidableEq

structure HTTPException where
  statusCode : Nat
  detail : String
  deriving DecidableEq

def unavailable : ReadError → HTTPException
  | .permission => ⟨503, "Log source is unavailable due to file permissions"⟩
  | _ => ⟨503, "Log source is unavailable"⟩

/-- `view_log_lines`, of a family that has been found. -/
def viewLogLines (isAlnum : Char → Bool) (query : LogViewQuery)
    (familyFiles : List ResolvedLogFile) : Except HTTPException LogViewResponse :=
  if familyFiles = [] then .error ⟨503, "Log source is unavailable"⟩
  else
    match tailLogFamilyLines l familyFiles query.search (query.limit + query.offset) with
    | .error failure => .error (unavailable failure)
    | .ok (newestFirst, hasMore) =>
        let newestFirst :=
          if 0 < query.offset then
            if query.offset < newestFirst.length then newestFirst.drop query.offset else []
          else newestFirst
        let newestFirst := newestFirst.take query.limit
        let lines := if query.reverse then newestFirst else newestFirst.reverse
        let redacted := lines.map fun line => ⟨LogRedaction.redactLogLine isAlnum line.2, line.1⟩
        .ok ⟨query.offset, query.limit, redacted.length, hasMore, redacted⟩

end View

/-! ### The newest match -/

inductive Needle where
  | text (s : Str)
  | terms (list : List Str)

def Needle.needles : Needle → List Str
  | .text s => [s]
  | .terms list => list.filter (· ≠ [])

section Find

variable (l : Lowering)

def visitRecent (lowered : List Str) (_ : Unit) (rawLine : Bytes) : Except Str Unit :=
  let line := strip (decode rawLine)
  if lowered.any (contains · (l.lower line)) then .error line else .ok ()

def loweredNeedles (needle : Needle) : List Str := needle.needles.map l.lower

/-- `_find_recent_log_match`, of the files of `_candidate_log_paths` in their order. -/
def findRecentLogMatch (needle : Needle) (files : List (Except ReadError Bytes)) : Option Str :=
  if loweredNeedles l needle = [] then none
  else files.findSome? fun file =>
    match file with
    | .error _ => none
    | .ok content =>
        match readBack newline (64 * 1024) (visitRecent l (loweredNeedles l needle)) (fun _ => true)
            content content.length content.length [] () with
        | .error line => some (redactPathlikeSubstrings line)
        | .ok () => none

end Find

/-! ### One file -/

theorem splitlinesFrom_eq {line buffer : Bytes} (whole : newline ∉ line)
    (returns : carriageReturn ∉ buffer) :
    splitlinesFrom false line buffer = lines newline (line ++ buffer) := by
  induction buffer generalizing line with
  | nil => rw [splitlinesFrom, List.append_nil, lines_of_not_mem whole]
  | cons b rest ih =>
      rw [List.mem_cons, not_or] at returns
      rw [splitlinesFrom]
      split
      next ends =>
        rw [if_neg Bool.false_ne_true, ih List.not_mem_nil returns.2, ends, lines_append_cons whole,
          List.nil_append]
      next inside =>
        rw [if_neg (Ne.symm returns.1), ih _ returns.2, List.append_assoc, List.singleton_append]
        rw [List.mem_append, List.mem_singleton, not_or]
        exact ⟨whole, Ne.symm inside⟩

section View

variable (l : Lowering)

/-- Whether a line is wanted. -/
def wanted (needle : Option Str) (line : Str) : Bool :=
  (searched needle).all fun text => contains (l.lower text) (l.lower line)

/-- The lines of a file, the last one first. -/
def newestFirst (content : Bytes) : List Str := (lines newline content).reverse.map decode

theorem tailLines_eq {content : Bytes} (returns : carriageReturn ∉ content) {maxLines : Nat}
    (some_ : 0 < maxLines) :
    tailLines content maxLines =
      (((newestFirst content).take maxLines).reverse,
        decide (maxLines < (newestFirst content).length)) := by
  obtain ⟨start, joined, enough⟩ : ∃ start,
      (tailBlocks newline 8192 maxLines content content.length content.length
        ((content.drop content.length).count newline) []).reverse.flatten = content.drop start ∧
        (start = 0 ∨ maxLines < (content.drop start).count newline) :=
    tailBlocks_eq (by decide) le_rfl le_rfl (by rw [List.drop_length]; rfl)
  rw [List.drop_length, List.count_nil] at joined
  obtain ⟨last, longer⟩ := lines_drop enough
  have kept : carriageReturn ∉ content.drop start := fun mem => returns (List.mem_of_mem_drop mem)
  rw [tailLines, if_neg some_.ne']
  dsimp only
  rw [joined, splitlines, splitlinesFrom_eq List.not_mem_nil kept, List.nil_append, newestFirst,
    ← List.map_take, ← last, List.take_reverse, List.map_reverse, List.reverse_reverse,
    List.map_drop]
  simp only [List.length_map, List.length_reverse]
  split
  next more => rw [decide_eq_true (longer.mp more)]
  next less =>
    rw [decide_eq_false (mt longer.mpr less), Nat.sub_eq_zero_of_le (Nat.not_lt.mp less),
      List.drop_zero]

theorem foldlM_visitMatch (needle : Str) {maxLines : Nat} (found : List Str)
    (within : found.length ≤ maxLines) (raws : List Bytes) :
    raws.foldlM (visitMatch l needle maxLines) found =
      let all := found ++ (raws.map decode).filter fun line =>
        contains (l.lower needle) (l.lower line)
      if maxLines < all.length then .error (all.take (maxLines + 1)) else .ok all := by
  induction raws generalizing found with
  | nil =>
      simp only [List.foldlM_nil, List.map_nil, List.filter_nil, List.append_nil]
      rw [if_neg (by omega)]
      rfl
  | cons raw raws ih =>
      rw [List.foldlM_cons, visitMatch]
      dsimp only
      rw [List.map_cons, List.filter_cons]
      split
      next here =>
        rw [List.append_cons found _ (List.filter _ _)]
        split
        next full =>
          have length : (found ++ [decode raw]).length = maxLines + 1 := by
            rw [List.length_append, List.length_singleton] at full ⊢
            omega
          rw [if_pos (by rw [List.length_append]; omega), ← length, List.take_left]
          rfl
        next room => exact ih (found ++ [decode raw]) (Nat.not_lt.mp room)
      next other => exact ih found within

theorem contains_nil {part : Str} (some_ : part ≠ []) : contains part [] = false := by
  simp [contains, some_]

theorem tailFilteredLines_eq (content : Bytes) {needle : Str} (some_ : needle ≠ [])
    {maxLines : Nat} (positive : 0 < maxLines) :
    tailFilteredLines l content needle maxLines =
      let found := (newestFirst content).filter fun line =>
        contains (l.lower needle) (l.lower line)
      ((found.take maxLines).reverse, decide (maxLines < found.length)) := by
  have keeps : ∀ found line next, visitMatch l needle maxLines found line = .ok next →
      decide (found.length ≤ maxLines) = true → decide (next.length ≤ maxLines) = true := by
    intro found line next visits within
    rw [visitMatch] at visits
    dsimp only at visits
    split at visits
    next =>
      split at visits
      next => cases visits
      next room =>
        cases visits
        exact decide_eq_true (Nat.not_lt.mp room)
    next =>
      cases visits
      exact within
  have phantom : ((content.splitOn newline).reverse.map decode).filter (fun line =>
      contains (l.lower needle) (l.lower line)) =
        (newestFirst content).filter fun line => contains (l.lower needle) (l.lower line) := by
    rcases splitOn_eq_lines newline content with same | ends
    · rw [same, newestFirst]
    · have none_ : contains (l.lower needle) (l.lower (decode [])) = false := by
        rw [show l.lower (decode []) = [] from (l.lower_eq_nil _).mpr rfl]
        exact contains_nil (mt (l.lower_eq_nil _).mp some_)
      rw [ends, List.reverse_append, List.reverse_singleton, List.singleton_append, List.map_cons,
        List.filter_cons_of_neg (by rw [none_]; exact Bool.false_ne_true), newestFirst]
  have loop : readBack newline (64 * 1024) (visitMatch l needle maxLines)
      (fun found => found.length ≤ maxLines) content content.length content.length [] [] =
        let found := (newestFirst content).filter fun line =>
          contains (l.lower needle) (l.lower line)
        if maxLines < found.length then .error (found.take (maxLines + 1)) else .ok found := by
    rw [readBack_eq (by decide) keeps le_rfl le_rfl _ (by simp), List.take_length, List.append_nil,
      foldlM_visitMatch l needle [] (Nat.zero_le _), List.nil_append, phantom]
    split
    next empty =>
      rw [List.length_eq_zero_iff.mp empty]
      rfl
    next => rfl
  rw [tailFilteredLines, if_neg positive.ne', loop]
  dsimp only
  by_cases more : maxLines < ((newestFirst content).filter fun line =>
      contains (l.lower needle) (l.lower line)).length
  · rw [if_pos more, decide_eq_true more]
    dsimp only
    rw [List.take_take, Nat.min_eq_left (Nat.le_succ maxLines)]
  · rw [if_neg more, decide_eq_false more]

/-- What is read of a file: its newest lines among those that are wanted. -/
theorem tailFile_eq (needle : Option Str) {content : Bytes} (returns : carriageReturn ∉ content)
    {remaining : Nat} (some_ : 0 < remaining) :
    tailFile l needle content remaining =
      let found := (newestFirst content).filter (wanted l needle)
      ((found.take remaining).reverse, decide (remaining < found.length)) := by
  rw [tailFile]
  cases search : searched needle with
  | none =>
      have all : (newestFirst content).filter (wanted l needle) = newestFirst content := by
        rw [List.filter_eq_self]
        intro line _
        rw [wanted, search]
        rfl
      rw [all]
      exact tailLines_eq returns some_
  | some text =>
      have same : wanted l needle = fun line => contains (l.lower text) (l.lower line) := by
        funext line
        rw [wanted, search]
        rfl
      have nonempty : text ≠ [] := of_decide_eq_true (Option.filter_eq_some_iff.mp search).2
      rw [same]
      exact tailFilteredLines_eq l content nonempty some_

/-! ### A family of files -/

/-- The files of a family, newest first, when all can be read. -/
def readable (files : List (Str × Bytes)) : List ResolvedLogFile :=
  files.map fun file => ⟨file.1, .ok file.2⟩

/-- Their lines, newest first. -/
def familyLines (files : List (Str × Bytes)) : List (Str × Str) :=
  files.flatMap fun file => (newestFirst file.2).map (file.1, ·)

/-- The lines that are wanted. -/
def wantedLines (needle : Option Str) (files : List (Str × Bytes)) : List (Str × Str) :=
  (familyLines files).filter fun line => wanted l needle line.2

theorem wantedLines_cons (needle : Option Str) (file : Str × Bytes) (files : List (Str × Bytes)) :
    wantedLines l needle (file :: files) =
      ((newestFirst file.2).filter (wanted l needle)).map (file.1, ·) ++
        wantedLines l needle files := by
  rw [wantedLines, familyLines, List.flatMap_cons, List.filter_append, List.filter_map]
  rfl

theorem tailFiles_cons (needle : Option Str) {target : Nat} (file : Str × Bytes)
    (files : List ResolvedLogFile) {found : List (Str × Str)} (room : found.length < target) :
    tailFiles l needle target (⟨file.1, .ok file.2⟩ :: files) found false =
      let page := tailFile l needle file.2 (target - found.length)
      let found := found ++ page.1.reverse.map (file.1, ·)
      if target ≤ found.length then .ok (found.take target, true)
      else tailFiles l needle target files found page.2 := by
  rw [tailFiles, if_neg (by omega)]
  rfl

theorem tailFiles_eq (needle : Option Str) {target : Nat} {files : List (Str × Bytes)}
    (returns : ∀ file ∈ files, carriageReturn ∉ file.2) {found : List (Str × Str)}
    (room : found.length < target) :
    tailFiles l needle target (readable files) found false =
      let all := found ++ wantedLines l needle files
      .ok (all.take target, decide (target ≤ all.length)) := by
  induction files generalizing found with
  | nil =>
      dsimp only
      rw [wantedLines, familyLines, List.flatMap_nil, List.filter_nil, List.append_nil,
        List.take_of_length_le room.le, decide_eq_false (Nat.not_le.mpr room)]
      rfl
  | cons file files ih =>
      rw [List.forall_mem_cons] at returns
      rw [readable, List.map_cons, ← readable, tailFiles_cons l needle file _ room,
        wantedLines_cons, tailFile_eq l needle returns.1 (by omega)]
      dsimp only
      generalize (newestFirst file.2).filter (wanted l needle) = here
      rw [List.reverse_reverse, List.map_take, ← List.append_assoc]
      have length : (here.map (file.1, ·)).length = here.length := List.length_map _
      generalize here.map (file.1, ·) = named at length ⊢
      by_cases full : target ≤ found.length + here.length
      · have front : (found ++ named).take target =
            found ++ named.take (target - found.length) := by
          rw [List.take_append, List.take_of_length_le room.le]
        have page : target ≤ (found ++ named.take (target - found.length)).length := by
          rw [List.length_append, List.length_take]
          omega
        have long : target ≤ (found ++ named).length := by
          rw [List.length_append]
          omega
        rw [if_pos page, ← front, List.take_take, Nat.min_self,
          List.take_append_of_le_length long,
          decide_eq_true (by rw [List.length_append]; omega)]
      · rw [List.take_of_length_le (by omega), if_neg (by rw [List.length_append]; omega),
          decide_eq_false (by omega)]
        exact ih returns.2 (by rw [List.length_append]; omega)

theorem tailLogFamilyLines_eq (needle : Option Str) {files : List (Str × Bytes)}
    (returns : ∀ file ∈ files, carriageReturn ∉ file.2) {maxLines : Nat} (some_ : 0 < maxLines) :
    tailLogFamilyLines l (readable files) needle maxLines =
      .ok ((wantedLines l needle files).take maxLines,
        decide (maxLines < (wantedLines l needle files).length)) := by
  have start : ([] : List (Str × Str)).length < maxLines + 1 := Nat.zero_lt_succ maxLines
  rw [tailLogFamilyLines, if_neg some_.ne', tailFiles_eq l needle returns start]
  dsimp only
  rw [List.nil_append]
  generalize wantedLines l needle files = all
  change (if maxLines < (all.take (maxLines + 1)).length then
      Except.ok ((all.take (maxLines + 1)).take maxLines, true)
    else Except.ok (all.take (maxLines + 1), decide (maxLines + 1 ≤ all.length))) = _
  by_cases more : maxLines < all.length
  · rw [if_pos (by rw [List.length_take]; omega), List.take_take,
      Nat.min_eq_left (Nat.le_succ maxLines), decide_eq_true more]
  · rw [if_neg (by rw [List.length_take]; omega), List.take_of_length_le (by omega),
      List.take_of_length_le (by omega)]
    rfl

/-- The lines of a page. -/
def page (query : LogViewQuery) (files : List (Str × Bytes)) : List (Str × Str) :=
  ((wantedLines l query.search files).drop query.offset).take query.limit

/-- The view shows a page of the lines that are wanted, and says whether more follow. -/
theorem viewLogLines_readable (isAlnum : Char → Bool) (query : LogViewQuery)
    {files : List (Str × Bytes)} (some_ : files ≠ [])
    (returns : ∀ file ∈ files, carriageReturn ∉ file.2) :
    viewLogLines l isAlnum query (readable files) =
      let shown := if query.reverse then page l query files else (page l query files).reverse
      .ok ⟨query.offset, query.limit, shown.length,
        decide (query.offset + query.limit < (wantedLines l query.search files).length),
        shown.map fun line => ⟨LogRedaction.redactLogLine isAlnum line.2, line.1⟩⟩ := by
  have limit := query.one_le_limit
  have nonempty : readable files ≠ [] := by simpa [readable] using some_
  rw [viewLogLines, if_neg nonempty, tailLogFamilyLines_eq l query.search returns (by omega)]
  dsimp only
  have rest : (if 0 < query.offset then
      if query.offset < ((wantedLines l query.search files).take
          (query.limit + query.offset)).length then
        ((wantedLines l query.search files).take (query.limit + query.offset)).drop query.offset
      else []
    else (wantedLines l query.search files).take (query.limit + query.offset)) =
      ((wantedLines l query.search files).take (query.limit + query.offset)).drop query.offset := by
    split
    next =>
      split
      next => rfl
      next past => exact (List.drop_of_length_le (Nat.not_lt.mp past)).symm
    next start => rw [Nat.eq_zero_of_not_pos start, List.drop_zero]
  rw [rest, List.drop_take, Nat.add_sub_cancel, List.take_take, Nat.min_self, ← page,
    Nat.add_comm query.limit, List.length_map]

end View

/-! ### The newest match in a family -/

section Find

variable (l : Lowering)

/-- Whether a line has a term, in any case. -/
def hasTerm (terms : List Str) (line : Str) : Bool :=
  terms.any fun term => contains (l.lower term) (l.lower line)

/-- The newest match in a file, without the blanks around it. -/
def newestMatch (terms : List Str) (content : Bytes) : Option Str :=
  ((newestFirst content).map strip).find? (hasTerm l terms)

theorem foldlM_visitRecent (terms : List Str) (raws : List Bytes) :
    raws.foldlM (visitRecent l (terms.map l.lower)) () =
      match (raws.map fun raw => strip (decode raw)).find? (hasTerm l terms) with
      | some line => .error line
      | none => .ok () := by
  have same : ∀ line, (terms.map l.lower).any (contains · (l.lower line)) = hasTerm l terms line :=
    fun line => List.any_map
  induction raws with
  | nil => rfl
  | cons raw raws ih =>
      rw [List.foldlM_cons, visitRecent, List.map_cons, List.find?_cons, same]
      split
      next here =>
        rw [here]
        rfl
      next other =>
        rw [Bool.not_eq_true] at other
        rw [other]
        exact ih

theorem needles_ne_nil {needle : Needle} (some_ : needle ≠ .text []) :
    ∀ term ∈ needle.needles, term ≠ [] := by
  intro term mem
  cases needle with
  | text s =>
      rw [List.mem_singleton.mp mem]
      rintro rfl
      exact some_ rfl
  | terms list => exact of_decide_eq_true (List.mem_filter.mp mem).2

theorem readBack_visitRecent {terms : List Str} (some_ : ∀ term ∈ terms, term ≠ [])
    (content : Bytes) :
    readBack newline (64 * 1024) (visitRecent l (terms.map l.lower)) (fun _ => true) content
        content.length content.length [] () =
      match newestMatch l terms content with
      | some line => .error line
      | none => .ok () := by
  have phantom : ((content.splitOn newline).reverse.map fun raw => strip (decode raw)).find?
      (hasTerm l terms) = newestMatch l terms content := by
    have strips : ((lines newline content).reverse.map fun raw => strip (decode raw)) =
        (newestFirst content).map strip := by
      rw [newestFirst, List.map_map]
      rfl
    rcases splitOn_eq_lines newline content with same | ends
    · rw [same, strips, newestMatch]
    · have none_ : hasTerm l terms (strip (decode [])) = false := by
        rw [hasTerm, List.any_eq_false]
        intro term mem
        rw [show l.lower (strip (decode [])) = [] from (l.lower_eq_nil _).mpr rfl,
          contains_nil (mt (l.lower_eq_nil _).mp (some_ term mem))]
        exact Bool.false_ne_true
      rw [ends, List.reverse_append, List.reverse_singleton, List.singleton_append, List.map_cons,
        List.find?_cons, none_, newestMatch, ← strips]
  rw [readBack_eq (by decide) (fun _ _ _ _ _ => rfl) le_rfl le_rfl _ rfl, List.take_length,
    List.append_nil, foldlM_visitRecent, phantom]
  split
  next empty =>
    rw [List.length_eq_zero_iff.mp empty]
    rfl
  next => rfl

/-- The newest match of the first file with one, without blanks around it and without paths. -/
theorem findRecentLogMatch_eq {needle : Needle} (some_ : needle ≠ .text [])
    (files : List (Except ReadError Bytes)) :
    findRecentLogMatch l needle files =
      ((files.filterMap Except.toOption).findSome? (newestMatch l needle.needles)).map
        redactPathlikeSubstrings := by
  rw [findRecentLogMatch]
  split
  next none_ =>
    have empty : needle.needles = [] := List.map_eq_nil_iff.mp none_
    have nothing : newestMatch l needle.needles = fun _ => none := by
      funext content
      rw [newestMatch, empty]
      exact List.find?_eq_none.mpr fun _ _ => Bool.false_ne_true
    rw [nothing, List.findSome?_eq_none_iff.mpr fun _ _ => rfl]
    rfl
  next =>
    induction files with
    | nil => rfl
    | cons file files ih =>
        rw [List.findSome?_cons]
        cases file with
        | error failure => exact ih
        | ok content =>
            dsimp only
            rw [loweredNeedles, readBack_visitRecent l (needles_ne_nil some_)]
            rw [show (Except.ok content :: files).filterMap Except.toOption =
              content :: files.filterMap Except.toOption from rfl, List.findSome?_cons]
            cases newestMatch l needle.needles content with
            | none => exact ih
            | some line => rfl

/-! ### Both readers -/

/-- Both readers give what a scan of the files from their starts gives. -/
theorem readers_eq_scan (isAlnum : Char → Bool) (query : LogViewQuery)
    {files : List (Str × Bytes)} (some_ : files ≠ [])
    (returns : ∀ file ∈ files, carriageReturn ∉ file.2) {needle : Needle}
    (term : needle ≠ .text []) (candidates : List (Except ReadError Bytes)) :
    (viewLogLines l isAlnum query (readable files) =
      let shown := if query.reverse then page l query files else (page l query files).reverse
      .ok ⟨query.offset, query.limit, shown.length,
        decide (query.offset + query.limit < (wantedLines l query.search files).length),
        shown.map fun line => ⟨LogRedaction.redactLogLine isAlnum line.2, line.1⟩⟩) ∧
      findRecentLogMatch l needle candidates =
        ((candidates.filterMap Except.toOption).findSome? (newestMatch l needle.needles)).map
          redactPathlikeSubstrings :=
  ⟨viewLogLines_readable l isAlnum query some_ returns, findRecentLogMatch_eq l term candidates⟩

end Find

/-- `str.lower` of the ASCII letters. -/
def asciiLowering : Lowering where
  lower := List.map Char.toLower
  lower_eq_nil _ := List.map_eq_nil_iff

/-- The second page of the lines with `err`, one line long. -/
def errorQuery : LogViewQuery where
  limit := 1
  offset := 1
  search := some " err ".toList
  reverse := false
  one_le_limit := by decide
  limit_le := by decide
  offset_le := by decide
  search_le := by decide

def logFiles : List (Str × Bytes) :=
  [("app.log".toList, Json.utf8 "ok\nerr 1\nERR 2 /srv\n".toList),
    ("app.log.1".toList, Json.utf8 "error 3".toList)]

theorem readers_logFiles :
    viewLogLines asciiLowering Char.isAlphanum errorQuery (readable logFiles) =
        .ok ⟨1, 1, 1, true, [⟨"err 1".toList, "app.log".toList⟩]⟩ ∧
      findRecentLogMatch asciiLowering (.text "err".toList)
          (logFiles.map fun file => .ok file.2) = some "ERR 2 [redacted-path]".toList := by
  obtain ⟨view, recent⟩ := readers_eq_scan asciiLowering Char.isAlphanum errorQuery
    (show logFiles ≠ [] by decide)
    (show ∀ file ∈ logFiles, carriageReturn ∉ file.2 by decide +kernel)
    (show Needle.text "err".toList ≠ .text [] by simp) (logFiles.map fun file => .ok file.2)
  exact ⟨view.trans (by decide +kernel), recent.trans (by decide +kernel)⟩

/-- A match is returned without the blanks around it and without paths. The empty text is found
behind the last newline. -/
theorem findRecentLogMatch_other :
    findRecentLogMatch asciiLowering (.text "job".toList)
        [.ok (Json.utf8 "  job /srv/a\n".toList)] = some "job [redacted-path]".toList ∧
      (newestFirst (Json.utf8 "  job /srv/a\n".toList)).find?
        (hasTerm asciiLowering ["job".toList]) = some "  job /srv/a".toList ∧
      findRecentLogMatch asciiLowering (.text []) [.ok (Json.utf8 "a\n".toList)] = some [] ∧
      (newestFirst (Json.utf8 "a\n".toList)).find? (hasTerm asciiLowering [[]]) =
        some "a".toList := by
  decide +kernel

end Ecube.LogView
