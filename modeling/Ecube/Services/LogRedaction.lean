import Mathlib.Data.Bool.AllAny
import Ecube.Basic.Json
import Ecube.Services.FileFailures
import Ecube.Services.LogPatterns

/-!
What the log view hides: the lines of `JsonFormatter` after `_redact_log_line`.

* `redactLogLine_eq_iff`: values of a sensitive key that are hidden give the same line, if the key
  keeps its quotation mark; a value that is not hidden gives another line.
* `quote_shown`: what follows an escaped quotation mark is shown.
-/

namespace Ecube.LogRedaction

open PosixPath FileFailures Substitution

/-! ### The lines -/

/-- A text in a JSON text, with its lone surrogates. -/
def escapes (text : List PathChar) : Str :=
  text.flatMap fun
    | .char c => Json.escape c
    | .surrogate n => Json.unicodeEscape (0xd800 + n)

def quoted (text : List PathChar) : Str := '"' :: (escapes text ++ ['"'])

/-- A value, after `default=str`. -/
inductive Value where
  | null
  | bool (b : Bool)
  | number (text : Str)
  | str (text : List PathChar)
  | arr (items : List Value)
  | obj (members : List (List PathChar × Value))

def commas (texts : List Str) : Str := List.intercalate ", ".toList texts

mutual

/-- `json.dumps(value)`. -/
def dumps : Value → Str
  | .null => "null".toList
  | .bool b => if b then "true".toList else "false".toList
  | .number text => text
  | .str text => quoted text
  | .arr items => '[' :: (commas (dumpItems items) ++ [']'])
  | .obj members => '\x7b' :: (commas (dumpMembers members) ++ ['\x7d'])

def dumpItems : List Value → List Str
  | [] => []
  | v :: items => dumps v :: dumpItems items

def dumpMembers : List (List PathChar × Value) → List Str
  | [] => []
  | (key, v) :: members => (quoted key ++ ": ".toList ++ dumps v) :: dumpMembers members

end

def text (s : String) : List PathChar := s.toList.map .char

abbrev Fields := List (List PathChar × Value)

structure LogRecord where
  /-- made of `record.created` -/
  timestamp : List PathChar
  levelname : List PathChar
  name : List PathChar
  /-- `record.getMessage()` -/
  message : List PathChar
  /-- `record.__dict__` -/
  fields : Fields

/-- The attributes of every record. -/
def builtinAttrs : List String :=
  ["name", "msg", "args", "levelname", "levelno", "pathname", "filename", "module", "exc_info",
    "exc_text", "stack_info", "lineno", "funcName", "created", "msecs", "relativeCreated",
    "thread", "threadName", "processName", "process", "taskName"]

def notExtra : List (List PathChar) :=
  (builtinAttrs ++ ["message", "trace_id", "user_id", "asctime"]).map text

/-- `_record_extra_fields`. -/
def recordExtraFields (fields : Fields) : Fields := fields.filter fun field => field.1 ∉ notExtra

/-- `getattr(record, name, None)`, when it is not `None`. -/
def getattr (fields : Fields) (name : String) : Option Value :=
  match fields.lookup (text name) with
  | some .null => none
  | found => found

/-- The members before the extra fields. -/
def LogRecord.common (record : LogRecord) : Fields :=
  [(text "timestamp", .str record.timestamp), (text "level", .str record.levelname),
    (text "module", .str record.name), (text "message", .str record.message)] ++
  (getattr record.fields "trace_id").toList.map (text "trace_id", ·) ++
  (getattr record.fields "user_id").toList.map (text "user_id", ·)

/-- `JsonFormatter.format`. -/
def format (record : LogRecord) : Str :=
  let extra := recordExtraFields record.fields
  dumps (.obj (record.common ++ if extra = [] then [] else [(text "extra", .obj extra)]))

/-! ### A field in a line -/

/-- A field with a text, up to what follows the quotation mark before the text. -/
def fieldOf (key tail : Str) : Str := '"' :: (key ++ '"' :: ':' :: ' ' :: '"' :: tail)

/-- The members before a field. -/
def leading (fields : Fields) : Str := (dumpMembers fields).flatMap (· ++ ", ".toList)

/-- The members behind a field. -/
def trailing (fields : Fields) : Str := (dumpMembers fields).flatMap (", ".toList ++ ·)

/-- A line up to an extra field that stands behind these fields. -/
def LogRecord.lead (record : LogRecord) (before : Fields) : Str :=
  '\x7b' :: (leading record.common ++ "\"extra\": \x7b".toList ++
    leading (recordExtraFields before))

def LogRecord.insert (record : LogRecord) (before after : Fields) (key value : List PathChar) :
    LogRecord :=
  { record with fields := before ++ (key, .str value) :: after }

/-- A text that is a sensitive word. -/
def Sensitive (key : Str) : Prop := eatWord key = some []

theorem dumpMembers_append (front back : Fields) :
    dumpMembers (front ++ back) = dumpMembers front ++ dumpMembers back := by
  induction front with
  | nil => rfl
  | cons field front ih => rw [List.cons_append, dumpMembers, dumpMembers, ih, List.cons_append]

theorem commas_middle (front : List Str) (middle : Str) (back : List Str) :
    commas (front ++ middle :: back) =
      front.flatMap (· ++ ", ".toList) ++ middle ++ back.flatMap (", ".toList ++ ·) := by
  have behind : ∀ middle, commas (middle :: back) = middle ++ back.flatMap (", ".toList ++ ·) := by
    induction back with
    | nil => simp [commas]
    | cons text back ih =>
        intro middle
        have step : commas (middle :: text :: back) =
            middle ++ ", ".toList ++ commas (text :: back) := List.intercalate_cons_cons
        rw [step, ih, List.flatMap_cons]
        simp only [List.append_assoc]
  induction front with
  | nil => exact behind middle
  | cons text front ih =>
      have some_ : front ++ middle :: back ≠ [] := by simp
      have step : commas (text :: (front ++ middle :: back)) =
          text ++ ", ".toList ++ commas (front ++ middle :: back) :=
        List.intercalate_cons_of_ne_nil some_
      rw [List.cons_append, step, ih, List.flatMap_cons]
      simp only [List.append_assoc]

theorem dumps_middle (front : Fields) (key : List PathChar) (v : Value) (back : Fields) :
    dumps (.obj (front ++ (key, v) :: back)) =
      '\x7b' :: (leading front ++ (quoted key ++ ": ".toList ++ dumps v) ++ trailing back ++
        ['\x7d']) := by
  rw [dumps, dumpMembers_append, dumpMembers, commas_middle]
  rfl

theorem not_mem_notExtra {key : List PathChar} (sensitive : Sensitive (escapes key)) :
    key ∉ notExtra := by
  have others : ∀ name ∈ notExtra, eatWord (escapes name) ≠ some [] := by decide +kernel
  exact fun mem => others key mem sensitive

theorem recordExtraFields_insert {key : List PathChar} (sensitive : Sensitive (escapes key))
    (before : Fields) (v : Value) (after : Fields) :
    recordExtraFields (before ++ (key, v) :: after) =
      recordExtraFields before ++ (key, v) :: recordExtraFields after := by
  rw [recordExtraFields, List.filter_append, List.filter_cons_of_pos]
  · rfl
  · simpa using not_mem_notExtra sensitive

theorem getattr_insert {key : List PathChar} (sensitive : Sensitive (escapes key))
    {name : String} (mem : text name ∈ notExtra) (before : Fields) (v : Value) (after : Fields) :
    getattr (before ++ (key, v) :: after) name = getattr (before ++ after) name := by
  have other : (text name == key) = false := by
    rw [beq_eq_false_iff_ne]
    rintro rfl
    exact not_mem_notExtra sensitive mem
  rw [getattr, getattr, List.lookup_append, List.lookup_append, List.lookup_cons, other]

/-- The field in its line. -/
theorem format_insert (record : LogRecord) {key : List PathChar}
    (sensitive : Sensitive (escapes key)) (before after : Fields) (value : List PathChar) :
    format (record.insert before after key value) =
      { record with fields := before ++ after }.lead before ++
        fieldOf (escapes key)
          (escapes value ++ '"' :: (trailing (recordExtraFields after) ++ ['\x7d', '\x7d'])) := by
  have common : (record.insert before after key value).common =
      { record with fields := before ++ after }.common := by
    simp only [LogRecord.common, LogRecord.insert]
    rw [getattr_insert sensitive (by decide), getattr_insert sensitive (by decide)]
  have fields : (record.insert before after key value).fields =
      before ++ (key, .str value) :: after := rfl
  rw [format, fields, recordExtraFields_insert sensitive, if_neg (by simp), common, dumps_middle,
    dumps_middle, LogRecord.lead]
  simp [trailing, dumpMembers, dumps, quoted, fieldOf, escapes, text, Json.escape,
    Json.shortEscape]

/-! ### The patterns in a line -/

theorem foreign_not_mem {key : Str} (sensitive : Sensitive key) {c : Char} (foreign : Foreign c) :
    c ∉ key := by
  obtain ⟨front, rfl, -, others⟩ := exists_of_eatWord sensitive
  rw [List.append_nil]
  exact others c foreign

theorem unsigned_of_sensitive {key : Str} (sensitive : Sensitive key) : Unsigned key := by
  intro c mem sign
  rcases List.mem_pair.mp sign with rfl | rfl
  · exact foreign_not_mem sensitive foreign_colon mem
  · exact foreign_not_mem sensitive (foreign_frame (by decide)) mem

theorem unsigned_extra : Unsigned "extra".toList := List.all_iff_forall_prop.mp (by decide)

/-- What can stand between a comma and the key of an extra field. -/
def glues : List Str := [" ".toList, " \"extra\": \x7b".toList]

/-- A text that ends in a comma and one of these. -/
def Leads (lead : Str) : Prop := ∃ before, ∃ glue ∈ glues, lead = before ++ ',' :: glue

theorem leading_of_ne_nil {fields : Fields} (some_ : fields ≠ []) :
    ∃ before, leading fields = before ++ [',', ' '] := by
  obtain ⟨front, ⟨key, v⟩, rfl⟩ := (List.eq_nil_or_concat' fields).resolve_left some_
  refine ⟨leading front ++ (quoted key ++ ": ".toList ++ dumps v), ?_⟩
  rw [leading, dumpMembers_append, List.flatMap_append]
  simp [leading, dumpMembers]

theorem leads_lead (record : LogRecord) (before : Fields) : Leads (record.lead before) := by
  rw [LogRecord.lead]
  by_cases none_ : recordExtraFields before = []
  · have some_ : record.common ≠ [] := by simp [LogRecord.common]
    obtain ⟨init, ends⟩ := leading_of_ne_nil some_
    refine ⟨'\x7b' :: init, _, List.mem_cons_of_mem _ List.mem_cons_self, ?_⟩
    rw [none_, ends]
    simp [leading, dumpMembers]
  · obtain ⟨init, ends⟩ := leading_of_ne_nil none_
    refine ⟨'\x7b' :: (leading record.common ++ "\"extra\": \x7b".toList ++ init), _,
      List.mem_cons_self, ?_⟩
    rw [ends]
    simp

namespace Header

variable {header : Option Char → Str → Option (Str × Str)} (h : Header header) (mark : String)
include h

theorem sub_glue {glue : Str} (mem : glue ∈ glues) (prev : Option Char) (y : Str) :
    sub (credential header mark) 0 prev (glue ++ y) =
      glue ++ sub (credential header mark) 0 (last prev glue) y := by
  rcases List.mem_pair.mp mem with rfl | rfl
  · exact h.sub_foreign mark foreign_blank prev y
  · change sub _ 0 prev (' ' :: '"' :: ("extra".toList ++ '"' :: ':' :: ' ' :: '\x7b' :: y)) =
      ' ' :: '"' :: ("extra".toList ++ '"' :: ':' :: ' ' :: '\x7b' :: _)
    rw [h.sub_foreign mark foreign_blank, h.sub_foreign mark stop_quote.foreign,
      h.sub_name mark unsigned_extra, h.sub_foreign mark foreign_colon,
      h.sub_foreign mark foreign_blank, h.sub_foreign mark stop_brace.foreign]
    rfl

/-- The first two patterns change a line part by part. -/
theorem sub_lead {before glue : Str} (mem : glue ∈ glues) (y : Str) :
    sub (credential header mark) 0 none (before ++ ',' :: glue ++ y) =
      sub (credential header mark) 0 none before ++ ',' :: glue ++
        sub (credential header mark) 0 (last (some ',') glue) y := by
  rw [List.append_assoc, List.cons_append, h.sub_comma mark, h.sub_glue mark mem,
    List.append_assoc, List.cons_append]

theorem leads_sub {lead : Str} (leads : Leads lead) :
    Leads (sub (credential header mark) 0 none lead) := by
  obtain ⟨before, glue, mem, rfl⟩ := leads
  have whole : sub (credential header mark) 0 none (before ++ ',' :: glue ++ []) = _ :=
    h.sub_lead mark mem []
  rw [List.append_nil, sub, List.append_nil] at whole
  exact ⟨_, glue, mem, whole⟩

theorem sub_line {lead key : Str} (leads : Leads lead) (sensitive : Sensitive key) (tail : Str) :
    sub (credential header mark) 0 none (lead ++ fieldOf key tail) =
      sub (credential header mark) 0 none lead ++
        fieldOf key (sub (credential header mark) 0 (some '"') tail) := by
  have field : ∀ prev, sub (credential header mark) 0 prev (fieldOf key tail) =
      fieldOf key (sub (credential header mark) 0 (some '"') tail) := by
    intro prev
    rw [fieldOf, h.sub_foreign mark stop_quote.foreign,
      h.sub_name mark (unsigned_of_sensitive sensitive), h.sub_foreign mark foreign_colon,
      h.sub_foreign mark foreign_blank, h.sub_foreign mark stop_quote.foreign, fieldOf]
  obtain ⟨before, glue, mem, rfl⟩ := leads
  have whole : sub (credential header mark) 0 none (before ++ ',' :: glue ++ []) = _ :=
    h.sub_lead mark mem []
  rw [List.append_nil, sub, List.append_nil] at whole
  rw [h.sub_lead mark mem, field, whole]

end Header

/-- Before the key it does not matter what follows the quotation mark. -/
theorem fieldPattern_lead {lead : Str} (leads : Leads lead) {s : Str} (some_ : s ≠ [])
    (within : s <:+ lead) (prev : Option Char) (y : Str) :
    fieldPattern prev (s ++ '"' :: y) = fieldPattern prev (s ++ ['"']) := by
  obtain ⟨before, glue, mem, rfl⟩ := leads
  rcases List.mem_pair.mp mem with rfl | rfl
  · exact fieldPattern_blanks stop_comma (by decide) before (.inr rfl) some_ within prev y
  · refine fieldPattern_blanks stop_brace (by decide) (before ++ ", \"extra\": ".toList)
      (.inl rfl) some_ ?_ prev y
    rw [List.append_assoc]
    exact within

/-- No match before the key reaches the key's quotation mark. -/
def Closed (lead : Str) : Prop := (scan fieldPattern ['"'] 0 none lead).2 = 0

/-- What the third pattern leaves before the key. -/
def frontOf (lead : Str) : Str := (scan fieldPattern ['"'] 0 none lead).1

theorem scan_lead {lead : Str} (leads : Leads lead) (y : Str) :
    scan fieldPattern ('"' :: y) 0 none lead = scan fieldPattern ['"'] 0 none lead :=
  scan_congr fun _ some_ within prev => fieldPattern_lead leads some_ within prev y

theorem sub_closed {lead : Str} (leads : Leads lead) (closed : Closed lead) (y : Str) :
    sub fieldPattern 0 none (lead ++ '"' :: y) =
      frontOf lead ++ sub fieldPattern 0 none ('"' :: y) := by
  rw [sub_append, scan_lead leads, closed, frontOf, sub_fieldPattern_prev]

/-- A match that reaches the key's quotation mark ends with it. -/
theorem sub_opened {lead : Str} (leads : Leads lead) (opened : ¬Closed lead) (y : Str) :
    sub fieldPattern 0 none (lead ++ '"' :: y) = frontOf lead ++ sub fieldPattern 0 none y := by
  have within : (scan fieldPattern ['"'] 0 none lead).2 ≤ 1 :=
    scan_snd_le fieldPattern_length_le (Nat.zero_le _) none
  have one : (scan fieldPattern ['"'] 0 none lead).2 = 1 := by
    rw [Closed] at opened
    omega
  rw [sub_append, scan_lead leads, one, frontOf, sub, sub_fieldPattern_prev]

theorem fieldHeader_fieldOf {key : Str} (sensitive : Sensitive key) (tail : Str) :
    fieldHeader (fieldOf key tail) = some tail := by
  have eaten : eatWord (key ++ '"' :: ':' :: ' ' :: '"' :: tail) =
      some ('"' :: ':' :: ' ' :: '"' :: tail) := by
    rw [eatWord_append stop_quote, show eatWord key = some [] from sensitive]
    rfl
  simp only [fieldOf, fieldHeader, oneOf, List.mem_singleton, if_true, Option.bind_eq_bind,
    Option.bind_some, eaten]
  rfl

/-- The third pattern hides a text up to its first quotation mark. -/
theorem sub_fieldOf {key : Str} (sensitive : Sensitive key) {content : Str} (some_ : content ≠ [])
    (quoteless : '"' ∉ content) (rest : Str) :
    sub fieldPattern 0 none (fieldOf key (content ++ '"' :: rest)) =
      fieldOf key ("[REDACTED]\"".toList ++ sub fieldPattern 0 none rest) := by
  have inside : content.takeWhile (· ≠ '"') = content :=
    List.takeWhile_eq_self_iff.mpr fun c mem => by
      simpa using fun same : c = '"' => quoteless (same ▸ mem)
  have parts : ∀ z, fieldOf key (content ++ z) =
      ('"' :: (key ++ "\": \"".toList) ++ content) ++ z := by
    intro z
    simp [fieldOf]
  have found := fieldPattern_append content
    (by rw [← parts]; exact fieldHeader_fieldOf sensitive (content ++ '"' :: rest)) none
  rw [inside, if_neg some_, List.length_append, Nat.add_sub_cancel, List.take_left] at found
  rw [parts, List.cons_append, List.cons_append, sub]
  rw [List.cons_append, List.cons_append] at found
  rw [found]
  dsimp only
  have later : key ++ "\": \"".toList ++ content ++ '"' :: rest =
      (key ++ "\": \"".toList ++ content ++ ['"']) ++ rest := by simp
  have length : ('"' :: (key ++ "\": \"".toList)).length + content.length + 1 - 1 =
      (key ++ "\": \"".toList ++ content ++ ['"']).length := by
    simp only [List.length_append, List.length_cons, List.length_nil]
    omega
  rw [length, later, sub_append, scan_of_le le_rfl, Nat.sub_self, sub_fieldPattern_prev]
  simp [fieldOf]

/-! ### Values -/

section Values

variable (isAlnum : Char → Bool)

/-- What the first two patterns leave of a value, when no match reaches its quotation mark. -/
def content (value : Str) : Str :=
  (scan (assignmentPattern isAlnum) ['"'] 0 (some '"')
    (scan authorizationPattern ['"'] 0 (some '"') value).1).1

/-- The third pattern finds the value as a whole: after the first two it still has its closing
quotation mark, and none before it. -/
structure Hidden (value : Str) : Prop where
  authorization : (scan authorizationPattern ['"'] 0 (some '"') value).2 = 0
  assignment : (scan (assignmentPattern isAlnum) ['"'] 0 (some '"')
    (scan authorizationPattern ['"'] 0 (some '"') value).1).2 = 0
  quoteless : '"' ∉ content isAlnum value

/-- What the first two patterns make of a text. -/
def redactCredentials (prev : Option Char) (s : Str) : Str :=
  sub (assignmentPattern isAlnum) 0 prev (sub authorizationPattern 0 prev s)

variable {isAlnum}

theorem content_ne_nil {value : Str} (some_ : value ≠ []) : content isAlnum value ≠ [] :=
  scan_ne_nil (replaces_credential (by decide))
    (scan_ne_nil (replaces_credential (by decide)) some_ _) _

/-- The first two patterns change a line part by part. -/
theorem redactCredentials_line {lead key : Str} (leads : Leads lead) (sensitive : Sensitive key)
    (tail : Str) :
    redactCredentials isAlnum none (lead ++ fieldOf key tail) =
      redactCredentials isAlnum none lead ++
        fieldOf key (redactCredentials isAlnum (some '"') tail) := by
  have first : sub authorizationPattern 0 none (lead ++ fieldOf key tail) =
      sub authorizationPattern 0 none lead ++
        fieldOf key (sub authorizationPattern 0 (some '"') tail) :=
    header_authorization.sub_line _ leads sensitive tail
  rw [redactCredentials, first]
  exact (header_assignment isAlnum).sub_line _ (header_authorization.leads_sub _ leads) sensitive _

theorem leads_redactCredentials {lead : Str} (leads : Leads lead) :
    Leads (redactCredentials isAlnum none lead) :=
  (header_assignment isAlnum).leads_sub _ (header_authorization.leads_sub _ leads)

theorem redactCredentials_hidden {value : Str} (hidden : Hidden isAlnum value) (after : Str) :
    redactCredentials isAlnum (some '"') (value ++ '"' :: after) =
      content isAlnum value ++ '"' :: redactCredentials isAlnum (some '"') after := by
  have first : sub authorizationPattern 0 (some '"') (value ++ '"' :: after) =
      (scan authorizationPattern ['"'] 0 (some '"') value).1 ++
        '"' :: sub authorizationPattern 0 (some '"') after :=
    header_authorization.sub_value _ hidden.authorization after
  rw [redactCredentials, first]
  exact (header_assignment isAlnum).sub_value _ hidden.assignment _

end Values

/-! ### Values that are not hidden -/

/-- What follows an extra field: the end of the line, or another field. -/
def Followed (after : Str) : Prop :=
  after = ['\x7d', '\x7d'] ∨ ∃ t, after = ',' :: ' ' :: '"' :: t

/-- What is left of it by a match that takes the quotation mark before it. -/
def behind (after : Str) : Str := if after = ['\x7d', '\x7d'] then [] else after

namespace Header

variable {header : Option Char → Str → Option (Str × Str)} (h : Header header) (mark : String)
include h

theorem sub_followed {after : Str} (followed : Followed after) (prev : Option Char) :
    Followed (sub (credential header mark) 0 prev after) := by
  rcases followed with rfl | ⟨t, rfl⟩
  · rw [h.sub_foreign mark foreign_close, h.sub_foreign mark foreign_close]
    exact .inl rfl
  · rw [h.sub_foreign mark stop_comma.foreign, h.sub_foreign mark foreign_blank,
      h.sub_foreign mark stop_quote.foreign]
    exact .inr ⟨_, rfl⟩

/-- The change of a text without its quotation mark, in front of what follows. -/
theorem sub_append_behind {after : Str} (followed : Followed after) (shown : Str) :
    sub (credential header mark) 0 (some '"') (shown ++ behind after) =
      sub (credential header mark) 0 (some '"') shown ++
        behind (sub (credential header mark) 0 (some '"') after) := by
  rcases followed with rfl | ⟨t, rfl⟩
  · rw [h.sub_foreign mark foreign_close, h.sub_foreign mark foreign_close, behind, if_pos rfl,
      sub, behind, if_pos rfl, List.append_nil, List.append_nil]
  · rw [behind, if_neg (by simp), h.sub_comma mark, h.sub_foreign mark stop_comma.foreign, behind,
      if_neg (by simp)]

/-- A match over the end of a value takes its quotation mark away. -/
theorem sub_value_over {value after : Str}
    (beyond : (scan (credential header mark) ['"'] 0 (some '"') value).2 ≠ 0)
    (followed : Followed after) :
    sub (credential header mark) 0 (some '"') (value ++ '"' :: after) =
      (scan (credential header mark) ['"'] 0 (some '"') value).1 ++
        behind (sub (credential header mark) 0 (some '"') after) := by
  obtain ⟨-, alike⟩ := h.scan_over mark (Nat.zero_le _) (some '"') beyond
  rw [sub_append, alike, Nat.add_comm, sub]
  rcases followed with rfl | ⟨t, rfl⟩
  · rw [h.sub_foreign mark foreign_close, h.sub_foreign mark foreign_close]
    rfl
  · have stops : run (',' :: ' ' :: '"' :: t) = [] := rfl
    rw [stops, List.length_nil, h.sub_foreign mark stop_comma.foreign, behind,
      if_neg (by simp)]

end Header

section Shown

variable {isAlnum : Char → Bool}

/-- Of a value that is not hidden a guarded text is left, with a quotation mark in it or without
the one at its end. -/
theorem redactCredentials_shown {value after : Str} (some_ : value ≠ [])
    (guarded : Guarded (some '"') value) (followed : Followed after)
    (open_ : ¬Hidden isAlnum value) :
    ∃ shown, Guarded (some '"') shown ∧ shown ≠ [] ∧
      (redactCredentials isAlnum (some '"') (value ++ '"' :: after) =
          shown ++ '"' :: redactCredentials isAlnum (some '"') after ∧ '"' ∈ shown ∨
        redactCredentials isAlnum (some '"') (value ++ '"' :: after) =
          shown ++ behind (redactCredentials isAlnum (some '"') after) ∧
            ∃ front, shown = front ++ [']']) := by
  have h₁ := header_authorization
  have h₂ := header_assignment isAlnum
  have some₁ : (scan authorizationPattern ['"'] 0 (some '"') value).1 ≠ [] :=
    scan_ne_nil (replaces_credential (by decide)) some_ _
  have guarded₁ : Guarded (some '"') (scan authorizationPattern ['"'] 0 (some '"') value).1 :=
    h₁.guarded_scan _ (by decide) ['"'] guarded (.inl ⟨rfl, rfl⟩)
  by_cases first : (scan authorizationPattern ['"'] 0 (some '"') value).2 = 0
  · have step : sub authorizationPattern 0 (some '"') (value ++ '"' :: after) =
        (scan authorizationPattern ['"'] 0 (some '"') value).1 ++
          '"' :: sub authorizationPattern 0 (some '"') after := h₁.sub_value _ first after
    have followed₁ : Followed (sub authorizationPattern 0 (some '"') after) :=
      h₁.sub_followed _ followed _
    refine ⟨content isAlnum value,
      h₂.guarded_scan _ (by decide) ['"'] guarded₁ (.inl ⟨rfl, rfl⟩), content_ne_nil some_, ?_⟩
    by_cases second : (scan (assignmentPattern isAlnum) ['"'] 0 (some '"')
        (scan authorizationPattern ['"'] 0 (some '"') value).1).2 = 0
    · left
      constructor
      · rw [redactCredentials, step]
        exact h₂.sub_value _ second _
      · by_contra absent
        exact open_ ⟨first, second, absent⟩
    · right
      constructor
      · rw [redactCredentials, step]
        exact h₂.sub_value_over _ second followed₁
      · obtain ⟨⟨kept, ends⟩, -⟩ := h₂.scan_over _ (Nat.zero_le _) (some '"') second
        exact ⟨kept ++ "[REDACTED".toList, ends.trans (by simp)⟩
  · have step : sub authorizationPattern 0 (some '"') (value ++ '"' :: after) =
        (scan authorizationPattern ['"'] 0 (some '"') value).1 ++
          behind (sub authorizationPattern 0 (some '"') after) :=
      h₁.sub_value_over _ first followed
    obtain ⟨⟨kept, ends⟩, -⟩ := h₁.scan_over _ (Nat.zero_le _) (some '"') first
    have bracket : (scan authorizationPattern ['"'] 0 (some '"') value).1 =
        (kept ++ " [REDACTED".toList) ++ [']'] := ends.trans (by simp)
    obtain ⟨front, shown⟩ := h₂.sub_ends "[REDACTED]" ⟨"[REDACTED".toList, rfl⟩ (some '"')
      (Nat.zero_le (kept ++ " [REDACTED".toList).length)
    rw [← bracket] at shown
    refine ⟨_, h₂.guarded_sub "[REDACTED]" (by decide) guarded₁, ?_, .inr ⟨?_, front, shown⟩⟩
    · rw [shown]
      simp
    · rw [redactCredentials, step]
      exact h₂.sub_append_behind _ (h₁.sub_followed _ followed _) _

/-- What is left of a text that ends with its quotation mark, or without it. -/
theorem sub_shown {prev : Option Char} {shown after : Str} (guarded : Guarded prev shown)
    (followed : Followed after) :
    sub fieldPattern 0 none (shown ++ '"' :: after) =
      shown ++ '"' :: sub fieldPattern 0 none after := by
  have stops : ∀ c t, Foreign c → isSpace c = false → c ≠ ':' →
      sub fieldPattern 0 none (shown ++ '"' :: c :: t) =
        shown ++ '"' :: sub fieldPattern 0 none (c :: t) := by
    intro c t foreign space colon
    have none_ : fieldHeader ('"' :: c :: t) = none := by
      simp [fieldHeader, oneOf, eatWord_cons_of_foreign foreign]
    rw [sub_guarded guarded (.inr (.inr ⟨c, t, rfl, space, colon⟩)), sub, fieldPattern, none_]
    dsimp only
    rw [sub_fieldPattern_prev]
  rcases followed with rfl | ⟨t, rfl⟩
  · exact stops _ _ foreign_close (by decide) (by decide)
  · exact stops _ _ stop_comma.foreign (by decide) (by decide)

theorem sub_behind {prev : Option Char} {shown after : Str} (guarded : Guarded prev shown)
    (followed : Followed after) :
    sub fieldPattern 0 none (shown ++ behind after) =
      shown ++ behind (sub fieldPattern 0 none after) := by
  rcases followed with rfl | ⟨t, rfl⟩
  · rw [sub_of_count (s := ['\x7d', '\x7d']) (by decide), behind, if_pos rfl]
    exact sub_guarded guarded (.inl rfl)
  · have head : sub fieldPattern 0 none (',' :: ' ' :: '"' :: t) =
        ',' :: sub fieldPattern 0 (some ',') (' ' :: '"' :: t) := rfl
    rw [behind, if_neg (by simp), sub_guarded guarded (.inr (.inl ⟨_, rfl⟩)), head, behind,
      if_neg (by simp)]

theorem behind_ne {front shown y : Str} (ends : ∃ front, shown = front ++ [']']) :
    shown ++ behind y ≠ front ++ '"' :: y := by
  obtain ⟨shown, rfl⟩ := ends
  intro same
  rw [behind] at same
  split at same
  next close =>
    subst close
    have lasts := congrArg List.getLast? same
    simp at lasts
  next =>
    have lasts := congrArg List.getLast? (List.append_cancel_right (same.trans
      (List.append_cons front '"' y)))
    simp at lasts

/-- The quotation mark of the next field is not passed over. -/
theorem sub_next_ne (t : Str) :
    sub fieldPattern 0 none t ≠ sub fieldPattern 0 none (',' :: ' ' :: '"' :: t) := by
  have next : sub fieldPattern 0 none (',' :: ' ' :: '"' :: t) =
      ',' :: ' ' :: sub fieldPattern 0 none ('"' :: t) := rfl
  rw [next]
  intro same
  cases found : fieldPattern none ('"' :: t) with
  | none =>
      have kept : sub fieldPattern 0 none ('"' :: t) = '"' :: sub fieldPattern 0 none t := by
        rw [sub, found]
        exact congrArg ('"' :: ·) (sub_fieldPattern_prev (some '"') t)
      rw [kept] at same
      have lengths := congrArg List.length same
      simp only [List.length_cons] at lengths
      omega
  | some match_ =>
      -- a match begins with a letter, and is not passed over by what replaces it
      rw [fieldPattern] at found
      cases header : fieldHeader ('"' :: t) with
      | none =>
          rw [header] at found
          cases found
      | some rest =>
          simp only [fieldHeader, Option.bind_eq_bind, Option.bind_eq_some_iff] at header
          obtain ⟨_, first, later, eaten, -⟩ := header
          obtain ⟨_, -, whole⟩ := mem_of_oneOf first
          cases whole
          obtain ⟨front, rfl, some_, others⟩ := exists_of_eatWord eaten
          cases front with
          | nil => exact some_ rfl
          | cons d front =>
              have quote : d ≠ '"' := by
                rintro rfl
                exact others '"' stop_quote.foreign List.mem_cons_self
              have none_ : fieldHeader (d :: (front ++ later)) = none := by
                simp [fieldHeader, oneOf, quote]
              rw [List.cons_append, sub, fieldPattern, none_] at same
              have comma : d = ',' := (List.cons.inj same).1
              exact others ',' stop_comma.foreign (comma ▸ List.mem_cons_self)

/-- A value that is not hidden leaves another line than one that is. -/
theorem sub_fieldOf_ne {key shown after : Str} (sensitive : Sensitive key)
    (guarded : Guarded (some '"') shown) (some_ : shown ≠ []) (followed : Followed after)
    {tail : Str} (shows : tail = shown ++ '"' :: after ∧ '"' ∈ shown ∨
      tail = shown ++ behind after ∧ ∃ front, shown = front ++ [']']) :
    sub fieldPattern 0 none (fieldOf key tail) ≠
      fieldOf key ("[REDACTED]\"".toList ++ sub fieldPattern 0 none after) := by
  have cancel : ∀ {a b : Str}, fieldOf key a = fieldOf key b → a = b := fun same => by
    simpa [fieldOf] using same
  -- the third pattern hides what stands before the first quotation mark
  have rest_ne : ∀ front rest : Str, front ≠ [] → '"' ∉ front →
      sub fieldPattern 0 none rest ≠ sub fieldPattern 0 none after →
      sub fieldPattern 0 none (fieldOf key (front ++ '"' :: rest)) ≠
        fieldOf key ("[REDACTED]\"".toList ++ sub fieldPattern 0 none after) := by
    intro front rest first quoteless differ same
    rw [sub_fieldOf sensitive first quoteless] at same
    exact differ (List.append_cancel_left (cancel same))
  by_cases quote : '"' ∈ shown
  · obtain ⟨front, back, rfl, quoteless⟩ := List.eq_append_cons_of_mem quote
    obtain ⟨-, -, guardedBack⟩ := guarded_append.mp guarded
    have first : front ≠ [] := by
      rintro rfl
      have guard := guarded.1 rfl
      cases guard
    rcases shows with ⟨rfl, -⟩ | ⟨rfl, ends⟩
    · rw [List.append_assoc]
      refine rest_ne front (back ++ '"' :: after) first quoteless ?_
      rw [sub_shown guardedBack followed]
      intro same
      have lengths := congrArg List.length same
      rw [List.length_append, List.length_cons] at lengths
      omega
    · rw [List.append_assoc]
      refine rest_ne front (back ++ behind after) first quoteless ?_
      rw [sub_behind guardedBack followed]
      intro same
      have differ : front ++ '"' :: back ++ behind (sub fieldPattern 0 none after) ≠
          front ++ '"' :: sub fieldPattern 0 none after := behind_ne ends
      rw [List.append_assoc, List.cons_append, same] at differ
      exact differ rfl
  · obtain ⟨rfl, -⟩ := shows.resolve_left fun shown => quote shown.2
    rcases followed with rfl | ⟨t, rfl⟩
    · rw [sub_of_count]
      · intro same
        rw [behind, if_pos rfl, List.append_nil] at same
        exact quote (cancel same ▸ by simp)
      · have none_ := List.count_eq_zero_of_not_mem quote
        have names := List.count_eq_zero_of_not_mem
          (foreign_not_mem sensitive stop_quote.foreign)
        simp [behind, fieldOf, none_, names]
    · have parts : shown ++ behind (',' :: ' ' :: '"' :: t) =
          (shown ++ [',', ' ']) ++ '"' :: t := by
        rw [behind, if_neg (by simp), List.append_assoc]
        rfl
      rw [parts]
      exact rest_ne _ _ (by simp) (by simp [quote]) (sub_next_ne t)

/-- Behind a key without its quotation mark the whole value is shown. -/
theorem sub_field_opened {key : Str} (sensitive : Sensitive key) (tail : Str) :
    sub fieldPattern 0 none (key ++ '"' :: ':' :: ' ' :: '"' :: tail) =
      key ++ '"' :: ':' :: ' ' :: sub fieldPattern 0 none ('"' :: tail) := by
  have unmatched : ∀ t, t ≠ [] → t <:+ key → ∀ prev,
      fieldPattern prev (t ++ '"' :: ':' :: ' ' :: '"' :: tail) = none := by
    intro t some_ within prev
    cases t with
    | nil => exact absurd rfl some_
    | cons c t =>
        have quote : c ≠ '"' := by
          rintro rfl
          exact foreign_not_mem sensitive stop_quote.foreign (within.subset List.mem_cons_self)
        simp [fieldPattern, fieldHeader, oneOf, quote]
  have none_ : fieldHeader ('"' :: ':' :: ' ' :: '"' :: tail) = none := by
    simp [fieldHeader, oneOf, eatWord_cons_of_foreign foreign_colon]
  rw [sub_append, scan_of_unmatched unmatched, sub, fieldPattern, none_]
  dsimp only
  rw [← sub_fieldPattern_prev (some ' ')]
  rfl

theorem sub_field_opened_hidden {value after : Str} (quoteless : '"' ∉ value)
    (followed : Followed after) :
    sub fieldPattern 0 none ('"' :: (value ++ '"' :: after)) =
      '"' :: value ++ '"' :: sub fieldPattern 0 none after := by
  have guarded : Guarded (some '\\') ('"' :: value) :=
    ⟨fun _ => rfl, guarded_of_not_mem quoteless⟩
  exact sub_shown guarded followed

theorem sub_field_opened_ne {value shown after : Str} (quoteless : '"' ∉ value)
    (guarded : Guarded (some '"') shown) (followed : Followed after)
    {tail : Str} (shows : tail = shown ++ '"' :: after ∧ '"' ∈ shown ∨
      tail = shown ++ behind after ∧ ∃ front, shown = front ++ [']']) :
    sub fieldPattern 0 none ('"' :: tail) ≠
      '"' :: value ++ '"' :: sub fieldPattern 0 none after := by
  have guarded' : Guarded (some '\\') ('"' :: shown) := ⟨fun _ => rfl, guarded⟩
  rcases shows with ⟨rfl, quote⟩ | ⟨rfl, front, rfl⟩
  · have kept : sub fieldPattern 0 none ('"' :: (shown ++ '"' :: after)) =
        '"' :: shown ++ '"' :: sub fieldPattern 0 none after := sub_shown guarded' followed
    rw [kept]
    intro same
    have whole : '"' :: shown = '"' :: value := List.append_cancel_right same
    cases whole
    exact quoteless quote
  · have kept : sub fieldPattern 0 none ('"' :: (front ++ [']'] ++ behind after)) =
        '"' :: (front ++ [']']) ++ behind (sub fieldPattern 0 none after) :=
      sub_behind guarded' followed
    rw [kept]
    exact behind_ne ⟨'"' :: front, rfl⟩

/-- Both values are hidden, and the key keeps its quotation mark or the values differ only in what
the first two patterns replace. -/
def Alike (isAlnum : Char → Bool) (lead v w : Str) : Prop :=
  (Hidden isAlnum v ∧ Hidden isAlnum w) ∧
    (Closed (redactCredentials isAlnum none lead) ∨ content isAlnum v = content isAlnum w)

theorem Alike.symm {lead v w : Str} (alike : Alike isAlnum lead v w) : Alike isAlnum lead w v :=
  ⟨alike.1.symm, alike.2.imp_right Eq.symm⟩

/-- A hidden value and another one give the same line exactly when they are alike. -/
theorem redactLogLine_line_iff {lead key v w after : Str} (leads : Leads lead)
    (sensitive : Sensitive key) (followed : Followed after) (someV : v ≠ []) (someW : w ≠ [])
    (guarded : Guarded (some '"') w) (hidden : Hidden isAlnum v) :
    redactLogLine isAlnum (lead ++ fieldOf key (v ++ '"' :: after)) =
        redactLogLine isAlnum (lead ++ fieldOf key (w ++ '"' :: after)) ↔
      Alike isAlnum lead v w := by
  have leads' : Leads (redactCredentials isAlnum none lead) := leads_redactCredentials leads
  have followed' : Followed (redactCredentials isAlnum (some '"') after) :=
    (header_assignment isAlnum).sub_followed _ (header_authorization.sub_followed _ followed _) _
  have credentials : ∀ tail, redactLogLine isAlnum (lead ++ fieldOf key tail) =
      sub fieldPattern 0 none (redactCredentials isAlnum none lead ++
        fieldOf key (redactCredentials isAlnum (some '"') tail)) := fun tail => by
    rw [← redactCredentials_line leads sensitive]
    rfl
  rw [credentials, credentials, redactCredentials_hidden hidden]
  by_cases closed : Closed (redactCredentials isAlnum none lead)
  · rw [fieldOf, fieldOf, sub_closed leads' closed, sub_closed leads' closed, ← fieldOf,
      ← fieldOf, List.append_right_inj,
      sub_fieldOf sensitive (content_ne_nil someV) hidden.quoteless]
    by_cases both : Hidden isAlnum w
    · rw [redactCredentials_hidden both,
        sub_fieldOf sensitive (content_ne_nil someW) both.quoteless]
      exact iff_of_true rfl ⟨⟨hidden, both⟩, .inl closed⟩
    · obtain ⟨shown, guarded, some_, shows⟩ := redactCredentials_shown someW guarded followed both
      exact iff_of_false (sub_fieldOf_ne sensitive guarded some_ followed' shows).symm
        fun alike => both alike.1.2
  · rw [fieldOf, fieldOf, sub_opened leads' closed, sub_opened leads' closed,
      List.append_right_inj, sub_field_opened sensitive, sub_field_opened sensitive,
      sub_field_opened_hidden hidden.quoteless followed']
    simp only [List.append_right_inj, List.cons.injEq, true_and]
    by_cases both : Hidden isAlnum w
    · rw [redactCredentials_hidden both, sub_field_opened_hidden both.quoteless followed']
      simp [Alike, closed, hidden, both]
    · obtain ⟨shown, guarded, some_, shows⟩ := redactCredentials_shown someW guarded followed both
      exact iff_of_false (sub_field_opened_ne hidden.quoteless guarded followed' shows).symm
        fun alike => both alike.1.2

end Shown

/-! ### The result -/

theorem quote_not_mem_unicodeEscape (n : Nat) : '"' ∉ Json.unicodeEscape n := by
  have digit : ∀ d : Nat, '"' ≠ d.digitChar := by
    intro d
    by_cases small : d < 16
    · have all : ∀ d < 16, '"' ≠ d.digitChar := by decide
      exact all d small
    · rw [Nat.digitChar]
      repeat rw [if_neg (by omega)]
      decide
  simp [Json.unicodeEscape, digit]

theorem guarded_escape (prev : Option Char) (c : Char) : Guarded prev (Json.escape c) := by
  rw [Json.escape]
  cases short : Json.shortEscape c with
  | some e => exact ⟨fun same => absurd same (by decide), fun _ => rfl, trivial⟩
  | none =>
      refine guarded_of_not_mem ?_
      dsimp only
      split
      next =>
        rw [List.mem_singleton]
        rintro rfl
        cases short
      next =>
        split
        next => exact quote_not_mem_unicodeEscape _
        next =>
          rw [List.mem_append, not_or]
          exact ⟨quote_not_mem_unicodeEscape _, quote_not_mem_unicodeEscape _⟩

theorem guarded_escapes (prev : Option Char) (text : List PathChar) :
    Guarded prev (escapes text) := by
  induction text generalizing prev with
  | nil => trivial
  | cons c text ih =>
      rw [escapes, List.flatMap_cons, guarded_append]
      refine ⟨?_, ih _⟩
      cases c with
      | char c => exact guarded_escape prev c
      | surrogate n => exact guarded_of_not_mem (quote_not_mem_unicodeEscape _)

theorem escapes_ne_nil {value : List PathChar} (some_ : value ≠ []) : escapes value ≠ [] := by
  cases value with
  | nil => exact absurd rfl some_
  | cons c value =>
      rw [escapes, List.flatMap_cons]
      refine List.append_ne_nil_of_left_ne_nil ?_ _
      cases c with
      | char c =>
          intro none_
          have read := Json.unescape_escape c []
          rw [show Json.escape c = [] from none_] at read
          cases read
      | surrogate n => exact List.cons_ne_nil _ _

theorem followed_trailing (fields : Fields) : Followed (trailing fields ++ ['\x7d', '\x7d']) := by
  cases fields with
  | nil => exact .inl rfl
  | cons field fields => exact .inr ⟨_, rfl⟩

/-- Two values of a sensitive field that are alike give the same line. Of two that are not, neither
is hidden or the lines differ. -/
theorem redactLogLine_eq_iff (isAlnum : Char → Bool) (record : LogRecord) (before after : Fields)
    {key v w : List PathChar} (sensitive : Sensitive (escapes key)) (someV : v ≠ [])
    (someW : w ≠ []) :
    (Alike isAlnum ({ record with fields := before ++ after }.lead before) (escapes v) (escapes w) →
      redactLogLine isAlnum (format (record.insert before after key v)) =
        redactLogLine isAlnum (format (record.insert before after key w))) ∧
    (Hidden isAlnum (escapes v) ∨ Hidden isAlnum (escapes w) →
      redactLogLine isAlnum (format (record.insert before after key v)) =
        redactLogLine isAlnum (format (record.insert before after key w)) →
      Alike isAlnum ({ record with fields := before ++ after }.lead before)
        (escapes v) (escapes w)) := by
  have leads := leads_lead { record with fields := before ++ after } before
  have followed := followed_trailing (recordExtraFields after)
  have lines_iff : ∀ {v w}, v ≠ [] → w ≠ [] → Hidden isAlnum (escapes v) → _ := fun someV someW =>
    redactLogLine_line_iff leads sensitive followed (escapes_ne_nil someV) (escapes_ne_nil someW)
      (guarded_escapes _ _)
  rw [format_insert record sensitive, format_insert record sensitive]
  refine ⟨fun alike => (lines_iff someV someW alike.1.1).mpr alike, ?_⟩
  rintro (hidden | hidden) same
  · exact (lines_iff someV someW hidden).mp same
  · exact ((lines_iff someW someV hidden).mp same.symm).symm

/-- A value without a quotation mark or a sign of an assignment is hidden. -/
theorem hidden_of_unsigned {isAlnum : Char → Bool} {value : Str} (unsigned : Unsigned value)
    (quoteless : '"' ∉ value) : Hidden isAlnum value := by
  have unmatched : ∀ {header : Option Char → Str → Option (Str × Str)}, Header header →
      ∀ mark, scan (credential header mark) ['"'] 0 (some '"') value = (value, 0) := by
    intro header h mark
    refine scan_of_unmatched (fun s _ within prev => ?_) _
    rw [credential, h.none_of_unsigned]
    intro c mem
    rcases List.mem_append.mp mem with inside | end_
    · exact unsigned c (within.subset inside)
    · rw [List.mem_singleton.mp end_]
      decide
  have first := unmatched header_authorization " [REDACTED]"
  have second := unmatched (header_assignment isAlnum) "[REDACTED]"
  have both : content isAlnum value = value := by
    rw [content, authorizationPattern, first, assignmentPattern, second]
  refine ⟨?_, ?_, by rwa [both]⟩
  · rw [authorizationPattern, first]
  · rw [authorizationPattern, first, assignmentPattern, second]

def login : LogRecord where
  timestamp := text "2026-01-01T00:00:00+00:00"
  levelname := text "INFO"
  name := text "app.auth"
  message := text "login"
  fields := []

def loginOf (password : String) : Str :=
  format (login.insert [(text "user", .str (text "ada"))] [] (text "password") (text password))

theorem redactLogLine_login :
    redactLogLine Char.isAlphanum (loginOf "abc") =
      redactLogLine Char.isAlphanum (loginOf "x") := by
  have hidden : ∀ value ∈ [text "abc", text "x"], Hidden Char.isAlphanum (escapes value) := by
    have plain : ∀ value ∈ [text "abc", text "x"],
        ((escapes value).all fun c => c ∉ [':', '=']) = true ∧ '"' ∉ escapes value := by
      decide +kernel
    exact fun value mem =>
      hidden_of_unsigned (List.all_iff_forall_prop.mp (plain value mem).1) (plain value mem).2
  refine (redactLogLine_eq_iff Char.isAlphanum login [(text "user", .str (text "ada"))] []
    (by unfold Sensitive; decide +kernel) (by decide) (by decide)).1
    ⟨⟨hidden _ (by simp), hidden _ (by simp)⟩, .inl ?_⟩
  unfold Closed
  decide +kernel

/-- What follows a quotation mark in a password is shown. -/
theorem quote_shown :
    ¬ ∀ (record : LogRecord) (before after : Fields) (key v w : List PathChar),
      Sensitive (escapes key) → v ≠ [] → w ≠ [] →
        redactLogLine Char.isAlphanum (format (record.insert before after key v)) =
          redactLogLine Char.isAlphanum (format (record.insert before after key w)) := by
  intro hides
  have same := hides login [(text "user", .str (text "ada"))] [] (text "password")
    (text "a\"b") (text "a")
    (by unfold Sensitive; decide +kernel) (by decide) (by decide)
  have shows : redactLogLine Char.isAlphanum (loginOf "a\"b") ≠
      redactLogLine Char.isAlphanum (loginOf "a") := by decide +kernel
  exact shows same

end Ecube.LogRedaction
