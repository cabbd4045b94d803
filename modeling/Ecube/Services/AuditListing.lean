import Ecube.Basic.Integers
import Ecube.Basic.Like
import Ecube.Basic.Pages
import Ecube.Basic.Text
import Ecube.Services.AuditTrail

/-!
The listing of audit events (`audit_service.list_audit_logs`, `AuditRepository.query`), and its
export (`frontend/src/views/AuditView.vue`).

The address of a client is shown to some roles only. For the others it is left out of the answer
and of the columns that a text is searched in.
-/

namespace Ecube.AuditTrail

open PosixPath AuditText AuditDetails OrderBy Integers Like Pages

/-- The columns of `audit_logs` that the project does not depend on. -/
structure Columns where
  user : Option Str
  action : Str
  driveId : Option Int
  jobId : Option Int
  clientIp : Option Str
  deriving DecidableEq

variable {O : Type}

/-! ### Filters -/

structure Filters where
  user : Option Str
  action : Option Str
  projectId : Option PyText
  driveId : Option Int
  jobId : Option Int
  since : Option Nat
  untilTime : Option Nat
  search : Option Str

/-- What the database makes of a letter without its case, and of the columns that are no texts. -/
structure Casts (O : Type) where
  lower : Char → Char
  details : List (PyText × Value PyText O) → Str
  timestamp : Nat → Str

def Casts.ilike (casts : Casts O) (text pattern : Str) : Bool :=
  like (text.map casts.lower) (pattern.map casts.lower)

/-- The columns that a text is searched in. A column that is null matches nothing. -/
def searchClauses (casts : Casts O) (includeClientIp : Bool) (row : AuditLog O Columns) :
    List (Option Str) :=
  [row.columns.user, some row.columns.action, row.projectId, row.columns.driveId.map decimal,
    row.columns.jobId.map decimal, some (casts.details row.details),
    some (casts.timestamp row.timestamp)] ++
  if includeClientIp then [row.columns.clientIp] else []

def normalizedSearch (search : Option Str) : Str := strip (search.getD [])

def matchesSearch (casts : Casts O) (includeClientIp : Bool) (search : Option Str)
    (row : AuditLog O Columns) : Bool :=
  normalizedSearch search = [] ||
    (searchClauses casts includeClientIp row).any fun text =>
      text.any fun t => casts.ilike t ('%' :: (normalizedSearch search ++ ['%']))

section Normalized

variable (table : Char → Str) (casts : Casts O)

/-- The filters of `_filtered_query`. -/
def Filters.matches (filters : Filters) (includeClientIp : Bool) (row : AuditLog O Columns) :
    Bool :=
  filters.user.all (fun user => row.columns.user = some user) &&
  filters.action.all (fun action => row.columns.action = action) &&
  (normalizedOrNone table filters.projectId).all
    (fun projectId => row.projectId = some projectId) &&
  filters.driveId.all (fun driveId => row.columns.driveId = some driveId) &&
  filters.jobId.all (fun jobId => row.columns.jobId = some jobId) &&
  filters.since.all (fun since => since ≤ row.timestamp) &&
  filters.untilTime.all (fun untilTime => row.timestamp ≤ untilTime) &&
  matchesSearch casts includeClientIp filters.search row

def filteredRows (filters : Filters) (includeClientIp : Bool) (rows : List (AuditLog O Columns)) :
    List (AuditLog O Columns) :=
  rows.filter (filters.matches table casts includeClientIp)

/-- `AuditRepository.query`. -/
def query (filters : Filters) (includeClientIp : Bool) (limit offset : Nat)
    (rows : List (AuditLog O Columns)) : List (AuditLog O Columns) :=
  ((orderBy AuditLog.newest (filteredRows table casts filters includeClientIp rows)).drop
    offset).take limit

/-- `AuditRepository.count`. -/
def count (filters : Filters) (includeClientIp : Bool) (rows : List (AuditLog O Columns)) : Nat :=
  (filteredRows table casts filters includeClientIp rows).length

/-! ### Answers -/

/-- `_IP_VISIBLE_ROLES.intersection(roles)`. -/
def ipVisible (roles : List Str) : Bool :=
  roles.any fun role => role ∈ ["admin".toList, "auditor".toList]

def hideIp (row : AuditLog O Columns) : AuditLog O Columns :=
  { row with columns := { row.columns with clientIp := none } }

/-- `_redact_ip`. The fields of the schema are the columns. -/
def redactIp (roles : List Str) (row : AuditLog O Columns) : AuditLog O Columns :=
  if ipVisible roles then row else hideIp row

structure ListResponse (O : Type) where
  entries : List (AuditLog O Columns)
  limit : Nat
  offset : Nat
  total : Option Nat
  hasMore : Bool

/-- `list_audit_logs`. The rows are counted after they were queried, and may have changed. -/
def listAuditLogs (roles : List Str) (filters : Filters) (includeTotal : Bool) (limit offset : Nat)
    (rows counted : List (AuditLog O Columns)) : ListResponse O :=
  let pageLimit := if includeTotal then limit else limit + 1
  let entries := query table casts filters (ipVisible roles) pageLimit offset rows
  if includeTotal then
    let total := count table casts filters (ipVisible roles) counted
    { entries := entries.map (redactIp roles)
      limit := limit
      offset := offset
      total := some total
      hasMore := offset + entries.length < total }
  else
    { entries := (entries.take limit).map (redactIp roles)
      limit := limit
      offset := offset
      total := none
      hasMore := limit < entries.length }

/-! ### Runs -/

/-- A call that adds events, or `delete_older_than` and whether it raises. -/
inductive Action (O : Type) where
  | call (call : Call O Columns)
  | deleteOlderThan (cutoff : Nat) (raises : Bool)

def Trail.act (trail : Trail O Columns) : Action O → Trail O Columns
  | .call call => trail.step table call
  | .deleteOlderThan cutoff raises =>
      if raises then trail
      else { trail with rows := trail.rows.filter fun row => cutoff ≤ row.timestamp }

def Trail.acts (trail : Trail O Columns) (actions : List (Action O)) : Trail O Columns :=
  actions.foldl (Trail.act table) trail

/-- The trail after the first batches of actions. -/
def Trail.after (trail : Trail O Columns) (batches : Nat → List (Action O)) :
    Nat → Trail O Columns
  | 0 => trail
  | n + 1 => (trail.after batches n).acts table (batches n)

/-- `exportCsv` up to the text of the file: pages are requested until no more follow. A batch of
actions may come before each query and each count. -/
def exportCsv (trail : Trail O Columns) (batches : Nat → List (Action O)) (roles : List Str)
    (filters : Filters) (includeTotal : Bool) (limit fuel : Nat) :
    Option (List (AuditLog O Columns)) :=
  collect (fun k offset =>
    let response := listAuditLogs table casts roles filters includeTotal limit offset
      (trail.after table batches (2 * k)).rows (trail.after table batches (2 * k + 1)).rows
    (response.entries, response.hasMore)) fuel 0 0

end Normalized

/-! ### Search -/

/-- A letter has no case just if it is one of those that a pattern is made of. -/
def Casts.KeepsPatterns (casts : Casts O) : Prop :=
  ∀ c, ∀ special ∈ ['%', '_', '\\'], casts.lower c = special ↔ c = special

theorem Casts.KeepsPatterns.literal {casts : Casts O} (keeps : casts.KeepsPatterns) {s : Str}
    (literal : Literal s) : Literal (s.map casts.lower) := by
  have absent : ∀ special ∈ ['%', '_', '\\'], special ∉ s → special ∉ s.map casts.lower := by
    intro special listed missing mem
    obtain ⟨c, held, lowered⟩ := List.mem_map.mp mem
    exact missing ((keeps c special listed).mp lowered ▸ held)
  exact ⟨absent '%' (by decide) literal.1, absent '_' (by decide) literal.2.1,
    absent '\\' (by decide) literal.2.2⟩

/-- A text without the characters of patterns is found wherever it occurs in a column that is
searched, in any case. -/
theorem search_contains_iff {casts : Casts O} (keeps : casts.KeepsPatterns)
    {includeClientIp : Bool} {search : Option Str} (literal : Literal (normalizedSearch search))
    {row : AuditLog O Columns} :
    matchesSearch casts includeClientIp search row = true ↔
      normalizedSearch search = [] ∨ ∃ text, some text ∈ searchClauses casts includeClientIp row ∧
        (normalizedSearch search).map casts.lower <:+: text.map casts.lower := by
  have percent : casts.lower '%' = '%' := (keeps '%' '%' (by decide)).mpr rfl
  have found : ∀ text : Str, casts.ilike text ('%' :: (normalizedSearch search ++ ['%'])) = true ↔
      (normalizedSearch search).map casts.lower <:+: text.map casts.lower := by
    intro text
    rw [Casts.ilike, List.map_cons, List.map_append, List.map_singleton, percent]
    exact like_contains_iff (keeps.literal literal)
  rw [matchesSearch, Bool.or_eq_true, decide_eq_true_eq, List.any_eq_true]
  refine or_congr_right ⟨?_, ?_⟩
  · rintro ⟨column, mem, matched⟩
    cases column with
    | none => cases matched
    | some text => exact ⟨text, mem, (found text).mp matched⟩
  · rintro ⟨text, mem, occurs⟩
    exact ⟨some text, mem, (found text).mpr occurs⟩

/-- Lower case of ASCII letters. -/
def asciiCasts : Casts Unit := ⟨Char.toLower, fun _ => "{}".toList, fun _ => []⟩

theorem keepsPatterns_asciiCasts : asciiCasts.KeepsPatterns := by
  intro c special listed
  constructor
  · rintro rfl
    rcases Text.toLower_eq_or_le c with same | high
    · exact same.symm
    · change c.toLower ∈ ['%', '_', '\\'] at listed
      rw [List.mem_cons, List.mem_cons, List.mem_singleton] at listed
      rcases listed with same | same | same <;> rw [same] at high <;> exact absurd high (by decide)
  · rintro rfl
    rw [List.mem_cons, List.mem_cons, List.mem_singleton] at listed
    rcases listed with rfl | rfl | rfl <;> rfl

/-- The search for `login` finds the action `USER_LOGIN`. -/
theorem search_contains_login :
    matchesSearch asciiCasts false (some " login ".toList)
      ⟨1, 5, none, [], ⟨none, "USER_LOGIN".toList, none, none, none⟩⟩ = true :=
  (search_contains_iff keepsPatterns_asciiCasts (by decide)).mpr
    (.inr ⟨"USER_LOGIN".toList, List.mem_cons_of_mem _ List.mem_cons_self,
      ⟨"user_".toList, [], by decide⟩⟩)

end Ecube.AuditTrail
