import Ecube.Basic.OrderBy
import Ecube.Basic.UpperCase
import Ecube.Services.AuditDetails
import Mathlib.Data.Prod.Lex

/-!
The project of an audit event (`app/repositories/audit_repository.py`, `app/models/audit.py`).

The project is the argument of the call, or what the details have for it after they were
sanitized. It is normalized when the event is stored and when it is searched.
-/

namespace Ecube.AuditTrail

open PosixPath UpperCase AuditText AuditDetails OrderBy

variable {O R : Type}

/-- One event as a caller gives it. The columns are those that the project does not depend on. -/
structure Entry (O R : Type) where
  projectId : Option PyText
  details : List (PyText × Value PyText O)
  columns : R

/-- A row of `audit_logs`. -/
structure AuditLog (O R : Type) where
  id : Nat
  timestamp : Nat
  projectId : Option Str
  details : List (PyText × Value PyText O)
  columns : R

def projectKey : PyText := ofStr "project_id".toList

/-- `_extract_project_id`. -/
def extractProjectId (details : List (PyText × Value PyText O)) : Option PyText :=
  match details.lookup projectKey with
  | some (.str text) => if text = [] then none else some text
  | _ => none

def Entry.sanitizedDetails (entry : Entry O R) : List (PyText × Value PyText O) :=
  sanitizeFields (fun key => key) entry.details

section Normalized

variable (table : Char → Str)

/-- `normalize_project_id` of a text. -/
def normalizeProjectId (value : PyText) : Str :=
  upper table (strip (sanitizeString (chars value)))

/-- `_normalize_project_id` of the repository, and the validator of the model. -/
def normalizedOrNone (projectId : Option PyText) : Option Str :=
  (projectId.map (normalizeProjectId table)).filter (· ≠ [])

def resolvedProjectId (entry : Entry O R) : Option PyText :=
  match normalizedOrNone table entry.projectId with
  | some normalized => some (ofStr normalized)
  | none => extractProjectId entry.sanitizedDetails

/-- The row for an event, `AuditLog(...)`. -/
def auditLog (id timestamp : Nat) (entry : Entry O R) : AuditLog O R where
  id := id
  timestamp := timestamp
  projectId := normalizedOrNone table (resolvedProjectId table entry)
  details := entry.sanitizedDetails
  columns := entry.columns

/-! ### Runs -/

/-- `add` or `add_many`. -/
inductive Request (O R : Type) where
  | add (entry : Entry O R)
  | addMany (entries : List (Entry O R))

def Request.entries : Request O R → List (Entry O R)
  | .add entry => [entry]
  | .addMany entries => entries

/-- A request, the time of its transaction, and whether it raises. -/
structure Call (O R : Type) where
  request : Request O R
  timestamp : Nat
  raises : Bool

structure Trail (O R : Type) where
  rows : List (AuditLog O R)
  nextId : Nat

def logRows (timestamp : Nat) : Nat → List (Entry O R) → List (AuditLog O R)
  | _, [] => []
  | id, entry :: entries => auditLog table id timestamp entry :: logRows timestamp (id + 1) entries

/-- One call. A call that raises is rolled back; the ids that it took are not used again. -/
def Trail.step (trail : Trail O R) (call : Call O R) : Trail O R where
  rows :=
    if call.raises then trail.rows
    else trail.rows ++ logRows table call.timestamp trail.nextId call.request.entries
  nextId := trail.nextId + call.request.entries.length

def Trail.run (trail : Trail O R) (calls : List (Call O R)) : Trail O R :=
  calls.foldl (Trail.step table) trail

/-- The newest first. -/
def AuditLog.newest (row : AuditLog O R) : (Nat ×ₗ Nat)ᵒᵈ :=
  OrderDual.toDual (toLex (row.timestamp, row.id))

/-- `_filtered_query` with a project and no other filter. -/
def Trail.filteredQuery (trail : Trail O R) (projectId : Option PyText) : List (AuditLog O R) :=
  match normalizedOrNone table projectId with
  | none => trail.rows
  | some normalized => trail.rows.filter fun row => row.projectId = some normalized

/-- `AuditRepository.query`. -/
def Trail.query (trail : Trail O R) (projectId : Option PyText) (limit : Nat) :
    List (AuditLog O R) :=
  (orderBy AuditLog.newest (trail.filteredQuery table projectId)).take limit

end Normalized

end Ecube.AuditTrail
