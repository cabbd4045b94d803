import Ecube.Paths.AuditText
import Ecube.Services.Custody

/-!
Recording a custody handoff (`confirm_chain_of_custody_handoff` and
`confirm_job_chain_of_custody_handoff` of `app/services/audit_service.py`).

The requests for a drive are serialized by the lock of its row. A request is
answered with an event of its lifecycle that has the same texts, refused if the
lifecycle has another handoff, and recorded otherwise. Of the follow-up work of a
job request only its failure is modelled.
-/

namespace Ecube.Custody

open OrderBy AuditText

/-! ### Requests -/

/-- A `datetime` in UTC. -/
structure DateTime where
  year : Nat
  month : Nat
  day : Nat
  hour : Nat
  minute : Nat
  second : Nat
  microsecond : Nat
  deriving DecidableEq, Repr

/-- The last digits of a number. -/
def digits : Nat → Nat → Str
  | 0, _ => []
  | width + 1, n => digits width (n / 10) ++ [Nat.digitChar (n % 10)]

/-- `datetime.isoformat`, without the offset. -/
def isoDateTime (d : DateTime) : Str :=
  digits 4 d.year ++ '-' :: digits 2 d.month ++ '-' :: digits 2 d.day ++ 'T' :: digits 2 d.hour ++
    ':' :: digits 2 d.minute ++ ':' :: digits 2 d.second ++
    if d.microsecond = 0 then [] else '.' :: digits 6 d.microsecond

def isoformat (d : DateTime) : Str := isoDateTime d ++ "+00:00".toList

/-- `text.replace("+00:00", "Z")`. -/
def replaceOffset : Str → Str
  | '+' :: '0' :: '0' :: ':' :: '0' :: '0' :: rest => 'Z' :: replaceOffset rest
  | c :: rest => c :: replaceOffset rest
  | [] => []

/-- `ChainOfCustodyHandoffRequest`. -/
structure ChainOfCustodyHandoffRequest where
  driveId : Nat
  projectId : Option ProjectId
  possessor : SafeStr
  deliveryTime : DateTime
  receivedBy : Option SafeStr
  receiptRef : Option SafeStr
  notes : Option SafeStr
  possessor_ne_nil : possessor.1 ≠ []

/-- What comes with a request: the user, the time of the transaction, whether the
commits succeed, and whether the follow-up work of a job request does. -/
structure Occasion where
  actor : Option Str
  now : Nat
  commits : Bool
  violationLogged : Bool
  followedUp : Bool
  deriving DecidableEq, Repr

/-- `ChainOfCustodyHandoffResponse`. -/
structure HandoffResponse where
  eventId : Nat
  eventType : AuditAction
  driveId : Nat
  projectId : Option ProjectId
  creator : Option Str
  possessor : Str
  deliveryTime : Nat
  receivedBy : Option Str
  receiptRef : Option Str
  notes : Option Str
  recordedAt : Nat
  deriving DecidableEq, Repr

inductive HandoffError where
  /-- 404 "Drive not found" -/
  | driveNotFound
  /-- 409 "Provided project_id '...' does not match drive binding '...'" -/
  | bindingMismatch
  /-- 422 "Drive has no project binding and no project_id was provided; ..." -/
  | bindingMissing
  /-- 409 "A custody handoff has already been recorded for this drive lifecycle" -/
  | alreadyRecorded
  /-- 404 "Job not found" -/
  | jobNotFound
  /-- 409 "Provided project_id does not match the job project" -/
  | projectMismatch
  /-- 409 "Drive is not assigned to this job" -/
  | notAssigned
  /-- `MultipleResultsFound`, from `one_or_none` -/
  | multipleResults
  /-- an exception of the database -/
  | database
  /-- an event without a timestamp has no response -/
  | invalidEvent
  /-- an exception after the handoff was recorded -/
  | followUp
  deriving DecidableEq, Repr

/-! ### Events -/

/-- `details.get(key)`, for a key with a text. -/
def Details.text (details : Details) (key : String) : Option Str := details.rest.lookup key.toList

def AuditLog.text (e : AuditLog) (key : String) : Option Str :=
  (e.details.getD .empty).text key

/-- The texts under their keys, as they are stored. -/
def storedTexts (texts : List (String × Option Str)) : List (Str × Str) :=
  texts.filterMap fun (key, value) => value.map fun text => (key.toList, sanitizeAuditText text)

def deliveryIso (payload : ChainOfCustodyHandoffRequest) : Str :=
  replaceOffset (isoformat payload.deliveryTime)

def handoffDetails (drive : Drive) (projectId : ProjectId) (actor : Option Str)
    (payload : ChainOfCustodyHandoffRequest) : Details where
  deliveryTime := some (sanitizeAuditText (deliveryIso payload))
  processorNotes := none
  notes := payload.notes.map fun notes => sanitizeAuditText notes.1
  rest := storedTexts [("drive_sn", some (driveSerialForCoc drive)), ("project_id", some projectId.1),
    ("creator", actor), ("possessor", some payload.possessor),
    ("received_by", payload.receivedBy.map Subtype.val),
    ("receipt_ref", payload.receiptRef.map Subtype.val)]

/-- The row of a recorded handoff. -/
def handoffRow (o : Occasion) (payload : ChainOfCustodyHandoffRequest) (drive : Drive)
    (projectId : ProjectId) (jobId : Option Nat) (id : Nat) : AuditLog where
  id := id
  timestamp := some o.now
  user := o.actor
  action := .drive .cocHandoffConfirmed
  projectId := some projectId
  driveId := some drive.id
  jobId := jobId
  details := some (handoffDetails drive projectId o.actor payload)

def violationRow (o : Occasion) (drive : Drive) (requested bound : ProjectId) (id : Nat) :
    AuditLog where
  id := id
  timestamp := some o.now
  user := o.actor
  action := .other "PROJECT_ISOLATION_VIOLATION".toList
  projectId := some requested
  driveId := some drive.id
  jobId := none
  details := some ⟨none, none, none,
    storedTexts [("actor", o.actor), ("existing_project_id", some bound.1),
      ("requested_project_id", some requested.1), ("context", some "coc_handoff".toList)]⟩

/-- `_handoff_response_from_audit`. -/
def handoffResponse (fromisoformat : IsoFormat) (entry : AuditLog) :
    Except HandoffError HandoffResponse := do
  let details := entry.details.getD .empty
  let recordedAt ← orReject entry.timestamp .invalidEvent
  return {
    eventId := entry.id
    eventType := entry.action
    driveId := entry.driveId.getD 0
    projectId := entry.projectId
    creator := (truthy (entry.text "creator")).or entry.user
    possessor := (entry.text "possessor").getD []
    deliveryTime := (parseIsoDatetime fromisoformat details.deliveryTime).getD recordedAt
    receivedBy := entry.text "received_by"
    receiptRef := entry.text "receipt_ref"
    notes := details.notes
    recordedAt := recordedAt }

theorem handoffRow_id {o : Occasion} {payload : ChainOfCustodyHandoffRequest} {drive : Drive}
    {projectId : ProjectId} {jobId : Option Nat} (id : Nat) :
    (handoffRow o payload drive projectId jobId id).id = id := rfl

theorem violationRow_id {o : Occasion} {drive : Drive} {requested bound : ProjectId} (id : Nat) :
    (violationRow o drive requested bound id).id = id := rfl

namespace CustodyDb

def withAuditLogs (db : CustodyDb) (auditLogs : Table AuditLog) : CustodyDb :=
  { db with auditLogs := auditLogs }

/-- `AuditRepository.add_uncommitted`: the row with the next key. -/
def addAudit (db : CustodyDb) (row : Nat → AuditLog) (key : ∀ id, (row id).id = id) : CustodyDb :=
  db.withAuditLogs (db.auditLogs.insert row key)

/-- `_drive_project_lifecycle_start`. A row without a timestamp comes first
(`DESC` in PostgreSQL). -/
def driveProjectLifecycleStart (db : CustodyDb) (driveId : Nat) (projectId : ProjectId) :
    Option AuditLog :=
  (db.auditLogs.select (fun e => e.action = .drive .driveInitialized ∧ e.driveId = some driveId ∧
    e.projectId = some projectId) (byKey AuditLog.key)).getLast?

/-- The handoffs of the drive for the project, the newest first. -/
def handoffCandidates (db : CustodyDb) (driveId : Nat) (projectId : ProjectId) : List AuditLog :=
  (db.auditLogs.select (fun e => e.action = .drive .cocHandoffConfirmed ∧
    e.driveId = some driveId ∧ e.projectId = some projectId) (byKey AuditLog.id)).reverse

end CustodyDb

/-- The event was recorded for a request with the same texts and delivery time. -/
def sameContract (payload : ChainOfCustodyHandoffRequest) (e : AuditLog) : Bool :=
  e.text "possessor" = some payload.possessor.1 ∧
    replaceOffset (((e.details.getD .empty).deliveryTime).getD []) = deliveryIso payload ∧
    e.text "receipt_ref" = payload.receiptRef.map Subtype.val

/-- The lifecycle of a request: of a job from its start, or of the drive from an event on. -/
structure LifecycleStart where
  jobId : Option Nat
  startAt : Option Nat
  startEventId : Option Nat
  deriving DecidableEq, Repr

def LifecycleStart.matches (start : LifecycleStart) (e : AuditLog) : Bool :=
  handoffEventMatchesJobLifecycle e start.jobId start.startAt start.startEventId

namespace CustodyDb

/-- `_find_existing_handoff_event`. -/
def findExistingHandoffEvent (db : CustodyDb) (driveId : Nat) (projectId : ProjectId)
    (start : LifecycleStart) (payload : ChainOfCustodyHandoffRequest) : Option AuditLog :=
  (db.handoffCandidates driveId projectId).find? fun e =>
    start.matches e && sameContract payload e

/-- `_find_prior_handoff_event`. -/
def findPriorHandoffEvent (db : CustodyDb) (driveId : Nat) (projectId : ProjectId)
    (start : LifecycleStart) : Option AuditLog :=
  (db.handoffCandidates driveId projectId).find? start.matches

/-- The lifecycle that `confirm_chain_of_custody_handoff` uses. -/
def requestLifecycle (db : CustodyDb) (driveId : Nat) (projectId : ProjectId)
    (jobId lifecycleStartAt : Option Nat) : LifecycleStart :=
  if jobId = none ∧ lifecycleStartAt = none then
    let start := db.driveProjectLifecycleStart driveId projectId
    ⟨none, start.bind AuditLog.timestamp, start.map AuditLog.id⟩
  else ⟨jobId, lifecycleStartAt, none⟩

/-- The recording itself, once the drive and the project are known. -/
def recordHandoff (fromisoformat : IsoFormat) (db : CustodyDb) (o : Occasion)
    (payload : ChainOfCustodyHandoffRequest) (drive : Drive) (projectId : ProjectId)
    (start : LifecycleStart) : CustodyDb × Except HandoffError HandoffResponse :=
  match db.findExistingHandoffEvent drive.id projectId start payload with
  | some existing => (db, handoffResponse fromisoformat existing)
  | none =>
      match db.findPriorHandoffEvent drive.id projectId start with
      | some _ => (db, .error .alreadyRecorded)
      | none =>
          if o.commits then
            let created := handoffRow o payload drive projectId start.jobId
            (db.addAudit created handoffRow_id,
              handoffResponse fromisoformat (created (db.auditLogs.seq + 1)))
          else (db, .error .database)

/-- The event of a refused project, written if this succeeds. -/
def logViolation (db : CustodyDb) (o : Occasion) (drive : Drive) (requested bound : ProjectId) :
    CustodyDb :=
  if o.violationLogged then db.addAudit (violationRow o drive requested bound) violationRow_id else db

def confirmChainOfCustodyHandoff (fromisoformat : IsoFormat) (db : CustodyDb) (o : Occasion)
    (payload : ChainOfCustodyHandoffRequest) (jobId lifecycleStartAt : Option Nat) :
    CustodyDb × Except HandoffError HandoffResponse :=
  match db.drives.get payload.driveId with
  | none => (db, .error .driveNotFound)
  | some drive =>
      match payload.projectId, drive.currentProjectId with
      | none, none => (db, .error .bindingMissing)
      | none, some bound => db.recordHandoff fromisoformat o payload drive bound
          (db.requestLifecycle drive.id bound jobId lifecycleStartAt)
      | some requested, none => db.recordHandoff fromisoformat o payload drive requested
          (db.requestLifecycle drive.id requested jobId lifecycleStartAt)
      | some requested, some bound =>
          if requested = bound then
            db.recordHandoff fromisoformat o payload drive requested
              (db.requestLifecycle drive.id requested jobId lifecycleStartAt)
          else (db.logViolation o drive requested bound, .error .bindingMismatch)

/-- The assignments of the job to the drive, which `one_or_none` reads. -/
def assignmentsTo (db : CustodyDb) (jobId driveId : Nat) : List Assignment :=
  db.assignments.rows.filter fun a => a.jobId = jobId ∧ a.driveId = driveId

def confirmJobChainOfCustodyHandoff (fromisoformat : IsoFormat) (db : CustodyDb) (o : Occasion)
    (jobId : Nat) (payload : ChainOfCustodyHandoffRequest) :
    CustodyDb × Except HandoffError HandoffResponse :=
  match db.jobs.get jobId with
  | none => (db, .error .jobNotFound)
  | some job =>
      if payload.projectId.any fun given => given ≠ job.projectId then
        (db, .error .projectMismatch)
      else
        match db.assignmentsTo job.id payload.driveId with
        | [] => (db, .error .notAssigned)
        | _ :: _ :: _ => (db, .error .multipleResults)
        | [assignment] =>
            match db.confirmChainOfCustodyHandoff fromisoformat o payload (some job.id)
              (jobDriveLifecycleStartAt job (some assignment)) with
            | (db, .error e) => (db, .error e)
            | (db, .ok response) =>
                if o.followedUp then (db, .ok response) else (db, .error .followUp)

/-! ### Retention -/

/-- `AuditRepository.delete_older_than`. A row without a timestamp is not older. -/
def deleteOlderThan (db : CustodyDb) (cutoff : Nat) : CustodyDb :=
  db.withAuditLogs (db.auditLogs.delete fun e => e.timestamp.any fun t => t < cutoff)

/-- `purge_expired_audit_logs`; the cutoff lies the days of retention before now. -/
def purgeExpiredAuditLogs (db : CustodyDb) (retentionDays : Int) (cutoff : Nat) : CustodyDb :=
  if retentionDays ≤ 0 then db else db.deleteOlderThan cutoff

end CustodyDb

end Ecube.Custody
