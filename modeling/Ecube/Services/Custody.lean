import Mathlib.Data.List.Dedup
import Mathlib.Data.Prod.Lex
import Mathlib.Order.WithBot
import Ecube.Basic.OrderBy
import Ecube.Basic.Outcome
import Ecube.Schema
import Ecube.Services.DriveIdentity

/-!
Chain of custody (`app/services/audit_service.py`).

A report lists, for each drive, the audit events of its custody, whether a
handoff is confirmed and what its jobs have copied. A job has a report of its own
(`_build_job_chain_of_custody_report`), and drives are reported by a selector
(`get_chain_of_custody_report`). The listing of jobs shows for each whether its
custody is complete (`get_job_custody_summaries`), without the reports.

The rows have the columns that are read here. Times are in one time zone; a row
without a time comes last (`NULLS LAST`). The payload of a stored report is kept
as it is read: its `custody_complete` flags, or nothing if it is not valid.
-/

namespace Ecube.Custody

open OrderBy

/-! ### Rows -/

/-- The actions of `_COC_DRIVE_ACTIONS`. -/
inductive DriveAction where
  | driveDiscovered | driveInitialized | driveEjectPrepared | driveEjectFailed
  | cocHandoffConfirmed
  deriving DecidableEq, Repr

/-- The actions of `_COC_JOB_ACTIONS`. -/
inductive JobAction where
  | jobCreated | jobStarted | jobCompleted | jobFailed | jobArchived | jobVerifyStarted
  | manifestCreated | manifestDownloaded
  deriving DecidableEq, Repr

inductive AuditAction where
  | drive (action : DriveAction)
  | job (action : JobAction)
  | other (code : Str)
  deriving DecidableEq, Repr

def DriveAction.label : DriveAction → String
  | driveDiscovered => "Drive discovered"
  | driveInitialized => "Drive initialized"
  | driveEjectPrepared => "Drive prepared for eject"
  | driveEjectFailed => "Drive eject preparation failed"
  | cocHandoffConfirmed => "Custody handoff confirmed"

def JobAction.label : JobAction → String
  | jobCreated => "Job created"
  | jobStarted => "Copy operation started"
  | jobCompleted => "Copy operation completed"
  | jobFailed => "Copy operation failed"
  | jobArchived => "Job archived"
  | jobVerifyStarted => "Job verification started"
  | manifestCreated => "Manifest generated"
  | manifestDownloaded => "Manifest downloaded"

/-- The labels of actions that no report lists. -/
def otherLabels : List (Str × String) :=
  [("MOUNT_SHARE_DISCOVERY_ATTEMPTED".toList, "Mount share discovery attempted"),
    ("MOUNT_SHARE_DISCOVERY_FAILED".toList, "Mount share discovery failed"),
    ("MOUNT_UPDATED".toList, "Mount updated"),
    ("DRIVE_MOUNT_FAILED".toList, "Drive mount failed"),
    ("DRIVE_MOUNTED".toList, "Drive mounted"),
    ("MANIFEST_CREATE_FAILED".toList, "Manifest generation failed"),
    ("COC_SNAPSHOT_STORED".toList, "Chain of custody snapshot stored"),
    ("COC_SNAPSHOT_RECALLED".toList, "Stored chain of custody snapshot recalled")]

/-- `text.title()` of an ASCII text. -/
def title (text : Str) : Str := go false text
where
  go : Bool → Str → Str
    | _, [] => []
    | inWord, c :: rest =>
        (if inWord then c.toLower else c.toUpper) :: go c.isAlpha rest

/-- `_ACTION_LABELS`. -/
def AuditAction.label : AuditAction → Str
  | drive action => action.label.toList
  | job action => action.label.toList
  | other code => ((otherLabels.lookup code).map String.toList).getD
      (title (code.map fun c => if c = '_' then ' ' else c))

/-- The details of an event: the texts that are read, and the rest. -/
structure Details where
  deliveryTime : Option Str
  processorNotes : Option Str
  notes : Option Str
  rest : List (Str × Str)
  deriving DecidableEq, Repr

def Details.empty : Details := ⟨none, none, none, []⟩

structure AuditLog where
  id : Nat
  timestamp : Option Nat
  user : Option Str
  action : AuditAction
  projectId : Option ProjectId
  driveId : Option Nat
  jobId : Option Nat
  details : Option Details
  deriving DecidableEq, Repr

structure Job where
  id : Nat
  projectId : ProjectId
  evidenceNumber : Str
  status : JobStatus
  createdAt : Option Nat
  startedAt : Option Nat
  completedAt : Option Nat
  deriving DecidableEq, Repr

structure Assignment where
  id : Nat
  driveId : Nat
  jobId : Nat
  fileCount : Nat
  copiedBytes : Nat
  assignedAt : Option Nat
  deriving DecidableEq, Repr

structure Drive where
  id : Nat
  deviceIdentifier : Str
  portSystemPath : Option Str
  manufacturer : Option Str
  productName : Option Str
  currentProjectId : Option ProjectId
  deriving DecidableEq, Repr

structure Manifest where
  id : Nat
  jobId : Nat
  driveAssignmentId : Option Nat
  manifestPath : Option Str
  format : Option Str
  createdAt : Option Nat
  deriving DecidableEq, Repr

/-- A stored report of an archived job. -/
structure Snapshot where
  id : Nat
  jobId : Nat
  custodyComplete : Option (List Bool)
  deriving DecidableEq, Repr

instance : Row AuditLog := ⟨AuditLog.id⟩
instance : Row Job := ⟨Job.id⟩
instance : Row Assignment := ⟨Assignment.id⟩
instance : Row Drive := ⟨Drive.id⟩
instance : Row Manifest := ⟨Manifest.id⟩
instance : Row Snapshot := ⟨Snapshot.id⟩

/-- The tables; keys count from one, and an assignment has its drive (foreign key). -/
structure CustodyDb where
  auditLogs : Table AuditLog
  jobs : Table Job
  assignments : Table Assignment
  drives : Table Drive
  manifests : Table Manifest
  snapshots : Table Snapshot
  job_pos : ∀ j ∈ jobs, 0 < j.id
  assigned_drive : ∀ a ∈ assignments, ∃ d ∈ drives, d.id = a.driveId

/-- A time and a key, `NULLS LAST`. -/
def timeKey (time : Option Nat) (id : Nat) : WithTop Nat ×ₗ Nat :=
  toLex (time.elim ⊤ WithTop.some, id)

def AuditLog.key (e : AuditLog) : WithTop Nat ×ₗ Nat := timeKey e.timestamp e.id

def Assignment.key (a : Assignment) : WithTop Nat ×ₗ Nat := timeKey a.assignedAt a.id

/-! ### Reports -/

inductive CustodyError where
  /-- 422 "At least one selector is required" -/
  | selectorRequired
  /-- 404 "Drive not found" -/
  | driveNotFound
  /-- 404 "No drive found for provided drive_sn" -/
  | serialNotFound
  /-- 409 "drive_sn resolves to multiple drives; ..." -/
  | serialAmbiguous
  /-- 409 "Provided project_id '...' does not match drive binding '...'" -/
  | bindingMismatch
  /-- 422 "Drive has no project binding; ..." -/
  | bindingMissing
  /-- 409 "Job has no drive assignments for chain-of-custody reporting" -/
  | noAssignments
  /-- an event without a timestamp has no schema -/
  | invalidEvent
  deriving DecidableEq, Repr

/-- `ChainOfCustodyEventSchema`. -/
structure CustodyEvent where
  eventId : Nat
  eventType : AuditAction
  timestamp : Nat
  actor : Option Str
  action : Str
  details : Details
  deriving DecidableEq, Repr

/-- `ManifestSummarySchema`. -/
structure ManifestSummary where
  jobId : Nat
  evidenceNumber : Str
  processorNotes : Option Str
  totalFiles : Nat
  totalBytes : Nat
  manifestCount : Nat
  latestManifestPath : Option Str
  latestManifestFormat : Option Str
  latestManifestCreatedAt : Option Nat
  deriving DecidableEq, Repr

/-- `ChainOfCustodyDriveReportSchema`. -/
structure DriveReport where
  driveId : Nat
  driveSn : Str
  driveManufacturer : Option Str
  driveModel : Option Str
  projectId : Option ProjectId
  evidenceNumber : Option Str
  custodyComplete : Bool
  deliveryTime : Option Nat
  chainOfCustodyEvents : List CustodyEvent
  manifestSummary : List ManifestSummary
  deriving DecidableEq, Repr

inductive SelectorMode where
  | job | driveId | driveSn | project
  deriving DecidableEq, Repr

/-- `ChainOfCustodyReportSchema`, without the times of a snapshot. -/
structure Report where
  selectorMode : SelectorMode
  projectId : Option ProjectId
  reports : List DriveReport
  deriving DecidableEq, Repr

/-! ### Lifecycles -/

/-- `_handoff_event_matches_job_lifecycle`. -/
def handoffEventMatchesJobLifecycle (event : AuditLog) (jobId lifecycleStartAt : Option Nat)
    (lifecycleStartEventId : Option Nat) : Bool :=
  match jobId with
  | none =>
      match lifecycleStartAt, event.timestamp with
      | none, _ => true
      | some _, none => false
      | some start, some timestamp =>
          if start < timestamp then true
          else if timestamp < start then false
          else match lifecycleStartEventId with
            | none => true
            | some startEventId => startEventId ≤ event.id
  | some jobId =>
      match event.jobId, lifecycleStartAt with
      | some eventJobId, _ => eventJobId = jobId
      | none, none => false
      | none, some start => event.timestamp.any fun timestamp => start ≤ timestamp

/-- `_job_drive_lifecycle_start_at`. -/
def jobDriveLifecycleStartAt (job : Job) (assignment : Option Assignment) : Option Nat :=
  (((assignment.bind Assignment.assignedAt).or job.createdAt).or job.startedAt).or job.completedAt

/-! ### Parts of a report -/

/-- `datetime.fromisoformat`, in the one time zone. -/
abbrev IsoFormat := Str → Option Nat

/-- `_parse_iso_datetime`. -/
def parseIsoDatetime (fromisoformat : IsoFormat) (value : Option Str) : Option Nat :=
  (truthy value).bind fun text =>
    fromisoformat (text.flatMap fun c => if c = 'Z' then "+00:00".toList else [c])

def driveSerialForCoc (drive : Drive) : Str :=
  ((parsePersistentDeviceIdentifier (some drive.deviceIdentifier)).reverse.lookup
    "serial".toList).getD []

/-- `_extract_job_creation_details`, or no details. -/
def jobCreationDetails (events : List AuditLog) (jobId : Nat) : Details :=
  let created := events.filter fun e => e.action = .job .jobCreated ∧ e.jobId = some jobId
  (created.getLast?.bind AuditLog.details).getD .empty

def custodyEvent (e : AuditLog) : Except CustodyError CustodyEvent := do
  let timestamp ← orReject e.timestamp .invalidEvent
  return ⟨e.id, e.action, timestamp, e.user, e.action.label, e.details.getD .empty⟩

/-- `_assemble_manifest_summary`: the jobs and what there is for each. -/
def assembleManifestSummary (driveId : Nat) (jobIds : List Nat) (jobsById : Nat → Option Job)
    (manifestsByJob : Nat → List Manifest) (assignmentByDriveAndJob : Nat → Nat → Option Assignment)
    (jobCreationDetailsByJob : Nat → Details) : List ManifestSummary :=
  jobIds.filterMap fun jobId => (jobsById jobId).map fun job =>
    let assignment := assignmentByDriveAndJob driveId jobId
    let rows :=
      orderBy (fun m : Manifest => toLex (m.createdAt.getD 0, m.id)) (manifestsByJob jobId)
    let latest := rows.getLast?
    let details := jobCreationDetailsByJob jobId
    { jobId := job.id
      evidenceNumber := job.evidenceNumber
      processorNotes := (truthy details.processorNotes).or details.notes
      totalFiles := (assignment.map Assignment.fileCount).getD 0
      totalBytes := (assignment.map Assignment.copiedBytes).getD 0
      manifestCount := rows.length
      latestManifestPath := latest.bind Manifest.manifestPath
      latestManifestFormat := latest.bind Manifest.format
      latestManifestCreatedAt := latest.bind Manifest.createdAt }

def latestHandoff (events : List AuditLog) : Option AuditLog :=
  (events.filter fun e => e.action = .drive .cocHandoffConfirmed).getLast?

/-- The entry of a drive, from its events and what is known about its jobs. -/
def driveReport (fromisoformat : IsoFormat) (drive : Drive) (projectId : Option ProjectId)
    (evidenceNumber : Option Str) (events : List AuditLog) (summary : List ManifestSummary) :
    Except CustodyError DriveReport := do
  let cocEvents ← events.mapM custodyEvent
  let handoff := latestHandoff events
  return {
    driveId := drive.id
    driveSn := driveSerialForCoc drive
    driveManufacturer := drive.manufacturer
    driveModel := drive.productName
    projectId := projectId
    evidenceNumber := evidenceNumber
    custodyComplete := handoff.isSome
    deliveryTime := parseIsoDatetime fromisoformat
      ((handoff.bind AuditLog.details).bind Details.deliveryTime)
    chainOfCustodyEvents := cocEvents
    manifestSummary := summary }

def isDriveAction : AuditAction → Bool
  | .drive _ => true
  | _ => false

def isJobAction : AuditAction → Bool
  | .job _ => true
  | _ => false

namespace CustodyDb

/-- The assignments of a job to drives, in their order. -/
def assignmentsOf (db : CustodyDb) (jobId : Nat) : List Assignment :=
  db.assignments.select (fun a => a.jobId = jobId) (byKey Assignment.key)

/-- The last assignment of the job to the drive, as the dictionary has it. -/
def lastAssignment (db : CustodyDb) (driveId jobId : Nat) : Option Assignment :=
  ((db.assignmentsOf jobId).filter fun a => a.driveId = driveId).getLast?

def jobDrives (db : CustodyDb) (job : Job) : List Drive :=
  db.drives.select (fun d => (db.assignmentsOf job.id).any fun a => a.driveId = d.id)
    (byKey Drive.id)

/-- `drive_events`. -/
def driveEvents (db : CustodyDb) (job : Job) : List AuditLog :=
  db.auditLogs.select
    (fun e => isDriveAction e.action ∧ e.projectId = some job.projectId ∧
      (db.jobDrives job).any fun d => e.driveId = some d.id)
    (byKey AuditLog.key)

/-- `job_events`. -/
def jobEvents (db : CustodyDb) (job : Job) : List AuditLog :=
  db.auditLogs.select (fun e => isJobAction e.action ∧ e.jobId = some job.id) (byKey AuditLog.key)

def lifecycleStart (db : CustodyDb) (job : Job) (driveId : Nat) : Option Nat :=
  jobDriveLifecycleStartAt job (db.lastAssignment driveId job.id)

/-- The events of a drive in the report of a job: handoffs of its lifecycle only. -/
def jobDriveEvents (db : CustodyDb) (job : Job) (driveId : Nat) : List AuditLog :=
  let own := (db.driveEvents job).filter fun e => e.driveId = some driveId ∧
    (e.action ≠ .drive .cocHandoffConfirmed ∨
      handoffEventMatchesJobLifecycle e (some job.id) (db.lifecycleStart job driveId) none)
  orderBy AuditLog.key (own ++ db.jobEvents job)

def jobDriveReport (fromisoformat : IsoFormat) (db : CustodyDb) (job : Job) (drive : Drive) :
    Except CustodyError DriveReport :=
  driveReport fromisoformat drive (some job.projectId) (some job.evidenceNumber)
    (db.jobDriveEvents job drive.id)
    (assembleManifestSummary drive.id [job.id] (fun _ => some job)
      (fun jobId => db.manifests.rows.filter fun m => m.jobId = jobId) db.lastAssignment
      (jobCreationDetails (db.jobEvents job)))

/-- `_build_job_chain_of_custody_report`. -/
def buildJobReport (fromisoformat : IsoFormat) (db : CustodyDb) (job : Job) :
    Except CustodyError Report := do
  ensure (db.assignmentsOf job.id ≠ []) .noAssignments
  let reports ← (db.jobDrives job).mapM (db.jobDriveReport fromisoformat job)
  return ⟨.job, some job.projectId, reports⟩

/-! ### Summaries of a batch of jobs -/

def sortedIds (ids : List Nat) : List Nat := orderBy id ids.dedup

/-- The assignments of the jobs of a batch that are not archived. -/
structure Batch where
  activeJobIds : List Nat
  assignments : List Assignment
  projectIds : List ProjectId

def normalizedJobIds (jobIds : List Int) : List Nat :=
  sortedIds ((jobIds.filter fun jobId => 0 < jobId).map Int.toNat)

def batchJobs (db : CustodyDb) (jobIds : List Int) : List Job :=
  db.jobs.rows.filter fun job => job.id ∈ normalizedJobIds jobIds

def batch (db : CustodyDb) (jobIds : List Int) : Batch :=
  let active := (db.batchJobs jobIds).filter fun job => job.status ≠ .archived
  let activeJobIds := active.map Job.id
  let assignments := db.assignments.select (fun a => a.jobId ∈ activeJobIds) (byKey Assignment.key)
  ⟨activeJobIds, assignments,
    (active.filter fun job => assignments.any fun a => a.jobId = job.id).map Job.projectId⟩

/-- The handoff events that are fetched for a batch. -/
def handoffEvents (db : CustodyDb) (b : Batch) : List AuditLog :=
  db.auditLogs.select
    (fun e => e.action = .drive .cocHandoffConfirmed ∧
      (e.driveId.any fun driveId => driveId ∈ b.assignments.map Assignment.driveId) ∧
      (e.projectId.any fun projectId => projectId ∈ b.projectIds) ∧
      (e.jobId.all fun jobId => jobId ∈ b.activeJobIds))
    (byKey AuditLog.key)

/-- The answer for a job that is not archived. -/
def activeSummary (db : CustodyDb) (b : Batch) (job : Job) : Option Bool :=
  -- The dictionary entries of the job, each the last assignment to its drive.
  let own := b.assignments.filter fun a => a.jobId = job.id
  let states := (sortedIds (own.map Assignment.driveId)).map fun driveId =>
    let assignment := (own.filter fun a => a.driveId = driveId).getLast?
    let lifecycleStartAt := jobDriveLifecycleStartAt job assignment
    (db.handoffEvents b).any fun e => e.driveId = some driveId ∧
      e.projectId = some job.projectId ∧
      handoffEventMatchesJobLifecycle e (some job.id) lifecycleStartAt none
  if states = [] then none else some (states.all id)

/-- The answer for an archived job, from its stored report. -/
def archivedSummary (db : CustodyDb) (job : Job) : Option Bool :=
  let snapshot := db.snapshots.rows.find? fun snapshot => snapshot.jobId = job.id
  match snapshot.bind Snapshot.custodyComplete with
  | none | some [] => none
  | some states => some (states.all id)

/-- `get_job_custody_summaries`. -/
def getJobCustodySummaries (db : CustodyDb) (jobIds : List Int) : List (Nat × Option Bool) :=
  (normalizedJobIds jobIds).map fun jobId => (jobId,
    match (db.batchJobs jobIds).find? fun job => job.id = jobId with
    | none => none
    | some job =>
        if job.status = .archived then db.archivedSummary job
        else db.activeSummary (db.batch jobIds) job)

/-! ### Reports by a selector -/

def ensureBinding (drive : Drive) (projectId : Option ProjectId) : Except CustodyError Unit := do
  ensure (projectId.all fun given => drive.currentProjectId.all fun bound => bound = given)
    .bindingMismatch
  ensure (projectId ≠ none ∨ drive.currentProjectId ≠ none) .bindingMissing

/-- The drive of a serial number: by its identifier, or the only one that
matches, those of the project first. -/
def driveBySerial (db : CustodyDb) (driveSn : Str) (projectId : Option ProjectId) :
    Except CustodyError Drive :=
  match db.drives.rows.filter fun d => d.deviceIdentifier = driveSn with
  | [drive] => .ok drive
  | _ :: _ :: _ => .error .serialAmbiguous
  | [] =>
      let serialMatches := db.drives.rows.filter fun d =>
        deviceIdentifierMatches (some d.deviceIdentifier) (some driveSn) d.portSystemPath
      let projectScopedMatches := serialMatches.filter fun d =>
        projectId ≠ none ∧ d.currentProjectId = projectId
      match if projectScopedMatches ≠ [] then projectScopedMatches else serialMatches with
      | [] => .error .serialNotFound
      | [drive] => .ok drive
      | _ :: _ :: _ => .error .serialAmbiguous

/-- Whether the job belongs to the project; without a project every job does. -/
def jobInProject (db : CustodyDb) (projectId : Option ProjectId) (jobId : Nat) : Bool :=
  (db.jobs.get jobId).any fun job => projectId.all fun given => job.projectId = given

/-- The drives that have taken part in the project: by an event or by an assignment. -/
def historicalDriveIds (db : CustodyDb) (projectId : ProjectId) : List Nat :=
  ((db.auditLogs.rows.filter fun e => e.projectId = some projectId ∧
      (isDriveAction e.action ∨ isJobAction e.action)).filterMap AuditLog.driveId) ++
    (db.assignments.rows.filter fun a => db.jobInProject (some projectId) a.jobId).map
      Assignment.driveId

/-- `_resolve_coc_targets`. -/
def resolveCocTargets (db : CustodyDb) (driveId : Option Nat) (driveSn : Option Str)
    (projectId : Option ProjectId) : Except CustodyError (SelectorMode × List Drive) :=
  match driveId, driveSn, projectId with
  | none, none, none => .error .selectorRequired
  | some driveId, _, _ => do
      let drive ← orReject (db.drives.get driveId) .driveNotFound
      ensureBinding drive projectId
      return (.driveId, [drive])
  | none, some driveSn, _ => do
      let drive ← db.driveBySerial driveSn projectId
      ensureBinding drive projectId
      return (.driveSn, [drive])
  | none, none, some projectId =>
      .ok (.project, db.drives.select (fun d => d.currentProjectId = some projectId ∨
        d.id ∈ db.historicalDriveIds projectId) (byKey Drive.id))

/-- The drives of a report and `effective_project_ids`. -/
structure Scope where
  drives : List Drive
  projectOf : Nat → Option ProjectId

/-- `raw_assignments`. -/
def rawAssignments (db : CustodyDb) (s : Scope) : List Assignment :=
  db.assignments.select
    (fun a => (db.jobs.get a.jobId).isSome ∧ s.drives.any fun d => d.id = a.driveId)
    (byKey Assignment.key)

def inScope (db : CustodyDb) (s : Scope) (a : Assignment) : Bool :=
  db.jobInProject (s.projectOf a.driveId) a.jobId

/-- `job_ids_per_drive`, sorted. -/
def jobIdsPerDrive (db : CustodyDb) (s : Scope) (driveId : Nat) : List Nat :=
  sortedIds (((db.rawAssignments s).filter fun a => a.driveId = driveId ∧ db.inScope s a).map
    Assignment.jobId)

def allJobIds (db : CustodyDb) (s : Scope) : List Nat :=
  s.drives.flatMap fun d => db.jobIdsPerDrive s d.id

/-- `job_id_to_drive_id`: a job of several drives keeps the last. -/
def jobIdToDriveId (db : CustodyDb) (s : Scope) (jobId : Nat) : Option Nat :=
  ((s.drives.filter fun d => jobId ∈ db.jobIdsPerDrive s d.id).getLast?).map Drive.id

def assignmentByDriveAndJob (db : CustodyDb) (s : Scope) (driveId jobId : Nat) :
    Option Assignment :=
  ((db.rawAssignments s).filter fun a =>
    (a.driveId = driveId ∧ a.jobId = jobId) ∧ db.inScope s a).getLast?

/-- `all_events`. -/
def allEvents (db : CustodyDb) (s : Scope) : List AuditLog :=
  db.auditLogs.select
    (fun e => (isDriveAction e.action ∧ s.drives.any fun d => e.driveId = some d.id) ∨
      (isJobAction e.action ∧ e.jobId.any fun jobId => jobId ∈ db.allJobIds s))
    (byKey AuditLog.key)

/-- Whether an event is listed for the drive. -/
def routes (db : CustodyDb) (s : Scope) (driveId : Nat) (e : AuditLog) : Bool :=
  match e.action with
  | .drive _ => e.driveId = some driveId ∧
      (s.projectOf driveId).all fun projectId => e.projectId = some projectId
  | .job _ => e.jobId.bind (db.jobIdToDriveId s) = some driveId
  | .other _ => false

def eventsPerDrive (db : CustodyDb) (s : Scope) (driveId : Nat) : List AuditLog :=
  (db.allEvents s).filter (db.routes s driveId)

/-- `jobs_by_id`. -/
def jobsById (db : CustodyDb) (s : Scope) (jobId : Nat) : Option Job :=
  if jobId ∈ db.allJobIds s then db.jobs.get jobId else none

/-- `manifests_by_job`. -/
def manifestsByJob (db : CustodyDb) (s : Scope) (jobId : Nat) : List Manifest :=
  db.manifests.rows.filter fun m => m.jobId = jobId ∧ jobId ∈ db.allJobIds s

/-- The first evidence number of the jobs of the drive. -/
def evidenceNumber (db : CustodyDb) (s : Scope) (driveId : Nat) : Option Str :=
  (db.jobIdsPerDrive s driveId).findSome? fun jobId =>
    truthy ((db.jobsById s jobId).map Job.evidenceNumber)

def scopedDriveReport (fromisoformat : IsoFormat) (db : CustodyDb) (s : Scope) (drive : Drive) :
    Except CustodyError DriveReport :=
  driveReport fromisoformat drive (s.projectOf drive.id) (db.evidenceNumber s drive.id)
    (db.eventsPerDrive s drive.id)
    (assembleManifestSummary drive.id (db.jobIdsPerDrive s drive.id) (db.jobsById s)
      (db.manifestsByJob s) (db.assignmentByDriveAndJob s) (jobCreationDetails (db.allEvents s)))

/-- `_build_all_drive_reports`. -/
def buildAllDriveReports (fromisoformat : IsoFormat) (db : CustodyDb) (s : Scope) :
    Except CustodyError (List DriveReport) :=
  (orderBy Drive.id s.drives).mapM (db.scopedDriveReport fromisoformat s)

/-- The project of each drive: the given one, or the one it is bound to. -/
def scopeOf (drives : List Drive) (projectId : Option ProjectId) : Scope where
  drives := drives
  projectOf driveId := (drives.find? fun d => d.id = driveId).bind fun d =>
    projectId.or d.currentProjectId

/-- `get_chain_of_custody_report`. -/
def getChainOfCustodyReport (fromisoformat : IsoFormat) (db : CustodyDb) (driveId : Option Nat)
    (driveSn : Option Str) (projectId : Option ProjectId) : Except CustodyError Report := do
  let (selectorMode, drives) ← db.resolveCocTargets driveId driveSn projectId
  let reports ← db.buildAllDriveReports fromisoformat (scopeOf drives projectId)
  return ⟨selectorMode, projectId, reports⟩

end CustodyDb

end Ecube.Custody
