import Ecube.Invariants.CustodySummary

/-!
Custody reports by project and by drive.

A report of a project is built for all its drives at once. What is read about
the jobs of a drive does not depend on the other drives
(`scopedDriveReport_eq`), but an event of a job is listed for one drive of the
job only, the last. `getChainOfCustodyReport_eq_iff`: the two reports of a drive
are equal exactly when no job with events has a drive behind it.
-/

namespace Ecube.Custody

open OrderBy CustodyDb

section Scope

variable {db : CustodyDb} {s : Scope} {projectId : ProjectId} {drive : Drive} {k : Nat}
  {fromisoformat : IsoFormat}

/-! ### The jobs of a drive in a project -/

def ownAssignments (db : CustodyDb) (projectId : ProjectId) (driveId : Nat) : List Assignment :=
  db.assignments.select (fun a => a.driveId = driveId ∧ db.jobInProject (some projectId) a.jobId)
    (byKey Assignment.key)

def ownJobIds (db : CustodyDb) (projectId : ProjectId) (driveId : Nat) : List Nat :=
  sortedIds ((ownAssignments db projectId driveId).map Assignment.jobId)

theorem mem_ownJobIds {driveId : Nat} :
    k ∈ ownJobIds db projectId driveId ↔
      db.jobInProject (some projectId) k = true ∧
        ∃ a ∈ db.assignments, a.driveId = driveId ∧ a.jobId = k := by
  simp only [ownJobIds, mem_sortedIds, List.mem_map, ownAssignments, Table.mem_select,
    decide_eq_true_eq]
  constructor
  · rintro ⟨a, ⟨mem, ofDrive, own⟩, rfl⟩
    exact ⟨own, a, mem, ofDrive, rfl⟩
  · rintro ⟨own, a, mem, ofDrive, rfl⟩
    exact ⟨a, ⟨mem, ofDrive, own⟩, rfl⟩

/-- The scope has the drive, for the project. -/
structure Covers (s : Scope) (projectId : ProjectId) (drive : Drive) : Prop where
  mem : drive ∈ s.drives
  project : s.projectOf drive.id = some projectId

theorem filter_rawAssignments (covered : Covers s projectId drive) :
    ((db.rawAssignments s).filter fun a => a.driveId = drive.id ∧ db.inScope s a) =
      ownAssignments db projectId drive.id := by
  rw [rawAssignments, filter_select (keyedBy_assignment _), ownAssignments]
  apply select_congr
  intro a _
  by_cases ofDrive : a.driveId = drive.id
  · have fetched : s.drives.any (fun d => d.id = a.driveId) = true :=
      List.any_eq_true.mpr ⟨drive, covered.mem, decide_eq_true ofDrive.symm⟩
    have scope : db.inScope s a = db.jobInProject (some projectId) a.jobId := by
      rw [inScope, ofDrive, covered.project]
    rw [scope, fetched]
    cases found : db.jobs.get a.jobId with
    | none => simp [jobInProject, found]
    | some job => simp [ofDrive]
  · simp [ofDrive]

theorem jobIdsPerDrive_eq (covered : Covers s projectId drive) :
    db.jobIdsPerDrive s drive.id = ownJobIds db projectId drive.id := by
  rw [jobIdsPerDrive, filter_rawAssignments covered, ownJobIds]

theorem mem_allJobIds (covered : Covers s projectId drive)
    (own : k ∈ ownJobIds db projectId drive.id) : k ∈ db.allJobIds s := by
  rw [← jobIdsPerDrive_eq covered] at own
  exact List.mem_flatMap.mpr ⟨drive, covered.mem, own⟩

theorem assignmentByDriveAndJob_eq (covered : Covers s projectId drive) :
    db.assignmentByDriveAndJob s drive.id k =
      ((ownAssignments db projectId drive.id).filter fun a => a.jobId = k).getLast? := by
  rw [assignmentByDriveAndJob, ← filter_rawAssignments covered, List.filter_filter]
  congr 2
  funext a
  by_cases ofJob : a.jobId = k <;> simp [ofJob]

/-! ### What does not depend on the other drives -/

def ownEvidence (db : CustodyDb) (projectId : ProjectId) (driveId : Nat) : Option Str :=
  (ownJobIds db projectId driveId).findSome? fun jobId =>
    truthy ((db.jobs.get jobId).map Job.evidenceNumber)

def ownSummary (db : CustodyDb) (projectId : ProjectId) (driveId : Nat) : List ManifestSummary :=
  assembleManifestSummary driveId (ownJobIds db projectId driveId) db.jobs.get
    (fun jobId => db.manifests.rows.filter fun m => m.jobId = jobId)
    (fun driveId jobId =>
      ((ownAssignments db projectId driveId).filter fun a => a.jobId = jobId).getLast?)
    (jobCreationDetails (db.auditLogs.select (fun e => isJobAction e.action) (byKey AuditLog.key)))

theorem jobCreationDetails_eq (covered : Covers s projectId drive)
    (own : k ∈ ownJobIds db projectId drive.id) :
    jobCreationDetails (db.allEvents s) k =
      jobCreationDetails
        (db.auditLogs.select (fun e => isJobAction e.action) (byKey AuditLog.key)) k := by
  have listed := mem_allJobIds covered own
  rw [jobCreationDetails, jobCreationDetails, allEvents, filter_select (keyedBy_auditLog _),
    filter_select (keyedBy_auditLog _)]
  congr 3
  apply select_congr
  intro e _
  by_cases created : e.action = .job .jobCreated ∧ e.jobId = some k
  · simp [created.1, created.2, isDriveAction, isJobAction, listed]
  · simp [created]

theorem evidenceNumber_eq (covered : Covers s projectId drive) :
    db.evidenceNumber s drive.id = ownEvidence db projectId drive.id := by
  rw [evidenceNumber, ownEvidence, jobIdsPerDrive_eq covered, ← List.head?_filterMap,
    ← List.head?_filterMap]
  refine congrArg List.head? (List.filterMap_congr fun k own => ?_)
  rw [jobsById, if_pos (mem_allJobIds covered own)]

theorem summary_eq (covered : Covers s projectId drive) :
    assembleManifestSummary drive.id (db.jobIdsPerDrive s drive.id) (db.jobsById s)
      (db.manifestsByJob s) (db.assignmentByDriveAndJob s) (jobCreationDetails (db.allEvents s)) =
      ownSummary db projectId drive.id := by
  rw [ownSummary, assembleManifestSummary, assembleManifestSummary, jobIdsPerDrive_eq covered]
  apply List.filterMap_congr
  intro k own
  have listed := mem_allJobIds covered own
  have rows : db.manifestsByJob s k = db.manifests.rows.filter fun m => m.jobId = k := by
    simp [manifestsByJob, listed]
  rw [jobsById, if_pos listed, rows, assignmentByDriveAndJob_eq covered,
    jobCreationDetails_eq covered own]

theorem scopedDriveReport_eq (covered : Covers s projectId drive) :
    db.scopedDriveReport fromisoformat s drive =
      driveReport fromisoformat drive (some projectId) (ownEvidence db projectId drive.id)
        (db.eventsPerDrive s drive.id) (ownSummary db projectId drive.id) := by
  rw [scopedDriveReport, covered.project, evidenceNumber_eq covered, summary_eq covered]

/-! ### The events of a drive -/

theorem mem_allJobIds_of_owner {driveId : Nat} (owner : db.jobIdToDriveId s k = some driveId) :
    k ∈ db.allJobIds s := by
  obtain ⟨d, final, rfl⟩ := Option.map_eq_some_iff.mp owner
  obtain ⟨mem, own⟩ := List.mem_filter.mp (List.mem_of_getLast? final)
  exact List.mem_flatMap.mpr ⟨d, mem, of_decide_eq_true own⟩

/-- The events of a drive are the ones that are routed to it. -/
theorem eventsPerDrive_eq (mem : drive ∈ s.drives) :
    db.eventsPerDrive s drive.id =
      db.auditLogs.select (db.routes s drive.id) (byKey AuditLog.key) := by
  rw [eventsPerDrive, allEvents, filter_select (keyedBy_auditLog _)]
  apply select_congr
  intro e _
  cases routed : db.routes s drive.id e with
  | false => simp
  | true =>
      rw [Bool.and_true, decide_eq_true_eq]
      rw [routes] at routed
      split at routed
      next action kind =>
        have ofDrive := (of_decide_eq_true routed).1
        exact .inl ⟨by rw [kind]; rfl, List.any_eq_true.mpr ⟨drive, mem, decide_eq_true ofDrive⟩⟩
      next action kind =>
        obtain ⟨jobId, named, owner⟩ := Option.bind_eq_some_iff.mp (of_decide_eq_true routed)
        refine .inr ⟨by rw [kind]; rfl, ?_⟩
        rw [named]
        exact decide_eq_true (mem_allJobIds_of_owner owner)
      next => cases routed

theorem eventId_driveReport {projectId : Option ProjectId} {evidence : Option Str}
    {events : List AuditLog} {summary : List ManifestSummary} {r : DriveReport}
    (h : driveReport fromisoformat drive projectId evidence events summary = .ok r) :
    r.chainOfCustodyEvents.map CustodyEvent.eventId = events.map AuditLog.id := by
  simp only [driveReport, bind_eq_ok, pure_eq_ok] at h
  obtain ⟨cocEvents, made, rfl⟩ := h
  have entries := mapM_eq_ok.mp made
  clear made
  induction entries with
  | nil => rfl
  | cons entry _ ih =>
      simp only [custodyEvent, bind_eq_ok, pure_eq_ok] at entry
      obtain ⟨timestamp, -, rfl⟩ := entry
      exact congrArg _ ih

/-- The entries of a drive in two scopes are equal exactly if the same events
are routed to it. -/
theorem scopedDriveReport_eq_iff {s' : Scope} {r r' : DriveReport}
    (covered : Covers s projectId drive) (covered' : Covers s' projectId drive)
    (made : db.scopedDriveReport fromisoformat s drive = .ok r)
    (made' : db.scopedDriveReport fromisoformat s' drive = .ok r') :
    r = r' ↔ ∀ e ∈ db.auditLogs, db.routes s drive.id e = db.routes s' drive.id e := by
  rw [scopedDriveReport_eq covered, eventsPerDrive_eq covered.mem] at made
  rw [scopedDriveReport_eq covered', eventsPerDrive_eq covered'.mem] at made'
  constructor
  · rintro rfl e mem
    have ids := (eventId_driveReport made).symm.trans (eventId_driveReport made')
    have listed : ∀ p : AuditLog → Bool,
        p e = true ↔ e.id ∈ (db.auditLogs.select p (byKey AuditLog.key)).map AuditLog.id := by
      intro p
      constructor
      · exact fun chosen => List.mem_map_of_mem (Table.mem_select.mpr ⟨mem, chosen⟩)
      · intro named
        obtain ⟨e', mem', same⟩ := List.mem_map.mp named
        obtain ⟨row, chosen⟩ := Table.mem_select.mp mem'
        rwa [Table.eq_of_id_eq row mem same] at chosen
    rw [Bool.eq_iff_iff, listed, listed, ids]
  · intro same
    rw [select_congr same, made'] at made
    exact (Except.ok.inj made).symm

theorem covers_scopeOf {drives : List Drive} (mem : drive ∈ drives) :
    Covers (scopeOf drives (some projectId)) projectId drive := by
  refine ⟨mem, ?_⟩
  cases found : drives.find? fun d => d.id = drive.id with
  | none => exact absurd (List.find?_eq_none.mp found drive mem) (by simp)
  | some d =>
      simp only [scopeOf, found]
      rfl

/-! ### The owner of a job's events -/

def projectDrives (db : CustodyDb) (projectId : ProjectId) : List Drive :=
  db.drives.select (fun d => d.currentProjectId = some projectId ∨
    d.id ∈ db.historicalDriveIds projectId) (byKey Drive.id)

def projectScope (db : CustodyDb) (projectId : ProjectId) : Scope :=
  scopeOf (projectDrives db projectId) (some projectId)

def driveScope (drive : Drive) (projectId : ProjectId) : Scope := scopeOf [drive] (some projectId)

/-- A drive that a job of the project is assigned to is a drive of the project. -/
theorem exists_projectDrive {a : Assignment} (assigned : a ∈ db.assignments)
    (own : db.jobInProject (some projectId) a.jobId = true) :
    ∃ d ∈ projectDrives db projectId, d.id = a.driveId := by
  obtain ⟨d, row, same⟩ := db.assigned_drive a assigned
  refine ⟨d, Table.mem_select.mpr ⟨row, decide_eq_true (.inr ?_)⟩, same⟩
  rw [same, historicalDriveIds, List.mem_append]
  exact .inr (List.mem_map_of_mem (List.mem_filter.mpr ⟨assigned, own⟩))

theorem covers_projectScope (mem : drive ∈ projectDrives db projectId) :
    Covers (projectScope db projectId) projectId drive :=
  covers_scopeOf mem

theorem covers_driveScope : Covers (driveScope drive projectId) projectId drive :=
  covers_scopeOf (List.mem_singleton_self drive)

theorem jobIdToDriveId_driveScope :
    db.jobIdToDriveId (driveScope drive projectId) k = some drive.id ↔
      k ∈ ownJobIds db projectId drive.id := by
  have only : (driveScope drive projectId).drives = [drive] := rfl
  rw [jobIdToDriveId, only, ← jobIdsPerDrive_eq covers_driveScope]
  by_cases own : k ∈ db.jobIdsPerDrive (driveScope drive projectId) drive.id <;> simp [own]

/-- The owner is the last drive of the job. -/
theorem jobIdToDriveId_projectScope (mem : drive ∈ projectDrives db projectId) :
    db.jobIdToDriveId (projectScope db projectId) k = some drive.id ↔
      k ∈ ownJobIds db projectId drive.id ∧
        ∀ a ∈ db.assignments, a.jobId = k → a.driveId ≤ drive.id := by
  -- The drives of the job, in the order of their keys.
  set holders := (projectDrives db projectId).filter fun d =>
    k ∈ db.jobIdsPerDrive (projectScope db projectId) d.id with kept
  have holds : ∀ d, d ∈ holders ↔
      d ∈ projectDrives db projectId ∧ k ∈ ownJobIds db projectId d.id := by
    intro d
    rw [kept, List.mem_filter, decide_eq_true_eq]
    exact and_congr_right fun hd => by rw [jobIdsPerDrive_eq (covers_projectScope hd)]
  have sorted : holders.Pairwise fun a b => byKey Drive.id a b := pairwise_select.filter _
  change holders.getLast?.map Drive.id = some drive.id ↔ _
  constructor
  · intro owner
    obtain ⟨last, final, same⟩ := Option.map_eq_some_iff.mp owner
    have own := ((holds last).mp (List.mem_of_getLast? final)).2
    rw [same] at own
    refine ⟨own, fun a assigned ofJob => ?_⟩
    have inProject := (mem_ownJobIds.mp own).1
    obtain ⟨d, hd, named⟩ := exists_projectDrive assigned (ofJob ▸ inProject)
    have holder : d ∈ holders :=
      (holds d).mpr ⟨hd, mem_ownJobIds.mpr ⟨inProject, a, assigned, named.symm, ofJob⟩⟩
    rw [← named, ← same]
    exact key_le_of_getLast? sorted final holder
  · rintro ⟨own, largest⟩
    have holder : drive ∈ holders := (holds drive).mpr ⟨mem, own⟩
    obtain ⟨last, final⟩ := Option.isSome_iff_exists.mp
      (List.getLast?_isSome.mpr (List.ne_nil_of_mem holder))
    have behind : drive.id ≤ last.id := key_le_of_getLast? sorted final holder
    obtain ⟨-, a, assigned, ofDrive, ofJob⟩ :=
      mem_ownJobIds.mp ((holds last).mp (List.mem_of_getLast? final)).2
    have before := largest a assigned ofJob
    rw [final, Option.map_some, Option.some_inj]
    omega

theorem routes_eq_iff (mem : drive ∈ projectDrives db projectId) :
    (∀ e ∈ db.auditLogs, db.routes (projectScope db projectId) drive.id e =
        db.routes (driveScope drive projectId) drive.id e) ↔
      ∀ k ∈ ownJobIds db projectId drive.id,
        (∃ e ∈ db.auditLogs, isJobAction e.action ∧ e.jobId = some k) →
        db.jobIdToDriveId (projectScope db projectId) k = some drive.id := by
  constructor
  · rintro same k own ⟨e, row, kind, ofJob⟩
    have routed := same e row
    rw [routes, routes] at routed
    cases action : e.action with
    | job event =>
        simp only [action, ofJob, Option.bind_some, jobIdToDriveId_driveScope.mpr own,
          decide_true, decide_eq_true_eq] at routed
        exact routed
    | drive event => simp [action, isJobAction] at kind
    | other code => simp [action, isJobAction] at kind
  · intro owned e row
    rw [routes, routes, (covers_projectScope mem).project, covers_driveScope.project]
    cases action : e.action with
    | drive event => rfl
    | other code => rfl
    | job event =>
        cases ofJob : e.jobId with
        | none => rfl
        | some k =>
            rw [Option.bind_some, Option.bind_some]
            refine decide_eq_decide.mpr ⟨fun owner => ?_, fun owner => ?_⟩
            · exact jobIdToDriveId_driveScope.mpr ((jobIdToDriveId_projectScope mem).mp owner).1
            · have kind : isJobAction e.action = true := by rw [action]; rfl
              exact owned k (jobIdToDriveId_driveScope.mp owner) ⟨e, row, kind, ofJob⟩

/-! ### The two reports -/

/-- No job of the drive with events is assigned to a drive behind it. -/
def LastOfItsJobs (db : CustodyDb) (projectId : ProjectId) (driveId : Nat) : Prop :=
  ∀ job ∈ db.jobs, job.projectId = projectId →
    (∃ a ∈ db.assignments, a.jobId = job.id ∧ a.driveId = driveId) →
    (∃ e ∈ db.auditLogs, isJobAction e.action ∧ e.jobId = some job.id) →
    ∀ a ∈ db.assignments, a.jobId = job.id → a.driveId ≤ driveId

theorem jobInProject_iff :
    db.jobInProject (some projectId) k = true ↔
      ∃ job ∈ db.jobs, job.id = k ∧ job.projectId = projectId := by
  rw [jobInProject, Option.any_eq_true]
  constructor
  · rintro ⟨job, found, own⟩
    exact ⟨job, Table.mem_of_get found, Table.id_of_get found, of_decide_eq_true own⟩
  · rintro ⟨job, row, same, own⟩
    exact ⟨job, Table.get_eq_some_iff.mpr ⟨row, same⟩, decide_eq_true own⟩

theorem owned_iff (mem : drive ∈ projectDrives db projectId) :
    (∀ k ∈ ownJobIds db projectId drive.id,
        (∃ e ∈ db.auditLogs, isJobAction e.action ∧ e.jobId = some k) →
        db.jobIdToDriveId (projectScope db projectId) k = some drive.id) ↔
      LastOfItsJobs db projectId drive.id := by
  constructor
  · rintro owned job row own ⟨a, assigned, ofJob, ofDrive⟩ event
    have inProject : db.jobInProject (some projectId) job.id = true :=
      jobInProject_iff.mpr ⟨job, row, rfl, own⟩
    have listed : job.id ∈ ownJobIds db projectId drive.id :=
      mem_ownJobIds.mpr ⟨inProject, a, assigned, ofDrive, ofJob⟩
    exact ((jobIdToDriveId_projectScope mem).mp (owned job.id listed event)).2
  · intro last k listed event
    obtain ⟨inProject, a, assigned, ofDrive, ofJob⟩ := mem_ownJobIds.mp listed
    obtain ⟨job, row, rfl, own⟩ := jobInProject_iff.mp inProject
    exact (jobIdToDriveId_projectScope mem).mpr
      ⟨listed, last job row own ⟨a, assigned, ofJob, ofDrive⟩ event⟩

theorem getChainOfCustodyReport_project {report : Report}
    (h : db.getChainOfCustodyReport fromisoformat none none (some projectId) = .ok report)
    {r : DriveReport} (listed : r ∈ report.reports) :
    ∃ d ∈ projectDrives db projectId,
      db.scopedDriveReport fromisoformat (projectScope db projectId) d = .ok r := by
  simp only [getChainOfCustodyReport, bind_eq_ok, pure_eq_ok] at h
  obtain ⟨targets, resolved, reports, made, rfl⟩ := h
  cases resolved
  obtain ⟨d, hd, entry⟩ := (mem_mapM made).1 r listed
  exact ⟨d, mem_orderBy.mp hd, entry⟩

theorem getChainOfCustodyReport_drive {report : Report} {driveId : Nat}
    (h : db.getChainOfCustodyReport fromisoformat (some driveId) none (some projectId) =
      .ok report) :
    ∃ d r, db.drives.get driveId = some d ∧ report.reports = [r] ∧
      db.scopedDriveReport fromisoformat (driveScope d projectId) d = .ok r := by
  simp only [getChainOfCustodyReport, resolveCocTargets, bind_eq_ok, orReject_eq_ok,
    pure_eq_ok] at h
  obtain ⟨targets, ⟨d, found, -, -, rfl⟩, reports, made, rfl⟩ := h
  have entries := mapM_eq_ok.mp made
  cases entries with
  | cons entry rest =>
      cases rest
      exact ⟨d, _, found, rfl, entry⟩

theorem driveId_scopedDriveReport {r : DriveReport}
    (h : db.scopedDriveReport fromisoformat s drive = .ok r) : r.driveId = drive.id :=
  (driveReport_eq_ok h).1

theorem getChainOfCustodyReport_eq_iff {report report' : Report} {r : DriveReport}
    (byProject : db.getChainOfCustodyReport fromisoformat none none (some projectId) = .ok report)
    (listed : r ∈ report.reports)
    (byDrive : db.getChainOfCustodyReport fromisoformat (some r.driveId) none (some projectId) =
      .ok report') :
    report'.reports = [r] ↔ LastOfItsJobs db projectId r.driveId := by
  obtain ⟨d, mem, made⟩ := getChainOfCustodyReport_project byProject listed
  obtain ⟨d', r', found, reports, made'⟩ := getChainOfCustodyReport_drive byDrive
  have key := driveId_scopedDriveReport made
  have same : d' = d := by
    refine Table.eq_of_id_eq (Table.mem_of_get found) (Table.mem_select.mp mem).1 ?_
    exact (Table.id_of_get found).trans key
  subst same
  have entries :=
    scopedDriveReport_eq_iff (covers_projectScope mem) covers_driveScope made made'
  rw [reports, key, List.singleton_inj, eq_comm, entries, routes_eq_iff mem, owned_iff mem]

end Scope

/-! ### A job on two drives -/

namespace TwoDrives

def created : AuditLog :=
  ⟨1, some 5, none, .job .jobCreated, some Lab.projectP, none, some 1, none⟩

def drive (id : Nat) : Drive := ⟨id, "usb|serial=S".toList, none, none, none, some Lab.projectP⟩

/-- One job that was created and is assigned to two drives. -/
def db : CustodyDb where
  auditLogs := ⟨[created], 1, by decide, by decide⟩
  jobs := ⟨[⟨1, Lab.projectP, "E".toList, .completed, none, none, none⟩], 1, by decide, by decide⟩
  assignments := ⟨[⟨1, 1, 1, 3, 30, some 10⟩, ⟨2, 2, 1, 4, 40, some 10⟩], 2, by decide, by decide⟩
  drives := ⟨[drive 1, drive 2], 2, by decide, by decide⟩
  manifests := Table.empty
  snapshots := Table.empty
  job_pos := by decide
  assigned_drive := by decide

def creation : CustodyEvent := ⟨1, .job .jobCreated, 5, none, "Job created".toList, .empty⟩

def entry (driveId files bytes : Nat) (events : List CustodyEvent) : DriveReport :=
  ⟨driveId, "S".toList, none, none, some Lab.projectP, some "E".toList, false, none, events,
    [⟨1, "E".toList, none, files, bytes, 0, none, none, none⟩]⟩

def projectReport : Report :=
  ⟨.project, some Lab.projectP, [entry 1 3 30 [], entry 2 4 40 [creation]]⟩

def driveReport (entry : DriveReport) : Report := ⟨.driveId, some Lab.projectP, [entry]⟩

theorem byProject :
    db.getChainOfCustodyReport (fun _ => none) none none (some Lab.projectP) = .ok projectReport :=
  rfl

theorem byDrive_first :
    db.getChainOfCustodyReport (fun _ => none) (some 1) none (some Lab.projectP) =
      .ok (driveReport (entry 1 3 30 [creation])) :=
  rfl

theorem byDrive_last :
    db.getChainOfCustodyReport (fun _ => none) (some 2) none (some Lab.projectP) =
      .ok (driveReport (entry 2 4 40 [creation])) :=
  rfl

end TwoDrives

theorem getChainOfCustodyReport_eq_iff_last :
    (TwoDrives.driveReport (TwoDrives.entry 2 4 40 [TwoDrives.creation])).reports =
        [TwoDrives.entry 2 4 40 [TwoDrives.creation]] ↔
      LastOfItsJobs TwoDrives.db Lab.projectP 2 :=
  getChainOfCustodyReport_eq_iff TwoDrives.byProject (.tail _ (.head _)) TwoDrives.byDrive_last

/-- The report of the first drive by project lacks the creation of its job. -/
theorem getChainOfCustodyReport_misses_event :
    ¬ ∀ (fromisoformat : IsoFormat) (db : CustodyDb) (projectId : ProjectId)
        (report report' : Report) (r : DriveReport),
        db.getChainOfCustodyReport fromisoformat none none (some projectId) = .ok report →
        r ∈ report.reports →
        db.getChainOfCustodyReport fromisoformat (some r.driveId) none (some projectId) =
          .ok report' →
        report'.reports = [r] := by
  intro same
  have equal := same _ _ _ _ _ _ TwoDrives.byProject (.head _) TwoDrives.byDrive_first
  exact absurd equal (by decide)

end Ecube.Custody
