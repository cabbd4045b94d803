import Ecube.Services.Checks

/-!
The job service (`app/services/job_service.py`): creating, editing, deleting,
starting, retrying, continuing, pausing, completing, verifying and archiving
export jobs.

Each operation is a function of the database and the request, in the order of
the source: its checks, then its writes. Audit records, log lines, metrics and
callbacks are left out.
-/

namespace Ecube

/-! ### Creating a job -/

/-- The row of a new job. -/
def newJob (body : JobBody) (sourcePath : Str) (now id : Nat) : ExportJob where
  id := id
  projectId := body.projectId
  evidenceNumber := body.evidenceNumber
  sourcePath := sourcePath
  targetMountPath := none
  status := .pending
  totalBytes := 0
  copiedBytes := 0
  fileCount := 0
  threadCount := body.threadCount
  copyChunkSizeBytes := body.copyChunkSizeBytes
  copyProgressFlushBytes := body.copyProgressFlushBytes
  copyFileFsyncEnabled := body.copyFileFsyncEnabled
  maxFileRetries := body.maxFileRetries
  retryDelaySeconds := body.retryDelaySeconds
  startedAt := none
  copyStartedAt := none
  completedAt := none
  createdAt := now
  callbackUrl := body.callbackUrl
  failureReason := none
  startupAnalysis := ⟨.notAnalyzed, none, none, false, false⟩

/-- Insert the job row, under the seeded key if there is one, and return its key. -/
def insertJob (s : Db) (row : Nat → ExportJob) (key : ∀ k, (row k).id = k)
    (seededJobId : Option Nat) : Except Reject (Db × Nat) :=
  match seededJobId with
  | none => .ok ({ s with jobs := s.jobs.insert row key }, s.jobs.seq + 1)
  | some k =>
      if free : s.jobs.get (row k).id = none then
        .ok ({ s with jobs := s.jobs.insertAt (row k) free }, k)
      else .error (refuse s 409 s!"Job id {k} already exists")

/-- `_auto_assign_drive`: the drive for a job that names none, bound to the
project or still unbound. -/
def autoAssignDrive (rolledBack s : Db) (projectId : ProjectId) : Except Reject UsbDrive :=
  let project := String.ofList projectId.val
  match s.getOneAvailableForProject projectId with
  | some drive =>
      if 1 < s.countAvailableForProject projectId then
        .error (refuse rolledBack 409
          s!"Multiple drives assigned to project {project}; specify drive_id")
      else .ok drive
  | none =>
      orReject s.getNextUnboundAvailable
        (refuse rolledBack 409 s!"No available drive for project {project}")

/-- The primary drive of a new job: the requested one or an automatic choice. -/
def primaryDrive (rolledBack s : Db) (body : JobBody) : Except Reject UsbDrive :=
  match body.driveId with
  | some driveId => selectableDrive rolledBack rolledBack s body.projectId driveId
  | none => do
      let drive ← autoAssignDrive rolledBack s body.projectId
      ensure (truthy drive.mountPath ≠ none)
        (refuse rolledBack 409 "Assigned drive is not mounted")
      return drive

/-- Reserve the overflow drives of a new job, one after the other. A drive that
any job still holds is refused. -/
def reserveOverflowDrives (cfg : Settings) (rolledBack : Db) (projectId : ProjectId)
    (sourcePath : Str) (jobId now : Nat) : List Nat → List Nat → Db → Except Reject Db
  | [], _, s => .ok s
  | driveId :: rest, selected, s => do
      ensure (driveId ∉ selected) (refuse rolledBack 422 "Drive selections must be unique")
      let drive ← selectableDrive rolledBack rolledBack s projectId driveId
      ensure (s.isDriveAssignedToAnotherJob driveId none = false)
        (refuse rolledBack 409 "Drive is already assigned to another job")
      let _ ← orInvalid rolledBack
        (validateSourcePath sourcePath (some cfg.usbMountBasePath) drive.mountPath)
      reserveOverflowDrives cfg rolledBack projectId sourcePath jobId now rest (driveId :: selected)
        ((s.addAssignment driveId jobId now none).setDriveState driveId .inUse)

/-- The writes for the primary drive of a new job: the binding of an unbound
drive, the assignment, the drive state and the job's destination. -/
def assignPrimaryDrive (s : Db) (projectId : ProjectId) (drive : UsbDrive) (sourcePath : Str)
    (jobId now : Nat) : Db :=
  ((s.modifyDrive drive.id (fun d => { d with
      currentProjectId := some projectId, currentState := .inUse })
      (UsbDrive.taken_id projectId)).addAssignment
    drive.id jobId now (some now)).modifyJob jobId (fun j => { j with
      sourcePath := sourcePath, targetMountPath := drive.mountPath }) fun _ => rfl

def createJob (cfg : Settings) (s : Db) (body : JobBody) (seededJobId : Option Nat) (now : Nat) :
    Except Reject Db := do
  let resolved ← resolveJobSourcePath cfg s body
  let (s₁, jobId) ← insertJob s (newJob body resolved now) (fun _ => rfl) seededJobId
  ensure (∀ d ∈ body.overflowDriveIds, body.driveId ≠ some d)
    (refuse s 422 "Overflow drive list must not include the primary destination drive")
  let drive ← primaryDrive s s₁ body
  let sourcePath ← orInvalid s
    (validateSourcePath resolved (some cfg.usbMountBasePath) drive.mountPath)
  rejectSourcePathOverlap s s₁ drive.id sourcePath none
  reserveOverflowDrives cfg s body.projectId sourcePath jobId now body.overflowDriveIds [drive.id]
    (assignPrimaryDrive s₁ body.projectId drive sourcePath jobId now)

theorem mem_assignPrimaryDrive_drives {s : Db} {projectId : ProjectId} {drive d' : UsbDrive}
    {sourcePath : Str} {jobId now : Nat} :
    d' ∈ (assignPrimaryDrive s projectId drive sourcePath jobId now).drives ↔
      (d' ∈ s.drives ∧ d'.id ≠ drive.id) ∨ ∃ d ∈ s.drives, d.id = drive.id ∧
        d' = { d with currentProjectId := some projectId, currentState := .inUse } :=
  Table.mem_modify (f := fun d : UsbDrive => { d with
    currentProjectId := some projectId, currentState := .inUse }) fun _ => rfl

/-- The new job row is the only change, under a key no job had. -/
theorem insertJob_eq_ok {s s₁ : Db} {row : Nat → ExportJob} {key : ∀ k, (row k).id = k}
    {seeded : Option Nat} {jobId : Nat} (h : insertJob s row key seeded = .ok (s₁, jobId)) :
    (∃ jobs, s₁ = { s with jobs := jobs }) ∧ (∀ j, j ∈ s₁.jobs ↔ j ∈ s.jobs ∨ j = row jobId) ∧
      ∀ j ∈ s.jobs, j.id ≠ jobId := by
  cases seeded with
  | none =>
      obtain ⟨rfl, rfl⟩ := Prod.mk.inj (Except.ok.inj h)
      exact ⟨⟨_, rfl⟩, fun j => Table.mem_insert key, fun j hj => Table.ne_next hj⟩
  | some k =>
      rw [insertJob] at h
      split at h
      · rename_i free
        obtain ⟨rfl, rfl⟩ := Prod.mk.inj (Except.ok.inj h)
        refine ⟨⟨_, rfl⟩, fun j => Table.mem_insertAt free, fun j hj => ?_⟩
        rw [key] at free
        exact Table.get_eq_none_iff.mp free j hj
      · cases h

/-- The primary drive of a new job: bound to the project, or available and
unbound; and mounted. -/
theorem primaryDrive_eq_ok {rolledBack s : Db} {body : JobBody} {drive : UsbDrive}
    (h : primaryDrive rolledBack s body = .ok drive) :
    drive ∈ s.drives ∧ truthy drive.mountPath ≠ none ∧
      (drive.currentProjectId = some body.projectId ∨
        (drive.currentProjectId = none ∧ drive.currentState = .available)) := by
  rw [primaryDrive] at h
  split at h
  · obtain ⟨found, project, -, mounted⟩ := selectableDrive_eq_ok h
    exact ⟨Table.mem_of_get found, mounted, .inl project⟩
  · simp only [bind_eq_ok, ensure_eq_ok, pure_eq_ok] at h
    obtain ⟨d, auto, -, mounted, rfl⟩ := h
    rw [autoAssignDrive] at auto
    split at auto
    · rename_i bound
      split at auto
      · cases auto
      · obtain rfl := Except.ok.inj auto
        obtain ⟨mem, hp⟩ := Table.mem_of_first bound
        exact ⟨mem, mounted, .inl (of_decide_eq_true hp).2⟩
    · obtain ⟨mem, hp⟩ := Table.mem_of_first (orReject_eq_ok.mp auto)
      obtain ⟨available, unbound⟩ := of_decide_eq_true hp
      exact ⟨mem, mounted, .inr ⟨unbound, available⟩⟩

/-- What holds of the job and its primary drive, and survives every reservation
on a drive that nobody holds, holds after the overflow drives are reserved. -/
theorem reserveOverflowDrives_rule {P : Db → Prop} {cfg : Settings} {rolledBack : Db}
    {projectId : ProjectId} {sourcePath : Str} {jobId now : Nat}
    (keep : ∀ s d, P s → d ∈ s.drives → d.currentProjectId = some projectId →
      truthy d.mountPath ≠ none → (∀ a ∈ s.assignments, a.releasedAt = none → a.driveId ≠ d.id) →
      P ((s.addAssignment d.id jobId now none).setDriveState d.id .inUse)) :
    ∀ {driveIds selected : List Nat} {s s' : Db}, P s →
      reserveOverflowDrives cfg rolledBack projectId sourcePath jobId now driveIds selected s =
        .ok s' → P s' := by
  intro driveIds
  induction driveIds with
  | nil =>
      intro selected s s' hs h
      rw [← Except.ok.inj h]
      exact hs
  | cons driveId rest ih =>
      intro selected s s' hs h
      simp only [reserveOverflowDrives, bind_eq_ok, ensure_eq_ok, orInvalid_eq_ok] at h
      obtain ⟨-, -, drive, selectable, -, free, -, -, h⟩ := h
      obtain ⟨found, project, -, mounted⟩ := selectableDrive_eq_ok selectable
      have hid : drive.id = driveId := Table.id_of_get found
      refine ih (?_ : P _) h
      rw [← hid]
      apply keep s drive hs (Table.mem_of_get found) project mounted
      intro a ha held drive
      have := Table.any_eq_false_iff.mp free a ha
      simp [drive, hid, held] at this

/-- The jobs after a creation: those of before, and the new one on its drive. -/
theorem mem_created_jobs {s s₁ : Db} {row : Nat → ExportJob} {key : ∀ k, (row k).id = k}
    {seeded : Option Nat} {jobId now : Nat} {projectId : ProjectId} {drive : UsbDrive}
    {sourcePath : Str} (inserted : insertJob s row key seeded = .ok (s₁, jobId)) {j : ExportJob}
    (hj : j ∈ (assignPrimaryDrive s₁ projectId drive sourcePath jobId now).jobs) :
    (j ∈ s.jobs ∧ j.id ≠ jobId) ∨
      j = { row jobId with sourcePath := sourcePath, targetMountPath := drive.mountPath } := by
  obtain ⟨-, mem, fresh⟩ := insertJob_eq_ok inserted
  rcases Db.mem_modifyJob.mp hj with ⟨hj, other⟩ | ⟨r, hr, same, rfl⟩
  · rcases (mem j).mp hj with old | rfl
    · exact .inl ⟨old, other⟩
    · exact absurd (key jobId) other
  · rcases (mem r).mp hr with old | rfl
    · exact absurd same (fresh r old)
    · exact .inr rfl

/-- The parts of an accepted creation. -/
theorem createJob_eq_ok {cfg : Settings} {s s' : Db} {body : JobBody} {seeded : Option Nat}
    {now : Nat} (h : createJob cfg s body seeded now = .ok s') :
    ∃ s₁ jobId drive sourcePath resolved,
      insertJob s (newJob body resolved now) (fun _ => rfl) seeded = .ok (s₁, jobId) ∧
      primaryDrive s s body = .ok drive ∧ drive ∈ s.drives ∧ truthy drive.mountPath ≠ none ∧
      (drive.currentProjectId = some body.projectId ∨
        (drive.currentProjectId = none ∧ drive.currentState = .available)) ∧
      (resolveJobSourcePath cfg s body = .ok resolved ∧ sourcePath = normalizePath resolved ∧
        rejectSourcePathOverlap s s₁ drive.id sourcePath none = .ok ()) ∧
      reserveOverflowDrives cfg s body.projectId sourcePath jobId now body.overflowDriveIds
        [drive.id] (assignPrimaryDrive s₁ body.projectId drive sourcePath jobId now) = .ok s' := by
  simp only [createJob, bind_eq_ok, ensure_eq_ok, orInvalid_eq_ok] at h
  obtain ⟨resolved, path, ⟨s₁, jobId⟩, inserted, -, -, drive, primary, sourcePath, valid, ⟨⟩, apart, h⟩ := h
  obtain ⟨⟨jobs, rfl⟩, -, -⟩ := insertJob_eq_ok inserted
  obtain ⟨mem, mounted, bound⟩ := primaryDrive_eq_ok primary
  -- The choice of a drive does not read the jobs.
  exact ⟨_, jobId, drive, sourcePath, resolved, inserted, primary, mem, mounted, bound,
    ⟨path, validateSourcePath_eq_ok valid, apart⟩, h⟩

theorem leaves_createJob {P : Db → Prop} {cfg : Settings} {s : Db} {body : JobBody}
    {seeded : Option Nat} {now : Nat} (hs : P s) : Leaves P (createJob cfg s body seeded now) := by
  have inserted : ∀ resolved, Leaves P
      (insertJob s (newJob body resolved now) (fun _ => rfl) seeded) := by
    intro resolved
    cases seeded with
    | none => exact .ok _
    | some k =>
        unfold insertJob
        dsimp only
        split
        · exact .ok _
        · exact .error hs
  have primary : ∀ t, Leaves P (primaryDrive s t body) := by
    intro t
    rw [primaryDrive]
    split
    · exact leaves_selectableDrive hs fun _ _ _ _ => hs
    · refine .bind ?_ fun _ _ => .bind (.ensure hs) fun _ _ => .pure _
      rw [autoAssignDrive]
      split
      · split
        · exact .error hs
        · exact .ok _
      · exact .orReject hs
  have overflow : ∀ sourcePath jobId driveIds selected t, Leaves P
      (reserveOverflowDrives cfg s body.projectId sourcePath jobId now driveIds selected t) := by
    intro sourcePath jobId driveIds
    induction driveIds with
    | nil => exact fun selected t => .ok t
    | cons driveId rest ih =>
        intro selected t
        refine .bind (.ensure hs) fun _ _ => .bind (leaves_selectableDrive hs fun _ _ _ _ => hs) fun _ _ => ?_
        exact .bind (.ensure hs) fun _ _ => .bind (.orInvalid hs) fun _ _ => ih _ _
  refine .bind (leaves_resolveJobSourcePath hs) fun resolved _ => ?_
  refine .bind (inserted resolved) fun _ _ => .bind (.ensure hs) fun _ _ => ?_
  refine .bind (primary _) fun _ _ => .bind (.orInvalid hs) fun _ _ => ?_
  exact .bind (leaves_rejectSourcePathOverlap hs) fun _ _ => overflow _ _ _ _ _

/-! ### Starting, retrying and pausing -/

/-- `startup_analysis_ready`. -/
def StartupAnalysis.isReady (a : StartupAnalysis) : Bool :=
  (a.cachePresent || a.entries) && a.status = .ready

/-- The drive of an optional assignment. -/
def assignedDrive (s : Db) (assignment : Option DriveAssignment) : Option UsbDrive :=
  assignment.bind fun a => s.drives.get a.driveId

/-- The missing bytes that `needed` exceeds the known free space of the drive by. -/
def capacityShortfall (needed : Option Nat) (drive : Option UsbDrive) : Option (Nat × Nat) :=
  match needed, drive.bind UsbDrive.availableBytes with
  | some needed, some available => if available < needed then some (needed, available) else none
  | _, _ => none

def rejectStartWhenDriveCapacityIsInsufficient (committed s : Db) (job : ExportJob) :
    Except Reject Unit :=
  let estimated :=
    if job.copiedBytes = 0 ∧ job.startupAnalysis.isReady then job.startupAnalysis.totalBytes else none
  match capacityShortfall estimated (assignedDrive s (s.getActiveForJob job.id)) with
  | none => .ok ()
  | some (needed, available) =>
      .error (conflict committed
        ("Selected drive does not have enough available space to start this copy. "
          ++ s!"Estimated source size: {needed} bytes; "
          ++ s!"available drive space: {available} bytes; "
          ++ s!"shortfall: {needed - available} bytes. "
          ++ "Choose another drive or use the follow-on overflow workflow.")
        "DRIVE_CAPACITY_SHORTFALL")

/-- What `start_job` checks on the locked job row: the job and its validated source path. -/
def startableJob (cfg : Settings) (s : Db) (jobId : Nat) : Except Reject (ExportJob × Str) := do
  let job ← orReject (s.jobs.get jobId) (refuse s 404 "Job not found")
  rejectWhenStartupAnalysisRunning s job "start this job"
  ensure (job.status ∈ [JobStatus.pending, .failed, .paused])
    (refuse s 409 s!"Job is already in status JobStatus.{job.status.value}")
  let sourcePath ← orInvalid s
    (validateSourcePath job.sourcePath (some cfg.usbMountBasePath) job.targetMountPath)
  return (job, sourcePath)

/-- The capacity check of `start_job`. The audit record of its refusal commits
the revalidated path. -/
def startCapacity (s : Db) (job : ExportJob) (sourcePath : Str) : Except Reject Unit :=
  rejectStartWhenDriveCapacityIsInsufficient
    (s.modifyJob job.id (fun j => { j with sourcePath := sourcePath })
      (ExportJob.relocated_id sourcePath)) s job

def started (s : Db) (jobId : Nat) (sourcePath : Str) (threadCount : Option Nat) (now : Nat) : Db :=
  s.modifyJob jobId (fun j => { j with
    sourcePath := sourcePath
    status := .preparing
    startedAt := some now
    copyStartedAt := none
    completedAt := none
    threadCount := threadCount.or j.threadCount }) fun _ => rfl

def startJob (cfg : Settings) (s : Db) (jobId : Nat) (threadCount : Option Nat) (now : Nat) :
    Except Reject Db := do
  let (job, sourcePath) ← startableJob cfg s jobId
  startCapacity s job sourcePath
  return started s jobId sourcePath threadCount now

def retryFailedFiles (cfg : Settings) (s : Db) (jobId now : Nat) : Except Reject Db := do
  let job ← orReject (s.jobs.get jobId) (refuse s 404 "Job not found")
  rejectWhenStartupAnalysisRunning s job "retry failed files for this job"
  ensure (job.status = .completed)
    (refuse s 409 "Only completed jobs with failed files can retry failed copies")
  let sourcePath ← orInvalid s
    (validateSourcePath job.sourcePath (some cfg.usbMountBasePath) job.targetMountPath)
  ensure (0 < s.retryableCount jobId) (refuse s 409 "Job has no failed files to retry")
  return (s.resetFailedForRetry jobId).modifyJob jobId (fun j => { j with
    sourcePath := sourcePath
    status := .preparing
    startedAt := some now
    completedAt := none
    failureReason := none }) fun _ => rfl

def pauseJob (s : Db) (jobId : Nat) : Except Reject Db := do
  let job ← orReject (s.jobs.get jobId) (refuse s 404 "Job not found")
  ensure (job.status = .running)
    (refuse s 409 s!"Job is already in status JobStatus.{job.status.value}")
  return s.modifyJob jobId (fun j => { j with status := .pausing, completedAt := none }) fun _ => rfl

theorem startableJob_eq_ok {cfg : Settings} {s : Db} {jobId : Nat} {job : ExportJob}
    {sourcePath : Str} (h : startableJob cfg s jobId = .ok (job, sourcePath)) :
    s.jobs.get jobId = some job ∧ job.status ∈ [JobStatus.pending, .failed, .paused] := by
  simp only [startableJob, bind_eq_ok, orReject_eq_ok, ensure_eq_ok, orInvalid_eq_ok, pure_eq_ok] at h
  obtain ⟨row, found, -, -, -, status, path, -, same⟩ := h
  obtain ⟨rfl, rfl⟩ := Prod.mk.inj same
  exact ⟨found, status⟩

/-- An accepted start writes the job row and nothing else. -/
theorem startJob_eq_ok {cfg : Settings} {s s' : Db} {jobId now : Nat} {threadCount : Option Nat}
    (h : startJob cfg s jobId threadCount now = .ok s') :
    ∃ job, s.jobs.get jobId = some job ∧ job.status ∈ [JobStatus.pending, .failed, .paused] ∧
      ∃ sourcePath, startableJob cfg s jobId = .ok (job, sourcePath) ∧
        s' = started s jobId sourcePath threadCount now := by
  simp only [startJob, bind_eq_ok, pure_eq_ok] at h
  obtain ⟨⟨job, sourcePath⟩, startable, -, -, rfl⟩ := h
  obtain ⟨found, status⟩ := startableJob_eq_ok startable
  exact ⟨job, found, status, sourcePath, startable, rfl⟩

theorem leaves_startableJob {P : Db → Prop} {cfg : Settings} {s : Db} {jobId : Nat} (hs : P s) :
    Leaves P (startableJob cfg s jobId) := by
  refine .bind (.orReject hs) fun job _ => .bind (.ensure hs) fun _ _ => ?_
  exact .bind (.ensure hs) fun _ _ => .bind (.orInvalid hs) fun _ _ => .pure _

theorem leaves_startCapacity {P : Db → Prop} {s : Db} {job : ExportJob} {sourcePath : Str}
    (hpath : P (s.modifyJob job.id (fun j => { j with sourcePath := sourcePath }) fun _ => rfl)) :
    Leaves P (startCapacity s job sourcePath) := by
  unfold startCapacity rejectStartWhenDriveCapacityIsInsufficient
  dsimp only
  split
  · exact .ok ()
  · exact .error hpath

/-- A refused start leaves the database, or commits the revalidated source path. -/
theorem leaves_startJob {P : Db → Prop} {cfg : Settings} {s : Db} {jobId now : Nat}
    {threadCount : Option Nat} (hs : P s)
    (hpath : ∀ job sourcePath, startableJob cfg s jobId = .ok (job, sourcePath) →
      P (s.modifyJob jobId (fun j => { j with sourcePath := sourcePath }) fun _ => rfl)) :
    Leaves P (startJob cfg s jobId threadCount now) := by
  refine .bind (leaves_startableJob hs) fun pair found => .bind ?_ fun _ _ => .pure _
  obtain ⟨job, sourcePath⟩ := pair
  have hid : job.id = jobId := Table.id_of_get (startableJob_eq_ok found).1
  exact leaves_startCapacity (hid ▸ hpath job sourcePath found)

theorem retryFailedFiles_eq_ok {cfg : Settings} {s s' : Db} {jobId now : Nat}
    (h : retryFailedFiles cfg s jobId now = .ok s') :
    ∃ job, s.jobs.get jobId = some job ∧ job.status = .completed ∧ 0 < s.retryableCount jobId ∧
      ∃ sourcePath, sourcePath = normalizePath job.sourcePath ∧
        s' = (s.resetFailedForRetry jobId).modifyJob jobId (fun j => { j with
          sourcePath := sourcePath
          status := .preparing
          startedAt := some now
          completedAt := none
          failureReason := none }) fun _ => rfl := by
  simp only [retryFailedFiles, bind_eq_ok, orReject_eq_ok, ensure_eq_ok, orInvalid_eq_ok,
    pure_eq_ok] at h
  obtain ⟨job, found, -, -, -, status, sourcePath, valid, -, failed, rfl⟩ := h
  exact ⟨job, found, status, failed, sourcePath, validateSourcePath_eq_ok valid, rfl⟩

theorem leaves_retryFailedFiles {P : Db → Prop} {cfg : Settings} {s : Db} {jobId now : Nat}
    (hs : P s) : Leaves P (retryFailedFiles cfg s jobId now) := by
  refine .bind (.orReject hs) fun _ _ => .bind (.ensure hs) fun _ _ => ?_
  refine .bind (.ensure hs) fun _ _ => .bind (.orInvalid hs) fun _ _ => ?_
  exact .bind (.ensure hs) fun _ _ => .pure _

theorem pauseJob_eq_ok {s s' : Db} {jobId : Nat} (h : pauseJob s jobId = .ok s') :
    ∃ job, s.jobs.get jobId = some job ∧ job.status = .running ∧
      s' = s.modifyJob jobId (fun j => { j with status := .pausing, completedAt := none })
        fun _ => rfl := by
  simp only [pauseJob, bind_eq_ok, orReject_eq_ok, ensure_eq_ok, pure_eq_ok] at h
  obtain ⟨job, found, -, status, rfl⟩ := h
  exact ⟨job, found, status, rfl⟩

theorem leaves_pauseJob {P : Db → Prop} {s : Db} {jobId : Nat} (hs : P s) :
    Leaves P (pauseJob s jobId) :=
  .bind (.orReject hs) fun _ _ => .bind (.ensure hs) fun _ _ => .pure _

/-! ### Continuing on an overflow drive -/

def remainingEstimatedBytes (job : ExportJob) : Option Nat :=
  if job.startupAnalysis.isReady then
    job.startupAnalysis.totalBytes.map (· - job.copiedBytes)
  else none

def rejectOverflowWhenDriveCapacityIsInsufficient (committed : Db) (job : ExportJob)
    (drive : UsbDrive) : Except Reject Unit :=
  match capacityShortfall (remainingEstimatedBytes job) (some drive) with
  | none => .ok ()
  | some (remaining, available) =>
      .error (conflict committed
        ("Selected overflow drive does not have enough available space to continue this copy. "
          ++ s!"Estimated remaining size: {remaining} bytes; "
          ++ s!"available drive space: {available} bytes; "
          ++ s!"shortfall: {remaining - available} bytes. "
          ++ "Select another prepared drive and retry overflow continuation.")
        "OVERFLOW_DRIVE_CAPACITY_SHORTFALL")

/-- `_activate_reserved_or_new_assignment`. -/
def activateReservedOrNewAssignment (s : Db) (jobId driveId now : Nat) : Db :=
  match s.getReservedForJobAndDrive jobId driveId with
  | some reserved => s.activateAssignment reserved.id now
  | none => s.addAssignment driveId jobId now (some now)

/-- Release an assignment; its drive becomes available unless another job has
an activated assignment on it. -/
def leaveDrive (s : Db) (a : DriveAssignment) (now : Nat) : Db :=
  let released := s.releaseAssignment a.id now
  if s.otherActiveAssignmentsForDrive a.driveId a.jobId then released
  else released.setDriveState a.driveId .available

/-- The checks of `continue_job_overflow`: the job, its active assignment, the
new drive and the revalidated source path. -/
structure OverflowPlan where
  job : ExportJob
  active : DriveAssignment
  drive : UsbDrive
  sourcePath : Str

def overflowPlan (cfg : Settings) (s : Db) (jobId driveId : Nat) : Except Reject OverflowPlan := do
  let job ← orReject (s.jobs.get jobId) (refuse s 404 "Job not found")
  rejectWhenStartupAnalysisRunning s job "continue overflow for this job"
  ensure (job.status ∈ [JobStatus.pending, .paused, .failed, .completed]) (refuse s 409
    "Only pending, paused, failed, or partially successful completed jobs can continue overflow")
  let active ← orReject (s.getActiveForJob jobId) (refuse s 409 "Job has no assigned drive")
  ensure (driveId ≠ active.driveId)
    (refuse s 409 "Overflow continuation requires a different destination drive")
  ensure (s.isDriveAssignedToAnotherJob driveId (some jobId) = false)
    (refuse s 409 "Drive is already assigned to another job")
  let drive ← orReject (s.drives.get driveId) (refuse s 404 "Drive not found")
  ensure (drive.currentProjectId = none ∨ drive.currentProjectId = some job.projectId)
    (refuse s 403 "Drive belongs to a different project")
  ensure (drive.currentState = .available ∨ drive.currentState = .inUse)
    (refuse s 409 "Drive is not available")
  ensure (truthy drive.mountPath ≠ none) (refuse s 409 "Assigned drive is not mounted")
  let sourcePath ← orInvalid s
    (validateSourcePath job.sourcePath (some cfg.usbMountBasePath) drive.mountPath)
  rejectSourcePathOverlap s s driveId sourcePath (some jobId)
  ensure (job.status = .completed → 0 < s.retryableCount jobId)
    (refuse s 409 "Only completed jobs with failed or timed-out files can continue overflow")
  -- The audit record of a capacity refusal commits the revalidated path.
  rejectOverflowWhenDriveCapacityIsInsufficient
    (s.modifyJob jobId (fun j => { j with sourcePath := sourcePath }) fun _ => rfl) job drive
  return ⟨job, active, drive, sourcePath⟩

def continueJobOverflow (cfg : Settings) (s : Db) (jobId driveId : Nat) (threadCount : Option Nat)
    (now : Nat) : Except Reject Db := do
  let plan ← overflowPlan cfg s jobId driveId
  let bound := s.modifyDrive driveId
    (fun d => { d with currentProjectId := some plan.job.projectId }) fun _ => rfl
  let left := leaveDrive bound plan.active now
  let moved := (activateReservedOrNewAssignment left jobId driveId now).setDriveState driveId .inUse
  return (moved.resetFailedForRetry jobId).modifyJob jobId (fun j => { j with
    sourcePath := plan.sourcePath
    targetMountPath := plan.drive.mountPath
    status := .preparing
    startedAt := some now
    copyStartedAt := none
    completedAt := none
    failureReason := none
    threadCount := threadCount.or j.threadCount }) fun _ => rfl

/-- What an accepted continuation has checked. -/
structure OverflowChecked (s : Db) (jobId driveId : Nat) (plan : OverflowPlan) : Prop where
  job : s.jobs.get jobId = some plan.job
  status : plan.job.status ∈ [JobStatus.pending, .paused, .failed, .completed]
  active : s.getActiveForJob jobId = some plan.active
  other : driveId ≠ plan.active.driveId
  free : ∀ a ∈ s.assignments, a.releasedAt = none → a.driveId = driveId → a.jobId = jobId
  drive : s.drives.get driveId = some plan.drive
  project : plan.drive.currentProjectId = none ∨
    plan.drive.currentProjectId = some plan.job.projectId
  mounted : truthy plan.drive.mountPath ≠ none
  sourcePath : plan.sourcePath = normalizePath plan.job.sourcePath

theorem overflowPlan_eq_ok {cfg : Settings} {s : Db} {jobId driveId : Nat} {plan : OverflowPlan}
    (h : overflowPlan cfg s jobId driveId = .ok plan) : OverflowChecked s jobId driveId plan := by
  simp only [overflowPlan, bind_eq_ok, orReject_eq_ok, ensure_eq_ok, orInvalid_eq_ok,
    pure_eq_ok] at h
  obtain ⟨job, found, -, -, -, status, active, hactive, -, other, -, free, drive, hdrive, -,
    project, -, -, -, mounted, sourcePath, valid, -, -, -, -, -, -, rfl⟩ := h
  refine ⟨found, status, hactive, other, fun a ha held same => ?_, hdrive, project, mounted,
    validateSourcePath_eq_ok valid⟩
  have := Table.any_eq_false_iff.mp free a ha
  simpa [same, held] using this

theorem leaves_continueJobOverflow {P : Db → Prop} {cfg : Settings} {s : Db}
    {jobId driveId now : Nat} {threadCount : Option Nat} (hs : P s)
    (hpath : ∀ job, s.jobs.get jobId = some job →
      P (s.modifyJob jobId (fun j => { j with sourcePath := normalizePath job.sourcePath })
        fun _ => rfl)) :
    Leaves P (continueJobOverflow cfg s jobId driveId threadCount now) := by
  refine .bind ?_ fun _ _ => .pure _
  refine .bind (.orReject hs) fun job found => .bind (.ensure hs) fun _ _ => ?_
  refine .bind (.ensure hs) fun _ _ => .bind (.orReject hs) fun _ _ => ?_
  refine .bind (.ensure hs) fun _ _ => .bind (.ensure hs) fun _ _ => ?_
  refine .bind (.orReject hs) fun drive _ => .bind (.ensure hs) fun _ _ => ?_
  refine .bind (.ensure hs) fun _ _ => .bind (.ensure hs) fun _ _ => ?_
  refine .bind (.orInvalid hs) fun sourcePath valid => ?_
  refine .bind (leaves_rejectSourcePathOverlap hs) fun _ _ => .bind (.ensure hs) fun _ _ => ?_
  refine .bind ?_ fun _ _ => .pure _
  rw [rejectOverflowWhenDriveCapacityIsInsufficient]
  split
  · exact .ok ()
  · rw [validateSourcePath_eq_ok (orInvalid_eq_ok.mp valid)]
    exact .error (hpath job (orReject_eq_ok.mp found))

/-! ### Editing a job -/

/-- What the checks of `update_job` establish before its first write. -/
structure UpdatePlan where
  job : ExportJob
  /-- A started job, which may only change tuning values and overflow drives. -/
  limited : Bool
  current : Option DriveAssignment
  drive : UsbDrive
  sourcePath : Str

/-- The fields of a started job that an edit may not change. -/
def keepsStartedFields (job : ExportJob) (body : JobBody) (resolved : Str)
    (currentDriveId : Option Nat) (requestedDriveId : Nat) : Bool :=
  body.projectId = job.projectId ∧ body.evidenceNumber = job.evidenceNumber ∧
    resolved = job.sourcePath ∧ currentDriveId = some requestedDriveId ∧
    job.maxFileRetries = body.maxFileRetries ∧ job.retryDelaySeconds = body.retryDelaySeconds ∧
    body.callbackUrl = job.callbackUrl

def updatePlan (cfg : Settings) (s : Db) (jobId : Nat) (body : JobBody) :
    Except Reject UpdatePlan := do
  let job ← orReject (s.jobs.get jobId) (refuse s 404 "Job not found")
  ensure (job.status ∈ JobStatus.pending :: startedJobEditableStatuses)
    (refuse s 409 "This job cannot be edited from Job Detail")
  rejectWhenStartupAnalysisRunning s job "edit this job"
  let limited := decide (job.status ∈ startedJobEditableStatuses)
  ensure (body.projectId = job.projectId) (refuse s 409
    (if limited then "Started jobs can only update copy tuning values and overflow drive selections"
    else "Project cannot be changed for an existing job"))
  let resolved ← resolveJobSourcePath cfg s body
  let current := s.getActiveForJob jobId
  let requestedDriveId ← orReject (body.driveId.or (current.map DriveAssignment.driveId))
    (refuse s 409 "Job has no assigned drive")
  ensure (∀ d ∈ body.overflowDriveIds, body.driveId ≠ some d)
    (refuse s 422 "Overflow drive list must not include the primary destination drive")
  ensure (limited → keepsStartedFields job body resolved (current.map DriveAssignment.driveId)
      requestedDriveId) (refuse s 409
    "Started jobs can only update copy tuning values and overflow drive selections")
  let drive ← orReject (s.drives.get requestedDriveId) (refuse s 404 "Drive not found")
  ensure (body.driveId ≠ none → drive.currentProjectId ≠ none) (conflict s
    "Drive is unassigned; initialize and bind it to this project before selecting it"
    "DRIVE_NOT_PROJECT_BOUND")
  ensure (drive.currentProjectId = none ∨ drive.currentProjectId = some job.projectId)
    (refuse s 403 "Drive belongs to a different project")
  ensure (drive.currentState = .available ∨ drive.currentState = .inUse)
    (refuse s 409 "Drive is not available")
  ensure (truthy drive.mountPath ≠ none) (refuse s 409 "Assigned drive is not mounted")
  let sourcePath ← orInvalid s
    (validateSourcePath resolved (some cfg.usbMountBasePath) drive.mountPath)
  if limited then
    return ⟨job, limited, current, drive, sourcePath⟩
  else
    rejectSourcePathOverlap s s drive.id sourcePath (some jobId)
    return ⟨job, limited, current, drive, sourcePath⟩

/-- Move the primary assignment of a pending job to the requested drive. The
requested drive is not checked for reservations of other jobs. -/
def changePrimaryDrive (s : Db) (plan : UpdatePlan) (now : Nat) : Db :=
  if plan.limited then s
  else match plan.current with
    | none => s.addAssignment plan.drive.id plan.job.id now (some now)
    | some active =>
        if active.driveId = plan.drive.id then s
        else (leaveDrive s active now).addAssignment plan.drive.id plan.job.id now (some now)

/-- Release the reservations of the job that the request no longer lists; a
drive that no other job holds becomes available. -/
def releaseDroppedOverflow (now : Nat) : List DriveAssignment → Db → Db
  | [], s => s
  | a :: rest, s =>
      let released := s.releaseAssignment a.id now
      releaseDroppedOverflow now rest
        (if s.isDriveAssignedToAnotherJob a.driveId (some a.jobId) then released
        else released.setDriveState a.driveId .available)

/-- Reserve the overflow drives the job does not hold yet. The isolation
refusal writes an audit record and thereby commits what was changed before. -/
def reserveAddedOverflow (rolledBack : Db) (job : ExportJob) (primaryDriveId : Nat)
    (held : List Nat) (now : Nat) : List Nat → Db → Except Reject Db
  | [], s => .ok s
  | driveId :: rest, s => do
      ensure (driveId ≠ primaryDriveId)
        (refuse rolledBack 422 "Overflow drive list must not include the primary destination drive")
      if driveId ∈ held then
        reserveAddedOverflow rolledBack job primaryDriveId held now rest s
      else
        let _ ← selectableDrive rolledBack s s job.projectId driveId
        ensure (s.isDriveAssignedToAnotherJob driveId (some job.id) = false)
          (refuse rolledBack 409 "Drive is already assigned to another job")
        reserveAddedOverflow rolledBack job primaryDriveId held now rest
          ((s.addAssignment driveId job.id now none).setDriveState driveId .inUse)

/-- `_mark_job_startup_analysis_stale`. The cache flag of a job is never null,
so the guard in front of it always holds. -/
def staleAnalysis : StartupAnalysis := ⟨.stale, none, none, false, false⟩

/-- The columns an accepted update writes to the job. -/
def updatedJob (plan : UpdatePlan) (body : JobBody) (job : ExportJob) : ExportJob :=
  let tuned := { job with
    threadCount := body.threadCount
    copyChunkSizeBytes := body.copyChunkSizeBytes
    copyProgressFlushBytes := body.copyProgressFlushBytes
    copyFileFsyncEnabled := body.copyFileFsyncEnabled }
  if plan.limited then tuned
  else
    let edited := { tuned with
      evidenceNumber := body.evidenceNumber
      sourcePath := plan.sourcePath
      targetMountPath := plan.drive.mountPath
      maxFileRetries := body.maxFileRetries
      retryDelaySeconds := body.retryDelaySeconds
      callbackUrl := body.callbackUrl }
    if job.sourcePath = plan.sourcePath then edited
    else { edited with
      fileCount := 0
      totalBytes := 0
      copiedBytes := 0
      startupAnalysis := staleAnalysis }

theorem updatedJob_id (plan : UpdatePlan) (body : JobBody) (job : ExportJob) :
    (updatedJob plan body job).id = job.id := by
  simp only [updatedJob]
  split
  · rfl
  · split <;> rfl

theorem updatedJob_projectId (plan : UpdatePlan) (body : JobBody) (job : ExportJob) :
    (updatedJob plan body job).projectId = job.projectId := by
  simp only [updatedJob]
  split
  · rfl
  · split <;> rfl

theorem updatedJob_status (plan : UpdatePlan) (body : JobBody) (job : ExportJob) :
    (updatedJob plan body job).status = job.status := by
  simp only [updatedJob]
  split
  · rfl
  · split <;> rfl

theorem updatedJob_targetMountPath (plan : UpdatePlan) (body : JobBody) (job : ExportJob) :
    (updatedJob plan body job).targetMountPath =
      if plan.limited then job.targetMountPath else plan.drive.mountPath := by
  simp only [updatedJob]
  split
  · rfl
  · split <;> rfl

/-- The drives a job holds by unreleased assignments. -/
def heldDrives (s : Db) (jobId : Nat) : List Nat :=
  ((s.listForJob jobId).filter (·.releasedAt.isNone)).map DriveAssignment.driveId

/-- The state of an edit in which the primary assignment is moved and the
reservations that are no longer listed are released. -/
def keptAssignments (s : Db) (plan : UpdatePlan) (jobId : Nat) (body : JobBody) (now : Nat) : Db :=
  releaseDroppedOverflow now ((s.listForJob jobId).filter fun a =>
    a.reserved ∧ a.driveId ∉ body.overflowDriveIds) (changePrimaryDrive s plan now)

/-- The last writes of an edit. A new source path invalidates the files that
were listed for the old one. -/
def finishUpdate (s : Db) (plan : UpdatePlan) (jobId : Nat) (body : JobBody) : Db :=
  let written := (s.setDriveState plan.drive.id .inUse).modifyJob jobId
    (updatedJob plan body) (updatedJob_id plan body)
  if plan.limited ∨ plan.job.sourcePath = plan.sourcePath then written
  else { written with files := written.files.delete fun f => f.jobId = jobId }

def updateJob (cfg : Settings) (s : Db) (jobId : Nat) (body : JobBody) (now : Nat) :
    Except Reject Db := do
  let plan ← updatePlan cfg s jobId body
  let kept := keptAssignments s plan jobId body now
  let reserved ← reserveAddedOverflow s plan.job plan.drive.id (heldDrives kept jobId) now
    body.overflowDriveIds kept
  return finishUpdate reserved plan jobId body

/-! ### Completing, deleting, verifying and archiving -/

/-- `_clear_job_startup_analysis_cache`. -/
def clearedAnalysis : StartupAnalysis := ⟨.notAnalyzed, none, none, false, false⟩

def completeJob (s : Db) (jobId now : Nat) : Except Reject Db := do
  let job ← orReject (s.jobs.get jobId) (refuse s 404 "Job not found")
  rejectWhenStartupAnalysisRunning s job "complete this job"
  ensure (job.status ∈ [JobStatus.pending, .paused, .failed])
    (refuse s 409 "Only pending, paused, or failed jobs can be manually completed")
  return s.modifyJob jobId (fun j => { j with
    startupAnalysis :=
      if j.startupAnalysis.cachePresent ∨ j.startupAnalysis.entries then clearedAnalysis
      else j.startupAnalysis
    status := .completed
    completedAt := j.completedAt.or (some now) }) fun _ => rfl

def deleteJob (s : Db) (jobId : Nat) : Except Reject Db := do
  let job ← orReject (s.jobs.get jobId) (refuse s 404 "Job not found")
  rejectWhenStartupAnalysisRunning s job "delete this job"
  ensure (job.status = .pending) (refuse s 409 "Only pending jobs can be deleted")
  let freed := match s.getActiveForJob jobId with
    | none => s
    | some a =>
        if s.otherActiveAssignmentsForDrive a.driveId jobId then s
        else s.setDriveState a.driveId .available
  return { freed with
    files := freed.files.delete fun f => f.jobId = jobId
    assignments := freed.assignments.delete fun a => a.jobId = jobId
    jobs := freed.jobs.delete fun j => j.id = jobId }

def verifyJob (s : Db) (jobId : Nat) : Except Reject Db := do
  let job ← orReject (s.jobs.get jobId) (refuse s 404 "Job not found")
  ensure (job.status = .completed) (refuse s 409 "Only completed jobs can be verified")
  ensure (s.retryableCount jobId = 0) (refuse s 409 "Only clean completed jobs can be verified")
  return s.modifyJob jobId (fun j => { j with status := .verifying }) fun _ => rfl

def archiveJob (s : Db) (jobId : Nat) (confirm : Bool) : Except Reject Db := do
  ensure (confirm = true) (refuse s 400 "Confirmation is required to archive this job")
  let job ← orReject (s.jobs.get jobId) (refuse s 404 "Job not found")
  ensure (job.status ∈ archivableJobStatuses)
    (refuse s 409 "Only completed or failed jobs can be archived")
  ensure (∀ d ∈ assignedDrive s (s.getActiveForJob jobId), d.currentProjectId = some job.projectId →
      d.currentState = .available ∧ truthy d.mountPath = none) (refuse s 409
    ("Prepare eject the related drive before archiving this job so the media can move into "
      ++ "chain of custody"))
  return s.modifyJob jobId (fun j => { j with status := .archived }) fun _ => rfl

/-! ### What accepted edits have checked and written -/

/-- What an edit has checked before its first write. -/
structure UpdateChecked (s : Db) (jobId : Nat) (body : JobBody) (plan : UpdatePlan) : Prop where
  job : s.jobs.get jobId = some plan.job
  current : plan.current = s.getActiveForJob jobId
  pending : plan.limited = false → plan.job.status = .pending
  unmoved : plan.limited = true → plan.current.map DriveAssignment.driveId = some plan.drive.id
  named : (∀ a, plan.current = some a → a.driveId ≠ plan.drive.id) →
    body.driveId = some plan.drive.id
  listed : ∀ d ∈ body.overflowDriveIds, body.driveId ≠ some d
  drive : plan.drive ∈ s.drives
  bound : body.driveId ≠ none → plan.drive.currentProjectId ≠ none
  project : plan.drive.currentProjectId = none ∨
    plan.drive.currentProjectId = some plan.job.projectId
  mounted : truthy plan.drive.mountPath ≠ none
  apart : plan.limited = false →
    rejectSourcePathOverlap s s plan.drive.id plan.sourcePath (some jobId) = .ok ()

theorem updatePlan_eq_ok {cfg : Settings} {s : Db} {jobId : Nat} {body : JobBody}
    {plan : UpdatePlan} (h : updatePlan cfg s jobId body = .ok plan) :
    UpdateChecked s jobId body plan := by
  simp only [updatePlan, bind_eq_ok, orReject_eq_ok, ensure_eq_ok, orInvalid_eq_ok] at h
  obtain ⟨job, found, -, editable, -, -, -, -, resolved, -, requested, hrequested, -, listed, -,
    keeps, drive, hdrive, -, bound, -, project, -, -, -, mounted, sourcePath, -, h⟩ := h
  have hid : drive.id = requested := Table.id_of_get hdrive
  have planned : plan = ⟨job, decide (job.status ∈ startedJobEditableStatuses),
      s.getActiveForJob jobId, drive, sourcePath⟩ ∧
      (plan.limited = false →
        rejectSourcePathOverlap s s plan.drive.id plan.sourcePath (some jobId) = .ok ()) := by
    split at h
    · rename_i limited
      obtain rfl := pure_eq_ok.mp h
      exact ⟨rfl, fun pending => absurd limited (Bool.not_eq_true _ ▸ pending)⟩
    · simp only [bind_eq_ok, pure_eq_ok] at h
      obtain ⟨⟨⟩, apart, rfl⟩ := h
      exact ⟨rfl, fun _ => apart⟩
  obtain ⟨planned, apart⟩ := planned
  subst planned
  refine ⟨found, rfl, fun limited => ?_, fun limited => ?_, fun moved => ?_, listed,
    Table.mem_of_get hdrive, bound, project, mounted, apart⟩
  · rcases List.mem_cons.mp editable with pending | started
    · exact pending
    · exact absurd started (of_decide_eq_false limited)
  · have keeps := keeps limited
    simp only [keepsStartedFields, decide_eq_true_eq] at keeps
    rw [hid]
    exact keeps.2.2.2.1
  · dsimp only at moved ⊢
    cases given : body.driveId with
    | some d =>
        rw [given, Option.some_or, Option.some.injEq] at hrequested
        rw [hid, hrequested]
    | none =>
        rw [given, Option.none_or, Option.map_eq_some_iff] at hrequested
        obtain ⟨a, current, same⟩ := hrequested
        exact absurd (same.trans hid.symm) (moved a current)

theorem leaves_updatePlan {P : Db → Prop} {cfg : Settings} {s : Db} {jobId : Nat} {body : JobBody}
    (hs : P s) : Leaves P (updatePlan cfg s jobId body) := by
  refine .bind (.orReject hs) fun job _ => .bind (.ensure hs) fun _ _ => ?_
  refine .bind (.ensure hs) fun _ _ => .bind (.ensure hs) fun _ _ => ?_
  refine .bind (leaves_resolveJobSourcePath hs) fun _ _ => .bind (.orReject hs) fun _ _ => ?_
  refine .bind (.ensure hs) fun _ _ => .bind (.ensure hs) fun _ _ => ?_
  refine .bind (.orReject hs) fun drive _ => .bind (.ensure hs) fun _ _ => ?_
  refine .bind (.ensure hs) fun _ _ => .bind (.ensure hs) fun _ _ => ?_
  refine .bind (.ensure hs) fun _ _ => .bind (.orInvalid hs) fun _ _ => ?_
  split
  · exact .pure _
  · exact .bind (leaves_rejectSourcePathOverlap hs) fun _ _ => .pure _

/-- A property that survives the release of each listed reservation. -/
theorem releaseDroppedOverflow_rule {P : Db → Prop} {now : Nat} {dropped : List DriveAssignment}
    (keep : ∀ s, ∀ a ∈ dropped, P s → P (s.releaseAssignment a.id now) ∧
      ((∀ b ∈ s.assignments, b.releasedAt = none → b.driveId = a.driveId → b.jobId = a.jobId) →
        P ((s.releaseAssignment a.id now).setDriveState a.driveId .available))) :
    ∀ {s : Db}, P s → P (releaseDroppedOverflow now dropped s) := by
  induction dropped with
  | nil => exact fun hs => hs
  | cons a rest ih =>
      intro s hs
      rw [releaseDroppedOverflow]
      refine ih (fun s b hb => keep s b (List.mem_cons_of_mem a hb)) ?_
      obtain ⟨released, freed⟩ := keep s a List.mem_cons_self hs
      split
      · exact released
      · rename_i free
        apply freed
        intro b hb held drive
        have := Table.any_eq_false_iff.mp (Bool.not_eq_true _ ▸ free) b hb
        simpa [drive, held] using this

/-- A property `P` of the drives still to reserve and the database that each
reservation keeps holds after an accepted edit; an isolation refusal commits a
database in which it held on the way. -/
theorem reserveAddedOverflow_rule {P : List Nat → Db → Prop} {Q : Db → Prop} {rolledBack : Db}
    {job : ExportJob} {primaryDriveId now : Nat} {held : List Nat} (hr : Q rolledBack)
    (foreign : ∀ driveId rest s d, P (driveId :: rest) s → s.drives.get driveId = some d →
      d.currentProjectId ≠ none → d.currentProjectId ≠ some job.projectId → Q s)
    (skip : ∀ driveId rest s, P (driveId :: rest) s → P rest s)
    (keep : ∀ rest s d, P (d.id :: rest) s → d ∈ s.drives → d.id ≠ primaryDriveId → d.id ∉ held →
      d.currentProjectId = some job.projectId → truthy d.mountPath ≠ none →
      (∀ a ∈ s.assignments, a.releasedAt = none → a.driveId = d.id → a.jobId = job.id) →
      P rest ((s.addAssignment d.id job.id now none).setDriveState d.id .inUse)) :
    ∀ {driveIds : List Nat} {s : Db}, P driveIds s →
      (∀ s', reserveAddedOverflow rolledBack job primaryDriveId held now driveIds s = .ok s' →
        P [] s') ∧
        Leaves Q (reserveAddedOverflow rolledBack job primaryDriveId held now driveIds s) := by
  intro driveIds
  induction driveIds with
  | nil =>
      intro s hs
      exact ⟨fun s' h => Except.ok.inj h ▸ hs, .ok s⟩
  | cons driveId rest ih =>
      intro s hs
      rw [reserveAddedOverflow]
      by_cases known : driveId ∈ held
      · simp only [if_pos known]
        have next := ih (skip driveId rest s hs)
        refine ⟨fun s' h => ?_, .bind (.ensure hr) fun _ _ => next.2⟩
        simp only [bind_eq_ok, ensure_eq_ok] at h
        obtain ⟨-, -, h⟩ := h
        exact next.1 s' h
      · simp only [if_neg known]
        have next : ∀ drive, selectableDrive rolledBack s s job.projectId driveId = .ok drive →
            s.isDriveAssignedToAnotherJob driveId (some job.id) = false →
            driveId ≠ primaryDriveId →
            P rest ((s.addAssignment driveId job.id now none).setDriveState driveId .inUse) := by
          intro drive selectable free other
          obtain ⟨found, project, -, mounted⟩ := selectableDrive_eq_ok selectable
          obtain rfl : drive.id = driveId := Table.id_of_get found
          refine keep rest s drive hs (Table.mem_of_get found) other known project mounted ?_
          intro a ha heldHere same
          have := Table.any_eq_false_iff.mp free a ha
          simpa [same, heldHere] using this
        constructor
        · intro s' h
          simp only [bind_eq_ok, ensure_eq_ok] at h
          obtain ⟨-, other, drive, selectable, -, free, h⟩ := h
          exact (ih (next drive selectable free other)).1 s' h
        · refine .bind (.ensure hr) fun _ other => ?_
          refine .bind (leaves_selectableDrive hr fun d => foreign driveId rest s d hs)
            fun drive selectable => ?_
          refine .bind (.ensure hr) fun _ free => ?_
          exact (ih (next drive selectable (ensure_eq_ok.mp free) (ensure_eq_ok.mp other))).2

/-- A row after the listed reservations are released: an old one that was not
listed, or one that is released now. -/
theorem mem_of_releaseDroppedOverflow {now : Nat} {dropped : List DriveAssignment} {s : Db}
    {b : DriveAssignment} (h : b ∈ (releaseDroppedOverflow now dropped s).assignments) :
    (b ∈ s.assignments ∧ b.id ∉ dropped.map DriveAssignment.id) ∨
      ∃ r ∈ s.assignments, b = { r with releasedAt := some now } := by
  induction dropped generalizing s with
  | nil => exact .inl ⟨h, List.not_mem_nil⟩
  | cons a rest ih =>
      rw [releaseDroppedOverflow] at h
      have first : ∀ c, c ∈ (if s.isDriveAssignedToAnotherJob a.driveId (some a.jobId)
          then s.releaseAssignment a.id now
          else (s.releaseAssignment a.id now).setDriveState a.driveId .available).assignments →
          c ∈ (s.releaseAssignment a.id now).assignments := by
        intro c hc
        split at hc <;> exact hc
      rcases ih h with ⟨hb, other⟩ | ⟨r, hr, rfl⟩
      · rcases Db.mem_releaseAssignment.mp (first b hb) with ⟨hb, ne⟩ | ⟨r, hr, -, rfl⟩
        · exact .inl ⟨hb, by simpa using ⟨ne, by simpa using other⟩⟩
        · exact .inr ⟨r, hr, rfl⟩
      · rcases Db.mem_releaseAssignment.mp (first r hr) with ⟨old, -⟩ | ⟨r', old, -, rfl⟩
        · exact .inr ⟨r, old, rfl⟩
        · exact .inr ⟨r', old, rfl⟩

/-- A row that is not listed stays. -/
theorem mem_releaseDroppedOverflow {now : Nat} {dropped : List DriveAssignment} {s : Db}
    {b : DriveAssignment} (h : b ∈ s.assignments) (unlisted : b.id ∉ dropped.map DriveAssignment.id) :
    b ∈ (releaseDroppedOverflow now dropped s).assignments := by
  induction dropped generalizing s with
  | nil => exact h
  | cons a rest ih =>
      rw [List.map_cons, List.mem_cons, not_or] at unlisted
      rw [releaseDroppedOverflow]
      refine ih ?_ unlisted.2
      have kept : b ∈ (s.releaseAssignment a.id now).assignments :=
        Db.mem_releaseAssignment.mpr (.inl ⟨h, unlisted.1⟩)
      split <;> exact kept

theorem leaveDrive_jobs (s : Db) (a : DriveAssignment) (now : Nat) :
    (leaveDrive s a now).jobs = s.jobs := by
  rw [leaveDrive]
  split <;> rfl

theorem leaveDrive_files (s : Db) (a : DriveAssignment) (now : Nat) :
    (leaveDrive s a now).files = s.files := by
  rw [leaveDrive]
  split <;> rfl

/-- The assignments after a drive is left. -/
theorem mem_leaveDrive {s : Db} {a b : DriveAssignment} {now : Nat} :
    b ∈ (leaveDrive s a now).assignments ↔ b ∈ (s.releaseAssignment a.id now).assignments := by
  rw [leaveDrive]
  split <;> rfl

/-- A row after the primary assignment is moved: an old one other than the left
assignment, one that is released, or the new primary assignment. -/
theorem mem_of_changePrimaryDrive {s : Db} {plan : UpdatePlan} {now : Nat} {b : DriveAssignment}
    (h : b ∈ (changePrimaryDrive s plan now).assignments) :
    (b ∈ s.assignments ∧ (plan.limited = true ∨
        ∀ a, plan.current = some a → b = a → a.driveId = plan.drive.id)) ∨
      b.releasedAt ≠ none ∧ (∃ r ∈ s.assignments, b.jobId = r.jobId ∧ b.driveId = r.driveId) ∨
      (plan.limited = false ∧ (∀ a, plan.current = some a → a.driveId ≠ plan.drive.id) ∧
        b = ⟨s.assignments.seq + 1, plan.drive.id, plan.job.id, now, some now, none⟩) := by
  rw [changePrimaryDrive] at h
  split at h
  · rename_i limited
    exact .inl ⟨h, .inl limited⟩
  · rename_i limited
    rw [Bool.not_eq_true] at limited
    split at h
    · rename_i idle
      have nothing : ∀ a, plan.current ≠ some a := fun a => by simp [idle]
      rcases Db.mem_addAssignment.mp h with h | rfl
      · exact .inl ⟨h, .inr fun a current => absurd current (nothing a)⟩
      · exact .inr (.inr ⟨limited, fun a current => absurd current (nothing a), rfl⟩)
    · rename_i active current
      split at h
      · rename_i same
        refine .inl ⟨h, .inr fun a ha _ => ?_⟩
        rw [current, Option.some.injEq] at ha
        rw [← ha, same]
      · rename_i other
        rcases Db.mem_addAssignment.mp h with h | rfl
        · rcases Db.mem_releaseAssignment.mp (mem_leaveDrive.mp h) with ⟨h, ne⟩ | ⟨r, hr, -, rfl⟩
          · refine .inl ⟨h, .inr fun a ha same => ?_⟩
            rw [current, Option.some.injEq] at ha
            exact absurd (by rw [same, ha]) ne
          · exact .inr (.inl ⟨by simp, r, hr, rfl, rfl⟩)
        · refine .inr (.inr ⟨limited, fun a ha => ?_, by rw [leaveDrive]; split <;> rfl⟩)
          rw [current, Option.some.injEq] at ha
          rw [← ha]
          exact other

/-- An unreleased row once the primary assignment is moved and unlisted
reservations are released: an old one, listed if it is a reservation of the job
and on the requested drive if it was the primary assignment, or the new primary
assignment. -/
theorem held_of_keptAssignments {s : Db} {plan : UpdatePlan} {jobId now : Nat} {body : JobBody}
    {b : DriveAssignment} (h : b ∈ (keptAssignments s plan jobId body now).assignments)
    (held : b.releasedAt = none) :
    (b ∈ s.assignments ∧
        (b.jobId = jobId → b.reserved = true → b.driveId ∈ body.overflowDriveIds) ∧
        (plan.limited = true ∨ ∀ a, plan.current = some a → b = a → a.driveId = plan.drive.id)) ∨
      (plan.limited = false ∧ (∀ a, plan.current = some a → a.driveId ≠ plan.drive.id) ∧
        b = ⟨s.assignments.seq + 1, plan.drive.id, plan.job.id, now, some now, none⟩) := by
  rcases mem_of_releaseDroppedOverflow h with ⟨h, unlisted⟩ | ⟨r, -, rfl⟩
  · rcases mem_of_changePrimaryDrive h with ⟨old, moved⟩ | ⟨released, -⟩ | new
    · refine .inl ⟨old, fun job reserved => ?_, moved⟩
      by_contra missing
      refine unlisted (List.mem_map_of_mem (List.mem_filter.mpr ⟨?_, by simp [reserved, missing]⟩))
      exact Table.mem_select.mpr ⟨old, by simp [job]⟩
    · exact absurd held released
    · exact .inr new
  · cases held

/-- The assignments an edit keeps or writes refer to old rows, or to the job
and its requested drive. -/
theorem refs_of_keptAssignments {s : Db} {plan : UpdatePlan} {jobId now : Nat} {body : JobBody}
    {b : DriveAssignment} (h : b ∈ (keptAssignments s plan jobId body now).assignments) :
    (∃ r ∈ s.assignments, b.jobId = r.jobId ∧ b.driveId = r.driveId) ∨
      (b.jobId = plan.job.id ∧ b.driveId = plan.drive.id) := by
  have moved : ∀ c ∈ (changePrimaryDrive s plan now).assignments,
      (∃ r ∈ s.assignments, c.jobId = r.jobId ∧ c.driveId = r.driveId) ∨
        (c.jobId = plan.job.id ∧ c.driveId = plan.drive.id) := by
    intro c hc
    rcases mem_of_changePrimaryDrive hc with ⟨old, -⟩ | ⟨-, old⟩ | ⟨-, -, rfl⟩
    · exact .inl ⟨c, old, rfl, rfl⟩
    · exact .inl old
    · exact .inr ⟨rfl, rfl⟩
  rcases mem_of_releaseDroppedOverflow h with ⟨h, -⟩ | ⟨r, hr, rfl⟩
  · exact moved b h
  · exact moved r hr

/-- Moving the primary assignment and releasing reservations writes neither jobs nor files. -/
theorem keptAssignments_frame (s : Db) (plan : UpdatePlan) (jobId : Nat) (body : JobBody)
    (now : Nat) : (keptAssignments s plan jobId body now).jobs = s.jobs ∧
      (keptAssignments s plan jobId body now).files = s.files := by
  refine releaseDroppedOverflow_rule (P := fun t => t.jobs = s.jobs ∧ t.files = s.files)
    (fun t a _ ht => ⟨ht, fun _ => ht⟩) ?_
  rw [changePrimaryDrive]
  split
  · exact ⟨rfl, rfl⟩
  · split
    · exact ⟨rfl, rfl⟩
    · split
      · exact ⟨rfl, rfl⟩
      · exact ⟨leaveDrive_jobs .., leaveDrive_files ..⟩

theorem keptAssignments_jobs (s : Db) (plan : UpdatePlan) (jobId : Nat) (body : JobBody)
    (now : Nat) : (keptAssignments s plan jobId body now).jobs = s.jobs :=
  (keptAssignments_frame s plan jobId body now).1

theorem exists_drive_leaveDrive {s : Db} {a : DriveAssignment} {now k : Nat}
    (h : ∃ d ∈ s.drives, d.id = k) : ∃ d ∈ (leaveDrive s a now).drives, d.id = k := by
  rw [leaveDrive]
  split
  · exact h
  · exact Db.exists_modifyDrive h

/-- An edit keeps every drive up to its state. -/
theorem exists_drive_keptAssignments {s : Db} {plan : UpdatePlan} {jobId now k : Nat}
    {body : JobBody} (h : ∃ d ∈ s.drives, d.id = k) :
    ∃ d ∈ (keptAssignments s plan jobId body now).drives, d.id = k := by
  have moved : ∃ d ∈ (changePrimaryDrive s plan now).drives, d.id = k := by
    rw [changePrimaryDrive]
    split
    · exact h
    · split
      · exact h
      · split
        · exact h
        · exact exists_drive_leaveDrive h
  refine releaseDroppedOverflow_rule (P := fun t => ∃ d ∈ t.drives, d.id = k) ?_ moved
  intro t a _ ht
  exact ⟨ht, fun _ => Db.exists_modifyDrive ht⟩

/-- The drives after the primary assignment is moved and unlisted reservations
are released: bindings and mounts are the old ones, and a drive that became
available was left by the job, or reserved by it and by no other job. -/
structure KeptDrive (s : Db) (plan : UpdatePlan) (jobId : Nat) (body : JobBody) (d d' : UsbDrive) :
    Prop where
  id : d.id = d'.id
  project : d'.currentProjectId = d.currentProjectId
  mount : d'.mountPath = d.mountPath
  state : d'.currentState = d.currentState ∨
    (∃ a, plan.limited = false ∧ plan.current = some a ∧ a.driveId = d.id ∧
      d.id ≠ plan.drive.id ∧ s.otherActiveAssignmentsForDrive a.driveId a.jobId = false) ∨
    (∃ a ∈ s.assignments, a.jobId = jobId ∧ a.reserved = true ∧ a.driveId = d.id ∧
      a.driveId ∉ body.overflowDriveIds ∧
      ∀ b ∈ s.assignments, b.releasedAt = none → b.driveId = d.id → b.jobId = jobId)

theorem drives_of_changePrimaryDrive {s : Db} {plan : UpdatePlan} {jobId now : Nat}
    {body : JobBody} {d' : UsbDrive} (h : d' ∈ (changePrimaryDrive s plan now).drives) :
    ∃ d ∈ s.drives, KeptDrive s plan jobId body d d' := by
  have same : ∀ x ∈ s.drives, ∃ d ∈ s.drives, KeptDrive s plan jobId body d x :=
    fun x hx => ⟨x, hx, rfl, rfl, rfl, .inl rfl⟩
  rw [changePrimaryDrive] at h
  split at h
  · exact same d' h
  · rename_i limited
    split at h
    · exact same d' h
    · rename_i active current
      split at h
      · exact same d' h
      · rename_i other
        change d' ∈ (leaveDrive s active now).drives at h
        rw [leaveDrive] at h
        split at h
        · exact same d' h
        · rename_i free
          rcases Db.mem_setDriveState.mp h with ⟨h, -⟩ | ⟨d, hd, left, rfl⟩
          · exact same d' h
          · exact ⟨d, hd, rfl, rfl, rfl, .inr (.inl ⟨active, Bool.not_eq_true _ ▸ limited, current,
              left.symm, left ▸ other, Bool.not_eq_true _ ▸ free⟩)⟩

/-- Only the current assignment is left when the primary drive changes. -/
theorem mem_changePrimaryDrive {s : Db} {plan : UpdatePlan} {jobId now : Nat} {body : JobBody}
    (checked : UpdateChecked s jobId body plan) {b : DriveAssignment} (hb : b ∈ s.assignments)
    (stays : plan.current ≠ some b) : b ∈ (changePrimaryDrive s plan now).assignments := by
  rw [changePrimaryDrive]
  split
  · exact hb
  · split
    · exact Db.mem_addAssignment.mpr (.inl hb)
    · rename_i active current
      split
      · exact hb
      · obtain ⟨mem, -, -⟩ := active_of_getActiveForJob (checked.current.symm.trans current)
        refine Db.mem_addAssignment.mpr (.inl (mem_leaveDrive.mpr ?_))
        refine Db.mem_releaseAssignment.mpr (.inl ⟨hb, fun same => stays ?_⟩)
        rw [Table.eq_of_id_eq hb mem same, current]

/-- The rows of other jobs do not change. -/
theorem mem_changePrimaryDrive_of_ne {s : Db} {plan : UpdatePlan} {jobId now : Nat}
    {body : JobBody} (checked : UpdateChecked s jobId body plan) {b : DriveAssignment}
    (hb : b ∈ s.assignments) (other : b.jobId ≠ jobId) :
    b ∈ (changePrimaryDrive s plan now).assignments := by
  refine mem_changePrimaryDrive checked hb fun current => other ?_
  exact (active_of_getActiveForJob (checked.current.symm.trans current)).2.1

theorem drives_of_keptAssignments {s : Db} {plan : UpdatePlan} {jobId now : Nat} {body : JobBody}
    {d' : UsbDrive} (checked : UpdateChecked s jobId body plan)
    (h : d' ∈ (keptAssignments s plan jobId body now).drives) :
    ∃ d ∈ s.drives, KeptDrive s plan jobId body d d' := by
  have others := @mem_changePrimaryDrive_of_ne s plan jobId now body checked
  refine (releaseDroppedOverflow_rule (P := fun t =>
    (∀ x ∈ t.drives, ∃ d ∈ s.drives, KeptDrive s plan jobId body d x) ∧
      ∀ b ∈ s.assignments, b.jobId ≠ jobId → b ∈ t.assignments) ?_
    ⟨fun x hx => drives_of_changePrimaryDrive hx, fun b => others⟩).1 d' h
  rintro t a ha ⟨drives, rows⟩
  obtain ⟨listed, unlisted⟩ := List.mem_filter.mp ha
  obtain ⟨mem, own⟩ := Table.mem_select.mp listed
  have own : a.jobId = jobId := by simpa using own
  obtain ⟨reserved, unlisted⟩ := of_decide_eq_true unlisted
  have kept : ∀ b ∈ s.assignments, b.jobId ≠ jobId →
      b ∈ (t.releaseAssignment a.id now).assignments := by
    intro b hb other
    refine Db.mem_releaseAssignment.mpr (.inl ⟨rows b hb other, fun same => other ?_⟩)
    rw [Table.eq_of_id_eq hb mem same, own]
  refine ⟨⟨drives, kept⟩, fun free => ⟨fun x hx => ?_, kept⟩⟩
  rcases Db.mem_setDriveState.mp hx with ⟨hx, -⟩ | ⟨y, hy, left, rfl⟩
  · exact drives x hx
  · obtain ⟨d, hd, id, project, mount, -⟩ := drives y hy
    refine ⟨d, hd, id, project, mount, .inr (.inr ⟨a, mem, own, reserved, left.symm.trans id.symm,
      unlisted, fun b hb held drive => ?_⟩)⟩
    by_contra other
    exact other ((free b (rows b hb other) held (drive.trans (id.trans left))).trans own)

/-- An accepted edit, and what a refused one commits, in terms of the state in
which the primary assignment is moved and unlisted reservations are released. -/
theorem updateJob_rule {P : UpdatePlan → List Nat → Db → Prop} {Q : Db → Prop} {cfg : Settings}
    {s : Db} {jobId now : Nat} {body : JobBody} (hs : Q s)
    (foreign : ∀ plan, updatePlan cfg s jobId body = .ok plan → UpdateChecked s jobId body plan →
      ∀ driveId rest t d, P plan (driveId :: rest) t → t.drives.get driveId = some d →
      d.currentProjectId ≠ none → d.currentProjectId ≠ some plan.job.projectId → Q t)
    (skip : ∀ plan driveId rest t, P plan (driveId :: rest) t → P plan rest t)
    (kept : ∀ plan, updatePlan cfg s jobId body = .ok plan → UpdateChecked s jobId body plan →
      P plan body.overflowDriveIds (keptAssignments s plan jobId body now))
    (reserve : ∀ plan, UpdateChecked s jobId body plan → ∀ rest t d, P plan (d.id :: rest) t →
      d ∈ t.drives → d.id ≠ plan.drive.id →
      d.id ∉ heldDrives (keptAssignments s plan jobId body now) jobId →
      d.currentProjectId = some plan.job.projectId → truthy d.mountPath ≠ none →
      (∀ a ∈ t.assignments, a.releasedAt = none → a.driveId = d.id → a.jobId = plan.job.id) →
      P plan rest ((t.addAssignment d.id plan.job.id now none).setDriveState d.id .inUse))
    (finish : ∀ plan, UpdateChecked s jobId body plan → ∀ t, P plan [] t →
      Q (finishUpdate t plan jobId body)) :
    (∀ s', updateJob cfg s jobId body now = .ok s' → Q s') ∧
      Leaves Q (updateJob cfg s jobId body now) := by
  have added : ∀ plan, updatePlan cfg s jobId body = .ok plan → _ := fun plan planned =>
    have checked := updatePlan_eq_ok planned
    reserveAddedOverflow_rule hs (foreign plan planned checked) (skip plan) (reserve plan checked)
      (kept plan planned checked)
  refine ⟨fun s' h => ?_, .bind (leaves_updatePlan hs) fun plan planned => ?_⟩
  · simp only [updateJob, bind_eq_ok, pure_eq_ok] at h
    obtain ⟨plan, planned, t, reserved, rfl⟩ := h
    exact finish plan (updatePlan_eq_ok planned) t ((added plan planned).1 t reserved)
  · exact .bind (added plan planned).2 fun _ _ => .pure _

/-- The edit moves the job to another primary drive. -/
def UpdatePlan.Moves (plan : UpdatePlan) : Prop :=
  plan.limited = false ∧ ∀ c, plan.current = some c → c.driveId ≠ plan.drive.id

section Kept

variable {s : Db} {plan : UpdatePlan} {jobId now : Nat} {body : JobBody}

/-- Only reservations of the job are released as unlisted. -/
theorem mem_keptAssignments {b : DriveAssignment}
    (moved : b ∈ (changePrimaryDrive s plan now).assignments)
    (spared : ∀ a ∈ s.assignments, a.jobId = jobId → a.reserved = true → a.id ≠ b.id) :
    b ∈ (keptAssignments s plan jobId body now).assignments := by
  apply mem_releaseDroppedOverflow moved
  intro listed
  obtain ⟨a, ha, same⟩ := List.mem_map.mp listed
  obtain ⟨ha, unlisted⟩ := List.mem_filter.mp ha
  obtain ⟨mem, mine⟩ := Table.mem_select.mp ha
  exact spared a mem (by simpa using mine) (of_decide_eq_true unlisted).1 same

theorem mem_keptAssignments_of_ne (checked : UpdateChecked s jobId body plan) {b : DriveAssignment}
    (hb : b ∈ s.assignments) (other : b.jobId ≠ jobId) :
    b ∈ (keptAssignments s plan jobId body now).assignments := by
  refine mem_keptAssignments (mem_changePrimaryDrive_of_ne checked hb other) ?_
  intro a ha mine _ same
  exact other (by rw [← Table.eq_of_id_eq ha hb same, mine])

/-- An edit that moves the job leaves a new row for its primary drive. -/
theorem new_mem_keptAssignments (moves : plan.Moves) :
    (⟨s.assignments.seq + 1, plan.drive.id, plan.job.id, now, some now, none⟩ : DriveAssignment) ∈
      (keptAssignments s plan jobId body now).assignments := by
  refine mem_keptAssignments ?_ fun a ha _ _ => Table.ne_next ha
  rw [changePrimaryDrive, if_neg (by simp [moves.1])]
  split
  · exact Db.mem_addAssignment.mpr (.inr rfl)
  · rename_i c current
    rw [if_neg (moves.2 c current)]
    refine Db.mem_addAssignment.mpr (.inr ?_)
    rw [leaveDrive]
    split <;> rfl

/-- The current assignment stays when the edit does not move the job. -/
theorem current_mem_keptAssignments (checked : UpdateChecked s jobId body plan)
    {c : DriveAssignment} (current : plan.current = some c) (same : c.driveId = plan.drive.id) :
    c ∈ (keptAssignments s plan jobId body now).assignments := by
  obtain ⟨mem, -, active⟩ := active_of_getActiveForJob (checked.current.symm.trans current)
  refine mem_keptAssignments ?_ fun a ha _ reserved key => ?_
  · rw [changePrimaryDrive]
    split
    · exact mem
    · rw [current]
      dsimp only
      rw [if_pos same]
      exact mem
  · rw [Table.eq_of_id_eq ha mem key, DriveAssignment.reserved_iff] at reserved
    exact (DriveAssignment.active_iff.mp active).1 reserved.1

theorem not_moves (checked : UpdateChecked s jobId body plan) (h : ¬ plan.Moves) :
    ∃ c, plan.current = some c ∧ c.driveId = plan.drive.id := by
  cases limited : plan.limited with
  | true =>
      obtain ⟨c, current, same⟩ := Option.map_eq_some_iff.mp (checked.unmoved limited)
      exact ⟨c, current, same⟩
  | false =>
      by_contra none_
      exact h ⟨limited, fun c current same => none_ ⟨c, current, same⟩⟩

end Kept

theorem completeJob_eq_ok {s s' : Db} {jobId now : Nat} (h : completeJob s jobId now = .ok s') :
    ∃ job, s.jobs.get jobId = some job ∧ job.status ∈ [JobStatus.pending, .paused, .failed] ∧
      s' = s.modifyJob jobId (fun j => { j with
        startupAnalysis :=
          if j.startupAnalysis.cachePresent ∨ j.startupAnalysis.entries then clearedAnalysis
          else j.startupAnalysis
        status := .completed
        completedAt := j.completedAt.or (some now) }) fun _ => rfl := by
  simp only [completeJob, bind_eq_ok, orReject_eq_ok, ensure_eq_ok, pure_eq_ok] at h
  obtain ⟨job, found, -, -, -, status, rfl⟩ := h
  exact ⟨job, found, status, rfl⟩

theorem leaves_completeJob {P : Db → Prop} {s : Db} {jobId now : Nat} (hs : P s) :
    Leaves P (completeJob s jobId now) :=
  .bind (.orReject hs) fun _ _ => .bind (.ensure hs) fun _ _ => .bind (.ensure hs) fun _ _ =>
    .pure _

theorem deleteJob_eq_ok {s s' : Db} {jobId : Nat} (h : deleteJob s jobId = .ok s') :
    ∃ job freed, s.jobs.get jobId = some job ∧ job.status = .pending ∧
      (freed = s ∨ ∃ a, s.getActiveForJob jobId = some a ∧
        s.otherActiveAssignmentsForDrive a.driveId jobId = false ∧
        freed = s.setDriveState a.driveId .available) ∧
      s' = { freed with
        files := freed.files.delete fun f => f.jobId = jobId
        assignments := freed.assignments.delete fun a => a.jobId = jobId
        jobs := freed.jobs.delete fun j => j.id = jobId } := by
  simp only [deleteJob, bind_eq_ok, orReject_eq_ok, ensure_eq_ok, pure_eq_ok] at h
  obtain ⟨job, found, -, -, -, pending, rfl⟩ := h
  refine ⟨job, _, found, pending, ?_, rfl⟩
  cases active : s.getActiveForJob jobId with
  | none => exact .inl rfl
  | some a =>
      cases other : s.otherActiveAssignmentsForDrive a.driveId jobId with
      | true => exact .inl (by simp [other])
      | false => exact .inr ⟨a, rfl, other, by simp [other]⟩

/-- The drive of the active assignment, unless another job is active on it. -/
def freedDrive (s : Db) (jobId : Nat) : Option Nat :=
  (s.getActiveForJob jobId).bind fun a =>
    if s.otherActiveAssignmentsForDrive a.driveId jobId then none else some a.driveId

theorem freedDrive_eq_some {s : Db} {jobId k : Nat} :
    freedDrive s jobId = some k ↔ ∃ a, s.getActiveForJob jobId = some a ∧ a.driveId = k ∧
      s.otherActiveAssignmentsForDrive k jobId = false := by
  rw [freedDrive, Option.bind_eq_some_iff]
  constructor
  · rintro ⟨a, active, h⟩
    split at h
    · cases h
    · rename_i alone
      cases h
      exact ⟨a, active, rfl, Bool.not_eq_true _ ▸ alone⟩
  · rintro ⟨a, active, rfl, alone⟩
    exact ⟨a, active, by rw [if_neg (Bool.not_eq_true _ ▸ alone)]⟩

/-- The rows after the deletion of a job; a drive is freed, or as it was. -/
structure Deleted (s t : Db) (jobId : Nat) : Prop where
  jobs : ∀ j, j ∈ t.jobs ↔ j ∈ s.jobs ∧ j.id ≠ jobId
  files : ∀ f, f ∈ t.files ↔ f ∈ s.files ∧ f.jobId ≠ jobId
  assignments : ∀ a, a ∈ t.assignments ↔ a ∈ s.assignments ∧ a.jobId ≠ jobId
  drives : ∀ d', d' ∈ t.drives ↔ (d' ∈ s.drives ∧ freedDrive s jobId ≠ some d'.id) ∨
    ∃ d ∈ s.drives, freedDrive s jobId = some d.id ∧ d' = { d with currentState := .available }

theorem deleted_of_deleteJob {s t : Db} {jobId : Nat} (h : deleteJob s jobId = .ok t) :
    Deleted s t jobId := by
  simp only [deleteJob, bind_eq_ok, orReject_eq_ok, ensure_eq_ok, pure_eq_ok] at h
  obtain ⟨job, found, -, -, -, pending, rfl⟩ := h
  cases active : s.getActiveForJob jobId with
  | none =>
      have none : freedDrive s jobId = none := by simp [freedDrive, active]
      constructor <;> simp [none, Table.mem_delete]
  | some a =>
      cases other : s.otherActiveAssignmentsForDrive a.driveId jobId with
      | true =>
          have none : freedDrive s jobId = none := by simp [freedDrive, active, other]
          constructor <;> simp [none, other, Table.mem_delete]
      | false =>
          have freed : freedDrive s jobId = some a.driveId := by simp [freedDrive, active, other]
          simp only [other, Bool.false_eq_true, if_false]
          constructor
          · simp [Table.mem_delete, Db.setDriveState, Db.modifyDrive]
          · simp [Table.mem_delete, Db.setDriveState, Db.modifyDrive]
          · simp [Table.mem_delete, Db.setDriveState, Db.modifyDrive]
          · intro d'
            simp only [Db.mem_setDriveState, freed, ne_eq, Option.some.injEq]
            constructor
            · rintro (⟨hd, ne⟩ | ⟨d, hd, same, rfl⟩)
              · exact .inl ⟨hd, fun same => ne same.symm⟩
              · exact .inr ⟨d, hd, same.symm, rfl⟩
            · rintro (⟨hd, ne⟩ | ⟨d, hd, same, rfl⟩)
              · exact .inl ⟨hd, fun same => ne same.symm⟩
              · exact .inr ⟨d, hd, same.symm, rfl⟩

theorem leaves_deleteJob {P : Db → Prop} {s : Db} {jobId : Nat} (hs : P s) :
    Leaves P (deleteJob s jobId) :=
  .bind (.orReject hs) fun _ _ => .bind (.ensure hs) fun _ _ => .bind (.ensure hs) fun _ _ =>
    .pure _

theorem verifyJob_eq_ok {s s' : Db} {jobId : Nat} (h : verifyJob s jobId = .ok s') :
    ∃ job, s.jobs.get jobId = some job ∧ job.status = .completed ∧ s.retryableCount jobId = 0 ∧
      s' = s.modifyJob jobId (fun j => { j with status := .verifying }) fun _ => rfl := by
  simp only [verifyJob, bind_eq_ok, orReject_eq_ok, ensure_eq_ok, pure_eq_ok] at h
  obtain ⟨job, found, -, completed, -, clean, rfl⟩ := h
  exact ⟨job, found, completed, clean, rfl⟩

theorem leaves_verifyJob {P : Db → Prop} {s : Db} {jobId : Nat} (hs : P s) :
    Leaves P (verifyJob s jobId) :=
  .bind (.orReject hs) fun _ _ => .bind (.ensure hs) fun _ _ => .bind (.ensure hs) fun _ _ =>
    .pure _

theorem archiveJob_eq_ok {s s' : Db} {jobId : Nat} {confirm : Bool}
    (h : archiveJob s jobId confirm = .ok s') :
    ∃ job, s.jobs.get jobId = some job ∧ job.status ∈ archivableJobStatuses ∧
      s' = s.modifyJob jobId (fun j => { j with status := .archived }) fun _ => rfl := by
  simp only [archiveJob, bind_eq_ok, orReject_eq_ok, ensure_eq_ok, pure_eq_ok] at h
  obtain ⟨-, -, job, found, -, status, -, -, rfl⟩ := h
  exact ⟨job, found, status, rfl⟩

theorem leaves_archiveJob {P : Db → Prop} {s : Db} {jobId : Nat} {confirm : Bool} (hs : P s) :
    Leaves P (archiveJob s jobId confirm) :=
  .bind (.ensure hs) fun _ _ => .bind (.orReject hs) fun _ _ => .bind (.ensure hs) fun _ _ =>
    .bind (.ensure hs) fun _ _ => .pure _

end Ecube
