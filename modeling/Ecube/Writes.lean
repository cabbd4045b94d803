import Ecube.Lifecycle

/-!
What an action of the workflow writes.

Most actions write one job and its files, or one drive. `JobWrites` and
`DriveWrites` say what such an action does to every row, with the status
transitions of a job (`Advance`) and the changes of a drive (`DriveWrite`).
`step_writes` reduces a property of the database after any action to these two
kinds and to the five operations that write assignments.
-/

namespace Ecube

open Table

/-! ### Job writes -/

/-- A job that no start, retry or continuation accepts: archived, or completed
without a failed file. -/
def Closed (s : Db) (j : ExportJob) : Prop :=
  j.status = .archived ∨ (j.status = .completed ∧ s.retryableCount j.id = 0)

instance (s : Db) (j : ExportJob) : Decidable (Closed s j) :=
  inferInstanceAs (Decidable (_ ∨ _))

/-- The status transitions of job `k` outside continuations. Only an accepted
start, retry or verification request leaves the statuses without a run. -/
inductive Advance (cfg : Settings) (s : Db) (a : Action) (k : Nat) :
    JobStatus → JobStatus → Prop where
  | same {status : JobStatus} : Advance cfg s a k status status
  | start {status : JobStatus} {threadCount : Option Nat}
      (event : a.event = .startJob k threadCount) (accepted : Accepted cfg s a)
      (startable : status ∈ [JobStatus.pending, .failed, .paused]) :
      Advance cfg s a k status .preparing
  | retry (event : a.event = .retryFailedFiles k) (accepted : Accepted cfg s a) :
      Advance cfg s a k .completed .preparing
  | run {status : JobStatus} (running : status ∈ [JobStatus.preparing, .running]) :
      Advance cfg s a k status .running
  | pause : Advance cfg s a k .running .pausing
  | finish {status status' : JobStatus} (copying : status ∈ copyingStatuses)
      (final : status' ∈ [JobStatus.paused, .completed, .failed]) : Advance cfg s a k status status'
  | complete {status : JobStatus} (completable : status ∈ [JobStatus.pending, .paused, .failed]) :
      Advance cfg s a k status .completed
  | verify (event : a.event = .verifyJob k) (accepted : Accepted cfg s a) :
      Advance cfg s a k .completed .verifying
  | verified {status : JobStatus} (final : status ∈ [JobStatus.completed, .failed]) :
      Advance cfg s a k .verifying status
  | archive {status : JobStatus} (archivable : status ∈ archivableJobStatuses) :
      Advance cfg s a k status .archived

/-- A job that an action reopens, or whose source path it revalidates. A refused
start or continuation may leave the revalidated path. -/
inductive Reopened (cfg : Settings) (s : Db) (a : Action) (j j' : ExportJob) : Prop where
  | start {threadCount : Option Nat} (event : a.event = .startJob j.id threadCount)
      (startable : startableJob cfg s j.id = .ok (j, j'.sourcePath))
      (accepted : Accepted cfg s a ∨ j'.status = j.status)
  | retry (event : a.event = .retryFailedFiles j.id) (accepted : Accepted cfg s a)
      (path : j'.sourcePath = normalizePath j.sourcePath)
  | verify (event : a.event = .verifyJob j.id) (accepted : Accepted cfg s a)
      (path : j'.sourcePath = j.sourcePath)
  | refused {driveId : Nat} {threadCount : Option Nat}
      (event : a.event = .continueJobOverflow j.id driveId threadCount)
      (rejected : ¬ Accepted cfg s a) (status : j'.status = j.status) (path : j'.sourcePath = normalizePath j.sourcePath)

/-- The source path is kept, and a finished job stays finished. -/
def SourceKept (j j' : ExportJob) : Prop :=
  j'.sourcePath = j.sourcePath ∧
    (j'.status ∈ activeSourceOverlapStatuses → j.status ∈ activeSourceOverlapStatuses)

theorem SourceKept.refl (j : ExportJob) : SourceKept j j := ⟨rfl, id⟩

/-- A job before and after an action that keeps its project and destination. -/
structure JobWrite (cfg : Settings) (a : Action) (s t : Db) (j j' : ExportJob) : Prop where
  id : j'.id = j.id
  projectId : j'.projectId = j.projectId
  targetMountPath : j'.targetMountPath = j.targetMountPath
  advance : Advance cfg s a j.id j.status j'.status
  source : SourceKept j j' ∨ Reopened cfg s a j j'
  closed : Closed s j → Closed t j' ∨ (a.event = .verifyJob j.id ∧ Accepted cfg s a)

/-- A completed file before and after an action that does not copy it. -/
structure SameEvidence (f₀ f : ExportFile) : Prop where
  done : f₀.status = .done
  id : f₀.id = f.id
  jobId : f₀.jobId = f.jobId
  driveAssignmentId : f₀.driveAssignmentId = f.driveAssignmentId
  relativePath : f₀.relativePath = f.relativePath
  checksum : f₀.checksum = f.checksum

theorem SameEvidence.refl {f : ExportFile} (done : f.status = .done) : SameEvidence f f :=
  ⟨done, rfl, rfl, rfl, rfl, rfl⟩

/-- A file is recorded as completed. -/
def recordsDone : Event → Bool
  | .recordFile _ _ .done _ => true
  | _ => false

/-- An action that writes jobs and files only. -/
structure JobWrites (cfg : Settings) (a : Action) (s t : Db) : Prop where
  assignments : t.assignments = s.assignments
  drives : t.drives = s.drives
  jobs : ∀ j' ∈ t.jobs, ∃ j ∈ s.jobs, JobWrite cfg a s t j j'
  kept : ∀ j ∈ s.jobs, ∃ j' ∈ t.jobs, j'.id = j.id
  done : recordsDone a.event = false →
    ∀ f ∈ t.files, f.status = .done → ∃ f₀ ∈ s.files, SameEvidence f₀ f

theorem retryableCount_eq_zero_iff {s : Db} {jobId : Nat} :
    s.retryableCount jobId = 0 ↔
      ∀ f ∈ s.files, f.jobId = jobId → f.status ≠ .error ∧ f.status ≠ .timeout := by
  rw [Db.retryableCount, Nat.add_eq_zero_iff, Db.countFiles, Db.countFiles, List.countP_eq_zero,
    List.countP_eq_zero]
  simp only [decide_eq_true_eq, not_and]
  exact ⟨fun h f hf job => ⟨h.1 f hf job, h.2 f hf job⟩,
    fun h => ⟨fun f hf job => (h f hf job).1, fun f hf job => (h f hf job).2⟩⟩

/-- A write to files of one job leaves the files of the others. -/
theorem mem_of_update {files : Table ExportFile} {k : Nat} {p : ExportFile → Bool}
    {g : ExportFile → ExportFile} (key : ∀ r, (g r).id = r.id) {f : ExportFile}
    (hf : f ∈ files.update p g key) (mine : ∀ r, p r = true → r.jobId = k)
    (job : ∀ r, (g r).jobId = r.jobId) (other : f.jobId ≠ k) : f ∈ files := by
  obtain ⟨r, hr, rfl⟩ := (mem_update key).mp hf
  cases meets : p r with
  | true =>
      rw [if_pos meets, job, mine r meets] at other
      exact absurd rfl other
  | false => exact hr

theorem mem_of_resetFailedForRetry {s : Db} {k : Nat} {f : ExportFile}
    (hf : f ∈ (s.resetFailedForRetry k).files) (other : f.jobId ≠ k) : f ∈ s.files := by
  refine mem_of_update ?_ hf (fun _ hr => (of_decide_eq_true hr).1) (fun _ => rfl) other
  exact fun _ => rfl

/-- Files that are reset are not done. -/
theorem done_of_update {files : Table ExportFile} {p : ExportFile → Bool}
    {g : ExportFile → ExportFile} (key : ∀ r, (g r).id = r.id) {f : ExportFile}
    (hf : f ∈ files.update p g key) (reset : ∀ r, (g r).status ≠ .done) (done : f.status = .done) :
    f ∈ files := by
  obtain ⟨r, hr, rfl⟩ := (mem_update key).mp hf
  cases meets : p r with
  | true =>
      rw [if_pos meets] at done
      exact absurd done (reset r)
  | false => exact hr

theorem done_of_resetFailedForRetry {s : Db} {k : Nat} {f : ExportFile}
    (hf : f ∈ (s.resetFailedForRetry k).files) (done : f.status = .done) : f ∈ s.files := by
  refine done_of_update ?_ hf (fun _ => by simp [Db.backToPending]) done
  exact fun _ => rfl

theorem mem_of_resetTargetFullFailedForRetry {s : Db} {k : Nat} {f : ExportFile}
    (hf : f ∈ (s.resetTargetFullFailedForRetry k).files) (other : f.jobId ≠ k) : f ∈ s.files := by
  refine mem_of_update ?_ hf (fun _ hr => (of_decide_eq_true hr).1) (fun _ => rfl) other
  exact fun _ => rfl

theorem done_of_resetTargetFullFailedForRetry {s : Db} {k : Nat} {f : ExportFile}
    (hf : f ∈ (s.resetTargetFullFailedForRetry k).files) (done : f.status = .done) :
    f ∈ s.files := by
  refine done_of_update ?_ hf (fun _ => by simp [Db.backToPending]) done
  exact fun _ => rfl

/-- A closed job stays closed when none of its files is written. -/
theorem Closed.mono {s t : Db} {j j' : ExportJob} (h : Closed s j) (id : j'.id = j.id)
    (status : j'.status = j.status)
    (files : ∀ f ∈ t.files, f.jobId = j.id → f ∈ s.files) : Closed t j' := by
  rw [Closed, status, id]
  refine h.imp_right fun ⟨completed, clean⟩ => ⟨completed, ?_⟩
  rw [retryableCount_eq_zero_iff] at clean ⊢
  exact fun f hf job => clean f (files f hf job) job

namespace JobWrites

variable {cfg : Settings} {a : Action} {s : Db}

theorem refl : JobWrites cfg a s s where
  assignments := rfl
  drives := rfl
  jobs j hj := ⟨j, hj, rfl, rfl, rfl, .same, .inl (.refl j), .inl⟩
  kept j hj := ⟨j, hj, rfl⟩
  done _ f hf done := ⟨f, hf, .refl done⟩

/-- Writes to the files of a job that is not closed. -/
theorem files {k : Nat} {files : Table ExportFile}
    (others : ∀ f ∈ files, f.jobId ≠ k → f ∈ s.files)
    (opened : ∀ j ∈ s.jobs, j.id = k → ¬ Closed s j)
    (done : recordsDone a.event = false →
      ∀ f ∈ files, f.status = .done → ∃ f₀ ∈ s.files, SameEvidence f₀ f) :
    JobWrites cfg a s { s with files := files } where
  assignments := rfl
  drives := rfl
  jobs j hj := by
    refine ⟨j, hj, rfl, rfl, rfl, .same, .inl (.refl j), fun closed => .inl (closed.mono rfl rfl ?_)⟩
    intro f hf job
    apply others f hf
    intro same
    exact opened j hj (job.symm.trans same) closed
  kept j hj := ⟨j, hj, rfl⟩
  done := done

/-- A write to one job and to its files. -/
theorem modify {k : Nat} {f : ExportJob → ExportJob} {key : ∀ r, (f r).id = r.id}
    {files : Table ExportFile} (project : ∀ r, (f r).projectId = r.projectId)
    (target : ∀ r, (f r).targetMountPath = r.targetMountPath)
    (others : ∀ x ∈ files, x.jobId ≠ k → x ∈ s.files)
    (done : ∀ x ∈ files, x.status = .done → x ∈ s.files)
    (advance : ∀ j ∈ s.jobs, j.id = k → Advance cfg s a k j.status (f j).status)
    (source : ∀ j ∈ s.jobs, j.id = k → SourceKept j (f j) ∨ Reopened cfg s a j (f j))
    (closed : ∀ j ∈ s.jobs, j.id = k → Closed s j →
      Closed { s with files := files } (f j) ∨ (a.event = .verifyJob k ∧ Accepted cfg s a)) :
    JobWrites cfg a s (({ s with files := files } : Db).modifyJob k f key) where
  assignments := rfl
  drives := rfl
  jobs j' hj' := by
    rcases Db.mem_modifyJob.mp hj' with ⟨hj, other⟩ | ⟨j, hj, rfl, rfl⟩
    · refine ⟨j', hj, rfl, rfl, rfl, .same, .inl (.refl j'), fun h => .inl (h.mono rfl rfl ?_)⟩
      exact fun f hf job => others f hf (job ▸ other)
    · exact ⟨j, hj, key j, project j, target j, advance j hj rfl, source j hj rfl, closed j hj rfl⟩
  kept j hj := Db.exists_modifyJob ⟨j, hj, rfl⟩
  done _ x hx hdone := ⟨x, done x hx hdone, .refl hdone⟩

/-- A write to one job alone. -/
theorem job {k : Nat} {f : ExportJob → ExportJob} {key : ∀ r, (f r).id = r.id}
    (project : ∀ r, (f r).projectId = r.projectId)
    (target : ∀ r, (f r).targetMountPath = r.targetMountPath)
    (advance : ∀ j ∈ s.jobs, j.id = k → Advance cfg s a k j.status (f j).status)
    (source : ∀ j ∈ s.jobs, j.id = k → SourceKept j (f j) ∨ Reopened cfg s a j (f j))
    (closed : ∀ j ∈ s.jobs, j.id = k → Closed s j →
      (f j).status = j.status ∨ (f j).status = .archived ∨
        (a.event = .verifyJob k ∧ Accepted cfg s a)) :
    JobWrites cfg a s (s.modifyJob k f key) := by
  refine modify project target (fun x hx _ => hx) (fun x hx _ => hx) advance source
    fun j hj same h => ?_
  rcases closed j hj same h with status | archived | verify
  · exact .inl (h.mono (key j) status fun f hf _ => hf)
  · exact .inl (.inl archived)
  · exact .inr verify

end JobWrites

/-! ### Drive writes -/

/-- The action formats the drive with this key. -/
def Formats (k : Nat) (s : Db) (a : Action) : Prop :=
  ∃ filesystemType, a.event = .completeDriveFormat k filesystemType false none ∧
    ∃ d ∈ s.drives, d.id = k ∧ Formattable d

/-- What an action outside the job service does to a drive. -/
inductive DriveWrite (cfg : Settings) (s : Db) (a : Action) (d d' : UsbDrive) : Prop where
  | same (state : d'.currentState = d.currentState)
      (project : d'.currentProjectId = d.currentProjectId) (mount : d'.mountPath = d.mountPath)
  | initialized (projectId : ProjectId)
      (bindable : d.currentProjectId = none ∨ d.currentProjectId = some projectId)
      (state : d'.currentState = .inUse) (project : d'.currentProjectId = some projectId)
      (mount : d'.mountPath = d.mountPath)
  | mounted (unmounted : truthy d.mountPath = none) (state : d'.currentState = d.currentState)
      (project : d'.currentProjectId = d.currentProjectId)
      (mount : d'.mountPath = some (mountPoint cfg d.id))
  | ejected {confirmIncomplete : Bool} {result : EjectResult}
      (event : a.event = .prepareEject d.id confirmIncomplete result)
      (accepted : Accepted cfg s a) (free : blockingJob s d.id = none) (state : d'.currentState = .available)
      (project : d'.currentProjectId = d.currentProjectId) (mount : d'.mountPath = none)
  | formatted {filesystemType : String}
      (event : a.event = .completeDriveFormat d.id filesystemType false none)
      (formattable : Formattable d) (state : d'.currentState = .available)
      (project : d'.currentProjectId = none) (mount : d'.mountPath = d.mountPath)

/-- An action that writes drives only. -/
structure DriveWrites (cfg : Settings) (a : Action) (s t : Db) : Prop where
  jobs : t.jobs = s.jobs
  files : t.files = s.files
  assignments : t.assignments = s.assignments
  drives : ∀ d' ∈ t.drives, ∃ d ∈ s.drives, d'.id = d.id ∧ DriveWrite cfg s a d d'
  kept : ∀ d ∈ s.drives, ∃ d' ∈ t.drives, d'.id = d.id

theorem DriveWrites.modify {cfg : Settings} {a : Action} {s : Db} {k : Nat}
    {f : UsbDrive → UsbDrive} {key : ∀ r, (f r).id = r.id}
    (write : ∀ d ∈ s.drives, d.id = k → DriveWrite cfg s a d (f d)) :
    DriveWrites cfg a s (s.modifyDrive k f key) where
  jobs := rfl
  files := rfl
  assignments := rfl
  drives d' hd' := by
    rcases Db.mem_modifyDrive.mp hd' with ⟨hd, -⟩ | ⟨d, hd, same, rfl⟩
    · exact ⟨d', hd, rfl, .same rfl rfl rfl⟩
    · exact ⟨d, hd, key d, write d hd same⟩
  kept d hd := Db.exists_modifyDrive ⟨d, hd, rfl⟩

/-! ### The actions -/

/-- The job a background transaction works on is in one of its statuses. -/
theorem whileIn_rule {P : Db → Prop} {s next : Db} {k : Nat} {statuses : List JobStatus}
    (hs : P s) (hnext : (∀ j ∈ s.jobs, j.id = k → j.status ∈ statuses) → P next) :
    P (whileIn s k statuses next) := by
  rw [whileIn]
  split
  · rename_i current
    apply hnext
    intro j hj same
    rw [get_eq_some_iff.mpr ⟨hj, same⟩] at current
    simpa using current
  · exact hs

/-- A transaction of a run, in `step`. -/
theorem step_of_run {cfg : Settings} {P : Db → Prop} {s : Db} {a : Action} {k : Nat}
    {statuses : List JobStatus} (run : a.event.run = some (k, statuses)) (hs : P s)
    (written : (∀ j ∈ s.jobs, j.id = k → j.status ∈ statuses) →
      P (runWrites s a.now a.event)) : P (step cfg s a) := by
  obtain ⟨now, event⟩ := a
  cases event with
  | enterRunning | listFile | recordFile | resolveTargetFull | finalizeRun | failRun
  | finishVerify =>
      cases run
      exact whileIn_rule hs written
  | _ => cases run

/-- A job in the copy phase or under verification is not closed. -/
theorem not_closed_of_busy {s : Db} {j : ExportJob} {statuses : List JobStatus}
    (busy : j.status ∈ statuses)
    (sub : statuses ⊆ [.verifying, .preparing, .running, .pausing]) : ¬ Closed s j := by
  have := sub busy
  rintro (archived | ⟨completed, -⟩)
  · simp [archived] at this
  · simp [completed] at this

section Actions

variable {cfg : Settings} {s : Db} {now : Nat}

theorem jobWrites_sourcePath {a : Action} {k : Nat} {sourcePath : Str}
    (revalidated : ∀ j ∈ s.jobs, j.id = k →
      Reopened cfg s a j { j with sourcePath := sourcePath }) :
    JobWrites cfg a s (s.modifyJob k (fun j => { j with sourcePath := sourcePath }) fun _ => rfl) :=
  .job (fun _ => rfl) (fun _ => rfl) (fun _ _ _ => .same)
    (fun j hj same => .inr (revalidated j hj same)) fun _ _ _ _ => .inl rfl

/-- The path that a refused start leaves. -/
theorem jobWrites_startRefused {a : Action} {k : Nat} {threadCount : Option Nat} {job : ExportJob}
    {sourcePath : Str} (event : a.event = .startJob k threadCount)
    (startable : startableJob cfg s k = .ok (job, sourcePath)) :
    JobWrites cfg a s
      (s.modifyJob k (fun j => { j with sourcePath := sourcePath }) fun _ => rfl) := by
  apply jobWrites_sourcePath
  intro j hj same
  subst same
  rw [eq_of_get (startableJob_eq_ok startable).1 hj rfl] at event ⊢
  rw [show j.id = job.id from (id_of_get (startableJob_eq_ok startable).1).symm] at startable
  exact .start event startable (.inr rfl)

/-- The path that a refused continuation leaves. -/
theorem jobWrites_continueRefused {a : Action} {k driveId : Nat} {threadCount : Option Nat}
    {job : ExportJob} (event : a.event = .continueJobOverflow k driveId threadCount)
    (rejected : ¬ Accepted cfg s a) (found : s.jobs.get k = some job) :
    JobWrites cfg a s (s.modifyJob k
      (fun j => { j with sourcePath := normalizePath job.sourcePath }) fun _ => rfl) := by
  apply jobWrites_sourcePath
  intro j hj same
  subst same
  rw [eq_of_get found hj rfl] at event ⊢
  exact .refused event rejected rfl rfl

theorem jobWrites_startJob {k : Nat} {threadCount : Option Nat} {s' : Db}
    (h : startJob cfg s k threadCount now = .ok s') :
    JobWrites cfg ⟨now, .startJob k threadCount⟩ s s' := by
  obtain ⟨job, found, startable, sourcePath, checked, rfl⟩ := startJob_eq_ok h
  refine .job (fun _ => rfl) (fun _ => rfl) (fun j hj same => ?_) (fun j hj same => ?_)
    fun j hj same closed => ?_
  · rw [eq_of_get found hj same]
    exact .start rfl ⟨_, h⟩ startable
  · subst same
    obtain rfl := eq_of_get found hj rfl
    exact .inr (.start rfl checked (.inl ⟨_, h⟩))
  · rw [eq_of_get found hj same] at closed
    rcases closed with archived | ⟨completed, -⟩
    · simp [archived] at startable
    · simp [completed] at startable

theorem jobWrites_retryFailedFiles {k : Nat} {s' : Db}
    (h : retryFailedFiles cfg s k now = .ok s') : JobWrites cfg ⟨now, .retryFailedFiles k⟩ s s' := by
  obtain ⟨job, found, completed, failed, sourcePath, path, rfl⟩ := retryFailedFiles_eq_ok h
  refine .modify (fun _ => rfl) (fun _ => rfl) (fun f hf other => ?_) (fun f hf done => ?_)
    (fun j hj same => ?_) (fun j hj same => ?_) fun j hj same closed => ?_
  · exact mem_of_resetFailedForRetry hf other
  · exact done_of_resetFailedForRetry hf done
  · rw [eq_of_get found hj same, completed]
    exact .retry rfl ⟨_, h⟩
  · subst same
    obtain rfl := eq_of_get found hj rfl
    exact .inr (.retry rfl ⟨_, h⟩ path)
  · rw [eq_of_get found hj same] at closed
    rcases closed with archived | ⟨-, clean⟩
    · rw [archived] at completed
      cases completed
    · rw [show job.id = k from id_of_get found] at clean
      omega

theorem jobWrites_pauseJob {k : Nat} {s' : Db} (h : pauseJob s k = .ok s') :
    JobWrites cfg ⟨now, .pauseJob k⟩ s s' := by
  obtain ⟨job, found, running, rfl⟩ := pauseJob_eq_ok h
  refine .job (fun _ => rfl) (fun _ => rfl) (fun j hj same => ?_) (fun j hj same => ?_)
    fun j hj same closed => ?_
  · rw [eq_of_get found hj same, running]
    exact .pause
  · rw [eq_of_get found hj same]
    exact .inl ⟨rfl, fun _ => by simp [running, activeSourceOverlapStatuses]⟩
  · rw [eq_of_get found hj same] at closed
    exact absurd closed (not_closed_of_busy (List.mem_singleton.mpr running) (by simp))

theorem jobWrites_completeJob {k : Nat} {s' : Db} (h : completeJob s k now = .ok s') :
    JobWrites cfg ⟨now, .completeJob k⟩ s s' := by
  obtain ⟨job, found, completable, rfl⟩ := completeJob_eq_ok h
  refine .job (fun _ => rfl) (fun _ => rfl) (fun j hj same => ?_)
    (fun _ _ _ => .inl ⟨rfl, fun active => by simp [activeSourceOverlapStatuses] at active⟩)
    fun j hj same closed => ?_
  · rw [eq_of_get found hj same]
    exact .complete completable
  · rw [eq_of_get found hj same] at closed
    rcases closed with archived | ⟨completed, -⟩
    · simp [archived] at completable
    · simp [completed] at completable

theorem jobWrites_verifyJob {k : Nat} {s' : Db} (h : verifyJob s k = .ok s') :
    JobWrites cfg ⟨now, .verifyJob k⟩ s s' := by
  obtain ⟨job, found, completed, -, rfl⟩ := verifyJob_eq_ok h
  refine .job (fun _ => rfl) (fun _ => rfl) (fun j hj same => ?_) (fun j hj same => ?_)
    fun _ _ _ _ => .inr (.inr ⟨rfl, _, h⟩)
  · rw [eq_of_get found hj same, completed]
    exact .verify rfl ⟨_, h⟩
  · subst same
    exact .inr (.verify rfl ⟨_, h⟩ rfl)

theorem jobWrites_archiveJob {k : Nat} {confirm : Bool} {s' : Db}
    (h : archiveJob s k confirm = .ok s') : JobWrites cfg ⟨now, .archiveJob k confirm⟩ s s' := by
  obtain ⟨job, found, archivable, rfl⟩ := archiveJob_eq_ok h
  refine .job (fun _ => rfl) (fun _ => rfl) (fun j hj same => ?_)
    (fun _ _ _ => .inl ⟨rfl, fun active => by simp [activeSourceOverlapStatuses] at active⟩)
    fun _ _ _ _ => .inr (.inl rfl)
  rw [eq_of_get found hj same]
  exact .archive archivable

/-- A job in the copy phase is not finished. -/
theorem copying_active {status : JobStatus} (copying : status ∈ copyingStatuses) :
    status ∈ activeSourceOverlapStatuses := by
  revert copying
  cases status <;> decide

/-- A background transaction that ends the copy phase of a job. -/
theorem jobWrites_finish {a : Action} {k : Nat} {f : ExportJob → ExportJob}
    {key : ∀ r, (f r).id = r.id} (project : ∀ r, (f r).projectId = r.projectId)
    (target : ∀ r, (f r).targetMountPath = r.targetMountPath)
    (path : ∀ r, (f r).sourcePath = r.sourcePath)
    (final : ∀ r, (f r).status ∈ [JobStatus.paused, .completed, .failed])
    (copying : ∀ j ∈ s.jobs, j.id = k → j.status ∈ copyingStatuses) :
    JobWrites cfg a s (s.modifyJob k f key) := by
  refine .job project target (fun j hj same => .finish (copying j hj same) (final j))
    (fun j hj same => .inl ⟨path j, fun _ => copying_active (copying j hj same)⟩)
    fun j hj same closed => ?_
  exact absurd closed (not_closed_of_busy (copying j hj same) (by simp [copyingStatuses]))

theorem finalStatus_mem (pauseRequested targetFullFailed allFinished : Bool) (status : JobStatus) :
    finalStatus pauseRequested targetFullFailed allFinished status ∈
      [JobStatus.paused, .completed, .failed] := by
  rw [finalStatus]
  split
  · simp
  · split
    · simp
    · split <;> simp

theorem jobWrites_finalizeRun {a : Action} {k : Nat} {pauseRequested targetFullFailed : Bool}
    (copying : ∀ j ∈ s.jobs, j.id = k → j.status ∈ copyingStatuses) :
    JobWrites cfg a s (finalizeRun s k pauseRequested targetFullFailed now) := by
  rw [finalizeRun]
  split
  · exact .refl
  · exact jobWrites_finish (fun _ => rfl) (fun _ => rfl) (fun _ => rfl)
      (fun _ => finalStatus_mem _ _ _ _) copying

theorem jobWrites_persistFile {a : Action} {k : Nat} {relativePath : Str} {sizeBytes : Nat}
    (opened : ∀ j ∈ s.jobs, j.id = k → ¬ Closed s j) :
    JobWrites cfg a s (persistFile s k relativePath sizeBytes) := by
  rw [persistFile]
  split
  · refine .files (k := k) (fun f hf other => ?_) opened fun _ f hf done => ?_
    · refine mem_of_update _ hf (fun _ hr => (of_decide_eq_true hr).1) (fun r => ?_) other
      dsimp only
      split <;> rfl
    · obtain ⟨r, hr, rfl⟩ := (mem_update _).mp hf
      refine ⟨r, hr, ?_⟩
      split at done
      · -- Only a row that was done is still done.
        dsimp only at done
        split at done
        · rename_i meets old
          simp only [meets, old, if_true]
          exact ⟨old, rfl, rfl, rfl, rfl, rfl⟩
        · cases done
      · rename_i spared
        rw [if_neg spared]
        exact .refl done
  · refine .files (k := k) (fun f hf other => ?_) opened fun _ f hf done => ?_
    · rcases (mem_insert fun _ => rfl).mp hf with hf | rfl
      · exact hf
      · exact absurd rfl other
    · rcases (mem_insert fun _ => rfl).mp hf with hf | rfl
      · exact ⟨f, hf, .refl done⟩
      · cases done

theorem jobWrites_recordFile {k fileId : Nat} {status : FileStatus} {errorMessage : Option String}
    (opened : ∀ j ∈ s.jobs, j.id = k → ¬ Closed s j) :
    JobWrites cfg ⟨now, .recordFile k fileId status errorMessage⟩ s
      (recordFile s k fileId status errorMessage) := by
  refine .files (k := k) (fun f hf other => ?_) opened fun recorded f hf done => ?_
  · exact mem_of_update _ hf (fun r hr => (of_decide_eq_true hr).2) (fun _ => rfl) other
  · refine ⟨f, done_of_update _ hf (fun r same => ?_) done, .refl done⟩
    obtain rfl : status = .done := same
    cases recorded

theorem driveWrites_initializeDrive {driveId : Nat} {projectId : ProjectId} {s' : Db}
    (h : initializeDrive s driveId projectId = .ok s') :
    DriveWrites cfg ⟨now, .initializeDrive driveId projectId⟩ s s' := by
  obtain ⟨drive, found, bindable, rfl⟩ := initializeDrive_eq_ok h
  refine .modify fun d hd same => ?_
  rw [eq_of_get found hd same]
  exact .initialized projectId bindable rfl rfl rfl

theorem driveWrites_mountDrive {driveId : Nat} {result : MountResult} {s' : Db}
    (h : mountDrive cfg s driveId result = .ok s') :
    DriveWrites cfg ⟨now, .mountDrive driveId result⟩ s s' := by
  obtain ⟨drive, found, unmounted, rfl⟩ := mountDrive_eq_ok h
  refine .modify fun d hd same => ?_
  obtain rfl := eq_of_get found hd same
  exact .mounted unmounted rfl rfl (by rw [same])

theorem driveWrites_prepareEject {driveId : Nat} {confirmIncomplete : Bool} {result : EjectResult}
    {s' : Db} (h : prepareEject s driveId confirmIncomplete result = .ok s') :
    DriveWrites cfg ⟨now, .prepareEject driveId confirmIncomplete result⟩ s s' := by
  obtain ⟨drive, checks, rfl, -⟩ := prepareEject_eq_ok h
  refine .modify fun d hd same => ?_
  subst same
  exact .ejected rfl ⟨_, h⟩ (ejectChecks_eq_ok.mp checks).2.1 rfl rfl rfl

theorem driveWrites_completeDriveFormat {driveId : Nat} {filesystemType : String}
    {isMounted : Bool} {failure : Option String} :
    DriveWrites cfg ⟨now, .completeDriveFormat driveId filesystemType isMounted failure⟩ s
      (completeDriveFormat s driveId filesystemType isMounted failure) := by
  rcases completeDriveFormat_cases s driveId filesystemType isMounted failure with
    h | ⟨detail, h⟩ | ⟨drive, found, formattable, rfl, rfl, h⟩
  · rw [h]
    exact ⟨rfl, rfl, rfl, fun d hd => ⟨d, hd, rfl, .same rfl rfl rfl⟩, fun d hd => ⟨d, hd, rfl⟩⟩
  · rw [h]
    exact .modify fun d _ _ => .same rfl rfl rfl
  · rw [h]
    refine .modify fun d hd same => ?_
    obtain rfl := eq_of_get found hd same
    subst same
    exact .formatted rfl formattable formattable.available rfl rfl

end Actions

/-- A property of the database after an action, from what job writes and drive
writes do to it and from the five operations that write assignments. -/
theorem step_writes {cfg : Settings} {s : Db} {a : Action} {P : Db → Prop}
    (jobs : ∀ t, JobWrites cfg a s t → P t)
    (drives : ∀ t, DriveWrites cfg a s t → P t)
    (create : ∀ body seeded s', a.event = .createJob body seeded →
      createJob cfg s body seeded a.now = .ok s' → P s')
    (update : ∀ jobId body, a.event = .updateJob jobId body →
      (∀ s', updateJob cfg s jobId body a.now = .ok s' → P s') ∧
        Leaves P (updateJob cfg s jobId body a.now))
    (delete : ∀ jobId s', a.event = .deleteJob jobId → deleteJob s jobId = .ok s' → P s')
    (continue_ : ∀ jobId driveId threadCount s',
      a.event = .continueJobOverflow jobId driveId threadCount →
      continueJobOverflow cfg s jobId driveId threadCount a.now = .ok s' → P s')
    (targetFull : ∀ jobId probe, a.event = .resolveTargetFull jobId probe →
      (∀ j ∈ s.jobs, j.id = jobId → j.status ∈ copyingStatuses) →
      P (resolveTargetFullOutcome s jobId probe a.now).2) :
    P (step cfg s a) := by
  have hs : P s := jobs s .refl
  obtain ⟨now, event⟩ := a
  cases event with
  | createJob body seeded =>
      exact step_rule (create body seeded · rfl) (leaves_createJob hs)
  | updateJob jobId body =>
      exact step_rule (update jobId body rfl).1 (update jobId body rfl).2
  | deleteJob jobId => exact step_rule (delete jobId · rfl) (leaves_deleteJob hs)
  | startJob jobId threadCount =>
      refine step_rule (fun s' h => jobs s' (jobWrites_startJob h)) ?_
      exact leaves_startJob hs fun _ _ startable => jobs _ (jobWrites_startRefused rfl startable)
  | retryFailedFiles jobId =>
      exact step_rule (fun s' h => jobs s' (jobWrites_retryFailedFiles h)) (leaves_retryFailedFiles hs)
  | continueJobOverflow jobId driveId threadCount =>
      refine step_rule (continue_ jobId driveId threadCount · rfl) fun r refused => ?_
      have rejected : ¬ Accepted cfg s ⟨now, .continueJobOverflow jobId driveId threadCount⟩ := by
        rintro ⟨s', accepted⟩
        cases refused.symm.trans accepted
      exact leaves_continueJobOverflow hs
        (fun _ found => jobs _ (jobWrites_continueRefused rfl rejected found)) r refused
  | pauseJob jobId =>
      exact step_rule (fun s' h => jobs s' (jobWrites_pauseJob h)) (leaves_pauseJob hs)
  | completeJob jobId =>
      exact step_rule (fun s' h => jobs s' (jobWrites_completeJob h)) (leaves_completeJob hs)
  | verifyJob jobId =>
      exact step_rule (fun s' h => jobs s' (jobWrites_verifyJob h)) (leaves_verifyJob hs)
  | archiveJob jobId confirm =>
      exact step_rule (fun s' h => jobs s' (jobWrites_archiveJob h)) (leaves_archiveJob hs)
  | initializeDrive driveId projectId =>
      exact step_rule (fun s' h => drives s' (driveWrites_initializeDrive h))
        (leaves_initializeDrive hs)
  | mountDrive driveId result =>
      exact step_rule (fun s' h => drives s' (driveWrites_mountDrive h)) (leaves_mountDrive hs)
  | prepareEject driveId confirmIncomplete result =>
      exact step_rule (fun s' h => drives s' (driveWrites_prepareEject h)) (leaves_prepareEject hs)
  | requestDriveFormat driveId isMounted =>
      refine step_rule (fun s' h => drives s' ?_) (leaves_requestDriveFormat hs)
      rw [requestDriveFormat_eq_ok h]
      exact .modify fun d _ _ => .same rfl rfl rfl
  | completeDriveFormat driveId filesystemType isMounted failure =>
      exact drives _ driveWrites_completeDriveFormat
  | startupAnalysis jobId analysis =>
      exact jobs _ (.job (fun _ => rfl) (fun _ => rfl) (fun _ _ _ => .same)
        (fun _ _ _ => .inl ⟨rfl, id⟩) fun _ _ _ _ => .inl rfl)
  | enterRunning jobId =>
      refine whileIn_rule hs fun running => jobs _ (.job (fun _ => rfl) (fun _ => rfl)
        (fun j hj same => .run (running j hj same))
        (fun j hj same => .inl ⟨rfl, fun _ => copying_active ?_⟩) fun j hj same closed => ?_)
      · exact List.mem_append_left [JobStatus.pausing] (running j hj same)
      exact absurd closed (not_closed_of_busy (running j hj same) (by simp))
  | listFile jobId relativePath sizeBytes =>
      exact whileIn_rule hs fun copying => jobs _ (jobWrites_persistFile fun j hj same =>
        not_closed_of_busy (copying j hj same) (by simp [copyingStatuses]))
  | recordFile jobId fileId status errorMessage =>
      exact whileIn_rule hs fun busy => jobs _ (jobWrites_recordFile fun j hj same =>
        not_closed_of_busy (busy j hj same) (by simp [copyingStatuses]))
  | resolveTargetFull jobId probe =>
      exact whileIn_rule hs fun copying => targetFull jobId probe rfl copying
  | finalizeRun jobId pauseRequested targetFullFailed =>
      exact whileIn_rule hs fun copying => jobs _ (jobWrites_finalizeRun copying)
  | failRun jobId reason =>
      refine whileIn_rule hs fun copying => jobs _ ?_
      exact jobWrites_finish (fun _ => rfl) (fun _ => rfl) (fun _ => rfl)
        (fun _ => by simp [finishedJob]) copying
  | finishVerify jobId anyMismatch =>
      refine whileIn_rule hs fun verifying => jobs _ (.job (fun _ => rfl) (fun _ => rfl)
        (fun j hj same => ?_) (fun j hj same => .inl ⟨rfl, fun _ => ?_⟩) fun j hj same closed => ?_)
      · rw [List.mem_singleton.mp (verifying j hj same)]
        exact .verified (by cases anyMismatch <;> simp)
      · rw [List.mem_singleton.mp (verifying j hj same)]
        decide
      · exact absurd closed (not_closed_of_busy (verifying j hj same) (by simp))

end Ecube
