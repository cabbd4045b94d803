import Ecube.Services.JobService

/-!
The database transactions of the copy engine (`app/services/copy_engine.py`)
on jobs, assignments and drives: the decision after a full target, the start of
the copy phase, and the final status of a copy or verification run.

How a run interleaves these transactions with other requests is the subject of
`Ecube.Interleaving.CopyRun`; here each is one function of the database.
-/

namespace Ecube

/-! ### The decision after a full target -/

def targetFullMessage : String := "Target storage is full"

/-- The kinds of file failures, the texts that announce them and the messages
recorded for them. -/
def fileFailures : List (List String × String × String) :=
  [(["permission denied", "access denied", "auth", "not authorized"],
      "permission_failure", "Permission or authentication failure"),
    (["disk full", "no space left", "not enough space"], "target_full", targetFullMessage),
    (["i/o error", "io error", "input/output error"], "io_failure", "I/O failure"),
    (["checksum"], "checksum_failure", "Checksum verification failed"),
    (["timed out", "timeout"], "copy_timeout", "Operation timed out"),
    (["no such file", "not found"], "source_not_found", "Source file was not found")]

/-- `_classify_file_failure`: the first kind whose text occurs in the reason.
Reasons are ASCII texts, and surrounding blanks do not matter. -/
def classifyFileFailure (reason : String) : String × String :=
  let lowered := reason.toList.map Char.toLower
  ((fileFailures.find? fun kind => kind.1.any fun token => token.toList <:+: lowered).map
    Prod.snd).getD ("copy_failed", "File copy failed")

def isOverflowRetryableFile (f : ExportFile) : Bool :=
  f.status = .error ∧ f.errorMessage = some targetFullMessage

def isTargetFullContinuationCompatibleFile (f : ExportFile) : Bool :=
  f.status ∈ [FileStatus.pending, .copying, .retrying] || isOverflowRetryableFile f

def shouldAttemptTargetFullContinuation (incompleteFiles : List ExportFile) : Bool :=
  incompleteFiles.any isOverflowRetryableFile &&
    incompleteFiles.all isTargetFullContinuationCompatibleFile

/-- The copy engine's estimate counts a missing analysis as zero bytes. -/
def engineRemainingBytes (job : ExportJob) : Nat :=
  job.startupAnalysis.totalBytes.getD 0 - job.copiedBytes

/-- The first reservation of the job whose drive is in use, mounted, not bound
to another project and probed with enough space. Probed values are recorded on
the drives. -/
def selectAutomaticOverflowAssignment (job : ExportJob) (probe : Str → Option Nat) :
    List DriveAssignment → Db → Option (DriveAssignment × UsbDrive) × Db
  | [], s => (none, s)
  | a :: rest, s =>
      match s.drives.get a.driveId with
      | none => selectAutomaticOverflowAssignment job probe rest s
      | some drive =>
          if drive.currentState = .inUse ∧
              (drive.currentProjectId = none ∨ drive.currentProjectId = some job.projectId) then
            match (truthy drive.mountPath).bind probe with
            | none => selectAutomaticOverflowAssignment job probe rest s
            | some available =>
                let probed := s.modifyDrive drive.id
                  (fun d => { d with availableBytes := some available }) fun _ => rfl
                if available < engineRemainingBytes job then
                  selectAutomaticOverflowAssignment job probe rest probed
                else (some (a, drive), probed)
          else selectAutomaticOverflowAssignment job probe rest s

inductive TargetFullOutcome where
  | notApplicable | continued | failed
  deriving DecidableEq, Repr

/-- Move a job to its next reserved drive. The drive it leaves becomes
available whoever else holds it, and the job is running afterwards whatever it
was before. -/
def continueOnReserved (s : Db) (jobId : Nat) (active next : DriveAssignment) (drive : UsbDrive)
    (now : Nat) : Db :=
  let switched := (s.releaseAssignment active.id now).activateAssignment next.id now
  let freed := switched.setDriveState active.driveId .available
  let running := freed.modifyJob jobId (fun j => { j with
    targetMountPath := drive.mountPath
    status := .running
    completedAt := none
    failureReason := none }) fun _ => rfl
  (running.setDriveState drive.id .inUse).resetTargetFullFailedForRetry jobId

theorem mem_continueOnReserved_jobs {s : Db} {jobId now : Nat} {active next : DriveAssignment}
    {drive : UsbDrive} {j' : ExportJob} :
    j' ∈ (continueOnReserved s jobId active next drive now).jobs ↔
      (j' ∈ s.jobs ∧ j'.id ≠ jobId) ∨ ∃ j ∈ s.jobs, j.id = jobId ∧ j' = { j with
        targetMountPath := drive.mountPath
        status := .running
        completedAt := none
        failureReason := none } :=
  Table.mem_modify (f := fun j : ExportJob => { j with
    targetMountPath := drive.mountPath
    status := .running
    completedAt := none
    failureReason := none }) fun _ => rfl

theorem get_continueOnReserved {s : Db} {jobId now : Nat} {active next : DriveAssignment}
    {drive : UsbDrive} :
    (continueOnReserved s jobId active next drive now).jobs.get jobId =
      (s.jobs.get jobId).map fun j => { j with
        targetMountPath := drive.mountPath
        status := .running
        completedAt := none
        failureReason := none } :=
  Table.get_modify (f := fun j : ExportJob => { j with
    targetMountPath := drive.mountPath
    status := .running
    completedAt := none
    failureReason := none }) fun _ => rfl

def resolveTargetFullOutcome (s : Db) (jobId : Nat) (probe : Str → Option Nat) (now : Nat) :
    TargetFullOutcome × Db :=
  match s.jobs.get jobId with
  | none => (.notApplicable, s)
  | some job =>
      if shouldAttemptTargetFullContinuation (s.listIncompleteByJob jobId) then
        match s.getActiveForJob jobId with
        | none => (.notApplicable, s)
        | some active =>
            match selectAutomaticOverflowAssignment job probe (s.listReservedForJob jobId) s with
            | (none, probed) => (.failed, probed)
            | (some (next, drive), probed) =>
                (.continued, continueOnReserved probed jobId active next drive now)
      else (.notApplicable, s)

/-- Whether the decision finds a reserved drive to continue on. -/
def canContinue (s : Db) (jobId : Nat) (probe : Str → Option Nat) : Bool :=
  match s.jobs.get jobId, s.getActiveForJob jobId with
  | some job, some _ =>
      shouldAttemptTargetFullContinuation (s.listIncompleteByJob jobId) &&
        (selectAutomaticOverflowAssignment job probe (s.listReservedForJob jobId) s).1.isSome
  | _, _ => false

theorem canContinue_of_continued {s : Db} {jobId now : Nat} {probe : Str → Option Nat}
    (h : (resolveTargetFullOutcome s jobId probe now).1 = .continued) :
    canContinue s jobId probe = true := by
  unfold resolveTargetFullOutcome at h
  unfold canContinue
  cases found : s.jobs.get jobId with
  | none =>
      rw [found] at h
      cases h
  | some job =>
      rw [found] at h
      dsimp only at h
      split at h
      · rename_i attempt
        cases active : s.getActiveForJob jobId with
        | none =>
            rw [active] at h
            cases h
        | some a =>
            rw [active] at h
            dsimp only at h ⊢
            rw [attempt, Bool.true_and]
            split at h
            · cases h
            · rename_i chosen
              rw [chosen]
              rfl
      · cases h

/-- A reservation the selection may choose, and its drive: in use, mounted and
not bound to another project. -/
structure Selectable (job : ExportJob) (reserved : List DriveAssignment) (s : Db)
    (a : DriveAssignment) (drive : UsbDrive) : Prop where
  mem : a ∈ reserved
  driveId : drive.id = a.driveId
  mounted : truthy drive.mountPath ≠ none
  inUse : drive.currentState = .inUse
  project : drive.currentProjectId = none ∨ drive.currentProjectId = some job.projectId
  row : ∃ d ∈ s.drives, d.id = drive.id ∧ d.currentProjectId = drive.currentProjectId ∧
    d.mountPath = drive.mountPath

theorem Selectable.cons {job : ExportJob} {reserved : List DriveAssignment} {s : Db}
    {a r : DriveAssignment} {drive : UsbDrive} (h : Selectable job reserved s a drive) :
    Selectable job (r :: reserved) s a drive :=
  { h with mem := List.mem_cons_of_mem r h.mem }

/-- A property that survives recording free space survives the selection. -/
theorem selectAutomaticOverflowAssignment_rule {P : Db → Prop} {job : ExportJob}
    {probe : Str → Option Nat}
    (keep : ∀ s k v, P s →
      P (s.modifyDrive k (fun d => { d with availableBytes := some v }) fun _ => rfl)) :
    ∀ {reserved : List DriveAssignment} {s : Db}, P s →
      P (selectAutomaticOverflowAssignment job probe reserved s).2 ∧
      ∀ a drive, (selectAutomaticOverflowAssignment job probe reserved s).1 = some (a, drive) →
        Selectable job reserved (selectAutomaticOverflowAssignment job probe reserved s).2 a
          drive := by
  intro reserved
  induction reserved with
  | nil => exact fun hs => ⟨hs, fun a drive h => by cases h⟩
  | cons r rest ih =>
      intro s hs
      rw [selectAutomaticOverflowAssignment]
      cases found : s.drives.get r.driveId with
      | none => exact ⟨(ih hs).1, fun a drive h => ((ih hs).2 a drive h).cons⟩
      | some drive =>
          dsimp only
          split
          · rename_i usable
            cases probed : (truthy drive.mountPath).bind probe with
            | none => exact ⟨(ih hs).1, fun a drive h => ((ih hs).2 a drive h).cons⟩
            | some available =>
                have recorded := keep s drive.id available hs
                dsimp only
                split
                · exact ⟨(ih recorded).1, fun a drive h => ((ih recorded).2 a drive h).cons⟩
                · refine ⟨recorded, fun a chosen h => ?_⟩
                  obtain ⟨rfl, rfl⟩ := Prod.mk.inj (Option.some.inj h)
                  have mounted : truthy drive.mountPath ≠ none := by
                    intro missing
                    rw [missing] at probed
                    cases probed
                  exact ⟨List.mem_cons_self, Table.id_of_get found, mounted, usable.1, usable.2,
                    { drive with availableBytes := some available },
                    Db.mem_modifyDrive.mpr (.inr ⟨drive, Table.mem_of_get found, rfl, rfl⟩), rfl, rfl, rfl⟩
          · exact ⟨(ih hs).1, fun a drive h => ((ih hs).2 a drive h).cons⟩

/-- The decision after a full target changes nothing but recorded free space,
or continues: it moves the job to a selectable reservation. -/
theorem resolveTargetFullOutcome_rule {P : Db → Prop} {s : Db} {jobId now : Nat}
    {probe : Str → Option Nat} (hs : P s)
    (keep : ∀ s k v, P s →
      P (s.modifyDrive k (fun d => { d with availableBytes := some v }) fun _ => rfl)) :
    ((resolveTargetFullOutcome s jobId probe now).1 ≠ .continued ∧
      P (resolveTargetFullOutcome s jobId probe now).2) ∨
      ∃ job active next drive probed, s.jobs.get jobId = some job ∧
        s.getActiveForJob jobId = some active ∧ P probed ∧
        Selectable job (s.listReservedForJob jobId) probed next drive ∧
        resolveTargetFullOutcome s jobId probe now =
          (.continued, continueOnReserved probed jobId active next drive now) := by
  unfold resolveTargetFullOutcome
  cases found : s.jobs.get jobId with
  | none => exact .inl ⟨by simp, hs⟩
  | some job =>
      dsimp only
      split
      · cases current : s.getActiveForJob jobId with
        | none => exact .inl ⟨by simp, hs⟩
        | some active =>
            have rule := @selectAutomaticOverflowAssignment_rule P job probe keep
              (s.listReservedForJob jobId) s hs
            cases chosen : selectAutomaticOverflowAssignment job probe (s.listReservedForJob jobId) s with
            | mk choice probed =>
                rw [chosen] at rule
                cases choice with
                | none => exact .inl ⟨by simp, rule.1⟩
                | some pair =>
                    obtain ⟨next, drive⟩ := pair
                    exact .inr ⟨job, active, next, drive, probed, rfl, rfl, rule.1,
                      rule.2 next drive rfl, rfl⟩
      · exact .inl ⟨by simp, hs⟩

/-! ### Copy and verification runs -/

/-- The write that opens the copy phase of a run. -/
def enterRunning (s : Db) (jobId now : Nat) : Db :=
  s.modifyJob jobId (fun j => { j with status := .running, copyStartedAt := some now }) fun _ => rfl

/-- The final status of a copy run. -/
def finalStatus (pauseRequested targetFullFailed allFilesFinished : Bool) (status : JobStatus) :
    JobStatus :=
  if (pauseRequested ∨ status = .pausing ∨ status = .paused) ∧ ¬ allFilesFinished then .paused
  else if targetFullFailed then .failed
  else if allFilesFinished then .completed
  else .failed

/-- `all_files_finished`: as many files have an outcome as the job counts. -/
def allFilesFinished (s : Db) (job : ExportJob) : Bool :=
  job.fileCount ≤ s.countFiles job.id (fun f => f.status = .done) + s.retryableCount job.id

/-- The row of a finished copy run. -/
def finishedJob (status : JobStatus) (reason : Option String) (now : Nat) (j : ExportJob) :
    ExportJob :=
  { j with
    status := status
    copyStartedAt := none
    completedAt := if status = .paused then none else some now
    failureReason := if status = .paused then j.failureReason else reason }

/-- `_clear_startup_analysis_entries`: a clean completion drops the cached analysis. -/
def clearStartupAnalysisEntries (clean : Bool) (j : ExportJob) : ExportJob :=
  { j with startupAnalysis := { j.startupAnalysis with
      cachePresent := j.startupAnalysis.cachePresent && !clean
      entries := j.startupAnalysis.entries && !clean } }

/-- The finalisation of a copy run that owns the job. -/
def finalizeRun (s : Db) (jobId : Nat) (pauseRequested targetFullFailed : Bool) (now : Nat) : Db :=
  match s.jobs.get jobId with
  | none => s
  | some job =>
      let status := finalStatus pauseRequested targetFullFailed (allFilesFinished s job) job.status
      let clean := decide (status = .completed ∧ s.retryableCount jobId = 0)
      s.modifyJob jobId (fun j => clearStartupAnalysisEntries clean
        (finishedJob status (if targetFullFailed then
          some "Destination capacity exhausted and no assigned drive can continue this copy"
          else none) now j)) fun _ => rfl

/-- The exception handler of a copy run. -/
def failRun (s : Db) (jobId : Nat) (reason : String) (now : Nat) : Db :=
  s.modifyJob jobId (finishedJob .failed (some reason) now) fun _ => rfl

/-- The end of a verification run. -/
def finishVerify (s : Db) (jobId : Nat) (anyMismatch : Bool) (now : Nat) : Db :=
  s.modifyJob jobId (fun j => { j with
    status := if anyMismatch then .failed else .completed
    completedAt := some now }) fun _ => rfl

end Ecube
