import Ecube.Invariants.Moved

/-!
The rows of the copied files.

`KeepsFiles.step` reduces a property of jobs and files to the writes that touch
these tables: what every one of them keeps, every action keeps.

Only the analysis of the source inserts rows, and only for paths that have none,
so in every reachable state each path of a job has at most one row
(`distinctPaths_of_run`). The table itself does not enforce this.
-/

namespace Ecube

open Table Transition

/-! ### The writes to jobs and files -/

/-- A property that every write to the jobs and files of `s` in the course of the
action keeps. Only pending jobs are deleted or lose their files. -/
structure KeepsFiles (s : Db) (a : Action) (P : Db → Prop) : Prop where
  start : P s
  frame : ∀ t u : Db, P t → u.files = t.files → u.jobs = t.jobs → P u
  insertJob : ∀ jobs, (∀ j ∈ s.jobs, j ∈ jobs) → P { s with jobs := jobs }
  modifyJob : ∀ t k f key, P t → (∀ r : ExportJob, r.status ≠ .pending → (f r).status ≠ .pending) →
    P (t.modifyJob k f key)
  resetFailed : ∀ t k, P t → P (t.resetFailedForRetry k)
  resetTargetFull : ∀ t k, P t → P (t.resetTargetFullFailedForRetry k)
  dropFiles : ∀ t k job, P t → s.jobs.get k = some job → job.status = .pending →
    P { t with files := t.files.delete fun f => f.jobId = k }
  dropJob : ∀ t k job, P t → s.jobs.get k = some job → job.status = .pending →
    P { t with jobs := t.jobs.delete fun j => j.id = k }
  listFile : ∀ jobId path sizeBytes, a.event = .listFile jobId path sizeBytes →
    P (persistFile s jobId path sizeBytes)
  recordFile : ∀ jobId fileId status errorMessage,
    a.event = .recordFile jobId fileId status errorMessage →
      P (recordFile s jobId fileId status errorMessage)

theorem status_updatedJob (plan : UpdatePlan) (body : JobBody) (j : ExportJob) :
    (updatedJob plan body j).status = j.status := by
  simp only [updatedJob]
  split_ifs <;> rfl

namespace KeepsFiles

variable {cfg : Settings} {s : Db} {P : Db → Prop} {now : Nat}

theorem createJob {body : JobBody} {seeded : Option Nat} {s' : Db}
    (rule : KeepsFiles s ⟨now, .createJob body seeded⟩ P)
    (accepted : createJob cfg s body seeded now = .ok s') : P s' := by
  obtain ⟨s₁, jobId, drive, sourcePath, resolved, inserted, -, -, -, -, -, overflow⟩ :=
    createJob_eq_ok accepted
  obtain ⟨⟨jobs, rfl⟩, members, -⟩ := insertJob_eq_ok inserted
  have start : P (assignPrimaryDrive { s with jobs := jobs } body.projectId drive sourcePath jobId
      now) := by
    refine rule.modifyJob _ _ _ _ ?_ fun r h => h
    exact rule.frame _ _ (rule.insertJob jobs fun j hj => (members j).mpr (.inl hj)) rfl rfl
  exact reserveOverflowDrives_rule (fun t d ht _ _ _ _ => rule.frame t _ ht rfl rfl) start overflow

theorem updateJob {jobId : Nat} {body : JobBody} (rule : KeepsFiles s ⟨now, .updateJob jobId body⟩ P) :
    (∀ s', updateJob cfg s jobId body now = .ok s' → P s') ∧
      Leaves P (updateJob cfg s jobId body now) := by
  refine updateJob_rule (P := fun _ _ => P) rule.start (fun _ _ _ _ _ _ _ ht _ _ _ => ht)
    (fun _ _ _ _ ht => ht) (fun plan _ _ => ?_)
    (fun _ _ _ t _ ht _ _ _ _ _ _ => rule.frame t _ ht rfl rfl) fun plan checked t ht => ?_
  · have kept := keptAssignments_frame s plan jobId body now
    exact rule.frame s _ rule.start kept.2 kept.1
  · have written : P ((t.setDriveState plan.drive.id .inUse).modifyJob jobId (updatedJob plan body)
        (updatedJob_id plan body)) := by
      refine rule.modifyJob _ _ _ _ (rule.frame t _ ht rfl rfl) fun r h => ?_
      rwa [status_updatedJob]
    rw [finishUpdate]
    split
    · exact written
    · rename_i edited
      have unlimited : plan.limited = false := by
        cases limited : plan.limited with
        | true => exact absurd (.inl limited) edited
        | false => rfl
      exact rule.dropFiles _ jobId plan.job written checked.job (checked.pending unlimited)

theorem deleteJob {jobId : Nat} {s' : Db} (rule : KeepsFiles s ⟨now, .deleteJob jobId⟩ P)
    (accepted : deleteJob s jobId = .ok s') : P s' := by
  obtain ⟨job, freed, found, pending, hfreed, rfl⟩ := deleteJob_eq_ok accepted
  have base : P freed := by
    rcases hfreed with rfl | ⟨a, -, -, rfl⟩
    · exact rule.start
    · exact rule.frame s _ rule.start rfl rfl
  have files := rule.dropFiles freed jobId job base found pending
  exact rule.frame _ _ (rule.dropJob _ jobId job files found pending) rfl rfl

theorem continueJobOverflow {jobId driveId : Nat} {threadCount : Option Nat} {s' : Db}
    (rule : KeepsFiles s ⟨now, .continueJobOverflow jobId driveId threadCount⟩ P)
    (accepted : continueJobOverflow cfg s jobId driveId threadCount now = .ok s') : P s' := by
  simp only [Ecube.continueJobOverflow, bind_eq_ok, pure_eq_ok] at accepted
  obtain ⟨plan, -, rfl⟩ := accepted
  refine rule.modifyJob _ _ _ _ (rule.resetFailed _ jobId ?_) fun r _ => by simp
  have frame := activateReservedOrNew_frame
    (leaveDrive (s.modifyDrive driveId (fun d => { d with currentProjectId := some plan.job.projectId })
      fun _ => rfl) plan.active now) jobId driveId now
  exact rule.frame s _ rule.start (frame.2.1.trans (leaveDrive_files _ _ _))
    (frame.1.trans (leaveDrive_jobs _ _ _))

theorem resolveTargetFull {jobId : Nat} {probe : Str → Option Nat}
    (rule : KeepsFiles s ⟨now, .resolveTargetFull jobId probe⟩ P) :
    P (resolveTargetFullOutcome s jobId probe now).2 := by
  rcases @resolveTargetFullOutcome_rule P s jobId now probe rule.start
    fun t _ _ ht => rule.frame t _ ht rfl rfl with
    ⟨-, kept⟩ | ⟨job, active, next, drive, probed, -, -, kept, -, moved⟩
  · exact kept
  · rw [moved]
    let switched := (probed.releaseAssignment active.id now).activateAssignment next.id now
    have running := rule.modifyJob (switched.setDriveState active.driveId .available) jobId
      (fun j => { j with
        targetMountPath := drive.mountPath
        status := .running
        completedAt := none
        failureReason := none }) (fun _ => rfl) (rule.frame probed _ kept rfl rfl) fun r _ => by simp
    exact rule.resetTargetFull _ jobId (rule.frame _ _ running rfl rfl)

/-- One action. -/
theorem step {a : Action} (rule : KeepsFiles s a P) : P (step cfg s a) := by
  have hs := rule.start
  have job : ∀ (k : Nat) (f : ExportJob → ExportJob) (key : ∀ r, (f r).id = r.id),
      (∀ r : ExportJob, r.status ≠ .pending → (f r).status ≠ .pending) → P (s.modifyJob k f key) :=
    fun k f key => rule.modifyJob s k f key hs
  obtain ⟨now, event⟩ := a
  have drives : ∀ t, DriveWrites cfg ⟨now, event⟩ s t → P t :=
    fun t w => rule.frame s t hs w.files w.jobs
  cases event with
  | createJob body seeded => exact step_rule (fun _ => rule.createJob) (leaves_createJob hs)
  | updateJob jobId body => exact step_rule rule.updateJob.1 rule.updateJob.2
  | deleteJob jobId => exact step_rule (fun _ => rule.deleteJob) (leaves_deleteJob hs)
  | startJob jobId threadCount =>
      refine step_rule (fun s' accepted => ?_) (leaves_startJob hs fun _ _ _ => job _ _ _ fun _ h => h)
      obtain ⟨-, -, -, sourcePath, -, rfl⟩ := startJob_eq_ok accepted
      exact job _ _ _ fun r _ => by simp
  | retryFailedFiles jobId =>
      refine step_rule (fun s' accepted => ?_) (leaves_retryFailedFiles hs)
      obtain ⟨-, -, -, -, sourcePath, -, rfl⟩ := retryFailedFiles_eq_ok accepted
      exact rule.modifyJob _ _ _ _ (rule.resetFailed s jobId hs) fun r _ => by simp
  | continueJobOverflow jobId driveId threadCount =>
      exact step_rule (fun _ => rule.continueJobOverflow)
        (leaves_continueJobOverflow hs fun _ _ => job _ _ _ fun _ h => h)
  | pauseJob jobId =>
      refine step_rule (fun s' accepted => ?_) (leaves_pauseJob hs)
      obtain ⟨-, -, -, rfl⟩ := pauseJob_eq_ok accepted
      exact job _ _ _ fun r _ => by simp
  | completeJob jobId =>
      refine step_rule (fun s' accepted => ?_) (leaves_completeJob hs)
      obtain ⟨-, -, -, rfl⟩ := completeJob_eq_ok accepted
      exact job _ _ _ fun r _ => by simp
  | verifyJob jobId =>
      refine step_rule (fun s' accepted => ?_) (leaves_verifyJob hs)
      obtain ⟨-, -, -, -, rfl⟩ := verifyJob_eq_ok accepted
      exact job _ _ _ fun r _ => by simp
  | archiveJob jobId confirm =>
      refine step_rule (fun s' accepted => ?_) (leaves_archiveJob hs)
      obtain ⟨-, -, -, rfl⟩ := archiveJob_eq_ok accepted
      exact job _ _ _ fun r _ => by simp
  | initializeDrive driveId projectId =>
      exact step_rule (fun s' h => drives s' (driveWrites_initializeDrive h)) (leaves_initializeDrive hs)
  | mountDrive driveId result =>
      exact step_rule (fun s' h => drives s' (driveWrites_mountDrive h)) (leaves_mountDrive hs)
  | prepareEject driveId confirmIncomplete result =>
      exact step_rule (fun s' h => drives s' (driveWrites_prepareEject h)) (leaves_prepareEject hs)
  | requestDriveFormat driveId isMounted =>
      refine step_rule (fun s' accepted => ?_) (leaves_requestDriveFormat hs)
      rw [requestDriveFormat_eq_ok accepted]
      exact rule.frame s _ hs rfl rfl
  | completeDriveFormat driveId filesystemType isMounted failure =>
      exact drives _ driveWrites_completeDriveFormat
  | startupAnalysis jobId analysis => exact job _ _ _ fun _ h => h
  | enterRunning jobId => exact whileIn_rule hs fun _ => job _ _ _ fun r _ => by simp
  | listFile jobId relativePath sizeBytes =>
      exact whileIn_rule hs fun _ => rule.listFile jobId relativePath sizeBytes rfl
  | recordFile jobId fileId status errorMessage =>
      exact whileIn_rule hs fun _ => rule.recordFile jobId fileId status errorMessage rfl
  | resolveTargetFull jobId probe => exact whileIn_rule hs fun _ => rule.resolveTargetFull
  | finalizeRun jobId pauseRequested targetFullFailed =>
      apply whileIn_rule hs
      intro _
      unfold finalizeRun
      split
      · exact hs
      · apply job _ _ _
        intro r _
        simp only [clearStartupAnalysisEntries, finishedJob, finalStatus]
        split_ifs <;> simp
  | failRun jobId reason => exact whileIn_rule hs fun _ => job _ _ _ fun r _ => by simp [finishedJob]
  | finishVerify jobId anyMismatch =>
      refine whileIn_rule hs fun _ => job _ _ _ fun r _ => ?_
      cases anyMismatch <;> simp

end KeepsFiles

/-! ### Distinct paths -/

/-- No job has two rows for one path. -/
def DistinctPaths (s : Db) : Prop := ∀ k, (filePaths s k).Nodup

namespace DistinctPaths

variable {s t : Db}

theorem of_files (h : DistinctPaths s) (files : t.files = s.files) : DistinctPaths t := by
  intro k
  rw [filePaths, jobFiles, files]
  exact h k

theorem update (h : DistinctPaths s) {p : ExportFile → Bool} {g : ExportFile → ExportFile}
    (key : ∀ r, (g r).id = r.id) (job : ∀ r, (g r).jobId = r.jobId)
    (path : ∀ r, (g r).relativePath = r.relativePath) : DistinctPaths (s.updateFiles p g key) := by
  intro k
  rw [filePaths_updateFiles key job path]
  exact h k

theorem delete (h : DistinctPaths s) (p : ExportFile → Bool) :
    DistinctPaths { s with files := s.files.delete p } := by
  intro k
  refine (h k).sublist ?_
  exact (List.filter_sublist.filter _).map _

theorem persistFile (h : DistinctPaths s) (jobId : Nat) (path : Str) (sizeBytes : Nat) :
    DistinctPaths (persistFile s jobId path sizeBytes) := by
  intro k
  rw [filePaths_persistFile]
  split
  · rename_i new
    rw [← new.1] at new
    exact (h k).append (List.nodup_singleton _) (by simpa using new.2)
  · exact h k

theorem keepsFiles (h : DistinctPaths s) (a : Action) : KeepsFiles s a DistinctPaths where
  start := h
  frame _ _ ht files _ := ht.of_files files
  insertJob _ _ := h.of_files rfl
  modifyJob _ _ _ _ ht _ := ht.of_files rfl
  resetFailed _ _ ht := by apply ht.update <;> exact fun _ => rfl
  resetTargetFull _ _ ht := by apply ht.update <;> exact fun _ => rfl
  dropFiles _ _ _ ht _ _ := ht.delete _
  dropJob _ _ _ ht _ _ := ht.of_files rfl
  listFile jobId path sizeBytes _ := h.persistFile jobId path sizeBytes
  recordFile _ _ _ _ _ := by apply h.update <;> exact fun _ => rfl

/-- One action. -/
theorem step (h : DistinctPaths s) (cfg : Settings) (a : Action) :
    DistinctPaths (step cfg s a) :=
  (h.keepsFiles a).step

end DistinctPaths

theorem Initial.distinctPaths {s : Db} (initial : Initial s) : DistinctPaths s := by
  intro k
  have none : jobFiles s k = [] :=
    List.filter_eq_nil_iff.mpr fun f hf => absurd hf (initial.noFiles f)
  rw [filePaths, none]
  exact List.nodup_nil

/-- In every reachable state paths are distinct. -/
theorem distinctPaths_of_run {cfg : Settings} {s : Db} (initial : Initial s) (actions : List Action) :
    DistinctPaths (exec (step cfg) s actions) :=
  exec_rule (fun _ a h => h.step cfg a) initial.distinctPaths

end Ecube
