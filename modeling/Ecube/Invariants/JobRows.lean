import Ecube.Writes

/-!
The rows of one job.

An action writes rows of one job: its row, its files and its assignments (`confined_step`). A run in
which no action names a job therefore leaves all rows of the job (`untouched_of_others`), whatever
else the run does to the drives they refer to.
-/

namespace Ecube

open Table Transition

/-- Rows of the job with this key may differ, and drives. -/
structure Confined (k : Nat) (s t : Db) : Prop where
  jobs : ∀ j, j.id ≠ k → (j ∈ t.jobs ↔ j ∈ s.jobs)
  files : ∀ f, f.jobId ≠ k → (f ∈ t.files ↔ f ∈ s.files)
  assignments : ∀ a, a.jobId ≠ k → (a ∈ t.assignments ↔ a ∈ s.assignments)

namespace Confined

variable {k : Nat} {s t u : Db}

theorem refl (k : Nat) (s : Db) : Confined k s s :=
  ⟨fun _ _ => Iff.rfl, fun _ _ => Iff.rfl, fun _ _ => Iff.rfl⟩

theorem trans (first : Confined k s t) (second : Confined k t u) : Confined k s u where
  jobs j other := (second.jobs j other).trans (first.jobs j other)
  files f other := (second.files f other).trans (first.files f other)
  assignments a other := (second.assignments a other).trans (first.assignments a other)

/-- A write to drives. -/
theorem drives (h : Confined k s t) (jobs : u.jobs = t.jobs) (files : u.files = t.files)
    (assignments : u.assignments = t.assignments) : Confined k s u where
  jobs j other := by rw [jobs, h.jobs j other]
  files f other := by rw [files, h.files f other]
  assignments a other := by rw [assignments, h.assignments a other]

theorem modifyDrive (h : Confined k s t) (driveId : Nat) (f : UsbDrive → UsbDrive)
    (key : ∀ r, (f r).id = r.id) : Confined k s (t.modifyDrive driveId f key) :=
  h.drives rfl rfl rfl

theorem setDriveState (h : Confined k s t) (driveId : Nat) (state : DriveState) :
    Confined k s (t.setDriveState driveId state) :=
  h.modifyDrive driveId _ _

theorem modifyJob (h : Confined k s t) (f : ExportJob → ExportJob)
    (key : ∀ r, (f r).id = r.id) : Confined k s (t.modifyJob k f key) where
  jobs j other := by
    rw [← h.jobs j other, Db.mem_modifyJob]
    refine ⟨fun mem => ?_, fun mem => .inl ⟨mem, other⟩⟩
    rcases mem with ⟨mem, -⟩ | ⟨r, -, same, rfl⟩
    · exact mem
    · exact absurd ((key r).trans same) other
  files := h.files
  assignments := h.assignments

theorem updateFiles (h : Confined k s t) {p : ExportFile → Bool} {f : ExportFile → ExportFile}
    {key : ∀ r, (f r).id = r.id} (mine : ∀ r, p r = true → r.jobId = k)
    (job : ∀ r, (f r).jobId = r.jobId) : Confined k s (t.updateFiles p f key) where
  jobs := h.jobs
  files r other := by
    rw [← h.files r other]
    change r ∈ t.files.update p f key ↔ _
    rw [mem_update]
    constructor
    · rintro ⟨r₀, mem, rfl⟩
      split at other
      next chosen => exact absurd ((job r₀).trans (mine r₀ chosen)) other
      next chosen => rwa [if_neg chosen]
    · intro mem
      exact ⟨r, mem, if_neg fun chosen => other (mine r chosen)⟩
  assignments := h.assignments

theorem resetFailedForRetry (h : Confined k s t) : Confined k s (t.resetFailedForRetry k) :=
  h.updateFiles (fun _ chosen => (of_decide_eq_true chosen).1) fun _ => rfl

theorem resetTargetFullFailedForRetry (h : Confined k s t) :
    Confined k s (t.resetTargetFullFailedForRetry k) :=
  h.updateFiles (fun _ chosen => (of_decide_eq_true chosen).1) fun _ => rfl

theorem addAssignment (h : Confined k s t) (driveId now : Nat) (activatedAt : Option Nat) :
    Confined k s (t.addAssignment driveId k now activatedAt) where
  jobs := h.jobs
  files := h.files
  assignments a other := by
    rw [← h.assignments a other, Db.mem_addAssignment]
    refine or_iff_left ?_
    rintro rfl
    exact other rfl

/-- The assignment that is written is one of the job. -/
theorem owned (h : Confined k s t) {a b : DriveAssignment} (mem : a ∈ s.assignments)
    (mine : a.jobId = k) (there : b ∈ t.assignments) (same : b.id = a.id) : b.jobId = k := by
  by_contra other
  exact other (eq_of_id_eq ((h.assignments b other).mp there) mem same ▸ mine)

theorem release (h : Confined k s t) {a : DriveAssignment} (mem : a ∈ s.assignments)
    (mine : a.jobId = k) (now : Nat) : Confined k s (t.releaseAssignment a.id now) where
  jobs := h.jobs
  files := h.files
  assignments b other := by
    rw [← h.assignments b other, Db.mem_releaseAssignment]
    refine ⟨fun written => ?_, fun there => .inl ⟨there, fun same => ?_⟩⟩
    · rcases written with ⟨there, -⟩ | ⟨r, there, same, rfl⟩
      · exact there
      · exact absurd (h.owned mem mine there same) other
    · exact other (h.owned mem mine there same)

theorem activate (h : Confined k s t) {a : DriveAssignment} (mem : a ∈ s.assignments)
    (mine : a.jobId = k) (now : Nat) : Confined k s (t.activateAssignment a.id now) where
  jobs := h.jobs
  files := h.files
  assignments b other := by
    rw [← h.assignments b other, Db.mem_activateAssignment]
    refine ⟨fun written => ?_, fun there => .inl ⟨there, fun same => ?_⟩⟩
    · rcases written with ⟨there, -⟩ | ⟨r, there, same, rfl⟩
      · exact there
      · exact absurd (h.owned mem mine there same) other
    · exact other (h.owned mem mine there same)

theorem leaveDrive (h : Confined k s t) {a : DriveAssignment} (mem : a ∈ s.assignments)
    (mine : a.jobId = k) (now : Nat) : Confined k s (Ecube.leaveDrive t a now) := by
  rw [Ecube.leaveDrive]
  split
  · exact h.release mem mine now
  · exact (h.release mem mine now).setDriveState _ _

theorem activateReservedOrNew (h : Confined k s t) (driveId now : Nat) :
    Confined k s (activateReservedOrNewAssignment t k driveId now) := by
  rw [activateReservedOrNewAssignment]
  split
  · rename_i next found
    obtain ⟨mem, hp⟩ := mem_of_first found
    exact h.trans ((refl k t).activate mem (of_decide_eq_true hp).1 now)
  · exact h.addAssignment driveId now (some now)

end Confined

/-! ### What the operations write -/

section Operations

variable {cfg : Settings} {s s' : Db} {now : Nat}

/-- A creation writes the rows of a job that was not there. -/
theorem confined_createJob {body : JobBody} {seeded : Option Nat}
    (h : createJob cfg s body seeded now = .ok s') :
    ∃ k, (∀ j ∈ s.jobs, j.id ≠ k) ∧ Confined k s s' := by
  obtain ⟨s₁, k, drive, sourcePath, resolved, inserted, -, -, -, -, -, overflow⟩ :=
    createJob_eq_ok h
  obtain ⟨⟨jobs, rfl⟩, mem, fresh⟩ := insertJob_eq_ok inserted
  refine ⟨k, fresh, reserveOverflowDrives_rule (P := Confined k s) (fun t d confined _ _ _ _ =>
    (confined.addAssignment d.id now none).setDriveState _ _) ?_ overflow⟩
  have created : Confined k s { s with jobs := jobs } := by
    refine ⟨fun j other => ?_, fun _ _ => Iff.rfl, fun _ _ => Iff.rfl⟩
    refine (mem j).trans (or_iff_left ?_)
    rintro rfl
    exact other rfl
  exact ((created.modifyDrive drive.id _ _).addAssignment drive.id now (some now)).modifyJob _ _

theorem confined_updateJob {k : Nat} {body : JobBody} :
    (∀ s', updateJob cfg s k body now = .ok s' → Confined k s s') ∧
      Leaves (Confined k s) (updateJob cfg s k body now) := by
  refine updateJob_rule (P := fun _ _ t => Confined k s t) (.refl k s)
    (fun _ _ _ _ _ _ _ h _ _ _ => h) (fun _ _ _ _ h => h) (fun plan _ checked => ?_)
    (fun plan checked rest t d h _ _ _ _ _ _ => ?_) fun plan checked t h => ?_
  · have moved : Confined k s (changePrimaryDrive s plan now) := by
      rw [changePrimaryDrive]
      split
      · exact .refl k s
      · split
        · rw [show plan.job.id = k from id_of_get checked.job]
          exact (Confined.refl k s).addAssignment plan.drive.id now (some now)
        · rename_i active current
          obtain ⟨mem, mine, -⟩ := active_of_getActiveForJob (checked.current.symm.trans current)
          split
          · exact .refl k s
          · rw [show plan.job.id = k from id_of_get checked.job]
            exact ((Confined.refl k s).leaveDrive mem mine now).addAssignment plan.drive.id now
              (some now)
    refine releaseDroppedOverflow_rule (P := Confined k s) (fun t a listed h => ?_) moved
    obtain ⟨mem, mine⟩ := mem_select.mp (List.mem_filter.mp listed).1
    have released := h.release mem (by simpa using mine) now
    exact ⟨released, fun _ => released.setDriveState _ _⟩
  · rw [show plan.job.id = k from id_of_get checked.job]
    exact (h.addAssignment d.id now none).setDriveState _ _
  · have written := (h.setDriveState plan.drive.id .inUse).modifyJob (updatedJob plan body)
      (updatedJob_id plan body)
    rw [finishUpdate]
    split
    · exact written
    · refine ⟨written.jobs, fun f other => ?_, written.assignments⟩
      rw [← written.files f other]
      change f ∈ (Table.delete _ _) ↔ _
      rw [mem_delete]
      exact and_iff_left (by simpa using other)

theorem confined_deleteJob {k : Nat} (h : deleteJob s k = .ok s') : Confined k s s' := by
  have deleted := deleted_of_deleteJob h
  exact ⟨fun j other => (deleted.jobs j).trans (and_iff_left other),
    fun f other => (deleted.files f).trans (and_iff_left other),
    fun a other => (deleted.assignments a).trans (and_iff_left other)⟩

theorem confined_continueJobOverflow {k driveId : Nat} {threadCount : Option Nat}
    (h : continueJobOverflow cfg s k driveId threadCount now = .ok s') : Confined k s s' := by
  simp only [continueJobOverflow, bind_eq_ok, pure_eq_ok] at h
  obtain ⟨plan, planned, rfl⟩ := h
  obtain ⟨mem, mine, -⟩ := active_of_getActiveForJob (overflowPlan_eq_ok planned).active
  have bound := (Confined.refl k s).modifyDrive driveId
    (fun d => { d with currentProjectId := some plan.job.projectId }) fun _ => rfl
  have moved := ((bound.leaveDrive mem mine now).activateReservedOrNew driveId now).setDriveState
    driveId .inUse
  exact moved.resetFailedForRetry.modifyJob _ _

theorem confined_resolveTargetFull {k : Nat} {probe : Str → Option Nat} :
    Confined k s (resolveTargetFullOutcome s k probe now).2 := by
  rcases @resolveTargetFullOutcome_rule (Confined k s) s k now probe (.refl k s)
    (fun t d v h => h.modifyDrive d _ _) with
    ⟨-, h⟩ | ⟨job, active, next, drive, probed, -, current, h, selected, moved⟩
  · exact h
  · rw [moved]
    obtain ⟨mem, mine, -⟩ := active_of_getActiveForJob current
    obtain ⟨hnext, reserved⟩ := mem_select.mp selected.mem
    have switched := ((h.release mem mine now).activate hnext
      (of_decide_eq_true reserved).1 now).setDriveState active.driveId .available
    exact ((switched.modifyJob _ _).setDriveState drive.id .inUse).resetTargetFullFailedForRetry

end Operations

/-- The job that an event names. -/
def Event.job : Event → Option Nat
  | .updateJob k _ | .deleteJob k | .startJob k _ | .retryFailedFiles k
  | .continueJobOverflow k _ _ | .pauseJob k | .completeJob k | .verifyJob k | .archiveJob k _
  | .startupAnalysis k _ | .enterRunning k | .listFile k _ _ | .recordFile k _ _ _
  | .resolveTargetFull k _ | .finalizeRun k _ _ | .failRun k _ | .finishVerify k _ => some k
  | .createJob _ _ | .initializeDrive _ _ | .mountDrive _ _ | .prepareEject _ _ _
  | .requestDriveFormat _ _ | .completeDriveFormat _ _ _ _ => none

section Steps

variable {cfg : Settings} {s : Db} {a : Action} {k : Nat}

theorem confined_persistFile (relativePath : Str) (sizeBytes : Nat) :
    Confined k s (persistFile s k relativePath sizeBytes) := by
  rw [persistFile]
  split
  · refine (Confined.refl k s).updateFiles (fun r chosen => (of_decide_eq_true chosen).1) ?_
    intro r
    dsimp only
    split <;> rfl
  · refine ⟨fun _ _ => Iff.rfl, fun f other => ?_, fun _ _ => Iff.rfl⟩
    change f ∈ Table.insert _ _ _ ↔ _
    rw [mem_insert]
    refine or_iff_left ?_
    rintro rfl
    exact other rfl

/-- A transaction of a run writes rows of its job. -/
theorem confined_runWrites {now : Nat} {event : Event} {statuses : List JobStatus}
    (run : event.run = some (k, statuses)) : Confined k s (runWrites s now event) := by
  have same : Confined k s s := .refl k s
  cases event with
  | enterRunning | failRun | finishVerify =>
      cases run
      exact same.modifyJob _ _
  | listFile jobId relativePath sizeBytes =>
      cases run
      exact confined_persistFile relativePath sizeBytes
  | recordFile jobId fileId status errorMessage =>
      cases run
      exact same.updateFiles (fun r chosen => (of_decide_eq_true chosen).2) fun _ => rfl
  | resolveTargetFull jobId probe =>
      cases run
      exact confined_resolveTargetFull
  | finalizeRun jobId pauseRequested targetFullFailed =>
      cases run
      rw [runWrites, finalizeRun]
      split
      · exact same
      · exact same.modifyJob _ _
  | _ => cases run

/-- An action writes rows of the job that it names. -/
theorem confined_step (named : a.event.job = some k) : Confined k s (step cfg s a) := by
  have same : Confined k s s := .refl k s
  obtain ⟨now, event⟩ := a
  cases event with
  | createJob | initializeDrive | mountDrive | prepareEject | requestDriveFormat
  | completeDriveFormat => cases named
  | updateJob jobId body =>
      cases named
      exact step_rule confined_updateJob.1 confined_updateJob.2
  | deleteJob jobId =>
      cases named
      exact step_rule (fun _ h => confined_deleteJob h) (leaves_deleteJob same)
  | startJob jobId threadCount =>
      cases named
      refine step_rule (fun s' h => ?_) (leaves_startJob same fun _ _ _ => same.modifyJob _ _)
      obtain ⟨_, -, -, _, -, rfl⟩ := startJob_eq_ok h
      exact same.modifyJob _ _
  | retryFailedFiles jobId =>
      cases named
      refine step_rule (fun s' h => ?_) (leaves_retryFailedFiles same)
      obtain ⟨_, -, -, -, _, -, rfl⟩ := retryFailedFiles_eq_ok h
      exact same.resetFailedForRetry.modifyJob _ _
  | continueJobOverflow jobId driveId threadCount =>
      cases named
      exact step_rule (fun _ h => confined_continueJobOverflow h)
        (leaves_continueJobOverflow same fun _ _ => same.modifyJob _ _)
  | pauseJob jobId =>
      cases named
      refine step_rule (fun s' h => ?_) (leaves_pauseJob same)
      obtain ⟨_, -, -, rfl⟩ := pauseJob_eq_ok h
      exact same.modifyJob _ _
  | completeJob jobId =>
      cases named
      refine step_rule (fun s' h => ?_) (leaves_completeJob same)
      obtain ⟨_, -, -, rfl⟩ := completeJob_eq_ok h
      exact same.modifyJob _ _
  | verifyJob jobId =>
      cases named
      refine step_rule (fun s' h => ?_) (leaves_verifyJob same)
      obtain ⟨_, -, -, -, rfl⟩ := verifyJob_eq_ok h
      exact same.modifyJob _ _
  | archiveJob jobId confirm =>
      cases named
      refine step_rule (fun s' h => ?_) (leaves_archiveJob same)
      obtain ⟨_, -, -, rfl⟩ := archiveJob_eq_ok h
      exact same.modifyJob _ _
  | startupAnalysis jobId analysis =>
      cases named
      exact same.modifyJob _ _
  | enterRunning | listFile | recordFile | resolveTargetFull | finalizeRun | failRun
  | finishVerify =>
      cases named
      exact step_of_run rfl same fun _ => confined_runWrites rfl

/-- The row of a job, its files and its assignments are as they were. -/
structure SameJob (k : Nat) (s t : Db) : Prop where
  jobs : ∀ j, j.id = k → (j ∈ t.jobs ↔ j ∈ s.jobs)
  files : ∀ f, f.jobId = k → (f ∈ t.files ↔ f ∈ s.files)
  assignments : ∀ a, a.jobId = k → (a ∈ t.assignments ↔ a ∈ s.assignments)

theorem SameJob.refl (k : Nat) (s : Db) : SameJob k s s :=
  ⟨fun _ _ => Iff.rfl, fun _ _ => Iff.rfl, fun _ _ => Iff.rfl⟩

theorem SameJob.trans {t u : Db} (first : SameJob k s t) (second : SameJob k t u) :
    SameJob k s u where
  jobs j mine := (second.jobs j mine).trans (first.jobs j mine)
  files f mine := (second.files f mine).trans (first.files f mine)
  assignments a mine := (second.assignments a mine).trans (first.assignments a mine)

theorem SameJob.of_drives {t : Db} (jobs : t.jobs = s.jobs) (files : t.files = s.files)
    (assignments : t.assignments = s.assignments) : SameJob k s t :=
  ⟨fun j _ => by rw [jobs], fun f _ => by rw [files], fun a _ => by rw [assignments]⟩

theorem Confined.sameJob {k' : Nat} {t : Db} (h : Confined k' s t) (other : k' ≠ k) :
    SameJob k s t where
  jobs j mine := h.jobs j (mine ▸ other.symm)
  files f mine := h.files f (mine ▸ other.symm)
  assignments a mine := h.assignments a (mine ▸ other.symm)

/-- An action that does not name a job leaves all rows of the job. -/
theorem sameJob_step (there : ∃ j ∈ s.jobs, j.id = k) (other : a.event.job ≠ some k) :
    SameJob k s (step cfg s a) := by
  cases named : a.event.job with
  | some k' =>
      exact (confined_step named).sameJob fun same => other (named.trans (congrArg some same))
  | none =>
      have same : SameJob k s s := .refl k s
      have drives : ∀ {t}, DriveWrites cfg a s t → SameJob k s t :=
        fun w => .of_drives w.jobs w.files w.assignments
      obtain ⟨now, event⟩ := a
      cases event with
      | createJob body seeded =>
          refine step_rule (fun s' h => ?_) (leaves_createJob same)
          obtain ⟨k', fresh, confined⟩ := confined_createJob h
          obtain ⟨j, mem, rfl⟩ := there
          exact confined.sameJob (fresh j mem).symm
      | initializeDrive driveId projectId =>
          exact step_rule (fun s' h => drives (driveWrites_initializeDrive h))
            (leaves_initializeDrive same)
      | mountDrive driveId result =>
          exact step_rule (fun s' h => drives (driveWrites_mountDrive h)) (leaves_mountDrive same)
      | prepareEject driveId confirmIncomplete result =>
          exact step_rule (fun s' h => drives (driveWrites_prepareEject h))
            (leaves_prepareEject same)
      | requestDriveFormat driveId isMounted =>
          refine step_rule (fun s' h => ?_) (leaves_requestDriveFormat same)
          rw [requestDriveFormat_eq_ok h]
          exact .of_drives rfl rfl rfl
      | completeDriveFormat driveId filesystemType isMounted failure =>
          exact drives driveWrites_completeDriveFormat
      | _ => cases named

/-- A transaction of a run of another job leaves the job, whatever the status it finds. -/
theorem sameJob_of_run {r : Nat × List JobStatus} (run : a.event.run = some r) (other : r.1 ≠ k) :
    SameJob k s (unguardedStep cfg s a) := by
  rw [unguardedStep_of_run run]
  exact (confined_runWrites run).sameJob other

/-- A run in which no action names a job leaves all rows of the job. -/
theorem untouched_of_others {actions : List Action} (there : ∃ j ∈ s.jobs, j.id = k)
    (others : ∀ a ∈ actions, a.event.job ≠ some k) :
    SameJob k s (exec (step cfg) s actions) := by
  induction actions generalizing s with
  | nil => exact .refl k s
  | cons a rest ih =>
      have now : SameJob k s (step cfg s a) := sameJob_step there (others a List.mem_cons_self)
      obtain ⟨j, mem, mine⟩ := there
      exact now.trans (ih ⟨j, (now.jobs j mine).mpr mem, mine⟩
        fun b later => others b (List.mem_cons_of_mem a later))

end Steps

/-! A job waits while the other goes on to its second drive. -/

namespace Lab

/-- Two jobs of the project, the second with a reserved drive. -/
def twoJobs : Db :=
  exec (step settings) start
    [⟨1, .createJob (body "/data/a" (some 1) none) none⟩,
      ⟨2, .createJob (body "/data/b" (some 2) (some 3)) none⟩]

def secondRun : List Action :=
  [⟨3, .startJob 2 none⟩,
    ⟨4, .enterRunning 2⟩,
    ⟨5, .listFile 2 "f".toList 10⟩,
    ⟨6, .recordFile 2 1 .error (some targetFullMessage)⟩,
    ⟨7, .resolveTargetFull 2 fun _ => some 100⟩,
    ⟨8, .deleteJob 2⟩]

theorem untouched_secondRun :
    (∃ j ∈ twoJobs.jobs, j.id = 1) ∧ (∀ a ∈ secondRun, a.event.job ≠ some 1) ∧
      SameJob 1 twoJobs (exec (step settings) twoJobs secondRun) := by
  have there : ∃ j ∈ twoJobs.jobs, j.id = 1 := by decide
  have others : ∀ a ∈ secondRun, a.event.job ≠ some 1 := by simp [secondRun, Event.job]
  exact ⟨there, others, untouched_of_others there others⟩

end Lab

end Ecube
