import Ecube.Invariants.Moved

/-!
Project isolation of running copies.

A job in `PREPARING` or `RUNNING` should write to a drive that is bound to its
project. Creating, editing and continuing a job check the binding, but an
assignment outlives it: an eject does not release assignments, a format clears
the binding of the drive, an initialisation sets another one, and neither
`start_job` nor `retry_failed_files` looks at the drive again.

* `isolated_leaves_project`: a run of accepted requests after which a job of
  one project is prepared on a drive bound to another.
* `isolated_of_checked`: every run whose starts and retries find the binding
  intact, and whose formats and automatic continuations respect running jobs,
  is isolated throughout.
-/

namespace Ecube

open Table Transition

/-- The statuses in which a job writes to its destination. -/
def writingStatuses : List JobStatus := [.preparing, .running]

/-- Every drive with an active assignment of the job is bound to its project. -/
def OnOwnProject (s : Db) (j : ExportJob) : Prop :=
  ∀ a ∈ s.assignments, a.jobId = j.id → a.active = true →
    ∀ d ∈ s.drives, d.id = a.driveId → d.currentProjectId = some j.projectId

instance (s : Db) (j : ExportJob) : Decidable (OnOwnProject s j) :=
  inferInstanceAs (Decidable (∀ a ∈ s.assignments, a.jobId = j.id → a.active = true →
    ∀ d ∈ s.drives, d.id = a.driveId → d.currentProjectId = some j.projectId))

/-- Every job that writes does so on a drive of its project. -/
def Isolated (s : Db) : Prop :=
  ∀ j ∈ s.jobs, j.status ∈ writingStatuses → OnOwnProject s j

instance (s : Db) : Decidable (Isolated s) :=
  inferInstanceAs (Decidable (∀ j ∈ s.jobs, j.status ∈ writingStatuses → OnOwnProject s j))

/-- What the code does not check: an accepted start or retry finds the drive
bound to the project of the job, a format that takes place does not clear a
drive that a writing job is on, and an automatic continuation that takes place
had no unbound drive to choose. -/
def BindingChecked (cfg : Settings) (s : Db) (a : Action) : Prop :=
  match a.event with
  | .startJob k _ | .retryFailedFiles k =>
      Accepted cfg s a → ∀ j ∈ s.jobs, j.id = k → OnOwnProject s j
  | .completeDriveFormat k _ _ _ =>
      Formats k s a → ∀ j ∈ s.jobs, j.status ∈ writingStatuses →
        ∀ b ∈ s.assignments, b.jobId = j.id → b.active = true → b.driveId ≠ k
  | .resolveTargetFull k probe =>
      ContinuesOnReserved s k probe → ∀ b ∈ s.assignments, b.jobId = k → b.reserved = true →
        ∀ d ∈ s.drives, d.id = b.driveId → d.currentProjectId ≠ none
  | _ => True

/-! ### One job -/

/-- A job stays on its project when its active assignments are old ones and
their drives keep the binding. -/
theorem OnOwnProject.of_rows {s t : Db} {j j' : ExportJob} (h : OnOwnProject s j)
    (id : j'.id = j.id) (project : j'.projectId = j.projectId)
    (rows : ∀ b ∈ t.assignments, b.jobId = j.id → b.active = true →
      ∃ a ∈ s.assignments, a.jobId = j.id ∧ a.active = true ∧ a.driveId = b.driveId)
    (drives : ∀ a ∈ s.assignments, a.jobId = j.id → a.active = true → ∀ d' ∈ t.drives,
      d'.id = a.driveId → ∃ d ∈ s.drives, d.id = d'.id ∧
        (d.currentProjectId = some j.projectId → d'.currentProjectId = some j.projectId)) :
    OnOwnProject t j' := by
  intro b hb job active d' hd' same
  obtain ⟨a, ha, mine, active, drive⟩ := rows b hb (job.trans id) active
  obtain ⟨d, hd, key, keep⟩ := drives a ha mine active d' hd' (same.trans drive.symm)
  rw [project]
  exact keep (h a ha mine active d hd (key.trans (same.trans drive.symm)))

/-- A job starts to write by an accepted start or retry only. -/
theorem Advance.writing {cfg : Settings} {s : Db} {a : Action} {k : Nat} {old new : JobStatus}
    (h : Advance cfg s a k old new) (writing : new ∈ writingStatuses) :
    old ∈ writingStatuses ∨
      (Accepted cfg s a ∧ (a.event = .retryFailedFiles k ∨ ∃ n, a.event = .startJob k n)) := by
  have final : ∀ {status}, status ∈ [JobStatus.paused, .completed, .failed] →
      status ∉ writingStatuses := by decide
  cases h with
  | same => exact .inl writing
  | start event accepted _ => exact .inr ⟨accepted, .inr ⟨_, event⟩⟩
  | retry event accepted => exact .inr ⟨accepted, .inl event⟩
  | run running => exact .inl running
  | finish _ h => exact absurd writing (final h)
  | verified h => exact absurd writing (final (List.mem_cons_of_mem _ h))
  | pause | complete | verify | archive => simp [writingStatuses] at writing

namespace Isolated

variable {cfg : Settings} {s t : Db}

theorem jobWrites {a : Action} (iso : Isolated s) (guard : BindingChecked cfg s a)
    (w : JobWrites cfg a s t) : Isolated t := by
  intro j' hj' writing
  obtain ⟨j, hj, write⟩ := w.jobs j' hj'
  have before : OnOwnProject s j := by
    rcases write.advance.writing writing with old | ⟨accepted, event | ⟨threadCount, event⟩⟩
    · exact iso j hj old
    · rw [BindingChecked, event] at guard
      exact guard accepted j hj rfl
    · rw [BindingChecked, event] at guard
      exact guard accepted j hj rfl
  refine before.of_rows write.id write.projectId (fun b hb job active => ?_)
    fun b hb job active d hd same => ?_
  · exact ⟨b, w.assignments ▸ hb, job, active, rfl⟩
  · exact ⟨d, w.drives ▸ hd, rfl, fun h => h⟩

theorem driveWrites {a : Action} (iso : Isolated s) (guard : BindingChecked cfg s a)
    (w : DriveWrites cfg a s t) : Isolated t := by
  intro j hj writing
  have hj : j ∈ s.jobs := w.jobs ▸ hj
  refine (iso j hj writing).of_rows rfl rfl (fun b hb job active => ?_)
    fun b hb job active d' hd' same => ?_
  · exact ⟨b, w.assignments ▸ hb, job, active, rfl⟩
  · obtain ⟨d, hd, key, write⟩ := w.drives d' hd'
    refine ⟨d, hd, key.symm, fun bound => ?_⟩
    cases write with
    | same state project mount => exact project.trans bound
    | mounted unmounted state project mount => exact project.trans bound
    | ejected event accepted free state project mount => exact project.trans bound
    | initialized projectId bindable state project mount =>
        rcases bindable with unbound | other
        · cases unbound.symm.trans bound
        · rw [project, ← other, bound]
    | @formatted filesystemType event formattable state project mount =>
        rw [BindingChecked, event] at guard
        have := guard ⟨filesystemType, event, d, hd, rfl, formattable⟩ j hj writing b hb job active
        exact absurd (same.symm.trans key) this

/-- Drives of which only state and free space change. -/
theorem of_frame (iso : Isolated s)
    (jobs : ∀ j' ∈ t.jobs, ∃ j ∈ s.jobs, j'.id = j.id ∧ j'.projectId = j.projectId ∧
      j'.status = j.status)
    (rows : ∀ j ∈ s.jobs, j.status ∈ writingStatuses → ∀ b ∈ t.assignments, b.jobId = j.id →
      b.active = true → b ∈ s.assignments)
    (drives : ∀ d' ∈ t.drives, ∃ d ∈ s.drives, d.id = d'.id ∧
      d'.currentProjectId = d.currentProjectId) : Isolated t := by
  intro j' hj' writing
  obtain ⟨j, hj, id, project, status⟩ := jobs j' hj'
  rw [status] at writing
  refine (iso j hj writing).of_rows id project (fun b hb job active => ?_)
    fun b hb job active d' hd' same => ?_
  · exact ⟨b, rows j hj writing b hb job active, job, active, rfl⟩
  · obtain ⟨d, hd, key, project⟩ := drives d' hd'
    exact ⟨d, hd, key, project.trans⟩

/-- A reservation changes neither active assignments nor bindings. -/
theorem reserve (iso : Isolated s) (driveId jobId now : Nat) :
    Isolated ((s.addAssignment driveId jobId now none).setDriveState driveId .inUse) := by
  refine iso.of_frame (fun j hj => ⟨j, hj, rfl, rfl, rfl⟩) (fun j hj _ b hb _ active => ?_)
    fun d' hd' => ?_
  · rcases Db.mem_addAssignment.mp hb with hb | rfl
    · exact hb
    · cases active
  · rcases Db.mem_setDriveState.mp hd' with ⟨hd, -⟩ | ⟨d, hd, -, rfl⟩
    · exact ⟨d', hd, rfl, rfl⟩
    · exact ⟨d, hd, rfl, rfl⟩

theorem createJob (iso : Isolated s) {body : JobBody} {seeded : Option Nat}
    {now : Nat} (h : createJob cfg s body seeded now = .ok t) : Isolated t := by
  obtain ⟨s₁, jobId, drive, sourcePath, resolved, inserted, -, hdrive, -, bindable, -, overflow⟩ :=
    createJob_eq_ok h
  refine reserveOverflowDrives_rule (fun u d hu _ _ _ _ => hu.reserve d.id jobId now) ?_ overflow
  intro j hj writing
  -- The new job is pending; every other job is old and has other assignments.
  have old : j ∈ s.jobs ∧ j.id ≠ jobId := by
    rcases mem_created_jobs inserted hj with old | rfl
    · exact old
    · simp [newJob, writingStatuses] at writing
  obtain ⟨⟨jobs, rfl⟩, -, -⟩ := insertJob_eq_ok inserted
  refine (iso j old.1 writing).of_rows rfl rfl (fun b hb job active => ?_)
    fun b hb job active d' hd' same => ?_
  · rcases Db.mem_addAssignment.mp hb with hb | rfl
    · exact ⟨b, hb, job, active, rfl⟩
    · exact absurd job.symm old.2
  · rcases mem_assignPrimaryDrive_drives.mp hd' with ⟨hd, -⟩ | ⟨d, hd, key, rfl⟩
    · exact ⟨d', hd, rfl, fun h => h⟩
    · refine ⟨d, hd, rfl, fun bound => ?_⟩
      obtain rfl : d = drive := eq_of_id_eq hd hdrive key
      rcases bindable with own | ⟨unbound, -⟩
      · exact own.symm.trans bound
      · cases unbound.symm.trans bound

theorem updateJob (iso : Isolated s) {jobId now : Nat} {body : JobBody} :
    (∀ s', updateJob cfg s jobId body now = .ok s' → Isolated s') ∧
      Leaves Isolated (updateJob cfg s jobId body now) := by
  refine updateJob_rule (P := fun _ _ u => Isolated u) iso (fun _ _ _ _ _ _ _ h _ _ _ => h)
    (fun _ _ _ _ h => h)
    (fun plan _ checked => ?_) (fun plan _ rest u d hu _ _ _ _ _ _ => hu.reserve d.id _ now)
    fun plan _ u hu => ?_
  · refine iso.of_frame (fun j hj => ⟨j, keptAssignments_jobs .. ▸ hj, rfl, rfl, rfl⟩)
      (fun j hj writing b hb job active => ?_) fun d' hd' => ?_
    · rcases held_of_keptAssignments hb (DriveAssignment.active_iff.mp active).2 with
        ⟨old, -⟩ | ⟨limited, -, rfl⟩
      · exact old
      · -- Only a pending job gets a new primary assignment.
        have pending := checked.pending limited
        rw [← eq_of_id_eq hj (mem_of_get checked.job) job.symm] at pending
        simp [pending, writingStatuses] at writing
    · obtain ⟨d, hd, kept⟩ := drives_of_keptAssignments checked hd'
      exact ⟨d, hd, kept.id, kept.project⟩
  · have written : Isolated ((u.setDriveState plan.drive.id .inUse).modifyJob jobId
        (updatedJob plan body) (updatedJob_id plan body)) := by
      refine hu.of_frame (fun j' hj' => ?_) (fun j _ _ b hb _ _ => hb) fun d' hd' => ?_
      · rcases Db.mem_modifyJob.mp hj' with ⟨hj, -⟩ | ⟨j, hj, -, rfl⟩
        · exact ⟨j', hj, rfl, rfl, rfl⟩
        · exact ⟨j, hj, updatedJob_id .., updatedJob_projectId .., updatedJob_status ..⟩
      · rcases Db.mem_setDriveState.mp hd' with ⟨hd, -⟩ | ⟨d, hd, -, rfl⟩
        · exact ⟨d', hd, rfl, rfl⟩
        · exact ⟨d, hd, rfl, rfl⟩
    rw [finishUpdate]
    split <;> exact written

theorem deleteJob (iso : Isolated s) {jobId : Nat} (h : deleteJob s jobId = .ok t) :
    Isolated t := by
  have rows := deleted_of_deleteJob h
  refine iso.of_frame (fun j hj => ⟨j, ((rows.jobs j).mp hj).1, rfl, rfl, rfl⟩)
    (fun j _ _ b hb _ _ => ((rows.assignments b).mp hb).1) fun d' hd' => ?_
  rcases (rows.drives d').mp hd' with ⟨hd, -⟩ | ⟨d, hd, -, rfl⟩
  · exact ⟨d', hd, rfl, rfl⟩
  · exact ⟨d, hd, rfl, rfl⟩

/-- A job that moves to a drive of its project, on which no writing job loses
the binding. -/
theorem moved (iso : Isolated s) {job : ExportJob} {active : DriveAssignment} {drive : UsbDrive}
    {status : JobStatus} {bound : Option ProjectId} {freed : Prop}
    (m : Moved s t job active drive status bound freed) (own : bound = some job.projectId)
    (others : ∀ a ∈ s.assignments, a.jobId ≠ job.id → a.active = true → a.driveId = drive.id →
      ∀ d ∈ s.drives, d.id = drive.id → d.currentProjectId = bound) : Isolated t := by
  intro j' hj' writing
  rcases m.jobs j' hj' with ⟨old, other⟩ | ⟨id, project, -, -⟩
  · refine (iso j' old writing).of_rows rfl rfl (fun b hb mine active => ?_)
      fun b hb mine active d' hd' same => ?_
    · rcases m.held b hb (DriveAssignment.active_iff.mp active).2 with ⟨hb, -⟩ | ⟨theirs, -⟩
      · exact ⟨b, hb, mine, active, rfl⟩
      · exact absurd (mine.symm.trans theirs) other
    · obtain ⟨d, hd, key, -, taken, untaken⟩ := m.drives d' hd'
      refine ⟨d, hd, key, fun h => ?_⟩
      by_cases moved : d.id = drive.id
      · rw [(taken moved).2, ← others b hb (mine ▸ other) active (same ▸ key.symm.trans moved) d hd
          moved]
        exact h
      · rw [(untaken moved).1]
        exact h
  · intro b hb mine active d' hd' same
    rw [project]
    rcases m.held b hb (DriveAssignment.active_iff.mp active).2 with ⟨-, -, h⟩ | ⟨-, drive, -⟩
    · rw [(h (mine.trans id)).1] at active
      cases active
    · obtain ⟨d, -, key, -, taken, -⟩ := m.drives d' hd'
      rw [(taken (key.trans (same.trans drive))).2, own]

/-- One action. -/
theorem step {a : Action} (iso : Isolated s) (inv : Consistent s)
    (guard : BindingChecked cfg s a) : Isolated (step cfg s a) := by
  refine step_moved inv (fun t w => iso.jobWrites guard w) (fun t w => iso.driveWrites guard w)
    (fun body seeded s' _ h => iso.createJob h) (fun jobId body _ => iso.updateJob)
    (fun jobId s' _ h => iso.deleteJob h)
    (fun jobId driveId threadCount s' plan _ _ checked m => ?_)
    fun jobId probe job active next drive s' event continues found m => ?_
  · apply iso.moved m rfl
    intro b hb theirs active drive
    -- The new drive is held by no other job.
    refine absurd (checked.free b hb (DriveAssignment.active_iff.mp active).2 ?_) ?_
    · exact drive.trans (id_of_get checked.drive)
    · rw [← show plan.job.id = jobId from id_of_get checked.job]
      exact theirs
  · rw [BindingChecked, event] at guard
    obtain ⟨row, hrow, id, project, -⟩ := found.row
    have bound := guard continues next found.nextRow found.mine found.reserved row hrow
      (id.trans found.driveId)
    rw [project] at bound
    apply iso.moved m (found.project.resolve_left bound)
    intro b _ _ _ _ d hd same
    rw [eq_of_id_eq hd hrow (same.trans id.symm)]
    exact project

end Isolated

/-- In a run that keeps to the unchecked conditions, every job that writes does
so on a drive of its project, in every state. -/
theorem isolated_of_checked {cfg : Settings} {s : Db} {actions : List Action} (initial : Initial s)
    (checked : Along (step cfg) (BindingChecked cfg) s actions) :
    Always (step cfg) Isolated s actions := by
  have keep : ∀ s a, Isolated s ∧ Consistent s → BindingChecked cfg s a →
      Isolated (step cfg s a) ∧ Consistent (step cfg s a) :=
    fun s a h guard => ⟨h.1.step h.2 guard, h.2.step cfg a⟩
  have start : Isolated s ∧ Consistent s :=
    ⟨fun j hj => absurd hj (initial.noJobs j), initial.consistent⟩
  exact (always_of_along keep start checked).mono fun _ h => h.1

/-- A job is created, started and enters its copy phase. -/
def plainRun : List Action :=
  [⟨1, .createJob (Lab.body "/data/a" (some 1) none) none⟩,
    ⟨2, .startJob 1 none⟩,
    ⟨3, .enterRunning 1⟩]

theorem isolated_plainRun :
    Along (step Lab.settings) (BindingChecked Lab.settings) Lab.start plainRun ∧
      Always (step Lab.settings) Isolated Lab.start plainRun := by
  have bound : ∀ j ∈ (exec (step Lab.settings) Lab.start (plainRun.take 1)).jobs, j.id = 1 →
      OnOwnProject (exec (step Lab.settings) Lab.start (plainRun.take 1)) j := by
    decide
  have checked : Along (step Lab.settings) (BindingChecked Lab.settings) Lab.start plainRun :=
    ⟨trivial, fun _ => bound, trivial, trivial⟩
  exact ⟨checked, isolated_of_checked Lab.start_initial checked⟩

/-- The drive of a pending job is ejected, formatted, mounted and initialised
for another project; then the job is started. -/
def rebindRun : List Action :=
  [⟨1, .createJob (Lab.body "/data/a" (some 1) none) none⟩,
    ⟨2, .prepareEject 1 false .success⟩,
    ⟨3, .requestDriveFormat 1 false⟩,
    ⟨4, .completeDriveFormat 1 "ext4" false none⟩,
    ⟨5, .mountDrive 1 .mounted⟩,
    ⟨6, .initializeDrive 1 Lab.projectQ⟩,
    ⟨7, .startJob 1 none⟩]

/-- The last request is accepted, and leaves a job of `P` in `PREPARING` on a
drive of `Q`. -/
theorem isolated_leaves_project :
    Initial Lab.start ∧ Along (step Lab.settings) (Accepted Lab.settings) Lab.start rebindRun ∧
      ¬ Isolated (exec (step Lab.settings) Lab.start rebindRun) := by
  refine ⟨Lab.start_initial, ?_, ?_⟩
  · decide
  · decide

end Ecube
