import Ecube.Invariants.Consistent

/-!
Moving a job to another drive.

A requested continuation (`continue_job_overflow`) and the automatic one after
a full target (`_resolve_target_full_outcome`) have the same effect on rows:
the active assignment of the job is released, an assignment on the new drive
becomes the active one, and the drive that was left may become available. They
differ in the status they give the job, in the binding of the new drive and in
when the left drive is freed.
-/

namespace Ecube

open Table

/-! ### Assignments that persist -/

/-- Every assignment of `s` is still there, up to its activation and release. -/
def Persist (s t : Db) : Prop :=
  ∀ a ∈ s.assignments, ∃ a' ∈ t.assignments, a'.id = a.id ∧ a'.driveId = a.driveId ∧
    a'.jobId = a.jobId

namespace Persist

variable {s t : Db}

theorem refl (s : Db) : Persist s s := fun a ha => ⟨a, ha, rfl, rfl, rfl⟩

theorem add (h : Persist s t) (driveId jobId now : Nat) (activatedAt : Option Nat) :
    Persist s (t.addAssignment driveId jobId now activatedAt) := by
  intro a ha
  obtain ⟨a', ha', same⟩ := h a ha
  exact ⟨a', Db.mem_addAssignment.mpr (.inl ha'), same⟩

theorem release (h : Persist s t) (k now : Nat) : Persist s (t.releaseAssignment k now) := by
  intro a ha
  obtain ⟨a', ha', same⟩ := h a ha
  by_cases released : a'.id = k
  · exact ⟨_, Db.mem_releaseAssignment.mpr (.inr ⟨a', ha', released, rfl⟩), same⟩
  · exact ⟨a', Db.mem_releaseAssignment.mpr (.inl ⟨ha', released⟩), same⟩

theorem activate (h : Persist s t) (k now : Nat) : Persist s (t.activateAssignment k now) := by
  intro a ha
  obtain ⟨a', ha', same⟩ := h a ha
  by_cases activated : a'.id = k
  · exact ⟨_, Db.mem_activateAssignment.mpr (.inr ⟨a', ha', activated, rfl⟩), same⟩
  · exact ⟨a', Db.mem_activateAssignment.mpr (.inl ⟨ha', activated⟩), same⟩

theorem leave (h : Persist s t) (a : DriveAssignment) (now : Nat) :
    Persist s (leaveDrive t a now) := by
  rw [leaveDrive]
  split <;> exact h.release a.id now

theorem activateReservedOrNew (h : Persist s t) (jobId driveId now : Nat) :
    Persist s (activateReservedOrNewAssignment t jobId driveId now) := by
  rw [activateReservedOrNewAssignment]
  split
  · exact h.activate _ now
  · exact h.add driveId jobId now (some now)

end Persist

/-! ### The rows after a move -/

/-- The rows of `t` after `job` has moved from its `active` assignment to `drive`. -/
structure Moved (s t : Db) (job : ExportJob) (active : DriveAssignment) (drive : UsbDrive)
    (status : JobStatus) (bound : Option ProjectId) (freed : Prop) : Prop where
  jobs : ∀ j' ∈ t.jobs, (j' ∈ s.jobs ∧ j'.id ≠ job.id) ∨
    (j'.id = job.id ∧ j'.projectId = job.projectId ∧ j'.status = status ∧
      j'.targetMountPath = drive.mountPath)
  path : ∀ j' ∈ t.jobs, j'.id = job.id → j'.sourcePath =
    if status = .preparing then normalizePath job.sourcePath else job.sourcePath
  held : ∀ b ∈ t.assignments, b.releasedAt = none →
    (b ∈ s.assignments ∧ b.id ≠ active.id ∧
      (b.jobId = job.id → b.active = false ∧ b.driveId ≠ drive.id)) ∨
    (b.jobId = job.id ∧ b.driveId = drive.id ∧ b.active = true)
  drives : ∀ d' ∈ t.drives, ∃ d ∈ s.drives, d.id = d'.id ∧ d'.mountPath = d.mountPath ∧
    (d.id = drive.id → d'.currentState = .inUse ∧ d'.currentProjectId = bound) ∧
    (d.id ≠ drive.id → d'.currentProjectId = d.currentProjectId ∧
      (d'.currentState = d.currentState ∨
        (freed ∧ d.id = active.driveId ∧ d'.currentState = .available)))
  files : ∀ f ∈ t.files, f.jobId ≠ job.id → f ∈ s.files
  others : ∀ b ∈ s.assignments, b.jobId ≠ job.id → b ∈ t.assignments
  taken : ∃ b ∈ t.assignments, b.jobId = job.id ∧ b.driveId = drive.id ∧ b.active = true
  kept : ∀ d ∈ s.drives, ∃ d' ∈ t.drives, d'.id = d.id
  persist : Persist s t
  done : ∀ f ∈ t.files, f.status = .done → f ∈ s.files

/-- The rows after the active assignment is released and a reservation is activated. -/
theorem held_of_switch {s : Db} {jobId now : Nat} {active next b : DriveAssignment}
    (inv : Consistent s) (current : s.getActiveForJob jobId = some active)
    (hnext : next ∈ s.assignments) (job : next.jobId = jobId) (reserved : next.reserved = true)
    (hb : b ∈ ((s.releaseAssignment active.id now).activateAssignment next.id now).assignments)
    (held : b.releasedAt = none) :
    (b ∈ s.assignments ∧ b.id ≠ active.id ∧
      (b.jobId = jobId → b.active = false ∧ b.driveId ≠ next.driveId)) ∨
    (b.jobId = jobId ∧ b.driveId = next.driveId ∧ b.active = true) := by
  rcases Db.mem_activateAssignment.mp hb with ⟨hb, ne⟩ | ⟨r, hr, same, rfl⟩
  · have idle := inv.idle_of_release current b hb
    rcases Db.mem_releaseAssignment.mp hb with ⟨hb, other⟩ | ⟨r, -, -, rfl⟩
    · refine .inl ⟨hb, other, fun mine => ⟨idle mine, fun drive => ne ?_⟩⟩
      have := inv.unique b hb next hnext held (DriveAssignment.reserved_iff.mp reserved).2
        (mine.trans job.symm) (.inl drive)
      rw [this]
    · cases held
  · -- The activated row is the reservation.
    have old : r = next := by
      rcases Db.mem_releaseAssignment.mp hr with ⟨hr, -⟩ | ⟨r, -, -, rfl⟩
      · exact eq_of_id_eq hr hnext same
      · cases held
    subst old
    exact .inr ⟨job, rfl, DriveAssignment.active_iff.mpr ⟨by simp, held⟩⟩

/-- The rows after the active assignment is released and the job is assigned to
another drive, by its reservation or by a new assignment. -/
theorem held_of_activateReservedOrNew {s : Db} {jobId driveId now : Nat}
    {active b : DriveAssignment} (inv : Consistent s)
    (current : s.getActiveForJob jobId = some active)
    (hb : b ∈ (activateReservedOrNewAssignment (leaveDrive s active now) jobId driveId
      now).assignments) (held : b.releasedAt = none) :
    (b ∈ s.assignments ∧ b.id ≠ active.id ∧
      (b.jobId = jobId → b.active = false ∧ b.driveId ≠ driveId)) ∨
    (b.jobId = jobId ∧ b.driveId = driveId ∧ b.active = true) := by
  rw [activateReservedOrNewAssignment] at hb
  split at hb
  · rename_i next found
    obtain ⟨mem, hp⟩ := mem_of_first found
    obtain ⟨job, drive, reserved⟩ := of_decide_eq_true hp
    have hnext : next ∈ s.assignments := by
      rcases Db.mem_releaseAssignment.mp (mem_leaveDrive.mp mem) with ⟨h, -⟩ | ⟨r, -, -, rfl⟩
      · exact h
      · exact absurd (DriveAssignment.reserved_iff.mp reserved).2 (by simp)
    have hb' : b ∈ ((s.releaseAssignment active.id now).activateAssignment next.id
        now).assignments := by
      rcases Db.mem_activateAssignment.mp hb with ⟨h, ne⟩ | ⟨r, hr, same, rfl⟩
      · exact Db.mem_activateAssignment.mpr (.inl ⟨mem_leaveDrive.mp h, ne⟩)
      · exact Db.mem_activateAssignment.mpr (.inr ⟨r, mem_leaveDrive.mp hr, same, rfl⟩)
    rw [← drive]
    exact held_of_switch inv current hnext job reserved hb' held
  · rename_i missing
    rcases Db.mem_addAssignment.mp hb with hb | rfl
    · have idle := inv.idle_of_release current b (mem_leaveDrive.mp hb)
      have unreserved := of_decide_eq_false (first_eq_none_iff.mp missing b hb)
      rcases Db.mem_releaseAssignment.mp (mem_leaveDrive.mp hb) with ⟨hb, ne⟩ | ⟨r, -, -, rfl⟩
      · refine .inl ⟨hb, ne, fun mine => ⟨idle mine, fun drive => ?_⟩⟩
        have inactive := idle mine
        cases activated : b.activatedAt with
        | none => exact unreserved ⟨mine, drive, DriveAssignment.reserved_iff.mpr ⟨activated, held⟩⟩
        | some at_ =>
            rw [DriveAssignment.active_iff.mpr ⟨by simp [activated], held⟩] at inactive
            cases inactive
      · cases held
    · exact .inr ⟨rfl, rfl, rfl⟩

/-- The rows of other jobs stay when a job is assigned to another drive. -/
theorem mem_activateReservedOrNew_of_ne {s : Db} {jobId driveId now : Nat}
    {active b : DriveAssignment} (current : s.getActiveForJob jobId = some active)
    (hb : b ∈ s.assignments) (other : b.jobId ≠ jobId) :
    b ∈ (activateReservedOrNewAssignment (leaveDrive s active now) jobId driveId
      now).assignments := by
  obtain ⟨mem, mine, -⟩ := active_of_getActiveForJob current
  have left : b ∈ (leaveDrive s active now).assignments := by
    refine mem_leaveDrive.mpr (Db.mem_releaseAssignment.mpr (.inl ⟨hb, fun same => other ?_⟩))
    rw [eq_of_id_eq hb mem same, mine]
  rw [activateReservedOrNewAssignment]
  split
  · rename_i next found
    obtain ⟨hnext, hp⟩ := mem_of_first found
    refine Db.mem_activateAssignment.mpr (.inl ⟨left, fun same => other ?_⟩)
    rw [eq_of_id_eq left hnext same, (of_decide_eq_true hp).1]
  · exact Db.mem_addAssignment.mpr (.inl left)

theorem activateReservedOrNew_taken (s : Db) (jobId driveId now : Nat) :
    ∃ b ∈ (activateReservedOrNewAssignment s jobId driveId now).assignments,
      b.jobId = jobId ∧ b.driveId = driveId ∧ b.active = true := by
  rw [activateReservedOrNewAssignment]
  split
  · rename_i next found
    obtain ⟨hnext, hp⟩ := mem_of_first found
    obtain ⟨mine, drive, reserved⟩ := of_decide_eq_true hp
    refine ⟨{ next with activatedAt := some now },
      Db.mem_activateAssignment.mpr (.inr ⟨next, hnext, rfl, rfl⟩), mine, drive, ?_⟩
    exact DriveAssignment.active_iff.mpr ⟨by simp, (DriveAssignment.reserved_iff.mp reserved).2⟩
  · exact ⟨_, Db.mem_addAssignment.mpr (.inr rfl), rfl, rfl, rfl⟩

/-- The drives after one is left. -/
theorem drives_of_leaveDrive {s : Db} {a : DriveAssignment} {now : Nat} {d' : UsbDrive}
    (hd' : d' ∈ (leaveDrive s a now).drives) :
    ∃ d ∈ s.drives, d.id = d'.id ∧ d'.mountPath = d.mountPath ∧
      d'.currentProjectId = d.currentProjectId ∧ (d'.currentState = d.currentState ∨
        (s.otherActiveAssignmentsForDrive a.driveId a.jobId = false ∧ d.id = a.driveId ∧
          d'.currentState = .available)) := by
  rw [leaveDrive] at hd'
  split at hd'
  · exact ⟨d', hd', rfl, rfl, rfl, .inl rfl⟩
  · rename_i free
    rcases Db.mem_setDriveState.mp hd' with ⟨hd, -⟩ | ⟨d, hd, same, rfl⟩
    · exact ⟨d', hd, rfl, rfl, rfl, .inl rfl⟩
    · exact ⟨d, hd, rfl, rfl, rfl, .inr ⟨Bool.not_eq_true _ ▸ free, same, rfl⟩⟩

/-- Taking the new drive writes assignments only. -/
theorem activateReservedOrNew_frame (s : Db) (jobId driveId now : Nat) :
    (activateReservedOrNewAssignment s jobId driveId now).jobs = s.jobs ∧
      (activateReservedOrNewAssignment s jobId driveId now).files = s.files ∧
      (activateReservedOrNewAssignment s jobId driveId now).drives = s.drives := by
  rw [activateReservedOrNewAssignment]
  split <;> exact ⟨rfl, rfl, rfl⟩

/-- The drives after the job has left one drive, with the requested one bound. -/
theorem drives_of_bound_leaveDrive {s : Db} {driveId now : Nat} {active : DriveAssignment}
    {project : ProjectId} {x : UsbDrive} (hx : x ∈ (leaveDrive (s.modifyDrive driveId
      (fun d => { d with currentProjectId := some project }) fun _ => rfl) active now).drives) :
    ∃ d ∈ s.drives, d.id = x.id ∧ x.mountPath = d.mountPath ∧
      (d.id = driveId → x.currentProjectId = some project) ∧
      (d.id ≠ driveId → x.currentProjectId = d.currentProjectId) ∧
      (x.currentState = d.currentState ∨
        (s.otherActiveAssignmentsForDrive active.driveId active.jobId = false ∧
          d.id = active.driveId ∧ x.currentState = .available)) := by
  obtain ⟨y, hy, id, mount, bound, state⟩ := drives_of_leaveDrive hx
  rcases Db.mem_modifyDrive.mp hy with ⟨hy, ne⟩ | ⟨d, hd, same, rfl⟩
  · exact ⟨y, hy, id, mount, fun same => absurd same ne, fun _ => bound, state⟩
  · exact ⟨d, hd, id, mount, fun _ => bound, fun ne => absurd same ne, state⟩

/-- An accepted continuation moves the job to the requested drive, binds it and
frees the left one unless another job has an activated assignment on it. -/
theorem moved_continueJobOverflow {cfg : Settings} {s s' : Db} {jobId driveId now : Nat}
    {threadCount : Option Nat} (inv : Consistent s)
    (h : continueJobOverflow cfg s jobId driveId threadCount now = .ok s') :
    ∃ plan, OverflowChecked s jobId driveId plan ∧
      Moved s s' plan.job plan.active plan.drive .preparing (some plan.job.projectId)
        (s.otherActiveAssignmentsForDrive plan.active.driveId jobId = false) := by
  simp only [continueJobOverflow, bind_eq_ok, pure_eq_ok] at h
  obtain ⟨plan, planned, rfl⟩ := h
  have checked := overflowPlan_eq_ok planned
  have hjob : plan.job.id = jobId := id_of_get checked.job
  have hdrive : plan.drive.id = driveId := id_of_get checked.drive
  obtain ⟨-, mine, -⟩ := active_of_getActiveForJob checked.active
  let bound := s.modifyDrive driveId
    (fun d => { d with currentProjectId := some plan.job.projectId }) fun _ => rfl
  have boundInv : Consistent bound := inv.modifyDrive _ _ _
  obtain ⟨sameJobs, sameFiles, sameDrives⟩ :=
    activateReservedOrNew_frame (leaveDrive bound plan.active now) jobId driveId now
  rw [leaveDrive_jobs] at sameJobs
  rw [leaveDrive_files] at sameFiles
  have held := @held_of_activateReservedOrNew bound jobId driveId now plan.active
  have others := @mem_activateReservedOrNew_of_ne bound jobId driveId now plan.active
  have taken := activateReservedOrNew_taken (leaveDrive bound plan.active now) jobId driveId now
  have persist := ((Persist.refl bound).leave plan.active now).activateReservedOrNew jobId driveId now
  generalize activateReservedOrNewAssignment (leaveDrive bound plan.active now) jobId driveId
    now = moved at *
  refine ⟨plan, checked, ?_⟩
  exact {
    jobs := by
      intro j' hj'
      rcases Db.mem_modifyJob.mp hj' with ⟨hj, other⟩ | ⟨j, hj, same, rfl⟩
      · exact .inl ⟨sameJobs ▸ hj, hjob ▸ other⟩
      · have old : j ∈ s.jobs := sameJobs ▸ hj
        rw [eq_of_get checked.job old same]
        exact .inr ⟨rfl, rfl, rfl, rfl⟩
    path := by
      intro j' hj' mine
      rcases Db.mem_modifyJob.mp hj' with ⟨-, other⟩ | ⟨j, -, -, rfl⟩
      · exact absurd (mine.trans hjob) other
      · exact checked.sourcePath
    held := by
      intro b hb open_
      rw [hjob, hdrive]
      exact held boundInv checked.active hb open_
    drives := by
      intro d' hd'
      rw [hdrive]
      rcases Db.mem_setDriveState.mp hd' with ⟨hd, ne⟩ | ⟨x, hx, same, rfl⟩
      · obtain ⟨d, hd, id, mount, -, project, state⟩ := drives_of_bound_leaveDrive (sameDrives ▸ hd)
        rw [mine] at state
        exact ⟨d, hd, id, mount, fun same => absurd (id.symm.trans same) ne,
          fun other => ⟨project other, state⟩⟩
      · obtain ⟨d, hd, id, mount, project, -, -⟩ := drives_of_bound_leaveDrive (sameDrives ▸ hx)
        have taken : d.id = driveId := id.trans same
        exact ⟨d, hd, id, mount, fun same => ⟨rfl, project same⟩, fun other => absurd taken other⟩
    files := fun f hf other => sameFiles ▸ mem_of_resetFailedForRetry (s := moved) hf (hjob ▸ other)
    others := fun b hb other => others checked.active hb (hjob ▸ other)
    taken := by
      rw [hjob, hdrive]
      exact taken
    kept := by
      intro d hd
      have left : ∃ x ∈ moved.drives, x.id = d.id :=
        sameDrives ▸ exists_drive_leaveDrive (Db.exists_modifyDrive ⟨d, hd, rfl⟩)
      exact Db.exists_setDriveState left
    persist := persist
    done := fun f hf done => sameFiles ▸ done_of_resetFailedForRetry (s := moved) hf done }

/-- What an automatic continuation has checked of the job and of the
reservation it activates. -/
structure OverflowFound (s : Db) (jobId : Nat) (job : ExportJob) (active next : DriveAssignment)
    (drive : UsbDrive) : Prop where
  jobRow : s.jobs.get jobId = some job
  status : job.status ∈ copyingStatuses
  activeRow : s.getActiveForJob jobId = some active
  nextRow : next ∈ s.assignments
  mine : next.jobId = jobId
  reserved : next.reserved = true
  driveId : drive.id = next.driveId
  mounted : truthy drive.mountPath ≠ none
  project : drive.currentProjectId = none ∨ drive.currentProjectId = some job.projectId
  row : ∃ d ∈ s.drives, d.id = drive.id ∧ d.currentProjectId = drive.currentProjectId ∧
    d.mountPath = drive.mountPath

section OnReserved

variable {s : Db} {jobId now : Nat} {job : ExportJob} {active next : DriveAssignment}
  {drive : UsbDrive}

namespace OverflowFound

/-- The reservation is not the active assignment. -/
theorem next_ne_active (found : OverflowFound s jobId job active next drive) :
    next.id ≠ active.id := by
  intro same
  obtain ⟨mem, -, hactive⟩ := active_of_getActiveForJob found.activeRow
  have reserved := found.reserved
  rw [eq_of_id_eq found.nextRow mem same, DriveAssignment.reserved_iff] at reserved
  exact (DriveAssignment.active_iff.mp hactive).1 reserved.1

/-- The drive as the database has it is bound as the probed one. -/
theorem project_of_id (found : OverflowFound s jobId job active next drive) {d : UsbDrive}
    (hd : d ∈ s.drives) (taken : d.id = drive.id) : d.currentProjectId = drive.currentProjectId := by
  obtain ⟨r, hr, id, project, -⟩ := found.row
  rw [← project, eq_of_id_eq hr hd (id.trans taken.symm)]

/-- Both assignments that are written belong to the job. -/
theorem others (found : OverflowFound s jobId job active next drive) {b : DriveAssignment}
    (hb : b ∈ s.assignments) (other : b.jobId ≠ jobId) :
    b ∈ ((s.releaseAssignment active.id now).activateAssignment next.id now).assignments := by
  obtain ⟨mem, mine, -⟩ := active_of_getActiveForJob found.activeRow
  refine Db.mem_activateAssignment.mpr (.inl ⟨Db.mem_releaseAssignment.mpr (.inl ⟨hb, ?_⟩), ?_⟩)
  · exact fun same => other (by rw [eq_of_id_eq hb mem same, mine])
  · exact fun same => other (by rw [eq_of_id_eq hb found.nextRow same, found.mine])

theorem taken (found : OverflowFound s jobId job active next drive) :
    ∃ b ∈ ((s.releaseAssignment active.id now).activateAssignment next.id now).assignments,
      b.jobId = jobId ∧ b.driveId = drive.id ∧ b.active = true := by
  have unreleased : next ∈ (s.releaseAssignment active.id now).assignments :=
    Db.mem_releaseAssignment.mpr (.inl ⟨found.nextRow, found.next_ne_active⟩)
  refine ⟨{ next with activatedAt := some now }, Db.mem_activateAssignment.mpr (.inr ⟨next,
    unreleased, rfl, rfl⟩), found.mine, found.driveId.symm, ?_⟩
  exact DriveAssignment.active_iff.mpr ⟨by simp, (DriveAssignment.reserved_iff.mp found.reserved).2⟩

end OverflowFound

/-- The drives after one is freed and another is taken. -/
theorem drives_of_freed_taken {freed taken : Nat} {d' : UsbDrive}
    (hd' : d' ∈ ((s.setDriveState freed .available).setDriveState taken .inUse).drives) :
    ∃ d ∈ s.drives, d.id = d'.id ∧ d'.mountPath = d.mountPath ∧
      d'.currentProjectId = d.currentProjectId ∧ (d.id = taken → d'.currentState = .inUse) ∧
      (d.id ≠ taken → d'.currentState = d.currentState ∨
        (d.id = freed ∧ d'.currentState = .available)) := by
  rcases Db.mem_setDriveState.mp hd' with ⟨hd, ne⟩ | ⟨x, hx, same, rfl⟩
  · rcases Db.mem_setDriveState.mp hd with ⟨old, -⟩ | ⟨d, old, same, rfl⟩
    · exact ⟨d', old, rfl, rfl, rfl, fun same => absurd same ne, fun _ => .inl rfl⟩
    · exact ⟨d, old, rfl, rfl, rfl, fun same => absurd same ne, fun _ => .inr ⟨same, rfl⟩⟩
  · rcases Db.mem_setDriveState.mp hx with ⟨old, -⟩ | ⟨d, old, -, rfl⟩
    · exact ⟨x, old, rfl, rfl, rfl, fun _ => rfl, fun ne => absurd same ne⟩
    · exact ⟨d, old, rfl, rfl, rfl, fun _ => rfl, fun ne => absurd same ne⟩

/-- The automatic continuation moves the job to a reserved drive, keeps its
binding and always frees the left one. -/
theorem moved_continueOnReserved (inv : Consistent s)
    (found : OverflowFound s jobId job active next drive) :
    Moved s (continueOnReserved s jobId active next drive now) job active drive .running
      drive.currentProjectId True := by
  have hjob : job.id = jobId := id_of_get found.jobRow
  exact {
    jobs := by
      intro j' hj'
      rw [hjob]
      rcases mem_continueOnReserved_jobs.mp hj' with old | ⟨j, hj, same, rfl⟩
      · exact .inl old
      · rw [eq_of_get found.jobRow hj same]
        exact .inr ⟨hjob, rfl, rfl, rfl⟩
    path := by
      intro j' hj' mine
      rcases mem_continueOnReserved_jobs.mp hj' with ⟨-, other⟩ | ⟨j, hj, same, rfl⟩
      · exact absurd (mine.trans hjob) other
      · rw [eq_of_get found.jobRow hj same]
        rfl
    held := by
      intro b hb open_
      rw [found.driveId, hjob]
      exact held_of_switch inv found.activeRow found.nextRow found.mine found.reserved hb open_
    drives := by
      intro d' hd'
      obtain ⟨d, hd, id, mount, project, taken, untaken⟩ := drives_of_freed_taken hd'
      refine ⟨d, hd, id, mount, fun same => ⟨taken same, ?_⟩, fun other => ⟨project, ?_⟩⟩
      · exact project.trans (found.project_of_id hd same)
      · exact (untaken other).imp_right fun freed => ⟨trivial, freed⟩
    files := fun f hf other => mem_of_resetTargetFullFailedForRetry (s := s) hf (hjob ▸ other)
    others := fun b hb other => found.others hb (hjob ▸ other)
    taken := by
      rw [hjob]
      exact found.taken
    kept := fun d hd => Db.exists_setDriveState (Db.exists_setDriveState (s := s) ⟨d, hd, rfl⟩)
    persist := ((Persist.refl s).release active.id now).activate next.id now
    done := fun f hf done => done_of_resetTargetFullFailedForRetry (s := s) hf done }

end OnReserved

/-- Probing drives records free space only. -/
structure Probed (s t : Db) : Prop where
  jobs : t.jobs = s.jobs
  files : t.files = s.files
  assignments : t.assignments = s.assignments
  drives : ∀ d' ∈ t.drives, ∃ d ∈ s.drives, d'.id = d.id ∧ d'.currentState = d.currentState ∧
    d'.currentProjectId = d.currentProjectId ∧ d'.mountPath = d.mountPath
  kept : ∀ d ∈ s.drives, ∃ d' ∈ t.drives, d'.id = d.id

namespace Probed

variable {s t u : Db}

theorem record (h : Probed s t) (k v : Nat) :
    Probed s (t.modifyDrive k (fun d => { d with availableBytes := some v }) fun _ => rfl) where
  jobs := h.jobs
  files := h.files
  assignments := h.assignments
  drives d' hd' := by
    rcases Db.mem_modifyDrive.mp hd' with ⟨hd, -⟩ | ⟨d, hd, -, rfl⟩
    · exact h.drives d' hd
    · exact h.drives d hd
  kept d hd := by
    obtain ⟨d', hd', same⟩ := h.kept d hd
    exact Db.exists_modifyDrive ⟨d', hd', same⟩

theorem driveWrites {cfg : Settings} {a : Action} (h : Probed s t) : DriveWrites cfg a s t where
  jobs := h.jobs
  files := h.files
  assignments := h.assignments
  drives d' hd' := by
    obtain ⟨d, hd, id, state, project, mount⟩ := h.drives d' hd'
    exact ⟨d, hd, id, .same state project mount⟩
  kept := h.kept

theorem moved {job : ExportJob} {active : DriveAssignment} {drive : UsbDrive} {status : JobStatus}
    {bound : Option ProjectId} {freed : Prop} (h : Probed s t)
    (m : Moved t u job active drive status bound freed) :
    Moved s u job active drive status bound freed where
  jobs j' hj' := (m.jobs j' hj').imp_left fun old => ⟨h.jobs ▸ old.1, old.2⟩
  path := m.path
  held b hb open_ := (m.held b hb open_).imp_left fun old => ⟨h.assignments ▸ old.1, old.2⟩
  drives d' hd' := by
    obtain ⟨x, hx, id, mount, taken, untaken⟩ := m.drives d' hd'
    obtain ⟨d, hd, key, state, project, same⟩ := h.drives x hx
    rw [key] at id taken untaken
    exact ⟨d, hd, id, mount.trans same, taken, fun other => by
      rw [← state, ← project]
      exact untaken other⟩
  files f hf other := h.files ▸ m.files f hf other
  others b hb other := m.others b (h.assignments ▸ hb) other
  taken := m.taken
  kept d hd := by
    obtain ⟨x, hx, same⟩ := h.kept d hd
    obtain ⟨d', hd', key⟩ := m.kept x hx
    exact ⟨d', hd', key.trans same⟩
  persist b hb := m.persist b (h.assignments ▸ hb)
  done f hf done := h.files ▸ m.done f hf done

end Probed

/-- The decision after a full target moves the job: the job copies, and the
selection finds a reserved drive for it. -/
def ContinuesOnReserved (s : Db) (jobId : Nat) (probe : Str → Option Nat) : Prop :=
  (∃ j ∈ s.jobs, j.id = jobId ∧ j.status ∈ copyingStatuses) ∧ canContinue s jobId probe = true

/-- The decision after a full target records free space, or moves the job. -/
theorem resolveTargetFullOutcome_cases {s : Db} {jobId now : Nat} {probe : Str → Option Nat}
    (inv : Consistent s) (copying : ∀ j ∈ s.jobs, j.id = jobId → j.status ∈ copyingStatuses) :
    Probed s (resolveTargetFullOutcome s jobId probe now).2 ∨
      ∃ job active next drive, ContinuesOnReserved s jobId probe ∧
        OverflowFound s jobId job active next drive ∧
        Moved s (resolveTargetFullOutcome s jobId probe now).2 job active drive .running
          drive.currentProjectId True := by
  have start : Probed s s := ⟨rfl, rfl, rfl, fun d hd => ⟨d, hd, rfl, rfl, rfl, rfl⟩,
    fun d hd => ⟨d, hd, rfl⟩⟩
  rcases resolveTargetFullOutcome_rule (P := fun t => Probed s t ∧ Consistent t)
    ⟨start, inv⟩ (fun t k v ht => ⟨ht.1.record k v, ht.2.modifyDrive _ _ _⟩) with
    h | ⟨job, active, next, drive, probed, found, current, ⟨hp, invp⟩, selected, h⟩
  · exact .inl h.2.1
  · obtain ⟨hnext, reserved⟩ := mem_select.mp selected.mem
    obtain ⟨mine, reserved⟩ := of_decide_eq_true reserved
    obtain ⟨x, hx, id, project, mount⟩ := selected.row
    obtain ⟨d, hd, key, -, sameProject, sameMount⟩ := hp.drives x hx
    have status := copying job (mem_of_get found) (id_of_get found)
    have continues : canContinue s jobId probe = true :=
      @canContinue_of_continued s jobId now probe (by rw [h])
    refine .inr ⟨job, active, next, drive, ⟨⟨job, mem_of_get found, id_of_get found, status⟩,
      continues⟩, ⟨found, status, current, hnext, mine, reserved,
      selected.driveId, selected.mounted, selected.project, d, hd, key.symm.trans id,
      sameProject.symm.trans project, sameMount.symm.trans mount⟩, ?_⟩
    rw [h]
    refine hp.moved (moved_continueOnReserved invp ⟨hp.jobs ▸ found, status, ?_,
      hp.assignments ▸ hnext, mine, reserved, selected.driveId, selected.mounted,
      selected.project, selected.row⟩)
    rw [Db.getActiveForJob, hp.assignments]
    exact current

/-- A property of the database after an action, by the kinds of rows an action
writes. -/
theorem step_moved {cfg : Settings} {s : Db} {a : Action} {P : Db → Prop} (inv : Consistent s)
    (jobs : ∀ t, JobWrites cfg a s t → P t)
    (drives : ∀ t, DriveWrites cfg a s t → P t)
    (create : ∀ body seeded s', a.event = .createJob body seeded →
      createJob cfg s body seeded a.now = .ok s' → P s')
    (update : ∀ jobId body, a.event = .updateJob jobId body →
      (∀ s', updateJob cfg s jobId body a.now = .ok s' → P s') ∧
        Leaves P (updateJob cfg s jobId body a.now))
    (delete : ∀ jobId s', a.event = .deleteJob jobId → deleteJob s jobId = .ok s' → P s')
    (continued : ∀ jobId driveId threadCount s' plan,
      a.event = .continueJobOverflow jobId driveId threadCount → Accepted cfg s a →
      OverflowChecked s jobId driveId plan →
      Moved s s' plan.job plan.active plan.drive .preparing (some plan.job.projectId)
        (s.otherActiveAssignmentsForDrive plan.active.driveId jobId = false) → P s')
    (overflowed : ∀ jobId probe job active next drive s', a.event = .resolveTargetFull jobId probe →
      ContinuesOnReserved s jobId probe → OverflowFound s jobId job active next drive →
      Moved s s' job active drive .running drive.currentProjectId True → P s') :
    P (step cfg s a) := by
  refine step_writes jobs drives create update delete
    (fun jobId driveId threadCount s' event h => ?_) fun jobId probe event copying => ?_
  · obtain ⟨plan, checked, m⟩ := moved_continueJobOverflow inv h
    refine continued jobId driveId threadCount s' plan event ⟨s', ?_⟩ checked m
    rw [event]
    exact h
  · rcases resolveTargetFullOutcome_cases inv copying with
      probed | ⟨job, active, next, drive, continues, found, m⟩
    · exact drives _ probed.driveWrites
    · exact overflowed jobId probe job active next drive _ event continues found m

end Ecube
