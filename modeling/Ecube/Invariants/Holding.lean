import Ecube.Invariants.Moved

/-!
Drives that executing jobs hold.

While a job is preparing, running, pausing or verifying, a drive on which it
has an unreleased assignment should not be `AVAILABLE`, the state in which a
format is accepted. Five operations set a drive available, with different
tests for other users: `prepare_eject` looks at every unreleased assignment of
a started job, the release of an unlisted reservation at every unreleased
assignment, an edit, a deletion and a requested continuation at activated ones
only, and the automatic continuation after a full target at none.

* `holding_frees_shared_drive`: an automatic continuation frees a drive that
  another job is copying to.
* `holding_of_checked`: a run in which no job leaves a drive that another
  executing job holds, and none begins to execute with an available drive,
  keeps all held drives taken.
-/

namespace Ecube

open Table Transition

/-- The statuses of a job that works on its drives. -/
def executingStatuses : List JobStatus := [.preparing, .running, .pausing, .verifying]

/-- No drive that the job holds is available. -/
def HoldsTaken (s : Db) (j : ExportJob) : Prop :=
  ∀ a ∈ s.assignments, a.jobId = j.id → a.releasedAt = none →
    ∀ d ∈ s.drives, d.id = a.driveId → d.currentState ≠ .available

instance (s : Db) (j : ExportJob) : Decidable (HoldsTaken s j) :=
  inferInstanceAs (Decidable (∀ a ∈ s.assignments, a.jobId = j.id → a.releasedAt = none →
    ∀ d ∈ s.drives, d.id = a.driveId → d.currentState ≠ .available))

/-- No drive that an executing job holds is available. -/
def Holding (s : Db) : Prop :=
  ∀ j ∈ s.jobs, j.status ∈ executingStatuses → HoldsTaken s j

instance (s : Db) : Decidable (Holding s) :=
  inferInstanceAs (Decidable (∀ j ∈ s.jobs, j.status ∈ executingStatuses → HoldsTaken s j))

/-- No executing job other than `k` holds the drive. -/
def Unshared (s : Db) (k driveId : Nat) : Prop :=
  ∀ j ∈ s.jobs, j.id ≠ k → j.status ∈ executingStatuses →
    ∀ b ∈ s.assignments, b.jobId = j.id → b.releasedAt = none → b.driveId ≠ driveId

instance (s : Db) (k driveId : Nat) : Decidable (Unshared s k driveId) :=
  inferInstanceAs (Decidable (∀ j ∈ s.jobs, j.id ≠ k → j.status ∈ executingStatuses →
    ∀ b ∈ s.assignments, b.jobId = j.id → b.releasedAt = none → b.driveId ≠ driveId))

/-- If job `k` leaves its drive and the code then frees it, the drive is unshared. -/
def LeavesUnshared (s : Db) (k : Nat) : Prop :=
  ∀ a, s.getActiveForJob k = some a → s.otherActiveAssignmentsForDrive a.driveId k = false →
    Unshared s k a.driveId

/-- The conditions the code does not check: a job that leaves a drive leaves one
that no other executing job holds, and a job that begins to execute holds no
available drive besides the one it leaves. -/
def FreeingChecked (cfg : Settings) (s : Db) (a : Action) : Prop :=
  match a.event with
  | .startJob k _ | .retryFailedFiles k | .verifyJob k =>
      Accepted cfg s a → ∀ j ∈ s.jobs, j.id = k → HoldsTaken s j
  | .continueJobOverflow k driveId _ =>
      Accepted cfg s a → LeavesUnshared s k ∧
        ∀ b ∈ s.assignments, b.jobId = k → b.reserved = true → b.driveId ≠ driveId →
          ∀ d ∈ s.drives, d.id = b.driveId → d.currentState ≠ .available
  | .updateJob k body =>
      (∃ plan, updatePlan cfg s k body = .ok plan ∧ plan.limited = false ∧
        ∀ a, plan.current = some a → a.driveId ≠ plan.drive.id) → LeavesUnshared s k
  | .deleteJob k => Accepted cfg s a → LeavesUnshared s k
  | .resolveTargetFull k probe =>
      ContinuesOnReserved s k probe → ∀ a, s.getActiveForJob k = some a → Unshared s k a.driveId
  | _ => True

/-! ### One job -/

/-- A job keeps its drives taken when the assignments it holds are old ones and
their drives do not become available. -/
theorem HoldsTaken.of_rows {s t : Db} {j j' : ExportJob} (h : HoldsTaken s j) (id : j'.id = j.id)
    (rows : ∀ b ∈ t.assignments, b.jobId = j.id → b.releasedAt = none → b ∈ s.assignments)
    (drives : ∀ a ∈ s.assignments, a ∈ t.assignments → a.jobId = j.id → a.releasedAt = none →
      ∀ d' ∈ t.drives, d'.id = a.driveId → ∃ d ∈ s.drives, d.id = d'.id ∧
        (d.currentState ≠ .available → d'.currentState ≠ .available)) : HoldsTaken t j' := by
  intro b hb job held d' hd' same
  have old := rows b hb (job.trans id) held
  obtain ⟨d, hd, key, keep⟩ := drives b old hb (job.trans id) held d' hd' same
  exact keep (h b old (job.trans id) held d hd (key.trans same))

/-- A job begins to execute by an accepted start, retry or verification only. -/
theorem Advance.executing {cfg : Settings} {s : Db} {a : Action} {k : Nat} {old new : JobStatus}
    (h : Advance cfg s a k old new) (executing : new ∈ executingStatuses) :
    old ∈ executingStatuses ∨ (Accepted cfg s a ∧ (a.event = .retryFailedFiles k ∨
      a.event = .verifyJob k ∨ ∃ n, a.event = .startJob k n)) := by
  have final : ∀ {status}, status ∈ [JobStatus.paused, .completed, .failed] →
      status ∉ executingStatuses := by decide
  have running : ∀ {status}, status ∈ [JobStatus.preparing, .running] →
      status ∈ executingStatuses := by decide
  cases h with
  | same => exact .inl executing
  | start event accepted _ => exact .inr ⟨accepted, .inr (.inr ⟨_, event⟩)⟩
  | retry event accepted => exact .inr ⟨accepted, .inl event⟩
  | run h => exact .inl (running h)
  | pause => exact .inl (by decide)
  | finish _ h => exact absurd executing (final h)
  | verify event accepted => exact .inr ⟨accepted, .inr (.inl event)⟩
  | verified h => exact absurd executing (final (List.mem_cons_of_mem _ h))
  | complete | archive => simp [executingStatuses] at executing

namespace Holding

variable {cfg : Settings} {s t : Db}

theorem jobWrites {a : Action} (hold : Holding s) (guard : FreeingChecked cfg s a)
    (w : JobWrites cfg a s t) : Holding t := by
  intro j' hj' executing
  obtain ⟨j, hj, write⟩ := w.jobs j' hj'
  have before : HoldsTaken s j := by
    rcases write.advance.executing executing with old | ⟨accepted, event | event | ⟨n, event⟩⟩
    · exact hold j hj old
    all_goals
      rw [FreeingChecked, event] at guard
      exact guard accepted j hj rfl
  refine before.of_rows write.id (fun b hb _ _ => w.assignments ▸ hb)
    fun b hb _ job held d hd same => ?_
  exact ⟨d, w.drives ▸ hd, rfl, fun h => h⟩

theorem driveWrites {a : Action} (hold : Holding s) (w : DriveWrites cfg a s t) : Holding t := by
  intro j hj executing
  have hj : j ∈ s.jobs := w.jobs ▸ hj
  refine (hold j hj executing).of_rows rfl (fun b hb _ _ => w.assignments ▸ hb)
    fun b hb _ job held d' hd' same => ?_
  obtain ⟨d, hd, key, write⟩ := w.drives d' hd'
  refine ⟨d, hd, key.symm, fun taken => ?_⟩
  cases write with
  | same state => rwa [state]
  | mounted unmounted state => rwa [state]
  | initialized projectId bindable state => simp [state]
  | formatted event formattable => exact absurd formattable.available taken
  | ejected event accepted free =>
      -- An eject is refused while an executing job holds the drive.
      have blocking : j.status ∈ prepareEjectBlockingJobStatuses := by
        revert executing
        generalize j.status = status
        revert status
        decide
      have open_ := blockingJob_eq_none_iff.mp free b hb (same.symm.trans key) held j hj job.symm
      exact absurd blocking open_

/-- Jobs keep their status, and what they hold is old or in use. -/
theorem of_frame (hold : Holding s)
    (jobs : ∀ j' ∈ t.jobs, ∃ j ∈ s.jobs, j'.id = j.id ∧ j'.status = j.status)
    (rows : ∀ j ∈ s.jobs, j.status ∈ executingStatuses → ∀ b ∈ t.assignments, b.jobId = j.id →
      b.releasedAt = none → b ∈ s.assignments)
    (drives : ∀ j ∈ s.jobs, j.status ∈ executingStatuses → ∀ a ∈ s.assignments,
      a ∈ t.assignments → a.jobId = j.id → a.releasedAt = none → ∀ d' ∈ t.drives,
      d'.id = a.driveId → ∃ d ∈ s.drives, d.id = d'.id ∧
        (d'.currentState = d.currentState ∨ d'.currentState = .inUse)) : Holding t := by
  intro j' hj' executing
  obtain ⟨j, hj, id, status⟩ := jobs j' hj'
  rw [status] at executing
  refine (hold j hj executing).of_rows id (rows j hj executing)
    fun a ha ha' job held d' hd' same => ?_
  obtain ⟨d, hd, key, state⟩ := drives j hj executing a ha ha' job held d' hd' same
  refine ⟨d, hd, key, fun taken => ?_⟩
  rcases state with state | state
  · rwa [state]
  · simp [state]

theorem setInUse (hold : Holding s) (driveId : Nat) : Holding (s.setDriveState driveId .inUse) := by
  refine hold.of_frame (fun j hj => ⟨j, hj, rfl, rfl⟩) (fun _ _ _ _ hb _ _ => hb)
    fun _ _ _ _ _ _ _ _ d' hd' _ => ?_
  rcases Db.mem_setDriveState.mp hd' with ⟨hd, -⟩ | ⟨d, hd, -, rfl⟩
  · exact ⟨d', hd, rfl, .inl rfl⟩
  · exact ⟨d, hd, rfl, .inr rfl⟩

/-- A drive that is reserved is in use. -/
theorem reserve (hold : Holding s) (driveId jobId now : Nat) :
    Holding ((s.addAssignment driveId jobId now none).setDriveState driveId .inUse) := by
  intro j hj executing b hb job held d' hd' same
  rcases Db.mem_addAssignment.mp hb with hb | rfl
  · exact hold.setInUse driveId j hj executing b hb job held d' hd' same
  · rcases Db.mem_setDriveState.mp hd' with ⟨-, other⟩ | ⟨d, -, -, rfl⟩
    · exact absurd same other
    · simp

theorem createJob (hold : Holding s) {body : JobBody} {seeded : Option Nat} {now : Nat}
    (h : createJob cfg s body seeded now = .ok t) : Holding t := by
  obtain ⟨s₁, jobId, drive, sourcePath, resolved, inserted, -, -, -, -, -, overflow⟩ := createJob_eq_ok h
  refine reserveOverflowDrives_rule (fun u d hu _ _ _ _ => hu.reserve d.id jobId now) ?_ overflow
  intro j hj executing
  -- The new job is pending; every other job is old and has other assignments.
  have old : j ∈ s.jobs ∧ j.id ≠ jobId := by
    rcases mem_created_jobs inserted hj with old | rfl
    · exact old
    · simp [newJob, executingStatuses] at executing
  obtain ⟨⟨jobs, rfl⟩, -, -⟩ := insertJob_eq_ok inserted
  refine (hold j old.1 executing).of_rows rfl (fun b hb job _ => ?_) fun b hb _ _ _ d' hd' _ => ?_
  · rcases Db.mem_addAssignment.mp hb with hb | rfl
    · exact hb
    · exact absurd job.symm old.2
  · rcases mem_assignPrimaryDrive_drives.mp hd' with ⟨hd, -⟩ | ⟨d, hd, -, rfl⟩
    · exact ⟨d', hd, rfl, fun h => h⟩
    · exact ⟨d, hd, rfl, fun _ => by simp⟩

/-- Moving the primary assignment and releasing reservations. -/
theorem keptAssignments (hold : Holding s) (inv : Consistent s) {jobId now : Nat} {body : JobBody}
    {plan : UpdatePlan} (checked : UpdateChecked s jobId body plan)
    (unshared : plan.limited = false → (∀ a, plan.current = some a → a.driveId ≠ plan.drive.id) →
      LeavesUnshared s jobId) : Holding (keptAssignments s plan jobId body now) := by
  have pending : ∀ j ∈ s.jobs, j.id = plan.job.id → plan.limited = false →
      j.status ∉ executingStatuses := by
    intro j hj same limited
    rw [eq_of_id_eq hj (mem_of_get checked.job) same, checked.pending limited]
    decide
  refine hold.of_frame (fun j hj => ⟨j, keptAssignments_jobs .. ▸ hj, rfl, rfl⟩)
    (fun j hj executing b hb job held => ?_)
    fun j hj executing b hb hb' job held d' hd' same => ?_
  · rcases held_of_keptAssignments hb held with ⟨old, -⟩ | ⟨limited, -, rfl⟩
    · exact old
    · exact absurd executing (pending j hj job.symm limited)
  · obtain ⟨d, hd, kept⟩ := drives_of_keptAssignments checked hd'
    refine ⟨d, hd, kept.id, .inl ?_⟩
    have drive : b.driveId = d.id := same.symm.trans kept.id.symm
    rcases kept.state with state | ⟨a, limited, current, left, moved, free⟩ |
      ⟨a, ha, mine, reserved, left, unlisted, others⟩
    · exact state
    · -- The left drive: another executing job must not hold it.
      have active := checked.current.symm.trans current
      have mine := (active_of_getActiveForJob active).2.1
      have other : j.id ≠ jobId := fun same => pending j hj
        (same.trans (show plan.job.id = jobId from id_of_get checked.job).symm) limited executing
      have leaves := unshared limited (fun a' current' => by
        rw [current, Option.some.injEq] at current'
        rw [← current', left]
        exact moved) a active (mine ▸ free)
      exact absurd (drive.trans left.symm) (leaves j hj other executing b hb job held)
    · -- A reservation that is released is the only assignment on its drive.
      have own := others b hb held drive
      have : b = a := inv.unique b hb a ha held (DriveAssignment.reserved_iff.mp reserved).2
        (own.trans mine.symm) (.inl (drive.trans left.symm))
      subst this
      rcases held_of_keptAssignments hb' held with ⟨-, listed, -⟩ | ⟨limited, -, new⟩
      · exact absurd (listed own reserved) unlisted
      · rw [new] at reserved
        cases reserved

theorem updateJob (hold : Holding s) (inv : Consistent s) {jobId now : Nat} {body : JobBody}
    (unshared : (∃ plan, updatePlan cfg s jobId body = .ok plan ∧ plan.limited = false ∧
      ∀ a, plan.current = some a → a.driveId ≠ plan.drive.id) → LeavesUnshared s jobId) :
    (∀ s', updateJob cfg s jobId body now = .ok s' → Holding s') ∧
      Leaves Holding (updateJob cfg s jobId body now) := by
  refine updateJob_rule (P := fun _ _ u => Holding u) hold (fun _ _ _ _ _ _ _ h _ _ _ => h)
    (fun _ _ _ _ h => h)
    (fun plan planned checked => ?_) (fun plan _ rest u d hu _ _ _ _ _ _ => hu.reserve d.id _ now)
    fun plan _ u hu => ?_
  · exact hold.keptAssignments inv checked fun limited moved =>
      unshared ⟨plan, planned, limited, moved⟩
  · have written : Holding ((u.setDriveState plan.drive.id .inUse).modifyJob jobId
        (updatedJob plan body) (updatedJob_id plan body)) := by
      refine (hu.setInUse plan.drive.id).of_frame (fun j' hj' => ?_) (fun _ _ _ _ hb _ _ => hb)
        fun _ _ _ _ _ _ _ _ d hd _ => ⟨d, hd, rfl, .inl rfl⟩
      rcases Db.mem_modifyJob.mp hj' with ⟨hj, -⟩ | ⟨j, hj, -, rfl⟩
      · exact ⟨j', hj, rfl, rfl⟩
      · exact ⟨j, hj, updatedJob_id .., updatedJob_status ..⟩
    rw [finishUpdate]
    split <;> exact written

theorem deleteJob (hold : Holding s) {jobId : Nat} (unshared : LeavesUnshared s jobId)
    (h : deleteJob s jobId = .ok t) : Holding t := by
  have rows := deleted_of_deleteJob h
  refine hold.of_frame (fun j hj => ⟨j, ((rows.jobs j).mp hj).1, rfl, rfl⟩)
    (fun _ _ _ b hb _ _ => ((rows.assignments b).mp hb).1)
    fun j hj executing b hb hb' job held d' hd' same => ?_
  rcases (rows.drives d').mp hd' with ⟨hd, -⟩ | ⟨d, hd, freed, rfl⟩
  · exact ⟨d', hd, rfl, .inl rfl⟩
  · -- The rows of the deleted job are gone.
    have other : b.jobId ≠ jobId := ((rows.assignments b).mp hb').2
    obtain ⟨a, active, left, alone⟩ := freedDrive_eq_some.mp freed
    have elsewhere := unshared a active (left ▸ alone) j hj (job ▸ other) executing b hb job held
    exact absurd (same.symm.trans left.symm) elsewhere

/-- A job that moves to another drive, from one that no other executing job
holds if it is freed. -/
theorem moved (hold : Holding s) {job : ExportJob} {active : DriveAssignment} {drive : UsbDrive}
    {status : JobStatus} {bound : Option ProjectId} {freed : Prop}
    (m : Moved s t job active drive status bound freed)
    (sole : ∀ b ∈ s.assignments, b.releasedAt = none → b.jobId = job.id →
      b.driveId = active.driveId → b.id = active.id)
    (unshared : freed → Unshared s job.id active.driveId)
    (taken : ∀ b ∈ s.assignments, b.jobId = job.id → b.reserved = true → b.driveId ≠ drive.id →
      ∀ d ∈ s.drives, d.id = b.driveId → d.currentState ≠ .available) : Holding t := by
  intro j' hj' executing b hb mine held d' hd' same
  obtain ⟨d, hd, key, -, new, old⟩ := m.drives d' hd'
  by_cases onNew : d.id = drive.id
  · simp [(new onNew).1]
  · rcases m.held b hb held with ⟨hb, ne, others⟩ | ⟨-, drive, -⟩
    · have drive : d.id = b.driveId := key.trans same
      rcases m.jobs j' hj' with ⟨hj, other⟩ | ⟨id, -⟩
      · -- Another job: its drive keeps its state, or was left and unshared.
        rcases (old onNew).2 with state | ⟨hfreed, left, -⟩
        · rw [state]
          exact hold j' hj executing b hb mine held d hd drive
        · exact absurd (drive.symm.trans left)
            (unshared hfreed j' hj other executing b hb mine held)
      · have own : b.jobId = job.id := mine.trans id
        obtain ⟨idle, away⟩ := others own
        have reserved : b.reserved = true := by
          rw [DriveAssignment.reserved_iff]
          refine ⟨?_, held⟩
          by_contra activated
          rw [DriveAssignment.active_iff.mpr ⟨activated, held⟩] at idle
          cases idle
        rcases (old onNew).2 with state | ⟨-, left, -⟩
        · rw [state]
          exact taken b hb own reserved away d hd drive
        · exact absurd (sole b hb held own (drive.symm.trans left)) ne
    · exact absurd (key.trans (same.trans drive)) onNew

/-- One action. -/
theorem step {a : Action} (hold : Holding s) (inv : Consistent s)
    (guard : FreeingChecked cfg s a) : Holding (step cfg s a) := by
  -- A job holds the drive of its active assignment by that assignment alone.
  have sole : ∀ {k : Nat} {active : DriveAssignment}, s.getActiveForJob k = some active →
      ∀ b ∈ s.assignments, b.releasedAt = none → b.jobId = k → b.driveId = active.driveId →
        b.id = active.id := by
    intro k active current b hb held own drive
    obtain ⟨mem, mine, hactive⟩ := active_of_getActiveForJob current
    rw [inv.unique b hb active mem held (DriveAssignment.active_iff.mp hactive).2
      (own.trans mine.symm) (.inl drive)]
  refine step_moved inv (fun t w => hold.jobWrites guard w) (fun t w => hold.driveWrites w)
    (fun body seeded s' _ h => hold.createJob h) (fun jobId body event => ?_)
    (fun jobId s' event h => ?_)
    (fun jobId driveId threadCount s' plan event accepted checked m => ?_)
    fun jobId probe job active next drive s' event continues found m => ?_
  · rw [FreeingChecked, event] at guard
    exact hold.updateJob inv guard
  · have accepted : Accepted cfg s a := ⟨s', by rw [event]; exact h⟩
    rw [FreeingChecked, event] at guard
    exact hold.deleteJob (guard accepted) h
  · rw [FreeingChecked, event] at guard
    obtain ⟨unshared, taken⟩ := guard accepted
    have hjob : plan.job.id = jobId := id_of_get checked.job
    have hdrive : plan.drive.id = driveId := id_of_get checked.drive
    subst hjob hdrive
    exact hold.moved m (sole checked.active) (unshared plan.active checked.active) taken
  · rw [FreeingChecked, event] at guard
    have hjob : job.id = jobId := id_of_get found.jobRow
    subst hjob
    refine hold.moved m (sole found.activeRow)
      (fun _ => guard continues active found.activeRow)
      fun b hb own reserved _ d hd same => ?_
    -- The job was executing before.
    have executing : job.status ∈ executingStatuses := by
      have := found.status
      revert this
      generalize job.status = status
      revert status
      decide
    exact hold job (mem_of_get found.jobRow) executing b hb own
      (DriveAssignment.reserved_iff.mp reserved).2 d hd same

end Holding

/-- In a run that keeps to the unchecked conditions, no drive that an executing
job holds is available, in any state. -/
theorem holding_of_checked {cfg : Settings} {s : Db} {actions : List Action} (initial : Initial s)
    (checked : Along (step cfg) (FreeingChecked cfg) s actions) :
    Always (step cfg) Holding s actions := by
  have keep : ∀ s a, Holding s ∧ Consistent s → FreeingChecked cfg s a →
      Holding (step cfg s a) ∧ Consistent (step cfg s a) :=
    fun s a h guard => ⟨h.1.step h.2 guard, h.2.step cfg a⟩
  have start : Holding s ∧ Consistent s :=
    ⟨fun j hj => absurd hj (initial.noJobs j), initial.consistent⟩
  exact (always_of_along keep start checked).mono fun _ h => h.1

/-- A job with one file runs into a full target and continues on its overflow
drive; nobody else uses the drive it leaves. -/
def overflowRun : List Action :=
  [⟨1, .createJob (Lab.body "/data/a" (some 1) (some 2)) none⟩,
    ⟨2, .startJob 1 none⟩,
    ⟨3, .enterRunning 1⟩,
    ⟨4, .listFile 1 "f".toList 10⟩,
    ⟨5, .recordFile 1 1 .error (some targetFullMessage)⟩,
    ⟨6, .resolveTargetFull 1 fun _ => some 100⟩]

theorem holding_overflowRun :
    Along (step Lab.settings) (FreeingChecked Lab.settings) Lab.start overflowRun ∧
      Always (step Lab.settings) Holding Lab.start overflowRun := by
  have taken : ∀ j ∈ (exec (step Lab.settings) Lab.start (overflowRun.take 1)).jobs, j.id = 1 →
      HoldsTaken (exec (step Lab.settings) Lab.start (overflowRun.take 1)) j := by
    decide
  have unshared : ∀ k, Unshared (exec (step Lab.settings) Lab.start (overflowRun.take 5)) 1 k := by
    intro k j hj other
    have only : ∀ j ∈ (exec (step Lab.settings) Lab.start (overflowRun.take 5)).jobs, j.id = 1 := by
      decide
    exact absurd (only j hj) other
  have checked : Along (step Lab.settings) (FreeingChecked Lab.settings) Lab.start overflowRun :=
    ⟨trivial, fun _ => taken, trivial, trivial, trivial, fun _ _ _ => unshared _, trivial⟩
  exact ⟨checked, holding_of_checked Lab.start_initial checked⟩

/-- Two jobs copy to drive 1; the first runs into the full target and continues
on its overflow drive. -/
def sharedDriveRun : List Action :=
  [⟨1, .createJob (Lab.body "/data/a" (some 1) (some 2)) none⟩,
    ⟨2, .createJob (Lab.body "/data/b" (some 1) none) none⟩,
    ⟨3, .startJob 1 none⟩,
    ⟨4, .startJob 2 none⟩,
    ⟨5, .enterRunning 1⟩,
    ⟨6, .enterRunning 2⟩,
    ⟨7, .listFile 1 "f".toList 10⟩,
    ⟨8, .recordFile 1 1 .error (some targetFullMessage)⟩,
    ⟨9, .resolveTargetFull 1 fun _ => some 100⟩]

/-- The drive the second job is running on is available afterwards. -/
theorem holding_frees_shared_drive :
    Initial Lab.start ∧
      Along (step Lab.settings) (Accepted Lab.settings) Lab.start sharedDriveRun ∧
      ¬ Holding (exec (step Lab.settings) Lab.start sharedDriveRun) := by
  refine ⟨Lab.start_initial, ?_, ?_⟩
  · decide
  · decide

end Ecube
