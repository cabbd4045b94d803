import Ecube.Invariants.Moved

/-!
The destination of a job that is about to copy.

The target path of a job is a copy of its drive's mount path, taken when the
drive was assigned. Afterwards the drive changes on its own: an eject clears
its mount path and frees it whenever no assigned job has started, discovery and
reconciliation write what they find, and another job's automatic continuation
frees a shared drive. `start_job` and `retry_failed_files` do not compare the
two again.

* `prepared_after_eject`: an accepted start of a job whose drive was ejected.
* `prepared_of_kept`: in a run that leaves the destinations of open jobs alone,
  every accepted start, retry and continuation finds the active drive of the
  job in use and mounted at its target path.
-/

namespace Ecube

open Table Transition

/-- The job has an active assignment, and the drive of it is in use and mounted
at the target path of the job. -/
def OnDestination (s : Db) (j : ExportJob) : Prop :=
  (∃ a ∈ s.assignments, a.jobId = j.id ∧ a.active = true) ∧
    ∀ a ∈ s.assignments, a.jobId = j.id → a.active = true →
      ∃ d ∈ s.drives, d.id = a.driveId ∧ d.currentState = .inUse ∧
        truthy d.mountPath ≠ none ∧ j.targetMountPath = d.mountPath

instance (s : Db) (j : ExportJob) : Decidable (OnDestination s j) :=
  inferInstanceAs (Decidable ((∃ a ∈ s.assignments, a.jobId = j.id ∧ a.active = true) ∧
    ∀ a ∈ s.assignments, a.jobId = j.id → a.active = true →
      ∃ d ∈ s.drives, d.id = a.driveId ∧ d.currentState = .inUse ∧
        truthy d.mountPath ≠ none ∧ j.targetMountPath = d.mountPath))

/-- Every job that can still be started, retried or continued is on its destination. -/
def Ready (s : Db) : Prop :=
  ∀ j ∈ s.jobs, ¬ Closed s j → OnDestination s j

/-! ### The system -/

/-- Everything that writes jobs and drives. Discovery and reconciliation write
the state, the binding and the mount path of a drive, and discovery adds
drives; what they find is up to the environment. -/
inductive SystemAction where
  | workflow (a : Action)
  | observeDrive (driveId : Nat) (state : DriveState) (projectId : Option ProjectId)
      (mountPath : Option Str)
  | addDrive (row : Nat → UsbDrive) (key : ∀ k, (row k).id = k)

def systemStep (cfg : Settings) (s : Db) : SystemAction → Db
  | .workflow a => step cfg s a
  | .observeDrive driveId state projectId mountPath =>
      s.modifyDrive driveId (fun d => { d with
        currentState := state, currentProjectId := projectId, mountPath := mountPath }) fun _ => rfl
  | .addDrive row key => { s with drives := s.drives.insert row key }

/-- The job that a request moves to `PREPARING` when it is accepted. -/
def prepares : Event → Option Nat
  | .startJob k _ | .retryFailedFiles k | .continueJobOverflow k _ _ => some k
  | _ => none

/-- An accepted request to copy leaves the job on its destination. -/
def PreparesOnDestination (cfg : Settings) (s : Db) : SystemAction → Prop
  | .workflow a => Accepted cfg s a → ∀ k ∈ prepares a.event,
      ∀ j ∈ (step cfg s a).jobs, j.id = k → OnDestination (step cfg s a) j
  | _ => True

/-- No job that can still copy, other than `k`, has its active assignment on the drive. -/
def NoneOpenOn (s : Db) (k : Option Nat) (driveId : Nat) : Prop :=
  ∀ j ∈ s.jobs, some j.id ≠ k → ¬ Closed s j →
    ∀ a ∈ s.assignments, a.jobId = j.id → a.active = true → a.driveId ≠ driveId

instance (s : Db) (k : Option Nat) (driveId : Nat) : Decidable (NoneOpenOn s k driveId) :=
  inferInstanceAs (Decidable (∀ j ∈ s.jobs, some j.id ≠ k → ¬ Closed s j →
    ∀ a ∈ s.assignments, a.jobId = j.id → a.active = true → a.driveId ≠ driveId))

/-- The conditions the code does not check: an eject does not take the drive of
a job that can still copy, a verification starts on the destination, an edit
that moves a job lists no overflow drive of another project (that refusal
commits the moved assignment without the new target path), an automatic
continuation leaves a drive no other such job is on, and discovery and
reconciliation find the drives of such jobs in use where they were. -/
def DestinationKept (cfg : Settings) (s : Db) : SystemAction → Prop
  | .workflow a =>
      match a.event with
      | .prepareEject driveId _ _ => Accepted cfg s a → NoneOpenOn s none driveId
      | .verifyJob k => Accepted cfg s a → ∀ j ∈ s.jobs, j.id = k → OnDestination s j
      | .updateJob k body =>
          ∀ plan, updatePlan cfg s k body = .ok plan → plan.limited = false →
            (∀ c, plan.current = some c → c.driveId ≠ plan.drive.id) →
            ∀ d ∈ s.drives, d.id ∈ body.overflowDriveIds →
              d.currentProjectId = none ∨ d.currentProjectId = some plan.job.projectId
      | .resolveTargetFull k probe =>
          ContinuesOnReserved s k probe → ∀ c, s.getActiveForJob k = some c →
            NoneOpenOn s k c.driveId
      | _ => True
  | .observeDrive driveId state _ mountPath =>
      ∀ d ∈ s.drives, d.id = driveId → NoneOpenOn s none driveId ∨
        (state = .inUse ∧ mountPath = d.mountPath)
  | .addDrive _ _ => True

/-! ### One job -/

/-- A job stays on its destination when its active assignments are the same and
their drives stay in use where they are mounted. -/
theorem OnDestination.of_rows {s t : Db} {j j' : ExportJob} (h : OnDestination s j)
    (id : j'.id = j.id) (target : j'.targetMountPath = j.targetMountPath)
    (rows : ∀ b, b.jobId = j.id → b.active = true → (b ∈ t.assignments ↔ b ∈ s.assignments))
    (drives : ∀ a ∈ s.assignments, a.jobId = j.id → a.active = true →
      ∀ d ∈ s.drives, d.id = a.driveId → d.currentState = .inUse → truthy d.mountPath ≠ none →
        ∃ d' ∈ t.drives, d'.id = d.id ∧ d'.currentState = .inUse ∧ d'.mountPath = d.mountPath) :
    OnDestination t j' := by
  obtain ⟨⟨a, ha, mine, active⟩, dest⟩ := h
  refine ⟨⟨a, (rows a mine active).mpr ha, mine.trans id.symm, active⟩, fun b hb mine active => ?_⟩
  have mine := mine.trans id
  have old := (rows b mine active).mp hb
  obtain ⟨d, hd, same, state, mounted, path⟩ := dest b old mine active
  obtain ⟨d', hd', key, state', mount⟩ := drives b old mine active d hd same state mounted
  refine ⟨d', hd', key.trans same, state', ?_, ?_⟩
  · rwa [mount]
  · rw [target, path, mount]

/-- A job with its active assignments on one drive, which is mounted at its target path. -/
theorem OnDestination.of_drive {t : Db} {j : ExportJob} {k : Nat}
    (assigned : ∃ a ∈ t.assignments, a.jobId = j.id ∧ a.active = true)
    (sole : ∀ a ∈ t.assignments, a.jobId = j.id → a.active = true → a.driveId = k)
    (drive : ∃ d ∈ t.drives, d.id = k ∧ d.currentState = .inUse ∧ truthy d.mountPath ≠ none ∧
      j.targetMountPath = d.mountPath) : OnDestination t j := by
  refine ⟨assigned, fun a ha mine active => ?_⟩
  obtain ⟨d, hd, same, rest⟩ := drive
  exact ⟨d, hd, same.trans (sole a ha mine active).symm, rest⟩

/-- Setting a drive in use, as it affects the drives of other jobs. -/
theorem exists_setInUse {s : Db} {k : Nat} {d : UsbDrive} (hd : d ∈ s.drives)
    (state : d.currentState = .inUse) :
    ∃ d' ∈ (s.setDriveState k .inUse).drives, d'.id = d.id ∧ d'.currentState = .inUse ∧
      d'.mountPath = d.mountPath := by
  by_cases same : d.id = k
  · exact ⟨_, Db.mem_setDriveState.mpr (.inr ⟨d, hd, same, rfl⟩), rfl, rfl, rfl⟩
  · exact ⟨d, Db.mem_setDriveState.mpr (.inl ⟨hd, same⟩), rfl, state, rfl⟩

/-- A reservation leaves a job on its destination. -/
theorem OnDestination.reserve {s : Db} {j : ExportJob} (h : OnDestination s j)
    (driveId jobId now : Nat) :
    OnDestination ((s.addAssignment driveId jobId now none).setDriveState driveId .inUse) j := by
  refine h.of_rows rfl rfl (fun b _ active => ⟨fun hb => ?_, fun hb => ?_⟩)
    fun _ _ _ _ d hd _ state _ => exists_setInUse (s := s.addAssignment driveId jobId now none) hd state
  · rcases Db.mem_addAssignment.mp hb with hb | rfl
    · exact hb
    · cases active
  · exact Db.mem_addAssignment.mpr (.inl hb)

namespace Ready

variable {cfg : Settings} {s t : Db}

theorem jobWrites {a : Action} (ready : Ready s) (guard : DestinationKept cfg s (.workflow a))
    (w : JobWrites cfg a s t) : Ready t := by
  intro j' hj' opened
  obtain ⟨j, hj, write⟩ := w.jobs j' hj'
  have before : OnDestination s j := by
    by_cases closed : Closed s j
    · rcases write.closed closed with closed | ⟨event, accepted⟩
      · exact absurd closed opened
      · simp only [DestinationKept, event] at guard
        exact guard accepted j hj rfl
    · exact ready j hj closed
  refine before.of_rows write.id write.targetMountPath (fun b _ _ => by rw [w.assignments])
    fun _ _ _ _ d hd _ state _ => ?_
  exact ⟨d, w.drives ▸ hd, rfl, state, rfl⟩

theorem driveWrites {a : Action} (ready : Ready s) (guard : DestinationKept cfg s (.workflow a))
    (w : DriveWrites cfg a s t) : Ready t := by
  intro j hj opened
  have hj : j ∈ s.jobs := w.jobs ▸ hj
  have opened : ¬ Closed s j := fun closed =>
    opened (closed.mono rfl rfl fun f hf _ => w.files ▸ hf)
  refine (ready j hj opened).of_rows rfl rfl (fun b _ _ => by rw [w.assignments])
    fun b hb mine active d hd same state mounted => ?_
  obtain ⟨d', hd', key⟩ := w.kept d hd
  obtain ⟨d₀, hd₀, key₀, write⟩ := w.drives d' hd'
  obtain rfl : d₀ = d := eq_of_id_eq hd₀ hd (key₀.symm.trans key)
  refine ⟨d', hd', key, ?_⟩
  cases write with
  | same state' _ mount => exact ⟨state'.trans state, mount⟩
  | initialized _ _ state' _ mount => exact ⟨state', mount⟩
  | mounted unmounted => exact absurd unmounted mounted
  | formatted _ formattable => cases formattable.available.symm.trans state
  | ejected event accepted =>
      simp only [DestinationKept, event] at guard
      exact absurd same.symm (guard accepted j hj (by simp) opened b hb mine active)

theorem createJob (ready : Ready s) (inv : Consistent s) {body : JobBody} {seeded : Option Nat}
    {now : Nat} (h : createJob cfg s body seeded now = .ok t) : Ready t := by
  obtain ⟨s₁, jobId, drive, sourcePath, resolved, inserted, -, hdrive, mounted, -, -, overflow⟩ :=
    createJob_eq_ok h
  obtain ⟨⟨jobs, rfl⟩, mem, fresh⟩ := insertJob_eq_ok inserted
  have unused : ∀ a ∈ s.assignments, a.jobId ≠ jobId := by
    intro a ha same
    obtain ⟨j, hj, hid⟩ := inv.job a ha
    exact fresh j hj (hid.trans same)
  refine reserveOverflowDrives_rule (P := Ready) (fun u d hu _ _ _ _ j hj opened => ?_) ?_ overflow
  · exact (hu j hj opened).reserve d.id jobId now
  intro j hj opened
  rcases Db.mem_modifyJob.mp hj with ⟨hj, other⟩ | ⟨r, hr, same, rfl⟩
  · -- Another job; its drive may be the one that is taken into use.
    have old : j ∈ s.jobs := by
      rcases (mem j).mp hj with hj | rfl
      · exact hj
      · exact absurd rfl other
    refine (ready j old opened).of_rows rfl rfl (fun b mine _ => ⟨fun hb => ?_, fun hb => ?_⟩)
      fun _ _ _ _ d hd _ state _ => ?_
    · rcases Db.mem_addAssignment.mp hb with hb | rfl
      · exact hb
      · exact absurd mine.symm other
    · exact Db.mem_addAssignment.mpr (.inl hb)
    · by_cases taken : d.id = drive.id
      · exact ⟨_, mem_assignPrimaryDrive_drives.mpr (.inr ⟨d, hd, taken, rfl⟩), rfl, rfl, rfl⟩
      · exact ⟨d, mem_assignPrimaryDrive_drives.mpr (.inl ⟨hd, taken⟩), rfl, state, rfl⟩
  · -- The new job is on the drive it was given.
    refine .of_drive (k := drive.id) ⟨_, Db.mem_addAssignment.mpr (.inr rfl), same.symm, rfl⟩
      (fun a ha mine _ => ?_) ?_
    · rcases Db.mem_addAssignment.mp ha with ha | rfl
      · exact absurd (mine.trans same) (unused a ha)
      · rfl
    · exact ⟨_, mem_assignPrimaryDrive_drives.mpr (.inr ⟨drive, hdrive, rfl, rfl⟩), rfl, rfl,
        mounted, rfl⟩

theorem deleteJob (ready : Ready s) {jobId : Nat} (h : deleteJob s jobId = .ok t) : Ready t := by
  have rows := deleted_of_deleteJob h
  intro j hj opened
  obtain ⟨hj, other⟩ := (rows.jobs j).mp hj
  have opened : ¬ Closed s j := fun closed =>
    opened (closed.mono rfl rfl fun f hf _ => ((rows.files f).mp hf).1)
  refine (ready j hj opened).of_rows rfl rfl (fun b mine _ => ⟨fun hb => ?_, fun hb => ?_⟩)
    fun b hb mine active d hd same state _ => ?_
  · exact ((rows.assignments b).mp hb).1
  · exact (rows.assignments b).mpr ⟨hb, mine ▸ other⟩
  · -- A drive with an activated assignment of another job is not freed.
    refine ⟨d, (rows.drives d).mpr (.inl ⟨hd, fun freed => ?_⟩), rfl, state, rfl⟩
    obtain ⟨-, -, -, alone⟩ := freedDrive_eq_some.mp freed
    have := any_eq_false_iff.mp alone b hb
    simp [same.symm, active, mine, other] at this

/-- A job that moves to a mounted drive, from one on which no other open job is
if it is freed. -/
theorem moved (ready : Ready s) {job : ExportJob} {active : DriveAssignment} {drive : UsbDrive}
    {status : JobStatus} {bound : Option ProjectId} {freed : Prop}
    (m : Moved s t job active drive status bound freed)
    (row : ∃ d ∈ s.drives, d.id = drive.id ∧ d.mountPath = drive.mountPath)
    (mounted : truthy drive.mountPath ≠ none)
    (alone : freed → NoneOpenOn s (some job.id) active.driveId) : Ready t := by
  intro j' hj' opened
  rcases m.jobs j' hj' with ⟨old, other⟩ | ⟨id, -, -, target⟩
  · have opened : ¬ Closed s j' := fun closed =>
      opened (closed.mono rfl rfl fun f hf mine => m.files f hf (mine ▸ other))
    refine (ready j' old opened).of_rows rfl rfl (fun b mine active => ⟨fun hb => ?_, fun hb => ?_⟩)
      fun b hb mine hactive d hd same state _ => ?_
    · rcases m.held b hb (DriveAssignment.active_iff.mp active).2 with ⟨hb, -⟩ | ⟨theirs, -⟩
      · exact hb
      · exact absurd (mine.symm.trans theirs) other
    · exact m.others b hb (mine ▸ other)
    · obtain ⟨d', hd', key⟩ := m.kept d hd
      obtain ⟨d₀, hd₀, key₀, mount, new, untouched⟩ := m.drives d' hd'
      obtain rfl : d₀ = d := eq_of_id_eq hd₀ hd (key₀.trans key)
      refine ⟨d', hd', key, ?_, mount⟩
      by_cases onNew : d₀.id = drive.id
      · exact (new onNew).1
      · rcases (untouched onNew).2 with same' | ⟨hfreed, left, -⟩
        · exact same'.trans state
        · exact absurd (same.symm.trans left)
            (alone hfreed j' old (by simpa using other) opened b hb mine hactive)
  · -- The job itself is on the drive it moved to.
    obtain ⟨b, hb, mine, -, hactive⟩ := m.taken
    refine .of_drive (k := drive.id) ⟨b, hb, mine.trans id.symm, hactive⟩
      (fun a ha own active => ?_) ?_
    · rcases m.held a ha (DriveAssignment.active_iff.mp active).2 with ⟨-, -, idle⟩ | ⟨-, same, -⟩
      · rw [(idle (own.trans id)).1] at active
        cases active
      · exact same
    · obtain ⟨d, hd, same, mount⟩ := row
      obtain ⟨d', hd', key⟩ := m.kept d hd
      obtain ⟨d₀, hd₀, key₀, mount₀, new, -⟩ := m.drives d' hd'
      obtain rfl : d₀ = d := eq_of_id_eq hd₀ hd (key₀.trans key)
      refine ⟨d', hd', key.trans same, (new same).1, ?_, ?_⟩
      · rwa [mount₀, mount]
      · rw [target, mount₀, mount]

end Ready

/-! ### Editing a job -/

section Kept

variable {s : Db} {plan : UpdatePlan} {jobId now : Nat} {body : JobBody}

/-- The job has an active assignment after the edit. -/
theorem assigned_of_keptAssignments (checked : UpdateChecked s jobId body plan) :
    ∃ a ∈ (keptAssignments s plan jobId body now).assignments,
      a.jobId = jobId ∧ a.active = true := by
  by_cases moves : plan.Moves
  · exact ⟨_, new_mem_keptAssignments moves, id_of_get checked.job, rfl⟩
  · obtain ⟨c, current, same⟩ := not_moves checked moves
    obtain ⟨-, mine, active⟩ := active_of_getActiveForJob (checked.current.symm.trans current)
    exact ⟨c, current_mem_keptAssignments checked current same, mine, active⟩

/-- And it is on the requested drive. -/
theorem sole_of_keptAssignments (inv : Consistent s) (checked : UpdateChecked s jobId body plan)
    {a : DriveAssignment} (ha : a ∈ (keptAssignments s plan jobId body now).assignments)
    (mine : a.jobId = jobId) (active : a.active = true) : a.driveId = plan.drive.id := by
  rcases held_of_keptAssignments ha (DriveAssignment.active_iff.mp active).2 with
    ⟨old, -, kept⟩ | ⟨-, -, rfl⟩
  · cases current : s.getActiveForJob jobId with
    | none =>
        have := first_eq_none_iff.mp current a old
        simp [mine, active] at this
    | some c =>
        obtain rfl := inv.eq_of_active current old mine active
        have current := checked.current.trans current
        rcases kept with limited | kept
        · have := checked.unmoved limited
          rw [current] at this
          exact Option.some.inj this
        · exact kept a current rfl
  · rfl

/-- The destination of an open job that the edit does not move. -/
theorem OnDestination.kept {j : ExportJob} (h : OnDestination s j) (inv : Consistent s)
    (checked : UpdateChecked s jobId body plan) (unmoved : j.id = jobId → ¬ plan.Moves) :
    OnDestination (keptAssignments s plan jobId body now) j := by
  have hjob : plan.job.id = jobId := id_of_get checked.job
  refine h.of_rows rfl rfl (fun b mine active => ⟨fun hb => ?_, fun hb => ?_⟩)
    fun b hb mine active d hd same state _ => ?_
  · rcases held_of_keptAssignments hb (DriveAssignment.active_iff.mp active).2 with
      ⟨old, -⟩ | ⟨limited, moved, rfl⟩
    · exact old
    · exact absurd ⟨limited, moved⟩ (unmoved (mine.symm.trans hjob))
  · by_cases own : j.id = jobId
    · obtain ⟨c, current, drive⟩ := not_moves checked (unmoved own)
      rw [inv.eq_of_active (checked.current.symm.trans current) hb (mine.trans own) active]
      exact current_mem_keptAssignments checked current drive
    · exact mem_keptAssignments_of_ne checked hb (mine ▸ own)
  · have row : ∃ d' ∈ (keptAssignments s plan jobId body now).drives, d'.id = d.id :=
      exists_drive_keptAssignments ⟨d, hd, rfl⟩
    obtain ⟨d', hd', key⟩ := row
    obtain ⟨d₀, hd₀, kept⟩ := drives_of_keptAssignments checked hd'
    obtain rfl : d₀ = d := eq_of_id_eq hd₀ hd (kept.id.trans key)
    refine ⟨d', hd', key, ?_, kept.mount⟩
    rcases kept.state with state' | ⟨c, limited, current, left, moved, free⟩ |
      ⟨c, hc, owner, reserved, left, -, others⟩
    · exact state'.trans state
    · -- The left drive is freed only if no other job is active on it.
      have active' := checked.current.symm.trans current
      obtain ⟨-, owner, -⟩ := active_of_getActiveForJob active'
      have moves : plan.Moves := ⟨limited, fun c' current' => by
        rw [current, Option.some.injEq] at current'
        rw [← current', left]
        exact moved⟩
      have other : j.id ≠ jobId := fun own => unmoved own moves
      have := any_eq_false_iff.mp free b hb
      simp [same.symm.trans left.symm, active, mine, owner, other] at this
    · -- A job does not hold the drive of its reservation by another assignment.
      have held := (DriveAssignment.active_iff.mp active).2
      have own := others b hb held same.symm
      rw [← inv.unique b hb c hc held (DriveAssignment.reserved_iff.mp reserved).2
        (own.trans owner.symm) (.inl (same.symm.trans left.symm)),
        DriveAssignment.reserved_iff] at reserved
      exact absurd reserved.1 (DriveAssignment.active_iff.mp active).1

end Kept

/-- An edit on its way: the assignments are those it will have, while the target
path of the job is still the old one. -/
structure Updating (s : Db) (jobId : Nat) (body : JobBody) (plan : UpdatePlan) (rest : List Nat)
    (t : Db) : Prop where
  jobs : t.jobs = s.jobs
  files : t.files = s.files
  listed : rest ⊆ body.overflowDriveIds
  bindings : ∀ d' ∈ t.drives, ∃ d ∈ s.drives, d.id = d'.id ∧
    d'.currentProjectId = d.currentProjectId
  others : ∀ j ∈ s.jobs, (j.id = jobId → ¬ plan.Moves) → ¬ Closed s j → OnDestination t j
  assigned : ∃ a ∈ t.assignments, a.jobId = jobId ∧ a.active = true
  sole : ∀ a ∈ t.assignments, a.jobId = jobId → a.active = true → a.driveId = plan.drive.id
  drive : ∃ d ∈ t.drives, d.id = plan.drive.id ∧ d.mountPath = plan.drive.mountPath

namespace Updating

variable {s t : Db} {jobId now : Nat} {body : JobBody} {plan : UpdatePlan}

theorem kept (ready : Ready s) (inv : Consistent s) (checked : UpdateChecked s jobId body plan) :
    Updating s jobId body plan body.overflowDriveIds (keptAssignments s plan jobId body now) := by
  have row : ∃ d' ∈ (keptAssignments s plan jobId body now).drives, d'.id = plan.drive.id :=
    exists_drive_keptAssignments ⟨plan.drive, checked.drive, rfl⟩
  refine ⟨(keptAssignments_frame ..).1, (keptAssignments_frame ..).2, fun _ h => h,
    fun d' hd' => ?_, fun j hj unmoved opened => (ready j hj opened).kept inv checked unmoved,
    assigned_of_keptAssignments checked, fun a => sole_of_keptAssignments inv checked, ?_⟩
  · obtain ⟨d, hd, kept⟩ := drives_of_keptAssignments checked hd'
    exact ⟨d, hd, kept.id, kept.project⟩
  · obtain ⟨d', hd', key⟩ := row
    obtain ⟨d, hd, kept⟩ := drives_of_keptAssignments checked hd'
    obtain rfl : d = plan.drive := eq_of_id_eq hd checked.drive (kept.id.trans key)
    exact ⟨d', hd', key, kept.mount⟩

theorem reserve {rest : List Nat} {driveId : Nat}
    (h : Updating s jobId body plan (driveId :: rest) t) (owner : Nat) :
    Updating s jobId body plan rest
      ((t.addAssignment driveId owner now none).setDriveState driveId .inUse) := by
  refine ⟨h.jobs, h.files, fun x hx => h.listed (List.mem_cons_of_mem _ hx), fun d' hd' => ?_,
    fun j hj unmoved opened => (h.others j hj unmoved opened).reserve _ _ _, ?_,
    fun a ha mine active => ?_, ?_⟩
  · rcases Db.mem_setDriveState.mp hd' with ⟨hd, -⟩ | ⟨d, hd, -, rfl⟩
    · exact h.bindings d' hd
    · exact h.bindings d hd
  · obtain ⟨a, ha, rest⟩ := h.assigned
    exact ⟨a, Db.mem_addAssignment.mpr (.inl ha), rest⟩
  · rcases Db.mem_addAssignment.mp ha with ha | rfl
    · exact h.sole a ha mine active
    · cases active
  · obtain ⟨d, hd, same, mount⟩ := h.drive
    by_cases taken : d.id = driveId
    · exact ⟨_, Db.mem_setDriveState.mpr (.inr ⟨d, hd, taken, rfl⟩), same, mount⟩
    · exact ⟨d, Db.mem_setDriveState.mpr (.inl ⟨hd, taken⟩), same, mount⟩

/-- What a refused edit commits, when it does not move the job. -/
theorem ready {rest : List Nat} (h : Updating s jobId body plan rest t) (unmoved : ¬ plan.Moves) :
    Ready t := by
  intro j hj opened
  refine h.others j (h.jobs ▸ hj) (fun _ => unmoved) fun closed => opened ?_
  exact closed.mono rfl rfl fun f hf _ => h.files ▸ hf

/-- The last writes put the job on the requested drive. -/
theorem finish (h : Updating s jobId body plan [] t) (checked : UpdateChecked s jobId body plan) :
    Ready (finishUpdate t plan jobId body) := by
  have hjob : plan.job.id = jobId := id_of_get checked.job
  let written := (t.setDriveState plan.drive.id .inUse).modifyJob jobId (updatedJob plan body)
    (updatedJob_id plan body)
  -- Every row of the new state, whatever happens to the files.
  have rows : ∀ j' ∈ written.jobs, ∃ j ∈ s.jobs, j'.id = j.id ∧ j'.status = j.status ∧
      (¬ Closed s j → OnDestination written j') := by
    intro j' hj'
    have inUse : ∀ j ∈ s.jobs, (j.id = jobId → ¬ plan.Moves) → ¬ Closed s j →
        OnDestination written j := by
      intro j hj unmoved opened
      refine (h.others j hj unmoved opened).of_rows rfl rfl (fun _ _ _ => Iff.rfl)
        fun _ _ _ _ d hd _ state _ => exists_setInUse hd state
    rcases Db.mem_modifyJob.mp hj' with ⟨hj, other⟩ | ⟨j, hj, same, rfl⟩
    · have hj : j' ∈ s.jobs := h.jobs ▸ hj
      exact ⟨j', hj, rfl, rfl, inUse j' hj fun own => absurd own other⟩
    · have hj : j ∈ s.jobs := h.jobs ▸ hj
      refine ⟨j, hj, updatedJob_id .., updatedJob_status .., fun opened => ?_⟩
      cases limited : plan.limited with
      | true =>
          -- A started job keeps its target path.
          have := inUse j hj (fun _ moves => by simp [moves.1] at limited) opened
          refine this.of_rows (updatedJob_id ..) ?_ (fun _ _ _ => Iff.rfl)
            fun _ _ _ _ d hd _ state _ => ⟨d, hd, rfl, state, rfl⟩
          rw [updatedJob_targetMountPath, if_pos limited]
      | false =>
          have target : (updatedJob plan body j).targetMountPath = plan.drive.mountPath := by
            rw [updatedJob_targetMountPath, limited, if_neg Bool.false_ne_true]
          obtain ⟨d, hd, key, mount⟩ := h.drive
          refine .of_drive (k := plan.drive.id) ?_ (fun a ha mine active => ?_) ?_
          · rw [updatedJob_id, same]
            exact h.assigned
          · rw [updatedJob_id, same] at mine
            exact h.sole a ha mine active
          · refine ⟨_, Db.mem_setDriveState.mpr (.inr ⟨d, hd, key, rfl⟩), key, rfl, ?_, ?_⟩
            · exact mount ▸ checked.mounted
            · exact target.trans mount.symm
  rw [finishUpdate]
  split
  · intro j' hj' opened
    obtain ⟨j, hj, id, status, dest⟩ := rows j' hj'
    exact dest fun closed => opened (closed.mono id status fun f hf _ => h.files ▸ hf)
  · intro j' hj' opened
    obtain ⟨j, hj, id, status, dest⟩ := rows j' hj'
    refine dest fun closed => opened (closed.mono id status fun f hf _ => ?_)
    exact h.files ▸ (mem_delete.mp hf).1

end Updating

namespace Ready

variable {cfg : Settings} {s : Db}

theorem updateJob (ready : Ready s) (inv : Consistent s) {jobId now : Nat} {body : JobBody}
    (guard : ∀ plan, updatePlan cfg s jobId body = .ok plan → plan.limited = false →
      (∀ c, plan.current = some c → c.driveId ≠ plan.drive.id) →
      ∀ d ∈ s.drives, d.id ∈ body.overflowDriveIds →
        d.currentProjectId = none ∨ d.currentProjectId = some plan.job.projectId) :
    (∀ s', updateJob cfg s jobId body now = .ok s' → Ready s') ∧
      Leaves Ready (updateJob cfg s jobId body now) := by
  refine updateJob_rule (P := Updating s jobId body) ready ?_ ?_
    (fun plan _ checked => .kept ready inv checked)
    (fun plan _ rest t d h _ _ _ _ _ _ => h.reserve plan.job.id)
    fun plan checked t h => h.finish checked
  · intro plan planned _ driveId rest t d h found bound foreign
    apply h.ready
    intro moves
    -- A drive of another project is not listed when the job moves.
    obtain ⟨d₀, hd₀, key, project⟩ := h.bindings d (mem_of_get found)
    have listed : d₀.id ∈ body.overflowDriveIds := by
      rw [key, show d.id = driveId from id_of_get found]
      exact h.listed List.mem_cons_self
    rcases guard plan planned moves.1 moves.2 d₀ hd₀ listed with unbound | own
    · exact bound (project.trans unbound)
    · exact foreign (project.trans own)
  · exact fun plan driveId rest t h =>
      { h with listed := fun x hx => h.listed (List.mem_cons_of_mem _ hx) }

/-- One action of the workflow. -/
theorem step {a : Action} (ready : Ready s) (inv : Consistent s)
    (guard : DestinationKept cfg s (.workflow a)) : Ready (step cfg s a) := by
  refine step_moved inv (fun t w => ready.jobWrites guard w) (fun t w => ready.driveWrites guard w)
    (fun body seeded s' _ h => ready.createJob inv h) (fun jobId body event => ?_)
    (fun jobId s' _ h => ready.deleteJob h)
    (fun jobId driveId threadCount s' plan _ _ checked m => ?_)
    fun jobId probe job active next drive s' event continues found m => ?_
  · simp only [DestinationKept, event] at guard
    exact ready.updateJob inv guard
  · refine ready.moved m ⟨plan.drive, mem_of_get checked.drive, rfl, rfl⟩ checked.mounted ?_
    -- A drive with an activated assignment of another job is not freed.
    intro free j hj other opened b hb mine active left
    have := any_eq_false_iff.mp free b hb
    rw [show plan.job.id = jobId from id_of_get checked.job] at other
    exact other (by simpa [left, active, mine] using this)
  · simp only [DestinationKept, event] at guard
    obtain ⟨d, hd, same, -, mount⟩ := found.row
    apply ready.moved m ⟨d, hd, same, mount⟩ found.mounted
    intro _
    rw [show job.id = jobId from id_of_get found.jobRow]
    exact guard continues active found.activeRow

end Ready

/-! ### Runs of the system -/

theorem Consistent.systemStep {s : Db} (inv : Consistent s) (cfg : Settings) (a : SystemAction) :
    Consistent (systemStep cfg s a) := by
  cases a with
  | workflow a => exact inv.step cfg a
  | observeDrive driveId state projectId mountPath => exact inv.modifyDrive _ _ _
  | addDrive row key =>
      refine ⟨inv.job, fun b hb => ?_, inv.unique⟩
      obtain ⟨d, hd, same⟩ := inv.drive b hb
      exact ⟨d, (mem_insert key).mpr (.inl hd), same⟩

theorem Ready.systemStep {cfg : Settings} {s : Db} {a : SystemAction} (ready : Ready s)
    (inv : Consistent s) (guard : DestinationKept cfg s a) : Ready (systemStep cfg s a) := by
  cases a with
  | workflow a => exact ready.step inv guard
  | observeDrive driveId state projectId mountPath =>
      intro j hj opened
      refine (ready j hj opened).of_rows rfl rfl (fun _ _ _ => Iff.rfl)
        fun b hb mine active d hd same inUse _ => ?_
      by_cases found : d.id = driveId
      · rcases guard d hd found with none_ | ⟨state', mount⟩
        · exact absurd (same.symm.trans found) (none_ j hj (by simp) opened b hb mine active)
        · exact ⟨_, Db.mem_modifyDrive.mpr (.inr ⟨d, hd, found, rfl⟩), rfl, state', mount⟩
      · exact ⟨d, Db.mem_modifyDrive.mpr (.inl ⟨hd, found⟩), rfl, inUse, rfl⟩
  | addDrive row key =>
      intro j hj opened
      refine (ready j hj opened).of_rows rfl rfl (fun _ _ _ => Iff.rfl)
        fun _ _ _ _ d hd _ inUse _ => ?_
      exact ⟨d, (mem_insert key).mpr (.inl hd), rfl, inUse, rfl⟩

/-- A request that is accepted leaves the job it prepares in `PREPARING`. -/
theorem preparing_of_accepted {cfg : Settings} {s : Db} {a : Action} {k : Nat}
    (prepared : prepares a.event = some k) (accepted : Accepted cfg s a) :
    ∀ j ∈ (step cfg s a).jobs, j.id = k → j.status = .preparing := by
  obtain ⟨now, event⟩ := a
  obtain ⟨s', h⟩ := accepted
  have result : step cfg s ⟨now, event⟩ = s' := by rw [step, h, settle]
  rw [result]
  have written : ∀ {u : Db} {f : ExportJob → ExportJob} {key : ∀ r, (f r).id = r.id},
      (∀ r, (f r).status = .preparing) → ∀ j ∈ (u.modifyJob k f key).jobs, j.id = k →
        j.status = .preparing := by
    intro u f key status j hj same
    rcases Db.mem_modifyJob.mp hj with ⟨-, other⟩ | ⟨r, -, -, rfl⟩
    · exact absurd same other
    · exact status r
  cases event with
  | startJob jobId threadCount =>
      obtain rfl := Option.some.inj prepared
      obtain ⟨job, -, -, sourcePath, -, rfl⟩ := startJob_eq_ok h
      exact written fun _ => rfl
  | retryFailedFiles jobId =>
      obtain rfl := Option.some.inj prepared
      obtain ⟨job, -, -, -, sourcePath, -, rfl⟩ := retryFailedFiles_eq_ok h
      exact written fun _ => rfl
  | continueJobOverflow jobId driveId threadCount =>
      obtain rfl := Option.some.inj prepared
      simp only [perform, continueJobOverflow, bind_eq_ok, pure_eq_ok] at h
      obtain ⟨plan, -, rfl⟩ := h
      exact written fun _ => rfl
  | _ => cases prepared

/-- In a run that leaves the destinations of open jobs alone, every accepted
request to copy finds the job on its destination. -/
theorem prepared_of_kept {cfg : Settings} {s : Db} {actions : List SystemAction}
    (initial : Initial s) (kept : Along (systemStep cfg) (DestinationKept cfg) s actions) :
    Along (systemStep cfg) (PreparesOnDestination cfg) s actions := by
  have keep : ∀ s a, Ready s ∧ Consistent s → DestinationKept cfg s a →
      Ready (systemStep cfg s a) ∧ Consistent (systemStep cfg s a) :=
    fun s a h guard => ⟨h.1.systemStep h.2 guard, h.2.systemStep cfg a⟩
  have start : Ready s ∧ Consistent s :=
    ⟨fun j hj => absurd hj (initial.noJobs j), initial.consistent⟩
  refine along_of_along keep (fun s a inv guard => ?_) start kept
  cases a with
  | workflow a =>
      intro accepted k prepared j hj same
      have preparing := preparing_of_accepted prepared accepted j hj same
      refine (keep s _ inv guard).1 j hj ?_
      rintro (archived | ⟨completed, -⟩)
      · cases preparing.symm.trans archived
      · cases preparing.symm.trans completed
  | observeDrive driveId state projectId mountPath => trivial
  | addDrive row key => trivial

/-- A job is created and started; discovery has found its drive where it was. -/
def discoveredRun : List SystemAction :=
  [.workflow ⟨1, .createJob (Lab.body "/data/a" (some 1) none) none⟩,
    .observeDrive 1 .inUse (some Lab.projectP) (some (mountPoint Lab.settings 1)),
    .workflow ⟨2, .startJob 1 none⟩]

theorem prepared_discoveredRun :
    Along (systemStep Lab.settings) (DestinationKept Lab.settings) Lab.start discoveredRun ∧
      Along (systemStep Lab.settings) (PreparesOnDestination Lab.settings) Lab.start
        discoveredRun := by
  have same : ∀ d ∈ (exec (systemStep Lab.settings) Lab.start (discoveredRun.take 1)).drives,
      d.id = 1 → d.mountPath = some (mountPoint Lab.settings 1) := by
    decide
  have kept : Along (systemStep Lab.settings) (DestinationKept Lab.settings) Lab.start
      discoveredRun :=
    ⟨trivial, fun d hd found => .inr ⟨rfl, (same d hd found).symm⟩, trivial, trivial⟩
  exact ⟨kept, prepared_of_kept Lab.start_initial kept⟩

/-- The drive of a pending job is ejected, then the job is started. -/
def ejectedRun : List SystemAction :=
  [.workflow ⟨1, .createJob (Lab.body "/data/a" (some 1) none) none⟩,
    .workflow ⟨2, .prepareEject 1 false .success⟩]

/-- The start is accepted, and its job copies to a path where no drive is mounted. -/
theorem prepared_after_eject :
    Initial Lab.start ∧
      Accepted Lab.settings (exec (systemStep Lab.settings) Lab.start ejectedRun)
        ⟨3, .startJob 1 none⟩ ∧
      ¬ Along (systemStep Lab.settings) (PreparesOnDestination Lab.settings) Lab.start
        (ejectedRun ++ [.workflow ⟨3, .startJob 1 none⟩]) := by
  have accepted : Accepted Lab.settings (exec (systemStep Lab.settings) Lab.start ejectedRun)
      ⟨3, .startJob 1 none⟩ := by
    decide
  have lost : ¬ ∀ j ∈ (step Lab.settings (exec (systemStep Lab.settings) Lab.start ejectedRun)
      ⟨3, .startJob 1 none⟩).jobs, j.id = 1 → OnDestination (step Lab.settings
        (exec (systemStep Lab.settings) Lab.start ejectedRun) ⟨3, .startJob 1 none⟩) j := by
    decide
  exact ⟨Lab.start_initial, accepted, fun h => lost (h.2.2.1 accepted 1 rfl)⟩

end Ecube
