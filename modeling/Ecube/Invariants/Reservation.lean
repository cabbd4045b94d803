import Ecube.Invariants.Moved

/-!
Exclusive overflow reservations.

A drive that a job has reserved as an overflow drive should be held by no other
job. Reserving checks this for every job, continuing a job checks it for the
new drive, but the primary drive of a new or edited job is taken without a look
at the reservations on it.

* `exclusive_lost_to_primary`: a job is created with a primary drive that
  another job has reserved.
* `exclusive_of_checked`: a run whose new primary drives are not reserved by
  other jobs keeps every reservation exclusive.
-/

namespace Ecube

open Table Transition

/-- All unreleased assignments on a reserved drive belong to the job that reserved it. -/
def Exclusive (s : Db) : Prop :=
  ∀ a ∈ s.assignments, a.reserved = true →
    ∀ b ∈ s.assignments, b.releasedAt = none → b.driveId = a.driveId → b.jobId = a.jobId

instance (s : Db) : Decidable (Exclusive s) :=
  inferInstanceAs (Decidable (∀ a ∈ s.assignments, a.reserved = true →
    ∀ b ∈ s.assignments, b.releasedAt = none → b.driveId = a.driveId → b.jobId = a.jobId))

/-- No job other than `k` has reserved the drive. -/
def Unreserved (s : Db) (k : Option Nat) (driveId : Nat) : Prop :=
  ∀ a ∈ s.assignments, a.reserved = true → a.driveId = driveId → some a.jobId = k

instance (s : Db) (k : Option Nat) (driveId : Nat) : Decidable (Unreserved s k driveId) :=
  inferInstanceAs (Decidable (∀ a ∈ s.assignments, a.reserved = true → a.driveId = driveId →
    some a.jobId = k))

/-- The condition the code does not check: the primary drive of a new job is not
reserved, nor is the drive an edit moves a job to by another job. -/
def PrimaryChecked (cfg : Settings) (s : Db) (a : Action) : Prop :=
  match a.event with
  | .createJob body _ =>
      Accepted cfg s a → ∀ drive, primaryDrive s s body = .ok drive → Unreserved s none drive.id
  | .updateJob k body =>
      ∀ plan, updatePlan cfg s k body = .ok plan → plan.limited = false →
        (∀ c, plan.current = some c → c.driveId ≠ plan.drive.id) → Unreserved s k plan.drive.id
  | _ => True

namespace Exclusive

variable {cfg : Settings} {s t : Db}

/-- Unreleased assignments are old ones, or those of `k` on a drive that no
other job has reserved and, if reserved itself, no other job holds. -/
theorem of_rows (ex : Exclusive s) (k driveId : Nat)
    (rows : ∀ b ∈ t.assignments, b.releasedAt = none →
      b ∈ s.assignments ∨ (b.jobId = k ∧ b.driveId = driveId ∧
        (∀ a ∈ s.assignments, a.reserved = true → a.driveId = driveId → a.jobId = k) ∧
        (b.reserved = true → ∀ a ∈ s.assignments, a.releasedAt = none → a.driveId = driveId →
          a.jobId = k))) : Exclusive t := by
  intro a ha reserved b hb held drive
  have open_ := (DriveAssignment.reserved_iff.mp reserved).2
  rcases rows a ha open_ with oldA | ⟨jobA, driveA, -, sole⟩ <;>
    rcases rows b hb held with oldB | ⟨jobB, driveB, unreserved, -⟩
  · exact ex a oldA reserved b oldB held drive
  · rw [jobB, unreserved a oldA reserved (drive.symm.trans driveB)]
  · rw [jobA, sole reserved b oldB held (drive.trans driveA)]
  · rw [jobA, jobB]

theorem reserve (ex : Exclusive s) {driveId jobId now : Nat}
    (sole : ∀ a ∈ s.assignments, a.releasedAt = none → a.driveId = driveId → a.jobId = jobId) :
    Exclusive ((s.addAssignment driveId jobId now none).setDriveState driveId .inUse) := by
  apply ex.of_rows jobId driveId
  intro b hb _
  rcases Db.mem_addAssignment.mp hb with hb | rfl
  · exact .inl hb
  · exact .inr ⟨rfl, rfl, fun a ha reserved =>
      sole a ha (DriveAssignment.reserved_iff.mp reserved).2, fun _ => sole⟩

theorem createJob (ex : Exclusive s) {body : JobBody} {seeded : Option Nat} {now : Nat}
    (unreserved : ∀ drive, primaryDrive s s body = .ok drive → Unreserved s none drive.id)
    (h : createJob cfg s body seeded now = .ok t) : Exclusive t := by
  obtain ⟨s₁, jobId, drive, sourcePath, resolved, inserted, primary, -, -, -, -, overflow⟩ :=
    createJob_eq_ok h
  obtain ⟨⟨jobs, rfl⟩, -, -⟩ := insertJob_eq_ok inserted
  refine reserveOverflowDrives_rule (fun u d hu _ _ _ free => hu.reserve fun a ha held drive =>
    absurd drive (free a ha held)) ?_ overflow
  apply ex.of_rows jobId drive.id
  intro b hb _
  rcases Db.mem_addAssignment.mp hb with hb | rfl
  · exact .inl hb
  · refine .inr ⟨rfl, rfl, fun a ha reserved same => ?_, fun reserved => by cases reserved⟩
    cases unreserved drive primary a ha reserved same

theorem updateJob (ex : Exclusive s) {jobId now : Nat} {body : JobBody}
    (unreserved : ∀ plan, updatePlan cfg s jobId body = .ok plan → plan.limited = false →
      (∀ c, plan.current = some c → c.driveId ≠ plan.drive.id) →
      Unreserved s jobId plan.drive.id) :
    (∀ s', updateJob cfg s jobId body now = .ok s' → Exclusive s') ∧
      Leaves Exclusive (updateJob cfg s jobId body now) := by
  refine updateJob_rule (P := fun _ _ u => Exclusive u) ex (fun _ _ _ _ _ _ _ h _ _ _ => h)
    (fun _ _ _ _ h => h) (fun plan planned checked => ?_)
    (fun plan _ rest u d hu _ _ _ _ _ sole => hu.reserve sole) fun plan _ u hu => ?_
  · have hjob : plan.job.id = jobId := id_of_get checked.job
    apply ex.of_rows plan.job.id plan.drive.id
    intro b hb held
    rcases held_of_keptAssignments hb held with ⟨old, -⟩ | ⟨limited, moved, rfl⟩
    · exact .inl old
    · refine .inr ⟨rfl, rfl, fun a ha reserved same => ?_, fun reserved => by cases reserved⟩
      rw [hjob]
      exact Option.some.inj (unreserved plan planned limited moved a ha reserved same)
  · rw [finishUpdate]
    split <;> exact hu

/-- A job that moves to a drive that no other job has reserved. -/
theorem moved (ex : Exclusive s) {job : ExportJob} {active : DriveAssignment} {drive : UsbDrive}
    {status : JobStatus} {bound : Option ProjectId} {freed : Prop}
    (m : Moved s t job active drive status bound freed)
    (unreserved : ∀ a ∈ s.assignments, a.reserved = true → a.driveId = drive.id →
      a.jobId = job.id) : Exclusive t := by
  apply ex.of_rows job.id drive.id
  intro b hb held
  rcases m.held b hb held with ⟨old, -⟩ | ⟨mine, same, active⟩
  · exact .inl old
  · refine .inr ⟨mine, same, unreserved, fun reserved => ?_⟩
    exact absurd (DriveAssignment.reserved_iff.mp reserved).1 (DriveAssignment.active_iff.mp active).1

/-- One action. -/
theorem step {a : Action} (ex : Exclusive s) (inv : Consistent s)
    (guard : PrimaryChecked cfg s a) : Exclusive (step cfg s a) := by
  refine step_moved inv (fun t w => ?_) (fun t w => ?_) (fun body seeded s' event h => ?_)
    (fun jobId body event => ?_) (fun jobId s' _ h => ?_)
    (fun jobId driveId threadCount s' plan _ _ checked m => ?_)
    fun jobId probe job active next drive s' _ _ found m => ?_
  · rw [Exclusive, w.assignments]
    exact ex
  · rw [Exclusive, w.assignments]
    exact ex
  · have accepted : Accepted cfg s a := ⟨s', by rw [event]; exact h⟩
    rw [PrimaryChecked, event] at guard
    exact ex.createJob (guard accepted) h
  · rw [PrimaryChecked, event] at guard
    exact ex.updateJob guard
  · have rows := deleted_of_deleteJob h
    intro a ha reserved b hb
    exact ex a ((rows.assignments a).mp ha).1 reserved b ((rows.assignments b).mp hb).1
  · apply ex.moved m
    intro b hb reserved same
    rw [show plan.job.id = jobId from id_of_get checked.job]
    refine checked.free b hb (DriveAssignment.reserved_iff.mp reserved).2 ?_
    exact same.trans (id_of_get checked.drive)
  · -- The activated reservation was exclusive.
    apply ex.moved m
    intro b hb reserved same
    rw [show job.id = jobId from id_of_get found.jobRow, ← found.mine]
    exact ex next found.nextRow found.reserved b hb (DriveAssignment.reserved_iff.mp reserved).2
      (same.trans found.driveId)

end Exclusive

/-- In a run whose new primary drives are not reserved by other jobs, every
reservation is exclusive in every state. -/
theorem exclusive_of_checked {cfg : Settings} {s : Db} {actions : List Action}
    (initial : Initial s) (checked : Along (step cfg) (PrimaryChecked cfg) s actions) :
    Always (step cfg) Exclusive s actions := by
  have keep : ∀ s a, Exclusive s ∧ Consistent s → PrimaryChecked cfg s a →
      Exclusive (step cfg s a) ∧ Consistent (step cfg s a) :=
    fun s a h guard => ⟨h.1.step h.2 guard, h.2.step cfg a⟩
  have start : Exclusive s ∧ Consistent s :=
    ⟨fun a ha => absurd ha (initial.noAssignments a), initial.consistent⟩
  exact (always_of_along keep start checked).mono fun _ h => h.1

/-- Two jobs with different primary and overflow drives. -/
def separateRun : List Action :=
  [⟨1, .createJob (Lab.body "/data/a" (some 1) (some 2)) none⟩,
    ⟨2, .createJob (Lab.body "/data/b" (some 3) none) none⟩]

theorem exclusive_separateRun :
    Along (step Lab.settings) (PrimaryChecked Lab.settings) Lab.start separateRun ∧
      Always (step Lab.settings) Exclusive Lab.start separateRun := by
  have third : ∀ drive, primaryDrive (exec (step Lab.settings) Lab.start (separateRun.take 1))
      (exec (step Lab.settings) Lab.start (separateRun.take 1))
      (Lab.body "/data/b" (some 3) none) = .ok drive → drive.id = 3 := by
    intro drive h
    exact id_of_get (selectableDrive_eq_ok h).1
  have free : Unreserved (exec (step Lab.settings) Lab.start (separateRun.take 1)) none 3 := by
    decide
  have checked : Along (step Lab.settings) (PrimaryChecked Lab.settings) Lab.start separateRun :=
    ⟨fun _ _ _ a ha => absurd ha List.not_mem_nil, fun _ drive h => third drive h ▸ free, trivial⟩
  exact ⟨checked, exclusive_of_checked Lab.start_initial checked⟩

/-- The overflow drive of the first job is the primary drive of the second. -/
def reservedPrimaryRun : List Action :=
  [⟨1, .createJob (Lab.body "/data/a" (some 1) (some 2)) none⟩,
    ⟨2, .createJob (Lab.body "/data/b" (some 2) none) none⟩]

/-- Both requests are accepted, and both jobs hold drive 2. -/
theorem exclusive_lost_to_primary :
    Initial Lab.start ∧
      Along (step Lab.settings) (Accepted Lab.settings) Lab.start reservedPrimaryRun ∧
      ¬ Exclusive (exec (step Lab.settings) Lab.start reservedPrimaryRun) := by
  refine ⟨Lab.start_initial, ?_, ?_⟩
  · decide
  · decide

end Ecube
