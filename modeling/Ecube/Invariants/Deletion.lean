import Ecube.Invariants.Consistent

/-!
What the deletion of a job leaves of its drives.

A job holds drives by its active assignment and by overflow reservations;
`deleteJob` removes all assignment rows and frees the drive of the active one
unless another job is active on it. `deleteJob_frees_iff` says for which
reachable databases this frees exactly the drives nobody else holds: the job
has no reservation on a taken drive of its own, and its primary drive is not
only reserved by others.
-/

namespace Ecube

open Table Transition

/-- A job other than `jobId` has an unreleased assignment on the drive. -/
def HeldElsewhere (s : Db) (jobId driveId : Nat) : Prop :=
  ∃ a ∈ s.assignments, a.releasedAt = none ∧ a.driveId = driveId ∧ a.jobId ≠ jobId

/-- No drive leaks when `jobId` is deleted: the drives only it held are
available, and those held elsewhere keep their state. -/
structure FreesDrives (s t : Db) (jobId : Nat) : Prop where
  freed : ∀ a ∈ s.assignments, a.jobId = jobId → a.releasedAt = none →
    ¬ HeldElsewhere s jobId a.driveId → ∀ d ∈ t.drives, d.id = a.driveId →
    d.currentState = .available
  kept : ∀ d ∈ s.drives, HeldElsewhere s jobId d.id → ∀ d' ∈ t.drives, d'.id = d.id →
    d'.currentState = d.currentState

/-- What the deletion of `jobId` does not look at: the drives the job has
reserved, and the reservations of other jobs on its primary drive. -/
structure OnlyPrimary (s : Db) (jobId : Nat) : Prop where
  reserved : ∀ a ∈ s.assignments, a.jobId = jobId → a.reserved = true →
    ¬ HeldElsewhere s jobId a.driveId → ∀ d ∈ s.drives, d.id = a.driveId →
    d.currentState = .available
  primary : ∀ a ∈ s.assignments, a.jobId = jobId → a.active = true →
    HeldElsewhere s jobId a.driveId → s.otherActiveAssignmentsForDrive a.driveId jobId = false →
    ∀ d ∈ s.drives, d.id = a.driveId → d.currentState = .available

instance (s : Db) (jobId driveId : Nat) : Decidable (HeldElsewhere s jobId driveId) :=
  inferInstanceAs (Decidable (∃ a ∈ s.assignments, _))

section

variable {s t : Db} {jobId : Nat}

/-- A drive that is not freed keeps its row. -/
theorem mem_of_not_freed (h : deleteJob s jobId = .ok t) {d : UsbDrive}
    (kept : freedDrive s jobId ≠ some d.id) : d ∈ t.drives ↔ d ∈ s.drives := by
  rw [(deleted_of_deleteJob h).drives]
  constructor
  · rintro (⟨hd, -⟩ | ⟨r, hr, freed, rfl⟩)
    · exact hd
    · exact absurd freed kept
  · exact fun hd => .inl ⟨hd, kept⟩

theorem available_of_freed (h : deleteJob s jobId = .ok t) {d : UsbDrive} (hd : d ∈ t.drives)
    (freed : freedDrive s jobId = some d.id) : d.currentState = .available := by
  rcases ((deleted_of_deleteJob h).drives d).mp hd with ⟨-, kept⟩ | ⟨r, hr, -, rfl⟩
  · exact absurd freed kept
  · rfl

/-! ### When nothing leaks -/

/-- The active assignment is the one a deletion looks at. -/
theorem Consistent.getActive (inv : Consistent s) {a : DriveAssignment} (ha : a ∈ s.assignments)
    (job : a.jobId = jobId) (active : a.active = true) : s.getActiveForJob jobId = some a := by
  apply first_eq_some_of_unique ha (by simp [job, active])
  intro b hb hp
  have hp : b.jobId = jobId ∧ b.active = true := by simpa using hp
  exact inv.unique b hb a ha (DriveAssignment.active_iff.mp hp.2).2
    (DriveAssignment.active_iff.mp active).2 (hp.1.trans job.symm) (.inr ⟨hp.2, active⟩)

/-- The drive of a reservation is not freed: the job is active on another one. -/
theorem Consistent.reserved_not_freed (inv : Consistent s) {a : DriveAssignment}
    (ha : a ∈ s.assignments) (job : a.jobId = jobId) (reserved : a.reserved = true) :
    freedDrive s jobId ≠ some a.driveId := by
  intro freed
  obtain ⟨b, active, same, -⟩ := freedDrive_eq_some.mp freed
  obtain ⟨hb, jobB, activeB⟩ := active_of_getActiveForJob active
  obtain ⟨inactive, held⟩ := DriveAssignment.reserved_iff.mp reserved
  obtain ⟨activated, heldB⟩ := DriveAssignment.active_iff.mp activeB
  obtain rfl := inv.unique a ha b hb held heldB (job.trans jobB.symm) (.inl same.symm)
  exact activated inactive

/-- Another job that is active on a drive holds it. -/
theorem heldElsewhere_of_otherActive {driveId : Nat}
    (other : s.otherActiveAssignmentsForDrive driveId jobId = true) :
    HeldElsewhere s jobId driveId := by
  obtain ⟨b, hb, hp⟩ := any_eq_true_iff.mp other
  have hp : b.driveId = driveId ∧ b.active = true ∧ b.jobId ≠ jobId := by simpa using hp
  exact ⟨b, hb, (DriveAssignment.active_iff.mp hp.2.1).2, hp.1, hp.2.2⟩

theorem FreesDrives.of_onlyPrimary (inv : Consistent s) (h : deleteJob s jobId = .ok t)
    (only : OnlyPrimary s jobId) : FreesDrives s t jobId where
  freed a ha job held alone d hd same := by
    by_cases active : a.active = true
    · have idle : s.otherActiveAssignmentsForDrive a.driveId jobId = false := by
        cases other : s.otherActiveAssignmentsForDrive a.driveId jobId with
        | false => rfl
        | true => exact absurd (heldElsewhere_of_otherActive other) alone
      refine available_of_freed h hd (freedDrive_eq_some.mpr ⟨a, inv.getActive ha job active, ?_⟩)
      exact ⟨same.symm, same.symm ▸ idle⟩
    · have reserved := DriveAssignment.reserved_of_not_active held active
      have kept := inv.reserved_not_freed ha job reserved
      exact only.reserved a ha job reserved alone d ((mem_of_not_freed h (same ▸ kept)).mp hd) same
  kept d hd held d' hd' same := by
    by_cases freed : freedDrive s jobId = some d.id
    · obtain ⟨a, active, drive, idle⟩ := freedDrive_eq_some.mp freed
      obtain ⟨ha, job, activeA⟩ := active_of_getActiveForJob active
      rw [available_of_freed h hd' (same ▸ freed)]
      exact (only.primary a ha job activeA (drive ▸ held) (drive ▸ idle) d hd drive.symm).symm
    · have old := (mem_of_not_freed h (same ▸ freed)).mp hd'
      rw [eq_of_id_eq old hd same]

theorem OnlyPrimary.of_freesDrives (inv : Consistent s) (h : deleteJob s jobId = .ok t)
    (frees : FreesDrives s t jobId) : OnlyPrimary s jobId where
  reserved a ha job reserved alone d hd same := by
    have kept := inv.reserved_not_freed ha job reserved
    have held := (DriveAssignment.reserved_iff.mp reserved).2
    exact frees.freed a ha job held alone d ((mem_of_not_freed h (same ▸ kept)).mpr hd) same
  primary a ha job active held idle d hd same := by
    have freed : freedDrive s jobId = some d.id :=
      freedDrive_eq_some.mpr ⟨a, inv.getActive ha job active, same.symm, same ▸ idle⟩
    have hd' : { d with currentState := .available } ∈ t.drives :=
      ((deleted_of_deleteJob h).drives _).mpr (.inr ⟨d, hd, freed, rfl⟩)
    exact (frees.kept d hd (same ▸ held) _ hd' rfl).symm

end

/-- In a reachable database, a deletion frees exactly the drives that only the
deleted job held, if and only if the job has reserved none of them and its
primary drive is not reserved by another job alone (drives that are available
already aside). -/
theorem deleteJob_frees_iff {cfg : Settings} {s t : Db} {actions : List Action} {jobId : Nat}
    (initial : Initial s) (deleted : deleteJob (exec (step cfg) s actions) jobId = .ok t) :
    FreesDrives (exec (step cfg) s actions) t jobId ↔
      OnlyPrimary (exec (step cfg) s actions) jobId := by
  have inv : Consistent (exec (step cfg) s actions) := consistent_of_run initial actions
  exact ⟨OnlyPrimary.of_freesDrives inv deleted, FreesDrives.of_onlyPrimary inv deleted⟩

/-- Two pending jobs on one drive. -/
def pendingPair : List Action :=
  [⟨1, .createJob (Lab.body "/data/a" (some 1) none) none⟩,
    ⟨2, .createJob (Lab.body "/data/b" (some 1) none) none⟩]

theorem deleteJob_frees_pendingPair :
    ∃ t, deleteJob (exec (step Lab.settings) Lab.start pendingPair) 1 = .ok t ∧
      FreesDrives (exec (step Lab.settings) Lab.start pendingPair) t 1 := by
  have only : OnlyPrimary (exec (step Lab.settings) Lab.start pendingPair) 1 :=
    ⟨by decide, by decide⟩
  exact ⟨_, rfl, (deleteJob_frees_iff Lab.start_initial rfl).mpr only⟩

/-- A pending job with an overflow drive of its own. -/
def reservingJob : List Action :=
  [⟨1, .createJob (Lab.body "/data/a" (some 1) (some 2)) none⟩]

/-- The deletion is accepted, nobody holds drive 2 any more, and it is still in use. -/
theorem deleteJob_leaks_overflow :
    Initial Lab.start ∧
      ∃ t, deleteJob (exec (step Lab.settings) Lab.start reservingJob) 1 = .ok t ∧
        ¬ FreesDrives (exec (step Lab.settings) Lab.start reservingJob) t 1 := by
  refine ⟨Lab.start_initial, _, rfl, fun frees => ?_⟩
  have inv : Consistent (exec (step Lab.settings) Lab.start reservingJob) :=
    consistent_of_run Lab.start_initial reservingJob
  have only := (OnlyPrimary.of_freesDrives inv rfl frees).reserved
  revert only
  decide

end Ecube
