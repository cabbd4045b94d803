import Ecube.Schema

/-!
The queries of the repositories (`app/repositories`) and what their results say
about the rows.
-/

namespace Ecube

namespace Db

/-! ### Drive assignments -/

/-- Newest activation first, then the larger key. -/
def laterActivation (a b : DriveAssignment) : Bool :=
  let ka := a.activatedAt.getD 0
  let kb := b.activatedAt.getD 0
  kb < ka ∨ (ka = kb ∧ b.id ≤ a.id)

/-- Oldest assignment first, then the smaller key. -/
def earlierAssignment (a b : DriveAssignment) : Bool :=
  a.assignedAt < b.assignedAt ∨ (a.assignedAt = b.assignedAt ∧ a.id ≤ b.id)

/-- The most recently activated unreleased assignment of the job. -/
def getActiveForJob (s : Db) (jobId : Nat) : Option DriveAssignment :=
  s.assignments.first (fun a => a.jobId = jobId ∧ a.active) laterActivation

def getReservedForJobAndDrive (s : Db) (jobId driveId : Nat) : Option DriveAssignment :=
  s.assignments.first (fun a => a.jobId = jobId ∧ a.driveId = driveId ∧ a.reserved)
    earlierAssignment

def listForJob (s : Db) (jobId : Nat) : List DriveAssignment :=
  s.assignments.select (fun a => a.jobId = jobId) earlierAssignment

/-- The reservations of a job in continuation order. -/
def listReservedForJob (s : Db) (jobId : Nat) : List DriveAssignment :=
  s.assignments.select (fun a => a.jobId = jobId ∧ a.reserved) earlierAssignment

/-- Whether some job other than `excludeJobId` has an unreleased assignment on the drive. -/
def isDriveAssignedToAnotherJob (s : Db) (driveId : Nat) (excludeJobId : Option Nat) : Bool :=
  s.assignments.any fun a =>
    a.driveId = driveId ∧ a.releasedAt = none ∧ some a.jobId ≠ excludeJobId

/-- Whether some job other than `excludeJobId` has an activated unreleased
assignment on the drive; overflow reservations do not count. -/
def otherActiveAssignmentsForDrive (s : Db) (driveId : Nat) (excludeJobId : Nat) : Bool :=
  s.assignments.any fun a => a.driveId = driveId ∧ a.active ∧ a.jobId ≠ excludeJobId

/-! ### Jobs -/

/-- Newest job first, then the larger key. -/
def newerJob (a b : ExportJob) : Bool :=
  b.createdAt < a.createdAt ∨ (a.createdAt = b.createdAt ∧ b.id ≤ a.id)

/-- The jobs in one of the statuses with an unreleased assignment on the drive. -/
def listAssignedJobsForDrive (s : Db) (driveId : Nat) (statuses : List JobStatus) :
    List ExportJob :=
  s.jobs.select (fun j => j.status ∈ statuses ∧
    s.assignments.any fun a => a.jobId = j.id ∧ a.driveId = driveId ∧ a.releasedAt = none) newerJob

/-! ### Drives and shares -/

def countAvailableForProject (s : Db) (projectId : ProjectId) : Nat :=
  s.drives.rows.countP fun d =>
    d.currentState = .available ∧ d.currentProjectId = some projectId

def getOneAvailableForProject (s : Db) (projectId : ProjectId) : Option UsbDrive :=
  s.drives.first (fun d => d.currentState = .available ∧ d.currentProjectId = some projectId)
    fun a b => a.id ≤ b.id

def getNextUnboundAvailable (s : Db) : Option UsbDrive :=
  s.drives.first (fun d => d.currentState = .available ∧ d.currentProjectId = none)
    fun a b => a.id ≤ b.id

def getMountedProject (s : Db) (projectId : ProjectId) : Option NetworkShare :=
  s.shares.first (fun m => m.status = .mounted ∧ m.projectId = projectId) fun a b => a.id ≤ b.id

/-! ### Files -/

def countFiles (s : Db) (jobId : Nat) (p : ExportFile → Bool) : Nat :=
  s.files.rows.countP fun f => f.jobId = jobId ∧ p f

/-- The failed and timed-out files of a job. -/
def retryableCount (s : Db) (jobId : Nat) : Nat :=
  s.countFiles jobId (fun f => f.status = .error) + s.countFiles jobId (fun f => f.status = .timeout)

def listIncompleteByJob (s : Db) (jobId : Nat) : List ExportFile :=
  s.files.rows.filter fun f => f.jobId = jobId ∧ f.status ≠ .done

/-- The file as it is left for another copy attempt. -/
def backToPending (f : ExportFile) : ExportFile :=
  { f with status := .pending, retryAttempts := 0, errorMessage := none }

def resetFailedForRetry (s : Db) (jobId : Nat) : Db :=
  s.updateFiles (fun f => f.jobId = jobId ∧ (f.status = .error ∨ f.status = .timeout))
    backToPending fun _ => rfl

def resetNonDoneForRestart (s : Db) (jobId : Nat) : Db :=
  s.updateFiles (fun f => f.jobId = jobId ∧ f.status ≠ .done) backToPending fun _ => rfl

def resetTargetFullFailedForRetry (s : Db) (jobId : Nat) : Db :=
  s.updateFiles (fun f => f.jobId = jobId ∧ f.status = .error ∧
      f.errorMessage = some "Target storage is full")
    (fun f => { backToPending f with driveAssignmentId := none }) fun _ => rfl

end Db

/-! ### What the results say -/

theorem DriveAssignment.active_iff {a : DriveAssignment} :
    a.active = true ↔ a.activatedAt ≠ none ∧ a.releasedAt = none := by
  rw [DriveAssignment.active, Bool.and_eq_true, Option.isSome_iff_ne_none, Option.isNone_iff_eq_none]

theorem DriveAssignment.reserved_iff {a : DriveAssignment} :
    a.reserved = true ↔ a.activatedAt = none ∧ a.releasedAt = none := by
  rw [DriveAssignment.reserved, Bool.and_eq_true, Option.isNone_iff_eq_none,
    Option.isNone_iff_eq_none]

/-- An unreleased assignment is active or a reservation. -/
theorem DriveAssignment.reserved_of_not_active {a : DriveAssignment} (held : a.releasedAt = none)
    (inactive : ¬ a.active = true) : a.reserved = true := by
  rw [DriveAssignment.reserved_iff]
  refine ⟨?_, held⟩
  by_contra activated
  exact inactive (DriveAssignment.active_iff.mpr ⟨activated, held⟩)

/-- What the query for the active assignment returns. -/
theorem active_of_getActiveForJob {s : Db} {jobId : Nat} {a : DriveAssignment}
    (h : s.getActiveForJob jobId = some a) :
    a ∈ s.assignments ∧ a.jobId = jobId ∧ a.active = true := by
  obtain ⟨mem, hp⟩ := Table.mem_of_first h
  exact ⟨mem, by simpa using hp⟩

end Ecube
