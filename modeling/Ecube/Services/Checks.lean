import Ecube.Basic.Outcome
import Ecube.Paths.Overlap
import Ecube.Paths.Sanitize
import Ecube.Repository

/-!
What the job and drive services share (`app/services`, `app/exceptions.py`):
requests, refusals and the checks several operations make.

A refused request rolls its transaction back, except that writing an audit
record commits what the session holds at that point. A `Reject` therefore
carries the database that a refused request leaves behind.
-/

namespace Ecube

/-- The settings the services read. -/
structure Settings where
  usbMountBasePath : Str

structure ServiceError where
  statusCode : Nat
  detail : String
  code : Option String
  deriving DecidableEq, Repr

/-- A refused request and what it has nevertheless committed. -/
structure Reject where
  error : ServiceError
  committed : Db

def refuse (committed : Db) (statusCode : Nat) (detail : String) : Reject :=
  ⟨⟨statusCode, detail, none⟩, committed⟩

def conflict (committed : Db) (detail code : String) : Reject :=
  ⟨⟨409, detail, some code⟩, committed⟩

/-- The body of a create or update request after schema validation. -/
structure JobBody where
  projectId : ProjectId
  evidenceNumber : String
  sourcePath : Str
  mountId : Option Nat
  driveId : Option Nat
  overflowDriveIds : List Nat
  threadCount : Option Nat
  copyChunkSizeBytes : Option Nat
  copyProgressFlushBytes : Option Nat
  copyFileFsyncEnabled : Option Bool
  maxFileRetries : Nat
  retryDelaySeconds : Nat
  callbackUrl : Option String
  unique : overflowDriveIds.Nodup

/-- A `ValueError` of a path check becomes a validation error of the request. -/
def orInvalid {α : Type} (s : Db) : Except String α → Except Reject α
  | .ok a => .ok a
  | .error detail => .error (refuse s 422 detail)

@[simp] theorem orInvalid_eq_ok {α : Type} {s : Db} {x : Except String α} {a : α} :
    orInvalid s x = .ok a ↔ x = .ok a := by
  cases x <;> simp [orInvalid]

/-! ### What a refused request leaves behind -/

/-- Every refusal of `x` leaves a database with `P`. -/
def Leaves {α : Type} (P : Db → Prop) (x : Except Reject α) : Prop :=
  ∀ r, x = .error r → P r.committed

namespace Leaves

variable {α β : Type} {P : Db → Prop}

theorem pure (a : α) : Leaves P (Pure.pure a : Except Reject α) := by
  intro r h
  cases h

theorem ok (a : α) : Leaves P (.ok a : Except Reject α) := by
  intro r h
  cases h

theorem error {r : Reject} (h : P r.committed) : Leaves P (.error r : Except Reject α) := by
  intro r' h'
  cases h'
  exact h

theorem bind {x : Except Reject α} {f : α → Except Reject β} (hx : Leaves P x)
    (hf : ∀ a, x = .ok a → Leaves P (f a)) : Leaves P (x >>= f) := by
  intro r h
  cases hxe : x with
  | error r' =>
      rw [hxe] at h
      obtain rfl : r' = r := by simpa [Bind.bind, Except.bind] using h
      exact hx r' hxe
  | ok a =>
      rw [hxe] at h
      exact hf a hxe r h

theorem ensure_of_not {c : Prop} [Decidable c] {r : Reject} (h : ¬ c → P r.committed) :
    Leaves P (Ecube.ensure c r) := by
  rw [Ecube.ensure]
  split
  · exact ok ()
  · exact error (h ‹_›)

theorem ensure {c : Prop} [Decidable c] {r : Reject} (h : P r.committed) :
    Leaves P (Ecube.ensure c r) :=
  ensure_of_not fun _ => h

theorem orReject {o : Option α} {r : Reject} (h : P r.committed) :
    Leaves P (Ecube.orReject o r) := by
  cases o with
  | none => exact error h
  | some a => exact ok a

theorem orInvalid {s : Db} {x : Except String α} (h : P s) : Leaves P (Ecube.orInvalid s x) := by
  cases x with
  | ok a => exact ok a
  | error e => exact error h

end Leaves

/-! ### Status sets -/

def activeSourceOverlapStatuses : List JobStatus :=
  [.pending, .preparing, .running, .pausing, .paused, .verifying]

def nonArchivedDuplicateStatuses : List JobStatus :=
  activeSourceOverlapStatuses ++ [.completed, .failed]

def archivableJobStatuses : List JobStatus := [.completed, .failed]

def startedJobEditableStatuses : List JobStatus :=
  [.preparing, .running, .pausing, .paused, .failed]

def prepareEjectBlockingJobStatuses : List JobStatus :=
  [.preparing, .running, .pausing, .paused, .verifying]

/-! ### Checks -/

def rejectWhenStartupAnalysisRunning (s : Db) (job : ExportJob) (action : String) :
    Except Reject Unit :=
  ensure (job.startupAnalysis.status ≠ .analyzing)
    (refuse s 409 s!"Cannot {action} while startup analysis is in progress")

def resolveJobSourcePath (cfg : Settings) (s : Db) (body : JobBody) : Except Reject Str :=
  match body.mountId with
  | none => orInvalid s (resolveSourcePath body.sourcePath none (some cfg.usbMountBasePath) none)
  | some mountId => do
      let mount ← orReject (s.shares.get mountId) (refuse s 404 "Share not found")
      ensure (mount.projectId = body.projectId)
        (refuse s 409 "Selected share is not available for this project")
      ensure (mount.status = .mounted ∧ mount.localMountPoint ≠ [])
        (refuse s 409 "Selected share is not mounted")
      orInvalid s (resolveSourcePath body.sourcePath (some mount.localMountPoint)
        (some cfg.usbMountBasePath) none)

def buildSourceOverlapMessage (overlap : Overlap) (driveId existingJobId : Nat) : String :=
  match overlap with
  | .exact =>
      s!"A job is already copying from this exact source path to drive {driveId} "
        ++ s!"(job #{existingJobId})."
  | .ancestor =>
      s!"An existing job (#{existingJobId}) copies from a subdirectory of the requested source. "
        ++ "The parent path would duplicate that content."
  | _ =>
      s!"An existing job (#{existingJobId}) already copies from a parent path that includes "
        ++ "the requested source."

/-- Whether an assigned job stands against a new source path on its drive: the
same source always does, a nested one only while the job is not finished. -/
def sourceOverlaps (existing : ExportJob) (newSourcePath : Str) : Bool :=
  match classifySourcePathOverlap existing.sourcePath newSourcePath with
  | .none => false
  | .exact => true
  | _ => existing.status ∈ activeSourceOverlapStatuses

def rejectSourcePathOverlap (committed s : Db) (driveId : Nat) (newSourcePath : Str)
    (excludeJobId : Option Nat) : Except Reject Unit :=
  match (s.listAssignedJobsForDrive driveId nonArchivedDuplicateStatuses).find? fun j =>
      some j.id ≠ excludeJobId ∧ sourceOverlaps j newSourcePath with
  | none => .ok ()
  | some j =>
      .error (conflict committed
        (buildSourceOverlapMessage (classifySourcePathOverlap j.sourcePath newSourcePath)
          driveId j.id) "SOURCE_OVERLAP")

/-- The drive checks shared by primary and overflow selection: bound to the
project, connected and mounted. Refusals leave `rolledBack`, except that the
isolation refusal leaves `audited`. -/
def selectableDrive (rolledBack audited s : Db) (projectId : ProjectId) (driveId : Nat) :
    Except Reject UsbDrive := do
  let drive ← orReject (s.drives.get driveId) (refuse rolledBack 404 "Drive not found")
  ensure (drive.currentProjectId ≠ none) (conflict rolledBack
    "Drive is unassigned; initialize and bind it to this project before selecting it"
    "DRIVE_NOT_PROJECT_BOUND")
  ensure (drive.currentProjectId = some projectId)
    (refuse audited 403 "Drive belongs to a different project")
  ensure (drive.currentState = .available ∨ drive.currentState = .inUse)
    (refuse rolledBack 409 "Drive is not available")
  ensure (truthy drive.mountPath ≠ none) (refuse rolledBack 409 "Assigned drive is not mounted")
  return drive

/-- What an accepted drive selection has checked. -/
theorem selectableDrive_eq_ok {rolledBack audited s : Db} {projectId : ProjectId} {driveId : Nat}
    {drive : UsbDrive} (h : selectableDrive rolledBack audited s projectId driveId = .ok drive) :
    s.drives.get driveId = some drive ∧ drive.currentProjectId = some projectId ∧
      (drive.currentState = .available ∨ drive.currentState = .inUse) ∧
      truthy drive.mountPath ≠ none := by
  simp only [selectableDrive, bind_eq_ok, orReject_eq_ok, ensure_eq_ok, pure_eq_ok] at h
  obtain ⟨d, found, -, -, -, project, -, state, -, mounted, rfl⟩ := h
  exact ⟨found, project, state, mounted⟩

theorem leaves_selectableDrive {P : Db → Prop} {rolledBack audited s : Db} {projectId : ProjectId}
    {driveId : Nat} (hr : P rolledBack)
    (ha : ∀ drive, s.drives.get driveId = some drive → drive.currentProjectId ≠ none →
      drive.currentProjectId ≠ some projectId → P audited) :
    Leaves P (selectableDrive rolledBack audited s projectId driveId) := by
  refine .bind (.orReject hr) fun drive found => .bind (.ensure hr) fun _ bound => ?_
  refine .bind (.ensure_of_not ?_) fun _ _ => .bind (.ensure hr) fun _ _ => ?_
  · exact ha drive (orReject_eq_ok.mp found) (ensure_eq_ok.mp bound)
  exact .bind (.ensure hr) fun _ _ => .pure drive

theorem leaves_rejectSourcePathOverlap {P : Db → Prop} {committed s : Db} {driveId : Nat}
    {newSourcePath : Str} {excludeJobId : Option Nat} (h : P committed) :
    Leaves P (rejectSourcePathOverlap committed s driveId newSourcePath excludeJobId) := by
  rw [rejectSourcePathOverlap]
  split
  · exact .ok ()
  · exact .error h

theorem leaves_resolveJobSourcePath {P : Db → Prop} {cfg : Settings} {s : Db} {body : JobBody}
    (h : P s) : Leaves P (resolveJobSourcePath cfg s body) := by
  rw [resolveJobSourcePath]
  split
  · exact .orInvalid h
  · refine .bind (.orReject h) fun _ _ => .bind (.ensure h) fun _ _ => ?_
    exact .bind (.ensure h) fun _ _ => .orInvalid h

end Ecube
