import Ecube.Basic.Transition
import Ecube.Services.Mounts

/-!
Reconciliation of USB mounts (`app/services/reconciliation_service.py`,
`_reconcile_usb_mounts`).

A pass takes the drives that are available or in use and have a device path, one
after the other, and mounts each at its managed slot; afterwards it unmounts
what else is mounted below the managed root. What it does about one drive is
`treatDrive`: the provider calls it makes and the columns it changes.

The answers of the provider are arguments of a pass and true: an unmount that
succeeds has removed the visible mount, one that fails has removed nothing, and
so for mounts.
-/

namespace Ecube

open PosixPath MountStack

/-! ### Owners -/

/-- `_normalized_usb_mount_candidates`. -/
def normalizedUsbMountCandidates (paths : List (Option Str)) : List Str :=
  paths.filterMap fun path => path.bind fun path =>
    if strip path = [] then none else some (normpath (strip path))

/-- A job that may own the drive: one assigned to it with a target among the
paths, or any other job with such a target that has not left the drive. -/
def candidateOwner (s : Db) (driveId : Nat) (candidates : List Str) (job : ExportJob) : Bool :=
  let held := s.assignments.any fun a =>
    a.driveId = driveId ∧ a.jobId = job.id ∧ a.releasedAt = none
  let left := s.assignments.any fun a =>
    a.driveId = driveId ∧ a.jobId = job.id ∧ a.releasedAt ≠ none
  let target := normpath (job.targetMountPath.getD "None".toList)
  (held ∧ (candidates = [] ∨ target ∈ candidates)) ∨
    ((job.targetMountPath.any fun path => path ∈ candidates) ∧ (left → held))

/-- `_resolve_usb_drive_owner`: the project of the candidates, if they have just one. -/
def resolveUsbDriveOwner (s : Db) (driveId : Nat) (candidates : List Str) : Option ProjectId :=
  match ((s.jobs.rows.filter (candidateOwner s driveId candidates)).map
    ExportJob.projectId).dedup with
  | [project] => some project
  | _ => none

/-! ### One drive -/

/-- The columns that a pass changes; a column keeps its value otherwise. -/
structure DriveChanges where
  currentState : Option DriveState
  currentProjectId : Option (Option ProjectId)
  mountPath : Option (Option Str)
  deriving DecidableEq

def DriveChanges.none : DriveChanges := ⟨.none, .none, .none⟩

def DriveChanges.apply (c : DriveChanges) (d : UsbDrive) : UsbDrive :=
  { d with
    currentState := c.currentState.getD d.currentState
    currentProjectId := c.currentProjectId.getD d.currentProjectId
    mountPath := c.mountPath.getD d.mountPath }

theorem DriveChanges.apply_id (c : DriveChanges) (d : UsbDrive) : (c.apply d).id = d.id := rfl

/-- An attribute that is set to the value it has is not written. -/
def changed {α : Type} [DecidableEq α] (old new : α) : Option α := if old = new then none else some new

theorem getD_changed {α : Type} [DecidableEq α] (old new : α) : (changed old new).getD old = new := by
  rw [changed]
  split
  next same => exact same
  next => rfl

/-- What the provider answers while a drive is treated, and whether the mount
table could be read. -/
structure DriveAnswers where
  readable : Bool
  unmounted : Bool
  mounted : Bool
  deriving DecidableEq

/-- What a pass does about one drive: the mount point it unmounts, the device it
calls `mount_drive` on, and the columns it changes. -/
structure Treatment where
  unmounted : Option Str
  mountCalled : Option Str
  changes : DriveChanges
  deriving DecidableEq

/-- The managed slot of a drive. -/
def expectedTarget (cfg : Settings) (driveId : Nat) : Str := normpath (mountPoint cfg driveId)

/-- A drive that is in use without a project. -/
def missingBinding (drive : UsbDrive) : Bool :=
  drive.currentState = .inUse ∧ drive.currentProjectId = none

/-- `_release_usb_drive_without_owner`. -/
def releaseDrive (drive : UsbDrive) (actual : Option Str) (answers : DriveAnswers) : Treatment :=
  let released : DriveChanges :=
    ⟨changed drive.currentState .available, changed drive.currentProjectId none,
      changed drive.mountPath none⟩
  match truthy actual with
  | none => ⟨none, none, released⟩
  | some path => if answers.unmounted then ⟨some path, none, released⟩ else ⟨none, none, .none⟩

/-- Mount the drive at its slot, after the unmount of another mount point. -/
def remountDrive (cfg : Settings) (drive : UsbDrive) (binding : DriveChanges)
    (unmounted : Option Str) (answers : DriveAnswers) : Treatment :=
  match truthy drive.filesystemPath with
  | none => ⟨unmounted, none, binding⟩
  | some path => ⟨unmounted, some path,
      if answers.mounted then
        { binding with mountPath := changed drive.mountPath (some (expectedTarget cfg drive.id)) }
      else binding⟩

/-- Bring the mount of the drive to its slot; `binding` is what is already changed. -/
def placeDrive (cfg : Settings) (drive : UsbDrive) (binding : DriveChanges) (actual : Option Str)
    (answers : DriveAnswers) : Treatment :=
  if actual = some (expectedTarget cfg drive.id) then
    ⟨none, none,
      { binding with mountPath := changed drive.mountPath (some (expectedTarget cfg drive.id)) }⟩
  else match truthy actual with
    | none => remountDrive cfg drive binding none answers
    | some path =>
        if answers.unmounted then remountDrive cfg drive binding (some path) answers
        else ⟨none, none, binding⟩

def treatDrive (cfg : Settings) (s : Db) (drive : UsbDrive) (actual : Option Str)
    (answers : DriveAnswers) : Treatment :=
  if missingBinding drive then
    match resolveUsbDriveOwner s drive.id (normalizedUsbMountCandidates
        [actual, some (expectedTarget cfg drive.id), drive.mountPath]) with
    | some project =>
        placeDrive cfg drive { DriveChanges.none with currentProjectId := some (some project) } actual
          answers
    | none => releaseDrive drive actual answers
  else placeDrive cfg drive .none actual answers

/-! ### Which calls a treatment makes -/

/-- A drive in use without a project that has no owner either. -/
def ownerless (cfg : Settings) (s : Db) (drive : UsbDrive) (actual : Option Str) : Bool :=
  missingBinding drive ∧ resolveUsbDriveOwner s drive.id (normalizedUsbMountCandidates
    [actual, some (expectedTarget cfg drive.id), drive.mountPath]) = none

/-- A drive without an owner is released, any other drive is placed. -/
theorem treatDrive_eq (cfg : Settings) (s : Db) (drive : UsbDrive) (actual : Option Str)
    (answers : DriveAnswers) :
    (ownerless cfg s drive actual = true ∧
      treatDrive cfg s drive actual answers = releaseDrive drive actual answers) ∨
    (ownerless cfg s drive actual = false ∧ ∃ binding : DriveChanges, binding.mountPath = none ∧
      treatDrive cfg s drive actual answers = placeDrive cfg drive binding actual answers) := by
  rw [treatDrive, ownerless]
  by_cases missing : missingBinding drive = true
  · simp only [missing, if_true, true_and]
    cases resolveUsbDriveOwner s drive.id (normalizedUsbMountCandidates
        [actual, some (expectedTarget cfg drive.id), drive.mountPath]) with
    | none => exact .inl ⟨by simp, rfl⟩
    | some project => exact .inr ⟨by simp, _, rfl, rfl⟩
  · simp only [missing]
    exact .inr ⟨by simp, _, rfl, rfl⟩

section Treatments

variable {cfg : Settings} {s : Db} {drive : UsbDrive} {actual : Option Str} {answers : DriveAnswers}

/-- Only the mount point that was found is unmounted. -/
theorem unmounted_treatDrive {path : Str}
    (h : (treatDrive cfg s drive actual answers).unmounted = some path) : actual = some path := by
  rcases treatDrive_eq cfg s drive actual answers with ⟨-, same⟩ | ⟨-, binding, -, same⟩
  · rw [same, releaseDrive] at h
    split at h
    · cases h
    next given =>
      split at h
      · cases h
        exact truthy_eq_some given
      · cases h
  · have remounted : ∀ unmounted : Option Str,
        (remountDrive cfg drive binding unmounted answers).unmounted = unmounted := by
      intro unmounted
      rw [remountDrive]
      cases truthy drive.filesystemPath <;> rfl
    rw [same, placeDrive] at h
    split at h
    · cases h
    split at h
    · cases (remounted none).symm.trans h
    next given =>
      split at h
      · cases (remounted _).symm.trans h
        exact truthy_eq_some given
      · cases h

/-- Only the device of the drive is mounted. -/
theorem mountCalled_treatDrive {path : Str}
    (h : (treatDrive cfg s drive actual answers).mountCalled = some path) :
    truthy drive.filesystemPath = some path := by
  rcases treatDrive_eq cfg s drive actual answers with ⟨-, same⟩ | ⟨-, binding, -, same⟩
  · rw [same, releaseDrive] at h
    split at h
    · cases h
    · split at h <;> cases h
  · have remounted : ∀ unmounted : Option Str,
        (remountDrive cfg drive binding unmounted answers).mountCalled =
          truthy drive.filesystemPath := by
      intro unmounted
      rw [remountDrive]
      cases truthy drive.filesystemPath <;> rfl
    rw [same, placeDrive] at h
    split at h
    · cases h
    split at h
    · exact (remounted none).symm.trans h
    · split at h
      · exact (remounted _).symm.trans h
      · cases h

end Treatments

/-! ### A pass -/

/-- The database and the mount table. -/
structure MountHost (os : OperatingSystem) where
  db : Db
  table : MountTable os

/-- The answers of a pass: for each drive, and for each orphan mount point. -/
structure PassAnswers where
  drive : Nat → DriveAnswers
  readable : Bool
  orphan : Str → Bool

/-- The drives that a pass looks at. -/
def considered (drive : UsbDrive) : Bool :=
  drive.filesystemPath ≠ none ∧ (drive.currentState = .available ∨ drive.currentState = .inUse)

def consideredIds (s : Db) : List Nat := (s.drives.rows.filter considered).map UsbDrive.id

/-- `_is_direct_child_of`. -/
def isDirectChildOf (os : OperatingSystem) (path managedRoot : Str) : Bool :=
  dirname (os.realpath path) = os.realpath managedRoot

/-- A mount point below the managed root that is not the slot of a drive, and
that the provider unmounts. -/
def orphaned (os : OperatingSystem) (cfg : Settings) (answers : PassAnswers) (expected : List Str)
    (target : Str) : Bool :=
  isDirectChildOf os (normpath target) cfg.usbMountBasePath ∧ normpath target ∉ expected ∧
    answers.orphan target

namespace MountHost

variable {os : OperatingSystem}

/-- Where the mount table shows the device of the drive. -/
def actualTarget (h : MountHost os) (drive : UsbDrive) (readable : Bool) : Option Str :=
  (truthy drive.filesystemPath).bind
    (findDeviceMountPoint os (h.table.readMountTable readable))

/-- The table after the unmount of a treatment. -/
def cleared (t : MountTable os) (w : Treatment) : MountTable os :=
  match w.unmounted with
  | some path => t.unmount path
  | none => t

def treatment (cfg : Settings) (answers : PassAnswers) (h : MountHost os) (drive : UsbDrive) :
    Treatment :=
  treatDrive cfg h.db drive (h.actualTarget drive (answers.drive drive.id).readable)
    (answers.drive drive.id)

def tableAfter (cfg : Settings) (answers : PassAnswers) (t : MountTable os) (drive : UsbDrive)
    (w : Treatment) : MountTable os :=
  match w.mountCalled with
  | some path =>
      if (answers.drive drive.id).mounted then
        (cleared t w).mountDrive path (expectedTarget cfg drive.id)
      else cleared t w
  | none => cleared t w

def reconcileDrive (cfg : Settings) (answers : PassAnswers) (h : MountHost os) (driveId : Nat) :
    MountHost os :=
  match h.db.drives.get driveId with
  | none => h
  | some drive =>
      let w := h.treatment cfg answers drive
      ⟨h.db.modifyDrive driveId w.changes.apply w.changes.apply_id,
        tableAfter cfg answers h.table drive w⟩

def sweepOrphans (cfg : Settings) (answers : PassAnswers) (expected : List Str)
    (h : MountHost os) : MountHost os :=
  let targets := (h.table.readMountTable answers.readable).map Prod.fst
  let orphans := targets.filter (orphaned os cfg answers expected)
  ⟨h.db, h.table.unmounts (orphans.map normpath)⟩

/-- `_reconcile_usb_mounts`, when its commit is accepted. -/
def reconcileUsbMounts (cfg : Settings) (answers : PassAnswers) (h : MountHost os) : MountHost os :=
  let ids := consideredIds h.db
  (Transition.exec (reconcileDrive cfg answers) h ids).sweepOrphans cfg answers
    (ids.map (expectedTarget cfg))

end MountHost

end Ecube
