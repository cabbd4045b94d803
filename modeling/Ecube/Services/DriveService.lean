import Mathlib.Algebra.GroupWithZero.Nat
import Ecube.Services.Checks

/-!
The drive service (`app/services/drive_service.py`): initialising, mounting,
preparing for eject and formatting USB drives.

The answers of the operating system (whether a mount, an unmount or a format
succeeds, whether a device is mounted) are arguments.
-/

namespace Ecube

open PosixPath

def rejectPendingDriveFormat (s : Db) (drive : UsbDrive) (action : String) : Except Reject Unit :=
  ensure (drive.formatStatus ≠ some .pending) (refuse s 409
    ("Drive format is already in progress; wait for formatting to complete before attempting to "
      ++ action))

def isLetter (c : Char) : Bool := ('a' ≤ c ∧ c ≤ 'z') ∨ ('A' ≤ c ∧ c ≤ 'Z')

def isDigit (c : Char) : Bool := '0' ≤ c ∧ c ≤ '9'

/-- `^/dev/[a-zA-Z][a-zA-Z0-9]*$`; as in the pattern, one final newline is ignored. -/
def validateDevicePath (path : Str) : Bool :=
  let line := if path.getLast? = some '\n' then path.dropLast else path
  match line with
  | '/' :: 'd' :: 'e' :: 'v' :: '/' :: c :: rest => isLetter c && rest.all fun c => isLetter c || isDigit c
  | _ => false

/-- File systems a drive can be mounted and initialised with. -/
def recognizedFilesystem (filesystemType : Option String) : Bool :=
  filesystemType ∉ [none, some "unformatted", some "unknown"]

def initializeDrive (s : Db) (driveId : Nat) (projectId : ProjectId) : Except Reject Db := do
  let project := String.ofList projectId.val
  let drive ← orReject (s.drives.get driveId) (refuse s 404 "Drive not found")
  rejectPendingDriveFormat s drive "initialize this drive"
  ensure (drive.currentState ≠ .disconnected) (refuse s 409
    "Drive is DISCONNECTED (not physically present) and cannot be initialized.")
  ensure (drive.currentState ≠ .disabled) (refuse s 409
    "Drive is DISABLED (physically present on a disabled port) and cannot be initialized.")
  -- A drive in use is denied outright; an available one has to be formatted first.
  let bound := String.ofList ((drive.currentProjectId.map Subtype.val).getD [])
  ensure (drive.currentProjectId = none ∨ drive.currentProjectId = some projectId ∨
      drive.currentState ≠ .inUse)
    (refuse s 403 s!"Drive is already assigned to project '{bound}'")
  ensure (drive.currentProjectId = none ∨ drive.currentProjectId = some projectId) (refuse s 409
    (s!"Drive previously used for project '{bound}'. "
      ++ "Format the drive to wipe existing data before assigning to a new project."))
  let filesystem := drive.filesystemType.getD "NULL"
  ensure (recognizedFilesystem drive.filesystemType) (refuse s 409
    ("Drive must have a recognized filesystem before initialization. "
      ++ s!"Current filesystem_type: {filesystem}"))
  ensure (truthy drive.mountPath ≠ none)
    (refuse s 409 "Drive must be mounted before it can be initialized for a project.")
  ensure (s.getMountedProject projectId ≠ none) (refuse s 409
    (s!"No mounted share is assigned to project {project}. "
      ++ "Mount a share for this project before initializing a drive."))
  return s.modifyDrive driveId
    (fun d => { d with currentProjectId := some projectId, currentState := .inUse })
    (UsbDrive.taken_id projectId)

/-- The answer of the mount provider. -/
inductive MountResult where
  | mounted
  | alreadyMounted
  | failed (statusCode : Nat) (detail : String)
  deriving DecidableEq, Repr

/-- The mount point of a drive: `<usb_mount_base_path>/<drive id>`. -/
def mountPoint (cfg : Settings) (driveId : Nat) : Str :=
  join cfg.usbMountBasePath (toString driveId).toList

def mountDrive (cfg : Settings) (s : Db) (driveId : Nat) (result : MountResult) :
    Except Reject Db := do
  let drive ← orReject (s.drives.get driveId) (refuse s 404 "Drive not found")
  rejectPendingDriveFormat s drive "mount this drive"
  ensure (drive.currentState = .available ∨ drive.currentState = .inUse)
    (refuse s 409 "Drive must be AVAILABLE or IN_USE before it can be mounted")
  ensure (recognizedFilesystem drive.filesystemType)
    (refuse s 409 "Drive must have a recognized filesystem before it can be mounted")
  let path ← orReject (truthy drive.filesystemPath)
    (refuse s 400 "Drive has no filesystem_path and cannot be mounted")
  ensure (validateDevicePath path)
    (refuse s 400 "Drive filesystem_path is invalid and cannot be mounted")
  ensure (truthy drive.mountPath = none) (refuse s 409 "Drive is already mounted")
  match result with
  | .mounted =>
      return s.modifyDrive driveId
        (fun d => { d with mountPath := some (mountPoint cfg driveId) }) fun _ => rfl
  | .alreadyMounted =>
      .error (refuse s 409 "Drive is already mounted; refresh drive status and retry")
  | .failed statusCode detail => .error (refuse s statusCode detail)

/-- A started job that is not finished and still holds the drive, by its
newest assignment. -/
def blockingJob (s : Db) (driveId : Nat) : Option ExportJob :=
  (s.assignments.first (fun a => a.driveId = driveId ∧ a.releasedAt = none ∧
      (s.jobs.get a.jobId).any fun j => j.status ∈ prepareEjectBlockingJobStatuses)
    fun a b => b.assignedAt ≤ a.assignedAt).bind fun a => s.jobs.get a.jobId

/-- Failed and timed-out files of the jobs that still hold the drive. -/
def incompleteFileCount (s : Db) (driveId : Nat) : Nat :=
  ((s.assignments.rows.filter fun a => a.driveId = driveId ∧ a.releasedAt = none).map fun a =>
    s.retryableCount a.jobId).sum

/-- The state in which `prepare_eject` accepts a drive: in use, or available
and still mounted. -/
def rejectNotEjectable (s : Db) (drive : UsbDrive) : Except Reject Unit := do
  ensure (drive.currentState = .available → truthy drive.mountPath ≠ none)
    (refuse s 409 "Drive is not mounted; refresh drive status and retry prepare-eject")
  ensure (drive.currentState = .available ∨ drive.currentState = .inUse) (refuse s 409
    (if truthy drive.mountPath ≠ none then
      "Drive mount state is stale or changed; refresh drive status and retry prepare-eject"
    else "Drive is not in an ejectable state; cannot prepare eject (current state: "
      ++ drive.currentState.value ++ ")"))

/-- The first read of `prepare_eject`. -/
def ejectableDrive (s : Db) (driveId : Nat) : Except Reject UsbDrive := do
  let drive ← orReject (s.drives.get driveId) (refuse s 404 "Drive not found")
  rejectPendingDriveFormat s drive "prepare-eject this drive"
  rejectNotEjectable s drive
  return drive

def rejectBlockingJob (s : Db) (driveId : Nat) : Except Reject Unit :=
  match blockingJob s driveId with
  | some job =>
      .error (refuse s 409
        (s!"Drive cannot be prepared for eject while assigned job {job.id} "
          ++ s!"has started and is not yet completed (current status: {job.status.value})"))
  | none => .ok ()

def rejectUnconfirmedFiles (s : Db) (driveId : Nat) (confirmIncomplete : Bool) :
    Except Reject Unit :=
  let count := incompleteFileCount s driveId
  ensure (count = 0 ∨ confirmIncomplete) (refuse s 409
    (s!"EJECT_CONFIRM_REQUIRED: This drive has {count} incomplete file(s) "
      ++ "(timed out or failed) in active assignments. Confirm eject to continue."))

/-- What `prepare_eject` reads before it unmounts the drive. -/
def ejectChecks (s : Db) (driveId : Nat) (confirmIncomplete : Bool) : Except Reject UsbDrive := do
  let drive ← ejectableDrive s driveId
  rejectBlockingJob s driveId
  rejectUnconfirmedFiles s driveId confirmIncomplete
  return drive

def ejected (s : Db) (driveId : Nat) : Db :=
  s.modifyDrive driveId (fun d => { d with currentState := .available, mountPath := none })
    fun _ => rfl

/-- The answer of the eject provider; a failure may be one the operator can resolve. -/
inductive EjectResult where
  | success
  | recoverable (detail : String)
  | failed
  deriving DecidableEq, Repr

/-- `prepare_eject` when nothing else happens between its checks and its commit. -/
def prepareEject (s : Db) (driveId : Nat) (confirmIncomplete : Bool) (result : EjectResult) :
    Except Reject Db := do
  let _ ← ejectChecks s driveId confirmIncomplete
  match result with
  | .success => return ejected s driveId
  | .recoverable detail => .error (refuse s 409 detail)
  | .failed => .error (refuse s 500 "Drive eject preparation failed")

def requestDriveFormat (s : Db) (driveId : Nat) (isMounted : Bool) : Except Reject Db := do
  let drive ← orReject (s.drives.get driveId) (refuse s 404 "Drive not found")
  rejectPendingDriveFormat s drive "format this drive again"
  ensure (drive.currentState = .available) (refuse s 409
    s!"Drive must be in AVAILABLE state to format (current: {drive.currentState.value})")
  let path ← orReject (truthy drive.filesystemPath)
    (refuse s 400 "Drive has no filesystem_path; cannot format")
  ensure (validateDevicePath path)
    (refuse s 400 s!"Invalid device path: '{String.ofList path}'")
  ensure (truthy drive.mountPath = none)
    (refuse s 409 "Drive is currently mounted; unmount before formatting")
  ensure (isMounted = false)
    (refuse s 409 "Drive is currently mounted; unmount before formatting")
  return s.modifyDrive driveId
    (fun d => { d with formatStatus := some .pending, formatFailureMessage := none }) fun _ => rfl

/-- `_set_drive_format_failure`. -/
def formatFailed (s : Db) (driveId : Nat) (detail : String) : Db :=
  s.modifyDrive driveId (fun d => { d with
    formatStatus := some .failed, formatFailureMessage := some detail }) fun _ => rfl

/-- The background task of a drive format. `failure` is the formatter's error, if any. -/
def completeDriveFormat (s : Db) (driveId : Nat) (filesystemType : String) (isMounted : Bool)
    (failure : Option String) : Db :=
  match s.drives.get driveId with
  | none => s
  | some drive =>
      if drive.formatStatus ≠ some .pending then s
      else if drive.currentState ≠ .available then
        formatFailed s driveId
          "Drive is no longer available for formatting; refresh drive status and retry"
      else if ¬ (truthy drive.filesystemPath).any validateDevicePath then
        formatFailed s driveId
          "Drive device path is unavailable; refresh drive status and retry"
      else if truthy drive.mountPath ≠ none ∨ isMounted then
        formatFailed s driveId "Drive is mounted; unmount before formatting and retry"
      else match failure with
        | some detail => formatFailed s driveId detail
        | none =>
            s.modifyDrive driveId (fun d => { d with
              filesystemType := some filesystemType
              availableBytes := none
              formatStatus := none
              formatFailureMessage := none
              currentProjectId := none }) fun _ => rfl

/-! ### What accepted requests have checked and written -/

theorem initializeDrive_eq_ok {s s' : Db} {driveId : Nat} {projectId : ProjectId}
    (h : initializeDrive s driveId projectId = .ok s') :
    ∃ drive, s.drives.get driveId = some drive ∧
      (drive.currentProjectId = none ∨ drive.currentProjectId = some projectId) ∧
      s' = s.modifyDrive driveId (fun d => { d with
        currentProjectId := some projectId, currentState := .inUse }) fun _ => rfl := by
  simp only [initializeDrive, bind_eq_ok, orReject_eq_ok, ensure_eq_ok, pure_eq_ok] at h
  obtain ⟨drive, found, -, -, -, -, -, -, -, -, -, project, -, -, -, -, -, -, rfl⟩ := h
  exact ⟨drive, found, project, rfl⟩

theorem leaves_initializeDrive {P : Db → Prop} {s : Db} {driveId : Nat} {projectId : ProjectId}
    (hs : P s) : Leaves P (initializeDrive s driveId projectId) := by
  refine .bind (.orReject hs) fun _ _ => .bind (.ensure hs) fun _ _ => ?_
  refine .bind (.ensure hs) fun _ _ => .bind (.ensure hs) fun _ _ => ?_
  refine .bind (.ensure hs) fun _ _ => .bind (.ensure hs) fun _ _ => ?_
  refine .bind (.ensure hs) fun _ _ => .bind (.ensure hs) fun _ _ => ?_
  exact .bind (.ensure hs) fun _ _ => .pure _

theorem mountDrive_eq_ok {cfg : Settings} {s s' : Db} {driveId : Nat} {result : MountResult}
    (h : mountDrive cfg s driveId result = .ok s') :
    ∃ drive, s.drives.get driveId = some drive ∧ truthy drive.mountPath = none ∧
      s' = s.modifyDrive driveId
        (fun d => { d with mountPath := some (mountPoint cfg driveId) }) fun _ => rfl := by
  simp only [mountDrive, bind_eq_ok, orReject_eq_ok, ensure_eq_ok] at h
  obtain ⟨drive, found, -, -, -, -, -, -, -, -, -, -, -, unmounted, h⟩ := h
  cases result with
  | mounted => exact ⟨drive, found, unmounted, (pure_eq_ok.mp h).symm⟩
  | alreadyMounted => cases h
  | failed statusCode detail => cases h

theorem leaves_mountDrive {P : Db → Prop} {cfg : Settings} {s : Db} {driveId : Nat}
    {result : MountResult} (hs : P s) : Leaves P (mountDrive cfg s driveId result) := by
  refine .bind (.orReject hs) fun _ _ => .bind (.ensure hs) fun _ _ => ?_
  refine .bind (.ensure hs) fun _ _ => .bind (.ensure hs) fun _ _ => ?_
  refine .bind (.orReject hs) fun _ _ => .bind (.ensure hs) fun _ _ => ?_
  refine .bind (.ensure hs) fun _ _ => ?_
  cases result with
  | mounted => exact .pure _
  | alreadyMounted => exact .error hs
  | failed statusCode detail => exact .error hs

/-- Without a blocking job, no job that has started and not finished holds the drive. -/
theorem blockingJob_eq_none_iff {s : Db} {driveId : Nat} :
    blockingJob s driveId = none ↔ ∀ a ∈ s.assignments, a.driveId = driveId → a.releasedAt = none →
      ∀ j ∈ s.jobs, j.id = a.jobId → j.status ∉ prepareEjectBlockingJobStatuses := by
  rw [blockingJob, Option.bind_eq_none_iff]
  constructor
  · intro h a ha drive held j hj job blocking
    have found : s.jobs.get a.jobId = some j := Table.get_eq_some_iff.mpr ⟨hj, job⟩
    -- The query cannot come back empty, and each of its answers names a job.
    cases first : s.assignments.first (fun a => a.driveId = driveId ∧ a.releasedAt = none ∧
        (s.jobs.get a.jobId).any fun j => j.status ∈ prepareEjectBlockingJobStatuses)
      fun a b => b.assignedAt ≤ a.assignedAt with
    | none =>
        have := Table.first_eq_none_iff.mp first a ha
        simp [drive, held, found, blocking] at this
    | some b =>
        have hp := (Table.mem_of_first first).2
        rw [decide_eq_true_eq] at hp
        have gone := h b first
        rw [gone] at hp
        simp at hp
  · intro h b first
    obtain ⟨hb, hp⟩ := Table.mem_of_first first
    rw [decide_eq_true_eq] at hp
    obtain ⟨drive, held, blocking⟩ := hp
    obtain ⟨j, found, status⟩ := (Option.any_eq_true _ _).mp blocking
    have open_ := h b hb drive held j (Table.mem_of_get found) (Table.id_of_get found)
    exact absurd (of_decide_eq_true status) open_

theorem ejectableDrive_eq_ok {s : Db} {driveId : Nat} {drive : UsbDrive}
    (h : ejectableDrive s driveId = .ok drive) : s.drives.get driveId = some drive := by
  simp only [ejectableDrive, bind_eq_ok, orReject_eq_ok, pure_eq_ok] at h
  obtain ⟨d, found, -, -, -, -, rfl⟩ := h
  exact found

theorem rejectBlockingJob_eq_ok {s : Db} {driveId : Nat} {u : Unit} :
    rejectBlockingJob s driveId = .ok u ↔ blockingJob s driveId = none := by
  rw [rejectBlockingJob]
  cases blockingJob s driveId <;> simp

theorem ejectChecks_eq_ok {s : Db} {driveId : Nat} {confirmIncomplete : Bool} {drive : UsbDrive} :
    ejectChecks s driveId confirmIncomplete = .ok drive ↔
      ejectableDrive s driveId = .ok drive ∧ blockingJob s driveId = none ∧
        (incompleteFileCount s driveId = 0 ∨ confirmIncomplete = true) := by
  simp only [ejectChecks, bind_eq_ok, rejectBlockingJob_eq_ok, rejectUnconfirmedFiles, ensure_eq_ok,
    pure_eq_ok]
  constructor
  · rintro ⟨d, readable, -, free, -, confirmed, rfl⟩
    exact ⟨readable, free, confirmed⟩
  · rintro ⟨readable, free, confirmed⟩
    exact ⟨drive, readable, (), free, (), confirmed, rfl⟩

theorem prepareEject_eq_ok {s s' : Db} {driveId : Nat} {confirmIncomplete : Bool}
    {result : EjectResult} (h : prepareEject s driveId confirmIncomplete result = .ok s') :
    ∃ drive, ejectChecks s driveId confirmIncomplete = .ok drive ∧ s' = ejected s driveId ∧
      result = .success := by
  simp only [prepareEject, bind_eq_ok] at h
  obtain ⟨drive, checks, h⟩ := h
  cases result with
  | success => exact ⟨drive, checks, (pure_eq_ok.mp h).symm, rfl⟩
  | recoverable detail => cases h
  | failed => cases h

theorem leaves_ejectableDrive {P : Db → Prop} {s : Db} {driveId : Nat} (hs : P s) :
    Leaves P (ejectableDrive s driveId) := by
  refine .bind (.orReject hs) fun _ _ => .bind (.ensure hs) fun _ _ => ?_
  exact .bind (.bind (.ensure hs) fun _ _ => .ensure hs) fun _ _ => .pure _

theorem leaves_rejectBlockingJob {P : Db → Prop} {s : Db} {driveId : Nat} (hs : P s) :
    Leaves P (rejectBlockingJob s driveId) := by
  rw [rejectBlockingJob]
  split
  · exact .error hs
  · exact .ok ()

theorem leaves_prepareEject {P : Db → Prop} {s : Db} {driveId : Nat} {confirmIncomplete : Bool}
    {result : EjectResult} (hs : P s) :
    Leaves P (prepareEject s driveId confirmIncomplete result) := by
  refine .bind ?_ fun _ _ => ?_
  · refine .bind (leaves_ejectableDrive hs) fun _ _ => ?_
    refine .bind (leaves_rejectBlockingJob hs) fun _ _ => ?_
    exact .bind (.ensure hs) fun _ _ => .pure _
  · cases result with
    | success => exact .pure _
    | recoverable detail => exact .error hs
    | failed => exact .error hs

theorem requestDriveFormat_eq_ok {s s' : Db} {driveId : Nat} {isMounted : Bool}
    (h : requestDriveFormat s driveId isMounted = .ok s') :
    s' = s.modifyDrive driveId (fun d => { d with
      formatStatus := some .pending, formatFailureMessage := none }) fun _ => rfl := by
  simp only [requestDriveFormat, bind_eq_ok, orReject_eq_ok, ensure_eq_ok, pure_eq_ok] at h
  obtain ⟨drive, -, -, -, -, -, -, -, -, -, -, -, -, -, rfl⟩ := h
  rfl

theorem leaves_requestDriveFormat {P : Db → Prop} {s : Db} {driveId : Nat} {isMounted : Bool}
    (hs : P s) : Leaves P (requestDriveFormat s driveId isMounted) := by
  refine .bind (.orReject hs) fun _ _ => .bind (.ensure hs) fun _ _ => ?_
  refine .bind (.ensure hs) fun _ _ => .bind (.orReject hs) fun _ _ => ?_
  refine .bind (.ensure hs) fun _ _ => .bind (.ensure hs) fun _ _ => ?_
  exact .bind (.ensure hs) fun _ _ => .pure _

/-- The database after a drive format that succeeded. -/
def formatted (s : Db) (driveId : Nat) (filesystemType : String) : Db :=
  s.modifyDrive driveId (fun d => { d with
    filesystemType := some filesystemType
    availableBytes := none
    formatStatus := none
    formatFailureMessage := none
    currentProjectId := none }) fun _ => rfl

/-- The drive may be formatted: its format is pending and nothing uses the drive. -/
structure Formattable (d : UsbDrive) : Prop where
  pending : d.formatStatus = some .pending
  available : d.currentState = .available
  device : (truthy d.filesystemPath).any validateDevicePath = true
  unmounted : truthy d.mountPath = none

/-- A format task does nothing, records a failure, or wipes a formattable drive
that no mount table names. -/
theorem completeDriveFormat_cases (s : Db) (driveId : Nat) (filesystemType : String)
    (isMounted : Bool) (failure : Option String) :
    completeDriveFormat s driveId filesystemType isMounted failure = s ∨
      (∃ detail, completeDriveFormat s driveId filesystemType isMounted failure =
        formatFailed s driveId detail) ∨
      ∃ drive, s.drives.get driveId = some drive ∧ Formattable drive ∧
        isMounted = false ∧ failure = none ∧
        completeDriveFormat s driveId filesystemType isMounted failure =
          formatted s driveId filesystemType := by
  unfold completeDriveFormat
  cases found : s.drives.get driveId with
  | none => exact .inl rfl
  | some drive =>
      dsimp only
      split
      · exact .inl rfl
      split
      · exact .inr (.inl ⟨_, rfl⟩)
      split
      · exact .inr (.inl ⟨_, rfl⟩)
      split
      · exact .inr (.inl ⟨_, rfl⟩)
      rename_i pending available device unmounted
      cases failure with
      | some detail => exact .inr (.inl ⟨_, rfl⟩)
      | none =>
          rw [not_or, not_not, Bool.not_eq_true] at unmounted
          exact .inr (.inr ⟨drive, rfl, ⟨not_not.mp pending, not_not.mp available,
            not_not.mp device, unmounted.1⟩, unmounted.2, rfl, rfl⟩)

end Ecube
