import Ecube.Basic.PosixPath
import Ecube.Basic.Table

/-!
The database of the export workflow (`app/models`).

Rows keep the columns that the modelled services read or write. Project
identifiers are canonical when they reach a service (trimmed, upper case and
not empty), so a `ProjectId` is a non-empty string and a drive without a
binding has none. Times are numbers; only their order is used.
-/

namespace Ecube

/-- A canonical project identifier. -/
abbrev ProjectId := {s : Str // s ≠ []}

inductive JobStatus where
  | pending | preparing | running | pausing | paused | completed | failed | verifying | archived
  deriving DecidableEq, Repr

inductive FileStatus where
  | pending | copying | done | error | retrying | timeout
  deriving DecidableEq, Repr

inductive StartupAnalysisStatus where
  | notAnalyzed | analyzing | ready | stale | failed
  deriving DecidableEq, Repr

inductive DriveState where
  | disconnected | disabled | available | inUse
  deriving DecidableEq, Repr

inductive DriveFormatStatus where
  | pending | failed
  deriving DecidableEq, Repr

inductive MountStatus where
  | mounted | unmounted | error
  deriving DecidableEq, Repr

def JobStatus.value : JobStatus → String
  | pending => "PENDING"
  | preparing => "PREPARING"
  | running => "RUNNING"
  | pausing => "PAUSING"
  | paused => "PAUSED"
  | completed => "COMPLETED"
  | failed => "FAILED"
  | verifying => "VERIFYING"
  | archived => "ARCHIVED"

def DriveState.value : DriveState → String
  | disconnected => "DISCONNECTED"
  | disabled => "DISABLED"
  | available => "AVAILABLE"
  | inUse => "IN_USE"

/-- The startup-analysis columns of a job. -/
structure StartupAnalysis where
  status : StartupAnalysisStatus
  fileCount : Option Nat
  totalBytes : Option Nat
  cachePresent : Bool
  entries : Bool
  deriving DecidableEq, Repr

structure ExportJob where
  id : Nat
  projectId : ProjectId
  evidenceNumber : String
  sourcePath : Str
  targetMountPath : Option Str
  status : JobStatus
  totalBytes : Nat
  copiedBytes : Nat
  fileCount : Nat
  threadCount : Option Nat
  copyChunkSizeBytes : Option Nat
  copyProgressFlushBytes : Option Nat
  copyFileFsyncEnabled : Option Bool
  maxFileRetries : Nat
  retryDelaySeconds : Nat
  startedAt : Option Nat
  copyStartedAt : Option Nat
  completedAt : Option Nat
  createdAt : Nat
  callbackUrl : Option String
  failureReason : Option String
  startupAnalysis : StartupAnalysis
  deriving DecidableEq, Repr

structure ExportFile where
  id : Nat
  jobId : Nat
  driveAssignmentId : Option Nat
  relativePath : Str
  sizeBytes : Nat
  checksum : Option Str
  status : FileStatus
  errorMessage : Option String
  retryAttempts : Nat
  deriving DecidableEq, Repr

structure DriveAssignment where
  id : Nat
  driveId : Nat
  jobId : Nat
  assignedAt : Nat
  activatedAt : Option Nat
  releasedAt : Option Nat
  deriving DecidableEq, Repr

structure UsbDrive where
  id : Nat
  filesystemPath : Option Str
  filesystemType : Option String
  availableBytes : Option Nat
  currentState : DriveState
  currentProjectId : Option ProjectId
  mountPath : Option Str
  formatStatus : Option DriveFormatStatus
  formatFailureMessage : Option String
  deriving DecidableEq, Repr

structure NetworkShare where
  id : Nat
  projectId : ProjectId
  localMountPoint : Str
  status : MountStatus
  deriving DecidableEq, Repr

instance : Row ExportJob := ⟨ExportJob.id⟩
instance : Row ExportFile := ⟨ExportFile.id⟩
instance : Row DriveAssignment := ⟨DriveAssignment.id⟩
instance : Row UsbDrive := ⟨UsbDrive.id⟩
instance : Row NetworkShare := ⟨NetworkShare.id⟩

theorem ExportJob.relocated_id (sourcePath : Str) (j : ExportJob) :
    ({ j with sourcePath := sourcePath } : ExportJob).id = j.id := rfl

theorem ExportFile.pending_id (f : ExportFile) :
    ({ f with status := .pending } : ExportFile).id = f.id := rfl

theorem UsbDrive.taken_id (projectId : ProjectId) (d : UsbDrive) :
    ({ d with currentProjectId := some projectId, currentState := .inUse } : UsbDrive).id = d.id := rfl

/-- An assignment the job writes to or has written to and not left. -/
def DriveAssignment.active (a : DriveAssignment) : Bool :=
  a.activatedAt.isSome && a.releasedAt.isNone

/-- An overflow reservation: neither activated nor released. -/
def DriveAssignment.reserved (a : DriveAssignment) : Bool :=
  a.activatedAt.isNone && a.releasedAt.isNone

/-- The tables, as committed. -/
structure Db where
  jobs : Table ExportJob
  files : Table ExportFile
  assignments : Table DriveAssignment
  drives : Table UsbDrive
  shares : Table NetworkShare

namespace Db

/-! ### Single writes -/

def modifyJob (s : Db) (k : Nat) (f : ExportJob → ExportJob) (key : ∀ r, (f r).id = r.id) : Db :=
  { s with jobs := s.jobs.modify k f key }

def modifyDrive (s : Db) (k : Nat) (f : UsbDrive → UsbDrive) (key : ∀ r, (f r).id = r.id) : Db :=
  { s with drives := s.drives.modify k f key }

def setDriveState (s : Db) (k : Nat) (state : DriveState) : Db :=
  s.modifyDrive k (fun d => { d with currentState := state }) fun _ => rfl

/-- Release the assignment with this key. -/
def releaseAssignment (s : Db) (k now : Nat) : Db :=
  { s with
    assignments := s.assignments.modify k (fun a => { a with releasedAt := some now }) fun _ => rfl }

/-- Activate the assignment with this key. -/
def activateAssignment (s : Db) (k now : Nat) : Db :=
  { s with
    assignments := s.assignments.modify k (fun a => { a with activatedAt := some now }) fun _ => rfl }

def addAssignment (s : Db) (driveId jobId now : Nat) (activatedAt : Option Nat) : Db :=
  { s with
    assignments := s.assignments.insert
      (fun k => ⟨k, driveId, jobId, now, activatedAt, none⟩) fun _ => rfl }

def updateFiles (s : Db) (p : ExportFile → Bool) (f : ExportFile → ExportFile)
    (key : ∀ r, (f r).id = r.id) : Db :=
  { s with files := s.files.update p f key }

/-! ### Rows after a write -/

section Rows

variable {s : Db} {k : Nat}

theorem mem_modifyJob {f : ExportJob → ExportJob} {key : ∀ r, (f r).id = r.id} {j : ExportJob} :
    j ∈ (s.modifyJob k f key).jobs ↔
      (j ∈ s.jobs ∧ j.id ≠ k) ∨ ∃ r ∈ s.jobs, r.id = k ∧ j = f r :=
  Table.mem_modify key

theorem get_modifyJob {f : ExportJob → ExportJob} {key : ∀ r, (f r).id = r.id} :
    (s.modifyJob k f key).jobs.get k = (s.jobs.get k).map f :=
  Table.get_modify key

theorem mem_modifyDrive {f : UsbDrive → UsbDrive} {key : ∀ r, (f r).id = r.id} {d : UsbDrive} :
    d ∈ (s.modifyDrive k f key).drives ↔
      (d ∈ s.drives ∧ d.id ≠ k) ∨ ∃ r ∈ s.drives, r.id = k ∧ d = f r :=
  Table.mem_modify key

theorem get_modifyDrive {f : UsbDrive → UsbDrive} {key : ∀ r, (f r).id = r.id} :
    (s.modifyDrive k f key).drives.get k = (s.drives.get k).map f :=
  Table.get_modify key

theorem get_modifyDrive_of_ne {f : UsbDrive → UsbDrive} {key : ∀ r, (f r).id = r.id} {k' : Nat}
    (ne : k' ≠ k) : (s.modifyDrive k f key).drives.get k' = s.drives.get k' :=
  Table.get_modify_of_ne key ne

/-- A write to a job row keeps every key. -/
theorem exists_modifyJob {f : ExportJob → ExportJob} {key : ∀ r, (f r).id = r.id} {k' : Nat}
    (h : ∃ j ∈ s.jobs, j.id = k') : ∃ j ∈ (s.modifyJob k f key).jobs, j.id = k' := by
  obtain ⟨j, hj, rfl⟩ := h
  by_cases same : j.id = k
  · exact ⟨f j, mem_modifyJob.mpr (.inr ⟨j, hj, same, rfl⟩), key j⟩
  · exact ⟨j, mem_modifyJob.mpr (.inl ⟨hj, same⟩), rfl⟩

theorem exists_modifyDrive {f : UsbDrive → UsbDrive} {key : ∀ r, (f r).id = r.id} {k' : Nat}
    (h : ∃ d ∈ s.drives, d.id = k') : ∃ d ∈ (s.modifyDrive k f key).drives, d.id = k' := by
  obtain ⟨d, hd, rfl⟩ := h
  by_cases same : d.id = k
  · exact ⟨f d, mem_modifyDrive.mpr (.inr ⟨d, hd, same, rfl⟩), key d⟩
  · exact ⟨d, mem_modifyDrive.mpr (.inl ⟨hd, same⟩), rfl⟩

/-- Every drive row is still there, changed at most as `R` says. -/
def DrivesKept (R : UsbDrive → UsbDrive → Prop) (s t : Db) : Prop :=
  ∀ d ∈ s.drives, ∃ d' ∈ t.drives, d'.id = d.id ∧ R d d'

section DrivesKept

variable {R : UsbDrive → UsbDrive → Prop} {t u : Db}

theorem DrivesKept.refl (same : ∀ d, R d d) (s : Db) : DrivesKept R s s :=
  fun d hd => ⟨d, hd, rfl, same d⟩

theorem DrivesKept.trans (both : ∀ {a b c : UsbDrive}, b.id = a.id → R a b → R b c → R a c)
    (h : DrivesKept R s t) (h' : DrivesKept R t u) : DrivesKept R s u := by
  intro d hd
  obtain ⟨d₁, hd₁, id₁, r₁⟩ := h d hd
  obtain ⟨d₂, hd₂, id₂, r₂⟩ := h' d₁ hd₁
  exact ⟨d₂, hd₂, id₂.trans id₁, both id₁ r₁ r₂⟩

theorem DrivesKept.modifyDrive {f : UsbDrive → UsbDrive} {key : ∀ r, (f r).id = r.id}
    (same : ∀ d, R d d) (written : ∀ d ∈ s.drives, d.id = k → R d (f d)) :
    DrivesKept R s (s.modifyDrive k f key) := by
  intro d hd
  by_cases hit : d.id = k
  · exact ⟨f d, mem_modifyDrive.mpr (.inr ⟨d, hd, hit, rfl⟩), key d, written d hd hit⟩
  · exact ⟨d, mem_modifyDrive.mpr (.inl ⟨hd, hit⟩), rfl, same d⟩

theorem DrivesKept.get {k : Nat} {d : UsbDrive} (h : DrivesKept R s t) (found : s.drives.get k = some d) :
    ∃ d', t.drives.get k = some d' ∧ R d d' := by
  obtain ⟨d', hd', key, r⟩ := h d (Table.mem_of_get found)
  exact ⟨d', Table.get_eq_some_iff.mpr ⟨hd', key.trans (Table.id_of_get found)⟩, r⟩

end DrivesKept

theorem mem_setDriveState {state : DriveState} {d : UsbDrive} :
    d ∈ (s.setDriveState k state).drives ↔
      (d ∈ s.drives ∧ d.id ≠ k) ∨ ∃ r ∈ s.drives, r.id = k ∧ d = { r with currentState := state } :=
  mem_modifyDrive

theorem get_setDriveState_of_ne {state : DriveState} {k' : Nat} (ne : k' ≠ k) :
    (s.setDriveState k state).drives.get k' = s.drives.get k' :=
  get_modifyDrive_of_ne ne

theorem get_setDriveState {state : DriveState} :
    (s.setDriveState k state).drives.get k =
      (s.drives.get k).map fun d => { d with currentState := state } :=
  get_modifyDrive

theorem exists_setDriveState {state : DriveState} {k' : Nat} (h : ∃ d ∈ s.drives, d.id = k') :
    ∃ d ∈ (s.setDriveState k state).drives, d.id = k' :=
  exists_modifyDrive h

theorem mem_releaseAssignment {now : Nat} {a : DriveAssignment} :
    a ∈ (s.releaseAssignment k now).assignments ↔
      (a ∈ s.assignments ∧ a.id ≠ k) ∨
        ∃ r ∈ s.assignments, r.id = k ∧ a = { r with releasedAt := some now } :=
  Table.mem_modify (f := fun r : DriveAssignment => { r with releasedAt := some now }) fun _ => rfl

theorem mem_activateAssignment {now : Nat} {a : DriveAssignment} :
    a ∈ (s.activateAssignment k now).assignments ↔
      (a ∈ s.assignments ∧ a.id ≠ k) ∨
        ∃ r ∈ s.assignments, r.id = k ∧ a = { r with activatedAt := some now } :=
  Table.mem_modify (f := fun r : DriveAssignment => { r with activatedAt := some now }) fun _ => rfl

theorem mem_addAssignment {driveId jobId now : Nat} {activatedAt : Option Nat}
    {a : DriveAssignment} :
    a ∈ (s.addAssignment driveId jobId now activatedAt).assignments ↔
      a ∈ s.assignments ∨ a = ⟨s.assignments.seq + 1, driveId, jobId, now, activatedAt, none⟩ :=
  Table.mem_insert fun _ => rfl

end Rows

end Db

end Ecube
