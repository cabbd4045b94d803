import Ecube.Basic.Outcome
import Ecube.Basic.PosixPath
import Ecube.Basic.Table
import Ecube.Paths.Sanitize

/-!
Comparing files (`compare_files` of `app/services/file_service.py`).

Two recorded files are compared by hash, size and relative path; a file that is
compared with itself is the original source file against the copied one. Hashes
are taken of what the paths hold at the moment; a file that cannot be read has
at most its recorded checksum.
-/

namespace Ecube.Compare

/-! ### Tables -/

structure ExportFile where
  id : Nat
  jobId : Nat
  driveAssignmentId : Option Nat
  projectId : Str
  relativePath : Str
  sizeBytes : Option Nat
  checksum : Option Str
  deriving DecidableEq, Repr

structure ExportJob where
  id : Nat
  sourcePath : Str
  targetMountPath : Option Str
  deriving DecidableEq, Repr

structure DriveAssignment where
  id : Nat
  driveId : Nat
  deriving DecidableEq, Repr

structure UsbDrive where
  id : Nat
  mountPath : Option Str
  deriving DecidableEq, Repr

instance : Row ExportFile := ⟨ExportFile.id⟩
instance : Row ExportJob := ⟨ExportJob.id⟩
instance : Row DriveAssignment := ⟨DriveAssignment.id⟩
instance : Row UsbDrive := ⟨UsbDrive.id⟩

structure FilesDb where
  files : Table ExportFile
  jobs : Table ExportJob
  assignments : Table DriveAssignment
  drives : Table UsbDrive

/-! ### Paths -/

/-- `Path(s)`, as a text. -/
def purePath (s : Str) : Str :=
  match PosixPath.render (PosixPath.initialSlashes s) (PosixPath.comps s) with
  | [] => ['.']
  | path => path

/-- `Path(a) / b`. -/
def joinPath (a b : Str) : Str := purePath (PosixPath.join a b)

/-- What the system calls say about a path: `exists`, `stat` and reading from
the start to the end. -/
structure FileView where
  accessible : Bool
  size : Option Nat
  content : Option (List UInt8)
  deriving DecidableEq, Repr

/-- The file system: what a path holds, and the drive whose file system it lies
in, with its place there. -/
structure Host where
  view : Str → FileView
  located : Str → Option (Nat × Str)

/-- The digests, in hexadecimal. -/
structure Hashes where
  md5 : List UInt8 → Str
  sha256 : List UInt8 → Str

namespace FilesDb

/-- `_resolve_source_file_path`. -/
def resolveSourceFilePath (db : FilesDb) (ef : ExportFile) : Option Str := do
  let job ← db.jobs.get ef.jobId
  let root ← truthy (some job.sourcePath)
  return joinPath root ef.relativePath

/-- The drive of the file's own assignment. -/
def assignedDrive (db : FilesDb) (ef : ExportFile) : Option UsbDrive := do
  let assignment ← db.assignments.get (← ef.driveAssignmentId)
  db.drives.get assignment.driveId

/-- `_resolve_destination_file_path`. -/
def resolveDestinationFilePath (db : FilesDb) (ef : ExportFile) : Option Str :=
  match (db.assignedDrive ef).bind fun drive => truthy drive.mountPath with
  | some assigned => some (joinPath assigned ef.relativePath)
  | none => do
      let job ← db.jobs.get ef.jobId
      let root ← truthy job.targetMountPath
      return joinPath root ef.relativePath

/-- `_resolve_file_path`. -/
def resolveFilePath (db : FilesDb) (ef : ExportFile) : Option Str :=
  (db.resolveDestinationFilePath ef).or (db.resolveSourceFilePath ef)

end FilesDb

/-! ### Comparing -/

structure FileCompareItem where
  fileId : Nat
  relativePath : Str
  md5 : Option Str
  sha256 : Option Str
  sizeBytes : Option Nat
  deriving DecidableEq, Repr

/-- `_file_to_item_from_path`. -/
def fileToItemFromPath (host : Host) (hashes : Hashes) (ef : ExportFile) (path : Option Str)
    (checksumFallback : Option Str) : FileCompareItem :=
  match path.filter fun p => (host.view p).accessible with
  | none => ⟨ef.id, ef.relativePath, none, checksumFallback, ef.sizeBytes⟩
  | some p =>
      let content := (host.view p).content
      ⟨ef.id, ef.relativePath, content.map hashes.md5,
        (content.map hashes.sha256).or checksumFallback, (host.view p).size.or ef.sizeBytes⟩

/-- `_file_to_item`. -/
def fileToItem (host : Host) (hashes : Hashes) (db : FilesDb) (ef : ExportFile) : FileCompareItem :=
  fileToItemFromPath host hashes ef (db.resolveFilePath ef) ef.checksum

/-- Whether two values are equal, unknown if one of them is. -/
def agree {α : Type} [DecidableEq α] (a b : Option α) : Option Bool :=
  a.bind fun x => b.map fun y => decide (x = y)

def hashMatch (a b : FileCompareItem) : Option Bool := (agree a.sha256 b.sha256).or (agree a.md5 b.md5)

def sizeMatch (a b : FileCompareItem) : Option Bool := agree a.sizeBytes b.sizeBytes

def pathMatch (a b : FileCompareItem) : Bool := a.relativePath = b.relativePath

structure FileCompareResponse where
  isMatch : Bool
  hashMatch : Option Bool
  sizeMatch : Option Bool
  pathMatch : Bool
  fileA : FileCompareItem
  fileB : FileCompareItem
  deriving DecidableEq, Repr

/-- The result for two items. -/
def compareItems (a b : FileCompareItem) : FileCompareResponse where
  isMatch := hashMatch a b = some true ∧ sizeMatch a b ≠ some false ∧ pathMatch a b
  hashMatch := hashMatch a b
  sizeMatch := sizeMatch a b
  pathMatch := pathMatch a b
  fileA := a
  fileB := b

inductive CompareMode where
  /-- "generic" -/
  | generic
  /-- "source_destination" -/
  | sourceDestination
  deriving DecidableEq, Repr

/-- The audit record `FILE_COMPARE`. -/
structure FileCompareEvent where
  projectId : Option Str
  fileIdA : Nat
  fileIdB : Nat
  fileAProjectId : Str
  fileBProjectId : Str
  compareMode : CompareMode
  isMatch : Bool
  hashMatch : Option Bool
  sizeMatch : Option Bool
  pathMatch : Bool
  deriving DecidableEq, Repr

inductive CompareError where
  /-- 404 "File {id} not found" -/
  | fileNotFound (id : Nat)
  /-- 409 "Source file is unavailable for comparison" -/
  | sourceUnavailable
  /-- 409 "Destination file is unavailable for comparison" -/
  | destinationUnavailable
  deriving DecidableEq, Repr

/-- `_shared_project_id`. -/
def sharedProjectId (a b : ExportFile) : Option Str :=
  match ([a.projectId, b.projectId].filter (· ≠ [])).dedup with
  | [projectId] => some projectId
  | _ => none

def compareEvent (a b : ExportFile) (mode : CompareMode) (r : FileCompareResponse) :
    FileCompareEvent where
  projectId := sharedProjectId a b
  fileIdA := a.id
  fileIdB := b.id
  fileAProjectId := a.projectId
  fileBProjectId := b.projectId
  compareMode := mode
  isMatch := r.isMatch
  hashMatch := r.hashMatch
  sizeMatch := r.sizeMatch
  pathMatch := r.pathMatch

/-- An existing path, or a refusal. -/
def available (host : Host) (path : Option Str) (e : CompareError) : Except CompareError Str :=
  orReject (path.filter fun p => (host.view p).accessible) e

/-- The items of a file that is compared with itself. -/
def sourceAndDestination (host : Host) (hashes : Hashes) (db : FilesDb) (ef : ExportFile) :
    Except CompareError (FileCompareItem × FileCompareItem) := do
  let source ← available host (db.resolveSourceFilePath ef) .sourceUnavailable
  let destination ← available host (db.resolveDestinationFilePath ef) .destinationUnavailable
  return (fileToItemFromPath host hashes ef (some source) none,
    fileToItemFromPath host hashes ef (some destination) ef.checksum)

def compareFiles (host : Host) (hashes : Hashes) (db : FilesDb) (fileIdA fileIdB : Nat) :
    Except CompareError (FileCompareResponse × FileCompareEvent) := do
  let a ← orReject (db.files.get fileIdA) (.fileNotFound fileIdA)
  let b ← orReject (db.files.get fileIdB) (.fileNotFound fileIdB)
  if fileIdA = fileIdB then
    let (itemA, itemB) ← sourceAndDestination host hashes db a
    return (compareItems itemA itemB, compareEvent a b .sourceDestination (compareItems itemA itemB))
  else
    let response := compareItems (fileToItem host hashes db a) (fileToItem host hashes db b)
    return (response, compareEvent a b .generic response)

end Ecube.Compare
