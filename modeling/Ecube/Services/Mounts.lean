import Mathlib.Data.Char
import Mathlib.Data.List.Lex
import Ecube.Basic.MountStack
import Ecube.Services.DriveService

/-!
The mount table of the host and what is mounted where
(`app/infrastructure/mount_info.py`, `drive_mount.py`).

The kernel keeps a stack of mounts for each path. The code reads it as a
dictionary, which shows the visible mounts only, and looks devices up in it by
their resolved path. `MountedAt` says that the device of a drive, or a partition
of it, is mounted at a path.
-/

namespace Ecube

open PosixPath MountStack

/-! ### The operating system -/

/-- `os.path.realpath`, the listing of `/sys/block/<disk>`, with whether the
entries hold a `partition` file, and the listing of its `slaves`. A directory
that cannot be read has no listing. -/
structure OperatingSystem where
  realpath : Str → Str
  normal_realpath : ∀ path, Normal (realpath path)
  realpath_realpath : ∀ path, realpath (realpath path) = realpath path
  sysBlock : Str → Option (List (Str × Bool))
  slaves : Str → Option (List Str)

/-- The mount table of the kernel, newest mount first; it names real paths. -/
structure MountTable (os : OperatingSystem) where
  mounts : List (Str × Str)
  real : ∀ m ∈ mounts, os.realpath m.1 = m.1

/-- An empty table names real paths. -/
theorem real_nil (os : OperatingSystem) :
    ∀ m ∈ ([] : List (Str × Str)), os.realpath m.1 = m.1 :=
  fun _ mem => absurd mem List.not_mem_nil

section Devices

variable (os : OperatingSystem)

/-- A partition among the entries of the listing of a disk. -/
def isPartition (base : Str) (entry : Str × Bool) : Bool :=
  base <+: entry.1 ∧ entry.1 ≠ base ∧ entry.2

def findMountableDevice (devicePath : Str) : Str :=
  let base := basename devicePath
  let entries := ((os.sysBlock base).getD []).insertionSort fun a b => a.1 ≤ b.1
  ((entries.find? (isPartition base)).map fun entry => "/dev/".toList ++ entry.1).getD devicePath

/-- The nodes of a device: its own and those of its partitions. -/
def deviceNodes (devicePath : Str) : List Str :=
  let base := basename devicePath
  devicePath :: (((os.sysBlock base).getD []).filter (isPartition base)).map fun entry =>
    "/dev/".toList ++ entry.1

/-- Whether a source of the mount table is the device or a partition of it. -/
def belongs (devicePath source : Str) : Bool :=
  os.realpath source ∈ (deviceNodes os devicePath).map os.realpath

end Devices

namespace MountTable

variable {os : OperatingSystem}

def unmount (t : MountTable os) (mountPoint : Str) : MountTable os where
  mounts := MountStack.unmount t.mounts (os.realpath mountPoint)
  real m hm := t.real m (mem_of_mem_unmount hm)

/-- Unmounts of several mount points, one after the other. -/
def unmounts (t : MountTable os) (mountPoints : List Str) : MountTable os :=
  mountPoints.foldl unmount t

def mount (t : MountTable os) (source mountPoint : Str) : MountTable os where
  mounts := MountStack.mount t.mounts (os.realpath mountPoint) source
  real m hm := by
    rcases List.mem_cons.mp hm with rfl | hm
    · exact os.realpath_realpath mountPoint
    · exact t.real m hm

/-- A `mount_drive` that succeeds: a mount which is already there is left alone. -/
def mountDrive (t : MountTable os) (devicePath mountPoint : Str) : MountTable os :=
  let source := findMountableDevice os devicePath
  if top t.mounts (os.realpath mountPoint) = some (os.realpath mountPoint, source) then t
  else t.mount source mountPoint

/-- The dictionary from mount points to sources; empty when the table cannot be read. -/
def readMountTable (t : MountTable os) (readable : Bool) : List (Str × Str) :=
  if readable then visible t.mounts else []

end MountTable

/-- The dictionary from sources below `/dev/` to mount points. -/
def readMountPoints (mountTable : List (Str × Str)) : List (Str × Str) :=
  (mountTable.filter fun m => "/dev/".toList <+: m.2).foldl (fun d m => assign d m.2 m.1) []

def findDeviceMountPoint (os : OperatingSystem) (mountTable : List (Str × Str))
    (devicePath : Str) : Option Str :=
  ((readMountPoints mountTable).find? fun m => os.realpath m.1 = os.realpath devicePath).map
    Prod.snd

/-! ### The mounts of a drive -/

variable {os : OperatingSystem}

theorem belongs_of_realpath {devicePath source : Str}
    (same : os.realpath source = os.realpath devicePath) : belongs os devicePath source = true := by
  simp [belongs, deviceNodes, same]

/-- What `mount_drive` mounts is the device or a partition of it. -/
theorem belongs_findMountableDevice (devicePath : Str) :
    belongs os devicePath (findMountableDevice os devicePath) = true := by
  simp only [findMountableDevice]
  cases found : (((os.sysBlock (basename devicePath)).getD []).insertionSort
      fun a b => a.1 ≤ b.1).find? (isPartition (basename devicePath)) with
  | none => exact belongs_of_realpath rfl
  | some entry =>
      have listed := List.mem_of_find?_eq_some found
      rw [List.mem_insertionSort] at listed
      have partition : isPartition (basename devicePath) entry = true :=
        List.find?_some found
      rw [belongs, decide_eq_true_eq]
      refine List.mem_map_of_mem (List.mem_cons_of_mem _ ?_)
      exact List.mem_map_of_mem (List.mem_filter.mpr ⟨listed, partition⟩)

theorem mem_readMountPoints {mountTable : List (Str × Str)} {source mountPoint : Str}
    (h : (source, mountPoint) ∈ readMountPoints mountTable) : (mountPoint, source) ∈ mountTable := by
  rw [readMountPoints] at h
  obtain ⟨m, kept, same⟩ := (mem_foldl_assign h).resolve_left List.not_mem_nil
  cases same
  exact (List.mem_filter.mp kept).1

/-- The paths of the mount table are real. -/
theorem realpath_of_top {t : MountTable os} {target : Str} {m : Str × Str}
    (visible : top t.mounts target = some m) : os.realpath target = target := by
  obtain ⟨mem, rfl⟩ := mem_of_top visible
  exact t.real m mem

theorem top_of_mem_readMountTable {t : MountTable os} {readable : Bool} {m : Str × Str}
    (h : m ∈ t.readMountTable readable) : top t.mounts m.1 = some m := by
  rw [MountTable.readMountTable] at h
  split at h
  · exact mem_visible.mp h
  · exact absurd h List.not_mem_nil

theorem nodup_readMountTable (t : MountTable os) (readable : Bool) :
    ((t.readMountTable readable).map Prod.fst).Nodup := by
  rw [MountTable.readMountTable]
  split
  · exact nodup_visible
  · exact List.nodup_nil

/-- A real path is in normal form. -/
theorem normpath_of_real {path : Str} (real : os.realpath path = path) : normpath path = path := by
  rw [← real]
  exact os.normal_realpath path

/-- Whether a source is the device of the drive or a partition of it. -/
def owns (os : OperatingSystem) (drive : UsbDrive) (source : Str) : Bool :=
  drive.filesystemPath.any fun path => belongs os path source

def ownMounts (t : MountTable os) (drive : UsbDrive) : List (Str × Str) :=
  t.mounts.filter fun m => owns os drive m.2

/-- The device of the drive, or a partition of it, is mounted at this path. -/
def MountedAt (t : MountTable os) (drive : UsbDrive) (path : Str) : Prop :=
  ∃ m ∈ ownMounts t drive, m.1 = os.realpath path

instance (t : MountTable os) (drive : UsbDrive) (path : Str) : Decidable (MountedAt t drive path) :=
  inferInstanceAs (Decidable (∃ m ∈ ownMounts t drive, _))

theorem owns_of_truthy {drive : UsbDrive} {path source : Str}
    (given : truthy drive.filesystemPath = some path) (mine : belongs os path source = true) :
    owns os drive source = true := by
  rw [owns, truthy_eq_some given]
  exact mine

/-- After a `mount_drive` that succeeds the device is mounted at the target. -/
theorem mountedAt_mountDrive {t : MountTable os} {drive : UsbDrive} {device target : Str}
    (given : truthy drive.filesystemPath = some device) :
    MountedAt (t.mountDrive device target) drive target := by
  have mine : owns os drive (findMountableDevice os device) = true :=
    owns_of_truthy given (belongs_findMountableDevice device)
  rw [MountTable.mountDrive]
  split
  next there => exact ⟨_, List.mem_filter.mpr ⟨(mem_of_top there).1, mine⟩, rfl⟩
  next => exact ⟨_, List.mem_filter.mpr ⟨List.mem_cons_self .., mine⟩, rfl⟩

/-! ### Unmounts of several mount points -/

section Unmounts

variable {t : MountTable os} {paths : List Str} (nodup : paths.Nodup)
  (real : ∀ path ∈ paths, os.realpath path = path)
include real

theorem mounts_unmounts : (t.unmounts paths).mounts = paths.foldl MountStack.unmount t.mounts := by
  induction paths generalizing t with
  | nil => rfl
  | cons path paths ih =>
      have same : os.realpath path = path := real path (List.mem_cons_self ..)
      have first : (t.unmount path).mounts = MountStack.unmount t.mounts path := by
        simp only [MountTable.unmount, same]
      rw [List.foldl_cons, ← first]
      exact ih fun q hq => real q (List.mem_cons_of_mem _ hq)

include nodup

theorem mem_mounts_unmounts {m : Str × Str} :
    m ∈ (t.unmounts paths).mounts ↔
      (m.1 ∈ paths ∧ m ∈ (stackAt t.mounts m.1).tail) ∨ (m.1 ∉ paths ∧ m ∈ t.mounts) := by
  rw [mounts_unmounts real]
  exact mem_unmounts nodup

/-- The drive stays mounted at a path if the path is not unmounted or has a
second mount of the drive beneath. -/
theorem mountedAt_unmounts_iff {drive : UsbDrive} {path : Str} :
    MountedAt (t.unmounts paths) drive path ↔
      MountedAt t drive path ∧ (os.realpath path ∈ paths →
        ∃ m ∈ (stackAt t.mounts (os.realpath path)).tail, owns os drive m.2 = true) := by
  simp only [MountedAt, ownMounts, List.mem_filter, mem_mounts_unmounts nodup real]
  constructor
  · rintro ⟨m, ⟨⟨gone, tail⟩ | ⟨spared, mem⟩, mine⟩, place⟩
    · rw [place] at tail
      exact ⟨⟨m, ⟨(mem_of_mem_tail tail).1, mine⟩, place⟩, fun _ => ⟨m, tail, mine⟩⟩
    · exact ⟨⟨m, ⟨mem, mine⟩, place⟩, fun gone => absurd (place ▸ gone) spared⟩
  · rintro ⟨⟨m, ⟨mem, mine⟩, place⟩, below⟩
    by_cases gone : os.realpath path ∈ paths
    · obtain ⟨n, tail, mine⟩ := below gone
      obtain ⟨-, place⟩ := mem_of_mem_tail tail
      exact ⟨n, ⟨.inl ⟨place ▸ gone, place ▸ tail⟩, mine⟩, place⟩
    · exact ⟨m, ⟨.inr ⟨place ▸ gone, mem⟩, mine⟩, place⟩

theorem ownMounts_unmounts_eq_nil_iff {drive : UsbDrive} :
    ownMounts (t.unmounts paths) drive = [] ↔
      ∀ m ∈ ownMounts t drive, m.1 ∈ paths ∧ m ∉ (stackAt t.mounts m.1).tail := by
  simp only [ownMounts, List.filter_eq_nil_iff, List.mem_filter, mem_mounts_unmounts nodup real]
  constructor
  · rintro none m ⟨mem, mine⟩
    by_cases gone : m.1 ∈ paths
    · exact ⟨gone, fun tail => none m (.inl ⟨gone, tail⟩) mine⟩
    · exact absurd mine (none m (.inr ⟨gone, mem⟩))
  · rintro removed m (⟨gone, tail⟩ | ⟨spared, mem⟩) mine
    · exact (removed m ⟨(mem_of_mem_tail tail).1, mine⟩).2 tail
    · exact spared (removed m ⟨mem, mine⟩).1

end Unmounts

/-- A host without symbolic links where `sdc` has one partition. -/
def plainOs : OperatingSystem where
  realpath := normpath
  normal_realpath := normal_normpath
  realpath_realpath := normpath_idem
  sysBlock base := if base = "sdc".toList then some [("sdc1".toList, true)] else none
  slaves _ := none

end Ecube
