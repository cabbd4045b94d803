import Ecube.Services.Mounts

/-!
The eject provider (`app/infrastructure/drive_eject.py`): flush all writes and
unmount a device.

The provider reads the mount table itself. It takes the mounts of the device, of
what looks like a partition of it by name, and of device-mapper volumes on
either, and unmounts them one by one; a failure does not stop it. The flush and
each unmount may fail on their own.
-/

namespace Ecube

open PosixPath MountStack

/-- `^(p?\d+)$`; as in the pattern, one final newline is ignored. Names of
devices are ASCII. -/
def partitionSuffix (suffix : Str) : Bool :=
  let line := if suffix.getLast? = some '\n' then suffix.dropLast else suffix
  let digits := if line.head? = some 'p' then line.tail else line
  digits ≠ [] ∧ digits.all isDigit

/-- A longer name that has the shape of a partition of `base`. -/
def namesPartition (base name : Str) : Bool :=
  base <+: name ∧ base.length < name.length ∧ partitionSuffix (name.drop base.length)

/-- `_resolve_mapper_device_to_parent`. -/
def resolveMapperDeviceToParent (os : OperatingSystem) (mapperPath : Str) : List Str :=
  let normalized := os.realpath mapperPath
  if "/dev/dm-".toList <+: normalized then
    ((os.slaves (basename normalized)).getD []).insertionSort fun a b => a ≤ b
  else []

/-- Whether `_find_device_mountpoints` takes a mount of this source. -/
def takesSource (os : OperatingSystem) (deviceBase source : Str) : Bool :=
  let normalized := os.realpath source
  let device := os.realpath ("/dev/".toList ++ deviceBase)
  if normalized = device then true
  else if device <+: normalized ∧ device.length < normalized.length then
    partitionSuffix (normalized.drop device.length)
  else if "/dev/mapper/".toList <+: normalized ∨ "/dev/dm-".toList <+: normalized then
    (resolveMapperDeviceToParent os normalized).any fun parent =>
      parent = deviceBase ∨ namesPartition deviceBase parent
  else false

/-- What happens to a call of the provider: whether the flush succeeds, whether
the mount table can be read, and which unmounts succeed. -/
structure EjectAnswers where
  flushed : Bool
  readable : Bool
  unmounted : Str → Bool

variable {os : OperatingSystem}

/-- The mount points of a device, the longest first. -/
def findDeviceMountpoints (t : MountTable os) (deviceBase : Str) : List Str :=
  (((visible t.mounts).filter fun m => takesSource os deviceBase m.2).map Prod.fst).insertionSort
    fun a b => b.length ≤ a.length

/-- The mount points that `unmount_device` tries; there are none for an invalid
path or a table that cannot be read. -/
def triedMountpoints (t : MountTable os) (devicePath : Str) (answers : EjectAnswers) : List Str :=
  if validateDevicePath devicePath ∧ answers.readable then
    findDeviceMountpoints t (devicePath.drop "/dev/".length)
  else []

/-- `unmount_ok`. -/
def unmountDeviceOk (t : MountTable os) (devicePath : Str) (answers : EjectAnswers) : Bool :=
  validateDevicePath devicePath ∧ answers.readable ∧
    (triedMountpoints t devicePath answers).all answers.unmounted

/-- The mount points that a call of the provider unmounts. -/
def ejectedMountpoints (t : MountTable os) (devicePath : Option Str) (answers : EjectAnswers) :
    List Str :=
  match truthy devicePath with
  | none => []
  | some path => (triedMountpoints t path answers).filter answers.unmounted

/-- `result.success` of a call of the provider. -/
def ejectSucceeds (t : MountTable os) (devicePath : Option Str) (answers : EjectAnswers) : Bool :=
  answers.flushed ∧ (truthy devicePath).all fun path => unmountDeviceOk t path answers

theorem mem_ejectedMountpoints {t : MountTable os} {devicePath : Option Str}
    {answers : EjectAnswers} {target : Str} (h : target ∈ ejectedMountpoints t devicePath answers) :
    ∃ m ∈ visible t.mounts, m.1 = target := by
  rw [ejectedMountpoints] at h
  split at h
  · exact absurd h List.not_mem_nil
  next path _ =>
    have tried := (List.mem_filter.mp h).1
    rw [triedMountpoints] at tried
    split at tried
    · rw [findDeviceMountpoints, List.mem_insertionSort, List.mem_map] at tried
      obtain ⟨m, hm, rfl⟩ := tried
      exact ⟨m, (List.mem_filter.mp hm).1, rfl⟩
    · exact absurd tried List.not_mem_nil

theorem real_ejectedMountpoints {t : MountTable os} {devicePath : Option Str}
    {answers : EjectAnswers} :
    ∀ target ∈ ejectedMountpoints t devicePath answers, os.realpath target = target := by
  intro target h
  obtain ⟨m, hm, rfl⟩ := mem_ejectedMountpoints h
  exact realpath_of_top (mem_visible.mp hm)

theorem nodup_ejectedMountpoints {t : MountTable os} {devicePath : Option Str}
    {answers : EjectAnswers} : (ejectedMountpoints t devicePath answers).Nodup := by
  rw [ejectedMountpoints]
  split
  · exact List.nodup_nil
  · refine List.Nodup.filter _ ?_
    rw [triedMountpoints]
    split
    · refine (List.perm_insertionSort _ _).nodup_iff.mpr ?_
      exact nodup_visible.sublist (List.filter_sublist.map _)
    · exact List.nodup_nil

end Ecube
