import Mathlib.Data.List.Count
import Ecube.Basic.MountLines
import Ecube.Basic.Text
import Ecube.Services.DriveEject

/-!
`unmount_device`: all mounts of a device.

The mount table is read as a text; what is read is kept by mount point, so that of several
mounts at one path the newest is left. The mount points of the device are unmounted, the
longest first; an `umount` that says there is no mount counts as a success.

* `complete_iff`: when a success leaves no mount of the device behind. For a table that is
  read as it was written, each mount of the device has to be alone and on top at its path,
  recognised by its source, and taken down.
* `findDeviceMountpoints_of_plain`: such a table has the mount points of
  `Ecube.findDeviceMountpoints`.
-/

namespace Ecube.DriveUnmount

open PosixPath MountStack MountLines Text

/-! ### The mount table -/

structure Mounted where
  source : Str
  options : Str
  deriving DecidableEq, Repr

/-- The mounts of the host by place, the newest first; it names real paths. -/
structure HostMounts (os : OperatingSystem) where
  mounts : List (Str × Mounted)
  real : ∀ m ∈ mounts, os.realpath m.1 = m.1

def mountLine (m : Str × Mounted) : Str :=
  escape sourceSpecial m.2.source ++ ' ' :: (escape pathSpecial m.1 ++ ' ' :: m.2.options)

/-- What the kernel shows, the oldest mount first. -/
def mountsText (mounts : List (Str × Mounted)) : Str :=
  mounts.reverse.flatMap fun m => mountLine m ++ ['\n']

/-- A line, read as a mount point and its source. -/
def readLine (line : Str) : Option (Str × Str) :=
  match words line with
  | source :: mountPoint :: _ => some (unescape mountPoint, unescape source)
  | _ => none

/-- `mount_table`. -/
def mountTable (text : Str) : List (Str × Str) := visible ((lines text).filterMap readLine).reverse

section Unmount

variable (os : OperatingSystem)

/-- `_find_device_mountpoints`, for a table that can be read. -/
def findDeviceMountpoints (text deviceBase : Str) : List Str :=
  ((mountTable text).filter fun m => takesSource os deviceBase m.2).map Prod.fst

/-- How a call of `umount` ends. -/
inductive UmountAnswer where
  | done
  | failed (stderr : Str)
  | timedOut
  | osError
  deriving DecidableEq, Repr

/-- An error that is collected. -/
def UmountAnswer.isError : UmountAnswer → Bool
  | .done => false
  | .failed stderr =>
      ¬ (hasWord (strip stderr) "not mounted" ∨ hasWord (strip stderr) "no mount point")
  | .timedOut | .osError => true

/-- What a call returns, and the mounts that are left. -/
structure UnmountResult where
  success : Bool
  left : List (Str × Mounted)

variable {os}

/-- `unmount_device`. -/
def unmountDevice (t : HostMounts os) (readable : Bool) (answers : Str → UmountAnswer)
    (devicePath : Str) : UnmountResult :=
  if validateDevicePath devicePath ∧ readable then
    let deviceBase := devicePath.drop 5
    let mountpoints := findDeviceMountpoints os (mountsText t.mounts) deviceBase
    let sortedMountpoints := mountpoints.insertionSort fun a b => b.length ≤ a.length
    { success := sortedMountpoints.all fun p => !(answers p).isError
      left := ((sortedMountpoints.filter fun p => answers p = .done).map os.realpath).foldl
        MountStack.unmount t.mounts }
  else ⟨false, t.mounts⟩

end Unmount

/-! ### The mounts of a device -/

/-- The block devices, as the kernel knows them. -/
structure BlockDevices where
  partitions : Str → List Str
  slaves : Str → List Str

/-- What lies on a device: itself, its partitions, and the mapped volumes on what lies on it. -/
inductive BlockDevices.On (k : BlockDevices) (device : Str) : Str → Prop
  | self : On k device device
  | partition {node : Str} (of : node ∈ k.partitions device) : On k device node
  | volume {node parent : Str} (on : parent ∈ k.slaves node) (lies : On k device parent) :
      On k device node

section Complete

variable {os : OperatingSystem} (k : BlockDevices) (t : HostMounts os) (readable : Bool)
  (answers : Str → UmountAnswer) (devicePath : Str)

/-- The mount is one of the device. -/
def Own (os : OperatingSystem) (m : Str × Mounted) : Prop :=
  k.On (os.realpath devicePath) (os.realpath m.2.source)

/-- A success leaves no mount of the device. -/
def Complete : Prop :=
  (unmountDevice t readable answers devicePath).success = true →
    ∀ m ∈ (unmountDevice t readable answers devicePath).left, ¬ Own k devicePath os m

/-- The path is refused, the table cannot be read, or it has an entry whose source is recognised
and whose place cannot be unmounted, and `umount` does not say that nothing is mounted there. -/
def Refused : Prop :=
  ¬ (validateDevicePath devicePath = true ∧ readable = true) ∨
    ∃ e ∈ mountTable (mountsText t.mounts),
      takesSource os (devicePath.drop 5) e.2 = true ∧ (answers e.1).isError = true

/-- How many entries of the table name a place, have a source that is recognised, and are
unmounted. -/
def reach (place : Str) : Nat :=
  (mountTable (mountsText t.mounts)).countP fun e =>
    takesSource os (devicePath.drop 5) e.2 ∧ answers e.1 = .done ∧ os.realpath e.1 = place

/-- No mount of the device lies deeper at its place than that. -/
def Reached : Prop :=
  ∀ m ∈ t.mounts, Own k devicePath os m →
    m ∉ (stackAt t.mounts m.1).drop (reach t answers devicePath m.1)

variable {k t readable answers devicePath}

theorem exists_mountpoint_iff {text deviceBase : Str} (p : Str → Prop) :
    (∃ place ∈ findDeviceMountpoints os text deviceBase, p place) ↔
      ∃ e ∈ mountTable text, takesSource os deviceBase e.2 = true ∧ p e.1 := by
  simp only [findDeviceMountpoints, List.mem_map, List.mem_filter]
  constructor
  · rintro ⟨-, ⟨e, ⟨mem, taken⟩, rfl⟩, here⟩
    exact ⟨e, mem, taken, here⟩
  · rintro ⟨e, mem, taken, here⟩
    exact ⟨e.1, ⟨e, ⟨mem, taken⟩, rfl⟩, here⟩

theorem refused_iff : Refused t readable answers devicePath ↔
    ¬ (unmountDevice t readable answers devicePath).success = true := by
  rw [Refused, ← exists_mountpoint_iff (fun p => (answers p).isError = true), unmountDevice]
  split
  next valid =>
    rw [Bool.not_eq_true, List.all_eq_false]
    simp [valid]
  next invalid => simp [invalid]

/-- The entries are counted by their mount points. -/
theorem reach_eq (place : Str) : reach t answers devicePath place =
    (findDeviceMountpoints os (mountsText t.mounts) (devicePath.drop 5)).countP fun p =>
      answers p = .done ∧ os.realpath p = place := by
  rw [reach, findDeviceMountpoints, List.countP_map, List.countP_filter]
  apply List.countP_congr
  intro e _
  simp [and_comm, and_left_comm]

/-- The mounts that are left, when the table is read. -/
theorem mem_left (read : validateDevicePath devicePath = true ∧ readable = true)
    {m : Str × Mounted} : m ∈ (unmountDevice t readable answers devicePath).left ↔
      m ∈ (stackAt t.mounts m.1).drop (reach t answers devicePath m.1) := by
  rw [unmountDevice, if_pos read]
  dsimp only
  rw [mem_foldl_unmount]
  have same : (((((findDeviceMountpoints os (mountsText t.mounts)
      (devicePath.drop 5)).insertionSort fun a b => b.length ≤ a.length).filter fun p =>
        answers p = .done).map os.realpath).countP fun q => q = m.1) =
      reach t answers devicePath m.1 := by
    rw [List.countP_map, List.countP_filter, reach_eq, (List.perm_insertionSort _ _).countP_eq]
    apply List.countP_congr
    intro p _
    simp [and_comm]
  rw [same]

theorem complete_iff_reached : Complete k t readable answers devicePath ↔
    Refused t readable answers devicePath ∨ Reached k t answers devicePath := by
  rw [Complete, refused_iff, ← imp_iff_not_or]
  refine imp_congr_right fun success => ?_
  have read : validateDevicePath devicePath = true ∧ readable = true := by
    by_contra refused
    exact refused_iff.mp (.inl refused) success
  rw [Reached]
  constructor
  · intro none m mem own below
    exact none m ((mem_left read).mpr below) own
  · intro reached m mem own
    have below := (mem_left read).mp mem
    exact reached m (mem_stackAt.mp (List.mem_of_mem_drop below)).1 own below

end Complete

/-! ### Tables that are read as they were written -/

/-- A mount whose line is read as it was written. -/
structure PlainMount (m : Str × Mounted) : Prop where
  place : PlainField m.1
  source : PlainField m.2.source
  options : ∀ c ∈ m.2.options, isNewline c = false

section Plain

variable {os : OperatingSystem} {t : HostMounts os} {deviceBase : Str}

theorem isNewline_mountLine {m : Str × Mounted} (plain : PlainMount m) :
    ∀ c ∈ mountLine m, isNewline c = false := by
  intro c mem
  rw [mountLine, List.mem_append, List.mem_cons, List.mem_append, List.mem_cons] at mem
  rcases mem with source | rfl | place | rfl | options
  · exact isNewline_of_isSpace
      (isSpace_escape (by decide) (List.Subset.refl _) plain.source c source)
  · rfl
  · exact isNewline_of_isSpace
      (isSpace_escape (List.Subset.refl _) (by decide) plain.place c place)
  · rfl
  · exact plain.options c options

theorem readLine_mountLine {m : Str × Mounted} (plain : PlainMount m) :
    readLine (mountLine m) = some (m.1, m.2.source) := by
  rw [readLine, mountLine, words_field (by decide) (List.Subset.refl _) plain.source,
    words_field (List.Subset.refl _) (by decide) plain.place]
  dsimp only
  rw [unescape_escape (by decide) (by decide), unescape_escape (by decide) (List.Subset.refl _)]

theorem readLines_flatMap {mounts : List (Str × Mounted)} (plain : ∀ m ∈ mounts, PlainMount m) :
    (lines (mounts.flatMap fun m => mountLine m ++ ['\n'])).filterMap readLine =
      mounts.map fun m => (m.1, m.2.source) := by
  induction mounts with
  | nil => rfl
  | cons m rest ih =>
      rw [List.forall_mem_cons] at plain
      rw [List.flatMap_cons, List.append_assoc, List.singleton_append,
        lines_line (isNewline_mountLine plain.1), List.filterMap_cons,
        readLine_mountLine plain.1, ih plain.2]
      rfl

theorem mountTable_of_plain {mounts : List (Str × Mounted)} (plain : ∀ m ∈ mounts, PlainMount m) :
    mountTable (mountsText mounts) = visible (mounts.map fun m => (m.1, m.2.source)) := by
  rw [mountTable, mountsText,
    readLines_flatMap fun m mem => plain m (List.mem_reverse.mp mem), List.map_reverse,
    List.reverse_reverse]

/-- The table without the options. -/
def HostMounts.toMountTable (t : HostMounts os) : MountTable os where
  mounts := t.mounts.map fun m => (m.1, m.2.source)
  real := by
    intro m mem
    obtain ⟨n, here, rfl⟩ := List.mem_map.mp mem
    exact t.real n here

theorem findDeviceMountpoints_of_plain (plain : ∀ m ∈ t.mounts, PlainMount m) :
    ((findDeviceMountpoints os (mountsText t.mounts) deviceBase).insertionSort fun a b =>
      b.length ≤ a.length) = Ecube.findDeviceMountpoints t.toMountTable deviceBase := by
  rw [findDeviceMountpoints, mountTable_of_plain plain]
  rfl

theorem top_map (mounts : List (Str × Mounted)) (place : Str) :
    top (mounts.map fun m => (m.1, m.2.source)) place =
      (top mounts place).map fun m => (m.1, m.2.source) := by
  rw [top, top, stackAt, stackAt, List.filter_map, List.head?_map]
  rfl

/-- A place is found if the source of the mount on top there is recognised. -/
theorem mem_findDeviceMountpoints (plain : ∀ m ∈ t.mounts, PlainMount m) {place : Str} :
    place ∈ findDeviceMountpoints os (mountsText t.mounts) deviceBase ↔
      ∃ m, top t.mounts place = some m ∧ takesSource os deviceBase m.2.source = true := by
  rw [findDeviceMountpoints, mountTable_of_plain plain, List.mem_map]
  constructor
  · rintro ⟨n, found, rfl⟩
    obtain ⟨shown, taken⟩ := List.mem_filter.mp found
    have visible := mem_visible.mp shown
    rw [top_map, Option.map_eq_some_iff] at visible
    obtain ⟨m, on, rfl⟩ := visible
    exact ⟨m, on, taken⟩
  · rintro ⟨m, on, taken⟩
    have here : m.1 = place := (mem_of_top on).2
    refine ⟨(m.1, m.2.source), List.mem_filter.mpr ⟨mem_visible.mpr ?_, taken⟩, here⟩
    rw [top_map, here, on, Option.map_some, here]

theorem nodup_findDeviceMountpoints (text : Str) :
    (findDeviceMountpoints os text deviceBase).Nodup :=
  nodup_visible.sublist (List.filter_sublist.map _)

variable {k : BlockDevices} {readable : Bool} {answers : Str → UmountAnswer} {devicePath : Str}

/-- The call fails for a mount on top at its place. -/
theorem refused_iff_of_plain (plain : ∀ m ∈ t.mounts, PlainMount m) :
    Refused t readable answers devicePath ↔
      ¬ (validateDevicePath devicePath = true ∧ readable = true) ∨
        ∃ m ∈ t.mounts, top t.mounts m.1 = some m ∧
          takesSource os (devicePath.drop 5) m.2.source = true ∧
            (answers m.1).isError = true := by
  rw [Refused, ← exists_mountpoint_iff fun p => (answers p).isError = true]
  refine or_congr_right ?_
  simp only [mem_findDeviceMountpoints plain]
  constructor
  · rintro ⟨place, ⟨m, on, taken⟩, error⟩
    obtain ⟨mem, rfl⟩ := mem_of_top on
    exact ⟨m, mem, on, taken, error⟩
  · rintro ⟨m, -, on, taken, error⟩
    exact ⟨m.1, ⟨m, on, taken⟩, error⟩

/-- At a place at most one mount is taken down. -/
theorem reach_of_plain (plain : ∀ m ∈ t.mounts, PlainMount m) (place : Str) :
    reach t answers devicePath place =
      if place ∈ findDeviceMountpoints os (mountsText t.mounts) (devicePath.drop 5) ∧
        answers place = .done then 1 else 0 := by
  have real : ∀ p ∈ findDeviceMountpoints os (mountsText t.mounts) (devicePath.drop 5),
      os.realpath p = p := by
    intro p found
    obtain ⟨m, on, -⟩ := (mem_findDeviceMountpoints plain).mp found
    obtain ⟨mem, rfl⟩ := mem_of_top on
    exact t.real m mem
  have same : reach t answers devicePath place =
      ((findDeviceMountpoints os (mountsText t.mounts) (devicePath.drop 5)).filter fun p =>
        answers p = .done).countP fun p => p = place := by
    rw [reach_eq, List.countP_filter]
    apply List.countP_congr
    intro p found
    simp [real p found, and_comm]
  rw [same, countP_place ((nodup_findDeviceMountpoints _).filter _)]
  simp only [List.mem_filter, decide_eq_true_eq]

/-- Every mount of the device has to be on top and alone at its place, recognised, and taken
down. -/
theorem reached_iff_of_plain (plain : ∀ m ∈ t.mounts, PlainMount m) :
    Reached k t answers devicePath ↔ ∀ m ∈ t.mounts, Own k devicePath os m →
      top t.mounts m.1 = some m ∧ m ∉ (stackAt t.mounts m.1).tail ∧
        takesSource os (devicePath.drop 5) m.2.source = true ∧ answers m.1 = .done := by
  refine forall₃_congr fun m mem own => ?_
  have here : m ∈ stackAt t.mounts m.1 := mem_stackAt.mpr ⟨mem, rfl⟩
  rw [reach_of_plain plain]
  split
  next taken =>
    rw [List.drop_one]
    constructor
    · intro single
      have on := top_eq_some_of_not_tail here single
      obtain ⟨n, visible, recognised⟩ := (mem_findDeviceMountpoints plain).mp taken.1
      cases on.symm.trans visible
      exact ⟨on, single, recognised, taken.2⟩
    · exact fun alone => alone.2.1
  next missed =>
    rw [List.drop_zero]
    refine iff_of_false (not_not_intro here) fun alone => missed ⟨?_, alone.2.2.2⟩
    exact (mem_findDeviceMountpoints plain).mpr ⟨m, alone.1, alone.2.2.1⟩

end Plain

/-- A success leaves no mount of the device if and only if none lies deeper at its place than
entries of the table are unmounted there; else the call has to fail. For a table that is read as
it was written, both are said of the mounts themselves. -/
theorem complete_iff {os : OperatingSystem} (k : BlockDevices) (t : HostMounts os)
    (readable : Bool) (answers : Str → UmountAnswer) (devicePath : Str) :
    (Complete k t readable answers devicePath ↔
      Refused t readable answers devicePath ∨ Reached k t answers devicePath) ∧
    ((∀ m ∈ t.mounts, PlainMount m) →
      (Refused t readable answers devicePath ↔
        ¬ (validateDevicePath devicePath = true ∧ readable = true) ∨
          ∃ m ∈ t.mounts, top t.mounts m.1 = some m ∧
            takesSource os (devicePath.drop 5) m.2.source = true ∧
              (answers m.1).isError = true) ∧
      (Reached k t answers devicePath ↔ ∀ m ∈ t.mounts, Own k devicePath os m →
        top t.mounts m.1 = some m ∧ m ∉ (stackAt t.mounts m.1).tail ∧
          takesSource os (devicePath.drop 5) m.2.source = true ∧ answers m.1 = .done)) :=
  ⟨complete_iff_reached, fun plain => ⟨refused_iff_of_plain plain, reached_iff_of_plain plain⟩⟩

/-! ### Two mounts at one path -/

/-- A disk with two partitions. -/
def twoPartitions : BlockDevices where
  partitions node :=
    if node = "/dev/sdb".toList then ["/dev/sdb1".toList, "/dev/sdb2".toList] else []
  slaves _ := []

/-- The second partition is mounted over the first one. -/
def stacked : HostMounts plainOs where
  mounts :=
    [("/media/usb".toList, ⟨"/dev/sdb2".toList, "vfat rw 0 0".toList⟩),
      ("/media/usb".toList, ⟨"/dev/sdb1".toList, "vfat rw 0 0".toList⟩)]
  real := by decide

/-- Every `umount` succeeds, and so does the call; the first partition stays mounted. -/
theorem stacked_left :
    let result := unmountDevice stacked true (fun _ => .done) "/dev/sdb".toList
    result.success = true ∧ ∃ m ∈ result.left, Own twoPartitions "/dev/sdb".toList plainOs m := by
  refine ⟨by decide +kernel, ("/media/usb".toList, ⟨"/dev/sdb1".toList, "vfat rw 0 0".toList⟩),
    by decide +kernel, .partition (by decide)⟩

end Ecube.DriveUnmount
