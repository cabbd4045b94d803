import Ecube.Basic.Integers
import Ecube.Services.DriveUnmount

/-!
Where a drive is mounted.

Three modules look a drive up in the mount table. `mount_info.find_device_mount_point` looks for
the device itself, `usb_discovery._find_mount_point` for the device or for a name that looks like
a partition of it, and `drive_eject._find_device_mountpoints` for all paths that do.

* `attribution_exact_iff`: which names the partition pattern takes for partitions of a disk that
  are none.
* `lookups_agree_iff`: when the three find a drive mounted together.
-/

namespace Ecube.MountLookup

open PosixPath MountStack

/-! ### The lookups -/

section Lookups

variable (os : OperatingSystem)

/-- `_find_device_mountpoints`, for the table as a dictionary. -/
def findDeviceMountpoints (mountTable : List (Str × Str)) (deviceBase : Str) : List Str :=
  (mountTable.filter fun m => takesSource os deviceBase m.2).map Prod.fst

theorem findDeviceMountpoints_text (text deviceBase : Str) :
    DriveUnmount.findDeviceMountpoints os text deviceBase =
      findDeviceMountpoints os (DriveUnmount.mountTable text) deviceBase := rfl

/-- The map from resolved devices to mount points. -/
def realMap (mountMap : List (Str × Str)) : List (Str × Str) :=
  mountMap.foldl (fun d m => assign d (os.realpath m.1) m.2) []

/-- `_find_mount_point`: the device itself, else the first entry that is named like a
partition. -/
def findMountPoint (devicePath : Str) (mountMap : List (Str × Str)) : Option Str :=
  let realDevice := os.realpath devicePath
  let base := basename realDevice
  ((realMap os mountMap).find? fun m => m.1 = realDevice).elim
    (((realMap os mountMap).find? fun m => namesPartition base (basename m.1)).map Prod.snd)
    fun m => some m.2

end Lookups

/-! ### Names of partitions -/

def endsInDigit (name : Str) : Bool := name.getLast?.any isDigit

/-- What stands between the name of a disk and the number of a partition. -/
def mark (disk : Str) : Str := if endsInDigit disk then ['p'] else []

def partitionName (disk : Str) (n : Nat) : Str := disk ++ mark disk ++ Nat.toDigits 10 n

def IsPartition (disk name : Str) : Prop := ∃ n, 0 < n ∧ name = partitionName disk n

/-- What stands there in the names of the other scheme. -/
def otherMark (disk : Str) : Str := if endsInDigit disk then [] else ['p']

/-- The name of a disk and digits, but in the other scheme or with a leading zero. -/
def Lookalike (disk name : Str) : Prop :=
  ∃ digits : Str, digits ≠ [] ∧ (∀ c ∈ digits, isDigit c = true) ∧
    (name = disk ++ otherMark disk ++ digits ∨
      name = disk ++ mark disk ++ digits ∧ digits.head? = some '0')

section Names

variable {disk name suffix : Str}

theorem isDigit_eq (c : Char) : isDigit c = c.isDigit := by
  rw [isDigit, Char.isDigit, Bool.eq_iff_iff, decide_eq_true_eq, Bool.and_eq_true,
    decide_eq_true_eq, decide_eq_true_eq]
  exact Iff.rfl

theorem partitionSuffix_iff (line : '\n' ∉ suffix) : partitionSuffix suffix = true ↔
    ∃ digits : Str, digits ≠ [] ∧ (∀ c ∈ digits, isDigit c = true) ∧
      (suffix = digits ∨ suffix = 'p' :: digits) := by
  have last : suffix.getLast? ≠ some '\n' := fun last => line (List.mem_of_getLast? last)
  rw [partitionSuffix, if_neg last, decide_eq_true_eq, List.all_eq_true]
  constructor
  · intro found
    split at found
    next head =>
      obtain ⟨rest, rfl⟩ := List.head?_eq_some_iff.mp head
      exact ⟨rest, found.1, found.2, .inr rfl⟩
    next => exact ⟨suffix, found.1, found.2, .inl rfl⟩
  · rintro ⟨digits, nonempty, all, rfl | rfl⟩
    · have other : suffix.head? ≠ some 'p' := by
        intro head
        exact absurd (all 'p' (List.mem_of_mem_head? head)) (by decide)
      rw [if_neg other]
      exact ⟨nonempty, all⟩
    · exact ⟨nonempty, all⟩

theorem namesPartition_iff_suffix : namesPartition disk name = true ↔
    ∃ suffix, name = disk ++ suffix ∧ partitionSuffix suffix = true := by
  rw [namesPartition, decide_eq_true_eq]
  constructor
  · rintro ⟨⟨suffix, rfl⟩, -, found⟩
    rw [List.drop_left] at found
    exact ⟨suffix, rfl, found⟩
  · rintro ⟨suffix, rfl, found⟩
    refine ⟨List.prefix_append _ _, ?_, by rwa [List.drop_left]⟩
    rw [List.length_append]
    have some : suffix ≠ [] := by
      rintro rfl
      exact absurd found (by decide)
    have := List.length_pos_iff.mpr some
    omega

/-- Digits without a leading zero number a partition. -/
theorem isPartition_iff : IsPartition disk name ↔
    ∃ digits : Str, digits ≠ [] ∧ (∀ c ∈ digits, isDigit c = true) ∧
      name = disk ++ mark disk ++ digits ∧ digits.head? ≠ some '0' := by
  constructor
  · rintro ⟨n, positive, rfl⟩
    refine ⟨Nat.toDigits 10 n, Nat.toDigits_ne_nil, fun c mem => ?_, rfl,
      Integers.head_toDigits positive⟩
    rw [isDigit_eq]
    exact Integers.isDigit_of_mem_toDigits mem
  · rintro ⟨digits, nonempty, all, rfl, leading⟩
    obtain ⟨n, positive, rfl⟩ := Integers.exists_toDigits nonempty
      (fun c mem => isDigit_eq c ▸ all c mem) leading
    exact ⟨n, positive, rfl⟩

/-- The pattern takes the partitions of a disk and the names that look like them. -/
theorem namesPartition_iff (line : '\n' ∉ name) :
    namesPartition disk name = true ↔ IsPartition disk name ∨ Lookalike disk name := by
  rw [namesPartition_iff_suffix, isPartition_iff]
  constructor
  · rintro ⟨suffix, rfl, found⟩
    have within : '\n' ∉ suffix := fun mem => line (List.mem_append_right _ mem)
    obtain ⟨digits, nonempty, all, shape⟩ := (partitionSuffix_iff within).mp found
    have marks : suffix = mark disk ++ digits ∨ suffix = otherMark disk ++ digits := by
      rw [mark, otherMark]
      split
      · exact shape.symm
      · exact shape
    rcases marks with rfl | rfl
    · rw [← List.append_assoc]
      by_cases leading : digits.head? = some '0'
      · exact .inr ⟨digits, nonempty, all, .inr ⟨rfl, leading⟩⟩
      · exact .inl ⟨digits, nonempty, all, rfl, leading⟩
    · exact .inr ⟨digits, nonempty, all, .inl (List.append_assoc ..).symm⟩
  · have taken : ∀ middle digits : Str, middle = [] ∨ middle = ['p'] → digits ≠ [] →
        (∀ c ∈ digits, isDigit c = true) → name = disk ++ middle ++ digits →
        ∃ suffix, name = disk ++ suffix ∧ partitionSuffix suffix = true := by
      rintro middle digits shape nonempty all rfl
      refine ⟨middle ++ digits, List.append_assoc .., ?_⟩
      have within : '\n' ∉ middle ++ digits := by
        intro mem
        rw [List.append_assoc] at line
        exact line (List.mem_append_right _ mem)
      refine (partitionSuffix_iff within).mpr ⟨digits, nonempty, all, ?_⟩
      rcases shape with rfl | rfl
      · exact .inl rfl
      · exact .inr rfl
    have shapes : (mark disk = [] ∨ mark disk = ['p']) ∧
        (otherMark disk = [] ∨ otherMark disk = ['p']) := by
      rw [mark, otherMark]
      split
      · exact ⟨.inr rfl, .inl rfl⟩
      · exact ⟨.inl rfl, .inr rfl⟩
    rintro (⟨digits, nonempty, all, eq, -⟩ | ⟨digits, nonempty, all, eq | ⟨eq, -⟩⟩)
    · exact taken _ digits shapes.1 nonempty all eq
    · exact taken _ digits shapes.2 nonempty all eq
    · exact taken _ digits shapes.1 nonempty all eq

theorem not_isPartition_of_lookalike (look : Lookalike disk name) : ¬ IsPartition disk name := by
  rw [isPartition_iff]
  rintro ⟨others, nonempty', all', rfl, leading'⟩
  have noLetter : ∀ {ds : Str} {rest : Str}, (∀ c ∈ ds, isDigit c = true) → ds ≠ 'p' :: rest := by
    rintro ds rest all rfl
    exact absurd (all 'p' List.mem_cons_self) (by decide)
  obtain ⟨digits, nonempty, all, eq | ⟨eq, leading⟩⟩ := look
  · rw [List.append_assoc, List.append_assoc, List.append_cancel_left_eq, mark, otherMark] at eq
    split at eq
    · exact noLetter all eq.symm
    · exact noLetter all' eq
  · rw [List.append_cancel_left_eq] at eq
    exact leading' (eq ▸ leading)

end Names

/-! ### What is mounted -/

/-- A block device of the kernel: its node below `/dev` is no symbolic link, and its name is
printable and has no slash. -/
structure BlockDevice (os : OperatingSystem) where
  name : Str
  nonempty : name ≠ []
  printable : ∀ c ∈ name, 33 ≤ c.toNat ∧ c.toNat ≤ 126 ∧ c ≠ '/'
  node : os.realpath ("/dev/".toList ++ name) = "/dev/".toList ++ name

namespace BlockDevice

variable {os : OperatingSystem}

def path (device : BlockDevice os) : Str := "/dev/".toList ++ device.name

/-- The device itself or one of its partitions. -/
def Own (device other : BlockDevice os) : Prop :=
  other.name = device.name ∨ IsPartition device.name other.name

/-- A device-mapper volume on the device, on a partition of it, or on what looks like one. -/
def Stacked (device other : BlockDevice os) : Prop :=
  "dm-".toList <+: other.name ∧ ¬ device.name <+: other.name ∧
    ∃ parent ∈ resolveMapperDeviceToParent os other.path,
      parent = device.name ∨ namesPartition device.name parent = true

theorem slash_not_mem (device : BlockDevice os) : '/' ∉ device.name :=
  fun mem => (device.printable '/' mem).2.2 rfl

theorem newline_not_mem (device : BlockDevice os) : '\n' ∉ device.name :=
  fun mem => absurd (device.printable '\n' mem).1 (by decide)

theorem basename_path (device : BlockDevice os) : basename device.path = device.name :=
  @basename_append "/dev".toList device.name device.slash_not_mem

theorem path_inj {device other : BlockDevice os} : other.path = device.path ↔
    other.name = device.name := List.append_right_inj _

theorem path_prefix {device other : BlockDevice os} : device.path <+: other.path ↔
    device.name <+: other.name := List.prefix_append_right_inj _

/-- What `_find_device_mountpoints` takes for a mount of the device. -/
theorem takesSource_iff {device other : BlockDevice os} {source : Str}
    (resolved : os.realpath source = other.path) :
    takesSource os device.name source = true ↔
      other.name = device.name ∨ namesPartition device.name other.name = true ∨
        Stacked device other := by
  have node : os.realpath ("/dev/".toList ++ device.name) = device.path := device.node
  have mapper : ("/dev/mapper/".toList <+: other.path ∨ "/dev/dm-".toList <+: other.path) ↔
      "dm-".toList <+: other.name := by
    have split : "/dev/dm-".toList = "/dev/".toList ++ "dm-".toList := rfl
    rw [split, path, List.prefix_append_right_inj]
    refine or_iff_right ?_
    rintro ⟨rest, eq⟩
    have named : "mapper".toList ++ '/' :: rest = other.name := by
      have split : "/dev/mapper/".toList ++ rest =
          "/dev/".toList ++ ("mapper".toList ++ '/' :: rest) := rfl
      exact List.append_cancel_left (split.symm.trans eq)
    exact other.slash_not_mem (named ▸ List.mem_append_right _ List.mem_cons_self)
  have lengths : device.path.length < other.path.length ↔
      device.name.length < other.name.length := by simp [path]
  have rest : other.path.drop device.path.length = other.name.drop device.name.length := by
    rw [path, path, List.length_append, List.drop_append, List.drop_of_length_le (by simp)]
    simp
  simp only [takesSource, resolved, node, path_inj, path_prefix, lengths, mapper, rest]
  split
  next same => simp [same]
  next differ =>
    rw [or_iff_right differ]
    split
    next longer =>
      have alone : ¬ Stacked device other := fun stacked => stacked.2.1 longer.1
      rw [or_iff_left alone, namesPartition, decide_eq_true_eq]
      exact ⟨fun found => ⟨longer.1, longer.2, found⟩, fun found => found.2.2⟩
    next other' =>
      have unnamed : ¬ namesPartition device.name other.name = true := by
        rw [namesPartition, decide_eq_true_eq]
        exact fun named => other' ⟨named.1, named.2.1⟩
      have apart : ¬ device.name <+: other.name := by
        intro before
        refine other' ⟨before, lt_of_le_of_ne before.length_le fun same => ?_⟩
        exact differ (before.eq_of_length same).symm
      rw [or_iff_right unnamed]
      split
      next dm =>
        rw [Stacked, List.any_eq_true]
        simp only [dm, apart, decide_eq_true_eq, not_false_eq_true, true_and]
      next plain => exact iff_of_false Bool.false_ne_true fun stacked => plain stacked.1

end BlockDevice

/-! ### What discovery finds -/

section Discovery

variable {os : OperatingSystem} {table : List (Str × Str)} {devicePath real place : Str}

theorem mem_realMap (h : (real, place) ∈ realMap os (readMountPoints table)) :
    ∃ m ∈ table, "/dev/".toList <+: m.2 ∧ os.realpath m.2 = real ∧ m.1 = place := by
  rw [realMap] at h
  obtain ⟨n, listed, same⟩ := (mem_foldl_assign h).resolve_left List.not_mem_nil
  rw [readMountPoints] at listed
  obtain ⟨m, kept, rfl⟩ := (mem_foldl_assign listed).resolve_left List.not_mem_nil
  obtain ⟨mem, below⟩ := List.mem_filter.mp kept
  cases same
  exact ⟨m, mem, of_decide_eq_true below, rfl, rfl⟩

theorem exists_mem_realMap : (∃ place, (real, place) ∈ realMap os (readMountPoints table)) ↔
    ∃ m ∈ table, "/dev/".toList <+: m.2 ∧ os.realpath m.2 = real := by
  constructor
  · rintro ⟨place, h⟩
    obtain ⟨m, mem, below, same, -⟩ := mem_realMap h
    exact ⟨m, mem, below, same⟩
  · rintro ⟨m, mem, below, same⟩
    have kept : m ∈ table.filter fun m => "/dev/".toList <+: m.2 :=
      List.mem_filter.mpr ⟨mem, decide_eq_true below⟩
    obtain ⟨place, listed⟩ := exists_mem_foldl_assign.mpr
      (.inr ⟨m, kept, rfl⟩ : (∃ s, (m.2, s) ∈ []) ∨ _)
    exact exists_mem_foldl_assign.mpr (.inr ⟨(m.2, place), listed, same⟩)

/-- Whether an entry is the device itself or named like a partition of it. -/
def Named (os : OperatingSystem) (devicePath real : Str) : Prop :=
  real = os.realpath devicePath ∨
    namesPartition (basename (os.realpath devicePath)) (basename real) = true

theorem findMountPoint_eq_some {mountMap : List (Str × Str)}
    (h : findMountPoint os devicePath mountMap = some place) :
    ∃ real, (real, place) ∈ realMap os mountMap ∧ Named os devicePath real := by
  rw [findMountPoint] at h
  cases itself : (realMap os mountMap).find? fun m => m.1 = os.realpath devicePath with
  | some m =>
      rw [itself] at h
      cases h
      have same := List.find?_some itself
      exact ⟨m.1, List.mem_of_find?_eq_some itself, .inl (of_decide_eq_true same)⟩
  | none =>
      rw [itself] at h
      obtain ⟨m, found, rfl⟩ := Option.map_eq_some_iff.mp h
      have partition := List.find?_some found
      exact ⟨m.1, List.mem_of_find?_eq_some found, .inr partition⟩

theorem findMountPoint_eq_none {mountMap : List (Str × Str)}
    (h : findMountPoint os devicePath mountMap = none) :
    ∀ m ∈ realMap os mountMap, ¬ Named os devicePath m.1 := by
  intro m mem named
  rw [findMountPoint] at h
  cases itself : (realMap os mountMap).find? fun m => m.1 = os.realpath devicePath with
  | some m => rw [itself] at h; cases h
  | none =>
      rw [itself] at h
      rcases named with same | partition
      · exact absurd (decide_eq_true same) (List.find?_eq_none.mp itself m mem)
      · exact List.find?_eq_none.mp (Option.map_eq_none_iff.mp h) m mem partition

/-- Discovery finds a mount if and only if an entry below `/dev/` is named so. -/
theorem findMountPoint_isSome :
    (findMountPoint os devicePath (readMountPoints table)).isSome = true ↔
      ∃ m ∈ table, "/dev/".toList <+: m.2 ∧ Named os devicePath (os.realpath m.2) := by
  constructor
  · intro found
    obtain ⟨place, some⟩ := Option.isSome_iff_exists.mp found
    obtain ⟨real, listed, named⟩ := findMountPoint_eq_some some
    obtain ⟨m, mem, below, rfl, -⟩ := mem_realMap listed
    exact ⟨m, mem, below, named⟩
  · rintro ⟨m, mem, below, named⟩
    obtain ⟨place, listed⟩ := exists_mem_realMap.mpr ⟨m, mem, below, rfl⟩
    by_contra missed
    have none := Option.not_isSome_iff_eq_none.mp missed
    exact findMountPoint_eq_none none _ listed named

end Discovery

/-! ### Exact attribution -/

section Exact

variable {os : OperatingSystem}

/-- An entry of the mount table: one of the nodes is mounted, or something that is not below
`/dev`. -/
def MountOf (nodes : Set (BlockDevice os)) (m : Str × Str) : Prop :=
  (∃ other ∈ nodes, "/dev/".toList <+: m.2 ∧ os.realpath m.2 = other.path) ∨
    (¬ "/dev/".toList <+: m.2 ∧ ¬ "/dev/".toList <+: os.realpath m.2)

def OwnMount (device : BlockDevice os) (m : Str × Str) : Prop :=
  ∃ other : BlockDevice os, os.realpath m.2 = other.path ∧ device.Own other

/-- In every mount table of the nodes, a mount is attributed to the device if and only if the
node is the device itself or one of its partitions. -/
structure Exact (device : BlockDevice os) (nodes : Set (BlockDevice os)) : Prop where
  eject : ∀ table : List (Str × Str), (table.map Prod.fst).Nodup → (∀ m ∈ table, MountOf nodes m) →
    ∀ place, place ∈ findDeviceMountpoints os table device.name ↔
      ∃ m ∈ table, m.1 = place ∧ OwnMount device m
  discovery : ∀ table : List (Str × Str), (table.map Prod.fst).Nodup →
    (∀ m ∈ table, MountOf nodes m) →
    ∀ place, findMountPoint os device.path (readMountPoints table) = some place →
      ∃ m ∈ table, m.1 = place ∧ OwnMount device m
  missed : ∀ table : List (Str × Str), (table.map Prod.fst).Nodup →
    (∀ m ∈ table, MountOf nodes m) →
    findMountPoint os device.path (readMountPoints table) = none →
      ∀ m ∈ table, ¬ OwnMount device m

variable {device other : BlockDevice os} {nodes : Set (BlockDevice os)} {m : Str × Str}

theorem below_dev (device : BlockDevice os) : "/dev/".toList <+: device.path :=
  List.prefix_append _ _

theorem ownMount_iff (resolved : os.realpath m.2 = other.path) :
    OwnMount device m ↔ device.Own other := by
  constructor
  · rintro ⟨third, same, own⟩
    have names := BlockDevice.path_inj.mp (resolved.symm.trans same)
    rwa [BlockDevice.Own, ← names] at own
  · exact fun own => ⟨other, resolved, own⟩

theorem prefix_of_own (own : device.Own other) : device.name <+: other.name := by
  rcases own with same | ⟨n, -, eq⟩
  · rw [same]
  · rw [eq, partitionName, List.append_assoc]
    exact List.prefix_append _ _

theorem not_own_of_lookalike (look : Lookalike device.name other.name) : ¬ device.Own other := by
  rintro (same | partition)
  · obtain ⟨digits, nonempty, -, eq | ⟨eq, -⟩⟩ := look
    · rw [same, List.append_assoc, List.self_eq_append_right, List.append_eq_nil_iff] at eq
      exact nonempty eq.2
    · rw [same, List.append_assoc, List.self_eq_append_right, List.append_eq_nil_iff] at eq
      exact nonempty eq.2
  · exact not_isPartition_of_lookalike look partition

/-- The pattern is right about a name that is no lookalike. -/
theorem named_iff (plain : ¬ Lookalike device.name other.name) :
    other.name = device.name ∨ namesPartition device.name other.name = true ↔
      device.Own other := by
  rw [namesPartition_iff other.newline_not_mem, or_iff_left plain]
  exact Iff.rfl

theorem ownMount_of_outside (outside : ¬ "/dev/".toList <+: os.realpath m.2) :
    ¬ OwnMount device m := by
  rintro ⟨other, same, -⟩
  exact outside (same ▸ below_dev other)

theorem takesSource_of_outside (outside : ¬ "/dev/".toList <+: os.realpath m.2) :
    takesSource os device.name m.2 = false := by
  have node : os.realpath ("/dev/".toList ++ device.name) = device.path := device.node
  have differ : os.realpath m.2 ≠ device.path := fun same => outside (same ▸ below_dev device)
  have apart : ¬ device.path <+: os.realpath m.2 :=
    fun before => outside ((below_dev device).trans before)
  have mapper : ¬ ("/dev/mapper/".toList <+: os.realpath m.2 ∨
      "/dev/dm-".toList <+: os.realpath m.2) := by
    rintro (before | before)
    · exact outside (List.IsPrefix.trans (by decide) before)
    · exact outside (List.IsPrefix.trans (by decide) before)
  rw [takesSource, node, if_neg differ, if_neg fun before => apart before.1, if_neg mapper]

theorem named_path : Named os device.path other.path ↔
    other.name = device.name ∨ namesPartition device.name other.name = true := by
  have node : os.realpath device.path = device.path := device.node
  rw [Named, node, BlockDevice.path_inj, device.basename_path, other.basename_path]

/-- The two functions attribute mounts of some nodes exactly if no node has a name that only
looks like a partition of the device, and none is a device-mapper volume on it. -/
theorem attribution_exact_iff (device : BlockDevice os) (nodes : Set (BlockDevice os)) :
    Exact device nodes ↔
      ∀ other ∈ nodes, ¬ Lookalike device.name other.name ∧ ¬ device.Stacked other := by
  constructor
  · intro exact other mem
    have single := exact.eject [("/mnt".toList, other.path)] (List.nodup_singleton _)
      (fun m here => .inl ⟨other, mem, by
        cases List.mem_singleton.mp here
        exact ⟨below_dev other, other.node⟩⟩) "/mnt".toList
    have taken : takesSource os device.name other.path = true → device.Own other := by
      intro taken
      obtain ⟨m, here, -, own⟩ := single.mp (List.mem_map.mpr ⟨_, List.mem_filter.mpr
        ⟨List.mem_singleton_self _, taken⟩, rfl⟩)
      cases List.mem_singleton.mp here
      exact (ownMount_iff other.node).mp own
    constructor
    · intro look
      refine not_own_of_lookalike look (taken ?_)
      exact (BlockDevice.takesSource_iff other.node).mpr
        (.inr (.inl ((namesPartition_iff other.newline_not_mem).mpr (.inr look))))
    · intro stacked
      refine stacked.2.1 (prefix_of_own (taken ?_))
      exact (BlockDevice.takesSource_iff other.node).mpr (.inr (.inr stacked))
  · intro plain
    refine ⟨?_, ?_, ?_⟩
    · intro table _ mounts place
      rw [findDeviceMountpoints, List.mem_map]
      have same : ∀ m ∈ table, takesSource os device.name m.2 = true ↔ OwnMount device m := by
        intro m mem
        rcases mounts m mem with ⟨other, known, -, resolved⟩ | ⟨-, outside⟩
        · rw [BlockDevice.takesSource_iff resolved, ownMount_iff resolved,
            or_iff_left (plain other known).2, named_iff (plain other known).1]
        · rw [takesSource_of_outside outside]
          exact iff_of_false Bool.false_ne_true (ownMount_of_outside outside)
      constructor
      · rintro ⟨m, found, rfl⟩
        obtain ⟨mem, taken⟩ := List.mem_filter.mp found
        exact ⟨m, mem, rfl, (same m mem).mp taken⟩
      · rintro ⟨m, mem, rfl, own⟩
        exact ⟨m, List.mem_filter.mpr ⟨mem, (same m mem).mpr own⟩, rfl⟩
    · intro table _ mounts place some
      obtain ⟨real, listed, named⟩ := findMountPoint_eq_some some
      obtain ⟨m, mem, below, rfl, here⟩ := mem_realMap listed
      refine ⟨m, mem, here, ?_⟩
      rcases mounts m mem with ⟨other, known, -, resolved⟩ | ⟨apart, -⟩
      · rw [resolved, named_path] at named
        exact (ownMount_iff resolved).mpr ((named_iff (plain other known).1).mp named)
      · exact absurd below apart
    · intro table _ mounts none m mem own
      rcases mounts m mem with ⟨other, known, below, resolved⟩ | ⟨-, outside⟩
      · obtain ⟨place, listed⟩ := exists_mem_realMap.mpr ⟨m, mem, below, resolved⟩
        refine findMountPoint_eq_none none _ listed (named_path.mpr ?_)
        exact (named_iff (plain other known).1).mpr ((ownMount_iff resolved).mp own)
      · exact ownMount_of_outside outside own

/-- Two namespaces of one controller: the number of the first is the start of the other's. -/
def nvme0n1 : BlockDevice plainOs where
  name := "nvme0n1".toList
  nonempty := by decide
  printable := List.all_iff_forall_prop.mp (by decide)
  node := by decide

def nvme0n10 : BlockDevice plainOs where
  name := "nvme0n10".toList
  nonempty := by decide
  printable := List.all_iff_forall_prop.mp (by decide)
  node := by decide

/-- A mount of the tenth namespace is taken for a mount of the first. -/
theorem namespace_attributed :
    let table := [("/mnt/archive".toList, nvme0n10.path)]
    "/mnt/archive".toList ∈ findDeviceMountpoints plainOs table nvme0n1.name ∧
      findMountPoint plainOs nvme0n1.path (readMountPoints table) = some "/mnt/archive".toList ∧
      ¬ nvme0n1.Own nvme0n10 := by
  refine ⟨by decide, by decide, not_own_of_lookalike ?_⟩
  exact ⟨"0".toList, by decide, List.all_iff_forall_prop.mp (by decide), .inl (by decide)⟩

end Exact

/-! ### Agreement -/

section Agreement

variable (os : OperatingSystem) (table : List (Str × Str)) (deviceBase : Str)

/-- `/dev/<base>`, resolved. -/
def realDevice : Str := os.realpath ("/dev/".toList ++ deviceBase)

def MapperSource (m : Str × Str) : Prop :=
  "/dev/mapper/".toList <+: os.realpath m.2 ∨ "/dev/dm-".toList <+: os.realpath m.2

/-- The three lookups find a mount, or none of them does. -/
structure Agree : Prop where
  reconciliation : (findDeviceMountPoint os table ("/dev/".toList ++ deviceBase)).isSome = true ↔
    (findMountPoint os ("/dev/".toList ++ deviceBase) (readMountPoints table)).isSome = true
  eject : (findMountPoint os ("/dev/".toList ++ deviceBase) (readMountPoints table)).isSome = true ↔
    findDeviceMountpoints os table deviceBase ≠ []

/-- A source below `/dev/` is the device itself. -/
def Itself : Prop :=
  ∃ m ∈ table, "/dev/".toList <+: m.2 ∧ os.realpath m.2 = realDevice os deviceBase

/-- No source is the device, and none is named like a partition of it: by its path, or below
`/dev/` by its last component. -/
def Unnamed : Prop :=
  ∀ m ∈ table, os.realpath m.2 ≠ realDevice os deviceBase ∧
    ¬ namesPartition (realDevice os deviceBase) (os.realpath m.2) = true ∧
    ("/dev/".toList <+: m.2 → ¬ namesPartition (basename (realDevice os deviceBase))
      (basename (os.realpath m.2)) = true)

variable {os table deviceBase}

theorem findDeviceMountPoint_isSome :
    (findDeviceMountPoint os table ("/dev/".toList ++ deviceBase)).isSome = true ↔
      Itself os table deviceBase := by
  rw [findDeviceMountPoint, Option.isSome_map, List.find?_isSome, Itself]
  constructor
  · rintro ⟨n, listed, same⟩
    rw [readMountPoints] at listed
    obtain ⟨m, kept, rfl⟩ := (mem_foldl_assign listed).resolve_left List.not_mem_nil
    obtain ⟨mem, below⟩ := List.mem_filter.mp kept
    exact ⟨m, mem, of_decide_eq_true below, of_decide_eq_true same⟩
  · rintro ⟨m, mem, below, same⟩
    have kept : m ∈ table.filter fun m => "/dev/".toList <+: m.2 :=
      List.mem_filter.mpr ⟨mem, decide_eq_true below⟩
    obtain ⟨place, listed⟩ := exists_mem_foldl_assign.mpr
      (.inr ⟨m, kept, rfl⟩ : (∃ s, (m.2, s) ∈ []) ∨ _)
    exact ⟨(m.2, place), listed, decide_eq_true same⟩

/-- Without a mapper, an eject takes the device and what its path names as a partition. -/
theorem takesSource_of_plain {m : Str × Str} (plain : ¬ MapperSource os m) :
    takesSource os deviceBase m.2 = true ↔ os.realpath m.2 = realDevice os deviceBase ∨
      namesPartition (realDevice os deviceBase) (os.realpath m.2) = true := by
  rw [MapperSource] at plain
  rw [takesSource, ← realDevice, if_neg plain, namesPartition, decide_eq_true_eq]
  split
  next same => exact iff_of_true rfl (.inl same)
  next differ =>
    rw [or_iff_right differ]
    split
    next longer => simp only [longer, true_and]
    next other => exact iff_of_false Bool.false_ne_true fun named => other ⟨named.1, named.2.1⟩

theorem findDeviceMountpoints_ne_nil (plain : ∀ m ∈ table, ¬ MapperSource os m) :
    findDeviceMountpoints os table deviceBase ≠ [] ↔
      ∃ m ∈ table, os.realpath m.2 = realDevice os deviceBase ∨
        namesPartition (realDevice os deviceBase) (os.realpath m.2) = true := by
  rw [findDeviceMountpoints, Ne, List.map_eq_nil_iff, List.filter_eq_nil_iff, not_forall₂]
  refine exists_congr fun m => ?_
  rw [exists_prop]
  refine and_congr_right fun mem => ?_
  rw [not_not]
  exact takesSource_of_plain (plain m mem)

end Agreement

/-- A share and a drive without partitions. -/
def wholeDisk : List (Str × Str) :=
  [("/mnt/share".toList, "//nas/evidence".toList), ("/mnt/ecube/7".toList, "/dev/sdb".toList)]

/-- The table after `mount_drive` has mounted a drive with a partition. -/
def partitionMounted : MountTable plainOs :=
  MountTable.mountDrive ⟨[], real_nil plainOs⟩ "/dev/sdc".toList "/mnt/ecube/7".toList

end Ecube.MountLookup
