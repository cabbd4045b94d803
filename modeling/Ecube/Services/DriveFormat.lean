import Ecube.Services.DriveEject

/-!
The last check before a drive is formatted (`LinuxDriveFormatter.is_mounted` in
`app/infrastructure/drive_format.py`).

The check compares the sources of the mount table, as they are written there, with the
device path; the eject provider resolves them first. A table that cannot be read counts
as one without mounts of the device. Bytes that are not UTF-8 are an exception that the
check lets through: it ends the request or the task, whatever the entry that has them is
about; the eject provider replaces such bytes. `formatGuard_iff` says when the check is
right.
-/

namespace Ecube

open PosixPath

/-! ### The check -/

/-- What is read of the mount table: all of it, or the lines before an `OSError`, or
before bytes that are not UTF-8 (`UnicodeDecodeError`). -/
inductive TableRead where
  | complete
  | failed (lines : Nat)
  | undecodable (lines : Nat)
  deriving DecidableEq, Repr

/-- The table has bytes that are not UTF-8. -/
def TableRead.Undecodable (read : TableRead) : Prop := ∃ lines, read = .undecodable lines

/-- A field of the mount table as the kernel writes it. -/
def mangle (field : Str) : Str :=
  field.flatMap fun c =>
    if c = ' ' then "\\040".toList
    else if c = '\t' then "\\011".toList
    else if c = '\n' then "\\012".toList
    else if c = '\\' then "\\134".toList
    else if c = '#' then "\\043".toList
    else [c]

/-- The source is the device path, or a longer name that starts with it. -/
def namesDevice (devicePath source : Str) : Bool :=
  let device := "/dev/".toList ++ basename devicePath
  source = devicePath ∨ (device <+: source ∧ device.length < source.length)

section Check

variable {os : OperatingSystem}

/-- The lines that are read, the oldest mount first. -/
def readLines (t : MountTable os) : TableRead → List (Str × Str)
  | .complete => t.mounts.reverse
  | .failed lines | .undecodable lines => t.mounts.reverse.take lines

/-- `is_mounted`, or nothing when the decoding raises, which `except OSError` does not catch. -/
def isMounted (t : MountTable os) (read : TableRead) (devicePath : Str) : Option Bool :=
  if ¬ validateDevicePath devicePath then some false
  else if (readLines t read).any fun m => namesDevice devicePath (mangle m.2) then some true
  else match read with
    | .undecodable _ => none
    | _ => some false

/-- The device, a partition of it or a device-mapper volume on one of them is mounted, as
`_find_device_mountpoints` resolves the sources. -/
def DeviceMounted (t : MountTable os) (devicePath : Str) : Prop :=
  ∃ m ∈ t.mounts, takesSource os (devicePath.drop "/dev/".length) m.2 = true

/-- The entry stands in the table before the reading ends; the oldest mount stands first. -/
def TableRead.Reaches (t : MountTable os) (m : Str × Str) : TableRead → Prop
  | .complete => m ∈ t.mounts
  | .failed lines | .undecodable lines => ∃ i < lines, t.mounts.reverse[i]? = some m

/-- An entry that was read has a source that is written like the device path, or as a longer
name that starts with it. -/
def NamedInTable (t : MountTable os) (read : TableRead) (devicePath : Str) : Prop :=
  ∃ m, read.Reaches t m ∧ devicePath <+: mangle m.2

theorem mem_readLines {t : MountTable os} {read : TableRead} {m : Str × Str} :
    m ∈ readLines t read ↔ read.Reaches t m := by
  have taken : ∀ lines, m ∈ t.mounts.reverse.take lines ↔
      ∃ i < lines, t.mounts.reverse[i]? = some m := by
    intro lines
    rw [List.mem_take_iff_getElem]
    constructor
    · rintro ⟨i, short, rfl⟩
      obtain ⟨early, inside⟩ := Nat.lt_min.mp short
      exact ⟨i, early, List.getElem?_eq_getElem inside⟩
    · rintro ⟨i, short, found⟩
      obtain ⟨inside, rfl⟩ := List.getElem?_eq_some_iff.mp found
      exact ⟨i, Nat.lt_min.mpr ⟨short, inside⟩, rfl⟩
  cases read with
  | complete => exact List.mem_reverse
  | failed lines => exact taken lines
  | undecodable lines => exact taken lines

/-- A device path is `/dev/` and the name of the device. -/
theorem devicePath_eq {devicePath : Str} (valid : validateDevicePath devicePath = true) :
    "/dev/".toList ++ basename devicePath = devicePath := by
  have front : ∀ name : Str, '/' ∉ name → basename ("/dev/".toList ++ name) = name :=
    fun name plain => @basename_append "/dev".toList name plain
  have plain : ∀ {c : Char} {rest : Str}, (isLetter c && rest.all fun c => isLetter c || isDigit c) =
      true → '/' ∉ c :: rest := by
    intro c rest alphanumeric mem
    rw [Bool.and_eq_true, List.all_eq_true] at alphanumeric
    rcases List.mem_cons.mp mem with rfl | mem
    · exact absurd alphanumeric.1 (by decide)
    · exact absurd (alphanumeric.2 _ mem) (by decide)
  unfold validateDevicePath at valid
  dsimp only at valid
  split at valid
  next c rest line =>
    split at line
    next final =>
      -- A final newline is part of the name.
      have whole : devicePath = "/dev/".toList ++ (c :: rest ++ ['\n']) := by
        rw [← List.dropLast_append_getLast? _ final, line]
        rfl
      rw [whole, front]
      intro mem
      rcases List.mem_append.mp mem with mem | mem
      · exact plain valid mem
      · exact absurd (List.mem_singleton.mp mem) (by decide)
    next =>
      have whole : devicePath = "/dev/".toList ++ (c :: rest) := line
      rw [whole, front _ (plain valid)]
  next => cases valid

/-- The comparison asks whether the source starts with the device path. -/
theorem namesDevice_iff {devicePath source : Str} (valid : validateDevicePath devicePath = true) :
    namesDevice devicePath source = true ↔ devicePath <+: source := by
  rw [namesDevice, devicePath_eq valid, decide_eq_true_iff]
  constructor
  · rintro (rfl | ⟨starts, -⟩)
    · exact List.prefix_refl _
    · exact starts
  · intro starts
    rcases starts.length_le.eq_or_lt with same | longer
    · exact .inl (starts.eq_of_length same).symm
    · exact .inr ⟨starts, longer⟩

theorem named_iff {t : MountTable os} {read : TableRead} {devicePath : Str}
    (valid : validateDevicePath devicePath = true) :
    ((readLines t read).any fun m => namesDevice devicePath (mangle m.2)) = true ↔
      NamedInTable t read devicePath := by
  rw [List.any_eq_true]
  exact exists_congr fun m => and_congr mem_readLines (namesDevice_iff valid)

/-- The check lets a device pass that no entry names, in a table that can be decoded. -/
theorem isMounted_eq_false_iff {t : MountTable os} {read : TableRead} {devicePath : Str}
    (valid : validateDevicePath devicePath = true) :
    isMounted t read devicePath = some false ↔
      ¬ (NamedInTable t read devicePath ∨ read.Undecodable) := by
  unfold isMounted
  rw [if_neg (by simp [valid]), ← named_iff valid, not_or]
  by_cases named : ((readLines t read).any fun m => namesDevice devicePath (mangle m.2)) = true
  · simp [named]
  · rw [if_neg named]
    cases read with
    | complete => simp [named, TableRead.Undecodable]
    | failed lines => simp [named, TableRead.Undecodable]
    | undecodable lines => simp [TableRead.Undecodable]

end Check

/-! ### Requests and tasks -/

/-- The device path of a drive. -/
def devicePath (s : Db) (driveId : Nat) : Option Str :=
  (s.drives.get driveId).bind fun drive => truthy drive.filesystemPath

/-- The answers of `is_mounted`; nothing stands for an exception. -/
abbrev MountCheck := Str → Option Bool

/-- `request_drive_format`. The check comes last; its exception ends the request. -/
def requestFormat (s : Db) (driveId : Nat) (mounted : MountCheck) : Except Reject Db :=
  match requestDriveFormat s driveId false, (devicePath s driveId).bind mounted with
  | .error rejected, _ => .error rejected
  | .ok _, some answer => requestDriveFormat s driveId answer
  | .ok _, none => .error (refuse s 500 "An unexpected error occurred.")

/-- The device that `_complete_drive_format` hands to `formatter.format`. -/
def formatDevice (s : Db) (driveId : Nat) (mounted : MountCheck) : Option Str :=
  (s.drives.get driveId).bind fun drive =>
    (truthy drive.filesystemPath).filter fun path =>
      drive.formatStatus = some .pending ∧ drive.currentState = .available ∧
        validateDevicePath path ∧ truthy drive.mountPath = none ∧ mounted path = some false

/-- `_run_drive_format_task`; an exception of the check is a failure of the task. -/
def runDriveFormatTask (s : Db) (driveId : Nat) (filesystemType : String) (mounted : MountCheck)
    (failure : Option String) : Db :=
  match (formatDevice s driveId fun _ => some false).map mounted with
  | none => completeDriveFormat s driveId filesystemType false failure
  | some (some answer) => completeDriveFormat s driveId filesystemType answer failure
  | some none =>
      formatFailed s driveId "Drive format failed; verify the device is available and retry"

section Task

variable {s s' : Db} {driveId : Nat} {mounted : MountCheck} {path : Str} {filesystemType : String}

theorem formatDevice_eq_some : formatDevice s driveId mounted = some path ↔
    ∃ drive, s.drives.get driveId = some drive ∧ truthy drive.filesystemPath = some path ∧
      drive.formatStatus = some .pending ∧ drive.currentState = .available ∧
      validateDevicePath path = true ∧ truthy drive.mountPath = none ∧ mounted path = some false := by
  simp only [formatDevice, Option.bind_eq_some_iff, Option.filter_eq_some_iff, decide_eq_true_eq]

/-- What the check decides in a task. -/
theorem formatDevice_iff : formatDevice s driveId mounted = some path ↔
    formatDevice s driveId (fun _ => some false) = some path ∧ mounted path = some false := by
  rw [formatDevice_eq_some, formatDevice_eq_some]
  constructor
  · rintro ⟨drive, found, fs, pending, available, valid, free, check⟩
    exact ⟨⟨drive, found, fs, pending, available, valid, free, rfl⟩, check⟩
  · rintro ⟨⟨drive, found, fs, pending, available, valid, free, -⟩, check⟩
    exact ⟨drive, found, fs, pending, available, valid, free, check⟩

/-- The formatter runs on the device, and its answer decides what is stored. -/
theorem runDriveFormatTask_of_device (h : formatDevice s driveId mounted = some path)
    (failure : Option String) :
    runDriveFormatTask s driveId filesystemType mounted failure =
      failure.elim (formatted s driveId filesystemType) (formatFailed s driveId) := by
  obtain ⟨reaches, check⟩ := formatDevice_iff.mp h
  obtain ⟨drive, found, fs, pending, available, valid, free, -⟩ := formatDevice_eq_some.mp h
  simp only [runDriveFormatTask, reaches, Option.map_some, check]
  unfold completeDriveFormat
  simp only [found, pending, available, fs, valid, free, ne_eq, not_true_eq_false,
    if_false, Option.any_some, Bool.false_eq_true, or_self]
  cases failure <;> rfl

/-- A task that does not come to the check does not come to the formatter. -/
theorem completeDriveFormat_of_none (h : formatDevice s driveId (fun _ => some false) = none)
    (failure failure' : Option String) :
    completeDriveFormat s driveId filesystemType false failure =
      completeDriveFormat s driveId filesystemType false failure' := by
  unfold completeDriveFormat
  cases found : s.drives.get driveId with
  | none => rfl
  | some drive =>
      dsimp only
      split
      next => rfl
      next pending =>
        split
        next => rfl
        next available =>
          split
          next => rfl
          next valid =>
            split
            next => rfl
            next free =>
              rw [not_not, Option.any_eq_true] at valid
              obtain ⟨path, fs, valid⟩ := valid
              rw [not_or] at free
              have reached : formatDevice s driveId (fun _ => some false) = some path :=
                formatDevice_eq_some.mpr ⟨drive, found, fs, not_not.mp pending,
                  not_not.mp available, valid, not_not.mp free.1, rfl⟩
              cases h.symm.trans reached

/-- Without a device the formatter is not asked. -/
theorem runDriveFormatTask_of_none (h : formatDevice s driveId mounted = none)
    (failure failure' : Option String) :
    runDriveFormatTask s driveId filesystemType mounted failure =
      runDriveFormatTask s driveId filesystemType mounted failure' := by
  unfold runDriveFormatTask
  cases reaches : formatDevice s driveId fun _ => some false with
  | none => exact completeDriveFormat_of_none reaches failure failure'
  | some path =>
      cases check : mounted path with
      | none => simp only [Option.map_some, check]
      | some answer =>
          cases answer with
          | false => cases h.symm.trans (formatDevice_iff.mpr ⟨reaches, check⟩)
          | true =>
              obtain ⟨drive, found, fs, pending, available, valid, free, -⟩ :=
                formatDevice_eq_some.mp reaches
              simp [check, completeDriveFormat, found, fs, pending, available, valid]

/-- What the check decides in a request. -/
theorem requestFormat_eq_ok (path_ : devicePath s driveId = some path) :
    requestFormat s driveId mounted = .ok s' ↔
      requestDriveFormat s driveId false = .ok s' ∧ mounted path = some false := by
  rw [requestFormat, path_, Option.bind_some]
  cases checks : requestDriveFormat s driveId false with
  | error rejected => simp
  | ok t =>
      cases check : mounted path with
      | none => simp
      | some answer =>
          cases answer with
          | false => simp [checks]
          | true =>
              have refused : requestDriveFormat s driveId true ≠ .ok s' := by
                intro accepted
                simp only [requestDriveFormat, bind_eq_ok, ensure_eq_ok] at accepted
                obtain ⟨-, -, -, -, -, -, -, -, -, -, -, -, -, free, -⟩ := accepted
                cases free
              simp [refused]

theorem valid_of_requestDriveFormat (h : requestDriveFormat s driveId false = .ok s')
    (path_ : devicePath s driveId = some path) : validateDevicePath path = true := by
  simp only [requestDriveFormat, bind_eq_ok, orReject_eq_ok, ensure_eq_ok] at h
  obtain ⟨drive, found, -, -, -, -, own, fs, -, valid, -⟩ := h
  rw [devicePath, found, Option.bind_some, fs] at path_
  exact Option.some.inj path_ ▸ valid

end Task

/-! ### When the check is right -/

section Guard

variable {os : OperatingSystem}

/-- A request is accepted, and the formatter runs, only while the device is not mounted;
and the check refuses neither unless the device is mounted. -/
structure FormatGuard (t : MountTable os) (read : TableRead) (s : Db) (driveId : Nat) : Prop where
  request_safe : ∀ s' path, devicePath s driveId = some path →
    requestFormat s driveId (isMounted t read) = .ok s' → ¬ DeviceMounted t path
  format_safe : ∀ path, formatDevice s driveId (isMounted t read) = some path →
    ¬ DeviceMounted t path
  request_free : ∀ s' path, devicePath s driveId = some path →
    requestDriveFormat s driveId false = .ok s' → ¬ DeviceMounted t path →
    requestFormat s driveId (isMounted t read) = .ok s'
  format_free : ∀ path, formatDevice s driveId (fun _ => some false) = some path →
    ¬ DeviceMounted t path → formatDevice s driveId (isMounted t read) = some path

/-- A request or a task comes to the check with the device. -/
def ReachesCheck (s : Db) (driveId : Nat) (path : Str) : Prop :=
  (devicePath s driveId = some path ∧ ∃ s', requestDriveFormat s driveId false = .ok s') ∨
    formatDevice s driveId (fun _ => some false) = some path

theorem ReachesCheck.valid {s : Db} {driveId : Nat} {path : Str} (h : ReachesCheck s driveId path) :
    validateDevicePath path = true := by
  rcases h with ⟨path_, s', accepted⟩ | device
  · exact valid_of_requestDriveFormat accepted path_
  · obtain ⟨_, -, -, -, -, valid, -⟩ := formatDevice_eq_some.mp device
    exact valid

/-- The guard holds when the check lets exactly the devices pass that are not mounted. -/
theorem formatGuard_iff_passes {t : MountTable os} {read : TableRead} {s : Db} {driveId : Nat} :
    FormatGuard t read s driveId ↔ ∀ path, ReachesCheck s driveId path →
      (isMounted t read path = some false ↔ ¬ DeviceMounted t path) := by
  constructor
  · rintro guard path (⟨path_, s', accepted⟩ | device)
    · exact ⟨fun passes => guard.request_safe s' path path_
          ((requestFormat_eq_ok path_).mpr ⟨accepted, passes⟩),
        fun free => ((requestFormat_eq_ok path_).mp
          (guard.request_free s' path path_ accepted free)).2⟩
    · exact ⟨fun passes => guard.format_safe path (formatDevice_iff.mpr ⟨device, passes⟩),
        fun free => (formatDevice_iff.mp (guard.format_free path device free)).2⟩
  · intro passes
    constructor
    · intro s' path path_ accepted
      obtain ⟨accepted, pass⟩ := (requestFormat_eq_ok path_).mp accepted
      exact (passes path (.inl ⟨path_, s', accepted⟩)).mp pass
    · intro path device
      obtain ⟨device, pass⟩ := formatDevice_iff.mp device
      exact (passes path (.inr device)).mp pass
    · intro s' path path_ accepted free
      have pass := (passes path (.inl ⟨path_, s', accepted⟩)).mpr free
      exact (requestFormat_eq_ok path_).mpr ⟨accepted, pass⟩
    · intro path device free
      exact formatDevice_iff.mpr ⟨device, (passes path (.inr device)).mpr free⟩

end Guard

/-- A host where the stick `sdb` has a link in `/dev/disk/by-id`. -/
def linkedOs : OperatingSystem where
  realpath path :=
    if normpath path = "/dev/disk/by-id/usb-1".toList then "/dev/sdb".toList else normpath path
  normal_realpath path := by
    split
    · decide
    · exact normal_normpath path
  realpath_realpath path := by
    split
    · decide
    next other => rw [normpath_idem, if_neg other]
  sysBlock _ := none
  slaves _ := none

/-- The stick is mounted under the name of the link. -/
def linkedTable : MountTable linkedOs where
  mounts := [("/mnt/stick".toList, "/dev/disk/by-id/usb-1".toList)]
  real := by decide

/-- The stick waits to be formatted. -/
def pendingStick : Db where
  jobs := .empty
  files := .empty
  assignments := .empty
  drives := ⟨[⟨1, some "/dev/sdb".toList, none, none, .available, none, none, some .pending, none⟩],
    1, by decide, by decide⟩
  shares := .empty

end Ecube
