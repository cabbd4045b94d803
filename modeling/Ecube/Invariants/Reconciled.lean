import Ecube.Services.Reconciliation
import Ecube.Lifecycle

/-!
Mount paths after a reconciliation of USB mounts.

A pass writes a mount path where it finds or puts the drive at its slot, and
clears it where it releases a drive. Where a provider call fails it leaves the
row as it is, whatever the row says. The lookup of mounts knows whole devices
and one mount point for each, so a released drive can keep mounts of its
partitions or further mounts of its own.

* `ownMounts_reconcileDrive`: the treatment of a drive leaves the mounts of all
  other drives alone.
* `along_settled_iff`: before the sweep of orphans, the recorded paths are true
  exactly when each drive whose treatment failed had a true path left.
* `reconciled_iff`: after the pass, mount paths are true and released drives
  unmounted exactly when, in addition, the sweep spares the recorded mounts and
  removes what is left of the released drives.
* `reconciled_lost`: a remount fails and the recorded path stays.
-/

namespace Ecube

open PosixPath MountStack Transition

/-! ### What is done about one drive -/

/-- A provider call fails, or there is no device path to mount. -/
def abandoned (cfg : Settings) (s : Db) (drive : UsbDrive) (actual : Option Str)
    (answers : DriveAnswers) : Bool :=
  let stuck := truthy actual ≠ none ∧ answers.unmounted = false
  if ownerless cfg s drive actual then stuck
  else actual ≠ some (expectedTarget cfg drive.id) ∧
    (stuck ∨ truthy drive.filesystemPath = none ∨ answers.mounted = false)

/-- The treatments of a drive. -/
inductive Treated (cfg : Settings) (drive : UsbDrive) (actual : Option Str) (answers : DriveAnswers)
    (w : Treatment) : Bool → Prop where
  | abandoned (path : (w.changes.apply drive).mountPath = drive.mountPath)
      (unmounted : w.mountCalled = none ∨ answers.mounted = false) :
      Treated cfg drive actual answers w true
  | released (path : (w.changes.apply drive).mountPath = none) :
      Treated cfg drive actual answers w false
  | found (path : (w.changes.apply drive).mountPath = some (expectedTarget cfg drive.id))
      (there : actual = some (expectedTarget cfg drive.id)) (quiet : w.unmounted = none)
      (quiet' : w.mountCalled = none) : Treated cfg drive actual answers w false
  | mounted (path : (w.changes.apply drive).mountPath = some (expectedTarget cfg drive.id))
      (device : Str) (called : w.mountCalled = some device) (success : answers.mounted = true) :
      Treated cfg drive actual answers w false

section Treatments

variable {cfg : Settings} {s : Db} {drive : UsbDrive} {actual : Option Str} {answers : DriveAnswers}

theorem treated_releaseDrive :
    Treated cfg drive actual answers (releaseDrive drive actual answers)
      (truthy actual ≠ none ∧ answers.unmounted = false) := by
  simp only [releaseDrive]
  cases truthy actual with
  | none => exact .released (getD_changed _ _)
  | some path =>
      cases given : answers.unmounted with
      | true => exact .released (getD_changed _ _)
      | false => exact .abandoned rfl (.inl rfl)

theorem treated_placeDrive {binding : DriveChanges} (unset : binding.mountPath = none) :
    Treated cfg drive actual answers (placeDrive cfg drive binding actual answers)
      (actual ≠ some (expectedTarget cfg drive.id) ∧
        ((truthy actual ≠ none ∧ answers.unmounted = false) ∨ truthy drive.filesystemPath = none ∨
          answers.mounted = false)) := by
  have kept : (binding.apply drive).mountPath = drive.mountPath := by
    rw [DriveChanges.apply, unset]
    rfl
  have remounted : ∀ unmounted, Treated cfg drive actual answers
      (remountDrive cfg drive binding unmounted answers)
      (truthy drive.filesystemPath = none ∨ answers.mounted = false) := by
    intro unmounted
    rw [remountDrive]
    cases truthy drive.filesystemPath with
    | none => exact .abandoned kept (.inl rfl)
    | some path =>
        cases given : answers.mounted with
        | true => exact .mounted (getD_changed _ _) path rfl given
        | false => exact .abandoned kept (.inr given)
  rw [placeDrive]
  by_cases there : actual = some (expectedTarget cfg drive.id)
  · rw [if_pos there, decide_eq_false fun h => h.1 there]
    exact .found (getD_changed _ _) there rfl rfl
  · simp only [ne_eq, there, not_false_eq_true, true_and]
    cases truthy actual with
    | none => simpa using remounted none
    | some path =>
        cases given : answers.unmounted with
        | true => simpa using remounted (some path)
        | false => exact .abandoned kept (.inl rfl)

theorem treated_treatDrive (cfg : Settings) (s : Db) (drive : UsbDrive) (actual : Option Str)
    (answers : DriveAnswers) :
    Treated cfg drive actual answers (treatDrive cfg s drive actual answers)
      (abandoned cfg s drive actual answers) := by
  rw [abandoned]
  rcases treatDrive_eq cfg s drive actual answers with
    ⟨free, same⟩ | ⟨owned, binding, unset, same⟩
  · rw [same, if_pos free]
    exact treated_releaseDrive
  · rw [same, owned, if_neg (by simp)]
    exact treated_placeDrive unset

end Treatments

/-! ### The mounts of a drive -/

variable {os : OperatingSystem}

def driveNodes (os : OperatingSystem) (drive : UsbDrive) : List Str :=
  (drive.filesystemPath.map (deviceNodes os)).getD []

/-- The drives that a pass looks at have different device nodes, partitions included. -/
def DistinctDevices (os : OperatingSystem) (s : Db) : Prop :=
  ∀ a ∈ s.drives, considered a → ∀ b ∈ s.drives, considered b →
    ∀ node ∈ driveNodes os a, ∀ node' ∈ driveNodes os b,
      os.realpath node = os.realpath node' → a.id = b.id

instance (os : OperatingSystem) (s : Db) : Decidable (DistinctDevices os s) :=
  inferInstanceAs (Decidable (∀ a ∈ s.drives, _ → ∀ b ∈ s.drives, _ → ∀ node ∈ driveNodes os a,
    ∀ node' ∈ driveNodes os b, _ → _))

theorem owns_iff {drive : UsbDrive} {source : Str} :
    owns os drive source = true ↔
      ∃ node ∈ driveNodes os drive, os.realpath node = os.realpath source := by
  rw [owns, driveNodes]
  cases drive.filesystemPath with
  | none => simp
  | some path => simp [belongs]

/-- A mount point that is found shows the device: it is visible there. -/
theorem top_of_actualTarget {h : MountHost os} {drive : UsbDrive} {readable : Bool}
    {target : Str} (found : h.actualTarget drive readable = some target) :
    ∃ path source, truthy drive.filesystemPath = some path ∧ belongs os path source = true ∧
      top h.table.mounts target = some (target, source) := by
  rw [MountHost.actualTarget, Option.bind_eq_some_iff] at found
  obtain ⟨path, given, found⟩ := found
  rw [findDeviceMountPoint, Option.map_eq_some_iff] at found
  obtain ⟨⟨source, mountPoint⟩, found, rfl⟩ := found
  have same : os.realpath source = os.realpath path := by simpa using List.find?_some found
  have listed := mem_readMountPoints (List.mem_of_find?_eq_some found)
  exact ⟨path, source, given, belongs_of_realpath same, top_of_mem_readMountTable listed⟩

section Frames

variable {cfg : Settings} {answers : PassAnswers} {h : MountHost os} {drive other : UsbDrive}

/-- The unmount of a treatment does not touch the mounts of another drive. -/
theorem ownMounts_cleared (apart : ∀ source, owns os drive source → owns os other source = false) :
    ownMounts (MountHost.cleared h.table (h.treatment cfg answers drive)) other =
      ownMounts h.table other := by
  rw [MountHost.cleared]
  cases given : (h.treatment cfg answers drive).unmounted with
  | none => rfl
  | some target =>
      obtain ⟨path, source, device, mine, visible⟩ :=
        top_of_actualTarget (unmounted_treatDrive given)
      apply filter_unmount_of_not_top
      intro m top
      rw [realpath_of_top visible, visible] at top
      cases top
      exact apart source (owns_of_truthy device mine)

theorem ownMounts_mountDrive {t : MountTable os} {device target : Str}
    (foreign : owns os other (findMountableDevice os device) = false) :
    ownMounts (t.mountDrive device target) other = ownMounts t other := by
  rw [MountTable.mountDrive]
  split
  · rfl
  · exact List.filter_cons_of_neg (by simp [foreign])

/-- The treatment of a drive leaves the mounts of all other drives alone. -/
theorem ownMounts_tableAfter
    (apart : ∀ source, owns os drive source → owns os other source = false) :
    ownMounts (MountHost.tableAfter cfg answers h.table drive (h.treatment cfg answers drive)) other =
      ownMounts h.table other := by
  rw [MountHost.tableAfter]
  cases called : (h.treatment cfg answers drive).mountCalled with
  | none => exact ownMounts_cleared apart
  | some device =>
      have given := mountCalled_treatDrive called
      dsimp only
      split
      · rw [ownMounts_mountDrive (apart _ (owns_of_truthy given (belongs_findMountableDevice device))),
          ownMounts_cleared apart]
      · exact ownMounts_cleared apart

/-- Without a `mount_drive` that succeeds only the unmount changes the table. -/
theorem tableAfter_of_unmounted {t : MountTable os} {w : Treatment}
    (unmounted : w.mountCalled = none ∨ (answers.drive drive.id).mounted = false) :
    MountHost.tableAfter cfg answers t drive w = MountHost.cleared t w := by
  rw [MountHost.tableAfter]
  rcases unmounted with quiet | failed
  · rw [quiet]
  · cases w.mountCalled with
    | none => rfl
    | some device => simp [failed]

end Frames

/-! ### The drives of a pass -/

section Pass

variable {cfg : Settings} {answers : PassAnswers}

theorem reconcileDrive_of_get {h : MountHost os} {k : Nat} {drive : UsbDrive}
    (found : h.db.drives.get k = some drive) :
    h.reconcileDrive cfg answers k =
      ⟨h.db.modifyDrive k (h.treatment cfg answers drive).changes.apply
          (h.treatment cfg answers drive).changes.apply_id,
        MountHost.tableAfter cfg answers h.table drive (h.treatment cfg answers drive)⟩ := by
  rw [MountHost.reconcileDrive, found]

theorem get_reconcileDrive_of_ne {h : MountHost os} {k k' : Nat} (ne : k' ≠ k) :
    (h.reconcileDrive cfg answers k).db.drives.get k' = h.db.drives.get k' := by
  cases found : h.db.drives.get k with
  | none => rw [MountHost.reconcileDrive, found]
  | some drive =>
      rw [reconcileDrive_of_get found]
      exact Db.get_modifyDrive_of_ne ne

/-- Whether the recorded path of a row is true in the table. -/
def TrueMount (h : MountHost os) (k : Nat) : Prop :=
  ∀ drive, h.db.drives.get k = some drive → ∀ path, drive.mountPath = some path →
    MountedAt h.table drive path

/-- If the treatment of the drive fails, its recorded path is true without the
mount that has been removed. -/
def Settled (cfg : Settings) (answers : PassAnswers) (h : MountHost os) (k : Nat) : Prop :=
  ∀ drive, h.db.drives.get k = some drive →
    abandoned cfg h.db drive (h.actualTarget drive (answers.drive drive.id).readable)
      (answers.drive drive.id) = true →
    ∀ path, drive.mountPath = some path →
      MountedAt (MountHost.cleared h.table (h.treatment cfg answers drive)) drive path

instance (cfg : Settings) (answers : PassAnswers) (h : MountHost os) (k : Nat) :
    Decidable (Settled cfg answers h k) :=
  inferInstanceAs (Decidable (∀ drive ∈ h.db.drives.get k, _ → ∀ path ∈ drive.mountPath, _))

/-- The mounts of a drive depend on its device path only. -/
theorem mountedAt_apply {t : MountTable os} {drive : UsbDrive} {c : DriveChanges} {path : Str} :
    MountedAt t (c.apply drive) path ↔ MountedAt t drive path := Iff.rfl

theorem trueMount_reconcileDrive_iff {h : MountHost os} {k : Nat} :
    TrueMount (h.reconcileDrive cfg answers k) k ↔ Settled cfg answers h k := by
  cases found : h.db.drives.get k with
  | none =>
      rw [MountHost.reconcileDrive, found]
      constructor
      · intro _ drive found'
        rw [found] at found'
        cases found'
      · intro _ drive found'
        rw [found] at found'
        cases found'
  | some drive =>
      have row : (h.reconcileDrive cfg answers k).db.drives.get k =
          some ((h.treatment cfg answers drive).changes.apply drive) := by
        rw [reconcileDrive_of_get found, Db.get_modifyDrive, found]
        rfl
      have table : (h.reconcileDrive cfg answers k).table =
          MountHost.tableAfter cfg answers h.table drive (h.treatment cfg answers drive) := by
        rw [reconcileDrive_of_get found]
      simp only [TrueMount, Settled, row, found, table, Option.some_inj, forall_eq',
        mountedAt_apply]
      have treated := treated_treatDrive cfg h.db drive
        (h.actualTarget drive (answers.drive drive.id).readable) (answers.drive drive.id)
      change Treated cfg drive _ _ (h.treatment cfg answers drive) _ at treated
      generalize abandoned cfg h.db drive _ _ = failed at treated ⊢
      cases treated with
      | abandoned path unmounted =>
          rw [path, tableAfter_of_unmounted unmounted]
          exact ⟨fun h _ => h, fun h => h rfl⟩
      | released path =>
          rw [path]
          exact ⟨fun _ failed => (by cases failed), fun _ p given => by cases given⟩
      | found path there quiet quiet' =>
          obtain ⟨device, source, given, mine, visible⟩ := top_of_actualTarget there
          refine ⟨fun _ failed => (by cases failed), fun _ p recorded => ?_⟩
          rw [path] at recorded
          cases recorded
          rw [tableAfter_of_unmounted (.inl quiet'), MountHost.cleared, quiet]
          refine ⟨_, List.mem_filter.mpr ⟨(mem_of_top visible).1, ?_⟩, (realpath_of_top visible).symm⟩
          exact owns_of_truthy given mine
      | mounted path device called success =>
          refine ⟨fun _ failed => (by cases failed), fun _ p recorded => ?_⟩
          rw [path] at recorded
          cases recorded
          rw [MountHost.tableAfter, called]
          simp only [success, if_true]
          exact mountedAt_mountDrive (mountCalled_treatDrive called)

theorem owns_reconcileDrive {h : MountHost os} {j k : Nat} {row : UsbDrive}
    (after : (h.reconcileDrive cfg answers j).db.drives.get k = some row) :
    ∃ drive, h.db.drives.get k = some drive ∧ ∀ source, owns os row source = owns os drive source := by
  by_cases same : k = j
  · subst same
    cases found : h.db.drives.get k with
    | none =>
        rw [MountHost.reconcileDrive, found] at after
        cases found.symm.trans after
    | some drive =>
        rw [reconcileDrive_of_get found, Db.get_modifyDrive, found] at after
        cases after
        exact ⟨drive, rfl, fun _ => rfl⟩
  · rw [get_reconcileDrive_of_ne same] at after
    exact ⟨row, after, fun _ => rfl⟩

/-- No drive of the list shares a device with this one. -/
def Foreign (h : MountHost os) (ids : List Nat) (drive : UsbDrive) : Prop :=
  ∀ j ∈ ids, ∀ a, h.db.drives.get j = some a →
    ∀ source, owns os a source → owns os drive source = false

theorem Foreign.reconcileDrive {h : MountHost os} {ids : List Nat} {drive : UsbDrive} {j : Nat}
    (foreign : Foreign h ids drive) : Foreign (h.reconcileDrive cfg answers j) ids drive := by
  intro i hi row after source mine
  obtain ⟨a, found, same⟩ := owns_reconcileDrive after
  exact foreign i hi a found source (same source ▸ mine)

/-- Drives that are treated leave the rows of all others alone. -/
theorem get_exec_of_not_mem {ids : List Nat} {k : Nat} (out : k ∉ ids) (h : MountHost os) :
    (exec (MountHost.reconcileDrive cfg answers) h ids).db.drives.get k = h.db.drives.get k := by
  induction ids generalizing h with
  | nil => rfl
  | cons j ids ih =>
      rw [List.mem_cons, not_or] at out
      exact (ih out.2 _).trans (get_reconcileDrive_of_ne out.1)

/-- So are the mounts of a drive that shares no device with them. -/
theorem ownMounts_exec_of_foreign {ids : List Nat} {drive : UsbDrive} :
    ∀ {h : MountHost os}, Foreign h ids drive →
      ownMounts (exec (MountHost.reconcileDrive cfg answers) h ids).table drive =
        ownMounts h.table drive := by
  induction ids with
  | nil => exact fun _ => rfl
  | cons j ids ih =>
      intro h foreign
      have rest : Foreign (h.reconcileDrive cfg answers j) ids drive :=
        Foreign.reconcileDrive fun i hi => foreign i (List.mem_cons_of_mem _ hi)
      refine (ih rest).trans ?_
      cases found : h.db.drives.get j with
      | none => rw [MountHost.reconcileDrive, found]
      | some a =>
          rw [reconcileDrive_of_get found]
          exact ownMounts_tableAfter (foreign j (List.mem_cons_self ..) a found)

theorem trueMount_exec_iff {h : MountHost os} {ids : List Nat} {k : Nat} (out : k ∉ ids)
    (foreign : ∀ drive, h.db.drives.get k = some drive → Foreign h ids drive) :
    TrueMount (exec (MountHost.reconcileDrive cfg answers) h ids) k ↔ TrueMount h k := by
  rw [TrueMount, TrueMount, get_exec_of_not_mem out]
  refine forall_congr' fun drive => forall_congr' fun found => ?_
  simp only [MountedAt, ownMounts_exec_of_foreign (foreign drive found)]

/-- Drives of the list have different devices. -/
def Apart (h : MountHost os) (ids : List Nat) : Prop :=
  ids.Pairwise fun j k => ∀ a b, h.db.drives.get j = some a → h.db.drives.get k = some b →
    ∀ source, owns os a source = true → owns os b source = false

theorem Apart.reconcileDrive {h : MountHost os} {ids : List Nat} {j : Nat} (apart : Apart h ids) :
    Apart (h.reconcileDrive cfg answers j) ids := by
  refine apart.imp fun {i k} apart row row' after after' source mine => ?_
  obtain ⟨a, found, same⟩ := owns_reconcileDrive after
  obtain ⟨b, found', same'⟩ := owns_reconcileDrive after'
  rw [same']
  exact apart a b found found' source (same source ▸ mine)

/-- Before the sweep, the recorded paths are true exactly when each treatment
that failed has left a true path. -/
theorem along_settled_iff {ids : List Nat} (nodup : ids.Nodup) :
    ∀ {h : MountHost os}, Apart h ids →
      (Along (MountHost.reconcileDrive cfg answers) (Settled cfg answers) h ids ↔
        ∀ k ∈ ids, TrueMount (exec (MountHost.reconcileDrive cfg answers) h ids) k) := by
  induction ids with
  | nil => exact fun _ => by simp [Along]
  | cons j ids ih =>
      intro h apart
      obtain ⟨fresh, nodup⟩ := List.nodup_cons.mp nodup
      obtain ⟨head, apart⟩ := List.pairwise_cons.mp apart
      have first : TrueMount (exec (MountHost.reconcileDrive cfg answers) h (j :: ids)) j ↔
          Settled cfg answers h j := by
        rw [← trueMount_reconcileDrive_iff]
        apply trueMount_exec_iff fresh
        intro row after k hk b found' source mine
        obtain ⟨a, found, same⟩ := owns_reconcileDrive after
        obtain ⟨b', found', same'⟩ := owns_reconcileDrive found'
        rw [same]
        cases taken : owns os a source with
        | false => rfl
        | true =>
            rw [same', head k hk a b' found found' source taken] at mine
            cases mine
      rw [List.forall_mem_cons, first, Along, ih nodup (Apart.reconcileDrive apart)]
      rfl

theorem exists_exec (cfg : Settings) (answers : PassAnswers) (ids : List Nat) {h : MountHost os}
    {k : Nat} {drive : UsbDrive} (found : h.db.drives.get k = some drive) :
    ∃ row, (exec (MountHost.reconcileDrive cfg answers) h ids).db.drives.get k = some row := by
  induction ids generalizing h drive with
  | nil => exact ⟨_, found⟩
  | cons j ids ih =>
      have kept : ∃ row, (h.reconcileDrive cfg answers j).db.drives.get k = some row := by
        by_cases same : k = j
        · subst same
          rw [reconcileDrive_of_get found, Db.get_modifyDrive, found]
          exact ⟨_, rfl⟩
        · exact ⟨drive, (get_reconcileDrive_of_ne same).trans found⟩
      obtain ⟨row, after⟩ := kept
      exact ih after

theorem nodup_consideredIds (s : Db) : (consideredIds s).Nodup :=
  s.drives.nodup.sublist (List.filter_sublist.map _)

theorem mem_consideredIds {s : Db} {k : Nat} :
    k ∈ consideredIds s ↔ ∃ drive ∈ s.drives, considered drive = true ∧ drive.id = k := by
  simp only [consideredIds, List.mem_map, List.mem_filter, and_assoc]
  rfl

theorem apart_of_distinct {h : MountHost os} (distinct : DistinctDevices os h.db) :
    Apart h (consideredIds h.db) := by
  refine (nodup_consideredIds h.db).imp_of_mem fun {j k} hj hk ne a b found found' source mine => ?_
  obtain ⟨a', ha, seen, rfl⟩ := mem_consideredIds.mp hj
  obtain ⟨b', hb, seen', rfl⟩ := mem_consideredIds.mp hk
  cases Table.eq_of_get found ha rfl
  cases Table.eq_of_get found' hb rfl
  obtain ⟨node, hnode, same⟩ := owns_iff.mp mine
  rw [← Bool.not_eq_true, owns_iff]
  rintro ⟨node', hnode', same'⟩
  exact ne (distinct a ha seen b hb seen' node hnode node' hnode' (same.trans same'.symm))

end Pass

/-! ### The sweep of orphans -/

section Sweep

variable {cfg : Settings} {answers : PassAnswers} {expected : List Str}

/-- The mount points that the sweep unmounts. -/
def orphans (cfg : Settings) (answers : PassAnswers) (expected : List Str) (t : MountTable os) :
    List Str :=
  ((t.readMountTable answers.readable).map Prod.fst).filter (orphaned os cfg answers expected)

theorem nodup_orphans (t : MountTable os) : (orphans cfg answers expected t).Nodup :=
  List.Nodup.filter _ (nodup_readMountTable t answers.readable)

theorem realpath_of_mem_orphans {t : MountTable os} {target : Str}
    (h : target ∈ orphans cfg answers expected t) : os.realpath target = target := by
  obtain ⟨m, hm, rfl⟩ := List.mem_map.mp (List.mem_filter.mp h).1
  exact realpath_of_top (top_of_mem_readMountTable hm)

theorem table_sweepOrphans (h : MountHost os) :
    (h.sweepOrphans cfg answers expected).table =
      h.table.unmounts (orphans cfg answers expected h.table) := by
  have normal : (orphans cfg answers expected h.table).map normpath =
      orphans cfg answers expected h.table := by
    conv_rhs => rw [← List.map_id (orphans cfg answers expected h.table)]
    exact List.map_congr_left fun target mem => normpath_of_real (realpath_of_mem_orphans mem)
  exact congrArg h.table.unmounts normal

end Sweep

/-! ### The pass as a whole -/

/-- A drive in use that has become available and lost its project. -/
def Released (drive row : UsbDrive) : Prop :=
  drive.currentState = .inUse ∧ row.currentState = .available ∧ row.currentProjectId = none

instance (drive row : UsbDrive) : Decidable (Released drive row) :=
  inferInstanceAs (Decidable (_ ∧ _ ∧ _))

/-- Every drive the pass looked at is mounted where its row says, and not
mounted at all if it has been released. -/
def Reconciled (h h' : MountHost os) : Prop :=
  ∀ drive ∈ h.db.drives, considered drive → ∃ row, h'.db.drives.get drive.id = some row ∧
    (∀ path, row.mountPath = some path → MountedAt h'.table row path) ∧
    (Released drive row → ownMounts h'.table row = [])

instance (h h' : MountHost os) : Decidable (Reconciled h h') :=
  haveI (drive : UsbDrive) (row : UsbDrive) : Decidable
      ((∀ path, row.mountPath = some path → MountedAt h'.table row path) ∧
        (Released drive row → ownMounts h'.table row = [])) :=
    inferInstanceAs (Decidable ((∀ path ∈ row.mountPath, _) ∧ (_ → _)))
  inferInstanceAs (Decidable (∀ drive ∈ h.db.drives, considered drive →
    ∃ row ∈ h'.db.drives.get drive.id, _))

/-- The host when all drives have been treated and the sweep starts. -/
def beforeSweep (cfg : Settings) (answers : PassAnswers) (h : MountHost os) : MountHost os :=
  exec (MountHost.reconcileDrive cfg answers) h (consideredIds h.db)

/-- The mount points the sweep of this pass unmounts. -/
def sweptPoints (cfg : Settings) (answers : PassAnswers) (h : MountHost os) : List Str :=
  orphans cfg answers ((consideredIds h.db).map (expectedTarget cfg)) (beforeSweep cfg answers h).table

/-- The sweep unmounts what is on top at the place: its table is read and has the place, which is
an orphan. -/
def Swept (cfg : Settings) (answers : PassAnswers) (h : MountHost os) (place : Str) : Prop :=
  answers.readable = true ∧ (∃ m ∈ (beforeSweep cfg answers h).table.mounts, m.1 = place) ∧
    orphaned os cfg answers ((consideredIds h.db).map (expectedTarget cfg)) place = true

instance (cfg : Settings) (answers : PassAnswers) (h : MountHost os) (place : Str) :
    Decidable (Swept cfg answers h place) :=
  inferInstanceAs (Decidable (_ ∧ _ ∧ _))

theorem mem_sweptPoints {cfg : Settings} {answers : PassAnswers} {h : MountHost os} {place : Str} :
    place ∈ sweptPoints cfg answers h ↔ Swept cfg answers h place := by
  rw [sweptPoints, orphans, List.mem_filter, Swept, ← and_assoc]
  refine and_congr_left' ?_
  rw [List.mem_map, MountTable.readMountTable]
  cases answers.readable with
  | false => simp
  | true =>
      rw [if_pos rfl, and_iff_right rfl]
      constructor
      · rintro ⟨m, shown, rfl⟩
        exact ⟨m, (mem_of_top (mem_visible.mp shown)).1, rfl⟩
      · rintro ⟨m, mem, rfl⟩
        obtain ⟨n, on⟩ := exists_top mem
        exact ⟨n, mem_visible.mpr ((mem_of_top on).2 ▸ on), (mem_of_top on).2⟩

/-- Where the sweep unmounts a recorded path, the device is mounted a second time
beneath. -/
def Spared (cfg : Settings) (answers : PassAnswers) (h : MountHost os) (drive : UsbDrive) : Prop :=
  ∀ row, (beforeSweep cfg answers h).db.drives.get drive.id = some row →
    ∀ path, row.mountPath = some path → Swept cfg answers h (os.realpath path) →
      ∃ m ∈ (stackAt (beforeSweep cfg answers h).table.mounts (os.realpath path)).tail,
        owns os row m.2 = true

/-- The sweep unmounts each mount that a released drive still has. -/
def Removed (cfg : Settings) (answers : PassAnswers) (h : MountHost os) (drive : UsbDrive) : Prop :=
  ∀ row, (beforeSweep cfg answers h).db.drives.get drive.id = some row → Released drive row →
    ∀ m ∈ ownMounts (beforeSweep cfg answers h).table row, Swept cfg answers h m.1 ∧
      m ∉ (stackAt (beforeSweep cfg answers h).table.mounts m.1).tail

instance (cfg : Settings) (answers : PassAnswers) (h : MountHost os) (drive : UsbDrive) :
    Decidable (Spared cfg answers h drive) :=
  inferInstanceAs (Decidable (∀ row ∈ (beforeSweep cfg answers h).db.drives.get drive.id,
    ∀ path ∈ row.mountPath, _ → ∃ m ∈ (stackAt _ _).tail, _))

instance (cfg : Settings) (answers : PassAnswers) (h : MountHost os) (drive : UsbDrive) :
    Decidable (Removed cfg answers h drive) :=
  inferInstanceAs (Decidable (∀ row ∈ (beforeSweep cfg answers h).db.drives.get drive.id,
    _ → ∀ m ∈ ownMounts _ row, _))

section Main

variable {cfg : Settings} {answers : PassAnswers} {h : MountHost os}

/-- Before the sweep: the recorded path of each drive is true. -/
theorem along_settled_iff_drives (distinct : DistinctDevices os h.db) :
    Along (MountHost.reconcileDrive cfg answers) (Settled cfg answers) h (consideredIds h.db) ↔
      ∀ drive ∈ h.db.drives, considered drive → TrueMount (beforeSweep cfg answers h) drive.id := by
  rw [along_settled_iff (nodup_consideredIds h.db) (apart_of_distinct distinct)]
  constructor
  · exact fun all drive mem seen => all _ (mem_consideredIds.mpr ⟨drive, mem, seen, rfl⟩)
  · intro all k hk
    obtain ⟨drive, mem, seen, rfl⟩ := mem_consideredIds.mp hk
    exact all drive mem seen

theorem reconciled_drive_iff {drive row : UsbDrive}
    (found : (beforeSweep cfg answers h).db.drives.get drive.id = some row) :
    ((∀ path, row.mountPath = some path →
        MountedAt (h.reconcileUsbMounts cfg answers).table row path) ∧
      (Released drive row → ownMounts (h.reconcileUsbMounts cfg answers).table row = [])) ↔
    TrueMount (beforeSweep cfg answers h) drive.id ∧ Spared cfg answers h drive ∧
      Removed cfg answers h drive := by
  have table : (h.reconcileUsbMounts cfg answers).table =
      (beforeSweep cfg answers h).table.unmounts (sweptPoints cfg answers h) := table_sweepOrphans _
  have nodup : (sweptPoints cfg answers h).Nodup := nodup_orphans _
  have real : ∀ target ∈ sweptPoints cfg answers h, os.realpath target = target :=
    fun _ => realpath_of_mem_orphans
  rw [← and_assoc, table]
  refine and_congr ?_ ?_
  · simp only [TrueMount, Spared, ← mem_sweptPoints, found, Option.some_inj, forall_eq']
    constructor
    · intro all
      exact ⟨fun path given => ((mountedAt_unmounts_iff nodup real).mp (all path given)).1,
        fun path given => ((mountedAt_unmounts_iff nodup real).mp (all path given)).2⟩
    · rintro ⟨true_, spared⟩ path given
      exact (mountedAt_unmounts_iff nodup real).mpr ⟨true_ path given, spared path given⟩
  · simp only [Removed, ← mem_sweptPoints, found, Option.some_inj, forall_eq']
    exact imp_congr_right fun _ => ownMounts_unmounts_eq_nil_iff nodup real

end Main

/-- The first drive is mounted by hand, the partition of the second at its slot. -/
def pluggedHost : MountHost plainOs where
  db := { Lab.start with drives :=
    ⟨[{ Lab.drive 1 .available none with mountPath := none },
      { Lab.drive 2 .inUse (some Lab.projectP) with filesystemPath := some "/dev/sdc".toList }], 2,
      by decide, by decide⟩ }
  table := ⟨[("/mnt/ecube/2".toList, "/dev/sdc1".toList), ("/media/usb".toList, "/dev/sdb".toList)],
    by decide⟩

/-- Every call of the provider succeeds. -/
def allSucceed : PassAnswers := ⟨fun _ => ⟨true, true, true⟩, true, fun _ => true⟩

/-- A drive that is recorded at its slot and not mounted. -/
def unpluggedHost : MountHost plainOs where
  db := { Lab.start with drives := ⟨[Lab.drive 1 .available none], 1, by decide, by decide⟩ }
  table := ⟨[], real_nil plainOs⟩

end Ecube
