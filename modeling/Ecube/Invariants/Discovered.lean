import Ecube.Services.Discovery

/-!
What discovery writes.

`syncDrive_cases` says once what the transaction of a listed drive does: a new
row when no row matches, else an update of the matching row, with all other rows
and their columns as they were. The UNIQUE identifiers never refuse these writes.
Over a pass this gives `Progress`: a row is either as the pass found it, with an
identifier that no drive so far has, or carries what the last drive with its
identifier has written.

* `discovery_isolated`: a pass keeps drives in use and bindings, takes into use
  only mounted drives of a project on enabled ports, and leaves available only
  listed drives on enabled ports.
-/

namespace Ecube

open Transition

/-! ### One row -/

@[simp] theorem activate_projectId {d : DiscoveredDrive} {e : Bool} {r : UsbDrive} :
    (activate d e r).currentProjectId = r.currentProjectId := by
  rw [activate]
  split
  · rfl
  · split <;> rfl

@[simp] theorem activate_filesystemPath {d : DiscoveredDrive} {e : Bool} {r : UsbDrive} :
    (activate d e r).filesystemPath = r.filesystemPath := by
  rw [activate]
  split
  · rfl
  · split <;> rfl

@[simp] theorem demote_projectId {e : Bool} {r : UsbDrive} :
    (demote e r).currentProjectId = r.currentProjectId := by
  simp only [demote]
  split <;> split <;> rfl

@[simp] theorem demote_filesystemPath {e : Bool} {r : UsbDrive} :
    (demote e r).filesystemPath = r.filesystemPath := by
  simp only [demote]
  split <;> split <;> rfl

@[simp] theorem refreshDrive_projectId {env : Environment} {d : DiscoveredDrive} {e : Bool}
    {r : UsbDrive} : (refreshDrive env d e r).currentProjectId = r.currentProjectId := by
  rw [refreshDrive, demote_projectId, activate_projectId]
  rfl

@[simp] theorem refreshDrive_filesystemPath {env : Environment} {d : DiscoveredDrive} {e : Bool}
    {r : UsbDrive} : (refreshDrive env d e r).filesystemPath = d.filesystemPath := by
  rw [refreshDrive, demote_filesystemPath, activate_filesystemPath]
  rfl

theorem demote_inUse {e : Bool} {r : UsbDrive} :
    (demote e r).currentState = .inUse ↔ r.currentState = .inUse := by
  simp only [demote]
  cases e <;> cases h : r.currentState <;> simp [h]

theorem not_available_demote {r : UsbDrive} : (demote false r).currentState ≠ .available := by
  simp only [demote]
  cases h : r.currentState <;> simp [h]

theorem activate_inUse {d : DiscoveredDrive} {e : Bool} {r : UsbDrive} :
    (activate d e r).currentState = .inUse ↔
      r.currentState = .inUse ∨ (e = true ∧ mountedForProject d r = true) := by
  rw [activate]
  cases e <;> cases h : r.currentState <;> cases m : mountedForProject d r <;> simp [h]

/-- A drive that is not in use has its mount path from the topology. -/
theorem mounted_of_refreshPresence {env : Environment} {d : DiscoveredDrive} {r : UsbDrive}
    (free : r.currentState ≠ .inUse)
    (mounted : mountedForProject d (refreshPresence env d r) = true) :
    truthy d.mountPath ≠ none ∧ r.currentProjectId ≠ none := by
  have path : (refreshPresence env d r).mountPath = managedSlot env r.id d.mountPath := by
    simp [refreshPresence, persistedUsbMountPath, free]
  rw [mountedForProject, path] at mounted
  simp only [Bool.and_eq_true, Bool.or_eq_true] at mounted
  constructor
  · intro unmounted
    have none : truthy (managedSlot env r.id d.mountPath) = none := by
      rw [managedSlot, unmounted]
      rfl
    simp [none, unmounted] at mounted
  · intro unbound
    have none : (refreshPresence env d r).currentProjectId = none := unbound
    simp [none] at mounted

/-- How a listed drive comes into use. -/
theorem refreshDrive_inUse {env : Environment} {d : DiscoveredDrive} {e : Bool} {r : UsbDrive} :
    (refreshDrive env d e r).currentState = .inUse ↔
      r.currentState = .inUse ∨
        (e = true ∧ mountedForProject d (refreshPresence env d r) = true) := by
  rw [refreshDrive, demote_inUse, activate_inUse]
  rfl

theorem enabled_of_refreshDrive_available {env : Environment} {d : DiscoveredDrive} {e : Bool}
    {r : UsbDrive} (available : (refreshDrive env d e r).currentState = .available) : e = true := by
  cases e with
  | true => rfl
  | false => exact absurd available not_available_demote

/-! ### Finding rows -/

namespace Hardware

variable {h h' : Hardware} {s : Sync} {d : DiscoveredDrive} {r : UsbDrive}

theorem named_eq_some {i : Str} (found : h.named i = some r) :
    r ∈ h.db.drives ∧ h.identifier r.id = i :=
  ⟨List.mem_of_find?_eq_some found, by simpa using List.find?_some found⟩

theorem named_eq_none {i : Str} (missing : h.named i = none) :
    ∀ r ∈ h.db.drives, h.identifier r.id ≠ i := by
  intro r mem
  simpa using List.find?_eq_none.mp missing r mem

theorem named_of_mem {i : Str} (mem : r ∈ h.db.drives) (name : h.identifier r.id = i) :
    h.named i = some r := by
  cases found : h.named i with
  | none => exact absurd name (named_eq_none found r mem)
  | some r' =>
      obtain ⟨mem', name'⟩ := named_eq_some found
      rw [Table.eq_of_id_eq mem' mem (h.identified r' mem' r mem (name'.trans name.symm))]

theorem legacyNamed_eq_some {i : Option Str} (found : h.legacyNamed i = some r) :
    r ∈ h.db.drives ∧ isPersistentDeviceIdentifier (h.identifier r.id) = false := by
  obtain ⟨found, old⟩ := Option.filter_eq_some_iff.mp found
  obtain ⟨path, -, named⟩ := Option.bind_eq_some_iff.mp found
  exact ⟨(named_eq_some named).1, by simpa using old⟩

/-- The existing row of a drive has its identifier, or has an old one while no
row has the drive's. -/
theorem existing_eq_some (found : h.existing d = some r) :
    r ∈ h.db.drives ∧ (h.identifier r.id = d.deviceIdentifier ∨
      (isPersistentDeviceIdentifier (h.identifier r.id) = false ∧
        ∀ r' ∈ h.db.drives, h.identifier r'.id ≠ d.deviceIdentifier)) := by
  rw [existing, Option.or_eq_some_iff, Option.or_eq_some_iff] at found
  rcases found with named | ⟨missing, legacy | ⟨-, legacy⟩⟩
  · obtain ⟨mem, name⟩ := named_eq_some named
    exact ⟨mem, .inl name⟩
  · obtain ⟨mem, old⟩ := legacyNamed_eq_some legacy
    exact ⟨mem, .inr ⟨old, named_eq_none missing⟩⟩
  · obtain ⟨mem, old⟩ := legacyNamed_eq_some legacy
    exact ⟨mem, .inr ⟨old, named_eq_none missing⟩⟩

theorem existing_eq_none (missing : h.existing d = none) :
    ∀ r ∈ h.db.drives, h.identifier r.id ≠ d.deviceIdentifier := by
  rw [existing, Option.or_eq_none_iff] at missing
  exact named_eq_none missing.1

theorem existing_of_mem (mem : r ∈ h.db.drives) (name : h.identifier r.id = d.deviceIdentifier) :
    h.existing d = some r := by
  rw [existing, named_of_mem mem name]
  rfl

/-- A row other than the existing one does not have the drive's identifier. -/
theorem identifier_ne_of_existing (found : h.existing d = some r) {r' : UsbDrive}
    (mem : r' ∈ h.db.drives) (other : r'.id ≠ r.id) : h.identifier r'.id ≠ d.deviceIdentifier := by
  intro name
  rw [existing_of_mem mem name] at found
  exact other (by rw [Option.some.inj found])

/-! ### The transactions -/

theorem commit_eq {drives : Table UsbDrive} {columns : Nat → DriveColumns}
    (unique : Identified drives columns) :
    h.commit drives columns =
      { h with db := { h.db with drives := drives }, columns := columns, identified := unique } := by
  rw [commit, dif_pos unique]

/-- The columns after a write to one row. -/
structure Wrote (h h' : Hardware) (k : Nat) (c : DriveColumns) : Prop where
  jobs : h'.db.jobs = h.db.jobs
  files : h'.db.files = h.db.files
  assignments : h'.db.assignments = h.db.assignments
  shares : h'.db.shares = h.db.shares
  hubs : h'.hubs = h.hubs
  ports : h'.ports = h.ports
  columns : h'.columns = Function.update h.columns k c

theorem Wrote.column_self {k : Nat} {c : DriveColumns} (w : Wrote h h' k c) : h'.columns k = c := by
  rw [w.columns, Function.update_self]

theorem Wrote.column_of_ne {k k' : Nat} {c : DriveColumns} (w : Wrote h h' k c) (ne : k' ≠ k) :
    h'.columns k' = h.columns k' := by
  rw [w.columns, Function.update_of_ne ne]

theorem Wrote.portIsEnabled {k : Nat} {c : DriveColumns} (w : Wrote h h' k c) (p : Option Nat) :
    h'.portIsEnabled p = h.portIsEnabled p := by
  rw [Hardware.portIsEnabled, w.ports, Hardware.portIsEnabled]

/-- The id of a new row is not in use. -/
theorem id_ne_next (mem : r ∈ h.db.drives) : r.id ≠ h.db.drives.seq + 1 := Table.ne_next mem

theorem identified_insert (free : h.existing d = none) (e : Bool) (p : Option Nat) :
    Identified (h.db.drives.insert (newDrive s.env d e) (newDrive_id s.env d e))
      (Function.update h.columns (h.db.drives.seq + 1) (newColumns d p)) := by
  have fresh := existing_eq_none free
  intro a ha b hb same
  rw [Table.mem_insert (newDrive_id s.env d e)] at ha hb
  rcases ha with ha | rfl <;> rcases hb with hb | rfl
  · rw [Function.update_of_ne (id_ne_next ha), Function.update_of_ne (id_ne_next hb)] at same
    exact h.identified a ha b hb same
  · rw [Function.update_of_ne (id_ne_next ha)] at same
    simp only [newDrive, Function.update_self] at same
    exact absurd same (fresh a ha)
  · rw [Function.update_of_ne (id_ne_next hb)] at same
    simp only [newDrive, Function.update_self] at same
    exact absurd same.symm (fresh b hb)
  · rfl

theorem insertDrive_spec (free : h.existing d = none) :
    Wrote h (h.insertDrive s d) (h.db.drives.seq + 1) (newColumns d (h.portIdOf s.topology d)) ∧
      (h.insertDrive s d).db.drives =
        h.db.drives.insert (newDrive s.env d (h.portIsEnabled (h.portIdOf s.topology d)))
          (newDrive_id s.env d _) := by
  rw [insertDrive, commit_eq (identified_insert free _ _)]
  exact ⟨⟨rfl, rfl, rfl, rfl, rfl, rfl, rfl⟩, rfl⟩

/-- The columns an update leaves on the row. -/
def refreshed (h : Hardware) (s : Sync) (d : DiscoveredDrive) (k : Nat) : DriveColumns :=
  refreshColumns d (h.portIdOf s.topology d) (h.columns k)

/-- The row an update leaves. -/
def refreshedDrive (h : Hardware) (s : Sync) (d : DiscoveredDrive) (r : UsbDrive) : UsbDrive :=
  refreshDrive s.env d (h.portIsEnabled (h.refreshed s d r.id).portId) r

theorem identified_modify (found : h.existing d = some r) {f : UsbDrive → UsbDrive}
    (key : ∀ r, (f r).id = r.id) (p : Option Nat) :
    Identified (h.db.drives.modify r.id f key)
      (Function.update h.columns r.id (refreshColumns d p (h.columns r.id))) := by
  intro a ha b hb same
  have source : ∀ a ∈ h.db.drives.modify r.id f key, ∃ a₀ ∈ h.db.drives, a₀.id = a.id := by
    intro a ha
    rcases (Table.mem_modify key).mp ha with ⟨ha, -⟩ | ⟨a₀, ha₀, -, rfl⟩
    · exact ⟨a, ha, rfl⟩
    · exact ⟨a₀, ha₀, (key a₀).symm⟩
  obtain ⟨a₀, ha₀, ida⟩ := source a ha
  obtain ⟨b₀, hb₀, idb⟩ := source b hb
  rw [← ida, ← idb] at same ⊢
  by_cases hit_a : a₀.id = r.id <;> by_cases hit_b : b₀.id = r.id
  · rw [hit_a, hit_b]
  · rw [hit_a, Function.update_self, Function.update_of_ne hit_b] at same
    exact absurd same.symm (identifier_ne_of_existing found hb₀ hit_b)
  · rw [hit_b, Function.update_self, Function.update_of_ne hit_a] at same
    exact absurd same (identifier_ne_of_existing found ha₀ hit_a)
  · rw [Function.update_of_ne hit_a, Function.update_of_ne hit_b] at same
    exact h.identified a₀ ha₀ b₀ hb₀ same

theorem updateDrive_spec (found : h.existing d = some r) :
    Wrote h (h.updateDrive s d r.id) r.id (h.refreshed s d r.id) ∧
      (∀ r', r' ∈ (h.updateDrive s d r.id).db.drives ↔
        (r' ∈ h.db.drives ∧ r'.id ≠ r.id) ∨ r' = h.refreshedDrive s d r) ∧
      (h.updateDrive s d r.id).db.drives.seq = h.db.drives.seq := by
  have mem := (existing_eq_some found).1
  rw [updateDrive, commit_eq (identified_modify found _ _)]
  refine ⟨⟨rfl, rfl, rfl, rfl, rfl, rfl, rfl⟩, fun r' => ?_, rfl⟩
  rw [Table.mem_modify (refreshDrive_id s.env d _)]
  refine or_congr_right ⟨?_, fun eq => ⟨r, mem, rfl, eq⟩⟩
  rintro ⟨r₀, mem₀, key, rfl⟩
  rw [Table.eq_of_id_eq mem₀ mem key]
  rfl

/-- What the transaction of a listed drive does. -/
inductive DriveMove (s : Sync) (d : DiscoveredDrive) (h h' : Hardware) : Prop where
  | refused : s.saved d = false → h' = h → DriveMove s d h h'
  | inserted : s.saved d = true → h.existing d = none →
      Wrote h h' (h.db.drives.seq + 1) (newColumns d (h.portIdOf s.topology d)) →
      h'.db.drives = h.db.drives.insert
        (newDrive s.env d (h.portIsEnabled (h.portIdOf s.topology d))) (newDrive_id s.env d _) →
      DriveMove s d h h'
  | updated {r : UsbDrive} : s.saved d = true → h.existing d = some r →
      Wrote h h' r.id (h.refreshed s d r.id) →
      (∀ r', r' ∈ h'.db.drives ↔
        (r' ∈ h.db.drives ∧ r'.id ≠ r.id) ∨ r' = h.refreshedDrive s d r) →
      h'.db.drives.seq = h.db.drives.seq →
      DriveMove s d h h'

theorem syncDrive_cases (h : Hardware) (s : Sync) (d : DiscoveredDrive) :
    DriveMove s d h (h.syncDrive s d) := by
  rw [syncDrive]
  split
  next saved =>
    split
    next free =>
      obtain ⟨wrote, drives⟩ := insertDrive_spec (s := s) free
      exact .inserted saved free wrote drives
    next r found =>
      obtain ⟨wrote, rows, seq⟩ := updateDrive_spec (s := s) found
      exact .updated saved found wrote rows seq
  next refused => exact .refused (by simpa using refused) rfl

theorem sweep_identified (h : Hardware) (s : Sync) :
    Identified (h.db.drives.update (h.absent s) disconnect disconnect_id) fun k =>
      if (h.db.drives.get k).any (h.absent s) then { h.columns k with portId := none }
      else h.columns k := by
  have keep : ∀ k, (if (h.db.drives.get k).any (h.absent s) then
      { h.columns k with portId := none } else h.columns k).deviceIdentifier =
        h.identifier k := by
    intro k
    split <;> rfl
  have source : ∀ a ∈ h.db.drives.update (h.absent s) disconnect disconnect_id,
      ∃ a₀ ∈ h.db.drives, a₀.id = a.id := by
    intro a ha
    obtain ⟨a₀, mem, rfl⟩ := (Table.mem_update _).mp ha
    exact ⟨a₀, mem, by split <;> rfl⟩
  intro a ha b hb same
  obtain ⟨a₀, ha₀, ida⟩ := source a ha
  obtain ⟨b₀, hb₀, idb⟩ := source b hb
  simp only [keep, ← ida, ← idb] at same ⊢
  exact h.identified a₀ ha₀ b₀ hb₀ same

/-- What the sweep does to each row. -/
structure Swept (s : Sync) (h h' : Hardware) : Prop where
  rows : ∀ r', r' ∈ h'.db.drives ↔ ∃ r ∈ h.db.drives, (if h.absent s r then disconnect r else r) = r'
  columns : ∀ r ∈ h.db.drives, h'.columns r.id =
    if h.absent s r then { h.columns r.id with portId := none } else h.columns r.id
  identifier : ∀ k, h'.identifier k = h.identifier k
  hubs : h'.hubs = h.hubs
  ports : h'.ports = h.ports

theorem sweep_spec (h : Hardware) (s : Sync) : Swept s h (h.sweep s) := by
  rw [sweep, commit_eq (sweep_identified h s)]
  refine ⟨fun r' => Table.mem_update (f := disconnect) disconnect_id, fun r mem => ?_, fun k => ?_, rfl, rfl⟩
  · have found : h.db.drives.get r.id = some r := Table.get_eq_some_iff.mpr ⟨mem, rfl⟩
    simp only [found, Option.any_some]
  · simp only [identifier]
    split <;> rfl

/-! ### The listed drives of a pass -/

/-- The state after the transactions of these drives. -/
def syncDrives (h : Hardware) (s : Sync) (drives : List DiscoveredDrive) : Hardware :=
  drives.foldl (fun h d => h.syncDrive s d) h

theorem syncDrives_concat (h : Hardware) (s : Sync) (drives : List DiscoveredDrive)
    (d : DiscoveredDrive) :
    h.syncDrives s (drives ++ [d]) = (h.syncDrives s drives).syncDrive s d := by
  rw [syncDrives, List.foldl_append]
  rfl

theorem exec_drives (h : Hardware) (s : Sync) (drives : List DiscoveredDrive) :
    exec (advance s) h (drives.map .drive) = h.syncDrives s drives := by
  rw [exec, List.foldl_map]
  rfl

/-- A pass, phase by phase. -/
theorem runDiscoverySync_eq (h : Hardware) (s : Sync) :
    h.runDiscoverySync s = ((h.syncPorts s.topology).syncDrives s s.topology.drives).sweep s := by
  rw [runDiscoverySync, Sync.phases, exec, List.foldl_cons, List.foldl_append]
  change advance s (exec (advance s) (h.syncPorts s.topology) _) .sweep = _
  rw [exec_drives]
  rfl

/-- The rows that the listed drives are written to, in their order. -/
def assigned (s : Sync) : Hardware → List DiscoveredDrive → List Nat
  | _, [] => []
  | h, d :: rest => h.rowOf d :: assigned s (h.syncDrive s d) rest

theorem assigned_concat (h : Hardware) (s : Sync) (drives : List DiscoveredDrive)
    (d : DiscoveredDrive) :
    assigned s h (drives ++ [d]) = assigned s h drives ++ [(h.syncDrives s drives).rowOf d] := by
  induction drives generalizing h with
  | nil => rfl
  | cons a rest ih => exact congrArg (h.rowOf a :: ·) (ih (h.syncDrive s a))

/-- What a listed drive leaves on its row. -/
structure Written (h₀ : Hardware) (d : DiscoveredDrive) (r : UsbDrive) (c : DriveColumns) :
    Prop where
  identifier : c.deviceIdentifier = d.deviceIdentifier
  filesystemPath : r.filesystemPath = d.filesystemPath
  available : r.currentState = .available → h₀.portIsEnabled c.portId = true

/-- A row as the drives so far have found it. -/
structure Untouched (h₀ h : Hardware) (s : Sync) (drives : List DiscoveredDrive) (r : UsbDrive) :
    Prop where
  mem : r ∈ h₀.db.drives
  columns : h.columns r.id = h₀.columns r.id
  unlisted : ∀ d ∈ drives, d.deviceIdentifier ≠ h.identifier r.id
  unassigned : r.id ∉ assigned s h₀ drives

structure Progress (h₀ : Hardware) (s : Sync) (drives : List DiscoveredDrive) (h : Hardware) :
    Prop where
  ports : h.ports = h₀.ports
  rows : ∀ r ∈ h.db.drives,
    (∃ d ∈ drives, Written h₀ d r (h.columns r.id)) ∨ Untouched h₀ h s drives r

theorem portIsEnabled_congr {h₀ : Hardware} (ports : h.ports = h₀.ports) (p : Option Nat) :
    h.portIsEnabled p = h₀.portIsEnabled p := by
  rw [portIsEnabled, ports, portIsEnabled]

theorem rowOf_of_existing (found : h.existing d = some r) : h.rowOf d = r.id := by
  rw [rowOf, found]
  rfl

theorem rowOf_of_new (missing : h.existing d = none) : h.rowOf d = h.db.drives.seq + 1 := by
  rw [rowOf, missing]
  rfl

/-- A row that a transaction leaves alone keeps its place in the progress. -/
theorem progress_row {h₀ : Hardware} {drives : List DiscoveredDrive}
    (h' : Hardware) (progress : Progress h₀ s drives h) (mem : r ∈ h.db.drives)
    (columns : h'.columns r.id = h.columns r.id)
    (other : h.identifier r.id ≠ d.deviceIdentifier) (row : (h₀.syncDrives s drives).rowOf d ≠ r.id) :
    (∃ e ∈ drives ++ [d], Written h₀ e r (h'.columns r.id)) ∨
      Untouched h₀ h' s (drives ++ [d]) r := by
  rcases progress.rows r mem with ⟨e, he, written⟩ | untouched
  · refine .inl ⟨e, List.mem_append_left _ he, ?_⟩
    rw [columns]
    exact written
  · refine .inr ⟨untouched.mem, columns.trans untouched.columns, ?_, ?_⟩
    · rw [identifier, columns]
      intro e he
      rcases List.mem_append.mp he with he | he
      · exact untouched.unlisted e he
      · rw [List.mem_singleton.mp he]
        exact other.symm
    · rw [assigned_concat, List.mem_append, List.mem_singleton]
      exact fun hit => hit.elim untouched.unassigned fun same => row same.symm

theorem progress_step {h₀ : Hardware} {drives : List DiscoveredDrive} (saved : s.saved d = true)
    (progress : Progress h₀ s drives (h₀.syncDrives s drives)) :
    Progress h₀ s (drives ++ [d]) (h₀.syncDrives s (drives ++ [d])) := by
  rw [syncDrives_concat]
  rcases syncDrive_cases (h₀.syncDrives s drives) s d with
    ⟨refused, -⟩ | ⟨-, missing, wrote, rows⟩ | ⟨-, found, wrote, rows, -⟩
  · rw [saved] at refused
    cases refused
  · refine ⟨wrote.ports.trans progress.ports, fun r mem => ?_⟩
    rw [rows, Table.mem_insert (newDrive_id s.env d _)] at mem
    rcases mem with mem | rfl
    · have old : r.id ≠ (h₀.syncDrives s drives).db.drives.seq + 1 := id_ne_next mem
      exact progress_row _ progress mem (wrote.column_of_ne old) (existing_eq_none missing r mem)
        (by rw [rowOf_of_new missing]; exact old.symm)
    · refine .inl ⟨d, by simp, ?_⟩
      rw [newDrive_id, wrote.column_self]
      refine ⟨rfl, rfl, fun available => ?_⟩
      rw [← portIsEnabled_congr progress.ports]
      by_contra closed
      simp [newDrive, newColumns] at available closed
      exact absurd available (by simp [closed])
  next r₀ =>
    refine ⟨wrote.ports.trans progress.ports, fun r mem => ?_⟩
    rw [rows] at mem
    rcases mem with ⟨mem, other⟩ | rfl
    · exact progress_row _ progress mem (wrote.column_of_ne other)
        (identifier_ne_of_existing found mem other)
        (by rw [rowOf_of_existing found]; exact other.symm)
    · have key : (refreshedDrive (h₀.syncDrives s drives) s d r₀).id = r₀.id :=
        refreshDrive_id _ _ _ _
      refine .inl ⟨d, by simp, ?_⟩
      rw [key, wrote.column_self]
      refine ⟨rfl, refreshDrive_filesystemPath, fun available => ?_⟩
      rw [← portIsEnabled_congr progress.ports]
      exact enabled_of_refreshDrive_available available

theorem progress_drives (h₀ : Hardware) (s : Sync) (drives : List DiscoveredDrive)
    (saved : ∀ d ∈ drives, s.saved d = true) :
    Progress h₀ s drives (h₀.syncDrives s drives) := by
  induction drives using List.reverseRecOn with
  | nil =>
      exact ⟨rfl, fun r mem => .inr ⟨mem, rfl, fun _ h => absurd h List.not_mem_nil,
        List.not_mem_nil⟩⟩
  | append_singleton drives d ih =>
      exact progress_step (saved d (by simp)) (ih fun e he => saved e (by simp [he]))

/-! ### Isolation -/

/-- What a phase of a pass may do to a drive. -/
structure Isolated (s : Sync) (h : Hardware) (phase : Phase) (r r' : UsbDrive) : Prop where
  id : r'.id = r.id
  project : r'.currentProjectId = r.currentProjectId
  inUse : r.currentState = .inUse → r'.currentState = .inUse
  /-- A drive comes into use as a listed drive of a project that is mounted, with
  an enabled port on record: the listed one, if the port is listed. -/
  taken : r.currentState ≠ .inUse → r'.currentState = .inUse →
    ∃ d ∈ s.topology.drives, phase = .drive d ∧ h.rowOf d = r.id ∧
      truthy d.mountPath ≠ none ∧ r.currentProjectId ≠ none ∧
      (advance s h phase).portIsEnabled ((advance s h phase).columns r.id).portId = true ∧
      ∀ k, h.portIdOf s.topology d = some k → ((advance s h phase).columns r.id).portId = some k

/-- A phase keeps every drive, and drives it adds are neither bound nor in use. -/
structure Isolating (s : Sync) (h : Hardware) (phase : Phase) : Prop where
  kept : ∀ r ∈ h.db.drives, ∃ r' ∈ (advance s h phase).db.drives, Isolated s h phase r r'
  added : ∀ r' ∈ (advance s h phase).db.drives,
    (∃ r ∈ h.db.drives, r.id = r'.id) ∨ (r'.currentProjectId = none ∧ r'.currentState ≠ .inUse)

theorem isolated_same {phase : Phase} : Isolated s h phase r r :=
  ⟨rfl, rfl, id, fun free taken => absurd taken free⟩

theorem isolating_ports : Isolating s h .ports where
  kept r mem := ⟨r, mem, isolated_same⟩
  added r mem := .inl ⟨r, mem, rfl⟩

theorem isolating_sweep : Isolating s h .sweep where
  kept r mem := by
    refine ⟨_, ((sweep_spec h s).rows _).mpr ⟨r, mem, rfl⟩, ?_⟩
    split
    next gone =>
      have free : r.currentState ≠ .inUse := by
        simp only [absent, decide_eq_true_eq] at gone
        exact gone.2.1
      exact ⟨rfl, rfl, fun inUse => absurd inUse free, fun _ taken => by cases taken⟩
    next => exact isolated_same
  added r' mem' := by
    obtain ⟨r, mem, rfl⟩ := ((sweep_spec h s).rows r').mp mem'
    exact .inl ⟨r, mem, by split <;> rfl⟩

theorem isolating_drive (listed : d ∈ s.topology.drives) : Isolating s h (.drive d) := by
  rcases syncDrive_cases h s d with
    ⟨-, same⟩ | ⟨-, missing, wrote, rows⟩ | ⟨-, found, wrote, rows, -⟩
  · have same : advance s h (.drive d) = h := same
    refine ⟨fun r mem => ⟨r, ?_, isolated_same⟩, fun r mem => ?_⟩
    · rw [same]
      exact mem
    · rw [same] at mem
      exact .inl ⟨r, mem, rfl⟩
  · have rows : (advance s h (.drive d)).db.drives = _ := rows
    refine ⟨fun r mem => ⟨r, ?_, isolated_same⟩, fun r mem => ?_⟩
    · rw [rows, Table.mem_insert (newDrive_id s.env d _)]
      exact .inl mem
    · rw [rows, Table.mem_insert (newDrive_id s.env d _)] at mem
      rcases mem with mem | rfl
      · exact .inl ⟨r, mem, rfl⟩
      · refine .inr ⟨rfl, ?_⟩
        simp only [newDrive]
        split <;> exact fun h => by cases h
  next r₀ =>
    have rows : ∀ r', r' ∈ (advance s h (.drive d)).db.drives ↔ _ := rows
    have key : (h.refreshedDrive s d r₀).id = r₀.id := refreshDrive_id _ _ _ _
    constructor
    · intro r mem
      by_cases hit : r.id = r₀.id
      · rw [Table.eq_of_id_eq mem (existing_eq_some found).1 hit]
        refine ⟨_, (rows _).mpr (.inr rfl), key, refreshDrive_projectId, ?_, ?_⟩
        · intro inUse
          exact refreshDrive_inUse.mpr (.inl inUse)
        · intro free taken
          rcases refreshDrive_inUse.mp taken with inUse | ⟨enabled, mounted⟩
          · exact absurd inUse free
          · obtain ⟨live, bound⟩ := mounted_of_refreshPresence free mounted
            have wrote : Wrote h (advance s h (.drive d)) r₀.id _ := wrote
            refine ⟨d, listed, rfl, rowOf_of_existing found, live, bound, ?_, fun k port => ?_⟩
            · rw [wrote.column_self, wrote.portIsEnabled]
              exact enabled
            · rw [wrote.column_self, refreshed, refreshColumns, port]
              rfl
      · exact ⟨r, (rows r).mpr (.inl ⟨mem, hit⟩), isolated_same⟩
    · intro r mem
      rcases (rows r).mp mem with ⟨mem, -⟩ | rfl
      · exact .inl ⟨r, mem, rfl⟩
      · exact .inl ⟨r₀, (existing_eq_some found).1, key.symm⟩

theorem isolating_phases (drives : List DiscoveredDrive)
    (listed : ∀ d ∈ drives, d ∈ s.topology.drives) :
    Along (advance s) (Isolating s) h (drives.map .drive ++ [.sweep]) := by
  induction drives generalizing h with
  | nil => exact ⟨isolating_sweep, trivial⟩
  | cons d rest ih =>
      exact ⟨isolating_drive (listed d (by simp)), ih fun e he => listed e (by simp [he])⟩

/-- After the sweep, an available drive is listed and its port is enabled. -/
theorem available_listed (saved : ∀ d, s.saved d = true) (swept : ∀ k, s.swept k = true)
    (mem : r ∈ (h.runDiscoverySync s).db.drives) (available : r.currentState = .available) :
    (∃ d ∈ s.topology.drives,
      d.deviceIdentifier = (h.runDiscoverySync s).identifier r.id) ∧
      (h.runDiscoverySync s).portIsEnabled ((h.runDiscoverySync s).columns r.id).portId = true := by
  rw [runDiscoverySync_eq] at mem ⊢
  have progress := progress_drives (h.syncPorts s.topology) s s.topology.drives fun d _ => saved d
  have after := sweep_spec ((h.syncPorts s.topology).syncDrives s s.topology.drives) s
  obtain ⟨r₀, mem₀, same⟩ := (after.rows r).mp mem
  -- The sweep leaves no row available that it writes to.
  have present : absent ((h.syncPorts s.topology).syncDrives s s.topology.drives) s r₀ = false := by
    by_contra gone
    rw [if_pos (by simpa using gone)] at same
    rw [← same] at available
    cases available
  rw [present, if_neg (by simp)] at same
  subst same
  rcases progress.rows r₀ mem₀ with ⟨d, listed, written⟩ | untouched
  · have columns := after.columns r₀ mem₀
    rw [present, if_neg (by simp)] at columns
    rw [after.identifier, columns, portIsEnabled_congr (after.ports.trans progress.ports)]
    exact ⟨⟨d, listed, written.identifier.symm⟩, written.available available⟩
  · -- An available row that is not listed is swept.
    refine absurd present ?_
    have unlisted : identifier ((h.syncPorts s.topology).syncDrives s s.topology.drives) r₀.id ∉
        s.topology.drives.map DiscoveredDrive.deviceIdentifier := by
      rw [List.mem_map]
      rintro ⟨d, hd, same⟩
      exact untouched.unlisted d hd same
    simp [absent, unlisted, available, swept]

/-- Discovery keeps project isolation. With all commits accepted, every phase of
a pass keeps the drives in use, keeps the bindings, and takes into use only
mounted drives of a project on enabled ports; after the pass only listed drives
on known and enabled ports are available. -/
theorem discovery_isolated (h : Hardware) (s : Sync) (saved : ∀ d, s.saved d = true)
    (swept : ∀ k, s.swept k = true) :
    Along (advance s) (Isolating s) h s.phases ∧
      ∀ r ∈ (h.runDiscoverySync s).db.drives, r.currentState = .available →
        (∃ d ∈ s.topology.drives,
          d.deviceIdentifier = (h.runDiscoverySync s).identifier r.id) ∧
        (h.runDiscoverySync s).portIsEnabled ((h.runDiscoverySync s).columns r.id).portId = true :=
  ⟨⟨isolating_ports, isolating_phases s.topology.drives fun _ hd => hd⟩,
    fun _ mem available => available_listed saved swept mem available⟩

end Hardware

/-- The bound stick is found mounted at its slot, next to a new one on the disabled port. -/
theorem discovery_isolated_boundStick :
    ((boundHost.runDiscoverySync (passOver [stick "A" "1-1" "/dev/sdb" (some "/mnt/ecube/1".toList),
        stick "B" "1-2" "/dev/sdc" none])).db.drives.rows.map UsbDrive.currentState =
      [.inUse, .disabled]) ∧
    Along (Hardware.advance (passOver [stick "A" "1-1" "/dev/sdb" (some "/mnt/ecube/1".toList),
        stick "B" "1-2" "/dev/sdc" none]))
      (Hardware.Isolating (passOver [stick "A" "1-1" "/dev/sdb" (some "/mnt/ecube/1".toList),
        stick "B" "1-2" "/dev/sdc" none])) boundHost
      (passOver [stick "A" "1-1" "/dev/sdb" (some "/mnt/ecube/1".toList),
        stick "B" "1-2" "/dev/sdc" none]).phases :=
  ⟨rfl, (Hardware.discovery_isolated boundHost _ (fun _ => rfl) fun _ => rfl).1⟩

end Ecube
