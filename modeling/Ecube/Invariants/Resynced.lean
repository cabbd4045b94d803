import Ecube.Invariants.Rediscovered

/-!
A second pass over the same topology.

As long as no two listed drives are written to one row, a pass leaves on the row
of each listed drive what this drive makes of the row it found (`run_row`), and a
second pass applies the same update to the result. Hubs and ports are upserts
and settle at once, and so do the sweep and all columns of a drive but one: the
mount path. It is dropped when a row is inserted and when an available row is
demoted, but recorded from the topology on every other row, so a drive that is
found mounted at its managed slot gets its mount path one pass later.

* `resync_iff_stable`: the second pass changes nothing exactly when no listed
  drive is in this position.
* `exists_lost`, `lost_changes`: when two listed drives are written to one row,
  one of them has no row after the pass and gets another one in the next.
* `resync_changes`: a drive on a port that has just been disabled.
-/

namespace Ecube

open Transition

/-! ### One row -/

theorem managedSlot_eq_some {env : Environment} {k : Nat} {path : Option Str} {p : Str}
    (found : managedSlot env k path = some p) :
    truthy path = some p ∧ truthy (some p) = some p ∧ managedSlot env k (some p) = some p := by
  obtain ⟨read, managed⟩ := Option.filter_eq_some_iff.mp found
  obtain ⟨-, full⟩ := Option.filter_eq_some_iff.mp read
  have self : truthy (some p) = some p := Option.filter_eq_some_iff.mpr ⟨rfl, full⟩
  exact ⟨read, self, Option.filter_eq_some_iff.mpr ⟨self, managed⟩⟩

theorem managedSlot_managedSlot (env : Environment) (k : Nat) (path : Option Str) :
    managedSlot env k (managedSlot env k path) = managedSlot env k path := by
  cases found : managedSlot env k path with
  | none => rfl
  | some p => exact (managedSlot_eq_some found).2.2

theorem truthy_managedSlot (env : Environment) (k : Nat) (path : Option Str) :
    truthy (managedSlot env k path) = managedSlot env k path := by
  cases found : managedSlot env k path with
  | none => rfl
  | some p => exact (managedSlot_eq_some found).2.1

theorem detectedType_detectedType (env : Environment) (path : Option Str) (old : Option String) :
    detectedType env path (detectedType env path old) = detectedType env path old := by
  rw [detectedType, detectedType]
  cases truthy path <;> rfl

/-- An update settles unless it demotes a row whose slot is mounted. -/
theorem refreshDrive_refreshDrive (env : Environment) (d : DiscoveredDrive) (e : Bool)
    (r : UsbDrive) :
    refreshDrive env d e (refreshDrive env d e r) = refreshDrive env d e r ↔
      ¬ (e = false ∧ r.currentState = .available ∧ managedSlot env r.id d.mountPath ≠ none) := by
  obtain ⟨k, path, type, bytes, state, project, mount, format, message⟩ := r
  have kept := managedSlot_managedSlot env k mount
  have read := managedSlot_managedSlot env k d.mountPath
  have keptText := truthy_managedSlot env k mount
  have readText := truthy_managedSlot env k d.mountPath
  have live : managedSlot env k d.mountPath ≠ none → truthy d.mountPath ≠ none := by
    intro managed unread
    rw [managedSlot, unread] at managed
    exact managed rfl
  -- The outcome depends on the port, the state, the binding and the mount paths only.
  generalize slot : managedSlot env k d.mountPath = m at *
  generalize old : managedSlot env k mount = x at *
  cases e <;> cases state <;> cases m <;> cases x <;> cases project <;>
    cases text : truthy d.mountPath <;>
    simp_all [refreshDrive, refreshPresence, activate, demote, persistedUsbMountPath,
      mountedForProject, detectedType_detectedType]

/-- A new row settles unless its slot is mounted. -/
theorem refreshDrive_newDrive (env : Environment) (d : DiscoveredDrive) (e : Bool) (k : Nat) :
    refreshDrive env d e (newDrive env d e k) = newDrive env d e k ↔
      managedSlot env k d.mountPath = none := by
  cases e <;> cases slot : managedSlot env k d.mountPath <;>
    simp [refreshDrive, refreshPresence, activate, demote, persistedUsbMountPath,
      mountedForProject, detectedType_detectedType, newDrive, slot]

theorem refreshColumns_refreshColumns (d : DiscoveredDrive) (p : Option Nat) (c : DriveColumns) :
    refreshColumns d p (refreshColumns d p c) = refreshColumns d p c := by
  simp only [refreshColumns, ← Option.or_assoc, Option.or_self]

theorem refreshColumns_newColumns (d : DiscoveredDrive) (p : Option Nat) :
    refreshColumns d p (newColumns d p) = newColumns d p := by
  simp only [refreshColumns, newColumns, Option.or_self]

namespace Hardware

variable {h h₀ : Hardware} {s : Sync} {d : DiscoveredDrive} {k : Nat}

/-! ### The row of a listed drive -/

/-- What a listed drive makes of the row it is written to. -/
def outcome (h : Hardware) (s : Sync) (d : DiscoveredDrive) (k : Nat) : UsbDrive × DriveColumns :=
  let portId := h.portIdOf s.topology d
  match h.db.drives.get k with
  | none => (newDrive s.env d (h.portIsEnabled portId) k, newColumns d portId)
  | some r =>
      let columns := refreshColumns d portId (h.columns k)
      (refreshDrive s.env d (h.portIsEnabled columns.portId) r, columns)

theorem portIdOf_congr (ports : h.ports = h₀.ports) (t : DiscoveredTopology) (d : DiscoveredDrive) :
    h.portIdOf t d = h₀.portIdOf t d := by
  rw [portIdOf, ports, portIdOf]

theorem outcome_congr (ports : h.ports = h₀.ports)
    (row : h.db.drives.get k = h₀.db.drives.get k) (columns : h.columns k = h₀.columns k) :
    h.outcome s d k = h₀.outcome s d k := by
  simp only [outcome, row, columns, portIdOf_congr ports, portIsEnabled_congr ports]

theorem outcome_identifier : (h.outcome s d k).2.deviceIdentifier = d.deviceIdentifier := by
  rw [outcome]
  split <;> rfl

/-- The row has these columns. -/
def At (h : Hardware) (k : Nat) (x : UsbDrive × DriveColumns) : Prop :=
  h.db.drives.get k = some x.1 ∧ h.columns k = x.2

theorem at_rowOf (saved : s.saved d = true) :
    (h.syncDrive s d).At (h.rowOf d) (h.outcome s d (h.rowOf d)) := by
  rcases syncDrive_cases h s d with
    ⟨refused, -⟩ | ⟨-, missing, wrote, rows⟩ | ⟨-, found, wrote, rows, -⟩
  · rw [saved] at refused
    cases refused
  · have free : h.db.drives.get (h.db.drives.seq + 1) = none :=
      Table.get_eq_none_iff.mpr fun r mem => id_ne_next mem
    rw [rowOf_of_new missing, At, wrote.column_self, rows, outcome, free]
    refine ⟨Table.get_eq_some_iff.mpr ⟨?_, rfl⟩, rfl⟩
    exact (Table.mem_insert (newDrive_id s.env d _)).mpr (.inr rfl)
  next r =>
    have row : h.db.drives.get r.id = some r :=
      Table.get_eq_some_iff.mpr ⟨(existing_eq_some found).1, rfl⟩
    rw [rowOf_of_existing found, At, wrote.column_self, outcome, row]
    refine ⟨Table.get_eq_some_iff.mpr ⟨?_, refreshDrive_id _ _ _ _⟩, rfl⟩
    exact (rows _).mpr (.inr rfl)

/-- The other rows stay as they are. -/
theorem syncDrive_other (other : k ≠ h.rowOf d) :
    (h.syncDrive s d).db.drives.get k = h.db.drives.get k ∧
      (h.syncDrive s d).columns k = h.columns k := by
  rcases syncDrive_cases h s d with
    ⟨-, same⟩ | ⟨-, missing, wrote, rows⟩ | ⟨-, found, wrote, rows, -⟩
  · rw [same]
    exact ⟨rfl, rfl⟩
  · rw [rowOf_of_new missing] at other
    refine ⟨Table.get_congr fun r id => ?_, wrote.column_of_ne other⟩
    rw [rows, Table.mem_insert (newDrive_id s.env d _), or_iff_left]
    rintro rfl
    exact other id.symm
  next r₀ =>
    rw [rowOf_of_existing found] at other
    refine ⟨Table.get_congr fun r id => ?_, wrote.column_of_ne other⟩
    have apart : r.id ≠ r₀.id := fun same => other (Eq.trans (Eq.symm id) same)
    rw [rows, and_iff_left apart, or_iff_left]
    rintro rfl
    exact apart (refreshDrive_id _ _ _ _)

theorem syncDrive_ports (h : Hardware) (s : Sync) (d : DiscoveredDrive) :
    (h.syncDrive s d).hubs = h.hubs ∧ (h.syncDrive s d).ports = h.ports := by
  rcases syncDrive_cases h s d with
    ⟨-, same⟩ | ⟨-, missing, wrote, rows⟩ | ⟨-, found, wrote, rows, -⟩
  · rw [same]
    exact ⟨rfl, rfl⟩
  · exact ⟨wrote.hubs, wrote.ports⟩
  · exact ⟨wrote.hubs, wrote.ports⟩

theorem syncDrives_ports (h : Hardware) (s : Sync) (drives : List DiscoveredDrive) :
    (h.syncDrives s drives).hubs = h.hubs ∧ (h.syncDrives s drives).ports = h.ports := by
  induction drives generalizing h with
  | nil => exact ⟨rfl, rfl⟩
  | cons d rest ih =>
      obtain ⟨hubs, ports⟩ := ih (h.syncDrive s d)
      obtain ⟨hubs₀, ports₀⟩ := syncDrive_ports h s d
      exact ⟨hubs.trans hubs₀, ports.trans ports₀⟩

theorem syncDrives_other {drives : List DiscoveredDrive} (other : k ∉ assigned s h drives) :
    (h.syncDrives s drives).db.drives.get k = h.db.drives.get k ∧
      (h.syncDrives s drives).columns k = h.columns k := by
  induction drives generalizing h with
  | nil => exact ⟨rfl, rfl⟩
  | cons d rest ih =>
      obtain ⟨row, columns⟩ := ih (List.not_mem_of_not_mem_cons other)
      obtain ⟨row₀, columns₀⟩ := syncDrive_other (s := s) (List.ne_of_not_mem_cons other)
      exact ⟨row.trans row₀, columns.trans columns₀⟩

theorem rowOf_mem_assigned {before behind : List DiscoveredDrive} :
    (h.syncDrives s before).rowOf d ∈ assigned s h (before ++ d :: behind) := by
  induction before generalizing h with
  | nil => exact List.mem_cons_self
  | cons e rest ih => exact List.mem_cons_of_mem _ (ih (h := h.syncDrive s e))

theorem length_assigned (h : Hardware) (s : Sync) (drives : List DiscoveredDrive) :
    (assigned s h drives).length = drives.length := by
  induction drives generalizing h with
  | nil => rfl
  | cons d rest ih => exact congrArg (· + 1) (ih (h.syncDrive s d))

/-- The listed drives with the rows they are written to. -/
def places (s : Sync) (h : Hardware) : List (DiscoveredDrive × Nat) :=
  s.topology.drives.zip (assigned s h s.topology.drives)

/-- Each listed drive leaves its outcome, if no other drive is written to its row. -/
theorem at_syncDrives {drives : List DiscoveredDrive} (saved : ∀ d, s.saved d = true)
    (apart : (assigned s h drives).Nodup) {x : DiscoveredDrive × Nat}
    (hx : x ∈ drives.zip (assigned s h drives)) :
    (h.syncDrives s drives).At x.2 (h.outcome s x.1 x.2) := by
  induction drives generalizing h with
  | nil => exact absurd hx List.not_mem_nil
  | cons d rest ih =>
      obtain ⟨free, apart⟩ := List.nodup_cons.mp apart
      rcases List.mem_cons.mp hx with rfl | hx
      · -- The row of the first drive is not written again.
        have first := at_rowOf (h := h) (saved d)
        obtain ⟨row, columns⟩ := syncDrives_other free
        exact ⟨row.trans first.1, columns.trans first.2⟩
      · have later := ih apart hx
        have other : x.2 ≠ h.rowOf d := by
          intro same
          exact free (same ▸ (List.of_mem_zip hx).2)
        obtain ⟨row, columns⟩ := syncDrive_other (s := s) other
        rwa [outcome_congr (syncDrive_ports h s d).2 row columns] at later

/-- A listed row survives the sweep. -/
theorem sweep_at {x : UsbDrive × DriveColumns} (row : h.At k x)
    (listed : x.2.deviceIdentifier ∈ s.topology.drives.map DiscoveredDrive.deviceIdentifier) :
    (h.sweep s).At k x := by
  obtain ⟨found, columns⟩ := row
  obtain ⟨mem, rfl⟩ := Table.get_eq_some_iff.mp found
  have present : h.absent s x.1 = false := by
    have name : h.identifier x.1.id = x.2.deviceIdentifier :=
      congrArg DriveColumns.deviceIdentifier columns
    simp only [absent, name, listed, not_true, false_and, decide_false]
  have kept := (sweep_spec h s).columns x.1 mem
  rw [present, if_neg Bool.false_ne_true] at kept
  refine ⟨Table.get_eq_some_iff.mpr ⟨?_, rfl⟩, kept.trans columns⟩
  refine ((sweep_spec h s).rows x.1).mpr ⟨x.1, mem, ?_⟩
  rw [present, if_neg Bool.false_ne_true]

theorem exists_place (hd : d ∈ s.topology.drives) : ∃ k, (d, k) ∈ places s h := by
  have all : (places s h).map Prod.fst = s.topology.drives :=
    List.map_fst_zip (length_assigned h s s.topology.drives).ge
  rw [← all] at hd
  obtain ⟨x, hx, rfl⟩ := List.mem_map.mp hd
  exact ⟨x.2, hx⟩

theorem mem_places {x : DiscoveredDrive × Nat} (hx : x ∈ places s h) : x.1 ∈ s.topology.drives :=
  (List.of_mem_zip hx).1

/-- The row of a listed drive after the drives and the sweep of a pass. -/
theorem run_row (saved : ∀ d, s.saved d = true)
    (apart : (assigned s h s.topology.drives).Nodup) {x : DiscoveredDrive × Nat}
    (hx : x ∈ places s h) :
    ((h.syncDrives s s.topology.drives).sweep s).At x.2 (h.outcome s x.1 x.2) := by
  refine sweep_at (at_syncDrives saved apart hx) ?_
  rw [outcome_identifier]
  exact List.mem_map_of_mem (mem_places hx)

/-! ### Rows that settle -/

/-- The drive is not found mounted at its managed slot, or it has a row that the
pass does not demote. -/
def Stable (h : Hardware) (s : Sync) (d : DiscoveredDrive) (k : Nat) : Prop :=
  managedSlot s.env k d.mountPath = none ∨
    ∃ r ∈ h.db.drives, r.id = k ∧ ¬ (r.currentState = .available ∧
      h.portIsEnabled (refreshColumns d (h.portIdOf s.topology d) (h.columns k)).portId = false)

theorem outcome_outcome (ports : h.ports = h₀.ports) (row : h.At k (h₀.outcome s d k)) :
    h.outcome s d k = h₀.outcome s d k ↔ h₀.Stable s d k := by
  obtain ⟨found, columns⟩ := row
  have again : h.outcome s d k =
      (refreshDrive s.env d (h₀.portIsEnabled (refreshColumns d (h₀.portIdOf s.topology d)
          (h₀.outcome s d k).2).portId) (h₀.outcome s d k).1,
        refreshColumns d (h₀.portIdOf s.topology d) (h₀.outcome s d k).2) := by
    rw [outcome, found]
    simp only [columns, portIdOf_congr ports, portIsEnabled_congr ports]
  rw [again]
  cases old : h₀.db.drives.get k with
  | none =>
      have missing : ¬ ∃ r ∈ h₀.db.drives, r.id = k := by
        rintro ⟨r, mem, id⟩
        exact Table.get_eq_none_iff.mp old r mem id
      simp only [outcome, old, refreshColumns_newColumns, Prod.mk.injEq, and_true, Stable]
      rw [show (newColumns d (h₀.portIdOf s.topology d)).portId = h₀.portIdOf s.topology d from rfl,
        refreshDrive_newDrive, or_iff_left]
      rintro ⟨r, mem, id, -⟩
      exact missing ⟨r, mem, id⟩
  | some r =>
      obtain ⟨mem, rfl⟩ := Table.get_eq_some_iff.mp old
      simp only [outcome, old, refreshColumns_refreshColumns, Prod.mk.injEq, and_true]
      rw [refreshDrive_refreshDrive, Stable]
      constructor
      · intro settles
        by_cases slot : managedSlot s.env r.id d.mountPath = none
        · exact .inl slot
        · exact .inr ⟨r, mem, rfl, fun ⟨available, closed⟩ => settles ⟨closed, available, slot⟩⟩
      · rintro (slot | ⟨r', mem', id, kept⟩) ⟨closed, available, mounted⟩
        · exact mounted slot
        · rw [Table.eq_of_id_eq mem' mem id] at kept
          exact kept ⟨available, closed⟩

/-! ### Passes that change nothing -/

theorem commit_self (h : Hardware) : h.commit h.db.drives h.columns = h :=
  commit_eq h.identified

theorem syncDrive_self {r : UsbDrive} (saved : s.saved d = true) (found : h.existing d = some r)
    (row : h.outcome s d r.id = (r, h.columns r.id)) : h.syncDrive s d = h := by
  have mem := (existing_eq_some found).1
  have get : h.db.drives.get r.id = some r := Table.get_eq_some_iff.mpr ⟨mem, rfl⟩
  simp only [outcome, get, Prod.mk.injEq] at row
  obtain ⟨same, columns⟩ := row
  have drives : h.db.drives.modify r.id (refreshDrive s.env d (h.portIsEnabled
      (refreshColumns d (h.portIdOf s.topology d) (h.columns r.id)).portId))
      (refreshDrive_id s.env d _) = h.db.drives := by
    apply Table.modify_eq_self _
    intro r' mem' id
    rw [Table.eq_of_id_eq mem' mem id]
    exact same
  have update : h.updateDrive s d r.id = h := by
    rw [updateDrive]
    simp only [drives]
    rw [columns, Function.update_eq_self, commit_self]
  rw [syncDrive, if_pos saved, found]
  exact update

theorem syncDrives_self {drives : List DiscoveredDrive}
    (fixed : ∀ d ∈ drives, h.syncDrive s d = h) : h.syncDrives s drives = h := by
  induction drives with
  | nil => rfl
  | cons d rest ih =>
      have head : h.syncDrive s d = h := fixed d (by simp)
      change (h.syncDrive s d).syncDrives s rest = h
      rw [head]
      exact ih fun e he => fixed e (by simp [he])

theorem sweep_self (present : ∀ r ∈ h.db.drives, h.absent s r = false) : h.sweep s = h := by
  have drives : h.db.drives.update (h.absent s) disconnect disconnect_id = h.db.drives := by
    refine Table.eq_of_rows_eq ?_ rfl
    conv_rhs => rw [← List.map_id h.db.drives.rows]
    apply List.map_congr_left
    intro r mem
    rw [present r mem, if_neg Bool.false_ne_true]
    rfl
  have columns : (fun k => if (h.db.drives.get k).any (h.absent s) then
      { h.columns k with portId := none } else h.columns k) = h.columns := by
    funext k
    apply if_neg
    intro hit
    obtain ⟨r, found, gone⟩ := (Option.any_eq_true _ _).mp hit
    rw [present r (Table.mem_of_get found)] at gone
    cases gone
  rw [sweep, columns]
  exact (congrArg (h.commit · h.columns) drives).trans h.commit_self

/-- After a sweep nothing is left to sweep. -/
theorem absent_sweep (h : Hardware) (s : Sync) :
    ∀ r ∈ (h.sweep s).db.drives, (h.sweep s).absent s r = false := by
  intro r mem
  obtain ⟨r₀, mem₀, same⟩ := ((sweep_spec h s).rows r).mp mem
  have columns := (sweep_spec h s).columns r₀ mem₀
  have name := (sweep_spec h s).identifier r.id
  split at same
  next gone =>
    subst same
    rw [gone, if_pos rfl] at columns
    simp [absent, columns, disconnect]
  next present =>
    subst same
    rw [if_neg present] at columns
    have present : h.absent s r₀ = false := by simpa using present
    rw [absent] at present ⊢
    rw [name, columns]
    exact present

theorem syncPorts_self (hubs : h.hubs = (h₀.syncPorts s.topology).hubs)
    (ports : h.ports = (h₀.syncPorts s.topology).ports) : h.syncPorts s.topology = h := by
  have again : hubUpsert.upserts h.hubs (hubWrites s.topology) = h.hubs := by
    rw [hubs]
    exact hubUpsert.upserts_upserts h₀.hubs (hubWrites s.topology)
  have same : portUpsert.upserts h.ports (portWrites h.hubs s.topology) = h.ports := by
    rw [hubs, ports]
    exact portUpsert.upserts_upserts h₀.ports _
  rw [syncPorts]
  simp only [again, same]

/-- Where every listed drive has a row with its identifier, it is written there. -/
theorem assigned_of_named {drives : List DiscoveredDrive} {ks : List Nat} (apart : ks.Nodup)
    (length : ks.length = drives.length)
    (named : ∀ x ∈ drives.zip ks, ∃ r, h.db.drives.get x.2 = some r ∧
      h.identifier x.2 = x.1.deviceIdentifier) : assigned s h drives = ks := by
  induction drives generalizing h ks with
  | nil =>
      cases ks with
      | nil => rfl
      | cons k ks => cases length
  | cons d rest ih =>
      cases ks with
      | nil => cases length
      | cons k ks =>
          obtain ⟨free, apart⟩ := List.nodup_cons.mp apart
          obtain ⟨r, found, name⟩ := named (d, k) (by simp)
          have id : r.id = k := Table.id_of_get found
          have row : h.rowOf d = k := by
            rw [← id] at name ⊢
            exact rowOf_of_existing (existing_of_mem (Table.mem_of_get found) name)
          rw [assigned, row]
          refine congrArg (k :: ·) (ih apart (by simpa using length) fun x hx => ?_)
          have other : x.2 ≠ h.rowOf d := by
            rw [row]
            exact fun same => free (same ▸ (List.of_mem_zip hx).2)
          obtain ⟨rows, columns⟩ := syncDrive_other (s := s) other
          rw [rows, identifier, columns]
          exact named x (by simp [hx])

/-- The hubs and ports of a pass are those of its first phase. -/
theorem settled_ports (h : Hardware) (s : Sync) :
    (h.runDiscoverySync s).hubs = (h.syncPorts s.topology).hubs ∧
      (h.runDiscoverySync s).ports = (h.syncPorts s.topology).ports := by
  have after := sweep_spec ((h.syncPorts s.topology).syncDrives s s.topology.drives) s
  obtain ⟨hubs, ports⟩ := syncDrives_ports (h.syncPorts s.topology) s s.topology.drives
  rw [runDiscoverySync_eq]
  exact ⟨after.hubs.trans hubs, after.ports.trans ports⟩

theorem second_pass (h : Hardware) (s : Sync) :
    (h.runDiscoverySync s).runDiscoverySync s =
      ((h.runDiscoverySync s).syncDrives s s.topology.drives).sweep s := by
  obtain ⟨hubs, ports⟩ := settled_ports h s
  rw [runDiscoverySync_eq (h.runDiscoverySync s), syncPorts_self hubs ports]

/-- If no two listed drives are written to one row, the second pass changes
nothing exactly when every listed drive settles. -/
theorem resync_iff_stable (h : Hardware) (s : Sync) (saved : ∀ d, s.saved d = true)
    (apart : (assigned s (h.syncPorts s.topology) s.topology.drives).Nodup) :
    (h.runDiscoverySync s).runDiscoverySync s = h.runDiscoverySync s ↔
      ∀ x ∈ places s (h.syncPorts s.topology),
        (h.syncPorts s.topology).Stable s x.1 x.2 := by
  have first := runDiscoverySync_eq h s
  have second := second_pass h s
  have ports := (settled_ports h s).2
  have row : ∀ x ∈ places s (h.syncPorts s.topology), (h.runDiscoverySync s).At x.2
      ((h.syncPorts s.topology).outcome s x.1 x.2) := by
    intro x hx
    rw [first]
    exact run_row saved apart hx
  -- The second pass finds every listed drive on the row of the first.
  have again : assigned s (h.runDiscoverySync s) s.topology.drives =
      assigned s (h.syncPorts s.topology) s.topology.drives := by
    refine assigned_of_named apart (length_assigned _ _ _) fun x hx => ⟨_, (row x hx).1, ?_⟩
    exact (congrArg DriveColumns.deviceIdentifier (row x hx).2).trans outcome_identifier
  constructor
  · intro same x hx
    refine (outcome_outcome ports (row x hx)).mp ?_
    have later := run_row (h := h.runDiscoverySync s) (x := x) saved (again.symm ▸ apart)
      (by rw [places, again]; exact hx)
    rw [← second, same] at later
    exact Prod.ext (Option.some.inj (later.1.symm.trans (row x hx).1))
      (later.2.symm.trans (row x hx).2)
  · intro stable
    have fixed : ∀ d ∈ s.topology.drives, (h.runDiscoverySync s).syncDrive s d =
        h.runDiscoverySync s := by
      intro d hd
      obtain ⟨k, hx⟩ := exists_place (s := s) (h := h.syncPorts s.topology) hd
      obtain ⟨found, columns⟩ := row (d, k) hx
      have settled := (outcome_outcome ports (row (d, k) hx)).mpr (stable (d, k) hx)
      have id := Table.id_of_get found
      refine syncDrive_self (saved d) (existing_of_mem (Table.mem_of_get found) ?_) ?_
      · rw [show UsbDrive.id _ = k from id, identifier, columns]
        exact outcome_identifier
      · rw [show UsbDrive.id _ = k from id, columns]
        exact settled
    rw [second, syncDrives_self fixed, sweep_self]
    rw [first]
    exact absent_sweep _ _

/-! ### Two drives on one row -/

/-- Only the row a drive was written to can have its identifier. -/
theorem id_of_named (saved : ∀ d, s.saved d = true) {drives : List DiscoveredDrive}
    (distinct : (drives.map DiscoveredDrive.deviceIdentifier).Nodup) {x : DiscoveredDrive × Nat}
    (hx : x ∈ drives.zip (assigned s h drives)) {r : UsbDrive}
    (mem : r ∈ (h.syncDrives s drives).db.drives)
    (name : (h.syncDrives s drives).identifier r.id = x.1.deviceIdentifier) : r.id = x.2 := by
  induction drives generalizing h with
  | nil => exact absurd hx List.not_mem_nil
  | cons d rest ih =>
      obtain ⟨fresh, distinct⟩ := List.nodup_cons.mp distinct
      rcases List.mem_cons.mp hx with rfl | hx
      · rcases (progress_drives (h.syncDrive s d) s rest fun e _ => saved e).rows r mem with
          ⟨e, he, written⟩ | untouched
        · have same : e.deviceIdentifier = d.deviceIdentifier :=
            written.identifier.symm.trans name
          exact absurd (same ▸ List.mem_map_of_mem he) fresh
        · have held : Held d.deviceIdentifier r.id (h.syncDrive s d) :=
            ⟨⟨r, untouched.mem, rfl⟩,
              (congrArg DriveColumns.deviceIdentifier untouched.columns).symm.trans name⟩
          exact held.row_unique (held_syncDrive (saved d))
      · exact ih distinct hx mem name

/-- A persistent identifier stays on the row its drive was written to. -/
theorem held_places (saved : ∀ d, s.saved d = true) {drives : List DiscoveredDrive}
    {x : DiscoveredDrive × Nat} (hx : x ∈ drives.zip (assigned s h drives))
    (persistent : isPersistentDeviceIdentifier x.1.deviceIdentifier = true) :
    Held x.1.deviceIdentifier x.2 (h.syncDrives s drives) := by
  induction drives generalizing h with
  | nil => exact absurd hx List.not_mem_nil
  | cons d rest ih =>
      rcases List.mem_cons.mp hx with rfl | hx
      · exact (held_syncDrive (saved d)).syncDrives persistent rest
      · exact ih hx

/-- The drive has an identifier of the old kind, and no row has it. -/
def Lost (h : Hardware) (d : DiscoveredDrive) : Prop :=
  isPersistentDeviceIdentifier d.deviceIdentifier = false ∧
    ∀ r ∈ h.db.drives, h.identifier r.id ≠ d.deviceIdentifier

theorem Lost.sweep (lost : h.Lost d) : (h.sweep s).Lost d := by
  refine ⟨lost.1, fun r mem => ?_⟩
  obtain ⟨r₀, mem₀, rfl⟩ := ((sweep_spec h s).rows r).mp mem
  rw [(sweep_spec h s).identifier]
  have id : UsbDrive.id (if h.absent s r₀ then disconnect r₀ else r₀) = r₀.id := by
    split <;> rfl
  rw [id]
  exact lost.2 r₀ mem₀

/-- When two drives are written to one row, one of them loses it. -/
theorem exists_lost (saved : ∀ d, s.saved d = true)
    (distinct : (s.topology.drives.map DiscoveredDrive.deviceIdentifier).Nodup)
    (shared : ¬ (assigned s h s.topology.drives).Nodup) :
    ∃ d ∈ s.topology.drives, (h.syncDrives s s.topology.drives).Lost d := by
  by_contra none
  push Not at none
  refine shared ?_
  -- Otherwise every drive is found on its row, so the rows are as distinct as the drives.
  have found : ∀ x ∈ places s h, ∃ r ∈ (h.syncDrives s s.topology.drives).db.drives,
      (h.syncDrives s s.topology.drives).identifier r.id = x.1.deviceIdentifier := by
    intro x hx
    cases persistent : isPersistentDeviceIdentifier x.1.deviceIdentifier with
    | true =>
        obtain ⟨⟨r, mem, id⟩, name⟩ := held_places saved hx persistent
        exact ⟨r, mem, id ▸ name⟩
    | false =>
        have kept := none x.1 (mem_places hx)
        rw [Lost, not_and] at kept
        have some := kept persistent
        push Not at some
        exact some
  have all : (places s h).map Prod.fst = s.topology.drives :=
    List.map_fst_zip (length_assigned h s s.topology.drives).ge
  have rows : (places s h).map Prod.snd = assigned s h s.topology.drives :=
    List.map_snd_zip (length_assigned h s s.topology.drives).le
  have nodup : (places s h).Nodup := by
    refine List.Nodup.of_map Prod.fst ?_
    rw [all]
    exact List.Nodup.of_map _ distinct
  rw [← rows]
  apply nodup.map_on
  intro x hx y hy same
  obtain ⟨r, mem, name⟩ := found x hx
  obtain ⟨r', mem', name'⟩ := found y hy
  have idx := id_of_named saved distinct hx mem name
  have idy := id_of_named saved distinct hy mem' name'
  have drive : x.1 = y.1 := by
    refine List.inj_on_of_nodup_map distinct (mem_places hx) (mem_places hy) ?_
    rw [← name, ← name', idx, idy, same]
  exact Prod.ext drive same

/-- A listed drive with an identifier of the old kind is not named after another:
neither its port path nor its trimmed identifier is the identifier of another
listed drive. -/
def Unaliased (t : DiscoveredTopology) : Prop :=
  ∀ d ∈ t.drives, isPersistentDeviceIdentifier d.deviceIdentifier = false →
    ∀ e ∈ t.drives, e.deviceIdentifier ≠ d.deviceIdentifier →
      truthy (extractUsbSerialNumber (some d.deviceIdentifier) d.portSystemPath) ≠
          some e.deviceIdentifier ∧
        truthy d.portSystemPath ≠ some e.deviceIdentifier

theorem syncDrive_seq (h : Hardware) (s : Sync) (d : DiscoveredDrive) :
    h.db.drives.seq ≤ (h.syncDrive s d).db.drives.seq ∧
      (s.saved d = true → h.existing d = none →
        (h.syncDrive s d).db.drives.seq = h.db.drives.seq + 1) := by
  rcases syncDrive_cases h s d with
    ⟨refused, same⟩ | ⟨-, missing, wrote, rows⟩ | ⟨-, found, wrote, rows, seq⟩
  · rw [same, refused]
    exact ⟨le_rfl, fun saved => by cases saved⟩
  · rw [rows]
    exact ⟨Nat.le_succ _, fun _ _ => rfl⟩
  · rw [seq, found]
    exact ⟨le_rfl, fun _ missing => by cases missing⟩

theorem syncDrives_seq (h : Hardware) (s : Sync) (drives : List DiscoveredDrive) :
    h.db.drives.seq ≤ (h.syncDrives s drives).db.drives.seq := by
  induction drives generalizing h with
  | nil => exact le_rfl
  | cons d rest ih => exact (syncDrive_seq h s d).1.trans (ih (h.syncDrive s d))

theorem sweep_seq (h : Hardware) (s : Sync) : (h.sweep s).db.drives.seq = h.db.drives.seq := by
  rw [sweep, commit_eq (sweep_identified h s)]
  rfl

/-- The identifier of an existing row that does not have the drive's own: the
serial number of the drive, or its port path. -/
theorem existing_alias {r : UsbDrive} (found : h.existing d = some r)
    (other : h.identifier r.id ≠ d.deviceIdentifier) :
    truthy (extractUsbSerialNumber (some d.deviceIdentifier) d.portSystemPath) =
        some (h.identifier r.id) ∨
      truthy d.portSystemPath = some (h.identifier r.id) := by
  have legacy : ∀ {i : Option Str}, h.legacyNamed i = some r → truthy i = some (h.identifier r.id) := by
    intro i found
    obtain ⟨found, -⟩ := Option.filter_eq_some_iff.mp found
    obtain ⟨path, read, named⟩ := Option.bind_eq_some_iff.mp found
    rw [read, (named_eq_some named).2]
  rw [existing, Option.or_eq_some_iff, Option.or_eq_some_iff] at found
  rcases found with named | ⟨-, found | ⟨-, found⟩⟩
  · exact absurd (named_eq_some named).2 other
  · exact .inl (legacy found)
  · exact .inr (legacy found)

/-- A drive that has lost its row gets another one in the next pass. -/
theorem lost_changes (saved : ∀ d, s.saved d = true)
    (distinct : (s.topology.drives.map DiscoveredDrive.deviceIdentifier).Nodup)
    (plain : Unaliased s.topology) (hd : d ∈ s.topology.drives) (lost : h.Lost d) :
    (h.syncDrives s s.topology.drives).sweep s ≠ h := by
  intro same
  obtain ⟨before, behind, split⟩ := List.append_of_mem hd
  have whole : h.syncDrives s s.topology.drives =
      ((h.syncDrives s before).syncDrive s d).syncDrives s behind := by
    rw [split, syncDrives, List.foldl_append]
    rfl
  have progress := progress_drives h s before fun e _ => saved e
  have listed : ∀ e ∈ before, e ∈ s.topology.drives ∧ e.deviceIdentifier ≠ d.deviceIdentifier := by
    intro e he
    refine ⟨by rw [split]; simp [he], fun eq => ?_⟩
    rw [split, List.map_append, List.map_cons] at distinct
    have apart := (List.nodup_append.mp distinct).2.2
    exact apart _ (List.mem_map_of_mem he) _ List.mem_cons_self eq
  -- Until the turn of the drive, no row gets its identifier.
  have unnamed : ∀ r ∈ (h.syncDrives s before).db.drives,
      (h.syncDrives s before).identifier r.id ≠ d.deviceIdentifier := by
    intro r mem name
    rcases progress.rows r mem with ⟨e, he, written⟩ | untouched
    · exact (listed e he).2 (written.identifier.symm.trans name)
    · exact lost.2 r untouched.mem
        ((congrArg DriveColumns.deviceIdentifier untouched.columns).symm.trans name)
  cases found : (h.syncDrives s before).existing d with
  | none =>
      -- A new row stays in the table.
      have grown := (syncDrive_seq (h.syncDrives s before) s d).2 (saved d) found
      have start := syncDrives_seq h s before
      have rest := syncDrives_seq ((h.syncDrives s before).syncDrive s d) s behind
      have seq := congrArg (fun h => h.db.drives.seq) same
      simp only [sweep_seq, whole] at seq
      omega
  | some q =>
      have mem := (existing_eq_some found).1
      have alias_ := existing_alias found (unnamed q mem)
      have unlisted : (h.syncDrives s before).identifier q.id ∉
          s.topology.drives.map DiscoveredDrive.deviceIdentifier := by
        intro hit
        obtain ⟨e, he, name⟩ := List.mem_map.mp hit
        have other : e.deviceIdentifier ≠ d.deviceIdentifier := by
          rw [name]
          exact unnamed q mem
        obtain ⟨serial, path⟩ := plain d hd lost.1 e he other
        rw [name] at serial path
        exact alias_.elim serial path
      -- The row had this identifier before the pass, and has a listed one after it.
      rcases progress.rows q mem with ⟨e, he, written⟩ | untouched
      · exact unlisted (List.mem_map.mpr ⟨e, (listed e he).1, written.identifier.symm⟩)
      · have name : (h.syncDrives s before).identifier q.id = h.identifier q.id :=
          congrArg DriveColumns.deviceIdentifier untouched.columns
        have after := sweep_spec (h.syncDrives s s.topology.drives) s
        obtain ⟨r, memr, eq⟩ := (after.rows q).mp (same.symm ▸ untouched.mem)
        have id : r.id = q.id := by
          rw [← eq]
          split <;> rfl
        have final : (h.syncDrives s s.topology.drives).identifier q.id = h.identifier q.id := by
          rw [← after.identifier, same]
        rcases (progress_drives h s s.topology.drives fun e _ => saved e).rows r memr with
          ⟨e, he, written⟩ | kept
        · rw [name, ← final, ← id] at unlisted
          exact unlisted (List.mem_map.mpr ⟨e, he, written.identifier.symm⟩)
        · refine kept.unassigned ?_
          rw [id, split, ← rowOf_of_existing found]
          exact rowOf_mem_assigned

/-- Discovery is idempotent on a host and a topology with distinct identifiers
if no two listed drives are written to one row and every listed drive settles.
This is also necessary, but for topologies in which two drives share a row and a
drive with an identifier of the old kind is named after another one. -/
theorem resync_iff (h : Hardware) (s : Sync) (saved : ∀ d, s.saved d = true)
    (distinct : (s.topology.drives.map DiscoveredDrive.deviceIdentifier).Nodup) :
    ((assigned s (h.syncPorts s.topology) s.topology.drives).Nodup ∧
        (∀ x ∈ places s (h.syncPorts s.topology), (h.syncPorts s.topology).Stable s x.1 x.2) →
      (h.runDiscoverySync s).runDiscoverySync s = h.runDiscoverySync s) ∧
    ((assigned s (h.syncPorts s.topology) s.topology.drives).Nodup ∨ Unaliased s.topology →
      (h.runDiscoverySync s).runDiscoverySync s = h.runDiscoverySync s →
      (assigned s (h.syncPorts s.topology) s.topology.drives).Nodup ∧
        ∀ x ∈ places s (h.syncPorts s.topology), (h.syncPorts s.topology).Stable s x.1 x.2) := by
  refine ⟨fun ⟨apart, stable⟩ => (resync_iff_stable h s saved apart).mpr stable, ?_⟩
  intro plain same
  have apart : (assigned s (h.syncPorts s.topology) s.topology.drives).Nodup := by
    rcases plain with apart | plain
    · exact apart
    · by_contra shared
      obtain ⟨d, hd, lost⟩ := exists_lost saved distinct shared
      refine lost_changes (h := h.runDiscoverySync s) saved distinct plain hd ?_ ?_
      · rw [runDiscoverySync_eq]
        exact lost.sweep
      · rw [← second_pass]
        exact same
  exact ⟨apart, (resync_iff_stable h s saved apart).mp same⟩

end Hardware

/-- A host where the stick has been found on the enabled port. -/
def knownHost : Hardware :=
  (emptyHost noTables).runDiscoverySync (passOver [stick "A" "1-1" "/dev/sdb" none])

/-- The stick, mounted at the managed slot of its row. -/
def mountedPass : Sync := passOver [stick "A" "1-1" "/dev/sdb" (some "/mnt/ecube/1".toList)]

instance (h : Hardware) (s : Sync) (d : DiscoveredDrive) (k : Nat) : Decidable (h.Stable s d k) :=
  inferInstanceAs (Decidable (_ ∨ ∃ r ∈ h.db.drives, _ ∧ ¬ _))

theorem resync_iff_enabledPort :
    (knownHost.runDiscoverySync mountedPass).db.drives.rows.map UsbDrive.mountPath =
        [some "/mnt/ecube/1".toList] ∧
      (knownHost.runDiscoverySync mountedPass).runDiscoverySync mountedPass =
        knownHost.runDiscoverySync mountedPass :=
  ⟨rfl, (Hardware.resync_iff knownHost mountedPass (fun _ => rfl) (by decide +kernel)).1
    (by decide +kernel)⟩

/-- The port of the mounted stick has been disabled: the first pass drops the
mount path and the second one records it. -/
theorem resync_changes :
    (mountedPass.topology.drives.map DiscoveredDrive.deviceIdentifier).Nodup ∧
      (knownHost.setEnabled 1 false).runDiscoverySync mountedPass ≠
        ((knownHost.setEnabled 1 false).runDiscoverySync mountedPass).runDiscoverySync mountedPass := by
  refine ⟨by decide +kernel, fun same => ?_⟩
  have paths := congrArg (fun h => h.db.drives.rows.map UsbDrive.mountPath) same
  revert paths
  decide +kernel

end Ecube
