import Ecube.Invariants.DeviceNodes

/-!
Discovery over several passes.

A row with a persistent identifier keeps it: only rows with an old identifier are
renamed. So the identifier decides the row for good, and since the identifier of
a drive contains the USB port path, a drive has one row exactly as long as it
stays at one port (`replugged_row_iff`).

* `replugged_lost`: a bound drive that is plugged in at another port comes back
  as a new drive without a project.
-/

namespace Ecube

open Transition

namespace Hardware

variable {h h' : Hardware} {s : Sync} {d : DiscoveredDrive} {i : Str} {k : Nat}

/-! ### Rows that keep their identifier -/

/-- The row with this id has this identifier. -/
def Held (i : Str) (k : Nat) (h : Hardware) : Prop :=
  (∃ r ∈ h.db.drives, r.id = k) ∧ h.identifier k = i

theorem Held.row_unique {l : Nat} (hk : Held i k h) (hl : Held i l h) : k = l := by
  obtain ⟨⟨a, ha, rfl⟩, namea⟩ := hk
  obtain ⟨⟨b, hb, rfl⟩, nameb⟩ := hl
  exact h.identified a ha b hb (namea.trans nameb.symm)

/-- The row a drive has been written to. -/
theorem held_syncDrive (saved : s.saved d = true) :
    Held d.deviceIdentifier (h.rowOf d) (h.syncDrive s d) := by
  rcases syncDrive_cases h s d with
    ⟨refused, -⟩ | ⟨-, missing, wrote, rows⟩ | ⟨-, found, wrote, rows, -⟩
  · rw [saved] at refused
    cases refused
  · rw [rowOf_of_new missing]
    refine ⟨⟨newDrive s.env d (h.portIsEnabled (h.portIdOf s.topology d)) (h.db.drives.seq + 1),
      ?_, rfl⟩, ?_⟩
    · rw [rows, Table.mem_insert (newDrive_id s.env d _)]
      exact .inr rfl
    · rw [identifier, wrote.column_self]
      rfl
  · rw [rowOf_of_existing found]
    refine ⟨⟨_, (rows _).mpr (.inr rfl), refreshDrive_id _ _ _ _⟩, ?_⟩
    rw [identifier, wrote.column_self]
    rfl

/-- A persistent identifier survives the transactions of all drives. -/
theorem Held.syncDrive (persistent : isPersistentDeviceIdentifier i = true) (held : Held i k h)
    (d : DiscoveredDrive) : Held i k (h.syncDrive s d) := by
  obtain ⟨⟨r, mem, rfl⟩, name⟩ := held
  rcases syncDrive_cases h s d with
    ⟨-, same⟩ | ⟨-, missing, wrote, rows⟩ | ⟨-, found, wrote, rows, -⟩
  · rw [same]
    exact ⟨⟨r, mem, rfl⟩, name⟩
  · refine ⟨⟨r, ?_, rfl⟩, ?_⟩
    · rw [rows, Table.mem_insert (newDrive_id s.env d _)]
      exact .inl mem
    · rw [identifier, wrote.column_of_ne (id_ne_next mem)]
      exact name
  next r₀ =>
    by_cases hit : r.id = r₀.id
    · -- A persistent row is only matched by its own identifier.
      have same : h.identifier r₀.id = d.deviceIdentifier := by
        rcases (existing_eq_some found).2 with same | ⟨old, -⟩
        · exact same
        · rw [← hit, name, persistent] at old
          cases old
      refine ⟨⟨_, (rows _).mpr (.inr rfl), (refreshDrive_id _ _ _ _).trans hit.symm⟩, ?_⟩
      rw [hit, identifier, wrote.column_self]
      exact same.symm.trans (hit ▸ name)
    · refine ⟨⟨r, (rows r).mpr (.inl ⟨mem, hit⟩), rfl⟩, ?_⟩
      rw [identifier, wrote.column_of_ne hit]
      exact name

theorem Held.syncDrives (persistent : isPersistentDeviceIdentifier i = true) (held : Held i k h)
    (drives : List DiscoveredDrive) : Held i k (h.syncDrives s drives) := by
  induction drives generalizing h with
  | nil => exact held
  | cons d rest ih => exact ih (held.syncDrive persistent d)

theorem Held.sweep (held : Held i k h) : Held i k (h.sweep s) := by
  obtain ⟨⟨r, mem, rfl⟩, name⟩ := held
  refine ⟨⟨_, ((sweep_spec h s).rows _).mpr ⟨r, mem, rfl⟩, by split <;> rfl⟩, ?_⟩
  rw [(sweep_spec h s).identifier]
  exact name

theorem Held.runDiscoverySync (persistent : isPersistentDeviceIdentifier i = true)
    (held : Held i k h) (s : Sync) : Held i k (h.runDiscoverySync s) := by
  rw [runDiscoverySync_eq]
  have ports : Held i k (h.syncPorts s.topology) := held
  exact (ports.syncDrives persistent s.topology.drives).sweep

/-! ### The appearances of one drive -/

/-- Where a pass lists the device, and the row it is written to. -/
def appearancesIn (device : DeviceComponents) (s : Sync) :
    Hardware → List DiscoveredDrive → List (Option Str × Nat)
  | _, [] => []
  | h, d :: rest =>
      let later := appearancesIn device s (h.syncDrive s d) rest
      if d.deviceIdentifier = buildPersistentDeviceIdentifier device d.portSystemPath then
        (d.portSystemPath, h.rowOf d) :: later
      else later

/-- The appearances of the device in a sequence of passes. -/
def appearances (device : DeviceComponents) : Hardware → List Sync → List (Option Str × Nat)
  | _, [] => []
  | h, s :: rest =>
      appearancesIn device s (h.syncPorts s.topology) (savedDrives s) ++
        appearances device (h.runDiscoverySync s) rest

variable {device : DeviceComponents} {x : Option Str × Nat}

theorem held_appearancesIn (serial : normalizeIdentifierComponent device.usbSerialNumber ≠ none)
    {drives : List DiscoveredDrive} (saved : ∀ d ∈ drives, s.saved d = true)
    (hx : x ∈ appearancesIn device s h drives) :
    Held (buildPersistentDeviceIdentifier device x.1) x.2 (h.syncDrives s drives) := by
  have persistent := isPersistent_build x.1 serial
  induction drives generalizing h with
  | nil => exact absurd hx List.not_mem_nil
  | cons d rest ih =>
      have later : x ∈ appearancesIn device s (h.syncDrive s d) rest →
          Held (buildPersistentDeviceIdentifier device x.1) x.2 (h.syncDrives s (d :: rest)) :=
        ih fun e he => saved e (by simp [he])
      simp only [appearancesIn] at hx
      split at hx
      next own =>
        rcases List.mem_cons.mp hx with rfl | hx
        · have written := held_syncDrive (h := h) (saved d (by simp))
          rw [own] at written
          exact written.syncDrives persistent rest
        · exact later hx
      next => exact later hx

theorem held_appearances (serial : normalizeIdentifierComponent device.usbSerialNumber ≠ none)
    {passes : List Sync} (hx : x ∈ appearances device h passes) :
    Held (buildPersistentDeviceIdentifier device x.1) x.2
      (passes.foldl runDiscoverySync h) := by
  have persistent := isPersistent_build x.1 serial
  have keep : ∀ (passes : List Sync) (h : Hardware),
      Held (buildPersistentDeviceIdentifier device x.1) x.2 h →
      Held (buildPersistentDeviceIdentifier device x.1) x.2 (passes.foldl runDiscoverySync h) := by
    intro passes
    induction passes with
    | nil => exact fun h held => held
    | cons s rest ih => exact fun h held => ih _ (held.runDiscoverySync persistent s)
  induction passes generalizing h with
  | nil => exact absurd hx List.not_mem_nil
  | cons s rest ih =>
      rcases List.mem_append.mp hx with hx | hx
      · refine keep rest _ ?_
        rw [runDiscoverySync_eq, syncDrives_filter]
        exact (held_appearancesIn serial (fun d hd => (List.mem_filter.mp hd).2) hx).sweep
      · exact ih hx

/-- In every sequence of passes, all appearances of a drive with a serial number
are written to one row exactly when all of them are at one USB port path. -/
theorem replugged_row_iff (h : Hardware) (passes : List Sync) (device : DeviceComponents)
    (serial : normalizeIdentifierComponent device.usbSerialNumber ≠ none) :
    (∀ x ∈ appearances device h passes, ∀ y ∈ appearances device h passes, x.2 = y.2) ↔
      ∀ x ∈ appearances device h passes, ∀ y ∈ appearances device h passes,
        normalizeIdentifierComponent x.1 = normalizeIdentifierComponent y.1 := by
  refine forall₂_congr fun x hx => forall₂_congr fun y hy => ?_
  have heldx := held_appearances serial hx
  have heldy := held_appearances serial hy
  constructor
  · intro row
    refine bus_eq_of_build_eq serial ?_
    rw [← heldx.2, ← heldy.2, row]
  · intro bus
    rw [build_congr bus] at heldx
    exact heldx.row_unique heldy

end Hardware

/-- The stick stays at its port. -/
theorem replugged_row_iff_samePort :
    (∀ x ∈ Hardware.appearances (stickComponents "A") boundHost
        [passOver [stick "A" "1-1" "/dev/sdb" none], passOver [], passOver [stick "A" "1-1" "/dev/sdc" none]],
      ∀ y ∈ Hardware.appearances (stickComponents "A") boundHost
        [passOver [stick "A" "1-1" "/dev/sdb" none], passOver [], passOver [stick "A" "1-1" "/dev/sdc" none]],
      x.2 = y.2) ∧
    Hardware.appearances (stickComponents "A") boundHost
        [passOver [stick "A" "1-1" "/dev/sdb" none], passOver [], passOver [stick "A" "1-1" "/dev/sdc" none]] =
      [(some "1-1".toList, 1), (some "1-1".toList, 1)] :=
  ⟨(Hardware.replugged_row_iff _ _ _ (by decide)).mpr (by decide +kernel), by decide +kernel⟩

/-- The bound stick moves to another port: it is written to a second row, which
has no project. -/
theorem replugged_lost :
    ¬ (∀ x ∈ Hardware.appearances (stickComponents "A") boundHost
          [passOver [stick "A" "1-1" "/dev/sdb" none], passOver [stick "A" "1-2" "/dev/sdb" none]],
        ∀ y ∈ Hardware.appearances (stickComponents "A") boundHost
          [passOver [stick "A" "1-1" "/dev/sdb" none], passOver [stick "A" "1-2" "/dev/sdb" none]],
        x.2 = y.2) ∧
    (([passOver [stick "A" "1-1" "/dev/sdb" none], passOver [stick "A" "1-2" "/dev/sdb" none]].foldl
        Hardware.runDiscoverySync boundHost).db.drives.rows.map UsbDrive.currentProjectId =
      [some ⟨"R".toList, by decide⟩, none]) := by
  constructor
  · decide +kernel
  · decide +kernel

end Ecube
