import Ecube.Basic.Transition
import Ecube.Basic.Upsert
import Ecube.Services.DriveIdentity
import Ecube.Services.DriveService

/-!
USB discovery (`app/services/discovery_service.py`, `run_discovery_sync`).

A pass reads the hardware topology and brings the tables of hubs, ports and
drives up to date with it. Its transactions are: the upserts of hubs and ports,
one update or insertion for each listed drive, and the sweep over the drives
that are not listed. A pass is the run of these phases (`runDiscoverySync`).

The columns of a drive that only discovery uses (identifier, port, capacity and
texts) are kept beside the drive table, by drive id. What the host answers (the
file-system detector, the resolution of symbolic links) is the environment of a
pass; which of its commits the database accepts is part of the pass.
-/

namespace Ecube

open PosixPath Transition

/-! ### Tables -/

structure UsbHub where
  id : Nat
  systemIdentifier : Str
  name : String
  locationHint : Option String
  vendorId : Option String
  productId : Option String
  deriving DecidableEq, Repr

structure UsbPort where
  id : Nat
  hubId : Nat
  portNumber : Nat
  systemPath : Str
  enabled : Bool
  vendorId : Option String
  productId : Option String
  speed : Option String
  deriving DecidableEq, Repr

instance : Row UsbHub := ⟨UsbHub.id⟩
instance : Row UsbPort := ⟨UsbPort.id⟩

/-- The columns of a drive row that discovery alone reads and writes. -/
structure DriveColumns where
  deviceIdentifier : Str
  portId : Option Nat
  capacityBytes : Option Nat
  manufacturer : Option String
  productName : Option String
  deriving DecidableEq, Repr

/-- `device_identifier` is UNIQUE. -/
def Identified (drives : Table UsbDrive) (columns : Nat → DriveColumns) : Prop :=
  ∀ a ∈ drives, ∀ b ∈ drives,
    (columns a.id).deviceIdentifier = (columns b.id).deviceIdentifier → a.id = b.id

instance (drives : Table UsbDrive) (columns : Nat → DriveColumns) :
    Decidable (Identified drives columns) :=
  inferInstanceAs (Decidable (∀ a ∈ drives, ∀ b ∈ drives, _ → _))

/-- The database with the hardware tables. -/
structure Hardware where
  db : Db
  columns : Nat → DriveColumns
  hubs : Table UsbHub
  ports : Table UsbPort
  identified : Identified db.drives columns

/-! ### Topology -/

structure DiscoveredHub where
  systemIdentifier : Str
  name : String
  locationHint : Option String
  vendorId : Option String
  productId : Option String
  deriving DecidableEq, Repr

structure DiscoveredPort where
  hubSystemIdentifier : Str
  portNumber : Nat
  systemPath : Str
  vendorId : Option String
  productId : Option String
  speed : Option String
  deriving DecidableEq, Repr

structure DiscoveredDrive where
  deviceIdentifier : Str
  portSystemPath : Option Str
  filesystemPath : Option Str
  capacityBytes : Option Nat
  mountPath : Option Str
  manufacturer : Option String
  productName : Option String
  deriving DecidableEq, Repr

structure DiscoveredTopology where
  hubs : List DiscoveredHub
  ports : List DiscoveredPort
  drives : List DiscoveredDrive
  deriving DecidableEq, Repr

/-- The host as a pass sees it: `os.path.realpath`, and the file-system
detector, which may raise. -/
structure Environment where
  settings : Settings
  realpath : Str → Str
  detect : Str → Option String

/-- One call of `run_discovery_sync`, with the commits that the database accepts:
those of the listed drives and those of the rows marked as disconnected. -/
structure Sync where
  topology : DiscoveredTopology
  env : Environment
  saved : DiscoveredDrive → Bool
  swept : Nat → Bool

/-! ### Hubs and ports -/

/-- `HubRepository.upsert`: a value that was not read leaves the column as it is. -/
def hubUpsert : Override UsbHub Str DiscoveredHub where
  key := UsbHub.systemIdentifier
  target := DiscoveredHub.systemIdentifier
  apply w r := { r with
    name := w.name
    locationHint := w.locationHint.or r.locationHint
    vendorId := w.vendorId.or r.vendorId
    productId := w.productId.or r.productId }
  blank k n := ⟨n, k, "", none, none, none⟩
  after v w := ⟨w.systemIdentifier, v.name, v.locationHint.or w.locationHint,
    v.vendorId.or w.vendorId, v.productId.or w.productId⟩
  id_apply _ _ := rfl
  key_apply _ _ := rfl
  id_blank _ _ := rfl
  key_blank _ _ := rfl
  apply_after v w r := by simp only [Option.or_assoc]
  apply_self w r := by simp only [← Option.or_assoc, Option.or_self]

/-- A port as it is written: the id of its hub, and the reading. -/
structure PortWrite where
  hubId : Nat
  port : DiscoveredPort

/-- `PortRepository.upsert`; a new port is not enabled. -/
def portUpsert : Override UsbPort Str PortWrite where
  key := UsbPort.systemPath
  target w := w.port.systemPath
  apply w r := { r with
    hubId := w.hubId
    portNumber := w.port.portNumber
    vendorId := w.port.vendorId.or r.vendorId
    productId := w.port.productId.or r.productId
    speed := w.port.speed.or r.speed }
  blank k n := ⟨n, 0, 0, k, false, none, none, none⟩
  after v w := ⟨v.hubId, { w.port with
    portNumber := v.port.portNumber
    vendorId := v.port.vendorId.or w.port.vendorId
    productId := v.port.productId.or w.port.productId
    speed := v.port.speed.or w.port.speed }⟩
  id_apply _ _ := rfl
  key_apply _ _ := rfl
  id_blank _ _ := rfl
  key_blank _ _ := rfl
  apply_after v w r := by simp only [Option.or_assoc]
  apply_self w r := by simp only [← Option.or_assoc, Option.or_self]

/-- The hubs to write: the listed ones, and a placeholder for each port whose hub
is not listed. Naming a placeholder again changes nothing. -/
def hubWrites (t : DiscoveredTopology) : List DiscoveredHub :=
  t.hubs ++ (t.ports.filter fun p =>
      p.hubSystemIdentifier ∉ t.hubs.map DiscoveredHub.systemIdentifier).map fun p =>
    ⟨p.hubSystemIdentifier, String.ofList p.hubSystemIdentifier, none, none, none⟩

/-- The ports to write; every hub they name has been written before. -/
def portWrites (hubs : Table UsbHub) (t : DiscoveredTopology) : List PortWrite :=
  t.ports.map fun p => ⟨((hubUpsert.lookup hubs p.hubSystemIdentifier).map UsbHub.id).getD 0, p⟩

namespace Hardware

def syncPorts (h : Hardware) (t : DiscoveredTopology) : Hardware :=
  let hubs := hubUpsert.upserts h.hubs (hubWrites t)
  { h with hubs := hubs, ports := portUpsert.upserts h.ports (portWrites hubs t) }

/-- `PortRepository.set_enabled`. -/
def setEnabled (h : Hardware) (portId : Nat) (enabled : Bool) : Hardware :=
  { h with ports := h.ports.modify portId (fun p => { p with enabled := enabled }) fun _ => rfl }

def portIsEnabled (h : Hardware) (portId : Option Nat) : Bool :=
  portId.any fun k => (h.ports.get k).any UsbPort.enabled

/-- The row of the port the drive is listed at, if the port is listed too. -/
def portIdOf (h : Hardware) (t : DiscoveredTopology) (d : DiscoveredDrive) : Option Nat :=
  (truthy d.portSystemPath).bind fun path =>
    if path ∈ t.ports.map DiscoveredPort.systemPath then
      (portUpsert.lookup h.ports path).map UsbPort.id
    else none

/-! ### Finding the row of a drive -/

def identifier (h : Hardware) (k : Nat) : Str := (h.columns k).deviceIdentifier

/-- The row with this device identifier. -/
def named (h : Hardware) (deviceIdentifier : Str) : Option UsbDrive :=
  h.db.drives.rows.find? fun r => h.identifier r.id = deviceIdentifier

/-- A row that still has an identifier of the old kind. -/
def legacyNamed (h : Hardware) (deviceIdentifier : Option Str) : Option UsbDrive :=
  ((truthy deviceIdentifier).bind h.named).filter fun r =>
    !isPersistentDeviceIdentifier (h.identifier r.id)

/-- The existing row of a listed drive: by its identifier, else by its serial
number, else by its port path. -/
def existing (h : Hardware) (d : DiscoveredDrive) : Option UsbDrive :=
  (h.named d.deviceIdentifier).or
    ((h.legacyNamed (extractUsbSerialNumber (some d.deviceIdentifier) d.portSystemPath)).or
      (h.legacyNamed d.portSystemPath))

end Hardware

/-! ### Writing a drive -/

def normalizeMountPath (path : Str) : Str :=
  let normalized := path.rdropWhile (· = '/')
  if normalized = [] then ['/'] else normalized

def isManagedUsbMountSlot (env : Environment) (path : Str) (driveId : Nat) : Bool :=
  if driveId < 1 ∨ path = [] then false
  else
    let expected := normalizeMountPath (mountPoint env.settings driveId)
    let target := normalizeMountPath path
    target = expected ∨ env.realpath target = env.realpath expected

/-- A mount path, if it is the managed slot of the drive. -/
def managedSlot (env : Environment) (driveId : Nat) (path : Option Str) : Option Str :=
  (truthy path).filter fun path => isManagedUsbMountSlot env path driveId

def persistedUsbMountPath (env : Environment) (discoveredMountPath : Option Str) (driveId : Nat)
    (currentState : DriveState) (existingMountPath : Option Str) : Option Str :=
  (managedSlot env driveId discoveredMountPath).or
    (if currentState = .inUse then managedSlot env driveId existingMountPath else none)

/-- The detected type; a detector that raises leaves `unknown`. -/
def detectedType (env : Environment) (path : Option Str) (old : Option String) : Option String :=
  match truthy path with
  | some path => some ((env.detect path).getD "unknown")
  | none => old

def newColumns (d : DiscoveredDrive) (portId : Option Nat) : DriveColumns :=
  ⟨d.deviceIdentifier, portId, d.capacityBytes, d.manufacturer, d.productName⟩

def newDrive (env : Environment) (d : DiscoveredDrive) (portEnabled : Bool) (k : Nat) :
    UsbDrive where
  id := k
  filesystemPath := d.filesystemPath
  filesystemType := detectedType env d.filesystemPath none
  availableBytes := none
  currentState := if portEnabled then .available else .disabled
  currentProjectId := none
  mountPath := none
  formatStatus := none
  formatFailureMessage := none

def refreshColumns (d : DiscoveredDrive) (portId : Option Nat) (c : DriveColumns) :
    DriveColumns where
  deviceIdentifier := d.deviceIdentifier
  portId := portId.or c.portId
  capacityBytes := d.capacityBytes.or c.capacityBytes
  manufacturer := d.manufacturer.or c.manufacturer
  productName := d.productName.or c.productName

/-- The device path, the file system and the mount path as they are read. -/
def refreshPresence (env : Environment) (d : DiscoveredDrive) (r : UsbDrive) : UsbDrive :=
  { r with
    filesystemPath := d.filesystemPath
    filesystemType := detectedType env d.filesystemPath r.filesystemType
    mountPath := persistedUsbMountPath env d.mountPath r.id r.currentState r.mountPath }

/-- Whether discovery takes the drive for a mounted drive of a project. -/
def mountedForProject (d : DiscoveredDrive) (r : UsbDrive) : Bool :=
  ((truthy r.mountPath).isSome || (truthy d.mountPath).isSome) && r.currentProjectId.isSome

/-- A mounted drive of a project comes into use, other present drives become available. -/
def activate (d : DiscoveredDrive) (portEnabled : Bool) (r : UsbDrive) : UsbDrive :=
  if portEnabled ∧ mountedForProject d r ∧ r.currentState ≠ .inUse then
    { r with currentState := .inUse }
  else if (r.currentState = .disconnected ∨ r.currentState = .disabled) ∧ portEnabled then
    { r with currentState := if mountedForProject d r then .inUse else .available }
  else r

/-- Present drives on a port that is not enabled are disabled, unless in use. -/
def demote (portEnabled : Bool) (r : UsbDrive) : UsbDrive :=
  let r := if r.currentState = .disconnected ∧ ¬ portEnabled then
    { r with currentState := .disabled } else r
  if r.currentState = .available ∧ ¬ portEnabled then
    { r with currentState := .disabled, mountPath := none }
  else r

def refreshDrive (env : Environment) (d : DiscoveredDrive) (portEnabled : Bool) (r : UsbDrive) :
    UsbDrive :=
  demote portEnabled (activate d portEnabled (refreshPresence env d r))

theorem newDrive_id (env : Environment) (d : DiscoveredDrive) (portEnabled : Bool) (k : Nat) :
    (newDrive env d portEnabled k).id = k := rfl

theorem activate_id (d : DiscoveredDrive) (portEnabled : Bool) (r : UsbDrive) :
    (activate d portEnabled r).id = r.id := by
  rw [activate]
  split
  · rfl
  · split <;> rfl

theorem demote_id (portEnabled : Bool) (r : UsbDrive) : (demote portEnabled r).id = r.id := by
  simp only [demote]
  split <;> split <;> rfl

theorem refreshDrive_id (env : Environment) (d : DiscoveredDrive) (portEnabled : Bool)
    (r : UsbDrive) : (refreshDrive env d portEnabled r).id = r.id := by
  rw [refreshDrive, demote_id, activate_id]
  rfl

/-! ### A pass -/

namespace Hardware

/-- COMMIT the drive rows; a write that breaks the UNIQUE identifiers is refused. -/
def commit (h : Hardware) (drives : Table UsbDrive) (columns : Nat → DriveColumns) : Hardware :=
  if unique : Identified drives columns then
    { h with db := { h.db with drives := drives }, columns := columns, identified := unique }
  else h

/-- The row a listed drive is written to. -/
def rowOf (h : Hardware) (d : DiscoveredDrive) : Nat :=
  ((h.existing d).map UsbDrive.id).getD (h.db.drives.seq + 1)

def insertDrive (h : Hardware) (s : Sync) (d : DiscoveredDrive) : Hardware :=
  let portId := h.portIdOf s.topology d
  h.commit (h.db.drives.insert (newDrive s.env d (h.portIsEnabled portId)) (newDrive_id s.env d _))
    (Function.update h.columns (h.db.drives.seq + 1) (newColumns d portId))

def updateDrive (h : Hardware) (s : Sync) (d : DiscoveredDrive) (k : Nat) : Hardware :=
  let columns := refreshColumns d (h.portIdOf s.topology d) (h.columns k)
  h.commit
    (h.db.drives.modify k (refreshDrive s.env d (h.portIsEnabled columns.portId))
      (refreshDrive_id s.env d _))
    (Function.update h.columns k columns)

def syncDrive (h : Hardware) (s : Sync) (d : DiscoveredDrive) : Hardware :=
  if s.saved d then
    match h.existing d with
    | none => h.insertDrive s d
    | some r => h.updateDrive s d r.id
  else h

/-- A row that the topology does not list and that is not in use, with traces of
its presence left. -/
def absent (h : Hardware) (s : Sync) (r : UsbDrive) : Bool :=
  h.identifier r.id ∉ s.topology.drives.map DiscoveredDrive.deviceIdentifier ∧
    r.currentState ≠ .inUse ∧
    (r.currentState = .available ∨ r.filesystemPath ≠ none ∨ r.mountPath ≠ none ∨
      (h.columns r.id).portId ≠ none) ∧
    s.swept r.id

def disconnect (r : UsbDrive) : UsbDrive :=
  { r with currentState := .disconnected, filesystemPath := none, mountPath := none }

theorem disconnect_id (r : UsbDrive) : (disconnect r).id = r.id := rfl

/-- Mark the drives that are not listed as disconnected. -/
def sweep (h : Hardware) (s : Sync) : Hardware :=
  h.commit (h.db.drives.update (h.absent s) disconnect disconnect_id) fun k =>
    if (h.db.drives.get k).any (h.absent s) then { h.columns k with portId := none }
    else h.columns k

end Hardware

/-- The transactions of a pass. -/
inductive Phase where
  | ports
  | drive (d : DiscoveredDrive)
  | sweep
  deriving DecidableEq

def Sync.phases (s : Sync) : List Phase :=
  .ports :: (s.topology.drives.map .drive ++ [.sweep])

namespace Hardware

def advance (s : Sync) (h : Hardware) : Phase → Hardware
  | .ports => h.syncPorts s.topology
  | .drive d => h.syncDrive s d
  | .sweep => h.sweep s

def runDiscoverySync (h : Hardware) (s : Sync) : Hardware := exec (advance s) h s.phases

end Hardware

/-! ### A host with two ports -/

/-- The first port is enabled, the second is not. -/
def usbPorts : Table UsbPort where
  rows := [⟨1, 1, 1, "1-1".toList, true, none, none, none⟩,
    ⟨2, 1, 2, "1-2".toList, false, none, none, none⟩]
  seq := 2
  nodup := by decide
  bounded := by decide

def usbHubs : Table UsbHub where
  rows := [⟨1, "usb1".toList, "Root hub", none, none, none⟩]
  seq := 1
  nodup := by decide
  bounded := by decide

/-- The listing of the two ports. -/
def listedPorts : List DiscoveredPort :=
  [⟨"usb1".toList, 1, "1-1".toList, none, none, none⟩,
    ⟨"usb1".toList, 2, "1-2".toList, none, none, none⟩]

def listedHubs : List DiscoveredHub := [⟨"usb1".toList, "Root hub", none, none, none⟩]

def stickComponents (serial : String) : DeviceComponents :=
  ⟨some "0781".toList, some "5583".toList, some serial.toList, none⟩

/-- A stick with this serial number, plugged in at a port. -/
def stick (serial port node : String) (mountPath : Option Str) : DiscoveredDrive where
  deviceIdentifier := buildPersistentDeviceIdentifier (stickComponents serial) (some port.toList)
  portSystemPath := some port.toList
  filesystemPath := some node.toList
  capacityBytes := none
  mountPath := mountPath
  manufacturer := none
  productName := none

def hostEnvironment : Environment where
  settings := ⟨"/mnt/ecube".toList⟩
  realpath := id
  detect := fun _ => some "ext4"

/-- A pass over these drives, with every commit accepted. -/
def passOver (drives : List DiscoveredDrive) : Sync where
  topology := ⟨listedHubs, listedPorts, drives⟩
  env := hostEnvironment
  saved := fun _ => true
  swept := fun _ => true

/-- A host where no drive has been seen yet. -/
def emptyHost (db : Db) : Hardware where
  db := { db with drives := .empty }
  columns := fun _ => ⟨[], none, none, none, none⟩
  hubs := usbHubs
  ports := usbPorts
  identified := fun _ h => absurd h List.not_mem_nil

def noTables : Db := ⟨.empty, .empty, .empty, .empty, .empty⟩

/-- A host that knows one stick, bound to a project and not plugged in. -/
def boundHost : Hardware where
  db := { noTables with drives :=
    ⟨[⟨1, none, some "ext4", none, .disconnected, some ⟨"R".toList, by decide⟩, none, none, none⟩], 1,
      by decide, by decide⟩ }
  columns := fun _ => newColumns (stick "A" "1-1" "/dev/sdb" none) none
  hubs := usbHubs
  ports := usbPorts
  identified := by decide

end Ecube
