import Mathlib.Data.List.Pairwise
import Ecube.Invariants.Discovered
import Ecube.Lifecycle

/-!
One row for each device node.

The kernel gives the node of a removed drive to the next one. Discovery clears
the node of a drive that is no longer listed, except while the drive is in use:
such a row keeps its node, and so does a row whose commit fails. When a pass
then finds another drive at that node, two rows share it.

* `oneNode_of_clean`: along every run in which no pass finds a kept node on
  another drive, each node belongs to one row.
* `oneNode_lost`: a stick in use is pulled out and a second one takes its node.
-/

namespace Ecube

open Transition

/-- Requests between the passes. -/
inductive Request where
  | createJob (body : JobBody) (seededJobId : Option Nat)
  | initializeDrive (driveId : Nat) (projectId : ProjectId)
  | mountDrive (driveId : Nat) (result : MountResult)
  | prepareEject (driveId : Nat) (confirmIncomplete : Bool) (result : EjectResult)

def Request.event : Request → Event
  | .createJob body seeded => .createJob body seeded
  | .initializeDrive driveId projectId => .initializeDrive driveId projectId
  | .mountDrive driveId result => .mountDrive driveId result
  | .prepareEject driveId confirmIncomplete result =>
      .prepareEject driveId confirmIncomplete result

/-- The drives of `t` are drives of `s`, at the same device nodes. -/
def SameNodes (s t : Db) : Prop :=
  ∀ d' ∈ t.drives, ∃ d ∈ s.drives, d'.id = d.id ∧ d'.filesystemPath = d.filesystemPath

theorem SameNodes.refl (s : Db) : SameNodes s s := fun d hd => ⟨d, hd, rfl, rfl⟩

theorem SameNodes.trans {s t u : Db} (h : SameNodes s t) (h' : SameNodes t u) : SameNodes s u := by
  intro d hd
  obtain ⟨d₁, hd₁, id₁, path₁⟩ := h' d hd
  obtain ⟨d₀, hd₀, id₀, path₀⟩ := h d₁ hd₁
  exact ⟨d₀, hd₀, id₁.trans id₀, path₁.trans path₀⟩

theorem SameNodes.modifyDrive {s : Db} {k : Nat} {f : UsbDrive → UsbDrive}
    {key : ∀ r, (f r).id = r.id} (path : ∀ r, (f r).filesystemPath = r.filesystemPath) :
    SameNodes s (s.modifyDrive k f key) := by
  intro d hd
  rcases Db.mem_modifyDrive.mp hd with ⟨hd, -⟩ | ⟨d₀, hd₀, -, rfl⟩
  · exact ⟨d, hd, rfl, rfl⟩
  · exact ⟨d₀, hd₀, key d₀, path d₀⟩

theorem sameNodes_createJob {cfg : Settings} {s s' : Db} {body : JobBody} {seeded : Option Nat}
    {now : Nat} (h : createJob cfg s body seeded now = .ok s') : SameNodes s s' := by
  obtain ⟨s₁, jobId, drive, sourcePath, resolved, inserted, -, -, -, -, -, h⟩ := createJob_eq_ok h
  obtain ⟨⟨jobs, rfl⟩, -, -⟩ := insertJob_eq_ok inserted
  refine reserveOverflowDrives_rule (P := SameNodes s) (fun t d same _ _ _ _ => ?_) ?_ h
  · exact same.trans (SameNodes.modifyDrive (s := t.addAssignment d.id jobId now none) fun _ => rfl)
  · intro d hd
    rcases mem_assignPrimaryDrive_drives.mp hd with ⟨hd, -⟩ | ⟨d₀, hd₀, -, rfl⟩
    · exact ⟨d, hd, rfl, rfl⟩
    · exact ⟨d₀, hd₀, rfl, rfl⟩

/-- Requests neither add drives nor change device nodes. -/
theorem sameNodes_step (cfg : Settings) (s : Db) (now : Nat) (request : Request) :
    SameNodes s (step cfg s ⟨now, request.event⟩) := by
  cases request with
  | createJob body seeded =>
      exact step_rule (fun s' h => sameNodes_createJob h) (leaves_createJob (SameNodes.refl s))
  | initializeDrive driveId projectId =>
      refine step_rule (fun s' h => ?_) (leaves_initializeDrive (SameNodes.refl s))
      obtain ⟨-, -, -, rfl⟩ := initializeDrive_eq_ok h
      exact SameNodes.modifyDrive fun _ => rfl
  | mountDrive driveId result =>
      refine step_rule (fun s' h => ?_) (leaves_mountDrive (SameNodes.refl s))
      obtain ⟨-, -, -, rfl⟩ := mountDrive_eq_ok h
      exact SameNodes.modifyDrive fun _ => rfl
  | prepareEject driveId confirmIncomplete result =>
      refine step_rule (fun s' h => ?_) (leaves_prepareEject (SameNodes.refl s))
      obtain ⟨-, -, rfl, -⟩ := prepareEject_eq_ok h
      exact SameNodes.modifyDrive fun _ => rfl

theorem identified_of_sameNodes {s t : Db} {columns : Nat → DriveColumns} (same : SameNodes s t)
    (unique : Identified s.drives columns) : Identified t.drives columns := by
  intro a ha b hb eq
  obtain ⟨a₀, ha₀, ida, -⟩ := same a ha
  obtain ⟨b₀, hb₀, idb, -⟩ := same b hb
  rw [ida, idb] at eq ⊢
  exact unique a₀ ha₀ b₀ hb₀ eq

/-! ### Runs -/

inductive SiteAction where
  | discover (s : Sync)
  | setEnabled (portId : Nat) (enabled : Bool)
  | request (now : Nat) (request : Request)

namespace Hardware

def act (cfg : Settings) (h : Hardware) : SiteAction → Hardware
  | .discover s => h.runDiscoverySync s
  | .setEnabled portId enabled => h.setEnabled portId enabled
  | .request now request =>
      { h with
        db := step cfg h.db ⟨now, request.event⟩
        identified := identified_of_sameNodes (sameNodes_step cfg h.db now request) h.identified }

/-- No two rows have the same device node. -/
def OneNode (h : Hardware) : Prop :=
  ∀ a ∈ h.db.drives, ∀ b ∈ h.db.drives,
    a.filesystemPath ≠ none → a.filesystemPath = b.filesystemPath → a.id = b.id

instance (h : Hardware) : Decidable h.OneNode :=
  inferInstanceAs (Decidable (∀ a ∈ h.db.drives, ∀ b ∈ h.db.drives, _ → _ → _))

end Hardware

/-- Identifiers, device nodes and ports of a topology are pairwise distinct. -/
structure DiscoveredTopology.Distinct (t : DiscoveredTopology) : Prop where
  identifiers : (t.drives.map DiscoveredDrive.deviceIdentifier).Nodup
  nodes : t.drives.Pairwise fun d e => d.filesystemPath ≠ none → d.filesystemPath ≠ e.filesystemPath
  drivePorts : t.drives.Pairwise fun d e =>
    d.portSystemPath ≠ none → d.portSystemPath ≠ e.portSystemPath
  ports : (t.ports.map DiscoveredPort.systemPath).Nodup

theorem DiscoveredTopology.Distinct.eq_of_node {t : DiscoveredTopology} (distinct : t.Distinct)
    {d e : DiscoveredDrive} (hd : d ∈ t.drives) (he : e ∈ t.drives) (node : d.filesystemPath ≠ none)
    (same : d.filesystemPath = e.filesystemPath) : d = e := by
  by_contra ne
  have symmetric : Std.Symm fun d e : DiscoveredDrive =>
      d.filesystemPath ≠ none → d.filesystemPath ≠ e.filesystemPath := by
    refine ⟨fun d e apart node eq => ?_⟩
    exact apart (eq ▸ node) eq.symm
  exact distinct.nodes.forall hd he ne node same

def SiteAction.Distinct : SiteAction → Prop
  | .discover s => s.topology.Distinct
  | _ => True

namespace Hardware

/-- The listed drives whose commits are accepted. -/
def savedDrives (s : Sync) : List DiscoveredDrive := s.topology.drives.filter s.saved

/-- The pass leaves the row as it is: no listed drive is written to it, and it is
in use, or listed, or the commit of the sweep fails. -/
def Left (h : Hardware) (s : Sync) (r : UsbDrive) : Prop :=
  r.id ∉ assigned s (h.syncPorts s.topology) (savedDrives s) ∧
    (r.currentState = .inUse ∨
      h.identifier r.id ∈ s.topology.drives.map DiscoveredDrive.deviceIdentifier ∨
      s.swept r.id = false)

instance (h : Hardware) (s : Sync) (r : UsbDrive) : Decidable (h.Left s r) :=
  inferInstanceAs (Decidable (_ ∧ (_ ∨ _ ∨ _)))

/-- No drive that the pass writes is at a node which the pass leaves on a row. -/
def Clean (h : Hardware) : SiteAction → Prop
  | .discover s => ∀ r ∈ h.db.drives, h.Left s r →
      ∀ d ∈ savedDrives s, d.filesystemPath ≠ none → d.filesystemPath ≠ r.filesystemPath
  | _ => True

/-- Drives whose commits fail leave no trace. -/
theorem syncDrives_filter (h : Hardware) (s : Sync) (drives : List DiscoveredDrive) :
    h.syncDrives s drives = h.syncDrives s (drives.filter s.saved) := by
  induction drives generalizing h with
  | nil => rfl
  | cons d rest ih =>
      change (h.syncDrive s d).syncDrives s rest = _
      cases saved : s.saved d with
      | true =>
          rw [List.filter_cons_of_pos saved, ih]
          rfl
      | false =>
          have skipped : h.syncDrive s d = h := by simp [syncDrive, saved]
          rw [List.filter_cons_of_neg (by simp [saved]), skipped, ih]

/-- The rows of a pass that still have a node. -/
theorem node_source {h : Hardware} {s : Sync} {r : UsbDrive}
    (mem : r ∈ (h.runDiscoverySync s).db.drives) (node : r.filesystemPath ≠ none) :
    (∃ d ∈ savedDrives s, d.filesystemPath = r.filesystemPath ∧
      d.deviceIdentifier = (h.runDiscoverySync s).identifier r.id) ∨
      (r ∈ h.db.drives ∧ h.Left s r) := by
  rw [runDiscoverySync_eq, syncDrives_filter] at mem ⊢
  have progress := progress_drives (h.syncPorts s.topology) s (savedDrives s) fun d hd =>
    (List.mem_filter.mp hd).2
  have after := sweep_spec ((h.syncPorts s.topology).syncDrives s (savedDrives s)) s
  obtain ⟨r₀, mem₀, same⟩ := (after.rows r).mp mem
  have present : absent ((h.syncPorts s.topology).syncDrives s (savedDrives s)) s r₀ = false := by
    by_contra gone
    rw [if_pos (by simpa using gone)] at same
    exact node (by rw [← same]; rfl)
  rw [present, if_neg (by simp)] at same
  subst same
  rcases progress.rows r₀ mem₀ with ⟨d, listed, written⟩ | untouched
  · refine .inl ⟨d, listed, written.filesystemPath.symm, ?_⟩
    exact written.identifier.symm.trans (after.identifier r₀.id).symm
  · refine .inr ⟨untouched.mem, untouched.unassigned, ?_⟩
    have name : identifier ((h.syncPorts s.topology).syncDrives s (savedDrives s)) r₀.id =
        h.identifier r₀.id := congrArg DriveColumns.deviceIdentifier untouched.columns
    by_contra swept
    rw [not_or, not_or] at swept
    obtain ⟨free, unlisted, swept⟩ := swept
    simp [absent, name, free, unlisted, node, swept] at present

theorem oneNode_discover {h : Hardware} {s : Sync} (distinct : s.topology.Distinct)
    (one : h.OneNode) (clean : h.Clean (.discover s)) : (h.runDiscoverySync s).OneNode := by
  intro a ha b hb node same
  have listed : ∀ d ∈ savedDrives s, d ∈ s.topology.drives := fun d hd => (List.mem_filter.mp hd).1
  have node' : b.filesystemPath ≠ none := same ▸ node
  rcases node_source ha node with ⟨d, hd, dNode, dName⟩ | ⟨ha₀, leftA⟩ <;>
    rcases node_source hb node' with ⟨e, he, eNode, eName⟩ | ⟨hb₀, leftB⟩
  · -- Both rows have been written, by the one drive at this node.
    have eq : d = e := distinct.eq_of_node (listed d hd) (listed e he) (by rw [dNode]; exact node)
      (by rw [dNode, eNode, same])
    refine (h.runDiscoverySync s).identified a ha b hb ?_
    exact dName.symm.trans ((congrArg DiscoveredDrive.deviceIdentifier eq).trans eName)
  · exact absurd (dNode.trans same) (clean b hb₀ leftB d hd (by rw [dNode]; exact node))
  · exact absurd (eNode.trans same.symm) (clean a ha₀ leftA e he (by rw [eNode]; exact node'))
  · exact one a ha₀ b hb₀ node same

theorem oneNode_act (cfg : Settings) (h : Hardware) (a : SiteAction) (distinct : a.Distinct)
    (one : h.OneNode) (clean : h.Clean a) : (h.act cfg a).OneNode := by
  cases a with
  | discover s => exact oneNode_discover distinct one clean
  | setEnabled portId enabled => exact one
  | request now request =>
      intro a ha b hb node same
      obtain ⟨a₀, ha₀, ida, patha⟩ := sameNodes_step cfg h.db now request a ha
      obtain ⟨b₀, hb₀, idb, pathb⟩ := sameNodes_step cfg h.db now request b hb
      rw [ida, idb]
      exact one a₀ ha₀ b₀ hb₀ (patha ▸ node) (by rw [← patha, ← pathb, same])

/-- From an empty drive table, each device node belongs to one row along every
run of passes, port switches and requests in which no pass finds a node that it
leaves on one row on another drive. -/
theorem oneNode_of_clean (cfg : Settings) (h : Hardware) (actions : List SiteAction)
    (empty : ∀ r, r ∉ h.db.drives) (distinct : ∀ a ∈ actions, a.Distinct)
    (clean : Along (act cfg) Clean h actions) : Always (act cfg) OneNode h actions := by
  have start : h.OneNode := fun a ha => absurd ha (empty a)
  refine always_of_along (fun h a one guard => ?_) start (clean.and_forall distinct)
  exact oneNode_act cfg h a guard.2 one guard.1

end Hardware

/-! ### A stick is pulled out while in use -/

instance (t : DiscoveredTopology) : Decidable t.Distinct :=
  decidable_of_iff (_ ∧ _ ∧ _ ∧ _)
    ⟨fun ⟨identifiers, nodes, drivePorts, ports⟩ => ⟨identifiers, nodes, drivePorts, ports⟩,
      fun h => ⟨h.identifiers, h.nodes, h.drivePorts, h.ports⟩⟩

instance (a : SiteAction) : Decidable a.Distinct :=
  match a with
  | .discover s => inferInstanceAs (Decidable s.topology.Distinct)
  | .setEnabled _ _ => inferInstanceAs (Decidable True)
  | .request _ _ => inferInstanceAs (Decidable True)

instance (h : Hardware) (a : SiteAction) : Decidable (h.Clean a) :=
  match a with
  | .discover s => inferInstanceAs (Decidable (∀ r ∈ h.db.drives, h.Left s r →
      ∀ d ∈ Hardware.savedDrives s, _ → _))
  | .setEnabled _ _ => inferInstanceAs (Decidable True)
  | .request _ _ => inferInstanceAs (Decidable True)

/-- The first stick is found, mounted and bound; then it is pulled out and the
second one is found at this node. -/
def secondStickAt (node : String) : List SiteAction :=
  [.discover (passOver [stick "A" "1-1" "/dev/sdb" none]),
    .discover (passOver [stick "A" "1-1" "/dev/sdb" (some "/mnt/ecube/1".toList)]),
    .request 1 (.initializeDrive 1 Lab.projectP),
    .discover (passOver [stick "B" "1-2" node none])]

theorem oneNode_of_clean_otherNode :
    Along (Hardware.act Lab.settings) Hardware.Clean (emptyHost Lab.start)
        (secondStickAt "/dev/sdc") ∧
      Always (Hardware.act Lab.settings) Hardware.OneNode (emptyHost Lab.start)
        (secondStickAt "/dev/sdc") := by
  have clean : Along (Hardware.act Lab.settings) Hardware.Clean (emptyHost Lab.start)
      (secondStickAt "/dev/sdc") := by decide +kernel
  exact ⟨clean, Hardware.oneNode_of_clean _ _ _ (fun _ => List.not_mem_nil) (by decide +kernel) clean⟩

/-- The second stick takes the node of the first, which is still in use: two
rows, one of them bound to a project, share a node. -/
theorem oneNode_lost :
    (∀ r, r ∉ (emptyHost Lab.start).db.drives) ∧
      (∀ a ∈ secondStickAt "/dev/sdb", a.Distinct) ∧
      ¬ Always (Hardware.act Lab.settings) Hardware.OneNode (emptyHost Lab.start)
        (secondStickAt "/dev/sdb") := by
  refine ⟨fun _ => List.not_mem_nil, ?_, ?_⟩
  · decide +kernel
  · decide +kernel

end Ecube
