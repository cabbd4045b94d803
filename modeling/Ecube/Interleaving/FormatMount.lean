import Ecube.Interleaving.EjectStart
import Ecube.Invariants.DeviceNodes
import Ecube.Services.Reconciliation

/-!
Mounts while a drive is being formatted.

A format request marks the drive `PENDING` and leaves the formatting to a
background task. `mount_drive` looks at the marker when it starts, calls the
provider without a lock and validates the row afterwards, when the mount has
been issued. A reconciliation pass loads the rows once, treats one drive after
the other and never looks at the marker. Each of these steps is an action here,
and a run is any sequence of actions.

* `mountDrive_eq`: without interleaving, the steps of a mount are `mountDrive`.
* `unpending_of_guarded`: in a run in which no format is accepted between the
  check and the mount of a `mount_drive` for the drive, and no pass comes to a
  drive whose format is pending, no device is mounted while it is being
  formatted.
* `pending_mounted`: a pass mounts a drive whose format is pending.
-/

namespace Ecube

open PosixPath Transition

/-! ### The steps of a mount -/

/-- What `mount_drive` checks before it calls the provider. -/
def mountChecks (s : Db) (driveId : Nat) : Except Reject UsbDrive := do
  let drive ← orReject (s.drives.get driveId) (refuse s 404 "Drive not found")
  rejectPendingDriveFormat s drive "mount this drive"
  ensure (drive.currentState = .available ∨ drive.currentState = .inUse)
    (refuse s 409 "Drive must be AVAILABLE or IN_USE before it can be mounted")
  ensure (recognizedFilesystem drive.filesystemType)
    (refuse s 409 "Drive must have a recognized filesystem before it can be mounted")
  let path ← orReject (truthy drive.filesystemPath)
    (refuse s 400 "Drive has no filesystem_path and cannot be mounted")
  ensure (validateDevicePath path)
    (refuse s 400 "Drive filesystem_path is invalid and cannot be mounted")
  ensure (truthy drive.mountPath = none) (refuse s 409 "Drive is already mounted")
  return drive

/-- The message of a mount that is rolled back. -/
def rollbackDetail (detail : String) (rolledBack : Bool) : String :=
  if rolledBack then detail else detail ++ "; manual intervention may be required"

/-- The validation of the drive row under its lock, after the mount, and the
commit. `rolledBack` is the answer to the unmount of a mount that is given up. -/
def relockMount (cfg : Settings) (s : Db) (initial : UsbDrive) (rolledBack saved : Bool) :
    Except Reject Db := do
  let drive ← orReject (s.drives.get initial.id) (refuse s 404
    (rollbackDetail "Drive disappeared during mount; rollback attempted" rolledBack))
  ensure (drive.currentState = initial.currentState) (refuse s 409 (rollbackDetail
    (s!"Drive state changed during mount (was: {initial.currentState.value}, "
      ++ s!"now: {drive.currentState.value}); operation aborted after rollback attempted") rolledBack))
  ensure (drive.filesystemPath = initial.filesystemPath) (refuse s 409 (rollbackDetail
    "Device path changed during mount; operation aborted after rollback attempted" rolledBack))
  ensure (drive.currentProjectId = initial.currentProjectId) (refuse s 409 (rollbackDetail
    "Drive project binding changed during mount; operation aborted after rollback attempted"
    rolledBack))
  let target := mountPoint cfg initial.id
  ensure ((truthy drive.mountPath).all fun path => normpath path = normpath target)
    (refuse s 409 (rollbackDetail
      "Drive mount state changed during mount; operation aborted after rollback attempted"
      rolledBack))
  ensure saved (refuse s 500 (rollbackDetail
    "Drive mount failed after database update error; rollback attempted" rolledBack))
  return s.modifyDrive initial.id (fun d => { d with mountPath := some target }) fun _ => rfl

theorem mountChecks_eq_ok {s : Db} {driveId : Nat} {drive : UsbDrive}
    (h : mountChecks s driveId = .ok drive) :
    s.drives.get driveId = some drive ∧ drive.formatStatus ≠ some .pending ∧
      truthy drive.mountPath = none := by
  simp only [mountChecks, rejectPendingDriveFormat, bind_eq_ok, orReject_eq_ok, ensure_eq_ok,
    pure_eq_ok] at h
  obtain ⟨d, found, -, idle, -, -, -, -, -, -, -, -, -, unmounted, rfl⟩ := h
  exact ⟨found, idle, unmounted⟩

theorem relockMount_eq_ok {cfg : Settings} {s s' : Db} {initial : UsbDrive} {rolledBack saved : Bool}
    (h : relockMount cfg s initial rolledBack saved = .ok s') :
    s' = s.modifyDrive initial.id
      (fun d => { d with mountPath := some (mountPoint cfg initial.id) }) fun _ => rfl := by
  simp only [relockMount, bind_eq_ok, orReject_eq_ok, ensure_eq_ok, pure_eq_ok] at h
  obtain ⟨d, -, -, -, -, -, -, -, -, -, -, -, rfl⟩ := h
  rfl

theorem leaves_relockMount {P : Db → Prop} {cfg : Settings} {s : Db} {initial : UsbDrive}
    {rolledBack saved : Bool} (hs : P s) : Leaves P (relockMount cfg s initial rolledBack saved) := by
  refine .bind (.orReject hs) fun _ _ => .bind (.ensure hs) fun _ _ => ?_
  refine .bind (.ensure hs) fun _ _ => .bind (.ensure hs) fun _ _ => ?_
  exact .bind (.ensure hs) fun _ _ => .bind (.ensure hs) fun _ _ => .pure _

/-- Without interleaving, a mount that succeeds is its checks and its commit. -/
theorem mountDrive_eq (cfg : Settings) (s : Db) (driveId : Nat) (rolledBack : Bool) :
    mountDrive cfg s driveId .mounted =
      mountChecks s driveId >>= fun initial => relockMount cfg s initial rolledBack true := by
  have checks : mountDrive cfg s driveId .mounted = mountChecks s driveId >>= fun _ =>
      pure (s.modifyDrive driveId
        (fun d => { d with mountPath := some (mountPoint cfg driveId) }) fun _ => rfl) := by
    simp only [mountDrive, mountChecks, bind_assoc, pure_bind]
  rw [checks]
  cases passed : mountChecks s driveId with
  | error e => rfl
  | ok initial =>
      obtain ⟨found, -, unmounted⟩ := mountChecks_eq_ok passed
      have key : initial.id = driveId := Table.id_of_get found
      subst key
      simp [relockMount, found, orReject, ensure, unmounted, bind, Except.bind, pure, Except.pure]

/-! ### Requests and a pass in flight -/

/-- The database, the `mount_drive` requests that have made their checks or
issued their mount, the ejects that have made theirs, and the pass in progress:
the rows it has loaded and not treated, and what it has changed. -/
structure FormatSite where
  db : Db
  checked : List UsbDrive
  mounting : List UsbDrive
  ejecting : List UsbDrive
  ahead : Option (List UsbDrive)
  changes : List (Nat × DriveChanges)

inductive FormatAction where
  | requestFormat (driveId : Nat) (isMounted : Bool)
  | completeFormat (driveId : Nat) (filesystemType : String) (isMounted : Bool)
      (failure : Option String)
  | checkMount (driveId : Nat)
  | issueMount (initial : UsbDrive) (success : Bool)
  | finishMount (initial : UsbDrive) (rolledBack saved : Bool)
  | checkEject (driveId : Nat) (confirmIncomplete : Bool)
  | finishEject (initial : UsbDrive) (result : EjectResult) (saved : Bool)
  | startPass
  | treatNext (actual : Option Str) (answers : DriveAnswers)
  | finishPass (saved : Bool)

/-- The rows with the changes of a pass. -/
def applyChanges (s : Db) (changes : List (Nat × DriveChanges)) : Db :=
  changes.foldl (fun s c => s.modifyDrive c.1 c.2.apply c.2.apply_id) s

/-- The commit of an eject. -/
def finishEject (s : Db) (initial : UsbDrive) (result : EjectResult) (saved : Bool) : Db :=
  match relockDrive s initial.id initial result with
  | .ok _ => if saved then ejected s initial.id else s
  | .error r => r.committed

namespace FormatSite

def of (s : Db) : FormatSite := ⟨s, [], [], [], none, []⟩

def act (cfg : Settings) (s : FormatSite) : FormatAction → FormatSite
  | .requestFormat driveId isMounted =>
      { s with db := settle (requestDriveFormat s.db driveId isMounted) }
  | .completeFormat driveId filesystemType isMounted failure =>
      { s with db := completeDriveFormat s.db driveId filesystemType isMounted failure }
  | .checkMount driveId =>
      match mountChecks s.db driveId with
      | .ok drive => { s with checked := drive :: s.checked }
      | .error _ => s
  | .issueMount initial success =>
      if initial ∈ s.checked then
        { s with
          checked := s.checked.erase initial
          mounting := if success then initial :: s.mounting else s.mounting }
      else s
  | .finishMount initial rolledBack saved =>
      if initial ∈ s.mounting then
        { s with
          db := settle (relockMount cfg s.db initial rolledBack saved)
          mounting := s.mounting.erase initial }
      else s
  | .checkEject driveId confirmIncomplete =>
      match ejectChecks s.db driveId confirmIncomplete with
      | .ok drive => { s with ejecting := drive :: s.ejecting }
      | .error _ => s
  | .finishEject initial result saved =>
      if initial ∈ s.ejecting then
        { s with
          db := finishEject s.db initial result saved
          ejecting := s.ejecting.erase initial }
      else s
  | .startPass =>
      -- A second pass does not get the reconciliation lock.
      match s.ahead with
      | some _ => s
      | none => { s with ahead := some (s.db.drives.rows.filter considered), changes := [] }
  | .treatNext actual answers =>
      match s.ahead with
      | some (drive :: rest) =>
          { s with
            ahead := some rest
            changes := s.changes ++ [(drive.id, (treatDrive cfg s.db drive actual answers).changes)] }
      | _ => s
  | .finishPass saved =>
      match s.ahead with
      | some [] =>
          { s with
            db := if saved then applyChanges s.db s.changes else s.db
            ahead := none
            changes := [] }
      | _ => s

/-- The device on which the action calls `mount_drive`. -/
def issues (cfg : Settings) (s : FormatSite) : FormatAction → Option Str
  | .issueMount initial _ => if initial ∈ s.checked then initial.filesystemPath else none
  | .treatNext actual answers =>
      match s.ahead with
      | some (drive :: _) => (treatDrive cfg s.db drive actual answers).mountCalled
      | _ => none
  | _ => none

/-- No mount of the device of a drive is issued while its format is pending. -/
def Unpending (cfg : Settings) (s : FormatSite) (a : FormatAction) : Prop :=
  ∀ device, s.issues cfg a = some device → ∀ d ∈ s.db.drives, d.filesystemPath = some device →
    d.formatStatus ≠ some .pending

/-- No format is accepted between the check and the mount of a `mount_drive` for
the drive, and no pass comes to a drive whose format is pending. -/
def Guarded (s : FormatSite) : FormatAction → Prop
  | .requestFormat driveId isMounted =>
      (∃ s', requestDriveFormat s.db driveId isMounted = .ok s') →
        ∀ r ∈ s.checked, r.id ≠ driveId
  | .treatNext _ _ => ∀ rows, s.ahead = some rows → ∀ r, rows.head? = some r →
      ∀ d ∈ s.db.drives, d.id = r.id → d.formatStatus ≠ some .pending
  | _ => True

end FormatSite

/-! ### What the actions write -/

/-- The row stays at its node and becomes pending only if it is in `fresh`. -/
def Idle (fresh : Nat → Prop) (d d' : UsbDrive) : Prop :=
  d'.filesystemPath = d.filesystemPath ∧
    (d'.formatStatus = some .pending → d.formatStatus = some .pending ∨ fresh d.id)

/-- The drives and their nodes stay, and only drives in `fresh` become pending. -/
structure Steady (fresh : Nat → Prop) (s t : Db) : Prop where
  back : SameNodes s t
  rows : Db.DrivesKept (Idle fresh) s t

section Steady

variable {fresh : Nat → Prop} {s t u : Db}

theorem Idle.refl (d : UsbDrive) : Idle fresh d d := ⟨rfl, .inl⟩

theorem Idle.trans {a b c : UsbDrive} (key : b.id = a.id) (h : Idle fresh a b)
    (h' : Idle fresh b c) : Idle fresh a c := by
  refine ⟨h'.1.trans h.1, fun pending => ?_⟩
  rcases h'.2 pending with pending | new
  · exact h.2 pending
  · exact .inr (key ▸ new)

theorem Steady.refl : Steady fresh s s := ⟨SameNodes.refl s, .refl Idle.refl s⟩

theorem Steady.trans (h : Steady fresh s t) (h' : Steady fresh t u) : Steady fresh s u :=
  ⟨h.back.trans h'.back, h.rows.trans Idle.trans h'.rows⟩

theorem Steady.modifyDrive {k : Nat} {f : UsbDrive → UsbDrive} {key : ∀ r, (f r).id = r.id}
    (path : ∀ r, (f r).filesystemPath = r.filesystemPath)
    (pending : ∀ r, (f r).formatStatus = some .pending → r.formatStatus = some .pending ∨ fresh k) :
    Steady fresh s (s.modifyDrive k f key) := by
  refine ⟨SameNodes.modifyDrive path, .modifyDrive Idle.refl fun d _ hit => ?_⟩
  exact ⟨path d, fun h => (pending d h).imp_right fun new => hit ▸ new⟩

theorem steady_applyChanges (changes : List (Nat × DriveChanges)) :
    Steady fresh s (applyChanges s changes) := by
  induction changes generalizing s with
  | nil => exact .refl
  | cons c changes ih =>
      refine Steady.trans (t := s.modifyDrive c.1 c.2.apply c.2.apply_id) ?_ ih
      exact .modifyDrive (fun _ => rfl) fun _ => .inl

theorem steady_completeDriveFormat {driveId : Nat} {filesystemType : String} {isMounted : Bool}
    {failure : Option String} :
    Steady fresh s (completeDriveFormat s driveId filesystemType isMounted failure) := by
  rcases completeDriveFormat_cases s driveId filesystemType isMounted failure with
    same | ⟨detail, same⟩ | ⟨-, -, -, -, -, same⟩
  · rw [same]
    exact .refl
  · rw [same]
    exact .modifyDrive (fun _ => rfl) fun _ pending => by cases pending
  · rw [same]
    exact .modifyDrive (fun _ => rfl) fun _ pending => by cases pending

theorem steady_finishEject {initial : UsbDrive} {result : EjectResult} {saved : Bool} :
    Steady fresh s (finishEject s initial result saved) := by
  rw [finishEject]
  cases relocked : relockDrive s initial.id initial result with
  | error r => exact leaves_relockDrive (P := Steady fresh s) .refl r relocked
  | ok u =>
      dsimp only
      split
      · exact .modifyDrive (fun _ => rfl) fun _ => .inl
      · exact .refl

theorem steady_relockMount {cfg : Settings} {initial : UsbDrive} {rolledBack saved : Bool} :
    Steady fresh s (settle (relockMount cfg s initial rolledBack saved)) := by
  cases relocked : relockMount cfg s initial rolledBack saved with
  | error r => exact leaves_relockMount (P := Steady fresh s) .refl r relocked
  | ok s' =>
      rw [relockMount_eq_ok relocked]
      exact .modifyDrive (fun _ => rfl) fun _ => .inl

theorem steady_requestDriveFormat {driveId : Nat} {isMounted : Bool}
    (new : (∃ s', requestDriveFormat s driveId isMounted = .ok s') → fresh driveId) :
    Steady fresh s (settle (requestDriveFormat s driveId isMounted)) := by
  cases requested : requestDriveFormat s driveId isMounted with
  | error r => exact leaves_requestDriveFormat (P := Steady fresh s) .refl r requested
  | ok s' =>
      rw [requestDriveFormat_eq_ok requested]
      exact .modifyDrive (fun _ => rfl) fun _ _ => .inr (new ⟨s', requested⟩)

end Steady

namespace FormatSite

/-- The drive for which the action requests a format that is accepted. -/
def Requests (s : FormatSite) (a : FormatAction) (k : Nat) : Prop :=
  ∃ isMounted, a = .requestFormat k isMounted ∧
    ∃ s', requestDriveFormat s.db k isMounted = .ok s'

theorem steady_act (cfg : Settings) (s : FormatSite) (a : FormatAction) :
    Steady (s.Requests a) s.db (s.act cfg a).db := by
  cases a with
  | requestFormat driveId isMounted =>
      exact steady_requestDriveFormat fun accepted => ⟨isMounted, rfl, accepted⟩
  | completeFormat driveId filesystemType isMounted failure => exact steady_completeDriveFormat
  | checkMount driveId =>
      rw [act]
      split <;> exact .refl
  | issueMount initial success =>
      rw [act]
      split <;> exact .refl
  | finishMount initial rolledBack saved =>
      rw [act]
      split
      · exact steady_relockMount
      · exact .refl
  | checkEject driveId confirmIncomplete =>
      rw [act]
      split <;> exact .refl
  | finishEject initial result saved =>
      rw [act]
      split
      · exact steady_finishEject
      · exact .refl
  | startPass =>
      rw [act]
      split <;> exact .refl
  | treatNext actual answers =>
      rw [act]
      split <;> exact .refl
  | finishPass saved =>
      rw [act]
      split
      · dsimp only
        split
        · exact steady_applyChanges _
        · exact .refl
      · exact .refl

/-! ### The invariant -/

/-- Nodes are distinct; a mount that has made its checks is for a drive whose
format is not pending, and the pass has its rows at their nodes. -/
structure Mountable (s : FormatSite) : Prop where
  nodes : ∀ a ∈ s.db.drives, ∀ b ∈ s.db.drives,
    a.filesystemPath ≠ none → a.filesystemPath = b.filesystemPath → a.id = b.id
  checked : ∀ r ∈ s.checked, ∃ d ∈ s.db.drives, d.id = r.id ∧
    d.filesystemPath = r.filesystemPath ∧ d.formatStatus ≠ some .pending
  ahead : ∀ rows, s.ahead = some rows → ∀ r ∈ rows, ∃ d ∈ s.db.drives, d.id = r.id ∧
    d.filesystemPath = r.filesystemPath

theorem Mountable.of {s : Db} (nodes : ∀ a ∈ s.drives, ∀ b ∈ s.drives,
    a.filesystemPath ≠ none → a.filesystemPath = b.filesystemPath → a.id = b.id) :
    Mountable (.of s) where
  nodes := nodes
  checked _ hr := absurd hr List.not_mem_nil
  ahead _ none := by cases none

/-- Requests that wait and a pass in progress, after a write of the database. -/
theorem Mountable.write {s : FormatSite} {db : Db} {fresh : Nat → Prop} (inv : Mountable s)
    (steady : Steady fresh s.db db) (apart : ∀ r ∈ s.checked, ¬ fresh r.id) :
    Mountable { s with db := db } where
  nodes a ha b hb node same := by
    obtain ⟨a₀, ha₀, ida, patha⟩ := steady.back a ha
    obtain ⟨b₀, hb₀, idb, pathb⟩ := steady.back b hb
    rw [ida, idb]
    exact inv.nodes a₀ ha₀ b₀ hb₀ (patha ▸ node) (by rw [← patha, ← pathb, same])
  checked r hr := by
    obtain ⟨d, hd, key, path, idle⟩ := inv.checked r hr
    obtain ⟨d', hd', key', path', pending⟩ := steady.rows d hd
    refine ⟨d', hd', key'.trans key, path'.trans path, fun now => ?_⟩
    rcases pending now with before | new
    · exact idle before
    · exact apart r hr (key ▸ new)
  ahead rows given r hr := by
    obtain ⟨d, hd, key, path⟩ := inv.ahead rows given r hr
    obtain ⟨d', hd', key', path', -⟩ := steady.rows d hd
    exact ⟨d', hd', key'.trans key, path'.trans path⟩

theorem mountable_act (cfg : Settings) (s : FormatSite) (a : FormatAction) (inv : Mountable s)
    (guarded : s.Guarded a) : Mountable (s.act cfg a) := by
  have steady := steady_act cfg s a
  have apart : ∀ r ∈ s.checked, ¬ s.Requests a r.id := by
    rintro r hr ⟨isMounted, rfl, accepted⟩
    exact guarded accepted r hr rfl
  have written := inv.write steady apart
  cases a with
  | requestFormat driveId isMounted => exact written
  | completeFormat driveId filesystemType isMounted failure => exact written
  | checkMount driveId =>
      rw [act]
      split
      next drive passed =>
        obtain ⟨found, idle, -⟩ := mountChecks_eq_ok passed
        refine { inv with checked := fun r hr => ?_ }
        rcases List.mem_cons.mp hr with rfl | hr
        · exact ⟨_, Table.mem_of_get found, rfl, rfl, idle⟩
        · exact inv.checked r hr
      next => exact inv
  | issueMount initial success =>
      rw [act]
      split
      · exact { inv with checked := fun r hr => inv.checked r (List.mem_of_mem_erase hr) }
      · exact inv
  | finishMount initial rolledBack saved =>
      rw [act] at written ⊢
      split at written
      next waiting =>
        rw [if_pos waiting]
        exact { written with }
      next gone =>
        rw [if_neg gone]
        exact inv
  | checkEject driveId confirmIncomplete =>
      rw [act]
      split
      · exact { inv with }
      · exact inv
  | finishEject initial result saved =>
      rw [act] at written ⊢
      split at written
      next waiting =>
        rw [if_pos waiting]
        exact { written with }
      next gone =>
        rw [if_neg gone]
        exact inv
  | startPass =>
      rw [act]
      split
      · exact inv
      · refine { inv with ahead := fun rows given r hr => ?_ }
        cases given
        exact ⟨r, (List.mem_filter.mp hr).1, rfl, rfl⟩
  | treatNext actual answers =>
      rw [act]
      split
      next drive rest loaded =>
        refine { inv with ahead := fun rows given r hr => ?_ }
        cases given
        exact inv.ahead _ loaded r (List.mem_cons_of_mem _ hr)
      next => exact inv
  | finishPass saved =>
      rw [act] at written ⊢
      split at written
      next loaded =>
        refine { written with ahead := fun rows given => ?_ }
        cases given
      next => exact inv

theorem unpending_of_mountable (cfg : Settings) (s : FormatSite) (a : FormatAction)
    (inv : Mountable s) (guarded : s.Guarded a) : s.Unpending cfg a := by
  intro device issued d hd node
  -- The mount is for a drive at this node whose format is not pending.
  have idle : ∃ d' ∈ s.db.drives, d'.filesystemPath = some device ∧
      d'.formatStatus ≠ some .pending := by
    cases a with
    | issueMount initial success =>
        rw [issues] at issued
        split at issued
        next waiting =>
          obtain ⟨d', hd', -, path, idle⟩ := inv.checked initial waiting
          exact ⟨d', hd', path.trans issued, idle⟩
        next => cases issued
    | treatNext actual answers =>
        rw [issues] at issued
        split at issued
        next drive rest loaded =>
          obtain ⟨d', hd', key, path⟩ := inv.ahead _ loaded drive (List.mem_cons_self ..)
          refine ⟨d', hd', path.trans (truthy_eq_some (mountCalled_treatDrive issued)), ?_⟩
          exact guarded _ loaded drive rfl d' hd' key
        next => cases issued
    | _ => cases issued
  obtain ⟨d', hd', path, idle⟩ := idle
  have same : d'.id = d.id :=
    inv.nodes d' hd' d hd (by rw [path]; exact Option.some_ne_none _) (path.trans node.symm)
  rw [← Table.eq_of_id_eq hd' hd same]
  exact idle

/-- When no two rows share a device node, no device is mounted while its format
is pending, in every run in which no format is accepted between the check and
the mount of a `mount_drive` for the drive and no pass comes to a drive whose
format is pending. -/
theorem unpending_of_guarded (cfg : Settings) (s : Db) (actions : List FormatAction)
    (nodes : ∀ a ∈ s.drives, ∀ b ∈ s.drives,
      a.filesystemPath ≠ none → a.filesystemPath = b.filesystemPath → a.id = b.id)
    (guarded : Along (act cfg) Guarded (.of s) actions) :
    Along (act cfg) (Unpending cfg) (.of s) actions :=
  along_of_along (mountable_act cfg) (unpending_of_mountable cfg) (Mountable.of nodes) guarded

end FormatSite

/-! ### A pass during a format -/

instance decidableExistsOk {ε α : Type} (x : Except ε α) : Decidable (∃ a, x = .ok a) :=
  match x with
  | .ok a => .isTrue ⟨a, rfl⟩
  | .error _ => .isFalse fun ⟨_, h⟩ => by cases h

namespace FormatSite

instance (s : FormatSite) (a : FormatAction) : Decidable (s.Guarded a) :=
  match a with
  | .requestFormat driveId isMounted => inferInstanceAs (Decidable
      ((∃ s', requestDriveFormat s.db driveId isMounted = .ok s') → ∀ r ∈ s.checked, _))
  | .treatNext _ _ => inferInstanceAs (Decidable (∀ rows ∈ s.ahead, ∀ r ∈ rows.head?,
      ∀ d ∈ s.db.drives, _ → _))
  | .completeFormat .. | .checkMount _ | .issueMount .. | .finishMount .. | .checkEject .. |
    .finishEject .. | .startPass | .finishPass _ => inferInstanceAs (Decidable True)

instance (cfg : Settings) (s : FormatSite) (a : FormatAction) : Decidable (s.Unpending cfg a) :=
  inferInstanceAs (Decidable (∀ device ∈ s.issues cfg a, ∀ d ∈ s.db.drives, _ → _))

end FormatSite

/-- An available drive that is not mounted. -/
def blankStick : UsbDrive := { Lab.drive 1 .available none with mountPath := none }

def blankDb : Db := { Lab.start with drives := ⟨[blankStick], 1, by decide, by decide⟩ }

/-- The drive is mounted when its format has ended. -/
def formatThenMount : List FormatAction :=
  [.requestFormat 1 false, .checkMount 1, .completeFormat 1 "ext4" false none, .checkMount 1,
    .issueMount blankStick true, .finishMount blankStick true true]

theorem unpending_of_guarded_formatThenMount :
    Along (FormatSite.act Lab.settings) FormatSite.Guarded (.of blankDb) formatThenMount ∧
      Along (FormatSite.act Lab.settings) (FormatSite.Unpending Lab.settings) (.of blankDb)
        formatThenMount := by
  have guarded : Along (FormatSite.act Lab.settings) FormatSite.Guarded (.of blankDb)
      formatThenMount := by decide +kernel
  exact ⟨guarded, FormatSite.unpending_of_guarded _ _ _ (by decide +kernel) guarded⟩

/-- A pass comes to the drive while its format is pending, and mounts it. -/
theorem pending_mounted :
    (∀ a ∈ blankDb.drives, ∀ b ∈ blankDb.drives,
      a.filesystemPath ≠ none → a.filesystemPath = b.filesystemPath → a.id = b.id) ∧
      ¬ Along (FormatSite.act Lab.settings) (FormatSite.Unpending Lab.settings) (.of blankDb)
        [.requestFormat 1 false, .startPass, .treatNext none ⟨true, true, true⟩] := by
  constructor
  · decide +kernel
  · decide +kernel

end Ecube
