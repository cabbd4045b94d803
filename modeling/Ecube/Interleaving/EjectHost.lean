import Ecube.Interleaving.EjectStart
import Ecube.Invariants.DeviceNodes
import Ecube.Services.DriveEject

/-!
What a failed eject leaves on the host.

`prepare_eject` makes its checks, lets the provider flush and unmount the device,
and only then locks the row, validates it and looks at the outcome. The unmount
cannot be taken back, so each refusal that comes after it, and a commit that
fails, leaves the mount path of a drive that is no longer mounted.

Between these steps come transactions of `create_job`, of `initialize_drive` and
of discovery passes; a run is any sequence of them.

* `consistent_of_guarded`: a drive whose mount path is true keeps a true mount
  path through an eject that raises, in every run in which the provider succeeds
  as a whole or leaves the recorded mount, the commit after a success is not
  refused, and discovery reports what is there.
* `eject_flush_lost`: the flush fails and the unmount succeeds.
-/

namespace Ecube

open PosixPath MountStack Transition

/-! ### The steps of an eject -/

inductive EjectProgress where
  | ready
  | checked (initial : UsbDrive)
  | unmounted (initial : UsbDrive) (result : EjectResult)
  | ejected
  | raised
  deriving DecidableEq

def EjectProgress.checked? : EjectProgress → Option UsbDrive
  | .checked initial => some initial
  | _ => none

def EjectProgress.unmounted? : EjectProgress → Option (UsbDrive × EjectResult)
  | .unmounted initial result => some (initial, result)
  | _ => none

/-- The tables, the mounts and the progress of the eject. -/
structure EjectHost (os : OperatingSystem) where
  hardware : Hardware
  table : MountTable os
  eject : EjectProgress

/-- The requests that come between. -/
inductive OtherRequest where
  | createJob (body : JobBody) (seededJobId : Option Nat)
  | initializeDrive (driveId : Nat) (projectId : ProjectId)

def OtherRequest.request : OtherRequest → Request
  | .createJob body seeded => .createJob body seeded
  | .initializeDrive driveId projectId => .initializeDrive driveId projectId

inductive EjectAction where
  | check (confirmIncomplete : Bool)
  | unmount (answers : EjectAnswers) (recoverable : Option String)
  | relock (locked saved : Bool)
  | request (now : Nat) (request : OtherRequest)
  | discover (s : Sync) (phase : Phase)

/-- The outcome of the provider; a failure may be one the operator can resolve. -/
def ejectOutcome (success : Bool) (recoverable : Option String) : EjectResult :=
  if success then .success
  else match recoverable with
    | some detail => .recoverable detail
    | none => .failed

def Hardware.ejectDrive (h : Hardware) (driveId : Nat) : Hardware :=
  { h with
    db := ejected h.db driveId
    identified := identified_of_sameNodes (SameNodes.modifyDrive fun _ => rfl) h.identified }

namespace EjectHost

variable {os : OperatingSystem}

def row (x : EjectHost os) (driveId : Nat) : Option UsbDrive := x.hardware.db.drives.get driveId

/-- The checks; a refusal ends the eject. -/
def check (x : EjectHost os) (driveId : Nat) (confirmIncomplete : Bool) : EjectHost os :=
  if x.eject = .ready then
    match ejectChecks x.hardware.db driveId confirmIncomplete with
    | .ok drive => { x with eject := .checked drive }
    | .error _ => { x with eject := .raised }
  else x

/-- The call of the provider. -/
def unmount (x : EjectHost os) (answers : EjectAnswers) (recoverable : Option String) :
    EjectHost os :=
  match x.eject.checked? with
  | some initial =>
      { x with
        table := x.table.unmounts (ejectedMountpoints x.table initial.filesystemPath answers)
        eject := .unmounted initial
          (ejectOutcome (ejectSucceeds x.table initial.filesystemPath answers) recoverable) }
  | none => x

/-- The lock, which another transaction may hold, the validation and the commit,
which may be refused. -/
def relock (x : EjectHost os) (driveId : Nat) (locked saved : Bool) : EjectHost os :=
  match x.eject.unmounted? with
  | some (initial, result) =>
      if locked then { x with eject := .raised }
      else match relockDrive x.hardware.db driveId initial result with
        | .ok _ =>
            if saved then ⟨x.hardware.ejectDrive driveId, x.table, .ejected⟩
            else { x with eject := .raised }
        | .error _ => { x with eject := .raised }
  | none => x

def act (cfg : Settings) (driveId : Nat) (x : EjectHost os) : EjectAction → EjectHost os
  | .check confirmIncomplete => x.check driveId confirmIncomplete
  | .unmount answers recoverable => x.unmount answers recoverable
  | .relock locked saved => x.relock driveId locked saved
  | .request now request =>
      { x with hardware := x.hardware.act cfg (.request now request.request) }
  | .discover s phase => { x with hardware := x.hardware.advance s phase }

/-- The mount path of the drive, if there is one, is where its device is mounted. -/
def TrueAt (driveId : Nat) (x : EjectHost os) : Prop :=
  ∀ r, x.row driveId = some r → ∀ path, r.mountPath = some path → MountedAt x.table r path

/-- When the action makes the eject raise, the mount path is true afterwards. -/
def Consistent (cfg : Settings) (driveId : Nat) (x : EjectHost os) (a : EjectAction) : Prop :=
  x.eject ≠ .raised → (x.act cfg driveId a).eject = .raised → TrueAt driveId (x.act cfg driveId a)

/-! ### The condition -/

/-- The row is in the state and at the device path that were checked. -/
def Unchanged (initial r : UsbDrive) : Prop :=
  r.currentState = initial.currentState ∧ r.filesystemPath = initial.filesystemPath

instance (initial r : UsbDrive) : Decidable (Unchanged initial r) :=
  inferInstanceAs (Decidable (_ ∧ _))

/-- A pass reports the drive as mounted only where the device it reports is
mounted, and a drive in use with a mount path at its device path. -/
def Truthful (driveId : Nat) (x : EjectHost os) (s : Sync) : Phase → Prop
  | .drive d => ∀ r, x.hardware.existing d = some r → r.id = driveId →
      (∀ path, managedSlot s.env r.id d.mountPath = some path →
        MountedAt x.table { r with filesystemPath := d.filesystemPath } path) ∧
      (r.currentState = .inUse → r.mountPath ≠ none → d.filesystemPath = r.filesystemPath)
  | _ => True

/-- The condition on each action:

* the provider leaves the recorded mount, or succeeds as a whole while the drive
  is in the state and at the path that were checked;
* once the recorded mount is gone, no request changes the state of the drive, the
  lock is free and the commit is accepted;
* discovery is truthful. -/
def Guarded (cfg : Settings) (driveId : Nat) (x : EjectHost os) : EjectAction → Prop
  | .check _ => True
  | .unmount answers _ => ∀ initial, x.eject.checked? = some initial →
      ∀ r, x.row driveId = some r →
        (∀ path, r.mountPath = some path →
          os.realpath path ∈ ejectedMountpoints x.table initial.filesystemPath answers →
          ∃ m ∈ (stackAt x.table.mounts (os.realpath path)).tail, owns os r m.2 = true) ∨
        (ejectSucceeds x.table initial.filesystemPath answers = true ∧ Unchanged initial r)
  | .relock locked saved => x.eject.unmounted? ≠ none →
      TrueAt driveId x ∨ (locked = false ∧ saved = true)
  | .request now request => x.eject.unmounted? ≠ none → TrueAt driveId x ∨
      ((x.act cfg driveId (.request now request)).row driveId).map UsbDrive.currentState =
        (x.row driveId).map UsbDrive.currentState
  | .discover s phase => Truthful driveId x s phase

end EjectHost

/-! ### What the other transactions write -/

/-- Same device path and same mount path. -/
def SameMount (d d' : UsbDrive) : Prop :=
  d'.filesystemPath = d.filesystemPath ∧ d'.mountPath = d.mountPath

theorem SameMount.refl (d : UsbDrive) : SameMount d d := ⟨rfl, rfl⟩

theorem SameMount.trans {a b c : UsbDrive} (h : SameMount a b) (h' : SameMount b c) : SameMount a c :=
  ⟨h'.1.trans h.1, h'.2.trans h.2⟩

theorem sameMount_createJob {cfg : Settings} {s s' : Db} {body : JobBody} {seeded : Option Nat}
    {now : Nat} (h : createJob cfg s body seeded now = .ok s') : Db.DrivesKept SameMount s s' := by
  obtain ⟨s₁, jobId, drive, sourcePath, resolved, inserted, -, -, -, -, -, h⟩ := createJob_eq_ok h
  obtain ⟨⟨jobs, rfl⟩, -, -⟩ := insertJob_eq_ok inserted
  refine reserveOverflowDrives_rule (P := Db.DrivesKept SameMount s) (fun t d kept _ _ _ _ => ?_) ?_ h
  · refine kept.trans (fun _ => SameMount.trans) ?_
    exact Db.DrivesKept.modifyDrive (s := t.addAssignment d.id jobId now none) SameMount.refl
      fun _ _ _ => ⟨rfl, rfl⟩
  · intro d hd
    by_cases hit : d.id = drive.id
    · exact ⟨_, mem_assignPrimaryDrive_drives.mpr (.inr ⟨d, hd, hit, rfl⟩), rfl, rfl, rfl⟩
    · exact ⟨d, mem_assignPrimaryDrive_drives.mpr (.inl ⟨hd, hit⟩), rfl, SameMount.refl d⟩

theorem sameMount_request (cfg : Settings) (s : Db) (now : Nat) (request : OtherRequest) :
    Db.DrivesKept SameMount s (step cfg s ⟨now, request.request.event⟩) := by
  have unchanged : Db.DrivesKept SameMount s s := .refl SameMount.refl s
  cases request with
  | createJob body seeded =>
      exact step_rule (fun s' h => sameMount_createJob h) (leaves_createJob unchanged)
  | initializeDrive driveId projectId =>
      refine step_rule (fun s' h => ?_) (leaves_initializeDrive unchanged)
      obtain ⟨-, -, -, rfl⟩ := initializeDrive_eq_ok h
      exact .modifyDrive SameMount.refl fun _ _ _ => ⟨rfl, rfl⟩

/-- The mount path of a refreshed row is cleared or the one that was persisted. -/
theorem refreshDrive_mountPath (env : Environment) (d : DiscoveredDrive) (e : Bool) (r : UsbDrive) :
    (refreshDrive env d e r).mountPath = none ∨
      (refreshDrive env d e r).mountPath =
        persistedUsbMountPath env d.mountPath r.id r.currentState r.mountPath := by
  have active : (activate d e (refreshPresence env d r)).mountPath =
      persistedUsbMountPath env d.mountPath r.id r.currentState r.mountPath := by
    rw [activate]
    split
    · rfl
    · split <;> rfl
  have demoted : ∀ r, (demote e r).mountPath = none ∨ (demote e r).mountPath = r.mountPath := by
    intro r
    simp only [demote]
    split <;> split <;> simp
  rw [refreshDrive, ← active]
  exact demoted _

section Discovery

variable {os : OperatingSystem} {x : EjectHost os} {k : Nat}

/-- The mount path of a row is true in the table. -/
def TrueRow (t : MountTable os) (r : UsbDrive) : Prop :=
  ∀ path, r.mountPath = some path → MountedAt t r path

/-- The mounts of a row depend on its device path only. -/
theorem mountedAt_congr {t : MountTable os} {r r' : UsbDrive} {path : Str}
    (device : r'.filesystemPath = r.filesystemPath) : MountedAt t r' path ↔ MountedAt t r path := by
  simp only [MountedAt, ownMounts, owns, device]

theorem TrueRow.of_sameMount {t : MountTable os} {r r' : UsbDrive} (same : SameMount r r')
    (h : TrueRow t r) : TrueRow t r' := by
  intro path given
  exact (mountedAt_congr same.1).mpr (h path (same.2 ▸ given))

/-- What truthful discovery does to a row: its mount path is true afterwards, or
nothing that the eject looks at has changed. -/
def Harmless (t : MountTable os) (r r' : UsbDrive) : Prop :=
  TrueRow t r' ∨ (SameMount r r' ∧ r'.currentState = r.currentState)

theorem Harmless.refl (t : MountTable os) (r : UsbDrive) : Harmless t r r :=
  .inr ⟨SameMount.refl r, rfl⟩

theorem harmless_refreshDrive {t : MountTable os} {env : Environment} {d : DiscoveredDrive} {e : Bool}
    {r : UsbDrive}
    (reported : ∀ path, managedSlot env r.id d.mountPath = some path →
      MountedAt t { r with filesystemPath := d.filesystemPath } path)
    (settled : r.currentState = .inUse → r.mountPath ≠ none → d.filesystemPath = r.filesystemPath) :
    Harmless t r (refreshDrive env d e r) := by
  rcases refreshDrive_mountPath env d e r with cleared | persisted
  · exact .inl fun path given => by rw [cleared] at given; cases given
  rw [persistedUsbMountPath] at persisted
  cases found : managedSlot env r.id d.mountPath with
  | some path =>
      refine .inl fun p given => ?_
      rw [persisted, found, Option.some_or] at given
      cases given
      exact (mountedAt_congr refreshDrive_filesystemPath).mpr (reported path found)
  | none =>
      rw [found, Option.none_or] at persisted
      split at persisted
      next inUse =>
        cases kept : managedSlot env r.id r.mountPath with
        | none => exact .inl fun path given => by rw [persisted, kept] at given; cases given
        | some path =>
            have recorded : r.mountPath = some path :=
              truthy_eq_some (Option.filter_eq_some_iff.mp kept).1
            refine .inr ⟨⟨?_, persisted.trans (kept.trans recorded.symm)⟩, ?_⟩
            · rw [refreshDrive_filesystemPath]
              exact settled inUse (by rw [recorded]; exact Option.some_ne_none path)
            · rw [inUse]
              exact refreshDrive_inUse.mpr (.inl inUse)
      next => exact .inl fun path given => by rw [persisted] at given; cases given

theorem harmless_discover {s : Sync} {phase : Phase} (truthful : x.Truthful k s phase) {r : UsbDrive}
    (found : x.row k = some r) :
    ∃ r', (x.hardware.advance s phase).db.drives.get k = some r' ∧ Harmless x.table r r' := by
  have mem := Table.mem_of_get found
  have key : r.id = k := Table.id_of_get found
  cases phase with
  | ports => exact ⟨r, found, .refl x.table r⟩
  | sweep =>
      have swept := Hardware.sweep_spec x.hardware s
      refine ⟨_, Table.get_eq_some_iff.mpr ⟨(swept.rows _).mpr ⟨r, mem, rfl⟩, ?_⟩, ?_⟩
      · rw [← key]
        split <;> rfl
      · split
        · exact .inl fun path given => by cases given
        · exact .refl x.table r
  | drive d =>
      rcases Hardware.syncDrive_cases x.hardware s d with
        ⟨-, same⟩ | ⟨-, -, -, rows⟩ | ⟨-, existing, -, rows, -⟩
      · refine ⟨r, ?_, .refl x.table r⟩
        change (x.hardware.syncDrive s d).db.drives.get k = some r
        rw [same]
        exact found
      · refine ⟨r, Table.get_eq_some_iff.mpr ⟨?_, key⟩, .refl x.table r⟩
        change r ∈ (x.hardware.syncDrive s d).db.drives
        rw [rows, Table.mem_insert (newDrive_id s.env d _)]
        exact .inl mem
      next r₀ =>
        have rows : ∀ r', r' ∈ (x.hardware.advance s (.drive d)).db.drives ↔ _ := rows
        by_cases hit : r.id = r₀.id
        · obtain rfl := Table.eq_of_id_eq mem (Hardware.existing_eq_some existing).1 hit
          obtain ⟨reported, settled⟩ := truthful r existing key
          refine ⟨_, Table.get_eq_some_iff.mpr ⟨(rows _).mpr (.inr rfl), ?_⟩,
            harmless_refreshDrive reported settled⟩
          exact (refreshDrive_id _ _ _ _).trans key
        · exact ⟨r, Table.get_eq_some_iff.mpr ⟨(rows r).mpr (.inl ⟨mem, hit⟩), key⟩, .refl x.table r⟩

/-- A drive that a pass adds has no mount path. -/
theorem mountPath_of_discovered {s : Sync} {phase : Phase} {r' : UsbDrive} (missing : x.row k = none)
    (after : (x.hardware.advance s phase).db.drives.get k = some r') : r'.mountPath = none := by
  obtain ⟨mem', key⟩ := Table.get_eq_some_iff.mp after
  have absent : ∀ r ∈ x.hardware.db.drives, r.id ≠ k := Table.get_eq_none_iff.mp missing
  cases phase with
  | ports => exact absurd key (absent r' mem')
  | sweep =>
      obtain ⟨r, mem, same⟩ := ((Hardware.sweep_spec x.hardware s).rows r').mp mem'
      refine absurd ?_ (absent r mem)
      rw [← key, ← same]
      split <;> rfl
  | drive d =>
      rcases Hardware.syncDrive_cases x.hardware s d with
        ⟨-, same⟩ | ⟨-, -, -, rows⟩ | ⟨-, existing, -, rows, -⟩
      · change r' ∈ (x.hardware.syncDrive s d).db.drives at mem'
        rw [same] at mem'
        exact absurd key (absent r' mem')
      · change r' ∈ (x.hardware.syncDrive s d).db.drives at mem'
        rw [rows, Table.mem_insert (newDrive_id s.env d _)] at mem'
        rcases mem' with mem | rfl
        · exact absurd key (absent r' mem)
        · rfl
      next r₀ =>
        rcases (rows r').mp mem' with ⟨mem, -⟩ | rfl
        · exact absurd key (absent r' mem)
        · refine absurd ?_ (absent r₀ (Hardware.existing_eq_some existing).1)
          exact (refreshDrive_id _ _ _ _).symm.trans key

end Discovery

/-! ### The invariant -/

namespace EjectHost

variable {os : OperatingSystem} {cfg : Settings} {k : Nat}

/-- The mount path is true; after the call of the provider it may also be that
the provider has succeeded and the row is still the one that was checked. -/
def Sound (k : Nat) (x : EjectHost os) : Prop :=
  match x.eject with
  | .ready | .checked _ => TrueAt k x
  | .unmounted initial result =>
      TrueAt k x ∨ (result = .success ∧ ∃ r, x.row k = some r ∧ Unchanged initial r)
  | .ejected | .raised => True

theorem sound_check {x : EjectHost os} (confirmIncomplete : Bool) (sound : Sound k x) :
    Sound k (x.check k confirmIncomplete) := by
  rw [check]
  split
  next ready =>
    rw [Sound, ready] at sound
    split
    · exact sound
    · trivial
  next => exact sound

theorem checked?_eq_some {e : EjectProgress} {initial : UsbDrive} (h : e.checked? = some initial) :
    e = .checked initial := by
  cases e <;> cases h
  rfl

theorem unmounted?_eq_some {e : EjectProgress} {p : UsbDrive × EjectResult}
    (h : e.unmounted? = some p) : e = .unmounted p.1 p.2 := by
  cases e <;> cases h
  rfl

theorem sound_unmount {x : EjectHost os} {answers : EjectAnswers} {recoverable : Option String}
    (sound : Sound k x) (guarded : x.Guarded cfg k (.unmount answers recoverable)) :
    Sound k (x.unmount answers recoverable) := by
  rw [unmount]
  split
  next initial progress =>
    rw [Sound, checked?_eq_some progress] at sound
    have sound : TrueAt k x := sound
    change TrueAt k _ ∨ _
    cases found : x.row k with
    | none => exact .inl fun r given => by cases found.symm.trans given
    | some r =>
        rcases guarded initial progress r found with spared | ⟨success, unchanged⟩
        · refine .inl fun r' given path recorded => ?_
          cases found.symm.trans given
          refine (mountedAt_unmounts_iff nodup_ejectedMountpoints real_ejectedMountpoints).mpr ?_
          exact ⟨sound r found path recorded, spared path recorded⟩
        · refine .inr ⟨?_, r, found, unchanged⟩
          simp [ejectOutcome, success]
  next => exact sound

theorem relockDrive_of_unchanged {s : Db} {initial r : UsbDrive} (found : s.drives.get k = some r)
    (unchanged : Unchanged initial r) : relockDrive s k initial .success = .ok () := by
  simp [relockDrive, found, orReject, ensure, unchanged.1, unchanged.2, bind, Except.bind]

/-- A relock that raises changes nothing else. -/
theorem relock_raised {x : EjectHost os} {locked saved : Bool} (before : x.eject ≠ .raised)
    (raised : (x.relock k locked saved).eject = .raised) :
    ∃ initial result, x.eject = .unmounted initial result ∧
      x.relock k locked saved = { x with eject := .raised } := by
  cases progress : x.eject.unmounted? with
  | none =>
      rw [relock, progress] at raised
      exact absurd raised before
  | some p =>
      refine ⟨p.1, p.2, unmounted?_eq_some progress, ?_⟩
      rw [relock, progress] at raised ⊢
      dsimp only at raised ⊢
      cases locked with
      | true => rfl
      | false =>
          cases relocked : relockDrive x.hardware.db k p.1 p.2 with
          | error r => rfl
          | ok u =>
              cases saved with
              | false => rfl
              | true =>
                  rw [relocked] at raised
                  cases raised

/-- A request leaves both paths of the row alone. -/
theorem row_request (cfg : Settings) (x : EjectHost os) (now : Nat) (request : OtherRequest) {r : UsbDrive}
    (found : x.row k = some r) :
    ∃ r', (x.act cfg k (.request now request)).row k = some r' ∧ SameMount r r' :=
  (sameMount_request cfg x.hardware.db now request).get found

theorem trueAt_request {x : EjectHost os} {now : Nat} {request : OtherRequest} (h : TrueAt k x) :
    TrueAt k (x.act cfg k (.request now request)) := by
  intro r' after
  obtain ⟨r, mem, key, -⟩ := sameNodes_step cfg x.hardware.db now request.request r'
    (Table.mem_of_get after)
  have found : x.row k = some r :=
    Table.get_eq_some_iff.mpr ⟨mem, key.symm.trans (Table.id_of_get after)⟩
  obtain ⟨r₁, after₁, same⟩ := row_request cfg x now request found
  cases after.symm.trans after₁
  exact TrueRow.of_sameMount same (h r found)

theorem sound_request {x : EjectHost os} {now : Nat} {request : OtherRequest} (sound : Sound k x)
    (guarded : x.Guarded cfg k (.request now request)) :
    Sound k (x.act cfg k (.request now request)) := by
  have same : (x.act cfg k (.request now request)).eject = x.eject := rfl
  rw [Sound] at sound ⊢
  rw [same]
  cases progress : x.eject with
  | ready | checked initial =>
      rw [progress] at sound
      exact trueAt_request sound
  | unmounted initial result =>
      rw [progress] at sound
      have guarded := guarded (by rw [progress]; exact Option.some_ne_none _)
      rcases sound with sound | ⟨success, r, found, unchanged⟩
      · exact .inl (trueAt_request sound)
      rcases guarded with sound | kept
      · exact .inl (trueAt_request sound)
      · obtain ⟨r', after, mounts⟩ := row_request cfg x now request found
        rw [after, found] at kept
        refine .inr ⟨success, r', after, ?_, mounts.1.trans unchanged.2⟩
        exact (Option.some.inj kept).trans unchanged.1
  | ejected | raised => trivial

theorem trueAt_discover {x : EjectHost os} {s : Sync} {phase : Phase}
    (truthful : x.Truthful k s phase) (h : TrueAt k x) :
    TrueAt k (x.act cfg k (.discover s phase)) := by
  intro r' after
  cases found : x.row k with
  | none =>
      intro path given
      rw [mountPath_of_discovered found after] at given
      cases given
  | some r =>
      obtain ⟨r₁, after₁, harmless⟩ := harmless_discover truthful found
      cases after.symm.trans after₁
      rcases harmless with now | ⟨same, -⟩
      · exact now
      · exact TrueRow.of_sameMount same (h r found)

theorem sound_discover {x : EjectHost os} {s : Sync} {phase : Phase} (sound : Sound k x)
    (truthful : x.Truthful k s phase) : Sound k (x.act cfg k (.discover s phase)) := by
  have same : (x.act cfg k (.discover s phase)).eject = x.eject := rfl
  rw [Sound] at sound ⊢
  rw [same]
  cases progress : x.eject with
  | ready | checked initial =>
      rw [progress] at sound
      exact trueAt_discover truthful sound
  | unmounted initial result =>
      rw [progress] at sound
      rcases sound with sound | ⟨success, r, found, unchanged⟩
      · exact .inl (trueAt_discover truthful sound)
      obtain ⟨r', after, harmless⟩ := harmless_discover truthful found
      rcases harmless with now | ⟨mounts, state⟩
      · refine .inl fun r₁ after₁ => ?_
        cases after.symm.trans after₁
        exact now
      · exact .inr ⟨success, r', after, state.trans unchanged.1, mounts.1.trans unchanged.2⟩
  | ejected | raised => trivial

theorem sound_act (cfg : Settings) (k : Nat) (x : EjectHost os) (a : EjectAction)
    (sound : Sound k x) (guarded : x.Guarded cfg k a) : Sound k (x.act cfg k a) := by
  cases a with
  | check confirmIncomplete => exact sound_check confirmIncomplete sound
  | unmount answers recoverable => exact sound_unmount sound guarded
  | relock locked saved =>
      change Sound k (x.relock k locked saved)
      rw [relock]
      split
      · split
        · trivial
        split
        · split <;> trivial
        · trivial
      · exact sound
  | request now request => exact sound_request sound guarded
  | discover s phase => exact sound_discover sound guarded

/-- An eject that raises leaves the tables and the mounts as they are. -/
theorem consistent_of_sound (cfg : Settings) (k : Nat) (x : EjectHost os) (a : EjectAction)
    (sound : Sound k x) (guarded : x.Guarded cfg k a) : Consistent cfg k x a := by
  intro before raised
  cases a with
  | check confirmIncomplete =>
      change (x.check k confirmIncomplete).eject = .raised at raised
      change TrueAt k (x.check k confirmIncomplete)
      rw [check] at raised ⊢
      split at raised
      next ready =>
        rw [if_pos ready]
        rw [Sound, ready] at sound
        split at raised
        · cases raised
        · exact sound
      next => exact absurd raised before
  | unmount answers recoverable =>
      change (x.unmount answers recoverable).eject = .raised at raised
      rw [unmount] at raised
      split at raised
      · cases raised
      · exact absurd raised before
  | relock locked saved =>
      change (x.relock k locked saved).eject = .raised at raised
      change TrueAt k (x.relock k locked saved)
      obtain ⟨initial, result, progress, same⟩ := relock_raised before raised
      rw [same]
      rw [Sound, progress] at sound
      rcases sound with sound | ⟨success, r, found, unchanged⟩
      · exact sound
      have guarded := guarded (by rw [progress]; exact Option.some_ne_none _)
      rcases guarded with sound | ⟨free, saved⟩
      · exact sound
      · -- The commit of a success is not refused.
        have relocked := relockDrive_of_unchanged found unchanged
        subst success
        rw [relock, progress] at raised
        simp [EjectProgress.unmounted?, free, saved, relocked] at raised
  | request now request => exact absurd raised before
  | discover s phase => exact absurd raised before

/-- Along every guarded run, an eject that raises leaves a true mount path, if it
was true when the eject started. -/
theorem consistent_of_guarded (cfg : Settings) (k : Nat) (x : EjectHost os)
    (actions : List EjectAction) (ready : x.eject = .ready) (start : TrueAt k x)
    (guarded : Along (act cfg k) (Guarded cfg k) x actions) :
    Along (act cfg k) (Consistent cfg k) x actions := by
  have sound : Sound k x := by
    rw [Sound, ready]
    exact start
  exact along_of_along (sound_act cfg k) (consistent_of_sound cfg k) sound guarded

end EjectHost

/-! ### A drive in use -/

namespace EjectHost

variable {os : OperatingSystem} (cfg : Settings) (k : Nat) (x : EjectHost os)

instance : Decidable (x.TrueAt k) :=
  inferInstanceAs (Decidable (∀ r ∈ x.row k, ∀ path ∈ r.mountPath, _))

instance (s : Sync) (phase : Phase) : Decidable (x.Truthful k s phase) :=
  match phase with
  | .drive d => inferInstanceAs (Decidable (∀ r ∈ x.hardware.existing d, _ →
      (∀ path ∈ managedSlot s.env r.id d.mountPath, _) ∧ (_ → _ → _)))
  | .ports | .sweep => inferInstanceAs (Decidable True)

instance (a : EjectAction) : Decidable (x.Guarded cfg k a) :=
  match a with
  | .check _ => inferInstanceAs (Decidable True)
  | .unmount _ _ => inferInstanceAs (Decidable (∀ initial ∈ x.eject.checked?, ∀ r ∈ x.row k,
      (∀ path ∈ r.mountPath, _ → ∃ m ∈ (stackAt x.table.mounts (os.realpath path)).tail, _) ∨ _))
  | .relock _ _ => inferInstanceAs (Decidable (_ → _ ∨ _))
  | .request _ _ => inferInstanceAs (Decidable (_ → _ ∨ _))
  | .discover s phase => inferInstanceAs (Decidable (x.Truthful k s phase))

instance (a : EjectAction) : Decidable (x.Consistent cfg k a) :=
  inferInstanceAs (Decidable (_ → _ → _))

end EjectHost

/-- A stick in use, mounted at its slot. -/
def stickInUse : EjectHost plainOs where
  hardware := { boundHost with
    db := { Lab.start with drives := ⟨[Lab.drive 1 .inUse (some Lab.projectP)], 1, by decide,
      by decide⟩ }
    identified := by decide }
  table := ⟨[("/mnt/ecube/1".toList, "/dev/sdb".toList)], by decide⟩
  eject := .ready

/-- The device is busy; meanwhile a pass finds the stick at its slot. -/
def busyEject : List EjectAction :=
  [.check false,
    .discover (passOver []) (.drive (stick "A" "1-1" "/dev/sdb" (some "/mnt/ecube/1".toList))),
    .unmount ⟨true, true, fun _ => false⟩ none, .relock false true]

theorem consistent_of_guarded_busy :
    EjectHost.TrueAt 1 stickInUse ∧
      Along (EjectHost.act Lab.settings 1) (EjectHost.Guarded Lab.settings 1) stickInUse busyEject ∧
      Along (EjectHost.act Lab.settings 1) (EjectHost.Consistent Lab.settings 1) stickInUse
        busyEject := by
  have start : EjectHost.TrueAt 1 stickInUse := by decide +kernel
  have guarded : Along (EjectHost.act Lab.settings 1) (EjectHost.Guarded Lab.settings 1) stickInUse
      busyEject := by decide +kernel
  exact ⟨start, guarded, EjectHost.consistent_of_guarded _ _ _ _ rfl start guarded⟩

/-- The unmount succeeds and the flush fails: the eject raises, and the row keeps
the path of a mount that is gone. -/
theorem eject_flush_lost :
    stickInUse.eject = .ready ∧ EjectHost.TrueAt 1 stickInUse ∧
      ¬ Along (EjectHost.act Lab.settings 1) (EjectHost.Consistent Lab.settings 1) stickInUse
        [.check false, .unmount ⟨false, true, fun _ => true⟩ none, .relock false true] := by
  refine ⟨rfl, ?_, ?_⟩
  · decide +kernel
  · decide +kernel

end Ecube
