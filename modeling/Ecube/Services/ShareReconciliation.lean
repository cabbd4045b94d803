import Ecube.Basic.Transition
import Ecube.Services.ShareValidation

/-!
Reconciliation of network mounts (`app/services/reconciliation_service.py`,
`reconcile_mounts`).

The mount table is read once. A share whose mount point shows its remote path is
left alone; one with another source is unmounted, and what is not mounted is
mounted again by `validate_share`. Afterwards the mount points of the managed
root that belong to no share are unmounted.

The sources are compared as texts. The provider answers every unmount, and the
commits are accepted. The removal of empty directories is not modelled, and
neither is the pass over the USB mounts that may follow.
-/

namespace Ecube

open PosixPath Table

/-! ### One share -/

/-- A call of the provider. -/
inductive MountCall where
  | unmount (path : Str)
  | mount (path : Str) (mounted : Mounted)
  deriving DecidableEq, Repr

def MountCall.path : MountCall → Str
  | unmount path => path
  | mount path _ => path

/-- What the provider and the host answer while a share is treated. -/
structure ShareReplies where
  checked : Option Bool
  unmounted : Bool
  checkedAgain : Option Bool
  directoryReady : Bool
  mounted : Answer
  saves : Bool
  deriving DecidableEq, Repr

/-- `validate_share` without `mount_data`: its calls and the status it saves,
unless it raises. -/
def revalidateShare (cfg : MountSettings) (m : NetworkMount) (replies : ShareReplies) :
    List MountCall × Option MountStatus :=
  if replies.checkedAgain = some true then ([], saved .mounted)
  else if replies.directoryReady = false then ([], saved .error)
  else match storedMountCredentials cfg m with
    | .error _ => ([], none)
    | .ok credentials =>
        ([.mount m.localMountPoint
            (osMount cfg m.type m.remotePath credentials m.nfsClientVersion)],
          match replies.mounted with
          | .ok => saved .mounted
          | .failed _ => saved .error
          | .raised _ => none)
where
  saved (status : MountStatus) : Option MountStatus := if replies.saves then some status else none

inductive ReconcileReason where
  | startupReconciliation | startupCleanupFailed | orphanManagedMountRemoved
  deriving DecidableEq, Repr

def ReconcileReason.text : ReconcileReason → String
  | startupReconciliation => "startup reconciliation"
  | startupCleanupFailed => "startup cleanup failed"
  | orphanManagedMountRemoved => "orphan_managed_mount_removed"

/-- A `MOUNT_RECONCILED` entry; an orphan has no share. -/
structure ReconcileEntry where
  mountId : Option Nat
  oldStatus : MountStatus
  newStatus : MountStatus
  reason : ReconcileReason
  deriving DecidableEq, Repr

/-- What a pass does about one share. -/
structure ShareTreatment where
  calls : List MountCall
  status : MountStatus
  corrected : Bool
  failed : Bool
  reason : ReconcileReason
  deriving DecidableEq, Repr

/-- The share is mounted; only a wrong status is corrected. -/
def recordMounted (m : NetworkMount) : ShareTreatment :=
  ⟨[], .mounted, m.status ≠ .mounted, false, .startupReconciliation⟩

/-- The share is validated, after the calls that are already made. -/
def remountShare (cfg : MountSettings) (m : NetworkMount) (replies : ShareReplies)
    (calls : List MountCall) : ShareTreatment :=
  let (more, status) := revalidateShare cfg m replies
  ⟨calls ++ more, status.getD .error, true, status = none, .startupReconciliation⟩

/-- The mount point of the share in the mount table. -/
def NetworkMount.target (m : NetworkMount) : Str := normpath m.localMountPoint

def treatShare (cfg : MountSettings) (liveMounts : List (Str × Str)) (m : NetworkMount)
    (replies : ShareReplies) : ShareTreatment :=
  let liveSource := liveMounts.lookup m.target
  if liveSource = some m.remotePath then recordMounted m
  else match liveSource with
    | none =>
        if replies.checked = some true then recordMounted m else remountShare cfg m replies []
    | some _ =>
        if replies.unmounted = false then
          ⟨[.unmount m.localMountPoint], .error, true, true, .startupCleanupFailed⟩
        else remountShare cfg m replies [.unmount m.localMountPoint]

/-! ### A pass -/

/-- The database and the counts of a pass, with the calls it has made. -/
structure NetworkPass where
  shares : Table NetworkMount
  calls : List MountCall
  checked : Nat
  corrected : Nat
  failures : Nat
  entries : List ReconcileEntry

def treatedMount (status : MountStatus) (now : Nat) (m : NetworkMount) : NetworkMount :=
  { m with status := status, lastCheckedAt := some now }

theorem treatedMount_id (status : MountStatus) (now : Nat) (m : NetworkMount) :
    (treatedMount status now m).id = m.id := rfl

/-- The settings, the mount table and the answers of a pass. -/
structure NetworkHost where
  cfg : MountSettings
  networkMountBasePath : Str
  liveMounts : List (Str × Str)
  share : Nat → ShareReplies
  orphan : Str → Bool

namespace NetworkHost

variable (host : NetworkHost)

def treatment (m : NetworkMount) : ShareTreatment :=
  treatShare host.cfg host.liveMounts m (host.share m.id)

def reconcileShare (now : Nat) (p : NetworkPass) (mountId : Nat) : NetworkPass :=
  match p.shares.get mountId with
  | none => p
  | some m =>
      let w := host.treatment m
      { shares := p.shares.modify mountId (treatedMount w.status now) (treatedMount_id w.status now)
        calls := p.calls ++ w.calls
        checked := p.checked + 1
        corrected := p.corrected + if w.corrected then 1 else 0
        failures := p.failures + if w.failed then 1 else 0
        entries := p.entries ++
          if w.corrected then [⟨some mountId, m.status, w.status, w.reason⟩] else [] }

/-- `managed_network_mount_root`. -/
def managedNetworkMountRoot : Str := normpath (strip host.networkMountBasePath)

/-- `is_generated_network_mount_point`: one component below the managed root. -/
def isGeneratedNetworkMountPoint (path : Str) : Bool :=
  rstripSlashes host.managedNetworkMountRoot ++ ['/'] <+: normpath path ∧
    (comps (normpath path)).length = (comps host.managedNetworkMountRoot).length + 1

/-- The body of the loop over the mount table. -/
def sweepTarget (persistedTargets : List Str) (p : NetworkPass) (target : Str) : NetworkPass :=
  let normalized := normpath target
  if normalized ∈ persistedTargets ∨ host.isGeneratedNetworkMountPoint normalized = false then p
  else if host.orphan normalized then
    { p with
      calls := p.calls ++ [.unmount normalized]
      checked := p.checked + 1
      corrected := p.corrected + 1
      entries := p.entries ++ [⟨none, .mounted, .unmounted, .orphanManagedMountRemoved⟩] }
  else
    { p with
      calls := p.calls ++ [.unmount normalized]
      checked := p.checked + 1
      failures := p.failures + 1 }

/-- `reconcile_mounts` without a drive provider. -/
def reconcileMounts (shares : Table NetworkMount) (now : Nat) : NetworkPass :=
  let treated := Transition.exec (host.reconcileShare now) ⟨shares, [], 0, 0, 0, []⟩
    (shares.rows.map fun m => m.id)
  Transition.exec (host.sweepTarget (shares.rows.map NetworkMount.target)) treated
    (host.liveMounts.map Prod.fst)

end NetworkHost

end Ecube
