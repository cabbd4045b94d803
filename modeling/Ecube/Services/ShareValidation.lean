import Ecube.Services.Shares

/-!
The validation of a changed share (`validate_share` with `mount_data`).

The share is unmounted, mounted with the candidate's settings, and afterwards
set back. Every provider call is issued in a fixed order, so the replies of a
validation are given in advance: whether the call takes effect on the stack of
mounts and what it answers. The two need not agree; a mount that times out may
have succeeded.

The texts that are built from provider errors are not modelled.
-/

namespace Ecube

open PosixPath Table

/-! ### Credentials and mounts -/

inductive ValidationFailure where
  /-- 404 "Mount not found" -/
  | notFound
  /-- 409, see `ShareConflict.detail` -/
  | conflict (reason : ShareConflict)
  /-- 409 "Failed to unmount ..." -/
  | unmountFailed
  /-- 500 "Stored mount credentials could not be decrypted" -/
  | credentials
  /-- an exception of the provider -/
  | provider
  /-- 500 "Mount validation could not restore original mount state" -/
  | restoreFailed
  /-- 500 "Database error while saving mount validation" -/
  | database
  /-- 409, the error of the candidate -/
  | candidateFailed
  deriving DecidableEq, Repr

/-- The settings and functions a validation uses. -/
structure MountSettings where
  lower : Str → Str
  decrypt : Str → Option Str
  nfsClientVersion : Option Str

/-- `decrypt_mount_secret`. -/
def decryptMountSecret (cfg : MountSettings) (value : Option Str) :
    Except ValidationFailure (Option Str) :=
  match truthy value with
  | none => .ok none
  | some text => (orReject (cfg.decrypt text) .credentials).map some

/-- `_load_stored_mount_credentials`, or nothing when there are none. -/
def storedMountCredentials (cfg : MountSettings) (m : NetworkMount) :
    Except ValidationFailure Credentials := do
  let username ← decryptMountSecret cfg m.encrypted.username
  let password ← decryptMountSecret cfg m.encrypted.password
  let credentialsFile ← decryptMountSecret cfg m.encrypted.credentialsFile
  return ⟨username, password, credentialsFile⟩

/-- `_resolve_mount_operation_credentials`. -/
def resolveMountOperationCredentials (cfg : MountSettings) (m : NetworkMount) (data : ShareData) :
    Except ValidationFailure Credentials := do
  let stored ← storedMountCredentials cfg m
  return ⟨data.username.getD stored.username, data.password.getD stored.password,
    data.credentialsFile.getD stored.credentialsFile⟩

/-- A mount with the options it was made with. -/
structure Mounted where
  type : MountType
  remotePath : Str
  credentials : Credentials
  nfsClientVersion : Option Str
  deriving DecidableEq, Repr

/-- What `os_mount` mounts: NFS has a version and no credentials, and a
credentials file takes the place of user name and password. -/
def osMount (cfg : MountSettings) (mountType : MountType) (remotePath : Str)
    (credentials : Credentials) (nfsClientVersion : Option Str) : Mounted :=
  match mountType with
  | .nfs => ⟨.nfs, remotePath, ⟨none, none, none⟩,
      some (resolveNfsClientVersion cfg.nfsClientVersion nfsClientVersion)⟩
  | .smb =>
      match truthy credentials.credentialsFile with
      | some file => ⟨.smb, remotePath, ⟨none, none, some file⟩, none⟩
      | none => ⟨.smb, remotePath, ⟨credentials.username, credentials.password, none⟩, none⟩

/-! ### Replies -/

inductive Answer where
  | ok
  | failed (error : Option Str)
  | raised (error : Str)
  deriving DecidableEq, Repr

structure Reply where
  takesEffect : Bool
  answer : Answer
  deriving DecidableEq, Repr

/-- The replies of one validation, and whether the mount directory is ready. -/
structure ProviderReplies where
  original : Option Bool
  prepare : Reply
  directoryReady : Bool
  candidate : Reply
  current : Option Bool
  restoreUnmount : Reply
  restoreMount : Reply
  deriving DecidableEq, Repr

def Reply.unmount (reply : Reply) (stack : List Mounted) : List Mounted :=
  if reply.takesEffect then stack.tail else stack

def Reply.mount (reply : Reply) (m : Mounted) (stack : List Mounted) : List Mounted :=
  if reply.takesEffect then m :: stack else stack

/-- The error of an unmount, unless it says that nothing was mounted. -/
def unmountError (cfg : MountSettings) : Answer → Option Str
  | .ok => none
  | .failed error => reported ((truthy error).getD "umount failed".toList)
  | .raised error => reported ((truthy error).getD "umount failed".toList)
where
  reported (text : Str) : Option Str :=
    if "not mounted".toList <:+: cfg.lower text ∨ "no mount point".toList <:+: cfg.lower text then
      none
    else some text

/-! ### The validation -/

/-- `original_was_mounted`. -/
def originalWasMounted (m : NetworkMount) (replies : ProviderReplies) : Bool :=
  replies.original = some true ∨ m.status = .mounted

/-- `_prepare_mount_for_update`: only a share that is recorded as mounted is unmounted. -/
def prepareMountForUpdate (cfg : MountSettings) (m : NetworkMount) (reply : Reply)
    (stack : List Mounted) : List Mounted × Option ValidationFailure :=
  if m.status ≠ .mounted ∨ m.localMountPoint = [] then (stack, none)
  else (reply.unmount stack, (unmountError cfg reply.answer).map fun _ => .unmountFailed)

/-- The body of the `try`: the status of the candidate, or an exception. -/
def attemptCandidate (cfg : MountSettings) (m : NetworkMount) (data : ShareData)
    (replies : ProviderReplies) (stack : List Mounted) :
    List Mounted × Except ValidationFailure MountStatus :=
  let prepared := if originalWasMounted m replies then
      prepareMountForUpdate cfg m replies.prepare stack
    else (stack, none)
  match prepared.2 with
  | some failure => (prepared.1, .error failure)
  | none =>
      if replies.directoryReady = false then (prepared.1, .ok .error)
      else match resolveMountOperationCredentials cfg m data with
        | .error failure => (prepared.1, .error failure)
        | .ok credentials =>
            (replies.candidate.mount
                (osMount cfg data.type data.remotePath credentials m.nfsClientVersion) prepared.1,
              match replies.candidate.answer with
              | .ok => .ok .mounted
              | .failed _ => .ok .error
              | .raised _ => .error .provider)

/-- `_restore_mount_after_candidate_validation`: nothing, an error text, or an
exception. The mount is made without an NFS version. -/
def restoreMountAfterCandidateValidation (cfg : MountSettings) (m : NetworkMount)
    (replies : ProviderReplies) (stack : List Mounted) :
    List Mounted × Except ValidationFailure (Option Str) :=
  let unmounted := if replies.current = some true then
      (replies.restoreUnmount.unmount stack, unmountError cfg replies.restoreUnmount.answer)
    else (stack, none)
  match unmounted.2 with
  | some error => (unmounted.1, .ok (some error))
  | none =>
      if originalWasMounted m replies = false then (unmounted.1, .ok none)
      else match storedMountCredentials cfg m with
        | .error failure => (unmounted.1, .error failure)
        | .ok credentials =>
            (replies.restoreMount.mount (osMount cfg m.type m.remotePath credentials none)
                unmounted.1,
              match replies.restoreMount.answer with
              | .ok => .ok none
              | .failed error => .ok (some ((truthy error).getD
                  "Failed to restore original mount state".toList))
              | .raised _ => .error .provider)

/-- What a validation leaves and how it ends. -/
structure Validated where
  stack : List Mounted
  shares : Table NetworkMount
  outcome : Except ValidationFailure Unit

def checkedMount (now : Nat) (m : NetworkMount) : NetworkMount :=
  { m with lastCheckedAt := some now }

theorem checkedMount_id (now : Nat) (m : NetworkMount) : (checkedMount now m).id = m.id := rfl

/-- `validate_share` with `mount_data`. -/
def validateShare (cfg : MountSettings) (shares : Table NetworkMount) (mountId : Nat)
    (data : ShareData) (replies : ProviderReplies) (saves : Bool) (now : Nat)
    (stack : List Mounted) : Validated :=
  match shares.get mountId with
  | none => ⟨stack, shares, .error .notFound⟩
  | some m =>
      match validateRemotePathConflicts cfg.lower data.type data.remotePath data.projectId
          (some mountId) shares.rows with
      | .error reason => ⟨stack, shares, .error (.conflict reason)⟩
      | .ok () =>
          let attempted := attemptCandidate cfg m data replies stack
          -- `finally`: an exception of the restore replaces one of the attempt.
          let restored := restoreMountAfterCandidateValidation cfg m replies attempted.1
          match restored.2, attempted.2 with
          | .error failure, _ => ⟨restored.1, shares, .error failure⟩
          | .ok _, .error failure => ⟨restored.1, shares, .error failure⟩
          | .ok (some _), .ok _ => ⟨restored.1, shares, .error .restoreFailed⟩
          | .ok none, .ok status =>
              if saves = false then ⟨restored.1, shares, .error .database⟩
              else ⟨restored.1, shares.modify mountId (checkedMount now) (checkedMount_id now),
                if status = .mounted then .ok () else .error .candidateFailed⟩

end Ecube
