import Ecube.Lifecycle
import Ecube.Services.ShareValidation

/-!
A validation and the mounts below it.

A validation makes at most four changes to the stack of mounts: it unmounts the
share, mounts the candidate, unmounts what it then finds and mounts the share
again. `leave_eq_iff` says when four such changes cancel out. Which of them
happen is read off the row, the request and the replies (`effects`), so that
`validateShare_restores_iff` is exact: a validation restores the mounts iff it
says that it could not, or its changes cancel out.

They do not for every working provider: the share is mounted again without its
NFS version (`validateShare_drops_version`).
-/

namespace Ecube.MountRestored

open PosixPath Table

/-! ### Changes that cancel out -/

def popIf (happens : Bool) (stack : List Mounted) : List Mounted :=
  if happens then stack.tail else stack

def pushIf (happens : Bool) (m : Mounted) (stack : List Mounted) : List Mounted :=
  if happens then m :: stack else stack

/-- The changes that happen, in their order. -/
structure Effects where
  unmounted : Bool
  candidate : Bool
  popped : Bool
  restored : Bool
  deriving DecidableEq, Repr

namespace Effects

/-- The stack the changes leave. -/
def leave (e : Effects) (original candidate : Mounted) (stack : List Mounted) : List Mounted :=
  pushIf e.restored original
    (popIf e.popped (pushIf e.candidate candidate (popIf e.unmounted stack)))

def Cancels (e : Effects) (original candidate : Mounted) : List Mounted → Prop
  | [] => e.restored = false ∧ (e.candidate → e.popped)
  | top :: below =>
      match e.candidate, e.popped with
      -- The candidate stays.
      | true, false => e.unmounted ∧ e.restored = false ∧ candidate = top
      -- A mount of the share is removed in place of the candidate.
      | false, true => e.restored ∧ original = top ∧ (e.unmounted → below = [])
      | true, true | false, false => e.restored = e.unmounted ∧ (e.unmounted → original = top)

theorem leave_eq_iff {e : Effects} {original candidate : Mounted} {stack : List Mounted} :
    e.leave original candidate stack = stack ↔ e.Cancels original candidate stack := by
  have tail_ne : ∀ (top : Mounted) (below : List Mounted), below.tail ≠ top :: below := by
    intro top below h
    have := congrArg List.length h
    simp at this
  have grown_ne : ∀ (a top : Mounted) (below : List Mounted), a :: top :: below ≠ below := by
    intro a top below h
    have := congrArg List.length h
    simp only [List.length_cons] at this
    omega
  have tail_eq : ∀ below : List Mounted, below.tail = below ↔ below = [] := by
    intro below
    cases below with
    | nil => simp
    | cons top rest => simp
  obtain ⟨unmounted, candidates, popped, restored⟩ := e
  cases stack with
  | nil =>
      cases candidates <;> cases popped <;> cases restored <;>
        simp [leave, popIf, pushIf, Cancels]
  | cons top below =>
      cases unmounted <;> cases candidates <;> cases popped <;> cases restored <;>
        simp [leave, popIf, pushIf, Cancels, tail_ne, grown_ne, tail_eq]

end Effects

/-! ### What a validation does -/

section Effects

variable (cfg : MountSettings) (m : NetworkMount) (data : ShareData) (replies : ProviderReplies)

/-- The share is unmounted first. -/
def unmountsFirst : Bool := m.status = .mounted ∧ m.localMountPoint ≠ []

/-- The share is out of the way, or was never in it. -/
def prepares : Bool := unmountsFirst m → (unmountError cfg replies.prepare.answer).isNone

/-- The candidate's mount is issued. -/
def mountsCandidate : Bool :=
  prepares cfg m replies ∧ replies.directoryReady ∧
    (resolveMountOperationCredentials cfg m data).isOk

/-- The attempt ends with an exception. -/
def attemptRaises : Bool :=
  prepares cfg m replies = false ∨
    (replies.directoryReady ∧ (resolveMountOperationCredentials cfg m data).isOk = false) ∨
    (mountsCandidate cfg m data replies ∧ replies.candidate.answer matches .raised _)

/-- Nothing is in the way of the restore. -/
def clears : Bool :=
  replies.current = some true → (unmountError cfg replies.restoreUnmount.answer).isNone

/-- The mount that is to restore the share is issued. -/
def remounts : Bool :=
  clears cfg replies ∧ originalWasMounted m replies ∧ (storedMountCredentials cfg m).isOk

def effects : Effects where
  unmounted := unmountsFirst m && replies.prepare.takesEffect
  candidate := mountsCandidate cfg m data replies && replies.candidate.takesEffect
  popped := replies.current = some true ∧ replies.restoreUnmount.takesEffect
  restored := remounts cfg m replies && replies.restoreMount.takesEffect

/-- The restore ends with an error text. -/
def restoreFails : Bool :=
  clears cfg replies = false ∨
    (remounts cfg m replies ∧ replies.restoreMount.answer matches .failed _)

/-- The restore ends with an error text that no exception of the attempt hides. -/
def restoreReported : Bool :=
  attemptRaises cfg m data replies = false ∧ restoreFails cfg m replies

def noCredentials : Credentials := ⟨none, none, none⟩

/-- The share as the restore mounts it. -/
def restoredMount : Mounted :=
  osMount cfg m.type m.remotePath ((storedMountCredentials cfg m).toOption.getD noCredentials) none

def candidateMount : Mounted :=
  osMount cfg data.type data.remotePath
    ((resolveMountOperationCredentials cfg m data).toOption.getD noCredentials) m.nfsClientVersion

end Effects

section Specs

variable {cfg : MountSettings} {m : NetworkMount} {data : ShareData} {replies : ProviderReplies}
  {stack : List Mounted}

theorem prepared_eq :
    (if originalWasMounted m replies then prepareMountForUpdate cfg m replies.prepare stack
      else (stack, none)) =
      (popIf (effects cfg m data replies).unmounted stack,
        if prepares cfg m replies then none else some .unmountFailed) := by
  by_cases first : m.status = .mounted ∧ m.localMountPoint ≠ []
  · have first' : unmountsFirst m = true := by simpa [unmountsFirst] using first
    have was : originalWasMounted m replies = true := by simp [originalWasMounted, first.1]
    rw [if_pos was, prepareMountForUpdate, if_neg (by simpa using first)]
    cases error : unmountError cfg replies.prepare.answer with
    | none => simp [effects, prepares, first', error, popIf, Reply.unmount]
    | some text => simp [effects, prepares, first', error, popIf, Reply.unmount]
  · have first' : unmountsFirst m = false := by simpa [unmountsFirst] using first
    have skip : prepareMountForUpdate cfg m replies.prepare stack = (stack, none) :=
      if_pos (by rwa [not_and_or, not_not] at first)
    simp [effects, prepares, first', skip, popIf]

theorem attemptCandidate_stack :
    (attemptCandidate cfg m data replies stack).1 =
      pushIf (effects cfg m data replies).candidate (candidateMount cfg m data)
        (popIf (effects cfg m data replies).unmounted stack) := by
  rw [attemptCandidate, @prepared_eq cfg m data replies stack]
  cases ready : prepares cfg m replies with
  | false => simp [effects, mountsCandidate, ready, pushIf]
  | true =>
      cases directory : replies.directoryReady with
      | false => simp [effects, mountsCandidate, directory, pushIf]
      | true =>
          cases resolved : resolveMountOperationCredentials cfg m data with
          | error failure => simp [effects, mountsCandidate, resolved, pushIf, Except.toBool]
          | ok credentials =>
              simp [effects, mountsCandidate, candidateMount, ready, directory, resolved, pushIf,
                Reply.mount, Except.toBool, Except.toOption]

theorem decryptMountSecret_ne {value : Option Str} :
    decryptMountSecret cfg value ≠ .error .restoreFailed := by
  rw [decryptMountSecret]
  split
  · simp
  · rename_i text _
    cases cfg.decrypt text with
    | none => simp [orReject, Except.map]
    | some plain => simp [orReject, Except.map]

theorem storedMountCredentials_ne : storedMountCredentials cfg m ≠ .error .restoreFailed := by
  intro h
  simp only [storedMountCredentials, bind_eq_error] at h
  rcases h with h | ⟨_, -, h | ⟨_, -, h | ⟨_, -, h⟩⟩⟩
  · exact decryptMountSecret_ne h
  · exact decryptMountSecret_ne h
  · exact decryptMountSecret_ne h
  · cases h

theorem resolveMountOperationCredentials_ne :
    resolveMountOperationCredentials cfg m data ≠ .error .restoreFailed := by
  intro h
  rw [resolveMountOperationCredentials, bind_eq_error] at h
  rcases h with h | ⟨_, -, h⟩
  · exact storedMountCredentials_ne h
  · cases h

/-- The attempt raises, but never the error of the restore, or it has a status. -/
theorem attemptCandidate_outcome :
    (attemptRaises cfg m data replies = true ∧
      ∃ failure ≠ .restoreFailed, (attemptCandidate cfg m data replies stack).2 = .error failure) ∨
    (attemptRaises cfg m data replies = false ∧
      ∃ status, (attemptCandidate cfg m data replies stack).2 = .ok status) := by
  rw [attemptCandidate, @prepared_eq cfg m data replies stack]
  cases ready : prepares cfg m replies with
  | false => simp [attemptRaises, ready]
  | true =>
      cases directory : replies.directoryReady with
      | false => simp [attemptRaises, mountsCandidate, ready, directory]
      | true =>
          cases resolved : resolveMountOperationCredentials cfg m data with
          | error failure =>
              have ne : failure ≠ .restoreFailed :=
                fun h => resolveMountOperationCredentials_ne (h ▸ resolved)
              simp [attemptRaises, mountsCandidate, ready, directory, resolved, Except.toBool, ne]
          | ok credentials =>
              cases answer : replies.candidate.answer <;>
                simp [attemptRaises, mountsCandidate, ready, directory, resolved, answer,
                  Except.toBool]

theorem cleared_eq :
    ∃ error, (if replies.current = some true then
        (replies.restoreUnmount.unmount stack, unmountError cfg replies.restoreUnmount.answer)
      else (stack, none)) =
        (popIf (replies.current = some true ∧ replies.restoreUnmount.takesEffect) stack, error) ∧
      clears cfg replies = error.isNone := by
  by_cases current : replies.current = some true
  · refine ⟨unmountError cfg replies.restoreUnmount.answer, ?_, ?_⟩
    · simp [current, popIf, Reply.unmount]
    · cases error : unmountError cfg replies.restoreUnmount.answer <;> simp [clears, current, error]
  · exact ⟨none, by simp [current, popIf], by simp [clears, current]⟩

theorem restoreMountAfterCandidateValidation_stack :
    (restoreMountAfterCandidateValidation cfg m replies stack).1 =
      pushIf (effects cfg m data replies).restored (restoredMount cfg m)
        (popIf (effects cfg m data replies).popped stack) := by
  obtain ⟨error, cleared, clear⟩ := @cleared_eq cfg replies stack
  rw [restoreMountAfterCandidateValidation, cleared]
  cases error with
  | some text => simp [effects, remounts, clear, pushIf]
  | none =>
      cases was : originalWasMounted m replies with
      | false => simp [effects, remounts, was, pushIf]
      | true =>
          cases stored : storedMountCredentials cfg m with
          | error failure => simp [effects, remounts, stored, pushIf, Except.toBool]
          | ok credentials =>
              simp [effects, remounts, restoredMount, clear, was, stored, pushIf, Reply.mount,
                Except.toBool, Except.toOption]

/-- The restore raises, but not its own error, or it ends with a text or without one. -/
theorem restoreMountAfterCandidateValidation_outcome :
    (restoreFails cfg m replies = false ∧ ∃ failure ≠ .restoreFailed,
      (restoreMountAfterCandidateValidation cfg m replies stack).2 = .error failure) ∨
    (∃ error, (restoreMountAfterCandidateValidation cfg m replies stack).2 = .ok error ∧
      restoreFails cfg m replies = error.isSome) := by
  obtain ⟨error, cleared, clear⟩ := @cleared_eq cfg replies stack
  rw [restoreMountAfterCandidateValidation, cleared]
  cases error with
  | some text => simp [restoreFails, clear]
  | none =>
      cases was : originalWasMounted m replies with
      | false => simp [restoreFails, remounts, clear, was]
      | true =>
          cases stored : storedMountCredentials cfg m with
          | error failure =>
              have ne : failure ≠ .restoreFailed := fun h => storedMountCredentials_ne (h ▸ stored)
              simp [restoreFails, remounts, clear, stored, Except.toBool, ne]
          | ok credentials =>
              cases answer : replies.restoreMount.answer <;>
                simp [restoreFails, remounts, clear, was, stored, answer, Except.toBool]

end Specs

/-! ### The mounts after a validation -/

/-- The row without the time of its last check. -/
def unchecked (m : NetworkMount) : NetworkMount := { m with lastCheckedAt := none }

/-- Unless the validation says that it could not restore the mounts, they are
the same as before, and no row has changed but for the time of its check. -/
def Restores (shares : Table NetworkMount) (stack : List Mounted) (v : Validated) : Prop :=
  v.outcome ≠ .error .restoreFailed →
    v.stack = stack ∧ ∀ id, (v.shares.get id).map unchecked = (shares.get id).map unchecked

section Validation

variable {cfg : MountSettings} {shares : Table NetworkMount} {mountId now : Nat} {data : ShareData}
  {replies : ProviderReplies} {saves : Bool} {stack : List Mounted} {m : NetworkMount}

theorem get_checkedMount (id : Nat) :
    ((shares.modify mountId (checkedMount now) (checkedMount_id now)).get id).map unchecked =
      (shares.get id).map unchecked := by
  by_cases same : id = mountId
  · rw [same, get_modify, Option.map_map]
    rfl
  · rw [get_modify_of_ne _ same]

/-- A validation that is not refused: its stack, its outcome and its rows. -/
theorem validateShare_of_accepted (found : shares.get mountId = some m)
    (free : validateRemotePathConflicts cfg.lower data.type data.remotePath data.projectId
      (some mountId) shares.rows = .ok ()) :
    let v := validateShare cfg shares mountId data replies saves now stack
    v.stack = (effects cfg m data replies).leave (restoredMount cfg m) (candidateMount cfg m data)
        stack ∧
      (v.outcome = .error .restoreFailed ↔ restoreReported cfg m data replies = true) ∧
      ∀ id, (v.shares.get id).map unchecked = (shares.get id).map unchecked := by
  set attempted := attemptCandidate cfg m data replies stack with attempt
  set restored := restoreMountAfterCandidateValidation cfg m replies attempted.1 with restore
  have left : restored.1 = (effects cfg m data replies).leave (restoredMount cfg m)
      (candidateMount cfg m data) stack := by
    rw [restore, @restoreMountAfterCandidateValidation_stack cfg m data, attempt,
      attemptCandidate_stack]
    rfl
  simp only [validateShare, found, free, ← attempt, ← restore]
  rcases @restoreMountAfterCandidateValidation_outcome cfg m replies attempted.1 with
    ⟨fails, failure, ne, raised⟩ | ⟨error, ended, fails⟩
  · rw [← restore] at raised
    simp [raised, left, ne, restoreReported, fails]
  · rw [← restore] at ended
    rcases @attemptCandidate_outcome cfg m data replies stack with
      ⟨raises, failure, ne, raised⟩ | ⟨raises, status, known⟩
    · rw [← attempt] at raised
      simp [ended, raised, left, ne, restoreReported, raises]
    · rw [← attempt] at known
      cases error with
      | some text => simp [ended, known, left, restoreReported, raises, fails]
      | none =>
          cases saves with
          | false => simp [ended, known, left, restoreReported, fails]
          | true =>
              have other : (if status = .mounted then .ok () else .error .candidateFailed) ≠
                  (.error .restoreFailed : Except ValidationFailure Unit) := by
                split <;> simp
              simp only [ended, known, left, restoreReported, fails, Bool.true_eq_false, if_false]
              exact ⟨trivial, by simp [other], get_checkedMount⟩

/-- Every call succeeds. -/
def working : ProviderReplies :=
  ⟨some true, ⟨true, .ok⟩, true, ⟨true, .ok⟩, some true, ⟨true, .ok⟩, ⟨true, .ok⟩⟩

/-- A share that is recorded and mounted is restored by a working provider
exactly if the mount does not depend on its NFS version. -/
theorem restores_working_iff {credentials resolved : Credentials} {below : List Mounted}
    (found : shares.get mountId = some m)
    (free : validateRemotePathConflicts cfg.lower data.type data.remotePath data.projectId
      (some mountId) shares.rows = .ok ())
    (recorded : m.status = .mounted) (place : m.localMountPoint ≠ [])
    (stored : storedMountCredentials cfg m = .ok credentials)
    (given : resolveMountOperationCredentials cfg m data = .ok resolved) :
    let mounted := osMount cfg m.type m.remotePath credentials m.nfsClientVersion
    Restores shares (mounted :: below)
        (validateShare cfg shares mountId data working saves now (mounted :: below)) ↔
      osMount cfg m.type m.remotePath credentials none = mounted := by
  intro mounted
  obtain ⟨left, reported, rows⟩ := @validateShare_of_accepted cfg shares mountId now data working
    saves (mounted :: below) m found free
  have silent : restoreReported cfg m data working = false := by
    simp [restoreReported, restoreFails, clears, working, unmountError]
  have all : effects cfg m data working = ⟨true, true, true, true⟩ := by
    simp [effects, unmountsFirst, mountsCandidate, prepares, remounts, clears, originalWasMounted,
      unmountError, working, recorded, place, stored, given, Except.toBool]
  have again : restoredMount cfg m = osMount cfg m.type m.remotePath credentials none := by
    rw [restoredMount, stored]
    rfl
  have accepted := fun h => Bool.false_ne_true (silent.symm.trans (reported.mp h))
  rw [all, again] at left
  constructor
  · intro restores
    exact (List.cons.inj (left.symm.trans (restores accepted).1)).1
  · intro same _
    refine ⟨left.trans ?_, rows⟩
    rw [same]
    rfl

theorem validateShare_restores_iff :
    Restores shares stack (validateShare cfg shares mountId data replies saves now stack) ↔
      ∀ m, shares.get mountId = some m →
        validateRemotePathConflicts cfg.lower data.type data.remotePath data.projectId
          (some mountId) shares.rows = .ok () →
        restoreReported cfg m data replies = true ∨
          (effects cfg m data replies).Cancels (restoredMount cfg m) (candidateMount cfg m data)
            stack := by
  constructor
  · intro restores m found free
    obtain ⟨left, reported, -⟩ := @validateShare_of_accepted cfg shares mountId now data replies
      saves stack m found free
    by_cases said : restoreReported cfg m data replies = true
    · exact .inl said
    · have same := (restores fun h => said (reported.mp h)).1
      exact .inr (Effects.leave_eq_iff.mp (left.symm.trans same))
  · intro cancels said
    cases found : shares.get mountId with
    | none => simp [validateShare, found]
    | some m =>
        cases free : validateRemotePathConflicts cfg.lower data.type data.remotePath data.projectId
            (some mountId) shares.rows with
        | error reason => simp [validateShare, found, free]
        | ok accepted =>
            obtain ⟨left, reported, rows⟩ := @validateShare_of_accepted cfg shares mountId now data
              replies saves stack m found free
            rcases cancels m found free with h | h
            · exact absurd (reported.mpr h) said
            · exact ⟨left.trans (Effects.leave_eq_iff.mpr h), rows⟩

end Validation

/-! ### A share of another NFS version -/

/-- An installation without secrets. -/
def settings : MountSettings := ⟨List.map Char.toLower, fun _ => none, none⟩

/-- A mounted share of version 3. -/
def evidence : NetworkMount where
  id := 1
  projectId := Lab.projectP
  localMountPoint := "/nfs/evidence".toList
  status := .mounted
  type := .nfs
  remotePath := "server:/evidence".toList
  nfsClientVersion := some "3".toList
  encrypted := noCredentials
  lastCheckedAt := none

def shares : Table NetworkMount := ⟨[evidence], 1, by decide, by decide⟩

/-- The share is to be moved. -/
def moved : ShareData :=
  ⟨.nfs, "server:/archive".toList, Lab.projectP, some "3".toList, none, none, none⟩

/-- The validation succeeds, and the share is mounted with the default version. -/
theorem validateShare_drops_version :
    ¬ ∀ (cfg : MountSettings) (shares : Table NetworkMount) (mountId : Nat) (data : ShareData)
        (replies : ProviderReplies) (saves : Bool) (now : Nat) (stack : List Mounted),
        Restores shares stack (validateShare cfg shares mountId data replies saves now stack) := by
  intro restores
  have kept := restores settings shares 1 moved working true 5
    [osMount settings .nfs evidence.remotePath noCredentials evidence.nfsClientVersion]
  have accepted : (validateShare settings shares 1 moved working true 5
      [osMount settings .nfs evidence.remotePath noCredentials evidence.nfsClientVersion]).outcome ≠
      .error .restoreFailed := by
    decide
  exact absurd (kept accepted).1 (by decide)

end Ecube.MountRestored
