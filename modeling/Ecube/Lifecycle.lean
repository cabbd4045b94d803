import Ecube.Basic.Transition
import Ecube.Services.CopyEngine
import Ecube.Services.DriveService
import Ecube.Services.Preparation

/-!
The export workflow as a transition system.

An action is one transaction that changes jobs, assignments, drives or files: a
request to the job or drive service, the completion of a drive format, or a
transaction of a copy or verification run. Operating-system answers and the
clock are part of the action. A refused request leaves what it has committed.

In `step`, transactions of a copy run happen only while the job is in the copy
phase, and those of a verification only while it is verifying. The code does not
look at the status before each of them: `unguardedStep` performs them whatever
the status is, and `Attends` says that a run finds its job in a status it works
on. How a run that has lost its job behaves is the subject of
`Ecube.Interleaving.CopyRun`.
-/

namespace Ecube

inductive Event where
  | createJob (body : JobBody) (seededJobId : Option Nat)
  | updateJob (jobId : Nat) (body : JobBody)
  | deleteJob (jobId : Nat)
  | startJob (jobId : Nat) (threadCount : Option Nat)
  | retryFailedFiles (jobId : Nat)
  | continueJobOverflow (jobId driveId : Nat) (threadCount : Option Nat)
  | pauseJob (jobId : Nat)
  | completeJob (jobId : Nat)
  | verifyJob (jobId : Nat)
  | archiveJob (jobId : Nat) (confirm : Bool)
  | initializeDrive (driveId : Nat) (projectId : ProjectId)
  | mountDrive (driveId : Nat) (result : MountResult)
  | prepareEject (driveId : Nat) (confirmIncomplete : Bool) (result : EjectResult)
  | requestDriveFormat (driveId : Nat) (isMounted : Bool)
  | completeDriveFormat (driveId : Nat) (filesystemType : String) (isMounted : Bool)
      (failure : Option String)
  | startupAnalysis (jobId : Nat) (analysis : StartupAnalysis)
  | enterRunning (jobId : Nat)
  | listFile (jobId : Nat) (relativePath : Str) (sizeBytes : Nat)
  | recordFile (jobId fileId : Nat) (status : FileStatus) (errorMessage : Option String)
  | resolveTargetFull (jobId : Nat) (probe : Str → Option Nat)
  | finalizeRun (jobId : Nat) (pauseRequested targetFullFailed : Bool)
  | failRun (jobId : Nat) (reason : String)
  | finishVerify (jobId : Nat) (anyMismatch : Bool)

/-- The statuses of a job that a copy run works on. -/
def copyingStatuses : List JobStatus := [.preparing, .running, .pausing]

/-- A transaction of a background run, performed while the job is in one of the statuses. -/
def whileIn (s : Db) (jobId : Nat) (statuses : List JobStatus) (next : Db) : Db :=
  if (s.jobs.get jobId).any fun j => j.status ∈ statuses then next else s

/-- The outcome of one file, recorded for the active assignment. -/
def recordFile (s : Db) (jobId fileId : Nat) (status : FileStatus) (errorMessage : Option String) :
    Db :=
  s.updateFiles (fun f => f.id = fileId ∧ f.jobId = jobId) (fun f => { f with
    status := status
    errorMessage := errorMessage
    driveAssignmentId := (s.getActiveForJob jobId).map DriveAssignment.id }) fun _ => rfl

/-- One transaction at time `now`. -/
def perform (cfg : Settings) (s : Db) (now : Nat) : Event → Except Reject Db
  | .createJob body seeded => createJob cfg s body seeded now
  | .updateJob jobId body => updateJob cfg s jobId body now
  | .deleteJob jobId => deleteJob s jobId
  | .startJob jobId threadCount => startJob cfg s jobId threadCount now
  | .retryFailedFiles jobId => retryFailedFiles cfg s jobId now
  | .continueJobOverflow jobId driveId threadCount =>
      continueJobOverflow cfg s jobId driveId threadCount now
  | .pauseJob jobId => pauseJob s jobId
  | .completeJob jobId => completeJob s jobId now
  | .verifyJob jobId => verifyJob s jobId
  | .archiveJob jobId confirm => archiveJob s jobId confirm
  | .initializeDrive driveId projectId => initializeDrive s driveId projectId
  | .mountDrive driveId result => mountDrive cfg s driveId result
  | .prepareEject driveId confirmIncomplete result => prepareEject s driveId confirmIncomplete result
  | .requestDriveFormat driveId isMounted => requestDriveFormat s driveId isMounted
  | .completeDriveFormat driveId filesystemType isMounted failure =>
      .ok (completeDriveFormat s driveId filesystemType isMounted failure)
  | .startupAnalysis jobId analysis =>
      .ok (s.modifyJob jobId (fun j => { j with startupAnalysis := analysis }) fun _ => rfl)
  | .enterRunning jobId =>
      .ok (whileIn s jobId [.preparing, .running] (enterRunning s jobId now))
  | .listFile jobId relativePath sizeBytes =>
      .ok (whileIn s jobId copyingStatuses (persistFile s jobId relativePath sizeBytes))
  | .recordFile jobId fileId status errorMessage =>
      .ok (whileIn s jobId (.verifying :: copyingStatuses)
        (recordFile s jobId fileId status errorMessage))
  | .resolveTargetFull jobId probe =>
      .ok (whileIn s jobId copyingStatuses (resolveTargetFullOutcome s jobId probe now).2)
  | .finalizeRun jobId pauseRequested targetFullFailed =>
      .ok (whileIn s jobId copyingStatuses
        (finalizeRun s jobId pauseRequested targetFullFailed now))
  | .failRun jobId reason => .ok (whileIn s jobId copyingStatuses (failRun s jobId reason now))
  | .finishVerify jobId anyMismatch =>
      .ok (whileIn s jobId [.verifying] (finishVerify s jobId anyMismatch now))

/-- An event at a time. -/
structure Action where
  now : Nat
  event : Event

/-- The database after a request, whether it was accepted or refused. -/
def settle : Except Reject Db → Db
  | .ok s => s
  | .error r => r.committed

def step (cfg : Settings) (s : Db) (a : Action) : Db := settle (perform cfg s a.now a.event)

/-- The request of the action is accepted in `s`. -/
def Accepted (cfg : Settings) (s : Db) (a : Action) : Prop :=
  ∃ s', perform cfg s a.now a.event = .ok s'

instance (cfg : Settings) (s : Db) (a : Action) : Decidable (Accepted cfg s a) :=
  match h : perform cfg s a.now a.event with
  | .ok s' => .isTrue ⟨s', h⟩
  | .error _ => .isFalse fun ⟨s', h'⟩ => by cases h.symm.trans h'

/-- The job of a transaction of a background run, and the statuses that the run works on. -/
def Event.run : Event → Option (Nat × List JobStatus)
  | .enterRunning jobId => some (jobId, [.preparing, .running])
  | .listFile jobId _ _ => some (jobId, copyingStatuses)
  | .recordFile jobId _ _ _ => some (jobId, .verifying :: copyingStatuses)
  | .resolveTargetFull jobId _ => some (jobId, copyingStatuses)
  | .finalizeRun jobId _ _ => some (jobId, copyingStatuses)
  | .failRun jobId _ => some (jobId, copyingStatuses)
  | .finishVerify jobId _ => some (jobId, [.verifying])
  | _ => none

/-- What a transaction of a background run writes. -/
def runWrites (s : Db) (now : Nat) : Event → Db
  | .enterRunning jobId => enterRunning s jobId now
  | .listFile jobId relativePath sizeBytes => persistFile s jobId relativePath sizeBytes
  | .recordFile jobId fileId status errorMessage => recordFile s jobId fileId status errorMessage
  | .resolveTargetFull jobId probe => (resolveTargetFullOutcome s jobId probe now).2
  | .finalizeRun jobId pauseRequested targetFullFailed =>
      finalizeRun s jobId pauseRequested targetFullFailed now
  | .failRun jobId reason => failRun s jobId reason now
  | .finishVerify jobId anyMismatch => finishVerify s jobId anyMismatch now
  | _ => s

/-- An action; the transactions of a run are performed whatever the status of the job. -/
def unguardedStep (cfg : Settings) (s : Db) (a : Action) : Db :=
  if a.event.run.isSome then runWrites s a.now a.event else step cfg s a

/-- A transaction of a run of job `k` finds the job in a status that the run works on. -/
def Attends (k : Nat) (s : Db) (a : Action) : Prop :=
  ∀ r ∈ a.event.run, r.1 = k → ∃ j ∈ s.jobs.get k, j.status ∈ r.2

instance (k : Nat) (s : Db) (a : Action) : Decidable (Attends k s a) :=
  inferInstanceAs (Decidable (∀ r ∈ a.event.run, r.1 = k → ∃ j ∈ s.jobs.get k, j.status ∈ r.2))

theorem unguardedStep_of_run {cfg : Settings} {s : Db} {a : Action} {r : Nat × List JobStatus}
    (run : a.event.run = some r) : unguardedStep cfg s a = runWrites s a.now a.event := by
  rw [unguardedStep, run]
  rfl

theorem unguardedStep_of_none {cfg : Settings} {s : Db} {a : Action} (request : a.event.run = none) :
    unguardedStep cfg s a = step cfg s a := by
  rw [unguardedStep, request]
  rfl

/-- No job has been created yet. Drives and shares are arbitrary. -/
structure Initial (s : Db) : Prop where
  noJobs : ∀ j, j ∉ s.jobs
  noAssignments : ∀ a, a ∉ s.assignments
  noFiles : ∀ f, f ∉ s.files

/-- A property of the database after an action, from what acceptance gives and
what refusal leaves. -/
theorem step_rule {cfg : Settings} {s : Db} {a : Action} {P : Db → Prop}
    (accepted : ∀ s', perform cfg s a.now a.event = .ok s' → P s')
    (refused : Leaves P (perform cfg s a.now a.event)) : P (step cfg s a) := by
  rw [step]
  cases h : perform cfg s a.now a.event with
  | ok s' => exact accepted s' h
  | error r => exact refused r h

/-! ### A small installation

Two projects with a mounted share each, and drives mounted below `/mnt/ecube`.
The concrete runs of the following modules start here. -/

namespace Lab

def settings : Settings := ⟨"/mnt/ecube".toList⟩

def projectP : ProjectId := ⟨"P".toList, by decide⟩

def projectQ : ProjectId := ⟨"Q".toList, by decide⟩

/-- A formatted drive, mounted at its mount point. -/
def drive (k : Nat) (state : DriveState) (project : Option ProjectId) : UsbDrive where
  id := k
  filesystemPath := some "/dev/sdb".toList
  filesystemType := some "ext4"
  availableBytes := none
  currentState := state
  currentProjectId := project
  mountPath := some (mountPoint settings k)
  formatStatus := none
  formatFailureMessage := none

/-- No jobs, drives 1 to 3 bound to `P` and a share for each project. -/
def start : Db where
  jobs := .empty
  files := .empty
  assignments := .empty
  drives := ⟨[drive 1 .inUse projectP, drive 2 .inUse projectP, drive 3 .inUse projectP], 3,
    by decide, by decide⟩
  shares := ⟨[⟨1, projectP, "/nfs/p".toList, .mounted⟩, ⟨2, projectQ, "/nfs/q".toList, .mounted⟩], 2,
    by decide, by decide⟩

theorem start_initial : Initial start where
  noJobs _ := List.not_mem_nil
  noAssignments _ := List.not_mem_nil
  noFiles _ := List.not_mem_nil

/-- A job of `P` with the given source, primary drive and at most one overflow drive. -/
def body (source : String) (driveId overflow : Option Nat) : JobBody where
  projectId := projectP
  evidenceNumber := "E1"
  sourcePath := source.toList
  mountId := none
  driveId := driveId
  overflowDriveIds := overflow.toList
  threadCount := none
  copyChunkSizeBytes := none
  copyProgressFlushBytes := none
  copyFileFsyncEnabled := none
  maxFileRetries := 3
  retryDelaySeconds := 1
  callbackUrl := none
  unique := by cases overflow <;> simp

end Lab

end Ecube
