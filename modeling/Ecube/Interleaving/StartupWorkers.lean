import Ecube.Interleaving.ReconciliationLock
import Ecube.Invariants.Listing
import Ecube.Invariants.Recovered

/-!
Startup reconciliation beside other workers.

A worker that starts takes the reconciliation lock, reads the lists of
`reconcile_jobs`, commits the recovery and then serves requests. An accepted
start, retry, continuation or verification leaves a task to the worker that
served it, and the tasks of a worker end with it. Workers start and die at any
time.

`spared_of_guarded`: the recovery spares every job that a live worker copies, in
each run in which no list that is read names a job with a task in a live worker,
and in which the lock excludes. Nothing else protects these jobs: the lists are
taken by status alone, so that a worker which starts late fails the jobs of the
others (`late_worker_fails_job`).
-/

namespace Ecube

open Table Transition

/-! ### Jobs that wait for their recovery -/

/-- The job a background transaction belongs to. -/
def runOf : Event → Option Nat
  | .enterRunning jobId | .listFile jobId _ _ | .recordFile jobId _ _ _
  | .resolveTargetFull jobId _ | .finalizeRun jobId _ _ | .failRun jobId _
  | .finishVerify jobId _ => some jobId
  | _ => none

/-- The job that has a status the recovery looks for. -/
def Waiting (k : Nat) (s : Db) : Prop :=
  ∃ j, s.jobs.get k = some j ∧ j.status ∈ recoveryStatuses

namespace Waiting

variable {cfg : Settings} {s t : Db} {k : Nat}

theorem of_jobs (h : Waiting k s) (same : t.jobs = s.jobs) : Waiting k t := by
  rwa [Waiting, same]

theorem modifyJob {k' : Nat} {f : ExportJob → ExportJob} {key : ∀ r, (f r).id = r.id}
    (h : Waiting k s)
    (own : k' = k → ∀ j, s.jobs.get k = some j → j.status ∈ recoveryStatuses →
      (f j).status ∈ recoveryStatuses) : Waiting k (s.modifyJob k' f key) := by
  obtain ⟨j, found, status⟩ := h
  by_cases same : k' = k
  · subst same
    refine ⟨f j, ?_, own rfl j found status⟩
    rw [Db.get_modifyJob, found]
    rfl
  · exact ⟨j, (get_modify_of_ne key (Ne.symm same)).trans found, status⟩

/-- A write to the row of another job. -/
theorem modifyOther {k' : Nat} {f : ExportJob → ExportJob} {key : ∀ r, (f r).id = r.id}
    (h : Waiting k s) (other : k' ≠ k) : Waiting k (s.modifyJob k' f key) :=
  h.modifyJob fun same => absurd same other

/-- A request that is accepted only in other statuses is about another job. -/
theorem other_of_status {k' : Nat} {statuses : List JobStatus} {j : ExportJob} (h : Waiting k s)
    (found : s.jobs.get k' = some j) (status : j.status ∈ statuses)
    (apart : ∀ status ∈ statuses, status ∉ recoveryStatuses) : k' ≠ k := by
  rintro rfl
  obtain ⟨j', found', waiting⟩ := h
  cases found.symm.trans found'
  exact apart j.status status waiting

theorem createJob {body : JobBody} {seeded : Option Nat} {now : Nat} (h : Waiting k s)
    (accepted : createJob cfg s body seeded now = .ok t) : Waiting k t := by
  obtain ⟨s₁, jobId, drive, sourcePath, resolved, inserted, -, -, -, -, -, overflow⟩ :=
    createJob_eq_ok accepted
  obtain ⟨⟨jobs, rfl⟩, members, fresh⟩ := insertJob_eq_ok inserted
  obtain ⟨j, found, status⟩ := h
  have mem : j ∈ s.jobs := mem_of_get found
  have old : Waiting k { s with jobs := jobs } :=
    ⟨j, get_eq_some_iff.mpr ⟨(members j).mpr (.inl mem), id_of_get found⟩, status⟩
  have other : jobId ≠ k := fun same => fresh j mem ((id_of_get found).trans same.symm)
  have start : Waiting k (assignPrimaryDrive { s with jobs := jobs } body.projectId drive sourcePath
      jobId now) := by
    rw [assignPrimaryDrive]
    exact (old.of_jobs rfl).modifyOther other
  exact reserveOverflowDrives_rule (fun t d ht _ _ _ _ => ht.of_jobs rfl) start overflow

theorem updateJob {jobId now : Nat} {body : JobBody} (h : Waiting k s) :
    (∀ t, updateJob cfg s jobId body now = .ok t → Waiting k t) ∧
      Leaves (Waiting k) (updateJob cfg s jobId body now) := by
  refine updateJob_rule (P := fun _ _ => Waiting k) h (fun _ _ _ _ _ _ _ ht _ _ _ => ht)
    (fun _ _ _ _ ht => ht) (fun plan _ _ => ?_)
    (fun _ _ _ t _ ht _ _ _ _ _ _ => ht.of_jobs rfl) fun plan checked t ht => ?_
  · exact h.of_jobs (keptAssignments_frame s plan jobId body now).1
  · have written : Waiting k ((t.setDriveState plan.drive.id .inUse).modifyJob jobId
        (updatedJob plan body) (updatedJob_id plan body)) := by
      apply (ht.of_jobs rfl).modifyJob
      intro _ j _ status
      rwa [status_updatedJob]
    rw [finishUpdate]
    split <;> exact written

theorem continueJobOverflow {jobId driveId now : Nat} {threadCount : Option Nat} (h : Waiting k s)
    (accepted : continueJobOverflow cfg s jobId driveId threadCount now = .ok t) :
    jobId ≠ k ∧ Waiting k t := by
  simp only [Ecube.continueJobOverflow, bind_eq_ok, pure_eq_ok] at accepted
  obtain ⟨plan, planned, rfl⟩ := accepted
  have checked := overflowPlan_eq_ok planned
  have other : jobId ≠ k := h.other_of_status checked.job checked.status (by decide)
  refine ⟨other, modifyOther ?_ other⟩
  have frame := activateReservedOrNew_frame
    (leaveDrive (s.modifyDrive driveId (fun d => { d with currentProjectId := some plan.job.projectId })
      fun _ => rfl) plan.active now) jobId driveId now
  exact h.of_jobs (frame.1.trans (leaveDrive_jobs _ _ _))

theorem resolveTargetFull {jobId now : Nat} {probe : Str → Option Nat} (h : Waiting k s)
    (other : jobId ≠ k) : Waiting k (resolveTargetFullOutcome s jobId probe now).2 := by
  rcases @resolveTargetFullOutcome_rule (Waiting k) s jobId now probe h
    fun t _ _ ht => ht.of_jobs rfl with
    ⟨-, kept⟩ | ⟨job, active, next, drive, probed, -, -, kept, -, moved⟩
  · exact kept
  · rw [moved]
    let switched := (probed.releaseAssignment active.id now).activateAssignment next.id now
    have freed : Waiting k (switched.setDriveState active.driveId .available) := kept.of_jobs rfl
    have running : Waiting k ((switched.setDriveState active.driveId .available).modifyJob jobId
        (fun j => { j with
          targetMountPath := drive.mountPath
          status := .running
          completedAt := none
          failureReason := none }) fun _ => rfl) := freed.modifyOther other
    exact running.of_jobs rfl

/-- What happens outside the runs of a job leaves it to its recovery. -/
theorem step {a : Action} (h : Waiting k s) (other : runOf a.event ≠ some k) :
    Waiting k (step cfg s a) := by
  obtain ⟨now, event⟩ := a
  have drives : ∀ t, DriveWrites cfg ⟨now, event⟩ s t → Waiting k t := fun t w => h.of_jobs w.jobs
  have background : ∀ {k' : Nat} {statuses : List JobStatus} {next : Db}, some k' ≠ some k →
      (k' ≠ k → Waiting k next) → Waiting k (whileIn s k' statuses next) :=
    fun ne next => whileIn_rule h fun _ => next fun same => ne (congrArg some same)
  cases event with
  | createJob body seeded => exact step_rule (fun t => h.createJob) (leaves_createJob h)
  | updateJob jobId body => exact step_rule h.updateJob.1 h.updateJob.2
  | deleteJob jobId =>
      refine step_rule (fun t accepted => ?_) (leaves_deleteJob h)
      obtain ⟨job, freed, found, pending, -, -⟩ := deleteJob_eq_ok accepted
      have apart : jobId ≠ k := h.other_of_status found (List.mem_singleton.mpr pending) (by decide)
      obtain ⟨j, found, status⟩ := h
      have kept : j ∈ t.jobs := ((deleted_of_deleteJob accepted).jobs j).mpr
        ⟨mem_of_get found, fun same => apart (same.symm.trans (id_of_get found))⟩
      exact ⟨j, get_eq_some_iff.mpr ⟨kept, id_of_get found⟩, status⟩
  | startJob jobId threadCount =>
      refine step_rule (fun t accepted => ?_) (leaves_startJob h fun _ _ _ => ?_)
      · obtain ⟨job, found, status, sourcePath, -, rfl⟩ := startJob_eq_ok accepted
        exact h.modifyOther (h.other_of_status found status (by decide))
      · exact h.modifyJob fun _ _ _ status => status
  | retryFailedFiles jobId =>
      refine step_rule (fun t accepted => ?_) (leaves_retryFailedFiles h)
      obtain ⟨job, found, status, -, sourcePath, -, rfl⟩ := retryFailedFiles_eq_ok accepted
      refine modifyOther (h.of_jobs rfl) ?_
      exact h.other_of_status found (List.mem_singleton.mpr status) (by decide)
  | continueJobOverflow jobId driveId threadCount =>
      refine step_rule (fun t accepted => (h.continueJobOverflow accepted).2) ?_
      exact leaves_continueJobOverflow h fun _ _ => h.modifyJob fun _ _ _ status => status
  | pauseJob jobId =>
      refine step_rule (fun t accepted => ?_) (leaves_pauseJob h)
      obtain ⟨job, -, -, rfl⟩ := pauseJob_eq_ok accepted
      exact h.modifyJob fun _ _ _ _ => by simp [recoveryStatuses]
  | completeJob jobId =>
      refine step_rule (fun t accepted => ?_) (leaves_completeJob h)
      obtain ⟨job, found, status, rfl⟩ := completeJob_eq_ok accepted
      exact h.modifyOther (h.other_of_status found status (by decide))
  | verifyJob jobId =>
      refine step_rule (fun t accepted => ?_) (leaves_verifyJob h)
      obtain ⟨job, found, status, -, rfl⟩ := verifyJob_eq_ok accepted
      refine h.modifyOther ?_
      exact h.other_of_status found (List.mem_singleton.mpr status) (by decide)
  | archiveJob jobId confirm =>
      refine step_rule (fun t accepted => ?_) (leaves_archiveJob h)
      obtain ⟨job, found, status, rfl⟩ := archiveJob_eq_ok accepted
      exact h.modifyOther (h.other_of_status found status (by decide))
  | initializeDrive driveId projectId =>
      exact step_rule (fun t accepted => drives t (driveWrites_initializeDrive accepted))
        (leaves_initializeDrive h)
  | mountDrive driveId result =>
      exact step_rule (fun t accepted => drives t (driveWrites_mountDrive accepted))
        (leaves_mountDrive h)
  | prepareEject driveId confirmIncomplete result =>
      exact step_rule (fun t accepted => drives t (driveWrites_prepareEject accepted))
        (leaves_prepareEject h)
  | requestDriveFormat driveId isMounted =>
      refine step_rule (fun t accepted => ?_) (leaves_requestDriveFormat h)
      rw [requestDriveFormat_eq_ok accepted]
      exact h.of_jobs rfl
  | completeDriveFormat driveId filesystemType isMounted failure =>
      exact drives _ driveWrites_completeDriveFormat
  | startupAnalysis jobId analysis => exact h.modifyJob fun _ _ _ status => status
  | enterRunning jobId => exact background other h.modifyOther
  | listFile jobId relativePath sizeBytes =>
      refine background other fun _ => h.of_jobs ?_
      rw [persistFile]
      split <;> rfl
  | recordFile jobId fileId status errorMessage => exact background other fun _ => h.of_jobs rfl
  | resolveTargetFull jobId probe => exact background other h.resolveTargetFull
  | finalizeRun jobId pauseRequested targetFullFailed =>
      apply background other
      intro ne
      rw [finalizeRun]
      split
      · exact h
      · exact h.modifyOther ne
  | failRun jobId reason => exact background other h.modifyOther
  | finishVerify jobId anyMismatch => exact background other h.modifyOther

end Waiting

/-- The job that an accepted request hands to a background task. -/
def launches : Event → Option Nat
  | .startJob jobId _ | .retryFailedFiles jobId | .continueJobOverflow jobId _ _
  | .verifyJob jobId => some jobId
  | _ => none

/-- A job that waits for its recovery is not started. -/
theorem Waiting.not_accepted {cfg : Settings} {s : Db} {k : Nat} {a : Action} (h : Waiting k s)
    (launched : launches a.event = some k) : ¬ Accepted cfg s a := by
  rintro ⟨t, accepted⟩
  obtain ⟨now, event⟩ := a
  cases event with
  | startJob jobId threadCount =>
      obtain ⟨job, found, status, -⟩ := startJob_eq_ok accepted
      exact h.other_of_status found status (by decide) (Option.some.inj launched)
  | retryFailedFiles jobId =>
      obtain ⟨job, found, status, -⟩ := retryFailedFiles_eq_ok accepted
      exact h.other_of_status found (List.mem_singleton.mpr status) (by decide)
        (Option.some.inj launched)
  | continueJobOverflow jobId driveId threadCount =>
      exact (h.continueJobOverflow accepted).1 (Option.some.inj launched)
  | verifyJob jobId =>
      obtain ⟨job, found, status, -⟩ := verifyJob_eq_ok accepted
      exact h.other_of_status found (List.mem_singleton.mpr status) (by decide)
        (Option.some.inj launched)
  | _ => cases launched

namespace StartupWorkers

open ReconciliationLock (LockRow LockInv Holds ReclaimsDead)

/-! ### The workers -/

/-- Where a worker is: before `reconcile_jobs`, between two of its queries,
before its commit, or after it. -/
inductive Phase where
  | starting
  | readJobs (jobs : List ExportJob)
  | readPausing (jobs pausingJobs : List ExportJob)
  | listed (lists : RecoveryLists)
  | recovered
  | serving

/-- The worker is inside `reconcile_jobs`. -/
def Phase.recovering : Phase → Bool
  | .readJobs _ | .readPausing _ _ | .listed _ => true
  | _ => false

def Phase.serves : Phase → Bool
  | .serving => true
  | _ => false

/-- The jobs in progress or pausing that the worker has read. -/
def Phase.claimed : Phase → List ExportJob
  | .readJobs jobs => jobs
  | .readPausing jobs pausingJobs => jobs ++ pausingJobs
  | .listed lists => lists.jobs ++ lists.pausingJobs
  | _ => []

/-- What the next query adds to the jobs that are read. -/
def Phase.reads (s : Db) : Phase → List ExportJob
  | .starting => (recoveryLists s).jobs
  | .readJobs _ => (recoveryLists s).pausingJobs
  | _ => []

/-- The next query. -/
def Phase.next (s : Db) : Phase → Phase
  | .starting => .readJobs (recoveryLists s).jobs
  | .readJobs jobs => .readPausing jobs (recoveryLists s).pausingJobs
  | .readPausing jobs pausingJobs =>
      .listed ⟨jobs, pausingJobs, (recoveryLists s).startupAnalysisJobs⟩
  | phase => phase

inductive TaskKind where
  | copy | verify
  deriving DecidableEq, Repr

/-- `run_copy_job` or `run_verify_job` in the background of a worker. -/
structure Task where
  worker : Nat
  kind : TaskKind
  jobId : Nat
  deriving DecidableEq, Repr

def taskKind : Event → TaskKind
  | .verifyJob _ => .verify
  | _ => .copy

/-- The database, the lock with the workers, and what the workers are doing. -/
structure System where
  db : Db
  lock : ReconciliationLock.State
  phase : Nat → Phase
  tasks : List Task

namespace System

/-- Worker `k` is alive and at this call of the lock. -/
def isAt (s : System) (k : Nat) (call : ReconciliationLock.Call) : Bool :=
  (s.lock.workers[k]?).any fun w => w.alive ∧ w.call = call

def alive (s : System) (k : Nat) : Bool := (s.lock.workers[k]?).any ReconciliationLock.Worker.alive

def setPhase (s : System) (k : Nat) (phase : Phase) : System :=
  { s with phase := fun i => if i = k then phase else s.phase i }

/-- A live worker has a task for the job. -/
def attended (s : System) (jobId : Nat) : Bool :=
  s.tasks.any fun task => task.jobId = jobId ∧ s.alive task.worker

/-- A live worker copies the job. -/
def copied (s : System) (jobId : Nat) : Bool :=
  s.tasks.any fun task => task.kind = .copy ∧ task.jobId = jobId ∧ s.alive task.worker

end System

/-- The steps. A request is served by a worker that has started, a transaction of
a run is performed by a worker with a task for the job, and the lock is called
outside `reconcile_jobs`. The other passes of the holder write drives and
shares. -/
inductive Action where
  | lock (a : ReconciliationLock.Action)
  | read (k : Nat)
  | commit (k : Nat) (input : RecoveryInput)
  | abandon (k : Nat)
  | serve (k : Nat)
  | otherPass (drives : Table UsbDrive) (shares : Table NetworkShare)
  | request (k : Nat) (a : Ecube.Action)
  | run (k : Nat) (a : Ecube.Action)
  | finish (task : Task)

/-- The worker whose call a step of the lock belongs to. -/
def callerOf : ReconciliationLock.Action → Option Nat
  | .acquire k _ | .refresh k | .release k | .statement k _ _ _ => some k
  | .spawn _ | .die _ => none

def step (cfg : Settings) (s : System) : Action → System
  | .lock a =>
      if (callerOf a).any fun k => (s.phase k).recovering then s
      else { s with lock := ReconciliationLock.step s.lock a }
  | .read k => if s.isAt k .holding then s.setPhase k ((s.phase k).next s.db) else s
  | .commit k input =>
      match s.phase k with
      | .listed lists =>
          if s.alive k then { s.setPhase k .recovered with db := recoverJobs input s.db lists } else s
      | _ => s
  | .abandon k => if s.alive k ∧ (s.phase k).recovering then s.setPhase k .recovered else s
  | .serve k =>
      if s.isAt k .idle ∧ (s.phase k).recovering = false then s.setPhase k .serving else s
  | .otherPass drives shares => { s with db := { s.db with drives := drives, shares := shares } }
  | .request k a =>
      if s.alive k ∧ (s.phase k).serves ∧ runOf a.event = none then
        { s with
          db := Ecube.step cfg s.db a
          tasks := if Accepted cfg s.db a then
              ((launches a.event).map (Task.mk k (taskKind a.event))).toList ++ s.tasks
            else s.tasks }
      else s
  | .run k a =>
      if s.alive k ∧ s.tasks.any fun task => task.worker = k ∧ some task.jobId = runOf a.event then
        { s with db := Ecube.step cfg s.db a }
      else s
  | .finish task => { s with tasks := s.tasks.erase task }

/-- A database as some earlier time has left it, before the first worker starts. -/
def initial (db : Db) (row : Option LockRow) : System :=
  ⟨db, ReconciliationLock.initial row, fun _ => .starting, []⟩

/-- The recovery neither fails a job that a live worker copies nor resets its
files. -/
def Spared (cfg : Settings) (s : System) : Action → Prop
  | .commit k input => ∀ jobId, s.copied jobId = true →
      (((step cfg s (.commit k input)).db.jobs.get jobId).map ExportJob.status = some .failed →
        (s.db.jobs.get jobId).map ExportJob.status = some .failed) ∧
      ∀ f ∈ s.db.files, f.jobId = jobId → f.status = .copying →
        f ∈ (step cfg s (.commit k input)).db.files
  | _ => True

/-- A list that is read names no job that a live worker attends to, and the lock
is not taken from a live worker. -/
def TakesLost (s : System) : Action → Prop
  | .read k => s.isAt k .holding = true → ∀ job ∈ (s.phase k).reads s.db, s.attended job.id = false
  | .lock a => ReclaimsDead s.lock a
  | _ => True

/-! ### What a step of the lock does to the workers -/

section Lock

variable {s : ReconciliationLock.State} {a : ReconciliationLock.Action} {i k : Nat}

/-- At most worker `k` goes to another place. -/
def Moves (k : Nat) (s t : ReconciliationLock.State) : Prop :=
  (∃ row call, t = (s.setRow row).setCall k call) ∨ t = s

theorem moves_nextStatement {w : ReconciliationLock.Worker} {fails : Bool} {others : Int → Bool}
    {now : Nat} : Moves k s (ReconciliationLock.nextStatement s k w fails others now) := by
  rw [ReconciliationLock.nextStatement]
  split <;> (repeat' split) <;> first | exact .inl ⟨_, _, rfl⟩ | exact .inr rfl

theorem moves_onCall {call : ReconciliationLock.Call}
    {act : ReconciliationLock.Worker → ReconciliationLock.State}
    (moves : ∀ w, Moves k s (act w)) : Moves k s (ReconciliationLock.step.onCall s k call act) := by
  rw [ReconciliationLock.step.onCall]
  split
  next w worker =>
    split
    next => exact moves w
    next => exact .inr rfl
  next => exact .inr rfl

theorem moves_step (caller : callerOf a = some k) : Moves k s (ReconciliationLock.step s a) := by
  cases a with
  | spawn pid => cases caller
  | die k => cases caller
  | acquire k' now =>
      cases caller
      exact moves_onCall fun _ => .inl ⟨_, _, rfl⟩
  | refresh k' =>
      cases caller
      apply moves_onCall
      intro _
      split
      · exact .inl ⟨_, _, rfl⟩
      · exact .inr rfl
  | release k' =>
      cases caller
      exact moves_onCall fun _ => .inl ⟨_, _, rfl⟩
  | statement k' fails others now =>
      cases caller
      rw [ReconciliationLock.step]
      split
      next w worker =>
        split
        next => exact moves_nextStatement
        next => exact .inr rfl
      next => exact .inr rfl

theorem Moves.worker {t : ReconciliationLock.State} (h : Moves k s t)
    {w' : ReconciliationLock.Worker} (found : t.workers[i]? = some w') :
    ∃ w, s.workers[i]? = some w ∧ w'.alive = w.alive ∧ (i ≠ k → w'.call = w.call) := by
  rcases h with ⟨row, call, rfl⟩ | rfl
  · rw [ReconciliationLock.getElem?_setCall, Option.map_eq_some_iff] at found
    obtain ⟨w, worker, rfl⟩ := found
    refine ⟨w, worker, ?_, fun other => ?_⟩
    · split <;> rfl
    · rw [if_neg (Ne.symm other)]
  · exact ⟨w', found, rfl, fun _ => rfl⟩

theorem Moves.length_eq {t : ReconciliationLock.State} (h : Moves k s t) :
    t.workers.length = s.workers.length := by
  rcases h with ⟨row, call, rfl⟩ | rfl
  · exact List.length_modify ..
  · rfl

theorem length_le_step : s.workers.length ≤ (ReconciliationLock.step s a).workers.length := by
  cases caller : callerOf a with
  | some k => exact (moves_step caller).length_eq.ge
  | none =>
      cases a with
      | spawn pid => simp [ReconciliationLock.step]
      | die k => simp [ReconciliationLock.step]
      | _ => cases caller

/-- A worker that lives after a step and was started before it lived, and went
nowhere unless the step was its own. -/
theorem worker_of_step (started : i < s.workers.length) {w' : ReconciliationLock.Worker}
    (found : (ReconciliationLock.step s a).workers[i]? = some w') (alive : w'.alive = true) :
    ∃ w, s.workers[i]? = some w ∧ w.alive = true ∧ (callerOf a ≠ some i → w'.call = w.call) := by
  cases caller : callerOf a with
  | some k =>
      obtain ⟨w, worker, lives, place⟩ := (moves_step caller).worker found
      refine ⟨w, worker, lives.symm.trans alive, fun other => place ?_⟩
      rintro rfl
      exact other rfl
  | none =>
      cases a with
      | spawn pid =>
          simp only [ReconciliationLock.step, List.getElem?_append_left started] at found
          exact ⟨w', found, alive, fun _ => rfl⟩
      | die k =>
          simp only [ReconciliationLock.step, List.getElem?_modify, Option.map_eq_map,
            Option.map_eq_some_iff] at found
          obtain ⟨w, worker, rfl⟩ := found
          by_cases same : k = i
          · rw [if_pos same] at alive
            cases alive
          · rw [if_neg same] at alive ⊢
            exact ⟨w, worker, alive, fun _ => rfl⟩
      | _ => cases caller

end Lock

/-! ### The recovery and the tasks -/

/-- A job that its worker has lost: it waits for its recovery, and no live
worker attends to it. -/
def Lost (s : System) (jobId : Nat) : Prop := Waiting jobId s.db ∧ s.attended jobId = false

/-- A live worker inside `reconcile_jobs` holds the lock, and the jobs it has
read are lost. -/
structure RecoveryInv (s : System) : Prop where
  lock : LockInv s.lock
  started : ∀ task ∈ s.tasks, task.worker < s.lock.workers.length
  entered : ∀ k, (s.phase k).recovering = true → k < s.lock.workers.length
  holds : ∀ k, (s.phase k).recovering = true → s.alive k = true → Holds s.lock k
  lost : ∀ k, s.alive k = true → ∀ job ∈ (s.phase k).claimed, Lost s job.id

section Steps

variable {cfg : Settings} {s : System} {k : Nat}

theorem alive_iff : s.alive k = true ↔ ∃ w, s.lock.workers[k]? = some w ∧ w.alive = true := by
  rw [System.alive, Option.any_eq_true]

theorem isAt_iff {call : ReconciliationLock.Call} : s.isAt k call = true ↔
    ∃ w, s.lock.workers[k]? = some w ∧ w.alive = true ∧ w.call = call := by
  simp [System.isAt, Option.any_eq_true]

theorem attended_iff {jobId : Nat} :
    s.attended jobId = true ↔ ∃ task ∈ s.tasks, task.jobId = jobId ∧ s.alive task.worker = true := by
  simp [System.attended]

theorem recovering_of_claimed {phase : Phase} {job : ExportJob} (mem : job ∈ phase.claimed) :
    phase.recovering = true := by
  cases phase with
  | readJobs _ | readPausing _ _ | listed _ => rfl
  | starting | recovered | serving => exact absurd mem List.not_mem_nil

theorem mem_claimed_next {db : Db} {phase : Phase} {job : ExportJob}
    (mem : job ∈ (phase.next db).claimed) : job ∈ phase.claimed ∨ job ∈ phase.reads db := by
  cases phase with
  | starting => exact .inr mem
  | readJobs _ => exact List.mem_append.mp mem
  | readPausing _ _ | listed _ | recovered | serving => exact .inl mem

theorem waiting_of_reads {phase : Phase} {job : ExportJob} (mem : job ∈ phase.reads s.db) :
    Waiting job.id s.db := by
  cases phase with
  | starting =>
      obtain ⟨row, status⟩ := mem_recoveryLists.1.mp mem
      exact ⟨job, get_eq_some_iff.mpr ⟨row, rfl⟩, List.mem_cons_of_mem _ status⟩
  | readJobs _ =>
      obtain ⟨row, status⟩ := mem_recoveryLists.2.1.mp mem
      exact ⟨job, get_eq_some_iff.mpr ⟨row, rfl⟩, status ▸ List.mem_cons_self⟩
  | readPausing _ _ | listed _ | recovered | serving => exact absurd mem List.not_mem_nil

theorem phase_setPhase (s : System) (k i : Nat) (phase : Phase) :
    (s.setPhase k phase).phase i = if i = k then phase else s.phase i := rfl

namespace RecoveryInv

theorem setPhase {phase : Phase} (inv : RecoveryInv s)
    (entered : phase.recovering = true → k < s.lock.workers.length ∧ Holds s.lock k)
    (lost : ∀ job ∈ phase.claimed, Lost s job.id) : RecoveryInv (s.setPhase k phase) where
  lock := inv.lock
  started := inv.started
  entered i recovering := by
    rw [phase_setPhase] at recovering
    split at recovering
    · exact ‹i = k› ▸ (entered recovering).1
    · exact inv.entered i recovering
  holds i recovering alive := by
    rw [phase_setPhase] at recovering
    split at recovering
    · exact ‹i = k› ▸ (entered recovering).2
    · exact inv.holds i recovering alive
  lost i alive job mem := by
    rw [phase_setPhase] at mem
    split at mem
    · exact lost job mem
    · exact inv.lost i alive job mem

/-- A worker that is not in `reconcile_jobs`, or leaves it. -/
theorem leave {phase : Phase} (inv : RecoveryInv s) (outside : phase.recovering = false) :
    RecoveryInv (s.setPhase k phase) := by
  refine inv.setPhase (fun entered => ?_) fun job mem => ?_
  · rw [outside] at entered
    cases entered
  · have entered := recovering_of_claimed mem
    rw [outside] at entered
    cases entered

/-- Transactions and tasks that leave lost jobs lost. -/
theorem of_lost {db : Db} {tasks : List Task} (inv : RecoveryInv s)
    (started : ∀ task ∈ tasks, task.worker < s.lock.workers.length)
    (lost : ∀ jobId, Lost s jobId → Lost { s with db := db, tasks := tasks } jobId) :
    RecoveryInv { s with db := db, tasks := tasks } where
  lock := inv.lock
  started := started
  entered := inv.entered
  holds := inv.holds
  lost k alive job mem := lost job.id (inv.lost k alive job mem)

theorem stepLock {a : ReconciliationLock.Action} (inv : RecoveryInv s)
    (outside : (callerOf a).any (fun k => (s.phase k).recovering) = false)
    (guard : ReclaimsDead s.lock a) :
    RecoveryInv { s with lock := ReconciliationLock.step s.lock a } := by
  have lived : ∀ i, i < s.lock.workers.length →
      System.alive { s with lock := ReconciliationLock.step s.lock a } i = true →
      s.alive i = true := by
    intro i started alive
    obtain ⟨w', found, alive⟩ := alive_iff.mp alive
    obtain ⟨w, worker, lives, -⟩ := worker_of_step started found alive
    exact alive_iff.mpr ⟨w, worker, lives⟩
  refine ⟨inv.lock.step guard, fun task mem => ?_, fun k recovering => ?_,
    fun k recovering alive => ?_, fun k alive job mem => ?_⟩
  · exact (inv.started task mem).trans_le length_le_step
  · exact (inv.entered k recovering).trans_le length_le_step
  · have started := inv.entered k recovering
    obtain ⟨v, same, holds⟩ := inv.holds k recovering (lived k started alive)
    obtain ⟨w', found, alive⟩ := alive_iff.mp alive
    obtain ⟨w, worker, -, place⟩ := worker_of_step started found alive
    have elsewhere : callerOf a ≠ some k := by
      intro caller
      rw [caller, Option.any_some, recovering] at outside
      cases outside
    obtain rfl : v = w := Option.some.inj (same.symm.trans worker)
    rw [ReconciliationLock.Worker.holds, Bool.and_eq_true] at holds
    refine ⟨w', found, ?_⟩
    rw [ReconciliationLock.Worker.holds, alive, place elsewhere, holds.2]
    rfl
  · have started := inv.entered k (recovering_of_claimed mem)
    obtain ⟨waiting, unattended⟩ := inv.lost k (lived k started alive) job mem
    refine ⟨waiting, Bool.eq_false_iff.mpr fun attended => ?_⟩
    obtain ⟨task, mem, mine, alive⟩ := attended_iff.mp attended
    exact Bool.eq_false_iff.mp unattended
      (attended_iff.mpr ⟨task, mem, mine, lived _ (inv.started task mem) alive⟩)

theorem read (inv : RecoveryInv s) (holding : s.isAt k .holding = true)
    (guard : ∀ job ∈ (s.phase k).reads s.db, s.attended job.id = false) :
    RecoveryInv (s.setPhase k ((s.phase k).next s.db)) := by
  obtain ⟨w, worker, alive, place⟩ := isAt_iff.mp holding
  refine inv.setPhase (fun _ => ⟨?_, w, worker, ?_⟩) fun job mem => ?_
  · exact (List.getElem?_eq_some_iff.mp worker).1
  · rw [ReconciliationLock.Worker.holds, alive, place]
    rfl
  · rcases mem_claimed_next mem with earlier | now
    · exact inv.lost k (alive_iff.mpr ⟨w, worker, alive⟩) job earlier
    · exact ⟨waiting_of_reads now, guard job now⟩

/-- The commit is made by the only worker inside `reconcile_jobs`. -/
theorem commit {db : Db} (inv : RecoveryInv s) (alive : s.alive k = true)
    (recovering : (s.phase k).recovering = true) :
    RecoveryInv { s.setPhase k .recovered with db := db } := by
  have left : RecoveryInv (s.setPhase k .recovered) := inv.leave rfl
  refine { left with lost := fun i lives job mem => ?_ }
  have entered : ((s.setPhase k .recovered).phase i).recovering = true := recovering_of_claimed mem
  have same := inv.lock.unique i k (left.holds i entered lives) (inv.holds k recovering alive)
  change ((s.setPhase k .recovered).phase i).recovering = true at entered
  rw [phase_setPhase, if_pos same] at entered
  cases entered

theorem request {a : Ecube.Action} (inv : RecoveryInv s) (alive : s.alive k = true)
    (apart : runOf a.event = none) :
    RecoveryInv { s with
      db := Ecube.step cfg s.db a
      tasks := if Accepted cfg s.db a then
          ((launches a.event).map (Task.mk k (taskKind a.event))).toList ++ s.tasks
        else s.tasks } := by
  have kept : ∀ jobId, Waiting jobId s.db → Waiting jobId (Ecube.step cfg s.db a) :=
    fun jobId waiting => waiting.step (by rw [apart]; exact nofun)
  by_cases accepted : Accepted cfg s.db a
  · rw [if_pos accepted]
    have launched : ∀ task ∈ ((launches a.event).map (Task.mk k (taskKind a.event))).toList,
        task.worker = k ∧ launches a.event = some task.jobId := by
      intro task mem
      rw [Option.mem_toList, Option.map_eq_some_iff] at mem
      obtain ⟨jobId, launched, rfl⟩ := mem
      exact ⟨rfl, launched⟩
    refine inv.of_lost (fun task mem => ?_) fun jobId lost => ⟨kept jobId lost.1, ?_⟩
    · rcases List.mem_append.mp mem with new | old
      · obtain ⟨w, worker, -⟩ := alive_iff.mp alive
        rw [(launched task new).1]
        exact (List.getElem?_eq_some_iff.mp worker).1
      · exact inv.started task old
    · apply Bool.eq_false_iff.mpr
      intro attended
      obtain ⟨task, mem, mine, lives⟩ := attended_iff.mp attended
      rcases List.mem_append.mp mem with new | old
      · -- A lost job is not accepted for a start.
        exact lost.1.not_accepted (mine ▸ (launched task new).2) accepted
      · exact Bool.eq_false_iff.mp lost.2 (attended_iff.mpr ⟨task, old, mine, lives⟩)
  · rw [if_neg accepted]
    exact inv.of_lost inv.started fun jobId lost => ⟨kept jobId lost.1, lost.2⟩

theorem run {a : Ecube.Action} (inv : RecoveryInv s) (alive : s.alive k = true)
    (task : ∃ task ∈ s.tasks, task.worker = k ∧ some task.jobId = runOf a.event) :
    RecoveryInv { s with db := Ecube.step cfg s.db a } := by
  refine inv.of_lost inv.started fun jobId lost => ⟨lost.1.step fun mine => ?_, lost.2⟩
  obtain ⟨task, mem, rfl, runs⟩ := task
  have same : task.jobId = jobId := Option.some.inj (runs.trans mine)
  exact Bool.eq_false_iff.mp lost.2 (attended_iff.mpr ⟨task, mem, same, alive⟩)

theorem step {a : Action} (inv : RecoveryInv s) (guard : TakesLost s a) :
    RecoveryInv (step cfg s a) := by
  cases a with
  | lock a =>
      rw [StartupWorkers.step]
      split
      · exact inv
      · exact inv.stepLock (Bool.eq_false_iff.mpr ‹_›) guard
  | read k =>
      rw [StartupWorkers.step]
      split
      · exact inv.read ‹_› (guard ‹_›)
      · exact inv
  | commit k input =>
      rw [StartupWorkers.step]
      split
      next lists place =>
        split
        · exact inv.commit ‹_› (by rw [place]; rfl)
        · exact inv
      next => exact inv
  | abandon k =>
      rw [StartupWorkers.step]
      split
      · exact inv.leave rfl
      · exact inv
  | serve k =>
      rw [StartupWorkers.step]
      split
      · exact inv.leave rfl
      · exact inv
  | otherPass drives shares =>
      exact inv.of_lost inv.started fun jobId lost => ⟨lost.1.of_jobs rfl, lost.2⟩
  | request k a =>
      rw [StartupWorkers.step]
      split
      next served => exact inv.request served.1 served.2.2
      next => exact inv
  | run k a =>
      rw [StartupWorkers.step]
      split
      next runs =>
        refine inv.run runs.1 ?_
        simpa using runs.2
      next => exact inv
  | finish task =>
      refine inv.of_lost (fun task' mem => inv.started task' (List.mem_of_mem_erase mem))
        fun jobId lost => ⟨lost.1, Bool.eq_false_iff.mpr fun attended => ?_⟩
      obtain ⟨task', mem, mine, lives⟩ := attended_iff.mp attended
      exact Bool.eq_false_iff.mp lost.2
        (attended_iff.mpr ⟨task', List.mem_of_mem_erase mem, mine, lives⟩)

theorem spared {a : Action} (inv : RecoveryInv s) : Spared cfg s a := by
  cases a with
  | commit k input =>
      intro jobId copied
      rw [StartupWorkers.step]
      split
      next lists place =>
        split
        next alive =>
          have others : ∀ b ∈ lists.jobs ++ lists.pausingJobs, jobId ≠ b.id := by
            rintro b mem rfl
            have unattended := (inv.lost k alive b (by rw [place]; exact mem)).2
            simp only [System.copied, List.any_eq_true, decide_eq_true_eq] at copied
            obtain ⟨task, mem, -, mine, lives⟩ := copied
            exact Bool.eq_false_iff.mp unattended (attended_iff.mpr ⟨task, mem, mine, lives⟩)
          obtain ⟨status, files⟩ := @recoverJobs_leaves input s.db jobId lists others
          refine ⟨fun failed => status ▸ failed, fun f hf mine _ => ?_⟩
          have kept : f ∈ jobFiles (recoverJobs input s.db lists) jobId := by
            rw [files]
            exact List.mem_filter.mpr ⟨hf, decide_eq_true mine⟩
          exact (List.mem_filter.mp kept).1
        next => exact ⟨id, fun f hf _ _ => hf⟩
      next => exact ⟨id, fun f hf _ _ => hf⟩
  | _ => trivial

end RecoveryInv

end Steps

/-- In a run in which every list that is read names lost jobs only, the recovery
spares the jobs that live workers copy. -/
theorem spared_of_guarded {cfg : Settings} {db : Db} {row : Option LockRow} {actions : List Action}
    (guarded : Along (step cfg) TakesLost (initial db row) actions) :
    Along (step cfg) (Spared cfg) (initial db row) actions := by
  have start : RecoveryInv (initial db row) := by
    refine ⟨.of_none ?_, nofun, nofun, nofun, nofun⟩
    rintro k ⟨w, found, -⟩
    cases found
  exact along_of_along (fun _ _ inv guard => inv.step guard) (fun _ _ inv _ => inv.spared) start
    guarded

instance (s : System) (a : Action) : Decidable (TakesLost s a) :=
  match a with
  | .read k => inferInstanceAs (Decidable (s.isAt k .holding = true →
      ∀ job ∈ (s.phase k).reads s.db, s.attended job.id = false))
  | .lock a => inferInstanceAs (Decidable (ReclaimsDead s.lock a))
  | .commit _ _ | .abandon _ | .serve _ | .otherPass _ _ | .request _ _ | .run _ _ | .finish _ =>
      inferInstanceAs (Decidable True)

/-- Worker `k` starts and takes the lock, in a process of its own. -/
def takeLock (k : Nat) : List Action :=
  [.lock (.spawn (k + 1)), .lock (.acquire k 1), .lock (.statement k false (fun _ => false) 1)]

/-- The queries of `reconcile_jobs`. -/
def readLists (k : Nat) : List Action := [.read k, .read k, .read k]

/-- The commit, the release of the lock and the first requests. -/
def commitAndServe (k : Nat) : List Action :=
  [.commit k Lab.recovery, .lock (.release k), .lock (.statement k false (fun _ => false) 1),
    .serve k]

/-- The first worker creates a job, starts it and copies its file. -/
def copyingWorker : List Action :=
  takeLock 0 ++ readLists 0 ++ commitAndServe 0 ++
    [.request 0 ⟨1, .createJob (Lab.body "/data/a" (some 1) (some 2)) none⟩,
      .request 0 ⟨2, .startJob 1 none⟩, .run 0 ⟨3, .enterRunning 1⟩,
      .run 0 ⟨4, .listFile 1 "f".toList 10⟩, .run 0 ⟨5, .recordFile 1 1 .copying none⟩]

/-- The worker dies before the next one starts. -/
def deadWorker : List Action :=
  copyingWorker ++ .lock (.die 0) :: takeLock 1 ++ readLists 1 ++ commitAndServe 1

theorem spared_of_guarded_deadWorker :
    Along (step Lab.settings) TakesLost (initial Lab.start none) deadWorker ∧
      Along (step Lab.settings) (Spared Lab.settings) (initial Lab.start none) deadWorker := by
  have guarded : Along (step Lab.settings) TakesLost (initial Lab.start none) deadWorker := by decide
  exact ⟨guarded, spared_of_guarded guarded⟩

/-- The job is being copied when the next worker starts, and its recovery fails
the job. -/
theorem late_worker_fails_job :
    ¬ ∀ (cfg : Settings) (db : Db) (row : Option LockRow) (actions : List Action),
        Along (step cfg) (Spared cfg) (initial db row) actions := by
  intro spared
  have commit := (Along.append (spared Lab.settings Lab.start none
    (copyingWorker ++ takeLock 1 ++ readLists 1 ++ commitAndServe 1))).1 1
  have failed := (commit (by decide)).1 (by decide)
  revert failed
  decide

end StartupWorkers

end Ecube
