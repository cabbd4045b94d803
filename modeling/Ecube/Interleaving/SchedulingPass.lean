import Mathlib.Data.List.Sort
import Ecube.Interleaving.Scheduling

/-!
One scheduling pass of `run_copy_job`, statement by statement.

The pass keeps a cursor into the pending files, a buffer of loaded ones, a heap
of deferred retries and the futures of its pool. Each turn of its loop polls the
control state when that is due, submits what is due while there is room, waits
for a future, collects everything that is done and looks at the job again. The
workers run in between: one checks the job, commits `COPYING`, copies and
commits the outcome. A commit may fail and a worker may raise, the tuning of the
job may change at every poll, a pause may be requested and the run may be
superseded by another one.

`LoopMove` and `PassMove` say what a turn of the loop and a step of the system
can do.
-/

namespace Ecube.Scheduler

open Table Transition

/-- What a pass is started with. -/
structure PassConfig where
  jobId : Nat
  runStartedAt : Option Nat
  maxRetries : Nat
  retryDelay : Nat
  pendingBatchMultiplier : Nat
  controlPollCompletionInterval : Nat
  controlPollMaxInterval : Nat

/-- The effective thread count, which is at least one. -/
abbrev WorkerLimit := { n : Nat // 0 < n }

/-- `_DeferredRetry`. -/
structure DeferredRetry where
  eligibleAt : Nat
  fileId : Nat
  attempt : Nat
  deriving DecidableEq, Repr

/-- The order of the heap. -/
def DeferredRetry.le (a b : DeferredRetry) : Prop :=
  a.eligibleAt < b.eligibleAt ∨ (a.eligibleAt = b.eligibleAt ∧
    (a.fileId < b.fileId ∨ (a.fileId = b.fileId ∧ a.attempt ≤ b.attempt)))

instance : DecidableRel DeferredRetry.le := fun a b =>
  inferInstanceAs (Decidable (a.eligibleAt < b.eligibleAt ∨ _))

/-- `_CopyAttemptOutcome`. -/
structure Report where
  deferredRetry : Option DeferredRetry
  targetFullFailure : Bool
  deriving DecidableEq, Repr

def Report.nothing : Report := ⟨none, false⟩

/-- How far a worker is; `finished none` if it has raised. -/
inductive Stage where
  | queued
  | checked (activeAssignmentId : Option Nat)
  | copying
  | finished (report : Option Report)
  deriving DecidableEq, Repr

structure Future where
  key : Nat
  fileId : Nat
  attempt : Nat
  stage : Stage
  deriving DecidableEq, Repr

/-- `future.done()`. -/
def Future.done (f : Future) : Bool :=
  match f.stage with
  | .finished _ => true
  | _ => false

/-- `future.result()`, unless it raises. -/
def Future.result (f : Future) : Option Report :=
  match f.stage with
  | .finished report => report
  | _ => none

theorem stage_of_result {f : Future} {r : Report} (h : f.result = some r) : f.stage = .finished (some r) := by
  unfold Future.result at h
  split at h
  · rename_i stage
    rw [stage, h]
  · cases h

/-- Why the loop was left: by `return`, by one of its stops, or with nothing left. -/
inductive PassEnd where
  | stale
  | paused
  | targetFull
  | exhausted
  deriving DecidableEq, Repr

inductive PassPc where
  | startup
  | top
  | resubmitting
  | loading
  | submitting
  | waiting
  | collecting (doneFutures : List Nat) (futureFailed targetFullDetected : Bool)
  | completing (futureFailed targetFullDetected : Bool)
  | repolling
  | ended (reason : PassEnd)
  deriving DecidableEq, Repr

/-- The database and the variables of the pass. `submissions` and `copies` list
the files of all submitted attempts, and of those that came to copying. -/
structure Pass where
  db : Db
  maxWorkers : WorkerLimit
  pendingCursor : Option Nat
  pendingBuffer : List Nat
  pendingExhausted : Bool
  deferredRetries : List DeferredRetry
  futures : List Future
  pauseRequested : Bool
  stopForTargetFull : Bool
  staleRunDetected : Bool
  completionsSinceControlPoll : Nat
  lastControlPoll : Nat
  pc : PassPc
  submissions : List Nat
  copies : List Nat

def Pass.opened (s : Db) (maxWorkers : WorkerLimit) (now : Nat) : Pass :=
  ⟨s, maxWorkers, none, [], false, [], [], false, false, false, 0, now, .startup, [], []⟩

/-- What a turn takes from its surroundings: the clock, the tuning of the job
and the future that is done first. -/
structure LoopInput where
  now : Nat
  maxWorkers : WorkerLimit
  doneFirst : Nat

/-- `saved` is false when the commit of the step fails. -/
inductive PassAction where
  | loop (input : LoopInput)
  | check (key : Nat)
  | beginCopy (key : Nat) (saved : Bool)
  | finish (key : Nat) (outcome : AttemptOutcome) (now : Nat) (saved : Bool)
  | raise (key : Nat)
  | cancel (key : Nat)
  | pause
  | supersede (startedAt : Nat)

/-! ### The loop -/

section Loop

variable (cfg : PassConfig)

/-- `_handle_worker_completion`: whether the pass is to stop at once. -/
def Pass.handleWorkerCompletion (p : Pass) (includeTargetFull : Bool) : Pass × Bool :=
  match p.db.jobs.get cfg.jobId with
  | none => (p, false)
  | some job =>
      if job.startedAt ≠ none ∧ job.startedAt ≠ cfg.runStartedAt then
        ({ p with staleRunDetected := true }, true)
      else if job.status = .pausing ∨ job.status = .paused then
        ({ p with pauseRequested := true }, true)
      else if includeTargetFull ∧
          shouldAttemptTargetFullContinuation (p.db.listIncompleteByJob cfg.jobId) ∧
          p.db.getActiveForJob cfg.jobId ≠ none then
        ({ p with stopForTargetFull := true }, false)
      else (p, false)

/-- `_poll_runtime_control_state`. -/
def Pass.pollRuntimeControlState (p : Pass) (input : LoopInput) : Pass × Bool :=
  let polled := { p with lastControlPoll := input.now, completionsSinceControlPoll := 0 }
  match p.db.jobs.get cfg.jobId with
  | none => (polled, true)
  | some _ => Pass.handleWorkerCompletion cfg { polled with maxWorkers := input.maxWorkers } true

/-- The poll at the top of a turn. -/
def Pass.pollWhenDue (p : Pass) (input : LoopInput) : Pass × Bool :=
  if cfg.controlPollCompletionInterval ≤ p.completionsSinceControlPoll ∨
      cfg.controlPollMaxInterval ≤ input.now - p.lastControlPoll then
    Pass.pollRuntimeControlState cfg p input
  else (p, false)

def Pass.stop (p : Pass) : Option PassEnd :=
  if p.staleRunDetected then some .stale
  else if p.pauseRequested then some .paused
  else if p.stopForTargetFull then some .targetFull
  else none

/-- The checks after a look at the job. -/
def Pass.leave (p : Pass × Bool) (next : PassPc) : Pass :=
  match p.2, p.1.stop with
  | true, some reason => { p.1 with pc := .ended reason }
  | _, _ => { p.1 with pc := next }

/-- `_list_pending_copy_job_files`. -/
def listPendingByJobAfterId (s : Db) (jobId : Nat) (afterId : Option Nat) (limit : Nat) : List Nat :=
  ((s.files.select (fun f => f.jobId = jobId ∧ f.status = .pending ∧ ∀ k ∈ afterId, k < f.id)
    fun a b => a.id ≤ b.id).take limit).map ExportFile.id

/-- `_load_pending_buffer`. -/
def Pass.loadPendingBuffer (p : Pass) : Pass :=
  let limit := max 1 (p.maxWorkers * cfg.pendingBatchMultiplier)
  let loaded := listPendingByJobAfterId p.db cfg.jobId p.pendingCursor limit
  match loaded.getLast? with
  | none => { p with pendingExhausted := true }
  | some last => { p with pendingCursor := some last, pendingBuffer := p.pendingBuffer ++ loaded }

/-- `_submit_file_attempt`. -/
def Pass.submitFileAttempt (p : Pass) (fileId attempt : Nat) : Pass :=
  { p with
    futures := p.futures ++ [⟨p.submissions.length, fileId, attempt, .queued⟩]
    submissions := p.submissions ++ [fileId] }

/-- A turn of the loop that collects one future. -/
def Pass.collect (p : Pass) (f : Future) (rest : List Nat) (futureFailed targetFullDetected : Bool) :
    Pass :=
  let left := p.futures.filter fun g => g.key ≠ f.key
  { p with
    futures := left
    deferredRetries := match f.result.bind Report.deferredRetry with
      | some retry => p.deferredRetries.orderedInsert DeferredRetry.le retry
      | none => p.deferredRetries
    completionsSinceControlPoll := p.completionsSinceControlPoll + 1
    pc := .collecting
      (rest ++ (left.filter fun g => g.done ∧ g.key ∉ rest).map Future.key)
      (futureFailed || f.result.isNone)
      (targetFullDetected || f.result.any Report.targetFullFailure) }

def Pass.loop (p : Pass) (input : LoopInput) : Pass :=
  match p.pc with
  | .startup =>
      let polled := Pass.pollRuntimeControlState cfg p input
      if polled.2 ∧ polled.1.staleRunDetected then { polled.1 with pc := .ended .stale }
      else { polled.1 with pc := .top }
  | .top =>
      match p.stop with
      | some reason => { p with pc := .ended reason }
      | none =>
          let polled := Pass.pollWhenDue cfg p input
          Pass.leave polled
            (if polled.1.futures.length < polled.1.maxWorkers then .resubmitting else .waiting)
  | .resubmitting =>
      match p.deferredRetries with
      | retry :: rest =>
          if p.futures.length < p.maxWorkers ∧ retry.eligibleAt ≤ input.now then
            Pass.submitFileAttempt { p with deferredRetries := rest } retry.fileId retry.attempt
          else { p with pc := .loading }
      | [] => { p with pc := .loading }
  | .loading =>
      if p.pendingBuffer = [] ∧ p.pendingExhausted = false then
        { Pass.loadPendingBuffer cfg p with pc := .submitting }
      else { p with pc := .submitting }
  | .submitting =>
      match p.pendingBuffer with
      | fileId :: rest =>
          if p.futures.length < p.maxWorkers then
            Pass.submitFileAttempt { p with pendingBuffer := rest } fileId 0
          else { p with pc := .waiting }
      | [] => { p with pc := .waiting }
  | .waiting =>
      if p.futures = [] then
        if p.deferredRetries ≠ [] then { p with pc := .top }
        else if p.pendingExhausted then { p with pc := .ended .exhausted }
        else { p with pc := .top }
      else if p.futures.any fun f => f.key = input.doneFirst ∧ f.done then
        { p with pc := .collecting [input.doneFirst] false false }
      else p
  | .collecting (key :: rest) futureFailed targetFullDetected =>
      match p.futures.find? fun f => f.key = key with
      | some f => p.collect f rest futureFailed targetFullDetected
      | none => { p with pc := .collecting rest futureFailed targetFullDetected }
  | .collecting [] futureFailed targetFullDetected =>
      { p with pc := .completing futureFailed targetFullDetected }
  | .completing futureFailed targetFullDetected =>
      Pass.leave (Pass.handleWorkerCompletion cfg p targetFullDetected)
        (if futureFailed then .repolling else .top)
  | .repolling => Pass.leave (Pass.pollRuntimeControlState cfg p input) .top
  | .ended _ => p

end Loop

/-! ### The workers -/

/-- A step of the worker of a future. -/
def Pass.withStage (p : Pass) (key : Nat) (stage : Stage) : Pass :=
  { p with futures := p.futures.map fun f => if f.key = key then { f with stage := stage } else f }

def Pass.future (p : Pass) (key : Nat) : Option Future := p.futures.find? fun f => f.key = key

/-- `_process_file` up to its first commit. A worker that finds the job pausing
puts the file back. -/
def Pass.check (cfg : PassConfig) (p : Pass) (f : Future) : Pass :=
  match p.db.jobs.get cfg.jobId, p.db.files.get f.fileId with
  | some job, some _ =>
      if job.status = .pausing ∨ job.status = .paused then
        { p.withStage f.key (.finished (some .nothing)) with
          db := setFile p.db f.fileId (fun r => { r with status := .pending }) ExportFile.pending_id }
      else p.withStage f.key (.checked ((p.db.getActiveForJob cfg.jobId).map DriveAssignment.id))
  | _, _ => p.withStage f.key (.finished (some .nothing))

def copyingFile (activeAssignmentId : Option Nat) (r : ExportFile) : ExportFile :=
  { r with status := .copying, driveAssignmentId := activeAssignmentId }

theorem copyingFile_id (activeAssignmentId : Option Nat) (r : ExportFile) :
    (copyingFile activeAssignmentId r).id = r.id := rfl

def Pass.beginCopy (p : Pass) (f : Future) (activeAssignmentId : Option Nat) (saved : Bool) : Pass :=
  if saved then
    { p.withStage f.key .copying with
      db := setFile p.db f.fileId (copyingFile activeAssignmentId) (copyingFile_id activeAssignmentId)
      copies := p.copies ++ [f.fileId] }
  else p.withStage f.key (.finished (some .nothing))

/-- Whether the attempt is repeated: only a failure is, up to the limit. -/
def retries (cfg : PassConfig) (attempt : Nat) : AttemptOutcome → Bool
  | .failed _ => attempt < cfg.maxRetries
  | _ => false

/-- What the worker hands back. A retry is deferred when its commit succeeds. -/
def report (cfg : PassConfig) (f : Future) (outcome : AttemptOutcome) (now : Nat) (saved : Bool) :
    Report :=
  if retries cfg f.attempt outcome then
    ⟨if saved then some ⟨now + cfg.retryDelay * 2 ^ f.attempt, f.fileId, f.attempt + 1⟩ else none, false⟩
  else ⟨none, match outcome with
    | .failed errorMessage => errorMessage = "Target storage is full"
    | _ => false⟩

def Pass.finish (cfg : PassConfig) (p : Pass) (f : Future) (outcome : AttemptOutcome) (now : Nat)
    (saved : Bool) : Pass :=
  let retry := retries cfg f.attempt outcome
  { p.withStage f.key (.finished (some (report cfg f outcome now saved))) with
    db := if saved then setFile p.db f.fileId (attemptedFile retry f.attempt outcome)
      (attemptedFile_id retry f.attempt outcome) else p.db }

/-- Another start of the job is accepted. -/
def superseded (cfg : PassConfig) (s : Db) (startedAt : Nat) : Db :=
  if some startedAt = cfg.runStartedAt then s
  else s.modifyJob cfg.jobId (fun j => { j with status := .preparing, startedAt := some startedAt })
    fun _ => rfl

def passStep (cfg : PassConfig) (p : Pass) : PassAction → Pass
  | .loop input => p.loop cfg input
  | .check key =>
      match p.future key with
      | some f => if f.stage = .queued then p.check cfg f else p
      | none => p
  | .beginCopy key saved =>
      match p.future key with
      | some f =>
          match f.stage with
          | .checked activeAssignmentId => p.beginCopy f activeAssignmentId saved
          | _ => p
      | none => p
  | .finish key outcome now saved =>
      match p.future key with
      | some f => if f.stage = .copying then p.finish cfg f outcome now saved else p
      | none => p
  | .raise key =>
      match p.future key with
      | some f => if f.done then p else p.withStage key (.finished none)
      | none => p
  | .cancel key =>
      match p.future key, p.pc with
      | some f, .ended _ =>
          if f.stage = .queued then { p with futures := p.futures.filter fun g => g.key ≠ key } else p
      | _, _ => p
  | .pause => { p with db := settle (pauseJob p.db cfg.jobId) }
  | .supersede startedAt => { p with db := superseded cfg p.db startedAt }

/-! ### What a turn does -/

/-- Everything but the control state. -/
structure SameWork (p q : Pass) : Prop where
  db : q.db = p.db
  pendingCursor : q.pendingCursor = p.pendingCursor
  pendingBuffer : q.pendingBuffer = p.pendingBuffer
  pendingExhausted : q.pendingExhausted = p.pendingExhausted
  deferredRetries : q.deferredRetries = p.deferredRetries
  futures : q.futures = p.futures
  submissions : q.submissions = p.submissions
  copies : q.copies = p.copies

/-- Collecting and the look at the job that follows. -/
def PassPc.looking : PassPc → Bool
  | .collecting _ _ _ | .completing _ _ => true
  | _ => false

def PassPc.stopped : PassPc → Bool
  | .ended .stale | .ended .paused | .ended .targetFull => true
  | _ => false

/-- A look at the job stops the pass. -/
def Halted (cfg : PassConfig) (s : Db) : Prop :=
  ∃ job, s.jobs.get cfg.jobId = some job ∧ ((job.startedAt ≠ none ∧ job.startedAt ≠ cfg.runStartedAt) ∨
    job.status = .pausing ∨ job.status = .paused)

section Turns

variable {cfg : PassConfig} {p : Pass} {input : LoopInput}

theorem SameWork.refl (p : Pass) : SameWork p p := ⟨rfl, rfl, rfl, rfl, rfl, rfl, rfl, rfl⟩

theorem SameWork.goto {q : Pass} (h : SameWork p q) (pc : PassPc) : SameWork p { q with pc := pc } :=
  { h with }

theorem stopped_of_stop {reason : PassEnd} (h : p.stop = some reason) :
    (PassPc.ended reason).stopped = true := by
  unfold Pass.stop at h
  split at h
  · cases h; rfl
  · split at h
    · cases h; rfl
    · split at h
      · cases h; rfl
      · cases h

theorem sameWork_handleWorkerCompletion (includeTargetFull : Bool) :
    SameWork p (p.handleWorkerCompletion cfg includeTargetFull).1 := by
  unfold Pass.handleWorkerCompletion
  split
  · exact .refl p
  · split
    · exact { SameWork.refl p with }
    · split
      · exact { SameWork.refl p with }
      · split <;> exact { SameWork.refl p with }

theorem handleWorkerCompletion_halted {includeTargetFull : Bool} (halted : Halted cfg p.db) :
    (p.handleWorkerCompletion cfg includeTargetFull).2 = true ∧
      (p.handleWorkerCompletion cfg includeTargetFull).1.stop ≠ none := by
  obtain ⟨job, found, why⟩ := halted
  unfold Pass.handleWorkerCompletion
  rw [found]
  dsimp only
  split
  · exact ⟨rfl, by simp [Pass.stop]⟩
  · rename_i current
    rw [if_pos (why.resolve_left current)]
    refine ⟨rfl, ?_⟩
    unfold Pass.stop
    split <;> simp

theorem sameWork_pollRuntimeControlState : SameWork p (p.pollRuntimeControlState cfg input).1 := by
  unfold Pass.pollRuntimeControlState
  dsimp only
  split
  · exact { SameWork.refl p with }
  · have looked := @sameWork_handleWorkerCompletion cfg { p with
      lastControlPoll := input.now, completionsSinceControlPoll := 0, maxWorkers := input.maxWorkers } true
    exact { looked with }

theorem sameWork_leave {q : Pass × Bool} {next : PassPc} (h : SameWork p q.1) :
    SameWork p (Pass.leave q next) := by
  unfold Pass.leave
  split <;> exact h.goto _

theorem pc_leave (q : Pass × Bool) (next : PassPc) :
    (Pass.leave q next).pc.stopped = true ∨ (Pass.leave q next).pc = next := by
  unfold Pass.leave
  split
  · rename_i stop
    exact .inl (stopped_of_stop stop)
  · exact .inr rfl

/-- A turn that only changes the control state: when it may wait, when it ends
with nothing left, and that a look at a halted job stops it. -/
structure Control (cfg : PassConfig) (p q : Pass) : Prop where
  work : SameWork p q
  waits : q.pc = .waiting → p.pc = .waiting ∨ p.futures ≠ [] ∨ p.pendingBuffer = []
  ends : q.pc = .ended .exhausted → p.pc = .ended .exhausted ∨
    (p.pc = .waiting ∧ p.futures = [] ∧ p.deferredRetries = [] ∧ p.pendingExhausted = true)
  looks : p.pc.looking = true → Halted cfg p.db → q.pc.looking = true ∨ q.pc.stopped = true
  stays : p.pc.stopped = true → q.pc.stopped = true
  collects : ∀ keys futureFailed targetFullDetected,
    q.pc = .collecting keys futureFailed targetFullDetected →
      ∀ key ∈ keys, (∃ keys' futureFailed' targetFullDetected',
        p.pc = .collecting keys' futureFailed' targetFullDetected' ∧ key ∈ keys') ∨
        ∃ f ∈ p.futures, f.key = key ∧ f.done = true

/-- What a turn of the loop does. -/
inductive LoopMove (cfg : PassConfig) (p : Pass) : Pass → Prop where
  | control {q : Pass} (h : Control cfg p q) : LoopMove cfg p q
  | resubmit {retry : DeferredRetry} {rest : List DeferredRetry} (pc : p.pc = .resubmitting)
      (deferred : p.deferredRetries = retry :: rest) :
      LoopMove cfg p (Pass.submitFileAttempt { p with deferredRetries := rest } retry.fileId retry.attempt)
  | load (pc : p.pc = .loading) (empty : p.pendingBuffer = []) :
      LoopMove cfg p { Pass.loadPendingBuffer cfg p with pc := .submitting }
  | submit {fileId : Nat} {rest : List Nat} (pc : p.pc = .submitting)
      (buffer : p.pendingBuffer = fileId :: rest) :
      LoopMove cfg p (Pass.submitFileAttempt { p with pendingBuffer := rest } fileId 0)
  | collect {f : Future} {key : Nat} {rest : List Nat} {futureFailed targetFullDetected : Bool}
      (pc : p.pc = .collecting (key :: rest) futureFailed targetFullDetected) (mem : f ∈ p.futures)
      (same : f.key = key) : LoopMove cfg p (p.collect f rest futureFailed targetFullDetected)

/-- Points a turn may go to without more ado. -/
def PassPc.plain : PassPc → Bool
  | .waiting | .ended .exhausted | .collecting _ _ _ => false
  | _ => true

theorem plain_of_stopped {pc : PassPc} (h : pc.stopped = true) : pc.plain = true := by
  cases pc with
  | ended reason => cases reason <;> first | rfl | cases h
  | _ => cases h

theorem Control.of_plain {q : Pass} (work : SameWork p q) (plain : q.pc.plain = true)
    (looks : p.pc.looking = true → Halted cfg p.db → q.pc.looking = true ∨ q.pc.stopped = true)
    (stays : p.pc.stopped = true → q.pc.stopped = true) : Control cfg p q where
  work := work
  waits pc := by rw [pc] at plain; cases plain
  ends pc := by rw [pc] at plain; cases plain
  looks := looks
  stays := stays
  collects _ _ _ pc := by rw [pc] at plain; cases plain

theorem Control.refl (p : Pass) : Control cfg p p where
  work := .refl p
  waits := .inl
  ends := .inl
  looks looking _ := .inl looking
  stays := id
  collects keys futureFailed targetFullDetected pc _ mem :=
    .inl ⟨keys, futureFailed, targetFullDetected, pc, mem⟩

/-- Turns that start elsewhere than at a look. -/
theorem Control.goto {q : Pass} (work : SameWork p q) (plain : q.pc.plain = true)
    (away : p.pc.looking = false) (going : p.pc.stopped = false) : Control cfg p q := by
  refine .of_plain work plain (fun looking => ?_) (fun stopped => ?_)
  · rw [away] at looking
    cases looking
  · rw [going] at stopped
    cases stopped

theorem Control.wait {q : Pass} (work : SameWork p q) (pc : q.pc = .waiting)
    (away : p.pc.looking = false) (going : p.pc.stopped = false)
    (waits : p.futures ≠ [] ∨ p.pendingBuffer = []) : Control cfg p q where
  work := work
  waits _ := .inr waits
  ends ended := by rw [pc] at ended; cases ended
  looks looking := by rw [away] at looking; cases looking
  stays stopped := by rw [going] at stopped; cases stopped
  collects _ _ _ collecting := by rw [pc] at collecting; cases collecting

theorem ne_nil_of_full (limit : WorkerLimit) (full : ¬ p.futures.length < limit) : p.futures ≠ [] := by
  intro empty
  rw [empty] at full
  exact full limit.2

theorem stopped_leave {q : Pass × Bool} {next : PassPc} (hit : q.2 = true) (stop : q.1.stop ≠ none) :
    (Pass.leave q next).pc.stopped = true := by
  unfold Pass.leave
  split
  · rename_i stop
    exact stopped_of_stop stop
  · rename_i other
    cases reason : q.1.stop with
    | none => exact absurd reason stop
    | some reason' => exact absurd reason (other reason' hit)

theorem loopMove_top (pc : p.pc = .top) : LoopMove cfg p (p.loop cfg input) := by
  have away : p.pc.looking = false := by rw [pc]; rfl
  have going : p.pc.stopped = false := by rw [pc]; rfl
  simp only [Pass.loop, pc]
  split
  · rename_i stop
    exact .control (.goto ((SameWork.refl p).goto _) (plain_of_stopped (stopped_of_stop stop)) away going)
  · have work : SameWork p (p.pollWhenDue cfg input).1 := by
      unfold Pass.pollWhenDue
      split
      · exact sameWork_pollRuntimeControlState
      · exact .refl p
    generalize p.pollWhenDue cfg input = q at work
    rcases pc_leave q (if q.1.futures.length < q.1.maxWorkers then .resubmitting else .waiting) with
      stopped | next
    · exact .control (.goto (sameWork_leave work) (plain_of_stopped stopped) away going)
    · by_cases room : q.1.futures.length < q.1.maxWorkers
      · rw [if_pos room] at next ⊢
        exact .control (.goto (sameWork_leave work) (by rw [next]; rfl) away going)
      · rw [if_neg room] at next ⊢
        rw [work.futures] at room
        exact .control (.wait (sameWork_leave work) next away going (.inl (ne_nil_of_full _ room)))

theorem loopMove_waiting (pc : p.pc = .waiting) : LoopMove cfg p (p.loop cfg input) := by
  have away : p.pc.looking = false := by rw [pc]; rfl
  have going : p.pc.stopped = false := by rw [pc]; rfl
  simp only [Pass.loop, pc]
  split
  · rename_i idle
    split
    · exact .control (.goto ((SameWork.refl p).goto _) rfl away going)
    · rename_i nothing
      split
      · rename_i exhausted
        exact .control {
          work := (SameWork.refl p).goto _
          waits := fun waiting => by cases waiting
          ends := fun _ => .inr ⟨pc, idle, not_not.mp nothing, exhausted⟩
          looks := fun looking => by rw [away] at looking; cases looking
          stays := fun stopped => by rw [going] at stopped; cases stopped
          collects := fun _ _ _ collecting => by cases collecting }
      · exact .control (.goto ((SameWork.refl p).goto _) rfl away going)
  · split
    · rename_i done
      exact .control {
        work := (SameWork.refl p).goto _
        waits := fun waiting => by cases waiting
        ends := fun ended => by cases ended
        looks := fun looking => by rw [away] at looking; cases looking
        stays := fun stopped => by rw [going] at stopped; cases stopped
        collects := fun keys _ _ collecting key mem => by
          cases collecting
          rw [List.mem_singleton.mp mem]
          simpa using Or.inr done }
    · exact .control (.refl p)

theorem loopMove (cfg : PassConfig) (p : Pass) (input : LoopInput) : LoopMove cfg p (p.loop cfg input) := by
  have plainly : ∀ {q : Pass}, SameWork p q → q.pc.plain = true → p.pc.looking = false →
      p.pc.stopped = false → LoopMove cfg p q := fun work plain away going =>
    .control (.goto work plain away going)
  cases pc : p.pc with
  | startup =>
      simp only [Pass.loop, pc]
      have work : SameWork p (p.pollRuntimeControlState cfg input).1 := sameWork_pollRuntimeControlState
      split <;> exact plainly (work.goto _) rfl (by rw [pc]; rfl) (by rw [pc]; rfl)
  | top => exact loopMove_top pc
  | resubmitting =>
      simp only [Pass.loop, pc]
      split
      · rename_i retry rest deferred
        split
        · have turn : LoopMove cfg p _ := .resubmit pc deferred
          rwa [pc] at turn
        · exact plainly ((SameWork.refl p).goto _) rfl (by rw [pc]; rfl) (by rw [pc]; rfl)
      · exact plainly ((SameWork.refl p).goto _) rfl (by rw [pc]; rfl) (by rw [pc]; rfl)
  | loading =>
      simp only [Pass.loop, pc]
      split
      · rename_i empty
        exact .load pc empty.1
      · exact plainly ((SameWork.refl p).goto _) rfl (by rw [pc]; rfl) (by rw [pc]; rfl)
  | submitting =>
      simp only [Pass.loop, pc]
      have waits : p.futures ≠ [] ∨ p.pendingBuffer = [] → LoopMove cfg p { p with pc := .waiting } := fun h =>
        .control (.wait ((SameWork.refl p).goto _) rfl (by rw [pc]; rfl) (by rw [pc]; rfl) h)
      split
      · rename_i fileId rest buffer
        split
        · have turn : LoopMove cfg p _ := .submit pc buffer
          rwa [pc] at turn
        · rename_i full
          exact waits (.inl (ne_nil_of_full _ full))
      · rename_i empty
        exact waits (.inr empty)
  | waiting => exact loopMove_waiting pc
  | collecting keys futureFailed targetFullDetected =>
      cases keys with
      | nil =>
          simp only [Pass.loop, pc]
          refine .control (.of_plain ((SameWork.refl p).goto _) rfl (fun _ _ => .inl rfl) fun stopped => ?_)
          rw [pc] at stopped
          cases stopped
      | cons key rest =>
          simp only [Pass.loop, pc]
          split
          · rename_i f found
            have same := List.find?_some found
            exact .collect pc (List.mem_of_find?_eq_some found) (of_decide_eq_true same)
          · exact .control {
              work := (SameWork.refl p).goto _
              waits := fun waiting => by cases waiting
              ends := fun ended => by cases ended
              looks := fun _ _ => .inl rfl
              stays := fun stopped => by rw [pc] at stopped; cases stopped
              collects := fun keys _ _ collecting key' mem => by
                cases collecting
                exact .inl ⟨_, _, _, pc, List.mem_cons_of_mem _ mem⟩ }
  | completing futureFailed targetFullDetected =>
      simp only [Pass.loop, pc]
      have work : SameWork p (p.handleWorkerCompletion cfg targetFullDetected).1 :=
        sameWork_handleWorkerCompletion targetFullDetected
      refine .control (.of_plain (sameWork_leave work) ?_ (fun _ halted => .inr ?_) fun stopped => ?_)
      · rcases pc_leave (p.handleWorkerCompletion cfg targetFullDetected)
          (if futureFailed then .repolling else .top) with stopped | next
        · exact plain_of_stopped stopped
        · rw [next]
          cases futureFailed <;> rfl
      · obtain ⟨hit, stop⟩ := handleWorkerCompletion_halted halted
        exact stopped_leave hit stop
      · rw [pc] at stopped
        cases stopped
  | repolling =>
      simp only [Pass.loop, pc]
      have work : SameWork p (p.pollRuntimeControlState cfg input).1 := sameWork_pollRuntimeControlState
      refine plainly (sameWork_leave work) ?_ (by rw [pc]; rfl) (by rw [pc]; rfl)
      rcases pc_leave (p.pollRuntimeControlState cfg input) .top with stopped | next
      · exact plain_of_stopped stopped
      · rw [next]
        rfl
  | ended reason =>
      simp only [Pass.loop, pc]
      exact .control (.refl p)

end Turns

/-- No commit fails and no worker raises. -/
def Calm : PassAction → Prop
  | .beginCopy _ saved | .finish _ _ _ saved => saved = true
  | .raise _ => False
  | _ => True

instance (a : PassAction) : Decidable (Calm a) :=
  match a with
  | .beginCopy _ saved | .finish _ _ _ saved => inferInstanceAs (Decidable (saved = true))
  | .raise _ => .isFalse id
  | .loop _ | .check _ | .cancel _ | .pause | .supersede _ => .isTrue trivial

/-- What an action does. -/
inductive PassMove (cfg : PassConfig) (p : Pass) : PassAction → Pass → Prop where
  | idle {a : PassAction} : PassMove cfg p a p
  | loop {q : Pass} {input : LoopInput} (turn : LoopMove cfg p q) : PassMove cfg p (.loop input) q
  | checked {f : Future} {key : Nat} (mem : f ∈ p.futures) (queued : f.stage = .queued)
      (activeAssignmentId : Option Nat) :
      PassMove cfg p (.check key) (p.withStage f.key (.checked activeAssignmentId))
  | putBack {f : Future} {key : Nat} (mem : f ∈ p.futures) (queued : f.stage = .queued)
      (halted : Halted cfg p.db) :
      PassMove cfg p (.check key) { p.withStage f.key (.finished (some .nothing)) with
        db := setFile p.db f.fileId (fun r => { r with status := .pending }) ExportFile.pending_id }
  | missing {f : Future} {key : Nat} (mem : f ∈ p.futures) (queued : f.stage = .queued)
      (gone : p.db.jobs.get cfg.jobId = none ∨ p.db.files.get f.fileId = none) :
      PassMove cfg p (.check key) (p.withStage f.key (.finished (some .nothing)))
  | begins {f : Future} {key : Nat} {activeAssignmentId : Option Nat} (mem : f ∈ p.futures)
      (stage : f.stage = .checked activeAssignmentId) :
      PassMove cfg p (.beginCopy key true) (p.beginCopy f activeAssignmentId true)
  | finishes {f : Future} {key : Nat} {outcome : AttemptOutcome} {now : Nat} {saved : Bool}
      (mem : f ∈ p.futures) (stage : f.stage = .copying) :
      PassMove cfg p (.finish key outcome now saved) (p.finish cfg f outcome now saved)
  | fails {a : PassAction} {f : Future} {report : Option Report} (mem : f ∈ p.futures)
      (live : f.done = false) (unsaved : ¬ Calm a) (nothing : ∀ r, report = some r → r = .nothing) :
      PassMove cfg p a (p.withStage f.key (.finished report))
  | cancel {key : Nat} {reason : PassEnd} (pc : p.pc = .ended reason) :
      PassMove cfg p (.cancel key) { p with futures := p.futures.filter fun g => g.key ≠ key }
  | pause : PassMove cfg p .pause { p with db := settle (pauseJob p.db cfg.jobId) }
  | supersede {startedAt : Nat} :
      PassMove cfg p (.supersede startedAt) { p with db := superseded cfg p.db startedAt }

section Moves

variable {cfg : PassConfig} {p : Pass}

theorem future_eq_some {key : Nat} {f : Future} (h : p.future key = some f) : f ∈ p.futures ∧ f.key = key := by
  have same := List.find?_some h
  exact ⟨List.mem_of_find?_eq_some h, of_decide_eq_true same⟩

theorem passMove_check {f : Future} {key : Nat} (mem : f ∈ p.futures) (queued : f.stage = .queued) :
    PassMove cfg p (.check key) (p.check cfg f) := by
  unfold Pass.check
  cases job : p.db.jobs.get cfg.jobId with
  | none => exact .missing mem queued (.inl job)
  | some j =>
      cases file : p.db.files.get f.fileId with
      | none => exact .missing mem queued (.inr file)
      | some r =>
          dsimp only
          split
          · rename_i pausing
            exact .putBack mem queued ⟨j, job, .inr pausing⟩
          · exact .checked mem queued _

theorem passMove (cfg : PassConfig) (p : Pass) (a : PassAction) : PassMove cfg p a (passStep cfg p a) := by
  cases a with
  | loop input => exact .loop (loopMove cfg p input)
  | check key =>
      simp only [passStep]
      split
      · rename_i f found
        split
        · rename_i queued
          exact passMove_check (future_eq_some found).1 queued
        · exact .idle
      · exact .idle
  | beginCopy key saved =>
      simp only [passStep]
      split
      · rename_i f found
        split
        · rename_i activeAssignmentId stage
          cases saved with
          | true => exact .begins (future_eq_some found).1 stage
          | false =>
              rw [Pass.beginCopy, if_neg (by simp)]
              refine .fails (future_eq_some found).1 (by simp [Future.done, stage]) (by simp [Calm]) ?_
              rintro r ⟨⟩
              rfl
        · exact .idle
      · exact .idle
  | finish key outcome now saved =>
      simp only [passStep]
      split
      · rename_i f found
        split
        · rename_i stage
          exact .finishes (future_eq_some found).1 stage
        · exact .idle
      · exact .idle
  | raise key =>
      simp only [passStep]
      split
      · rename_i f found
        split
        · exact .idle
        · rename_i live
          obtain ⟨mem, rfl⟩ := future_eq_some found
          exact .fails mem (Bool.eq_false_iff.mpr live) id fun r h => by cases h
      · exact .idle
  | cancel key =>
      simp only [passStep]
      split
      · rename_i pc
        split
        · exact .cancel pc
        · exact .idle
      · exact .idle
  | pause => exact .pause
  | supersede startedAt => exact .supersede

end Moves

end Ecube.Scheduler
