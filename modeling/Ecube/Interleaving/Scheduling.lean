import Ecube.Interleaving.CopyRun

/-!
The copy phase of a run: its scheduling loop and the workers of its pool.

The loop submits the pending files of the job in the order of their keys, and
the retries of failed attempts when they are due. A worker (`_process_file`)
makes one attempt: it commits `COPYING`, copies, and commits the outcome; a
commit that fails leaves the row as it was. The loop ends when it has nothing
left to do, or when a poll finds a pause or a full target; then the pool is shut
down, which cancels what has not begun and waits for the rest. Workers may
finish in any order.
-/

namespace Ecube

open Table Transition

/-- A submitted attempt; `begun` once its worker has committed `COPYING`. -/
structure Flight where
  fileId : Nat
  attempt : Nat
  begun : Bool
  deriving DecidableEq

/-- The futures of the loop, its deferred retries and its cursor into the
pending files. -/
structure Pool where
  flights : List Flight
  deferred : List (Nat × Nat)
  cursor : Nat
  maxRetries : Nat

def Pool.drop (p : Pool) (fileId : Nat) : Pool :=
  { p with flights := p.flights.filter fun fl => fl.fileId ≠ fileId }

def Pool.flight (p : Pool) (fileId : Nat) (begun : Bool) : Option Flight :=
  p.flights.find? fun fl => fl.fileId = fileId ∧ fl.begun = begun

/-- The database, the run, its pool, and the files of the last preparation. -/
structure Execution where
  db : Db
  run : CopyRun
  pool : Pool
  scan : List Str

/-- A run that has been launched. -/
def Execution.launched (s : Db) : Execution := ⟨s, .launched, ⟨[], [], 0, 0⟩, []⟩

/-- How a copy attempt ends. -/
inductive AttemptOutcome where
  | done (checksum : Str)
  | timeout (errorMessage : String)
  | failed (errorMessage : String)

/-- `saved` is false when the commit of the step fails or the worker raises. -/
inductive ExecAction where
  | run (input : RunInput)
  | submit
  | resubmit (fileId : Nat)
  | beginAttempt (fileId : Nat) (saved : Bool)
  | endAttempt (fileId : Nat) (outcome : AttemptOutcome) (saved : Bool)
  | cancel (fileId : Nat)
  | pause

/-- `_list_pending_copy_job_files`, one row at a time. -/
def nextPending (s : Db) (jobId cursor : Nat) : Option ExportFile :=
  s.files.first (fun f => f.jobId = jobId ∧ f.status = .pending ∧ cursor < f.id)
    fun a b => a.id ≤ b.id

def setFile (s : Db) (fileId : Nat) (f : ExportFile → ExportFile) (key : ∀ r, (f r).id = r.id) : Db :=
  s.updateFiles (fun r => r.id = fileId) f key

/-- The row of a file after an attempt. -/
def attemptedFile (retry : Bool) (attempt : Nat) (outcome : AttemptOutcome) (f : ExportFile) :
    ExportFile :=
  match outcome with
  | .done checksum => { f with status := .done, checksum := some checksum }
  | .timeout errorMessage =>
      { f with status := .timeout, checksum := none, errorMessage := some errorMessage }
  | .failed errorMessage =>
      if retry then { f with status := .retrying, retryAttempts := attempt + 1 }
      else { f with status := .error, checksum := none, errorMessage := some errorMessage }

theorem attemptedFile_id (retry : Bool) (attempt : Nat) (outcome : AttemptOutcome) (f : ExportFile) :
    (attemptedFile retry attempt outcome f).id = f.id := by
  cases outcome with
  | failed errorMessage => cases retry <;> rfl
  | done checksum => rfl
  | timeout errorMessage => rfl

/-- Whether the attempt is repeated: only a failure is, up to the limit. -/
def Pool.retries (p : Pool) (fl : Flight) : AttemptOutcome → Bool
  | .failed _ => fl.attempt < p.maxRetries
  | _ => false

def beginAttempt (jobId : Nat) (w : Execution) (fl : Flight) : Execution :=
  match w.db.jobs.get jobId, w.db.files.get fl.fileId with
  | some job, some _ =>
      if job.status = .pausing ∨ job.status = .paused then
        { w with
          db := setFile w.db fl.fileId (fun f => { f with status := .pending }) ExportFile.pending_id
          pool := w.pool.drop fl.fileId }
      else { w with
        db := setFile w.db fl.fileId (fun f => { f with
          status := .copying
          driveAssignmentId := (w.db.getActiveForJob jobId).map DriveAssignment.id }) fun _ => rfl
        pool := { w.pool with flights := w.pool.flights.map fun g =>
          if g.fileId = fl.fileId then { g with begun := true } else g } }
  | _, _ => { w with pool := w.pool.drop fl.fileId }

def endAttempt (w : Execution) (fl : Flight) (outcome : AttemptOutcome) : Execution :=
  let retry := w.pool.retries fl outcome
  let left := w.pool.drop fl.fileId
  { w with
    db := setFile w.db fl.fileId (attemptedFile retry fl.attempt outcome)
      (attemptedFile_id retry fl.attempt outcome)
    pool := if retry then
      { left with deferred := left.deferred ++ [(fl.fileId, fl.attempt + 1)] } else left }

/-- Leaving the copy phase waits for the workers, and its regular end also for
everything that is to be copied. -/
def Execution.ready (jobId : Nat) (w : Execution) (input : RunInput) : Bool :=
  match w.run.pc with
  | .copying =>
      if input.trouble.isSome then w.pool.flights = []
      else if input.exhausted then
        w.pool.flights = [] ∧ w.pool.deferred = [] ∧ nextPending w.db jobId w.pool.cursor = none
      else true
  | .settling => w.pool.flights = []
  | _ => true

/-- The files a preparation has found: those of the tree, or of the cached analysis. -/
def preparedScan (s : Db) (jobId : Nat) (input : RunInput) : List Str :=
  match s.jobs.get jobId with
  | some job =>
      if job.startupAnalysis.cachePresent &&
          cachedStartupAnalysisIsCurrent s job input.tree input.directoriesUnchanged then
        (jobFiles s jobId).map ExportFile.relativePath
      else input.tree.paths
  | none => []

/-- The pool of a new copy phase. -/
def newPool (s : Db) (jobId : Nat) : Pool :=
  ⟨[], [], 0, ((s.jobs.get jobId).map ExportJob.maxFileRetries).getD 0⟩

def execStep (jobId : Nat) (w : Execution) : ExecAction → Execution
  | .run input =>
      if w.ready jobId input then
        let next := w.run.step w.db jobId input
        { db := next.1
          run := next.2
          pool := if w.run.pc = .entering then newPool w.db jobId else w.pool
          scan := if w.run.pc = .preparing then preparedScan w.db jobId input else w.scan }
      else w
  | .submit =>
      match nextPending w.db jobId w.pool.cursor with
      | some f =>
          if w.run.pc = .copying then
            { w with pool := { w.pool with
              flights := w.pool.flights ++ [⟨f.id, 0, false⟩], cursor := f.id } }
          else w
      | none => w
  | .resubmit fileId =>
      match w.pool.deferred.find? fun e => e.1 = fileId with
      | some e =>
          if w.run.pc = .copying then
            { w with pool := { w.pool with
              flights := w.pool.flights ++ [⟨e.1, e.2, false⟩]
              deferred := w.pool.deferred.filter fun e => e.1 ≠ fileId } }
          else w
      | none => w
  | .beginAttempt fileId saved =>
      match w.pool.flight fileId false with
      | some fl => if saved then beginAttempt jobId w fl else { w with pool := w.pool.drop fileId }
      | none => w
  | .endAttempt fileId outcome saved =>
      match w.pool.flight fileId true with
      | some fl => if saved then endAttempt w fl outcome else { w with pool := w.pool.drop fileId }
      | none => w
  | .cancel fileId =>
      match w.pool.flight fileId false with
      | some _ => if w.run.pc = .copying then w else { w with pool := w.pool.drop fileId }
      | none => w
  | .pause => { w with db := settle (pauseJob w.db jobId) }

/-! ### What the loop and its workers write -/

/-- Steps of the loop that submit or cancel, and of the workers. -/
def ExecAction.ofPool : ExecAction → Bool
  | .run _ | .pause => false
  | _ => true

/-- A step that writes nothing but columns of files. -/
structure PoolFrame (w v : Execution) : Prop where
  run : v.run = w.run
  scan : v.scan = w.scan
  jobs : v.db.jobs = w.db.jobs
  assignments : v.db.assignments = w.db.assignments
  paths : ∀ k, filePaths v.db k = filePaths w.db k

theorem PoolFrame.of_db {w v : Execution} (run : v.run = w.run) (scan : v.scan = w.scan)
    (db : v.db = w.db) : PoolFrame w v :=
  ⟨run, scan, by rw [db], by rw [db], fun _ => by rw [db]⟩

theorem filePaths_setFile {s : Db} {fileId k : Nat} {g : ExportFile → ExportFile}
    (key : ∀ r, (g r).id = r.id) (job : ∀ r, (g r).jobId = r.jobId)
    (path : ∀ r, (g r).relativePath = r.relativePath) :
    filePaths (setFile s fileId g key) k = filePaths s k :=
  filePaths_updateFiles key job path

theorem attemptedFile_place (retry : Bool) (attempt : Nat) (outcome : AttemptOutcome)
    (f : ExportFile) :
    (attemptedFile retry attempt outcome f).jobId = f.jobId ∧
      (attemptedFile retry attempt outcome f).relativePath = f.relativePath := by
  cases outcome with
  | failed errorMessage => cases retry <;> exact ⟨rfl, rfl⟩
  | done checksum => exact ⟨rfl, rfl⟩
  | timeout errorMessage => exact ⟨rfl, rfl⟩

theorem poolFrame_beginAttempt (jobId : Nat) (w : Execution) (fl : Flight) :
    PoolFrame w (beginAttempt jobId w fl) := by
  unfold beginAttempt
  split
  · split
    · refine ⟨rfl, rfl, rfl, rfl, fun k => ?_⟩
      apply filePaths_setFile <;> exact fun _ => rfl
    · refine ⟨rfl, rfl, rfl, rfl, fun k => ?_⟩
      apply filePaths_setFile <;> exact fun _ => rfl
  · exact .of_db rfl rfl rfl

theorem poolFrame_endAttempt (w : Execution) (fl : Flight) (outcome : AttemptOutcome) :
    PoolFrame w (endAttempt w fl outcome) :=
  ⟨rfl, rfl, rfl, rfl, fun _ => filePaths_setFile (attemptedFile_id _ _ _)
    (fun r => (attemptedFile_place _ _ _ r).1) fun r => (attemptedFile_place _ _ _ r).2⟩

theorem poolFrame_step {jobId : Nat} {w : Execution} {a : ExecAction} (h : a.ofPool = true) :
    PoolFrame w (execStep jobId w a) := by
  cases a with
  | run input => cases h
  | pause => cases h
  | submit =>
      simp only [execStep]
      split
      · split <;> exact .of_db rfl rfl rfl
      · exact .of_db rfl rfl rfl
  | resubmit fileId =>
      simp only [execStep]
      split
      · split <;> exact .of_db rfl rfl rfl
      · exact .of_db rfl rfl rfl
  | beginAttempt fileId saved =>
      simp only [execStep]
      split
      · split
        · exact poolFrame_beginAttempt jobId w _
        · exact .of_db rfl rfl rfl
      · exact .of_db rfl rfl rfl
  | endAttempt fileId outcome saved =>
      simp only [execStep]
      split
      · split
        · exact poolFrame_endAttempt w _ outcome
        · exact .of_db rfl rfl rfl
      · exact .of_db rfl rfl rfl
  | cancel fileId =>
      simp only [execStep]
      split
      · split <;> exact .of_db rfl rfl rfl
      · exact .of_db rfl rfl rfl

/-- An idle pool takes part in nothing but the copy phase. -/
theorem poolStep_idle {jobId : Nat} {w : Execution} {a : ExecAction} (h : a.ofPool = true)
    (idle : w.pool.flights = []) (away : w.run.pc ≠ .copying) : execStep jobId w a = w := by
  have none : ∀ fileId begun, w.pool.flight fileId begun = none := by
    intro fileId begun
    rw [Pool.flight, idle]
    rfl
  cases a with
  | run input => cases h
  | pause => cases h
  | submit =>
      simp only [execStep]
      split
      · rw [if_neg away]
      · rfl
  | resubmit fileId =>
      simp only [execStep]
      split
      · rw [if_neg away]
      · rfl
  | beginAttempt fileId saved => simp only [execStep, none]
  | endAttempt fileId outcome saved => simp only [execStep, none]
  | cancel fileId => simp only [execStep, none]

end Ecube
