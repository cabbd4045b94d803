import Ecube.Lifecycle

/-!
`run_copy_job`, transaction by transaction.

A run keeps its own session. `cached` is the job object of that session, `none`
once it is expired, and a commit writes the columns in which the object differs
from what was loaded (`flushJob`); the other columns keep what other
transactions have written in the meantime. Between two steps anything else may
happen: requests, file workers, another run.

The decision after a full target takes the row lock of the job. When it does not
move the job, the final status is written under the same lock, so the two are
one step (`resolving`); without failed files they are two (`finalizing`,
`committing`).
-/

namespace Ecube

open Table

inductive RunPc where
  | opening
  | opened
  | preparing
  | deciding
  | loading
  | entering
  | copying
  | settling
  | lingering
  | counting
  | resolving
  | finalizing
  | committing (finishedAt : Nat)
  | reporting
  | failing (reason : String)
  | failed (reason : String) (finishedAt : Nat)
  | finished
  deriving DecidableEq

structure CopyRun where
  pc : RunPc
  startedAt : Option Nat
  cached : Option ExportJob
  pauseRequested : Bool
  stopForTargetFull : Bool
  /-- Files that are done, failed or timed out, and those of them that are not done. -/
  outcomes : Nat
  failures : Nat

/-- A run that has been handed to the background tasks. -/
def CopyRun.launched : CopyRun := ⟨.opening, none, none, false, false, 0, 0⟩

/-- What can go wrong in a step: its commit, or anything else in it. -/
inductive Trouble where
  | commitFails (reason : String)
  | raised (reason : String)

/-- What a step takes from its surroundings: the clock, the source tree, the
state of the scheduler and the space on the drives. -/
structure RunInput where
  now : Nat
  trouble : Option Trouble
  tree : SourceTree
  directoriesUnchanged : Bool
  includeTargetFull : Bool
  exhausted : Bool
  probe : Str → Option Nat

/-! ### Commits of the run's session -/

/-- A column after a commit: written only if it was changed since it was loaded. -/
def flush {α : Type} [DecidableEq α] (loaded new row : α) : α :=
  if new = loaded then row else new

theorem flush_self {α : Type} [DecidableEq α] (loaded new : α) : flush loaded new loaded = new := by
  rw [flush]
  split
  · rename_i same
    exact same.symm
  · rfl

/-- The columns of a job that a run sets on its own object. -/
def flushJob (loaded new row : ExportJob) : ExportJob :=
  { row with
    status := flush loaded.status new.status row.status
    startedAt := flush loaded.startedAt new.startedAt row.startedAt
    copyStartedAt := flush loaded.copyStartedAt new.copyStartedAt row.copyStartedAt
    completedAt := flush loaded.completedAt new.completedAt row.completedAt
    failureReason := flush loaded.failureReason new.failureReason row.failureReason
    startupAnalysis := flush loaded.startupAnalysis new.startupAnalysis row.startupAnalysis }

theorem flushJob_id (loaded new row : ExportJob) : (flushJob loaded new row).id = row.id := rfl

def commitJob (s : Db) (jobId : Nat) (loaded new : ExportJob) : Db :=
  s.modifyJob jobId (flushJob loaded new) (flushJob_id loaded new)

theorem get_commitJob {s : Db} {jobId : Nat} {loaded new : ExportJob} :
    (commitJob s jobId loaded new).jobs.get jobId = (s.jobs.get jobId).map (flushJob loaded new) :=
  Db.get_modifyJob

/-! ### The steps -/

def openedJob (job : ExportJob) (now : Nat) : ExportJob :=
  { job with
    status := .preparing
    startedAt := job.startedAt.or (some now)
    completedAt := none
    failureReason := none }

def runningJob (job : ExportJob) (now : Nat) : ExportJob :=
  { job with status := .running, copyStartedAt := some now }

/-- Files of the job that no worker has brought to an end. -/
def lingeringFile (jobId : Nat) (f : ExportFile) : Bool :=
  f.jobId = jobId ∧ (f.status = .copying ∨ f.status = .retrying)

def resetLingering (s : Db) (jobId : Nat) : Db :=
  s.updateFiles (lingeringFile jobId) (fun f => { f with status := .pending }) ExportFile.pending_id

def errorCount (s : Db) (jobId : Nat) : Nat := s.countFiles jobId fun f => f.status = .error

def timeoutCount (s : Db) (jobId : Nat) : Nat := s.countFiles jobId fun f => f.status = .timeout

/-- The row a run that owns the job ends with. -/
def CopyRun.finalJob (r : CopyRun) (job : ExportJob) (targetFullFailed : Bool) (now : Nat) :
    ExportJob :=
  let allFilesFinished := decide (job.fileCount ≤ r.outcomes)
  let status := finalStatus r.pauseRequested targetFullFailed allFilesFinished job.status
  clearStartupAnalysisEntries (decide (status = .completed ∧ r.failures = 0))
    (finishedJob status (if targetFullFailed then
      some "Destination capacity exhausted and no assigned drive can continue this copy"
      else none) now job)

/-- After the final commit a paused run returns; the others write their audit
record, call back and generate the manifest. -/
def pcAfterFinal (new : ExportJob) : RunPc :=
  if new.status = .paused then .finished else .reporting

/-- One look at the job during the scheduling loop (`_handle_worker_completion`). -/
def CopyRun.poll (r : CopyRun) (s : Db) (jobId : Nat) (includeTargetFull : Bool) : CopyRun :=
  match s.jobs.get jobId with
  | none => r
  | some job =>
      if job.startedAt ≠ none ∧ job.startedAt ≠ r.startedAt then { r with pc := .finished }
      else if job.status = .pausing ∨ job.status = .paused then
        { r with pauseRequested := true, pc := .settling }
      else if includeTargetFull ∧ shouldAttemptTargetFullContinuation (s.listIncompleteByJob jobId) ∧
          s.getActiveForJob jobId ≠ none then
        { r with stopForTargetFull := true, pc := .settling }
      else r

/-- The final commit under the row lock that the decision after a full target
has taken. A run that has lost the job returns, and what was probed is rolled back. -/
def CopyRun.finalizeLocked (r : CopyRun) (s probed : Db) (jobId : Nat) (targetFullFailed : Bool)
    (now : Nat) : Db × CopyRun :=
  match probed.jobs.get jobId with
  | none => (s, { r with pc := .finished })
  | some job =>
      if job.startedAt ≠ r.startedAt then (s, { r with pc := .finished })
      else
        let new := r.finalJob job targetFullFailed now
        (commitJob probed jobId job new, { r with pc := pcAfterFinal new })

def CopyRun.resolve (r : CopyRun) (s : Db) (jobId : Nat) (input : RunInput) : Db × CopyRun :=
  match resolveTargetFullOutcome s jobId input.probe input.now with
  | (.continued, moved) => (moved, { r with cached := none, pc := .preparing })
  | (.failed, probed) => r.finalizeLocked s probed jobId true input.now
  | (.notApplicable, probed) => r.finalizeLocked s probed jobId false input.now

/-- A step in which nothing goes wrong. -/
def CopyRun.advance (r : CopyRun) (s : Db) (jobId : Nat) (input : RunInput) : Db × CopyRun :=
  match r.pc with
  | .opening =>
      match s.jobs.get jobId with
      | none => (s, { r with pc := .finished })
      | some job =>
          if job.status = .paused then (s, { r with pc := .finished })
          else (s, { r with cached := some job, pc := .opened })
  | .opened =>
      match r.cached with
      | none => (s, { r with pc := .finished })
      | some job =>
          let new := openedJob job input.now
          let saved := commitJob s jobId job new
          (saved, { r with
            startedAt := new.startedAt, cached := saved.jobs.get jobId, pc := .preparing })
  | .preparing =>
      match s.jobs.get jobId with
      | none => (s, { r with pc := .finished })
      | some job =>
          let analysed := analyseSource s job input.tree input.directoriesUnchanged
          if cachedFileCount analysed jobId = 0 then
            (analysisFailed analysed jobId,
              { r with pc := .failing "Source path contains no transferable files" })
          else (prepared analysed jobId, { r with pc := .deciding })
  | .deciding =>
      match s.jobs.get jobId with
      | none => (s, { r with pc := .finished })
      | some job =>
          let paused := decide (job.status = .pausing ∨ job.status = .paused)
          (s, { r with
            pauseRequested := paused
            stopForTargetFull := false
            pc := if paused then .settling else .loading })
  | .loading =>
      match r.cached.or (s.jobs.get jobId) with
      | none => (s, { r with pc := .finished })
      | some job => (s, { r with cached := some job, pc := .entering })
  | .entering =>
      match r.cached with
      | none => (s, { r with pc := .finished })
      | some job =>
          let saved := commitJob s jobId job (runningJob job input.now)
          (saved, { r with cached := saved.jobs.get jobId, pc := .copying })
  | .copying =>
      if input.exhausted then (s, { r with pc := .settling })
      else (s, r.poll s jobId input.includeTargetFull)
  | .settling =>
      match s.jobs.get jobId with
      | none => (s, { r with cached := none, pc := .lingering })
      | some job =>
          if job.startedAt ≠ r.startedAt then (s, { r with pc := .finished })
          else (s, { r with cached := none, pc := .lingering })
  | .lingering =>
      if s.files.any (lingeringFile jobId) ∧ r.pauseRequested = false then
        (resetLingering s jobId, { r with pc := .preparing })
      else (s, { r with pc := .counting })
  | .counting =>
      let counted := { r with
        outcomes := s.countFiles jobId (fun f => f.status = FileStatus.done) + s.retryableCount jobId
        failures := s.retryableCount jobId }
      (s, { counted with
        pc := if 0 < errorCount s jobId ∧ timeoutCount s jobId = 0 then .resolving else .finalizing })
  | .resolving => r.resolve s jobId input
  | .finalizing =>
      match s.jobs.get jobId with
      | none => (s, { r with pc := .finished })
      | some job =>
          if job.startedAt ≠ r.startedAt then (s, { r with pc := .finished })
          else (s, { r with cached := some job, pc := .committing input.now })
  | .committing finishedAt =>
      match r.cached with
      | none => (s, { r with pc := .finished })
      | some job =>
          let new := r.finalJob job false finishedAt
          (commitJob s jobId job new, { r with pc := pcAfterFinal new })
  | .reporting => (s, { r with pc := .finished })
  | .failing reason =>
      match s.jobs.get jobId with
      | none => (s, { r with pc := .finished })
      | some job => (s, { r with cached := some job, pc := .failed reason input.now })
  | .failed reason finishedAt =>
      match r.cached with
      | none => (s, { r with pc := .finished })
      | some job =>
          (commitJob s jobId job (finishedJob .failed (some reason) finishedAt job),
            { r with pc := .finished })
  | .finished => (s, r)

/-- Where a failure leads: out of the run, or to the handler that fails the job. -/
def CopyRun.pcAfterTrouble (r : CopyRun) : Trouble → RunPc
  | .commitFails reason =>
      match r.pc with
      | .preparing | .resolving => .failing reason
      | .committing finishedAt =>
          if (r.cached.map fun job => (r.finalJob job false finishedAt).status) = some .paused then
            .finished
          else .failing reason
      | _ => .finished
  | .raised reason =>
      match r.pc with
      | .opening | .opened | .entering | .failing _ | .failed _ _ | .finished => .finished
      | _ => .failing reason

theorem CopyRun.pcAfterTrouble_cases (r : CopyRun) (trouble : Trouble) :
    r.pcAfterTrouble trouble = .finished ∨ ∃ reason, r.pcAfterTrouble trouble = .failing reason := by
  cases trouble with
  | commitFails reason =>
      unfold CopyRun.pcAfterTrouble
      dsimp only
      split
      · exact .inr ⟨reason, rfl⟩
      · exact .inr ⟨reason, rfl⟩
      · split
        · exact .inl rfl
        · exact .inr ⟨reason, rfl⟩
      · exact .inl rfl
  | raised reason =>
      unfold CopyRun.pcAfterTrouble
      dsimp only
      split <;> first | exact .inl rfl | exact .inr ⟨reason, rfl⟩

def CopyRun.step (r : CopyRun) (s : Db) (jobId : Nat) (input : RunInput) : Db × CopyRun :=
  match input.trouble with
  | none => r.advance s jobId input
  | some trouble =>
      (if r.pc = .preparing then analysisFailed s jobId else s,
        { r with pc := r.pcAfterTrouble trouble })

section Next

variable {r : CopyRun} {s : Db} {jobId : Nat} {input : RunInput}

/-- A property of the database and the run after a step. -/
theorem CopyRun.step_rule {P : Db × CopyRun → Prop}
    (advance : input.trouble = none → P (r.advance s jobId input))
    (trouble : ∀ t pc, input.trouble = some t → pc = r.pcAfterTrouble t →
      P (if r.pc = .preparing then analysisFailed s jobId else s, { r with pc := pc })) :
    P (r.step s jobId input) := by
  unfold CopyRun.step
  cases h : input.trouble with
  | none => exact advance h
  | some t => exact trouble t _ h rfl

theorem pcAfterFinal_cases (new : ExportJob) :
    pcAfterFinal new = .finished ∨ pcAfterFinal new = .reporting := by
  rw [pcAfterFinal]
  split
  · exact .inl rfl
  · exact .inr rfl

/-- What a step in which nothing goes wrong does, by the point it is taken at. -/
inductive RunAdvance (r : CopyRun) (s : Db) (jobId : Nat) (input : RunInput) : Db × CopyRun → Prop where
  | ends : RunAdvance r s jobId input (s, { r with pc := .finished })
  | idle (pc : r.pc = .copying ∨ r.pc = .finished) : RunAdvance r s jobId input (s, r)
  | opening {job : ExportJob} (pc : r.pc = .opening) (found : s.jobs.get jobId = some job)
      (unpaused : job.status ≠ .paused) :
      RunAdvance r s jobId input (s, { r with cached := some job, pc := .opened })
  | opened {job : ExportJob} (pc : r.pc = .opened) (cached : r.cached = some job) :
      RunAdvance r s jobId input (commitJob s jobId job (openedJob job input.now), { r with
        startedAt := (openedJob job input.now).startedAt
        cached := (commitJob s jobId job (openedJob job input.now)).jobs.get jobId
        pc := .preparing })
  | noFiles {job : ExportJob} (pc : r.pc = .preparing) (found : s.jobs.get jobId = some job)
      (empty : cachedFileCount (analyseSource s job input.tree input.directoriesUnchanged) jobId = 0) :
      RunAdvance r s jobId input
        (analysisFailed (analyseSource s job input.tree input.directoriesUnchanged) jobId,
          { r with pc := .failing "Source path contains no transferable files" })
  | prepared {job : ExportJob} (pc : r.pc = .preparing) (found : s.jobs.get jobId = some job)
      (listed : cachedFileCount (analyseSource s job input.tree input.directoriesUnchanged) jobId ≠ 0) :
      RunAdvance r s jobId input
        (prepared (analyseSource s job input.tree input.directoriesUnchanged) jobId,
          { r with pc := .deciding })
  | pauseFound {job : ExportJob} (pc : r.pc = .deciding) (found : s.jobs.get jobId = some job)
      (paused : job.status = .pausing ∨ job.status = .paused) :
      RunAdvance r s jobId input
        (s, { r with pauseRequested := true, stopForTargetFull := false, pc := .settling })
  | goesOn {job : ExportJob} (pc : r.pc = .deciding) (found : s.jobs.get jobId = some job)
      (unpaused : ¬ (job.status = .pausing ∨ job.status = .paused)) :
      RunAdvance r s jobId input
        (s, { r with pauseRequested := false, stopForTargetFull := false, pc := .loading })
  | loading {job : ExportJob} (pc : r.pc = .loading)
      (loaded : r.cached.or (s.jobs.get jobId) = some job) :
      RunAdvance r s jobId input (s, { r with cached := some job, pc := .entering })
  | entering {job : ExportJob} (pc : r.pc = .entering) (cached : r.cached = some job) :
      RunAdvance r s jobId input (commitJob s jobId job (runningJob job input.now), { r with
        cached := (commitJob s jobId job (runningJob job input.now)).jobs.get jobId
        pc := .copying })
  | exhausted (pc : r.pc = .copying) : RunAdvance r s jobId input (s, { r with pc := .settling })
  | pauseSeen (pc : r.pc = .copying) :
      RunAdvance r s jobId input (s, { r with pauseRequested := true, pc := .settling })
  | fullSeen (pc : r.pc = .copying)
      (attempt : shouldAttemptTargetFullContinuation (s.listIncompleteByJob jobId) = true)
      (active : s.getActiveForJob jobId ≠ none) :
      RunAdvance r s jobId input (s, { r with stopForTargetFull := true, pc := .settling })
  | settling (pc : r.pc = .settling)
      (owned : ∀ job, s.jobs.get jobId = some job → job.startedAt = r.startedAt) :
      RunAdvance r s jobId input (s, { r with cached := none, pc := .lingering })
  | lingers (pc : r.pc = .lingering) (unfinished : s.files.any (lingeringFile jobId) = true)
      (unpaused : r.pauseRequested = false) :
      RunAdvance r s jobId input (resetLingering s jobId, { r with pc := .preparing })
  | lingering (pc : r.pc = .lingering) : RunAdvance r s jobId input (s, { r with pc := .counting })
  | counting {pc' : RunPc} (pc : r.pc = .counting) (next : pc' = .resolving ∨ pc' = .finalizing) :
      RunAdvance r s jobId input (s, { r with
        outcomes := s.countFiles jobId (fun f => f.status = FileStatus.done) + s.retryableCount jobId
        failures := s.retryableCount jobId
        pc := pc' })
  | continued (pc : r.pc = .resolving)
      (outcome : (resolveTargetFullOutcome s jobId input.probe input.now).1 = .continued) :
      RunAdvance r s jobId input ((resolveTargetFullOutcome s jobId input.probe input.now).2,
        { r with cached := none, pc := .preparing })
  | finalized {job : ExportJob} {targetFullFailed : Bool} {pc' : RunPc} (pc : r.pc = .resolving)
      (outcome : (resolveTargetFullOutcome s jobId input.probe input.now).1 ≠ .continued)
      (found : (resolveTargetFullOutcome s jobId input.probe input.now).2.jobs.get jobId = some job)
      (owned : job.startedAt = r.startedAt) (after : pc' = .finished ∨ pc' = .reporting) :
      RunAdvance r s jobId input
        (commitJob (resolveTargetFullOutcome s jobId input.probe input.now).2 jobId job
            (r.finalJob job targetFullFailed input.now), { r with pc := pc' })
  | finalizing {job : ExportJob} (pc : r.pc = .finalizing) (found : s.jobs.get jobId = some job)
      (owned : job.startedAt = r.startedAt) :
      RunAdvance r s jobId input (s, { r with cached := some job, pc := .committing input.now })
  | committing {job : ExportJob} {finishedAt : Nat} {pc' : RunPc} (pc : r.pc = .committing finishedAt)
      (cached : r.cached = some job) (after : pc' = .finished ∨ pc' = .reporting) :
      RunAdvance r s jobId input
        (commitJob s jobId job (r.finalJob job false finishedAt), { r with pc := pc' })
  | failing {job : ExportJob} {reason : String} (pc : r.pc = .failing reason)
      (found : s.jobs.get jobId = some job) :
      RunAdvance r s jobId input (s, { r with cached := some job, pc := .failed reason input.now })
  | failed {job : ExportJob} {reason : String} {finishedAt : Nat}
      (pc : r.pc = .failed reason finishedAt) (cached : r.cached = some job) :
      RunAdvance r s jobId input
        (commitJob s jobId job (finishedJob .failed (some reason) finishedAt job),
          { r with pc := .finished })

theorem advance_poll (pc : r.pc = .copying) :
    RunAdvance r s jobId input (s, r.poll s jobId input.includeTargetFull) := by
  unfold CopyRun.poll
  split
  · exact .idle (.inl pc)
  · split
    · exact .ends
    · split
      · exact .pauseSeen pc
      · split
        · rename_i full
          exact .fullSeen pc full.2.1 full.2.2
        · exact .idle (.inl pc)

theorem advance_resolve (pc : r.pc = .resolving) :
    RunAdvance r s jobId input (r.resolve s jobId input) := by
  have locked : ∀ targetFullFailed,
      (resolveTargetFullOutcome s jobId input.probe input.now).1 ≠ .continued →
        RunAdvance r s jobId input (r.finalizeLocked s
          (resolveTargetFullOutcome s jobId input.probe input.now).2 jobId targetFullFailed input.now) := by
    intro targetFullFailed outcome
    unfold CopyRun.finalizeLocked
    split
    · exact .ends
    · rename_i job found
      split
      · exact .ends
      · rename_i owned
        exact .finalized pc outcome found (not_not.mp owned) (pcAfterFinal_cases _)
  unfold CopyRun.resolve
  split
  · rename_i moved decision
    have next : RunAdvance r s jobId input ((resolveTargetFullOutcome s jobId input.probe input.now).2,
        { r with cached := none, pc := .preparing }) := .continued pc (by rw [decision])
    rw [decision] at next
    exact next
  · rename_i probed decision
    have next := locked true (by simp [decision])
    rw [decision] at next
    exact next
  · rename_i probed decision
    have next := locked false (by simp [decision])
    rw [decision] at next
    exact next

theorem CopyRun.advance_cases : RunAdvance r s jobId input (r.advance s jobId input) := by
  unfold CopyRun.advance
  cases pc : r.pc with
  | opening =>
      dsimp only
      split
      · exact .ends
      · rename_i job found
        split
        · exact .ends
        · rename_i unpaused
          exact .opening pc found unpaused
  | opened =>
      dsimp only
      split
      · exact .ends
      · rename_i job cached
        exact .opened pc cached
  | preparing =>
      dsimp only
      split
      · exact .ends
      · rename_i job found
        split
        · rename_i empty
          exact .noFiles pc found empty
        · rename_i listed
          exact .prepared pc found listed
  | deciding =>
      dsimp only
      split
      · exact .ends
      · rename_i job found
        by_cases paused : job.status = .pausing ∨ job.status = .paused
        · simp only [paused, decide_true, if_true]
          exact .pauseFound pc found paused
        · simp only [paused, decide_false, Bool.false_eq_true, if_false]
          exact .goesOn pc found paused
  | loading =>
      dsimp only
      split
      · exact .ends
      · rename_i job loaded
        exact .loading pc loaded
  | entering =>
      dsimp only
      split
      · exact .ends
      · rename_i job cached
        exact .entering pc cached
  | copying =>
      dsimp only
      split
      · exact .exhausted pc
      · exact advance_poll pc
  | settling =>
      dsimp only
      split
      · rename_i missing
        refine .settling pc fun job found => ?_
        rw [missing] at found
        cases found
      · rename_i job found
        split
        · exact .ends
        · rename_i owned
          refine .settling pc fun job' found' => ?_
          rw [Option.some.inj (found'.symm.trans found)]
          exact not_not.mp owned
  | lingering =>
      dsimp only
      split
      · rename_i unfinished
        exact .lingers pc unfinished.1 unfinished.2
      · exact .lingering pc
  | counting =>
      dsimp only
      split
      · exact .counting pc (.inl rfl)
      · exact .counting pc (.inr rfl)
  | resolving => exact advance_resolve pc
  | finalizing =>
      dsimp only
      split
      · exact .ends
      · rename_i job found
        split
        · exact .ends
        · rename_i owned
          exact .finalizing pc found (not_not.mp owned)
  | committing finishedAt =>
      dsimp only
      split
      · exact .ends
      · rename_i job cached
        exact .committing pc cached (pcAfterFinal_cases _)
  | reporting => exact .ends
  | failing reason =>
      dsimp only
      split
      · exact .ends
      · rename_i job found
        exact .failing pc found
  | failed reason finishedAt =>
      dsimp only
      split
      · exact .ends
      · rename_i job cached
        exact .failed pc cached
  | finished => exact .idle (.inr pc)

end Next

/-! ### What one step can write -/

/-- The columns of a job that say who works on it, where, and how it ended. -/
structure Custody where
  status : JobStatus
  startedAt : Option Nat
  completedAt : Option Nat
  failureReason : Option String
  targetMountPath : Option Str
  deriving DecidableEq

def ExportJob.custody (j : ExportJob) : Custody :=
  ⟨j.status, j.startedAt, j.completedAt, j.failureReason, j.targetMountPath⟩

def custodyOf (s : Db) (jobId : Nat) : Option Custody :=
  (s.jobs.get jobId).map ExportJob.custody

def startedAtOf (s : Db) (jobId : Nat) : Option Nat := (s.jobs.get jobId).bind ExportJob.startedAt

def statusOf (s : Db) (jobId : Nat) : Option JobStatus := (s.jobs.get jobId).map ExportJob.status

/-- Neither these columns nor the assignments are written. -/
def Quiet (jobId : Nat) (s t : Db) : Prop :=
  custodyOf t jobId = custodyOf s jobId ∧ t.assignments.rows = s.assignments.rows

instance (jobId : Nat) (s t : Db) : Decidable (Quiet jobId s t) :=
  inferInstanceAs (Decidable (custodyOf t jobId = custodyOf s jobId ∧
    t.assignments.rows = s.assignments.rows))

theorem Quiet.refl (jobId : Nat) (s : Db) : Quiet jobId s s := ⟨rfl, rfl⟩

theorem Quiet.trans {jobId : Nat} {s t u : Db} (first : Quiet jobId s t) (second : Quiet jobId t u) :
    Quiet jobId s u :=
  ⟨second.1.trans first.1, second.2.trans first.2⟩

theorem quiet_modifyJob {s : Db} {jobId : Nat} {f : ExportJob → ExportJob}
    {key : ∀ r, (f r).id = r.id} (same : ∀ j, (f j).custody = j.custody) :
    Quiet jobId s (s.modifyJob jobId f key) := by
  refine ⟨?_, rfl⟩
  rw [custodyOf, custodyOf, Db.get_modifyJob, Option.map_map]
  congr 1
  funext j
  exact same j

/-- The analysis and the preparation write files and the counters of the job. -/
theorem quiet_analyseSource {s : Db} {jobId : Nat} {job : ExportJob} (tree : SourceTree)
    (directoriesUnchanged : Bool) (found : s.jobs.get jobId = some job) :
    Quiet jobId s (analyseSource s job tree directoriesUnchanged) := by
  obtain rfl : job.id = jobId := id_of_get found
  rw [analyseSource]
  split
  · exact .refl job.id s
  · obtain ⟨rows, listed⟩ := listFiles_files job.id tree.files s
    have files : ∀ files, Quiet job.id s { s with files := files } := fun _ => ⟨rfl, rfl⟩
    rw [persistStartupAnalysisCache, listed]
    exact (files _).trans (quiet_modifyJob fun _ => rfl)

theorem quiet_prepared (s : Db) (jobId : Nat) : Quiet jobId s (prepared s jobId) :=
  quiet_modifyJob (s := s.resetNonDoneForRestart jobId) fun _ => rfl

theorem statusOf_of_custodyOf {jobId : Nat} {s t : Db} (h : custodyOf t jobId = custodyOf s jobId) :
    statusOf t jobId = statusOf s jobId := by
  have column : ∀ u : Db, statusOf u jobId = (custodyOf u jobId).map Custody.status := by
    intro u
    rw [statusOf, custodyOf, Option.map_map]
    rfl
  rw [column, column, h]

theorem statusOf_commitJob {jobId : Nat} {s : Db} {loaded new : ExportJob} :
    statusOf (commitJob s jobId loaded new) jobId =
      (statusOf s jobId).map (flush loaded.status new.status) := by
  rw [statusOf, statusOf, get_commitJob, Option.map_map, Option.map_map]
  rfl

theorem statusOf_commitJob_same {jobId : Nat} {s : Db} {loaded new : ExportJob}
    (h : new.status = loaded.status) :
    statusOf (commitJob s jobId loaded new) jobId = statusOf s jobId := by
  rw [statusOf_commitJob]
  cases statusOf s jobId with
  | none => rfl
  | some status => rw [Option.map_some, flush, if_pos h]

/-- What a step of a run writes, by the point it is taken at. -/
inductive RunWrite (r : CopyRun) (s : Db) (jobId : Nat) (input : RunInput) : Db → Prop where
  | quiet {t : Db} (h : Quiet jobId s t) : RunWrite r s jobId input t
  | opened {job : ExportJob} {now : Nat} (pc : r.pc = .opened) (cached : r.cached = some job) :
      RunWrite r s jobId input (commitJob s jobId job (openedJob job now))
  | entered {job : ExportJob} {now : Nat} (pc : r.pc = .entering) (cached : r.cached = some job) :
      RunWrite r s jobId input (commitJob s jobId job (runningJob job now))
  | continued {probed : Db} {active next : DriveAssignment} {drive : UsbDrive} {now : Nat}
      (pc : r.pc = .resolving)
      (outcome : (resolveTargetFullOutcome s jobId input.probe input.now).1 = .continued)
      (frame : Quiet jobId s probed) :
      RunWrite r s jobId input (continueOnReserved probed jobId active next drive now)
  | finalized {probed : Db} {job : ExportJob} {targetFullFailed : Bool} {now : Nat}
      (pc : r.pc = .resolving) (frame : Quiet jobId s probed)
      (found : probed.jobs.get jobId = some job) (owned : job.startedAt = r.startedAt)
      (tables : probed.jobs = s.jobs ∧ probed.files = s.files) :
      RunWrite r s jobId input (commitJob probed jobId job (r.finalJob job targetFullFailed now))
  | committed {job : ExportJob} {finishedAt : Nat} (pc : r.pc = .committing finishedAt)
      (cached : r.cached = some job) :
      RunWrite r s jobId input (commitJob s jobId job (r.finalJob job false finishedAt))
  | failed {job : ExportJob} {reason : String} {finishedAt : Nat}
      (pc : r.pc = .failed reason finishedAt) (cached : r.cached = some job) :
      RunWrite r s jobId input (commitJob s jobId job (finishedJob .failed (some reason) finishedAt job))

section Writes

variable {r : CopyRun} {s : Db} {jobId : Nat} {input : RunInput}

/-- The decision leaves jobs and files as they are, or moves the job to a reserved drive. -/
theorem quiet_resolveTargetFullOutcome :
    ((resolveTargetFullOutcome s jobId input.probe input.now).1 ≠ .continued ∧
        Quiet jobId s (resolveTargetFullOutcome s jobId input.probe input.now).2 ∧
        (resolveTargetFullOutcome s jobId input.probe input.now).2.jobs = s.jobs ∧
        (resolveTargetFullOutcome s jobId input.probe input.now).2.files = s.files) ∨
      ∃ active next drive probed, Quiet jobId s probed ∧
        resolveTargetFullOutcome s jobId input.probe input.now =
          (.continued, continueOnReserved probed jobId active next drive input.now) := by
  rcases resolveTargetFullOutcome_rule
    (P := fun t => Quiet jobId s t ∧ t.jobs = s.jobs ∧ t.files = s.files)
    ⟨Quiet.refl jobId s, rfl, rfl⟩ (fun _ _ _ frame => frame) with
    stays | ⟨job, active, next, drive, probed, -, -, ⟨frame, -⟩, -, moved⟩
  · exact .inl stays
  · exact .inr ⟨active, next, drive, probed, frame, moved⟩

theorem runWrite_advance : RunWrite r s jobId input (r.advance s jobId input).1 := by
  have next : RunAdvance r s jobId input (r.advance s jobId input) := CopyRun.advance_cases
  generalize r.advance s jobId input = t at next
  cases next with
  | opened pc cached => exact .opened pc cached
  | noFiles pc found =>
      have analysed := quiet_analyseSource input.tree input.directoriesUnchanged found
      exact .quiet (analysed.trans (quiet_modifyJob fun _ => rfl))
  | prepared pc found =>
      have analysed := quiet_analyseSource input.tree input.directoriesUnchanged found
      exact .quiet (analysed.trans (quiet_prepared _ jobId))
  | entering pc cached => exact .entered pc cached
  | lingers => exact .quiet ⟨rfl, rfl⟩
  | continued pc outcome =>
      rcases @quiet_resolveTargetFullOutcome s jobId input with
        ⟨stays, -⟩ | ⟨active, next, drive, probed, frame, moved⟩
      · exact absurd outcome stays
      · rw [moved]
        exact .continued pc outcome frame
  | finalized pc outcome found owned after =>
      rcases @quiet_resolveTargetFullOutcome s jobId input with
        ⟨-, frame, tables⟩ | ⟨active, next, drive, probed, frame, moved⟩
      · exact .finalized pc frame found owned tables
      · rw [moved] at outcome
        exact absurd rfl outcome
  | committing pc cached after => exact .committed pc cached
  | failed pc cached => exact .failed pc cached
  | ends | idle | opening | pauseFound | goesOn | loading | exhausted | pauseSeen | fullSeen | settling
  | lingering | counting | finalizing | failing => exact .quiet (.refl jobId s)

/-- Every step, also one in which something goes wrong. -/
theorem runWrite_step : RunWrite r s jobId input (r.step s jobId input).1 := by
  unfold CopyRun.step
  cases input.trouble with
  | none => exact runWrite_advance
  | some trouble =>
      dsimp only
      split
      · exact .quiet (quiet_modifyJob fun _ => rfl)
      · exact .quiet (.refl jobId s)

end Writes

/-! ### `started_at` of the row -/

section StartedAt

variable {jobId : Nat} {s t : Db}

theorem startedAtOf_of_custodyOf (h : custodyOf t jobId = custodyOf s jobId) :
    startedAtOf t jobId = startedAtOf s jobId := by
  have column : ∀ u : Db, startedAtOf u jobId = (custodyOf u jobId).bind Custody.startedAt := by
    intro u
    rw [startedAtOf, custodyOf, Option.bind_map]
    rfl
  rw [column, column, h]

theorem startedAtOf_modifyJob {f : ExportJob → ExportJob} (key : ∀ r, (f r).id = r.id)
    (same : ∀ j, (f j).startedAt = j.startedAt) :
    startedAtOf (s.modifyJob jobId f key) jobId = startedAtOf s jobId := by
  rw [startedAtOf, startedAtOf, Db.get_modifyJob, Option.bind_map]
  congr 1
  funext j
  exact same j

theorem startedAtOf_commitJob {loaded new : ExportJob} (same : new.startedAt = loaded.startedAt) :
    startedAtOf (commitJob s jobId loaded new) jobId = startedAtOf s jobId := by
  apply startedAtOf_modifyJob (flushJob_id loaded new)
  intro j
  change flush _ _ _ = _
  rw [flush, if_pos same]

/-- A run writes `started_at` only when it has loaded a job without one. -/
theorem startedAtOf_step {r : CopyRun} {input : RunInput}
    (loaded : r.pc = .opened → ∀ job, r.cached = some job → job.startedAt ≠ none) :
    startedAtOf (r.step s jobId input).1 jobId = startedAtOf s jobId := by
  have write : RunWrite r s jobId input (r.step s jobId input).1 := runWrite_step
  generalize (r.step s jobId input).1 = t at write
  cases write with
  | quiet h => exact startedAtOf_of_custodyOf h.1
  | @opened job now pc cached =>
      apply startedAtOf_commitJob
      cases startedAt : job.startedAt with
      | none => exact absurd startedAt (loaded pc job cached)
      | some x =>
          rw [openedJob, startedAt]
          rfl
  | entered pc cached => exact startedAtOf_commitJob rfl
  | @continued probed active next drive now pc outcome frame =>
      refine Eq.trans ?_ (startedAtOf_of_custodyOf frame.1)
      rw [startedAtOf, startedAtOf, get_continueOnReserved, Option.bind_map]
      rfl
  | @finalized probed job targetFullFailed now pc frame found owned tables =>
      have same : (r.finalJob job targetFullFailed now).startedAt = job.startedAt := rfl
      exact (startedAtOf_commitJob same).trans (startedAtOf_of_custodyOf frame.1)
  | committed pc cached => exact startedAtOf_commitJob rfl
  | failed pc cached => exact startedAtOf_commitJob rfl

end StartedAt

namespace Lab

/-- A job with overflow drive 2 is created and started. -/
def startOne : List Action :=
  [⟨1, .createJob (body "/data/a" (some 1) (some 2)) none⟩, ⟨2, .startJob 1 none⟩]

def started : Db := Transition.exec (step settings) start startOne

/-- An undisturbed step: two files are found, drives have 100 bytes left. -/
def input (now : Nat) : RunInput :=
  ⟨now, none, ⟨[("f".toList, 10), ("g".toList, 10)], by decide⟩, false, true, false,
    fun _ => some 100⟩

end Lab

end Ecube
