import Ecube.Basic.Transition
import Ecube.Services.Preparation

/-!
The recovery of jobs after a restart (`reconcile_jobs` of
`app/services/reconciliation_service.py`).

Three lists of jobs are read first: those in progress, those that are pausing
and those whose startup analysis was running. A job in progress fails, a pausing
job gets the status its run would have left, and an interrupted analysis is
restored from its cache or dropped. Everything is committed at the end.

The entries of the startup analysis and the revision numbers on job and file
rows are not modelled; whether they agree is part of the input.
-/

namespace Ecube

open Transition

/-- `_IN_PROGRESS_STATUSES`. -/
def inProgressStatuses : List JobStatus := [.preparing, .running, .verifying]

/-- What the recovery takes from outside the database: the clock, the space on
the drives, and for each job its source tree and the comparison of directories
and revision numbers. -/
structure RecoveryInput where
  now : Nat
  probe : Str → Option Nat
  tree : Nat → SourceTree
  directoriesUnchanged : Nat → Bool
  revisionsAgree : Nat → Bool

def inFlightFile (jobId : Nat) (f : ExportFile) : Bool :=
  f.jobId = jobId ∧ (f.status = .copying ∨ f.status = .retrying)

/-! ### Jobs in progress -/

def interruptedJob (now : Nat) (j : ExportJob) : ExportJob :=
  { j with
    status := .failed
    completedAt := some now
    failureReason := some "Job interrupted by service restart before completion" }

theorem interruptedJob_id (now : Nat) (j : ExportJob) : (interruptedJob now j).id = j.id := rfl

theorem backToPending_id (f : ExportFile) : (Db.backToPending f).id = f.id := rfl

/-- The body of the first loop of `reconcile_jobs`. -/
def failInterruptedJob (input : RecoveryInput) (s : Db) (job : ExportJob) : Db :=
  (s.updateFiles (inFlightFile job.id) Db.backToPending backToPending_id).modifyJob job.id
    (interruptedJob input.now) (interruptedJob_id input.now)

/-! ### Pausing jobs -/

def resetInFlight (s : Db) (jobId : Nat) : Db :=
  s.updateFiles (inFlightFile jobId) (fun f => { f with status := .pending }) ExportFile.pending_id

def targetFullFailureReason : String :=
  "Destination capacity exhausted and no assigned drive can continue this copy"

/-- The status a pausing job gets and its failure reason. Space that was probed
on the way is recorded on the drives. -/
def pausingOutcome (s : Db) (job : ExportJob) (resetInFlightFileCount : Nat)
    (probe : Str → Option Nat) : JobStatus × Option String × Db :=
  let doneCount := s.countFiles job.id fun f => f.status = .done
  let errorCount := s.countFiles job.id fun f => f.status = .error
  let timeoutCount := s.countFiles job.id fun f => f.status = .timeout
  if resetInFlightFileCount = 0 ∧ job.fileCount ≤ doneCount + errorCount + timeoutCount then
    if 0 < errorCount ∧ timeoutCount = 0 ∧
        shouldAttemptTargetFullContinuation (s.listIncompleteByJob job.id) then
      match selectAutomaticOverflowAssignment job probe (s.listReservedForJob job.id) s with
      | (none, probed) => (.failed, some targetFullFailureReason, probed)
      | (some _, probed) => (.paused, none, probed)
    else (.completed, none, s)
  else (.paused, none, s)

def recoveredJob (now : Nat) (status : JobStatus) (failureReason : Option String) (j : ExportJob) :
    ExportJob :=
  { j with
    status := status
    completedAt := if status = .paused then none else some now
    copyStartedAt := none
    failureReason := failureReason }

theorem recoveredJob_id (now : Nat) (status : JobStatus) (failureReason : Option String)
    (j : ExportJob) : (recoveredJob now status failureReason j).id = j.id := rfl

/-- `_reconcile_stale_pausing_job`. -/
def reconcileStalePausingJob (input : RecoveryInput) (s : Db) (job : ExportJob) : Db :=
  let resetInFlightFileCount := s.files.rows.countP (inFlightFile job.id)
  let outcome := pausingOutcome (resetInFlight s job.id) job resetInFlightFileCount input.probe
  outcome.2.2.modifyJob job.id (recoveredJob input.now outcome.1 outcome.2.1)
    (recoveredJob_id input.now outcome.1 outcome.2.1)

/-! ### Interrupted startup analyses -/

/-- `_clear_startup_analysis_cache`. -/
def clearStartupAnalysisCache (j : ExportJob) : ExportJob :=
  { j with startupAnalysis := ⟨.notAnalyzed, none, none, false, false⟩ }

/-- `_set_startup_analysis_ready`, with the counters of the cached analysis. -/
def restoreStartupAnalysis (cached : StartupAnalysis) (copiedBytes : Nat) (j : ExportJob) :
    ExportJob :=
  { j with
    fileCount := cached.fileCount.getD 0
    totalBytes := cached.totalBytes.getD 0
    copiedBytes := copiedBytes
    startupAnalysis := { j.startupAnalysis with status := .ready } }

theorem clearStartupAnalysisCache_id (j : ExportJob) : (clearStartupAnalysisCache j).id = j.id := rfl

theorem restoreStartupAnalysis_id (cached : StartupAnalysis) (copiedBytes : Nat) (j : ExportJob) :
    (restoreStartupAnalysis cached copiedBytes j).id = j.id := rfl

/-- `_reconcile_stale_startup_analysis`. -/
def reconcileStaleStartupAnalysis (input : RecoveryInput) (s : Db) (job : ExportJob) : Db :=
  if job.startupAnalysis.status ≠ .analyzing then s
  else if job.startupAnalysis.cachePresent && input.revisionsAgree job.id &&
      cachedStartupAnalysisIsCurrent s job (input.tree job.id) (input.directoriesUnchanged job.id) then
    s.modifyJob job.id (restoreStartupAnalysis job.startupAnalysis (doneBytes s job.id))
      (restoreStartupAnalysis_id job.startupAnalysis (doneBytes s job.id))
  else s.modifyJob job.id clearStartupAnalysisCache clearStartupAnalysisCache_id

/-! ### The recovery -/

/-- The three lists, as they were read. -/
structure RecoveryLists where
  jobs : List ExportJob
  pausingJobs : List ExportJob
  startupAnalysisJobs : List ExportJob

def recoveryLists (s : Db) : RecoveryLists where
  jobs := s.jobs.rows.filter fun j => j.status ∈ inProgressStatuses
  pausingJobs := s.jobs.rows.filter fun j => j.status = .pausing
  startupAnalysisJobs := s.jobs.rows.filter fun j => j.startupAnalysis.status = .analyzing

/-- The three loops and their commit. -/
def recoverJobs (input : RecoveryInput) (s : Db) (lists : RecoveryLists) : Db :=
  exec (reconcileStaleStartupAnalysis input)
    (exec (reconcileStalePausingJob input) (exec (failInterruptedJob input) s lists.jobs)
      lists.pausingJobs) lists.startupAnalysisJobs

/-- `reconcile_jobs`, when it returns normally. -/
def reconcileJobs (input : RecoveryInput) (s : Db) : Db := recoverJobs input s (recoveryLists s)

/-- `reconciled_jobs`: the jobs that lost their worker. -/
def reconciledJobs (s : Db) : List ExportJob := (recoveryLists s).jobs ++ (recoveryLists s).pausingJobs

/-! ### What the recovery of a job writes -/

/-- A drive without its recorded free space, which no decision reads. -/
def UsbDrive.unprobed (d : UsbDrive) : UsbDrive := { d with availableBytes := none }

/-- The drives are the same up to their recorded free space. -/
def SameDrives (s t : Db) : Prop :=
  ∀ k, (t.drives.get k).map UsbDrive.unprobed = (s.drives.get k).map UsbDrive.unprobed

/-- Nothing is written but the row of job `k`, files of it that are not done,
and recorded free space. -/
structure WritesJob (k : Nat) (s t : Db) : Prop where
  jobs : ∀ k', k' ≠ k → t.jobs.get k' = s.jobs.get k'
  files : ∀ k', k' ≠ k → jobFiles t k' = jobFiles s k'
  done : ∀ f, f.status = .done → (f ∈ t.files ↔ f ∈ s.files)
  assignments : t.assignments = s.assignments
  drives : SameDrives s t

section Writes

variable {s t u : Db} {k : Nat}

theorem WritesJob.refl (s : Db) : WritesJob k s s :=
  ⟨fun _ _ => rfl, fun _ _ => rfl, fun _ _ => .rfl, rfl, fun _ => rfl⟩

theorem WritesJob.trans (h : WritesJob k s t) (h' : WritesJob k t u) : WritesJob k s u where
  jobs k' ne := (h'.jobs k' ne).trans (h.jobs k' ne)
  files k' ne := (h'.files k' ne).trans (h.files k' ne)
  done f done := (h'.done f done).trans (h.done f done)
  assignments := h'.assignments.trans h.assignments
  drives d := (h'.drives d).trans (h.drives d)

theorem writesJob_modifyJob {f : ExportJob → ExportJob} (key : ∀ r, (f r).id = r.id) :
    WritesJob k s (s.modifyJob k f key) :=
  { WritesJob.refl s with jobs := fun _ ne => Table.get_modify_of_ne key ne }

/-- An update of files of job `k` that are in flight. -/
theorem writesJob_updateFiles {g : ExportFile → ExportFile} (key : ∀ r, (g r).id = r.id)
    (job : ∀ r, (g r).jobId = r.jobId) (pending : ∀ r, (g r).status = .pending) :
    WritesJob k s (s.updateFiles (inFlightFile k) g key) := by
  refine { WritesJob.refl s with files := fun k' ne => ?_, done := fun f done => ?_ }
  · change ((s.files.rows.map _).filter fun f : ExportFile => f.jobId = k') = _
    rw [Table.filter_map_eq (h := id) (p := fun f => f.jobId = k'), List.map_id, jobFiles]
    · intro r _
      split
      · rw [job]
      · rfl
    · intro r _ other
      refine if_neg fun mine => ne ?_
      exact (of_decide_eq_true other).symm.trans (of_decide_eq_true mine).1
  · change f ∈ s.files.update (inFlightFile k) g key ↔ _
    rw [Table.mem_update]
    constructor
    · rintro ⟨r, hr, rfl⟩
      split at done
      · rw [pending] at done
        cases done
      · rwa [if_neg ‹_›]
    · intro hf
      refine ⟨f, hf, if_neg fun mine => ?_⟩
      rcases (of_decide_eq_true mine).2 with status | status <;> rw [status] at done <;> cases done

/-- Only free space is recorded. -/
structure Probes (s t : Db) : Prop where
  rest : t = { s with drives := t.drives }
  drives : SameDrives s t

theorem Probes.refl (s : Db) : Probes s s := ⟨rfl, fun _ => rfl⟩

theorem Probes.jobs (h : Probes s t) : t.jobs = s.jobs := by
  rw [h.rest]

theorem Probes.files (h : Probes s t) : t.files = s.files := by
  rw [h.rest]

theorem Probes.writesJob (h : Probes s t) : WritesJob k s t := by
  obtain ⟨rest, drives⟩ := h
  rw [rest] at drives ⊢
  exact { WritesJob.refl s with drives := drives }

theorem Probes.record (h : Probes s t) (k v : Nat) :
    Probes s (t.modifyDrive k (fun d => { d with availableBytes := some v }) fun _ => rfl) := by
  constructor
  · conv_lhs => rw [h.rest]
    rfl
  · intro k'
    rw [← h.drives k']
    by_cases same : k' = k
    · subst same
      rw [Db.get_modifyDrive, Option.map_map]
      rfl
    · rw [Db.get_modifyDrive_of_ne same]

theorem probes_select {job : ExportJob} {probe : Str → Option Nat}
    {reserved : List DriveAssignment} :
    Probes s (selectAutomaticOverflowAssignment job probe reserved s).2 :=
  (selectAutomaticOverflowAssignment_rule (P := Probes s) (fun _ k v h => h.record k v)
    (.refl s)).1

theorem probes_pausingOutcome {job : ExportJob} {count : Nat} {probe : Str → Option Nat} :
    Probes s (pausingOutcome s job count probe).2.2 := by
  have select := @probes_select s job probe (s.listReservedForJob job.id)
  unfold pausingOutcome
  dsimp only
  split
  · split
    · split
      next chosen => rwa [chosen] at select
      next chosen => rwa [chosen] at select
    · exact .refl s
  · exact .refl s

variable {input : RecoveryInput} {job : ExportJob}

theorem writesJob_failInterruptedJob : WritesJob job.id s (failInterruptedJob input s job) := by
  have files : WritesJob job.id s
      (s.updateFiles (inFlightFile job.id) Db.backToPending backToPending_id) :=
    writesJob_updateFiles _ (fun _ => rfl) fun _ => rfl
  exact files.trans (writesJob_modifyJob _)

theorem writesJob_reconcileStalePausingJob :
    WritesJob job.id s (reconcileStalePausingJob input s job) := by
  have files : WritesJob job.id s (resetInFlight s job.id) :=
    writesJob_updateFiles _ (fun _ => rfl) fun _ => rfl
  exact (files.trans probes_pausingOutcome.writesJob).trans (writesJob_modifyJob _)

theorem writesJob_reconcileStaleStartupAnalysis :
    WritesJob job.id s (reconcileStaleStartupAnalysis input s job) := by
  rw [reconcileStaleStartupAnalysis]
  split
  · exact .refl s
  · split <;> exact writesJob_modifyJob _

end Writes

end Ecube
