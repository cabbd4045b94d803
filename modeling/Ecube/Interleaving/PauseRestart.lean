import Ecube.Interleaving.CopyRun
import Ecube.Invariants.Recovered

/-!
A pausing job after a restart, and in the run that was pausing it.

A run that has seen the request decides the final status from the files of the
job and, after a full target, from the drives that are reserved for it
(`CopyRun.conclude`). `reconcile_jobs` makes the same decision for a job whose
run was lost. `restart_agrees_iff`: both give the same status, except for a job
without an active assignment all of whose files have an outcome and some of
which failed only because the target was full. Its run completes it, since it
asks for the active assignment first; the recovery does not and fails or pauses
it (`restart_fails_completed`).
-/

namespace Ecube

open Transition Table

/-! ### The decision of the run -/

/-- The steps of a run from the end of its scheduling loop until it has written
a final status, has moved the job to another drive, or has lost it. -/
def CopyRun.conclude : Nat → CopyRun → Db → Nat → RunInput → Db × CopyRun
  | 0, r, s, _, _ => (s, r)
  | fuel + 1, r, s, jobId, input =>
      if r.pc = .preparing ∨ r.pc = .reporting ∨ r.pc = .finished then (s, r)
      else
        let next := r.advance s jobId input
        next.2.conclude fuel next.1 jobId input

/-- A run of the job that has seen the request to pause and leaves its loop. -/
structure Pausing (r : CopyRun) (job : ExportJob) : Prop where
  pc : r.pc = .settling
  startedAt : job.startedAt = r.startedAt
  pauseRequested : r.pauseRequested = true

/-- The status the run leaves; a job that it moved to another drive counts as paused. -/
def liveStatus (r : CopyRun) (s : Db) (jobId : Nat) (input : RunInput) : Option JobStatus :=
  let concluded := r.conclude 5 s jobId input
  if concluded.2.pc = .preparing then some .paused
  else (concluded.1.jobs.get jobId).map ExportJob.status

def restartStatus (input : RecoveryInput) (s : Db) (jobId : Nat) : Option JobStatus :=
  ((reconcileJobs input s).jobs.get jobId).map ExportJob.status

/-- Every file of the job has an outcome. -/
def Finished (s : Db) (job : ExportJob) : Prop :=
  job.fileCount ≤ s.countFiles job.id (fun f => f.status = .done) + errorCount s job.id +
    timeoutCount s job.id

/-- The failures of the job call for a continuation on another drive. -/
def CallsForDrive (s : Db) (jobId : Nat) : Prop :=
  0 < errorCount s jobId ∧ timeoutCount s jobId = 0 ∧
    shouldAttemptTargetFullContinuation (s.listIncompleteByJob jobId) = true

instance (s : Db) (job : ExportJob) : Decidable (Finished s job) :=
  inferInstanceAs (Decidable (_ ≤ _))

instance (s : Db) (jobId : Nat) : Decidable (CallsForDrive s jobId) :=
  inferInstanceAs (Decidable (_ ∧ _ ∧ _))

/-- Whether a reserved drive can take the rest. -/
def driveFound (s : Db) (job : ExportJob) (probe : Str → Option Nat) : Bool :=
  (selectAutomaticOverflowAssignment job probe (s.listReservedForJob job.id) s).1.isSome

section Live

variable {r : CopyRun} {s : Db} {job : ExportJob} {jobId : Nat} {input : RunInput}

/-- The final commit of a run that owns the job. -/
theorem status_finalJob_commit {t : Db} {targetFullFailed : Bool} {now : Nat}
    (found : t.jobs.get jobId = some job) :
    ((commitJob t jobId job (r.finalJob job targetFullFailed now)).jobs.get jobId).map
        ExportJob.status =
      some (finalStatus r.pauseRequested targetFullFailed (decide (job.fileCount ≤ r.outcomes))
        job.status) := by
  rw [get_commitJob, found]
  simp only [Option.map_some, flushJob, flush_self]
  rfl

/-- The final status once a pause was requested. -/
theorem finalStatus_pausing {targetFullFailed finished : Bool} {status : JobStatus} :
    finalStatus true targetFullFailed finished status =
      if finished then (if targetFullFailed then .failed else .completed) else .paused := by
  cases targetFullFailed <;> cases finished <;> simp [finalStatus]

/-- The run after it has counted the files. -/
def CopyRun.counted (r : CopyRun) (s : Db) (jobId : Nat) (pc : RunPc) : CopyRun :=
  { r with
    cached := none
    outcomes := s.countFiles jobId (fun f => f.status = .done) + s.retryableCount jobId
    failures := s.retryableCount jobId
    pc := pc }

theorem conclude_counted (input : RunInput) (found : s.jobs.get jobId = some job)
    (run : Pausing r job) :
    r.conclude 5 s jobId input =
      (r.counted s jobId (if 0 < errorCount s jobId ∧ timeoutCount s jobId = 0 then .resolving
        else .finalizing)).conclude 2 s jobId input := by
  obtain ⟨pc, startedAt, cached, pauseRequested, stop, outcomes, failures⟩ := r
  obtain ⟨rfl, rfl, rfl⟩ := run
  simp [CopyRun.conclude, CopyRun.advance, found, CopyRun.counted]

/-- A run that has written its final status goes no further. -/
theorem conclude_final {fuel : Nat} {t : Db} (final : r.pc = .reporting ∨ r.pc = .finished) :
    r.conclude fuel t jobId input = (t, r) := by
  cases fuel with
  | zero => rfl
  | succ fuel => rw [CopyRun.conclude, if_pos (.inr final)]

theorem pcAfterFinal_final (new : ExportJob) :
    pcAfterFinal new = .reporting ∨ pcAfterFinal new = .finished :=
  (pcAfterFinal_cases new).symm

/-- What a concluded run leaves when it has written the final status. -/
theorem status_of_final {concluded : Db × CopyRun} {t : Db} {targetFullFailed : Bool} {now : Nat}
    (pause : r.pauseRequested = true) (found : t.jobs.get jobId = some job)
    (ends : concluded = (commitJob t jobId job (r.finalJob job targetFullFailed now),
      { r with pc := pcAfterFinal (r.finalJob job targetFullFailed now) })) :
    (if concluded.2.pc = .preparing then some .paused
      else (concluded.1.jobs.get jobId).map ExportJob.status) =
      some (if job.fileCount ≤ r.outcomes then
        (if targetFullFailed then .failed else .completed) else .paused) := by
  have running : pcAfterFinal (r.finalJob job targetFullFailed now) ≠ .preparing := by
    rcases pcAfterFinal_final (r.finalJob job targetFullFailed now) with h | h <;> rw [h] <;> decide
  rw [ends, if_neg running, status_finalJob_commit found, pause, finalStatus_pausing]
  simp only [decide_eq_true_eq]

theorem liveStatus_finalizing (found : s.jobs.get jobId = some job) (run : Pausing r job)
    (plain : ¬ (0 < errorCount s jobId ∧ timeoutCount s jobId = 0)) :
    liveStatus r s jobId input = some (if job.fileCount ≤
      s.countFiles jobId (fun f => f.status = .done) + s.retryableCount jobId then .completed
      else .paused) := by
  have counted := conclude_counted input found run
  rw [if_neg plain] at counted
  rw [liveStatus]
  refine @status_of_final { r.counted s jobId (.committing input.now) with cached := some job }
    job jobId _ s false input.now run.pauseRequested found ?_
  rw [counted]
  have own : job.startedAt = (r.counted s jobId .finalizing).startedAt := run.startedAt
  simp [CopyRun.conclude, CopyRun.advance, found, own, CopyRun.counted]

/-- The final commit under the row lock. -/
theorem liveStatus_locked {probed : Db} {targetFullFailed : Bool}
    (found : s.jobs.get jobId = some job) (kept : probed.jobs.get jobId = some job)
    (run : Pausing r job) (full : 0 < errorCount s jobId ∧ timeoutCount s jobId = 0)
    (locked : (r.counted s jobId .resolving).resolve s jobId input =
      (r.counted s jobId .resolving).finalizeLocked s probed jobId targetFullFailed input.now) :
    liveStatus r s jobId input = some (if job.fileCount ≤
      s.countFiles jobId (fun f => f.status = .done) + s.retryableCount jobId then
        (if targetFullFailed then .failed else .completed)
      else .paused) := by
  have counted := conclude_counted input found run
  rw [if_pos full] at counted
  have own : job.startedAt = (r.counted s jobId .resolving).startedAt := run.startedAt
  rw [liveStatus]
  refine @status_of_final (r.counted s jobId .resolving) job jobId _ probed targetFullFailed
    input.now run.pauseRequested kept ?_
  have step : (r.counted s jobId .resolving).advance s jobId input =
      (commitJob probed jobId job ((r.counted s jobId .resolving).finalJob job targetFullFailed
        input.now), { r.counted s jobId .resolving with
          pc := pcAfterFinal ((r.counted s jobId .resolving).finalJob job targetFullFailed
            input.now) }) := by
    change (r.counted s jobId .resolving).resolve s jobId input = _
    rw [locked, CopyRun.finalizeLocked, kept]
    simp only [own, ne_eq, not_true_eq_false, if_false]
  have going : ¬ ((r.counted s jobId .resolving).pc = .preparing ∨
      (r.counted s jobId .resolving).pc = .reporting ∨
      (r.counted s jobId .resolving).pc = .finished) := by
    simp [CopyRun.counted]
  rw [counted, CopyRun.conclude, if_neg going, step]
  exact conclude_final (pcAfterFinal_final _)

theorem resolve_eq {choice : TargetFullOutcome × Db} {c : CopyRun}
    (outcome : resolveTargetFullOutcome s jobId input.probe input.now = choice)
    (stays : choice.1 ≠ .continued) :
    c.resolve s jobId input =
      c.finalizeLocked s choice.2 jobId (decide (choice.1 = .failed)) input.now := by
  rw [CopyRun.resolve, outcome]
  obtain ⟨decision, probed⟩ := choice
  cases decision with
  | notApplicable => rfl
  | failed => rfl
  | continued => exact absurd rfl stays

theorem liveStatus_continued {moved : Db} (found : s.jobs.get jobId = some job)
    (run : Pausing r job) (full : 0 < errorCount s jobId ∧ timeoutCount s jobId = 0)
    (outcome : resolveTargetFullOutcome s jobId input.probe input.now = (.continued, moved)) :
    liveStatus r s jobId input = some .paused := by
  have counted := conclude_counted input found run
  rw [if_pos full] at counted
  rw [liveStatus, counted]
  simp [CopyRun.conclude, CopyRun.advance, CopyRun.counted, CopyRun.resolve, outcome]

/-- The status a pausing run leaves. -/
theorem liveStatus_eq (found : s.jobs.get jobId = some job) (run : Pausing r job) :
    liveStatus r s jobId input = some (
      if CallsForDrive s jobId ∧ s.getActiveForJob jobId ≠ none then
        if driveFound s job input.probe then .paused
        else if Finished s job then .failed else .paused
      else if Finished s job then .completed else .paused) := by
  obtain rfl : job.id = jobId := id_of_get found
  have outcomes : Finished s job ↔ job.fileCount ≤
      s.countFiles job.id (fun f => f.status = .done) + s.retryableCount job.id := by
    rw [Finished, Db.retryableCount, Nat.add_assoc]
    rfl
  simp only [outcomes]
  by_cases full : 0 < errorCount s job.id ∧ timeoutCount s job.id = 0
  · by_cases attempt : shouldAttemptTargetFullContinuation (s.listIncompleteByJob job.id) = true
    · cases active : s.getActiveForJob job.id with
      | none =>
          have outcome : resolveTargetFullOutcome s job.id input.probe input.now =
              (.notApplicable, s) := by
            rw [resolveTargetFullOutcome, found]
            simp only [attempt, if_true, active]
          have unassigned : ¬ (CallsForDrive s job.id ∧
              (none : Option DriveAssignment) ≠ none) := fun h => h.2 rfl
          rw [liveStatus_locked found found run full (resolve_eq outcome (by simp)),
            if_neg unassigned]
          simp
      | some a =>
          rw [if_pos ⟨⟨full.1, full.2, attempt⟩, by simp⟩]
          have probes := @probes_select s job input.probe (s.listReservedForJob job.id)
          cases chosen : selectAutomaticOverflowAssignment job input.probe
              (s.listReservedForJob job.id) s with
          | mk choice probed =>
              rw [chosen] at probes
              have jobs : probed.jobs.get job.id = some job := by rw [probes.jobs, found]
              cases choice with
              | none =>
                  have outcome : resolveTargetFullOutcome s job.id input.probe input.now =
                      (.failed, probed) := by
                    rw [resolveTargetFullOutcome, found]
                    simp only [attempt, if_true, active, chosen]
                  rw [liveStatus_locked found jobs run full (resolve_eq outcome (by simp)),
                    driveFound, chosen]
                  rfl
              | some pair =>
                  have outcome : resolveTargetFullOutcome s job.id input.probe input.now =
                      (.continued, continueOnReserved probed job.id a pair.1 pair.2 input.now) := by
                    rw [resolveTargetFullOutcome, found]
                    simp only [attempt, if_true, active, chosen]
                  rw [liveStatus_continued found run full outcome, driveFound, chosen]
                  rfl
    · have outcome : resolveTargetFullOutcome s job.id input.probe input.now =
          (.notApplicable, s) := by
        rw [resolveTargetFullOutcome, found]
        simp only [attempt, if_false, Bool.false_eq_true]
      have other : ¬ (CallsForDrive s job.id ∧ s.getActiveForJob job.id ≠ none) :=
        fun h => attempt h.1.2.2
      rw [liveStatus_locked found found run full (resolve_eq outcome (by simp)), if_neg other]
      simp
  · have plain : ¬ (CallsForDrive s job.id ∧ s.getActiveForJob job.id ≠ none) :=
      fun h => full ⟨h.1.1, h.1.2.1⟩
    rw [liveStatus_finalizing found run full, if_neg plain]

end Live

/-! ### The decision after a restart -/

section LeavesJob

variable {s t u : Db} {k : Nat} {job : ExportJob} {probe : Str → Option Nat}

theorem countFiles_eq {p : ExportFile → Bool} : s.countFiles k p = (jobFiles s k).countP p := by
  rw [Db.countFiles, jobFiles, List.countP_filter]
  apply List.countP_congr
  intro f _
  simp [and_comm]

theorem listIncompleteByJob_eq :
    s.listIncompleteByJob k = (jobFiles s k).filter fun f => f.status ≠ .done := by
  rw [Db.listIncompleteByJob, jobFiles, List.filter_filter]
  apply List.filter_congr
  intro f _
  simp [Bool.and_comm]

theorem LeavesJob.countFiles (h : LeavesJob k s t) {p : ExportFile → Bool} :
    t.countFiles k p = s.countFiles k p := by
  rw [countFiles_eq, countFiles_eq, h.files]

theorem LeavesJob.finished_iff (h : LeavesJob job.id s t) : Finished t job ↔ Finished s job := by
  rw [Finished, Finished, errorCount, errorCount, timeoutCount, timeoutCount, h.countFiles,
    h.countFiles, h.countFiles]

theorem LeavesJob.callsForDrive_iff (h : LeavesJob k s t) :
    CallsForDrive t k ↔ CallsForDrive s k := by
  rw [CallsForDrive, CallsForDrive, errorCount, errorCount, timeoutCount, timeoutCount,
    h.countFiles, h.countFiles, listIncompleteByJob_eq, listIncompleteByJob_eq, h.files]

theorem SameDrives.trans (h : SameDrives s t) (h' : SameDrives t u) : SameDrives s u :=
  fun k => (h' k).trans (h k)

theorem SameDrives.symm (h : SameDrives s t) : SameDrives t s := fun k => (h k).symm

theorem sameDrives_record (k v : Nat) :
    SameDrives s (s.modifyDrive k (fun d => { d with availableBytes := some v }) fun _ => rfl) :=
  ((Probes.refl s).record k v).drives

/-- What two drives share that differ in their recorded free space. -/
theorem unprobed_inj {d d' : UsbDrive} (same : d'.unprobed = d.unprobed) :
    d'.id = d.id ∧ d'.currentState = d.currentState ∧
      d'.currentProjectId = d.currentProjectId ∧ d'.mountPath = d.mountPath := by
  simp only [UsbDrive.unprobed, UsbDrive.mk.injEq] at same
  grind

/-- The selection does not read the recorded free space. -/
theorem isSome_select_congr {reserved : List DriveAssignment} (same : SameDrives s t) :
    (selectAutomaticOverflowAssignment job probe reserved t).1.isSome =
      (selectAutomaticOverflowAssignment job probe reserved s).1.isSome := by
  induction reserved generalizing s t with
  | nil => rfl
  | cons a rest ih =>
      have here := same a.driveId
      rw [selectAutomaticOverflowAssignment, selectAutomaticOverflowAssignment]
      cases hs : s.drives.get a.driveId with
      | none =>
          rw [hs, Option.map_none, Option.map_eq_none_iff] at here
          rw [here]
          exact ih same
      | some d =>
          rw [hs, Option.map_some, Option.map_eq_some_iff] at here
          obtain ⟨d', ht, fields⟩ := here
          obtain ⟨key, state, project, mount⟩ := unprobed_inj fields
          rw [ht]
          simp only [key, state, project, mount]
          split
          · cases (truthy d.mountPath).bind probe with
            | none => exact ih same
            | some available =>
                dsimp only
                split
                · exact ih (((sameDrives_record _ _).symm.trans same).trans
                    (sameDrives_record _ _))
                · rfl
          · exact ih same

theorem LeavesJob.driveFound (h : LeavesJob job.id s t) :
    driveFound t job probe = driveFound s job probe := by
  rw [Ecube.driveFound, Ecube.driveFound, Db.listReservedForJob, Db.listReservedForJob,
    h.assignments]
  exact isSome_select_congr h.drives

end LeavesJob

section Restart

variable {input : RecoveryInput} {s t : Db} {job : ExportJob} {k : Nat}

/-- Without a file in flight none is reset. -/
theorem Landed.resetInFlight_eq (h : Landed k s) : resetInFlight s k = s := by
  have files : s.files.update (inFlightFile k) (fun f => { f with status := .pending })
      ExportFile.pending_id = s.files := by
    refine eq_of_rows_eq ?_ rfl
    change s.files.rows.map _ = s.files.rows
    rw [List.map_congr_left (g := id), List.map_id]
    intro f hf
    rw [h f hf]
    rfl
  rw [resetInFlight, Db.updateFiles, files]

theorem Landed.countP_eq_zero (h : Landed k s) : s.files.rows.countP (inFlightFile k) = 0 := by
  rw [List.countP_eq_zero]
  intro f hf
  rw [h f hf]
  exact Bool.false_ne_true

/-- The decision of `_reconcile_stale_pausing_job` when no file was in flight. -/
theorem pausingOutcome_eq {probe : Str → Option Nat} :
    (pausingOutcome s job 0 probe).1 =
      if Finished s job then
        if CallsForDrive s job.id then (if driveFound s job probe then .paused else .failed)
        else .completed
      else .paused := by
  have finished : (job.fileCount ≤ s.countFiles job.id (fun f => f.status = .done) +
      s.countFiles job.id (fun f => f.status = .error) +
      s.countFiles job.id (fun f => f.status = .timeout)) ↔ Finished s job := .rfl
  have calls : (0 < s.countFiles job.id (fun f => f.status = .error) ∧
      s.countFiles job.id (fun f => f.status = .timeout) = 0 ∧
      shouldAttemptTargetFullContinuation (s.listIncompleteByJob job.id) = true) ↔
      CallsForDrive s job.id := .rfl
  unfold pausingOutcome driveFound
  simp only [true_and, finished, calls]
  split
  · split
    · cases selectAutomaticOverflowAssignment job probe (s.listReservedForJob job.id) s with
      | mk choice probed => cases choice <;> rfl
    · rfl
  · rfl

theorem status_reconcileStalePausingJob (input : RecoveryInput)
    (found : t.jobs.get job.id = some job) (landed : Landed job.id t) :
    ((reconcileStalePausingJob input t job).jobs.get job.id).map ExportJob.status =
      some (pausingOutcome t job 0 input.probe).1 := by
  have kept : (pausingOutcome t job 0 input.probe).2.2.jobs = t.jobs := probes_pausingOutcome.jobs
  rw [reconcileStalePausingJob]
  simp only [landed.resetInFlight_eq, landed.countP_eq_zero]
  rw [Db.get_modifyJob, kept, found]
  rfl

/-- The status the recovery gives a pausing job without files in flight. -/
theorem restartStatus_eq (found : s.jobs.get k = some job) (pausing : job.status = .pausing)
    (landed : Landed k s) :
    restartStatus input s k = some (
      if Finished s job then
        if CallsForDrive s k then (if driveFound s job input.probe then .paused else .failed)
        else .completed
      else .paused) := by
  obtain rfl : job.id = k := id_of_get found
  have mem : job ∈ s.jobs := mem_of_get found
  -- The first loop is about other jobs.
  have first : LeavesJob job.id s (exec (failInterruptedJob input) s (recoveryLists s).jobs) := by
    refine leavesJob_exec (fun _ _ => writesJob_failInterruptedJob) fun b hb same => ?_
    obtain ⟨hb, status⟩ := mem_recoveryLists.1.mp hb
    rw [← eq_of_id_eq mem hb same, pausing] at status
    exact absurd status (by decide)
  obtain ⟨before, after, split⟩ :=
    List.append_of_mem (mem_recoveryLists.2.1.mpr ⟨mem, pausing⟩)
  have distinct : ((before ++ job :: after).map ExportJob.id).Nodup := by
    rw [← split]
    exact s.jobs.nodup.sublist (List.filter_sublist.map _)
  rw [List.map_append, List.map_cons, List.nodup_append, List.nodup_cons] at distinct
  obtain ⟨-, ⟨fresh, -⟩, apart⟩ := distinct
  have second : LeavesJob job.id (exec (failInterruptedJob input) s (recoveryLists s).jobs)
      (exec (reconcileStalePausingJob input)
        (exec (failInterruptedJob input) s (recoveryLists s).jobs) before) := by
    refine leavesJob_exec (fun _ _ => writesJob_reconcileStalePausingJob) fun b hb same => ?_
    exact apart b.id (List.mem_map_of_mem hb) job.id List.mem_cons_self same.symm
  have still : Landed job.id (exec (reconcileStalePausingJob input)
      (exec (failInterruptedJob input) s (recoveryLists s).jobs) before) :=
    exec_rule (fun _ _ h => h.reconcileStalePausingJob)
      (exec_rule (fun _ _ h => h.failInterruptedJob) landed)
  rw [restartStatus, reconcileJobs, recoverJobs, split]
  generalize exec (failInterruptedJob input) s (recoveryLists s).jobs = t₁ at *
  have left := first.trans second
  have own := status_reconcileStalePausingJob input (left.row.trans found) still
  rw [pausingOutcome_eq, left.driveFound] at own
  simp only [left.finished_iff, left.callsForDrive_iff] at own
  -- The rest of the second loop and the third loop keep the status.
  have rest : LeavesJob job.id (reconcileStalePausingJob input
      (exec (reconcileStalePausingJob input) t₁ before) job)
      (exec (reconcileStalePausingJob input) t₁ (before ++ job :: after)) := by
    have rejoin : exec (reconcileStalePausingJob input) t₁ (before ++ job :: after) =
        exec (reconcileStalePausingJob input) (reconcileStalePausingJob input
          (exec (reconcileStalePausingJob input) t₁ before) job) after := List.foldl_append
    rw [rejoin]
    refine leavesJob_exec (fun _ _ => writesJob_reconcileStalePausingJob) fun b hb same => ?_
    exact fresh (same ▸ List.mem_map_of_mem hb)
  rw [← own, ← rest.row]
  generalize exec (reconcileStalePausingJob input) t₁ (before ++ job :: after) = t₂
  have keep : ∀ (u : Db) (b : ExportJob),
      (u.jobs.get job.id).map ExportJob.status = (t₂.jobs.get job.id).map ExportJob.status →
        ((reconcileStaleStartupAnalysis input u b).jobs.get job.id).map ExportJob.status =
          (t₂.jobs.get job.id).map ExportJob.status :=
    fun u b h => status_reconcileStaleStartupAnalysis.trans h
  exact exec_rule keep rfl

end Restart

/-! ### Comparison -/

/-- Both decide alike unless all files of a job without an active assignment
have an outcome and its failures call for another drive. -/
theorem restart_agrees_iff {s : Db} {job : ExportJob} {jobId : Nat} {r : CopyRun}
    {live : RunInput} {recovery : RecoveryInput} (found : s.jobs.get jobId = some job)
    (pausing : job.status = .pausing)
    (landed : ∀ f ∈ s.files, f.jobId = jobId → f.status ≠ .copying ∧ f.status ≠ .retrying)
    (run : Pausing r job) (probe : recovery.probe = live.probe) :
    restartStatus recovery s jobId = liveStatus r s jobId live ↔
      ¬ (Finished s job ∧ CallsForDrive s jobId ∧ s.getActiveForJob jobId = none) := by
  have still : Landed jobId s := by
    intro f hf
    by_cases mine : f.jobId = jobId
    · simp [inFlightFile, landed f hf mine]
    · simp [inFlightFile, mine]
  rw [restartStatus_eq found pausing still, liveStatus_eq found run, probe, Option.some.injEq]
  by_cases finished : Finished s job
  · by_cases calls : CallsForDrive s jobId
    · by_cases active : s.getActiveForJob jobId = none
      · cases driveFound s job live.probe <;> simp [finished, calls, active]
      · simp [finished, calls, active]
    · simp [finished, calls]
  · simp [finished]

namespace Lab

/-- A pausing job of one file. -/
def pausingJob : ExportJob where
  id := 1
  projectId := projectP
  evidenceNumber := "E1"
  sourcePath := "/nfs/p".toList
  targetMountPath := none
  status := .pausing
  totalBytes := 10
  copiedBytes := 0
  fileCount := 1
  threadCount := none
  copyChunkSizeBytes := none
  copyProgressFlushBytes := none
  copyFileFsyncEnabled := none
  maxFileRetries := 3
  retryDelaySeconds := 1
  startedAt := some 1
  copyStartedAt := some 2
  completedAt := none
  createdAt := 0
  callbackUrl := none
  failureReason := none
  startupAnalysis := ⟨.notAnalyzed, none, none, false, false⟩

/-- The job without an assignment, and its file. -/
def pausingWith (status : FileStatus) (errorMessage : Option String) : Db :=
  { start with
    jobs := ⟨[pausingJob], 1, by decide, by decide⟩
    files := ⟨[⟨1, 1, none, "f".toList, 10, none, status, errorMessage, 0⟩], 1, by simp,
      by intro r hr; rw [List.mem_singleton.mp hr]; exact Nat.le_refl 1⟩ }

/-- The run that was pausing it. -/
def pausingRun : CopyRun := ⟨.settling, some 1, none, true, false, 0, 0⟩

end Lab

theorem restart_agrees_done :
    restartStatus Lab.recovery (Lab.pausingWith .done none) 1 =
        liveStatus Lab.pausingRun (Lab.pausingWith .done none) 1 (Lab.input 9) ∧
      restartStatus Lab.recovery (Lab.pausingWith .done none) 1 = some .completed := by
  refine ⟨(@restart_agrees_iff _ Lab.pausingJob _ _ _ _ rfl rfl ?_ ⟨rfl, rfl, rfl⟩ rfl).mpr ?_, ?_⟩ <;>
    decide

/-- The run would have completed the job; the recovery fails it. -/
theorem restart_fails_completed :
    (Lab.pausingWith .error (some targetFullMessage)).jobs.get 1 = some Lab.pausingJob ∧
      Lab.pausingJob.status = .pausing ∧
      (∀ f ∈ (Lab.pausingWith .error (some targetFullMessage)).files, f.jobId = 1 →
        f.status ≠ .copying ∧ f.status ≠ .retrying) ∧
      Pausing Lab.pausingRun Lab.pausingJob ∧ Lab.recovery.probe = (Lab.input 9).probe ∧
      liveStatus Lab.pausingRun (Lab.pausingWith .error (some targetFullMessage)) 1 (Lab.input 9) =
        some .completed ∧
      restartStatus Lab.recovery (Lab.pausingWith .error (some targetFullMessage)) 1 =
        some .failed := by
  refine ⟨rfl, rfl, ?_, ⟨rfl, rfl, rfl⟩, rfl, ?_, ?_⟩ <;> decide

end Ecube
