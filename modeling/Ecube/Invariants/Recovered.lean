import Ecube.Services.JobRecovery

/-!
The state of jobs and files after `reconcile_jobs`.

Each of the three loops writes the row and the files of one job after another
(`WritesJob`), so what the recovery of a job establishes survives the recovery
of the others.

`reconcileJobs_settled`: afterwards no job is in progress or pausing and no
analysis is running, the recovered jobs have no file in flight, the files that
were done are untouched, and a second call changes no job and no file.
-/

namespace Ecube

open Transition Table

/-- The statuses that `reconcile_jobs` looks for. -/
def recoveryStatuses : List JobStatus := .pausing :: inProgressStatuses

section Steps

variable {input : RecoveryInput} {s : Db} {job : ExportJob} {k : Nat}

/-- A property of the row of one job, if it has one. -/
def RowIs (k : Nat) (P : ExportJob → Prop) (s : Db) : Prop := ∀ j ∈ s.jobs.get k, P j

theorem RowIs.of_writesJob {P : ExportJob → Prop} {t : Db} {k' : Nat} (h : RowIs k P s)
    (writes : WritesJob k' s t) (own : k = k' → RowIs k P t) : RowIs k P t := by
  by_cases same : k = k'
  · exact own same
  · intro j hj
    rw [writes.jobs k same] at hj
    exact h j hj

theorem rowIs_modifyJob {P : ExportJob → Prop} {f : ExportJob → ExportJob}
    {key : ∀ r, (f r).id = r.id} (written : ∀ j, P (f j)) : RowIs k P (s.modifyJob k f key) := by
  intro j hj
  rw [Db.get_modifyJob, Option.mem_def, Option.map_eq_some_iff] at hj
  obtain ⟨r, -, rfl⟩ := hj
  exact written r

theorem RowIs.modifyJob {P : ExportJob → Prop} {f : ExportJob → ExportJob}
    {key : ∀ r, (f r).id = r.id} (h : RowIs k P s) (keep : ∀ j, P j → P (f j)) :
    RowIs k P (s.modifyJob k f key) := by
  intro j hj
  rw [Db.get_modifyJob, Option.mem_def, Option.map_eq_some_iff] at hj
  obtain ⟨r, hr, rfl⟩ := hj
  exact keep r (h r hr)

/-- The status is none that the recovery looks for. -/
def Resting (j : ExportJob) : Prop := j.status ∉ recoveryStatuses

theorem pausingOutcome_status {count : Nat} {probe : Str → Option Nat} :
    (pausingOutcome s job count probe).1 ∈ [JobStatus.paused, .completed, .failed] := by
  unfold pausingOutcome
  dsimp only
  split
  · split
    · split <;> simp
    · simp
  · simp

theorem resting_failInterruptedJob : RowIs job.id Resting (failInterruptedJob input s job) :=
  rowIs_modifyJob fun _ => by
    simp [Resting, interruptedJob, recoveryStatuses, inProgressStatuses]

theorem resting_reconcileStalePausingJob :
    RowIs job.id Resting (reconcileStalePausingJob input s job) := by
  apply rowIs_modifyJob
  intro j
  have status := @pausingOutcome_status (resetInFlight s job.id) job
    (s.files.rows.countP (inFlightFile job.id)) input.probe
  simp only [Resting, recoveredJob, recoveryStatuses, inProgressStatuses]
  generalize (pausingOutcome _ _ _ _).1 = final at status ⊢
  revert final
  decide

/-- The recovery of an analysis keeps the status of the job. -/
theorem resting_reconcileStaleStartupAnalysis (h : RowIs k Resting s) :
    RowIs k Resting (reconcileStaleStartupAnalysis input s job) := by
  refine h.of_writesJob writesJob_reconcileStaleStartupAnalysis ?_
  rintro rfl
  rw [reconcileStaleStartupAnalysis]
  split
  · exact h
  · split <;> exact h.modifyJob fun _ => id

/-- No analysis of the job is running. -/
def Analysed (j : ExportJob) : Prop := j.startupAnalysis.status ≠ .analyzing

theorem analysed_reconcileStaleStartupAnalysis (running : job.startupAnalysis.status = .analyzing) :
    RowIs job.id Analysed (reconcileStaleStartupAnalysis input s job) := by
  rw [reconcileStaleStartupAnalysis, if_neg (not_not.mpr running)]
  split <;> exact rowIs_modifyJob fun _ => by simp [Analysed, restoreStartupAnalysis,
    clearStartupAnalysisCache]

/-- The other two loops do not touch the analysis. -/
theorem analysed_failInterruptedJob (h : RowIs k Analysed s) :
    RowIs k Analysed (failInterruptedJob input s job) := by
  refine h.of_writesJob writesJob_failInterruptedJob ?_
  rintro rfl
  exact RowIs.modifyJob (s := s.updateFiles _ _ backToPending_id) h fun _ => id

theorem analysed_reconcileStalePausingJob (h : RowIs k Analysed s) :
    RowIs k Analysed (reconcileStalePausingJob input s job) := by
  refine h.of_writesJob writesJob_reconcileStalePausingJob ?_
  rintro rfl
  have rows : RowIs job.id Analysed (pausingOutcome (resetInFlight s job.id) job
      (s.files.rows.countP (inFlightFile job.id)) input.probe).2.2 := by
    intro j hj
    rw [probes_pausingOutcome.jobs] at hj
    exact h j hj
  exact rows.modifyJob fun _ => id

/-- No file of the job is in flight. -/
def Landed (k : Nat) (s : Db) : Prop := ∀ f ∈ s.files, inFlightFile k f = false

theorem landed_updateFiles {g : ExportFile → ExportFile} (key : ∀ r, (g r).id = r.id)
    (pending : ∀ r, (g r).status = .pending) :
    Landed k (s.updateFiles (inFlightFile k) g key) := by
  intro f hf
  obtain ⟨r, -, rfl⟩ := (mem_update key).mp hf
  cases flying : inFlightFile k r with
  | true => simp [inFlightFile, pending]
  | false => simpa using flying

theorem Landed.updateFiles {k' : Nat} {g : ExportFile → ExportFile} (h : Landed k s)
    (key : ∀ r, (g r).id = r.id) (pending : ∀ r, (g r).status = .pending) :
    Landed k (s.updateFiles (inFlightFile k') g key) := by
  intro f hf
  obtain ⟨r, hr, rfl⟩ := (mem_update key).mp hf
  split
  · simp [inFlightFile, pending]
  · exact h r hr

theorem Landed.of_files {t : Db} (h : Landed k s) (same : t.files = s.files) : Landed k t := by
  intro f hf
  rw [same] at hf
  exact h f hf

theorem landed_failInterruptedJob : Landed job.id (failInterruptedJob input s job) :=
  landed_updateFiles backToPending_id fun _ => rfl

theorem Landed.failInterruptedJob (h : Landed k s) :
    Landed k (failInterruptedJob input s job) :=
  h.updateFiles backToPending_id fun _ => rfl

theorem files_reconcileStalePausingJob :
    (reconcileStalePausingJob input s job).files = (resetInFlight s job.id).files :=
  (probes_pausingOutcome (s := resetInFlight s job.id)).files

theorem landed_reconcileStalePausingJob : Landed job.id (reconcileStalePausingJob input s job) :=
  (landed_updateFiles ExportFile.pending_id fun _ => rfl).of_files
    files_reconcileStalePausingJob

theorem Landed.reconcileStalePausingJob (h : Landed k s) :
    Landed k (reconcileStalePausingJob input s job) :=
  (h.updateFiles ExportFile.pending_id fun _ => rfl).of_files files_reconcileStalePausingJob

theorem files_reconcileStaleStartupAnalysis :
    (reconcileStaleStartupAnalysis input s job).files = s.files := by
  rw [reconcileStaleStartupAnalysis]
  split
  · rfl
  · split <;> rfl

end Steps

/-! ### The three loops -/

section Loops

variable {input : RecoveryInput} {s : Db} {jobs : List ExportJob}

/-- A loop whose body writes one job after another establishes for each listed
job what its body establishes, and keeps it for the others. -/
theorem rowIs_exec {f : Db → ExportJob → Db} {P : ExportJob → Prop} {k : Nat}
    (writes : ∀ s job, WritesJob job.id s (f s job))
    (own : ∀ s, ∀ job ∈ jobs, RowIs job.id P (f s job))
    (listed : RowIs k P s ∨ ∃ job ∈ jobs, job.id = k) : RowIs k P (exec f s jobs) := by
  induction jobs generalizing s with
  | nil =>
      obtain h | ⟨job, mem, -⟩ := listed
      · exact h
      · exact absurd mem List.not_mem_nil
  | cons job rest ih =>
      refine ih (fun s b hb => own s b (List.mem_cons_of_mem job hb)) ?_
      by_cases same : k = job.id
      · subst same
        exact .inl (own s job List.mem_cons_self)
      · rcases listed with h | ⟨b, hb, rfl⟩
        · exact .inl (h.of_writesJob (writes s job) fun h => absurd h same)
        · rcases List.mem_cons.mp hb with rfl | later
          · exact absurd rfl same
          · exact .inr ⟨b, later, rfl⟩

/-- A property of the files that one body establishes for its job and every
body keeps. -/
theorem landed_exec {f : Db → ExportJob → Db} {k : Nat}
    (own : ∀ s job, Landed job.id (f s job)) (keep : ∀ s job k, Landed k s → Landed k (f s job))
    (listed : Landed k s ∨ ∃ job ∈ jobs, job.id = k) : Landed k (exec f s jobs) := by
  rcases listed with h | ⟨job, mem, rfl⟩
  · exact exec_rule (fun s job => keep s job k) h
  · exact exec_each (Q := fun job s => Landed job.id s) own (fun s a b => keep s b a.id) mem

theorem done_exec {f : Db → ExportJob → Db} (writes : ∀ s job, WritesJob job.id s (f s job))
    {file : ExportFile} (done : file.status = .done) :
    file ∈ (exec f s jobs).files ↔ file ∈ s.files := by
  induction jobs generalizing s with
  | nil => rfl
  | cons job rest ih =>
      change file ∈ (exec f (f s job) rest).files ↔ _
      rw [ih, (writes s job).done file done]

end Loops

/-! ### Jobs that are left alone -/

/-- Two states between which nothing the decision about job `k` reads has
changed. -/
structure LeavesJob (k : Nat) (s t : Db) : Prop where
  row : t.jobs.get k = s.jobs.get k
  files : jobFiles t k = jobFiles s k
  assignments : t.assignments = s.assignments
  drives : SameDrives s t

section LeavesJob

variable {input : RecoveryInput} {s t u : Db} {job : ExportJob} {k : Nat}

theorem LeavesJob.refl (s : Db) : LeavesJob k s s := ⟨rfl, rfl, rfl, fun _ => rfl⟩

theorem LeavesJob.trans (h : LeavesJob k s t) (h' : LeavesJob k t u) : LeavesJob k s u where
  row := h'.row.trans h.row
  files := h'.files.trans h.files
  assignments := h'.assignments.trans h.assignments
  drives d := (h'.drives d).trans (h.drives d)

theorem WritesJob.leavesJob {k' : Nat} (h : WritesJob k' s t) (ne : k ≠ k') : LeavesJob k s t :=
  ⟨h.jobs k ne, h.files k ne, h.assignments, h.drives⟩

theorem leavesJob_exec {f : Db → ExportJob → Db} {jobs : List ExportJob}
    (writes : ∀ s job, WritesJob job.id s (f s job)) (others : ∀ b ∈ jobs, k ≠ b.id) :
    LeavesJob k s (exec f s jobs) := by
  induction jobs generalizing s with
  | nil => exact .refl s
  | cons b rest ih =>
      have here := (writes s b).leavesJob (others b List.mem_cons_self)
      exact here.trans (ih fun b' mem => others b' (List.mem_cons_of_mem b mem))

theorem status_reconcileStaleStartupAnalysis :
    ((reconcileStaleStartupAnalysis input s job).jobs.get k).map ExportJob.status =
      (s.jobs.get k).map ExportJob.status := by
  by_cases same : k = job.id
  · subst same
    rw [reconcileStaleStartupAnalysis]
    split
    · rfl
    · split <;> rw [Db.get_modifyJob, Option.map_map] <;> rfl
  · rw [writesJob_reconcileStaleStartupAnalysis.jobs k same]

/-- The recovery leaves the status and the files of a job on none of the lists. -/
theorem recoverJobs_leaves {lists : RecoveryLists}
    (others : ∀ b ∈ lists.jobs ++ lists.pausingJobs, k ≠ b.id) :
    ((recoverJobs input s lists).jobs.get k).map ExportJob.status =
        (s.jobs.get k).map ExportJob.status ∧
      jobFiles (recoverJobs input s lists) k = jobFiles s k := by
  have first : LeavesJob k s (exec (failInterruptedJob input) s lists.jobs) :=
    leavesJob_exec (fun _ _ => writesJob_failInterruptedJob) fun b hb =>
      others b (List.mem_append_left _ hb)
  have second := @leavesJob_exec (exec (failInterruptedJob input) s lists.jobs) k
    (reconcileStalePausingJob input) lists.pausingJobs
    (fun _ _ => writesJob_reconcileStalePausingJob) fun b hb => others b (List.mem_append_right _ hb)
  have loops := first.trans second
  rw [recoverJobs]
  generalize exec (reconcileStalePausingJob input) _ lists.pausingJobs = t at loops
  rw [← loops.row, ← loops.files]
  have keep : ∀ (u : Db) (b : ExportJob),
      ((u.jobs.get k).map ExportJob.status = (t.jobs.get k).map ExportJob.status ∧
        jobFiles u k = jobFiles t k) →
      (((reconcileStaleStartupAnalysis input u b).jobs.get k).map ExportJob.status =
          (t.jobs.get k).map ExportJob.status ∧
        jobFiles (reconcileStaleStartupAnalysis input u b) k = jobFiles t k) := by
    rintro u b ⟨status, files⟩
    refine ⟨status_reconcileStaleStartupAnalysis.trans status, ?_⟩
    rw [jobFiles, files_reconcileStaleStartupAnalysis]
    exact files
  exact exec_rule keep ⟨rfl, rfl⟩

end LeavesJob

/-! ### After the recovery -/

section Recovery

variable {input : RecoveryInput} {s : Db}

theorem mem_recoveryLists {j : ExportJob} :
    (j ∈ (recoveryLists s).jobs ↔ j ∈ s.jobs ∧ j.status ∈ inProgressStatuses) ∧
      (j ∈ (recoveryLists s).pausingJobs ↔ j ∈ s.jobs ∧ j.status = .pausing) ∧
      (j ∈ (recoveryLists s).startupAnalysisJobs ↔
        j ∈ s.jobs ∧ j.startupAnalysis.status = .analyzing) := by
  simp only [recoveryLists, List.mem_filter, decide_eq_true_eq]
  exact ⟨.rfl, .rfl, .rfl⟩

/-- The row of a job before the recovery; it is not created by one. -/
theorem rowIs_of_row {P : ExportJob → Prop} {k : Nat} (row : ∀ j ∈ s.jobs, j.id = k → P j) :
    RowIs k P s :=
  fun j hj => row j (mem_of_get hj) (id_of_get hj)

theorem resting_reconcileJobs (k : Nat) : RowIs k Resting (reconcileJobs input s) := by
  rw [reconcileJobs, recoverJobs]
  refine exec_rule (fun _ _ => resting_reconcileStaleStartupAnalysis) ?_
  refine rowIs_exec (fun _ _ => writesJob_reconcileStalePausingJob)
    (fun _ _ _ => resting_reconcileStalePausingJob) ?_
  by_cases pausing : ∃ j ∈ (recoveryLists s).pausingJobs, j.id = k
  · exact .inr pausing
  · refine .inl (rowIs_exec (fun _ _ => writesJob_failInterruptedJob)
      (fun _ _ _ => resting_failInterruptedJob) ?_)
    by_cases interrupted : ∃ j ∈ (recoveryLists s).jobs, j.id = k
    · exact .inr interrupted
    · -- A job in none of the two lists rests already.
      refine .inl (rowIs_of_row fun j hj key => ?_)
      intro claimed
      rcases List.mem_cons.mp claimed with status | status
      · exact pausing ⟨j, mem_recoveryLists.2.1.mpr ⟨hj, status⟩, key⟩
      · exact interrupted ⟨j, mem_recoveryLists.1.mpr ⟨hj, status⟩, key⟩

theorem analysed_reconcileJobs (k : Nat) : RowIs k Analysed (reconcileJobs input s) := by
  rw [reconcileJobs, recoverJobs]
  refine rowIs_exec (fun _ _ => writesJob_reconcileStaleStartupAnalysis) (fun _ job mem => ?_) ?_
  · exact analysed_reconcileStaleStartupAnalysis (mem_recoveryLists.2.2.mp mem).2
  · by_cases listed : ∃ j ∈ (recoveryLists s).startupAnalysisJobs, j.id = k
    · exact .inr listed
    · refine .inl (exec_rule (fun _ _ => analysed_reconcileStalePausingJob) ?_)
      refine exec_rule (fun _ _ => analysed_failInterruptedJob) ?_
      apply rowIs_of_row
      intro j hj key running
      exact listed ⟨j, mem_recoveryLists.2.2.mpr ⟨hj, running⟩, key⟩

theorem landed_reconcileJobs {job : ExportJob} (mem : job ∈ reconciledJobs s) :
    Landed job.id (reconcileJobs input s) := by
  rw [reconcileJobs, recoverJobs]
  refine exec_rule (fun _ _ h => h.of_files files_reconcileStaleStartupAnalysis) ?_
  refine landed_exec (fun _ _ => landed_reconcileStalePausingJob)
    (fun _ _ _ h => h.reconcileStalePausingJob) ?_
  rcases List.mem_append.mp mem with interrupted | pausing
  · exact .inl (landed_exec (fun _ _ => landed_failInterruptedJob)
      (fun _ _ _ h => h.failInterruptedJob) (.inr ⟨job, interrupted, rfl⟩))
  · exact .inr ⟨job, pausing, rfl⟩

theorem done_reconcileJobs {f : ExportFile} (done : f.status = .done) :
    f ∈ (reconcileJobs input s).files ↔ f ∈ s.files := by
  rw [reconcileJobs, recoverJobs, done_exec (fun _ _ => writesJob_reconcileStaleStartupAnalysis) done,
    done_exec (fun _ _ => writesJob_reconcileStalePausingJob) done,
    done_exec (fun _ _ => writesJob_failInterruptedJob) done]

/-- Without a job to recover nothing is written. -/
theorem reconcileJobs_of_settled (resting : ∀ j ∈ s.jobs, Resting j)
    (analysed : ∀ j ∈ s.jobs, Analysed j) : reconcileJobs input s = s := by
  have none : recoveryLists s = ⟨[], [], []⟩ := by
    rw [recoveryLists, RecoveryLists.mk.injEq]
    refine ⟨?_, ?_, ?_⟩
    · refine List.filter_eq_nil_iff.mpr fun j hj status => resting j hj ?_
      exact List.mem_cons_of_mem _ (of_decide_eq_true status)
    · refine List.filter_eq_nil_iff.mpr fun j hj status => resting j hj ?_
      rw [of_decide_eq_true status]
      exact List.mem_cons_self
    · exact List.filter_eq_nil_iff.mpr fun j hj status => analysed j hj (of_decide_eq_true status)
  rw [reconcileJobs, none]
  rfl

/-- After a recovery no job is in progress or pausing and no analysis is
running, the recovered jobs have no file in flight, files that were done are as
they were, and another recovery changes no job and no file. -/
theorem reconcileJobs_settled (input : RecoveryInput) (s : Db) :
    (∀ j ∈ (reconcileJobs input s).jobs,
        j.status ∉ [JobStatus.preparing, .running, .verifying, .pausing] ∧
          j.startupAnalysis.status ≠ .analyzing) ∧
      (∀ job ∈ reconciledJobs s, ∀ f ∈ (reconcileJobs input s).files, f.jobId = job.id →
        f.status ≠ .copying ∧ f.status ≠ .retrying) ∧
      (∀ f, f.status = .done → (f ∈ (reconcileJobs input s).files ↔ f ∈ s.files)) ∧
      ∀ input', (reconcileJobs input' (reconcileJobs input s)).jobs = (reconcileJobs input s).jobs ∧
        (reconcileJobs input' (reconcileJobs input s)).files = (reconcileJobs input s).files := by
  have resting : ∀ j ∈ (reconcileJobs input s).jobs, Resting j := fun j hj =>
    resting_reconcileJobs j.id j (get_eq_some_iff.mpr ⟨hj, rfl⟩)
  have analysed : ∀ j ∈ (reconcileJobs input s).jobs, Analysed j := fun j hj =>
    analysed_reconcileJobs j.id j (get_eq_some_iff.mpr ⟨hj, rfl⟩)
  refine ⟨fun j hj => ⟨?_, analysed j hj⟩, fun job mem f hf mine => ?_,
    fun f done => done_reconcileJobs done, fun input' => ?_⟩
  · have status := resting j hj
    simp only [Resting, recoveryStatuses, inProgressStatuses] at status
    simpa [or_comm, or_assoc, or_left_comm] using status
  · have landed := landed_reconcileJobs mem f hf
    simpa [inFlightFile, mine] using landed
  · rw [reconcileJobs_of_settled resting analysed]
    exact ⟨rfl, rfl⟩

end Recovery

namespace Lab

/-- Drives have 100 bytes left, and the sources are empty. -/
def recovery : RecoveryInput :=
  ⟨9, fun _ => some 100, fun _ => ⟨[], by decide⟩, fun _ => false, fun _ => false⟩

end Lab

end Ecube
