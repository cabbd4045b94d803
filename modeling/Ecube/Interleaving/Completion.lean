import Ecube.Interleaving.Scheduling
import Ecube.Invariants.Listing

/-!
A run that completes its job has settled every file.

Completion compares the numbers of done, failed and timed-out files with the
file count of the job, which the preparation has taken from its scan in another
session. The comparison decides about every row because the preparation leaves
exactly one row for each file of the scan, no step of the copy phase adds or
removes rows, and the workers are done when the rows are counted.
-/

namespace Ecube

open Table Transition

def fileCountOf (s : Db) (jobId : Nat) : Option Nat := (s.jobs.get jobId).map ExportJob.fileCount

/-- The statuses of a file that has been brought to an end. -/
def settledStatuses : List FileStatus := [.done, .error, .timeout]

/-- The number that a run compares with the file count. -/
def settledCount (s : Db) (jobId : Nat) : Nat :=
  s.countFiles jobId (fun f => f.status = .done) + s.retryableCount jobId

/-- When the run commits `COMPLETED`, every row of the job is settled and every
file of the prepared scan has exactly one row. -/
def CompletedSettled (jobId : Nat) (w : Execution) : ExecAction → Prop
  | .run input =>
      statusOf w.db jobId ≠ some .completed →
      statusOf (execStep jobId w (.run input)).db jobId = some .completed →
        (∀ f ∈ (execStep jobId w (.run input)).db.files, f.jobId = jobId →
          f.status ∈ settledStatuses) ∧
        ∀ path ∈ w.scan, (filePaths (execStep jobId w (.run input)).db jobId).count path = 1
  | _ => True

/-! ### Counting rows -/

/-- Every row of the job is done, failed, timed out or none of these. -/
theorem length_filePaths (s : Db) (jobId : Nat) :
    (filePaths s jobId).length = settledCount s jobId +
      s.countFiles jobId fun f => f.status ∉ settledStatuses := by
  rw [settledCount, Db.retryableCount, filePaths, List.length_map, jobFiles]
  simp only [Db.countFiles]
  induction s.files.rows with
  | nil => rfl
  | cons f rest ih =>
      by_cases mine : f.jobId = jobId
      · cases status : f.status <;> simp [mine, status, settledStatuses] at ih ⊢ <;> omega
      · simp [mine] at ih ⊢
        omega

theorem settled_of_settledCount {s : Db} {jobId : Nat}
    (enough : (filePaths s jobId).length ≤ settledCount s jobId) :
    ∀ f ∈ s.files, f.jobId = jobId → f.status ∈ settledStatuses := by
  have none : s.countFiles jobId (fun f => f.status ∉ settledStatuses) = 0 := by
    have := length_filePaths s jobId
    omega
  rw [Db.countFiles, List.countP_eq_zero] at none
  intro f hf mine
  have := none f hf
  simpa [mine] using this

/-! ### Steps that keep the rows -/

/-- No row is added or removed, and the file count of the job stays. -/
structure RowsKept (jobId : Nat) (s t : Db) : Prop where
  paths : ∀ k, filePaths t k = filePaths s k
  fileCount : fileCountOf t jobId = fileCountOf s jobId

namespace RowsKept

variable {jobId : Nat} {s t u : Db}

theorem refl (jobId : Nat) (s : Db) : RowsKept jobId s s := ⟨fun _ => rfl, rfl⟩

theorem trans (first : RowsKept jobId s t) (second : RowsKept jobId t u) : RowsKept jobId s u :=
  ⟨fun k => (second.paths k).trans (first.paths k), second.fileCount.trans first.fileCount⟩

theorem of_tables (jobs : t.jobs = s.jobs) (files : t.files = s.files) : RowsKept jobId s t := by
  constructor
  · intro k
    rw [filePaths, jobFiles, files]
    rfl
  · rw [fileCountOf, jobs]
    rfl

theorem modifyJob {f : ExportJob → ExportJob} (key : ∀ r, (f r).id = r.id)
    (same : ∀ j, (f j).fileCount = j.fileCount) : RowsKept jobId s (s.modifyJob jobId f key) := by
  refine ⟨fun _ => rfl, ?_⟩
  rw [fileCountOf, fileCountOf, Db.get_modifyJob, Option.map_map]
  congr 1
  funext j
  exact same j

theorem updateFiles {p : ExportFile → Bool} {g : ExportFile → ExportFile}
    (key : ∀ r, (g r).id = r.id) (job : ∀ r, (g r).jobId = r.jobId)
    (path : ∀ r, (g r).relativePath = r.relativePath) :
    RowsKept jobId s (s.updateFiles p g key) :=
  ⟨fun _ => filePaths_updateFiles key job path, rfl⟩

theorem commitJob (loaded new : ExportJob) : RowsKept jobId s (commitJob s jobId loaded new) :=
  modifyJob (flushJob_id loaded new) fun _ => rfl

theorem resolve (probe : Str → Option Nat) (now : Nat) :
    RowsKept jobId s (resolveTargetFullOutcome s jobId probe now).2 := by
  have rule := @resolveTargetFullOutcome_rule (RowsKept jobId s) s jobId now probe (refl jobId s)
    fun _ _ _ kept => kept.trans (of_tables rfl rfl)
  rcases rule with ⟨-, kept⟩ | ⟨job, active, next, drive, probed, -, -, kept, -, moved⟩
  · exact kept
  · rw [moved]
    refine kept.trans ⟨fun k => ?_, ?_⟩
    · refine filePaths_updateFiles (s := probed) ?_ ?_ ?_ <;> exact fun _ => rfl
    · rw [fileCountOf, fileCountOf, get_continueOnReserved, Option.map_map]
      rfl

end RowsKept

section Run

variable {r : CopyRun} {s : Db} {jobId : Nat} {input : RunInput}

/-- Only the preparation changes the rows. -/
theorem CopyRun.rowsKept_advance (away : r.pc ≠ .preparing) :
    RowsKept jobId s (r.advance s jobId input).1 := by
  have next : RunAdvance r s jobId input (r.advance s jobId input) := CopyRun.advance_cases
  generalize r.advance s jobId input = t at next
  cases next with
  | noFiles pc | prepared pc => exact absurd pc away
  | opened | entering | committing | failed => exact .commitJob _ _
  | lingers => apply RowsKept.updateFiles <;> exact fun _ => rfl
  | continued => exact .resolve _ _
  | finalized => exact (RowsKept.resolve _ _).trans (.commitJob _ _)
  | ends | idle | opening | pauseFound | goesOn | loading | exhausted | pauseSeen | fullSeen | settling
  | lingering | counting | finalizing | failing => exact .refl jobId s

/-- The analysis leaves distinct rows, one for each file it has found, and the
count of the job is their number. -/
theorem analyseSource_rows {job : ExportJob} (found : s.jobs.get jobId = some job)
    (distinct : (filePaths s jobId).Nodup) :
    (filePaths (analyseSource s job input.tree input.directoriesUnchanged) jobId).Nodup ∧
      cachedFileCount (analyseSource s job input.tree input.directoriesUnchanged) jobId =
        (filePaths (analyseSource s job input.tree input.directoriesUnchanged) jobId).length ∧
      ∀ path ∈ preparedScan s jobId input,
        path ∈ filePaths (analyseSource s job input.tree input.directoriesUnchanged) jobId := by
  obtain rfl : job.id = jobId := id_of_get found
  simp only [analyseSource, preparedScan, found]
  split
  · rename_i current
    refine ⟨distinct, ?_, fun _ h => h⟩
    -- The cached analysis is used only if its count is that of the rows.
    simp only [cachedStartupAnalysisIsCurrent, Bool.and_eq_true, decide_eq_true_eq] at current
    rw [cachedFileCount, found, filePaths, List.length_map]
    exact current.2.1.1.2.symm
  · obtain ⟨nodup, members⟩ := filePaths_persistStartupAnalysisCache input.tree distinct
    have same : (filePaths (persistStartupAnalysisCache s job.id input.tree) job.id).Perm
        input.tree.paths :=
      (List.perm_ext_iff_of_nodup nodup input.tree.distinct).mpr members
    refine ⟨nodup, ?_, fun path h => (members path).mpr h⟩
    have kept : (listFiles s job.id input.tree.files).jobs.get job.id = some job := by
      obtain ⟨rows, listed⟩ := listFiles_files job.id input.tree.files s
      rw [listed]
      exact found
    rw [same.length_eq, SourceTree.paths, List.length_map, cachedFileCount,
      persistStartupAnalysisCache, Db.get_modifyJob]
    change ((Option.map _ ((listFiles s job.id input.tree.files).jobs.get job.id)).bind _).getD 0 = _
    rw [kept]
    rfl

/-- What a preparation leaves. -/
theorem prepared_rows (jobId : Nat) (s : Db) (k : Nat) :
    filePaths (prepared s jobId) k = filePaths s k := by
  refine filePaths_updateFiles (s := s) ?_ ?_ ?_ <;> exact fun _ => rfl

theorem fileCountOf_prepared {n : Nat} (h : fileCountOf (prepared s jobId) jobId = some n) :
    n = cachedFileCount s jobId := by
  rw [fileCountOf, prepared, Db.get_modifyJob] at h
  change ((s.jobs.get jobId).map _).map _ = some n at h
  rw [cachedFileCount]
  cases found : s.jobs.get jobId with
  | none =>
      rw [found] at h
      cases h
  | some job =>
      rw [found] at h
      exact (Option.some.inj h).symm

end Run

/-! ### The invariant of a run -/

/-- The rows are those of the scan, and the file count is their number. -/
structure Listed (jobId : Nat) (s : Db) (scan : List Str) : Prop where
  counted : ∀ n, fileCountOf s jobId = some n → n = (filePaths s jobId).length
  scanned : ∀ path ∈ scan, path ∈ filePaths s jobId

theorem Listed.keep {jobId : Nat} {s t : Db} {scan : List Str} (h : Listed jobId s scan)
    (kept : RowsKept jobId s t) : Listed jobId t scan := by
  constructor
  · rw [kept.fileCount, kept.paths]
    exact h.counted
  · rw [kept.paths]
    exact h.scanned

/-- The workers are done and the run has counted the settled rows. -/
structure Counted (jobId : Nat) (w : Execution) : Prop where
  listed : Listed jobId w.db w.scan
  idle : w.pool.flights = []
  outcomes : w.run.outcomes = settledCount w.db jobId

/-- What the run has reached at each point. -/
def Reached (jobId : Nat) (w : Execution) : Prop :=
  match w.run.pc with
  | .deciding | .loading | .entering | .copying | .settling => Listed jobId w.db w.scan
  | .lingering | .counting => Listed jobId w.db w.scan ∧ w.pool.flights = []
  | .resolving | .finalizing => Counted jobId w
  | .committing _ => Counted jobId w ∧
      ∀ job, w.run.cached = some job → job.fileCount = (filePaths w.db jobId).length
  | _ => True

def CompletionInv (jobId : Nat) (w : Execution) : Prop :=
  (filePaths w.db jobId).Nodup ∧ Reached jobId w

/-- The final row is completed only if the counts agree. -/
theorem counts_of_completed {r : CopyRun} {job : ExportJob} {targetFullFailed : Bool} {now : Nat}
    (completed : (r.finalJob job targetFullFailed now).status = .completed) :
    job.fileCount ≤ r.outcomes := by
  change finalStatus _ _ (decide (job.fileCount ≤ r.outcomes)) _ = .completed at completed
  by_contra few
  rw [decide_eq_false few, finalStatus] at completed
  split at completed
  · cases completed
  · split at completed
    · cases completed
    · cases completed

/-- A commit that changes the status writes the one of the object. -/
theorem status_of_commitJob {s : Db} {jobId : Nat} {loaded new : ExportJob} {status : JobStatus}
    (before : statusOf s jobId ≠ some status)
    (after : statusOf (commitJob s jobId loaded new) jobId = some status) : new.status = status := by
  rw [statusOf_commitJob] at after
  cases row : statusOf s jobId with
  | none =>
      rw [row] at after
      cases after
  | some old =>
      rw [row, Option.map_some, Option.some.injEq, flush] at after
      split at after
      · rw [row, after] at before
        exact absurd rfl before
      · exact after

section Steps

variable {jobId : Nat} {w : Execution}

theorem settled_of_counts {s t : Db} {r : CopyRun} {job : ExportJob} {scan : List Str}
    (distinct : (filePaths s jobId).Nodup) (listed : Listed jobId s scan)
    (outcomes : r.outcomes = settledCount s jobId)
    (number : job.fileCount = (filePaths s jobId).length) (enough : job.fileCount ≤ r.outcomes)
    (files : t.files = s.files) :
    (∀ f ∈ t.files, f.jobId = jobId → f.status ∈ settledStatuses) ∧
      ∀ path ∈ scan, (filePaths t jobId).count path = 1 := by
  have same : filePaths t jobId = filePaths s jobId := by rw [filePaths, jobFiles, files]; rfl
  rw [files, same]
  refine ⟨settled_of_settledCount (by omega), fun path mem => ?_⟩
  exact List.count_eq_one_of_mem distinct (listed.scanned path mem)

theorem CompletionInv.settled {input : RunInput} (inv : CompletionInv jobId w) :
    CompletedSettled jobId w (.run input) := by
  intro before after
  by_cases ready : w.ready jobId input = true
  · have write : RunWrite w.run w.db jobId input (execStep jobId w (.run input)).db := by
      simp only [execStep, ready, if_true]
      exact runWrite_step
    obtain ⟨distinct, inv⟩ := inv
    unfold Reached at inv
    generalize (execStep jobId w (.run input)).db = t at write after
    cases write with
    | quiet h => exact absurd ((statusOf_of_custodyOf h.1).symm.trans after) before
    | opened pc cached => cases status_of_commitJob before after
    | entered pc cached => cases status_of_commitJob before after
    | @continued probed active next drive now pc outcome frame =>
        have running : statusOf (continueOnReserved probed jobId active next drive now) jobId =
            (statusOf probed jobId).map fun _ => .running := by
          rw [statusOf, statusOf, get_continueOnReserved, Option.map_map, Option.map_map]
          rfl
        rw [running] at after
        obtain ⟨-, -, h⟩ := Option.map_eq_some_iff.mp after
        cases h
    | @finalized probed job targetFullFailed now pc frame found owned tables =>
        rw [pc] at inv
        rw [statusOf, ← tables.1] at before
        have enough := counts_of_completed (status_of_commitJob before after)
        have number : job.fileCount = (filePaths w.db jobId).length := by
          refine inv.listed.counted job.fileCount ?_
          rw [fileCountOf, ← tables.1, found]
          rfl
        exact settled_of_counts distinct inv.listed inv.outcomes number enough tables.2
    | @committed job finishedAt pc cached =>
        rw [pc] at inv
        have enough := counts_of_completed (status_of_commitJob before after)
        exact settled_of_counts distinct inv.1.listed inv.1.outcomes (inv.2 job cached) enough rfl
    | failed pc cached =>
        have status := status_of_commitJob before after
        simp [finishedJob] at status
  · simp only [execStep, ready, Bool.false_eq_true, if_false] at after
    exact absurd after before

/-- The point a step leads to, when the rows are kept. -/
theorem CompletionInv.advance {input : RunInput} {pool : Pool} (inv : CompletionInv jobId w)
    (away : w.run.pc ≠ .preparing) (ready : w.ready jobId input = true)
    (kept : w.run.pc ≠ .entering → pool = w.pool) :
    CompletionInv jobId ⟨(w.run.advance w.db jobId input).1, (w.run.advance w.db jobId input).2,
      pool, w.scan⟩ := by
  have rows : RowsKept jobId w.db (w.run.advance w.db jobId input).1 := CopyRun.rowsKept_advance away
  have listed : Listed jobId w.db w.scan →
      Listed jobId (w.run.advance w.db jobId input).1 w.scan := fun h => h.keep rows
  have next : RunAdvance w.run w.db jobId input (w.run.advance w.db jobId input) :=
    CopyRun.advance_cases
  obtain ⟨distinct, inv⟩ := inv
  refine ⟨by rw [rows.paths]; exact distinct, ?_⟩
  generalize w.run.advance w.db jobId input = t at next listed
  unfold Execution.ready at ready
  unfold Reached at inv
  cases next with
  | idle pc =>
      rcases pc with pc | pc
      · rw [pc] at inv
        simpa only [Reached, pc] using inv
      · simp only [Reached, pc]
  | pauseFound pc | goesOn pc | loading pc | exhausted pc | pauseSeen pc | fullSeen pc =>
      rw [pc] at inv
      exact inv
  | entering pc cached =>
      rw [pc] at inv
      exact listed inv
  | settling pc owned =>
      rw [pc] at inv ready
      obtain rfl := kept (by simp [pc])
      exact ⟨inv, of_decide_eq_true ready⟩
  | lingering pc =>
      rw [pc] at inv
      obtain rfl := kept (by simp [pc])
      exact inv
  | counting pc next =>
      rw [pc] at inv
      obtain rfl := kept (by simp [pc])
      rcases next with rfl | rfl
      · exact ⟨inv.1, inv.2, rfl⟩
      · exact ⟨inv.1, inv.2, rfl⟩
  | @finalizing job pc found owned =>
      rw [pc] at inv
      obtain rfl := kept (by simp [pc])
      refine ⟨⟨inv.listed, inv.idle, inv.outcomes⟩, ?_⟩
      rintro _ ⟨⟩
      refine inv.listed.counted job.fileCount ?_
      rw [fileCountOf, found]
      rfl
  | finalized _ _ _ _ after | committing _ _ after =>
      rcases after with rfl | rfl
      · trivial
      · trivial
  | noFiles pc | prepared pc => exact absurd pc away
  | ends | opening | opened | lingers | continued | failing | failed => trivial

theorem CompletionInv.prepare {input : RunInput} (inv : CompletionInv jobId w)
    (preparing : w.run.pc = .preparing) :
    CompletionInv jobId ⟨(w.run.advance w.db jobId input).1, (w.run.advance w.db jobId input).2,
      w.pool, preparedScan w.db jobId input⟩ := by
  simp only [CopyRun.advance, preparing]
  cases found : w.db.jobs.get jobId with
  | none => exact ⟨inv.1, trivial⟩
  | some job =>
      obtain ⟨distinct, number, scanned⟩ := @analyseSource_rows w.db jobId input job found inv.1
      dsimp only
      split
      · exact ⟨distinct, trivial⟩
      · refine ⟨?_, ⟨fun n h => ?_, ?_⟩⟩
        · rw [prepared_rows]
          exact distinct
        · rw [prepared_rows, fileCountOf_prepared h]
          exact number
        · rw [prepared_rows]
          exact scanned

theorem CompletionInv.run {input : RunInput} (inv : CompletionInv jobId w) :
    CompletionInv jobId (execStep jobId w (.run input)) := by
  simp only [execStep]
  split
  · rename_i ready
    refine CopyRun.step_rule (P := fun next => CompletionInv jobId ⟨next.1, next.2, _, _⟩)
      (fun _ => ?_) ?_
    · by_cases preparing : w.run.pc = .preparing
      · rw [if_pos preparing, if_neg (by rw [preparing]; decide)]
        exact inv.prepare preparing
      · rw [if_neg preparing]
        exact inv.advance preparing ready fun other => if_neg other
    · rintro trouble pc - rfl
      have distinct : (filePaths (if w.run.pc = .preparing then analysisFailed w.db jobId
          else w.db) jobId).Nodup := by
        split <;> exact inv.1
      rcases w.run.pcAfterTrouble_cases trouble with ends | ⟨reason, ends⟩
      · exact ⟨distinct, by simp only [Reached, ends]⟩
      · exact ⟨distinct, by simp only [Reached, ends]⟩
  · exact inv

/-- A step that keeps the rows and does not move the run. -/
theorem CompletionInv.of_kept {v : Execution} (inv : CompletionInv jobId w) (run : v.run = w.run)
    (scan : v.scan = w.scan) (rows : RowsKept jobId w.db v.db)
    (rest : v.pool = w.pool ∧ v.db.files = w.db.files ∨ w.run.pc = .copying ∨ w.pool.flights ≠ []) :
    CompletionInv jobId v := by
  obtain ⟨distinct, inv⟩ := inv
  refine ⟨by rw [rows.paths]; exact distinct, ?_⟩
  unfold Reached at inv ⊢
  rw [run, scan]
  have listed : Listed jobId w.db w.scan → Listed jobId v.db w.scan := fun h => h.keep rows
  have quiet : w.run.pc ≠ .copying → w.pool.flights = [] →
      v.pool = w.pool ∧ v.db.files = w.db.files := by
    intro away idle
    rcases rest with same | copying | busy
    · exact same
    · exact absurd copying away
    · exact absurd idle busy
  have counted : w.run.pc ≠ .copying → Counted jobId w → Counted jobId v := by
    intro away h
    obtain ⟨pool, files⟩ := quiet away h.idle
    refine ⟨?_, ?_, ?_⟩
    · rw [scan]
      exact listed h.listed
    · rw [pool]
      exact h.idle
    · rw [run, h.outcomes]
      simp only [settledCount, Db.retryableCount, Db.countFiles, files]
  cases pc : w.run.pc with
  | deciding | loading | entering | copying | settling =>
      rw [pc] at inv
      exact listed inv
  | lingering | counting =>
      rw [pc] at inv quiet
      refine ⟨listed inv.1, ?_⟩
      rw [(quiet (by decide) inv.2).1]
      exact inv.2
  | resolving | finalizing =>
      rw [pc] at inv counted
      exact counted (by decide) inv
  | committing finishedAt =>
      rw [pc] at inv counted
      refine ⟨counted (by simp) inv.1, fun job cached => ?_⟩
      rw [rows.paths]
      exact inv.2 job cached
  | opening | opened | preparing | reporting | finished => trivial
  | failing reason => trivial
  | failed reason finishedAt => trivial

theorem CompletionInv.step {a : ExecAction} (inv : CompletionInv jobId w) :
    CompletionInv jobId (execStep jobId w a) := by
  by_cases pool : a.ofPool = true
  · have frame : PoolFrame w (execStep jobId w a) := poolFrame_step pool
    have rows : RowsKept jobId w.db (execStep jobId w a).db :=
      ⟨frame.paths, by rw [fileCountOf, frame.jobs]; rfl⟩
    refine inv.of_kept frame.run frame.scan rows ?_
    by_cases idle : w.pool.flights = []
    · by_cases copying : w.run.pc = .copying
      · exact .inr (.inl copying)
      · rw [poolStep_idle pool idle copying]
        exact .inl ⟨rfl, rfl⟩
    · exact .inr (.inr idle)
  · cases a with
    | run input => exact inv.run
    | pause =>
        have kept : RowsKept jobId w.db (settle (pauseJob w.db jobId)) ∧
            (settle (pauseJob w.db jobId)).files = w.db.files := by
          cases answer : pauseJob w.db jobId with
          | ok s =>
              obtain ⟨-, -, -, rfl⟩ := pauseJob_eq_ok answer
              refine ⟨?_, rfl⟩
              apply RowsKept.modifyJob
              exact fun _ => rfl
          | error refusal =>
              exact leaves_pauseJob (P := fun t => RowsKept jobId w.db t ∧ t.files = w.db.files)
                ⟨.refl jobId w.db, rfl⟩ refusal answer
        exact inv.of_kept rfl rfl kept.1 (.inl ⟨rfl, kept.2⟩)
    | submit | resubmit | beginAttempt | endAttempt | cancel => exact absurd rfl pool

end Steps

/-- In every execution of a run on a reachable state, a run that commits
`COMPLETED` has settled every row, and the rows are those of its scan. -/
theorem completed_settled {cfg : Settings} {s : Db} {history : List Action} {jobId : Nat}
    (initial : Initial s) (actions : List ExecAction) :
    Along (execStep jobId) (CompletedSettled jobId)
      (.launched (exec (step cfg) s history)) actions := by
  have start : CompletionInv jobId (.launched (exec (step cfg) s history)) :=
    ⟨distinctPaths_of_run initial history jobId, trivial⟩
  refine along_of_along (G := fun _ _ => True) (fun _ _ inv _ => CompletionInv.step inv) ?_ start ?_
  · intro v a inv _
    cases a with
    | run input => exact inv.settled
    | submit | resubmit | beginAttempt | endAttempt | cancel | pause => trivial
  · exact along_true

/-- One file is copied, the other times out. -/
def timedOutRun : List ExecAction :=
  (List.range' 3 6).map (fun now => .run (Lab.input now)) ++
    [.submit, .submit, .beginAttempt 2 true, .beginAttempt 1 true,
      .endAttempt 2 (.timeout "Operation timed out") true,
      .endAttempt 1 (.done "5feceb66".toList) true,
      .run { Lab.input 10 with exhausted := true }] ++
    (List.range' 11 5).map fun now => .run (Lab.input now)

theorem completed_settled_timedOutRun :
    Initial Lab.start ∧
      statusOf (exec (execStep 1) (.launched (exec (step Lab.settings) Lab.start Lab.startOne))
        timedOutRun).db 1 = some .completed ∧
      Along (execStep 1) (CompletedSettled 1)
        (.launched (exec (step Lab.settings) Lab.start Lab.startOne)) timedOutRun := by
  refine ⟨Lab.start_initial, ?_, completed_settled Lab.start_initial timedOutRun⟩
  decide

end Ecube
