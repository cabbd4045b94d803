import Ecube.Interleaving.Scheduling

/-!
The active time of a job.

A run notes in `copy_started_at` when it puts the job into `RUNNING`, and adds
the time since then to `active_duration_seconds` in its final commit. A run may
put the job into `RUNNING` several times: after a full target it goes on with
another drive, and files that no worker has finished are copied in another
round. Each time it overwrites the note, and the job has been in `RUNNING` all
along.

* `activeTime_lost`: a run of two rounds that only counts the second.
* `activeTime_accounted`: in every run whose `RUNNING` commits find no such
  note, the column grows by the time in which the run had the job in `RUNNING`,
  rounded once.
-/

namespace Ecube

open Table Transition

/-- The clock counts microseconds. -/
def ticksPerSecond : Nat := 1000000

/-- Python's `round`: to the nearest integer, halves to the even one. -/
def roundHalfEven (n d : Nat) : Nat :=
  if 2 * (n % d) < d then n / d
  else if d < 2 * (n % d) then n / d + 1
  else if n / d % 2 = 0 then n / d
  else n / d + 1

/-- `_calculate_total_active_seconds`, in ticks. -/
def calculateTotalActiveSeconds (existingSeconds : Nat) (startedAt : Option Nat) (endedAt : Nat) : Nat :=
  existingSeconds * ticksPerSecond + startedAt.elim 0 (endedAt - ·)

/-- The object of the final commit that a step makes, and its clock. -/
def CopyRun.finalCommit (r : CopyRun) (s : Db) (jobId : Nat) (input : RunInput) :
    Option (ExportJob × Nat) :=
  match input.trouble, r.pc with
  | none, .committing finishedAt => r.cached.map (·, finishedAt)
  | none, .failed _ finishedAt => r.cached.map (·, finishedAt)
  | none, .resolving =>
      match resolveTargetFullOutcome s jobId input.probe input.now with
      | (.continued, _) => none
      | (_, probed) =>
          match probed.jobs.get jobId with
          | some job => if job.startedAt ≠ r.startedAt then none else some (job, input.now)
          | none => none
  | _, _ => none

/-- The clock of the commit with which a step puts the job into `RUNNING`. -/
def CopyRun.runningCommit (r : CopyRun) (s : Db) (jobId : Nat) (input : RunInput) : Option Nat :=
  if input.trouble.isNone ∧ r.pc = .entering ∧ r.cached.isSome ∧ (s.jobs.get jobId).isSome then
    some input.now
  else none

/-- An execution with the column of its job. `runningSince` and `runningTime`
observe the run: since when it has the job in `RUNNING`, and for how long it had
it there before. -/
structure TimedExecution where
  execution : Execution
  activeDurationSeconds : Nat
  runningSince : Option Nat
  runningTime : Nat

def TimedExecution.launched (s : Db) (activeDurationSeconds : Nat) : TimedExecution :=
  ⟨.launched s, activeDurationSeconds, none, 0⟩

def timedStep (jobId : Nat) (w : TimedExecution) (a : ExecAction) : TimedExecution :=
  let e := w.execution
  let next := execStep jobId e a
  match a with
  | .run input =>
      if e.ready jobId input then
        match e.run.finalCommit e.db jobId input with
        | some (job, finishedAt) =>
            { execution := next
              activeDurationSeconds := roundHalfEven (calculateTotalActiveSeconds
                w.activeDurationSeconds job.copyStartedAt finishedAt) ticksPerSecond
              runningSince := none
              runningTime := w.runningTime + w.runningSince.elim 0 (finishedAt - ·) }
        | none => { w with
            execution := next
            runningSince := w.runningSince.or (e.run.runningCommit e.db jobId input) }
      else { w with execution := next }
  | _ => { w with execution := next }

/-- Once the job is out of `RUNNING` its column has grown by the time it was
there, up to half a second. -/
def Accounted (initial : Nat) (w : TimedExecution) : Prop :=
  w.runningSince = none →
    2 * (((w.activeDurationSeconds : Int) - initial) * ticksPerSecond - w.runningTime).natAbs ≤ ticksPerSecond

instance (initial : Nat) (w : TimedExecution) : Decidable (Accounted initial w) :=
  inferInstanceAs (Decidable (_ → _))

def copyStartedAtOf (s : Db) (jobId : Nat) : Option Nat :=
  (s.jobs.get jobId).bind ExportJob.copyStartedAt

/-- The commit into `RUNNING` overwrites no earlier note. -/
def FirstRunning (jobId : Nat) (w : TimedExecution) : ExecAction → Prop
  | .run _ => w.execution.run.pc = .entering → copyStartedAtOf w.execution.db jobId = none
  | _ => True

instance (jobId : Nat) (w : TimedExecution) (a : ExecAction) : Decidable (FirstRunning jobId w a) :=
  match a with
  | .run _ => inferInstanceAs (Decidable (w.execution.run.pc = .entering →
      copyStartedAtOf w.execution.db jobId = none))
  | .submit | .resubmit _ | .beginAttempt _ _ | .endAttempt _ _ _ | .cancel _ | .pause => .isTrue trivial

/-- Rounding is off by at most half a second. -/
theorem roundHalfEven_near (n : Nat) :
    2 * ((roundHalfEven n ticksPerSecond : Int) * ticksPerSecond - n).natAbs ≤ ticksPerSecond := by
  rw [roundHalfEven, ticksPerSecond]
  split
  · omega
  · split
    · omega
    · split <;> omega

theorem roundHalfEven_whole (seconds : Nat) :
    roundHalfEven (seconds * ticksPerSecond) ticksPerSecond = seconds := by
  rw [roundHalfEven, ticksPerSecond, if_pos (by omega)]
  omega

/-! ### The column `copy_started_at` -/

section Column

variable {s : Db} {jobId : Nat}

theorem copyStartedAtOf_modifyJob {f : ExportJob → ExportJob} (key : ∀ r, (f r).id = r.id)
    (same : ∀ j, (f j).copyStartedAt = j.copyStartedAt) :
    copyStartedAtOf (s.modifyJob jobId f key) jobId = copyStartedAtOf s jobId := by
  rw [copyStartedAtOf, copyStartedAtOf, Db.get_modifyJob, Option.bind_map]
  congr 1
  funext j
  exact same j

theorem copyStartedAtOf_commitJob {loaded new : ExportJob} (same : new.copyStartedAt = loaded.copyStartedAt) :
    copyStartedAtOf (commitJob s jobId loaded new) jobId = copyStartedAtOf s jobId := by
  apply copyStartedAtOf_modifyJob (flushJob_id loaded new)
  intro j
  change flush _ _ _ = _
  rw [flush, if_pos same]

/-- A commit of an object that agrees with the row writes its column. -/
theorem copyStartedAtOf_commitJob_loaded {loaded new row : ExportJob} (found : s.jobs.get jobId = some row)
    (object : loaded.copyStartedAt = row.copyStartedAt) :
    copyStartedAtOf (commitJob s jobId loaded new) jobId = new.copyStartedAt := by
  rw [copyStartedAtOf, get_commitJob, found]
  change flush loaded.copyStartedAt new.copyStartedAt row.copyStartedAt = new.copyStartedAt
  rw [← object, flush_self]

theorem copyStartedAtOf_of_jobs {t : Db} (jobs : t.jobs = s.jobs) :
    copyStartedAtOf t jobId = copyStartedAtOf s jobId := by
  rw [copyStartedAtOf, jobs, copyStartedAtOf]

theorem copyStartedAtOf_analyseSource {job : ExportJob} (tree : SourceTree) (directoriesUnchanged : Bool)
    (found : s.jobs.get jobId = some job) :
    copyStartedAtOf (analyseSource s job tree directoriesUnchanged) jobId = copyStartedAtOf s jobId := by
  obtain rfl : job.id = jobId := id_of_get found
  rw [analyseSource]
  split
  · rfl
  · obtain ⟨rows, listed⟩ := listFiles_files job.id tree.files s
    rw [persistStartupAnalysisCache, listed]
    exact copyStartedAtOf_modifyJob _ fun _ => rfl

theorem copyStartedAtOf_pause : copyStartedAtOf (settle (pauseJob s jobId)) jobId = copyStartedAtOf s jobId := by
  cases answer : pauseJob s jobId with
  | ok t =>
      obtain ⟨-, -, -, rfl⟩ := pauseJob_eq_ok answer
      exact copyStartedAtOf_modifyJob _ fun _ => rfl
  | error refusal =>
      exact leaves_pauseJob (P := fun t => copyStartedAtOf t jobId = copyStartedAtOf s jobId) rfl
        refusal answer

end Column

/-! ### The notes of a run -/

/-- Points at which the object of the run is expired or stands for the row. -/
def RunPc.holdsObject : RunPc → Bool
  | .reporting | .failing _ | .finished => false
  | _ => true

/-- The object of the run agrees with the row about the note. -/
def NoteAgrees (jobId : Nat) (w : Db × CopyRun) : Prop :=
  w.2.pc.holdsObject = true → ∀ job, w.2.cached = some job → job.copyStartedAt = copyStartedAtOf w.1 jobId

/-- Points after the final commit, or on the way to that of the handler. -/
def RunPc.isOver : RunPc → Bool
  | .reporting | .failing _ | .failed _ _ | .finished => true
  | _ => false

/-- What a step of a run does with the note. -/
inductive NoteStep (r : CopyRun) (s : Db) (jobId : Nat) (input : RunInput) (v : Db × CopyRun) : Prop where
  | enters (final : r.finalCommit s jobId input = none)
      (entering : r.pc = .entering) (running : r.runningCommit s jobId input = some input.now)
      (column : copyStartedAtOf v.1 jobId = some input.now)
  | ends {job : ExportJob} {finishedAt : Nat} (final : r.finalCommit s jobId input = some (job, finishedAt))
      (object : job.copyStartedAt = copyStartedAtOf s jobId) (column : copyStartedAtOf v.1 jobId = none)
      (isOver : v.2.pc.isOver = true)
  | keeps (final : r.finalCommit s jobId input = none)
      (running : r.runningCommit s jobId input = none)
      (column : copyStartedAtOf v.1 jobId = copyStartedAtOf s jobId)

section Notes

variable {r : CopyRun} {s : Db} {jobId : Nat} {input : RunInput}

theorem NoteAgrees.of_row {w : Db × CopyRun} (loaded : ∀ job, w.2.cached = some job → w.1.jobs.get jobId = some job) :
    NoteAgrees jobId w := by
  intro _ job cached
  rw [copyStartedAtOf, loaded job cached]
  rfl

theorem NoteAgrees.of_pc {w : Db × CopyRun} (away : w.2.pc.holdsObject = false) : NoteAgrees jobId w := by
  intro holds
  rw [away] at holds
  cases holds

theorem NoteAgrees.keep {w : Db × CopyRun} (h : NoteAgrees jobId (s, r)) (holds : r.pc.holdsObject = true)
    (cached : w.2.cached = r.cached) (column : copyStartedAtOf w.1 jobId = copyStartedAtOf s jobId) :
    NoteAgrees jobId w := by
  intro _ job found
  rw [column]
  exact h holds job (cached.symm.trans found)

/-- Loading and commits keep the object and the row together. -/
theorem NoteAgrees.advance (h : NoteAgrees jobId (s, r)) : NoteAgrees jobId (r.advance s jobId input) := by
  have next : RunAdvance r s jobId input (r.advance s jobId input) := CopyRun.advance_cases
  generalize r.advance s jobId input = t at next
  cases next with
  | ends | noFiles => exact .of_pc rfl
  | idle pc => exact h
  | opening pc found => exact .of_row fun job cached => found.trans cached
  | opened pc cached => exact .of_row fun job loaded => loaded
  | prepared pc found listed =>
      refine h.keep (by rw [pc]; rfl) rfl ?_
      refine Eq.trans ?_ (copyStartedAtOf_analyseSource input.tree input.directoriesUnchanged found)
      exact copyStartedAtOf_modifyJob (s := Db.resetNonDoneForRestart _ jobId) _ fun _ => rfl
  | pauseFound pc | goesOn pc | exhausted pc | pauseSeen pc | fullSeen pc | lingering pc | counting pc =>
      exact h.keep (by rw [pc]; rfl) rfl rfl
  | @loading job pc loaded =>
      cases cached : r.cached with
      | none =>
          rw [cached, Option.none_or] at loaded
          exact .of_row fun job' found => loaded.trans found
      | some object =>
          rw [cached, Option.some_or] at loaded
          exact h.keep (by rw [pc]; rfl) (cached.trans loaded).symm rfl
  | entering pc cached => exact .of_row fun job loaded => loaded
  | settling pc owned => exact .of_row fun job loaded => by cases loaded
  | lingers pc unfinished unpaused => exact h.keep (by rw [pc]; rfl) rfl rfl
  | continued pc outcome => exact .of_row fun job loaded => by cases loaded
  | finalized pc outcome found owned after => exact .of_pc (by rcases after with rfl | rfl <;> rfl)
  | finalizing pc found owned => exact .of_row fun job loaded => found.trans loaded
  | committing pc cached after => exact .of_pc (by rcases after with rfl | rfl <;> rfl)
  | failing pc found => exact .of_row fun job loaded => found.trans loaded
  | failed pc cached => exact .of_pc rfl

theorem NoteAgrees.step (h : NoteAgrees jobId (s, r)) : NoteAgrees jobId (r.step s jobId input) := by
  refine CopyRun.step_rule (fun _ => h.advance) ?_
  rintro trouble pc - rfl
  refine .of_pc ?_
  rcases r.pcAfterTrouble_cases trouble with ends | ⟨reason, ends⟩
  · simp only [ends, RunPc.holdsObject]
  · simp only [ends, RunPc.holdsObject]

/-- Points at which a step may write the note. -/
def RunPc.writesNote : RunPc → Bool
  | .entering | .resolving | .committing _ | .failed _ _ => true
  | _ => false

theorem copyStartedAtOf_advance (elsewhere : r.pc.writesNote = false) :
    copyStartedAtOf (r.advance s jobId input).1 jobId = copyStartedAtOf s jobId := by
  have next : RunAdvance r s jobId input (r.advance s jobId input) := CopyRun.advance_cases
  generalize r.advance s jobId input = t at next
  cases next with
  | opened pc cached => exact copyStartedAtOf_commitJob rfl
  | noFiles pc found empty =>
      refine Eq.trans ?_ (copyStartedAtOf_analyseSource input.tree input.directoriesUnchanged found)
      exact copyStartedAtOf_modifyJob _ fun _ => rfl
  | prepared pc found listed =>
      refine Eq.trans ?_ (copyStartedAtOf_analyseSource input.tree input.directoriesUnchanged found)
      exact copyStartedAtOf_modifyJob (s := Db.resetNonDoneForRestart _ jobId) _ fun _ => rfl
  | entering pc | continued pc | finalized pc | committing pc | failed pc =>
      rw [pc] at elsewhere
      cases elsewhere
  | ends | idle | opening | pauseFound | goesOn | loading | exhausted | pauseSeen | fullSeen | settling
  | lingers | lingering | counting | finalizing | failing => rfl

/-- The final commit of an object that agrees with the row clears the note. -/
theorem copyStartedAtOf_final {loaded new : ExportJob} (object : loaded.copyStartedAt = copyStartedAtOf s jobId)
    (cleared : new.copyStartedAt = none) :
    copyStartedAtOf (commitJob s jobId loaded new) jobId = none := by
  cases found : s.jobs.get jobId with
  | none =>
      rw [copyStartedAtOf, get_commitJob, found]
      rfl
  | some row =>
      rw [copyStartedAtOf, found] at object
      exact (copyStartedAtOf_commitJob_loaded found object).trans cleared

theorem isOver_pcAfterFinal (new : ExportJob) : (pcAfterFinal new).isOver = true := by
  rcases pcAfterFinal_cases new with after | after <;> rw [after] <;> rfl

/-- A run does not come back to the copy phase after its final commit. -/
theorem isOver_step (isOver : r.pc.isOver = true) : (r.step s jobId input).2.pc.isOver = true := by
  refine CopyRun.step_rule (P := fun v => v.2.pc.isOver = true) (fun _ => ?_) ?_
  · have next : RunAdvance r s jobId input (r.advance s jobId input) := CopyRun.advance_cases
    generalize r.advance s jobId input = t at next
    cases next with
    | ends | failing | failed => rfl
    | idle pc => exact isOver
    | opening pc | opened pc | noFiles pc | prepared pc | pauseFound pc | goesOn pc | loading pc | entering pc
    | exhausted pc | pauseSeen pc | fullSeen pc | settling pc | lingers pc | lingering pc | counting pc
    | continued pc | finalized pc | finalizing pc | committing pc =>
        rw [pc] at isOver
        cases isOver
  · rintro trouble pc - rfl
    rcases r.pcAfterTrouble_cases trouble with ends | ⟨reason, ends⟩
    · simp only [ends, RunPc.isOver]
    · simp only [ends, RunPc.isOver]

theorem noteStep_resolving (pc : r.pc = .resolving) (calm : input.trouble = none) :
    NoteStep r s jobId input (r.resolve s jobId input) := by
  have running : r.runningCommit s jobId input = none := if_neg (by simp [pc])
  have rule := @resolveTargetFullOutcome_rule (fun t => t.jobs = s.jobs) s jobId input.now input.probe rfl
    fun _ _ _ jobs => jobs
  obtain ⟨⟨outcome, probed⟩, decision⟩ :
      ∃ decided, resolveTargetFullOutcome s jobId input.probe input.now = decided := ⟨_, rfl⟩
  rw [decision] at rule
  have locked : ∀ targetFullFailed : Bool, outcome ≠ .continued →
      NoteStep r s jobId input (r.finalizeLocked s probed jobId targetFullFailed input.now) := by
    intro targetFullFailed stays
    have jobs : probed.jobs = s.jobs := by
      rcases rule with ⟨-, jobs⟩ | ⟨job, active, next, drive, origin, -, -, -, -, moved⟩
      · exact jobs
      · exact absurd (congrArg Prod.fst moved) stays
    have final : r.finalCommit s jobId input = match probed.jobs.get jobId with
        | some job => if job.startedAt ≠ r.startedAt then none else some (job, input.now)
        | none => none := by
      simp only [CopyRun.finalCommit, calm, pc, decision]
    rw [CopyRun.finalizeLocked]
    cases found : probed.jobs.get jobId with
    | none =>
        rw [found] at final
        exact .keeps final running rfl
    | some job =>
        rw [found] at final
        dsimp only at final ⊢
        split
        · rename_i lost
          rw [if_pos lost] at final
          exact .keeps final running rfl
        · rename_i owned
          rw [if_neg owned] at final
          have object : job.copyStartedAt = copyStartedAtOf probed jobId := by
            rw [copyStartedAtOf, found]
            rfl
          exact .ends final (object.trans (copyStartedAtOf_of_jobs jobs)) (copyStartedAtOf_final object rfl)
            (isOver_pcAfterFinal _)
  rw [CopyRun.resolve, decision]
  cases outcome with
  | failed => exact locked true (by simp)
  | notApplicable => exact locked false (by simp)
  | continued =>
      have final : r.finalCommit s jobId input = none := by
        simp only [CopyRun.finalCommit, calm, pc, decision]
      refine .keeps final running ?_
      rcases rule with ⟨stays, -⟩ | ⟨job, active, next, drive, origin, -, -, jobs, -, moved⟩
      · exact absurd rfl stays
      · refine Eq.trans ?_ (copyStartedAtOf_of_jobs jobs)
        obtain rfl := (Prod.mk.inj moved).2
        change copyStartedAtOf (continueOnReserved origin jobId active next drive input.now) jobId = _
        rw [copyStartedAtOf, copyStartedAtOf, get_continueOnReserved, Option.bind_map]
        rfl

theorem noteStep_final (finishedAt : Nat) {finished : ExportJob → ExportJob} {after : ExportJob → CopyRun}
    (agrees : NoteAgrees jobId (s, r)) (holds : r.pc.holdsObject = true)
    (final : r.finalCommit s jobId input = r.cached.map (·, finishedAt)) (elsewhere : r.pc ≠ .entering)
    (cleared : ∀ job, (finished job).copyStartedAt = none) (isOver : ∀ job, (after job).pc.isOver = true) :
    NoteStep r s jobId input (match r.cached with
      | none => (s, { r with pc := .finished })
      | some job => (commitJob s jobId job (finished job), after job)) := by
  cases cached : r.cached with
  | none =>
      rw [cached] at final
      exact .keeps final (if_neg fun h => elsewhere h.2.1) rfl
  | some job =>
      rw [cached] at final
      have object := agrees holds job cached
      exact .ends final object (copyStartedAtOf_final object (cleared job)) (isOver job)

theorem noteStep_advance (agrees : NoteAgrees jobId (s, r)) (calm : input.trouble = none) :
    NoteStep r s jobId input (r.advance s jobId input) := by
  by_cases elsewhere : r.pc.writesNote = false
  · refine .keeps ?_ (if_neg fun h => ?_) (copyStartedAtOf_advance elsewhere)
    · unfold CopyRun.finalCommit
      split <;> simp_all [RunPc.writesNote]
    · rw [h.2.1] at elsewhere
      cases elsewhere
  · unfold CopyRun.advance
    cases pc : r.pc with
    | entering =>
        dsimp only
        have final : r.finalCommit s jobId input = none := by
          simp only [CopyRun.finalCommit, calm, pc]
        cases cached : r.cached with
        | none => exact .keeps final (if_neg (by simp [cached])) rfl
        | some job =>
            have object := agrees (by rw [pc]; rfl) job cached
            cases found : s.jobs.get jobId with
            | none =>
                refine .keeps final (if_neg (by simp [found])) ?_
                simp only [copyStartedAtOf, get_commitJob, found, Option.map_none]
            | some row =>
                rw [copyStartedAtOf, found] at object
                refine .enters final pc (if_pos ?_) (copyStartedAtOf_commitJob_loaded found object)
                simp [calm, pc, cached, found]
    | resolving => exact noteStep_resolving pc calm
    | committing finishedAt =>
        refine noteStep_final finishedAt agrees (by rw [pc]; rfl) ?_ (by rw [pc]; simp) (fun _ => rfl)
          fun _ => isOver_pcAfterFinal _
        simp only [CopyRun.finalCommit, calm, pc]
    | failed reason finishedAt =>
        refine noteStep_final finishedAt agrees (by rw [pc]; rfl) ?_ (by rw [pc]; simp) (fun _ => rfl)
          fun _ => rfl
        simp only [CopyRun.finalCommit, calm, pc]
    | _ =>
        rw [pc] at elsewhere
        exact absurd rfl elsewhere

/-- A run notes the time when it enters `RUNNING`, and its final commit clears the note. -/
theorem noteStep (agrees : NoteAgrees jobId (s, r)) : NoteStep r s jobId input (r.step s jobId input) := by
  refine CopyRun.step_rule (noteStep_advance agrees) ?_
  rintro trouble pc h -
  refine .keeps ?_ (if_neg (by simp [h])) ?_
  · simp only [CopyRun.finalCommit, h]
  · dsimp only
    split
    · exact copyStartedAtOf_modifyJob _ fun _ => rfl
    · rfl

end Notes

/-! ### Accounting -/

/-- The note says since when the job is in `RUNNING`, and nothing is missing
once it is not. The column is untouched before the final commit. -/
structure TimeInv (jobId initial : Nat) (w : TimedExecution) : Prop where
  agrees : NoteAgrees jobId (w.execution.db, w.execution.run)
  note : copyStartedAtOf w.execution.db jobId = w.runningSince
  accounted : Accounted initial w
  untouched : (w.activeDurationSeconds = initial ∧ w.runningTime = 0) ∨
    (w.runningSince = none ∧ w.execution.run.pc.isOver = true)

section Accounting

variable {jobId initial : Nat} {w : TimedExecution}

theorem agrees_launched (s : Db) : NoteAgrees jobId (s, .launched) := by
  intro _ job cached
  cases cached

theorem TimeInv.launched {s : Db} (unnoted : copyStartedAtOf s jobId = none) :
    TimeInv jobId initial (.launched s initial) where
  agrees := agrees_launched s
  note := unnoted
  accounted _ := by simp [TimedExecution.launched]
  untouched := .inl ⟨rfl, rfl⟩

/-- A final commit adds the time of the note to what is accounted. -/
theorem accounted_final (inv : TimeInv jobId initial w) (finishedAt : Nat) :
    2 * (((roundHalfEven (calculateTotalActiveSeconds w.activeDurationSeconds w.runningSince finishedAt)
        ticksPerSecond : Nat) - initial : Int) * ticksPerSecond -
      (w.runningTime + w.runningSince.elim 0 (finishedAt - ·) : Nat)).natAbs ≤ ticksPerSecond := by
  cases since : w.runningSince with
  | none =>
      have before := inv.accounted since
      simp only [calculateTotalActiveSeconds, Option.elim_none, Nat.add_zero, roundHalfEven_whole]
      exact before
  | some startedAt =>
      obtain ⟨untouched, fresh⟩ := inv.untouched.resolve_right (by simp [since])
      have near := roundHalfEven_near (initial * ticksPerSecond + (finishedAt - startedAt))
      simp only [calculateTotalActiveSeconds, Option.elim_some, untouched, fresh]
      simp only [ticksPerSecond] at near ⊢
      omega

/-- A step that is not one of the run's. -/
theorem TimeInv.of_frame (inv : TimeInv jobId initial w) {e : Execution} (run : e.run = w.execution.run)
    (column : copyStartedAtOf e.db jobId = copyStartedAtOf w.execution.db jobId) :
    TimeInv jobId initial { w with execution := e } where
  agrees holds job cached := by
    rw [column]
    exact inv.agrees (run ▸ holds) job (run ▸ cached)
  note := column.trans inv.note
  accounted := inv.accounted
  untouched := inv.untouched.imp_right fun isOver => ⟨isOver.1, run ▸ isOver.2⟩

theorem TimeInv.run {input : RunInput} (inv : TimeInv jobId initial w)
    (first : FirstRunning jobId w (.run input)) :
    TimeInv jobId initial (timedStep jobId w (.run input)) := by
  unfold timedStep
  dsimp only
  by_cases ready : w.execution.ready jobId input = true
  · rw [if_pos ready]
    simp only [execStep, if_pos ready]
    have agrees : NoteAgrees jobId (w.execution.run.step w.execution.db jobId input) := inv.agrees.step
    have note : NoteStep w.execution.run w.execution.db jobId input
      (w.execution.run.step w.execution.db jobId input) := noteStep inv.agrees
    cases note with
    | enters final entering running column =>
        have since : w.runningSince = none := inv.note.symm.trans (first entering)
        rw [final, running, since]
        exact {
          agrees := agrees
          note := column
          accounted := fun idle => by cases idle
          untouched := .inl (inv.untouched.resolve_right (by simp [entering, RunPc.isOver])) }
    | ends final object column isOver =>
        rw [final]
        rw [inv.note] at object
        dsimp only
        rw [object]
        exact {
          agrees := agrees
          note := column
          accounted := fun _ => accounted_final inv _
          untouched := .inr ⟨rfl, isOver⟩ }
    | keeps final running column =>
        rw [final, running, Option.or_none]
        exact {
          agrees := agrees
          note := column.trans inv.note
          accounted := inv.accounted
          untouched := inv.untouched.imp_right fun isOver => ⟨isOver.1, isOver_step isOver.2⟩ }
  · rw [if_neg ready]
    simp only [execStep, if_neg ready]
    exact inv

theorem TimeInv.step {a : ExecAction} (inv : TimeInv jobId initial w) (first : FirstRunning jobId w a) :
    TimeInv jobId initial (timedStep jobId w a) := by
  have pool : ∀ b : ExecAction, b.ofPool = true →
      TimeInv jobId initial { w with execution := execStep jobId w.execution b } := by
    intro b ofPool
    have frame := @poolFrame_step jobId w.execution b ofPool
    exact inv.of_frame frame.run (copyStartedAtOf_of_jobs frame.jobs)
  cases a with
  | run input => exact inv.run first
  | pause => exact inv.of_frame rfl copyStartedAtOf_pause
  | submit | resubmit | beginAttempt | endAttempt | cancel => exact pool _ rfl

end Accounting

/-- In every run on a job without a note, as every accepted start leaves it,
whose commits into `RUNNING` overwrite none, the column grows by the time in
which the run had the job in `RUNNING`. -/
theorem activeTime_accounted {jobId initial : Nat} {s : Db} {actions : List ExecAction}
    (unnoted : copyStartedAtOf s jobId = none)
    (first : Along (timedStep jobId) (FirstRunning jobId) (.launched s initial) actions) :
    Always (timedStep jobId) (Accounted initial) (.launched s initial) actions := by
  have start : TimeInv jobId initial (.launched s initial) := .launched unnoted
  have always := always_of_along (fun _ _ inv first => TimeInv.step inv first) start first
  exact always.mono fun _ inv => inv.accounted

namespace Lab

/-- Steps of the run, one in each second. -/
def runSeconds (from_ count : Nat) : List ExecAction :=
  (List.range' from_ count).map fun second => .run (input (second * ticksPerSecond))

def exhaustedAt (second : Nat) : ExecAction :=
  .run { input (second * ticksPerSecond) with exhausted := true }

def copies (fileId : Nat) (saved : Bool) : List ExecAction :=
  [.submit, .beginAttempt fileId true, .endAttempt fileId (.done "5feceb66".toList) saved]

/-- The job is put into `RUNNING` in second 8, and both files are copied. -/
def oneRound : List ExecAction :=
  runSeconds 3 6 ++ copies 1 true ++ copies 2 true ++ [exhaustedAt 108] ++ runSeconds 109 5

/-- The outcome of the second file is not saved, so that another round follows. -/
def twoRounds : List ExecAction :=
  runSeconds 3 6 ++ copies 1 true ++ copies 2 false ++ [exhaustedAt 108] ++ runSeconds 109 6 ++
    copies 2 true ++ [exhaustedAt 120] ++ runSeconds 121 5

end Lab

theorem activeTime_accounted_oneRound :
    copyStartedAtOf Lab.started 1 = none ∧
      Along (timedStep 1) (FirstRunning 1) (.launched Lab.started 30) Lab.oneRound ∧
      statusOf (exec (timedStep 1) (.launched Lab.started 30) Lab.oneRound).execution.db 1 = some .completed ∧
      (exec (timedStep 1) (.launched Lab.started 30) Lab.oneRound).activeDurationSeconds = 134 ∧
      Always (timedStep 1) (Accounted 30) (.launched Lab.started 30) Lab.oneRound := by
  have first : Along (timedStep 1) (FirstRunning 1) (.launched Lab.started 30) Lab.oneRound := by decide
  exact ⟨by decide, first, by decide, by decide, activeTime_accounted (by decide) first⟩

/-- A run of two rounds that completes the job, which has been in `RUNNING` from
second 8 to second 124, counts 10 seconds. -/
theorem activeTime_lost :
    statusOf (exec (timedStep 1) (.launched Lab.started 30) Lab.twoRounds).execution.db 1 = some .completed ∧
      (exec (timedStep 1) (.launched Lab.started 30) Lab.twoRounds).activeDurationSeconds = 40 ∧
      (exec (timedStep 1) (.launched Lab.started 30) Lab.twoRounds).runningTime = 116 * ticksPerSecond ∧
      ¬ Accounted 30 (exec (timedStep 1) (.launched Lab.started 30) Lab.twoRounds) := by
  decide +kernel

end Ecube
