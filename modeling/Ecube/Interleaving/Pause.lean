import Ecube.Interleaving.CopyRun

/-!
A pause request against the run that executes the job.

`pause_job` commits `PAUSING` for a running job; the run notices at its next
look at the row and leaves the job `PAUSED`, or in a final status when nothing
was left to copy. Two of its writes do not look again: after the snapshot that
opens another round the row is loaded once more and set to `RUNNING` whatever
it then says, and the continuation after a full target sets `RUNNING` too.

* `pause_lost_to_continuation`: a pause that the automatic continuation undoes.
* `pauseKept_of_guarded`: in every run in which no pause lands between that
  snapshot and the load, and no continuation is possible while the job is
  pausing, a pausing job stays so until it is paused, completed or failed.
-/

namespace Ecube

open Table Transition

/-- The database and the run. -/
abbrev RunSystem := Db × CopyRun

inductive RunAction where
  | run (input : RunInput)
  | worker (fileId : Nat) (status : FileStatus) (errorMessage : Option String)
  | pause

def runSystemStep (jobId : Nat) (w : RunSystem) : RunAction → RunSystem
  | .run input => w.2.step w.1 jobId input
  | .worker fileId status errorMessage => (recordFile w.1 jobId fileId status errorMessage, w.2)
  | .pause => (settle (pauseJob w.1 jobId), w.2)

/-- Where the status of a pausing job may go. -/
def pauseEnds : List JobStatus := [.pausing, .paused, .completed, .failed]

/-- A pausing job does not become `PREPARING` or `RUNNING` again. -/
def PauseKept (jobId : Nat) (w : RunSystem) (a : RunAction) : Prop :=
  statusOf w.1 jobId = some .pausing →
    ∃ status ∈ pauseEnds, statusOf (runSystemStep jobId w a).1 jobId = some status

instance (jobId : Nat) (w : RunSystem) (a : RunAction) : Decidable (PauseKept jobId w a) :=
  inferInstanceAs (Decidable (statusOf w.1 jobId = some .pausing →
    ∃ status ∈ pauseEnds, statusOf (runSystemStep jobId w a).1 jobId = some status))

/-- The conditions the code does not check: a pause does not land between the
snapshot of a new round and the load for the `RUNNING` write, and no reserved
drive can take over while the job is pausing. -/
def PauseGuard (jobId : Nat) (w : RunSystem) : RunAction → Prop
  | .run input => w.2.pc = .resolving → statusOf w.1 jobId = some .pausing →
      canContinue w.1 jobId input.probe = false
  | .worker _ _ _ => True
  | .pause => statusOf w.1 jobId = some .running → w.2.pc ≠ .loading

instance (jobId : Nat) (w : RunSystem) (a : RunAction) : Decidable (PauseGuard jobId w a) :=
  match a with
  | .run input => inferInstanceAs (Decidable (w.2.pc = .resolving →
      statusOf w.1 jobId = some .pausing → canContinue w.1 jobId input.probe = false))
  | .worker _ _ _ => .isTrue trivial
  | .pause => inferInstanceAs (Decidable (statusOf w.1 jobId = some .running → w.2.pc ≠ .loading))

/-! ### The object of the run and the row -/

/-- The row and the object of the run are both `PREPARING`. -/
def Fresh (jobId : Nat) (w : RunSystem) : Prop :=
  statusOf w.1 jobId = some .preparing ∧ w.2.cached.map ExportJob.status = some .preparing

/-- Before the copy phase a pause is refused, because the job is not running yet;
in later rounds the object of the run is expired until it is loaded. -/
def PauseInv (jobId : Nat) (w : RunSystem) : Prop :=
  match w.2.pc with
  | .opening => statusOf w.1 jobId = some .preparing
  | .opened => Fresh jobId w
  | .preparing | .deciding => w.2.cached = none ∨ Fresh jobId w
  | .loading => (w.2.cached = none ∨ Fresh jobId w) ∧ statusOf w.1 jobId ≠ some .pausing
  | .entering => ∃ job, w.2.cached = some job ∧ (job.status = .running ∨
      (statusOf w.1 jobId = some job.status ∧ job.status ≠ .pausing))
  | .lingering => w.2.cached = none
  | _ => True

section Steps

variable {jobId : Nat} {w : RunSystem}

/-- A commit that ends the run leaves the row, or writes one of the final statuses. -/
theorem ends_commitJob {s : Db} {loaded new : ExportJob} (pausing : statusOf s jobId = some .pausing)
    (ends : new.status ∈ pauseEnds) :
    ∃ status ∈ pauseEnds, statusOf (commitJob s jobId loaded new) jobId = some status := by
  rw [statusOf_commitJob, pausing, Option.map_some, flush]
  split
  · exact ⟨.pausing, by decide, rfl⟩
  · exact ⟨new.status, ends, rfl⟩

theorem finalJob_ends (r : CopyRun) (job : ExportJob) (targetFullFailed : Bool) (now : Nat) :
    (r.finalJob job targetFullFailed now).status ∈ pauseEnds := by
  change finalStatus _ _ _ _ ∈ pauseEnds
  rw [finalStatus]
  split
  · decide
  · split
    · decide
    · split <;> decide

/-- What a step of the run does to a pausing job. -/
theorem PauseInv.kept {input : RunInput} (inv : PauseInv jobId w)
    (guard : PauseGuard jobId w (.run input)) : PauseKept jobId w (.run input) := by
  intro pausing
  have write : RunWrite w.2 w.1 jobId input (runSystemStep jobId w (.run input)).1 :=
    runWrite_step
  unfold PauseInv at inv
  generalize (runSystemStep jobId w (.run input)).1 = t at write
  cases write with
  | quiet h => exact ⟨.pausing, by decide, (statusOf_of_custodyOf h.1).trans pausing⟩
  | opened pc cached =>
      rw [pc] at inv
      cases pausing.symm.trans inv.1
  | entered pc cached =>
      rw [pc] at inv
      obtain ⟨job, same, running | ⟨row, other⟩⟩ := inv
      · cases same.symm.trans cached
        exact ⟨.pausing, by decide, (statusOf_commitJob_same running.symm).trans pausing⟩
      · exact absurd (Option.some.inj (row.symm.trans pausing)) other
  | continued pc outcome frame =>
      have stuck := guard pc pausing
      rw [canContinue_of_continued outcome] at stuck
      cases stuck
  | finalized pc frame found owned tables =>
      have pausing' := (statusOf_of_custodyOf frame.1).trans pausing
      exact ends_commitJob pausing' (finalJob_ends _ _ _ _)
  | committed pc cached => exact ends_commitJob pausing (finalJob_ends _ _ _ _)
  | failed pc cached => exact ends_commitJob pausing (by simp [finishedJob, pauseEnds])

/-- The invariant is about the job row and the run. -/
theorem PauseInv.of_row {db : Db} (inv : PauseInv jobId w)
    (same : statusOf db jobId = statusOf w.1 jobId) : PauseInv jobId (db, w.2) := by
  unfold PauseInv Fresh at inv ⊢
  dsimp only
  rw [same]
  exact inv

/-- A pause changes the status of a running job only. -/
theorem statusOf_pause (s : Db) : statusOf (settle (pauseJob s jobId)) jobId =
    if statusOf s jobId = some .running then some .pausing else statusOf s jobId := by
  cases found : s.jobs.get jobId with
  | none => simp [pauseJob, found, orReject, bind, Except.bind, settle, refuse, statusOf]
  | some job =>
      by_cases running : job.status = .running
      · have row : statusOf s jobId = some .running := by rw [statusOf, found, Option.map_some, running]
        have accepted : pauseJob s jobId = .ok (s.modifyJob jobId
            (fun j => { j with status := .pausing, completedAt := none }) fun _ => rfl) := by
          simp [pauseJob, found, orReject, ensure, running, bind, Except.bind, pure, Except.pure]
        rw [accepted, settle, statusOf, Db.get_modifyJob, found, if_pos row]
        rfl
      · have row : statusOf s jobId ≠ some .running := by simpa [statusOf, found] using running
        rw [if_neg row]
        simp [pauseJob, found, orReject, ensure, running, bind, Except.bind, settle, refuse]

theorem PauseInv.pause (inv : PauseInv jobId w) (guard : PauseGuard jobId w .pause) :
    PauseInv jobId (runSystemStep jobId w .pause) := by
  have status : statusOf (settle (pauseJob w.1 jobId)) jobId = _ := statusOf_pause w.1
  by_cases running : statusOf w.1 jobId = some .running
  · have ahead := guard running
    rw [if_pos running] at status
    -- The row is running, so none of the states before the copy phase applies.
    have stale : ¬ Fresh jobId w := fun h => by cases running.symm.trans h.1
    unfold PauseInv at inv ⊢
    simp only [runSystemStep]
    cases pc : w.2.pc with
    | opening =>
        rw [pc] at inv
        cases running.symm.trans inv
    | opened =>
        rw [pc] at inv
        exact absurd inv stale
    | preparing =>
        rw [pc] at inv
        exact .inl (inv.resolve_right stale)
    | deciding =>
        rw [pc] at inv
        exact .inl (inv.resolve_right stale)
    | loading => exact absurd pc ahead
    | entering =>
        rw [pc] at inv
        obtain ⟨job, cached, isRunning | ⟨row, -⟩⟩ := inv
        · exact ⟨job, cached, .inl isRunning⟩
        · exact ⟨job, cached, .inl (Option.some.inj (row.symm.trans running))⟩
    | lingering =>
        rw [pc] at inv
        exact inv
    | copying | settling | counting | resolving | finalizing | reporting | finished => trivial
    | committing finishedAt => trivial
    | failing reason => trivial
    | failed reason finishedAt => trivial
  · rw [if_neg running] at status
    exact inv.of_row status

theorem PauseInv.advance {input : RunInput} (inv : PauseInv jobId w) :
    PauseInv jobId (w.2.advance w.1 jobId input) := by
  have next : RunAdvance w.2 w.1 jobId input (w.2.advance w.1 jobId input) := CopyRun.advance_cases
  generalize w.2.advance w.1 jobId input = t at next
  cases next with
  | idle pc =>
      rcases pc with pc | pc
      · simp only [PauseInv, pc]
      · simp only [PauseInv, pc]
  | opening pc found unpaused =>
      rw [PauseInv, pc] at inv
      refine ⟨inv, ?_⟩
      rw [← inv, statusOf, found]
  | @opened job pc cached =>
      rw [PauseInv, pc] at inv
      obtain ⟨row, object⟩ := inv
      rw [cached] at object
      have same : (openedJob job input.now).status = job.status :=
        (Option.some.inj object).symm
      have kept : statusOf (commitJob w.1 jobId job (openedJob job input.now)) jobId =
          some .preparing :=
        (statusOf_commitJob_same same).trans row
      exact .inr ⟨kept, kept⟩
  | prepared pc found listed =>
      rw [PauseInv, pc] at inv
      have analysed := quiet_analyseSource input.tree input.directoriesUnchanged found
      have quiet := analysed.trans (quiet_prepared _ jobId)
      refine inv.imp_right fun fresh => ⟨?_, fresh.2⟩
      exact (statusOf_of_custodyOf quiet.1).trans fresh.1
  | goesOn pc found unpaused =>
      rw [PauseInv, pc] at inv
      refine ⟨inv, fun pausing => unpaused (.inl ?_)⟩
      rw [statusOf, found] at pausing
      exact Option.some.inj pausing
  | @loading job pc loaded =>
      rw [PauseInv, pc] at inv
      obtain ⟨object, row⟩ := inv
      refine ⟨job, rfl, .inr ?_⟩
      rcases object with expired | fresh
      · rw [expired, Option.none_or] at loaded
        have found : statusOf w.1 jobId = some job.status := by rw [statusOf, loaded]; rfl
        exact ⟨found, fun pausing => row (found.trans (congrArg some pausing))⟩
      · obtain ⟨c, cached, preparing⟩ := Option.map_eq_some_iff.mp fresh.2
        rw [cached, Option.some_or] at loaded
        obtain rfl := Option.some.inj loaded
        exact ⟨fresh.1.trans (congrArg some preparing.symm), by rw [preparing]; decide⟩
  | settling => exact rfl
  | lingers pc unfinished unpaused =>
      rw [PauseInv, pc] at inv
      exact .inl inv
  | counting pc next =>
      rcases next with rfl | rfl
      · trivial
      · trivial
  | continued => exact .inl rfl
  | finalized _ _ _ _ after | committing _ _ after =>
      rcases after with rfl | rfl
      · trivial
      · trivial
  | ends | noFiles | pauseFound | entering | exhausted | pauseSeen | fullSeen | lingering | finalizing
  | failing | failed => trivial

theorem PauseInv.run {input : RunInput} (inv : PauseInv jobId w) :
    PauseInv jobId (runSystemStep jobId w (.run input)) := by
  refine CopyRun.step_rule (P := PauseInv jobId) (fun _ => inv.advance) ?_
  rintro trouble pc - rfl
  rcases w.2.pcAfterTrouble_cases trouble with ends | ⟨reason, ends⟩
  · simp only [PauseInv, ends]
  · simp only [PauseInv, ends]

theorem PauseInv.step {a : RunAction} (inv : PauseInv jobId w) (guard : PauseGuard jobId w a) :
    PauseInv jobId (runSystemStep jobId w a) := by
  cases a with
  | run input => exact inv.run
  | worker fileId status errorMessage => exact inv.of_row rfl
  | pause => exact inv.pause guard

theorem PauseInv.kept_step {a : RunAction} (inv : PauseInv jobId w) (guard : PauseGuard jobId w a) :
    PauseKept jobId w a := by
  cases a with
  | run input => exact inv.kept guard
  | worker fileId status errorMessage => exact fun pausing => ⟨.pausing, by decide, pausing⟩
  | pause =>
      intro pausing
      refine ⟨.pausing, by decide, ?_⟩
      rw [runSystemStep, statusOf_pause, pausing]
      rfl

end Steps

/-- In a guarded interleaving a pausing job is never set back to work. -/
theorem pauseKept_of_guarded {jobId : Nat} {s : Db} {actions : List RunAction}
    (launched : statusOf s jobId = some .preparing)
    (guarded : Along (runSystemStep jobId) (PauseGuard jobId) ⟨s, .launched⟩ actions) :
    Along (runSystemStep jobId) (PauseKept jobId) ⟨s, .launched⟩ actions :=
  along_of_along (fun _ _ inv guard => PauseInv.step inv guard)
    (fun _ _ inv guard => PauseInv.kept_step inv guard) launched guarded

/-- From the launch of the run to the copy phase. -/
def toCopyPhase : List RunAction := (List.range' 3 6).map fun now => .run (Lab.input now)

/-- A pause while the files are copied, and the rest of the run. -/
def pausedRun : List RunAction :=
  toCopyPhase ++ [.worker 1 .done none, .pause] ++
    (List.range' 10 6).map fun now => .run (Lab.input now)

theorem pauseKept_pausedRun :
    statusOf Lab.started 1 = some .preparing ∧
      Along (runSystemStep 1) (PauseGuard 1) (Lab.started, .launched) pausedRun ∧
      Along (runSystemStep 1) (PauseKept 1) (Lab.started, .launched) pausedRun := by
  have launched : statusOf Lab.started 1 = some .preparing := by decide
  have guarded : Along (runSystemStep 1) (PauseGuard 1) (Lab.started, .launched) pausedRun := by
    decide
  exact ⟨launched, guarded, pauseKept_of_guarded launched guarded⟩

/-- The target runs full, the job is paused, and the run notices both. -/
def fullRun : List RunAction :=
  toCopyPhase ++ [.worker 1 .error (some targetFullMessage), .pause] ++
    (List.range' 10 4).map fun now => .run (Lab.input now)

/-- The automatic continuation sets the pausing job to `RUNNING`. -/
theorem pause_lost_to_continuation :
    statusOf Lab.started 1 = some .preparing ∧
      statusOf (exec (runSystemStep 1) (Lab.started, .launched) fullRun).1 1 = some .pausing ∧
      statusOf (runSystemStep 1 (exec (runSystemStep 1) (Lab.started, .launched) fullRun)
        (.run (Lab.input 14))).1 1 = some .running ∧
      ¬ PauseKept 1 (exec (runSystemStep 1) (Lab.started, .launched) fullRun)
        (.run (Lab.input 14)) := by
  refine ⟨?_, ?_, ?_, ?_⟩ <;> decide

end Ecube
