import Ecube.Interleaving.CopyRun
import Ecube.Invariants.Moved

/-!
A run that has lost its job to a newer one.

`start_job`, `retry_failed_files` and `continue_job_overflow` give the job a new
`started_at` and launch another run. The older run compares `started_at` with
its own when it polls, after the copy phase and before the final status; from
the last of its copy phases on it cannot write without one of these checks,
except in three places: the exception handler fails the job unconditionally, the
decision after a full target moves it, and a round that is opened again for
unfinished files writes `RUNNING`. What was loaded before the newer run was
launched is written as well.

* `stale_run_fails_job`: a run that raises while it reports fails the job of the
  newer run.
* `fenced_of_guarded`: without these an overtaken run never writes the status,
  the times, the failure reason, the target or the assignments of the job.
-/

namespace Ecube

open Table Transition

/-- The requests that launch a run of a job that may have one already. -/
inductive Restart where
  | startJob (threadCount : Option Nat)
  | retryFailedFiles
  | continueJobOverflow (driveId : Nat) (threadCount : Option Nat)

def Restart.event (jobId : Nat) : Restart → Event
  | .startJob threadCount => .startJob jobId threadCount
  | .retryFailedFiles => .retryFailedFiles jobId
  | .continueJobOverflow driveId threadCount => .continueJobOverflow jobId driveId threadCount

/-- The database, the first run and the runs launched after it. -/
structure FenceSystem where
  db : Db
  first : CopyRun
  later : List CopyRun

/-- `other` is any other transaction; none of them writes `started_at`. -/
inductive FenceAction where
  | first (input : RunInput)
  | later (index : Nat) (input : RunInput)
  | worker (fileId : Nat) (status : FileStatus) (errorMessage : Option String)
  | restart (now : Nat) (request : Restart)
  | other (after : Db)

def fenceStep (cfg : Settings) (jobId : Nat) (w : FenceSystem) : FenceAction → FenceSystem
  | .first input =>
      let next := w.first.step w.db jobId input
      { w with db := next.1, first := next.2 }
  | .later index input =>
      match w.later[index]? with
      | none => w
      | some r =>
          let next := r.step w.db jobId input
          { w with db := next.1, later := w.later.set index next.2 }
  | .worker fileId status errorMessage =>
      { w with db := recordFile w.db jobId fileId status errorMessage }
  | .restart now request =>
      match perform cfg w.db now (request.event jobId) with
      | .ok db => { w with db := db, later := w.later ++ [.launched] }
      | .error refusal => { w with db := refusal.committed }
  | .other after =>
      if startedAtOf after jobId = startedAtOf w.db jobId then { w with db := after } else w

/-- Once a newer run has been launched, the first one is quiet. -/
def Fenced (cfg : Settings) (jobId : Nat) (w : FenceSystem) : FenceAction → Prop
  | .first input => w.later ≠ [] → Quiet jobId w.db (fenceStep cfg jobId w (.first input)).db
  | _ => True

instance (cfg : Settings) (jobId : Nat) (w : FenceSystem) (a : FenceAction) :
    Decidable (Fenced cfg jobId w a) :=
  match a with
  | .first input => inferInstanceAs (Decidable
      (w.later ≠ [] → Quiet jobId w.db (fenceStep cfg jobId w (.first input)).db))
  | .later _ _ | .worker _ _ _ | .restart _ _ | .other _ => .isTrue trivial

/-- The points of a run after which its own writes follow a check of `started_at`,
unless it raises, continues on another drive or opens another round. -/
def RunPc.checked : RunPc → Bool
  | .copying | .settling | .lingering | .counting | .resolving | .finalizing | .reporting
  | .finished => true
  | _ => false

/-- A step of an overtaken run that does not reach an unchecked write: no
exception gets to the handler, no file is left unfinished without a pause and no
reserved drive can take over. -/
structure StaysChecked (jobId : Nat) (s : Db) (r : CopyRun) (input : RunInput) : Prop where
  handled : ∀ t ∈ input.trouble, r.pcAfterTrouble t = .finished
  settled : r.pc = .lingering → r.pauseRequested = false → s.files.any (lingeringFile jobId) = false
  stuck : r.pc = .resolving → canContinue s jobId input.probe = false

instance (jobId : Nat) (s : Db) (r : CopyRun) (input : RunInput) :
    Decidable (StaysChecked jobId s r input) :=
  decidable_of_iff
    ((∀ t ∈ input.trouble, r.pcAfterTrouble t = .finished) ∧
      (r.pc = .lingering → r.pauseRequested = false →
        s.files.any (lingeringFile jobId) = false) ∧
      (r.pc = .resolving → canContinue s jobId input.probe = false))
    ⟨fun h => ⟨h.1, h.2.1, h.2.2⟩, fun h => ⟨h.handled, h.settled, h.stuck⟩⟩

/-- The conditions the code does not check. -/
def FenceGuard (cfg : Settings) (jobId : Nat) (w : FenceSystem) : FenceAction → Prop
  | .first input => w.later ≠ [] → StaysChecked jobId w.db w.first input
  | .restart now request => Accepted cfg w.db ⟨now, request.event jobId⟩ →
      w.first.pc.checked = true ∧ w.first.startedAt ≠ some now
  | _ => True

instance (cfg : Settings) (jobId : Nat) (w : FenceSystem) (a : FenceAction) :
    Decidable (FenceGuard cfg jobId w a) :=
  match a with
  | .first input => inferInstanceAs (Decidable (w.later ≠ [] → StaysChecked jobId w.db w.first input))
  | .restart now request => inferInstanceAs (Decidable
      (Accepted cfg w.db ⟨now, request.event jobId⟩ →
        w.first.pc.checked = true ∧ w.first.startedAt ≠ some now))
  | .later _ _ | .worker _ _ _ | .other _ => .isTrue trivial

/-! ### `started_at` of the row -/

section Row

variable {jobId : Nat} {s t : Db}

/-- A restart gives the job its own time. -/
theorem startedAtOf_restart {cfg : Settings} {now : Nat} {request : Restart}
    (h : perform cfg s now (request.event jobId) = .ok t) :
    startedAtOf t jobId = some now := by
  cases request with
  | startJob threadCount =>
      obtain ⟨job, found, -, sourcePath, -, rfl⟩ := startJob_eq_ok h
      rw [started, startedAtOf, Db.get_modifyJob, found]
      rfl
  | retryFailedFiles =>
      obtain ⟨job, found, -, -, sourcePath, -, rfl⟩ := retryFailedFiles_eq_ok h
      have kept : (s.resetFailedForRetry jobId).jobs.get jobId = some job := found
      rw [startedAtOf, Db.get_modifyJob, kept]
      rfl
  | continueJobOverflow driveId threadCount =>
      have h' : continueJobOverflow cfg s jobId driveId threadCount now = .ok t := h
      simp only [continueJobOverflow, bind_eq_ok, pure_eq_ok] at h'
      obtain ⟨plan, checked, rfl⟩ := h'
      rw [startedAtOf, Db.get_modifyJob]
      have kept : ∀ u : Db, u.jobs = s.jobs → u.jobs.get jobId = some plan.job := by
        intro u same
        rw [same]
        exact (overflowPlan_eq_ok checked).job
      rw [kept]
      · rfl
      · exact (activateReservedOrNew_frame _ jobId driveId now).1.trans (leaveDrive_jobs _ _ _)

theorem leaves_restart {cfg : Settings} {now : Nat} {request : Restart} :
    Leaves (fun u => startedAtOf u jobId = startedAtOf s jobId)
      (perform cfg s now (request.event jobId)) := by
  have path : ∀ sourcePath, startedAtOf (s.modifyJob jobId
      (fun j => { j with sourcePath := sourcePath }) fun _ => rfl) jobId = startedAtOf s jobId := by
    intro sourcePath
    apply startedAtOf_modifyJob
    exact fun _ => rfl
  cases request with
  | startJob threadCount => exact leaves_startJob rfl fun _ sourcePath _ => path sourcePath
  | retryFailedFiles => exact leaves_retryFailedFiles rfl
  | continueJobOverflow driveId threadCount => exact leaves_continueJobOverflow rfl fun _ _ => path _

end Row

/-! ### The runs -/

/-- A run comes to its first commit from its first load. -/
theorem CopyRun.opened_of_step {r : CopyRun} {s : Db} {jobId : Nat} {input : RunInput}
    (opened : (r.step s jobId input).2.pc = .opened) :
    (r.step s jobId input).2.cached = s.jobs.get jobId := by
  revert opened
  refine CopyRun.step_rule (P := fun next => next.2.pc = .opened → next.2.cached = s.jobs.get jobId)
    (fun _ => ?_) ?_
  · have next : RunAdvance r s jobId input (r.advance s jobId input) := CopyRun.advance_cases
    generalize r.advance s jobId input = t at next
    intro opened
    cases next with
    | opening pc found unpaused => exact found.symm
    | idle pc =>
        rcases pc with pc | pc
        · cases pc.symm.trans opened
        · cases pc.symm.trans opened
    | counting pc next =>
        rcases next with rfl | rfl
        · cases opened
        · cases opened
    | finalized _ _ _ _ after | committing _ _ after =>
        rcases after with rfl | rfl
        · cases opened
        · cases opened
    | ends | opened | noFiles | prepared | pauseFound | goesOn | loading | entering | exhausted
    | pauseSeen | fullSeen | settling | lingers | lingering | continued | finalizing | failing
    | failed => cases opened
  · rintro trouble pc - rfl
    intro h
    rcases r.pcAfterTrouble_cases trouble with ends | ⟨reason, ends⟩
    · cases ends.symm.trans h
    · cases ends.symm.trans h

/-- A run that stays checked and is not the owner of the job keeps its time and
comes to no unchecked point. -/
theorem CopyRun.checked_step {r : CopyRun} {s : Db} {jobId x : Nat} {input : RunInput}
    (checked : r.pc.checked = true) (newer : startedAtOf s jobId = some x)
    (lost : r.startedAt ≠ some x) (stays : StaysChecked jobId s r input) :
    (r.step s jobId input).2.pc.checked = true ∧
      (r.step s jobId input).2.startedAt = r.startedAt := by
  -- The row exists, and is not the one this run was launched for.
  obtain ⟨job, found, startedAt⟩ := Option.bind_eq_some_iff.mp newer
  have foreign : job.startedAt ≠ r.startedAt := by
    rw [startedAt]
    exact fun h => lost h.symm
  have unchecked : ∀ {pc : RunPc}, r.pc = pc → pc.checked ≠ false := by
    rintro _ rfl
    simp [checked]
  refine CopyRun.step_rule (P := fun next => next.2.pc.checked = true ∧
    next.2.startedAt = r.startedAt) (fun _ => ?_) ?_
  · have next : RunAdvance r s jobId input (r.advance s jobId input) := CopyRun.advance_cases
    generalize r.advance s jobId input = t at next
    cases next with
    | idle => exact ⟨checked, rfl⟩
    | settling pc owned => exact absurd (owned job found) foreign
    | finalizing pc found' owned =>
        rw [Option.some.inj (found'.symm.trans found)] at owned
        exact absurd owned foreign
    | lingers pc unfinished unpaused =>
        rw [stays.settled pc unpaused] at unfinished
        cases unfinished
    | continued pc outcome =>
        have stuck := stays.stuck pc
        rw [canContinue_of_continued outcome] at stuck
        cases stuck
    | counting pc next =>
        rcases next with rfl | rfl
        · exact ⟨rfl, rfl⟩
        · exact ⟨rfl, rfl⟩
    | finalized _ _ _ _ after =>
        rcases after with rfl | rfl
        · exact ⟨rfl, rfl⟩
        · exact ⟨rfl, rfl⟩
    | ends | exhausted | pauseSeen | fullSeen | lingering => exact ⟨rfl, rfl⟩
    | opening pc | opened pc | noFiles pc | prepared pc | pauseFound pc | goesOn pc | loading pc
    | entering pc | committing pc | failing pc | failed pc => exact absurd rfl (unchecked pc)
  · rintro trouble pc raised rfl
    rw [stays.handled trouble raised]
    exact ⟨rfl, rfl⟩

/-- Nothing of the job is written by such a run. -/
theorem CopyRun.quiet_step {r : CopyRun} {s : Db} {jobId x : Nat} {input : RunInput}
    (checked : r.pc.checked = true) (newer : startedAtOf s jobId = some x)
    (lost : r.startedAt ≠ some x) (stays : StaysChecked jobId s r input) :
    Quiet jobId s (r.step s jobId input).1 := by
  have write : RunWrite r s jobId input (r.step s jobId input).1 := runWrite_step
  generalize (r.step s jobId input).1 = t at write
  cases write with
  | quiet h => exact h
  | opened pc cached =>
      rw [pc] at checked
      cases checked
  | entered pc cached =>
      rw [pc] at checked
      cases checked
  | continued pc outcome frame =>
      have stuck := stays.stuck pc
      rw [canContinue_of_continued outcome] at stuck
      cases stuck
  | @finalized probed job _ _ pc frame found owned tables =>
      have row : startedAtOf probed jobId = r.startedAt := by
        rw [startedAtOf, found, ← owned]
        rfl
      exact absurd (row.symm.trans ((startedAtOf_of_custodyOf frame.1).trans newer)) lost
  | committed pc cached =>
      rw [pc] at checked
      cases checked
  | failed pc cached =>
      rw [pc] at checked
      cases checked

/-! ### Interleavings -/

/-- The first run has lost the job: it is at a checked point, the row has a time
of another run, and no later run is about to write a time of its own. -/
structure Overtaken (jobId : Nat) (w : FenceSystem) : Prop where
  checked : w.first.pc.checked = true
  newer : ∃ x, startedAtOf w.db jobId = some x ∧ w.first.startedAt ≠ some x
  loaded : ∀ r ∈ w.later, r.pc = .opened → ∀ job, r.cached = some job → job.startedAt ≠ none

def FenceInv (jobId : Nat) (w : FenceSystem) : Prop := w.later ≠ [] → Overtaken jobId w

section Steps

variable {cfg : Settings} {jobId : Nat} {w : FenceSystem}

/-- A transaction that keeps `started_at`. -/
theorem Overtaken.of_row {db : Db} (h : Overtaken jobId w)
    (same : startedAtOf db jobId = startedAtOf w.db jobId) : Overtaken jobId { w with db := db } where
  checked := h.checked
  newer := by
    rw [same]
    exact h.newer
  loaded := h.loaded

theorem Overtaken.first {input : RunInput} (h : Overtaken jobId w)
    (stays : StaysChecked jobId w.db w.first input) :
    Overtaken jobId (fenceStep cfg jobId w (.first input)) := by
  obtain ⟨x, newer, lost⟩ := h.newer
  obtain ⟨checked, same⟩ := CopyRun.checked_step h.checked newer lost stays
  have quiet := CopyRun.quiet_step h.checked newer lost stays
  refine ⟨checked, ⟨x, (startedAtOf_of_custodyOf quiet.1).trans newer, ?_⟩, h.loaded⟩
  change (w.first.step w.db jobId input).2.startedAt ≠ some x
  rw [same]
  exact lost

theorem Overtaken.later {index : Nat} {input : RunInput} (h : Overtaken jobId w) :
    Overtaken jobId (fenceStep cfg jobId w (.later index input)) := by
  cases found : w.later[index]? with
  | none =>
      simp only [fenceStep, found]
      exact h
  | some r =>
      simp only [fenceStep, found]
      have row : startedAtOf (r.step w.db jobId input).1 jobId = startedAtOf w.db jobId :=
        startedAtOf_step (h.loaded r (List.mem_of_getElem? found))
      obtain ⟨checked, newer, loaded⟩ := h.of_row row
      refine ⟨checked, newer, fun r' mem opened job cached => ?_⟩
      rcases List.mem_or_eq_of_mem_set mem with old | rfl
      · exact loaded r' old opened job cached
      · -- The object was loaded from the row, which has a time.
        obtain ⟨x, newer, -⟩ := h.newer
        rw [CopyRun.opened_of_step opened] at cached
        rw [startedAtOf, cached] at newer
        rw [show job.startedAt = some x from newer]
        exact Option.some_ne_none x

theorem FenceInv.restart {now : Nat} {request : Restart} (inv : FenceInv jobId w)
    (guard : FenceGuard cfg jobId w (.restart now request)) :
    FenceInv jobId (fenceStep cfg jobId w (.restart now request)) := by
  cases answer : perform cfg w.db now (request.event jobId) with
  | error refusal =>
      simp only [fenceStep, answer]
      intro overtaken
      exact (inv overtaken).of_row (leaves_restart refusal answer)
  | ok db =>
      simp only [fenceStep, answer]
      intro _
      obtain ⟨checked, other⟩ := guard ⟨db, answer⟩
      refine ⟨checked, ⟨now, startedAtOf_restart answer, other⟩, fun r mem opened => ?_⟩
      rcases List.mem_append.mp mem with old | new
      · exact (inv (List.ne_nil_of_mem old)).loaded r old opened
      · rw [List.mem_singleton.mp new] at opened
        cases opened

theorem FenceInv.step {a : FenceAction} (inv : FenceInv jobId w)
    (guard : FenceGuard cfg jobId w a) : FenceInv jobId (fenceStep cfg jobId w a) := by
  cases a with
  | first input => exact fun overtaken => (inv overtaken).first (guard overtaken)
  | later index input =>
      intro overtaken
      refine (inv ?_).later
      rintro alone
      rw [fenceStep, alone] at overtaken
      exact overtaken alone
  | worker fileId status errorMessage => exact fun overtaken => (inv overtaken).of_row rfl
  | restart now request => exact inv.restart guard
  | other after =>
      simp only [fenceStep]
      split
      · rename_i same
        exact fun overtaken => (inv overtaken).of_row same
      · exact inv

theorem FenceInv.fenced {a : FenceAction} (inv : FenceInv jobId w)
    (guard : FenceGuard cfg jobId w a) : Fenced cfg jobId w a := by
  cases a with
  | first input =>
      intro overtaken
      obtain ⟨x, newer, lost⟩ := (inv overtaken).newer
      exact CopyRun.quiet_step (inv overtaken).checked newer lost (guard overtaken)
  | later index input => trivial
  | worker fileId status errorMessage => trivial
  | restart now request => trivial
  | other after => trivial

end Steps

/-- In a guarded interleaving an overtaken run does not write the job. -/
theorem fenced_of_guarded {cfg : Settings} {jobId : Nat} {s : Db} {actions : List FenceAction}
    (guarded : Along (fenceStep cfg jobId) (FenceGuard cfg jobId) ⟨s, .launched, []⟩ actions) :
    Along (fenceStep cfg jobId) (Fenced cfg jobId) ⟨s, .launched, []⟩ actions :=
  along_of_along (fun _ _ inv guard => FenceInv.step inv guard)
    (fun _ _ inv guard => FenceInv.fenced inv guard) (fun overtaken => absurd rfl overtaken) guarded

/-- The first run completes the job with one failed file, and the file is retried. -/
def retriedRun : List FenceAction :=
  (List.range' 3 6).map (fun now => .first (Lab.input now)) ++
    [.worker 1 .done none, .worker 2 .error (some "I/O failure"),
      .first { Lab.input 10 with exhausted := true }] ++
    (List.range' 11 4).map (fun now => .first (Lab.input now)) ++
    [.restart 20 .retryFailedFiles]

/-- The first run ends while the second one copies. -/
theorem fenced_retriedRun :
    Along (fenceStep Lab.settings 1) (FenceGuard Lab.settings 1) ⟨Lab.started, .launched, []⟩
        (retriedRun ++ [.later 0 (Lab.input 21), .first (Lab.input 22), .later 0 (Lab.input 23)]) ∧
      Along (fenceStep Lab.settings 1) (Fenced Lab.settings 1) ⟨Lab.started, .launched, []⟩
        (retriedRun ++ [.later 0 (Lab.input 21), .first (Lab.input 22), .later 0 (Lab.input 23)]) := by
  have guarded : Along (fenceStep Lab.settings 1) (FenceGuard Lab.settings 1)
      ⟨Lab.started, .launched, []⟩
      (retriedRun ++ [.later 0 (Lab.input 21), .first (Lab.input 22), .later 0 (Lab.input 23)]) := by
    decide
  exact ⟨guarded, fenced_of_guarded guarded⟩

/-- The manifest of the first run cannot be generated, and its handler looks at the job. -/
def raisedRun : List FenceAction :=
  retriedRun ++ [.first { Lab.input 21 with trouble := some (.raised "database error") },
    .first (Lab.input 22)]

/-- The older run fails the job that has been restarted. -/
theorem stale_run_fails_job :
    statusOf (exec (fenceStep Lab.settings 1) ⟨Lab.started, .launched, []⟩ raisedRun).db 1 =
        some .preparing ∧
      statusOf (fenceStep Lab.settings 1 (exec (fenceStep Lab.settings 1)
        ⟨Lab.started, .launched, []⟩ raisedRun) (.first (Lab.input 23))).db 1 = some .failed ∧
      ¬ Fenced Lab.settings 1 (exec (fenceStep Lab.settings 1) ⟨Lab.started, .launched, []⟩ raisedRun)
        (.first (Lab.input 23)) := by
  refine ⟨?_, ?_, ?_⟩ <;> decide

end Ecube
