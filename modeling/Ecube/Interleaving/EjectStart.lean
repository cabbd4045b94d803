import Ecube.Lifecycle

/-!
An eject and a start at the same time.

`prepare_eject` reads the drive, asks for a blocking job, counts incomplete
files, unmounts, and locks the drive row only for its commit. `start_job` locks
the job row, checks the capacity of the drive and commits. Each database
transaction and the unmount is one step here, and a schedule is a list of
parties. The two lock different rows, so neither ever waits for the other, and
`start_job` writes no drive, so the second read of the drive row finds what the
first one found.

* `eject_race_lost`: a schedule after which the drive is ejected and the job is
  `PREPARING`.
* `ejectStart_excluded_iff`: this happens exactly when both requests would be
  admitted by the state they find, both run to their end, and the blocking-job
  query comes before the commit of the start.
-/

namespace Ecube

open Table Transition

/-- The two requests, with the answer of the eject provider. -/
structure Requests where
  cfg : Settings
  driveId : Nat
  jobId : Nat
  confirmIncomplete : Bool
  result : EjectResult
  threadCount : Option Nat
  now : Nat

inductive EjectPc where
  | begun
  | readable (initial : UsbDrive)
  | unblocked (initial : UsbDrive)
  | confirmed (initial : UsbDrive)
  | unmounted (initial : UsbDrive)
  | locked
  | finished
  | refused
  deriving DecidableEq

inductive StartPc where
  | begun
  | locked (job : ExportJob) (sourcePath : Str)
  | admitted (sourcePath : Str)
  | finished
  | refused

structure Race where
  db : Db
  eject : EjectPc
  start : StartPc

inductive Party where
  | eject
  | start
  deriving DecidableEq

/-- The validation of the drive row under its lock, after the unmount. -/
def relockDrive (s : Db) (driveId : Nat) (initial : UsbDrive) (result : EjectResult) :
    Except Reject Unit := do
  let drive ← orReject (s.drives.get driveId) (refuse s 404 "Drive not found")
  ensure (drive.currentState = initial.currentState) (refuse s 409
    (s!"Drive state changed during prepare-eject (was: {initial.currentState.value}, "
      ++ s!"now: {drive.currentState.value}); operation aborted"))
  ensure (drive.filesystemPath = initial.filesystemPath)
    (refuse s 409 "Device path changed during prepare-eject; operation aborted")
  match result with
  | .success => .ok ()
  | .recoverable detail => .error (refuse s 409 detail)
  | .failed => .error (refuse s 500 "Drive eject preparation failed")

namespace Race

def of (s : Db) : Race := ⟨s, .begun, .begun⟩

/-- The eject goes on after an accepted check and ends after a refused one. -/
def ejectAfter {α : Type} (r : Race) (check : Except Reject α) (next : α → EjectPc) : Race :=
  match check with
  | .ok a => { r with eject := next a }
  | .error e => { r with db := e.committed, eject := .refused }

def startAfter {α : Type} (r : Race) (check : Except Reject α) (next : α → StartPc) : Race :=
  match check with
  | .ok a => { r with start := next a }
  | .error e => { r with db := e.committed, start := .refused }

def ejectStep (q : Requests) (r : Race) : Race :=
  match r.eject with
  | .begun => r.ejectAfter (ejectableDrive r.db q.driveId) .readable
  | .readable initial =>
      r.ejectAfter (rejectBlockingJob r.db q.driveId) fun _ => .unblocked initial
  | .unblocked initial =>
      r.ejectAfter (rejectUnconfirmedFiles r.db q.driveId q.confirmIncomplete) fun _ =>
        .confirmed initial
  | .confirmed initial => { r with eject := .unmounted initial }
  | .unmounted initial =>
      r.ejectAfter (relockDrive r.db q.driveId initial q.result) fun _ => .locked
  | .locked => { r with db := ejected r.db q.driveId, eject := .finished }
  | .finished | .refused => r

def startStep (q : Requests) (r : Race) : Race :=
  match r.start with
  | .begun => r.startAfter (startableJob q.cfg r.db q.jobId) fun pair => .locked pair.1 pair.2
  | .locked job sourcePath =>
      r.startAfter (startCapacity r.db job sourcePath) fun _ => .admitted sourcePath
  | .admitted sourcePath =>
      { r with db := started r.db q.jobId sourcePath q.threadCount q.now, start := .finished }
  | .finished | .refused => r

end Race

theorem Race.ejectAfter_rule {P : Race → Prop} {α : Type} {r : Race} {check : Except Reject α}
    {next : α → EjectPc} (ok : ∀ a, check = .ok a → P { r with eject := next a })
    (error : ∀ e, check = .error e → P { r with db := e.committed, eject := .refused }) :
    P (r.ejectAfter check next) := by
  cases check with
  | ok a => exact ok a rfl
  | error e => exact error e rfl

theorem Race.startAfter_rule {P : Race → Prop} {α : Type} {r : Race} {check : Except Reject α}
    {next : α → StartPc} (ok : ∀ a, check = .ok a → P { r with start := next a })
    (error : ∀ e, check = .error e → P { r with db := e.committed, start := .refused }) :
    P (r.startAfter check next) := by
  cases check with
  | ok a => exact ok a rfl
  | error e => exact error e rfl

def raceStep (q : Requests) (r : Race) : Party → Race
  | .eject => r.ejectStep q
  | .start => r.startStep q

/-- The eject has succeeded and the job is left in `PREPARING`. -/
def Clash (q : Requests) (r : Race) : Prop :=
  r.eject = .finished ∧
    (∃ d ∈ r.db.drives, d.id = q.driveId ∧ d.currentState = .available ∧ d.mountPath = none) ∧
    ∃ j ∈ r.db.jobs, j.id = q.jobId ∧ j.status = .preparing

/-- What the eject checks, on the state both requests find. -/
def EjectAdmitted (q : Requests) (s : Db) : Prop :=
  (∃ drive, ejectChecks s q.driveId q.confirmIncomplete = .ok drive) ∧ q.result = .success

/-- What the start checks, on the state both requests find. -/
def StartAdmitted (q : Requests) (s : Db) : Prop :=
  ∃ job sourcePath, startableJob q.cfg s q.jobId = .ok (job, sourcePath) ∧
    startCapacity s job sourcePath = .ok ()

/-- Both requests run to their end: six steps of the eject and three of the start. -/
def Complete (schedule : List Party) : Prop :=
  6 ≤ schedule.count .eject ∧ 3 ≤ schedule.count .start

/-- The blocking-job query, the second step of the eject, comes before the
commit, the third step of the start. -/
def QueryFirst (schedule : List Party) : Prop :=
  ∃ before, before <+: schedule ∧ 2 ≤ before.count .eject ∧ before.count .start < 3

instance (q : Requests) (r : Race) : Decidable (Clash q r) :=
  inferInstanceAs (Decidable (r.eject = .finished ∧
    (∃ d ∈ r.db.drives, d.id = q.driveId ∧ d.currentState = .available ∧ d.mountPath = none) ∧
    ∃ j ∈ r.db.jobs, j.id = q.jobId ∧ j.status = .preparing))

/-! ### One party alone -/

section Relock

variable {s : Db} {driveId : Nat}

theorem relockDrive_eq_ok {initial : UsbDrive} {result : EjectResult} {u : Unit}
    (found : s.drives.get driveId = some initial) :
    relockDrive s driveId initial result = .ok u ↔ result = .success := by
  simp only [relockDrive, found, orReject, bind, Except.bind, ensure, if_true]
  cases result <;> simp

theorem leaves_relockDrive {P : Db → Prop} {initial : UsbDrive} {result : EjectResult} (hs : P s) :
    Leaves P (relockDrive s driveId initial result) := by
  refine .bind (.orReject hs) fun _ _ => .bind (.ensure hs) fun _ _ => ?_
  refine .bind (.ensure hs) fun _ _ => ?_
  cases result with
  | success => exact .ok ()
  | recoverable detail => exact .error hs
  | failed => exact .error hs

end Relock

theorem exec_eject {q : Requests} {s s' : Db}
    (h : prepareEject s q.driveId q.confirmIncomplete q.result = .ok s') :
    exec (raceStep q) (.of s) (List.replicate 6 .eject) = ⟨s', .finished, .begun⟩ := by
  obtain ⟨drive, checks, rfl, success⟩ := prepareEject_eq_ok h
  obtain ⟨readable, free, confirmed⟩ := ejectChecks_eq_ok.mp checks
  have unblocked : rejectBlockingJob s q.driveId = .ok () := rejectBlockingJob_eq_ok.mpr free
  have counted : rejectUnconfirmedFiles s q.driveId q.confirmIncomplete = .ok () :=
    ensure_eq_ok.mpr confirmed
  have relocked : relockDrive s q.driveId drive q.result = .ok () :=
    (relockDrive_eq_ok (ejectableDrive_eq_ok readable)).mpr success
  simp [exec, List.replicate, raceStep, Race.of, Race.ejectStep, Race.ejectAfter, readable,
    unblocked, counted, relocked]

theorem exec_start {q : Requests} {s s' : Db}
    (h : startJob q.cfg s q.jobId q.threadCount q.now = .ok s') :
    exec (raceStep q) (.of s) (List.replicate 3 .start) = ⟨s', .begun, .finished⟩ := by
  simp only [startJob, bind_eq_ok, pure_eq_ok] at h
  obtain ⟨⟨job, sourcePath⟩, startable, _, capacity, rfl⟩ := h
  simp [exec, List.replicate, raceStep, Race.of, Race.startStep, Race.startAfter, startable, capacity]

/-! ### What the checks read -/

section Reads

variable {s t : Db} {driveId : Nat}

theorem ejectableDrive_congr (drives : t.drives = s.drives) {d : UsbDrive} :
    ejectableDrive t driveId = .ok d ↔ ejectableDrive s driveId = .ok d := by
  simp only [ejectableDrive, rejectPendingDriveFormat, rejectNotEjectable, bind_eq_ok,
    orReject_eq_ok, ensure_eq_ok, pure_eq_ok, drives]

theorem startableJob_congr (cfg : Settings) (jobId : Nat) (jobs : t.jobs = s.jobs)
    (pair : ExportJob × Str) :
    startableJob cfg t jobId = .ok pair ↔ startableJob cfg s jobId = .ok pair := by
  simp only [startableJob, rejectWhenStartupAnalysisRunning, bind_eq_ok, orReject_eq_ok,
    ensure_eq_ok, orInvalid_eq_ok, pure_eq_ok, jobs]

theorem startCapacity_eq_ok {job : ExportJob} {sourcePath : Str} {u : Unit} :
    startCapacity s job sourcePath = .ok u ↔
      capacityShortfall (if job.copiedBytes = 0 ∧ job.startupAnalysis.isReady then
          job.startupAnalysis.totalBytes else none)
        (assignedDrive s (s.getActiveForJob job.id)) = none := by
  unfold startCapacity rejectStartWhenDriveCapacityIsInsufficient
  dsimp only
  split
  · rename_i enough
    simp [enough]
  · rename_i short
    simp [short]

/-- An eject does not change the capacity that is recorded for the drive. -/
theorem availableBytes_ejected (k : Nat) :
    ((ejected s driveId).drives.get k).bind UsbDrive.availableBytes =
      (s.drives.get k).bind UsbDrive.availableBytes := by
  unfold ejected Db.modifyDrive
  refine get_modify_bind ?_ fun _ => rfl
  exact fun _ => rfl

theorem startCapacity_congr (assignments : t.assignments = s.assignments)
    (drives : t.drives = s.drives ∨ t.drives = (ejected s driveId).drives) {job : ExportJob}
    {sourcePath : Str} {u : Unit} :
    startCapacity t job sourcePath = .ok u ↔ startCapacity s job sourcePath = .ok u := by
  have active : t.getActiveForJob job.id = s.getActiveForJob job.id := by
    rw [Db.getActiveForJob, Db.getActiveForJob, assignments]
  have bytes : ∀ k, (t.drives.get k).bind UsbDrive.availableBytes =
      (s.drives.get k).bind UsbDrive.availableBytes := by
    intro k
    rcases drives with same | after
    · rw [same]
    · rw [after, availableBytes_ejected]
  rw [startCapacity_eq_ok, startCapacity_eq_ok, active]
  unfold capacityShortfall assignedDrive
  cases s.getActiveForJob job.id with
  | none => rfl
  | some a => rw [Option.bind_some, Option.bind_some, bytes]

end Reads

/-! ### Schedules -/

theorem QueryFirst.concat {before : List Party} (h : QueryFirst before) (p : Party) :
    QueryFirst (before ++ [p]) := by
  obtain ⟨part, isPart, bounds⟩ := h
  exact ⟨part, isPart.trans (List.prefix_append _ _), bounds⟩

theorem queryFirst_concat_iff {before : List Party} {p : Party} :
    QueryFirst (before ++ [p]) ↔ QueryFirst before ∨
      (2 ≤ (before ++ [p]).count .eject ∧ (before ++ [p]).count .start < 3) := by
  constructor
  · rintro ⟨part, isPart, bounds⟩
    rcases List.prefix_concat_iff.mp isPart with rfl | isPart
    · exact .inr bounds
    · exact .inl ⟨part, isPart, bounds⟩
  · rintro (h | bounds)
    · exact h.concat p
    · exact ⟨_, List.prefix_rfl, bounds⟩

@[simp] theorem count_concat_eject (before : List Party) :
    (before ++ [Party.eject]).count Party.eject = before.count .eject + 1 ∧
      (before ++ [Party.eject]).count Party.start = before.count .start := by
  simp [List.count_append]

@[simp] theorem count_concat_start (before : List Party) :
    (before ++ [Party.start]).count Party.eject = before.count .eject ∧
      (before ++ [Party.start]).count Party.start = before.count .start + 1 := by
  simp [List.count_append]

/-! ### What is known at each point -/

/-- The eject after the given part of the schedule. Once it has passed the query,
the query came first or the start is refused; if it was refused, it would be so
alone, or the commit of the start came first. -/
def EjectKnown (q : Requests) (s : Db) (before : List Party) : EjectPc → Prop
  | .begun => before.count .eject = 0
  | .readable d => before.count .eject = 1 ∧ ejectableDrive s q.driveId = .ok d
  | .unblocked d => before.count .eject = 2 ∧ ejectableDrive s q.driveId = .ok d ∧
      blockingJob s q.driveId = none ∧ (QueryFirst before ∨ ¬ StartAdmitted q s)
  | .confirmed d => before.count .eject = 3 ∧
      ejectChecks s q.driveId q.confirmIncomplete = .ok d ∧ (QueryFirst before ∨ ¬ StartAdmitted q s)
  | .unmounted d => before.count .eject = 4 ∧
      ejectChecks s q.driveId q.confirmIncomplete = .ok d ∧ (QueryFirst before ∨ ¬ StartAdmitted q s)
  | .locked => before.count .eject = 5 ∧ EjectAdmitted q s ∧ (QueryFirst before ∨ ¬ StartAdmitted q s)
  | .finished => 6 ≤ before.count .eject ∧ EjectAdmitted q s ∧
      (QueryFirst before ∨ ¬ StartAdmitted q s)
  | .refused => ¬ EjectAdmitted q s ∨ (¬ QueryFirst before ∧ 3 ≤ before.count .start)

def StartKnown (q : Requests) (s : Db) (before : List Party) : StartPc → Prop
  | .begun => before.count .start = 0
  | .locked job sourcePath => before.count .start = 1 ∧
      startableJob q.cfg s q.jobId = .ok (job, sourcePath)
  | .admitted _ => before.count .start = 2 ∧ StartAdmitted q s
  | .finished => 3 ≤ before.count .start ∧ StartAdmitted q s
  | .refused => ¬ StartAdmitted q s

/-- The job rows: untouched until the start commits; a refusal can leave the
revalidated source path. -/
def JobsKnown (q : Requests) (s : Db) (jobs : Table ExportJob) : StartPc → Prop
  | .finished => ∃ sourcePath, jobs = (started s q.jobId sourcePath q.threadCount q.now).jobs
  | .refused => ∃ sourcePath, jobs = s.jobs ∨
      jobs = (s.modifyJob q.jobId (fun j => { j with sourcePath := sourcePath })
        (ExportJob.relocated_id sourcePath)).jobs
  | _ => jobs = s.jobs

structure RaceKnown (q : Requests) (s : Db) (before : List Party) (r : Race) : Prop where
  files : r.db.files = s.files
  assignments : r.db.assignments = s.assignments
  drives : (r.eject ≠ .finished ∧ r.db.drives = s.drives) ∨
    (r.eject = .finished ∧ r.db.drives = (ejected s q.driveId).drives)
  jobs : JobsKnown q s r.db.jobs r.start
  eject : EjectKnown q s before r.eject
  start : StartKnown q s before r.start

theorem raceKnown_nil (q : Requests) (s : Db) : RaceKnown q s [] (.of s) :=
  ⟨rfl, rfl, .inl ⟨by simp [Race.of], rfl⟩, rfl, rfl, rfl⟩

/-- A step of the start leaves what is known about the eject. -/
theorem EjectKnown.start {q : Requests} {s : Db} {before : List Party} {pc : EjectPc}
    (h : EjectKnown q s before pc) : EjectKnown q s (before ++ [Party.start]) pc := by
  have counts := count_concat_start before
  cases pc with
  | begun => exact counts.1.trans h
  | readable d => exact ⟨counts.1.trans h.1, h.2⟩
  | unblocked d =>
      obtain ⟨n, readable, free, passed⟩ := h
      exact ⟨counts.1.trans n, readable, free, passed.imp_left (.concat · _)⟩
  | confirmed d => exact ⟨counts.1.trans h.1, h.2.1, h.2.2.imp_left (.concat · _)⟩
  | unmounted d => exact ⟨counts.1.trans h.1, h.2.1, h.2.2.imp_left (.concat · _)⟩
  | locked => exact ⟨counts.1.trans h.1, h.2.1, h.2.2.imp_left (.concat · _)⟩
  | finished => exact ⟨h.1.trans counts.1.ge, h.2.1, h.2.2.imp_left (.concat · _)⟩
  | refused =>
      refine h.imp_right fun ⟨commitFirst, n⟩ => ⟨fun first => ?_, by omega⟩
      rcases queryFirst_concat_iff.mp first with first | ⟨-, few⟩
      · exact commitFirst first
      · omega

theorem StartKnown.eject {q : Requests} {s : Db} {before : List Party} {pc : StartPc}
    (h : StartKnown q s before pc) : StartKnown q s (before ++ [Party.eject]) pc := by
  have counts := count_concat_eject before
  cases pc with
  | begun => exact counts.2.trans h
  | locked job sourcePath => exact ⟨counts.2.trans h.1, h.2⟩
  | admitted sourcePath => exact ⟨counts.2.trans h.1, h.2⟩
  | finished => exact ⟨h.1.trans counts.2.ge, h.2⟩
  | refused => exact h

/-! ### The blocking-job query -/

section Query

variable {q : Requests} {s t : Db} {pc : StartPc}

/-- Until the start commits, jobs have the status they had. -/
theorem JobsKnown.statuses (h : JobsKnown q s t.jobs pc) (open_ : pc ≠ .finished) :
    (∀ j ∈ t.jobs, ∃ j₀ ∈ s.jobs, j₀.id = j.id ∧ j₀.status = j.status) ∧
      ∀ j₀ ∈ s.jobs, ∃ j ∈ t.jobs, j.id = j₀.id ∧ j.status = j₀.status := by
  have same : t.jobs = s.jobs →
      (∀ j ∈ t.jobs, ∃ j₀ ∈ s.jobs, j₀.id = j.id ∧ j₀.status = j.status) ∧
        ∀ j₀ ∈ s.jobs, ∃ j ∈ t.jobs, j.id = j₀.id ∧ j.status = j₀.status := by
    intro eq
    rw [eq]
    exact ⟨fun j hj => ⟨j, hj, rfl, rfl⟩, fun j hj => ⟨j, hj, rfl, rfl⟩⟩
  cases pc with
  | begun => exact same h
  | locked job sourcePath => exact same h
  | admitted sourcePath => exact same h
  | finished => exact absurd rfl open_
  | refused =>
      obtain ⟨sourcePath, eq | eq⟩ := h
      · exact same eq
      · rw [eq]
        constructor
        · intro j hj
          rcases Db.mem_modifyJob.mp hj with ⟨old, -⟩ | ⟨j₀, hj₀, -, rfl⟩
          · exact ⟨j, old, rfl, rfl⟩
          · exact ⟨j₀, hj₀, rfl, rfl⟩
        · intro j₀ hj₀
          by_cases mine : j₀.id = q.jobId
          · exact ⟨_, Db.mem_modifyJob.mpr (.inr ⟨j₀, hj₀, mine, rfl⟩), rfl, rfl⟩
          · exact ⟨j₀, Db.mem_modifyJob.mpr (.inl ⟨hj₀, mine⟩), rfl, rfl⟩

theorem blockingJob_congr (assignments : t.assignments = s.assignments)
    (jobs : JobsKnown q s t.jobs pc) (open_ : pc ≠ .finished) :
    blockingJob t q.driveId = none ↔ blockingJob s q.driveId = none := by
  obtain ⟨forth, back⟩ := jobs.statuses open_
  rw [blockingJob_eq_none_iff, blockingJob_eq_none_iff, assignments]
  constructor
  · intro h a ha drive held j₀ hj₀ job
    obtain ⟨j, hj, id, status⟩ := back j₀ hj₀
    rw [← status]
    exact h a ha drive held j hj (id.trans job)
  · intro h a ha drive held j hj job
    obtain ⟨j₀, hj₀, id, status⟩ := forth j hj
    rw [← status]
    exact h a ha drive held j₀ hj₀ (id.trans job)

/-- A job of the request on the drive blocks the eject while it is `PREPARING`. -/
theorem blocked_of_preparing {a : DriveAssignment} (active : t.getActiveForJob q.jobId = some a)
    (drive : a.driveId = q.driveId) {j : ExportJob} (hj : j ∈ t.jobs) (mine : j.id = q.jobId)
    (preparing : j.status = .preparing) : blockingJob t q.driveId ≠ none := by
  intro free
  obtain ⟨ha, job, isActive⟩ := active_of_getActiveForJob active
  have held := (DriveAssignment.active_iff.mp isActive).2
  have open_ := blockingJob_eq_none_iff.mp free a ha drive held j hj (mine.trans job.symm)
  rw [preparing] at open_
  exact open_ (by decide)

/-- After the commit the job is `PREPARING`. -/
theorem preparing_of_finished (jobs : JobsKnown q s t.jobs .finished) (admitted : StartAdmitted q s) :
    ∃ j ∈ t.jobs, j.id = q.jobId ∧ j.status = .preparing := by
  obtain ⟨job, path, startable, -⟩ := admitted
  obtain ⟨found, -⟩ := startableJob_eq_ok startable
  obtain ⟨sourcePath, eq⟩ := jobs
  rw [eq]
  have mine : job.id = q.jobId := id_of_get found
  exact ⟨_, Db.mem_modifyJob.mpr (.inr ⟨job, mem_of_get found, mine, rfl⟩), mine, rfl⟩

end Query

/-! ### One step -/

section Steps

variable {q : Requests} {s : Db} {before : List Party} {r : Race}

theorem RaceKnown.startStep (known : RaceKnown q s before r) :
    RaceKnown q s (before ++ [Party.start]) (r.startStep q) := by
  obtain ⟨db, eject, start⟩ := r
  obtain ⟨files, assignments, drives, jobs, hEject, hStart⟩ := known
  have drives' : db.drives = s.drives ∨ db.drives = (ejected s q.driveId).drives :=
    drives.imp And.right And.right
  have counts := count_concat_start before
  unfold Race.startStep
  cases start with
  | begun =>
      have same := startableJob_congr q.cfg q.jobId jobs
      refine Race.startAfter_rule (fun pair check => ?_) fun e check => ?_
      · refine ⟨files, assignments, drives, jobs, hEject.start, ?_, (same pair).mp check⟩
        exact counts.2.trans (congrArg (· + 1) hStart)
      · have left : e.committed = db := leaves_startableJob (P := (· = db)) rfl e check
        have refused : ¬ StartAdmitted q s := by
          rintro ⟨job, sourcePath, startable, -⟩
          cases check.symm.trans ((same _).mpr startable)
        rw [left]
        exact ⟨files, assignments, drives, ⟨[], .inl jobs⟩, hEject.start, refused⟩
  | locked job sourcePath =>
      obtain ⟨count, startable⟩ := hStart
      refine Race.startAfter_rule (fun _ check => ?_) fun e check => ?_
      · refine ⟨files, assignments, drives, jobs, hEject.start, ?_, job, sourcePath, startable, ?_⟩
        · exact counts.2.trans (congrArg (· + 1) count)
        · exact (startCapacity_congr assignments drives').mp check
      · have left : e.committed = db.modifyJob job.id
            (fun j => { j with sourcePath := sourcePath }) fun _ => rfl :=
          leaves_startCapacity (P := (· = _)) rfl e check
        have refused : ¬ StartAdmitted q s := by
          rintro ⟨job', sourcePath', startable', enough⟩
          cases startable.symm.trans startable'
          cases check.symm.trans ((startCapacity_congr (u := ()) assignments drives').mpr enough)
        have mine : job.id = q.jobId := id_of_get (startableJob_eq_ok startable).1
        rw [left]
        refine ⟨files, assignments, drives, ⟨sourcePath, .inr ?_⟩, hEject.start, refused⟩
        have same : db.jobs = s.jobs := jobs
        simp only [Db.modifyJob, same, mine]
  | admitted sourcePath =>
      obtain ⟨count, admitted⟩ := hStart
      refine ⟨files, assignments, drives, ⟨sourcePath, ?_⟩, hEject.start, ?_, admitted⟩
      · have same : db.jobs = s.jobs := jobs
        simp only [started, Db.modifyJob, same]
      · exact (congrArg (· + 1) count).ge.trans counts.2.ge
  | finished =>
      obtain ⟨count, admitted⟩ := hStart
      exact ⟨files, assignments, drives, jobs, hEject.start, by omega, admitted⟩
  | refused => exact ⟨files, assignments, drives, jobs, hEject.start, hStart⟩

/-- A query that passes: the start has not committed. -/
theorem StartKnown.unblocked {pc : StartPc} {db : Db} (h : StartKnown q s before pc)
    (jobs : JobsKnown q s db.jobs pc) {a : DriveAssignment}
    (active : db.getActiveForJob q.jobId = some a) (drive : a.driveId = q.driveId)
    (free : blockingJob db q.driveId = none) :
    pc ≠ .finished ∧ (before.count .start < 3 ∨ ¬ StartAdmitted q s) := by
  cases pc with
  | begun => exact ⟨by simp, .inl (by rw [show _ = 0 from h]; omega)⟩
  | locked job sourcePath => exact ⟨by simp, .inl (by rw [h.1]; omega)⟩
  | admitted sourcePath => exact ⟨by simp, .inl (by rw [h.1]; omega)⟩
  | finished =>
      obtain ⟨j, hj, mine, preparing⟩ := preparing_of_finished jobs h.2
      exact absurd free (blocked_of_preparing active drive hj mine preparing)
  | refused => exact ⟨by simp, .inr h⟩

theorem EjectKnown.finished_of_admitted {pc : EjectPc} (h : EjectKnown q s before pc)
    (admitted : EjectAdmitted q s) (first : QueryFirst before) (n : 6 ≤ before.count .eject) :
    pc = .finished := by
  cases pc with
  | begun => exact absurd (show _ = 0 from h) (by omega)
  | readable d => exact absurd h.1 (by omega)
  | unblocked d => exact absurd h.1 (by omega)
  | confirmed d => exact absurd h.1 (by omega)
  | unmounted d => exact absurd h.1 (by omega)
  | locked => exact absurd h.1 (by omega)
  | finished => rfl
  | refused =>
      rcases h with refused | ⟨late, -⟩
      · exact absurd admitted refused
      · exact absurd first late

theorem StartKnown.finished_of_admitted {pc : StartPc} (h : StartKnown q s before pc)
    (admitted : StartAdmitted q s) (n : 3 ≤ before.count .start) : pc = .finished := by
  cases pc with
  | begun => exact absurd (show _ = 0 from h) (by omega)
  | locked job sourcePath => exact absurd h.1 (by omega)
  | admitted sourcePath => exact absurd h.1 (by omega)
  | finished => rfl
  | refused => exact absurd admitted h

/-- The start's part stays when the eject does not write. -/
theorem RaceKnown.ejectMoves (known : RaceKnown q s before r) (open_ : r.eject ≠ .finished)
    {pc : EjectPc} (goesOn : pc ≠ .finished) (hEject : EjectKnown q s (before ++ [Party.eject]) pc) :
    RaceKnown q s (before ++ [Party.eject]) { r with eject := pc } where
  files := known.files
  assignments := known.assignments
  drives := .inl ⟨goesOn, (known.drives.resolve_right fun d => open_ d.1).2⟩
  jobs := known.jobs
  eject := hEject
  start := known.start.eject

/-- A check of the eject: what is known when it passes and when it refuses. -/
theorem RaceKnown.ejectAfter {α : Type} {check : Except Reject α} {next : α → EjectPc}
    (known : RaceKnown q s before r) (open_ : r.eject ≠ .finished) (goesOn : ∀ a, next a ≠ .finished)
    (left : Leaves (· = r.db) check)
    (passed : ∀ a, check = .ok a → EjectKnown q s (before ++ [Party.eject]) (next a))
    (refused : ∀ e, check = .error e → EjectKnown q s (before ++ [Party.eject]) .refused) :
    RaceKnown q s (before ++ [Party.eject]) (r.ejectAfter check next) := by
  refine Race.ejectAfter_rule (fun a pass => ?_) fun e refuse => ?_
  · exact known.ejectMoves open_ (goesOn a) (passed a pass)
  · rw [left e refuse]
    exact known.ejectMoves open_ (by simp) (refused e refuse)

/-- A query that refuses: the job was blocked before, or the start has committed. -/
theorem RaceKnown.refused_of_blocked (known : RaceKnown q s before r) {d : UsbDrive}
    (readable : r.eject = .readable d) (blocked : blockingJob r.db q.driveId ≠ none) :
    EjectKnown q s (before ++ [Party.eject]) .refused := by
  obtain ⟨ejects, starts⟩ := count_concat_eject before
  have hEject := known.eject
  rw [readable] at hEject
  by_cases committed : r.start = .finished
  · -- The start has committed before this first query.
    have hStart := known.start
    rw [committed] at hStart
    have late := hStart.1
    have one := hEject.1
    refine .inr ⟨fun first => ?_, by omega⟩
    rcases queryFirst_concat_iff.mp first with ⟨part, isPart, two, -⟩ | ⟨-, few⟩
    · have := isPart.sublist.count_le Party.eject
      omega
    · omega
  · refine .inl fun ⟨⟨d', checks⟩, _⟩ => blocked ?_
    exact (blockingJob_congr known.assignments known.jobs committed).mpr
      (ejectChecks_eq_ok.mp checks).2.1

theorem RaceKnown.ejectStep (known : RaceKnown q s before r) {a : DriveAssignment}
    (active : s.getActiveForJob q.jobId = some a) (drive : a.driveId = q.driveId) :
    RaceKnown q s (before ++ [Party.eject]) (r.ejectStep q) := by
  obtain ⟨ejects, starts⟩ := count_concat_eject before
  have hEject := known.eject
  -- Until the eject finishes, the drives are as it found them.
  have untouched : r.eject ≠ .finished → r.db.drives = s.drives := fun h =>
    (known.drives.resolve_right fun d => h d.1).2
  unfold Race.ejectStep
  cases pc : r.eject with
  | begun =>
      rw [pc] at hEject
      have open_ : r.eject ≠ .finished := by simp [pc]
      have same := untouched open_
      refine known.ejectAfter open_ (fun _ => by simp) (leaves_ejectableDrive rfl)
        (fun d check => ?_) fun e check => .inl ?_
      · exact ⟨ejects.trans (congrArg (· + 1) hEject), (ejectableDrive_congr same).mp check⟩
      · rintro ⟨⟨d, checks⟩, -⟩
        have readable := (ejectableDrive_congr same).mpr (ejectChecks_eq_ok.mp checks).1
        cases check.symm.trans readable
  | readable d =>
      rw [pc] at hEject
      obtain ⟨count, readable⟩ := hEject
      have active' : r.db.getActiveForJob q.jobId = some a := by
        rw [Db.getActiveForJob, known.assignments]
        exact active
      refine known.ejectAfter (by simp [pc]) (fun _ => by simp) (leaves_rejectBlockingJob rfl)
        (fun _ check => ?_) fun e check => known.refused_of_blocked pc fun free => ?_
      · have free := rejectBlockingJob_eq_ok.mp check
        obtain ⟨uncommitted, early⟩ := known.start.unblocked known.jobs active' drive free
        have free₀ := (blockingJob_congr known.assignments known.jobs uncommitted).mp free
        refine ⟨ejects.trans (congrArg (· + 1) count), readable, free₀, early.imp_left ?_⟩
        intro few
        exact queryFirst_concat_iff.mpr (.inr ⟨by omega, by omega⟩)
      · cases check.symm.trans ((rejectBlockingJob_eq_ok (u := ())).mpr free)
  | unblocked d =>
      rw [pc] at hEject
      obtain ⟨count, readable, free, passed⟩ := hEject
      have incomplete : incompleteFileCount r.db q.driveId = incompleteFileCount s q.driveId := by
        simp only [incompleteFileCount, Db.retryableCount, Db.countFiles, known.files,
          known.assignments]
      refine known.ejectAfter (by simp [pc]) (fun _ => by simp) (.ensure rfl)
        (fun _ check => ?_) fun e check => .inl ?_
      · have confirmed := ensure_eq_ok.mp check
        rw [incomplete] at confirmed
        exact ⟨ejects.trans (congrArg (· + 1) count),
          ejectChecks_eq_ok.mpr ⟨readable, free, confirmed⟩, passed.imp_left (.concat · _)⟩
      · rintro ⟨⟨d', checks⟩, -⟩
        have confirmed := (ejectChecks_eq_ok.mp checks).2.2
        rw [← incomplete] at confirmed
        cases check.symm.trans ((ensure_eq_ok (u := ())).mpr confirmed)
  | confirmed d =>
      rw [pc] at hEject
      obtain ⟨count, checks, passed⟩ := hEject
      exact known.ejectMoves (by simp [pc]) (by simp)
        ⟨ejects.trans (congrArg (· + 1) count), checks, passed.imp_left (.concat · _)⟩
  | unmounted d =>
      rw [pc] at hEject
      obtain ⟨count, checks, passed⟩ := hEject
      have open_ : r.eject ≠ .finished := by simp [pc]
      have found : r.db.drives.get q.driveId = some d := by
        rw [untouched open_]
        exact ejectableDrive_eq_ok (ejectChecks_eq_ok.mp checks).1
      refine known.ejectAfter open_ (fun _ => by simp) (leaves_relockDrive rfl)
        (fun _ check => ?_) fun e check => .inl ?_
      · exact ⟨ejects.trans (congrArg (· + 1) count), ⟨⟨d, checks⟩, (relockDrive_eq_ok found).mp check⟩,
          passed.imp_left (.concat · _)⟩
      · rintro ⟨-, success⟩
        cases check.symm.trans ((relockDrive_eq_ok (u := ()) found).mpr success)
  | locked =>
      rw [pc] at hEject
      obtain ⟨count, admitted, passed⟩ := hEject
      refine ⟨known.files, known.assignments, .inr ⟨rfl, ?_⟩, known.jobs, ⟨by omega, admitted,
        passed.imp_left (.concat · _)⟩, known.start.eject⟩
      simp only [ejected, Db.modifyDrive, untouched (by simp [pc])]
  | finished =>
      rw [pc] at hEject
      obtain ⟨count, admitted, passed⟩ := hEject
      refine ⟨known.files, known.assignments, known.drives, known.jobs, ?_, known.start.eject⟩
      rw [pc]
      exact ⟨by omega, admitted, passed.imp_left (.concat · _)⟩
  | refused =>
      rw [pc] at hEject
      refine ⟨known.files, known.assignments, known.drives, known.jobs, ?_, known.start.eject⟩
      rw [pc]
      rcases hEject with refused | ⟨commitFirst, late⟩
      · exact .inl refused
      · refine .inr ⟨fun first => ?_, by omega⟩
        rcases queryFirst_concat_iff.mp first with first | ⟨-, few⟩
        · exact commitFirst first
        · omega

/-- A whole schedule. -/
theorem raceKnown_exec (q : Requests) (s : Db) (schedule : List Party) {a : DriveAssignment}
    (active : s.getActiveForJob q.jobId = some a) (drive : a.driveId = q.driveId) :
    RaceKnown q s schedule (exec (raceStep q) (.of s) schedule) := by
  induction schedule using List.reverseRecOn with
  | nil => exact raceKnown_nil q s
  | append_singleton before party ih =>
      rw [exec, List.foldl_append]
      cases party with
      | eject => exact ih.ejectStep active drive
      | start => exact ih.startStep

end Steps

/-- An eject never succeeds beside a job left in `PREPARING`, unless both
requests are admitted and run to their end, and the blocking-job query comes
before the commit of the start. -/
theorem ejectStart_excluded_iff (q : Requests) (s : Db) (schedule : List Party)
    (assigned : ∃ a, s.getActiveForJob q.jobId = some a ∧ a.driveId = q.driveId) :
    ¬ Clash q (exec (raceStep q) (.of s) schedule) ↔
      (Complete schedule → EjectAdmitted q s → StartAdmitted q s → ¬ QueryFirst schedule) := by
  obtain ⟨a, active, drive⟩ := assigned
  have known := raceKnown_exec q s schedule active drive
  generalize exec (raceStep q) (.of s) schedule = r at known
  constructor
  · intro apart complete ejectable startable first
    have hEject := known.eject.finished_of_admitted ejectable first complete.1
    have hStart := known.start.finished_of_admitted startable complete.2
    refine apart ⟨hEject, ?_, preparing_of_finished (hStart ▸ known.jobs) startable⟩
    obtain ⟨⟨d, checks⟩, -⟩ := ejectable
    have found := ejectableDrive_eq_ok (ejectChecks_eq_ok.mp checks).1
    have mine : d.id = q.driveId := id_of_get found
    have drives := (known.drives.resolve_left fun h => h.1 hEject).2
    rw [drives]
    exact ⟨_, Db.mem_modifyDrive.mpr (.inr ⟨d, mem_of_get found, mine, rfl⟩), mine, rfl, rfl⟩
  · rintro apart ⟨hEject, -, j, hj, mine, preparing⟩
    have hKnown := known.eject
    rw [hEject] at hKnown
    obtain ⟨ejects, ejectable, passed⟩ := hKnown
    have committed : r.start = .finished := by
      by_contra open_
      -- The job was `PREPARING` all the time, and blocks the eject.
      obtain ⟨j₀, hj₀, id, status⟩ := (known.jobs.statuses open_).1 j hj
      obtain ⟨⟨d, checks⟩, -⟩ := ejectable
      exact blocked_of_preparing active drive hj₀ (id.trans mine) (status.trans preparing)
        (ejectChecks_eq_ok.mp checks).2.1
    have hStart := known.start
    rw [committed] at hStart
    have first := passed.resolve_right (not_not.mpr hStart.2)
    exact apart ⟨ejects, hStart.1⟩ ejectable hStart.2 first

/-- Drive 1 with a job that has not been started. -/
def labAssigned : Db :=
  exec (step Lab.settings) Lab.start [⟨1, .createJob (Lab.body "/data/a" (some 1) none) none⟩]

def labRequests : Requests := ⟨Lab.settings, 1, 1, false, .success, none, 2⟩

/-- The start commits before the eject asks for a blocking job. -/
theorem ejectStart_excluded_commit_first :
    (∃ a, labAssigned.getActiveForJob labRequests.jobId = some a ∧
      a.driveId = labRequests.driveId) ∧
    (¬ Clash labRequests (exec (raceStep labRequests) (.of labAssigned)
        (.eject :: List.replicate 3 .start ++ List.replicate 5 .eject)) ↔
      (Complete (.eject :: List.replicate 3 .start ++ List.replicate 5 .eject) →
        EjectAdmitted labRequests labAssigned → StartAdmitted labRequests labAssigned →
        ¬ QueryFirst (.eject :: List.replicate 3 .start ++ List.replicate 5 .eject))) := by
  have assigned : ∃ a, labAssigned.getActiveForJob labRequests.jobId = some a ∧
      a.driveId = labRequests.driveId := by
    refine ⟨_, rfl, ?_⟩
    decide
  exact ⟨assigned, ejectStart_excluded_iff _ _ _ assigned⟩

/-- The start runs while the eject unmounts the drive. -/
theorem eject_race_lost :
    (∃ a, labAssigned.getActiveForJob labRequests.jobId = some a ∧
      a.driveId = labRequests.driveId) ∧
    Clash labRequests (exec (raceStep labRequests) (.of labAssigned)
      (List.replicate 3 .eject ++ List.replicate 3 .start ++ List.replicate 3 .eject)) := by
  refine ⟨⟨_, rfl, ?_⟩, ?_⟩
  · decide
  · decide

end Ecube
