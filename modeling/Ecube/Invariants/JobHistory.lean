import Ecube.Basic.RowHistory
import Ecube.Invariants.JobRows

/-!
The history of a job.

A job that has been started is not deleted and is about the same case for good; an action moves it
only along the transitions of `JobStatus.next`, unless it is a transaction of a run that finds the
job in a status the run does not work on (`started_continues`). Its assignments are a record that is
only added to: one is written when it is made, when it is activated and when it is released
(`assignments_written_once`). An archived job keeps its row and its assignments as long as no run
writes to it (`archived_kept`).

The transactions of a run do not look at the status, so the first and the last result are about
`unguardedStep`: the handler of a copy run sets a job to FAILED whatever has become of it. The first
commit of a copy run, which sets PREPARING once more, is no action here; no request moves a job out
of PREPARING.
-/

namespace Ecube

open Table Transition

/-! ### Begun jobs -/

/-- The statuses that may follow a status. -/
def JobStatus.next : JobStatus → List JobStatus
  | .pending => [.preparing, .completed]
  | .preparing => [.running, .paused, .completed, .failed]
  | .running => [.pausing, .paused, .completed, .failed]
  | .pausing => [.running, .paused, .completed, .failed]
  | .paused => [.preparing, .completed]
  | .completed => [.preparing, .verifying, .archived]
  | .failed => [.preparing, .completed, .archived]
  | .verifying => [.completed, .failed]
  | .archived => []

/-- What the job is about. -/
structure SameCase (j j' : ExportJob) : Prop where
  projectId : j'.projectId = j.projectId
  evidenceNumber : j'.evidenceNumber = j.evidenceNumber
  maxFileRetries : j'.maxFileRetries = j.maxFileRetries
  retryDelaySeconds : j'.retryDelaySeconds = j.retryDelaySeconds
  callbackUrl : j'.callbackUrl = j.callbackUrl
  createdAt : j'.createdAt = j.createdAt

/-- The same case, from a source path that is at most normalised again. -/
structure Remains (j j' : ExportJob) : Prop where
  sameCase : SameCase j j'
  sourcePath : normalizePath j.sourcePath = j.sourcePath → j'.sourcePath = j.sourcePath

/-- The status is kept, or one that follows. -/
def Follows (j j' : ExportJob) : Prop := j'.status = j.status ∨ j'.status ∈ j.status.next

def Begun (j : ExportJob) : Prop := j.status ≠ .pending

instance (j : ExportJob) : Decidable (Begun j) := inferInstanceAs (Decidable (j.status ≠ .pending))

section Remains

variable {j j' j'' : ExportJob}

theorem Remains.refl (j : ExportJob) : Remains j j :=
  ⟨⟨rfl, rfl, rfl, rfl, rfl, rfl⟩, fun _ => rfl⟩

theorem Remains.trans (first : Remains j j') (second : Remains j' j'') : Remains j j'' where
  sameCase :=
    { projectId := second.sameCase.projectId.trans first.sameCase.projectId
      evidenceNumber := second.sameCase.evidenceNumber.trans first.sameCase.evidenceNumber
      maxFileRetries := second.sameCase.maxFileRetries.trans first.sameCase.maxFileRetries
      retryDelaySeconds := second.sameCase.retryDelaySeconds.trans first.sameCase.retryDelaySeconds
      callbackUrl := second.sameCase.callbackUrl.trans first.sameCase.callbackUrl
      createdAt := second.sameCase.createdAt.trans first.sameCase.createdAt }
  sourcePath stable := by
    have same := first.sourcePath stable
    rw [← same] at stable
    exact (second.sourcePath stable).trans same

theorem Follows.begun (follows : Follows j j') (started : Begun j) : Begun j' := by
  have left : ∀ status status' : JobStatus, status' ∈ status.next → status' ≠ .pending := by
    intro status status' mem
    cases status <;> cases status' <;> simp [JobStatus.next] at mem ⊢
  rcases follows with same | next
  · rw [Begun, same]
    exact started
  · exact left j.status j'.status next

end Remains

section Begun

variable {cfg : Settings} {s : Db} {a : Action} {j : ExportJob} {regular : Prop}

/-- The job is still there and the same case; in a regular action its status follows. -/
def Continues (regular : Prop) (j : ExportJob) (t : Db) : Prop :=
  ∃ j' ∈ t.jobs, j'.id = j.id ∧ Begun j' ∧ Remains j j' ∧ (regular → Follows j j')

theorem Continues.still (mem : j ∈ s.jobs) (started : Begun j) : Continues regular j s :=
  ⟨j, mem, rfl, started, .refl j, fun _ => .inl rfl⟩

theorem Continues.of_imp {regular' : Prop} {t : Db} (imp : regular → regular')
    (h : Continues regular' j t) : Continues regular j t := by
  obtain ⟨j', there, same, begun, remains, follows⟩ := h
  exact ⟨j', there, same, begun, remains, fun h => follows (imp h)⟩

theorem Continues.modifyJob {t : Db} (mem : j ∈ t.jobs) {f : ExportJob → ExportJob}
    {key : ∀ r, (f r).id = r.id} (begun : Begun (f j)) (written : Remains j (f j))
    (follows : regular → Follows j (f j)) : Continues regular j (t.modifyJob j.id f key) :=
  ⟨f j, Db.mem_modifyJob.mpr (.inr ⟨j, mem, rfl, rfl⟩), key j, begun, written, follows⟩

theorem activateReservedOrNew_jobs (s : Db) (jobId driveId now : Nat) :
    (activateReservedOrNewAssignment s jobId driveId now).jobs = s.jobs := by
  rw [activateReservedOrNewAssignment]
  split <;> rfl

theorem persistFile_jobs (s : Db) (jobId : Nat) (relativePath : Str) (sizeBytes : Nat) :
    (persistFile s jobId relativePath sizeBytes).jobs = s.jobs := by
  rw [persistFile]
  split <;> rfl

/-- A run may end in each of its statuses. -/
theorem next_of_copying {status status' : JobStatus} (copying : status ∈ copyingStatuses)
    (final : status' ∈ [JobStatus.paused, .completed, .failed]) : status' ∈ status.next := by
  cases status <;> simp [copyingStatuses] at copying <;>
    exact List.mem_cons_of_mem _ final

theorem begun_of_final {j : ExportJob}
    (final : j.status ∈ [JobStatus.paused, .completed, .failed]) : Begun j := by
  intro pending
  rw [pending] at final
  simp at final

theorem path_of_startableJob {k : Nat} {job : ExportJob} {sourcePath : Str}
    (h : startableJob cfg s k = .ok (job, sourcePath)) :
    sourcePath = normalizePath job.sourcePath := by
  simp only [startableJob, bind_eq_ok, orReject_eq_ok, ensure_eq_ok, orInvalid_eq_ok,
    pure_eq_ok] at h
  obtain ⟨row, -, -, -, -, -, path, valid, same⟩ := h
  obtain ⟨rfl, rfl⟩ := Prod.mk.inj same
  exact validateSourcePath_eq_ok valid

theorem continues_updateJob {body : JobBody} {now : Nat} (mem : j ∈ s.jobs) (started : Begun j) :
    (∀ s', updateJob cfg s j.id body now = .ok s' → Continues regular j s') ∧
      Leaves (Continues regular j) (updateJob cfg s j.id body now) := by
  have still : ∀ t : Db, t.jobs = s.jobs → Continues regular j t :=
    fun t same => .still (same ▸ mem) started
  refine updateJob_rule (P := fun _ _ t => t.jobs = s.jobs) (still s rfl)
    (fun _ _ _ _ _ t _ h _ _ _ => still t h) (fun _ _ _ _ h => h)
    (fun plan _ _ => keptAssignments_jobs s plan j.id body now) (fun _ _ _ _ _ h _ _ _ _ _ _ => h)
    fun plan checked t h => ?_
  -- Only a limited edit is accepted for a started job.
  have limited : plan.limited = true := by
    by_contra full
    rw [Bool.not_eq_true] at full
    exact started (eq_of_get checked.job mem rfl ▸ checked.pending full)
  have written : Remains j (updatedJob plan body j) ∧
      (updatedJob plan body j).status = j.status := by
    simp only [updatedJob, limited, if_true]
    exact ⟨⟨⟨rfl, rfl, rfl, rfl, rfl, rfl⟩, fun _ => rfl⟩, trivial⟩
  have follows : Follows j (updatedJob plan body j) := .inl written.2
  rw [finishUpdate, if_pos (.inl limited)]
  exact Continues.modifyJob (show j ∈ t.jobs from h ▸ mem) (follows.begun started) written.1
    fun _ => follows

theorem continues_resolveTargetFull {probe : Str → Option Nat} {now : Nat} (mem : j ∈ s.jobs)
    (started : Begun j) : Continues (j.status ∈ copyingStatuses) j
      (resolveTargetFullOutcome s j.id probe now).2 := by
  rcases @resolveTargetFullOutcome_rule (fun t => t.jobs = s.jobs) s j.id now probe rfl
    (fun t d v h => h) with ⟨-, h⟩ | ⟨job, active, next, drive, probed, -, -, h, -, moved⟩
  · exact .still (h ▸ mem) started
  · rw [moved]
    refine ⟨_, mem_continueOnReserved_jobs.mpr (.inr ⟨j, h ▸ mem, rfl, rfl⟩), rfl, nofun,
      ⟨⟨rfl, rfl, rfl, rfl, rfl, rfl⟩, fun _ => rfl⟩, fun copying => ?_⟩
    simp only [copyingStatuses, List.mem_cons, List.not_mem_nil, or_false] at copying
    rcases copying with status | status | status
    · exact .inr (by simp [status, JobStatus.next])
    · exact .inl status.symm
    · exact .inr (by simp [status, JobStatus.next])

/-- A transaction of a run continues the job. -/
theorem continues_runWrites {now : Nat} {event : Event} {statuses : List JobStatus}
    (mem : j ∈ s.jobs) (started : Begun j) (run : event.run = some (j.id, statuses)) :
    Continues (j.status ∈ statuses) j (runWrites s now event) := by
  cases event with
  | enterRunning jobId =>
      cases run
      have begun : JobStatus.running ≠ .pending := by decide
      refine Continues.modifyJob mem begun ⟨⟨rfl, rfl, rfl, rfl, rfl, rfl⟩, fun _ => rfl⟩ ?_
      intro status
      simp only [List.mem_cons, List.not_mem_nil, or_false] at status
      rcases status with status | status
      · exact .inr (by simp [status, JobStatus.next])
      · exact .inl status.symm
  | listFile jobId relativePath sizeBytes =>
      cases run
      exact .still ((persistFile_jobs ..).symm ▸ mem) started
  | recordFile jobId fileId status errorMessage =>
      cases run
      exact .still mem started
  | resolveTargetFull jobId probe =>
      cases run
      exact continues_resolveTargetFull mem started
  | finalizeRun jobId pauseRequested targetFullFailed =>
      cases run
      rw [runWrites, finalizeRun]
      split
      · exact .still mem started
      · refine Continues.modifyJob mem (begun_of_final (finalStatus_mem ..))
          ⟨⟨rfl, rfl, rfl, rfl, rfl, rfl⟩, fun _ => rfl⟩
          fun copying => .inr (next_of_copying copying (finalStatus_mem ..))
  | failRun jobId reason =>
      cases run
      have begun : JobStatus.failed ≠ .pending := by decide
      exact Continues.modifyJob mem begun ⟨⟨rfl, rfl, rfl, rfl, rfl, rfl⟩, fun _ => rfl⟩
        fun copying => .inr (next_of_copying copying (by simp [finishedJob]))
  | finishVerify jobId anyMismatch =>
      cases run
      refine Continues.modifyJob mem ?_ ⟨⟨rfl, rfl, rfl, rfl, rfl, rfl⟩, fun _ => rfl⟩ ?_
      · refine begun_of_final ?_
        cases anyMismatch <;> simp
      · intro verifying
        rw [Follows, List.mem_singleton.mp verifying]
        cases anyMismatch <;> simp [JobStatus.next]
  | _ => cases run

/-- A started job continues with every action. -/
theorem continues_step (mem : j ∈ s.jobs) (started : Begun j) :
    Continues True j (step cfg s a) := by
  have still : Continues True j s := .still mem started
  by_cases named : a.event.job = some j.id
  swap
  · have same : SameJob j.id s (step cfg s a) := sameJob_step ⟨j, mem, rfl⟩ named
    exact .still ((same.jobs j rfl).mpr mem) started
  -- What a write is, and which status it gives.
  have write : ∀ (t : Db) (f : ExportJob → ExportJob) (key : ∀ r, (f r).id = r.id),
      t.jobs = s.jobs → SameCase j (f j) →
      (normalizePath j.sourcePath = j.sourcePath → (f j).sourcePath = j.sourcePath) →
      Follows j (f j) → Continues True j (t.modifyJob j.id f key) := by
    intro t f key jobs sameCase path follows
    exact Continues.modifyJob (jobs ▸ mem) (follows.begun started) ⟨sameCase, path⟩ fun _ => follows
  have found : ∀ job, s.jobs.get j.id = some job → job = j :=
    fun job get => (eq_of_get get mem rfl).symm
  obtain ⟨now, event⟩ := a
  cases event with
  | createJob | initializeDrive | mountDrive | prepareEject | requestDriveFormat
  | completeDriveFormat => cases named
  | updateJob jobId body =>
      cases named
      exact step_rule (continues_updateJob mem started).1 (continues_updateJob mem started).2
  | deleteJob jobId =>
      cases named
      refine step_rule (fun s' h => ?_) (leaves_deleteJob still)
      obtain ⟨job, _, get, pending, -⟩ := deleteJob_eq_ok h
      exact absurd (found job get ▸ pending) started
  | startJob jobId threadCount =>
      cases named
      refine step_rule (fun s' h => ?_) (leaves_startJob still fun job path startable => ?_)
      · obtain ⟨job, get, startable, path, checked, rfl⟩ := startJob_eq_ok h
        obtain rfl := found job get
        refine write s _ _ rfl ⟨rfl, rfl, rfl, rfl, rfl, rfl⟩
          (fun stable => (path_of_startableJob checked).trans stable) (.inr ?_)
        cases status : job.status <;> simp [status, JobStatus.next] at startable ⊢
      · obtain rfl := found job (startableJob_eq_ok startable).1
        exact write s _ _ rfl ⟨rfl, rfl, rfl, rfl, rfl, rfl⟩
          (fun stable => (path_of_startableJob startable).trans stable) (.inl rfl)
  | retryFailedFiles jobId =>
      cases named
      refine step_rule (fun s' h => ?_) (leaves_retryFailedFiles still)
      obtain ⟨job, get, completed, -, path, revalidated, rfl⟩ := retryFailedFiles_eq_ok h
      obtain rfl := found job get
      exact write _ _ _ rfl ⟨rfl, rfl, rfl, rfl, rfl, rfl⟩ (fun stable => revalidated.trans stable)
        (.inr (by simp [completed, JobStatus.next]))
  | continueJobOverflow jobId driveId threadCount =>
      cases named
      refine step_rule (fun s' h => ?_) (leaves_continueJobOverflow still fun job get => ?_)
      · replace h : continueJobOverflow cfg s j.id driveId threadCount now = .ok s' := h
        simp only [continueJobOverflow, bind_eq_ok, pure_eq_ok] at h
        obtain ⟨plan, planned, rfl⟩ := h
        have checked := overflowPlan_eq_ok planned
        have same := found plan.job checked.job
        have status := same ▸ checked.status
        have path := same ▸ checked.sourcePath
        refine write _ _ _ ?_ ⟨rfl, rfl, rfl, rfl, rfl, rfl⟩ (fun stable => path.trans stable)
          (.inr ?_)
        · exact (activateReservedOrNew_jobs ..).trans (leaveDrive_jobs ..)
        · cases status' : j.status <;> simp [status', JobStatus.next] at status ⊢
      · rw [found job get]
        exact write s _ _ rfl ⟨rfl, rfl, rfl, rfl, rfl, rfl⟩ (fun stable => stable) (.inl rfl)
  | pauseJob jobId =>
      cases named
      refine step_rule (fun s' h => ?_) (leaves_pauseJob still)
      obtain ⟨job, get, running, rfl⟩ := pauseJob_eq_ok h
      obtain rfl := found job get
      exact write s _ _ rfl ⟨rfl, rfl, rfl, rfl, rfl, rfl⟩ (fun _ => rfl)
        (.inr (by simp [running, JobStatus.next]))
  | completeJob jobId =>
      cases named
      refine step_rule (fun s' h => ?_) (leaves_completeJob still)
      obtain ⟨job, get, completable, rfl⟩ := completeJob_eq_ok h
      obtain rfl := found job get
      refine write s _ _ rfl ⟨rfl, rfl, rfl, rfl, rfl, rfl⟩ (fun _ => rfl) (.inr ?_)
      cases status : job.status <;> simp [status, JobStatus.next] at completable ⊢
  | verifyJob jobId =>
      cases named
      refine step_rule (fun s' h => ?_) (leaves_verifyJob still)
      obtain ⟨job, get, completed, -, rfl⟩ := verifyJob_eq_ok h
      obtain rfl := found job get
      exact write s _ _ rfl ⟨rfl, rfl, rfl, rfl, rfl, rfl⟩ (fun _ => rfl)
        (.inr (by simp [completed, JobStatus.next]))
  | archiveJob jobId confirm =>
      cases named
      refine step_rule (fun s' h => ?_) (leaves_archiveJob still)
      obtain ⟨job, get, archivable, rfl⟩ := archiveJob_eq_ok h
      obtain rfl := found job get
      refine write s _ _ rfl ⟨rfl, rfl, rfl, rfl, rfl, rfl⟩ (fun _ => rfl) (.inr ?_)
      cases status : job.status <;>
        simp [status, JobStatus.next, archivableJobStatuses] at archivable ⊢
  | startupAnalysis jobId analysis =>
      cases named
      exact write s _ _ rfl ⟨rfl, rfl, rfl, rfl, rfl, rfl⟩ (fun _ => rfl) (.inl rfl)
  | enterRunning | listFile | recordFile | resolveTargetFull | finalizeRun | failRun
  | finishVerify =>
      cases named
      exact step_of_run rfl still fun attends =>
        .of_imp (fun _ => attends j mem rfl) (continues_runWrites mem started rfl)

/-- A started job continues with every action; what a run writes to a job in a status that it does
not work on gives a status that need not follow. -/
theorem continues_unguardedStep (mem : j ∈ s.jobs) (started : Begun j) :
    Continues (Attends j.id s a) j (unguardedStep cfg s a) := by
  have found : s.jobs.get j.id = some j := get_eq_some_iff.mpr ⟨mem, rfl⟩
  cases run : a.event.run with
  | none =>
      rw [unguardedStep_of_none run]
      exact .of_imp (fun _ => trivial) (continues_step mem started)
  | some r =>
      by_cases named : r.1 = j.id
      · have mine : a.event.run = some (j.id, r.2) := named ▸ run
        rw [unguardedStep_of_run run]
        refine .of_imp (fun attends => ?_) (continues_runWrites mem started mine)
        obtain ⟨i, get, status⟩ := attends r run named
        rw [found] at get
        cases get
        exact status
      · have same : SameJob j.id s (unguardedStep cfg s a) := sameJob_of_run run named
        exact .still ((same.jobs j rfl).mpr mem) started

/-- A started job is never deleted, keeps its case and does not become pending again, whatever runs
write to it; each action moves it along `JobStatus.next`, unless it is a transaction of a run that
finds the job in a status that the run does not work on. -/
theorem started_continues (mem : j ∈ s.jobs) (started : Begun j) (actions : List Action) :
    Along (unguardedStep cfg) (fun t a => ∃ i ∈ t.jobs, i.id = j.id ∧ Remains j i ∧
      Continues (Attends j.id t a) i (unguardedStep cfg t a)) s actions := by
  let There : Db → Prop := fun t => ∃ i ∈ t.jobs, i.id = j.id ∧ Remains j i ∧ Begun i
  have there : There s := ⟨j, mem, rfl, .refl j, started⟩
  have keep : ∀ t a, There t → True → There (unguardedStep cfg t a) := by
    rintro t a ⟨i, there, same, remains, begun⟩ -
    obtain ⟨i', there', same', begun', remains', -⟩ := @continues_unguardedStep cfg t a i there begun
    exact ⟨i', there', same'.trans same, remains.trans remains', begun'⟩
  refine along_of_along keep ?_ there along_true
  rintro t a ⟨i, there, same, remains, begun⟩ -
  exact ⟨i, there, same, remains, same ▸ continues_unguardedStep there begun⟩

/-- The second job is started. -/
def Lab.startedPair : Db := step settings twoJobs ⟨3, .startJob 2 none⟩

/-- The second job goes on to its reserved drive and is not deleted. -/
theorem started_continues_secondRun :
    ∃ j ∈ Lab.startedPair.jobs, Begun j ∧
      Along (unguardedStep Lab.settings) (fun t a => ∃ i ∈ t.jobs, i.id = j.id ∧ Remains j i ∧
        Continues (Attends j.id t a) i (unguardedStep Lab.settings t a)) Lab.startedPair
        Lab.secondRun.tail := by
  have there : ∃ j ∈ Lab.startedPair.jobs, Begun j := by decide
  obtain ⟨j, mem, started⟩ := there
  exact ⟨j, mem, started, started_continues mem started Lab.secondRun.tail⟩

end Begun

/-! ### Archived jobs -/

section Archived

variable {cfg : Settings} {s : Db} {a : Action} {j : ExportJob} {P : Db → Prop}

/-- An edit of a job that may not be edited is refused before its first write. -/
theorem leaves_updateJob_of_closed {jobId now : Nat} {body : JobBody} (hs : P s)
    (closed : ∀ job, s.jobs.get jobId = some job →
      job.status ∉ .pending :: startedJobEditableStatuses) :
    (∀ s', updateJob cfg s jobId body now ≠ .ok s') ∧
      Leaves P (updateJob cfg s jobId body now) := by
  have unplanned : ∀ plan, updatePlan cfg s jobId body ≠ .ok plan := by
    intro plan planned
    simp only [updatePlan, bind_eq_ok, orReject_eq_ok, ensure_eq_ok] at planned
    obtain ⟨job, get, _, editable, -⟩ := planned
    exact closed job get editable
  constructor
  · intro s' h
    simp only [updateJob, bind_eq_ok] at h
    obtain ⟨plan, planned, -⟩ := h
    exact unplanned plan planned
  · exact .bind (leaves_updatePlan hs) fun plan planned => absurd planned (unplanned plan)

/-- A continuation of a job that may not be continued is refused before its first write. -/
theorem leaves_continueJobOverflow_of_closed {jobId driveId now : Nat} {threadCount : Option Nat}
    (hs : P s) (closed : ∀ job, s.jobs.get jobId = some job →
      job.status ∉ [JobStatus.pending, .paused, .failed, .completed]) :
    Leaves P (continueJobOverflow cfg s jobId driveId threadCount now) := by
  refine .bind (.bind (.orReject hs) fun job get => ?_) fun plan planned => ?_
  · refine .bind (.ensure hs) fun _ _ => .bind (.ensure hs) fun _ status => ?_
    exact absurd (ensure_eq_ok.mp status) (closed job (orReject_eq_ok.mp get))
  · have checked := overflowPlan_eq_ok planned
    exact absurd checked.status (closed plan.job checked.job)

/-- An action that names an archived job and is not an analysis of its source changes nothing. -/
theorem inert_of_archived (mem : j ∈ s.jobs) (archived : j.status = .archived)
    (named : a.event.job = some j.id)
    (unanalyzed : ∀ analysis, a.event ≠ .startupAnalysis j.id analysis) (hs : P s) :
    P (step cfg s a) := by
  have closed : ∀ {statuses : List JobStatus}, JobStatus.archived ∉ statuses →
      ∀ job, s.jobs.get j.id = some job → job.status ∉ statuses := by
    intro statuses outside job get
    rwa [← eq_of_get get mem rfl, archived]
  have found : ∀ {job : ExportJob} {status : JobStatus}, s.jobs.get j.id = some job →
      job.status = status → status = .archived := by
    intro job status get same
    rw [← same, ← eq_of_get get mem rfl, archived]
  have idle : ∀ (statuses : List JobStatus) (t : Db), JobStatus.archived ∉ statuses →
      P (whileIn s j.id statuses t) :=
    fun statuses t outside => whileIn_rule hs fun busy => absurd (archived ▸ busy j mem rfl) outside
  obtain ⟨now, event⟩ := a
  cases event with
  | createJob | initializeDrive | mountDrive | prepareEject | requestDriveFormat
  | completeDriveFormat => cases named
  | updateJob jobId body =>
      cases named
      have refused := @leaves_updateJob_of_closed cfg s P j.id now body hs (closed (by decide))
      exact step_rule (fun s' h => absurd h (refused.1 s')) refused.2
  | deleteJob jobId =>
      cases named
      refine step_rule (fun s' h => ?_) (leaves_deleteJob hs)
      obtain ⟨job, _, get, pending, -⟩ := deleteJob_eq_ok h
      cases found get pending
  | startJob jobId threadCount =>
      cases named
      refine step_rule (fun s' h => ?_) (leaves_startJob hs fun job path startable => ?_)
      · obtain ⟨job, get, startable, -⟩ := startJob_eq_ok h
        exact absurd startable (closed (by decide) job get)
      · obtain ⟨get, status⟩ := startableJob_eq_ok startable
        exact absurd status (closed (by decide) job get)
  | retryFailedFiles jobId =>
      cases named
      refine step_rule (fun s' h => ?_) (leaves_retryFailedFiles hs)
      obtain ⟨job, get, completed, -⟩ := retryFailedFiles_eq_ok h
      cases found get completed
  | continueJobOverflow jobId driveId threadCount =>
      cases named
      refine step_rule (fun s' h => ?_)
        (leaves_continueJobOverflow_of_closed hs (closed (by decide)))
      replace h : continueJobOverflow cfg s j.id driveId threadCount now = .ok s' := h
      simp only [continueJobOverflow, bind_eq_ok] at h
      obtain ⟨plan, planned, -⟩ := h
      have checked := overflowPlan_eq_ok planned
      exact absurd checked.status (closed (by decide) plan.job checked.job)
  | pauseJob jobId =>
      cases named
      refine step_rule (fun s' h => ?_) (leaves_pauseJob hs)
      obtain ⟨job, get, running, -⟩ := pauseJob_eq_ok h
      cases found get running
  | completeJob jobId =>
      cases named
      refine step_rule (fun s' h => ?_) (leaves_completeJob hs)
      obtain ⟨job, get, completable, -⟩ := completeJob_eq_ok h
      exact absurd completable (closed (by decide) job get)
  | verifyJob jobId =>
      cases named
      refine step_rule (fun s' h => ?_) (leaves_verifyJob hs)
      obtain ⟨job, get, completed, -⟩ := verifyJob_eq_ok h
      cases found get completed
  | archiveJob jobId confirm =>
      cases named
      refine step_rule (fun s' h => ?_) (leaves_archiveJob hs)
      obtain ⟨job, get, archivable, -⟩ := archiveJob_eq_ok h
      exact absurd archivable (closed (by decide) job get)
  | startupAnalysis jobId analysis =>
      cases named
      exact absurd rfl (unanalyzed analysis)
  | enterRunning | listFile | recordFile | resolveTargetFull | finalizeRun | failRun
  | finishVerify =>
      cases named
      exact idle _ _ (by decide)

/-- What does not change any more once a job is archived. An analysis of its source that is still
running replaces its result and the counts. -/
structure SameRecord (j j' : ExportJob) : Prop where
  row : { j' with
    startupAnalysis := j.startupAnalysis
    fileCount := j.fileCount
    totalBytes := j.totalBytes
    copiedBytes := j.copiedBytes } = j

theorem SameRecord.refl (j : ExportJob) : SameRecord j j := ⟨rfl⟩

theorem SameRecord.trans {j j' j'' : ExportJob} (first : SameRecord j j')
    (second : SameRecord j' j'') : SameRecord j j'' := by
  refine ⟨?_⟩
  rw [← first.row, ← second.row]

/-- The job has the same record in `t` as in `s`, and the same assignments. -/
structure Sealed (j : ExportJob) (s t : Db) : Prop where
  job : ∃ j' ∈ t.jobs, j'.id = j.id ∧ SameRecord j j'
  assignments : ∀ b : DriveAssignment, b.jobId = j.id → (b ∈ t.assignments ↔ b ∈ s.assignments)

theorem Sealed.of_sameJob {t : Db} (mem : j ∈ s.jobs) (same : SameJob j.id s t) : Sealed j s t :=
  ⟨⟨j, (same.jobs j rfl).mpr mem, rfl, .refl j⟩, same.assignments⟩

theorem Sealed.refl (mem : j ∈ s.jobs) : Sealed j s s := .of_sameJob mem (.refl j.id s)

theorem sealed_step (mem : j ∈ s.jobs) (archived : j.status = .archived) :
    Sealed j s (step cfg s a) := by
  by_cases named : a.event.job = some j.id
  · by_cases analyzed : ∃ analysis, a.event = .startupAnalysis j.id analysis
    · obtain ⟨now, event⟩ := a
      obtain ⟨analysis, rfl⟩ := analyzed
      refine ⟨⟨{ j with startupAnalysis := analysis }, ?_, rfl, ⟨rfl⟩⟩, fun _ _ => Iff.rfl⟩
      exact Db.mem_modifyJob.mpr (.inr ⟨j, mem, rfl, rfl⟩)
    · rw [not_exists] at analyzed
      exact inert_of_archived mem archived named analyzed (.refl mem)
  · exact .of_sameJob mem (sameJob_step ⟨j, mem, rfl⟩ named)

theorem archived_not_mem_run {event : Event} {r : Nat × List JobStatus} (run : event.run = some r) :
    JobStatus.archived ∉ r.2 := by
  cases event <;> cases run <;> simp [copyingStatuses]

theorem sealed_unguardedStep (mem : j ∈ s.jobs) (archived : j.status = .archived)
    (attends : Attends j.id s a) : Sealed j s (unguardedStep cfg s a) := by
  cases run : a.event.run with
  | none => exact unguardedStep_of_none run ▸ sealed_step mem archived
  | some r =>
      by_cases named : r.1 = j.id
      · obtain ⟨i, get, status⟩ := attends r run named
        rw [← eq_of_get get mem rfl, archived] at status
        exact absurd status (archived_not_mem_run run)
      · exact .of_sameJob mem (sameJob_of_run run named)

/-- An archived job stays archived as long as no run writes to it: no other action changes its row,
up to the analysis of its source, or its assignments. -/
theorem archived_kept (mem : j ∈ s.jobs) (archived : j.status = .archived) {actions : List Action}
    (attends : Along (unguardedStep cfg) (Attends j.id) s actions) :
    Sealed j s (exec (unguardedStep cfg) s actions) := by
  induction actions generalizing s j with
  | nil => exact .refl mem
  | cons a rest ih =>
      obtain ⟨⟨j₁, mem₁, id₁, record₁⟩, assignments₁⟩ : Sealed j s (unguardedStep cfg s a) :=
        sealed_unguardedStep mem archived attends.1
      have archived₁ : j₁.status = .archived := by
        rw [← archived, ← record₁.row]
      obtain ⟨⟨j₂, mem₂, id₂, record₂⟩, assignments₂⟩ := ih mem₁ archived₁ (id₁ ▸ attends.2)
      refine ⟨⟨j₂, mem₂, id₂.trans id₁, record₁.trans record₂⟩, fun b mine => ?_⟩
      exact (assignments₂ b (mine.trans id₁.symm)).trans (assignments₁ b mine)

/-- A job of the archive, which a request tries to continue. -/
def Lab.archivedJob : Db :=
  exec (step settings) start
    [⟨1, .createJob (body "/data/a" (some 1) none) none⟩,
      ⟨2, .completeJob 1⟩,
      ⟨3, .prepareEject 1 true .success⟩,
      ⟨4, .archiveJob 1 true⟩]

theorem archived_kept_continued :
    ∃ j ∈ Lab.archivedJob.jobs, j.status = .archived ∧
      Sealed j Lab.archivedJob (exec (unguardedStep Lab.settings) Lab.archivedJob
        [⟨5, .continueJobOverflow 1 2 none⟩, ⟨6, .startJob 1 none⟩]) := by
  have there : ∃ j ∈ Lab.archivedJob.jobs, j.status = .archived ∧
      Along (unguardedStep Lab.settings) (Attends j.id) Lab.archivedJob
        [⟨5, .continueJobOverflow 1 2 none⟩, ⟨6, .startJob 1 none⟩] := by decide
  obtain ⟨j, mem, archived, attends⟩ := there
  exact ⟨j, mem, archived, archived_kept mem archived attends⟩

end Archived

/-! ### The assignments of a started job -/

/-- A later row of an assignment: it is about the same drive and job, and a time that is set
stays. -/
structure WrittenOnce (a b : DriveAssignment) : Prop where
  driveId : b.driveId = a.driveId
  jobId : b.jobId = a.jobId
  assignedAt : b.assignedAt = a.assignedAt
  activatedAt : a.activatedAt ≠ none → b.activatedAt = a.activatedAt
  releasedAt : a.releasedAt ≠ none → b.releasedAt = a.releasedAt

theorem WrittenOnce.refl (a : DriveAssignment) : WrittenOnce a a :=
  ⟨rfl, rfl, rfl, fun _ => rfl, fun _ => rfl⟩

theorem WrittenOnce.trans {a b c : DriveAssignment} (first : WrittenOnce a b)
    (second : WrittenOnce b c) : WrittenOnce a c where
  driveId := second.driveId.trans first.driveId
  jobId := second.jobId.trans first.jobId
  assignedAt := second.assignedAt.trans first.assignedAt
  activatedAt set := by
    have same := first.activatedAt set
    exact (second.activatedAt (same ▸ set)).trans same
  releasedAt set := by
    have same := first.releasedAt set
    exact (second.releasedAt (same ▸ set)).trans same

/-- The assignments of the job with this key are still there and written once. -/
def KeepsAssignments (k : Nat) (s t : Db) : Prop :=
  Table.Keeps (fun a => a.jobId = k) WrittenOnce s.assignments t.assignments

namespace KeepsAssignments

variable {k now : Nat} {s t u : Db}

theorem of_eq (same : t.assignments = s.assignments) : KeepsAssignments k s t := by
  rw [KeepsAssignments, same]
  exact Table.Keeps.refl .refl s.assignments

theorem trans (first : KeepsAssignments k s t) (second : KeepsAssignments k t u) :
    KeepsAssignments k s u :=
  Table.Keeps.trans (fun first second => first.trans second) first second

theorem release {i : Nat}
    (unset : ∀ r ∈ s.assignments, r.id = i → r.releasedAt = none ∨ r.releasedAt = some now) :
    KeepsAssignments k s (s.releaseAssignment i now) := by
  refine Table.Keeps.modify (f := fun a : DriveAssignment => { a with releasedAt := some now })
    (fun _ => rfl) .refl fun r mem here mine => ⟨mine, rfl, rfl, rfl, fun _ => rfl, fun set => ?_⟩
  exact ((unset r mem here).resolve_left set).symm

theorem activate {i : Nat} (unset : ∀ r ∈ s.assignments, r.id = i → r.activatedAt = none) :
    KeepsAssignments k s (s.activateAssignment i now) :=
  Table.Keeps.modify (f := fun a : DriveAssignment => { a with activatedAt := some now })
    (fun _ => rfl) .refl fun r mem here mine =>
      ⟨mine, rfl, rfl, rfl, fun set => absurd (unset r mem here) set, fun _ => rfl⟩

theorem add (s : Db) (driveId jobId now : Nat) (activatedAt : Option Nat) :
    KeepsAssignments k s (s.addAssignment driveId jobId now activatedAt) :=
  Table.Keeps.insert (fun _ => rfl) .refl

/-- The active assignment is left. -/
theorem leaveDrive {a : DriveAssignment} (mem : a ∈ s.assignments) (active : a.active = true) :
    KeepsAssignments k s (Ecube.leaveDrive s a now) := by
  have released : KeepsAssignments k s (s.releaseAssignment a.id now) :=
    release fun r there same =>
      .inl (eq_of_id_eq there mem same ▸ (DriveAssignment.active_iff.mp active).2)
  rw [Ecube.leaveDrive]
  split <;> exact released

theorem activateReservedOrNew (s : Db) (jobId driveId now : Nat) :
    KeepsAssignments k s (activateReservedOrNewAssignment s jobId driveId now) := by
  rw [activateReservedOrNewAssignment]
  split
  · rename_i next found
    obtain ⟨mem, chosen⟩ := mem_of_first found
    have reserved := DriveAssignment.reserved_iff.mp (of_decide_eq_true chosen).2.2
    exact activate fun r there same => eq_of_id_eq there mem same ▸ reserved.1
  · exact add s driveId jobId now (some now)

end KeepsAssignments

section Recorded

variable {cfg : Settings} {s : Db} {a : Action} {k now : Nat} {j : ExportJob}

theorem keepsAssignments_changePrimaryDrive {plan : UpdatePlan} {jobId : Nat}
    (current : plan.current = s.getActiveForJob jobId) :
    KeepsAssignments k s (changePrimaryDrive s plan now) := by
  rw [changePrimaryDrive]
  split
  · exact .of_eq rfl
  · split
    · exact .add s plan.drive.id plan.job.id now (some now)
    · rename_i active found
      obtain ⟨mem, -, held⟩ := active_of_getActiveForJob (current.symm.trans found)
      split
      · exact .of_eq rfl
      · exact (KeepsAssignments.leaveDrive mem held).trans (.add _ plan.drive.id plan.job.id now _)

/-- A row of the moved assignments is an old one, a new one or one that is released now. -/
theorem released_of_changePrimaryDrive {plan : UpdatePlan} {b : DriveAssignment}
    (mem : b ∈ (changePrimaryDrive s plan now).assignments) :
    b ∈ s.assignments ∨ b.releasedAt = none ∨ b.releasedAt = some now := by
  rw [changePrimaryDrive] at mem
  split at mem
  · exact .inl mem
  · split at mem
    · rcases Db.mem_addAssignment.mp mem with old | rfl
      · exact .inl old
      · exact .inr (.inl rfl)
    · split at mem
      · exact .inl mem
      · rcases Db.mem_addAssignment.mp mem with left | rfl
        · rcases Db.mem_releaseAssignment.mp (mem_leaveDrive.mp left) with ⟨old, -⟩ | ⟨r, -, -, rfl⟩
          · exact .inl old
          · exact .inr (.inr rfl)
        · exact .inr (.inl rfl)

theorem keepsAssignments_keptAssignments {plan : UpdatePlan} {jobId : Nat} {body : JobBody}
    (current : plan.current = s.getActiveForJob jobId) :
    KeepsAssignments k s (keptAssignments s plan jobId body now) := by
  let dropped := (s.listForJob jobId).filter fun a =>
    a.reserved ∧ a.driveId ∉ body.overflowDriveIds
  -- What is listed stays unreleased, or is released by this edit.
  suffices kept : KeepsAssignments k s (keptAssignments s plan jobId body now) ∧
      ∀ a ∈ dropped, ∀ r ∈ (keptAssignments s plan jobId body now).assignments, r.id = a.id →
        r.releasedAt = none ∨ r.releasedAt = some now from kept.1
  refine releaseDroppedOverflow_rule (P := fun t => KeepsAssignments k s t ∧
    ∀ a ∈ dropped, ∀ r ∈ t.assignments, r.id = a.id →
      r.releasedAt = none ∨ r.releasedAt = some now) ?_ ?_
  · intro t a listed ⟨kept, unset⟩
    have released : KeepsAssignments k s (t.releaseAssignment a.id now) :=
      kept.trans (.release (unset a listed))
    refine ⟨⟨released, fun b hb r mem same => ?_⟩, fun _ => ⟨released, fun b hb r mem same => ?_⟩⟩
    all_goals
      rcases Db.mem_releaseAssignment.mp mem with ⟨old, -⟩ | ⟨r', -, -, rfl⟩
      · exact unset b hb r old same
      · exact .inr rfl
  · refine ⟨keepsAssignments_changePrimaryDrive current, fun a listed r mem same => ?_⟩
    obtain ⟨there, chosen⟩ := List.mem_filter.mp listed
    have reserved := DriveAssignment.reserved_iff.mp (of_decide_eq_true chosen).1
    rcases released_of_changePrimaryDrive mem with old | unset
    · exact .inl (eq_of_id_eq old (mem_select.mp there).1 same ▸ reserved.2)
    · exact unset

theorem keepsAssignments_updateJob {jobId : Nat} {body : JobBody} :
    (∀ s', updateJob cfg s jobId body now = .ok s' → KeepsAssignments k s s') ∧
      Leaves (KeepsAssignments k s) (updateJob cfg s jobId body now) := by
  refine updateJob_rule (P := fun _ _ t => KeepsAssignments k s t) (.of_eq rfl)
    (fun _ _ _ _ _ _ _ h _ _ _ => h) (fun _ _ _ _ h => h)
    (fun plan _ checked => keepsAssignments_keptAssignments checked.current)
    (fun plan _ rest t d h _ _ _ _ _ _ => h.trans (.add t d.id plan.job.id now none))
    fun plan checked t h => h.trans (.of_eq ?_)
  rw [finishUpdate]
  split <;> rfl

theorem keepsAssignments_continueJobOverflow {s' : Db} {jobId driveId : Nat}
    {threadCount : Option Nat}
    (h : continueJobOverflow cfg s jobId driveId threadCount now = .ok s') :
    KeepsAssignments k s s' := by
  simp only [continueJobOverflow, bind_eq_ok, pure_eq_ok] at h
  obtain ⟨plan, planned, rfl⟩ := h
  obtain ⟨mem, -, held⟩ := active_of_getActiveForJob (overflowPlan_eq_ok planned).active
  let bound := s.modifyDrive driveId
    (fun d => { d with currentProjectId := some plan.job.projectId }) fun _ => rfl
  have left : KeepsAssignments k bound (leaveDrive bound plan.active now) :=
    .leaveDrive (show plan.active ∈ bound.assignments from mem) held
  have moved := ((KeepsAssignments.of_eq rfl).trans left).trans
    (.activateReservedOrNew _ jobId driveId now)
  exact moved.trans (.of_eq rfl)

theorem keepsAssignments_resolveTargetFull {jobId : Nat} {probe : Str → Option Nat} :
    KeepsAssignments k s (resolveTargetFullOutcome s jobId probe now).2 := by
  rcases @resolveTargetFullOutcome_rule (fun t => t.assignments = s.assignments) s jobId now probe
    rfl (fun t d v h => h) with
    ⟨-, h⟩ | ⟨job, active, next, drive, t, -, current, h, selected, moved⟩
  · exact .of_eq h
  · rw [moved]
    obtain ⟨mem, -, held⟩ := active_of_getActiveForJob current
    obtain ⟨there, chosen⟩ := mem_select.mp selected.mem
    have reserved := DriveAssignment.reserved_iff.mp (of_decide_eq_true chosen).2
    have released : KeepsAssignments k t (t.releaseAssignment active.id now) := by
      refine .release fun r mem' same => .inl ?_
      exact eq_of_id_eq (h ▸ mem') mem same ▸ (DriveAssignment.active_iff.mp held).2
    have activated : KeepsAssignments k (t.releaseAssignment active.id now)
        ((t.releaseAssignment active.id now).activateAssignment next.id now) := by
      refine .activate fun r mem' same => ?_
      rcases Db.mem_releaseAssignment.mp mem' with ⟨old, -⟩ | ⟨r', old, -, rfl⟩
      · exact eq_of_id_eq (h ▸ old) there same ▸ reserved.1
      · obtain rfl : r' = next := eq_of_id_eq (h ▸ old) there same
        exact reserved.1
    exact ((KeepsAssignments.of_eq h).trans released).trans (activated.trans (.of_eq rfl))

/-- An action keeps the assignments of a started job. -/
theorem keepsAssignments_step (mem : j ∈ s.jobs) (started : Begun j) :
    KeepsAssignments j.id s (step cfg s a) := by
  by_cases named : a.event.job = some j.id
  swap
  · have same : SameJob j.id s (step cfg s a) := sameJob_step ⟨j, mem, rfl⟩ named
    exact .of_mem .refl fun b there mine => (same.assignments b mine).mpr there
  refine step_writes (fun t w => .of_eq w.assignments) (fun t w => .of_eq w.assignments)
    (fun body seeded s' event _ => ?_) (fun _ _ _ => keepsAssignments_updateJob)
    (fun jobId s' event h => ?_) (fun _ _ _ _ _ h => keepsAssignments_continueJobOverflow h)
    fun _ _ _ _ => keepsAssignments_resolveTargetFull
  · rw [event] at named
    cases named
  · rw [event] at named
    cases named
    obtain ⟨job, _, get, pending, -⟩ := deleteJob_eq_ok h
    exact absurd (eq_of_get get mem rfl ▸ pending) started

/-- The assignments of a started job are a record that is only added to: no run deletes one,
changes its drive or the time it was made, or the time of its activation or release once it is
set. -/
theorem assignments_written_once (mem : j ∈ s.jobs) (started : Begun j) (actions : List Action) :
    Table.Keeps (fun a => a.jobId = j.id) WrittenOnce s.assignments
      (exec (step cfg) s actions).assignments := by
  let There : Db → Prop := fun t => ∃ i ∈ t.jobs, i.id = j.id ∧ Begun i
  have guarded : Along (step cfg) (fun t _ => There t) s actions := by
    have there : There s := ⟨j, mem, rfl, started⟩
    refine along_of_along (G := fun _ _ => True) ?_ (fun _ _ there _ => there) there along_true
    rintro t a ⟨i, there, same, begun⟩ -
    obtain ⟨i', there', same', begun', -, -⟩ : Continues True i (step cfg t a) :=
      continues_step there begun
    exact ⟨i', there', same'.trans same, begun'⟩
  refine keeps_exec .refl (fun first second => first.trans second) ?_ guarded
  rintro t a ⟨i, there, same, begun⟩
  exact same ▸ keepsAssignments_step there begun

/-- The first drive of the second job stays on record when the job leaves it. -/
theorem assignments_written_secondRun :
    ∃ j ∈ Lab.startedPair.jobs, Begun j ∧
      Table.Keeps (fun a => a.jobId = j.id) WrittenOnce Lab.startedPair.assignments
        (exec (step Lab.settings) Lab.startedPair Lab.secondRun.tail).assignments := by
  have there : ∃ j ∈ Lab.startedPair.jobs, Begun j := by decide
  obtain ⟨j, mem, started⟩ := there
  exact ⟨j, mem, started, assignments_written_once mem started Lab.secondRun.tail⟩

end Recorded

end Ecube
