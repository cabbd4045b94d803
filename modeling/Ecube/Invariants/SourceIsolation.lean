import Ecube.Lifecycle
import Ecube.Paths.ShareContainment

/-!
The source of a job and the shares of other projects.

A request that names a share is refused when the share belongs to another
project. The path itself is compared with the share that is named, and with none
when none is named. `sourceIsolated_iff`: the stored path lies in no share of
another project exactly when the path of the request, followed from the root or
from the mount point of the named share, leads into none. Nothing in the
services asks for this, so a path into a foreign share is accepted
(`createJob_copies_foreign_share`), and so is one that names a share and climbs
out of it. A relative path without a share is compared as it is written, not
from the directory in which the services work.
-/

namespace Ecube

open PosixPath Table

/-- The source of the job lies in no share of another project. -/
def SourceIsolated (shares : Table NetworkShare) (job : ExportJob) : Prop :=
  ∀ share ∈ shares, share.projectId ≠ job.projectId →
    ¬ Contains share.localMountPoint job.sourcePath

/-- The requests that set the source of a job. -/
inductive SourceRequest where
  | create (seededJobId : Option Nat)
  | update (jobId : Nat)

namespace SourceRequest

def perform (cfg : Settings) (s : Db) (body : JobBody) (now : Nat) :
    SourceRequest → Except Reject Db
  | .create seededJobId => createJob cfg s body seededJobId now
  | .update jobId => updateJob cfg s jobId body now

/-- The job of the request, in the database it leaves. -/
def Job (s t : Db) (job : ExportJob) : SourceRequest → Prop
  | .create _ => job ∈ t.jobs ∧ s.jobs.get job.id = none
  | .update jobId => t.jobs.get jobId = some job

/-- The path is validated once more before it is stored; a started job keeps
its path. -/
def revalidates (s : Db) : SourceRequest → Bool
  | .create _ => true
  | .update jobId => (s.jobs.get jobId).all fun job => job.status ∉ startedJobEditableStatuses

end SourceRequest

/-- The path of a request, below the share it names if it names one. -/
def followedSource (s : Db) (body : JobBody) : Str :=
  match body.mountId.bind s.shares.get with
  | none => strip body.sourcePath
  | some share => strip (shareCandidate (strip body.sourcePath) (shareRoot share.localMountPoint))

/-- The same, trimmed as often as it is validated. -/
def SourceRequest.namedSource (s : Db) (body : JobBody) (request : SourceRequest) : Str :=
  if request.revalidates s then strip (normpath (followedSource s body)) else followedSource s body

section Stored

variable {cfg : Settings} {s t : Db} {body : JobBody} {now : Nat} {job : ExportJob}

/-- Normalising a path leaves it where it is. -/
theorem contains_normpath {root path : Str} :
    Contains root (normpath path) ↔ Contains root path := by
  rw [Contains, Contains, initialSlashes_normpath, normpath_idem]

/-- The path of an accepted request before it is validated again. -/
theorem resolveJobSourcePath_eq_ok {resolved : Str}
    (h : resolveJobSourcePath cfg s body = .ok resolved) :
    resolved = normpath (followedSource s body) := by
  rw [resolveJobSourcePath] at h
  rw [followedSource]
  cases named : body.mountId with
  | none =>
      rw [named] at h
      have resolves := orInvalid_eq_ok.mp h
      simp only [resolveSourcePath, truthy, Option.filter_none, bind_eq_ok, ensure_eq_ok] at resolves
      obtain ⟨value, given, -, -, valid⟩ := resolves
      rw [validateSourcePath_eq_ok valid, strictSanitizeString_eq_ok given, strip_strip]
      rfl
  | some mountId =>
      rw [named] at h
      simp only [bind_eq_ok, orReject_eq_ok, ensure_eq_ok, orInvalid_eq_ok] at h
      obtain ⟨share, found, -, -, -, ⟨-, nonempty⟩, resolves⟩ := h
      rw [Option.bind_some, found]
      exact (resolveSourcePath_eq_ok nonempty resolves).2.2

theorem stored_createJob {seeded : Option Nat} (accepted : createJob cfg s body seeded now = .ok t)
    (mem : job ∈ t.jobs) (new : s.jobs.get job.id = none) :
    job.projectId = body.projectId ∧
      job.sourcePath = normpath (strip (normpath (followedSource s body))) := by
  obtain ⟨s₁, jobId, drive, sourcePath, resolved, inserted, -, -, -, -, ⟨path, valid, -⟩, overflow⟩ :=
    createJob_eq_ok accepted
  have start : ∀ j ∈ (assignPrimaryDrive s₁ body.projectId drive sourcePath jobId now).jobs,
      s.jobs.get j.id = none → j.projectId = body.projectId ∧ j.sourcePath = sourcePath := by
    intro j hj fresh
    rcases mem_created_jobs inserted hj with ⟨old, -⟩ | rfl
    · exact absurd rfl (get_eq_none_iff.mp fresh j old)
    · exact ⟨rfl, rfl⟩
  have rows := reserveOverflowDrives_rule (P := fun u => ∀ j ∈ u.jobs, s.jobs.get j.id = none →
    j.projectId = body.projectId ∧ j.sourcePath = sourcePath) (fun _ _ h _ _ _ _ => h) start overflow
  rw [← resolveJobSourcePath_eq_ok path]
  exact ⟨(rows job mem new).1, (rows job mem new).2.trans valid⟩

/-- The paths of an edit: the one it would store, and the one a started job has. -/
theorem updatePlan_source {jobId : Nat} {plan : UpdatePlan}
    (planned : updatePlan cfg s jobId body = .ok plan) :
    s.jobs.get jobId = some plan.job ∧ plan.job.projectId = body.projectId ∧
      plan.limited = decide (plan.job.status ∈ startedJobEditableStatuses) ∧
      plan.sourcePath = normpath (strip (normpath (followedSource s body))) ∧
      (plan.limited = true → plan.job.sourcePath = normpath (followedSource s body)) := by
  simp only [updatePlan, bind_eq_ok, orReject_eq_ok, ensure_eq_ok, orInvalid_eq_ok] at planned
  obtain ⟨job, found, -, -, -, -, -, project, resolved, path, requested, -, -, -, -, keeps, drive, -,
    -, -, -, -, -, -, -, -, sourcePath, valid, planned⟩ := planned
  have same : plan = ⟨job, decide (job.status ∈ startedJobEditableStatuses),
      s.getActiveForJob jobId, drive, sourcePath⟩ := by
    split at planned
    · exact (pure_eq_ok.mp planned).symm
    · simp only [bind_eq_ok, pure_eq_ok] at planned
      exact planned.choose_spec.2.symm
  subst same
  rw [← resolveJobSourcePath_eq_ok path]
  refine ⟨found, project.symm, rfl, validateSourcePath_eq_ok valid, fun limited => ?_⟩
  have keeps := keeps limited
  simp only [keepsStartedFields, decide_eq_true_eq] at keeps
  exact keeps.2.2.1.symm

theorem stored_updateJob {jobId : Nat} (accepted : updateJob cfg s jobId body now = .ok t)
    (row : t.jobs.get jobId = some job) :
    job.projectId = body.projectId ∧
      job.sourcePath = normpath ((SourceRequest.update jobId).namedSource s body) := by
  simp only [updateJob, bind_eq_ok, pure_eq_ok] at accepted
  obtain ⟨plan, planned, reserved, reserves, rfl⟩ := accepted
  have jobs : reserved.jobs = s.jobs := by
    refine (reserveAddedOverflow_rule (P := fun _ u => u.jobs = s.jobs) (Q := fun _ => True) trivial
      (fun _ _ _ _ _ _ _ _ => trivial) (fun _ _ _ h => h) (fun _ _ _ h _ _ _ _ _ _ => h)
      (keptAssignments_jobs s plan jobId body now)).1 reserved reserves
  obtain ⟨found, project, limited, edited, kept⟩ := updatePlan_source planned
  have written : job = updatedJob plan body plan.job := by
    have rows : (finishUpdate reserved plan jobId body).jobs =
        ((reserved.setDriveState plan.drive.id .inUse).modifyJob jobId (updatedJob plan body)
          (updatedJob_id plan body)).jobs := by
      rw [finishUpdate]
      split <;> rfl
    have unchanged : (reserved.setDriveState plan.drive.id .inUse).jobs = s.jobs := jobs
    rw [rows, Db.get_modifyJob, unchanged, found] at row
    exact (Option.some.inj row).symm
  subst written
  refine ⟨(updatedJob_projectId plan body plan.job).trans project, ?_⟩
  rw [SourceRequest.namedSource, SourceRequest.revalidates, found, Option.all_some]
  cases started : plan.limited with
  | true =>
      rw [started] at limited
      have path : (updatedJob plan body plan.job).sourcePath = plan.job.sourcePath := by
        simp [updatedJob, started]
      rw [path, kept started, if_neg (by simpa using limited.symm)]
  | false =>
      rw [started] at limited
      have path : (updatedJob plan body plan.job).sourcePath = plan.sourcePath := by
        simp only [updatedJob, started, Bool.false_eq_true, if_false]
        split <;> rfl
      rw [path, edited, if_pos (by simpa using limited.symm)]

end Stored

/-- The source of a created or edited job lies in no share of another project
if and only if the path of the request leads into none. -/
theorem sourceIsolated_iff {cfg : Settings} {s t : Db} {body : JobBody} {now : Nat}
    {request : SourceRequest} {job : ExportJob} (accepted : request.perform cfg s body now = .ok t)
    (stored : request.Job s t job) :
    SourceIsolated s.shares job ↔ ∀ share ∈ s.shares, share.projectId ≠ body.projectId →
      ¬ Contains share.localMountPoint (request.namedSource s body) := by
  have row : job.projectId = body.projectId ∧
      job.sourcePath = normpath (request.namedSource s body) := by
    cases request with
    | create seeded => exact stored_createJob accepted stored.1 stored.2
    | update jobId => exact stored_updateJob accepted stored
  rw [SourceIsolated, row.1, row.2]
  simp only [contains_normpath]

/-- A job of `P` with this source on the share of `P`, or with an absolute source. -/
def sourceBody (source : String) (mountId : Option Nat) : JobBody :=
  { Lab.body source (some 1) none with mountId := mountId }

/-- The database and the job after the creation of such a job. -/
def createdWith (source : String) (mountId : Option Nat) : Db :=
  settle (createJob Lab.settings Lab.start (sourceBody source mountId) none 1)

theorem sourceIsolated_docs :
    ∃ job, (SourceRequest.create none).Job Lab.start (createdWith "docs" (some 1)) job ∧
      job.sourcePath = "/nfs/p/docs".toList ∧ SourceIsolated Lab.start.shares job := by
  have accepted : (SourceRequest.create none).perform Lab.settings Lab.start
      (sourceBody "docs" (some 1)) 1 = .ok (createdWith "docs" (some 1)) := rfl
  have created : ∃ job ∈ (createdWith "docs" (some 1)).jobs, Lab.start.jobs.get job.id = none ∧
      job.sourcePath = "/nfs/p/docs".toList := by decide
  obtain ⟨job, mem, new, path⟩ := created
  exact ⟨job, ⟨mem, new⟩, path, (sourceIsolated_iff accepted ⟨mem, new⟩).mpr (by decide)⟩

/-- The job belongs to `P` and copies the share of `Q`. -/
theorem createJob_copies_foreign_share :
    ¬ ∀ (cfg : Settings) (s t : Db) (body : JobBody) (now : Nat) (request : SourceRequest)
        (job : ExportJob), request.perform cfg s body now = .ok t → request.Job s t job →
        SourceIsolated s.shares job := by
  intro isolated
  have created : ∃ job ∈ (createdWith "/nfs/q/case" none).jobs, Lab.start.jobs.get job.id = none ∧
      ∃ share ∈ Lab.start.shares, share.projectId ≠ job.projectId ∧
        Contains share.localMountPoint job.sourcePath := by decide
  obtain ⟨job, mem, new, share, hshare, foreign, inside⟩ := created
  exact isolated Lab.settings Lab.start _ (sourceBody "/nfs/q/case" none) 1 (.create none) job rfl
    ⟨mem, new⟩ share hshare foreign inside

/-- So does one that names the share of `P` and climbs out of it. -/
example : ∃ job ∈ (createdWith "/nfs/p/../q/case" (some 1)).jobs,
    job.projectId = Lab.projectP ∧ job.sourcePath = "/nfs/q/case".toList := by
  decide

end Ecube
