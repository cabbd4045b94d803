import Ecube.Invariants.Moved

/-!
Jobs that share a drive do not copy overlapping directories.

`DisjointSources`: two unfinished jobs that hold one drive have source paths of
which neither contains the other. Creations, edits and continuations compare the
paths on the drive they write to; starts, retries and verifications, which bring
finished jobs back, compare nothing. `SourcesChecked` lists what a run has to
satisfy beyond the checks of the services, and `disjointSources_of_checked` says
that this is enough.
-/

namespace Ecube

open Table Transition

/-- The job holds the drive by an unreleased assignment. -/
def HoldsDrive (s : Db) (jobId driveId : Nat) : Prop :=
  ∃ a ∈ s.assignments, a.jobId = jobId ∧ a.driveId = driveId ∧ a.releasedAt = none

/-- No other unfinished job on the drive has a source that overlaps `path`. -/
def ClearOn (s : Db) (jobId : Nat) (path : Str) (driveId : Nat) : Prop :=
  ∀ j ∈ s.jobs, j.id ≠ jobId → j.status ∈ activeSourceOverlapStatuses → HoldsDrive s j.id driveId →
    ¬ Nested j.sourcePath path

/-- The same for every drive the job holds. -/
def Clear (s : Db) (jobId : Nat) (path : Str) : Prop :=
  ∀ driveId, HoldsDrive s jobId driveId → ClearOn s jobId path driveId

/-- Two different unfinished jobs that hold one drive have sources of which
neither contains the other. -/
def DisjointSources (s : Db) : Prop :=
  ∀ j ∈ s.jobs, j.status ∈ activeSourceOverlapStatuses → Clear s j.id j.sourcePath

/-- The comparison of the source paths on the drive tells overlapping ones apart. -/
def Recognised (s : Db) (jobId : Option Nat) (path : Str) (driveId : Nat) : Prop :=
  ∀ j ∈ s.jobs, some j.id ≠ jobId → j.status ∈ activeSourceOverlapStatuses →
    HoldsDrive s j.id driveId → classifySourcePathOverlap j.sourcePath path = .none →
    ¬ Nested j.sourcePath path

/-- The edit lists an overflow drive that is not bound to the project of the job. -/
def ListsForeign (s : Db) (plan : UpdatePlan) (body : JobBody) : Prop :=
  ∃ d ∈ s.drives, d.id ∈ body.overflowDriveIds ∧ d.currentProjectId ≠ some plan.job.projectId

/-- What keeps the sources apart besides the checks of the services. -/
def SourcesChecked (cfg : Settings) (s : Db) (a : Action) : Prop :=
  match a.event with
  -- The comparison on the primary drive recognises the overlap.
  | .createJob body _ => ∀ resolved drive, resolveJobSourcePath cfg s body = .ok resolved →
      primaryDrive s s body = .ok drive → Recognised s none (normalizePath resolved) drive.id
  -- So does an edit's, which makes it for the primary drive and the new path only.
  | .updateJob jobId body => ∀ plan, updatePlan cfg s jobId body = .ok plan →
      plan.limited = false →
      Recognised s (some jobId) plan.sourcePath plan.drive.id ∧
      (∀ d ∈ body.overflowDriveIds, HoldsDrive s jobId d → ClearOn s jobId plan.sourcePath d) ∧
      (ListsForeign s plan body → ClearOn s jobId plan.job.sourcePath plan.drive.id)
  -- A job that is brought back, or whose path is revalidated, is clear on its drives.
  | .startJob jobId _ => ∀ job path, startableJob cfg s jobId = .ok (job, path) →
      (Accepted cfg s a ∨ job.status ∈ activeSourceOverlapStatuses) → Clear s jobId path
  | .retryFailedFiles jobId => ∀ job, s.jobs.get jobId = some job → Accepted cfg s a →
      Clear s jobId (normalizePath job.sourcePath)
  | .verifyJob jobId => ∀ job, s.jobs.get jobId = some job → Accepted cfg s a →
      Clear s jobId job.sourcePath
  -- A continuation leaves the drive of the active assignment.
  | .continueJobOverflow jobId _ _ => ∀ job, s.jobs.get jobId = some job →
      (Accepted cfg s a → ∀ b ∈ s.assignments, b.jobId = jobId → b.reserved = true →
        ClearOn s jobId (normalizePath job.sourcePath) b.driveId) ∧
      (job.status ∈ activeSourceOverlapStatuses → ¬ Accepted cfg s a →
        Clear s jobId (normalizePath job.sourcePath))
  | _ => True

instance (s : Db) (jobId driveId : Nat) : Decidable (HoldsDrive s jobId driveId) :=
  inferInstanceAs (Decidable (∃ a ∈ s.assignments, _))

instance (s : Db) (jobId : Nat) (path : Str) (driveId : Nat) :
    Decidable (ClearOn s jobId path driveId) :=
  inferInstanceAs (Decidable (∀ j ∈ s.jobs, _))

namespace DisjointSources

variable {cfg : Settings} {s t : Db}

/-- At most the job `k` is new, brought back or on other drives, and it is clear
of the jobs as they were. -/
theorem of_one (disjoint : DisjointSources s) (k : Nat)
    (others : ∀ j' ∈ t.jobs, j'.id ≠ k → j'.status ∈ activeSourceOverlapStatuses →
      ∃ j ∈ s.jobs, j.id = j'.id ∧ j.sourcePath = j'.sourcePath ∧
        j.status ∈ activeSourceOverlapStatuses)
    (held : ∀ j d, j ≠ k → HoldsDrive t j d → HoldsDrive s j d)
    (mine : ∀ j' ∈ t.jobs, j'.id = k → j'.status ∈ activeSourceOverlapStatuses →
      ∀ d, HoldsDrive t k d → ClearOn s k j'.sourcePath d) : DisjointSources t := by
  intro i hi activeI d heldI j hj other activeJ heldJ
  by_cases mineI : i.id = k
  · have otherJ : j.id ≠ k := fun same => other (same.trans mineI.symm)
    obtain ⟨j₀, hj₀, id, path, active⟩ := others j hj otherJ activeJ
    rw [← path]
    exact mine i hi mineI activeI d (mineI ▸ heldI) j₀ hj₀ (id.trans_ne otherJ) active
      (id ▸ held j.id d otherJ heldJ)
  · obtain ⟨i₀, hi₀, id, path, active⟩ := others i hi mineI activeI
    have heldI₀ : HoldsDrive s i₀.id d := id ▸ held i.id d mineI heldI
    by_cases mineJ : j.id = k
    · intro nested
      refine mine j hj mineJ activeJ d (mineJ ▸ heldJ) i₀ hi₀ (id.trans_ne mineI) active heldI₀ ?_
      exact path ▸ nested.symm
    · obtain ⟨j₀, hj₀, idJ, pathJ, activeJ₀⟩ := others j hj mineJ activeJ
      rw [← path, ← pathJ]
      exact disjoint i₀ hi₀ active d heldI₀ j₀ hj₀ (fun same => other (by rw [← idJ, same, id]))
        activeJ₀ (idJ ▸ held j.id d mineJ heldJ)

/-- Unfinished jobs keep their paths and hold no other drives. -/
theorem of_rows (disjoint : DisjointSources s)
    (jobs : ∀ j' ∈ t.jobs, j'.status ∈ activeSourceOverlapStatuses →
      ∃ j ∈ s.jobs, j.id = j'.id ∧ j.sourcePath = j'.sourcePath ∧
        j.status ∈ activeSourceOverlapStatuses)
    (held : ∀ b ∈ t.assignments, b.releasedAt = none → b ∈ s.assignments) :
    DisjointSources t := by
  have holds : ∀ k d, HoldsDrive t k d → HoldsDrive s k d :=
    fun k d ⟨b, hb, job, drive, open_⟩ => ⟨b, held b hb open_, job, drive, open_⟩
  refine disjoint.of_one 0 (fun j' hj' _ => jobs j' hj') (fun k d _ => holds k d) ?_
  intro j' hj' same active d heldHere
  obtain ⟨j, hj, id, path, active⟩ := jobs j' hj' active
  rw [← path, ← same, ← id]
  refine disjoint j hj active d (holds _ d ?_)
  rw [id, same]
  exact heldHere

theorem driveWrites {a : Action} (disjoint : DisjointSources s) (w : DriveWrites cfg a s t) :
    DisjointSources t :=
  disjoint.of_rows (fun j' hj' active => ⟨j', w.jobs ▸ hj', rfl, rfl, active⟩)
    fun _ hb _ => w.assignments ▸ hb

/-- What the guard says about a job that is brought back. -/
theorem clear_of_reopened {a : Action} {j j' : ExportJob} (guard : SourcesChecked cfg s a)
    (hj : j ∈ s.jobs) (reopened : Reopened cfg s a j j')
    (active : j'.status ∈ activeSourceOverlapStatuses) : Clear s j.id j'.sourcePath := by
  have found : s.jobs.get j.id = some j := get_eq_some_iff.mpr ⟨hj, rfl⟩
  cases reopened with
  | start event startable accepted =>
      rw [SourcesChecked, event] at guard
      refine guard j _ startable (accepted.imp_right fun same => ?_)
      rw [← same]
      exact active
  | retry event accepted path =>
      rw [SourcesChecked, event] at guard
      exact path ▸ guard j found accepted
  | verify event accepted path =>
      rw [SourcesChecked, event] at guard
      exact path ▸ guard j found accepted
  | refused event rejected status path =>
      rw [SourcesChecked, event] at guard
      rw [path]
      exact (guard j found).2 (status ▸ active) rejected

/-- The job a request brings back or revalidates. -/
def reopens : Event → Option Nat
  | .startJob jobId _ | .retryFailedFiles jobId | .verifyJob jobId
  | .continueJobOverflow jobId _ _ => some jobId
  | _ => none

theorem reopens_of_reopened {a : Action} {j j' : ExportJob} (h : Reopened cfg s a j j') :
    reopens a.event = some j.id := by
  cases h with
  | start event | retry event | verify event | refused event =>
      rw [event]
      rfl

theorem jobWrites {a : Action} (disjoint : DisjointSources s) (guard : SourcesChecked cfg s a)
    (w : JobWrites cfg a s t) : DisjointSources t := by
  have held : ∀ k d, HoldsDrive t k d → HoldsDrive s k d := by
    intro k d h
    rw [HoldsDrive, w.assignments] at h
    exact h
  refine disjoint.of_one ((reopens a.event).getD 0) (fun j' hj' other active => ?_)
    (fun k d _ => held k d) fun j' hj' same active d heldHere => ?_
  · obtain ⟨j, hj, write⟩ := w.jobs j' hj'
    rcases write.source with ⟨path, kept⟩ | reopened
    · exact ⟨j, hj, write.id.symm, path.symm, kept active⟩
    · rw [reopens_of_reopened reopened] at other
      exact absurd write.id other
  · obtain ⟨j, hj, write⟩ := w.jobs j' hj'
    have clear : Clear s j.id j'.sourcePath := by
      rcases write.source with ⟨path, kept⟩ | reopened
      · rw [path]
        exact disjoint j hj (kept active)
      · exact clear_of_reopened guard hj reopened active
    rw [← same, write.id] at heldHere ⊢
    exact clear d (held _ d heldHere)

/-! ### New assignments -/

/-- A reservation of a drive that no other job holds. -/
theorem reserve (disjoint : DisjointSources s) {driveId jobId now : Nat}
    (free : ∀ a ∈ s.assignments, a.releasedAt = none → a.driveId = driveId → a.jobId = jobId) :
    DisjointSources ((s.addAssignment driveId jobId now none).setDriveState driveId .inUse) := by
  refine disjoint.of_one jobId (fun j hj _ active => ⟨j, hj, rfl, rfl, active⟩)
    (fun k d other held => ?_) fun j hj mine active d held => ?_
  · obtain ⟨b, hb, job, drive, open_⟩ := held
    rcases Db.mem_addAssignment.mp hb with hb | rfl
    · exact ⟨b, hb, job, drive, open_⟩
    · exact absurd job.symm other
  · obtain ⟨b, hb, job, drive, open_⟩ := held
    rcases Db.mem_addAssignment.mp hb with hb | rfl
    · rw [← mine]
      exact disjoint j hj active d ⟨b, hb, mine ▸ job, drive, open_⟩
    · rintro i - other - ⟨c, hc, owner, same, heldC⟩
      exact absurd (owner.symm.trans (free c hc heldC (same.trans drive.symm))) other

/-- The check on a drive lets no unfinished job pass that it classifies as overlapping. -/
theorem classified_of_accepted {committed : Db} {driveId : Nat} {path : Str} {exclude : Option Nat}
    (h : rejectSourcePathOverlap committed s driveId path exclude = .ok ()) {j : ExportJob}
    (hj : j ∈ s.jobs) (other : some j.id ≠ exclude)
    (active : j.status ∈ activeSourceOverlapStatuses) (held : HoldsDrive s j.id driveId) :
    classifySourcePathOverlap j.sourcePath path = .none := by
  have listed : j ∈ s.listAssignedJobsForDrive driveId nonArchivedDuplicateStatuses := by
    obtain ⟨b, hb, job, drive, open_⟩ := held
    refine mem_select.mpr ⟨hj, ?_⟩
    have assigned : s.assignments.any (fun a =>
        a.jobId = j.id ∧ a.driveId = driveId ∧ a.releasedAt = none) = true :=
      any_eq_true_iff.mpr ⟨b, hb, by simp [job, drive, open_]⟩
    simp only [assigned, and_true, decide_eq_true_eq]
    exact List.mem_append_left _ active
  rw [rejectSourcePathOverlap] at h
  split at h
  · rename_i none_
    have passed := List.find?_eq_none.mp none_ j listed
    simp only [other, ne_eq, not_false_eq_true, true_and, decide_eq_true_eq, Bool.not_eq_true,
      sourceOverlaps] at passed
    split at passed
    · assumption
    · cases passed
    · simp [active] at passed
  · cases h

theorem createJob (disjoint : DisjointSources s) (inv : Consistent s) {body : JobBody}
    {seeded : Option Nat} {now : Nat} (h : createJob cfg s body seeded now = .ok t)
    (recognised : ∀ resolved drive, resolveJobSourcePath cfg s body = .ok resolved →
      primaryDrive s s body = .ok drive → Recognised s none (normalizePath resolved) drive.id) :
    DisjointSources t := by
  obtain ⟨s₁, jobId, drive, sourcePath, resolved, inserted, primary, -, -, -,
    ⟨path, rfl, compared⟩, overflow⟩ := createJob_eq_ok h
  obtain ⟨⟨jobs, rfl⟩, mem, fresh⟩ := insertJob_eq_ok inserted
  refine reserveOverflowDrives_rule (fun u d hu _ _ _ free => hu.reserve fun a ha held same =>
    absurd same (free a ha held)) ?_ overflow
  refine disjoint.of_one jobId (fun j' hj' other active => ?_) (fun k d other held => ?_)
    fun j' hj' mine active d held => ?_
  · rcases mem_created_jobs inserted hj' with ⟨hj, -⟩ | rfl
    · exact ⟨j', hj, rfl, rfl, active⟩
    · exact absurd rfl other
  · obtain ⟨b, hb, job, drive, open_⟩ := held
    rcases Db.mem_addAssignment.mp hb with hb | rfl
    · exact ⟨b, hb, job, drive, open_⟩
    · exact absurd job.symm other
  · obtain ⟨b, hb, job, same, open_⟩ := held
    have path' : j'.sourcePath = normalizePath resolved := by
      rcases mem_created_jobs inserted hj' with ⟨-, other⟩ | rfl
      · exact absurd mine other
      · rfl
    rcases Db.mem_addAssignment.mp hb with hb | rfl
    · -- No assignment of the new key is older than the job.
      obtain ⟨r, hr, owner⟩ := inv.job b hb
      exact absurd (owner.trans job) (fresh r hr)
    · rw [path', ← same]
      intro j hj _ activeJ heldJ
      refine recognised resolved drive path primary j hj (by simp) activeJ heldJ ?_
      exact classified_of_accepted compared ((mem j).mpr (.inl hj)) (by simp) activeJ heldJ

/-! ### Editing a job -/

/-- The source path an edit gives the job. -/
def editedPath (plan : UpdatePlan) (job : ExportJob) : Str :=
  if plan.limited then job.sourcePath else plan.sourcePath

theorem updatedJob_sourcePath (plan : UpdatePlan) (body : JobBody) (job : ExportJob) :
    (updatedJob plan body job).sourcePath = editedPath plan job := by
  simp only [updatedJob, editedPath]
  split
  · rfl
  · split <;> rfl

/-- An edit on its way: apart with the path it will give the job, and apart with
the old one where it may be refused after its first writes. -/
structure Editing (s : Db) (jobId : Nat) (body : JobBody) (plan : UpdatePlan) (rest : List Nat)
    (t : Db) : Prop where
  listed : rest ⊆ body.overflowDriveIds
  bindings : ∀ d' ∈ t.drives, ∃ d ∈ s.drives, d.id = d'.id ∧
    d'.currentProjectId = d.currentProjectId
  edited : DisjointSources
    (t.modifyJob jobId (fun j => { j with sourcePath := editedPath plan j }) fun _ => rfl)
  old : ListsForeign s plan body → DisjointSources t

section Kept

variable {jobId now : Nat} {body : JobBody} {plan : UpdatePlan}

theorem holds_of_keptAssignments (checked : UpdateChecked s jobId body plan) {k d : Nat}
    (other : k ≠ jobId) (held : HoldsDrive (keptAssignments s plan jobId body now) k d) :
    HoldsDrive s k d := by
  obtain ⟨b, hb, job, drive, open_⟩ := held
  rcases held_of_keptAssignments hb open_ with ⟨hb, -⟩ | ⟨-, -, rfl⟩
  · exact ⟨b, hb, job, drive, open_⟩
  · exact absurd (job.symm.trans (id_of_get checked.job)) other

/-- The check of an edit clears the requested path on the primary drive. -/
theorem clear_of_checked (checked : UpdateChecked s jobId body plan) (pending : plan.limited = false)
    (recognised : Recognised s (some jobId) plan.sourcePath plan.drive.id) :
    ClearOn s jobId plan.sourcePath plan.drive.id := by
  intro j hj other active held
  have different : some j.id ≠ some jobId := fun same => other (Option.some.inj same)
  exact recognised j hj different active held
    (classified_of_accepted (checked.apart pending) hj different active held)

/-- The job is clear with its new path on the drives it holds after the edit. -/
theorem clear_editedPath (disjoint : DisjointSources s) (inv : Consistent s)
    (checked : UpdateChecked s jobId body plan)
    (active : plan.job.status ∈ activeSourceOverlapStatuses)
    (primary : plan.limited = false → ClearOn s jobId plan.sourcePath plan.drive.id)
    (overflow : plan.limited = false →
      ∀ d ∈ body.overflowDriveIds, HoldsDrive s jobId d → ClearOn s jobId plan.sourcePath d)
    {d : Nat} (held : HoldsDrive (keptAssignments s plan jobId body now) jobId d) :
    ClearOn s jobId (editedPath plan plan.job) d := by
  obtain ⟨b, hb, job, drive, open_⟩ := held
  rw [editedPath]
  rcases held_of_keptAssignments hb open_ with ⟨hb, listed, moved⟩ | ⟨pending, -, rfl⟩
  · cases pending : plan.limited with
    | true =>
        have kept := disjoint plan.job (mem_of_get checked.job) active d
        rw [show plan.job.id = jobId from id_of_get checked.job] at kept
        exact kept ⟨b, hb, job, drive, open_⟩
    | false =>
        rw [if_neg (by simp)]
        by_cases active : b.active = true
        · -- The only active assignment left is the one on the requested drive.
          cases current : s.getActiveForJob jobId with
          | none =>
              have := first_eq_none_iff.mp current b hb
              simp [job, active] at this
          | some c =>
              obtain rfl := inv.eq_of_active current hb job active
              rw [← drive, (moved.resolve_left (by simp [pending])) b
                (checked.current.trans current) rfl]
              exact primary pending
        · have reserved := DriveAssignment.reserved_of_not_active open_ active
          exact overflow pending d (drive ▸ listed job reserved) ⟨b, hb, job, drive, open_⟩
  · rw [if_neg (by simp [pending]), ← drive]
    exact primary pending

theorem Editing.kept (disjoint : DisjointSources s) (inv : Consistent s)
    (checked : UpdateChecked s jobId body plan)
    (guard : plan.limited = false →
      Recognised s (some jobId) plan.sourcePath plan.drive.id ∧
      (∀ d ∈ body.overflowDriveIds, HoldsDrive s jobId d → ClearOn s jobId plan.sourcePath d) ∧
      (ListsForeign s plan body → ClearOn s jobId plan.job.sourcePath plan.drive.id)) :
    Editing s jobId body plan body.overflowDriveIds (keptAssignments s plan jobId body now) := by
  refine ⟨fun _ h => h, fun d' hd' => ?_, ?_, fun foreign => ?_⟩
  · obtain ⟨d, hd, kept⟩ := drives_of_keptAssignments checked hd'
    exact ⟨d, hd, kept.id, kept.project⟩
  · refine disjoint.of_one jobId (fun j' hj' other active => ?_)
      (fun k d other => holds_of_keptAssignments checked other) fun j' hj' mine active d held => ?_
    · rcases Db.mem_modifyJob.mp hj' with ⟨hj, -⟩ | ⟨j, -, same, rfl⟩
      · exact ⟨j', keptAssignments_jobs .. ▸ hj, rfl, rfl, active⟩
      · exact absurd same other
    · rcases Db.mem_modifyJob.mp hj' with ⟨-, other⟩ | ⟨j, hj, same, rfl⟩
      · exact absurd mine other
      · rw [keptAssignments_jobs] at hj
        obtain rfl := eq_of_get checked.job hj same
        exact clear_editedPath disjoint inv checked active
          (fun pending => clear_of_checked checked pending (guard pending).1)
          (fun pending => (guard pending).2.1) held
  · refine disjoint.of_one jobId (fun j' hj' _ active => ?_)
      (fun k d other => holds_of_keptAssignments checked other) fun j' hj' mine active d held => ?_
    · exact ⟨j', keptAssignments_jobs .. ▸ hj', rfl, rfl, active⟩
    · obtain ⟨b, hb, job, drive, open_⟩ := held
      rw [keptAssignments_jobs] at hj'
      obtain rfl := eq_of_get checked.job hj' mine
      have kept := disjoint plan.job hj' active d
      rw [mine] at kept
      rcases held_of_keptAssignments hb open_ with ⟨hb, -, -⟩ | ⟨pending, -, rfl⟩
      · exact kept ⟨b, hb, job, drive, open_⟩
      · rw [← drive]
        exact (guard pending).2.2 foreign

end Kept

theorem Editing.reserve {jobId now driveId owner : Nat} {body : JobBody} {plan : UpdatePlan}
    {rest : List Nat} (h : Editing s jobId body plan (driveId :: rest) t)
    (free : ∀ a ∈ t.assignments, a.releasedAt = none → a.driveId = driveId → a.jobId = owner) :
    Editing s jobId body plan rest
      ((t.addAssignment driveId owner now none).setDriveState driveId .inUse) where
  listed x hx := h.listed (List.mem_cons_of_mem _ hx)
  bindings d' hd' := by
    rcases Db.mem_setDriveState.mp hd' with ⟨hd, -⟩ | ⟨d, hd, -, rfl⟩
    · exact h.bindings d' hd
    · exact h.bindings d hd
  edited := h.edited.reserve free
  old foreign := (h.old foreign).reserve free

theorem Editing.finish {jobId : Nat} {body : JobBody} {plan : UpdatePlan}
    (h : Editing s jobId body plan [] t) : DisjointSources (finishUpdate t plan jobId body) := by
  have written : DisjointSources ((t.setDriveState plan.drive.id .inUse).modifyJob jobId
      (updatedJob plan body) (updatedJob_id plan body)) := by
    refine h.edited.of_rows (fun j' hj' active => ?_) fun b hb _ => hb
    rcases Db.mem_modifyJob.mp hj' with ⟨hj, other⟩ | ⟨j, hj, same, rfl⟩
    · exact ⟨j', Db.mem_modifyJob.mpr (.inl ⟨hj, other⟩), rfl, rfl, active⟩
    · refine ⟨_, Db.mem_modifyJob.mpr (.inr ⟨j, hj, same, rfl⟩), ?_, ?_, ?_⟩
      · exact (updatedJob_id plan body j).symm
      · exact (updatedJob_sourcePath plan body j).symm
      · rw [updatedJob_status] at active
        exact active
  rw [finishUpdate]
  split <;> exact written

theorem updateJob (disjoint : DisjointSources s) (inv : Consistent s) {jobId now : Nat}
    {body : JobBody} (guard : SourcesChecked cfg s ⟨now, .updateJob jobId body⟩) :
    (∀ s', updateJob cfg s jobId body now = .ok s' → DisjointSources s') ∧
      Leaves DisjointSources (updateJob cfg s jobId body now) := by
  refine updateJob_rule (P := fun plan rest t => Editing s jobId body plan rest t) disjoint
    (fun plan _ _ driveId rest t d h found bound other => ?_) (fun plan driveId rest t h => ?_)
    (fun plan planned checked => .kept disjoint inv checked (guard plan planned))
    (fun plan _ rest t d h _ _ _ _ _ free => h.reserve free) fun plan _ t h => h.finish
  · -- The refusal of a foreign drive commits what has been written.
    obtain ⟨d₀, hd₀, id, project⟩ := h.bindings d (mem_of_get found)
    refine h.old ⟨d₀, hd₀, ?_, project ▸ other⟩
    rw [id, show d.id = driveId from id_of_get found]
    exact h.listed List.mem_cons_self
  · exact ⟨fun x hx => h.listed (List.mem_cons_of_mem _ hx), h.bindings, h.edited, h.old⟩

/-! ### The other operations -/

theorem deleteJob (disjoint : DisjointSources s) {jobId : Nat} (h : deleteJob s jobId = .ok t) :
    DisjointSources t := by
  have rows := deleted_of_deleteJob h
  refine disjoint.of_rows (fun j' hj' active => ⟨j', ?_, rfl, rfl, active⟩) fun b hb _ => ?_
  · exact ((rows.jobs j').mp hj').1
  · exact ((rows.assignments b).mp hb).1

/-- A job that moves to a drive on which it is clear, and is clear on the drives
it has reserved. -/
theorem moved (disjoint : DisjointSources s) {job : ExportJob} {active : DriveAssignment}
    {drive : UsbDrive} {status : JobStatus} {bound : Option ProjectId} {freed : Prop}
    (m : Moved s t job active drive status bound freed)
    (target : ∀ j' ∈ t.jobs, j'.id = job.id → ClearOn s job.id j'.sourcePath drive.id)
    (reserved : ∀ j' ∈ t.jobs, j'.id = job.id → ∀ b ∈ s.assignments, b.jobId = job.id →
      b.reserved = true → ClearOn s job.id j'.sourcePath b.driveId) : DisjointSources t := by
  refine disjoint.of_one job.id (fun j' hj' other active => ?_) (fun k d other held => ?_)
    fun j' hj' mine _ d held => ?_
  · rcases m.jobs j' hj' with ⟨hj, -⟩ | ⟨same, -⟩
    · exact ⟨j', hj, rfl, rfl, active⟩
    · exact absurd same other
  · obtain ⟨b, hb, owner, same, open_⟩ := held
    rcases m.held b hb open_ with ⟨hb, -⟩ | ⟨theirs, -⟩
    · exact ⟨b, hb, owner, same, open_⟩
    · exact absurd (owner.symm.trans theirs) other
  · obtain ⟨b, hb, owner, same, open_⟩ := held
    rcases m.held b hb open_ with ⟨hb, -, inactive⟩ | ⟨-, here, -⟩
    · rw [← same]
      refine reserved j' hj' mine b hb owner (DriveAssignment.reserved_of_not_active open_ ?_)
      rw [(inactive owner).1]
      decide
    · rw [← same, here]
      exact target j' hj' mine

/-- One action. -/
theorem step {a : Action} (disjoint : DisjointSources s) (inv : Consistent s)
    (guard : SourcesChecked cfg s a) : DisjointSources (step cfg s a) := by
  refine step_moved inv (fun t w => disjoint.jobWrites guard w) (fun t w => disjoint.driveWrites w)
    (fun body seeded s' event h => disjoint.createJob inv h ?_) (fun jobId body event => ?_)
    (fun jobId s' _ h => disjoint.deleteJob h)
    (fun jobId driveId threadCount s' plan event accepted checked m => ?_)
    fun jobId probe job active next drive s' event continues found m => ?_
  · rw [SourcesChecked, event] at guard
    exact guard
  · refine disjoint.updateJob inv ?_
    rw [SourcesChecked, event] at guard
    exact guard
  · have hjob : plan.job.id = jobId := id_of_get checked.job
    have path : ∀ j' ∈ s'.jobs, j'.id = plan.job.id →
        j'.sourcePath = normalizePath plan.job.sourcePath := m.path
    refine disjoint.moved m (fun j' hj' mine => ?_) fun j' hj' mine b hb owner reserved => ?_
    · -- Nobody else holds the new drive.
      rintro i - other - ⟨b, hb, owner, same, open_⟩
      have := checked.free b hb open_ (same.trans (id_of_get checked.drive))
      exact absurd (owner.symm.trans (this.trans hjob.symm)) other
    · rw [SourcesChecked, event] at guard
      rw [path j' hj' mine, hjob]
      exact (guard plan.job checked.job).1 accepted b hb (owner.trans hjob) reserved
  · have hjob : job.id = jobId := id_of_get found.jobRow
    have path : ∀ j' ∈ s'.jobs, j'.id = job.id → j'.sourcePath = job.sourcePath := m.path
    have clear := disjoint job (mem_of_get found.jobRow) (copying_active found.status)
    have open_ := (DriveAssignment.reserved_iff.mp found.reserved).2
    refine disjoint.moved m (fun j' hj' mine => ?_) fun j' hj' mine b hb owner reserved => ?_
    · rw [path j' hj' mine, found.driveId]
      exact clear _ ⟨next, found.nextRow, found.mine.trans hjob.symm, rfl, open_⟩
    · rw [path j' hj' mine]
      exact clear _ ⟨b, hb, owner, rfl, (DriveAssignment.reserved_iff.mp reserved).2⟩

end DisjointSources

/-- In a run that keeps to the unchecked conditions, unfinished jobs that share a
drive have sources of which neither contains the other, in every state. -/
theorem disjointSources_of_checked {cfg : Settings} {s : Db} {actions : List Action}
    (initial : Initial s) (checked : Along (step cfg) (SourcesChecked cfg) s actions) :
    Always (step cfg) DisjointSources s actions := by
  have keep : ∀ s a, DisjointSources s ∧ Consistent s → SourcesChecked cfg s a →
      DisjointSources (step cfg s a) ∧ Consistent (step cfg s a) :=
    fun s a h guard => ⟨h.1.step h.2 guard, h.2.step cfg a⟩
  have start : DisjointSources s ∧ Consistent s :=
    ⟨fun j hj => absurd hj (initial.noJobs j), initial.consistent⟩
  exact (always_of_along keep start checked).mono fun _ h => h.1

/-- A job fails, another one for a directory beside it takes the same drive, and
the first is started again. -/
def siblingRun : List Action :=
  [⟨1, .createJob (Lab.body "/data/a" (some 1) none) none⟩,
    ⟨2, .startJob 1 none⟩,
    ⟨3, .failRun 1 "source unreadable"⟩,
    ⟨4, .createJob (Lab.body "/data/b" (some 1) none) none⟩,
    ⟨5, .startJob 1 none⟩]

theorem disjointSources_siblingRun :
    Along (step Lab.settings) (SourcesChecked Lab.settings) Lab.start siblingRun ∧
      Always (step Lab.settings) DisjointSources Lab.start siblingRun := by
  let after (n : Nat) := exec (step Lab.settings) Lab.start (siblingRun.take n)
  have alone : ∀ j ∈ (after 1).jobs, j.id = 1 := by decide
  have failed : ∀ j ∈ (after 3).jobs, j.status ∉ activeSourceOverlapStatuses := by decide
  have restarted : ∀ job path, startableJob Lab.settings (after 4) 1 = .ok (job, path) →
      path = "/data/a".toList := by
    intro job path startable
    have found : (startableJob Lab.settings (after 4) 1).toOption.map (·.2) =
        some "/data/a".toList := by decide
    rw [startable] at found
    exact Option.some.inj found
  have beside : ∀ j ∈ (after 4).jobs, j.id ≠ 1 → ¬ Nested j.sourcePath "/data/a".toList := by decide
  have checked : Along (step Lab.settings) (SourcesChecked Lab.settings) Lab.start siblingRun := by
    refine ⟨fun _ _ _ _ j hj => absurd hj List.not_mem_nil, fun _ _ _ _ _ _ j hj other => ?_,
      trivial, fun _ _ _ _ j hj _ active => ?_, fun job path startable _ d _ j hj other _ _ => ?_,
      trivial⟩
    · exact absurd (alone j hj) other
    · exact absurd active (failed j hj)
    · rw [restarted job path startable]
      exact beside j hj other
  exact ⟨checked, disjointSources_of_checked Lab.start_initial checked⟩

/-- The same, with a directory below that of the failed job. -/
def nestedRun : List Action :=
  [⟨1, .createJob (Lab.body "/data/a" (some 1) none) none⟩,
    ⟨2, .startJob 1 none⟩,
    ⟨3, .failRun 1 "source unreadable"⟩,
    ⟨4, .createJob (Lab.body "/data/a/x" (some 1) none) none⟩,
    ⟨5, .startJob 1 none⟩]

/-- Every request is accepted, and both jobs are about to copy the inner directory. -/
theorem disjointSources_lost_to_restart :
    Initial Lab.start ∧
      Along (step Lab.settings) (Accepted Lab.settings) Lab.start nestedRun ∧
      ¬ DisjointSources (exec (step Lab.settings) Lab.start nestedRun) := by
  refine ⟨Lab.start_initial, ?_, fun disjoint => ?_⟩
  · decide
  · have apart : ∀ i ∈ (exec (step Lab.settings) Lab.start nestedRun).jobs, i.id = 1 →
        ClearOn (exec (step Lab.settings) Lab.start nestedRun) 1 i.sourcePath 1 := by
      intro i hi mine
      have active : i.status ∈ activeSourceOverlapStatuses := by
        revert i
        decide
      have apart := disjoint i hi active 1
      rw [mine] at apart
      exact apart (by decide)
    revert apart
    decide

end Ecube
