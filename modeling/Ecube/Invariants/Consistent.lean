import Ecube.Writes

/-!
Consistency of the assignment table.

Every assignment belongs to an existing job and drive; a job holds a drive by
at most one unreleased assignment, and has at most one active assignment. The
single writes preserve this under the conditions the operations check.
-/

namespace Ecube

open Table Transition

/-- References exist, and unreleased assignments of a job are told apart by
their drive, active ones not even by that. -/
structure Consistent (s : Db) : Prop where
  job : ∀ a ∈ s.assignments, ∃ j ∈ s.jobs, j.id = a.jobId
  drive : ∀ a ∈ s.assignments, ∃ d ∈ s.drives, d.id = a.driveId
  unique : ∀ a ∈ s.assignments, ∀ b ∈ s.assignments, a.releasedAt = none → b.releasedAt = none →
    a.jobId = b.jobId → (a.driveId = b.driveId ∨ (a.active ∧ b.active)) → a = b

namespace Consistent

variable {s : Db}

/-- Writes to job rows keep the references, whatever they change besides the key. -/
theorem modifyJob (inv : Consistent s) (k : Nat) (f : ExportJob → ExportJob)
    (key : ∀ r, (f r).id = r.id) : Consistent (s.modifyJob k f key) where
  job a ha := Db.exists_modifyJob (inv.job a ha)
  drive := inv.drive
  unique := inv.unique

theorem modifyDrive (inv : Consistent s) (k : Nat) (f : UsbDrive → UsbDrive)
    (key : ∀ r, (f r).id = r.id) : Consistent (s.modifyDrive k f key) where
  job := inv.job
  drive a ha := Db.exists_modifyDrive (inv.drive a ha)
  unique := inv.unique

theorem setDriveState (inv : Consistent s) (k : Nat) (state : DriveState) :
    Consistent (s.setDriveState k state) :=
  inv.modifyDrive k _ _

theorem releaseAssignment (inv : Consistent s) (k now : Nat) :
    Consistent (s.releaseAssignment k now) := by
  have old : ∀ a ∈ (s.releaseAssignment k now).assignments,
      (a ∈ s.assignments ∨ a.releasedAt ≠ none) ∧
        ∃ b ∈ s.assignments, b.jobId = a.jobId ∧ b.driveId = a.driveId := by
    intro a ha
    rcases Db.mem_releaseAssignment.mp ha with ⟨ha, -⟩ | ⟨b, hb, -, rfl⟩
    · exact ⟨.inl ha, a, ha, rfl, rfl⟩
    · exact ⟨.inr (by simp), b, hb, rfl, rfl⟩
  refine ⟨fun a ha => ?_, fun a ha => ?_, fun a ha b hb hra hrb => ?_⟩
  · obtain ⟨-, b, hb, same, -⟩ := old a ha
    rw [← same]
    exact inv.job b hb
  · obtain ⟨-, b, hb, -, same⟩ := old a ha
    rw [← same]
    exact inv.drive b hb
  · have ha := (old a ha).1.resolve_right (not_not.mpr hra)
    have hb := (old b hb).1.resolve_right (not_not.mpr hrb)
    exact inv.unique a ha b hb hra hrb

/-- Rows that were there before stay told apart, and a new one is apart from the
old ones of its job. -/
theorem unique_of_old_or_new (inv : Consistent s) {t : Db} {old new : DriveAssignment → Prop}
    (rows : ∀ a ∈ t.assignments, a.releasedAt = none → (a ∈ s.assignments ∧ old a) ∨ new a)
    (one : ∀ a b, new a → new b → a = b)
    (apart : ∀ a ∈ s.assignments, old a → ∀ b, new b → a.releasedAt = none → b.releasedAt = none →
      a.jobId = b.jobId → a.driveId ≠ b.driveId ∧ (b.active = true → a.active = false)) :
    ∀ a ∈ t.assignments, ∀ b ∈ t.assignments, a.releasedAt = none → b.releasedAt = none →
      a.jobId = b.jobId → (a.driveId = b.driveId ∨ (a.active ∧ b.active)) → a = b := by
  intro a ha b hb hra hrb job clash
  rcases rows a ha hra with ⟨oldA, keptA⟩ | newA <;> rcases rows b hb hrb with ⟨oldB, keptB⟩ | newB
  · exact inv.unique a oldA b oldB hra hrb job clash
  · obtain ⟨other, idle⟩ := apart a oldA keptA b newB hra hrb job
    rcases clash with drive | ⟨active, activated⟩
    · exact absurd drive other
    · rw [idle activated] at active
      cases active
  · obtain ⟨other, idle⟩ := apart b oldB keptB a newA hrb hra job.symm
    rcases clash with drive | ⟨activated, active⟩
    · exact absurd drive.symm other
    · rw [idle activated] at active
      cases active
  · exact one a b newA newB

/-- Activating a reservation of a job without an active assignment. -/
theorem activateAssignment (inv : Consistent s) {r : DriveAssignment} (now : Nat)
    (hr : r ∈ s.assignments) (idle : ∀ b ∈ s.assignments, b.jobId = r.jobId → b.active = false) :
    Consistent (s.activateAssignment r.id now) := by
  have old : ∀ a ∈ (s.activateAssignment r.id now).assignments,
      (a ∈ s.assignments ∧ a.id ≠ r.id) ∨ a = { r with activatedAt := some now } := by
    intro a ha
    rcases Db.mem_activateAssignment.mp ha with ha | ⟨b, hb, same, rfl⟩
    · exact .inl ha
    · rw [eq_of_id_eq hb hr same]
      exact .inr rfl
  refine ⟨fun a ha => ?_, fun a ha => ?_, inv.unique_of_old_or_new (fun a ha _ => old a ha) ?_ ?_⟩
  · rcases old a ha with ⟨ha, -⟩ | rfl
    · exact inv.job a ha
    · exact inv.job r hr
  · rcases old a ha with ⟨ha, -⟩ | rfl
    · exact inv.drive a ha
    · exact inv.drive r hr
  · rintro a b rfl rfl
    rfl
  · rintro a ha ne b rfl hra hrb job
    refine ⟨fun drive => ne ?_, fun _ => idle a ha job⟩
    rw [inv.unique a ha r hr hra hrb job (.inl drive)]

/-- A new assignment on a drive that the job does not hold yet; an active one
for a job without an active assignment. -/
theorem addAssignment (inv : Consistent s) {driveId jobId now : Nat} {activatedAt : Option Nat}
    (hj : ∃ j ∈ s.jobs, j.id = jobId) (hd : ∃ d ∈ s.drives, d.id = driveId)
    (free : ∀ b ∈ s.assignments, b.releasedAt = none → b.jobId = jobId →
      b.driveId ≠ driveId ∧ (activatedAt ≠ none → b.active = false)) :
    Consistent (s.addAssignment driveId jobId now activatedAt) := by
  refine ⟨fun a ha => ?_, fun a ha => ?_, inv.unique_of_old_or_new
    (fun a ha _ => (Db.mem_addAssignment.mp ha).imp_left fun old => ⟨old, trivial⟩) ?_ ?_⟩
  · rcases Db.mem_addAssignment.mp ha with ha | rfl
    · exact inv.job a ha
    · exact hj
  · rcases Db.mem_addAssignment.mp ha with ha | rfl
    · exact inv.drive a ha
    · exact hd
  · rintro a b rfl rfl
    rfl
  · rintro a ha - b rfl hra - job
    obtain ⟨other, idle⟩ := free a ha hra job
    exact ⟨other, fun active => idle (DriveAssignment.active_iff.mp active).1⟩

/-- More jobs do no harm. -/
theorem moreJobs (inv : Consistent s) {jobs : Table ExportJob} (sub : ∀ j ∈ s.jobs, j ∈ jobs) :
    Consistent { s with jobs := jobs } where
  job a ha :=
    have ⟨j, hj, same⟩ := inv.job a ha
    ⟨j, sub j hj, same⟩
  drive := inv.drive
  unique := inv.unique

/-- Deleting a job together with its assignments. -/
theorem deleteJob (inv : Consistent s) (jobId : Nat) (files : Table ExportFile) :
    Consistent { s with
      files := files
      assignments := s.assignments.delete fun a => a.jobId = jobId
      jobs := s.jobs.delete fun j => j.id = jobId } where
  job a ha := by
    obtain ⟨ha, other⟩ := mem_delete.mp ha
    obtain ⟨j, hj, same⟩ := inv.job a ha
    exact ⟨j, mem_delete.mpr ⟨hj, by simpa [same] using other⟩, same⟩
  drive a ha := inv.drive a (mem_delete.mp ha).1
  unique a ha b hb := inv.unique a (mem_delete.mp ha).1 b (mem_delete.mp hb).1

theorem withFiles (inv : Consistent s) (files : Table ExportFile) :
    Consistent { s with files := files } :=
  ⟨inv.job, inv.drive, inv.unique⟩

/-- The active assignment a query returns is the only one. -/
theorem eq_of_active (inv : Consistent s) {jobId : Nat} {a b : DriveAssignment}
    (ha : s.getActiveForJob jobId = some a) (hb : b ∈ s.assignments) (job : b.jobId = jobId)
    (active : b.active = true) : b = a := by
  obtain ⟨mem, hp⟩ := mem_of_first ha
  have hp : a.jobId = jobId ∧ a.active = true := by simpa using hp
  exact inv.unique b hb a mem (DriveAssignment.active_iff.mp active).2
    (DriveAssignment.active_iff.mp hp.2).2 (job.trans hp.1.symm) (.inr ⟨active, hp.2⟩)

/-! ### The operations -/

theorem insertJob (inv : Consistent s) {s₁ : Db} {row : Nat → ExportJob}
    {key : ∀ k, (row k).id = k} {seeded : Option Nat} {jobId : Nat}
    (h : insertJob s row key seeded = .ok (s₁, jobId)) : Consistent s₁ := by
  obtain ⟨⟨jobs, rfl⟩, mem, -⟩ := insertJob_eq_ok h
  exact inv.moreJobs fun j hj => (mem j).mpr (.inl hj)

/-- A reservation on a drive that nobody holds. -/
theorem reserve (inv : Consistent s) {d : UsbDrive} {jobId now : Nat}
    (hj : ∃ j ∈ s.jobs, j.id = jobId) (hd : d ∈ s.drives)
    (free : ∀ a ∈ s.assignments, a.releasedAt = none → a.jobId = jobId → a.driveId ≠ d.id) :
    Consistent ((s.addAssignment d.id jobId now none).setDriveState d.id .inUse) :=
  (inv.addAssignment hj ⟨d, hd, rfl⟩ fun b hb held job =>
    ⟨free b hb held job, fun h => absurd rfl h⟩).setDriveState _ _

theorem createJob (inv : Consistent s) {cfg : Settings} {s' : Db} {body : JobBody}
    {seeded : Option Nat} {now : Nat} (h : createJob cfg s body seeded now = .ok s') :
    Consistent s' := by
  obtain ⟨s₁, jobId, drive, sourcePath, resolved, inserted, -, hdrive, -, -, -, overflow⟩ :=
    createJob_eq_ok h
  have inv₁ := inv.insertJob inserted
  obtain ⟨⟨jobs, rfl⟩, mem, fresh⟩ := insertJob_eq_ok inserted
  have hjob : ∃ j ∈ jobs, j.id = jobId := ⟨_, (mem _).mpr (.inr rfl), rfl⟩
  -- No assignment belongs to the new key yet.
  have unused : ∀ a ∈ s.assignments, a.jobId ≠ jobId := by
    intro a ha same
    obtain ⟨j, hj, hid⟩ := inv.job a ha
    exact fresh j hj (hid.trans same)
  have primary : Consistent (assignPrimaryDrive { s with jobs := jobs } body.projectId drive
      sourcePath jobId now) := by
    refine (Consistent.addAssignment (inv₁.modifyDrive _ _ _) hjob ?_ ?_).modifyJob _ _ _
    · exact Db.exists_modifyDrive ⟨drive, hdrive, rfl⟩
    · exact fun b hb held job => absurd job (unused b hb)
  refine (reserveOverflowDrives_rule (P := fun t => Consistent t ∧ ∃ j ∈ t.jobs, j.id = jobId) ?_
    ⟨primary, ?_⟩ overflow).1
  · rintro t d ⟨invt, hj⟩ hd - - free
    exact ⟨invt.reserve hj hd fun a ha held _ => free a ha held, hj⟩
  · exact Db.exists_modifyJob hjob

/-- Leaving a drive: the assignment is released, other rows stay. -/
theorem leaveDrive (inv : Consistent s) (a : DriveAssignment) (now : Nat) :
    Consistent (leaveDrive s a now) := by
  rw [Ecube.leaveDrive]
  split
  · exact inv.releaseAssignment _ _
  · exact (inv.releaseAssignment _ _).setDriveState _ _

/-- Once its active assignment is released, a job has none. -/
theorem idle_of_release (inv : Consistent s) {jobId now : Nat} {a : DriveAssignment}
    (ha : s.getActiveForJob jobId = some a) :
    ∀ b ∈ (s.releaseAssignment a.id now).assignments, b.jobId = jobId → b.active = false := by
  intro b hb job
  rcases Db.mem_releaseAssignment.mp hb with ⟨hb, ne⟩ | ⟨r, -, -, rfl⟩
  · rw [Bool.eq_false_iff]
    intro active
    exact ne (congrArg DriveAssignment.id (inv.eq_of_active ha hb job active))
  · simp [DriveAssignment.active]

/-- What an edit keeps of the job is not active and not on the new primary drive. -/
theorem apart_of_updateChecked (inv : Consistent s) {jobId : Nat} {body : JobBody} {plan : UpdatePlan}
    (checked : UpdateChecked s jobId body plan) {b : DriveAssignment} (hb : b ∈ s.assignments)
    (held : b.releasedAt = none) (job : b.jobId = jobId)
    (listed : b.reserved = true → b.driveId ∈ body.overflowDriveIds)
    (kept : ∀ a, plan.current = some a → b = a → a.driveId = plan.drive.id)
    (moved : ∀ a, plan.current = some a → a.driveId ≠ plan.drive.id) :
    b.driveId ≠ plan.drive.id ∧ b.active = false := by
  have idle : b.active = false := by
    rw [Bool.eq_false_iff]
    intro active
    cases current : s.getActiveForJob jobId with
    | none =>
        have := first_eq_none_iff.mp current b hb
        simp [job, active] at this
    | some a =>
        have same := inv.eq_of_active current hb job active
        exact moved a (checked.current.trans current) (kept a (checked.current.trans current) same)
  refine ⟨fun drive => ?_, idle⟩
  have reserved : b.reserved = true := by
    rw [DriveAssignment.reserved_iff]
    refine ⟨?_, held⟩
    by_contra activated
    rw [DriveAssignment.active_iff.mpr ⟨activated, held⟩] at idle
    cases idle
  exact checked.listed _ (listed reserved) (drive ▸ checked.named moved)

/-- After the reservations an edit no longer lists are released, a new primary
assignment is the only one of the job on its drive. -/
theorem keptAssignments (inv : Consistent s) {jobId now : Nat} {body : JobBody}
    {plan : UpdatePlan} (checked : UpdateChecked s jobId body plan) :
    Consistent (keptAssignments s plan jobId body now) := by
  have hjob : plan.job.id = jobId := id_of_get checked.job
  refine ⟨fun b hb => ?_, fun b hb => ?_, inv.unique_of_old_or_new
    (fun b hb held => held_of_keptAssignments hb held) ?_ ?_⟩
  · rw [keptAssignments_jobs]
    rcases refs_of_keptAssignments hb with ⟨r, hr, same, -⟩ | ⟨same, -⟩
    · exact same ▸ inv.job r hr
    · exact ⟨plan.job, mem_of_get checked.job, same.symm⟩
  · refine exists_drive_keptAssignments ?_
    rcases refs_of_keptAssignments hb with ⟨r, hr, -, same⟩ | ⟨-, same⟩
    · exact same ▸ inv.drive r hr
    · exact ⟨plan.drive, checked.drive, same.symm⟩
  · rintro a b ⟨-, -, rfl⟩ ⟨-, -, rfl⟩
    rfl
  · rintro a ha ⟨listed, kept⟩ b ⟨limited, moved, rfl⟩ held - job
    have mine : a.jobId = jobId := job.trans hjob
    obtain ⟨other, idle⟩ := inv.apart_of_updateChecked checked ha held mine (listed mine)
      (kept.resolve_left (by simp [limited])) moved
    exact ⟨other, fun _ => idle⟩

theorem finishUpdate (inv : Consistent s) (plan : UpdatePlan) (jobId : Nat) (body : JobBody) :
    Consistent (finishUpdate s plan jobId body) := by
  have written := (inv.setDriveState plan.drive.id .inUse).modifyJob jobId
    (updatedJob plan body) (updatedJob_id plan body)
  rw [Ecube.finishUpdate]
  split
  · exact written
  · exact written.withFiles _

theorem updateJob (inv : Consistent s) {cfg : Settings} {jobId now : Nat} {body : JobBody} :
    (∀ s', updateJob cfg s jobId body now = .ok s' → Consistent s') ∧
      Leaves Consistent (updateJob cfg s jobId body now) := by
  -- A drive still to be reserved is not held yet, unless it was held before the reservations.
  refine updateJob_rule (P := fun plan rest t => Consistent t ∧ t.jobs = s.jobs ∧ rest.Nodup ∧
    ∀ a ∈ t.assignments, a.releasedAt = none → a.jobId = jobId →
      a.driveId ∈ heldDrives (Ecube.keptAssignments s plan jobId body now) jobId ∨
        a.driveId ∉ rest) inv
    (fun _ _ _ _ _ _ _ h _ _ _ => h.1) ?_ ?_ ?_ ?_
  · rintro plan driveId rest t ⟨invt, jobs, nodup, held⟩
    refine ⟨invt, jobs, nodup.of_cons, fun a ha open_ job => ?_⟩
    exact (held a ha open_ job).imp_right fun h mem => h (List.mem_cons_of_mem _ mem)
  · intro plan _ checked
    refine ⟨inv.keptAssignments checked, keptAssignments_jobs .., body.unique,
      fun a ha open_ job => .inl ?_⟩
    refine List.mem_map_of_mem (List.mem_filter.mpr ⟨?_, by simp [open_]⟩)
    exact mem_select.mpr ⟨ha, by simp [job]⟩
  · rintro plan checked rest t d ⟨invt, jobs, nodup, held⟩ hd - new - - -
    have hjob : plan.job.id = jobId := id_of_get checked.job
    refine ⟨invt.reserve ⟨plan.job, jobs ▸ mem_of_get checked.job, rfl⟩ hd fun a ha open_ job => ?_,
      jobs, nodup.of_cons, fun a ha open_ job => ?_⟩
    · intro same
      rcases held a ha open_ (job.trans hjob) with old | later
      · exact new (same ▸ old)
      · exact later (same ▸ List.mem_cons_self)
    · rcases Db.mem_addAssignment.mp ha with ha | rfl
      · exact (held a ha open_ job).imp_right fun h mem => h (List.mem_cons_of_mem _ mem)
      · exact .inr (List.nodup_cons.mp nodup).1
  · rintro plan - t ⟨invt, -⟩
    exact invt.finishUpdate plan jobId body

/-- Moving a job from its active assignment to a drive it has reserved, or to
one it does not hold. -/
theorem activateReservedOrNew (inv : Consistent s) {jobId driveId now : Nat}
    (hj : ∃ j ∈ s.jobs, j.id = jobId) (hd : ∃ d ∈ s.drives, d.id = driveId)
    (idle : ∀ b ∈ s.assignments, b.jobId = jobId → b.active = false) :
    Consistent (activateReservedOrNewAssignment s jobId driveId now) := by
  rw [activateReservedOrNewAssignment]
  split
  · rename_i r reserved
    obtain ⟨hr, hp⟩ := mem_of_first reserved
    obtain ⟨job, -⟩ := of_decide_eq_true hp
    exact inv.activateAssignment now hr fun b hb same => idle b hb (same.trans job)
  · rename_i missing
    refine inv.addAssignment hj hd fun b hb held job => ⟨fun drive => ?_, fun _ => idle b hb job⟩
    -- The job holds the drive by neither kind of assignment.
    have unreserved := of_decide_eq_false (first_eq_none_iff.mp missing b hb)
    have inactive := idle b hb job
    cases activated : b.activatedAt with
    | none => exact unreserved ⟨job, drive, DriveAssignment.reserved_iff.mpr ⟨activated, held⟩⟩
    | some at_ =>
        rw [DriveAssignment.active_iff.mpr ⟨by simp [activated], held⟩] at inactive
        cases inactive

theorem continueJobOverflow (inv : Consistent s) {cfg : Settings} {jobId driveId now : Nat}
    {threadCount : Option Nat} {s' : Db}
    (h : continueJobOverflow cfg s jobId driveId threadCount now = .ok s') : Consistent s' := by
  simp only [Ecube.continueJobOverflow, bind_eq_ok, pure_eq_ok] at h
  obtain ⟨plan, planned, rfl⟩ := h
  have checked := overflowPlan_eq_ok planned
  obtain ⟨mem, job, active⟩ := active_of_getActiveForJob checked.active
  have hd : ∃ d ∈ s.drives, d.id = driveId :=
    ⟨plan.drive, mem_of_get checked.drive, id_of_get checked.drive⟩
  have bound := inv.modifyDrive driveId
    (fun d => { d with currentProjectId := some plan.job.projectId }) fun _ => rfl
  refine ((Consistent.activateReservedOrNew (bound.leaveDrive plan.active now) ?_ ?_ ?_).setDriveState
    _ _ |>.withFiles _).modifyJob _ _ _
  · rw [leaveDrive_jobs]
    exact ⟨plan.job, mem_of_get checked.job, id_of_get checked.job⟩
  · exact exists_drive_leaveDrive (Db.exists_modifyDrive hd)
  · intro b hb
    exact bound.idle_of_release checked.active b (mem_leaveDrive.mp hb)

theorem continueOnReserved (inv : Consistent s) {jobId now : Nat} {active next : DriveAssignment}
    {drive : UsbDrive} (current : s.getActiveForJob jobId = some active)
    (reserved : next ∈ s.listReservedForJob jobId) :
    Consistent (continueOnReserved s jobId active next drive now) := by
  obtain ⟨hnext, hp⟩ := mem_select.mp reserved
  obtain ⟨job, hreserved⟩ := of_decide_eq_true hp
  obtain ⟨-, -, hactive⟩ := active_of_getActiveForJob current
  -- The reservation survives the release of the active assignment.
  have other : next.id ≠ active.id := by
    intro same
    have := eq_of_id_eq hnext (active_of_getActiveForJob current).1 same
    rw [this, DriveAssignment.reserved_iff] at hreserved
    exact (DriveAssignment.active_iff.mp hactive).1 hreserved.1
  have kept : next ∈ (s.releaseAssignment active.id now).assignments :=
    Db.mem_releaseAssignment.mpr (.inl ⟨hnext, other⟩)
  have switched := (inv.releaseAssignment active.id now).activateAssignment now kept
    fun b hb same => inv.idle_of_release current b hb (same.trans job)
  exact ((switched.setDriveState _ _).modifyJob _ _ _ |>.setDriveState _ _).withFiles _

theorem resolveTargetFullOutcome (inv : Consistent s) {jobId now : Nat}
    {probe : Str → Option Nat} : Consistent (resolveTargetFullOutcome s jobId probe now).2 := by
  rcases resolveTargetFullOutcome_rule (P := fun t => Consistent t ∧ t.assignments = s.assignments)
    ⟨inv, rfl⟩ (fun t k v ht => ⟨ht.1.modifyDrive _ _ _, ht.2⟩) with
    h | ⟨job, active, next, drive, probed, -, current, ⟨invp, same⟩, selected, h⟩
  · exact h.2.1
  · rw [h]
    refine invp.continueOnReserved ?_ ?_
    · rw [Db.getActiveForJob, same]
      exact current
    · rw [Db.listReservedForJob, same]
      exact selected.mem

theorem jobWrites (inv : Consistent s) {cfg : Settings} {a : Action} {t : Db}
    (w : JobWrites cfg a s t) :
    Consistent t where
  job a ha := by
    obtain ⟨j, hj, job⟩ := inv.job a (w.assignments ▸ ha)
    obtain ⟨j', hj', same⟩ := w.kept j hj
    exact ⟨j', hj', same.trans job⟩
  drive a ha := w.drives ▸ inv.drive a (w.assignments ▸ ha)
  unique a ha b hb := inv.unique a (w.assignments ▸ ha) b (w.assignments ▸ hb)

theorem driveWrites (inv : Consistent s) {cfg : Settings} {a : Action} {t : Db}
    (w : DriveWrites cfg a s t) : Consistent t where
  job a ha := w.jobs ▸ inv.job a (w.assignments ▸ ha)
  drive a ha := by
    obtain ⟨d, hd, drive⟩ := inv.drive a (w.assignments ▸ ha)
    obtain ⟨d', hd', same⟩ := w.kept d hd
    exact ⟨d', hd', same.trans drive⟩
  unique a ha b hb := inv.unique a (w.assignments ▸ ha) b (w.assignments ▸ hb)

/-- Every action keeps the assignment table consistent. -/
theorem step (inv : Consistent s) (cfg : Settings) (a : Action) : Consistent (step cfg s a) := by
  refine step_writes (fun t w => inv.jobWrites w) (fun t w => inv.driveWrites w)
    (fun body seeded s' _ h => inv.createJob h) (fun jobId body _ => inv.updateJob)
    (fun jobId s' _ h => ?_) (fun _ _ _ s' _ h => inv.continueJobOverflow h)
    fun jobId probe _ _ => inv.resolveTargetFullOutcome
  obtain ⟨job, freed, -, -, hfreed, rfl⟩ := deleteJob_eq_ok h
  rcases hfreed with rfl | ⟨a, -, -, rfl⟩
  · exact inv.deleteJob jobId _
  · exact (inv.setDriveState _ _).deleteJob jobId _

end Consistent

theorem Initial.consistent {s : Db} (h : Initial s) : Consistent s where
  job a ha := absurd ha (h.noAssignments a)
  drive a ha := absurd ha (h.noAssignments a)
  unique a ha := absurd ha (h.noAssignments a)

/-! ### Whole runs -/

/-- A reachable database is consistent. -/
theorem consistent_of_run {cfg : Settings} {s : Db} (initial : Initial s) (actions : List Action) :
    Consistent (exec (step cfg) s actions) :=
  exec_rule (fun _ a inv => inv.step cfg a) initial.consistent

/-- A job has at most one active assignment, and at most one unreleased
assignment on each drive. -/
structure SingleActive (s : Db) : Prop where
  active : ∀ a ∈ s.assignments, ∀ b ∈ s.assignments, a.active = true → b.active = true →
    a.jobId = b.jobId → a = b
  unreleased : ∀ a ∈ s.assignments, ∀ b ∈ s.assignments, a.releasedAt = none →
    b.releasedAt = none → a.jobId = b.jobId → a.driveId = b.driveId → a = b

theorem Consistent.singleActive {s : Db} (inv : Consistent s) : SingleActive s where
  active a ha b hb activeA activeB job := by
    have heldA := (DriveAssignment.active_iff.mp activeA).2
    have heldB := (DriveAssignment.active_iff.mp activeB).2
    exact inv.unique a ha b hb heldA heldB job (.inr ⟨activeA, activeB⟩)
  unreleased a ha b hb heldA heldB job drive := inv.unique a ha b hb heldA heldB job (.inl drive)

/-- Whatever requests and transactions have been performed, accepted or
refused, no job has two active assignments or holds a drive twice. -/
theorem singleActive_of_run {cfg : Settings} {s : Db} (initial : Initial s)
    (actions : List Action) : Always (step cfg) SingleActive s actions := by
  have keep : ∀ s a, Consistent s → True → Consistent (step cfg s a) :=
    fun _ a inv _ => inv.step cfg a
  exact (always_of_along keep initial.consistent along_true).mono fun _ inv => inv.singleActive

/-- A pending job swaps its primary and its overflow drive, and goes on to the
drive it came from when its target is full. -/
def swappedRun : List Action :=
  [⟨1, .createJob (Lab.body "/data/a" (some 1) (some 2)) none⟩,
    ⟨2, .updateJob 1 (Lab.body "/data/a" (some 2) (some 1))⟩,
    ⟨3, .startJob 1 none⟩,
    ⟨4, .enterRunning 1⟩,
    ⟨5, .listFile 1 "f".toList 10⟩,
    ⟨6, .recordFile 1 1 .error (some targetFullMessage)⟩,
    ⟨7, .resolveTargetFull 1 fun _ => some 100⟩]

theorem singleActive_swappedRun :
    Along (step Lab.settings) (Accepted Lab.settings) Lab.start swappedRun ∧
      ((exec (step Lab.settings) Lab.start swappedRun).getActiveForJob 1).map
        DriveAssignment.driveId = some 1 ∧
      Always (step Lab.settings) SingleActive Lab.start swappedRun := by
  refine ⟨?_, ?_, singleActive_of_run Lab.start_initial swappedRun⟩
  · decide
  · decide

end Ecube
