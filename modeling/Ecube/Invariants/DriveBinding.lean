import Ecube.Writes

/-!
The project of a drive.

A drive that is bound to a project stays bound to it, whatever requests and transactions follow,
until the background task of a format of the drive finds it free and formats it
(`bound_iff_unformatted`). No request gives a bound drive to another project. The repair of drives
when the service starts is not part of these runs.
-/

namespace Ecube

open Table Transition

/-- The drive with this key is bound to the project. -/
def BoundTo (k : Nat) (p : ProjectId) (s : Db) : Prop :=
  ∃ d ∈ s.drives, d.id = k ∧ d.currentProjectId = some p

instance (k : Nat) (p : ProjectId) (s : Db) : Decidable (BoundTo k p s) :=
  inferInstanceAs (Decidable (∃ d ∈ s.drives, d.id = k ∧ d.currentProjectId = some p))

namespace BoundTo

variable {k : Nat} {p : ProjectId} {s t : Db}

theorem of_drives (h : BoundTo k p s) (same : t.drives = s.drives) : BoundTo k p t := by
  obtain ⟨d, mem, id, project⟩ := h
  exact ⟨d, same ▸ mem, id, project⟩

theorem modifyDrive (h : BoundTo k p s) {i : Nat} {f : UsbDrive → UsbDrive}
    {key : ∀ r, (f r).id = r.id}
    (keep : ∀ d ∈ s.drives, d.id = i → d.id = k → d.currentProjectId = some p →
      (f d).currentProjectId = some p) : BoundTo k p (s.modifyDrive i f key) := by
  obtain ⟨d, mem, id, project⟩ := h
  by_cases here : d.id = i
  · exact ⟨f d, Db.mem_modifyDrive.mpr (.inr ⟨d, mem, here, rfl⟩), (key d).trans id,
      keep d mem here id project⟩
  · exact ⟨d, Db.mem_modifyDrive.mpr (.inl ⟨mem, here⟩), id, project⟩

theorem setDriveState (h : BoundTo k p s) (i : Nat) (state : DriveState) :
    BoundTo k p (s.setDriveState i state) :=
  h.modifyDrive fun _ _ _ _ project => project

theorem leaveDrive (h : BoundTo k p s) (a : DriveAssignment) (now : Nat) :
    BoundTo k p (Ecube.leaveDrive s a now) := by
  have released : BoundTo k p (s.releaseAssignment a.id now) := h.of_drives rfl
  rw [Ecube.leaveDrive]
  split
  · exact released
  · exact released.setDriveState _ _

end BoundTo

section Steps

variable {cfg : Settings} {s s' : Db} {a : Action} {k now : Nat} {p : ProjectId}

/-- A write to drives leaves the project of the drive, or formats the drive. -/
theorem bound_driveWrites {t : Db} (h : BoundTo k p s) (w : DriveWrites cfg a s t)
    (unformatted : ¬ Formats k s a) : BoundTo k p t := by
  obtain ⟨d, mem, id, project⟩ := h
  obtain ⟨d', there, same⟩ := w.kept d mem
  obtain ⟨d₀, mem₀, same₀, write⟩ := w.drives d' there
  obtain rfl : d₀ = d := eq_of_id_eq mem₀ mem (same₀.symm.trans same)
  refine ⟨d', there, same.trans id, ?_⟩
  cases write with
  | same _ kept _ => exact kept.trans project
  | initialized projectId bindable _ bound _ =>
      rcases bindable with unbound | mine
      · cases unbound.symm.trans project
      · exact bound.trans (mine.symm.trans project)
  | mounted _ _ kept _ => exact kept.trans project
  | ejected _ _ _ _ kept _ => exact kept.trans project
  | @formatted filesystemType event formattable =>
      exact absurd ⟨filesystemType, id ▸ event, d₀, mem, id, formattable⟩ unformatted

theorem bound_createJob {body : JobBody} {seeded : Option Nat} (h : BoundTo k p s)
    (accepted : createJob cfg s body seeded now = .ok s') : BoundTo k p s' := by
  obtain ⟨s₁, jobId, drive, sourcePath, resolved, inserted, -, mem, -, bindable, -, overflow⟩ :=
    createJob_eq_ok accepted
  obtain ⟨⟨jobs, rfl⟩, -, -⟩ := insertJob_eq_ok inserted
  refine reserveOverflowDrives_rule (P := BoundTo k p)
    (fun t d bound _ _ _ _ => BoundTo.setDriveState (bound.of_drives rfl) _ _) ?_ overflow
  -- The primary drive is bound to the project of the job, or becomes so.
  have created : BoundTo k p { s with jobs := jobs } := h.of_drives rfl
  have assigned : BoundTo k p ({ s with jobs := jobs }.modifyDrive drive.id
      (fun d => { d with currentState := .inUse, currentProjectId := some body.projectId })
        fun _ => rfl) := by
    refine created.modifyDrive fun d there here _ project => ?_
    obtain rfl : d = drive := eq_of_id_eq there mem here
    rcases bindable with mine | ⟨unbound, -⟩
    · exact mine.symm.trans project
    · cases unbound.symm.trans project
  exact assigned.of_drives rfl

theorem bound_updateJob {jobId : Nat} {body : JobBody} (h : BoundTo k p s) :
    (∀ s', updateJob cfg s jobId body now = .ok s' → BoundTo k p s') ∧
      Leaves (BoundTo k p) (updateJob cfg s jobId body now) := by
  refine updateJob_rule (P := fun _ _ t => BoundTo k p t) h (fun _ _ _ _ _ _ _ bound _ _ _ => bound)
    (fun _ _ _ _ bound => bound) (fun plan _ checked => ?_)
    (fun plan _ rest t d bound _ _ _ _ _ _ => ?_) fun plan checked t bound => ?_
  · refine releaseDroppedOverflow_rule (P := BoundTo k p) (fun t a _ bound => ?_) ?_
    · have released : BoundTo k p (t.releaseAssignment a.id now) := bound.of_drives rfl
      exact ⟨released, fun _ => released.setDriveState _ _⟩
    · rw [changePrimaryDrive]
      split
      · exact h
      · split
        · exact h.of_drives rfl
        · split
          · exact h
          · exact (h.leaveDrive _ now).of_drives rfl
  · have added : BoundTo k p (t.addAssignment d.id plan.job.id now none) := bound.of_drives rfl
    exact added.setDriveState _ _
  · have used := bound.setDriveState plan.drive.id .inUse
    rw [finishUpdate]
    split <;> exact used.of_drives rfl

theorem bound_deleteJob {jobId : Nat} (h : BoundTo k p s) (accepted : deleteJob s jobId = .ok s') :
    BoundTo k p s' := by
  obtain ⟨job, freed, -, -, same, rfl⟩ := deleteJob_eq_ok accepted
  have bound : BoundTo k p freed := by
    rcases same with rfl | ⟨a, -, -, rfl⟩
    · exact h
    · exact h.setDriveState _ _
  exact bound.of_drives rfl

theorem bound_continueJobOverflow {jobId driveId : Nat} {threadCount : Option Nat}
    (h : BoundTo k p s)
    (accepted : continueJobOverflow cfg s jobId driveId threadCount now = .ok s') :
    BoundTo k p s' := by
  simp only [continueJobOverflow, bind_eq_ok, pure_eq_ok] at accepted
  obtain ⟨plan, planned, rfl⟩ := accepted
  have checked := overflowPlan_eq_ok planned
  -- The drive is bound to the project of the job, or becomes so.
  have bound : BoundTo k p (s.modifyDrive driveId
      (fun d => { d with currentProjectId := some plan.job.projectId }) fun _ => rfl) := by
    refine h.modifyDrive fun d mem here _ project => ?_
    obtain rfl : d = plan.drive := eq_of_get checked.drive mem here
    rcases checked.project with unbound | mine
    · cases unbound.symm.trans project
    · exact mine.symm.trans project
  have left := bound.leaveDrive plan.active now
  have activated : BoundTo k p (activateReservedOrNewAssignment
      (leaveDrive (s.modifyDrive driveId
        (fun d => { d with currentProjectId := some plan.job.projectId }) fun _ => rfl)
          plan.active now) jobId driveId now) := by
    rw [activateReservedOrNewAssignment]
    split <;> exact left.of_drives rfl
  exact (activated.setDriveState driveId .inUse).of_drives rfl

theorem bound_resolveTargetFull {jobId : Nat} {probe : Str → Option Nat} (h : BoundTo k p s) :
    BoundTo k p (resolveTargetFullOutcome s jobId probe now).2 := by
  have probed : ∀ t i v, BoundTo k p t → BoundTo k p
      (t.modifyDrive i (fun d => { d with availableBytes := some v }) fun _ => rfl) :=
    fun _ _ _ bound => bound.modifyDrive fun _ _ _ _ project => project
  rcases @resolveTargetFullOutcome_rule (BoundTo k p) s jobId now probe h probed with
    ⟨-, bound⟩ | ⟨job, active, next, drive, t, -, -, bound, -, moved⟩
  · exact bound
  · rw [moved]
    have switched : BoundTo k p
        ((t.releaseAssignment active.id now).activateAssignment next.id now) := bound.of_drives rfl
    have freed := switched.setDriveState active.driveId .available
    exact BoundTo.of_drives (BoundTo.setDriveState (freed.of_drives rfl) drive.id .inUse) rfl

/-- A bound drive stays bound if the action does not format it. -/
theorem bound_step (h : BoundTo k p s) (unformatted : ¬ Formats k s a) :
    BoundTo k p (step cfg s a) :=
  step_writes (fun _ w => h.of_drives w.drives) (fun _ w => bound_driveWrites h w unformatted)
    (fun _ _ _ _ accepted => bound_createJob h accepted) (fun _ _ _ => bound_updateJob h)
    (fun _ _ _ accepted => bound_deleteJob h accepted)
    (fun _ _ _ _ _ accepted => bound_continueJobOverflow h accepted)
    fun _ _ _ _ => bound_resolveTargetFull h

/-- A format ends the binding of the drive. -/
theorem unbound_step (formatted : Formats k s a) : ¬ BoundTo k p (step cfg s a) := by
  obtain ⟨now, event⟩ := a
  obtain ⟨filesystemType, rfl, d, mem, id, free⟩ := formatted
  have get : s.drives.get k = some d := get_eq_some_iff.mpr ⟨mem, id⟩
  have written : step cfg s ⟨now, .completeDriveFormat k filesystemType false none⟩ =
      s.modifyDrive k (fun d => { d with
        filesystemType := some filesystemType
        availableBytes := none
        formatStatus := none
        formatFailureMessage := none
        currentProjectId := none }) fun _ => rfl := by
    change completeDriveFormat s k filesystemType false none = _
    simp [completeDriveFormat, get, free.pending, free.available, free.device, free.unmounted]
  rw [written]
  rintro ⟨d', there, same, project⟩
  rcases Db.mem_modifyDrive.mp there with ⟨-, other⟩ | ⟨r, -, -, rfl⟩
  · exact other same
  · cases project

/-- A bound drive stays bound to its project exactly as long as no action of the run formats it. -/
theorem bound_iff_unformatted {actions : List Action} (h : BoundTo k p s) :
    Always (step cfg) (BoundTo k p) s actions ↔
      Along (step cfg) (fun s a => ¬ Formats k s a) s actions :=
  always_iff_along (fun _ bound => bound)
    (fun _ _ bound unformatted => bound_step bound unformatted)
    (fun _ _ _ formatted => unbound_step (not_not.mp formatted)) h

/-- A drive that is ejected and formatted, after a job on it. -/
def Lab.reusedDrive : List Action :=
  [⟨1, .createJob (body "/data/a" (some 1) none) none⟩,
    ⟨2, .completeJob 1⟩,
    ⟨3, .prepareEject 1 true .success⟩,
    ⟨4, .requestDriveFormat 1 false⟩,
    ⟨5, .completeDriveFormat 1 "exfat" false none⟩]

theorem bound_iff_reusedDrive :
    BoundTo 1 Lab.projectP Lab.start ∧
      ¬ BoundTo 1 Lab.projectP (exec (step Lab.settings) Lab.start Lab.reusedDrive) ∧
      (Always (step Lab.settings) (BoundTo 1 Lab.projectP) Lab.start Lab.reusedDrive ↔
        Along (step Lab.settings) (fun s a => ¬ Formats 1 s a) Lab.start Lab.reusedDrive) := by
  have bound : BoundTo 1 Lab.projectP Lab.start := by decide
  exact ⟨bound, by decide, bound_iff_unformatted bound⟩

end Steps

end Ecube
