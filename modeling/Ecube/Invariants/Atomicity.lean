import Ecube.Lifecycle

/-!
What a failed edit of a job leaves behind.

`updateJobWith` is `updateJob` with statements to the database that may fail.
A refused or failed edit is rolled back when its session is closed, except for
what has been committed by then: the audit record of an isolation refusal
commits the assignments and drive states written before it, and a failure after
the final commit comes too late. `updateJob_atomic_iff` says exactly when
nothing is left.
-/

namespace Ecube

open Table

/-- The statements of an edit that can fail, in order. Those before the first
write, and those between the first write and the overflow drives, are told apart
no further; `commit` ends the transaction and `refresh` reads the row back. -/
inductive EditStatement where
  | check
  | change
  | lockOverflow (driveId : Nat)
  | otherAssignments (driveId : Nat)
  | auditViolation (driveId : Nat)
  | commit
  | refresh
  deriving DecidableEq, Repr

/-- The statements that fail, with the errors they raise. -/
abbrev Failures := EditStatement → Option ServiceError

def statement (failure : Failures) (committed : Db) (st : EditStatement) : Except Reject Unit :=
  match failure st with
  | none => .ok ()
  | some e => .error ⟨e, committed⟩

/-- `reserveAddedOverflow` with failing statements. An audit record that cannot be
written is only logged; nothing is committed then. -/
def reserveAddedOverflowWith (failure : Failures) (rolledBack : Db) (job : ExportJob)
    (primaryDriveId : Nat) (held : List Nat) (now : Nat) : List Nat → Db → Except Reject Db
  | [], s => .ok s
  | driveId :: rest, s => do
      ensure (driveId ≠ primaryDriveId)
        (refuse rolledBack 422 "Overflow drive list must not include the primary destination drive")
      if driveId ∈ held then
        reserveAddedOverflowWith failure rolledBack job primaryDriveId held now rest s
      else
        statement failure rolledBack (.lockOverflow driveId)
        let audited := if failure (.auditViolation driveId) = none then s else rolledBack
        let _ ← selectableDrive rolledBack audited s job.projectId driveId
        statement failure rolledBack (.otherAssignments driveId)
        ensure (s.isDriveAssignedToAnotherJob driveId (some job.id) = false)
          (refuse rolledBack 409 "Drive is already assigned to another job")
        reserveAddedOverflowWith failure rolledBack job primaryDriveId held now rest
          ((s.addAssignment driveId job.id now none).setDriveState driveId .inUse)

def updateJobWith (failure : Failures) (cfg : Settings) (s : Db) (jobId : Nat) (body : JobBody)
    (now : Nat) : Except Reject Db := do
  statement failure s .check
  let plan ← updatePlan cfg s jobId body
  let kept := keptAssignments s plan jobId body now
  statement failure s .change
  let reserved ← reserveAddedOverflowWith failure s plan.job plan.drive.id (heldDrives kept jobId) now
    body.overflowDriveIds kept
  let written := finishUpdate reserved plan jobId body
  ensure (failure .commit = none) (refuse s 500 "Database error while updating job")
  statement failure written .refresh
  return written

/-! ### Without failures -/

theorem reserveAddedOverflowWith_none {rolledBack : Db} {job : ExportJob} {primaryDriveId now : Nat}
    {held : List Nat} (driveIds : List Nat) (s : Db) :
    reserveAddedOverflowWith (fun _ => none) rolledBack job primaryDriveId held now driveIds s =
      reserveAddedOverflow rolledBack job primaryDriveId held now driveIds s := by
  induction driveIds generalizing s with
  | nil => rfl
  | cons driveId rest ih =>
      rw [reserveAddedOverflowWith, reserveAddedOverflow]
      simp only [ih]
      rfl

theorem updateJobWith_none (cfg : Settings) (s : Db) (jobId : Nat) (body : JobBody) (now : Nat) :
    updateJobWith (fun _ => none) cfg s jobId body now = updateJob cfg s jobId body now := by
  rw [updateJobWith, updateJob]
  simp only [reserveAddedOverflowWith_none]
  rfl

/-! ### The overflow drives -/

/-- The overflow drives that the job does not hold, reserved one after the other. -/
def reservedOverflow (job : ExportJob) (held : List Nat) (now : Nat) : List Nat → Db → Db
  | [], s => s
  | driveId :: rest, s =>
      if driveId ∈ held then reservedOverflow job held now rest s
      else reservedOverflow job held now rest
        ((s.addAssignment driveId job.id now none).setDriveState driveId .inUse)

section Loop

variable {failure : Failures} {rolledBack base : Db} {job : ExportJob} {primaryDriveId now : Nat}
  {held : List Nat}

/-- The drive can be reserved for the job. -/
def Admitted (base : Db) (job : ExportJob) (driveId : Nat) : Prop :=
  (∃ drive, base.drives.get driveId = some drive ∧ drive.currentProjectId = some job.projectId ∧
      (drive.currentState = .available ∨ drive.currentState = .inUse) ∧
      truthy drive.mountPath ≠ none) ∧
    base.isDriveAssignedToAnotherJob driveId (some job.id) = false

/-- The drive is bound to another project. -/
def BoundElsewhere (base : Db) (job : ExportJob) (driveId : Nat) : Prop :=
  ∃ drive, base.drives.get driveId = some drive ∧ drive.currentProjectId ≠ none ∧
    drive.currentProjectId ≠ some job.projectId

/-- The edit goes on after this overflow drive. -/
def PassesDrive (failure : Failures) (base : Db) (job : ExportJob) (primaryDriveId : Nat)
    (held : List Nat) (driveId : Nat) : Prop :=
  driveId ≠ primaryDriveId ∧ (driveId ∈ held ∨ (failure (.lockOverflow driveId) = none ∧
    failure (.otherAssignments driveId) = none ∧ Admitted base job driveId))

/-- The edit is refused at this overflow drive, and the audit record is written. -/
def AuditedDrive (failure : Failures) (base : Db) (job : ExportJob) (primaryDriveId : Nat)
    (held : List Nat) (driveId : Nat) : Prop :=
  driveId ≠ primaryDriveId ∧ driveId ∉ held ∧ failure (.lockOverflow driveId) = none ∧
    failure (.auditViolation driveId) = none ∧ BoundElsewhere base job driveId

/-- The drives still to reserve look as they did at the start. -/
def Agrees (base : Db) (job : ExportJob) (s : Db) (driveIds : List Nat) : Prop :=
  ∀ d ∈ driveIds, s.drives.get d = base.drives.get d ∧
    s.isDriveAssignedToAnotherJob d (some job.id) =
      base.isDriveAssignedToAnotherJob d (some job.id)

/-- A reservation changes its own drive and the assignments of its own job. -/
theorem Agrees.reserve {s : Db} {driveId : Nat} {rest : List Nat}
    (agrees : Agrees base job s (driveId :: rest)) (fresh : driveId ∉ rest) :
    Agrees base job ((s.addAssignment driveId job.id now none).setDriveState driveId .inUse) rest := by
  intro d hd
  obtain ⟨drive, assigned⟩ := agrees d (List.mem_cons_of_mem _ hd)
  have other : d ≠ driveId := fun same => fresh (by rwa [← same])
  constructor
  · rw [← drive]
    exact Db.get_setDriveState_of_ne other
  · rw [← assigned, Bool.eq_iff_iff, Db.isDriveAssignedToAnotherJob, Db.isDriveAssignedToAnotherJob,
      any_eq_true_iff, any_eq_true_iff]
    constructor
    · rintro ⟨a, ha, hp⟩
      rcases Db.mem_addAssignment.mp ha with ha | rfl
      · exact ⟨a, ha, hp⟩
      · simp at hp
    · rintro ⟨a, ha, hp⟩
      exact ⟨a, Db.mem_addAssignment.mpr (.inl ha), hp⟩

theorem statement_ok {st : EditStatement} (h : failure st = none) :
    statement failure rolledBack st = .ok () := by
  rw [statement, h]

theorem statement_error {st : EditStatement} (h : failure st ≠ none) :
    ∃ e, statement failure rolledBack st = .error ⟨e, rolledBack⟩ := by
  obtain ⟨e, he⟩ := Option.ne_none_iff_exists'.mp h
  exact ⟨e, by rw [statement, he]⟩

theorem selectable_of_admitted {s audited : Db} {driveId : Nat}
    (same : s.drives.get driveId = base.drives.get driveId) (admitted : Admitted base job driveId) :
    ∃ drive, selectableDrive rolledBack audited s job.projectId driveId = .ok drive := by
  obtain ⟨⟨drive, found, project, state, mounted⟩, -⟩ := admitted
  refine ⟨drive, ?_⟩
  simp only [selectableDrive, bind_eq_ok, orReject_eq_ok, ensure_eq_ok, pure_eq_ok]
  exact ⟨drive, same.trans found, (), by simp [project], (), project, (), state, (), mounted, rfl⟩

/-- A refusal of the drive rolls everything back, unless the drive is bound elsewhere. -/
theorem selectable_error {s audited : Db} {driveId : Nat}
    (same : s.drives.get driveId = base.drives.get driveId)
    (kept : BoundElsewhere base job driveId → audited = rolledBack) :
    Leaves (· = rolledBack) (selectableDrive rolledBack audited s job.projectId driveId) :=
  leaves_selectableDrive rfl fun drive found bound other => kept ⟨drive, same ▸ found, bound, other⟩

theorem selectable_boundElsewhere {s audited : Db} {driveId : Nat}
    (same : s.drives.get driveId = base.drives.get driveId)
    (elsewhere : BoundElsewhere base job driveId) :
    selectableDrive rolledBack audited s job.projectId driveId =
      .error (refuse audited 403 "Drive belongs to a different project") := by
  obtain ⟨drive, found, bound, other⟩ := elsewhere
  simp [selectableDrive, same.trans found, orReject, ensure, bound, other, bind, Except.bind]

/-- The loop passes a drive. -/
theorem reserveWith_pass {s : Db} {driveId : Nat} {rest : List Nat}
    (agrees : Agrees base job s (driveId :: rest))
    (passes : PassesDrive failure base job primaryDriveId held driveId) :
    reserveAddedOverflowWith failure rolledBack job primaryDriveId held now (driveId :: rest) s =
      reserveAddedOverflowWith failure rolledBack job primaryDriveId held now rest
        (if driveId ∈ held then s
        else (s.addAssignment driveId job.id now none).setDriveState driveId .inUse) := by
  obtain ⟨other, admitted⟩ := passes
  rw [reserveAddedOverflowWith, ensure, if_pos other]
  by_cases known : driveId ∈ held
  · simp only [known, if_true]
    rfl
  · obtain ⟨locked, counted, admitted⟩ := admitted.resolve_left known
    obtain ⟨same, assigned⟩ := agrees driveId List.mem_cons_self
    obtain ⟨drive, selectable⟩ := @selectable_of_admitted rolledBack base job s
      (if failure (.auditViolation driveId) = none then s else rolledBack) driveId same admitted
    simp only [known, if_false, statement_ok locked, statement_ok counted, selectable, ensure,
      assigned.trans admitted.2]
    rfl

/-- The loop is refused at a drive of another project, after its audit record. -/
theorem reserveWith_audited {s : Db} {driveId : Nat} {rest : List Nat}
    (agrees : Agrees base job s (driveId :: rest))
    (audited : AuditedDrive failure base job primaryDriveId held driveId) :
    reserveAddedOverflowWith failure rolledBack job primaryDriveId held now (driveId :: rest) s =
      .error (refuse s 403 "Drive belongs to a different project") := by
  obtain ⟨other, unknown, locked, written, elsewhere⟩ := audited
  have refused := @selectable_boundElsewhere rolledBack base job s s driveId
    (agrees driveId List.mem_cons_self).1 elsewhere
  rw [reserveAddedOverflowWith, ensure, if_pos other]
  simp only [unknown, if_false, statement_ok locked, written, if_true, refused]
  rfl

/-- Any other refusal rolls everything back. -/
theorem reserveWith_refused {s : Db} {driveId : Nat} {rest : List Nat}
    (agrees : Agrees base job s (driveId :: rest))
    (stopped : ¬ PassesDrive failure base job primaryDriveId held driveId)
    (unaudited : ¬ AuditedDrive failure base job primaryDriveId held driveId) :
    ∃ e, reserveAddedOverflowWith failure rolledBack job primaryDriveId held now (driveId :: rest) s =
      .error ⟨e, rolledBack⟩ := by
  obtain ⟨same, assigned⟩ := agrees driveId List.mem_cons_self
  rw [reserveAddedOverflowWith]
  by_cases other : driveId ≠ primaryDriveId
  · have unknown : driveId ∉ held := fun known => stopped ⟨other, .inl known⟩
    rw [ensure, if_pos other]
    simp only [unknown, if_false]
    by_cases locked : failure (.lockOverflow driveId) = none
    · have left : Leaves (· = rolledBack) (selectableDrive rolledBack
          (if failure (.auditViolation driveId) = none then s else rolledBack) s job.projectId
          driveId) := by
        apply selectable_error same
        intro elsewhere
        by_cases written : failure (.auditViolation driveId) = none
        · exact absurd ⟨other, unknown, locked, written, elsewhere⟩ unaudited
        · rw [if_neg written]
      rw [statement_ok locked]
      cases selected : selectableDrive rolledBack
          (if failure (.auditViolation driveId) = none then s else rolledBack) s job.projectId
          driveId with
      | error r =>
          refine ⟨r.error, ?_⟩
          rw [← left r selected]
          rfl
      | ok drive =>
          obtain ⟨found, project, state, mounted⟩ := selectableDrive_eq_ok selected
          by_cases counted : failure (.otherAssignments driveId) = none
          · have taken : ¬ s.isDriveAssignedToAnotherJob driveId (some job.id) = false := by
              intro free
              refine stopped ⟨other, .inr ⟨locked, counted, ⟨drive, ?_, project, state, mounted⟩, ?_⟩⟩
              · exact same.symm.trans found
              · exact assigned.symm.trans free
            refine ⟨⟨409, "Drive is already assigned to another job", none⟩, ?_⟩
            rw [statement_ok counted, ensure, if_neg taken]
            rfl
          · obtain ⟨e, he⟩ := @statement_error failure rolledBack _ counted
            refine ⟨e, ?_⟩
            rw [he]
            rfl
    · obtain ⟨e, he⟩ := @statement_error failure rolledBack _ locked
      refine ⟨e, ?_⟩
      rw [he]
      rfl
  · refine ⟨⟨422, "Overflow drive list must not include the primary destination drive", none⟩, ?_⟩
    rw [ensure, if_neg other]
    rfl

/-- The loop goes on to the drives after those it passes. -/
theorem reserveWith_append {earlier rest : List Nat} (distinct : (earlier ++ rest).Nodup) {s : Db}
    (agrees : Agrees base job s (earlier ++ rest))
    (passes : ∀ d ∈ earlier, PassesDrive failure base job primaryDriveId held d) :
    reserveAddedOverflowWith failure rolledBack job primaryDriveId held now (earlier ++ rest) s =
        reserveAddedOverflowWith failure rolledBack job primaryDriveId held now rest
          (reservedOverflow job held now earlier s) ∧
      Agrees base job (reservedOverflow job held now earlier s) rest := by
  induction earlier generalizing s with
  | nil => exact ⟨rfl, agrees⟩
  | cons d earlier ih =>
      rw [List.cons_append] at distinct agrees
      obtain ⟨fresh, distinct⟩ := List.nodup_cons.mp distinct
      have later := fun e he => passes e (List.mem_cons_of_mem d he)
      rw [List.cons_append, reserveWith_pass agrees (passes d List.mem_cons_self), reservedOverflow]
      split
      · exact ih distinct (fun e he => agrees e (List.mem_cons_of_mem d he)) later
      · exact ih distinct (agrees.reserve fresh) later

theorem mem_reservedOverflow {driveIds : List Nat} {s : Db} {a : DriveAssignment}
    (ha : a ∈ s.assignments) : a ∈ (reservedOverflow job held now driveIds s).assignments := by
  induction driveIds generalizing s with
  | nil => exact ha
  | cons d rest ih =>
      rw [reservedOverflow]
      split
      · exact ih ha
      · exact ih (Db.mem_addAssignment.mpr (.inl ha))

/-- A reservation of the job for every drive it did not hold. -/
theorem reserved_of_reservedOverflow {driveIds : List Nat} {s : Db} {d : Nat} (hd : d ∈ driveIds)
    (unknown : d ∉ held) :
    ∃ a ∈ (reservedOverflow job held now driveIds s).assignments,
      a.jobId = job.id ∧ a.driveId = d ∧ a.reserved = true := by
  induction driveIds generalizing s with
  | nil => cases hd
  | cons e rest ih =>
      rw [reservedOverflow]
      rcases List.mem_cons.mp hd with rfl | hd
      · rw [if_neg unknown]
        exact ⟨_, mem_reservedOverflow (Db.mem_addAssignment.mpr (.inr rfl)), rfl, rfl, rfl⟩
      · split <;> exact ih hd

/-- Every unreleased row is an old one or a new reservation of a drive on the list. -/
theorem held_of_reservedOverflow {driveIds : List Nat} {s : Db} {a : DriveAssignment}
    (ha : a ∈ (reservedOverflow job held now driveIds s).assignments) :
    a ∈ s.assignments ∨ (a.driveId ∈ driveIds ∧ a.jobId = job.id) := by
  induction driveIds generalizing s with
  | nil => exact .inl ha
  | cons d rest ih =>
      rw [reservedOverflow] at ha
      split at ha
      · exact (ih ha).imp_right fun new => ⟨List.mem_cons_of_mem d new.1, new.2⟩
      · rcases ih ha with old | new
        · rcases Db.mem_addAssignment.mp old with old | rfl
          · exact .inl old
          · exact .inr ⟨List.mem_cons_self, rfl⟩
        · exact .inr ⟨List.mem_cons_of_mem d new.1, new.2⟩

/-- Nothing is reserved when the job holds every drive of the list. -/
theorem reservedOverflow_of_held {driveIds : List Nat} {s : Db} (known : ∀ d ∈ driveIds, d ∈ held) :
    reservedOverflow job held now driveIds s = s := by
  induction driveIds with
  | nil => rfl
  | cons d rest ih =>
      rw [reservedOverflow, if_pos (known d List.mem_cons_self)]
      exact ih fun e he => known e (List.mem_cons_of_mem d he)

end Loop

/-- The first element without the property, if there is one. -/
theorem all_or_first {α : Type} (P : α → Prop) (l : List α) :
    (∀ x ∈ l, P x) ∨ ∃ earlier x later, l = earlier ++ x :: later ∧ (∀ y ∈ earlier, P y) ∧ ¬ P x := by
  induction l with
  | nil => exact .inl fun x hx => absurd hx List.not_mem_nil
  | cons x rest ih =>
      by_cases hx : P x
      · rcases ih with all | ⟨earlier, y, later, rfl, before, stop⟩
        · exact .inl (List.forall_mem_cons.mpr ⟨hx, all⟩)
        · exact .inr ⟨x :: earlier, y, later, rfl, List.forall_mem_cons.mpr ⟨hx, before⟩, stop⟩
      · exact .inr ⟨[], x, rest, rfl, fun y hy => absurd hy List.not_mem_nil, hx⟩

/-! ### The state before the overflow drives -/

/-- The job holds the drive by an assignment other than its active one. -/
def StillHeld (s : Db) (jobId driveId : Nat) : Prop :=
  ∃ a ∈ s.assignments, a.jobId = jobId ∧ a.driveId = driveId ∧ a.releasedAt = none ∧
    s.getActiveForJob jobId ≠ some a

/-- The edit moves the job away from the drive, and no other job is active on it. -/
def LeavesFree (s : Db) (plan : UpdatePlan) (driveId : Nat) : Prop :=
  plan.Moves ∧ ∃ c, plan.current = some c ∧ c.driveId = driveId ∧
    s.otherActiveAssignmentsForDrive driveId c.jobId = false

theorem mem_heldDrives {s : Db} {jobId d : Nat} :
    d ∈ heldDrives s jobId ↔
      ∃ a ∈ s.assignments, a.jobId = jobId ∧ a.driveId = d ∧ a.releasedAt = none := by
  simp only [heldDrives, Db.listForJob, List.mem_map, List.mem_filter, mem_select,
    decide_eq_true_eq, Option.isNone_iff_eq_none]
  constructor
  · rintro ⟨a, ⟨⟨ha, job⟩, open_⟩, drive⟩
    exact ⟨a, ha, job, drive, open_⟩
  · rintro ⟨a, ha, job, drive, open_⟩
    exact ⟨a, ⟨⟨ha, job⟩, open_⟩, drive⟩

theorem get_releaseDroppedOverflow {now d : Nat} {dropped : List DriveAssignment} {s : Db}
    (other : ∀ a ∈ dropped, a.driveId ≠ d) :
    (releaseDroppedOverflow now dropped s).drives.get d = s.drives.get d := by
  induction dropped generalizing s with
  | nil => rfl
  | cons a rest ih =>
      rw [releaseDroppedOverflow, ih fun b hb => other b (List.mem_cons_of_mem a hb)]
      split
      · rfl
      · exact Db.get_setDriveState_of_ne (other a List.mem_cons_self).symm

section Kept

variable {s : Db} {plan : UpdatePlan} {jobId now d : Nat} {body : JobBody}

theorem get_keptAssignments (listed : d ∈ body.overflowDriveIds) :
    (keptAssignments s plan jobId body now).drives.get d =
      (changePrimaryDrive s plan now).drives.get d := by
  apply get_releaseDroppedOverflow
  intro a ha same
  exact (of_decide_eq_true (List.mem_filter.mp ha).2).2 (same ▸ listed)

/-- The drives of an edit before its overflow drives: the drive it leaves becomes
available if nobody else is active on it. -/
theorem get_changePrimaryDrive :
    ((changePrimaryDrive s plan now).drives.get d = s.drives.get d ∧ ¬ LeavesFree s plan d) ∨
      ((changePrimaryDrive s plan now).drives.get d =
        (s.drives.get d).map (fun r => { r with currentState := .available }) ∧
        LeavesFree s plan d) := by
  rw [changePrimaryDrive]
  split
  · rename_i limited
    exact .inl ⟨rfl, fun left => by simp [left.1.1] at limited⟩
  · rename_i limited
    split
    · rename_i none_
      refine .inl ⟨rfl, ?_⟩
      rintro ⟨-, c, current, -⟩
      cases none_.symm.trans current
    · rename_i c current
      have only : ∀ c', plan.current = some c' → c' = c :=
        fun c' h => Option.some.inj (h.symm.trans current)
      split
      · rename_i same
        exact .inl ⟨rfl, fun left => left.1.2 c current same⟩
      · rename_i moved
        have moves : plan.Moves := ⟨by simpa using limited, fun c' h => only c' h ▸ moved⟩
        show ((leaveDrive s c now).drives.get d = _ ∧ _) ∨ ((leaveDrive s c now).drives.get d = _ ∧ _)
        rw [leaveDrive]
        split
        · rename_i busy
          refine .inl ⟨rfl, ?_⟩
          rintro ⟨-, c', h, rfl, free⟩
          rw [only c' h, busy] at free
          cases free
        · rename_i free
          by_cases here : d = c.driveId
          · subst here
            exact .inr ⟨Db.get_setDriveState, moves, c, current, rfl, by simpa using free⟩
          · refine .inl ⟨Db.get_setDriveState_of_ne here, ?_⟩
            rintro ⟨-, c', h, rfl, -⟩
            exact here (by rw [only c' h])

theorem heldDrives_keptAssignments (checked : UpdateChecked s jobId body plan)
    (listed : d ∈ body.overflowDriveIds) (other : d ≠ plan.drive.id) :
    d ∈ heldDrives (keptAssignments s plan jobId body now) jobId ↔ StillHeld s jobId d := by
  rw [mem_heldDrives]
  constructor
  · rintro ⟨a, ha, job, drive, open_⟩
    rcases held_of_keptAssignments ha open_ with ⟨old, -, moved⟩ | ⟨-, -, rfl⟩
    · refine ⟨a, old, job, drive, open_, fun current => other ?_⟩
      have current := checked.current.trans current
      rcases moved with limited | stays
      · have unmoved := checked.unmoved limited
        rw [current] at unmoved
        exact drive.symm.trans (Option.some.inj unmoved)
      · exact drive.symm.trans (stays a current rfl)
    · exact absurd drive.symm other
  · rintro ⟨a, ha, job, drive, open_, inactive⟩
    refine ⟨a, mem_releaseDroppedOverflow (mem_changePrimaryDrive checked ha ?_) ?_, job, drive, open_⟩
    · rw [checked.current]
      exact inactive
    · intro dropped
      obtain ⟨r, hr, same⟩ := List.mem_map.mp dropped
      obtain ⟨hr, unlisted⟩ := List.mem_filter.mp hr
      obtain rfl := eq_of_id_eq (mem_select.mp hr).1 ha same
      exact (of_decide_eq_true unlisted).2 (drive ▸ listed)

theorem isDriveAssigned_keptAssignments (checked : UpdateChecked s jobId body plan) :
    (keptAssignments s plan jobId body now).isDriveAssignedToAnotherJob d (some jobId) =
      s.isDriveAssignedToAnotherJob d (some jobId) := by
  have hjob : plan.job.id = jobId := id_of_get checked.job
  rw [Bool.eq_iff_iff, Db.isDriveAssignedToAnotherJob, Db.isDriveAssignedToAnotherJob,
    any_eq_true_iff, any_eq_true_iff]
  simp only [decide_eq_true_eq, ne_eq, Option.some.injEq]
  constructor
  · rintro ⟨a, ha, drive, open_, other⟩
    rcases held_of_keptAssignments ha open_ with ⟨old, -⟩ | ⟨-, -, rfl⟩
    · exact ⟨a, old, drive, open_, other⟩
    · exact absurd hjob other
  · rintro ⟨a, ha, drive, open_, other⟩
    exact ⟨a, mem_keptAssignments_of_ne checked ha other, drive, open_, other⟩

/-- An edit that neither moves the job nor drops a reservation has written nothing. -/
theorem keptAssignments_of_unmoved (checked : UpdateChecked s jobId body plan)
    (unmoved : ¬ plan.Moves)
    (undropped : ∀ a ∈ s.assignments, a.jobId = jobId → a.reserved = true →
      a.driveId ∈ body.overflowDriveIds) : keptAssignments s plan jobId body now = s := by
  have primary : changePrimaryDrive s plan now = s := by
    obtain ⟨c, current, same⟩ := not_moves checked unmoved
    rw [changePrimaryDrive, current]
    split
    · rfl
    · dsimp only
      rw [if_pos same]
  have dropped : ((s.listForJob jobId).filter fun a =>
      a.reserved ∧ a.driveId ∉ body.overflowDriveIds) = [] := by
    apply List.filter_eq_nil_iff.mpr
    intro a ha
    obtain ⟨mem, job⟩ := mem_select.mp ha
    have job : a.jobId = jobId := by simpa using job
    simp only [decide_eq_true_eq, not_and, not_not]
    exact undropped a mem job
  rw [keptAssignments, primary, dropped, releaseDroppedOverflow]

end Kept

/-! ### Exactly when nothing is left -/

/-- The row of the job, its assignments and the drives are the same. -/
structure SameRows (s : Db) (jobId : Nat) (t : Db) : Prop where
  job : t.jobs.get jobId = s.jobs.get jobId
  assignments : ∀ a, a.jobId = jobId → (a ∈ t.assignments ↔ a ∈ s.assignments)
  drives : ∀ d, d ∈ t.drives ↔ d ∈ s.drives

theorem SameRows.refl (s : Db) (jobId : Nat) : SameRows s jobId s :=
  ⟨rfl, fun _ _ => .rfl, fun _ => .rfl⟩

/-- The edit can reserve the drive, as far as the database before it tells. -/
def Admissible (s : Db) (plan : UpdatePlan) (jobId driveId : Nat) : Prop :=
  (∃ drive, s.drives.get driveId = some drive ∧
      drive.currentProjectId = some plan.job.projectId ∧
      (drive.currentState = .available ∨ drive.currentState = .inUse ∨ LeavesFree s plan driveId) ∧
      truthy drive.mountPath ≠ none) ∧
    s.isDriveAssignedToAnotherJob driveId (some jobId) = false

/-- The edit goes on after the overflow drive: the job holds it, or it can be reserved. -/
def PassesOverflow (failure : Failures) (s : Db) (plan : UpdatePlan) (jobId driveId : Nat) : Prop :=
  driveId ≠ plan.drive.id ∧ (StillHeld s jobId driveId ∨
    (failure (.lockOverflow driveId) = none ∧ failure (.otherAssignments driveId) = none ∧
      Admissible s plan jobId driveId))

/-- The edit is refused at the overflow drive, which belongs to another project,
and the audit record of the refusal is written. -/
def RefusedAudited (failure : Failures) (s : Db) (plan : UpdatePlan) (jobId driveId : Nat) : Prop :=
  driveId ≠ plan.drive.id ∧ ¬ StillHeld s jobId driveId ∧
    failure (.lockOverflow driveId) = none ∧ failure (.auditViolation driveId) = none ∧
    BoundElsewhere s plan.job driveId

/-- The edit has written nothing when it comes to the end of `driveIds`. -/
structure Untouched (s : Db) (plan : UpdatePlan) (jobId : Nat) (body : JobBody)
    (driveIds : List Nat) : Prop where
  unmoved : ¬ plan.Moves
  undropped : ∀ a ∈ s.assignments, a.jobId = jobId → a.reserved = true →
    a.driveId ∈ body.overflowDriveIds
  held : ∀ d ∈ driveIds, StillHeld s jobId d

/-- Nothing is committed by an edit that fails: it has written nothing when it is
refused at a drive of another project, and changes nothing when its row cannot
be read back after the commit. -/
structure FailsInTime (failure : Failures) (s : Db) (plan : UpdatePlan) (jobId : Nat)
    (body : JobBody) : Prop where
  refused : ∀ earlier driveId later, body.overflowDriveIds = earlier ++ driveId :: later →
    (∀ d ∈ earlier, PassesOverflow failure s plan jobId d) →
    RefusedAudited failure s plan jobId driveId → Untouched s plan jobId body earlier
  unread : (∀ d ∈ body.overflowDriveIds, PassesOverflow failure s plan jobId d) →
    failure .commit = none → failure .refresh ≠ none →
    Untouched s plan jobId body body.overflowDriveIds ∧ plan.drive.currentState = .inUse ∧
      updatedJob plan body plan.job = plan.job

section Exact

variable {failure : Failures} {s : Db} {plan : UpdatePlan} {jobId now d : Nat} {body : JobBody}

theorem passes_iff (checked : UpdateChecked s jobId body plan)
    (listed : d ∈ body.overflowDriveIds) :
    PassesDrive failure (keptAssignments s plan jobId body now) plan.job plan.drive.id
        (heldDrives (keptAssignments s plan jobId body now) jobId) d ↔
      PassesOverflow failure s plan jobId d := by
  have hjob : plan.job.id = jobId := id_of_get checked.job
  have admitted : Admitted (keptAssignments s plan jobId body now) plan.job d ↔
      Admissible s plan jobId d := by
    rw [Admitted, Admissible, hjob, isDriveAssigned_keptAssignments checked,
      get_keptAssignments listed]
    apply and_congr_left
    intro _
    rcases @get_changePrimaryDrive s plan now d with ⟨same, stays⟩ | ⟨same, left⟩
    · simp only [same, stays, or_false]
    · rw [same]
      constructor
      · rintro ⟨r, found, project, -, mounted⟩
        obtain ⟨drive, old, rfl⟩ := Option.map_eq_some_iff.mp found
        exact ⟨drive, old, project, .inr (.inr left), mounted⟩
      · rintro ⟨drive, found, project, -, mounted⟩
        exact ⟨_, Option.map_eq_some_iff.mpr ⟨drive, found, rfl⟩, project, .inl rfl, mounted⟩
  rw [PassesDrive, PassesOverflow, admitted]
  exact and_congr_right fun other =>
    or_congr (heldDrives_keptAssignments checked listed other) Iff.rfl

theorem audited_iff (checked : UpdateChecked s jobId body plan)
    (listed : d ∈ body.overflowDriveIds) :
    AuditedDrive failure (keptAssignments s plan jobId body now) plan.job plan.drive.id
        (heldDrives (keptAssignments s plan jobId body now) jobId) d ↔
      RefusedAudited failure s plan jobId d := by
  have elsewhere : BoundElsewhere (keptAssignments s plan jobId body now) plan.job d ↔
      BoundElsewhere s plan.job d := by
    rw [BoundElsewhere, BoundElsewhere, get_keptAssignments listed]
    rcases @get_changePrimaryDrive s plan now d with ⟨same, -⟩ | ⟨same, -⟩
    · rw [same]
    · rw [same]
      constructor
      · rintro ⟨r, found, bound, other⟩
        obtain ⟨drive, old, rfl⟩ := Option.map_eq_some_iff.mp found
        exact ⟨drive, old, bound, other⟩
      · rintro ⟨drive, found, bound, other⟩
        exact ⟨_, Option.map_eq_some_iff.mpr ⟨drive, found, rfl⟩, bound, other⟩
  rw [AuditedDrive, RefusedAudited, elsewhere]
  refine and_congr_right fun other => and_congr_left fun _ => ?_
  exact not_congr (heldDrives_keptAssignments checked listed other)

/-- The database of an edit that has passed the overflow drives `driveIds`. -/
def passed (s : Db) (plan : UpdatePlan) (jobId : Nat) (body : JobBody) (now : Nat)
    (driveIds : List Nat) : Db :=
  reservedOverflow plan.job (heldDrives (keptAssignments s plan jobId body now) jobId) now driveIds
    (keptAssignments s plan jobId body now)

theorem passed_of_untouched (checked : UpdateChecked s jobId body plan) {driveIds : List Nat}
    (sub : driveIds ⊆ body.overflowDriveIds)
    (passes : ∀ d ∈ driveIds, PassesOverflow failure s plan jobId d)
    (untouched : Untouched s plan jobId body driveIds) :
    passed s plan jobId body now driveIds = s := by
  rw [passed, reservedOverflow_of_held]
  · exact keptAssignments_of_unmoved checked untouched.unmoved untouched.undropped
  · intro d hd
    rw [heldDrives_keptAssignments checked (sub hd) (passes d hd).1]
    exact untouched.held d hd

/-- Whatever the edit writes to assignments before the end of `driveIds` is seen in them. -/
theorem untouched_of_same (checked : UpdateChecked s jobId body plan) {driveIds : List Nat}
    (sub : driveIds ⊆ body.overflowDriveIds)
    (passes : ∀ d ∈ driveIds, PassesOverflow failure s plan jobId d)
    (same : ∀ a, a.jobId = jobId →
      (a ∈ (passed s plan jobId body now driveIds).assignments ↔ a ∈ s.assignments)) :
    Untouched s plan jobId body driveIds where
  unmoved moves := by
    have hjob : plan.job.id = jobId := id_of_get checked.job
    exact ne_next ((same _ hjob).mp (mem_reservedOverflow (new_mem_keptAssignments moves))) rfl
  undropped a ha job reserved := by
    rcases held_of_reservedOverflow ((same a job).mpr ha) with old | ⟨listed, -⟩
    · rcases held_of_keptAssignments old (DriveAssignment.reserved_iff.mp reserved).2 with
        ⟨-, listed, -⟩ | ⟨-, -, rfl⟩
      · exact listed job reserved
      · cases reserved
    · exact sub listed
  held d hd := by
    have hjob : plan.job.id = jobId := id_of_get checked.job
    by_contra missing
    have known := @heldDrives_keptAssignments s plan jobId now d body checked (sub hd) (passes d hd).1
    -- The drive was reserved, so the job had reserved it before.
    obtain ⟨a, ha, job, drive, reserved⟩ :=
      reserved_of_reservedOverflow hd fun held => missing (known.mp held)
    have old := (same a (job.trans hjob)).mp ha
    refine missing ?_
    obtain ⟨inactive, open_⟩ := DriveAssignment.reserved_iff.mp reserved
    refine ⟨a, old, job.trans hjob, drive, open_, fun current => ?_⟩
    exact (DriveAssignment.active_iff.mp (active_of_getActiveForJob current).2.2).1 inactive

/-- The last writes of an edit that has written nothing before leave the rows
alone exactly when they write what is there. -/
theorem finishUpdate_same_iff (checked : UpdateChecked s jobId body plan) :
    SameRows s jobId (finishUpdate s plan jobId body) ↔
      plan.drive.currentState = .inUse ∧ updatedJob plan body plan.job = plan.job := by
  let written := (s.setDriveState plan.drive.id .inUse).modifyJob jobId (updatedJob plan body)
    (updatedJob_id plan body)
  have frame : (finishUpdate s plan jobId body).jobs = written.jobs ∧
      (finishUpdate s plan jobId body).assignments = s.assignments ∧
      (finishUpdate s plan jobId body).drives = written.drives := by
    rw [finishUpdate]
    split <;> exact ⟨rfl, rfl, rfl⟩
  have row : written.jobs.get jobId = some (updatedJob plan body plan.job) := by
    rw [Db.get_modifyJob]
    show (s.jobs.get jobId).map (updatedJob plan body) = _
    rw [checked.job]
    rfl
  constructor
  · intro same
    have taken : { plan.drive with currentState := .inUse } ∈ s.drives := by
      rw [← same.drives, frame.2.2]
      exact Db.mem_setDriveState.mpr (.inr ⟨plan.drive, checked.drive, rfl, rfl⟩)
    have unchanged := eq_of_id_eq taken checked.drive rfl
    refine ⟨(congrArg UsbDrive.currentState unchanged).symm, ?_⟩
    have job := same.job
    rw [frame.1, row, checked.job] at job
    exact Option.some.inj job
  · rintro ⟨inUse, updated⟩
    refine ⟨?_, fun a _ => by rw [frame.2.1], fun d => ?_⟩
    · rw [frame.1, row, updated, checked.job]
    · rw [frame.2.2]
      have same : ∀ r ∈ s.drives, r.id = plan.drive.id →
          ({ r with currentState := .inUse } : UsbDrive) = r := by
        intro r hr id
        rw [eq_of_id_eq hr checked.drive id, ← inUse]
      constructor
      · intro hd
        rcases Db.mem_setDriveState.mp hd with ⟨old, -⟩ | ⟨r, hr, id, rfl⟩
        · exact old
        · rw [same r hr id]
          exact hr
      · intro hd
        by_cases id : d.id = plan.drive.id
        · exact Db.mem_setDriveState.mpr (.inr ⟨d, hd, id, (same d hd id).symm⟩)
        · exact Db.mem_setDriveState.mpr (.inl ⟨hd, id⟩)

/-- The loop over the overflow drives after the checks. -/
theorem reserveWith_passed (checked : UpdateChecked s jobId body plan) {earlier rest : List Nat}
    (split : body.overflowDriveIds = earlier ++ rest)
    (passes : ∀ d ∈ earlier, PassesOverflow failure s plan jobId d) :
    reserveAddedOverflowWith failure s plan.job plan.drive.id
        (heldDrives (keptAssignments s plan jobId body now) jobId) now body.overflowDriveIds
        (keptAssignments s plan jobId body now) =
        reserveAddedOverflowWith failure s plan.job plan.drive.id
          (heldDrives (keptAssignments s plan jobId body now) jobId) now rest
          (passed s plan jobId body now earlier) ∧
      Agrees (keptAssignments s plan jobId body now) plan.job (passed s plan jobId body now earlier)
        rest := by
  rw [split]
  refine reserveWith_append (split ▸ body.unique) (fun _ _ => ⟨rfl, rfl⟩) fun d hd => ?_
  refine (passes_iff checked ?_).mpr (passes d hd)
  rw [split]
  exact List.mem_append_left rest hd

/-- An edit after its checks, in a run of statements without a failure before the
overflow drives. -/
theorem updateJobWith_eq {cfg : Settings} (planned : updatePlan cfg s jobId body = .ok plan)
    (checks : failure .check = none) (changes : failure .change = none) :
    updateJobWith failure cfg s jobId body now = (do
      let reserved ← reserveAddedOverflowWith failure s plan.job plan.drive.id
        (heldDrives (keptAssignments s plan jobId body now) jobId) now body.overflowDriveIds
        (keptAssignments s plan jobId body now)
      ensure (failure .commit = none) (refuse s 500 "Database error while updating job")
      statement failure (finishUpdate reserved plan jobId body) .refresh
      return finishUpdate reserved plan jobId body) := by
  rw [updateJobWith, planned, statement_ok checks]
  simp only [statement_ok changes]
  rfl

/-- What becomes of the overflow drives: the edit passes them all, is refused at an
audited drive of another project, or is rolled back. -/
theorem reserveWith_outcome (checked : UpdateChecked s jobId body plan) {loop : Except Reject Db}
    (run : reserveAddedOverflowWith failure s plan.job plan.drive.id
      (heldDrives (keptAssignments s plan jobId body now) jobId) now body.overflowDriveIds
      (keptAssignments s plan jobId body now) = loop) :
    ((∀ d ∈ body.overflowDriveIds, PassesOverflow failure s plan jobId d) ∧
      loop = .ok (passed s plan jobId body now body.overflowDriveIds)) ∨
    (∃ earlier d later, body.overflowDriveIds = earlier ++ d :: later ∧
      (∀ e ∈ earlier, PassesOverflow failure s plan jobId e) ∧
      RefusedAudited failure s plan jobId d ∧
      loop = .error (refuse (passed s plan jobId body now earlier) 403
        "Drive belongs to a different project")) ∨
    ∃ e, loop = .error ⟨e, s⟩ := by
  rcases all_or_first (PassesOverflow failure s plan jobId) body.overflowDriveIds with
    passes | ⟨earlier, d, later, split, passes, stopped⟩
  · refine .inl ⟨passes, ?_⟩
    rw [← run, (reserveWith_passed checked (List.append_nil _).symm passes).1]
    rfl
  · have listed : d ∈ body.overflowDriveIds := by simp [split]
    obtain ⟨gone, agrees⟩ := @reserveWith_passed failure s plan jobId now body checked _ _ split passes
    rw [gone] at run
    by_cases audited : RefusedAudited failure s plan jobId d
    · refine .inr (.inl ⟨earlier, d, later, split, passes, audited, ?_⟩)
      rw [← run, reserveWith_audited agrees ((audited_iff checked listed).mpr audited)]
    · refine .inr (.inr ?_)
      rw [← run]
      exact reserveWith_refused agrees (fun h => stopped ((passes_iff checked listed).mp h))
        fun h => audited ((audited_iff checked listed).mp h)

theorem leaves_updateJobWith {cfg : Settings}
    (inTime : ∀ plan, updatePlan cfg s jobId body = .ok plan → failure .check = none →
      failure .change = none → FailsInTime failure s plan jobId body) :
    Leaves (SameRows s jobId) (updateJobWith failure cfg s jobId body now) := by
  have unwritten : ∀ st, Leaves (SameRows s jobId) (statement failure s st) := by
    intro st
    rw [statement]
    split
    · exact .ok ()
    · exact .error (.refl s jobId)
  have succeeded : ∀ {t : Db} {st : EditStatement}, statement failure t st = .ok () →
      failure st = none := by
    intro t st h
    by_contra fails
    obtain ⟨e, he⟩ := @statement_error failure t st fails
    cases he.symm.trans h
  refine .bind (unwritten .check) fun _ checks => ?_
  refine .bind (leaves_updatePlan (.refl s jobId)) fun plan planned => ?_
  refine .bind (unwritten .change) fun _ changes => ?_
  have checked := updatePlan_eq_ok planned
  have inTime := inTime plan planned (succeeded checks) (succeeded changes)
  have rolledBack : Leaves (SameRows s jobId) (reserveAddedOverflowWith failure s plan.job
      plan.drive.id (heldDrives (keptAssignments s plan jobId body now) jobId) now
      body.overflowDriveIds (keptAssignments s plan jobId body now)) := by
    intro r run
    rcases reserveWith_outcome checked run with
      ⟨-, stopped⟩ | ⟨earlier, d, later, split, passes, audited, stopped⟩ | ⟨e, stopped⟩
    · cases stopped
    · obtain rfl := Except.error.inj stopped
      have sub : earlier ⊆ body.overflowDriveIds := by
        rw [split]
        exact List.subset_append_left _ _
      have untouched := inTime.refused earlier d later split passes audited
      show SameRows s jobId (passed s plan jobId body now earlier)
      rw [passed_of_untouched checked sub passes untouched]
      exact .refl s jobId
    · obtain rfl := Except.error.inj stopped
      exact .refl s jobId
  refine .bind rolledBack fun reserved run => ?_
  refine .bind (.ensure (.refl s jobId)) fun _ committed => ?_
  refine .bind ?_ fun _ _ => .pure _
  rw [statement]
  split
  · exact .ok ()
  · rename_i e unread
    rcases reserveWith_outcome checked run with
      ⟨passes, done⟩ | ⟨earlier, d, later, -, -, -, stopped⟩ | ⟨e, stopped⟩
    rotate_left
    · cases stopped
    · cases stopped
    obtain rfl := Except.ok.inj done
    obtain ⟨untouched, same⟩ := inTime.unread passes (ensure_eq_ok.mp committed) (by simp [unread])
    rw [passed_of_untouched checked (List.Subset.refl _) passes untouched]
    exact .error ((finishUpdate_same_iff checked).mpr same)

end Exact

/-- A failed edit leaves the job, its assignments and the drives as they were, if
and only if it has written nothing when it is refused at an audited drive of
another project, and changes nothing when its row cannot be read back. -/
theorem updateJob_atomic_iff (failure : Failures) (cfg : Settings) (s : Db) (jobId : Nat)
    (body : JobBody) (now : Nat) :
    Leaves (SameRows s jobId) (updateJobWith failure cfg s jobId body now) ↔
      ∀ plan, updatePlan cfg s jobId body = .ok plan → failure .check = none →
        failure .change = none → FailsInTime failure s plan jobId body := by
  refine ⟨fun leaves plan planned checks changes => ?_, leaves_updateJobWith⟩
  have checked := updatePlan_eq_ok planned
  have edit := @updateJobWith_eq failure s plan jobId now body cfg planned checks changes
  constructor
  · intro earlier d later split passes audited
    have listed : d ∈ body.overflowDriveIds := by simp [split]
    have sub : earlier ⊆ body.overflowDriveIds := by
      rw [split]
      exact List.subset_append_left _ _
    obtain ⟨loop, agrees⟩ := @reserveWith_passed failure s plan jobId now body checked _ _ split passes
    rw [loop, reserveWith_audited agrees ((audited_iff checked listed).mpr audited)] at edit
    exact untouched_of_same checked sub passes (leaves _ edit).assignments
  · intro passes committed unread
    have loop := (@reserveWith_passed failure s plan jobId now body checked _ []
      (List.append_nil _).symm passes).1
    obtain ⟨e, he⟩ := @statement_error failure
      (finishUpdate (passed s plan jobId body now body.overflowDriveIds) plan jobId body) _ unread
    have same : SameRows s jobId
        (finishUpdate (passed s plan jobId body now body.overflowDriveIds) plan jobId body) := by
      refine leaves ⟨e, _⟩ ?_
      rw [edit, loop, ensure, if_pos committed]
      show (statement failure _ _ >>= _) = _
      rw [he]
      rfl
    have assignments : (finishUpdate (passed s plan jobId body now body.overflowDriveIds) plan jobId
        body).assignments = (passed s plan jobId body now body.overflowDriveIds).assignments := by
      rw [finishUpdate]
      split <;> rfl
    have untouched : Untouched s plan jobId body body.overflowDriveIds :=
      untouched_of_same checked (List.Subset.refl _) passes (assignments ▸ same.assignments)
    rw [passed_of_untouched checked (List.Subset.refl _) passes untouched] at same
    exact ⟨untouched, (finishUpdate_same_iff checked).mp same⟩

/-- The small installation with a drive of project `Q`. -/
def Lab.foreignStart : Db where
  jobs := .empty
  files := .empty
  assignments := .empty
  drives := ⟨[Lab.drive 1 .inUse Lab.projectP, Lab.drive 2 .inUse Lab.projectP,
    Lab.drive 3 .inUse Lab.projectQ], 3, by decide, by decide⟩
  shares := Lab.start.shares

/-- A pending job on drive 1. -/
def Lab.foreignJob : Db :=
  step Lab.settings Lab.foreignStart ⟨1, .createJob (Lab.body "/data/a" (some 1) none) none⟩

/-- An edit that moves the job to drive 2 and lists the foreign drive 3 is
refused, and the job has left drive 1. -/
theorem updateJob_refused_moves_job :
    Accepted Lab.settings Lab.foreignStart
        ⟨1, .createJob (Lab.body "/data/a" (some 1) none) none⟩ ∧
      ¬ Leaves (SameRows Lab.foreignJob 1) (updateJobWith (fun _ => none) Lab.settings Lab.foreignJob
        1 (Lab.body "/data/a" (some 2) (some 3)) 2) := by
  refine ⟨by decide, fun leaves => ?_⟩
  cases edit : updateJobWith (fun _ => none) Lab.settings Lab.foreignJob 1
      (Lab.body "/data/a" (some 2) (some 3)) 2 with
  | ok t =>
      have refused : (updateJobWith (fun _ => none) Lab.settings Lab.foreignJob 1
        (Lab.body "/data/a" (some 2) (some 3)) 2).isOk = false := by decide
      rw [edit] at refused
      cases refused
  | error r =>
      have left : (⟨1, 1, 1, 1, some 1, none⟩ : DriveAssignment) ∉
          (settle (updateJobWith (fun _ => none) Lab.settings Lab.foreignJob 1
            (Lab.body "/data/a" (some 2) (some 3)) 2)).assignments.rows := by decide
      have here : (⟨1, 1, 1, 1, some 1, none⟩ : DriveAssignment) ∈
          Lab.foreignJob.assignments.rows := by decide
      rw [edit] at left
      exact left (((leaves r edit).assignments _ rfl).mpr here)

end Ecube
