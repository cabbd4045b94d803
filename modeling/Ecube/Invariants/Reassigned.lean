import Ecube.Invariants.Consistent
import Ecube.Services.Handoff

/-!
One assignment row for a job and a drive.

The handoff of a job's drive reads the assignment of the drive with
`one_or_none`, over all rows the job has ever had. Rows are released and
activated but never removed before their job, so a job that is put back on a
drive has two rows for it and the handoff of the drive fails. Runs that put no
job back keep the rows apart, whatever else they do.
-/

namespace Ecube

open Table Transition

/-- The job and the drive of every assignment row, released rows included. -/
def holdings (s : Db) : List (Nat × Nat) :=
  s.assignments.rows.map fun a => (a.jobId, a.driveId)

instance (s : Db) (pair : Nat × Nat) : Decidable (pair ∈ holdings s) :=
  inferInstanceAs (Decidable (pair ∈ List.map _ _))

section Holdings

variable {s t : Db} {jobId driveId now : Nat}

theorem mem_holdings {pair : Nat × Nat} :
    pair ∈ holdings s ↔ ∃ a ∈ s.assignments, (a.jobId, a.driveId) = pair :=
  List.mem_map

theorem holdings_congr (same : t.assignments = s.assignments) : holdings t = holdings s := by
  rw [holdings, holdings, same]

/-- A write that keeps the job and the drive of the rows. -/
theorem holdings_modify {k : Nat} {f : DriveAssignment → DriveAssignment}
    {key : ∀ a, (f a).id = a.id} (same : ∀ a, (f a).jobId = a.jobId ∧ (f a).driveId = a.driveId) :
    holdings { s with assignments := s.assignments.modify k f key } = holdings s := by
  simp only [holdings, Table.modify, update, List.map_map]
  apply List.map_congr_left
  intro a _
  dsimp only [Function.comp]
  split
  · rw [(same a).1, (same a).2]
  · rfl

@[simp]
theorem holdings_releaseAssignment {k : Nat} :
    holdings (s.releaseAssignment k now) = holdings s :=
  holdings_modify fun _ => ⟨rfl, rfl⟩

@[simp]
theorem holdings_activateAssignment {k : Nat} :
    holdings (s.activateAssignment k now) = holdings s :=
  holdings_modify fun _ => ⟨rfl, rfl⟩

@[simp]
theorem holdings_addAssignment {activatedAt : Option Nat} :
    holdings (s.addAssignment driveId jobId now activatedAt) = holdings s ++ [(jobId, driveId)] :=
  List.map_append

@[simp]
theorem holdings_setDriveState {k : Nat} {state : DriveState} :
    holdings (s.setDriveState k state) = holdings s := rfl

@[simp]
theorem holdings_modifyJob {k : Nat} {f : ExportJob → ExportJob} {key : ∀ r, (f r).id = r.id} :
    holdings (s.modifyJob k f key) = holdings s := rfl

@[simp]
theorem holdings_leaveDrive {a : DriveAssignment} : holdings (leaveDrive s a now) = holdings s := by
  rw [leaveDrive]
  split <;> simp

theorem holdings_releaseDroppedOverflow {dropped : List DriveAssignment} :
    holdings (releaseDroppedOverflow now dropped s) = holdings s := by
  refine releaseDroppedOverflow_rule (P := fun t => holdings t = holdings s) ?_ rfl
  intro t a _ same
  exact ⟨by simp [same], fun _ => by simp [same]⟩

/-- An edit adds a row for the primary drive if it moves the job. -/
theorem holdings_keptAssignments {plan : UpdatePlan} {body : JobBody} :
    holdings (keptAssignments s plan jobId body now) =
        holdings s ++ [(plan.job.id, plan.drive.id)] ∧ plan.Moves ∨
      holdings (keptAssignments s plan jobId body now) = holdings s := by
  rw [keptAssignments, holdings_releaseDroppedOverflow, changePrimaryDrive]
  split
  · exact .inr rfl
  · rename_i pending
    rw [Bool.not_eq_true] at pending
    split
    · rename_i idle
      refine .inl ⟨holdings_addAssignment, pending, ?_⟩
      simp [idle]
    · rename_i active current
      split
      · exact .inr rfl
      · rename_i other
        refine .inl ⟨by simp, pending, ?_⟩
        simpa [current] using other

theorem nodup_concat {pairs : List (Nat × Nat)} {pair : Nat × Nat} (once : pairs.Nodup)
    (new : pair ∉ pairs) : (pairs ++ [pair]).Nodup :=
  List.nodup_append.mpr ⟨once, List.nodup_singleton pair, by
    intro a ha b hb same
    rw [List.mem_singleton] at hb
    exact new (hb ▸ same ▸ ha)⟩

end Holdings

/-! ### Putting a job back -/

/-- An edit or a continuation, as far as it is checked before the first write,
puts a job on a drive that it has an assignment of, except by activating or
keeping a reservation. -/
def PutsBack (cfg : Settings) (s : Db) : Event → Prop
  | .updateJob jobId body => ∃ plan, updatePlan cfg s jobId body = .ok plan ∧
      (plan.Moves ∧ (jobId, plan.drive.id) ∈ holdings s ∨
        ∃ d ∈ body.overflowDriveIds, d ≠ plan.drive.id ∧ (jobId, d) ∈ holdings s ∧
          s.getReservedForJobAndDrive jobId d = none)
  | .continueJobOverflow jobId driveId _ => (∃ plan, overflowPlan cfg s jobId driveId = .ok plan) ∧
      (jobId, driveId) ∈ holdings s ∧ s.getReservedForJobAndDrive jobId driveId = none
  | _ => False

theorem mem_of_getReserved {s : Db} {jobId driveId : Nat} {r : DriveAssignment}
    (h : s.getReservedForJobAndDrive jobId driveId = some r) :
    r ∈ s.assignments ∧ r.jobId = jobId ∧ r.driveId = driveId ∧ r.reserved = true := by
  obtain ⟨mem, hp⟩ := mem_of_first h
  exact ⟨mem, of_decide_eq_true hp⟩

theorem getReserved_ne_none {s : Db} {r : DriveAssignment} (mem : r ∈ s.assignments)
    (reserved : r.reserved = true) : s.getReservedForJobAndDrive r.jobId r.driveId ≠ none := by
  intro missing
  have := first_eq_none_iff.mp missing r mem
  simp [reserved] at this

/-- A reservation is not the active assignment of its job. -/
theorem reserved_ne_active {s : Db} {jobId : Nat} {r a : DriveAssignment}
    (reserved : r.reserved = true) (current : s.getActiveForJob jobId = some a) : r ≠ a := by
  rintro rfl
  obtain ⟨-, -, active⟩ := active_of_getActiveForJob current
  exact (DriveAssignment.active_iff.mp active).1 (DriveAssignment.reserved_iff.mp reserved).1

section Steps

variable {cfg : Settings} {s s' : Db} {jobId driveId now : Nat}

/-- A listed drive that the job has reserved is still held after unlisted
reservations are released. -/
theorem mem_heldDrives_of_reserved {body : JobBody} {plan : UpdatePlan}
    (checked : UpdateChecked s jobId body plan) {r : DriveAssignment} (hr : r ∈ s.assignments)
    (job : r.jobId = jobId) (reserved : r.reserved = true)
    (listed : r.driveId ∈ body.overflowDriveIds) :
    r.driveId ∈ heldDrives (keptAssignments s plan jobId body now) jobId := by
  have moved : r ∈ (changePrimaryDrive s plan now).assignments := by
    apply mem_changePrimaryDrive checked hr
    intro current
    exact reserved_ne_active reserved (checked.current.symm.trans current) rfl
  have kept : r ∈ (keptAssignments s plan jobId body now).assignments := by
    apply mem_releaseDroppedOverflow moved
    intro dropped
    obtain ⟨a, ha, same⟩ := List.mem_map.mp dropped
    obtain ⟨ha, unlisted⟩ := List.mem_filter.mp ha
    rw [eq_of_id_eq (mem_select.mp ha).1 hr same] at unlisted
    exact (of_decide_eq_true unlisted).2 listed
  refine List.mem_map_of_mem (List.mem_filter.mpr ⟨mem_select.mpr ⟨kept, by simp [job]⟩, ?_⟩)
  simp [(DriveAssignment.reserved_iff.mp reserved).2]

theorem nodup_createJob (inv : Consistent s) (once : (holdings s).Nodup) {body : JobBody}
    {seeded : Option Nat} (h : createJob cfg s body seeded now = .ok s') :
    (holdings s').Nodup := by
  obtain ⟨s₁, jobId, drive, sourcePath, resolved, inserted, -, -, -, -, -, overflow⟩ :=
    createJob_eq_ok h
  obtain ⟨⟨jobs, rfl⟩, -, fresh⟩ := insertJob_eq_ok inserted
  have unused : ∀ a ∈ s.assignments, a.jobId ≠ jobId := by
    intro a ha same
    obtain ⟨j, hj, hid⟩ := inv.job a ha
    exact fresh j hj (hid.trans same)
  -- The rows of the new job are unreleased, and no unreleased row is on a drive to reserve.
  refine (reserveOverflowDrives_rule (P := fun t => (holdings t).Nodup ∧
    ∀ a ∈ t.assignments, a.jobId = jobId → a.releasedAt = none) ?_ ⟨?_, ?_⟩ overflow).1
  · rintro t d ⟨oncet, open_⟩ - - - free
    constructor
    · rw [holdings_setDriveState, holdings_addAssignment]
      apply nodup_concat oncet
      intro held
      obtain ⟨a, ha, same⟩ := mem_holdings.mp held
      obtain ⟨job, onDrive⟩ := Prod.mk.inj same
      exact free a ha (open_ a ha job) onDrive
    · intro a ha job
      rcases Db.mem_addAssignment.mp ha with ha | rfl
      · exact open_ a ha job
      · rfl
  · rw [assignPrimaryDrive, holdings_modifyJob, holdings_addAssignment]
    apply nodup_concat once
    intro held
    obtain ⟨a, ha, same⟩ := mem_holdings.mp held
    exact unused a ha (Prod.mk.inj same).1
  · intro a ha job
    rcases Db.mem_addAssignment.mp ha with ha | rfl
    · exact absurd job (unused a ha)
    · rfl

theorem nodup_updateJob (once : (holdings s).Nodup) {body : JobBody}
    (clean : ¬ PutsBack cfg s (.updateJob jobId body)) :
    (∀ s', updateJob cfg s jobId body now = .ok s' → (holdings s').Nodup) ∧
      Leaves (fun t => (holdings t).Nodup) (updateJob cfg s jobId body now) := by
  -- The job has no row for a drive still to be reserved, unless it holds the drive.
  refine updateJob_rule (P := fun plan rest t => (holdings t).Nodup ∧ rest.Nodup ∧
    ∀ d ∈ rest, d ≠ plan.drive.id → d ∉ heldDrives (keptAssignments s plan jobId body now) jobId →
      (jobId, d) ∉ holdings t) once (fun _ _ _ _ _ _ _ h _ _ _ => h.1) ?_ ?_ ?_ ?_
  · rintro plan driveId rest t ⟨oncet, nodup, new⟩
    exact ⟨oncet, nodup.of_cons, fun d hd => new d (List.mem_cons_of_mem driveId hd)⟩
  · intro plan planned checked
    have hjob : plan.job.id = jobId := id_of_get checked.job
    have old : ∀ d ∈ body.overflowDriveIds, d ≠ plan.drive.id →
        d ∉ heldDrives (keptAssignments s plan jobId body now) jobId → (jobId, d) ∉ holdings s := by
      intro d listed other unheld held
      refine clean ⟨plan, planned, .inr ⟨d, listed, other, held, ?_⟩⟩
      by_contra found
      obtain ⟨r, found⟩ := Option.ne_none_iff_exists'.mp found
      obtain ⟨hr, job, rfl, reserved⟩ := mem_of_getReserved found
      exact unheld (mem_heldDrives_of_reserved checked hr job reserved listed)
    rcases @holdings_keptAssignments s jobId now plan body with ⟨rows, moves⟩ | rows
    · refine ⟨?_, body.unique, fun d listed other unheld held => ?_⟩
      · rw [rows, hjob]
        exact nodup_concat once fun held => clean ⟨plan, planned, .inl ⟨moves, held⟩⟩
      · rw [rows, List.mem_append, List.mem_singleton] at held
        rcases held with held | new
        · exact old d listed other unheld held
        · exact other (Prod.mk.inj new).2
    · rw [rows]
      exact ⟨once, body.unique, old⟩
  · rintro plan checked rest t d ⟨oncet, nodup, new⟩ - other unheld - - -
    obtain rfl : plan.job.id = jobId := id_of_get checked.job
    rw [holdings_setDriveState, holdings_addAssignment]
    refine ⟨nodup_concat oncet (new d.id List.mem_cons_self other unheld), nodup.of_cons, ?_⟩
    intro d' hd' other' unheld' held
    rcases List.mem_append.mp held with held | added
    · exact new d' (List.mem_cons_of_mem d.id hd') other' unheld' held
    · rw [(Prod.mk.inj (List.mem_singleton.mp added)).2] at hd'
      exact (List.nodup_cons.mp nodup).1 hd'
  · rintro plan - t ⟨oncet, -⟩
    rw [finishUpdate]
    split <;> exact oncet

theorem nodup_continueJobOverflow (once : (holdings s).Nodup) {threadCount : Option Nat}
    (clean : ¬ PutsBack cfg s (.continueJobOverflow jobId driveId threadCount))
    (h : continueJobOverflow cfg s jobId driveId threadCount now = .ok s') :
    (holdings s').Nodup := by
  simp only [continueJobOverflow, bind_eq_ok, pure_eq_ok] at h
  obtain ⟨plan, planned, rfl⟩ := h
  have current := (overflowPlan_eq_ok planned).active
  change (holdings (activateReservedOrNewAssignment (leaveDrive _ plan.active now) jobId driveId
    now)).Nodup
  rw [activateReservedOrNewAssignment]
  split
  · rw [holdings_activateAssignment, holdings_leaveDrive]
    exact once
  · rename_i missing
    rw [holdings_addAssignment, holdings_leaveDrive]
    refine nodup_concat once fun held => clean ⟨⟨plan, planned⟩, held, ?_⟩
    -- A reservation is not left, so it would have been found.
    by_contra found
    obtain ⟨r, found⟩ := Option.ne_none_iff_exists'.mp found
    obtain ⟨hr, rfl, rfl, reserved⟩ := mem_of_getReserved found
    have other : r.id ≠ plan.active.id := fun same =>
      reserved_ne_active reserved current
        (eq_of_id_eq hr (active_of_getActiveForJob current).1 same)
    refine getReserved_ne_none ?_ reserved missing
    exact mem_leaveDrive.mpr (Db.mem_releaseAssignment.mpr (.inl ⟨hr, other⟩))

/-- An action that does not put a job back gives no job a second row for a drive. -/
theorem nodup_step (inv : Consistent s) (once : (holdings s).Nodup) (a : Action)
    (clean : ¬ PutsBack cfg s a.event) : (holdings (step cfg s a)).Nodup := by
  refine step_writes (P := fun t => (holdings t).Nodup) (fun t w => ?_) (fun t w => ?_)
    (fun body seeded s' _ h => nodup_createJob inv once h) (fun jobId body event => ?_)
    (fun jobId s' _ h => ?_) (fun jobId driveId threadCount s' event h => ?_)
    fun jobId probe _ _ => ?_
  · rw [holdings_congr w.assignments]
    exact once
  · rw [holdings_congr w.assignments]
    exact once
  · rw [event] at clean
    exact nodup_updateJob once clean
  · obtain ⟨job, freed, -, -, hfreed, rfl⟩ := deleteJob_eq_ok h
    have same : freed.assignments = s.assignments := by
      rcases hfreed with rfl | ⟨a, -, -, rfl⟩ <;> rfl
    refine once.sublist ?_
    simp only [holdings, delete, same]
    exact List.filter_sublist.map _
  · rw [event] at clean
    exact nodup_continueJobOverflow once clean h
  · rcases @resolveTargetFullOutcome_rule (fun t => holdings t = holdings s) s jobId a.now probe rfl
      (fun t k v same => same) with
      h | ⟨job, active, next, drive, probed, -, -, same, -, h⟩
    · rw [h.2]
      exact once
    · rw [h]
      change (holdings ((probed.releaseAssignment _ _).activateAssignment _ _)).Nodup
      rw [holdings_activateAssignment, holdings_releaseAssignment, same]
      exact once

end Steps

/-! ### Handoffs -/

open Custody

/-- The tables that the custody service reads have the same assignment rows. -/
def SameAssignments (s : Db) (db : CustodyDb) : Prop :=
  (db.assignments.rows.map fun a => (a.id, a.jobId, a.driveId)) =
    s.assignments.rows.map fun a => (a.id, a.jobId, a.driveId)

instance (s : Db) (db : CustodyDb) : Decidable (SameAssignments s db) :=
  inferInstanceAs (Decidable (_ = _))

/-- The errors that the number of assignment rows decides. -/
def CountError (e : HandoffError) : Prop := e = .notAssigned ∨ e = .multipleResults

/-- The handoff of every drive that a job has an assignment of passes the lookup
of the assignment. -/
def HandoffsAssigned (s : Db) : Prop :=
  ∀ (db : CustodyDb) (fromisoformat : IsoFormat) (o : Occasion) (jobId : Nat)
    (payload : ChainOfCustodyHandoffRequest) (e : HandoffError), SameAssignments s db →
    (jobId, payload.driveId) ∈ holdings s →
    (db.confirmJobChainOfCustodyHandoff fromisoformat o jobId payload).2 = .error e → ¬ CountError e

section Handoffs

variable {s : Db} {db : CustodyDb} {fromisoformat : IsoFormat} {o : Occasion}
  {payload : ChainOfCustodyHandoffRequest} {jobId driveId : Nat}

/-- The recording of a handoff does not read assignments. -/
theorem not_countError_of_confirm {jobId lifecycleStartAt : Option Nat} {e : HandoffError}
    (h : (db.confirmChainOfCustodyHandoff fromisoformat o payload jobId lifecycleStartAt).2 =
      .error e) : ¬ CountError e := by
  have response : ∀ entry, handoffResponse fromisoformat entry = .error e → ¬ CountError e := by
    intro entry h
    rw [handoffResponse] at h
    cases recorded : entry.timestamp with
    | none =>
        obtain rfl : HandoffError.invalidEvent = e := by simpa [recorded, orReject] using h
        simp [CountError]
    | some t => simp [recorded, orReject] at h
  have record : ∀ drive projectId start,
      (db.recordHandoff fromisoformat o payload drive projectId start).2 = .error e →
        ¬ CountError e := by
    intro drive projectId start h
    rw [CustodyDb.recordHandoff] at h
    split at h
    · exact response _ h
    · split at h
      · cases h
        simp [CountError]
      · split at h
        · exact response _ h
        · cases h
          simp [CountError]
  rw [CustodyDb.confirmChainOfCustodyHandoff] at h
  split at h
  · cases h
    simp [CountError]
  · split at h
    · cases h
      simp [CountError]
    · exact record _ _ _ h
    · exact record _ _ _ h
    · split at h
      · exact record _ _ _ h
      · cases h
        simp [CountError]

theorem map_assignments (same : SameAssignments s db) :
    (db.assignments.rows.map fun a => (a.jobId, a.driveId)) = holdings s := by
  have := congrArg (List.map Prod.snd) same
  simpa [List.map_map, Function.comp_def, holdings] using this

/-- Without a second row, the lookup of an assigned drive finds one row. -/
theorem assignmentsTo_eq_singleton (once : (holdings s).Nodup) (same : SameAssignments s db)
    (held : (jobId, driveId) ∈ holdings s) : ∃ a, db.assignmentsTo jobId driveId = [a] := by
  rw [← List.length_eq_one_iff]
  apply Nat.le_antisymm
  · have alike : (db.assignmentsTo jobId driveId).map (fun a => (a.jobId, a.driveId)) =
        List.replicate (db.assignmentsTo jobId driveId).length (jobId, driveId) := by
      rw [List.eq_replicate_iff, List.length_map]
      refine ⟨rfl, fun pair found => ?_⟩
      obtain ⟨a, ha, rfl⟩ := List.mem_map.mp found
      obtain ⟨job, drive⟩ := of_decide_eq_true (List.mem_filter.mp ha).2
      rw [job, drive]
    rw [← List.nodup_replicate (a := (jobId, driveId)), ← alike]
    rw [← map_assignments same] at once
    exact once.sublist (List.filter_sublist.map _)
  · rw [← map_assignments same] at held
    obtain ⟨a, ha, pair⟩ := List.mem_map.mp held
    obtain ⟨job, drive⟩ := Prod.mk.inj pair
    exact List.length_pos_of_mem (List.mem_filter.mpr ⟨ha, by simp [job, drive]⟩)

theorem handoffsAssigned_of_nodup (once : (holdings s).Nodup) : HandoffsAssigned s := by
  intro db fromisoformat o jobId payload e same held h
  rw [CustodyDb.confirmJobChainOfCustodyHandoff] at h
  split at h
  · cases h
    simp [CountError]
  · rename_i job found
    obtain rfl : job.id = jobId := id_of_get found
    obtain ⟨a, single⟩ := assignmentsTo_eq_singleton once same held
    split at h
    · cases h
      simp [CountError]
    · rw [single] at h
      dsimp only at h
      split at h
      · rename_i failed
        cases h
        exact not_countError_of_confirm (congrArg Prod.snd failed)
      · split at h
        · cases h
        · cases h
          simp [CountError]

end Handoffs

/-- Unless a job is put back on a drive, every drive that a job has an assignment
of can be handed off, in any order of requests, continuations and deletions. -/
theorem handoffs_assigned_of_run {cfg : Settings} {s : Db} {actions : List Action}
    (initial : Initial s)
    (clean : Along (step cfg) (fun s a => ¬ PutsBack cfg s a.event) s actions) :
    Always (step cfg) HandoffsAssigned s actions := by
  have once : (holdings s).Nodup := by
    rw [List.eq_nil_iff_forall_not_mem.mpr fun pair held =>
      have ⟨a, ha, _⟩ := mem_holdings.mp held
      initial.noAssignments a ha]
    exact List.nodup_nil
  have keep : ∀ s a, Consistent s ∧ (holdings s).Nodup → ¬ PutsBack cfg s a.event →
      Consistent (step cfg s a) ∧ (holdings (step cfg s a)).Nodup :=
    fun s a inv clean => ⟨inv.1.step cfg a, nodup_step inv.1 inv.2 a clean⟩
  exact (always_of_along keep ⟨initial.consistent, once⟩ clean).mono fun t inv =>
    handoffsAssigned_of_nodup inv.2

/-- A job goes on to a drive that it had not reserved. -/
def continuedRun : List Action :=
  [⟨1, .createJob (Lab.body "/data/a" (some 1) none) none⟩, ⟨2, .continueJobOverflow 1 2 none⟩]

theorem handoffs_assigned_continuedRun :
    holdings (exec (step Lab.settings) Lab.start continuedRun) = [(1, 1), (1, 2)] ∧
      Always (step Lab.settings) HandoffsAssigned Lab.start continuedRun := by
  refine ⟨by decide, handoffs_assigned_of_run Lab.start_initial ⟨id, fun back => ?_, trivial⟩⟩
  exact absurd back.2.1 (by decide)

/-- A job is moved to another drive and back. -/
def putBackRun : List Action :=
  [⟨1, .createJob (Lab.body "/data/a" (some 1) none) none⟩,
    ⟨2, .updateJob 1 (Lab.body "/data/a" (some 2) none)⟩,
    ⟨3, .updateJob 1 (Lab.body "/data/a" (some 1) none)⟩]

namespace PutBack

def db : CustodyDb where
  auditLogs := Table.empty
  jobs := ⟨[⟨1, Lab.projectP, "E1".toList, .pending, some 1, none, none⟩], 1, by decide, by decide⟩
  assignments := ⟨[⟨1, 1, 1, 0, 0, some 1⟩, ⟨2, 2, 1, 0, 0, some 2⟩, ⟨3, 1, 1, 0, 0, some 3⟩], 3,
    by decide, by decide⟩
  drives := ⟨[⟨1, "usb|serial=S".toList, none, none, none, some Lab.projectP⟩,
    ⟨2, "usb|serial=T".toList, none, none, none, some Lab.projectP⟩], 2, by decide, by decide⟩
  manifests := Table.empty
  snapshots := Table.empty
  job_pos := by decide
  assigned_drive := by decide

def request : ChainOfCustodyHandoffRequest where
  driveId := 1
  projectId := none
  possessor := ⟨"Evidence Locker".toList, by decide⟩
  deliveryTime := ⟨2026, 4, 10, 14, 22, 31, 0⟩
  receivedBy := none
  receiptRef := none
  notes := none
  possessor_ne_nil := by decide

end PutBack

/-- The drive has two assignments of the job, and its handoff fails. -/
theorem handoffs_assigned_putBack :
    Along (step Lab.settings) (Accepted Lab.settings) Lab.start putBackRun ∧
      ¬ ∀ actions, Always (step Lab.settings) HandoffsAssigned Lab.start actions := by
  refine ⟨by decide, fun assigned => ?_⟩
  have final := (assigned putBackRun).last PutBack.db (fun _ => none) ⟨none, 20, true, true, true⟩ 1
    PutBack.request .multipleResults (by decide) (by decide) rfl
  exact final (.inr rfl)

end Ecube
