import Ecube.Basic.Transition
import Ecube.Invariants.CustodySummary
import Ecube.Services.Handoff

/-!
Runs of handoff requests.

`handoffs_recorded_once`: in every run of requests, of jobs and of drives in any
order and with other audit events between them, a lifecycle of a job and a drive has
at most one handoff; and a request that succeeded is stored with its texts and
answered with the same event whenever it is repeated, if each request is stored as
it was submitted and no handoff with its texts lies outside its lifecycle
(`Clean`). The sanitizer changes other texts, and the request then conflicts with
the event it recorded itself (`handoff_repeat_conflicts`).
-/

namespace Ecube.Custody

open OrderBy AuditText CustodyDb Transition

/-! ### Requests and runs -/

/-- A request for a drive, or for a drive of a job. -/
structure HandoffRequest where
  jobId : Option Nat
  payload : ChainOfCustodyHandoffRequest

def submit (fromisoformat : IsoFormat) (db : CustodyDb) (o : Occasion) (r : HandoffRequest) :
    CustodyDb × Except HandoffError HandoffResponse :=
  match r.jobId with
  | none => db.confirmChainOfCustodyHandoff fromisoformat o r.payload none none
  | some jobId => db.confirmJobChainOfCustodyHandoff fromisoformat o jobId r.payload

/-- An event that neither confirms a handoff nor initializes a drive. -/
def isOther (action : AuditAction) : Prop :=
  action ≠ .drive .cocHandoffConfirmed ∧ action ≠ .drive .driveInitialized

inductive Action where
  | handoff (o : Occasion) (r : HandoffRequest)
  | audit (row : Nat → AuditLog) (key : ∀ id, (row id).id = id) (other : ∀ id, isOther (row id).action)

def step (fromisoformat : IsoFormat) (db : CustodyDb) : Action → CustodyDb
  | .handoff o r => (submit fromisoformat db o r).1
  | .audit row key _ => db.addAudit row key

/-! ### What a request refers to -/

def effectiveProject (payload : ChainOfCustodyHandoffRequest) (drive : Drive) : Option ProjectId :=
  match payload.projectId, drive.currentProjectId with
  | none, bound => bound
  | some requested, none => some requested
  | some requested, some bound => if requested = bound then some requested else none

/-- The drive, the project and the lifecycle of a request that is not refused before
the handoffs are looked at. -/
structure Target where
  drive : Drive
  projectId : ProjectId
  start : LifecycleStart

def driveTarget (db : CustodyDb) (payload : ChainOfCustodyHandoffRequest)
    (jobId lifecycleStartAt : Option Nat) : Option Target :=
  (db.drives.get payload.driveId).bind fun drive =>
    (effectiveProject payload drive).map fun projectId =>
      ⟨drive, projectId, db.requestLifecycle drive.id projectId jobId lifecycleStartAt⟩

def target (db : CustodyDb) (r : HandoffRequest) : Option Target :=
  match r.jobId with
  | none => driveTarget db r.payload none none
  | some jobId =>
      (db.jobs.get jobId).bind fun job =>
        if r.payload.projectId.any fun given => given ≠ job.projectId then none
        else match db.assignmentsTo job.id r.payload.driveId with
          | [assignment] => driveTarget db r.payload (some job.id)
              (jobDriveLifecycleStartAt job (some assignment))
          | _ => none

/-- The request is stored with the texts it was submitted with. -/
def PlainRequest (r : HandoffRequest) : Prop :=
  Plain r.payload.possessor.1 ∧ ∀ text ∈ r.payload.receiptRef, Plain text.1

/-- The request is stored as submitted, the clock has not fallen behind the start of
the lifecycle, and no handoff with the texts of the request lies outside the lifecycle. -/
def Clean (db : CustodyDb) : Action → Prop
  | .audit .. => True
  | .handoff o r => PlainRequest r ∧ ∀ t, target db r = some t →
      (∀ start ∈ t.start.startAt, start ≤ o.now) ∧
      ∀ e ∈ db.handoffCandidates t.drive.id t.projectId,
        sameContract r.payload e = true → t.start.matches e = true

/-- The event is of the job on the drive, or of no job. -/
def ofJob (db : CustodyDb) (job : Option Job) (driveId : Nat) (e : AuditLog) : Prop :=
  match job with
  | none => e.jobId = none
  | some job =>
      handoffEventMatchesJobLifecycle e (some job.id) (db.lifecycleStart job driveId) none = true

/-- The event belongs to the lifecycle of the drive since its last initialization, and
to the one of the job. -/
def inLifecycle (db : CustodyDb) (job : Option Job) (driveId : Nat) (projectId : ProjectId)
    (e : AuditLog) : Prop :=
  e ∈ db.handoffCandidates driveId projectId ∧
    (db.requestLifecycle driveId projectId none none).matches e = true ∧ ofJob db job driveId e

/-- At most one handoff in each lifecycle. -/
def OnePerLifecycle (db : CustodyDb) : Prop :=
  ∀ (job : Option Job) (driveId : Nat) (projectId : ProjectId) (e e' : AuditLog),
    (∀ j ∈ job, j ∈ db.jobs) → inLifecycle db job driveId projectId e →
    inLifecycle db job driveId projectId e' → e = e'

/-- The request is answered with the event. -/
def Settled (db : CustodyDb) (r : HandoffRequest) (e : AuditLog) : Prop :=
  ∃ t, target db r = some t ∧
    db.findExistingHandoffEvent t.drive.id t.projectId t.start r.payload = some e

section Runs

variable {fromisoformat : IsoFormat} {db : CustodyDb} {o : Occasion} {r : HandoffRequest}

/-! ### What a request does -/

/-- What a request of the drive does, whichever lifecycle it is for. -/
theorem confirm_eq {payload : ChainOfCustodyHandoffRequest} {jobId startAt : Option Nat} :
    match driveTarget db payload jobId startAt with
    | some t => db.confirmChainOfCustodyHandoff fromisoformat o payload jobId startAt =
        db.recordHandoff fromisoformat o payload t.drive t.projectId t.start
    | none => ∃ e, (db.confirmChainOfCustodyHandoff fromisoformat o payload jobId startAt).2 =
          .error e ∧
        ((db.confirmChainOfCustodyHandoff fromisoformat o payload jobId startAt).1 = db ∨
          ∃ row key, (∀ id, isOther (row id).action) ∧
            (db.confirmChainOfCustodyHandoff fromisoformat o payload jobId startAt).1 =
              db.addAudit row key) := by
  rw [driveTarget, confirmChainOfCustodyHandoff]
  cases found : db.drives.get payload.driveId with
  | none => exact ⟨_, rfl, .inl rfl⟩
  | some drive =>
      simp only [Option.bind_some, effectiveProject]
      cases given : payload.projectId with
      | none =>
          cases bound : drive.currentProjectId with
          | none => exact ⟨_, rfl, .inl rfl⟩
          | some project => rfl
      | some requested =>
          cases bound : drive.currentProjectId with
          | none => rfl
          | some project =>
              by_cases same : requested = project
              · simp only [same, if_true, Option.map_some]
              · simp only [same, if_false, Option.map_none, logViolation]
                refine ⟨_, rfl, ?_⟩
                cases o.violationLogged with
                | false => exact .inl rfl
                | true =>
                    exact .inr ⟨violationRow o drive requested project, violationRow_id,
                      fun _ => ⟨by simp [violationRow], by simp [violationRow]⟩, rfl⟩

/-- What any request does. -/
theorem submit_eq :
    match target db r with
    | some t =>
        let recorded := db.recordHandoff fromisoformat o r.payload t.drive t.projectId t.start
        (submit fromisoformat db o r).1 = recorded.1 ∧
          ∀ response, (submit fromisoformat db o r).2 = .ok response ↔
            recorded.2 = .ok response ∧ (r.jobId = none ∨ o.followedUp = true)
    | none => (∀ response, (submit fromisoformat db o r).2 ≠ .ok response) ∧
        ((submit fromisoformat db o r).1 = db ∨ ∃ row key, (∀ id, isOther (row id).action) ∧
          (submit fromisoformat db o r).1 = db.addAudit row key) := by
  rw [target, submit]
  cases named : r.jobId with
  | none =>
      have confirmed := @confirm_eq fromisoformat db o r.payload none none
      simp only
      cases aimed : driveTarget db r.payload none none with
      | some t =>
          rw [aimed] at confirmed
          simp only at confirmed ⊢
          rw [confirmed]
          exact ⟨rfl, fun response => by simp⟩
      | none =>
          rw [aimed] at confirmed
          obtain ⟨e, refused, kept⟩ := confirmed
          refine ⟨fun response accepted => ?_, kept⟩
          rw [refused] at accepted
          cases accepted
  | some jobId =>
      simp only [confirmJobChainOfCustodyHandoff]
      cases found : db.jobs.get jobId with
      | none => exact ⟨fun _ => nofun, .inl rfl⟩
      | some job =>
          simp only [Option.bind_some]
          by_cases wrong : r.payload.projectId.any (fun given => given ≠ job.projectId) = true
          · rw [if_pos wrong, if_pos wrong]
            exact ⟨fun _ => nofun, .inl rfl⟩
          · rw [if_neg wrong, if_neg wrong]
            match listed : db.assignmentsTo job.id r.payload.driveId with
            | [] => exact ⟨fun _ => nofun, .inl rfl⟩
            | _ :: _ :: _ => exact ⟨fun _ => nofun, .inl rfl⟩
            | [assignment] =>
                have confirmed := @confirm_eq fromisoformat db o r.payload (some job.id)
                  (jobDriveLifecycleStartAt job (some assignment))
                simp only
                cases aimed : driveTarget db r.payload (some job.id)
                  (jobDriveLifecycleStartAt job (some assignment)) with
                | some t =>
                    rw [aimed] at confirmed
                    simp only at confirmed ⊢
                    rw [confirmed]
                    cases recorded : db.recordHandoff fromisoformat o r.payload t.drive t.projectId
                      t.start with
                    | mk db' result =>
                        cases result with
                        | error e => exact ⟨rfl, fun response => by simp⟩
                        | ok answer =>
                            cases o.followedUp with
                            | true => exact ⟨rfl, fun response => by simp⟩
                            | false => exact ⟨rfl, fun response => by simp⟩
                | none =>
                    rw [aimed] at confirmed
                    obtain ⟨e, refused, kept⟩ := confirmed
                    cases result : db.confirmChainOfCustodyHandoff fromisoformat o r.payload
                      (some job.id) (jobDriveLifecycleStartAt job (some assignment)) with
                    | mk db' answer =>
                        rw [result] at refused kept
                        cases refused
                        exact ⟨fun _ => nofun, kept⟩

theorem recordHandoff_cases {t : Target} {payload : ChainOfCustodyHandoffRequest} :
    let recorded := db.recordHandoff fromisoformat o payload t.drive t.projectId t.start
    let created := handoffRow o payload t.drive t.projectId t.start.jobId
    (∃ existing,
        db.findExistingHandoffEvent t.drive.id t.projectId t.start payload = some existing ∧
        recorded = (db, handoffResponse fromisoformat existing)) ∨
      (recorded.1 = db ∧ ∀ response, recorded.2 ≠ .ok response) ∨
      (db.findExistingHandoffEvent t.drive.id t.projectId t.start payload = none ∧
        db.findPriorHandoffEvent t.drive.id t.projectId t.start = none ∧
        recorded = (db.addAudit created handoffRow_id,
          handoffResponse fromisoformat (created (db.auditLogs.seq + 1)))) := by
  simp only [recordHandoff]
  cases found : db.findExistingHandoffEvent t.drive.id t.projectId t.start payload with
  | some existing => exact .inl ⟨existing, rfl, rfl⟩
  | none =>
      cases prior : db.findPriorHandoffEvent t.drive.id t.projectId t.start with
      | some e => exact .inr (.inl ⟨rfl, fun _ => nofun⟩)
      | none =>
          cases o.commits with
          | true => exact .inr (.inr ⟨rfl, rfl, rfl⟩)
          | false => exact .inr (.inl ⟨rfl, fun _ => nofun⟩)

/-- A step changes nothing, or adds another event or the handoff of a request. -/
theorem step_cases (a : Action) :
    step fromisoformat db a = db ∨
      (∃ row key, (∀ id, isOther (row id).action) ∧
        step fromisoformat db a = db.addAudit row key) ∨
      ∃ o r t, a = .handoff o r ∧ target db r = some t ∧
        db.findExistingHandoffEvent t.drive.id t.projectId t.start r.payload = none ∧
        db.findPriorHandoffEvent t.drive.id t.projectId t.start = none ∧
        step fromisoformat db a =
          db.addAudit (handoffRow o r.payload t.drive t.projectId t.start.jobId) handoffRow_id := by
  cases a with
  | audit row key other => exact .inr (.inl ⟨row, key, other, rfl⟩)
  | handoff o r =>
      have effect := @submit_eq fromisoformat db o r
      cases aimed : target db r with
      | none =>
          rw [aimed] at effect
          exact effect.2.elim .inl fun kept => .inr (.inl kept)
      | some t =>
          rw [aimed] at effect
          rcases @recordHandoff_cases fromisoformat db o t r.payload with
            ⟨existing, -, same⟩ | ⟨same, -⟩ | ⟨unknown, first, same⟩
          · exact .inl (effect.1.trans (congrArg Prod.fst same))
          · exact .inl (effect.1.trans same)
          · exact .inr (.inr ⟨o, r, t, rfl, aimed, unknown, first,
              effect.1.trans (congrArg Prod.fst same)⟩)

/-! ### What an added event leaves alone -/

section Added

variable {row : Nat → AuditLog} {key : ∀ id, (row id).id = id}

theorem driveProjectLifecycleStart_addAudit (no : ∀ id, (row id).action ≠ .drive .driveInitialized)
    (driveId : Nat) (projectId : ProjectId) :
    (db.addAudit row key).driveProjectLifecycleStart driveId projectId =
      db.driveProjectLifecycleStart driveId projectId := by
  rw [driveProjectLifecycleStart, driveProjectLifecycleStart]
  refine congrArg List.getLast? (select_insert_of_not key ?_)
  exact decide_eq_false fun h => no _ h.1

theorem requestLifecycle_addAudit (no : ∀ id, (row id).action ≠ .drive .driveInitialized)
    (driveId : Nat) (projectId : ProjectId) (jobId startAt : Option Nat) :
    (db.addAudit row key).requestLifecycle driveId projectId jobId startAt =
      db.requestLifecycle driveId projectId jobId startAt := by
  rw [requestLifecycle, driveProjectLifecycleStart_addAudit no, requestLifecycle]

theorem target_addAudit (no : ∀ id, (row id).action ≠ .drive .driveInitialized) :
    target (db.addAudit row key) r = target db r := by
  have aimed : ∀ payload jobId startAt,
      driveTarget (db.addAudit row key) payload jobId startAt =
        driveTarget db payload jobId startAt := by
    intro payload jobId startAt
    simp only [driveTarget, requestLifecycle_addAudit no]
    rfl
  simp only [target, aimed]
  rfl

theorem handoffCandidates_addAudit_of_not {driveId : Nat} {projectId : ProjectId}
    (no : ∀ id, ¬ ((row id).action = .drive .cocHandoffConfirmed ∧ (row id).driveId = some driveId ∧
      (row id).projectId = some projectId)) :
    (db.addAudit row key).handoffCandidates driveId projectId =
      db.handoffCandidates driveId projectId := by
  rw [handoffCandidates, handoffCandidates]
  exact congrArg List.reverse (select_insert_of_not key (decide_eq_false (no _)))

theorem handoffCandidates_addAudit {driveId : Nat} {projectId : ProjectId}
    (yes : ∀ id, (row id).action = .drive .cocHandoffConfirmed ∧ (row id).driveId = some driveId ∧
      (row id).projectId = some projectId) :
    (db.addAudit row key).handoffCandidates driveId projectId =
      row (db.auditLogs.seq + 1) :: db.handoffCandidates driveId projectId := by
  rw [handoffCandidates, handoffCandidates]
  have inserted := select_insert (t := db.auditLogs) (p := fun e : AuditLog =>
    decide (e.action = .drive .cocHandoffConfirmed ∧ e.driveId = some driveId ∧
      e.projectId = some projectId)) key (decide_eq_true (yes _))
  exact (congrArg List.reverse inserted).trans (List.reverse_append ..)

end Added

theorem mem_handoffCandidates {driveId : Nat} {projectId : ProjectId} {e : AuditLog} :
    e ∈ db.handoffCandidates driveId projectId ↔ e ∈ db.auditLogs ∧
      e.action = .drive .cocHandoffConfirmed ∧ e.driveId = some driveId ∧
      e.projectId = some projectId := by
  rw [handoffCandidates, List.mem_reverse, Table.mem_select, decide_eq_true_eq]

/-! ### One handoff for a lifecycle -/

theorem lastAssignment_of_unique {driveId jobId : Nat} {a : Assignment}
    (only : db.assignmentsTo jobId driveId = [a]) : db.lastAssignment driveId jobId = some a := by
  rw [lastAssignment, assignmentsOf, filter_select (keyedBy_assignment _), Table.select]
  have rows : db.assignments.rows.filter (fun b => decide (b.jobId = jobId) &&
      decide (b.driveId = driveId)) = [a] := by
    rw [← only, CustodyDb.assignmentsTo]
    simp only [Bool.decide_and]
  rw [rows]
  rfl

/-- The lifecycle of a request of the drive, or of a job. -/
theorem start_of_target {t : Target} (aimed : target db r = some t) :
    (t.start.jobId = none ∧ t.start = db.requestLifecycle t.drive.id t.projectId none none) ∨
      ∃ job ∈ db.jobs, t.start = ⟨some job.id, db.lifecycleStart job t.drive.id, none⟩ := by
  have located : ∀ {jobId startAt : Option Nat}, driveTarget db r.payload jobId startAt = some t →
      t.drive.id = r.payload.driveId ∧
        t.start = db.requestLifecycle t.drive.id t.projectId jobId startAt := by
    intro jobId startAt aimed
    obtain ⟨drive, found, given⟩ := Option.bind_eq_some_iff.mp aimed
    obtain ⟨project, -, rfl⟩ := Option.map_eq_some_iff.mp given
    exact ⟨Table.id_of_get found, rfl⟩
  rw [target] at aimed
  cases named : r.jobId with
  | none =>
      rw [named] at aimed
      obtain ⟨-, start⟩ := located aimed
      refine .inl ⟨?_, start⟩
      rw [start]
      rfl
  | some jobId =>
      rw [named] at aimed
      obtain ⟨job, found, aimed⟩ := Option.bind_eq_some_iff.mp aimed
      refine .inr ⟨job, Table.mem_of_get found, ?_⟩
      split at aimed
      · cases aimed
      · split at aimed
        · next a only =>
          obtain ⟨same, start⟩ := located aimed
          rw [start, requestLifecycle, if_neg (by simp), lifecycleStart, same,
            lastAssignment_of_unique only]
        · cases aimed

theorem inLifecycle_addAudit {row : Nat → AuditLog} {key : ∀ id, (row id).id = id}
    (no : ∀ id, (row id).action ≠ .drive .driveInitialized) {job : Option Job} {driveId : Nat}
    {projectId : ProjectId} {e : AuditLog}
    (h : inLifecycle (db.addAudit row key) job driveId projectId e) :
    inLifecycle db job driveId projectId e ∨
      (e = row (db.auditLogs.seq + 1) ∧ e.action = .drive .cocHandoffConfirmed ∧
        e.driveId = some driveId ∧ e.projectId = some projectId ∧ ofJob db job driveId e) := by
  obtain ⟨listed, current, own⟩ := h
  rw [requestLifecycle_addAudit no] at current
  obtain ⟨mem, kind⟩ := mem_handoffCandidates.mp listed
  rcases (Table.mem_insert key).mp mem with old | rfl
  · exact .inl ⟨mem_handoffCandidates.mpr ⟨old, kind⟩, current, own⟩
  · exact .inr ⟨rfl, kind.1, kind.2.1, kind.2.2, own⟩

/-- A handoff is recorded only if the lifecycle has none. -/
theorem not_inLifecycle_of_first {t : Target} (aimed : target db r = some t)
    (first : db.findPriorHandoffEvent t.drive.id t.projectId t.start = none)
    {job : Option Job} (stored : ∀ j ∈ job, j ∈ db.jobs) {id : Nat}
    (own : ofJob db job t.drive.id (handoffRow o r.payload t.drive t.projectId t.start.jobId id))
    (e : AuditLog) :
    ¬ inLifecycle db job t.drive.id t.projectId e := by
  rintro ⟨listed, current, same⟩
  have other := List.find?_eq_none.mp first e listed
  refine other ?_
  rcases start_of_target aimed with ⟨-, start⟩ | ⟨job', mem, start⟩
  · rw [start]
    exact current
  · cases job with
    | none =>
        rw [start] at own
        cases own
    | some job =>
        -- The recorded event is of its job, so the lifecycle is the one of that job.
        simp only [ofJob, handoffRow, handoffEventMatchesJobLifecycle, start,
          decide_eq_true_eq] at own
        obtain rfl := Table.eq_of_id_eq (t := db.jobs) mem (stored job rfl) own
        rw [start]
        exact same

theorem onePerLifecycle_step (a : Action) (once : OnePerLifecycle db) :
    OnePerLifecycle (step fromisoformat db a) := by
  rcases @step_cases fromisoformat db a with
    same | ⟨row, key, other, same⟩ | ⟨o, r, t, -, aimed, -, first, same⟩
  · rw [same]
    exact once
  · rw [same]
    intro job driveId projectId e e' stored h h'
    rcases inLifecycle_addAudit (fun id => (other id).2) h with h | ⟨rfl, handoff, -⟩
    · rcases inLifecycle_addAudit (fun id => (other id).2) h' with h' | ⟨rfl, handoff, -⟩
      · exact once job driveId projectId e e' stored h h'
      · exact absurd handoff (other _).1
    · exact absurd handoff (other _).1
  · rw [same]
    intro job driveId projectId e e' stored h h'
    have no : ∀ id, (handoffRow o r.payload t.drive t.projectId t.start.jobId id).action ≠
        .drive .driveInitialized := fun _ => by simp [handoffRow]
    have never : ∀ {e e' : AuditLog}, inLifecycle db job driveId projectId e →
        ¬ (e' = handoffRow o r.payload t.drive t.projectId t.start.jobId (db.auditLogs.seq + 1) ∧
          e'.action = .drive .cocHandoffConfirmed ∧ e'.driveId = some driveId ∧
          e'.projectId = some projectId ∧ ofJob db job driveId e') := by
      rintro e _ h ⟨rfl, -, ofDrive, ofProject, own⟩
      cases ofDrive
      cases ofProject
      exact not_inLifecycle_of_first aimed first stored own e h
    rcases inLifecycle_addAudit no h with h | new
    · rcases inLifecycle_addAudit no h' with h' | new
      · exact once job driveId projectId e e' stored h h'
      · exact absurd new (never h)
    · rcases inLifecycle_addAudit no h' with h' | new'
      · exact absurd new (never h')
      · exact new.1.trans new'.1.symm

/-! ### The stored texts -/

def isoAlphabet : List Char := "0123456789-T:.".toList

theorem mem_digits {width n : Nat} {c : Char} (mem : c ∈ digits width n) : c ∈ isoAlphabet := by
  induction width generalizing n with
  | zero => cases mem
  | succ width ih =>
      rcases List.mem_append.mp mem with front | last
      · exact ih front
      · have each : ∀ k < 10, Nat.digitChar k ∈ isoAlphabet := by decide
        rw [List.mem_singleton.mp last]
        exact each _ (Nat.mod_lt _ (by decide))

theorem mem_isoDateTime {d : DateTime} {c : Char} (mem : c ∈ isoDateTime d) : c ∈ isoAlphabet := by
  have part : ∀ {sign : Char} {width n : Nat}, sign ∈ isoAlphabet →
      c = sign ∨ c ∈ digits width n → c ∈ isoAlphabet := by
    rintro sign width n known (rfl | number)
    · exact known
    · exact mem_digits number
  simp only [isoDateTime, List.mem_append, List.mem_cons] at mem
  rcases mem with (((((h | h) | h) | h) | h) | h) | h
  · exact mem_digits h
  · exact part (by decide) h
  · exact part (by decide) h
  · exact part (by decide) h
  · exact part (by decide) h
  · exact part (by decide) h
  · split at h
    · cases h
    · exact part (by decide) (List.mem_cons.mp h)

theorem replaceOffset_append {text rest : Str} (none : '+' ∉ text) :
    replaceOffset (text ++ rest) = text ++ replaceOffset rest := by
  induction text with
  | nil => rfl
  | cons c text ih =>
      rw [List.mem_cons, not_or] at none
      rw [List.cons_append, replaceOffset.eq_2, ih none.2, List.cons_append]
      rintro _ rfl
      exact absurd rfl none.1

/-- The delivery time is stored as it is compared. -/
theorem deliveryIso_stored {payload : ChainOfCustodyHandoffRequest} :
    sanitizeAuditText (deliveryIso payload) = deliveryIso payload ∧
      replaceOffset (deliveryIso payload) = deliveryIso payload := by
  have every : (isoAlphabet ++ ['Z']).all (fun c =>
      c ≠ '+' ∧ c ≠ '/' ∧ c ≠ '\x00' ∧ PosixPath.isSpace c = false) = true := by decide
  have signs : ∀ c ∈ isoAlphabet ++ ['Z'],
      c ≠ '+' ∧ c ≠ '/' ∧ c ≠ '\x00' ∧ PosixPath.isSpace c = false :=
    fun c mem => of_decide_eq_true (List.all_eq_true.mp every c mem)
  have plus : '+' ∉ isoDateTime payload.deliveryTime :=
    fun mem => (signs '+' (List.mem_append_left _ (mem_isoDateTime mem))).1 rfl
  have text : deliveryIso payload = isoDateTime payload.deliveryTime ++ ['Z'] := by
    rw [deliveryIso, isoformat, replaceOffset_append plus]
    rfl
  constructor
  · refine sanitizeAuditText_of_no_slash fun c mem => (signs c ?_).2
    rw [text] at mem
    exact (List.mem_append.mp mem).elim (fun h => List.mem_append_left _ (mem_isoDateTime h))
      (List.mem_append_right _)
  · rw [text, replaceOffset_append plus]
    rfl

theorem storedTexts_cons {key : String} {value : Option Str} {texts : List (String × Option Str)} :
    storedTexts ((key, value) :: texts) =
      (value.map fun text => (key.toList, sanitizeAuditText text)).toList ++ storedTexts texts := by
  cases value <;> rfl

theorem lookup_storedTexts_eq_none {texts : List (String × Option Str)} {key : String}
    (absent : key ∉ texts.map Prod.fst) : (storedTexts texts).lookup key.toList = none := by
  rw [List.lookup_eq_none_iff]
  rintro ⟨k, v⟩ stored
  obtain ⟨⟨key', value⟩, listed, kept⟩ := List.mem_filterMap.mp stored
  obtain ⟨text, -, same⟩ := Option.map_eq_some_iff.mp kept
  cases same
  refine bne_iff_ne.mpr fun same => absent ?_
  rw [String.toList_inj.mp same]
  exact List.mem_map_of_mem listed

/-- A stored text under its key. -/
theorem lookup_storedTexts {texts : List (String × Option Str)} {key : String} {value : Option Str}
    (distinct : (texts.map Prod.fst).Nodup) (mem : (key, value) ∈ texts) :
    (storedTexts texts).lookup key.toList = value.map sanitizeAuditText := by
  induction texts with
  | nil => cases mem
  | cons first texts ih =>
      obtain ⟨key', value'⟩ := first
      rw [List.map_cons, List.nodup_cons] at distinct
      rw [storedTexts_cons]
      rcases List.mem_cons.mp mem with here | later
      · cases here
        cases value with
        | none => exact lookup_storedTexts_eq_none distinct.1
        | some text => exact List.lookup_cons_self
      · have other : key ≠ key' := by
          rintro rfl
          have again : key ∈ texts.map Prod.fst := List.mem_map_of_mem later
          exact distinct.1 again
        have apart : (key.toList == key'.toList) = false :=
          beq_false_of_ne fun same => other (String.toList_inj.mp same)
        cases value' with
        | none => exact ih distinct.2 later
        | some text =>
            rw [Option.map_some, Option.toList_some, List.singleton_append, List.lookup_cons, apart]
            exact ih distinct.2 later

theorem text_handoffRow {t : Target} {payload : ChainOfCustodyHandoffRequest} {id : Nat} :
    let e := handoffRow o payload t.drive t.projectId t.start.jobId id
    e.text "possessor" = some (sanitizeAuditText payload.possessor) ∧
      e.text "receipt_ref" = payload.receiptRef.map fun text => sanitizeAuditText text.1 := by
  have keys : ["drive_sn", "project_id", "creator", "possessor", "received_by",
      "receipt_ref"].Nodup := by decide
  constructor
  · exact @lookup_storedTexts _ _ (some payload.possessor.1) keys (by simp)
  · have stored : (handoffDetails t.drive t.projectId o.actor payload).rest.lookup
        "receipt_ref".toList = (payload.receiptRef.map Subtype.val).map sanitizeAuditText :=
      lookup_storedTexts keys (by simp)
    rw [Option.map_map] at stored
    exact stored

/-- What a plain request records has its texts. -/
theorem sameContract_handoffRow {t : Target} (plain : PlainRequest r) {id : Nat}
    {payload : ChainOfCustodyHandoffRequest} :
    sameContract payload (handoffRow o r.payload t.drive t.projectId t.start.jobId id) = true ↔
      r.payload.possessor.1 = payload.possessor.1 ∧ deliveryIso r.payload = deliveryIso payload ∧
        r.payload.receiptRef.map Subtype.val = payload.receiptRef.map Subtype.val := by
  have receipt : r.payload.receiptRef.map (fun text => sanitizeAuditText text.1) =
      r.payload.receiptRef.map Subtype.val := by
    apply Option.map_congr
    intro text given
    exact (sanitizeAuditText_eq_self_iff text).mpr (plain.2 text given)
  rw [sameContract, decide_eq_true_eq, text_handoffRow.1, text_handoffRow.2, receipt,
    (sanitizeAuditText_eq_self_iff r.payload.possessor).mpr plain.1, Option.some_inj]
  simp only [handoffRow, handoffDetails, Option.getD_some, deliveryIso_stored.1,
    deliveryIso_stored.2]

/-! ### Repeating a request -/

/-- The handoff that is recorded belongs to the lifecycle of its request. -/
theorem matches_handoffRow {t : Target} (aimed : target db r = some t)
    (clock : ∀ start ∈ t.start.startAt, start ≤ o.now) {payload : ChainOfCustodyHandoffRequest} :
    t.start.matches (handoffRow o payload t.drive t.projectId t.start.jobId
      (db.auditLogs.seq + 1)) = true := by
  rcases start_of_target aimed with ⟨ofDrive, start⟩ | ⟨job, -, start⟩
  · cases began : t.start.startAt with
    | none =>
        rw [LifecycleStart.matches, ofDrive, began]
        rfl
    | some time =>
        have late := clock time began
        simp only [LifecycleStart.matches, handoffEventMatchesJobLifecycle, ofDrive, began,
          handoffRow]
        by_cases later : time < o.now
        · rw [if_pos later]
        · rw [if_neg later, if_neg (by omega)]
          cases first : t.start.startEventId with
          | none => rfl
          | some id =>
              -- The drive was initialized by an event with an earlier key.
              rw [start, requestLifecycle, if_pos ⟨rfl, rfl⟩] at first
              obtain ⟨initialized, found, rfl⟩ := Option.map_eq_some_iff.mp first
              have row := (Table.mem_select.mp (List.mem_of_getLast? found)).1
              exact decide_eq_true ((db.auditLogs.bounded initialized row).trans (Nat.le_succ _))
  · rw [start]
    simp [LifecycleStart.matches, handoffEventMatchesJobLifecycle, handoffRow]

theorem settled_of_ok {response : HandoffResponse} (clean : Clean db (.handoff o r))
    (accepted : (submit fromisoformat db o r).2 = .ok response) :
    ∃ e, Settled (step fromisoformat db (.handoff o r)) r e ∧
      handoffResponse fromisoformat e = .ok response := by
  have effect := @submit_eq fromisoformat db o r
  cases aimed : target db r with
  | none =>
      rw [aimed] at effect
      exact absurd accepted (effect.1 response)
  | some t =>
      rw [aimed] at effect
      obtain ⟨after, answers⟩ := effect
      have answered := ((answers response).mp accepted).1
      have stepped : step fromisoformat db (.handoff o r) = (submit fromisoformat db o r).1 := rfl
      rcases @recordHandoff_cases fromisoformat db o t r.payload with
        ⟨existing, found, same⟩ | ⟨-, refused⟩ | ⟨-, -, same⟩
      · rw [same] at after answered
        rw [stepped, after]
        exact ⟨existing, ⟨t, aimed, found⟩, answered⟩
      · exact absurd answered (refused response)
      · rw [same] at after answered
        rw [stepped, after]
        have no : ∀ id, (handoffRow o r.payload t.drive t.projectId t.start.jobId id).action ≠
            .drive .driveInitialized := fun _ => by simp [handoffRow]
        refine ⟨_, ⟨t, (target_addAudit no).trans aimed, ?_⟩, answered⟩
        rw [findExistingHandoffEvent, handoffCandidates_addAudit fun _ => ⟨rfl, rfl, rfl⟩]
        refine List.find?_cons_of_pos ?_
        rw [Bool.and_eq_true]
        exact ⟨matches_handoffRow aimed (clean.2 t aimed).1,
          (sameContract_handoffRow clean.1).mpr ⟨rfl, rfl, rfl⟩⟩

/-- No step of a clean run changes the answer. -/
theorem settled_step {e : AuditLog} {a : Action} (settled : Settled db r e) (clean : Clean db a) :
    Settled (step fromisoformat db a) r e := by
  obtain ⟨t, aimed, found⟩ := settled
  rcases @step_cases fromisoformat db a with
    same | ⟨row, key, other, same⟩ | ⟨o', r', t', rfl, aimed', unknown, -, same⟩
  · rw [same]
    exact ⟨t, aimed, found⟩
  · rw [same]
    refine ⟨t, (target_addAudit fun id => (other id).2).trans aimed, ?_⟩
    rwa [findExistingHandoffEvent,
      handoffCandidates_addAudit_of_not fun id handoff => (other id).1 handoff.1]
  · rw [same]
    have no : ∀ id, (handoffRow o' r'.payload t'.drive t'.projectId t'.start.jobId id).action ≠
        .drive .driveInitialized := fun _ => by simp [handoffRow]
    refine ⟨t, (target_addAudit no).trans aimed, ?_⟩
    by_cases here : t'.drive.id = t.drive.id ∧ t'.projectId = t.projectId
    · rw [findExistingHandoffEvent, handoffCandidates_addAudit fun _ =>
        ⟨rfl, congrArg some here.1, congrArg some here.2⟩]
      rw [List.find?_cons_of_neg, ← findExistingHandoffEvent]
      · exact found
      · -- With the same texts the new request would have found the event.
        rw [Bool.and_eq_true]
        rintro ⟨-, contract⟩
        obtain ⟨possessor, time, receipt⟩ := (sameContract_handoffRow clean.1).mp contract
        have known := List.mem_of_find?_eq_some found
        have meets := List.find?_some found
        rw [Bool.and_eq_true] at meets
        have also : sameContract r'.payload e = true := by
          rw [sameContract, possessor, time, receipt]
          exact meets.2
        rw [← here.1, ← here.2] at known
        have matched := (clean.2 t' aimed').2 e known also
        refine List.find?_eq_none.mp unknown e known ?_
        rw [matched, also, Bool.and_self]
    · rw [findExistingHandoffEvent, handoffCandidates_addAudit_of_not]
      · exact found
      · rintro id ⟨-, drive, project⟩
        exact here ⟨Option.some_inj.mp drive, Option.some_inj.mp project⟩

/-- A settled request changes nothing and is answered with its event. -/
theorem submit_of_settled {e : AuditLog} {response : HandoffResponse} (settled : Settled db r e)
    (answer : handoffResponse fromisoformat e = .ok response) :
    (submit fromisoformat db o r).1 = db ∧
      (r.jobId = none ∨ o.followedUp = true → (submit fromisoformat db o r).2 = .ok response) := by
  obtain ⟨t, aimed, found⟩ := settled
  have effect := @submit_eq fromisoformat db o r
  rw [aimed] at effect
  simp only [recordHandoff, found] at effect
  exact ⟨effect.1, fun done => (effect.2 response).mpr ⟨answer, done⟩⟩

/-- The event of a settled request has its texts. -/
theorem texts_of_settled {e : AuditLog} {response : HandoffResponse} (settled : Settled db r e)
    (answer : handoffResponse fromisoformat e = .ok response) :
    e ∈ db.auditLogs ∧ e.id = response.eventId ∧ e.text "possessor" = some r.payload.possessor.1 ∧
      e.text "receipt_ref" = r.payload.receiptRef.map Subtype.val := by
  obtain ⟨t, -, found⟩ := settled
  have contract := List.find?_some found
  rw [Bool.and_eq_true, sameContract, decide_eq_true_eq] at contract
  refine ⟨(mem_handoffCandidates.mp (List.mem_of_find?_eq_some found)).1, ?_, contract.2.1,
    contract.2.2.2⟩
  simp only [handoffResponse, bind_eq_ok, pure_eq_ok] at answer
  obtain ⟨recordedAt, -, rfl⟩ := answer
  rfl

theorem handoffs_recorded_once {db : CustodyDb} {actions : List Action}
    (once : OnePerLifecycle db) (clean : Along (step fromisoformat) Clean db actions) :
    Always (step fromisoformat) OnePerLifecycle db actions ∧
    ∀ before o r after response, actions = before ++ .handoff o r :: after →
      (submit fromisoformat (exec (step fromisoformat) db before) o r).2 = .ok response →
      let final := exec (step fromisoformat) db actions
      (∃ e ∈ final.auditLogs, e.id = response.eventId ∧
        e.text "possessor" = some r.payload.possessor.1 ∧
        e.text "receipt_ref" = r.payload.receiptRef.map Subtype.val) ∧
      ∀ o', (submit fromisoformat final o' r).1 = final ∧
        (r.jobId = none ∨ o'.followedUp = true →
          (submit fromisoformat final o' r).2 = .ok response) := by
  constructor
  · exact always_of_along (fun db a once _ => onePerLifecycle_step a once) once clean
  · rintro before o r after response rfl accepted
    have rest := clean.append
    obtain ⟨e, settled, answer⟩ := settled_of_ok rest.1 accepted
    have later : Settled (exec (step fromisoformat) db (before ++ .handoff o r :: after)) r e := by
      rw [exec, List.foldl_append]
      exact (@always_of_along _ _ _ (fun db => Settled db r e) _
        (fun _ _ settled clean => settled_step settled clean) _ _ settled rest.2).last
    obtain ⟨mem, named, texts⟩ := texts_of_settled later answer
    exact ⟨⟨e, mem, named, texts⟩, fun o' => submit_of_settled later answer⟩

end Runs

/-! ### A request that is stored otherwise -/

namespace Repeated

def db : CustodyDb where
  auditLogs := Table.empty
  jobs := ⟨[Reused.job 1], 1, by decide, by decide⟩
  assignments := ⟨[⟨1, 1, 1, 0, 0, some 10⟩], 1, by decide, by decide⟩
  drives := Reused.db.drives
  manifests := Table.empty
  snapshots := Table.empty
  job_pos := by decide
  assigned_drive := by decide

theorem once : OnePerLifecycle db := by
  rintro job driveId projectId e e' - ⟨listed, -⟩
  cases (mem_handoffCandidates.mp listed).1

def occasion : Occasion := ⟨none, 20, true, true, true⟩

def delivery : DateTime := ⟨2026, 4, 10, 14, 22, 31, 0⟩

def request (possessor : SafeStr) (given : possessor.1 ≠ []) : HandoffRequest where
  jobId := some 1
  payload := ⟨1, none, possessor, delivery, none, none, none, given⟩

/-- The handoff is stored as it is submitted. -/
def plain : HandoffRequest := request ⟨"Jane Smith".toList, by decide⟩ (by decide)

/-- The possessor ends with a blank. -/
def padded : HandoffRequest := request ⟨"Jane Smith ".toList, by decide⟩ (by decide)

def answer : HandoffResponse :=
  ⟨1, .drive .cocHandoffConfirmed, 1, some Lab.projectP, none, "Jane Smith".toList, 20, none, none,
    none, 20⟩

end Repeated

open Repeated in
theorem handoffs_recorded_once_repeated :
    let actions := [Action.handoff occasion plain]
    let final := exec (step fun _ => none) db actions
    Always (step fun _ => none) OnePerLifecycle db actions ∧
      ∀ o', (submit (fun _ => none) final o' plain).1 = final ∧
        (plain.jobId = none ∨ o'.followedUp = true →
          (submit (fun _ => none) final o' plain).2 = .ok answer) := by
  have clean : Along (step fun _ => none) Clean db [Action.handoff occasion plain] := by
    refine ⟨⟨⟨by decide, nofun⟩, fun t aimed => ⟨?_, fun e listed => ?_⟩⟩, trivial⟩
    · cases aimed
      decide
    · cases (mem_handoffCandidates.mp listed).1
  have recorded := handoffs_recorded_once once clean
  exact ⟨recorded.1, (recorded.2 [] occasion plain [] answer rfl (by rfl)).2⟩

/-- The stored possessor differs, and the repeated request is refused. -/
theorem handoff_repeat_conflicts :
    ¬ ∀ (fromisoformat : IsoFormat) (db : CustodyDb) (o : Occasion) (r : HandoffRequest)
        (response : HandoffResponse), OnePerLifecycle db → o.followedUp = true →
        (submit fromisoformat db o r).2 = .ok response →
        (submit fromisoformat (submit fromisoformat db o r).1 o r).2 = .ok response := by
  intro repeats
  have again := repeats (fun _ => none) Repeated.db Repeated.occasion Repeated.padded
    Repeated.answer Repeated.once rfl (by rfl)
  have conflict : (submit (fun _ => none) (submit (fun _ => none) Repeated.db Repeated.occasion
    Repeated.padded).1 Repeated.occasion Repeated.padded).2 = .error .alreadyRecorded := by rfl
  rw [conflict] at again
  cases again

end Ecube.Custody
