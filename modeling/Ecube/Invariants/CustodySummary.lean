import Ecube.Lifecycle
import Ecube.Services.Custody

/-!
The custody of a job in the listing and in its report.

The listing answers for a batch of jobs from one query for assignments and one
for handoffs. Both are filtered afterwards, so what is read for one job is what
a query for it alone returns (`assignments_batch`), and an event that the batch
fetches for another job never matches (`matches_of_fetched`).
`getJobCustodySummaries_eq_report`: the answer is the one of the report, and it
does not depend on the other jobs of the batch.
-/

namespace Ecube.Custody

open OrderBy CustodyDb

/-! ### Orders -/

theorem timeKey_injective {time time' : Option Nat} {id id' : Nat}
    (same : timeKey time id = timeKey time' id') : id = id' := by
  have := congrArg (fun key => (ofLex key).2) same
  exact this

theorem keyedBy_assignment (t : Table Assignment) : KeyedBy Assignment.key t.rows :=
  fun _ ha _ hb same => Table.eq_of_id_eq ha hb (timeKey_injective same)

theorem keyedBy_auditLog (t : Table AuditLog) : KeyedBy AuditLog.key t.rows :=
  fun _ ha _ hb same => Table.eq_of_id_eq ha hb (timeKey_injective same)

theorem mem_sortedIds {ids : List Nat} {k : Nat} : k ∈ sortedIds ids ↔ k ∈ ids := by
  rw [sortedIds, mem_orderBy, List.mem_dedup]

section Job

variable {db : CustodyDb} {job : Job} {jobIds : List Int} {fromisoformat : IsoFormat}

/-! ### What decides the custody of a drive -/

/-- The event confirms that the drive was handed over within the job. -/
def confirms (db : CustodyDb) (job : Job) (driveId : Nat) (e : AuditLog) : Bool :=
  e.action = .drive .cocHandoffConfirmed ∧ e.driveId = some driveId ∧
    e.projectId = some job.projectId ∧
    handoffEventMatchesJobLifecycle e (some job.id) (db.lifecycleStart job driveId) none

def handedOver (db : CustodyDb) (job : Job) (driveId : Nat) : Bool :=
  db.auditLogs.any (confirms db job driveId)

/-- Only an event of the job or of no job matches. -/
theorem jobId_of_matches {e : AuditLog} {start : Option Nat}
    (matched : handoffEventMatchesJobLifecycle e (some job.id) start none = true) :
    e.jobId = none ∨ e.jobId = some job.id := by
  cases named : e.jobId with
  | none => exact .inl rfl
  | some jobId =>
      simp only [handoffEventMatchesJobLifecycle, named, decide_eq_true_eq] at matched
      exact .inr (congrArg some matched)

/-! ### The batch -/

theorem mem_normalizedJobIds {k : Nat} :
    k ∈ normalizedJobIds jobIds ↔ 0 < k ∧ (k : Int) ∈ jobIds := by
  simp only [normalizedJobIds, mem_sortedIds, List.mem_map, List.mem_filter, decide_eq_true_eq]
  constructor
  · rintro ⟨i, ⟨mem, pos⟩, rfl⟩
    refine ⟨by omega, ?_⟩
    rwa [Int.toNat_of_nonneg (le_of_lt pos)]
  · rintro ⟨pos, mem⟩
    exact ⟨k, ⟨mem, by omega⟩, Int.toNat_natCast k⟩

theorem mem_batchJobs (mem : job ∈ db.jobs) (listed : (job.id : Int) ∈ jobIds) :
    job ∈ db.batchJobs jobIds := by
  rw [batchJobs, List.mem_filter, decide_eq_true_eq]
  exact ⟨mem, mem_normalizedJobIds.mpr ⟨db.job_pos job mem, listed⟩⟩

theorem mem_activeJobIds {k : Nat} :
    k ∈ (db.batch jobIds).activeJobIds ↔
      ∃ job ∈ db.batchJobs jobIds, job.status ≠ .archived ∧ job.id = k := by
  simp [batch, and_assoc]

theorem mem_activeJobIds_of_mem (mem : job ∈ db.batchJobs jobIds) (active : job.status ≠ .archived) :
    job.id ∈ (db.batch jobIds).activeJobIds :=
  mem_activeJobIds.mpr ⟨job, mem, active, rfl⟩

theorem batch_assignments : (db.batch jobIds).assignments =
    db.assignments.select (fun a => a.jobId ∈ (db.batch jobIds).activeJobIds)
      (byKey Assignment.key) := rfl

/-- The batch reads for a job what a query for it alone returns. -/
theorem assignments_batch (active : job.id ∈ (db.batch jobIds).activeJobIds) :
    ((db.batch jobIds).assignments.filter fun a => a.jobId = job.id) = db.assignmentsOf job.id := by
  rw [batch_assignments, filter_select (keyedBy_assignment _), assignmentsOf]
  apply select_congr
  intro a _
  by_cases own : a.jobId = job.id
  · simp [own, active]
  · simp [own]

theorem mem_projectIds (mem : job ∈ db.batchJobs jobIds) (active : job.status ≠ .archived)
    {a : Assignment} (assigned : a ∈ db.assignmentsOf job.id) :
    job.projectId ∈ (db.batch jobIds).projectIds := by
  have listed := mem_activeJobIds_of_mem mem active
  have fetched : a ∈ (db.batch jobIds).assignments ∧ a.jobId = job.id := by
    rw [← assignments_batch listed, List.mem_filter, decide_eq_true_eq] at assigned
    exact assigned
  have rows : job ∈ (db.batchJobs jobIds).filter fun j => j.status ≠ .archived :=
    List.mem_filter.mpr ⟨mem, by simpa using active⟩
  refine List.mem_map_of_mem (List.mem_filter.mpr ⟨rows, ?_⟩)
  exact List.any_eq_true.mpr ⟨a, fetched.1, by simpa using fetched.2⟩

/-- The events of a batch confirm the handoff of a drive exactly if some event does. -/
theorem any_handoffEvents (mem : job ∈ db.batchJobs jobIds) (active : job.status ≠ .archived)
    {a : Assignment} (assigned : a ∈ db.assignmentsOf job.id) :
    ((db.handoffEvents (db.batch jobIds)).any fun e => e.driveId = some a.driveId ∧
      e.projectId = some job.projectId ∧
      handoffEventMatchesJobLifecycle e (some job.id) (db.lifecycleStart job a.driveId) none) =
      handedOver db job a.driveId := by
  have listed := mem_activeJobIds_of_mem mem active
  have drive : a.driveId ∈ (db.batch jobIds).assignments.map Assignment.driveId := by
    rw [← assignments_batch listed] at assigned
    exact List.mem_map_of_mem (List.mem_of_mem_filter assigned)
  have project := mem_projectIds mem active assigned
  rw [Bool.eq_iff_iff, handedOver, Table.any, List.any_eq_true, List.any_eq_true]
  constructor
  · rintro ⟨e, fetched, found⟩
    obtain ⟨row, kind⟩ := Table.mem_select.mp fetched
    simp only [decide_eq_true_eq] at kind found
    exact ⟨e, row, by simpa [confirms] using ⟨kind.1, found⟩⟩
  · rintro ⟨e, row, found⟩
    simp only [confirms, decide_eq_true_eq] at found
    obtain ⟨kind, ofDrive, ofProject, matched⟩ := found
    have drive' : e.driveId.any (fun k => k ∈ (db.batch jobIds).assignments.map
        Assignment.driveId) = true := by
      rw [ofDrive]
      exact decide_eq_true drive
    have project' : e.projectId.any (fun p => p ∈ (db.batch jobIds).projectIds) = true := by
      rw [ofProject]
      exact decide_eq_true project
    -- A matching event is of the job or of no job, so the batch fetches it.
    have ofJob : e.jobId.all (fun k => k ∈ (db.batch jobIds).activeJobIds) = true := by
      rcases jobId_of_matches matched with named | named <;> simp [named, listed]
    exact ⟨e, Table.mem_select.mpr ⟨row, decide_eq_true ⟨kind, drive', project', ofJob⟩⟩,
      decide_eq_true ⟨ofDrive, ofProject, matched⟩⟩

/-- The answer of the batch. -/
theorem activeSummary_eq (mem : job ∈ db.batchJobs jobIds) (active : job.status ≠ .archived)
    (assigned : db.assignmentsOf job.id ≠ []) :
    db.activeSummary (db.batch jobIds) job =
      some ((db.assignmentsOf job.id).all fun a => handedOver db job a.driveId) := by
  have listed := mem_activeJobIds_of_mem mem active
  have some_drive : sortedIds ((db.assignmentsOf job.id).map Assignment.driveId) ≠ [] := by
    intro empty
    obtain ⟨a, ha⟩ := List.exists_mem_of_ne_nil _ assigned
    have : a.driveId ∈ sortedIds ((db.assignmentsOf job.id).map Assignment.driveId) :=
      mem_sortedIds.mpr (List.mem_map_of_mem ha)
    rw [empty] at this
    cases this
  rw [activeSummary]
  simp only [assignments_batch listed]
  rw [if_neg (by simpa using some_drive)]
  congr 1
  rw [Bool.eq_iff_iff, List.all_eq_true, List.all_eq_true]
  constructor
  · intro all a ha
    rw [← any_handoffEvents mem active ha]
    exact all _ (List.mem_map.mpr ⟨a.driveId, mem_sortedIds.mpr (List.mem_map_of_mem ha), rfl⟩)
  · intro all state hstate
    obtain ⟨driveId, hdrive, rfl⟩ := List.mem_map.mp hstate
    obtain ⟨a, ha, rfl⟩ := List.mem_map.mp (mem_sortedIds.mp hdrive)
    exact (any_handoffEvents mem active ha).trans (all a ha)

/-! ### The report -/

theorem isSome_latestHandoff {events : List AuditLog} :
    (latestHandoff events).isSome =
      events.any fun e => e.action = .drive .cocHandoffConfirmed := by
  rw [Bool.eq_iff_iff, latestHandoff, List.getLast?_isSome, Ne, List.filter_eq_nil_iff,
    List.any_eq_true]
  simp

/-- An entry of a report has its drive and the custody its events show. -/
theorem driveReport_eq_ok {drive : Drive} {projectId : Option ProjectId} {evidence : Option Str}
    {events : List AuditLog} {summary : List ManifestSummary} {r : DriveReport}
    (h : driveReport fromisoformat drive projectId evidence events summary = .ok r) :
    r.driveId = drive.id ∧
      r.custodyComplete = events.any fun e => e.action = .drive .cocHandoffConfirmed := by
  simp only [driveReport, bind_eq_ok, pure_eq_ok] at h
  obtain ⟨cocEvents, -, rfl⟩ := h
  exact ⟨rfl, isSome_latestHandoff⟩

theorem mem_jobDrives {drive : Drive} :
    drive ∈ db.jobDrives job ↔
      drive ∈ db.drives ∧ ∃ a ∈ db.assignmentsOf job.id, a.driveId = drive.id := by
  rw [jobDrives, Table.mem_select, List.any_eq_true]
  simp only [decide_eq_true_eq]

theorem any_jobDriveEvents {drive : Drive} (mem : drive ∈ db.jobDrives job) :
    (db.jobDriveEvents job drive.id).any (fun e => e.action = .drive .cocHandoffConfirmed) =
      handedOver db job drive.id := by
  rw [Bool.eq_iff_iff, handedOver, Table.any, List.any_eq_true, List.any_eq_true]
  constructor
  · rintro ⟨e, listed, handoff⟩
    rw [decide_eq_true_eq] at handoff
    rw [jobDriveEvents, mem_orderBy, List.mem_append, List.mem_filter, driveEvents, jobEvents,
      Table.mem_select, Table.mem_select] at listed
    simp only [decide_eq_true_eq, handoff, isJobAction, Bool.false_eq_true, false_and, and_false,
      or_false, ne_eq, not_true, false_or] at listed
    obtain ⟨⟨row, -, ofProject, -⟩, ofDrive, matched⟩ := listed
    exact ⟨e, row, decide_eq_true ⟨handoff, ofDrive, ofProject, matched⟩⟩
  · rintro ⟨e, row, found⟩
    obtain ⟨handoff, ofDrive, ofProject, matched⟩ := of_decide_eq_true found
    refine ⟨e, ?_, decide_eq_true handoff⟩
    rw [jobDriveEvents, mem_orderBy, List.mem_append, List.mem_filter, driveEvents,
      Table.mem_select]
    have ofJob : (db.jobDrives job).any (fun d => e.driveId = some d.id) = true :=
      List.any_eq_true.mpr ⟨drive, mem, decide_eq_true ofDrive⟩
    exact .inl ⟨⟨row, decide_eq_true ⟨by rw [handoff]; rfl, ofProject, ofJob⟩⟩,
      decide_eq_true ⟨ofDrive, .inr matched⟩⟩

theorem buildJobReport_custody {report : Report}
    (built : db.buildJobReport fromisoformat job = .ok report) :
    report.reports.all DriveReport.custodyComplete =
      (db.assignmentsOf job.id).all fun a => handedOver db job a.driveId := by
  simp only [buildJobReport, bind_eq_ok, pure_eq_ok] at built
  obtain ⟨-, -, reports, made, rfl⟩ := built
  obtain ⟨entries, listed⟩ := mem_mapM made
  rw [Bool.eq_iff_iff, List.all_eq_true, List.all_eq_true]
  constructor
  · intro all a ha
    obtain ⟨drive, hdrive, same⟩ := db.assigned_drive a (Table.mem_select.mp ha).1
    have mem : drive ∈ db.jobDrives job := mem_jobDrives.mpr ⟨hdrive, a, ha, same.symm⟩
    obtain ⟨r, hr, entry⟩ := listed drive mem
    rw [← same, ← any_jobDriveEvents mem, ← (driveReport_eq_ok entry).2]
    exact all r hr
  · intro all r hr
    obtain ⟨drive, mem, entry⟩ := entries r hr
    obtain ⟨-, a, ha, same⟩ := mem_jobDrives.mp mem
    rw [(driveReport_eq_ok entry).2, any_jobDriveEvents mem, ← same]
    exact all a ha

theorem mem_of_jobDriveEvents {driveId : Nat} {e : AuditLog}
    (listed : e ∈ db.jobDriveEvents job driveId) : e ∈ db.auditLogs := by
  rw [jobDriveEvents, mem_orderBy, List.mem_append] at listed
  rcases listed with own | ofJob
  · exact (Table.mem_select.mp (List.mem_of_mem_filter own)).1
  · exact (Table.mem_select.mp ofJob).1

/-- An entry is built when every event has a time. -/
theorem exists_driveReport {drive : Drive} {projectId : Option ProjectId} {evidence : Option Str}
    {events : List AuditLog} {summary : List ManifestSummary}
    (timed : ∀ e ∈ events, e.timestamp ≠ none) :
    ∃ r, driveReport fromisoformat drive projectId evidence events summary = .ok r := by
  have each : ∀ e ∈ events, ∃ event, custodyEvent e = .ok event := by
    intro e he
    obtain ⟨timestamp, ht⟩ := Option.ne_none_iff_exists'.mp (timed e he)
    exact ⟨_, by rw [custodyEvent, ht]; rfl⟩
  obtain ⟨cocEvents, made⟩ := exists_mapM_eq_ok each
  exact ⟨_, by rw [driveReport, made]; rfl⟩

theorem exists_buildJobReport (timed : ∀ e ∈ db.auditLogs, e.timestamp ≠ none)
    (assigned : db.assignmentsOf job.id ≠ []) :
    ∃ report, db.buildJobReport fromisoformat job = .ok report := by
  have each : ∀ drive ∈ db.jobDrives job, ∃ r, db.jobDriveReport fromisoformat job drive = .ok r :=
    fun drive _ => exists_driveReport fun e he => timed e (mem_of_jobDriveEvents he)
  obtain ⟨reports, made⟩ := exists_mapM_eq_ok each
  refine ⟨⟨.job, some job.projectId, reports⟩, ?_⟩
  simp only [buildJobReport, bind_eq_ok, ensure_eq_ok, pure_eq_ok]
  exact ⟨(), assigned, reports, made, rfl⟩

/-! ### The listing -/

theorem lookup_map_pair {ids : List Nat} {value : Nat → Option Bool} {k : Nat} (mem : k ∈ ids) :
    (ids.map fun i => (i, value i)).lookup k = some (value k) := by
  induction ids with
  | nil => cases mem
  | cons i ids ih =>
      rw [List.map_cons, List.lookup_cons]
      by_cases same : k = i
      · simp [same]
      · have rest := ih ((List.mem_cons.mp mem).resolve_left same)
        have other : (k == i) = false := beq_false_of_ne same
        rw [other, rest]

theorem lookup_eq_activeSummary (mem : job ∈ db.jobs) (active : job.status ≠ .archived)
    (listed : (job.id : Int) ∈ jobIds) :
    (db.getJobCustodySummaries jobIds).lookup job.id =
      some (db.activeSummary (db.batch jobIds) job) := by
  have inBatch := mem_batchJobs mem listed
  have found : (db.batchJobs jobIds).find? (fun j => j.id = job.id) = some job := by
    cases first : (db.batchJobs jobIds).find? fun j => j.id = job.id with
    | none => exact absurd (List.find?_eq_none.mp first job inBatch) (by simp)
    | some j =>
        have row : j ∈ db.jobs := List.mem_of_mem_filter (List.mem_of_find?_eq_some first)
        have key : j.id = job.id := by simpa using List.find?_some first
        exact congrArg some (Table.eq_of_id_eq row mem key)
  rw [getJobCustodySummaries,
    lookup_map_pair (mem_normalizedJobIds.mpr ⟨db.job_pos job mem, listed⟩), found]
  simp only [if_neg active]

/-- The answer for a job that is not archived, in every batch. -/
theorem lookup_getJobCustodySummaries (mem : job ∈ db.jobs) (active : job.status ≠ .archived)
    (assigned : db.assignmentsOf job.id ≠ []) (listed : (job.id : Int) ∈ jobIds) :
    (db.getJobCustodySummaries jobIds).lookup job.id =
      some (some ((db.assignmentsOf job.id).all fun a => handedOver db job a.driveId)) := by
  rw [lookup_eq_activeSummary mem active listed,
    activeSummary_eq (mem_batchJobs mem listed) active assigned]

theorem getJobCustodySummaries_eq_report (mem : job ∈ db.jobs) (active : job.status ≠ .archived)
    (assigned : ∃ a ∈ db.assignments, a.jobId = job.id) (listed : (job.id : Int) ∈ jobIds) :
    (∀ report, db.buildJobReport fromisoformat job = .ok report →
      (db.getJobCustodySummaries jobIds).lookup job.id =
        some (some (report.reports.all DriveReport.custodyComplete))) ∧
    ((∀ e ∈ db.auditLogs, e.timestamp ≠ none) →
      ∃ report, db.buildJobReport fromisoformat job = .ok report) ∧
    ∀ jobIds' : List Int, (job.id : Int) ∈ jobIds' →
      (db.getJobCustodySummaries jobIds').lookup job.id =
        (db.getJobCustodySummaries jobIds).lookup job.id := by
  have some_assignment : db.assignmentsOf job.id ≠ [] := by
    obtain ⟨a, ha, own⟩ := assigned
    exact List.ne_nil_of_mem (Table.mem_select.mpr ⟨ha, decide_eq_true own⟩)
  have answer := lookup_getJobCustodySummaries mem active some_assignment listed
  refine ⟨fun report built => ?_, fun timed => exists_buildJobReport timed some_assignment,
    fun jobIds' listed' => ?_⟩
  · rw [answer, buildJobReport_custody built]
  · rw [answer, lookup_getJobCustodySummaries mem active some_assignment listed']

end Job

/-! ### A drive that is used twice -/

namespace Reused

def job (id : Nat) : Job := ⟨id, Lab.projectP, "E".toList, .completed, none, none, none⟩

def handoff : AuditLog :=
  ⟨1, some 15, none, .drive .cocHandoffConfirmed, some Lab.projectP, some 1, none, none⟩

/-- A handoff between the assignments of two jobs to one drive. -/
def db : CustodyDb where
  auditLogs := ⟨[handoff], 1, by decide, by decide⟩
  jobs := ⟨[job 1, job 2], 2, by decide, by decide⟩
  assignments := ⟨[⟨1, 1, 1, 0, 0, some 10⟩, ⟨2, 1, 2, 0, 0, some 20⟩], 2, by decide, by decide⟩
  drives :=
    ⟨[⟨1, "usb|serial=S".toList, none, none, none, some Lab.projectP⟩], 1, by decide, by decide⟩
  manifests := Table.empty
  snapshots := Table.empty
  job_pos := by decide
  assigned_drive := by decide

/-- The first job has handed the drive over, the second has not. -/
example : db.getJobCustodySummaries [2, 1, -1] = [(1, some true), (2, some false)] := by decide

end Reused

theorem getJobCustodySummaries_eq_report_reused :
    (∀ report, Reused.db.buildJobReport (fun _ => none) (Reused.job 2) = .ok report →
      (Reused.db.getJobCustodySummaries [2, 1]).lookup 2 =
        some (some (report.reports.all DriveReport.custodyComplete))) ∧
    ((∀ e ∈ Reused.db.auditLogs, e.timestamp ≠ none) →
      ∃ report, Reused.db.buildJobReport (fun _ => none) (Reused.job 2) = .ok report) ∧
    ∀ jobIds : List Int, 2 ∈ jobIds →
      (Reused.db.getJobCustodySummaries jobIds).lookup 2 =
        (Reused.db.getJobCustodySummaries [2, 1]).lookup 2 :=
  @getJobCustodySummaries_eq_report Reused.db (Reused.job 2) [2, 1] (fun _ => none)
    (.tail _ (.head _)) (by decide) (by decide) (by decide)

end Ecube.Custody
