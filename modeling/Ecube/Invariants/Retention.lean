import Ecube.Invariants.Handoffs

/-!
Custody after the retention of audit events.

Custody is read from the audit events, and the retention deletes each of them that
is older than the cutoff. `purge_custody_iff`: what is shown of a job's custody, and
whether a confirmed handoff can be recorded again, does not change exactly if a
confirming event of each drive is kept.
-/

namespace Ecube.Custody

open OrderBy CustodyDb

/-- A row with this timestamp is kept. -/
def keptTime (retentionDays : Int) (cutoff : Nat) (timestamp : Option Nat) : Bool :=
  retentionDays ≤ 0 ∨ timestamp.all fun t => cutoff ≤ t

/-- The drive is not handed over, or an event that confirms it is kept. -/
def KeepsHandoff (db : CustodyDb) (retentionDays : Int) (cutoff : Nat) (job : Job) (driveId : Nat) :
    Prop :=
  handedOver db job driveId = true →
    ∃ e ∈ db.auditLogs, confirms db job driveId e = true ∧
      keptTime retentionDays cutoff e.timestamp = true

section Purge

variable {db : CustodyDb} {retentionDays : Int} {cutoff : Nat} {job : Job} {jobIds : List Int}
  {fromisoformat : IsoFormat} {r : HandoffRequest}

/-! ### The events that are kept -/

theorem purge_eq : db.purgeExpiredAuditLogs retentionDays cutoff =
    db.withAuditLogs (db.auditLogs.delete fun e => !keptTime retentionDays cutoff e.timestamp) := by
  rw [purgeExpiredAuditLogs]
  split
  · next off =>
    refine congrArg db.withAuditLogs (Table.eq_of_rows_eq ?_ rfl)
    refine (List.filter_eq_self.mpr fun e _ => ?_).symm
    simp [keptTime, off]
  · next on =>
    rw [deleteOlderThan]
    congr 2
    funext e
    cases e.timestamp with
    | none => simp [keptTime]
    | some t =>
        by_cases kept : cutoff ≤ t
        · simp [keptTime, on, kept, Nat.not_lt.mpr kept]
        · simp [keptTime, on, kept, Nat.lt_of_not_le kept]

theorem mem_auditLogs_purge {e : AuditLog} :
    e ∈ (db.purgeExpiredAuditLogs retentionDays cutoff).auditLogs ↔
      e ∈ db.auditLogs ∧ keptTime retentionDays cutoff e.timestamp = true := by
  rw [purge_eq]
  refine Table.mem_delete.trans (and_congr_right fun _ => ?_)
  rw [Bool.not_eq_false']

theorem handedOver_purge {driveId : Nat} :
    handedOver (db.purgeExpiredAuditLogs retentionDays cutoff) job driveId = true ↔
      ∃ e ∈ db.auditLogs, confirms db job driveId e = true ∧
        keptTime retentionDays cutoff e.timestamp = true := by
  have same : confirms (db.purgeExpiredAuditLogs retentionDays cutoff) job driveId =
      confirms db job driveId := by
    rw [purge_eq]
    rfl
  rw [handedOver, Table.any_eq_true_iff, same]
  constructor
  · rintro ⟨e, mem, h⟩
    obtain ⟨mem, kept⟩ := mem_auditLogs_purge.mp mem
    exact ⟨e, mem, h, kept⟩
  · rintro ⟨e, mem, h, kept⟩
    exact ⟨e, mem_auditLogs_purge.mpr ⟨mem, kept⟩, h⟩

/-- The retention never confirms a handoff. -/
theorem handedOver_of_purge {driveId : Nat}
    (h : handedOver (db.purgeExpiredAuditLogs retentionDays cutoff) job driveId = true) :
    handedOver db job driveId = true := by
  obtain ⟨e, mem, confirmed, -⟩ := handedOver_purge.mp h
  exact Table.any_eq_true_iff.mpr ⟨e, mem, confirmed⟩

theorem handedOver_purge_eq_iff {driveId : Nat} :
    handedOver (db.purgeExpiredAuditLogs retentionDays cutoff) job driveId =
      handedOver db job driveId ↔ KeepsHandoff db retentionDays cutoff job driveId := by
  rw [KeepsHandoff, ← handedOver_purge, Bool.eq_iff_iff]
  exact ⟨fun same => same.mpr, fun keeps => ⟨handedOver_of_purge, keeps⟩⟩

/-! ### The flags of the report -/

theorem forall₂_map_eq {α β γ : Type} {R : α → β → Prop} {f : α → γ} {g : β → γ} {as : List α}
    {bs : List β} (related : List.Forall₂ R as bs) (same : ∀ a ∈ as, ∀ b, R a b → g b = f a) :
    bs.map g = as.map f := by
  induction related with
  | nil => rfl
  | cons first _ ih =>
      rw [List.map_cons, List.map_cons, same _ (List.mem_cons_self ..) _ first,
        ih fun a mem => same a (List.mem_cons_of_mem _ mem)]

theorem buildJobReport_flags {report : Report}
    (built : db.buildJobReport fromisoformat job = .ok report) :
    report.reports.map DriveReport.custodyComplete =
      (db.jobDrives job).map fun drive => handedOver db job drive.id := by
  simp only [buildJobReport, bind_eq_ok, pure_eq_ok] at built
  obtain ⟨-, -, reports, made, rfl⟩ := built
  apply forall₂_map_eq (mapM_eq_ok.mp made)
  intro drive mem entry h
  rw [(driveReport_eq_ok h).2, any_jobDriveEvents mem]

theorem jobDrives_purge :
    (db.purgeExpiredAuditLogs retentionDays cutoff).jobDrives job = db.jobDrives job := by
  rw [purge_eq]
  rfl

theorem flags_purge_eq_iff {report report' : Report}
    (built : db.buildJobReport fromisoformat job = .ok report)
    (built' : (db.purgeExpiredAuditLogs retentionDays cutoff).buildJobReport fromisoformat job =
      .ok report') :
    report'.reports.map DriveReport.custodyComplete =
        report.reports.map DriveReport.custodyComplete ↔
      ∀ drive ∈ db.jobDrives job, KeepsHandoff db retentionDays cutoff job drive.id := by
  rw [buildJobReport_flags built, buildJobReport_flags built', jobDrives_purge, List.map_inj_left]
  exact forall₂_congr fun drive _ => handedOver_purge_eq_iff

/-! ### The listing -/

theorem lookup_of_not_listed (absent : (job.id : Int) ∉ jobIds) :
    (db.getJobCustodySummaries jobIds).lookup job.id = none := by
  rw [List.lookup_eq_none_iff, getJobCustodySummaries]
  intro p mem
  obtain ⟨k, listed, rfl⟩ := List.mem_map.mp mem
  refine bne_iff_ne.mpr ?_
  rintro rfl
  exact absent (mem_normalizedJobIds.mp listed).2

/-- A job that no drive is assigned to has no custody. -/
theorem lookup_of_unassigned (mem : job ∈ db.jobs) (active : job.status ≠ .archived)
    (none : db.assignmentsOf job.id = []) (listed : (job.id : Int) ∈ jobIds) :
    (db.getJobCustodySummaries jobIds).lookup job.id = some Option.none := by
  have own := assignments_batch (mem_activeJobIds_of_mem (mem_batchJobs mem listed) active)
  rw [lookup_eq_activeSummary mem active listed, activeSummary, own, none]
  rfl

theorem summary_purge_eq_iff (mem : job ∈ db.jobs) (active : job.status ≠ .archived) :
    ((db.purgeExpiredAuditLogs retentionDays cutoff).getJobCustodySummaries jobIds).lookup job.id =
      (db.getJobCustodySummaries jobIds).lookup job.id ↔
      ((job.id : Int) ∈ jobIds →
        (∀ a ∈ db.assignmentsOf job.id, handedOver db job a.driveId = true) →
        ∀ a ∈ db.assignmentsOf job.id, KeepsHandoff db retentionDays cutoff job a.driveId) := by
  have jobs : (db.purgeExpiredAuditLogs retentionDays cutoff).jobs = db.jobs := by
    rw [purge_eq]
    rfl
  have assignments : (db.purgeExpiredAuditLogs retentionDays cutoff).assignmentsOf job.id =
      db.assignmentsOf job.id := by
    rw [purge_eq]
    rfl
  by_cases listed : (job.id : Int) ∈ jobIds
  · by_cases assigned : db.assignmentsOf job.id = []
    · rw [lookup_of_unassigned mem active assigned listed,
        lookup_of_unassigned (jobs ▸ mem) active (assignments.trans assigned) listed]
      exact iff_of_true rfl fun _ _ a ha => by rw [assigned] at ha; cases ha
    · rw [lookup_getJobCustodySummaries mem active assigned listed,
        lookup_getJobCustodySummaries (jobs ▸ mem) active (assignments ▸ assigned) listed,
        assignments, Option.some_inj, Option.some_inj, Bool.eq_iff_iff, List.all_eq_true,
        List.all_eq_true]
      constructor
      · intro same _ all a ha
        exact handedOver_purge_eq_iff.mp ((same.mpr all a ha).trans (all a ha).symm)
      · intro keeps
        constructor
        · exact fun all a ha => handedOver_of_purge (all a ha)
        · exact fun all a ha => handedOver_purge.mpr (keeps listed all a ha (all a ha))
  · rw [lookup_of_not_listed listed, lookup_of_not_listed listed]
    exact iff_of_true rfl fun h => absurd h listed

/-! ### Recording again -/

/-- The kept event stops a request that was confirmed: it belongs to its lifecycle, or the
start of the lifecycle is forgotten. -/
def StopsAgain (retentionDays : Int) (cutoff : Nat) (r : HandoffRequest) (start : LifecycleStart)
    (e : AuditLog) : Prop :=
  start.matches e = true ∨
    (r.jobId = none ∧ e.timestamp = none ∧
      ∃ time ∈ start.startAt, keptTime retentionDays cutoff (some time) = false)

theorem mem_handoffCandidates_purge {driveId : Nat} {projectId : ProjectId} {e : AuditLog} :
    e ∈ (db.purgeExpiredAuditLogs retentionDays cutoff).handoffCandidates driveId projectId ↔
      e ∈ db.handoffCandidates driveId projectId ∧
        keptTime retentionDays cutoff e.timestamp = true := by
  rw [mem_handoffCandidates, mem_auditLogs_purge, mem_handoffCandidates, and_right_comm]

/-- The last row of those that are kept, where the rows after a kept one are kept too. -/
theorem getLast?_filter {α : Type} {l : List α} {p : α → Bool}
    (upward : ∀ last, l.getLast? = some last → ∀ a ∈ l, p a = true → p last = true) :
    (l.filter p).getLast? = l.getLast?.filter p := by
  cases final : l.getLast? with
  | none => rw [List.getLast?_eq_none_iff.mp final]; rfl
  | some last =>
      obtain ⟨front, rfl⟩ := List.getLast?_eq_some_iff.mp final
      cases kept : p last with
      | true => simp [List.filter_append, kept, Option.filter]
      | false =>
          have none : (front ++ [last]).filter p = [] := by
            apply List.filter_eq_nil_iff.mpr
            intro a mem h
            rw [upward last final a mem h] at kept
            cases kept
          rw [none]
          simp [Option.filter, kept]

theorem keptTime_mono {e e' : AuditLog} (le : e.key ≤ e'.key)
    (kept : keptTime retentionDays cutoff e.timestamp = true) :
    keptTime retentionDays cutoff e'.timestamp = true := by
  rw [keptTime, decide_eq_true_eq] at kept ⊢
  apply kept.imp_right
  intro early
  rw [AuditLog.key, AuditLog.key, timeKey, timeKey, Prod.Lex.toLex_le_toLex] at le
  cases time' : e'.timestamp with
  | none => rfl
  | some t' =>
      cases time : e.timestamp with
      | none => simp [time, time'] at le
      | some t =>
          simp only [time, time', Option.elim_some, WithTop.coe_lt_coe, WithTop.coe_inj] at le
          simp only [time, Option.all_some, decide_eq_true_eq] at early
          simp only [Option.all_some, decide_eq_true_eq]
          omega

/-- The start of the drive's lifecycle after the purge: as before, or forgotten. -/
theorem driveProjectLifecycleStart_purge (driveId : Nat) (projectId : ProjectId) :
    (db.purgeExpiredAuditLogs retentionDays cutoff).driveProjectLifecycleStart driveId projectId =
      (db.driveProjectLifecycleStart driveId projectId).filter fun e =>
        keptTime retentionDays cutoff e.timestamp := by
  rw [purge_eq, driveProjectLifecycleStart, driveProjectLifecycleStart]
  have rows : (db.auditLogs.delete fun e => !keptTime retentionDays cutoff e.timestamp).select
      (fun e => e.action = .drive .driveInitialized ∧ e.driveId = some driveId ∧
        e.projectId = some projectId) (byKey AuditLog.key) =
      (db.auditLogs.select (fun e => e.action = .drive .driveInitialized ∧
        e.driveId = some driveId ∧ e.projectId = some projectId) (byKey AuditLog.key)).filter
        fun e => keptTime retentionDays cutoff e.timestamp := by
    rw [filter_select (keyedBy_auditLog _), Table.select, Table.select, Table.delete,
      List.filter_filter]
    congr 2
    funext e
    simp
  refine (congrArg List.getLast? rows).trans (getLast?_filter fun last final e mem kept => ?_)
  exact keptTime_mono (key_le_of_getLast? pairwise_select final mem) kept

theorem driveTarget_purge {payload : ChainOfCustodyHandoffRequest} {jobId startAt : Option Nat}
    {t : Target} (aimed : driveTarget db payload jobId startAt = some t) :
    driveTarget (db.purgeExpiredAuditLogs retentionDays cutoff) payload jobId startAt =
      some ⟨t.drive, t.projectId, (db.purgeExpiredAuditLogs retentionDays cutoff).requestLifecycle
        t.drive.id t.projectId jobId startAt⟩ ∧
      t.start = db.requestLifecycle t.drive.id t.projectId jobId startAt := by
  obtain ⟨drive, found, given⟩ := Option.bind_eq_some_iff.mp aimed
  obtain ⟨project, effective, rfl⟩ := Option.map_eq_some_iff.mp given
  have drives : (db.purgeExpiredAuditLogs retentionDays cutoff).drives = db.drives := by
    rw [purge_eq]
    rfl
  rw [driveTarget, drives, found, Option.bind_some, effective]
  exact ⟨rfl, rfl⟩

/-- A kept event belongs to the drive's lifecycle after the purge. -/
theorem matches_purge {driveId : Nat} {projectId : ProjectId} {e : AuditLog}
    (named : r.jobId = none)
    (kept : keptTime retentionDays cutoff e.timestamp = true) :
    ((db.purgeExpiredAuditLogs retentionDays cutoff).requestLifecycle driveId projectId none
      none).matches e = true ↔
      StopsAgain retentionDays cutoff r (db.requestLifecycle driveId projectId none none) e := by
  rw [StopsAgain, requestLifecycle, requestLifecycle, driveProjectLifecycleStart_purge,
    if_pos ⟨rfl, rfl⟩, if_pos ⟨rfl, rfl⟩]
  cases first : db.driveProjectLifecycleStart driveId projectId with
  | none => simp [Option.filter]
  | some initialized =>
      cases stays : keptTime retentionDays cutoff initialized.timestamp with
      | true =>
          simp only [Option.filter, stays, if_true]
          refine (or_iff_left ?_).symm
          rintro ⟨-, -, time, known, gone⟩
          rw [Option.bind_some, Option.mem_def] at known
          rw [known, gone] at stays
          cases stays
      | false =>
          -- The start is forgotten, so every kept event belongs to the lifecycle.
          simp only [Option.filter, stays, Bool.false_eq_true, if_false]
          refine iff_of_true rfl ?_
          cases time : initialized.timestamp with
          | none => simp [time, keptTime] at stays
          | some start =>
              cases late : e.timestamp with
              | none =>
                  rw [time] at stays
                  exact .inr ⟨named, rfl, start, time, stays⟩
              | some t =>
                  refine .inl ?_
                  simp only [keptTime, time, late, Option.all_some, decide_eq_false_iff_not,
                    decide_eq_true_eq, not_or] at stays kept
                  have before : start < t := by omega
                  simp [LifecycleStart.matches, handoffEventMatchesJobLifecycle, time, late, before]

/-- The request after the purge. -/
theorem target_purge {t : Target} (aimed : target db r = some t) :
    ∃ start, target (db.purgeExpiredAuditLogs retentionDays cutoff) r =
        some ⟨t.drive, t.projectId, start⟩ ∧
      ∀ e, keptTime retentionDays cutoff e.timestamp = true →
        (start.matches e = true ↔ StopsAgain retentionDays cutoff r t.start e) := by
  rw [target] at aimed ⊢
  cases named : r.jobId with
  | none =>
      rw [named] at aimed
      obtain ⟨after, start⟩ := @driveTarget_purge db retentionDays cutoff _ _ _ _ aimed
      refine ⟨_, after, fun e kept => ?_⟩
      rw [start]
      exact matches_purge named kept
  | some jobId =>
      rw [named] at aimed
      have jobs : (db.purgeExpiredAuditLogs retentionDays cutoff).jobs = db.jobs := by
        rw [purge_eq]
        rfl
      have assignments : (db.purgeExpiredAuditLogs retentionDays cutoff).assignmentsTo =
          db.assignmentsTo := by
        rw [purge_eq]
        rfl
      obtain ⟨job, found, aimed⟩ := Option.bind_eq_some_iff.mp aimed
      simp only [jobs, found, Option.bind_some, assignments]
      split at aimed
      · cases aimed
      · next given =>
        rw [if_neg given]
        split at aimed
        · next a only =>
          obtain ⟨after, start⟩ := @driveTarget_purge db retentionDays cutoff _ _ _ _ aimed
          refine ⟨_, after, fun e _ => ?_⟩
          have ofJob : ∀ db : CustodyDb, db.requestLifecycle t.drive.id t.projectId (some job.id)
              (jobDriveLifecycleStartAt job (some a)) =
              ⟨some job.id, jobDriveLifecycleStartAt job (some a), none⟩ := fun _ => if_neg (by simp)
          rw [start, ofJob, ofJob, StopsAgain, named]
          simp
        · cases aimed

/-- A request adds no handoff exactly if its lifecycle has one. -/
theorem submit_keeps_iff {t : Target} (aimed : target db r = some t) :
    (∀ o, (submit fromisoformat db o r).1 = db) ↔
      ∃ e ∈ db.handoffCandidates t.drive.id t.projectId, t.start.matches e = true := by
  have effect : ∀ o, (submit fromisoformat db o r).1 =
      (db.recordHandoff fromisoformat o r.payload t.drive t.projectId t.start).1 := by
    intro o
    have effect := @submit_eq fromisoformat db o r
    rw [aimed] at effect
    exact effect.1
  simp only [effect]
  constructor
  · intro same
    by_contra first
    push Not at first
    have prior : db.findPriorHandoffEvent t.drive.id t.projectId t.start = none :=
      List.find?_eq_none.mpr first
    have unknown : db.findExistingHandoffEvent t.drive.id t.projectId t.start r.payload = none := by
      refine List.find?_eq_none.mpr fun e listed => ?_
      rw [Bool.and_eq_true]
      exact fun h => first e listed h.1
    -- A request whose commit succeeds adds a row with a new key.
    have added := same ⟨none, 0, true, true, true⟩
    simp only [recordHandoff, unknown, prior, if_true] at added
    have grown := congrArg (fun db : CustodyDb => db.auditLogs.seq) added
    simp only [addAudit, withAuditLogs, Table.insert] at grown
    omega
  · rintro ⟨e, listed, matched⟩ o
    rcases @recordHandoff_cases fromisoformat db o t r.payload with
      ⟨existing, -, same⟩ | ⟨same, -⟩ | ⟨-, first, -⟩
    · exact congrArg Prod.fst same
    · exact same
    · exact absurd matched (List.find?_eq_none.mp first e listed)

theorem purge_custody_iff (mem : job ∈ db.jobs) (active : job.status ≠ .archived) :
    (((db.purgeExpiredAuditLogs retentionDays cutoff).getJobCustodySummaries jobIds).lookup job.id =
      (db.getJobCustodySummaries jobIds).lookup job.id ↔
      ((job.id : Int) ∈ jobIds →
        (∀ a ∈ db.assignmentsOf job.id, handedOver db job a.driveId = true) →
        ∀ a ∈ db.assignmentsOf job.id, KeepsHandoff db retentionDays cutoff job a.driveId)) ∧
    (∀ report report', db.buildJobReport fromisoformat job = .ok report →
      (db.purgeExpiredAuditLogs retentionDays cutoff).buildJobReport fromisoformat job = .ok report' →
      (report'.reports.map DriveReport.custodyComplete =
          report.reports.map DriveReport.custodyComplete ↔
        ∀ drive ∈ db.jobDrives job, KeepsHandoff db retentionDays cutoff job drive.id)) ∧
    ∀ r t, target db r = some t →
      ((∀ o, (submit fromisoformat (db.purgeExpiredAuditLogs retentionDays cutoff) o r).1 =
          db.purgeExpiredAuditLogs retentionDays cutoff) ↔
        ∃ e ∈ db.handoffCandidates t.drive.id t.projectId,
          keptTime retentionDays cutoff e.timestamp = true ∧
            StopsAgain retentionDays cutoff r t.start e) := by
  refine ⟨summary_purge_eq_iff mem active, fun report report' built built' =>
    flags_purge_eq_iff built built', fun r t aimed => ?_⟩
  obtain ⟨start, after, stops⟩ := @target_purge db retentionDays cutoff r t aimed
  rw [submit_keeps_iff after]
  constructor
  · rintro ⟨e, listed, matched⟩
    obtain ⟨listed, kept⟩ := mem_handoffCandidates_purge.mp listed
    exact ⟨e, listed, kept, (stops e kept).mp matched⟩
  · rintro ⟨e, listed, kept, stopping⟩
    exact ⟨e, mem_handoffCandidates_purge.mpr ⟨listed, kept⟩, (stops e kept).mpr stopping⟩

end Purge

/-! ### A handoff that is older than the cutoff -/

namespace Forgotten

def handoff : AuditLog :=
  ⟨1, some 15, none, .drive .cocHandoffConfirmed, some Lab.projectP, some 1, some 1, none⟩

def db : CustodyDb := { Repeated.db with auditLogs := ⟨[handoff], 1, by decide, by decide⟩ }

def purged : CustodyDb := db.purgeExpiredAuditLogs 365 100

/-- The handoff is refused before the purge and recorded again after it. -/
example : (submit (fun _ => none) db Repeated.occasion Repeated.plain).2 =
      .error .alreadyRecorded ∧
    (submit (fun _ => none) purged Repeated.occasion Repeated.plain).1.auditLogs.rows.length = 1 :=
  ⟨rfl, rfl⟩

end Forgotten

open Forgotten in
theorem purge_custody_iff_forgotten :
    ((purged.getJobCustodySummaries [1]).lookup 1 = (db.getJobCustodySummaries [1]).lookup 1 ↔
      ((1 : Int) ∈ [(1 : Int)] →
        (∀ a ∈ db.assignmentsOf 1, handedOver db (Reused.job 1) a.driveId = true) →
        ∀ a ∈ db.assignmentsOf 1, KeepsHandoff db 365 100 (Reused.job 1) a.driveId)) :=
  (@purge_custody_iff _ _ _ (Reused.job 1) _ (fun _ => none) (.head _) (by decide)).1

/-- The job is no longer shown as handed over. -/
theorem purge_forgets_handoff :
    ¬ ∀ (fromisoformat : IsoFormat) (db : CustodyDb) (job : Job) (retentionDays : Int) (cutoff : Nat),
        job ∈ db.jobs → job.status ≠ .archived →
        ((db.purgeExpiredAuditLogs retentionDays cutoff).getJobCustodySummaries [job.id]).lookup
            job.id = (db.getJobCustodySummaries [job.id]).lookup job.id ∧
          ∀ o r, (submit fromisoformat db o r).1 = db →
            (submit fromisoformat (db.purgeExpiredAuditLogs retentionDays cutoff) o r).1 =
              db.purgeExpiredAuditLogs retentionDays cutoff := by
  intro unchanged
  have same := (unchanged (fun _ => none) Forgotten.db (Reused.job 1) 365 100 (.head _)
    (by decide)).1
  exact absurd same (by decide)

end Ecube.Custody
