import Ecube.Invariants.CustodySummary

/-!
The totals of a job on a drive.

A report has one summary for each drive and job. A job may be assigned to a drive
more than once, when it comes back to it; the summary has the counters of the last
of these assignments (`Latest`), and the manifests of the job, whatever drive they
are on. `manifestSummary_eq`: what a summary has, in every report that is built,
and when it is the sum over the assignments.
-/

namespace Ecube.Custody

open OrderBy CustodyDb

/-! ### Sums -/

section Sums

variable {α : Type} {l : List α} {last : α}

/-- The value of the last row is the sum exactly if the other rows add nothing. -/
theorem last_eq_sum_iff (final : l.getLast? = some last) (nodup : l.Nodup) (f : α → Nat) :
    f last = (l.map f).sum ↔ ∀ x ∈ l, x ≠ last → f x = 0 := by
  obtain ⟨front, rfl⟩ := List.getLast?_eq_some_iff.mp final
  have apart : ∀ x ∈ front, x ≠ last := by
    rintro x mem rfl
    exact (List.nodup_append.mp nodup).2.2 x mem x (List.mem_singleton_self x) rfl
  have sum : ((front ++ [last]).map f).sum = (front.map f).sum + f last := by simp
  rw [sum, Nat.right_eq_add, List.sum_eq_zero_iff_forall_eq_nat]
  constructor
  · intro zero x mem ne
    have inFront : x ∈ front :=
      (List.mem_append.mp mem).resolve_right fun final => ne (List.mem_singleton.mp final)
    exact zero (f x) (List.mem_map_of_mem inFront)
  · intro none n mem
    obtain ⟨x, hx, rfl⟩ := List.mem_map.mp mem
    exact none x (List.mem_append_left _ hx) (apart x hx)

end Sums

section Totals

variable {db : CustodyDb} {driveId jobId : Nat} {fromisoformat : IsoFormat}

/-! ### The assignments and manifests of a summary -/

/-- The assignments of the job to the drive. -/
def assignmentsTo (db : CustodyDb) (driveId jobId : Nat) : List Assignment :=
  db.assignments.rows.filter fun a => a.driveId = driveId ∧ a.jobId = jobId

def totalOver (db : CustodyDb) (driveId jobId : Nat) (count : Assignment → Nat) : Nat :=
  ((assignmentsTo db driveId jobId).map count).sum

/-- The last assignment of the job to the drive, by its time. -/
structure Latest (db : CustodyDb) (driveId jobId : Nat) (a : Assignment) : Prop where
  mem : a ∈ assignmentsTo db driveId jobId
  last : ∀ b ∈ assignmentsTo db driveId jobId, b.key ≤ a.key

def manifestsOf (db : CustodyDb) (jobId : Nat) : List Manifest :=
  db.manifests.rows.filter fun m => m.jobId = jobId

def Manifest.key (m : Manifest) : Nat ×ₗ Nat := toLex (m.createdAt.getD 0, m.id)

theorem mem_assignmentsTo {a : Assignment} :
    a ∈ assignmentsTo db driveId jobId ↔
      a ∈ db.assignments ∧ a.driveId = driveId ∧ a.jobId = jobId := by
  rw [assignmentsTo, List.mem_filter, decide_eq_true_eq]
  rfl

/-- The assignments to the drive, in their order. -/
theorem orderedAssignments_perm :
    ((db.assignmentsOf jobId).filter fun a => a.driveId = driveId).Perm
      (assignmentsTo db driveId jobId) := by
  refine (perm_orderBy.filter _).trans (List.Perm.of_eq ?_)
  rw [List.filter_filter, assignmentsTo]
  congr 1
  funext a
  simp

theorem nodup_assignmentsTo : (assignmentsTo db driveId jobId).Nodup :=
  (List.Nodup.of_map _ db.assignments.nodup).filter _

theorem latest_of_lastAssignment {a : Assignment}
    (last : db.lastAssignment driveId jobId = some a) : Latest db driveId jobId a where
  mem := orderedAssignments_perm.mem_iff.mp (List.mem_of_getLast? last)
  last _ mem := key_le_of_getLast? (pairwise_select.filter _) last
    (orderedAssignments_perm.mem_iff.mpr mem)

theorem exists_lastAssignment {a : Assignment} (mem : a ∈ assignmentsTo db driveId jobId) :
    ∃ last, db.lastAssignment driveId jobId = some last :=
  Option.isSome_iff_exists.mp <| List.getLast?_isSome.mpr <|
    List.ne_nil_of_mem (orderedAssignments_perm.mem_iff.mpr mem)

/-- A counter of the last assignment is its sum exactly if the others count nothing. -/
theorem lastAssignment_eq_total_iff {a : Assignment}
    (last : db.lastAssignment driveId jobId = some a) (count : Assignment → Nat) :
    count a = totalOver db driveId jobId count ↔
      ∀ b ∈ assignmentsTo db driveId jobId, b ≠ a → count b = 0 := by
  have ordered := @orderedAssignments_perm db driveId jobId
  rw [totalOver, ← (ordered.map count).sum_nat,
    last_eq_sum_iff last (ordered.nodup_iff.mpr nodup_assignmentsTo)]
  exact forall_congr' fun b => by rw [ordered.mem_iff]

/-! ### Summaries -/

/-- What a summary of the drive reports. -/
structure Summarised (db : CustodyDb) (driveId : Nat) (m : ManifestSummary) : Prop where
  totals : ∃ a, db.lastAssignment driveId m.jobId = some a ∧ m.totalFiles = a.fileCount ∧
    m.totalBytes = a.copiedBytes
  count : m.manifestCount = (manifestsOf db m.jobId).length
  latest : m.latestManifestPath =
    (orderBy Manifest.key (manifestsOf db m.jobId)).getLast?.bind Manifest.manifestPath

theorem summarised_of_mem {jobIds : List Nat} {jobsById : Nat → Option Job}
    {manifestsByJob : Nat → List Manifest} {assignments : Nat → Nat → Option Assignment}
    {details : Nat → Details} {m : ManifestSummary}
    (keyed : ∀ k ∈ jobIds, ∀ job, jobsById k = some job → job.id = k)
    (manifests : ∀ k ∈ jobIds, manifestsByJob k = manifestsOf db k)
    (lasts : ∀ k ∈ jobIds, assignments driveId k = db.lastAssignment driveId k)
    (assigned : ∀ k ∈ jobIds, ∃ a, a ∈ assignmentsTo db driveId k)
    (mem : m ∈ assembleManifestSummary driveId jobIds jobsById manifestsByJob assignments details) :
    Summarised db driveId m := by
  obtain ⟨k, listed, made⟩ := List.mem_filterMap.mp mem
  obtain ⟨job, found, rfl⟩ := Option.map_eq_some_iff.mp made
  obtain ⟨a, ha⟩ := assigned k listed
  obtain ⟨last, hlast⟩ := exists_lastAssignment ha
  have key := keyed k listed job found
  refine ⟨⟨last, ?_, ?_, ?_⟩, ?_, ?_⟩
  · rw [key, hlast]
  · rw [lasts k listed, hlast]
    rfl
  · rw [lasts k listed, hlast]
    rfl
  · rw [manifests k listed, key]
    exact perm_orderBy.length_eq
  · rw [manifests k listed, key]
    rfl

/-- A summary has each of its jobs once. -/
theorem nodup_assembleManifestSummary {jobIds : List Nat} {jobsById : Nat → Option Job}
    {manifestsByJob : Nat → List Manifest} {assignments : Nat → Nat → Option Assignment}
    {details : Nat → Details} (once : jobIds.Nodup)
    (keyed : ∀ k ∈ jobIds, ∀ job, jobsById k = some job → job.id = k) :
    ((assembleManifestSummary driveId jobIds jobsById manifestsByJob assignments details).map
      ManifestSummary.jobId).Nodup := by
  rw [List.Nodup, List.pairwise_map, assembleManifestSummary, List.pairwise_filterMap]
  refine List.Pairwise.imp_of_mem (fun {k l} hk hl ne m made n made' same => ne ?_) once
  obtain ⟨job, found, rfl⟩ := Option.map_eq_some_iff.mp made
  obtain ⟨job', found', rfl⟩ := Option.map_eq_some_iff.mp made'
  rw [← keyed k hk job found, ← keyed l hl job' found']
  exact same

theorem nodup_sortedIds (ids : List Nat) : (sortedIds ids).Nodup :=
  perm_orderBy.nodup_iff.mpr ids.nodup_dedup

theorem summary_driveReport {drive : Drive} {projectId : Option ProjectId} {evidence : Option Str}
    {events : List AuditLog} {summary : List ManifestSummary} {r : DriveReport}
    (h : driveReport fromisoformat drive projectId evidence events summary = .ok r) :
    r.driveId = drive.id ∧ r.manifestSummary = summary := by
  simp only [driveReport, bind_eq_ok, pure_eq_ok] at h
  obtain ⟨cocEvents, -, rfl⟩ := h
  exact ⟨rfl, rfl⟩

/-- The report of a job. -/
theorem summarised_jobDriveReport {job : Job} {drive : Drive} {r : DriveReport}
    (listed : drive ∈ db.jobDrives job) (made : db.jobDriveReport fromisoformat job drive = .ok r)
    {m : ManifestSummary} (mem : m ∈ r.manifestSummary) : Summarised db r.driveId m := by
  obtain ⟨key, summary⟩ := summary_driveReport made
  rw [summary] at mem
  rw [key]
  obtain ⟨-, a, ha, same⟩ := mem_jobDrives.mp listed
  obtain ⟨row, ofJob⟩ := Table.mem_select.mp ha
  have assigned : a ∈ assignmentsTo db drive.id job.id :=
    mem_assignmentsTo.mpr ⟨row, same, of_decide_eq_true ofJob⟩
  refine summarised_of_mem (fun k hk j found => ?_) (fun k hk => rfl) (fun k hk => rfl)
    (fun k hk => ⟨a, ?_⟩) mem
  · cases found
    exact (List.mem_singleton.mp hk).symm
  · rwa [List.mem_singleton.mp hk]

/-! ### Reports by a selector -/

theorem mem_jobIdsPerDrive {s : Scope} {k : Nat} :
    k ∈ db.jobIdsPerDrive s driveId ↔
      ∃ a ∈ db.rawAssignments s, (a.driveId = driveId ∧ a.jobId = k) ∧ db.inScope s a := by
  rw [jobIdsPerDrive, mem_sortedIds, List.mem_map]
  simp only [List.mem_filter, decide_eq_true_eq]
  constructor
  · rintro ⟨a, ⟨mem, ofDrive, scope⟩, ofJob⟩
    exact ⟨a, mem, ⟨ofDrive, ofJob⟩, scope⟩
  · rintro ⟨a, mem, ⟨ofDrive, ofJob⟩, scope⟩
    exact ⟨a, ⟨mem, ofDrive, scope⟩, ofJob⟩

/-- All assignments of a job to a drive are in the scope if one is. -/
theorem assignmentByDriveAndJob_eq_last {s : Scope} {k : Nat}
    (listed : k ∈ db.jobIdsPerDrive s driveId) :
    db.assignmentByDriveAndJob s driveId k = db.lastAssignment driveId k := by
  obtain ⟨a, mem, ⟨ofDrive, ofJob⟩, scope⟩ := mem_jobIdsPerDrive.mp listed
  obtain ⟨-, fetched⟩ := Table.mem_select.mp mem
  rw [decide_eq_true_eq, ofDrive, ofJob] at fetched
  rw [inScope, ofDrive, ofJob] at scope
  rw [assignmentByDriveAndJob, lastAssignment, rawAssignments, assignmentsOf,
    filter_select (keyedBy_assignment _), filter_select (keyedBy_assignment _)]
  refine congrArg List.getLast? (select_congr fun b _ => ?_)
  by_cases own : b.driveId = driveId ∧ b.jobId = k
  · simp [own, fetched, inScope, scope]
  · rw [Bool.eq_iff_iff]
    simp only [Bool.and_eq_true, decide_eq_true_eq]
    exact ⟨fun h => absurd h.2.1 own, fun h => absurd ⟨h.2, h.1⟩ own⟩

theorem summarised_scopedDriveReport {s : Scope} {drive : Drive} {r : DriveReport}
    (mem : drive ∈ s.drives) (made : db.scopedDriveReport fromisoformat s drive = .ok r)
    {m : ManifestSummary} (summarised : m ∈ r.manifestSummary) : Summarised db r.driveId m := by
  obtain ⟨key, summary⟩ := summary_driveReport made
  rw [summary] at summarised
  rw [key]
  have listed : ∀ k ∈ db.jobIdsPerDrive s drive.id, k ∈ db.allJobIds s :=
    fun k hk => List.mem_flatMap.mpr ⟨drive, mem, hk⟩
  refine summarised_of_mem (fun k hk job found => ?_) (fun k hk => ?_)
    (fun k hk => assignmentByDriveAndJob_eq_last hk) (fun k hk => ?_) summarised
  · rw [jobsById, if_pos (listed k hk)] at found
    exact Table.id_of_get found
  · simp [manifestsByJob, manifestsOf, listed k hk]
  · obtain ⟨a, raw, own, -⟩ := mem_jobIdsPerDrive.mp hk
    exact ⟨a, mem_assignmentsTo.mpr ⟨(Table.mem_select.mp raw).1, own⟩⟩

/-- A report of the database: of a job or by a selector. -/
inductive Built (fromisoformat : IsoFormat) (db : CustodyDb) : Report → Prop
  | job {job : Job} {report : Report} :
      db.buildJobReport fromisoformat job = .ok report → Built fromisoformat db report
  | selector {driveId : Option Nat} {driveSn : Option Str} {projectId : Option ProjectId}
      {report : Report} :
      db.getChainOfCustodyReport fromisoformat driveId driveSn projectId = .ok report →
      Built fromisoformat db report

theorem summarised_of_built {report : Report} (built : Built fromisoformat db report)
    {r : DriveReport} (entry : r ∈ report.reports) {m : ManifestSummary}
    (mem : m ∈ r.manifestSummary) : Summarised db r.driveId m := by
  cases built with
  | job built =>
      simp only [buildJobReport, bind_eq_ok, pure_eq_ok] at built
      obtain ⟨-, -, reports, made, rfl⟩ := built
      obtain ⟨drive, listed, made⟩ := (mem_mapM made).1 r entry
      exact summarised_jobDriveReport listed made mem
  | selector built =>
      simp only [getChainOfCustodyReport, bind_eq_ok, pure_eq_ok] at built
      obtain ⟨targets, -, reports, made, rfl⟩ := built
      obtain ⟨drive, listed, made⟩ := (mem_mapM made).1 r entry
      exact summarised_scopedDriveReport (mem_orderBy.mp listed) made mem

theorem nodup_of_built {report : Report} (built : Built fromisoformat db report)
    {r : DriveReport} (entry : r ∈ report.reports) :
    (r.manifestSummary.map ManifestSummary.jobId).Nodup := by
  cases built with
  | job built =>
      simp only [buildJobReport, bind_eq_ok, pure_eq_ok] at built
      obtain ⟨-, -, reports, made, rfl⟩ := built
      obtain ⟨drive, -, made⟩ := (mem_mapM made).1 r entry
      rw [(summary_driveReport made).2]
      refine nodup_assembleManifestSummary (List.nodup_singleton _) fun k hk job found => ?_
      cases found
      exact (List.mem_singleton.mp hk).symm
  | selector built =>
      simp only [getChainOfCustodyReport, bind_eq_ok, pure_eq_ok] at built
      obtain ⟨targets, -, reports, made, rfl⟩ := built
      obtain ⟨drive, -, made⟩ := (mem_mapM made).1 r entry
      rw [(summary_driveReport made).2]
      refine nodup_assembleManifestSummary (nodup_sortedIds _) fun k _ job found => ?_
      rw [jobsById] at found
      split at found
      · exact Table.id_of_get found
      · cases found

/-- In every report, a summary of a drive has at most one item for each job. An
item has the counters of the last assignment of its job to the drive, which are
the sums over all of them exactly if the others counted nothing, the number of
all manifests of the job, and the path of the newest of them. -/
theorem manifestSummary_eq {report : Report} (built : Built fromisoformat db report)
    {r : DriveReport} (entry : r ∈ report.reports) {m : ManifestSummary}
    (mem : m ∈ r.manifestSummary) :
    (r.manifestSummary.map ManifestSummary.jobId).Nodup ∧
    (∃ a, Latest db r.driveId m.jobId a ∧
      m.totalFiles = a.fileCount ∧ m.totalBytes = a.copiedBytes ∧
      (m.totalFiles = totalOver db r.driveId m.jobId Assignment.fileCount ↔
        ∀ b ∈ assignmentsTo db r.driveId m.jobId, b ≠ a → b.fileCount = 0) ∧
      (m.totalBytes = totalOver db r.driveId m.jobId Assignment.copiedBytes ↔
        ∀ b ∈ assignmentsTo db r.driveId m.jobId, b ≠ a → b.copiedBytes = 0)) ∧
    m.manifestCount = (manifestsOf db m.jobId).length ∧
    ((manifestsOf db m.jobId = [] ∧ m.latestManifestPath = none) ∨
      ∃ x ∈ manifestsOf db m.jobId, m.latestManifestPath = x.manifestPath ∧
        ∀ y ∈ manifestsOf db m.jobId, y.key ≤ x.key) := by
  obtain ⟨⟨a, last, files, bytes⟩, count, latest⟩ := summarised_of_built built entry mem
  refine ⟨nodup_of_built built entry, ⟨a, latest_of_lastAssignment last, files, bytes, ?_, ?_⟩, count, ?_⟩
  · rw [files]
    exact lastAssignment_eq_total_iff last Assignment.fileCount
  · rw [bytes]
    exact lastAssignment_eq_total_iff last Assignment.copiedBytes
  · rw [latest]
    cases final : (orderBy Manifest.key (manifestsOf db m.jobId)).getLast? with
    | none =>
        have nothing : orderBy Manifest.key (manifestsOf db m.jobId) = [] :=
          List.getLast?_eq_none_iff.mp final
        exact .inl ⟨List.Perm.eq_nil (nothing ▸ perm_orderBy.symm), rfl⟩
    | some x =>
        exact .inr ⟨x, mem_orderBy.mp (List.mem_of_getLast? final), rfl, fun y hy =>
          key_le_of_getLast? pairwise_orderBy final (mem_orderBy.mpr hy)⟩

end Totals

/-! ### A job that returns to its first drive -/

namespace Returned

def drive (id : Nat) : Drive := ⟨id, "usb|serial=S".toList, none, none, none, some Lab.projectP⟩

def manifest (id driveAssignmentId : Nat) (path : String) : Manifest :=
  ⟨id, 1, some driveAssignmentId, some path.toList, some "JSON".toList, some (40 + id)⟩

/-- One job on drives 1, 2 and again 1, with a manifest for each assignment. -/
def oneJob : Job := ⟨1, Lab.projectP, "E".toList, .completed, none, none, none⟩

def db : CustodyDb where
  auditLogs := Table.empty
  jobs := ⟨[oneJob], 1, by decide, by decide⟩
  assignments := ⟨[⟨1, 1, 1, 3, 30, some 10⟩, ⟨2, 2, 1, 4, 40, some 20⟩, ⟨3, 1, 1, 5, 50, some 30⟩],
    3, by decide, by decide⟩
  drives := ⟨[drive 1, drive 2], 2, by decide, by decide⟩
  manifests := ⟨[manifest 1 3 "/mnt/1/manifest.json", manifest 2 2 "/mnt/2/manifest.json"], 2,
    by decide, by decide⟩
  snapshots := Table.empty
  job_pos := by decide
  assigned_drive := by decide

def summary (files bytes : Nat) : ManifestSummary :=
  ⟨1, "E".toList, none, files, bytes, 2, some "/mnt/2/manifest.json".toList, some "JSON".toList,
    some 42⟩

def entry (driveId files bytes : Nat) : DriveReport :=
  ⟨driveId, "S".toList, none, none, some Lab.projectP, some "E".toList, false, none, [],
    [summary files bytes]⟩

def report : Report := ⟨.project, some Lab.projectP, [entry 1 5 50, entry 2 4 40]⟩

theorem built : Built (fun _ => none) db report := by
  refine @Built.selector _ _ none none (some Lab.projectP) _ ?_
  rfl

end Returned

theorem manifestSummary_eq_returned :
    ((Returned.entry 1 5 50).manifestSummary.map ManifestSummary.jobId).Nodup ∧
    (∃ a, Latest Returned.db 1 1 a ∧ 5 = a.fileCount ∧ 50 = a.copiedBytes ∧
      (5 = totalOver Returned.db 1 1 Assignment.fileCount ↔
        ∀ b ∈ assignmentsTo Returned.db 1 1, b ≠ a → b.fileCount = 0) ∧
      (50 = totalOver Returned.db 1 1 Assignment.copiedBytes ↔
        ∀ b ∈ assignmentsTo Returned.db 1 1, b ≠ a → b.copiedBytes = 0)) ∧
    2 = (manifestsOf Returned.db 1).length ∧
    ((manifestsOf Returned.db 1 = [] ∧ (Returned.summary 5 50).latestManifestPath = none) ∨
      ∃ x ∈ manifestsOf Returned.db 1,
        (Returned.summary 5 50).latestManifestPath = x.manifestPath ∧
        ∀ y ∈ manifestsOf Returned.db 1, y.key ≤ x.key) :=
  manifestSummary_eq Returned.built (r := Returned.entry 1 5 50) (.head _)
    (m := Returned.summary 5 50) (.head _)

/-- A manifest of one of the assignments of the job to the drive. -/
def OfDrive (db : CustodyDb) (driveId jobId : Nat) (x : Manifest) : Prop :=
  ∃ a ∈ assignmentsTo db driveId jobId, x.driveAssignmentId = some a.id

instance (db : CustodyDb) (driveId jobId : Nat) (x : Manifest) :
    Decidable (OfDrive db driveId jobId x) :=
  inferInstanceAs
    (Decidable (∃ a ∈ assignmentsTo db driveId jobId, x.driveAssignmentId = some a.id))

/-- The summary of the first drive has neither the counters of the first
assignment nor a manifest of the drive. -/
theorem manifestSummary_misses_assignment :
    (¬ ∀ (fromisoformat : IsoFormat) (db : CustodyDb) (report : Report) (r : DriveReport)
        (m : ManifestSummary), Built fromisoformat db report → r ∈ report.reports →
        m ∈ r.manifestSummary →
        m.totalFiles = totalOver db r.driveId m.jobId Assignment.fileCount ∧
        m.totalBytes = totalOver db r.driveId m.jobId Assignment.copiedBytes) ∧
    ¬ ∀ (fromisoformat : IsoFormat) (db : CustodyDb) (report : Report) (r : DriveReport)
        (m : ManifestSummary), Built fromisoformat db report → r ∈ report.reports →
        m ∈ r.manifestSummary →
        m.manifestCount ≤ (db.manifests.rows.filter (OfDrive db r.driveId m.jobId)).length ∧
        (m.latestManifestPath = none ∨
          ∃ x ∈ db.manifests.rows, OfDrive db r.driveId m.jobId x ∧
            m.latestManifestPath = x.manifestPath) := by
  constructor
  · intro sums
    have equal := (sums _ _ _ _ _ Returned.built (.head _) (.head _)).1
    exact absurd equal (by decide)
  · intro own
    have bound := (own _ _ _ _ _ Returned.built (.head _) (.head _)).1
    exact absurd bound (by decide)

end Ecube.Custody
