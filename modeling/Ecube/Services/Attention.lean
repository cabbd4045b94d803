import Mathlib.Order.Synonym
import Ecube.Basic.Pages
import Ecube.Invariants.CustodySummary

/-!
`_list_jobs_requiring_attention`: the jobs that an operator has to look at.

A job that is pending, failed or paused needs attention, and a completed one while its custody
is open or its drive is still in use. The jobs are read in batches; the custody and the
assignments of a batch are read together.

`listJobsRequiringAttention_eq`: the page that is returned is cut out of the list of all such
jobs, whatever the size of a batch.
-/

namespace Ecube.Attention

open Custody OrderBy Pages

/-- The tables, with the columns that the listing reads as well. -/
structure ListingDb extends CustodyDb where
  activatedAt : Assignment → Option Nat
  releasedAt : Assignment → Option Nat
  currentState : Drive → DriveState
  mountPath : Drive → Option Str

namespace ListingDb

/-! ### Queries -/

/-- `created_at DESC, id DESC`; a job without a time comes first. -/
def recentKey (job : Job) : (WithTop Nat ×ₗ Nat)ᵒᵈ :=
  OrderDual.toDual (timeKey job.createdAt job.id)

/-- `tuple(statuses) if statuses else None`. -/
def given (statuses : Option (List JobStatus)) : Option (List JobStatus) :=
  statuses.filter fun l => !l.isEmpty

section Queries

variable (db : ListingDb)

/-- The job has been given the drive and has not released it. -/
def onDrive (driveId : Option Nat) (job : Job) : Bool :=
  driveId.all fun k => db.assignments.any fun a =>
    a.jobId = job.id ∧ a.driveId = k ∧ db.releasedAt a = none

/-- The query of `list_recent`, without offset and limit. -/
def recentJobs (driveId : Option Nat) (statuses : Option (List JobStatus))
    (includeArchived : Bool) : List Job :=
  match given statuses with
  | none =>
      db.jobs.select
        (fun job => db.onDrive driveId job ∧ (includeArchived ∨ job.status ≠ .archived))
        (byKey recentKey)
  | some l =>
      let effective := if includeArchived then l else l.filter fun status => status ≠ .archived
      if effective.isEmpty then []
      else
        db.jobs.select (fun job => db.onDrive driveId job ∧ job.status ∈ effective)
          (byKey recentKey)

/-- `list_recent`. -/
def listRecent (limit offset : Nat) (driveId : Option Nat) (statuses : Option (List JobStatus))
    (includeArchived : Bool) : List Job :=
  ((db.recentJobs driveId statuses includeArchived).drop offset).take limit

def isActive (a : Assignment) : Bool := db.activatedAt a ≠ none ∧ db.releasedAt a = none

/-- `activated_at DESC, id DESC`. -/
def activationKey (a : Assignment) : (WithTop Nat ×ₗ Nat)ᵒᵈ :=
  OrderDual.toDual (timeKey (db.activatedAt a) a.id)

def getActiveForJob (jobId : Nat) : Option Assignment :=
  (db.assignments.select (fun a => a.jobId = jobId ∧ db.isActive a) (byKey db.activationKey)).head?

/-- `bulk_get_active_for_jobs`: of the rows of a job, the first one counts. -/
def bulkGetActiveForJobs (jobIds : List Nat) : List (Nat × Assignment) :=
  (db.assignments.select (fun a => a.jobId ∈ jobIds ∧ db.isActive a)
    (byKey fun a => toLex (a.jobId, db.activationKey a))).map fun a => (a.jobId, a)

/-! ### Attention -/

/-- `_job_requires_attention`. -/
def jobRequiresAttention (job : Job) (custodyComplete : Option Bool)
    (activeAssignment : Option Assignment) : Bool :=
  match job.status with
  | .pending | .failed | .paused => true
  | .completed =>
      match custodyComplete with
      | some false => true
      | none => false
      | some true =>
          match activeAssignment.bind fun a => db.drives.get a.driveId with
          | none => false
          | some drive =>
              db.currentState drive = .inUse ∨ (db.mountPath drive).any fun path => !path.isEmpty
  | _ => false

/-- The answer within a batch. -/
def batchRequiresAttention (batch : List Job) (job : Job) : Bool :=
  let terminalJobIds :=
    (batch.filter fun job => job.status = .completed ∨ job.status = .archived).map Job.id
  let custodyByJobId := db.getJobCustodySummaries (terminalJobIds.map Int.ofNat)
  let assignmentsByJobId := db.bulkGetActiveForJobs terminalJobIds
  db.jobRequiresAttention job (custodyByJobId.lookup job.id).join (assignmentsByJobId.lookup job.id)

/-- The answer for a job alone. -/
def requiresAttention (job : Job) : Bool :=
  db.jobRequiresAttention job ((db.getJobCustodySummaries [(job.id : Int)]).lookup job.id).join
    (db.getActiveForJob job.id)

/-- `_DASHBOARD_ATTENTION_CANDIDATE_STATUSES`. -/
def dashboardAttentionCandidateStatuses : List JobStatus := [.pending, .failed, .paused, .completed]

def candidateStatuses (statuses : Option (List JobStatus)) (includeArchived : Bool) :
    List JobStatus :=
  ((given statuses).getD dashboardAttentionCandidateStatuses).filter fun status =>
    status ∈ dashboardAttentionCandidateStatuses ∧ (includeArchived ∨ status ≠ .archived)

/-- `_list_jobs_requiring_attention` with a size of a batch; nothing if the loop does not end
within `fuel` turns. -/
def listRequiringAttentionBy (batchSize limit offset : Nat) (driveId : Option Nat)
    (statuses : Option (List JobStatus)) (includeArchived : Bool) (fuel : Nat) :
    Option (List Job) :=
  let candidates := candidateStatuses statuses includeArchived
  if candidates.isEmpty then some []
  else
    let wantedCount := offset + limit
    let fetch scanOffset :=
      db.listRecent batchSize scanOffset driveId (some candidates) includeArchived
    (scanPages fetch db.batchRequiresAttention batchSize wantedCount fuel 0 []).map fun collected =>
      (collected.take wantedCount).drop offset

/-- `_list_jobs_requiring_attention`. -/
def listJobsRequiringAttention (limit offset : Nat) (driveId : Option Nat)
    (statuses : Option (List JobStatus)) (includeArchived : Bool) (fuel : Nat) :
    Option (List Job) :=
  let wantedCount := offset + limit
  db.listRequiringAttentionBy (min (max wantedCount 200) 1000) limit offset driveId statuses
    includeArchived fuel

end Queries

/-! ### The answer for a job -/

section Job

variable {db : ListingDb} {job : Job} {jobIds : List Nat}

/-- The custody of a job does not depend on the batch. -/
theorem lookup_summaries (mem : job ∈ db.jobs) (active : job.status ≠ .archived)
    {ids : List Int} (listed : (job.id : Int) ∈ ids) :
    (db.getJobCustodySummaries ids).lookup job.id = some
      (if db.assignmentsOf job.id = [] then none
        else some ((db.assignmentsOf job.id).all fun a =>
          handedOver db.toCustodyDb job a.driveId)) := by
  by_cases none : db.assignmentsOf job.id = []
  · have inBatch := mem_activeJobIds_of_mem (mem_batchJobs mem listed) active
    rw [lookup_eq_activeSummary mem active listed, if_pos none, CustodyDb.activeSummary]
    simp only [assignments_batch inBatch]
    rw [none]
    rfl
  · rw [lookup_getJobCustodySummaries mem active none listed, if_neg none]

theorem keyedBy_activation (t : Table Assignment) :
    KeyedBy (fun a => toLex (a.jobId, db.activationKey a)) t.rows := by
  intro a ha b hb same
  have keys : db.activationKey a = db.activationKey b := congrArg (fun key => (ofLex key).2) same
  exact Table.eq_of_id_eq ha hb (timeKey_injective (OrderDual.toDual_inj.mp keys))

theorem lookup_map_key (rows : List Assignment) (k : Nat) :
    (rows.map fun a => (a.jobId, a)).lookup k = (rows.filter fun a => a.jobId = k).head? := by
  induction rows with
  | nil => rfl
  | cons a rest ih =>
      rw [List.map_cons, List.lookup_cons]
      by_cases same : a.jobId = k
      · rw [List.filter_cons_of_pos (by simpa using same), same, beq_self_eq_true]
        rfl
      · have other : (k == a.jobId) = false := beq_false_of_ne (Ne.symm same)
        rw [List.filter_cons_of_neg (by simpa using same), other]
        exact ih

/-- The first row of a job in the query for many jobs is the one of the query for it alone. -/
theorem lookup_bulkGetActiveForJobs (listed : job.id ∈ jobIds) :
    (db.bulkGetActiveForJobs jobIds).lookup job.id = db.getActiveForJob job.id := by
  rw [bulkGetActiveForJobs, lookup_map_key, filter_select (keyedBy_activation _), getActiveForJob]
  congr 1
  have rows : db.assignments.rows.filter (fun a =>
        decide (a.jobId ∈ jobIds ∧ db.isActive a = true) && decide (a.jobId = job.id)) =
      db.assignments.rows.filter fun a => a.jobId = job.id ∧ db.isActive a = true := by
    apply List.filter_congr
    intro a _
    by_cases own : a.jobId = job.id
    · simp [own, listed]
    · simp [own]
  rw [Table.select, Table.select, rows]
  refine orderBy_congr ((keyedBy_activation db.assignments).filter _) fun a ha b hb => ?_
  have own : ∀ a ∈ db.assignments.rows.filter fun a => a.jobId = job.id ∧ db.isActive a = true,
      a.jobId = job.id := fun a mem => (of_decide_eq_true (List.mem_filter.mp mem).2).1
  rw [Prod.Lex.toLex_le_toLex, own a ha, own b hb]
  simp

/-- A job has the same answer in every batch it is in. -/
theorem batchRequiresAttention_eq {batch : List Job} (mem : job ∈ db.jobs) (listed : job ∈ batch) :
    db.batchRequiresAttention batch job = db.requiresAttention job := by
  rw [batchRequiresAttention, requiresAttention]
  by_cases completed : job.status = .completed
  · have active : job.status ≠ .archived := by
      rw [completed]
      decide
    have terminal : job.id ∈
        (batch.filter fun job => job.status = .completed ∨ job.status = .archived).map Job.id :=
      List.mem_map_of_mem (List.mem_filter.mpr ⟨listed, decide_eq_true (.inl completed)⟩)
    have among := List.mem_map_of_mem (f := Int.ofNat) terminal
    rw [lookup_summaries mem active among, lookup_summaries mem active (List.mem_singleton_self _),
      lookup_bulkGetActiveForJobs terminal]
  · rw [jobRequiresAttention.eq_def, jobRequiresAttention.eq_def]
    split <;> first | rfl | contradiction

end Job

/-! ### The page -/

section Page

variable {db : ListingDb} {driveId : Option Nat} {statuses : Option (List JobStatus)}
  {includeArchived : Bool}

theorem candidate_of_requiresAttention {job : Job} (requires : db.requiresAttention job = true) :
    job.status ∈ dashboardAttentionCandidateStatuses := by
  rw [requiresAttention, jobRequiresAttention.eq_def] at requires
  split at requires
  next status => exact status ▸ by decide
  next status => exact status ▸ by decide
  next status => exact status ▸ by decide
  next status => exact status ▸ by decide
  next => cases requires

theorem keyedBy_recent (t : Table Job) : KeyedBy recentKey t.rows :=
  fun _ ha _ hb same => Table.eq_of_id_eq ha hb (timeKey_injective (OrderDual.toDual_inj.mp same))

/-- The statuses of the jobs that are listed. -/
def Listed (statuses : Option (List JobStatus)) (includeArchived : Bool)
    (status : JobStatus) : Prop :=
  (∀ l ∈ given statuses, status ∈ l) ∧ (includeArchived = true ∨ status ≠ .archived)

instance (status : JobStatus) : Decidable (Listed statuses includeArchived status) :=
  inferInstanceAs (Decidable (_ ∧ _))

theorem recentJobs_eq : db.recentJobs driveId statuses includeArchived =
    db.jobs.select (fun job => db.onDrive driveId job ∧ Listed statuses includeArchived job.status)
      (byKey recentKey) := by
  rw [recentJobs]
  split
  next none => simp [Listed, none]
  next l some =>
    dsimp only
    have listed : ∀ status, status ∈ (if includeArchived = true then l
        else l.filter fun status => status ≠ .archived) ↔
          Listed statuses includeArchived status := by
      intro status
      cases includeArchived <;> simp [Listed, some]
    generalize (if includeArchived = true then l
      else l.filter fun status => status ≠ .archived) = effective at listed ⊢
    simp only [listed]
    split
    next empty =>
      refine (List.eq_nil_iff_forall_not_mem.mpr fun job mem => ?_).symm
      have status := (of_decide_eq_true (Table.mem_select.mp mem).2).2
      rw [← listed, List.isEmpty_iff.mp empty] at status
      cases status
    next => rfl

theorem mem_candidateStatuses {status : JobStatus}
    (candidate : status ∈ dashboardAttentionCandidateStatuses) :
    status ∈ candidateStatuses statuses includeArchived ↔
      Listed statuses includeArchived status := by
  rw [candidateStatuses, List.mem_filter, decide_eq_true_eq, Listed]
  cases given statuses with
  | none => simp [candidate]
  | some l => simp [candidate]

/-- The jobs with one of the statuses that may need attention hold all that need it. -/
theorem filter_candidates (some : candidateStatuses statuses includeArchived ≠ []) :
    (db.recentJobs driveId (.some (candidateStatuses statuses includeArchived))
        includeArchived).filter db.requiresAttention =
      (db.recentJobs driveId statuses includeArchived).filter db.requiresAttention := by
  rw [recentJobs_eq, recentJobs_eq, filter_select (keyedBy_recent _),
    filter_select (keyedBy_recent _)]
  apply select_congr
  intro job _
  by_cases requires : db.requiresAttention job = true
  · have candidate := candidate_of_requiresAttention requires
    have chosen : given (.some (candidateStatuses statuses includeArchived)) =
        .some (candidateStatuses statuses includeArchived) := by
      simp [given, some]
    have same : Listed (.some (candidateStatuses statuses includeArchived)) includeArchived
          job.status ↔
        Listed statuses includeArchived job.status := by
      rw [Listed, chosen]
      simp only [Option.mem_def, Option.some.injEq, forall_eq', mem_candidateStatuses candidate]
      exact and_iff_left_of_imp And.right
    rw [requires, Bool.and_true, Bool.and_true]
    simp only [same]
  · rw [Bool.eq_false_iff.mpr requires, Bool.and_false, Bool.and_false]

theorem filter_of_noCandidates (none : candidateStatuses statuses includeArchived = []) :
    (db.recentJobs driveId statuses includeArchived).filter db.requiresAttention = [] := by
  rw [List.filter_eq_nil_iff, recentJobs_eq]
  intro job mem requires
  have candidate := candidate_of_requiresAttention requires
  have listed := (of_decide_eq_true (Table.mem_select.mp mem).2).2
  rw [← mem_candidateStatuses candidate, none] at listed
  cases listed

/-- The batches of a listing hold its jobs that need attention. -/
theorem scanPages_listRecent {batchSize wanted fuel : Nat} (pos : 0 < batchSize)
    (enough : db.jobs.rows.length < fuel) :
    scanPages (fun k => db.listRecent batchSize k driveId statuses includeArchived)
        db.batchRequiresAttention batchSize wanted fuel 0 [] =
      some (((db.recentJobs driveId statuses includeArchived).filter db.requiresAttention).take
        wanted) := by
  refine scanPages_eq pos (fun _ => rfl) (fun k job mem => ?_) ?_
  · refine batchRequiresAttention_eq ?_ mem
    have recent := List.mem_of_mem_drop (List.mem_of_mem_take mem)
    rw [recentJobs_eq] at recent
    exact (Table.mem_select.mp recent).1
  · rw [recentJobs_eq, Table.select, (List.perm_insertionSort _ _).length_eq]
    exact lt_of_le_of_lt (List.length_filter_le _ _) enough

theorem listRequiringAttentionBy_eq {batchSize limit offset fuel : Nat} (pos : 0 < batchSize)
    (enough : db.jobs.rows.length < fuel) :
    db.listRequiringAttentionBy batchSize limit offset driveId statuses includeArchived fuel =
      some ((((db.recentJobs driveId statuses includeArchived).filter db.requiresAttention).drop
        offset).take limit) := by
  rw [listRequiringAttentionBy]
  dsimp only
  by_cases none : candidateStatuses statuses includeArchived = []
  · rw [none, filter_of_noCandidates none, List.drop_nil, List.take_nil]
    rfl
  · rw [if_neg (by simpa using none), scanPages_listRecent pos enough, filter_candidates none,
      Option.map_some, List.take_take, Nat.min_self, List.drop_take, Nat.add_sub_cancel_left]

/-- The page of the jobs that need attention, the newest first, after at most one turn for every
job and one more; another size of the batches gives the same page. -/
theorem listJobsRequiringAttention_eq (db : ListingDb) (limit offset : Nat) (driveId : Option Nat)
    (statuses : Option (List JobStatus)) (includeArchived : Bool) {fuel : Nat}
    (enough : db.jobs.rows.length < fuel) :
    let page :=
      (((db.jobs.select
        (fun job => db.onDrive driveId job ∧ Listed statuses includeArchived job.status)
        (byKey recentKey)).filter db.requiresAttention).drop offset).take limit
    db.listJobsRequiringAttention limit offset driveId statuses includeArchived fuel = some page ∧
      ∀ batchSize, 0 < batchSize →
        db.listRequiringAttentionBy batchSize limit offset driveId statuses includeArchived fuel =
          some page := by
  rw [← recentJobs_eq]
  exact ⟨listRequiringAttentionBy_eq (by omega) enough,
    fun _ pos => listRequiringAttentionBy_eq pos enough⟩

end Page

/-- Two completed jobs; the drive has been handed over for the first one, and is mounted. -/
def small : ListingDb :=
  { Reused.db with
    activatedAt := fun a => some a.id
    releasedAt := fun _ => none
    currentState := fun _ => .available
    mountPath := fun _ => some ['/'] }

example : small.listJobsRequiringAttention 1 1 none none false 3 = some [Reused.job 1] := by decide

theorem listJobsRequiringAttention_eq_small :
    let page :=
      (((small.jobs.select (fun job => small.onDrive none job ∧ Listed none false job.status)
        (byKey recentKey)).filter small.requiresAttention).drop 1).take 1
    small.listJobsRequiringAttention 1 1 none none false 3 = some page ∧
      ∀ batchSize, 0 < batchSize →
        small.listRequiringAttentionBy batchSize 1 1 none none false 3 = some page :=
  listJobsRequiringAttention_eq small 1 1 none none false (by decide)

end ListingDb

end Ecube.Attention
