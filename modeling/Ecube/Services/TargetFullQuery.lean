import Ecube.Basic.Sql
import Ecube.Services.CopyEngine

/-!
`FileRepository.should_attempt_target_full_continuation`
(`app/repositories/job_repository.py`): the decision on the unfinished files of a job
as three queries, which the copy loop polls. The finalization decides on the rows
themselves (`shouldAttemptTargetFullContinuation`).

`targetFull_agree_iff`: the two agree, except that a file that failed without a message
stops the decision on the rows and is overlooked by the queries.
-/

namespace Ecube

open Sql (Truth selects isIn)

/-! ### The conditions -/

def ofJob (jobId : Nat) (f : ExportFile) : Truth := Sql.eq (some f.jobId) (some jobId)

def isError (f : ExportFile) : Truth := Sql.eq (some f.status) (some .error)

def hasTargetFullMessage (f : ExportFile) : Truth :=
  Sql.eq f.errorMessage (some targetFullMessage)

/-- `incomplete_filter`. -/
def incompleteFilter (jobId : Nat) (f : ExportFile) : Truth :=
  Sql.and (ofJob jobId f) (Sql.ne (some f.status) (some .done))

def targetFullErrorFilter (jobId : Nat) (f : ExportFile) : Truth :=
  Sql.and (ofJob jobId f) (Sql.and (isError f) (hasTargetFullMessage f))

def incompatibleFilter (jobId : Nat) (f : ExportFile) : Truth :=
  Sql.and (incompleteFilter jobId f)
    (Sql.not (Sql.or (isIn (some f.status) [.pending, .copying, .retrying])
      (Sql.and (isError f) (hasTargetFullMessage f))))

namespace Db

/-- `should_attempt_target_full_continuation`. -/
def shouldAttemptTargetFullContinuation (s : Db) (jobId : Nat) : Bool :=
  let hasIncomplete := s.files.any fun f => selects (incompleteFilter jobId f)
  if !hasIncomplete then false
  else
    let hasTargetFullError := s.files.any fun f => selects (targetFullErrorFilter jobId f)
    if !hasTargetFullError then false
    else
      let hasIncompatibleIncomplete := s.files.any fun f => selects (incompatibleFilter jobId f)
      !hasIncompatibleIncomplete

end Db

/-! ### What the decisions say -/

section Agree

variable {s : Db} {jobId : Nat} {f : ExportFile}

/-- A file that failed, with no message. -/
def FailedSilently (f : ExportFile) : Prop := f.status = .error ∧ f.errorMessage = none

/-- A file that timed out, or failed with another message. -/
def FailedOtherwise (f : ExportFile) : Prop :=
  f.status = .timeout ∨
    f.status = .error ∧ f.errorMessage ≠ none ∧ f.errorMessage ≠ some targetFullMessage

theorem isOverflowRetryableFile_iff :
    isOverflowRetryableFile f = true ↔
      f.status = .error ∧ f.errorMessage = some targetFullMessage := by
  rw [isOverflowRetryableFile, decide_eq_true_eq]

theorem incompleteFilter_iff :
    selects (incompleteFilter jobId f) = true ↔ f.jobId = jobId ∧ f.status ≠ .done := by
  simp [incompleteFilter, ofJob]

theorem targetFullErrorFilter_iff :
    selects (targetFullErrorFilter jobId f) = true ↔
      f.jobId = jobId ∧ isOverflowRetryableFile f = true := by
  simp [targetFullErrorFilter, ofJob, isError, hasTargetFullMessage, isOverflowRetryableFile_iff]

theorem incompatibleFilter_iff :
    selects (incompatibleFilter jobId f) = true ↔ f.jobId = jobId ∧ FailedOtherwise f := by
  rw [incompatibleFilter, Sql.selects_iff, Sql.and_eq_true, ← Sql.selects_iff,
    incompleteFilter_iff, Sql.not_eq_true, Sql.or_eq_false, Sql.isIn_eq_false, Sql.and_eq_false,
    isError, Sql.eq_eq_false, hasTargetFullMessage, Sql.eq_eq_false, FailedOtherwise]
  cases f.status <;> simp

/-- An unfinished file is one of three. -/
theorem unfinished_cases (unfinished : f.status ≠ .done) :
    isTargetFullContinuationCompatibleFile f = true ∨ FailedSilently f ∨ FailedOtherwise f := by
  rw [isTargetFullContinuationCompatibleFile, Bool.or_eq_true, isOverflowRetryableFile_iff,
    FailedSilently, FailedOtherwise]
  cases status : f.status with
  | done => exact absurd status unfinished
  | pending | copying | retrying => exact .inl (.inl (by decide))
  | timeout => exact .inr (.inr (.inl rfl))
  | error =>
      by_cases silent : f.errorMessage = none
      · exact .inr (.inl ⟨rfl, silent⟩)
      · by_cases full : f.errorMessage = some targetFullMessage
        · exact .inl (.inr ⟨rfl, full⟩)
        · exact .inr (.inr (.inr ⟨rfl, silent, full⟩))

theorem not_compatible_iff (unfinished : f.status ≠ .done) :
    ¬ isTargetFullContinuationCompatibleFile f = true ↔ FailedSilently f ∨ FailedOtherwise f := by
  constructor
  · exact (unfinished_cases unfinished).resolve_left
  · rw [isTargetFullContinuationCompatibleFile, Bool.or_eq_true, isOverflowRetryableFile_iff]
    rintro (⟨failed, silent⟩ | timeout | ⟨failed, -, other⟩)
    · simp [failed, silent]
    · simp [timeout]
    · simp [failed, other]

/-- The decision on the rows. -/
theorem shouldAttempt_rows_iff :
    Ecube.shouldAttemptTargetFullContinuation (s.listIncompleteByJob jobId) = true ↔
      (∃ f ∈ s.files, f.jobId = jobId ∧ isOverflowRetryableFile f = true) ∧
        ∀ f ∈ s.files, f.jobId = jobId → ¬ FailedSilently f ∧ ¬ FailedOtherwise f := by
  have mem : ∀ f, f ∈ s.listIncompleteByJob jobId ↔
      f ∈ s.files ∧ f.jobId = jobId ∧ f.status ≠ .done := by
    intro f
    rw [Db.listIncompleteByJob, List.mem_filter, decide_eq_true_eq]
    rfl
  rw [Ecube.shouldAttemptTargetFullContinuation, Bool.and_eq_true, List.any_eq_true,
    List.all_eq_true]
  apply and_congr
  · apply exists_congr
    intro f
    rw [mem, and_assoc, and_assoc]
    apply and_congr_right
    intro _
    apply and_congr_right
    intro _
    apply and_iff_right_of_imp
    intro full
    rw [(isOverflowRetryableFile_iff.mp full).1]
    exact nofun
  · apply forall_congr'
    intro f
    rw [mem]
    constructor
    · intro compatible present mine
      rw [← not_or]
      intro failed
      have unfinished : f.status ≠ .done := by
        rcases failed with ⟨error, -⟩ | timeout | ⟨error, -⟩
        · simp [error]
        · simp [timeout]
        · simp [error]
      exact (not_compatible_iff unfinished).mpr failed (compatible ⟨present, mine, unfinished⟩)
    · rintro fine ⟨present, mine, unfinished⟩
      by_contra stopped
      exact (not_or.mpr (fine present mine)) ((not_compatible_iff unfinished).mp stopped)

theorem shouldAttempt_eq_and :
    s.shouldAttemptTargetFullContinuation jobId =
      ((s.files.any fun f => selects (incompleteFilter jobId f)) &&
        ((s.files.any fun f => selects (targetFullErrorFilter jobId f)) &&
          !s.files.any fun f => selects (incompatibleFilter jobId f))) := by
  rw [Db.shouldAttemptTargetFullContinuation]
  dsimp only
  cases s.files.any fun f => selects (incompleteFilter jobId f) with
  | false => rfl
  | true =>
      cases s.files.any fun f => selects (targetFullErrorFilter jobId f) with
      | false => rfl
      | true => rfl

/-- The decision of the queries. -/
theorem shouldAttempt_queries_iff :
    s.shouldAttemptTargetFullContinuation jobId = true ↔
      (∃ f ∈ s.files, f.jobId = jobId ∧ isOverflowRetryableFile f = true) ∧
        ∀ f ∈ s.files, f.jobId = jobId → ¬ FailedOtherwise f := by
  rw [shouldAttempt_eq_and, Bool.and_eq_true, Bool.and_eq_true, Bool.not_eq_true',
    Table.any_eq_true_iff, Table.any_eq_true_iff, Table.any_eq_false_iff]
  simp only [← Bool.not_eq_true, incompleteFilter_iff, targetFullErrorFilter_iff,
    incompatibleFilter_iff, not_and]
  apply and_iff_right_of_imp
  rintro ⟨⟨f, present, mine, overflow⟩, -⟩
  refine ⟨f, present, mine, ?_⟩
  rw [(isOverflowRetryableFile_iff.mp overflow).1]
  exact nofun

/-- The queries decide as the rows do, unless a file of the job has failed without a
message, another has failed on the full target, and none has failed otherwise. -/
theorem targetFull_agree_iff :
    s.shouldAttemptTargetFullContinuation jobId =
        Ecube.shouldAttemptTargetFullContinuation (s.listIncompleteByJob jobId) ↔
      ((∃ f ∈ s.files, f.jobId = jobId ∧ FailedSilently f) →
        (∃ f ∈ s.files, f.jobId = jobId ∧ isOverflowRetryableFile f = true) →
          ∃ f ∈ s.files, f.jobId = jobId ∧ FailedOtherwise f) := by
  rw [Bool.eq_iff_iff, shouldAttempt_rows_iff, shouldAttempt_queries_iff]
  constructor
  · rintro agree ⟨f, present, mine, silent⟩ full
    by_contra none
    have fine : ∀ f ∈ s.files, f.jobId = jobId → ¬ FailedOtherwise f :=
      fun f present mine other => none ⟨f, present, mine, other⟩
    exact ((agree.mp ⟨full, fine⟩).2 f present mine).1 silent
  · intro explained
    constructor
    · rintro ⟨full, fine⟩
      refine ⟨full, fun f present mine => ⟨fun silent => ?_, fine f present mine⟩⟩
      obtain ⟨g, present', mine', other⟩ := explained ⟨f, present, mine, silent⟩ full
      exact fine g present' mine' other
    · rintro ⟨full, fine⟩
      exact ⟨full, fun f present mine => (fine f present mine).2⟩

end Agree

/-! ### A file without a message -/

/-- One file of job 1 has failed on the full target, one without a message. -/
def silentDb : Db where
  jobs := .empty
  files := {
    rows := [
      ⟨1, 1, none, "a".toList, 1, none, .error, some targetFullMessage, 0⟩,
      ⟨2, 1, none, "b".toList, 1, none, .error, none, 0⟩]
    seq := 2
    nodup := by decide
    bounded := by decide }
  assignments := .empty
  drives := .empty
  shares := .empty

theorem targetFull_disagree :
    silentDb.shouldAttemptTargetFullContinuation 1 = true ∧
      Ecube.shouldAttemptTargetFullContinuation (silentDb.listIncompleteByJob 1) = false := by
  decide

end Ecube
