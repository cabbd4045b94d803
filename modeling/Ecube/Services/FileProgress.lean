import Ecube.Basic.ThresholdBuffer
import Ecube.Interleaving.ProgressWriter
import Ecube.Schema

/-!
Progress accounting of one copied file (`_process_file` of
`app/services/copy_engine.py`).

The bytes of a file are counted while it is copied: for the job and for its active
assignment, as records for the progress writer or by updates that the worker commits
itself. Bytes wait in `pending` until they reach the threshold; what has been counted is
taken back when the copy fails or cannot be committed.

* `accounted_iff`: when the counted bytes are those of the file if it has been committed
  as done, and none otherwise.
* `copied_metric_iff`: when the metric of copied bytes is told the size of the file.
-/

namespace Ecube.FileProgress

open Chunks ThresholdBuffer
open ProgressWriter (Counter Update)

/-! ### One call -/

/-- Which commits of a call succeed; a flush is named by the chunk that it follows. -/
structure Commits where
  /-- back to `PENDING` while the job pauses, else `COPYING` -/
  first : Bool
  flush : Nat → Bool
  flushRest : Bool
  takeBack : Bool
  retrying : Bool
  done : Bool
  takeBackDone : Bool
  timeout : Bool
  takeBackTimeout : Bool
  error : Bool

/-- How `copy_file` ends, and after how many chunks it fails. -/
inductive CopyOutcome where
  | success
  | failure (chunks : Nat)
  | timeout (chunks : Nat)

structure Call where
  /-- nothing if the file or its job is gone -/
  jobStatus : Option JobStatus
  activeAssignmentId : Option Nat
  /-- whether there is a progress writer -/
  writer : Bool
  content : List UInt8
  chunkSize : Nat
  chunkSize_pos : 0 < chunkSize
  flushThresholdBytes : Int
  outcome : CopyOutcome
  /-- `attempt < max_retries` -/
  mayRetry : Bool
  commits : Commits

/-- `progress_flush_threshold`. -/
def Call.threshold (call : Call) : Nat := max 1 call.flushThresholdBytes.toNat

/-- The chunks that are reported. -/
def Call.copied (call : Call) : List (List UInt8) :=
  let whole := chunks call.chunkSize call.content
  match call.outcome with
  | .success => whole
  | .failure n => whole.take n
  | .timeout n => whole.take n

/-! ### Counting -/

/-- The committed counters, and the records for the writer. -/
structure Ledger where
  rows : Counter → Nat
  records : List Update

/-- The counters of bytes: of the job and of its active assignment. -/
def counts (assignment : Option Nat) (c : Counter) : Bool :=
  c = .job ∨ assignment.map Counter.bytes = some c

namespace Ledger

/-- `record_delta`. -/
def recordDelta (l : Ledger) (assignment : Option Nat) (delta : Int) : Ledger :=
  if delta = 0 then l else { l with records := l.records ++ [⟨assignment, delta, 0⟩] }

/-- `record_completion`. -/
def recordCompletion (l : Ledger) (assignment : Option Nat) : Ledger :=
  match assignment with
  | none => l
  | some a => { l with records := l.records ++ [⟨some a, 0, 1⟩] }

/-- The updates of `increment_copy_progress`. -/
def increment (l : Ledger) (assignment : Option Nat) (n : Nat) : Ledger :=
  { l with rows := fun c => if counts assignment c then l.rows c + n else l.rows c }

/-- The updates of `decrement_copy_progress`; they stop at zero. -/
def decrement (l : Ledger) (assignment : Option Nat) (n : Nat) : Ledger :=
  { l with rows := fun c => if counts assignment c then l.rows c - n else l.rows c }

def incrementFileCount (l : Ledger) (assignment : Option Nat) : Ledger :=
  { l with
    rows := fun c => if assignment.map Counter.files = some c then l.rows c + 1 else l.rows c }

/-- A rollback undoes the staged updates and leaves the records. -/
def rollback (l : Ledger) (rows : Counter → Nat) : Ledger := { l with rows := rows }

end Ledger

/-- Count bytes; nothing if the commit fails. -/
def Call.count (call : Call) (saved : Bool) (n : Nat) (l : Ledger) : Option Ledger :=
  if call.writer then some (l.recordDelta call.activeAssignmentId n)
  else if saved then some (l.increment call.activeAssignmentId n) else none

/-- Take counted bytes back; nothing if the commit fails. -/
def Call.takeBack (call : Call) (saved : Bool) (n : Nat) (l : Ledger) : Option Ledger :=
  if call.writer then some (l.recordDelta call.activeAssignmentId (-n))
  else if saved then some (l.decrement call.activeAssignmentId n) else none

structure Progress where
  ledger : Ledger
  pending : Nat
  attemptReported : Nat
  reported : Nat

/-- `_flush_progress`. -/
def Call.flushProgress (call : Call) (force saved : Bool) (p : Progress) : Progress :=
  if p.pending = 0 then p
  else if !force ∧ p.pending < call.threshold then p
  else match call.count saved p.pending p.ledger with
    | none => p
    | some ledger =>
        { ledger := ledger
          pending := 0
          attemptReported := p.attemptReported + p.pending
          reported := p.reported + p.pending }

/-- `_report_progress`. -/
def Call.reportProgress (call : Call) (saved : Bool) (delta : Nat) (p : Progress) : Progress :=
  if delta = 0 then p else call.flushProgress false saved { p with pending := p.pending + delta }

/-- The reports of a copy, from the `i`-th chunk on. -/
def Call.reportChunks (call : Call) : Nat → List (List UInt8) → Progress → Progress
  | _, [], p => p
  | i, chunk :: rest, p =>
      call.reportChunks (i + 1) rest (call.reportProgress (call.commits.flush i) chunk.length p)

/-! ### The end of a call -/

structure Result where
  ledger : Ledger
  /-- the last status of the file that the call has committed -/
  status : Option FileStatus
  /-- what `record_job_file_copied` is given -/
  copiedMetric : Option Nat

/-- A copy that has failed: count the rest and take everything back. -/
def Call.undo (call : Call) (p : Progress) : Progress :=
  let flushed := call.flushProgress true call.commits.flushRest p
  if flushed.attemptReported = 0 then flushed
  else match call.takeBack call.commits.takeBack flushed.attemptReported flushed.ledger with
    | none => flushed
    | some ledger =>
        { flushed with
          ledger := ledger
          reported := flushed.reported - flushed.attemptReported }

def Call.finishFailure (call : Call) (p : Progress) : Result :=
  let undone := call.undo p
  if call.mayRetry then
    ⟨undone.ledger, some (if call.commits.retrying then .retrying else .copying), none⟩
  else ⟨undone.ledger, some (if call.commits.error then .error else .copying), none⟩

def Call.finishTimeout (call : Call) (p : Progress) : Result :=
  let undone := call.undo p
  if call.commits.timeout then ⟨undone.ledger, some .timeout, none⟩
  else if undone.reported = 0 then ⟨undone.ledger, some .copying, none⟩
  else
    ⟨(call.takeBack call.commits.takeBackTimeout undone.reported undone.ledger).getD undone.ledger,
      some .copying, none⟩

/-- `_stage_remaining_progress`, and the file of the assignment. Updates are staged for the
next commit; a record for the writer is final. -/
def Call.stage (call : Call) (p : Progress) : Ledger :=
  if call.writer then p.ledger.recordDelta call.activeAssignmentId p.pending
  else (p.ledger.increment call.activeAssignmentId p.pending).incrementFileCount
    call.activeAssignmentId

def Call.finishDone (call : Call) (p : Progress) : Result :=
  let staged := call.stage p
  if call.commits.done then
    ⟨if call.writer then staged.recordCompletion call.activeAssignmentId else staged, some .done,
      some p.reported⟩
  else
    let rolledBack := staged.rollback p.ledger.rows
    if p.reported = 0 then ⟨rolledBack, some .copying, none⟩
    else
      ⟨(call.takeBack call.commits.takeBackDone p.reported rolledBack).getD rolledBack,
        some .copying, none⟩

/-- `_process_file`. -/
def processFile (call : Call) (rows : Counter → Nat) : Result :=
  match call.jobStatus with
  | none => ⟨⟨rows, []⟩, none, none⟩
  | some status =>
      if !call.commits.first then ⟨⟨rows, []⟩, none, none⟩
      else if status = .pausing ∨ status = .paused then ⟨⟨rows, []⟩, some .pending, none⟩
      else
        let copied := call.reportChunks 0 call.copied ⟨⟨rows, []⟩, 0, 0, 0⟩
        match call.outcome with
        | .success => call.finishDone copied
        | .failure _ => call.finishFailure copied
        | .timeout _ => call.finishTimeout copied

/-! ### What has been counted -/

/-- What a counter has grown by, records included. -/
def Ledger.net (l : Ledger) (rows : Counter → Nat) (c : Counter) : Int :=
  (l.rows c : Int) - rows c + (l.records.map fun u => u.amount c).sum

section Counting

variable {call : Call} {rows : Counter → Nat} {l l' : Ledger} {c : Counter} {n : Nat}
  {saved : Bool}

theorem amount_of_counts {assignment : Option Nat} (mine : counts assignment c = true)
    (delta completed : Int) : Update.amount ⟨assignment, delta, completed⟩ c = delta := by
  rw [counts, decide_eq_true_eq] at mine
  rcases mine with rfl | mine
  · rfl
  · obtain ⟨a, rfl, rfl⟩ := Option.map_eq_some_iff.mp mine
    exact if_pos rfl

theorem net_recordDelta (mine : counts call.activeAssignmentId c = true) (delta : Int) :
    (l.recordDelta call.activeAssignmentId delta).net rows c = l.net rows c + delta := by
  rw [Ledger.recordDelta]
  split
  next zero => rw [zero, Int.add_zero]
  next =>
    rw [Ledger.net, List.map_append, List.sum_append, List.map_singleton, List.sum_singleton,
      amount_of_counts mine, ← Int.add_assoc]
    rfl

theorem rows_recordDelta (assignment : Option Nat) (delta : Int) :
    (l.recordDelta assignment delta).rows = l.rows := by
  rw [Ledger.recordDelta]
  split <;> rfl

theorem net_count (mine : counts call.activeAssignmentId c = true)
    (h : call.count saved n l = some l') : l'.net rows c = l.net rows c + n := by
  rw [Call.count] at h
  split at h
  · cases h
    exact net_recordDelta mine n
  · split at h
    · cases h
      simp only [Ledger.net, Ledger.increment, if_pos mine]
      omega
    · cases h

/-- Taking back does not stop at zero when the rows hold as much. -/
theorem net_takeBack (mine : counts call.activeAssignmentId c = true)
    (held : call.writer = false → n ≤ l.rows c) (h : call.takeBack saved n l = some l') :
    l'.net rows c = l.net rows c - n := by
  rw [Call.takeBack] at h
  split at h
  · cases h
    rw [net_recordDelta mine]
    omega
  next direct =>
    split at h
    · cases h
      have := held (Bool.eq_false_iff.mpr direct)
      simp only [Ledger.net, Ledger.decrement, if_pos mine]
      omega
    · cases h

theorem count_eq_none_iff : call.count saved n l = none ↔ (call.writer || saved) = false := by
  rw [Call.count]
  cases call.writer <;> cases saved <;> simp

theorem takeBack_eq_none_iff :
    call.takeBack saved n l = none ↔ (call.writer || saved) = false := by
  rw [Call.takeBack]
  cases call.writer <;> cases saved <;> simp

theorem rows_count (mine : counts call.activeAssignmentId c = true)
    (direct : call.writer = false) (h : call.count saved n l = some l') :
    l'.rows c = l.rows c + n := by
  rw [Call.count, direct, if_neg Bool.false_ne_true] at h
  split at h
  · cases h
    exact if_pos mine
  · cases h

end Counting

/-! ### What is pending -/

/-- What the ledger shows is what has been reported. -/
structure Sound (call : Call) (rows : Counter → Nat) (p : Progress) : Prop where
  net : ∀ c, counts call.activeAssignmentId c = true → p.ledger.net rows c = p.reported
  attempt : p.attemptReported = p.reported
  held : call.writer = false → ∀ c, counts call.activeAssignmentId c = true →
    p.reported ≤ p.ledger.rows c

/-- Whether a flush after the `i`-th chunk succeeds. -/
def Call.saves (call : Call) (i : Nat) : Bool := call.writer || call.commits.flush i

/-- The reports as pieces for the buffer of pending bytes. -/
def Call.pieces (call : Call) : Nat → List (List UInt8) → List Piece
  | _, [] => []
  | i, chunk :: rest => (chunk.length, call.saves i) :: call.pieces (i + 1) rest

section Pending

variable {call : Call} {rows : Counter → Nat} {p : Progress}

theorem Sound.flush (h : Sound call rows p) {saved : Bool} {ledger : Ledger}
    (counted : call.count saved p.pending p.ledger = some ledger) :
    Sound call rows ⟨ledger, 0, p.attemptReported + p.pending, p.reported + p.pending⟩ where
  net c mine := by
    rw [net_count mine counted, h.net c mine]
    exact (Int.natCast_add _ _).symm
  attempt := congrArg (· + p.pending) h.attempt
  held direct c mine := by
    rw [rows_count mine direct counted]
    exact Nat.add_le_add_right (h.held direct c mine) _

theorem Sound.flushProgress (h : Sound call rows p) (force saved : Bool) :
    Sound call rows (call.flushProgress force saved p) := by
  rw [Call.flushProgress]
  split
  · exact h
  · split
    · exact h
    · split
      · exact h
      next counted => exact h.flush counted

/-- After a report the buffer holds what the library says, and no byte is lost. -/
theorem flushProgress_pending (saved : Bool) (p : Progress) :
    (call.flushProgress false saved p).pending =
        (if call.threshold ≤ p.pending ∧ (call.writer || saved) = true then 0 else p.pending) ∧
      (call.flushProgress false saved p).reported + (call.flushProgress false saved p).pending =
        p.reported + p.pending := by
  rw [Call.flushProgress]
  by_cases none : p.pending = 0
  · rw [if_pos none, none]
    simp
  · rw [if_neg none]
    by_cases below : p.pending < call.threshold
    · rw [if_pos ⟨rfl, below⟩, if_neg fun h => absurd h.1 (Nat.not_le.mpr below)]
      exact ⟨rfl, rfl⟩
    · rw [if_neg fun h => below h.2]
      cases counted : call.count saved p.pending p.ledger with
      | none =>
          rw [if_neg]
          · exact ⟨rfl, rfl⟩
          · rw [count_eq_none_iff.mp counted]
            exact fun h => absurd h.2 Bool.false_ne_true
      | some ledger =>
          rw [if_pos]
          · exact ⟨rfl, rfl⟩
          · refine ⟨Nat.not_lt.mp below, ?_⟩
            by_contra failed
            rw [Bool.not_eq_true, ← count_eq_none_iff (n := p.pending) (l := p.ledger),
              counted] at failed
            cases failed

theorem reportProgress_spec (h : Sound call rows p) (i n : Nat) (pos : 0 < n)
    (rest : List Piece) :
    Sound call rows (call.reportProgress (call.commits.flush i) n p) ∧
      leftover call.threshold (call.reportProgress (call.commits.flush i) n p).pending rest =
        leftover call.threshold p.pending ((n, call.saves i) :: rest) ∧
      (call.reportProgress (call.commits.flush i) n p).reported +
          (call.reportProgress (call.commits.flush i) n p).pending =
        p.reported + p.pending + n := by
  have added : Sound call rows { p with pending := p.pending + n } := ⟨h.net, h.attempt, h.held⟩
  obtain ⟨pending, sum⟩ :=
    @flushProgress_pending call (call.commits.flush i) { p with pending := p.pending + n }
  rw [Call.reportProgress, if_neg (Nat.ne_of_gt pos)]
  refine ⟨added.flushProgress _ _, ?_, sum.trans (Nat.add_assoc _ _ _).symm⟩
  rw [pending, leftover, Call.saves]
  split <;> rfl

theorem reportChunks_spec {copied : List (List UInt8)} (h : Sound call rows p) (i : Nat)
    (long : ∀ chunk ∈ copied, chunk ≠ []) :
    Sound call rows (call.reportChunks i copied p) ∧
      (call.reportChunks i copied p).pending =
        leftover call.threshold p.pending (call.pieces i copied) ∧
      (call.reportChunks i copied p).reported + (call.reportChunks i copied p).pending =
        p.reported + p.pending + copied.flatten.length := by
  induction copied generalizing i p with
  | nil => exact ⟨h, rfl, rfl⟩
  | cons chunk rest ih =>
      have pos := List.length_pos_iff.mpr (long chunk List.mem_cons_self)
      obtain ⟨first, pending, sum⟩ :=
        reportProgress_spec h i chunk.length pos (call.pieces (i + 1) rest)
      obtain ⟨sound, later, total⟩ :=
        ih first (i + 1) fun chunk mem => long chunk (List.mem_cons_of_mem _ mem)
      refine ⟨sound, later.trans pending, total.trans ?_⟩
      rw [sum, List.flatten_cons, List.length_append, Nat.add_assoc]

end Pending

/-! ### The reports of a call -/

/-- There is an `i`-th chunk, and it is copied. -/
def Call.Reads (call : Call) (i : Nat) : Prop :=
  i * call.chunkSize < call.content.length ∧
    match call.outcome with
    | .success => True
    | .failure n => i < n
    | .timeout n => i < n

/-- No flush during the copy is committed. -/
def Call.NoFlush (call : Call) : Prop :=
  ∀ i, call.Reads i → call.threshold ≤ min ((i + 1) * call.chunkSize) call.content.length →
    call.saves i = false

/-- All bytes of a file have been flushed when its copy ends, if every flush succeeds. -/
def Call.Drained (call : Call) : Prop :=
  let rest := call.content.length % quantum call.threshold call.chunkSize
  rest = 0 ∨ call.threshold ≤ rest

/-- The reports of the copy, from nothing. -/
def Call.reports (call : Call) (rows : Counter → Nat) : Progress :=
  call.reportChunks 0 call.copied ⟨⟨rows, []⟩, 0, 0, 0⟩

section Reports

variable {call : Call} {rows : Counter → Nat}

theorem threshold_pos (call : Call) : 0 < call.threshold := Nat.le_max_left _ _

theorem copied_eq_take (call : Call) :
    ∃ n, call.copied = (chunks call.chunkSize call.content).take n ∧
      ∀ i, call.Reads i ↔ i < n ∧ i * call.chunkSize < call.content.length := by
  rw [Call.copied]
  cases outcome : call.outcome with
  | success =>
      refine ⟨(chunks call.chunkSize call.content).length, (List.take_length).symm, fun i => ?_⟩
      rw [Call.Reads, outcome, lt_length_chunks_iff call.chunkSize_pos]
      simp
  | failure n =>
      refine ⟨n, rfl, fun i => ?_⟩
      rw [Call.Reads, outcome, and_comm]
  | timeout n =>
      refine ⟨n, rfl, fun i => ?_⟩
      rw [Call.Reads, outcome, and_comm]

theorem long_copied {chunk : List UInt8} (mem : chunk ∈ call.copied) : chunk ≠ [] := by
  obtain ⟨n, eq, -⟩ := copied_eq_take call
  rw [eq] at mem
  exact ne_nil_of_mem_chunks call.chunkSize_pos (List.mem_of_mem_take mem)

theorem getElem?_pieces (k i : Nat) (copied : List (List UInt8)) :
    (call.pieces k copied)[i]? =
      copied[i]?.map fun chunk => (chunk.length, call.saves (k + i)) := by
  induction copied generalizing k i with
  | nil => rfl
  | cons chunk rest ih =>
      cases i with
      | zero => rfl
      | succ i =>
          rw [Call.pieces, List.getElem?_cons_succ, List.getElem?_cons_succ, ih, Nat.add_assoc,
            Nat.add_comm 1]

theorem total_take_pieces (k i : Nat) (copied : List (List UInt8)) :
    total ((call.pieces k copied).take i) = (copied.take i).flatten.length := by
  induction copied generalizing k i with
  | nil => simp [Call.pieces]
  | cons chunk rest ih =>
      cases i with
      | zero => rfl
      | succ i =>
          rw [Call.pieces, List.take_succ_cons, total_cons, ih, List.take_succ_cons,
            List.flatten_cons, List.length_append]

theorem total_pieces (k : Nat) (copied : List (List UInt8)) :
    total (call.pieces k copied) = copied.flatten.length := by
  induction copied generalizing k with
  | nil => rfl
  | cons chunk rest ih =>
      rw [Call.pieces, total_cons, ih, List.flatten_cons, List.length_append]

theorem long_pieces (k : Nat) {copied : List (List UInt8)} (long : ∀ chunk ∈ copied, chunk ≠ []) :
    ∀ piece ∈ call.pieces k copied, 0 < piece.1 := by
  induction copied generalizing k with
  | nil => exact fun piece mem => absurd mem List.not_mem_nil
  | cons chunk rest ih =>
      intro piece mem
      rcases List.mem_cons.mp mem with rfl | later
      · exact List.length_pos_iff.mpr (long chunk List.mem_cons_self)
      · exact ih (k + 1) (fun c h => long c (List.mem_cons_of_mem _ h)) piece later

theorem neverEmptied_iff_noFlush :
    NeverEmptied call.threshold 0 (call.pieces 0 call.copied) ↔ call.NoFlush := by
  obtain ⟨n, eq, reads⟩ := copied_eq_take call
  rw [neverEmptied_iff, Call.NoFlush, eq]
  apply forall_congr'
  intro i
  rw [getElem?_pieces, total_take_pieces, Nat.zero_add, Nat.zero_add, reads]
  by_cases read : i < n ∧ i * call.chunkSize < call.content.length
  · have inside := (lt_length_chunks_iff call.chunkSize_pos call.content i).mpr read.2
    have bytes : (((chunks call.chunkSize call.content).take n).take (i + 1)).flatten.length =
        min ((i + 1) * call.chunkSize) call.content.length := by
      rw [List.take_take, Nat.min_eq_left read.1, flatten_take_chunks call.chunkSize_pos,
        List.length_take]
    rw [bytes, List.getElem?_take_of_lt read.1, List.getElem?_eq_getElem inside]
    simp [read]
  · have none : ((chunks call.chunkSize call.content).take n)[i]? = none := by
      rw [List.getElem?_eq_none_iff, List.length_take, Nat.le_iff_lt_or_eq]
      by_contra short
      apply read
      have := lt_length_chunks_iff call.chunkSize_pos call.content i
      omega
    rw [none]
    simp [read]

theorem sound_start : Sound call rows ⟨⟨rows, []⟩, 0, 0, 0⟩ where
  net c _ := by simp [Ledger.net]
  attempt := rfl
  held _ _ _ := Nat.zero_le _

theorem reports_spec :
    Sound call rows (call.reports rows) ∧
      (call.reports rows).pending = leftover call.threshold 0 (call.pieces 0 call.copied) ∧
      (call.reports rows).reported + (call.reports rows).pending =
        call.copied.flatten.length := by
  obtain ⟨sound, pending, sum⟩ :=
    reportChunks_spec (@sound_start call rows) 0 fun _ mem => long_copied mem
  exact ⟨sound, pending, sum.trans (Nat.zero_add _)⟩

theorem reported_eq_zero_iff (rows : Counter → Nat) :
    (call.reports rows).reported = 0 ↔ call.NoFlush := by
  obtain ⟨-, pending, sum⟩ := @reports_spec call rows
  rw [← neverEmptied_iff_noFlush, ← leftover_eq_total_iff (threshold_pos call), ← pending,
    total_pieces, ← sum]
  omega

theorem flatten_copied (whole : call.outcome = .success) :
    call.copied.flatten = call.content := by
  rw [Call.copied, whole]
  exact flatten_chunks call.chunkSize_pos call.content

theorem flatten_copied_eq_nil_iff : call.copied.flatten = [] ↔ ¬ call.Reads 0 := by
  obtain ⟨n, eq, reads⟩ := copied_eq_take call
  rw [reads, eq, flatten_take_chunks call.chunkSize_pos, List.take_eq_nil_iff, Nat.zero_mul,
    Nat.mul_eq_zero, ← List.length_eq_zero_iff]
  have := call.chunkSize_pos
  omega

theorem reads_iff (i : Nat) : call.Reads i ↔ i < call.copied.length := by
  obtain ⟨n, eq, reads⟩ := copied_eq_take call
  rw [reads, eq, List.length_take, Nat.lt_min, lt_length_chunks_iff call.chunkSize_pos]

theorem pieces_of_saves (k : Nat) {copied : List (List UInt8)}
    (saves : ∀ i < copied.length, call.saves (k + i) = true) :
    call.pieces k copied = copied.map fun chunk => (chunk.length, true) := by
  induction copied generalizing k with
  | nil => rfl
  | cons chunk rest ih =>
      have first : call.saves k = true := saves 0 (Nat.zero_lt_succ _)
      rw [Call.pieces, first, List.map_cons, ih]
      intro i inside
      rw [Nat.add_assoc, Nat.add_comm 1]
      exact saves (i + 1) (Nat.succ_lt_succ inside)

theorem leftover_eq_zero_iff_drained (whole : call.outcome = .success)
    (saves : ∀ i, call.Reads i → call.saves i = true) :
    leftover call.threshold 0 (call.pieces 0 call.copied) = 0 ↔ call.Drained := by
  have all : call.copied = chunks call.chunkSize call.content := by rw [Call.copied, whole]
  rw [pieces_of_saves 0, all]
  · exact leftover_chunks_eq_zero_iff call.chunkSize_pos (threshold_pos call) call.content
  · intro i inside
    rw [Nat.zero_add]
    exact saves i ((reads_iff i).mpr inside)

end Reports

/-! ### Taking back -/

section Undo

variable {call : Call} {rows : Counter → Nat} {p : Progress}

/-- A flush of the rest counts something unless nothing is pending or the commit fails. -/
theorem reported_flushRest (p : Progress) :
    (call.flushProgress true call.commits.flushRest p).reported = 0 ↔
      p.reported = 0 ∧ (p.pending ≠ 0 → (call.writer || call.commits.flushRest) = false) := by
  rw [Call.flushProgress]
  by_cases none : p.pending = 0
  · simp [none]
  · rw [if_neg none, if_neg (by simp)]
    cases counted : call.count call.commits.flushRest p.pending p.ledger with
    | none => simp [count_eq_none_iff.mp counted]
    | some ledger =>
        have saved : ¬ (call.writer || call.commits.flushRest) = false := by
          rw [← count_eq_none_iff (n := p.pending) (l := p.ledger), counted]
          exact nofun
        simp [none, saved]

/-- Everything has been taken back. -/
theorem undo_of_saved (h : Sound call rows p)
    (saved : (call.writer || call.commits.takeBack) = true) :
    (call.undo p).reported = 0 ∧
      ∀ c, counts call.activeAssignmentId c = true → (call.undo p).ledger.net rows c = 0 := by
  have flushed := h.flushProgress true call.commits.flushRest
  rw [Call.undo]
  split
  next nothing =>
    have zero := flushed.attempt.symm.trans nothing
    refine ⟨zero, fun c mine => ?_⟩
    rw [flushed.net c mine, zero]
    rfl
  · split
    next failed =>
      rw [takeBack_eq_none_iff, saved] at failed
      cases failed
    next ledger taken =>
      refine ⟨by simp [flushed.attempt], fun c mine => ?_⟩
      have held : call.writer = false → _ := fun direct => flushed.held direct c mine
      rw [← flushed.attempt] at held
      rw [net_takeBack mine held taken, flushed.net c mine, flushed.attempt]
      exact Int.sub_self _

/-- What has been counted stays when it cannot be taken back. -/
theorem undo_of_failed (failed : (call.writer || call.commits.takeBack) = false) :
    call.undo p = call.flushProgress true call.commits.flushRest p := by
  rw [Call.undo]
  split
  · rfl
  · rw [takeBack_eq_none_iff.mpr failed]

end Undo

/-! ### When the bytes are accounted for -/

/-- The counters of bytes show the bytes of the file if it has been committed as done,
and otherwise none. -/
def Accounted (call : Call) (rows : Counter → Nat) : Prop :=
  ∀ c, counts call.activeAssignmentId c = true →
    (processFile call rows).ledger.net rows c =
      if (processFile call rows).status = some .done then (call.content.length : Int) else 0

/-- Nothing has been counted when a failed copy ends. -/
def Call.NothingCounted (call : Call) : Prop :=
  call.NoFlush ∧ (call.Reads 0 → call.commits.flushRest = false)

/-- Nothing is left to take back, or it can be taken back. -/
def Call.Balances (call : Call) : Prop :=
  match call.outcome with
  | .success =>
      call.commits.done = true ∨
        if call.writer = true then call.Drained
        else call.commits.takeBackDone = true ∨ call.NoFlush
  | .failure _ => call.writer = true ∨ call.commits.takeBack = true ∨ call.NothingCounted
  | .timeout _ =>
      call.writer = true ∨ call.commits.takeBack = true ∨ call.NothingCounted ∨
        call.commits.timeout = false ∧ call.commits.takeBackTimeout = true

/-- The file is copied: its job is there and is not being paused, and the first commit
succeeds. -/
def Call.Copies (call : Call) : Prop :=
  call.commits.first = true ∧
    ∃ status ∈ call.jobStatus, status ≠ .pausing ∧ status ≠ .paused

section Accounts

variable {call : Call} {rows : Counter → Nat} {p : Progress}

/-- The counters of bytes agree. -/
theorem forall_net_iff {l : Ledger} {n m : Int}
    (net : ∀ c, counts call.activeAssignmentId c = true → l.net rows c = n) :
    (∀ c, counts call.activeAssignmentId c = true → l.net rows c = m) ↔ n = m :=
  ⟨fun h => (net .job rfl).symm.trans (h .job rfl), fun h c mine => (net c mine).trans h⟩

theorem undo_balanced_iff (rows : Counter → Nat) :
    (∀ c, counts call.activeAssignmentId c = true →
        (call.undo (call.reports rows)).ledger.net rows c = 0) ↔
      call.writer = true ∨ call.commits.takeBack = true ∨ call.NothingCounted := by
  obtain ⟨sound, -, sum⟩ := @reports_spec call rows
  by_cases saved : (call.writer || call.commits.takeBack) = true
  · refine iff_of_true (undo_of_saved sound saved).2 ?_
    rw [← or_assoc]
    exact .inl (Bool.or_eq_true _ _ ▸ saved)
  · have failed := Bool.eq_false_iff.mpr saved
    obtain ⟨direct, unsaved⟩ := Bool.or_eq_false_iff.mp failed
    have copied : (call.reports rows).reported = 0 →
        ((call.reports rows).pending ≠ 0 ↔ call.Reads 0) := by
      intro nothing
      rw [nothing, Nat.zero_add] at sum
      rw [sum, Ne, List.length_eq_zero_iff, flatten_copied_eq_nil_iff, not_not]
    rw [undo_of_failed failed, forall_net_iff (sound.flushProgress true _).net,
      Int.natCast_eq_zero, reported_flushRest, direct, unsaved, Call.NothingCounted,
      ← reported_eq_zero_iff rows]
    simp only [Bool.false_or, Bool.false_eq_true, false_or]
    apply and_congr_right
    intro nothing
    rw [copied nothing]

theorem finishFailure_balanced_iff :
    (∀ c, counts call.activeAssignmentId c = true →
        (call.finishFailure (call.reports rows)).ledger.net rows c = 0) ↔
      call.writer = true ∨ call.commits.takeBack = true ∨ call.NothingCounted := by
  rw [← undo_balanced_iff rows, Call.finishFailure]
  split <;> rfl

theorem finishTimeout_balanced_iff :
    (∀ c, counts call.activeAssignmentId c = true →
        (call.finishTimeout (call.reports rows)).ledger.net rows c = 0) ↔
      call.writer = true ∨ call.commits.takeBack = true ∨ call.NothingCounted ∨
        call.commits.timeout = false ∧ call.commits.takeBackTimeout = true := by
  obtain ⟨sound, -, -⟩ := @reports_spec call rows
  have undone := @undo_balanced_iff call rows
  rw [Call.finishTimeout]
  by_cases marked : call.commits.timeout = true
  · rw [if_pos marked, marked]
    simpa using undone
  · rw [if_neg marked, Bool.eq_false_iff.mpr marked]
    by_cases saved : (call.writer || call.commits.takeBack) = true
    · obtain ⟨zero, balanced⟩ := undo_of_saved sound saved
      rw [if_pos zero]
      refine iff_of_true balanced ?_
      rw [← or_assoc]
      exact .inl (Bool.or_eq_true _ _ ▸ saved)
    · have failed := Bool.eq_false_iff.mpr saved
      obtain ⟨direct, unsaved⟩ := Bool.or_eq_false_iff.mp failed
      rw [undo_of_failed failed] at undone ⊢
      have flushed := sound.flushProgress true call.commits.flushRest
      generalize call.flushProgress true call.commits.flushRest (call.reports rows) = p
        at undone flushed ⊢
      rw [forall_net_iff flushed.net, direct, unsaved] at undone
      rw [direct, unsaved]
      simp only [Bool.false_eq_true, false_or, true_and] at undone ⊢
      rw [← undone]
      by_cases nothing : p.reported = 0
      · rw [if_pos nothing, forall_net_iff flushed.net, nothing]
        simp
      · rw [if_neg nothing]
        cases taken : call.takeBack call.commits.takeBackTimeout p.reported p.ledger with
        | none =>
            have := (Bool.or_eq_false_iff.mp (takeBack_eq_none_iff.mp taken)).2
            rw [Option.getD_none, forall_net_iff flushed.net, this]
            simp
        | some ledger =>
            refine iff_of_true (fun c mine => ?_) (.inr ?_)
            · rw [Option.getD_some, net_takeBack mine (fun h => flushed.held h c mine) taken,
                flushed.net c mine]
              exact Int.sub_self _
            · by_contra lost
              rw [takeBack_eq_none_iff.mpr (Bool.or_eq_false_iff.mpr
                ⟨direct, Bool.eq_false_iff.mpr lost⟩)] at taken
              cases taken

/-- The files are counted apart from the bytes. -/
theorem not_counts_files {assignment : Option Nat} {c : Counter}
    (mine : counts assignment c = true) : assignment.map Counter.files ≠ some c := by
  rw [counts, decide_eq_true_eq] at mine
  rcases mine with rfl | mine
  · cases assignment <;> simp
  · obtain ⟨a, rfl, rfl⟩ := Option.map_eq_some_iff.mp mine
    simp

theorem net_stage (h : Sound call rows p) {c : Counter}
    (mine : counts call.activeAssignmentId c = true) :
    (call.stage p).net rows c = (p.reported + p.pending : Nat) := by
  rw [Call.stage, Int.natCast_add]
  split
  · rw [net_recordDelta mine, h.net c mine]
  · rw [← h.net c mine]
    simp only [Ledger.net, Ledger.increment, Ledger.incrementFileCount,
      if_neg (not_counts_files mine), if_pos mine]
    omega

theorem net_recordCompletion {l : Ledger} {assignment : Option Nat} {c : Counter}
    (mine : counts assignment c = true) :
    (l.recordCompletion assignment).net rows c = l.net rows c := by
  cases assignment with
  | none => rfl
  | some a =>
      rw [Ledger.net, Ledger.recordCompletion, List.map_append, List.sum_append, List.map_singleton,
        List.sum_singleton, amount_of_counts mine, Int.add_zero]
      rfl

theorem finishDone_of_done (whole : call.outcome = .success) (saved : call.commits.done = true)
    {c : Counter} (mine : counts call.activeAssignmentId c = true) :
    (call.finishDone (call.reports rows)).ledger.net rows c = call.content.length := by
  obtain ⟨sound, -, sum⟩ := @reports_spec call rows
  have staged := net_stage sound mine
  rw [sum, flatten_copied whole] at staged
  rw [Call.finishDone, if_pos saved, ← staged]
  cases writer : call.writer with
  | true => exact net_recordCompletion mine
  | false => rfl

/-- After a rollback the rows are what they were, and the records stay. -/
theorem net_rollback (h : Sound call rows p) {c : Counter}
    (mine : counts call.activeAssignmentId c = true) :
    ((call.stage p).rollback p.ledger.rows).net rows c =
      if call.writer = true then ((p.reported + p.pending : Nat) : Int) else p.reported := by
  split
  next writer =>
    rw [← net_stage h mine, Call.stage, if_pos writer]
    simp only [Ledger.net, Ledger.rollback, rows_recordDelta]
  next direct =>
    rw [← h.net c mine, Call.stage, if_neg direct]
    rfl

/-- With a writer the rest stays counted; without one the rows hold what has been flushed. -/
theorem finishDone_of_failed (h : Sound call rows p) (failed : call.commits.done = false)
    {c : Counter} (mine : counts call.activeAssignmentId c = true) :
    (call.finishDone p).ledger.net rows c =
      if call.writer = true then (p.pending : Int)
      else if call.commits.takeBackDone = true then 0 else p.reported := by
  have rolledBack := net_rollback h mine
  rw [Call.finishDone, failed, if_neg Bool.false_ne_true]
  by_cases nothing : p.reported = 0
  · rw [if_pos nothing, rolledBack, nothing]
    simp
  · rw [if_neg nothing]
    cases taken : call.takeBack call.commits.takeBackDone p.reported
        ((call.stage p).rollback p.ledger.rows) with
    | none =>
        obtain ⟨direct, lost⟩ := Bool.or_eq_false_iff.mp (takeBack_eq_none_iff.mp taken)
        rw [Option.getD_none, rolledBack, direct, lost]
        rfl
    | some ledger =>
        have held : call.writer = false →
            p.reported ≤ ((call.stage p).rollback p.ledger.rows).rows c :=
          fun direct => h.held direct c mine
        rw [Option.getD_some, net_takeBack mine held taken, rolledBack]
        cases writer : call.writer with
        | true =>
            rw [if_pos rfl, if_pos rfl]
            omega
        | false =>
            have saved : call.commits.takeBackDone = true := by
              by_contra lost
              rw [takeBack_eq_none_iff.mpr (Bool.or_eq_false_iff.mpr
                ⟨writer, Bool.eq_false_iff.mpr lost⟩)] at taken
              cases taken
            rw [if_neg Bool.false_ne_true, if_neg Bool.false_ne_true, if_pos saved]
            omega

theorem finishDone_balanced_iff (whole : call.outcome = .success)
    (failed : call.commits.done = false) :
    (∀ c, counts call.activeAssignmentId c = true →
        (call.finishDone (call.reports rows)).ledger.net rows c = 0) ↔
      if call.writer = true then call.Drained
      else call.commits.takeBackDone = true ∨ call.NoFlush := by
  obtain ⟨sound, pending, -⟩ := @reports_spec call rows
  rw [forall_net_iff fun c mine => finishDone_of_failed sound failed mine]
  cases writer : call.writer with
  | true =>
      have saves : ∀ i, call.Reads i → call.saves i = true :=
        fun i _ => by rw [Call.saves, writer, Bool.true_or]
      rw [if_pos rfl, if_pos rfl, Int.natCast_eq_zero, pending,
        leftover_eq_zero_iff_drained whole saves]
  | false =>
      rw [if_neg Bool.false_ne_true, if_neg Bool.false_ne_true, ← reported_eq_zero_iff rows]
      split
      next saved => exact iff_of_true rfl (.inl saved)
      next lost => rw [Int.natCast_eq_zero, or_iff_right lost]

/-- A call that does not copy counts nothing and commits nothing as done. -/
theorem processFile_of_not_copies (rows : Counter → Nat) (idle : ¬ call.Copies) :
    (processFile call rows).ledger = ⟨rows, []⟩ ∧
      (processFile call rows).status ≠ some .done := by
  rw [processFile]
  cases job : call.jobStatus with
  | none => exact ⟨rfl, by simp⟩
  | some status =>
      dsimp only
      cases first : call.commits.first with
      | false => exact ⟨rfl, by simp⟩
      | true =>
          have paused : status = .pausing ∨ status = .paused := by
            by_contra runs
            exact idle ⟨first, status, job, not_or.mp runs⟩
          rw [Bool.not_true, if_neg Bool.false_ne_true, if_pos paused]
          exact ⟨rfl, by simp⟩

theorem processFile_of_copies (copies : call.Copies) :
    processFile call rows =
      match call.outcome with
      | .success => call.finishDone (call.reports rows)
      | .failure _ => call.finishFailure (call.reports rows)
      | .timeout _ => call.finishTimeout (call.reports rows) := by
  obtain ⟨first, status, job, runs⟩ := copies
  rw [processFile, Option.mem_def.mp job]
  dsimp only
  rw [first, Bool.not_true, if_neg Bool.false_ne_true, if_neg (not_or.mpr runs)]
  rfl

theorem finishFailure_status (p : Progress) : (call.finishFailure p).status ≠ some .done := by
  rw [Call.finishFailure]
  split
  · cases call.commits.retrying <;> simp
  · cases call.commits.error <;> simp

theorem finishTimeout_status (p : Progress) : (call.finishTimeout p).status ≠ some .done := by
  rw [Call.finishTimeout]
  split
  · simp
  · split <;> simp

theorem finishDone_status (p : Progress) :
    (call.finishDone p).status = some .done ↔ call.commits.done = true := by
  rw [Call.finishDone]
  dsimp only
  split
  next saved => exact iff_of_true rfl saved
  next failed =>
    refine iff_of_false ?_ failed
    split <;> simp

end Accounts

/-- The bytes are accounted for just if the call takes back what it has counted. -/
theorem accounted_iff (call : Call) (rows : Counter → Nat) :
    Accounted call rows ↔ (call.Copies → call.Balances) := by
  by_cases copies : call.Copies
  · rw [imp_iff_right copies, Accounted, processFile_of_copies copies, Call.Balances]
    cases outcome : call.outcome with
    | success =>
        dsimp only
        cases saved : call.commits.done with
        | true =>
            refine iff_of_true (fun c mine => ?_) (.inl rfl)
            rw [if_pos ((finishDone_status _).mpr saved)]
            exact finishDone_of_done outcome saved mine
        | false =>
            have undone : (call.finishDone (call.reports rows)).status ≠ some .done := by
              rw [Ne, finishDone_status, saved]
              exact Bool.false_ne_true
            rw [if_neg undone, or_iff_right Bool.false_ne_true]
            exact finishDone_balanced_iff outcome saved
    | failure n =>
        dsimp only
        rw [if_neg (finishFailure_status _)]
        exact finishFailure_balanced_iff
    | timeout n =>
        dsimp only
        rw [if_neg (finishTimeout_status _)]
        exact finishTimeout_balanced_iff
  · obtain ⟨ledger, undone⟩ := processFile_of_not_copies rows copies
    refine iff_of_true (fun c _ => ?_) fun h => absurd h copies
    rw [ledger, if_neg undone]
    simp [Ledger.net]

/-- A file of one byte; its bytes are counted through the writer. -/
def oneByte : Call where
  jobStatus := some .running
  activeAssignmentId := none
  writer := true
  content := [0]
  chunkSize := 4194304
  chunkSize_pos := by decide
  flushThresholdBytes := 67108864
  outcome := .success
  mayRetry := true
  commits := ⟨true, fun _ => true, true, true, true, true, true, true, true, true⟩

/-- If it cannot be committed as done, the byte stays counted. -/
theorem not_accounted_oneByte :
    ¬ Accounted { oneByte with commits := { oneByte.commits with done := false } } fun _ => 0 :=
  fun h => absurd (h .job rfl) (by decide)

/-! ### The metric of copied bytes -/

section Metric

variable {call : Call} {rows : Counter → Nat}

theorem done_iff : (processFile call rows).status = some .done ↔
    call.Copies ∧ call.outcome = .success ∧ call.commits.done = true := by
  by_cases copies : call.Copies
  · rw [processFile_of_copies copies, and_iff_right copies]
    cases outcome : call.outcome with
    | success => rw [finishDone_status, eq_self, true_and]
    | failure n => exact iff_of_false (finishFailure_status _) fun h => by cases h.1
    | timeout n => exact iff_of_false (finishTimeout_status _) fun h => by cases h.1
  · exact iff_of_false (processFile_of_not_copies rows copies).2 fun h => copies h.1

theorem copiedMetric_of_done (done : (processFile call rows).status = some .done) :
    (processFile call rows).copiedMetric = some call.content.length ↔
      leftover call.threshold 0 (call.pieces 0 call.copied) = 0 := by
  obtain ⟨copies, whole, saved⟩ := done_iff.mp done
  obtain ⟨-, pending, sum⟩ := @reports_spec call rows
  have metric : (processFile call rows).copiedMetric = some (call.reports rows).reported := by
    rw [processFile_of_copies copies, whole]
    dsimp only
    rw [Call.finishDone, if_pos saved]
  rw [metric, Option.some_inj, ← pending, ← flatten_copied whole, ← sum]
  omega

end Metric

/-- The metric is right just if nothing is left to stage when the file is done. -/
theorem copied_metric_iff (call : Call) (rows : Counter → Nat)
    (done : (processFile call rows).status = some .done) :
    ((processFile call rows).copiedMetric = some call.content.length ↔
        Runs call.threshold (call.pieces 0 call.copied)) ∧
      ((∀ i, call.Reads i → call.saves i = true) →
        ((processFile call rows).copiedMetric = some call.content.length ↔ call.Drained)) := by
  have whole := (done_iff.mp done).2.1
  rw [copiedMetric_of_done done]
  constructor
  · apply leftover_eq_zero_iff (threshold_pos call)
    exact long_pieces 0 fun _ mem => long_copied mem
  · exact leftover_eq_zero_iff_drained whole

theorem copied_metric_oneByte :
    ((processFile oneByte fun _ => 0).copiedMetric = some oneByte.content.length ↔
        Runs oneByte.threshold (oneByte.pieces 0 oneByte.copied)) ∧
      ((∀ i, oneByte.Reads i → oneByte.saves i = true) →
        ((processFile oneByte fun _ => 0).copiedMetric = some oneByte.content.length ↔
          oneByte.Drained)) :=
  copied_metric_iff oneByte (fun _ => 0) (by decide)

/-- A small file is done, and none of its bytes is in the metric. -/
theorem copied_metric_misses :
    (processFile oneByte fun _ => 0).status = some .done ∧
      (processFile oneByte fun _ => 0).copiedMetric = some 0 ∧ oneByte.content.length = 1 := by
  decide

end Ecube.FileProgress
