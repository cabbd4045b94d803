import Mathlib.Algebra.BigOperators.Group.List.Basic
import Mathlib.Algebra.Ring.Int.Defs
import Mathlib.Data.List.AList
import Mathlib.Data.List.ReduceOption
import Ecube.Basic.Transition

/-!
The progress writer of a copy pass (`_CopyProgressWriter`).

Workers record what they have copied while a single writer commits it: on most
databases a thread that takes the records from a queue, accumulates them and
flushes the sums (`background`), on SQLite `close` itself. A flush that fails
leaves the accumulated sums for the next one. `close` puts a sentinel into the
queue and waits; it returns normally when the thread has stopped and its last
flush was committed.

`progress_conserved`: whatever the order of the steps and whichever flushes
fail, after a normal return every counter has grown by the sum of what the
producers' calls asked for.
-/

namespace Ecube.ProgressWriter

open Transition

/-- The columns the writer increases: `copied_bytes` of the job, and
`copied_bytes` and `file_count` of an assignment. -/
inductive Counter where
  | job
  | bytes (assignmentId : Nat)
  | files (assignmentId : Nat)
  deriving DecidableEq, Repr

/-- The committed value of every counter. -/
abbrev Counters := Counter → Int

/-- A queued record: assignment, bytes and completed files. -/
structure Update where
  assignmentId : Option Nat
  deltaBytes : Int
  completedFiles : Int
  deriving DecidableEq, Repr

/-- A `defaultdict(int)`. -/
abbrev Dict := AList fun _ : Nat => Int

def Dict.count (d : Dict) (k : Nat) : Int := (d.lookup k).getD 0

/-- `d[k] += delta`. -/
def Dict.add (d : Dict) (k : Nat) (delta : Int) : Dict := d.insert k (Dict.count d k + delta)

/-- What has been taken over and not been committed. -/
structure Pending where
  jobDelta : Int
  assignmentDeltas : Dict
  assignmentFileCounts : Dict

namespace Pending

def empty : Pending := ⟨0, ∅, ∅⟩

/-- One record taken over by the thread. -/
def accumulate (p : Pending) (u : Update) : Pending where
  jobDelta := p.jobDelta + u.deltaBytes
  assignmentDeltas :=
    match u.assignmentId with
    | some k => if u.deltaBytes ≠ 0 then Dict.add p.assignmentDeltas k u.deltaBytes
      else p.assignmentDeltas
    | none => p.assignmentDeltas
  assignmentFileCounts :=
    match u.assignmentId with
    | some k => if u.completedFiles ≠ 0 then Dict.add p.assignmentFileCounts k u.completedFiles
      else p.assignmentFileCounts
    | none => p.assignmentFileCounts

/-- The thread waits without a timeout while this is false. -/
def waiting (p : Pending) : Bool :=
  p.jobDelta ≠ 0 ∨ p.assignmentDeltas.entries ≠ [] ∨ p.assignmentFileCounts.entries ≠ []

/-- Nothing but zeros: no statement is issued. -/
def vacuous (p : Pending) : Bool :=
  p.jobDelta = 0 ∧ (∀ e ∈ p.assignmentDeltas.entries, e.2 = 0) ∧
    ∀ e ∈ p.assignmentFileCounts.entries, e.2 = 0

/-- The counters that have an entry. -/
def counters (p : Pending) : List Counter :=
  .job :: (p.assignmentDeltas.keys.map .bytes ++ p.assignmentFileCounts.keys.map .files)

def amount (p : Pending) : Counters
  | .job => p.jobDelta
  | .bytes k => Dict.count p.assignmentDeltas k
  | .files k => Dict.count p.assignmentFileCounts k

end Pending

/-- A signed increase; a decrease stops at zero. -/
def increased (value delta : Int) : Int :=
  if 0 < delta then value + delta
  else if delta < 0 then if -delta < value then value + delta else 0
  else value

/-- One UPDATE statement; there is none for a delta of zero. -/
def increase (rows : Counters) (c : Counter) (delta : Int) : Counters :=
  Function.update rows c (increased (rows c) delta)

def applyCopyProgressBatch (rows : Counters) (p : Pending) : Counters :=
  let job := increase rows .job p.jobDelta
  let bytes := p.assignmentDeltas.foldl (fun rows k delta => increase rows (.bytes k) delta) job
  p.assignmentFileCounts.foldl (fun rows k delta => increase rows (.files k) delta) bytes

/-- `_flush_pending`: the committed counters, unless the flush fails. -/
def flushPending (saved : Bool) (rows : Counters) (p : Pending) : Option Counters :=
  if p.vacuous then some rows
  else if saved then some (applyCopyProgressBatch rows p)
  else none

/-- Where the thread stands: at the blocking `get`, in the loop that empties
the queue, before a flush (after a timeout, or after a `get`), or at its end. -/
inductive WriterPc where
  | getting
  | draining
  | flushing (timedOut : Bool)
  | stopped
  deriving DecidableEq, Repr

structure Writer where
  background : Bool
  rows : Counters
  queue : List (Option Update)
  pending : Pending
  pc : WriterPc
  stopRequested : Bool
  closed : Bool
  closeError : Bool

/-- A writer that has been started. -/
def Writer.opened (background : Bool) (rows : Counters) : Writer :=
  ⟨background, rows, [], .empty, .getting, false, false, false⟩

/-- `close` has returned without raising. -/
def Writer.Returned (w : Writer) : Prop :=
  w.closed = true ∧ w.pc = .stopped ∧ w.closeError = false

instance (w : Writer) : Decidable w.Returned := inferInstanceAs (Decidable (_ ∧ _))

/-- A producer, `close`, or a step of the thread. `saved` is false when the
flush fails. -/
inductive WriterAction where
  | recordDelta (assignmentId : Option Nat) (deltaBytes : Int)
  | recordCompletion (assignmentId : Option Nat) (completedFiles : Int)
  | close
  | get
  | timeout
  | getNowait
  | flush (saved : Bool)
  deriving Repr

/-- The record of a producer's call, if it makes one. -/
def WriterAction.update : WriterAction → Option Update
  | .recordDelta assignmentId deltaBytes =>
      if deltaBytes = 0 then none else some ⟨assignmentId, deltaBytes, 0⟩
  | .recordCompletion (some k) completedFiles =>
      if completedFiles = 0 then none else some ⟨some k, 0, completedFiles⟩
  | _ => none

def Writer.record (w : Writer) (u : Update) : Writer :=
  if w.background then { w with queue := w.queue ++ [some u] }
  else { w with pending := w.pending.accumulate u }

/-- The thread after a flush. After a timeout it goes on whatever the outcome. -/
def Writer.flushed (w : Writer) (timedOut saved : Bool) : Writer :=
  let stops := w.stopRequested && !timedOut
  match flushPending saved w.rows w.pending with
  | some rows =>
      { w with rows := rows, pending := .empty, pc := if stops then .stopped else .getting }
  | none => { w with closeError := w.closeError || stops, pc := if stops then .stopped else .getting }

/-- `_flush_synchronously`: the sums are given up before they are flushed. -/
def Writer.flushSynchronously (w : Writer) (saved : Bool) : Writer :=
  match flushPending saved w.rows w.pending with
  | some rows => { w with rows := rows, pending := .empty, pc := .stopped }
  | none => { w with pending := .empty, closeError := true, pc := .stopped }

def writerStep (w : Writer) (a : WriterAction) : Writer :=
  match a with
  | .recordDelta _ _ | .recordCompletion _ _ =>
      match a.update with
      | some u => w.record u
      | none => w
  | .close =>
      if w.closed then w
      else if w.background then { w with closed := true, queue := w.queue ++ [none] }
      else { w with closed := true, stopRequested := true, pc := .flushing false }
  | .get =>
      match w.pc, w.queue with
      | .getting, some u :: rest =>
          { w with queue := rest, pending := w.pending.accumulate u, pc := .draining }
      | .getting, none :: rest => { w with queue := rest, stopRequested := true, pc := .draining }
      | _, _ => w
  | .timeout =>
      if w.background ∧ w.pc = .getting ∧ w.queue = [] ∧ w.pending.waiting then
        { w with pc := .flushing true }
      else w
  | .getNowait =>
      match w.pc, w.queue with
      | .draining, some u :: rest => { w with queue := rest, pending := w.pending.accumulate u }
      | .draining, none :: rest =>
          { w with queue := rest, stopRequested := true, pc := .flushing false }
      | .draining, [] => { w with pc := .flushing false }
      | _, _ => w
  | .flush saved =>
      match w.pc with
      | .flushing timedOut =>
          if w.background then w.flushed timedOut saved else w.flushSynchronously saved
      | _ => w

/-! ### Sums -/

def Update.amount (u : Update) : Counters
  | .job => u.deltaBytes
  | .bytes k => if u.assignmentId = some k then u.deltaBytes else 0
  | .files k => if u.assignmentId = some k then u.completedFiles else 0

theorem Dict.count_add (d : Dict) (k : Nat) (delta : Int) (j : Nat) :
    Dict.count (Dict.add d k delta) j = Dict.count d j + if k = j then delta else 0 := by
  by_cases same : k = j
  · subst same
    simp [Dict.add, Dict.count]
  · rw [Dict.add, Dict.count, AList.lookup_insert_ne (Ne.symm same), if_neg same, Int.add_zero]
    rfl

@[simp] theorem Pending.amount_empty (c : Counter) : Pending.empty.amount c = 0 := by
  cases c <;> rfl

theorem Pending.amount_accumulate (p : Pending) (u : Update) (c : Counter) :
    (p.accumulate u).amount c = p.amount c + u.amount c := by
  obtain ⟨assignmentId, deltaBytes, completedFiles⟩ := u
  cases c with
  | job => rfl
  | bytes k =>
      cases assignmentId with
      | none => simp [accumulate, amount, Update.amount]
      | some j =>
          by_cases zero : deltaBytes = 0
          · simp [accumulate, amount, Update.amount, zero]
          · simp [accumulate, amount, Update.amount, zero, Dict.count_add]
  | files k =>
      cases assignmentId with
      | none => simp [accumulate, amount, Update.amount]
      | some j =>
          by_cases zero : completedFiles = 0
          · simp [accumulate, amount, Update.amount, zero]
          · simp [accumulate, amount, Update.amount, zero, Dict.count_add]

/-- A sum of zeros changes nothing. -/
theorem Pending.amount_of_vacuous {p : Pending} (h : p.vacuous = true) (c : Counter) :
    p.amount c = 0 := by
  obtain ⟨job, deltas, counts⟩ := of_decide_eq_true h
  have zero : ∀ {d : Dict}, (∀ e ∈ d.entries, e.2 = 0) → ∀ k, Dict.count d k = 0 := by
    intro d all k
    rw [Dict.count]
    cases found : d.lookup k with
    | none => rfl
    | some delta => exact all ⟨k, delta⟩ (AList.mem_lookup_iff.mp found)
  cases c with
  | job => exact job
  | bytes k => exact zero deltas k
  | files k => exact zero counts k

/-! ### One batch -/

theorem increased_zero (value : Int) : increased value 0 = value := by
  simp [increased]

theorem increased_eq {value delta : Int} (h : 0 ≤ value + delta) :
    increased value delta = value + delta := by
  rw [increased]
  split
  · rfl
  · split
    · split <;> omega
    · omega

theorem increase_of_ne {rows : Counters} {b c : Counter} {delta : Int} (ne : c ≠ b) :
    increase rows b delta c = rows c :=
  Function.update_of_ne ne _ _

section Loop

variable {tag : Nat → Counter} {rows : Counters}

theorem foldl_increase_of_ne (d : Dict) {c : Counter} (other : ∀ k, c ≠ tag k) :
    d.foldl (fun rows k delta => increase rows (tag k) delta) rows c = rows c := by
  obtain ⟨entries, nodup⟩ := d
  change entries.foldl (fun rows e => increase rows (tag e.1) e.2) rows c = _
  clear nodup
  induction entries generalizing rows with
  | nil => rfl
  | cons e rest ih => rw [List.foldl_cons, ih, increase_of_ne (other e.1)]

/-- A loop over a dictionary increases each of its counters once. -/
theorem foldl_increase (inj : Function.Injective tag) (d : Dict) (k : Nat) :
    d.foldl (fun rows k delta => increase rows (tag k) delta) rows (tag k) =
      increased (rows (tag k)) (Dict.count d k) := by
  obtain ⟨entries, nodup⟩ := d
  change entries.foldl (fun rows e => increase rows (tag e.1) e.2) rows (tag k) =
    increased (rows (tag k)) ((entries.dlookup k).getD 0)
  induction entries generalizing rows with
  | nil => exact (increased_zero _).symm
  | cons e rest ih =>
      obtain ⟨fresh, nodup⟩ := List.nodupKeys_cons.mp nodup
      rw [List.foldl_cons, ih nodup]
      obtain ⟨j, delta⟩ := e
      by_cases mine : k = j
      · subst mine
        rw [List.dlookup_eq_none.mpr fresh, List.dlookup_cons_eq, increase, Function.update_self]
        exact increased_zero _
      · rw [List.dlookup_cons_ne _ _ mine, increase_of_ne fun same => mine (inj same)]

end Loop

theorem applyCopyProgressBatch_apply (rows : Counters) (p : Pending) (c : Counter) :
    applyCopyProgressBatch rows p c = increased (rows c) (p.amount c) := by
  have bytes : Function.Injective Counter.bytes := fun _ _ => Counter.bytes.inj
  have files : Function.Injective Counter.files := fun _ _ => Counter.files.inj
  rw [applyCopyProgressBatch]
  cases c with
  | job =>
      rw [foldl_increase_of_ne _ (by simp), foldl_increase_of_ne _ (by simp), increase,
        Function.update_self]
      rfl
  | bytes k =>
      rw [foldl_increase_of_ne _ (by simp), foldl_increase bytes, increase_of_ne (by simp)]
      rfl
  | files k =>
      rw [foldl_increase files, foldl_increase_of_ne _ (by simp), increase_of_ne (by simp)]
      rfl

/-! ### Conservation -/

/-- What a call asks for, read off its arguments: bytes count for the job and
for their assignment, completed files for their assignment only. -/
def WriterAction.amount : WriterAction → Counter → Int
  | .recordDelta _ deltaBytes, .job => deltaBytes
  | .recordDelta assignmentId deltaBytes, .bytes k => if assignmentId = some k then deltaBytes else 0
  | .recordCompletion assignmentId completedFiles, .files k =>
      if assignmentId = some k then completedFiles else 0
  | _, _ => 0

/-- The queued records ask for what the calls asked for: a call that queues
nothing asks for nothing. -/
theorem WriterAction.amount_eq (a : WriterAction) (c : Counter) :
    a.amount c = a.update.elim 0 (Update.amount · c) := by
  cases a with
  | recordDelta assignmentId deltaBytes =>
      by_cases zero : deltaBytes = 0
      · cases c <;> simp [amount, update, zero]
      · cases c <;> simp [amount, update, zero, Update.amount]
  | recordCompletion assignmentId completedFiles =>
      cases assignmentId with
      | none => cases c <;> simp [amount, update]
      | some j =>
          by_cases zero : completedFiles = 0
          · cases c <;> simp [amount, update, zero]
          · cases c <;> simp [amount, update, zero, Update.amount]
  | close | get | timeout | getNowait | flush _ => rfl

/-- Producers are done before `close`, and no flushed counter becomes negative. -/
def Proper (w : Writer) : WriterAction → Prop
  | .recordDelta _ _ | .recordCompletion _ _ => w.closed = false
  | .flush true => (∃ timedOut, w.pc = .flushing timedOut) → ∀ c ∈ w.pending.counters,
      w.pending.amount c ≠ 0 → 0 ≤ w.rows c + w.pending.amount c
  | _ => True

instance (w : Writer) (a : WriterAction) : Decidable (Proper w a) :=
  match a with
  | .recordDelta _ _ | .recordCompletion _ _ => inferInstanceAs (Decidable (w.closed = false))
  | .flush true => inferInstanceAs (Decidable ((∃ timedOut, w.pc = .flushing timedOut) →
      ∀ c ∈ w.pending.counters, w.pending.amount c ≠ 0 → 0 ≤ w.rows c + w.pending.amount c))
  | .flush false | .close | .get | .timeout | .getNowait => .isTrue trivial

/-- The committed value together with what is on its way. -/
def Writer.balance (w : Writer) (c : Counter) : Int :=
  w.rows c + w.pending.amount c + (w.queue.reduceOption.map (Update.amount · c)).sum

/-- Where the sentinel is, and that a thread that stops has nothing left. -/
structure Writer.Shape (w : Writer) : Prop where
  noSentinel : w.closed = false → w.stopRequested = false ∧ none ∉ w.queue
  sentinel : w.closed = true → w.stopRequested = false → ∃ us : List Update, w.queue = us.map some ++ [none]
  emptied : w.stopRequested = true → w.queue = []
  direct : w.background = false → w.queue = [] ∧ (w.pc = .getting ∨ w.stopRequested = true)
  running : w.pc = .getting ∨ w.pc = .flushing true → w.stopRequested = false
  ended : w.pc = .stopped → w.stopRequested = true ∧
    (w.closeError = false → ∀ c, w.pending.amount c = 0)

theorem shape_opened (background : Bool) (rows : Counters) : (Writer.opened background rows).Shape where
  noSentinel _ := ⟨rfl, List.not_mem_nil⟩
  sentinel closed := by cases closed
  emptied _ := rfl
  direct _ := ⟨rfl, .inl rfl⟩
  running _ := rfl
  ended pc := by cases pc

theorem Pending.amount_of_not_mem {p : Pending} {c : Counter} (h : c ∉ p.counters) :
    p.amount c = 0 := by
  have absent : ∀ {d : Dict} {k : Nat}, k ∉ d.keys → Dict.count d k = 0 := by
    intro d k out
    rw [Dict.count, AList.lookup_eq_none.mpr out]
    rfl
  cases c with
  | job => exact absurd List.mem_cons_self h
  | bytes k =>
      refine absent fun key => h (List.mem_cons_of_mem _ (List.mem_append_left _ ?_))
      exact List.mem_map_of_mem key
  | files k =>
      refine absent fun key => h (List.mem_cons_of_mem _ (List.mem_append_right _ ?_))
      exact List.mem_map_of_mem key

/-- What a step does. -/
inductive WriterMove (w : Writer) : WriterAction → Writer → Prop where
  | idle {a : WriterAction} (silent : a.update = none) : WriterMove w a w
  | record {a : WriterAction} {u : Update} (update : a.update = some u) : WriterMove w a (w.record u)
  | close (open_ : w.closed = false) (background : w.background = true) :
      WriterMove w .close { w with closed := true, queue := w.queue ++ [none] }
  | closeDirect (open_ : w.closed = false) (direct : w.background = false) :
      WriterMove w .close { w with closed := true, stopRequested := true, pc := .flushing false }
  | take {a : WriterAction} {u : Update} {rest : List (Option Update)} (silent : a.update = none)
      (queue : w.queue = some u :: rest) :
      WriterMove w a { w with queue := rest, pending := w.pending.accumulate u, pc := .draining }
  | stop {a : WriterAction} {rest : List (Option Update)} {pc : WriterPc} (silent : a.update = none)
      (queue : w.queue = none :: rest) (next : pc = .draining ∨ pc = .flushing false) :
      WriterMove w a { w with queue := rest, stopRequested := true, pc := pc }
  | timeout (background : w.background = true) (waiting : w.pc = .getting) : WriterMove w .timeout { w with pc := .flushing true }
  | drained (draining : w.pc = .draining) : WriterMove w .getNowait { w with pc := .flushing false }
  | flush {timedOut saved : Bool} (pc : w.pc = .flushing timedOut) (background : w.background = true) :
      WriterMove w (.flush saved) (w.flushed timedOut saved)
  | flushDirect {timedOut saved : Bool} (pc : w.pc = .flushing timedOut) (direct : w.background = false) :
      WriterMove w (.flush saved) (w.flushSynchronously saved)

theorem writerMove (w : Writer) (a : WriterAction) : WriterMove w a (writerStep w a) := by
  have recorded : ∀ b : WriterAction, WriterMove w b
      (match b.update with | some u => w.record u | none => w) := by
    intro b
    cases update : b.update with
    | none => exact .idle update
    | some u => exact .record update
  cases a with
  | recordDelta assignmentId deltaBytes => exact recorded _
  | recordCompletion assignmentId completedFiles => exact recorded _
  | close =>
      simp only [writerStep]
      split
      · exact .idle rfl
      · rename_i open_
        split
        · rename_i background
          exact .close (Bool.eq_false_iff.mpr open_) background
        · rename_i direct
          exact .closeDirect (Bool.eq_false_iff.mpr open_) (Bool.eq_false_iff.mpr direct)
  | get =>
      simp only [writerStep]
      split
      · exact .take rfl ‹_›
      · exact .stop rfl ‹_› (.inl rfl)
      · exact .idle rfl
  | timeout =>
      simp only [writerStep]
      split
      · rename_i h
        exact .timeout h.1 h.2.1
      · exact .idle rfl
  | getNowait =>
      simp only [writerStep]
      split
      · rename_i pc queue
        have taken := WriterMove.take (w := w) (a := .getNowait) rfl queue
        rwa [← pc] at taken
      · exact .stop rfl ‹_› (.inr rfl)
      · exact .drained ‹_›
      · exact .idle rfl
  | flush saved =>
      simp only [writerStep]
      split
      · rename_i pc
        split
        · rename_i background
          exact .flush pc background
        · rename_i direct
          exact .flushDirect pc (Bool.eq_false_iff.mpr direct)
      · exact .idle rfl

/-- A committed flush adds what was pending. -/
theorem flushPending_eq_some {saved : Bool} {rows rows' : Counters} {p : Pending}
    (h : flushPending saved rows p = some rows')
    (proper : saved = true → ∀ c ∈ p.counters, p.amount c ≠ 0 → 0 ≤ rows c + p.amount c) (c : Counter) :
    rows' c = rows c + p.amount c := by
  rw [flushPending] at h
  split at h
  · rename_i vacuous
    rw [← Option.some.inj h, Pending.amount_of_vacuous vacuous, Int.add_zero]
  · split at h
    · rename_i saved
      rw [← Option.some.inj h, applyCopyProgressBatch_apply]
      by_cases zero : p.amount c = 0
      · rw [zero, increased_zero, Int.add_zero]
      · by_cases entry : c ∈ p.counters
        · exact increased_eq (proper saved c entry zero)
        · exact absurd (Pending.amount_of_not_mem entry) zero
    · cases h

section Steps

variable {w : Writer} {a : WriterAction}

theorem exists_eq_map_some {queue : List (Option Update)} (h : none ∉ queue) :
    ∃ us : List Update, queue = us.map some := by
  induction queue with
  | nil => exact ⟨[], rfl⟩
  | cons item rest ih =>
      obtain ⟨us, eq⟩ := ih fun mem => h (List.mem_cons_of_mem _ mem)
      cases item with
      | none => exact absurd List.mem_cons_self h
      | some u => exact ⟨u :: us, by rw [List.map_cons, eq]⟩

/-- The sentinel is the last item of the queue. -/
theorem Writer.Shape.eq_nil (h : w.Shape) {rest : List (Option Update)} (queue : w.queue = none :: rest) :
    w.closed = true ∧ rest = [] := by
  have closed : w.closed = true := by
    by_contra open_
    refine (h.noSentinel (Bool.eq_false_iff.mpr open_)).2 ?_
    rw [queue]
    exact List.mem_cons_self
  have running : w.stopRequested = false := by
    by_contra stopping
    rw [h.emptied (Bool.not_eq_false _ ▸ stopping)] at queue
    cases queue
  obtain ⟨us, shape⟩ := h.sentinel closed running
  rw [queue] at shape
  cases us with
  | nil => exact ⟨closed, (List.cons.inj shape).2⟩
  | cons u us => cases (List.cons.inj shape).1

theorem Writer.Shape.not_ended (h : w.Shape) (running : w.stopRequested = false) : w.pc ≠ .stopped := by
  intro pc
  rw [(h.ended pc).1] at running
  cases running

theorem Writer.Shape.record (h : w.Shape) (u : Update) (open_ : w.closed = false) :
    (w.record u).Shape := by
  obtain ⟨running, noSentinel⟩ := h.noSentinel open_
  have notEnded : w.pc ≠ .stopped := h.not_ended running
  rw [Writer.record]
  split
  · rename_i background
    exact {
      noSentinel := fun _ => ⟨running, by simpa using noSentinel⟩
      sentinel := fun closed => by simp [open_] at closed
      emptied := fun stopping => by simp [running] at stopping
      direct := fun direct => by simp [background] at direct
      running := h.running
      ended := fun pc => absurd pc notEnded }
  · exact { h with ended := fun pc => absurd pc notEnded }

theorem Writer.Shape.close (h : w.Shape) (open_ : w.closed = false) (background : w.background = true) :
    Writer.Shape { w with closed := true, queue := w.queue ++ [none] } := by
  obtain ⟨running, noSentinel⟩ := h.noSentinel open_
  exact {
    noSentinel := fun closed => by cases closed
    sentinel := fun _ _ => (exists_eq_map_some noSentinel).imp fun us queue => by rw [queue]
    emptied := fun stopping => by simp [running] at stopping
    direct := fun direct => by simp [background] at direct
    running := h.running
    ended := fun pc => absurd pc (h.not_ended running) }

theorem Writer.Shape.take (h : w.Shape) {u : Update} {rest : List (Option Update)}
    (queue : w.queue = some u :: rest) : Writer.Shape { w with
      queue := rest, pending := w.pending.accumulate u, pc := .draining } where
  noSentinel open_ := by
    obtain ⟨running, noSentinel⟩ := h.noSentinel open_
    rw [queue] at noSentinel
    exact ⟨running, fun mem => noSentinel (List.mem_cons_of_mem _ mem)⟩
  sentinel closed running := by
    obtain ⟨us, shape⟩ := h.sentinel closed running
    rw [queue] at shape
    cases us with
    | nil => cases (List.cons.inj shape).1
    | cons v us => exact ⟨us, (List.cons.inj shape).2⟩
  emptied stopping := by
    have := h.emptied stopping
    rw [queue] at this
    cases this
  direct direct := by
    have := (h.direct direct).1
    rw [queue] at this
    cases this
  running pc := by simp at pc
  ended pc := by cases pc

theorem Writer.Shape.stop (h : w.Shape) {rest : List (Option Update)} {pc : WriterPc}
    (queue : w.queue = none :: rest) (next : pc = .draining ∨ pc = .flushing false) :
    Writer.Shape { w with queue := rest, stopRequested := true, pc := pc } := by
  obtain ⟨closed, last⟩ := h.eq_nil queue
  exact {
    noSentinel := fun open_ => by simp [closed] at open_
    sentinel := fun _ running => by cases running
    emptied := fun _ => last
    direct := fun _ => ⟨last, .inr rfl⟩
    running := fun pc => by rcases next with rfl | rfl <;> simp at pc
    ended := fun pc => by rcases next with rfl | rfl <;> cases pc }

/-- After a flush the thread goes on, or stops with nothing pending or an error. -/
theorem Writer.Shape.afterFlush (h : w.Shape) {rows : Counters} {pending : Pending} {pc : WriterPc}
    {closeError : Bool} (next : (pc = .getting ∧ w.stopRequested = false) ∨
      (pc = .stopped ∧ w.stopRequested = true ∧ (closeError = false → ∀ c, pending.amount c = 0))) :
    Writer.Shape { w with rows := rows, pending := pending, pc := pc, closeError := closeError } where
  noSentinel := h.noSentinel
  sentinel := h.sentinel
  emptied := h.emptied
  direct direct := ⟨(h.direct direct).1, next.imp And.left fun next => next.2.1⟩
  running at_ := by
    rcases next with ⟨-, running⟩ | ⟨rfl, -, -⟩
    · exact running
    · simp at at_
  ended at_ := by
    rcases next with ⟨rfl, -⟩ | ⟨-, stopping, nothing⟩
    · cases at_
    · exact ⟨stopping, nothing⟩

theorem Writer.Shape.flushed (h : w.Shape) {timedOut saved : Bool} (pc : w.pc = .flushing timedOut) :
    (w.flushed timedOut saved).Shape := by
  have stops : (w.stopRequested && !timedOut) = w.stopRequested := by
    cases timedOut with
    | false => exact Bool.and_true _
    | true => rw [h.running (.inr pc)]; rfl
  rw [Writer.flushed]
  simp only [stops]
  by_cases stopping : w.stopRequested = true
  · simp only [if_pos stopping]
    split
    · exact h.afterFlush (.inr ⟨rfl, stopping, fun _ => Pending.amount_empty⟩)
    · exact h.afterFlush (.inr ⟨rfl, stopping, fun fine => by simp [stopping] at fine⟩)
  · simp only [if_neg stopping]
    split <;> exact h.afterFlush (.inl ⟨rfl, Bool.eq_false_iff.mpr stopping⟩)

theorem Writer.Shape.step (h : w.Shape) (proper : Proper w a) : (writerStep w a).Shape := by
  have move := writerMove w a
  generalize writerStep w a = v at move
  cases move with
  | idle silent => exact h
  | @record a u update =>
      refine h.record u ?_
      cases a with
      | recordDelta assignmentId deltaBytes => exact proper
      | recordCompletion assignmentId completedFiles => exact proper
      | _ => cases update
  | close open_ background => exact h.close open_ background
  | closeDirect open_ direct =>
      exact {
        noSentinel := fun closed => by cases closed
        sentinel := fun _ running => by cases running
        emptied := fun _ => (h.direct direct).1
        direct := fun _ => ⟨(h.direct direct).1, .inr rfl⟩
        running := fun pc => by simp at pc
        ended := fun pc => by cases pc }
  | take silent queue => exact h.take queue
  | stop silent queue next => exact h.stop queue next
  | timeout background waiting =>
      exact { h with
        direct := fun direct => by simp [background] at direct
        running := fun _ => h.running (.inl waiting)
        ended := fun pc => by cases pc }
  | drained draining =>
      exact { h with
        direct := fun direct => ⟨(h.direct direct).1, .inr ((h.direct direct).2.resolve_left (by simp [draining]))⟩
        running := fun pc => by simp at pc
        ended := fun pc => by cases pc }
  | flush pc background => exact h.flushed pc
  | @flushDirect timedOut saved pc direct =>
      have stopping : w.stopRequested = true := (h.direct direct).2.resolve_left (by simp [pc])
      rw [Writer.flushSynchronously]
      split
      · exact h.afterFlush (.inr ⟨rfl, stopping, fun _ => Pending.amount_empty⟩)
      · exact h.afterFlush (.inr ⟨rfl, stopping, fun fine => by cases fine⟩)

theorem Writer.balance_record (w : Writer) (u : Update) (c : Counter) :
    (w.record u).balance c = w.balance c + u.amount c := by
  rw [Writer.record]
  split
  · simp only [Writer.balance, List.reduceOption_append, List.reduceOption_singleton,
      Option.toList_some, List.map_append, List.sum_append, List.map_cons, List.map_nil, List.sum_cons,
      List.sum_nil]
    omega
  · simp only [Writer.balance, Pending.amount_accumulate]
    omega

/-- A step hands values on: what a producer adds is all that comes in. -/
theorem Writer.balance_step (w : Writer) (proper : Proper w a)
    (fine : (writerStep w a).closeError = false) (c : Counter) :
    (writerStep w a).balance c = w.balance c + a.amount c := by
  have move := writerMove w a
  generalize writerStep w a = v at move fine
  have silent : ∀ {b : WriterAction}, b.update = none → b.amount c = 0 := by
    intro b update
    rw [WriterAction.amount_eq, update]
    rfl
  cases move with
  | idle update => rw [silent update, Int.add_zero]
  | record update =>
      rw [Writer.balance_record, WriterAction.amount_eq, update]
      rfl
  | close open_ background =>
      rw [silent rfl]
      simp [Writer.balance, List.reduceOption_append]
  | closeDirect open_ direct => exact (Int.add_zero _).symm
  | take update queue =>
      rw [silent update]
      simp only [Writer.balance, queue, Pending.amount_accumulate, List.reduceOption_cons_of_some,
        List.map_cons, List.sum_cons]
      omega
  | stop update queue next =>
      rw [silent update]
      simp [Writer.balance, queue]
  | timeout background waiting => exact (Int.add_zero _).symm
  | drained draining => exact (Int.add_zero _).symm
  | @flush timedOut saved pc background =>
      rw [silent rfl, Writer.flushed]
      split
      · rename_i rows flushed
        have added := flushPending_eq_some flushed
          (fun saved => by subst saved; exact proper ⟨timedOut, pc⟩) c
        simp only [Writer.balance, Pending.amount_empty, added]
        omega
      · exact (Int.add_zero _).symm
  | @flushDirect timedOut saved pc direct =>
      rw [silent rfl]
      rw [Writer.flushSynchronously] at fine ⊢
      split at fine
      · rename_i rows flushed
        have added := flushPending_eq_some flushed
          (fun saved => by subst saved; exact proper ⟨timedOut, pc⟩) c
        simp only [Writer.balance, Pending.amount_empty, added]
        omega
      · cases fine

/-- An error of the last flush is never taken back. -/
theorem closeError_step (fine : (writerStep w a).closeError = false) : w.closeError = false := by
  have move := writerMove w a
  generalize writerStep w a = v at move fine
  cases move with
  | idle silent => exact fine
  | record update =>
      rw [Writer.record] at fine
      split at fine <;> exact fine
  | close open_ background => exact fine
  | closeDirect open_ direct => exact fine
  | take silent queue => exact fine
  | stop silent queue next => exact fine
  | timeout background waiting => exact fine
  | drained draining => exact fine
  | flush pc background =>
      rw [Writer.flushed] at fine
      split at fine
      · exact fine
      · exact (Bool.or_eq_false_iff.mp fine).1
  | flushDirect pc direct =>
      rw [Writer.flushSynchronously] at fine
      split at fine
      · exact fine
      · cases fine

theorem closeError_exec {actions : List WriterAction}
    (fine : (exec writerStep w actions).closeError = false) : w.closeError = false := by
  induction actions generalizing w with
  | nil => exact fine
  | cons a rest ih => exact closeError_step (ih fine)

/-- Nothing is on its way when `close` has returned. -/
theorem Writer.Shape.balance_eq (h : w.Shape) (returned : w.Returned) (c : Counter) :
    w.balance c = w.rows c := by
  obtain ⟨-, stopped, fine⟩ := returned
  obtain ⟨stopping, nothing⟩ := h.ended stopped
  rw [Writer.balance, nothing fine, h.emptied stopping]
  simp

theorem Writer.Shape.rows_exec {actions : List WriterAction} (h : w.Shape)
    (proper : Along writerStep Proper w actions) (returned : (exec writerStep w actions).Returned)
    (c : Counter) :
    (exec writerStep w actions).rows c = w.balance c + (actions.map (WriterAction.amount · c)).sum := by
  induction actions generalizing w with
  | nil => exact (h.balance_eq returned c).symm.trans (Int.add_zero _).symm
  | cons a rest ih =>
      have fine : (writerStep w a).closeError = false := closeError_exec returned.2.2
      have tail := ih (h.step proper.1) proper.2 returned
      rw [w.balance_step proper.1 fine c] at tail
      rw [List.map_cons, List.sum_cons, ← Int.add_assoc]
      exact tail

end Steps

/-- In every interleaving of producers, `close` and the writer, in both modes
and with any flushes failing, every counter has grown by the sum of what the
calls asked for when `close` has returned. -/
theorem progress_conserved (background : Bool) (rows : Counters) (actions : List WriterAction)
    (proper : Along writerStep Proper (.opened background rows) actions)
    (returned : (exec writerStep (.opened background rows) actions).Returned) (c : Counter) :
    (exec writerStep (.opened background rows) actions).rows c =
      rows c + (actions.map (WriterAction.amount · c)).sum := by
  have final := (shape_opened background rows).rows_exec proper returned c
  simpa [Writer.balance, Writer.opened, Pending.amount_empty] using final

/-- Two producers, a failed flush after a timeout, a retry, and a correction
that arrives before the sentinel. -/
def retriedFlush : List WriterAction :=
  [.recordDelta (some 4) 10, .get, .recordDelta (some 4) 20, .getNowait, .getNowait, .flush false, .timeout,
    .flush false, .recordCompletion (some 4) 1, .recordDelta (some 4) (-5), .close, .get, .getNowait,
    .getNowait, .flush true]

theorem progress_conserved_retriedFlush :
    Along writerStep Proper (.opened true fun _ => 7) retriedFlush ∧
      (exec writerStep (.opened true fun _ => 7) retriedFlush).Returned ∧
      ∀ c, (exec writerStep (.opened true fun _ => 7) retriedFlush).rows c =
        7 + (retriedFlush.map (WriterAction.amount · c)).sum := by
  have proper : Along writerStep Proper (.opened true fun _ => 7) retriedFlush := by decide
  have returned : (exec writerStep (.opened true fun _ => 7) retriedFlush).Returned := by decide
  exact ⟨proper, returned, progress_conserved true (fun _ => 7) retriedFlush proper returned⟩

end Ecube.ProgressWriter
