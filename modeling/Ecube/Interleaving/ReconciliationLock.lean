import Ecube.Basic.Integers
import Ecube.Basic.Transition

/-!
The reconciliation lock (`_acquire_reconciliation_lock`,
`_refresh_reconciliation_lock` and `_release_reconciliation_lock`).

The lock is the single row of `reconciliation_lock`. A worker takes it with an
INSERT that the primary key refuses while a row exists. A row that is old and
whose holder has died is reclaimed: the worker reads it, asks the operating
system for the holder, deletes the row and inserts its own. Every statement is
a step of its own, and workers start and die at any time.

`excluded_of_guarded`: at most one live worker holds the lock throughout a run
in which no DELETE of a reclaimer meets the row of a live worker. The DELETE
names the primary key only, so that it also removes a row which another worker
has inserted since the reclaimer read the dead one (`reclaimed_twice`).
-/

namespace Ecube.ReconciliationLock

open PosixPath Transition

/-! ### Holders -/

structure LockRow where
  lockedBy : Str
  lockedAt : Nat
  deriving DecidableEq, Repr

/-- `STALE_LOCK_SECONDS`. -/
def staleLockSeconds : Nat := 300

def workerId (pid : Nat) : Str := "pid-".toList ++ Nat.toDigits 10 pid

/-- Decimal digits, with single underscores between them. -/
def digits? (text : Str) : Option Nat :=
  if ∀ part ∈ text.splitOn '_', part ≠ [] ∧ part.all Char.isDigit then
    some (Nat.ofDigitChars 10 (text.filter (· ≠ '_')) 0)
  else none

/-- `int(text)` for ASCII texts. -/
def int? (text : Str) : Option Int :=
  match strip text with
  | '-' :: digits => (digits? digits).map fun n => -Int.ofNat n
  | '+' :: digits => (digits? digits).map Int.ofNat
  | digits => (digits? digits).map Int.ofNat

/-- `_is_holder_alive`: a holder counts as dead only if its process number can
be read and no process has it. Where the operating system offers no such check,
every process exists. -/
def isHolderAlive (processExists : Int → Bool) (lockedBy : Str) : Bool :=
  if "pid-".toList <+: lockedBy then
    match int? (lockedBy.drop 4) with
    | none => true
    | some pid => processExists pid
  else true

theorem digits?_toDigits (n : Nat) : digits? (Nat.toDigits 10 n) = some n := by
  have digit : ∀ c ∈ Nat.toDigits 10 n, c.isDigit = true :=
    fun c hc => Integers.isDigit_of_mem_toDigits hc
  have plain : '_' ∉ Nat.toDigits 10 n := Nat.underscore_not_in_toDigits
  have kept : (Nat.toDigits 10 n).filter (· ≠ '_') = Nat.toDigits 10 n := by
    refine List.filter_eq_self.mpr fun c hc => decide_eq_true ?_
    rintro rfl
    exact plain hc
  rw [digits?, if_pos, kept, Nat.ofDigitChars_ten_toDigits]
  intro part hpart
  rw [List.splitOn_eq_singleton plain, List.mem_singleton] at hpart
  subst hpart
  exact ⟨Nat.toDigits_ne_nil, List.all_eq_true.mpr digit⟩

theorem int?_toDigits (n : Nat) : int? (Nat.toDigits 10 n) = some (n : Int) := by
  have digit : ∀ c ∈ Nat.toDigits 10 n, c.isDigit = true :=
    fun c hc => Integers.isDigit_of_mem_toDigits hc
  have plain : ∀ c ∈ Nat.toDigits 10 n, isSpace c = false :=
    fun c hc => Integers.not_isSpace_of_isDigit (digit c hc)
  have unsigned : ∀ c digits, Nat.toDigits 10 n = c :: digits → c.isDigit = true :=
    fun c digits first => digit c (first ▸ List.mem_cons_self)
  rw [int?, strip_of_no_space plain]
  split
  next digits minus => exact absurd (unsigned _ _ minus) (by decide)
  next digits plus => exact absurd (unsigned _ _ plus) (by decide)
  next =>
    rw [digits?_toDigits]
    rfl

/-- A worker whose process exists counts as alive. -/
theorem isHolderAlive_workerId {processExists : Int → Bool} {pid : Nat}
    (lives : processExists pid = true) : isHolderAlive processExists (workerId pid) = true := by
  have read : (workerId pid).drop 4 = Nat.toDigits 10 pid := rfl
  rw [isHolderAlive, read, int?_toDigits]
  split
  · exact lives
  · rfl

/-! ### Workers -/

/-- Where a worker is: outside the three functions, before a statement of one
of them, or between an `acquire` that returned `True` and its release. -/
inductive Call where
  | idle
  | inserting (now : Nat)
  | selecting (now : Nat)
  | checking (now : Nat) (existing : LockRow)
  | deleting (now : Nat) (existing : LockRow)
  | retrying (now : Nat)
  | holding
  | refreshing
  | releasing
  deriving DecidableEq, Repr

/-- `acquire` has returned `True`, and the release has not been committed. -/
def Call.acquired : Call → Bool
  | .holding | .refreshing | .releasing => true
  | _ => false

/-- A thread that calls the three functions, in the process `pid`. Several may
share a process, and a process number may come back after a death. -/
structure Worker where
  pid : Nat
  alive : Bool
  call : Call
  deriving DecidableEq, Repr

def Worker.holds (w : Worker) : Bool := w.alive && w.call.acquired

/-- The lock table and the workers that were ever started. -/
structure State where
  row : Option LockRow
  workers : List Worker
  deriving DecidableEq, Repr

namespace State

def setCall (s : State) (k : Nat) (call : Call) : State :=
  { s with workers := s.workers.modify k fun w => { w with call := call } }

def setRow (s : State) (row : Option LockRow) : State := { s with row := row }

/-- The processes of the host: the live workers and others. -/
def processExists (s : State) (others : Int → Bool) (pid : Int) : Bool :=
  (s.workers.any fun w => w.alive ∧ (w.pid : Int) = pid) || others pid

end State

/-- The steps. A database error other than a refused INSERT is an answer to the
statement that meets it, as are the other processes of the host and the clock. -/
inductive Action where
  | spawn (pid : Nat)
  | die (k : Nat)
  | acquire (k now : Nat)
  | refresh (k : Nat)
  | release (k : Nat)
  | statement (k : Nat) (fails : Bool) (others : Int → Bool) (now : Nat)

/-- The next statement of worker `k`, which is at `w`. -/
def nextStatement (s : State) (k : Nat) (w : Worker) (fails : Bool) (others : Int → Bool)
    (now : Nat) : State :=
  match w.call with
  | .inserting now =>
      if fails then s.setCall k .idle
      else match s.row with
        | none => (s.setRow (some ⟨workerId w.pid, now⟩)).setCall k .holding
        | some _ => s.setCall k (.selecting now)
  | .selecting now =>
      if fails then s.setCall k .idle
      else match s.row with
        | none => s.setCall k (.retrying now)
        | some existing =>
            -- `locked_at < now - STALE_LOCK_SECONDS`
            if existing.lockedAt + staleLockSeconds < now then s.setCall k (.checking now existing)
            else s.setCall k .idle
  | .checking now existing =>
      if isHolderAlive (s.processExists others) existing.lockedBy then s.setCall k .idle
      else s.setCall k (.deleting now existing)
  | .deleting now _ =>
      -- DELETE ... WHERE id = 1; a DELETE that meets no row is only warned about.
      if fails then s.setCall k .idle
      else (s.setRow none).setCall k (.retrying now)
  | .retrying now =>
      if fails then s.setCall k .idle
      else match s.row with
        | none => (s.setRow (some ⟨workerId w.pid, now⟩)).setCall k .holding
        | some _ => s.setCall k .idle
  | .refreshing =>
      -- An UPDATE that meets no row raises, which is logged like any other failure.
      if fails then s.setCall k .holding
      else (s.setRow (s.row.map fun r => { r with lockedAt := now })).setCall k .holding
  | .releasing =>
      if fails then s.setCall k .idle else (s.setRow none).setCall k .idle
  | .idle | .holding => s

/-- `refresh` and `release` first read the row, and do nothing without one. -/
def step (s : State) : Action → State
  | .spawn pid => { s with workers := s.workers ++ [⟨pid, true, .idle⟩] }
  | .die k => { s with workers := s.workers.modify k fun w => { w with alive := false } }
  | .acquire k now => onCall s k .idle fun _ => s.setCall k (.inserting now)
  | .refresh k => onCall s k .holding fun _ =>
      if s.row.isSome then s.setCall k .refreshing else s
  | .release k => onCall s k .holding fun _ =>
      s.setCall k (if s.row.isSome then .releasing else .idle)
  | .statement k fails others now =>
      match s.workers[k]? with
      | some w => if w.alive then nextStatement s k w fails others now else s
      | none => s
where
  /-- What a live worker does when it is at this place. -/
  onCall (s : State) (k : Nat) (call : Call) (act : Worker → State) : State :=
    match s.workers[k]? with
    | some w => if w.alive ∧ w.call = call then act w else s
    | none => s

/-- No worker has been started. The table may hold a row of an earlier time. -/
def initial (row : Option LockRow) : State := ⟨row, []⟩

/-- Worker `k` is alive and holds the lock. -/
def Holds (s : State) (k : Nat) : Prop := ∃ w, s.workers[k]? = some w ∧ w.holds = true

def MutualExclusion (s : State) : Prop := ∀ i j, Holds s i → Holds s j → i = j

/-- Worker `k` is about to delete a row that it found stale. -/
def reclaims (s : State) (k : Nat) : Bool :=
  (s.workers[k]?).any fun w => w.alive && match w.call with
    | .deleting _ _ => true
    | _ => false

/-- A reclaimer does not delete the row of a live worker. -/
def ReclaimsDead (s : State) : Action → Prop
  | .statement k fails _ _ => reclaims s k = true → fails = false → ∀ row ∈ s.row,
      ∀ holder ∈ s.workers, holder.alive = true → row.lockedBy ≠ workerId holder.pid
  | _ => True

instance (s : State) (a : Action) : Decidable (ReclaimsDead s a) :=
  match a with
  | .statement k fails _ _ =>
      inferInstanceAs (Decidable (reclaims s k = true → fails = false → ∀ row ∈ s.row,
        ∀ holder ∈ s.workers, holder.alive = true → row.lockedBy ≠ workerId holder.pid))
  | .spawn _ | .die _ | .acquire _ _ | .refresh _ | .release _ => inferInstanceAs (Decidable True)

/-! ### What a step can do -/

/-- Every live holder in `t` was one in `s`. -/
def NoNewHolder (s t : State) : Prop :=
  ∀ (i : Nat) (w' : Worker), t.workers[i]? = some w' → w'.holds = true →
    ∃ w, s.workers[i]? = some w ∧ w.holds = true ∧ w.pid = w'.pid

inductive Move (s : State) (a : Action) : State → Prop where
  | quiet {t : State} (holders : NoNewHolder s t)
      (row : ∀ r ∈ s.row, ∃ r' ∈ t.row, r'.lockedBy = r.lockedBy) : Move s a t
  | insert {k now : Nat} {w : Worker} (worker : s.workers[k]? = some w) (free : s.row = none) :
      Move s a ((s.setRow (some ⟨workerId w.pid, now⟩)).setCall k .holding)
  | reclaim {k now now' : Nat} {w : Worker} {existing : LockRow} {others : Int → Bool}
      (event : a = .statement k false others now') (worker : s.workers[k]? = some w)
      (alive : w.alive = true) (place : w.call = .deleting now existing) :
      Move s a ((s.setRow none).setCall k (.retrying now))
  | release {k : Nat} {w : Worker} (worker : s.workers[k]? = some w) (holds : w.holds = true) :
      Move s a ((s.setRow none).setCall k .idle)

section Moves

variable {s : State} {a : Action} {k : Nat} {w : Worker}

theorem getElem?_setCall (s : State) (k i : Nat) (call : Call) :
    (s.setCall k call).workers[i]? =
      (s.workers[i]?).map fun w => if k = i then { w with call := call } else w := by
  rw [State.setCall, List.getElem?_modify]
  split <;> simp

/-- A worker that does not enter the lock leaves everyone else's place alone. -/
theorem noNewHolder_setCall {call : Call} {row : Option LockRow}
    (enters : ∀ w, s.workers[k]? = some w → call.acquired = true → w.call.acquired = true) :
    NoNewHolder s ((s.setRow row).setCall k call) := by
  intro i w' found holds
  rw [getElem?_setCall, Option.map_eq_some_iff] at found
  obtain ⟨w, worker, rfl⟩ := found
  refine ⟨w, worker, ?_, ?_⟩
  · by_cases same : k = i
    · subst same
      rw [if_pos rfl, Worker.holds, Bool.and_eq_true] at holds
      rw [Worker.holds, Bool.and_eq_true]
      exact ⟨holds.1, enters w worker holds.2⟩
    · rwa [if_neg same] at holds
  · split <;> rfl

theorem Move.setCall {call : Call}
    (enters : ∀ w, s.workers[k]? = some w → call.acquired = true → w.call.acquired = true) :
    Move s a (s.setCall k call) :=
  .quiet (noNewHolder_setCall enters) fun r hr => ⟨r, hr, rfl⟩

theorem Move.stay : Move s a s :=
  .quiet (fun _ w' found holds => ⟨w', found, holds, rfl⟩) fun r hr => ⟨r, hr, rfl⟩

/-- A place outside the lock may be taken from anywhere. -/
theorem Move.leave {call : Call} (outside : call.acquired = false) : Move s a (s.setCall k call) :=
  .setCall fun _ _ entered => by rw [outside] at entered; cases entered

theorem move_nextStatement {fails : Bool} {others : Int → Bool} {now : Nat}
    (worker : s.workers[k]? = some w) (alive : w.alive = true) :
    Move s (.statement k fails others now) (nextStatement s k w fails others now) := by
  have inside : w.call.acquired = true → ∀ v, s.workers[k]? = some v → v.call.acquired = true := by
    intro acquired v found
    rw [worker] at found
    cases found
    exact acquired
  rw [nextStatement]
  split
  next now' place =>
    cases fails with
    | true => exact .leave rfl
    | false =>
        rw [if_neg (by decide)]
        split
        next free => exact .insert worker free
        next => exact .leave rfl
  next now' place =>
    cases fails with
    | true => exact .leave rfl
    | false =>
        rw [if_neg (by decide)]
        split
        next => exact .leave rfl
        next => split <;> exact .leave rfl
  next now' existing place => split <;> exact .leave rfl
  next now' existing place =>
    cases fails with
    | true => exact .leave rfl
    | false => exact .reclaim rfl worker alive place
  next now' place =>
    cases fails with
    | true => exact .leave rfl
    | false =>
        rw [if_neg (by decide)]
        split
        next free => exact .insert worker free
        next => exact .leave rfl
  next place =>
    have acquired : w.call.acquired = true := by rw [place]; rfl
    cases fails with
    | true => exact .setCall fun v found _ => inside acquired v found
    | false =>
        refine .quiet (noNewHolder_setCall fun v found _ => inside acquired v found) fun r hr => ?_
        exact ⟨_, Option.mem_map_of_mem _ hr, rfl⟩
  next place =>
    have holds : w.holds = true := by rw [Worker.holds, alive, place]; rfl
    cases fails with
    | true => exact .leave rfl
    | false => exact .release worker holds
  next => exact .stay
  next => exact .stay

theorem move_onCall {call : Call} {act : Worker → State}
    (moves : ∀ w, s.workers[k]? = some w → w.call = call → Move s a (act w)) :
    Move s a (step.onCall s k call act) := by
  rw [step.onCall]
  split
  next w worker =>
    split
    next at_ => exact moves w worker at_.2
    next => exact .stay
  next => exact .stay

theorem move_step (s : State) (a : Action) : Move s a (step s a) := by
  cases a with
  | spawn pid =>
      refine .quiet ?_ fun r hr => ⟨r, hr, rfl⟩
      intro i w' found holds
      simp only [step, List.getElem?_append] at found
      split at found
      · exact ⟨w', found, holds, rfl⟩
      · -- The new worker has not called anything.
        rw [List.getElem?_singleton] at found
        split at found
        · cases found
          cases holds
        · cases found
  | die k =>
      refine .quiet ?_ fun r hr => ⟨r, hr, rfl⟩
      intro i w' found holds
      simp only [step, List.getElem?_modify, Option.map_eq_map, Option.map_eq_some_iff] at found
      obtain ⟨w, worker, rfl⟩ := found
      by_cases same : k = i
      · rw [if_pos same] at holds
        cases holds
      · rw [if_neg same] at holds ⊢
        exact ⟨w, worker, holds, rfl⟩
  | acquire k now => exact move_onCall fun _ _ _ => .leave rfl
  | refresh k =>
      apply move_onCall
      intro w worker place
      split
      · refine .setCall fun v found _ => ?_
        rw [worker] at found
        cases found
        rw [place]
        rfl
      · exact .stay
  | release k =>
      refine move_onCall fun w worker place => .setCall fun v found _ => ?_
      rw [worker] at found
      cases found
      rw [place]
      rfl
  | statement k fails others now =>
      rw [step]
      split
      next w worker =>
        split
        next alive => exact move_nextStatement worker alive
        next => exact .stay
      next => exact .stay

end Moves

/-! ### Mutual exclusion -/

/-- A live holder is alone, and the row in the table is its own. -/
structure LockInv (s : State) : Prop where
  unique : MutualExclusion s
  owned : ∀ (k : Nat) (w : Worker), s.workers[k]? = some w → w.holds = true →
    ∃ r, s.row = some r ∧ r.lockedBy = workerId w.pid

/-- Without holders there is nothing to show. -/
theorem LockInv.of_none {s : State} (none : ∀ k, ¬ Holds s k) : LockInv s where
  unique i _ hi _ := absurd hi (none i)
  owned k w worker holds := absurd ⟨w, worker, holds⟩ (none k)

theorem Holds.of_noNewHolder {s t : State} (h : NoNewHolder s t) {i : Nat} (holds : Holds t i) :
    Holds s i := by
  obtain ⟨w', found, holds⟩ := holds
  obtain ⟨w, worker, was, -⟩ := h i w' found holds
  exact ⟨w, worker, was⟩

theorem LockInv.free {s : State} (inv : LockInv s) (free : s.row = none) (k : Nat) :
    ¬ Holds s k := by
  rintro ⟨w, worker, holds⟩
  obtain ⟨r, row, -⟩ := inv.owned k w worker holds
  rw [free] at row
  cases row

theorem LockInv.step {s : State} {a : Action} (inv : LockInv s) (dead : ReclaimsDead s a) :
    LockInv (step s a) := by
  have move := move_step s a
  generalize ReconciliationLock.step s a = t at move ⊢
  cases move with
  | quiet holders row =>
      constructor
      · intro i j hi hj
        exact inv.unique i j (hi.of_noNewHolder holders) (hj.of_noNewHolder holders)
      · intro k w' found holds
        obtain ⟨w, worker, was, pid⟩ := holders k w' found holds
        obtain ⟨r, before, mine⟩ := inv.owned k w worker was
        obtain ⟨r', after, same⟩ := row r before
        exact ⟨r', after, by rw [same, mine, pid]⟩
  | @insert k now w worker free =>
      -- Nobody held the lock, so the worker that inserted the row is the only holder.
      have alone : ∀ i (w' : Worker),
          ((s.setRow (some ⟨workerId w.pid, now⟩)).setCall k .holding).workers[i]? = some w' →
          w'.holds = true → i = k ∧ w'.pid = w.pid := by
        intro i w' found holds
        rw [getElem?_setCall, Option.map_eq_some_iff] at found
        obtain ⟨v, old, rfl⟩ := found
        by_cases same : k = i
        · subst same
          obtain rfl : w = v := Option.some.inj (worker.symm.trans old)
          exact ⟨rfl, by rw [if_pos rfl]⟩
        · rw [if_neg same] at holds
          exact absurd ⟨v, old, holds⟩ (inv.free free i)
      constructor
      · intro i j hi hj
        obtain ⟨w₁, found₁, holds₁⟩ := hi
        obtain ⟨w₂, found₂, holds₂⟩ := hj
        rw [(alone i w₁ found₁ holds₁).1, (alone j w₂ found₂ holds₂).1]
      · intro i w' found holds
        exact ⟨_, rfl, by rw [(alone i w' found holds).2]⟩
  | @reclaim k now now' w existing others event worker alive place =>
      subst event
      refine .of_none fun i holds => ?_
      have still : Holds s i := holds.of_noNewHolder (noNewHolder_setCall fun _ _ h => by cases h)
      obtain ⟨v, found, holds⟩ := still
      obtain ⟨r, row, mine⟩ := inv.owned i v found holds
      have lives : v.alive = true := (Bool.and_eq_true _ _ ▸ holds).1
      have deletes : reclaims s k = true := by
        rw [reclaims, worker, Option.any_some, alive, place]
        rfl
      exact dead deletes rfl r row v (List.mem_of_getElem? found) lives mine
  | @release k w worker holds =>
      refine .of_none fun i after => ?_
      have still : Holds s i := after.of_noNewHolder (noNewHolder_setCall fun _ _ h => by cases h)
      -- The only holder has left.
      obtain rfl : i = k := inv.unique i k still ⟨w, worker, holds⟩
      obtain ⟨w', found, holds⟩ := after
      rw [getElem?_setCall, Option.map_eq_some_iff] at found
      obtain ⟨v, -, rfl⟩ := found
      rw [if_pos rfl, Worker.holds, Bool.and_eq_true] at holds
      cases holds.2

/-- At most one live worker holds the lock in every state of a run in which no
reclaimer deletes the row of a live worker. -/
theorem excluded_of_guarded {row : Option LockRow} {actions : List Action}
    (guarded : Along step ReclaimsDead (initial row) actions) :
    Always step MutualExclusion (initial row) actions := by
  have none : ∀ k, ¬ Holds (initial row) k := by
    rintro k ⟨w, found, -⟩
    cases found
  have always := always_of_along (fun _ _ => LockInv.step) (LockInv.of_none none) guarded
  exact always.mono fun _ inv => inv.unique

/-- The statements of worker `k`, one after the other, on a host without other
processes. -/
def statements (k count : Nat) : List Action :=
  List.replicate count (.statement k false (fun _ => false) 0)

/-- A row that a process which no longer exists left behind. -/
def abandoned : LockRow := ⟨workerId 9, 0⟩

/-- One worker reclaims the row, runs and releases; another then takes the lock. -/
theorem excluded_of_guarded_reclaimed :
    Along step ReclaimsDead (initial (some abandoned)) (.spawn 1 :: .spawn 2 :: .acquire 0 1000 ::
        statements 0 5 ++ .refresh 0 :: statements 0 1 ++ .release 0 :: statements 0 1 ++
        .acquire 1 1001 :: statements 1 1) ∧
      Always step MutualExclusion (initial (some abandoned)) (.spawn 1 :: .spawn 2 ::
        .acquire 0 1000 :: statements 0 5 ++ .refresh 0 :: statements 0 1 ++ .release 0 ::
        statements 0 1 ++ .acquire 1 1001 :: statements 1 1) :=
  ⟨by decide, excluded_of_guarded (by decide)⟩

/-- Both workers read the row of the dead process. The second deletes the row
that the first has inserted meanwhile. -/
theorem reclaimed_twice :
    ¬ ∀ (row : Option LockRow) (actions : List Action),
        Always step MutualExclusion (initial row) actions := by
  intro h
  have last := (h (some abandoned) (.spawn 1 :: .spawn 2 :: .acquire 0 1000 :: .acquire 1 1000 ::
    statements 0 3 ++ statements 1 3 ++ statements 0 2 ++ statements 1 2)).last
  have same := last 0 1 ⟨⟨1, true, .holding⟩, by decide⟩ ⟨⟨2, true, .holding⟩, by decide⟩
  exact absurd same (by decide)

end Ecube.ReconciliationLock
