import Ecube.Basic.Transition
import Ecube.Services.CopyFile

/-!
Hashing on a thread of its own (`_copy_file_with_separate_hashing`).

The copying thread writes each chunk and puts it into a queue with two places; the hash
worker takes the chunks and hashes them. A sentinel after the last chunk asks for the
digest. Either thread can fail: the worker records its error and sets the stop event, and
the copying thread sets it when it leaves the loop with an error. With a timeout, the
copying thread does not wait for the worker after the deadline.

`separate_eq_inline`: a digest that is returned is that of the whole source, which is at
the destination, as in the loop of `copy_file`.
-/

namespace Ecube.HashWorker

open Chunks CopyFile StraightLine Transition

/-! ### The threads -/

/-- Where the copying thread stands while it puts something into the queue. -/
inductive Putting where
  /-- `_raise_timeout_if_needed` -/
  | check
  | errors
  | put
  /-- after `queue.Full` -/
  | full
  deriving DecidableEq, Repr

inductive Copier where
  /-- the operations that are left -/
  | running (ops : List Op) (putting : Putting)
  /-- leaves the `with` block after an exception -/
  | leaving (raised : Raised)
  /-- before `stop_event.set()` -/
  | stopping (raised : Raised)
  | joining (copyError : Option Raised)
  /-- before it looks at the errors of the worker, and then whether the worker is alive -/
  | judging (copyError : Option Raised)
  | ending (copyError : Option Raised)
  | returning (copyError : Option Raised)
  | raised (raised : Raised)
  | returned (checksum : Str)
  deriving DecidableEq, Repr

inductive Worker where
  | unstarted
  | starting
  | getting
  /-- after `queue.Empty` -/
  | idle
  | updating (chunk : Bytes)
  /-- has taken the sentinel -/
  | finishing
  /-- before `hash_errors.append`, and then before `stop_event.set()` -/
  | failing
  | stopping
  | ended
  deriving DecidableEq, Repr

/-- `Thread.start`. -/
def Worker.start : Worker → Worker
  | .unstarted => .starting
  | w => w

def Worker.isAlive (w : Worker) : Bool := w ≠ .unstarted ∧ w ≠ .ended

structure Threads where
  now : Int
  startTime : Int
  copier : Copier
  worker : Worker
  files : State
  queue : List (Option Bytes)
  /-- what the worker has hashed -/
  hashed : Bytes
  hashErrors : Bool
  checksumHex : List Str
  stopEvent : Bool

inductive Action where
  | tick (nanoseconds : Nat)
  /-- a step of the copying thread; its operation can raise -/
  | copier (fault : Option Fault)
  /-- a step of the worker; it can raise -/
  | worker (fault : Bool)

/-! ### The copying thread -/

section Steps

variable (call : Call) (hexdigest : Bytes → Str)

/-- The deadline is over. -/
def Threads.late (s : Threads) : Bool :=
  0 < call.timeoutSeconds ∧ call.timeoutSeconds * 1000000000 < s.now - s.startTime

/-- `cleanup_deadline` has been reached. -/
def Threads.cleanupOver (s : Threads) : Bool :=
  0 < call.timeoutSeconds ∧ call.timeoutSeconds * 1000000000 ≤ s.now - s.startTime

/-- The copying thread puts `chunk` into the queue. -/
def Threads.enqueue (s : Threads) (chunk : Option Bytes) (rest : List Op) : Putting → Threads
  | .check =>
      { s with copier :=
          if s.late call then .leaving .timeoutError
          else .running (.enqueue chunk :: rest) .errors }
  | .errors =>
      { s with copier :=
          if s.hashErrors then .leaving .exception else .running (.enqueue chunk :: rest) .put }
  | .put =>
      if s.queue.length < 2 then
        { s with
          queue := s.queue ++ [chunk]
          files := Op.apply (.enqueue chunk) s.files
          copier := .running rest .check }
      else { s with copier := .running (.enqueue chunk :: rest) .full }
  | .full =>
      { s with copier :=
          if s.hashErrors then .leaving .exception else .running (.enqueue chunk :: rest) .check }

/-- Another operation of the copying thread. -/
def Threads.perform (s : Threads) (op : Op) (rest : List Op) (fault : Option Fault) : Threads :=
  match fault with
  | some fault =>
      { s with files := op.tear fault.kept s.files, copier := .leaving fault.raised }
  | none =>
      { s with
        files := op.apply s.files
        copier := .running rest .check
        worker := if op = .startHash then s.worker.start else s.worker
        startTime := if op = .startHash then s.now else s.startTime }

def Threads.copierStep (s : Threads) (fault : Option Fault) : Threads :=
  match s.copier with
  | .running [] _ => s
  | .running (.join :: _) _ => { s with copier := .joining none }
  | .running (.check :: rest) _ =>
      { s with copier := if s.late call then .leaving .timeoutError else .running rest .check }
  | .running (.enqueue chunk :: rest) putting => s.enqueue call chunk rest putting
  | .running (op :: rest) _ => s.perform op rest fault
  | .leaving raised =>
      let left := leave fault raised s.files
      { s with
        files := { s.files with dst := left.1, isOpen := false }
        copier := .stopping left.2 }
  | .stopping raised => { s with stopEvent := true, copier := .joining (some raised) }
  | .joining copyError =>
      if !s.worker.isAlive || s.cleanupOver call then { s with copier := .judging copyError } else s
  | .judging copyError =>
      let failed := copyError.isNone && s.hashErrors
      { s with copier := .ending (if failed then some .exception else copyError) }
  | .ending copyError =>
      let unfinished := copyError.isNone && s.worker.isAlive
      { s with copier := .returning (if unfinished then some .timeoutError else copyError) }
  | .returning (some raised) => { s with copier := .raised raised }
  | .returning none =>
      { s with copier :=
          match s.checksumHex with
          | [] => .raised .exception
          | checksum :: _ => .returned checksum }
  | .raised _ => s
  | .returned _ => s

/-! ### The worker -/

/-- `_hash_worker`. -/
def Threads.workerStep (s : Threads) (fault : Bool) : Threads :=
  match s.worker with
  | .unstarted => s
  | .starting => { s with worker := if fault then .failing else .getting }
  | .getting =>
      match s.queue with
      | [] => { s with worker := .idle }
      | none :: rest => { s with queue := rest, worker := .finishing }
      | some chunk :: rest => { s with queue := rest, worker := .updating chunk }
  | .idle => { s with worker := if s.stopEvent then .ended else .getting }
  | .updating chunk =>
      if fault then { s with worker := .failing }
      else { s with hashed := s.hashed ++ chunk, worker := .getting }
  | .finishing =>
      if fault then { s with worker := .failing }
      else { s with checksumHex := s.checksumHex ++ [hexdigest s.hashed], worker := .ended }
  | .failing => { s with hashErrors := true, worker := .stopping }
  | .stopping => { s with stopEvent := true, worker := .ended }
  | .ended => s

def step (s : Threads) : Action → Threads
  | .tick nanoseconds => { s with now := s.now + nanoseconds }
  | .copier fault => s.copierStep call fault
  | .worker fault => s.workerStep hexdigest fault

/-- Before the call; `before` is what has been at the destination. -/
def start (now : Int) (before : Option Bytes) : Threads where
  now := now
  startTime := now
  copier := .running call.ops .check
  worker := .unstarted
  files := ⟨before, false, []⟩
  queue := []
  hashed := []
  hashErrors := false
  checksumHex := []
  stopEvent := false

end Steps

/-! ### What has been put into the queue -/

def puts : Op → List (Option Bytes)
  | .enqueue chunk => [chunk]
  | _ => []

/-- What the worker has taken and not hashed. -/
def Worker.hand : Worker → List (Option Bytes)
  | .updating chunk => [some chunk]
  | .finishing => [none]
  | _ => []

/-- The worker has not failed and not ended. -/
def Worker.Hashes : Worker → Prop
  | .failing | .stopping | .ended => False
  | _ => True

/-- What is still to be put into the queue, unless the copying thread has failed. -/
def Copier.ToPut (toPut : List (Option Bytes)) : Copier → Prop
  | .running ops _ => toPut = ops.flatMap puts
  | _ => True

/-- What the copying thread has done to the files. -/
def Copier.Wrote (call : Call) (hexdigest : Bytes → Str) (before : Option Bytes) (files : State) :
    Copier → Prop
  | .running ops _ =>
      ∃ performed, call.ops = performed ++ ops ∧
        files = effect Op.apply performed ⟨before, false, []⟩
  | .joining none | .judging none | .ending none | .returning none => files.dst = some call.content
  | .returned checksum => files.dst = some call.content ∧ checksum = hexdigest call.content
  | _ => True

/-- What the queue is given: the chunks, and then the sentinel. -/
def items (call : Call) : List (Option Bytes) :=
  (chunks call.chunkSize call.content).map some ++ [none]

structure Inv (call : Call) (hexdigest : Bytes → Str) (before : Option Bytes) (s : Threads) : Prop
    where
  wrote : s.copier.Wrote call hexdigest before s.files
  /-- Hashed, in hand, queued and still to be put: no chunk is lost. -/
  hashes : s.worker.Hashes → ∃ (taken : List Bytes) (toPut : List (Option Bytes)),
    taken.map some ++ s.worker.hand ++ s.queue ++ toPut = items call ∧
      s.hashed = taken.flatten ∧ s.copier.ToPut toPut
  digest : ∀ checksum ∈ s.checksumHex, checksum = hexdigest call.content

section Items

variable {call : Call} {before : Option Bytes}

theorem puts_ops (separate : call.separateThread = true) :
    call.ops.flatMap puts = items call := by
  have loop : ∀ chunks, (separateLoop chunks).flatMap puts = chunks.map some := by
    intro chunks
    induction chunks with
    | nil => rfl
    | cons chunk rest ih => simp [separateLoop, puts, ih]
  rw [Call.ops, Call.opened, Call.inside, Call.loop, separate, items]
  cases call.fsyncEnabled <;> simp [loop, puts]

/-- The sentinel comes last. -/
theorem taken_of_sentinel {taken : List Bytes} {tail : List (Option Bytes)}
    (h : taken.map some ++ none :: tail = items call) :
    taken = chunks call.chunkSize call.content ∧ tail = [] := by
  rw [items] at h
  generalize chunks call.chunkSize call.content = all at h
  induction taken generalizing all with
  | nil =>
      cases all with
      | nil => exact ⟨rfl, (List.cons.inj h).2⟩
      | cons chunk rest => cases (List.cons.inj h).1
  | cons chunk taken ih =>
      cases all with
      | nil => cases (List.cons.inj h).1
      | cons first rest =>
          obtain ⟨same, later⟩ := List.cons.inj h
          obtain ⟨rfl, tail⟩ := ih rest later
          cases same
          exact ⟨rfl, tail⟩

/-- When the copying thread joins the worker, everything has been written. -/
theorem dst_of_join {performed rest : List Op} (h : call.ops = performed ++ .join :: rest) :
    (effect Op.apply performed ⟨before, false, []⟩).dst = some call.content := by
  have early : 4 ≤ performed.length := by
    by_contra short
    have : performed.length = 0 ∨ performed.length = 1 ∨ performed.length = 2 ∨
        performed.length = 3 := by omega
    have here : call.ops[performed.length]? = some .join := by rw [h]; simp
    rcases this with n | n | n | n <;> · rw [n] at here; cases here
  obtain ⟨k, n⟩ : ∃ k, performed.length = k + 4 := ⟨performed.length - 4, by omega⟩
  have front : performed = call.ops.take (k + 4) := by rw [h, ← n, List.take_left]
  have here : call.opened[k]? = some .join := by
    have : call.ops[k + 4]? = some .join := by rw [← n, h]; simp
    exact this
  rcases place_of_getElem? here with inside | ⟨-, other⟩ | ⟨rfl, -⟩
  · exact absurd (List.mem_of_getElem? inside) (not_mem_inside (.inr (.inr rfl)))
  · cases other
  · rw [front, effect_closed]
    exact (effect_inside ⟨before, false, []⟩).1

end Items

/-! ### The invariant -/

section Invariant

variable {call : Call} {hexdigest : Bytes → Str} {before : Option Bytes} {s : Threads}

theorem inv_start (separate : call.separateThread = true) (now : Int) :
    Inv call hexdigest before (start call now before) where
  wrote := ⟨[], rfl, rfl⟩
  hashes _ := ⟨[], items call, rfl, rfl, (puts_ops separate).symm⟩
  digest _ mem := absurd mem List.not_mem_nil

/-- The copying thread goes on, and nothing else changes. -/
theorem Inv.goto (h : Inv call hexdigest before s) (copier : Copier)
    (wrote : copier.Wrote call hexdigest before s.files)
    (toPut : ∀ l, s.copier.ToPut l → copier.ToPut l) :
    Inv call hexdigest before { s with copier := copier } where
  wrote := wrote
  hashes hashing := by
    obtain ⟨taken, l, all, hashed, rest⟩ := h.hashes hashing
    exact ⟨taken, l, all, hashed, toPut l rest⟩
  digest := h.digest

theorem Inv.enqueue (h : Inv call hexdigest before s) {chunk : Option Bytes} {rest : List Op}
    {putting : Putting} (here : s.copier = .running (.enqueue chunk :: rest) putting) :
    Inv call hexdigest before (s.enqueue call chunk rest putting) := by
  have stays : ∀ putting', Inv call hexdigest before
      { s with copier := .running (.enqueue chunk :: rest) putting' } := by
    intro putting'
    have wrote : Copier.Wrote call hexdigest before s.files
        (.running (.enqueue chunk :: rest) putting') := by
      have now := h.wrote
      rwa [here] at now
    apply h.goto _ wrote
    rw [here]
    exact fun l toPut => toPut
  have fails : ∀ raised, Inv call hexdigest before { s with copier := .leaving raised } :=
    fun raised => h.goto _ trivial fun _ _ => trivial
  cases putting with
  | check =>
      rw [Threads.enqueue]
      split
      · exact fails _
      · exact stays _
  | errors =>
      rw [Threads.enqueue]
      split
      · exact fails _
      · exact stays _
  | put =>
      rw [Threads.enqueue]
      split
      · have wrote := h.wrote
        rw [here] at wrote
        obtain ⟨performed, all, files⟩ := wrote
        refine ⟨⟨performed ++ [.enqueue chunk], ?_, ?_⟩, ?_, h.digest⟩
        · rw [all, List.append_assoc, List.singleton_append]
        · rw [files, effect, effect, List.foldl_append]
          rfl
        · intro hashing
          obtain ⟨taken, l, all, hashed, toPut⟩ := h.hashes hashing
          rw [here] at toPut
          change l = chunk :: rest.flatMap puts at toPut
          refine ⟨taken, rest.flatMap puts, ?_, hashed, rfl⟩
          rw [← all, toPut]
          simp
      · exact stays _
  | full =>
      rw [Threads.enqueue]
      split
      · exact fails _
      · exact stays _

/-- An operation that puts nothing into the queue. -/
theorem Inv.perform (h : Inv call hexdigest before s) {op : Op} {rest : List Op} {putting : Putting}
    (here : s.copier = .running (op :: rest) putting) (plain : puts op = [])
    (fault : Option Fault) : Inv call hexdigest before (s.perform op rest fault) := by
  cases fault with
  | some fault =>
      refine ⟨trivial, fun hashing => ?_, h.digest⟩
      obtain ⟨taken, l, all, hashed, -⟩ := h.hashes hashing
      exact ⟨taken, l, all, hashed, trivial⟩
  | none =>
      have wrote := h.wrote
      rw [here] at wrote
      obtain ⟨performed, all, files⟩ := wrote
      refine ⟨⟨performed ++ [op], ?_, ?_⟩, fun hashing => ?_, h.digest⟩
      · rw [all, List.append_assoc, List.singleton_append]
      · rw [Threads.perform, files, effect, effect, List.foldl_append]
        rfl
      · -- A worker that starts has nothing in its hand.
        have started : ∀ w : Worker, w.start.Hashes → w.Hashes ∧ w.start.hand = w.hand := by
          intro w hashes
          cases w <;> exact ⟨hashes, rfl⟩
        have same : s.worker.Hashes ∧
            (s.perform op rest none).worker.hand = s.worker.hand := by
          rw [Threads.perform] at hashing ⊢
          dsimp only at hashing ⊢
          split at hashing
          next first =>
            rw [if_pos first]
            exact started _ hashing
          next later =>
            rw [if_neg later]
            exact ⟨hashing, rfl⟩
        obtain ⟨taken, l, all, hashed, toPut⟩ := h.hashes same.1
        rw [here] at toPut
        refine ⟨taken, l, ?_, hashed, ?_⟩
        · rw [same.2]
          exact all
        · change l = puts op ++ rest.flatMap puts at toPut
          rwa [plain] at toPut

theorem Inv.copierStep (h : Inv call hexdigest before s) (fault : Option Fault) :
    Inv call hexdigest before (s.copierStep call fault) := by
  have wrote := h.wrote
  rw [Threads.copierStep]
  cases here : s.copier with
  | running ops putting =>
      cases ops with
      | nil => exact h
      | cons op rest =>
          rw [here] at wrote
          obtain ⟨performed, all, files⟩ := wrote
          cases op with
          | join =>
              refine h.goto (.joining none) ?_ fun _ _ => trivial
              rw [files]
              exact dst_of_join all
          | check =>
              apply h.goto
              · split
                · trivial
                · refine ⟨performed ++ [.check], ?_, ?_⟩
                  · rw [all, List.append_assoc, List.singleton_append]
                  · rw [files, effect, effect, List.foldl_append]
                    rfl
              · rw [here]
                split
                · exact fun _ _ => trivial
                · exact fun _ toPut => toPut
          | enqueue chunk => exact h.enqueue here
          | _ => exact h.perform here rfl fault
  | leaving raised =>
      refine ⟨trivial, fun hashing => ?_, h.digest⟩
      obtain ⟨taken, l, all, hashed, -⟩ := h.hashes hashing
      exact ⟨taken, l, all, hashed, trivial⟩
  | stopping raised =>
      refine ⟨trivial, fun hashing => ?_, h.digest⟩
      obtain ⟨taken, l, all, hashed, -⟩ := h.hashes hashing
      exact ⟨taken, l, all, hashed, trivial⟩
  | joining copyError =>
      rw [here] at wrote
      dsimp only
      split
      · refine h.goto (.judging copyError) ?_ fun _ _ => trivial
        cases copyError with
        | none => exact wrote
        | some raised => trivial
      · exact h
  | judging copyError =>
      rw [here] at wrote
      refine h.goto (.ending _) ?_ fun _ _ => trivial
      cases copyError with
      | none =>
          cases s.hashErrors
          · exact wrote
          · trivial
      | some raised => trivial
  | ending copyError =>
      rw [here] at wrote
      refine h.goto (.returning _) ?_ fun _ _ => trivial
      cases copyError with
      | none =>
          cases s.worker.isAlive
          · exact wrote
          · trivial
      | some raised => trivial
  | returning copyError =>
      rw [here] at wrote
      cases copyError with
      | some raised => exact h.goto (.raised raised) trivial fun _ _ => trivial
      | none =>
          apply h.goto
          · cases digests : s.checksumHex with
            | nil => trivial
            | cons checksum rest =>
                refine ⟨wrote, h.digest checksum ?_⟩
                rw [digests]
                exact List.mem_cons_self
          · cases s.checksumHex
            · exact fun _ _ => trivial
            · exact fun _ _ => trivial
  | raised raised => exact h
  | returned checksum => exact h

/-- The worker goes on without the queue. -/
theorem Inv.work (h : Inv call hexdigest before s) {worker : Worker}
    (hashes : worker.Hashes → s.worker.Hashes ∧ worker.hand = s.worker.hand) :
    Inv call hexdigest before { s with worker := worker } where
  wrote := h.wrote
  hashes hashing := by
    obtain ⟨taken, l, all, hashed, toPut⟩ := h.hashes (hashes hashing).1
    refine ⟨taken, l, ?_, hashed, toPut⟩
    rw [← all]
    exact congrArg (fun hand => taken.map some ++ hand ++ s.queue ++ l) (hashes hashing).2
  digest := h.digest

theorem Inv.workerStep (h : Inv call hexdigest before s) (fault : Bool) :
    Inv call hexdigest before (s.workerStep hexdigest fault) := by
  rw [Threads.workerStep]
  cases worker : s.worker with
  | unstarted => exact h
  | starting =>
      dsimp only
      apply h.work
      rw [worker]
      cases fault
      · exact fun _ => ⟨trivial, rfl⟩
      · exact False.elim
  | getting =>
      dsimp only
      cases queue : s.queue with
      | nil =>
          have idle : Inv call hexdigest before { s with worker := .idle } := by
            apply h.work
            rw [worker]
            exact fun _ => ⟨trivial, rfl⟩
          rwa [queue] at idle
      | cons item rest =>
          have started : s.worker.Hashes := by
            rw [worker]
            trivial
          obtain ⟨taken, l, all, hashed, toPut⟩ := h.hashes started
          rw [worker, queue] at all
          cases item with
          | none =>
              refine ⟨h.wrote, fun _ => ⟨taken, l, ?_, hashed, toPut⟩, h.digest⟩
              simpa [Worker.hand] using all
          | some chunk =>
              refine ⟨h.wrote, fun _ => ⟨taken, l, ?_, hashed, toPut⟩, h.digest⟩
              simpa [Worker.hand] using all
  | idle =>
      dsimp only
      apply h.work
      rw [worker]
      cases s.stopEvent
      · exact fun _ => ⟨trivial, rfl⟩
      · exact False.elim
  | updating chunk =>
      dsimp only
      have started : s.worker.Hashes := by
        rw [worker]
        trivial
      obtain ⟨taken, l, all, hashed, toPut⟩ := h.hashes started
      rw [worker] at all
      split
      · exact ⟨h.wrote, False.elim, h.digest⟩
      · refine ⟨h.wrote, fun _ => ⟨taken ++ [chunk], l, ?_, ?_, toPut⟩, h.digest⟩
        · simpa [Worker.hand] using all
        · simp [hashed]
  | finishing =>
      dsimp only
      have started : s.worker.Hashes := by
        rw [worker]
        trivial
      obtain ⟨taken, l, all, hashed, toPut⟩ := h.hashes started
      rw [worker] at all
      split
      · exact ⟨h.wrote, False.elim, h.digest⟩
      · refine ⟨h.wrote, False.elim, fun checksum mem => ?_⟩
        rcases List.mem_append.mp mem with old | new
        · exact h.digest checksum old
        · have last : taken.map some ++ none :: (s.queue ++ l) = items call := by
            simpa [Worker.hand] using all
          rw [List.mem_singleton.mp new, hashed, (taken_of_sentinel last).1,
            flatten_chunks call.chunkSize_pos]
  | failing => exact ⟨h.wrote, False.elim, h.digest⟩
  | stopping => exact ⟨h.wrote, False.elim, h.digest⟩
  | ended => exact h

theorem Inv.step (h : Inv call hexdigest before s) (a : Action) :
    Inv call hexdigest before (step call hexdigest s a) := by
  cases a with
  | tick nanoseconds => exact ⟨h.wrote, h.hashes, h.digest⟩
  | copier fault => exact h.copierStep fault
  | worker fault => exact h.workerStep fault

theorem inv_run (separate : call.separateThread = true) (now : Int) (actions : List Action) :
    Inv call hexdigest before (exec (step call hexdigest) (start call now before) actions) := by
  have keep : ∀ s a, Inv call hexdigest before s →
      Inv call hexdigest before (step call hexdigest s a) := fun s a h => h.step a
  exact exec_rule keep (inv_start separate now)

end Invariant

/-- A digest that is returned is that of the source, which has been copied as by the loop
of `copy_file`. -/
theorem separate_eq_inline (call : Call) (hexdigest : Bytes → Str) (now : Int)
    (before : Option Bytes) (actions : List Action) (checksum : Str)
    (returned : (exec (step { call with separateThread := true } hexdigest)
        (start { call with separateThread := true } now before) actions).copier =
      .returned checksum) :
    (exec (step { call with separateThread := true } hexdigest)
          (start { call with separateThread := true } now before) actions).files.dst =
        some call.content ∧
      checksum = hexdigest call.content ∧
      ∀ env deletable,
        Calm (Call.raises { call with separateThread := false } env)
            (Call.ops { call with separateThread := false }) →
          Call.copyFile { call with separateThread := false } hexdigest env deletable before =
            ⟨.success checksum, some call.content⟩ := by
  have wrote :=
    (@inv_run { call with separateThread := true } hexdigest before rfl now actions).wrote
  rw [returned] at wrote
  obtain ⟨dst, rfl⟩ := wrote
  exact ⟨dst, rfl, fun env deletable calm => copyFile_of_calm hexdigest calm deletable before⟩

/-- A file of one byte: the copying thread goes ahead until it waits for the worker. -/
theorem separate_eq_inline_oneByte :
    let call : Call := ⟨[7], 1, by decide, 60, false, true⟩
    let hexdigest : Bytes → Str := fun bytes => List.replicate bytes.length '0'
    let run := exec (step { call with separateThread := true } hexdigest)
      (start { call with separateThread := true } 0 none)
      (List.replicate 19 (.copier none) ++ List.replicate 5 (.worker false) ++
        List.replicate 4 (.copier none))
    run.files.dst = some [7] ∧ ['0'] = hexdigest [7] ∧
      ∀ env deletable,
        Calm (Call.raises { call with separateThread := false } env)
            (Call.ops { call with separateThread := false }) →
          Call.copyFile { call with separateThread := false } hexdigest env deletable none =
            ⟨.success ['0'], some [7]⟩ :=
  separate_eq_inline ⟨[7], 1, by decide, 60, false, true⟩ _ 0 none _ ['0'] (by decide)

end Ecube.HashWorker
