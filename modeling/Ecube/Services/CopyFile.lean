import Ecube.Basic.Chunks
import Ecube.Basic.PosixPath
import Ecube.Basic.StraightLine

/-!
Copying one file (`copy_file` and `_copy_file_with_separate_hashing` of
`app/services/copy_engine.py`).

The copying thread is a list of operations, for a source that reads as the given chunks.
Any of them can raise: `TimeoutError` at a deadline or from the operating system, another
exception otherwise. `copy_file` removes the destination after another exception and raises
a `TimeoutError` again before that.

`clean_iff`: when no part of the file is left at the destination after a failure.
-/

namespace Ecube.CopyFile

open Chunks StraightLine

abbrev Bytes := List UInt8

/-! ### The operations -/

/-- One operation of the copying thread. -/
inductive Op where
  | mkdir
  /-- `hashlib.new`, or the start of the hash worker -/
  | startHash
  | openSrc
  | openDst
  /-- compare the clock with the deadline -/
  | check
  | read
  | update (chunk : Bytes)
  | write (chunk : Bytes)
  /-- `_enqueue_hash_chunk`; without a chunk, `_close_hash_worker` -/
  | enqueue (chunk : Option Bytes)
  | report (delta : Nat)
  | sync
  | close
  /-- wait for the hash worker and its digest -/
  | join
  deriving DecidableEq, Repr

structure Call where
  content : Bytes
  chunkSize : Nat
  chunkSize_pos : 0 < chunkSize
  timeoutSeconds : Int
  /-- `copy_hashing_separate_thread_enabled` -/
  separateThread : Bool
  fsyncEnabled : Bool

/-- The loop of `copy_file`, for the chunks that are read. -/
def inlineLoop : List Bytes → List Op
  | [] => [.check, .read]
  | chunk :: rest =>
      .check :: .read :: .check :: .update chunk :: .write chunk :: .report chunk.length ::
        inlineLoop rest

/-- The loop of `_copy_file_with_separate_hashing`. -/
def separateLoop : List Bytes → List Op
  | [] => [.check, .read]
  | chunk :: rest =>
      .check :: .read :: .write chunk :: .enqueue (some chunk) :: .report chunk.length ::
        separateLoop rest

def Call.loop (call : Call) : List Op :=
  (if call.separateThread then separateLoop else inlineLoop) (chunks call.chunkSize call.content)

/-- The operations while the files are open. -/
def Call.inside (call : Call) : List Op :=
  call.loop ++ ((if call.fsyncEnabled then [.sync] else []) ++
    if call.separateThread then [.enqueue none] else [])

/-- The operations after the destination has been opened. -/
def Call.opened (call : Call) : List Op :=
  call.inside ++ .close :: if call.separateThread then [.join] else []

def Call.ops (call : Call) : List Op := .mkdir :: .startHash :: .openSrc :: .openDst :: call.opened

/-! ### What an operation does -/

structure State where
  /-- what is at the destination -/
  dst : Option Bytes
  isOpen : Bool
  /-- what the hash has been given -/
  hashed : Bytes

def Op.apply : Op → State → State
  | .openDst, s => { s with dst := some [], isOpen := true }
  | .update chunk, s => { s with hashed := s.hashed ++ chunk }
  | .write chunk, s => { s with dst := s.dst.map (· ++ chunk) }
  | .enqueue (some chunk), s => { s with hashed := s.hashed ++ chunk }
  | .close, s => { s with isOpen := false }
  | _, s => s

inductive Raised where
  | timeoutError
  | exception
  deriving DecidableEq, Repr

structure Fault where
  raised : Raised
  /-- of the bytes that are written or flushed -/
  kept : Nat

/-- A failed write may have written a part, and a failed close may have lost one. -/
def Op.tear (kept : Nat) : Op → State → State
  | .write chunk, s => { s with dst := s.dst.map (· ++ chunk.take kept) }
  | .close, s => { s with dst := s.dst.map (·.take kept), isOpen := false }
  | _, s => s

/-- What the environment decides; times are in nanoseconds. -/
structure Env where
  /-- `time.monotonic()` at the `i`-th operation -/
  clock : Nat → Int
  startTime : Int
  fault : Nat → Option Fault
  /-- closing the files after another operation has raised -/
  closeFault : Option Fault

def Call.late (call : Call) (env : Env) (i : Nat) : Bool :=
  0 < call.timeoutSeconds ∧ call.timeoutSeconds * 1000000000 < env.clock i - env.startTime

/-- What the `i`-th operation raises. -/
def Call.raises (call : Call) (env : Env) (i : Nat) : Op → Option Fault
  | .check => if call.late env i then some ⟨.timeoutError, 0⟩ else none
  | .enqueue _ =>
      if call.late env i then some ⟨.timeoutError, 0⟩
      else (env.fault i).map fun _ => ⟨.exception, 0⟩
  | _ => env.fault i

/-! ### `copy_file` -/

/-- Leaving the `with` block closes the files; if that raises, it replaces what has been
raised. -/
def leave (closeFault : Option Fault) (raised : Raised) (s : State) : Option Bytes × Raised :=
  if s.isOpen then
    match closeFault with
    | none => (s.dst, raised)
    | some fault => (s.dst.map (·.take fault.kept), fault.raised)
  else (s.dst, raised)

inductive Outcome where
  | success (checksum : Str)
  /-- the result of an exception; the error message is left out -/
  | failure
  /-- a `TimeoutError` is raised -/
  | timeoutError
  deriving DecidableEq, Repr

structure Copied where
  outcome : Outcome
  dst : Option Bytes

/-- `copy_file`, for what has been at the destination. -/
def Call.copyFile (call : Call) (hexdigest : Bytes → Str) (env : Env) (deletable : Bool)
    (before : Option Bytes) : Copied :=
  match run (call.raises env) Op.apply 0 call.ops ⟨before, false, []⟩ with
  | (s, none) => ⟨.success (hexdigest s.hashed), s.dst⟩
  | (s, some (_, op, fault)) =>
      match leave env.closeFault fault.raised (op.tear fault.kept s) with
      | (dst, .timeoutError) => ⟨.timeoutError, dst⟩
      | (dst, .exception) => ⟨.failure, if deletable then none else dst⟩

/-! ### Partial files -/

/-- A file with a part of the content. -/
def Partial (content : Bytes) (dst : Option Bytes) : Prop :=
  ∃ bytes ∈ dst, bytes <+: content ∧ bytes ≠ content

/-- A copy that has not succeeded leaves no part of the file. -/
def Clean (call : Call) (copied : Copied) : Prop :=
  (∀ checksum, copied.outcome ≠ .success checksum) → ¬ Partial call.content copied.dst

def Op.bytes : Op → Bytes
  | .write chunk => chunk
  | _ => []

/-- How much has been written before the `i`-th operation. -/
def Call.written (call : Call) (i : Nat) : Nat := ((call.ops.take i).flatMap Op.bytes).length

/-- How much of the source is at the destination after the `i`-th operation has raised. -/
def Call.kept (call : Call) (env : Env) (i : Nat) (op : Op) (fault : Fault) : Nat :=
  match op with
  | .join => call.written i
  | .close => min fault.kept (call.written i)
  | op =>
      let kept := call.written i + min fault.kept op.bytes.length
      match env.closeFault with
      | none => kept
      | some closing => min closing.kept kept

/-- What the caller sees after the `i`-th operation has raised. -/
def Call.seen (env : Env) (i : Nat) (op : Op) (fault : Fault) : Raised :=
  if i ≤ 3 ∨ op = .close ∨ op = .join then fault.raised
  else (env.closeFault.map Fault.raised).getD fault.raised

/-- No `TimeoutError` ends the copy while a part of the file is at the destination: between
the opening of the destination, which is the operation 3, and the last byte, or before it
when a part has been there before. -/
def Call.NoPartialTimeout (call : Call) (env : Env) (before : Option Bytes) : Prop :=
  ∀ i op fault, Stops (call.raises env) call.ops i op fault →
    Call.seen env i op fault = .timeoutError →
      if i ≤ 3 then ¬ Partial call.content before
      else call.content.length ≤ call.kept env i op fault

section Partials

variable {call : Call} {env : Env} {s : State} {ops : List Op} {op : Op} {content b : Bytes}

theorem partial_iff (part : b <+: content) :
    Partial content (some b) ↔ b.length < content.length := by
  constructor
  · rintro ⟨bytes, found, part, other⟩
    cases found
    apply Nat.lt_of_le_of_ne part.length_le
    exact fun whole => other (part.eq_of_length whole)
  · intro short
    refine ⟨b, rfl, part, fun whole => ?_⟩
    rw [whole] at short
    exact absurd short (Nat.lt_irrefl _)

theorem dst_apply (other : op ≠ .openDst) : (op.apply s).dst = s.dst.map (· ++ op.bytes) := by
  have same : s.dst.map (· ++ []) = s.dst := by simp
  cases op with
  | openDst => exact absurd rfl other
  | write chunk => rfl
  | enqueue chunk => cases chunk <;> exact same.symm
  | _ => exact same.symm

theorem dst_tear (other : op ≠ .close) (kept : Nat) :
    (op.tear kept s).dst = s.dst.map (· ++ op.bytes.take kept) := by
  have same : s.dst.map (· ++ ([] : Bytes).take kept) = s.dst := by simp
  cases op with
  | close => exact absurd rfl other
  | write chunk => rfl
  | _ => exact same.symm

theorem isOpen_apply (opens : op ≠ .openDst) (closes : op ≠ .close) :
    (op.apply s).isOpen = s.isOpen := by
  cases op with
  | openDst => exact absurd rfl opens
  | close => exact absurd rfl closes
  | enqueue chunk => cases chunk <;> rfl
  | _ => rfl

theorem isOpen_tear (other : op ≠ .close) (kept : Nat) : (op.tear kept s).isOpen = s.isOpen := by
  cases op with
  | close => exact absurd rfl other
  | _ => rfl

theorem dst_effect (plain : .openDst ∉ ops) :
    (effect Op.apply ops s).dst = s.dst.map (· ++ ops.flatMap Op.bytes) := by
  induction ops generalizing s with
  | nil => simp [effect]
  | cons op rest ih =>
      rw [List.mem_cons, not_or] at plain
      change (effect Op.apply rest (op.apply s)).dst = _
      rw [ih plain.2, dst_apply (Ne.symm plain.1), Option.map_map, List.flatMap_cons]
      congr 1
      funext bytes
      exact List.append_assoc _ _ _

theorem isOpen_effect (opens : .openDst ∉ ops) (closes : .close ∉ ops) :
    (effect Op.apply ops s).isOpen = s.isOpen := by
  induction ops generalizing s with
  | nil => rfl
  | cons op rest ih =>
      rw [List.mem_cons, not_or] at opens closes
      change (effect Op.apply rest (op.apply s)).isOpen = _
      rw [ih opens.2 closes.2, isOpen_apply (Ne.symm opens.1) (Ne.symm closes.1)]

theorem not_mem_inside (h : op = .openDst ∨ op = .close ∨ op = .join) : op ∉ call.inside := by
  have inline : ∀ chunks, op ∉ inlineLoop chunks := by
    intro chunks
    induction chunks with
    | nil => rcases h with rfl | rfl | rfl <;> simp [inlineLoop]
    | cons chunk rest ih => rcases h with rfl | rfl | rfl <;> simp [inlineLoop, ih]
  have separate : ∀ chunks, op ∉ separateLoop chunks := by
    intro chunks
    induction chunks with
    | nil => rcases h with rfl | rfl | rfl <;> simp [separateLoop]
    | cons chunk rest ih => rcases h with rfl | rfl | rfl <;> simp [separateLoop, ih]
  rw [Call.inside, Call.loop]
  cases call.separateThread <;> cases call.fsyncEnabled <;>
    rcases h with rfl | rfl | rfl <;> simp [inline, separate]

/-- What the operations inside carry, when each chunk is carried once. -/
theorem flatMap_inside {carried : Op → Bytes}
    (rest : ∀ op ∈ [.check, .read, .sync, .enqueue none], carried op = [])
    (report : ∀ delta, carried (.report delta) = [])
    (inline : ∀ chunk, carried (.update chunk) ++ carried (.write chunk) = chunk)
    (separate : ∀ chunk, carried (.write chunk) ++ carried (.enqueue (some chunk)) = chunk) :
    call.inside.flatMap carried = call.content := by
  simp only [List.mem_cons, List.not_mem_nil, or_false, forall_eq_or_imp, forall_eq] at rest
  obtain ⟨check, read, sync, enqueue⟩ := rest
  have inlineLoop_eq : ∀ chunks, (inlineLoop chunks).flatMap carried = chunks.flatten := by
    intro chunks
    induction chunks with
    | nil => simp [inlineLoop, check, read]
    | cons chunk chunks ih =>
        simp [inlineLoop, check, read, report, ih, ← List.append_assoc, inline]
  have separateLoop_eq : ∀ chunks, (separateLoop chunks).flatMap carried = chunks.flatten := by
    intro chunks
    induction chunks with
    | nil => simp [separateLoop, check, read]
    | cons chunk chunks ih =>
        simp [separateLoop, check, read, report, ih, ← List.append_assoc, separate]
  have whole := flatten_chunks call.chunkSize_pos call.content
  rw [Call.inside, Call.loop]
  cases call.separateThread <;> cases call.fsyncEnabled <;>
    simp [inlineLoop_eq, separateLoop_eq, whole, sync, enqueue]

theorem bytes_inside : call.inside.flatMap Op.bytes = call.content := by
  apply flatMap_inside
  · simp [Op.bytes]
  · exact fun _ => rfl
  · exact fun _ => rfl
  · exact List.append_nil

/-- Before the destination is opened nothing has happened to it. -/
theorem effect_early {i : Nat} (early : i ≤ 3) (s : State) :
    effect Op.apply (call.ops.take i) s = s := by
  have : i = 0 ∨ i = 1 ∨ i = 2 ∨ i = 3 := by omega
  rcases this with rfl | rfl | rfl | rfl <;> rfl

theorem effect_late (k : Nat) (s : State) :
    effect Op.apply (call.ops.take (k + 4)) s =
      effect Op.apply (call.opened.take k) { s with dst := some [], isOpen := true } := rfl

theorem written_late (k : Nat) :
    call.written (k + 4) = ((call.opened.take k).flatMap Op.bytes).length := rfl

theorem kept_inside (i : Nat) (fault : Fault) (plain : op ≠ .close ∧ op ≠ .join) :
    call.kept env i op fault =
      match env.closeFault with
      | none => call.written i + min fault.kept op.bytes.length
      | some closing => min closing.kept (call.written i + min fault.kept op.bytes.length) := by
  cases op with
  | close => exact absurd rfl plain.1
  | join => exact absurd rfl plain.2
  | _ => rfl

/-- Where an operation is found. -/
theorem place_of_getElem? {k : Nat}
    (here : call.opened[k]? = some op) :
    call.inside[k]? = some op ∨ k = call.inside.length ∧ op = .close ∨
      k = call.inside.length + 1 ∧ op = .join := by
  rw [Call.opened, List.getElem?_append] at here
  split at here
  · exact .inl here
  next after =>
    obtain ⟨j, rfl⟩ := Nat.exists_eq_add_of_le (Nat.le_of_not_lt after)
    rw [Nat.add_sub_cancel_left] at here
    cases j with
    | zero =>
        cases here
        exact .inr (.inl ⟨rfl, rfl⟩)
    | succ j =>
        rw [List.getElem?_cons_succ] at here
        split at here
        · cases j with
          | zero =>
              cases here
              exact .inr (.inr ⟨rfl, rfl⟩)
          | succ j => cases here
        · cases here

theorem leave_inside {k : Nat} (here : call.inside[k]? = some op) (fault : Fault) (s : State) :
    leave env.closeFault fault.raised
        (op.tear fault.kept (effect Op.apply (call.ops.take (k + 4)) s)) =
      (some (call.content.take (call.kept env (k + 4) op fault)),
        Call.seen env (k + 4) op fault) := by
  have mem := List.mem_of_getElem? here
  have closes : op ≠ .close := fun h => not_mem_inside (.inr (.inl h)) mem
  have joins : op ≠ .join := fun h => not_mem_inside (.inr (.inr h)) mem
  obtain ⟨inside, at_⟩ := List.getElem?_eq_some_iff.mp here
  have front : call.opened.take k = call.inside.take k :=
    List.take_append_of_le_length (Nat.le_of_lt inside)
  have plain : ∀ other, (other = .openDst ∨ other = .close ∨ other = .join) →
      other ∉ call.inside.take k := fun other h found =>
    not_mem_inside h (List.mem_of_mem_take found)
  -- What has been written, and what is being written, is read from the source in order.
  have part : (call.inside.take k).flatMap Op.bytes ++ op.bytes <+: call.content := by
    have next : call.inside.take (k + 1) = call.inside.take k ++ [op] := by
      rw [List.take_succ_eq_append_getElem inside, at_]
    have := (List.take_prefix (k + 1) call.inside).flatMap Op.bytes
    rwa [next, List.flatMap_append, List.flatMap_singleton, bytes_inside] at this
  have torn : (call.inside.take k).flatMap Op.bytes ++ op.bytes.take fault.kept =
      call.content.take (call.written (k + 4) + min fault.kept op.bytes.length) := by
    have shorter := (List.prefix_append_right_inj ((call.inside.take k).flatMap Op.bytes)).mpr
      (List.take_prefix fault.kept op.bytes)
    rw [List.prefix_iff_eq_take.mp (shorter.trans part), written_late, front, List.length_append,
      List.length_take]
  rw [effect_late, front, leave.eq_def, isOpen_tear closes,
    isOpen_effect (plain _ (.inl rfl)) (plain _ (.inr (.inl rfl))), if_pos rfl, dst_tear closes,
    dst_effect (plain _ (.inl rfl)), kept_inside _ _ ⟨closes, joins⟩, Call.seen, if_neg (by
      rintro (early | rfl | rfl)
      · omega
      · exact closes rfl
      · exact joins rfl)]
  cases env.closeFault with
  | none => simp [torn]
  | some closing => simp [torn, List.take_take]

/-- When the files are closed, everything has been written. -/
theorem effect_inside (s : State) :
    (effect Op.apply call.inside { s with dst := some [], isOpen := true }).dst =
        some call.content ∧
      (effect Op.apply call.inside { s with dst := some [], isOpen := true }).isOpen = true := by
  rw [dst_effect (not_mem_inside (.inl rfl)), bytes_inside,
    isOpen_effect (not_mem_inside (.inl rfl)) (not_mem_inside (.inr (.inl rfl)))]
  exact ⟨rfl, rfl⟩

theorem take_closed : call.opened.take (call.inside.length + 1) = call.inside ++ [.close] := by
  rw [Call.opened, List.take_length_add_append]
  rfl

theorem effect_closed (s : State) :
    effect Op.apply (call.ops.take (call.inside.length + 1 + 4)) s =
      { effect Op.apply call.inside { s with dst := some [], isOpen := true } with
        isOpen := false } := by
  rw [effect_late, take_closed, effect, List.foldl_append]
  rfl

theorem leave_late {k : Nat} (here : call.opened[k]? = some op) (fault : Fault) (s : State) :
    leave env.closeFault fault.raised
        (op.tear fault.kept (effect Op.apply (call.ops.take (k + 4)) s)) =
      (some (call.content.take (call.kept env (k + 4) op fault)),
        Call.seen env (k + 4) op fault) := by
  obtain ⟨dst, isOpen⟩ := @effect_inside call s
  rcases place_of_getElem? here with here | ⟨rfl, rfl⟩ | ⟨rfl, rfl⟩
  · exact leave_inside here fault s
  · have front : call.opened.take call.inside.length = call.inside := List.take_left
    rw [effect_late, front, leave.eq_def, Op.tear, if_neg Bool.false_ne_true, dst, Call.kept,
      written_late, front, bytes_inside, Call.seen, if_pos (.inr (.inl rfl)), ← List.take_take,
      List.take_length]
    rfl
  · have kept : call.kept env (call.inside.length + 1 + 4) .join fault = call.content.length := by
      change call.written (call.inside.length + 1 + 4) = _
      rw [written_late, take_closed, List.flatMap_append, bytes_inside]
      exact congrArg List.length (List.append_nil _)
    rw [effect_closed, kept, List.take_length, Call.seen, if_pos (.inr (.inr rfl)), ← dst]
    rfl

end Partials

section CopyFile

variable {call : Call} {hexdigest : Bytes → Str} {env : Env} {before : Option Bytes}

def Op.given : Op → Bytes
  | .update chunk => chunk
  | .enqueue (some chunk) => chunk
  | _ => []

theorem hashed_effect (ops : List Op) (s : State) :
    (effect Op.apply ops s).hashed = s.hashed ++ ops.flatMap Op.given := by
  have first : ∀ (op : Op) (s : State), (op.apply s).hashed = s.hashed ++ op.given := by
    intro op s
    cases op with
    | enqueue chunk => cases chunk <;> simp [Op.apply, Op.given]
    | _ => simp [Op.apply, Op.given]
  induction ops generalizing s with
  | nil => exact (List.append_nil _).symm
  | cons op rest ih =>
      change (effect Op.apply rest (op.apply s)).hashed = _
      rw [ih, first, List.flatMap_cons, List.append_assoc]

theorem given_inside : call.inside.flatMap Op.given = call.content := by
  apply flatMap_inside
  · simp [Op.given]
  · exact fun _ => rfl
  · exact List.append_nil
  · exact fun _ => rfl

/-- When nothing fails, the file is copied and its digest returned. -/
theorem copyFile_of_calm (hexdigest : Bytes → Str) (calm : Calm (call.raises env) call.ops)
    (deletable : Bool) (before : Option Bytes) :
    call.copyFile hexdigest env deletable before =
      ⟨.success (hexdigest call.content), some call.content⟩ := by
  have all : ∀ s, effect Op.apply call.ops s =
      effect Op.apply (call.ops.take (call.inside.length + 1 + 4)) s := by
    have split : call.opened =
        call.inside ++ [.close] ++ if call.separateThread then [.join] else [] := by
      rw [Call.opened, List.append_assoc, List.singleton_append]
    intro s
    rw [effect_late, take_closed]
    change effect Op.apply call.opened { s with dst := some [], isOpen := true } = _
    rw [split, effect, List.foldl_append]
    cases call.separateThread <;> rfl
  obtain ⟨dst, -⟩ := @effect_inside call ⟨before, false, []⟩
  rw [Call.copyFile, run_of_calm calm, all, effect_closed]
  dsimp only
  rw [dst, hashed_effect, given_inside]
  rfl

theorem clean_of_calm (calm : Calm (call.raises env) call.ops) :
    Clean call (call.copyFile hexdigest env true before) := by
  intro failed
  rw [copyFile_of_calm hexdigest calm] at failed
  exact absurd rfl (failed _)

/-- What is left when the `i`-th operation raises. -/
theorem clean_of_stops {i : Nat} {op : Op} {fault : Fault}
    (stops : Stops (call.raises env) call.ops i op fault) :
    Clean call (call.copyFile hexdigest env true before) ↔
      (Call.seen env i op fault = .timeoutError →
        if i ≤ 3 then ¬ Partial call.content before
        else call.content.length ≤ call.kept env i op fault) := by
  have ends : leave env.closeFault fault.raised (op.tear fault.kept
        (effect Op.apply (call.ops.take i) ⟨before, false, []⟩)) =
      (if i ≤ 3 then before else some (call.content.take (call.kept env i op fault)),
        Call.seen env i op fault) := by
    by_cases early : i ≤ 3
    · rw [if_pos early, effect_early early, Call.seen, if_pos (.inl early)]
      have here := stops.here
      have : i = 0 ∨ i = 1 ∨ i = 2 ∨ i = 3 := by omega
      rcases this with rfl | rfl | rfl | rfl <;> · cases here; rfl
    · obtain ⟨k, rfl⟩ : ∃ k, i = k + 4 := ⟨i - 4, by omega⟩
      rw [if_neg early]
      exact leave_late stops.here fault _
  rw [Clean, Call.copyFile, run_of_stops stops]
  dsimp only
  rw [ends]
  cases Call.seen env i op fault with
  | exception => simp [Partial]
  | timeoutError =>
      simp only [ne_eq, reduceCtorEq, not_false_eq_true, implies_true, true_implies]
      split
      · rfl
      · rw [partial_iff (List.take_prefix _ _), List.length_take]
        omega

end CopyFile

/-- A failed copy is clean just if no `TimeoutError` finds a part of the file. -/
theorem clean_iff (call : Call) (hexdigest : Bytes → Str) (env : Env) (before : Option Bytes) :
    Clean call (call.copyFile hexdigest env true before) ↔ call.NoPartialTimeout env before := by
  rcases calm_or_stops (call.raises env) call.ops with calm | ⟨i, op, fault, stops⟩
  · refine iff_of_true (clean_of_calm calm) fun i op fault stops => ?_
    have quiet := calm i op stops.here
    rw [stops.raised] at quiet
    cases quiet
  · rw [clean_of_stops stops]
    constructor
    · intro h j other raised first
      obtain ⟨rfl, rfl, rfl⟩ := first.unique stops
      exact h
    · exact fun h => h i op fault stops

/-- The deadline is over when the first byte is to be read, and the empty destination stays. -/
theorem not_clean :
    ¬ Clean ⟨[0], 4194304, by decide, 1, false, false⟩
        (Call.copyFile ⟨[0], 4194304, by decide, 1, false, false⟩ (fun _ => [])
          ⟨fun i => if i < 4 then 0 else 2000000000, 0, fun _ => none, none⟩ true none) := by
  intro clean
  apply clean
  · intro checksum
    exact nofun
  · exact ⟨[], rfl, List.nil_prefix, by decide⟩

end Ecube.CopyFile
