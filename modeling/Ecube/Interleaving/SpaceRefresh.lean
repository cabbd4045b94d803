import Ecube.Basic.Exclusion
import Ecube.Basic.Transition

/-!
The refresh of a drive's available space (`app/services/drive_space_service.py`).

A request marks the drive as pending and hands it to a worker; the worker probes the
drive, stores the value and removes the mark. A request that finds the mark returns
at once: it is coalesced with the refresh in flight. If that one has probed before,
the stored value is older than the request.

One drive is modelled; what is done for others touches neither its mark nor its row.
Submissions, probes and saves succeed, and the drive stays mounted.
-/

namespace Ecube.SpaceRefresh

open Exclusion Transition

/-! ### Requests and workers -/

/-- Where the refresh of an accepted request stands. -/
inductive Stage where
  | submitting
  | queued
  /-- the row is locked: before the probe -/
  | locked
  /-- the time of the probe -/
  | probed (time : Nat)
  | saved
  | finished
  deriving DecidableEq, Repr

/-- The value is still to be probed or stored. -/
def Stage.waiting : Stage → Bool
  | .submitting | .queued | .locked | .probed _ => true
  | .saved | .finished => false

/-- The drive is probed, and the mark still stands. -/
def Stage.window : Stage → Bool
  | .probed _ | .saved => true
  | .submitting | .queued | .locked | .finished => false

/-- `pending`: the drive is in `_pending_ids`. Of the stored value the time of its
probe is kept, and of the requests the times of the last one and of the last one that
was not coalesced. -/
structure State where
  clock : Nat
  lastRequest : Option Nat
  lastAccepted : Option Nat
  stored : Option Nat
  pending : Bool
  workers : List Stage
  deriving DecidableEq, Repr

inductive Action where
  | request
  | submit (k : Nat)
  | lock (k : Nat)
  | probe (k : Nat)
  | save (k : Nat)
  | finish (k : Nat)
  deriving DecidableEq, Repr

namespace State

def tick (s : State) : State := { s with clock := s.clock + 1 }

/-- Worker `k` goes on, if it stands at `stage`. -/
def advance (s : State) (k : Nat) (stage next : Stage) : State :=
  if s.workers[k]? = some stage then { s with workers := s.workers.set k next } else s

def request (s : State) : State :=
  if s.pending then { s with lastRequest := some s.clock }
  else { s with
    lastRequest := some s.clock
    lastAccepted := some s.clock
    pending := true
    workers := s.workers ++ [.submitting] }

/-- A value that has not changed is not written again. -/
def save (s : State) (k : Nat) : State :=
  match s.workers[k]? with
  | some (.probed time) => { s with stored := some time, workers := s.workers.set k .saved }
  | _ => s

def finish (s : State) (k : Nat) : State :=
  if s.workers[k]? = some .saved then
    { s with pending := false, workers := s.workers.set k .finished }
  else s

end State

def act (s : State) : Action → State
  | .request => s.request
  | .submit k => s.advance k .submitting .queued
  | .lock k => s.advance k .queued .locked
  | .probe k => s.advance k .locked (.probed s.clock)
  | .save k => s.save k
  | .finish k => s.finish k

def step (s : State) (a : Action) : State := (act s a).tick

def initial : State := ⟨0, none, none, none, false, []⟩

/-! ### Fresh values -/

/-- The stored value was probed after the time. -/
def StoredAfter (s : State) (time : Nat) : Prop := ∃ t, s.stored = some t ∧ time < t

/-- The value comes from a probe taken after the last request. -/
def Fresh (s : State) : Prop := ∀ r, s.lastRequest = some r → StoredAfter s r

/-- All requests have returned, and all workers have finished. -/
def Quiet (s : State) : Prop := ∀ w ∈ s.workers, w = .finished

instance (s : State) : Decidable (Quiet s) :=
  inferInstanceAs (Decidable (∀ w ∈ s.workers, w = .finished))

/-- A worker has probed the drive and not yet removed the mark. -/
def InWindow (s : State) : Prop := ∃ w ∈ s.workers, w.window = true

/-- The value that is stored in the end was, or will be, probed after the time. -/
structure Ahead (time : Nat) (s : State) : Prop where
  past : time < s.clock
  probed : ∀ t, .probed t ∈ s.workers → time < t
  saved : .saved ∈ s.workers → StoredAfter s time
  served : (∃ w ∈ s.workers, w.waiting = true) ∨ StoredAfter s time

/-- Nobody is going to probe any more, and all probes were taken before the time. -/
structure Behind (time : Nat) (s : State) : Prop where
  workers : ∀ w ∈ s.workers, w = .finished ∨ w = .saved ∨ ∃ t, w = .probed t ∧ t < time
  stored : ∀ t, s.stored = some t → t < time

/-- The mark as a guard: it excludes further workers. -/
def markGuard (s : State) : Guard Nat :=
  ⟨s.pending = false, fun k => ∃ w, s.workers[k]? = some w ∧ w ≠ .finished⟩

structure RefreshInv (s : State) : Prop where
  exclusive : Exclusive (markGuard s)
  marked : s.pending = true → ∃ k, (markGuard s).owner k
  times : ∀ t, .probed t ∈ s.workers → t < s.clock
  stored : ∀ t, s.stored = some t → t < s.clock
  accepted : ∀ time, s.lastAccepted = some time → Ahead time s

section Workers

variable {s : State} {k : Nat} {stage next : Stage} {time : Nat}

/-- Only the worker at the place is replaced. -/
theorem mem_set_or_eq {l : List Stage} {w : Stage} (at_ : l[k]? = some stage) (mem : w ∈ l) :
    w ∈ l.set k next ∨ w = stage := by
  obtain ⟨i, place⟩ := List.mem_iff_getElem?.mp mem
  by_cases same : k = i
  · right
    rw [← same, at_] at place
    exact (Option.some.inj place).symm
  · left
    apply List.mem_iff_getElem?.mpr
    exact ⟨i, by rw [List.getElem?_set_ne same, place]⟩

/-- Whoever is not finished after a worker went on was not finished before. -/
theorem owner_set (at_ : s.workers[k]? = some stage) (unfinished : stage ≠ .finished) {i : Nat}
    (owner : ∃ w, (s.workers.set k next)[i]? = some w ∧ w ≠ .finished) :
    (markGuard s).owner i := by
  obtain ⟨w, place, here⟩ := owner
  by_cases same : k = i
  · exact same ▸ ⟨stage, at_, unfinished⟩
  · rw [List.getElem?_set_ne same] at place
    exact ⟨w, place, here⟩

/-- With a worker in the window all others have finished. -/
theorem RefreshInv.behind (h : RefreshInv s) (window : InWindow s) :
    s.pending = true ∧ Behind s.clock s := by
  obtain ⟨w, mem, open_⟩ := window
  obtain ⟨k, place⟩ := List.mem_iff_getElem?.mp mem
  have owner : (markGuard s).owner k := ⟨w, place, by rintro rfl; simp [Stage.window] at open_⟩
  constructor
  · have held := h.exclusive.held k owner
    exact eq_true_of_ne_false held
  constructor
  · intro other later
    by_cases finished : other = .finished
    · exact .inl finished
    · right
      obtain ⟨i, there⟩ := List.mem_iff_getElem?.mp later
      have same := h.exclusive.one i k ⟨other, there, finished⟩ owner
      rw [same, place] at there
      cases Option.some.inj there
      cases w with
      | saved => exact .inl rfl
      | probed t => exact .inr ⟨t, rfl, h.times t mem⟩
      | submitting | queued | locked | finished => simp [Stage.window] at open_
  · exact h.stored

/-- Outside the window the mark stands for a worker that is still to probe. -/
theorem RefreshInv.waits (h : RefreshInv s) (pending : s.pending = true) (outside : ¬ InWindow s) :
    ∃ w ∈ s.workers, w.waiting = true := by
  obtain ⟨k, w, place, unfinished⟩ := h.marked pending
  have mem := List.mem_of_getElem? place
  refine ⟨w, mem, ?_⟩
  cases w with
  | submitting | queued | locked | probed => rfl
  | saved => exact absurd ⟨_, mem, rfl⟩ outside
  | finished => exact absurd rfl unfinished

end Workers

/-! ### Steps -/

section Steps

variable {s : State} {k : Nat} {stage next : Stage} {time : Nat}

theorem Ahead.tick (h : Ahead time s) : Ahead time s.tick where
  past := Nat.lt_succ_of_lt h.past
  probed := h.probed
  saved := h.saved
  served := h.served

/-- A worker goes on, and nothing is stored. -/
theorem Ahead.set (h : Ahead time s) (at_ : s.workers[k]? = some stage)
    (probed : ∀ t, next = .probed t → time < t) (saved : next ≠ .saved)
    (waits : stage.waiting = true → next.waiting = true) :
    Ahead time { s with workers := s.workers.set k next } where
  past := h.past
  probed t mem := by
    rcases List.mem_or_eq_of_mem_set mem with old | new
    · exact h.probed t old
    · exact probed t new.symm
  saved mem := by
    rcases List.mem_or_eq_of_mem_set mem with old | new
    · exact h.saved old
    · exact absurd new.symm saved
  served := by
    rcases h.served with ⟨w, mem, waiting⟩ | after
    · left
      rcases @mem_set_or_eq _ _ next _ _ at_ mem with other | rfl
      · exact ⟨w, other, waiting⟩
      · have bound := (List.getElem?_eq_some_iff.mp at_).1
        exact ⟨next, List.mem_set bound next, waits waiting⟩
    · exact .inr after

theorem Ahead.advance (h : Ahead time s) (probed : ∀ t, next = .probed t → time < t)
    (saved : next ≠ .saved) (waiting : next.waiting = true) :
    Ahead time (s.advance k stage next) := by
  rw [State.advance]
  split
  next at_ => exact h.set at_ probed saved fun _ => waiting
  next => exact h

theorem Ahead.step (h : Ahead time s) (a : Action) : Ahead time (step s a) := by
  apply Ahead.tick
  cases a with
  | request =>
      simp only [act, State.request]
      split
      · exact ⟨h.past, h.probed, h.saved, h.served⟩
      · constructor
        · exact h.past
        · intro t mem
          exact h.probed t (by simpa using mem)
        · intro mem
          exact h.saved (by simpa using mem)
        · exact .inl ⟨.submitting, by simp, rfl⟩
  | submit k => exact h.advance nofun nofun rfl
  | lock k => exact h.advance nofun nofun rfl
  | probe k =>
      have probed : ∀ t, Stage.probed s.clock = .probed t → time < t := by
        rintro t ⟨⟩
        exact h.past
      exact h.advance probed nofun rfl
  | save k =>
      simp only [act, State.save]
      split
      next t at_ =>
        have after := h.probed t (List.mem_of_getElem? at_)
        constructor
        · exact h.past
        · intro t' mem
          rcases List.mem_or_eq_of_mem_set mem with old | new
          · exact h.probed t' old
          · exact absurd new nofun
        · exact fun _ => ⟨t, rfl, after⟩
        · exact .inr ⟨t, rfl, after⟩
      next => exact h
  | finish k =>
      simp only [act, State.finish]
      split
      next at_ =>
        have set : Ahead time { s with workers := s.workers.set k .finished } :=
          h.set at_ nofun nofun nofun
        exact ⟨set.past, set.probed, set.saved, set.served⟩
      next => exact h

theorem Behind.tick (h : Behind time s) : Behind time s.tick where
  workers := h.workers
  stored := h.stored

/-- Whoever has not probed yet is not among the workers. -/
theorem Behind.advance (h : Behind time s) (outside : stage.window = false)
    (unfinished : stage ≠ .finished) : Behind time (s.advance k stage next) := by
  rw [State.advance, if_neg]
  · exact h
  · intro at_
    rcases h.workers stage (List.mem_of_getElem? at_) with rfl | rfl | ⟨t, rfl, -⟩
    · exact unfinished rfl
    · exact absurd outside nofun
    · exact absurd outside nofun

theorem Behind.step (h : Behind time s) {a : Action} (later : a ≠ .request) :
    Behind time (step s a) := by
  apply Behind.tick
  cases a with
  | request => exact absurd rfl later
  | submit k => exact h.advance rfl nofun
  | lock k => exact h.advance rfl nofun
  | probe k => exact h.advance rfl nofun
  | save k =>
      simp only [act, State.save]
      split
      next t at_ =>
        constructor
        · intro w mem
          rcases List.mem_or_eq_of_mem_set mem with old | rfl
          · exact h.workers w old
          · exact .inr (.inl rfl)
        · rintro _ ⟨⟩
          obtain finished | saved | ⟨_, ⟨⟩, before⟩ := h.workers _ (List.mem_of_getElem? at_)
          · exact absurd finished nofun
          · exact absurd saved nofun
          · exact before
      next => exact h
  | finish k =>
      simp only [act, State.finish]
      split
      · constructor
        · intro w mem
          rcases List.mem_or_eq_of_mem_set mem with old | rfl
          · exact h.workers w old
          · exact .inl rfl
        · exact h.stored
      · exact h

/-! ### Runs -/

theorem RefreshInv.request (h : RefreshInv s) : RefreshInv s.request.tick := by
  by_cases pending : s.pending = true
  · have same : s.request = { s with lastRequest := some s.clock } := if_pos pending
    rw [same]
    constructor
    · exact h.exclusive
    · exact h.marked
    · intro t mem
      exact Nat.lt_succ_of_lt (h.times t mem)
    · intro t stored
      exact Nat.lt_succ_of_lt (h.stored t stored)
    · intro time accepted
      have ahead := h.accepted time accepted
      exact ⟨Nat.lt_succ_of_lt ahead.past, ahead.probed, ahead.saved, ahead.served⟩
  · have free : s.pending = false := eq_false_of_ne_true pending
    -- Nobody owned the mark: the new worker is the only unfinished one.
    have new : ∀ w ∈ s.workers ++ [.submitting], w = .finished ∨ w = .submitting := by
      intro w mem
      rcases List.mem_append.mp mem with old | last
      · left
        by_contra unfinished
        obtain ⟨k, place⟩ := List.mem_iff_getElem?.mp old
        exact h.exclusive.held k ⟨w, place, unfinished⟩ free
      · exact .inr (List.mem_singleton.mp last)
    have same : s.request = { s with
        lastRequest := some s.clock
        lastAccepted := some s.clock
        pending := true
        workers := s.workers ++ [.submitting] } := if_neg pending
    rw [same]
    constructor
    · apply h.exclusive.change
      refine .take s.workers.length free ?_ (by simp [markGuard, State.tick])
      rintro i ⟨w, place, unfinished⟩
      by_cases old : i < s.workers.length
      · left
        rw [State.tick, List.getElem?_append_left old] at place
        exact ⟨w, place, unfinished⟩
      · right
        have bound := (List.getElem?_eq_some_iff.mp place).1
        simp only [State.tick, List.length_append, List.length_singleton] at bound
        omega
    · intro _
      exact ⟨s.workers.length, .submitting, by simp [State.tick], by decide⟩
    · intro t mem
      exact absurd (new _ mem) (by simp)
    · intro t stored
      exact Nat.lt_succ_of_lt (h.stored t stored)
    · rintro _ ⟨⟩
      constructor
      · exact Nat.lt_succ_self _
      · intro t mem
        exact absurd (new _ mem) (by simp)
      · intro mem
        exact absurd (new _ mem) (by simp)
      · exact .inl ⟨.submitting, by simp [State.tick], rfl⟩

/-- What is left to show when a worker goes on. -/
theorem RefreshInv.of_change {t : State} (h : RefreshInv s) (a : Action) (eq : step s a = t.tick)
    (clock : t.clock = s.clock) (accepted : t.lastAccepted = s.lastAccepted)
    (guard : Exclusive (markGuard t) ∧ (t.pending = true → ∃ k, (markGuard t).owner k))
    (times : ∀ time, .probed time ∈ t.workers → time ≤ s.clock)
    (stored : ∀ time, t.stored = some time → time < s.clock) : RefreshInv (step s a) := by
  have ahead := fun time (mine : s.lastAccepted = some time) => (h.accepted time mine).step a
  rw [eq] at ahead ⊢
  constructor
  · exact guard.1
  · exact guard.2
  · intro time mem
    change time < t.clock + 1
    rw [clock]
    exact Nat.lt_succ_of_le (times time mem)
  · intro time mem
    change time < t.clock + 1
    rw [clock]
    exact Nat.lt_succ_of_lt (stored time mem)
  · intro time mine
    exact ahead time (accepted ▸ mine)

/-- A worker that goes on keeps the mark, as long as it does not finish. -/
theorem RefreshInv.guard_set (h : RefreshInv s) (at_ : s.workers[k]? = some stage)
    (unfinished : stage ≠ .finished) (next_ : next ≠ .finished) {t : State}
    (workers : t.workers = s.workers.set k next) (pending : t.pending = s.pending) :
    Exclusive (markGuard t) ∧ (t.pending = true → ∃ k, (markGuard t).owner k) := by
  constructor
  · apply h.exclusive.change
    apply Change.keep
    · intro i owner
      rw [markGuard, workers] at owner
      exact owner_set at_ unfinished owner
    · intro free
      exact pending.symm.trans free
  · intro _
    refine ⟨k, next, ?_, next_⟩
    rw [workers, List.getElem?_set_self (List.getElem?_eq_some_iff.mp at_).1]

theorem RefreshInv.advance (h : RefreshInv s) (a : Action)
    (eq : step s a = (s.advance k stage next).tick) (unfinished : stage ≠ .finished)
    (next_ : next ≠ .finished) (now : ∀ t, next = .probed t → t ≤ s.clock) :
    RefreshInv (step s a) := by
  rw [State.advance] at eq
  split at eq
  next at_ =>
    refine h.of_change a eq rfl rfl (h.guard_set at_ unfinished next_ rfl rfl) ?_ h.stored
    intro time mem
    rcases List.mem_or_eq_of_mem_set mem with old | new
    · exact Nat.le_of_lt (h.times time old)
    · exact now time new.symm
  next =>
    exact h.of_change a eq rfl rfl ⟨h.exclusive, h.marked⟩
      (fun time mem => Nat.le_of_lt (h.times time mem)) h.stored

theorem refreshInv_step (h : RefreshInv s) (a : Action) : RefreshInv (step s a) := by
  cases a with
  | request => exact h.request
  | submit k => exact h.advance _ rfl nofun nofun nofun
  | lock k => exact h.advance _ rfl nofun nofun nofun
  | probe k =>
      have now : ∀ t, Stage.probed s.clock = .probed t → t ≤ s.clock := by
        rintro t ⟨⟩
        exact Nat.le_refl _
      exact h.advance _ rfl nofun nofun now
  | save k =>
      have eq : step s (.save k) = (s.save k).tick := rfl
      rw [State.save] at eq
      split at eq
      next t at_ =>
        have saved : Stage.saved ≠ .finished := nofun
        refine h.of_change _ eq rfl rfl (h.guard_set at_ nofun saved rfl rfl) ?_ ?_
        · intro time mem
          rcases List.mem_or_eq_of_mem_set mem with old | new
          · exact Nat.le_of_lt (h.times time old)
          · exact absurd new nofun
        · rintro _ ⟨⟩
          exact h.times t (List.mem_of_getElem? at_)
      next =>
        exact h.of_change _ eq rfl rfl ⟨h.exclusive, h.marked⟩
          (fun time mem => Nat.le_of_lt (h.times time mem)) h.stored
  | finish k =>
      have eq : step s (.finish k) = (s.finish k).tick := rfl
      rw [State.finish] at eq
      split at eq
      next at_ =>
        refine h.of_change _ eq rfl rfl ⟨?_, nofun⟩ ?_ h.stored
        · apply h.exclusive.change
          refine .leave k ⟨.saved, at_, nofun⟩ ?_
          intro i owner
          refine ⟨owner_set at_ nofun owner, ?_⟩
          rintro rfl
          obtain ⟨w, place, unfinished⟩ := owner
          have bound := (List.getElem?_eq_some_iff.mp at_).1
          rw [List.getElem?_set_self bound] at place
          exact unfinished (Option.some.inj place).symm
        · intro time mem
          rcases List.mem_or_eq_of_mem_set mem with old | new
          · exact Nat.le_of_lt (h.times time old)
          · exact absurd new nofun
      next =>
        exact h.of_change _ eq rfl rfl ⟨h.exclusive, h.marked⟩
          (fun time mem => Nat.le_of_lt (h.times time mem)) h.stored

theorem refreshInv_initial : RefreshInv initial := by
  constructor
  · apply Exclusive.of_idle
    rintro i ⟨w, place, -⟩
    exact absurd place nofun
  · exact nofun
  · exact nofun
  · exact nofun
  · exact nofun

/-- A request in the window is coalesced: what is probed was probed before it. -/
theorem RefreshInv.behind_request (h : RefreshInv s) (window : InWindow s) :
    Behind s.clock (step s .request) := by
  obtain ⟨pending, behind⟩ := h.behind window
  have same : s.request = { s with lastRequest := some s.clock } := if_pos pending
  apply Behind.tick
  rw [act, same]
  exact ⟨behind.workers, behind.stored⟩

/-- A request outside the window is followed by a probe. -/
theorem RefreshInv.ahead_request (h : RefreshInv s) (outside : ¬ InWindow s) :
    Ahead s.clock (step s .request) := by
  by_cases pending : s.pending = true
  · have same : step s .request = { s with lastRequest := some s.clock }.tick :=
      congrArg State.tick (if_pos pending)
    rw [same]
    constructor
    · exact Nat.lt_succ_self _
    · intro t mem
      exact absurd ⟨_, mem, rfl⟩ outside
    · intro mem
      exact absurd ⟨_, mem, rfl⟩ outside
    · exact .inl (h.waits pending outside)
  · apply (refreshInv_step h .request).accepted
    simp [step, act, State.request, pending, State.tick]

theorem Behind.run (h : Behind time s) {rest : List Action} (last : .request ∉ rest) :
    Behind time (exec SpaceRefresh.step s rest) := by
  induction rest generalizing s with
  | nil => exact h
  | cons a rest ih =>
      have later : a ≠ .request := fun same => last (same ▸ List.mem_cons_self)
      exact ih (h.step later) fun mem => last (List.mem_cons_of_mem _ mem)

theorem lastRequest_request : (step s .request).lastRequest = some s.clock := by
  simp only [step, act, State.request]
  split <;> rfl

theorem lastRequest_step {a : Action} (later : a ≠ .request) :
    (step s a).lastRequest = s.lastRequest := by
  cases a with
  | request => exact absurd rfl later
  | submit k | lock k | probe k =>
      simp only [step, act, State.advance]
      split <;> rfl
  | save k =>
      simp only [step, act, State.save]
      split <;> rfl
  | finish k =>
      simp only [step, act, State.finish]
      split <;> rfl

theorem lastRequest_run {rest : List Action} (last : .request ∉ rest) :
    (exec step s rest).lastRequest = s.lastRequest := by
  induction rest generalizing s with
  | nil => rfl
  | cons a rest ih =>
      have later : a ≠ .request := fun same => last (same ▸ List.mem_cons_self)
      have kept := @ih (step s a) fun mem => last (List.mem_cons_of_mem _ mem)
      exact kept.trans (lastRequest_step later)

end Steps

/-- The value that is stored at the end of a run comes from a probe taken after the last
request that was not coalesced. It comes from one taken after the last request exactly
when that request found no worker between its probe and the removal of the mark. -/
theorem stored_fresh_iff {first rest : List Action} (last : .request ∉ rest)
    (quiet : Quiet (exec step initial (first ++ .request :: rest))) :
    (∀ time, (exec step initial (first ++ .request :: rest)).lastAccepted = some time →
      StoredAfter (exec step initial (first ++ .request :: rest)) time) ∧
    (Fresh (exec step initial (first ++ .request :: rest)) ↔
      ¬ InWindow (exec step initial first)) := by
  have inv : ∀ actions, RefreshInv (exec step initial actions) := by
    intro actions
    apply exec_rule _ refreshInv_initial
    exact fun s a h => refreshInv_step h a
  -- With all workers finished, what was ahead has been stored.
  have done : ∀ {time}, Ahead time (exec step initial (first ++ .request :: rest)) →
      StoredAfter (exec step initial (first ++ .request :: rest)) time := by
    intro time ahead
    rcases ahead.served with ⟨w, mem, waiting⟩ | after
    · rw [quiet w mem] at waiting
      exact absurd waiting nofun
    · exact after
  refine ⟨fun time accepted => done ((inv _).accepted time accepted), ?_⟩
  have before := inv first
  have split : exec step initial (first ++ .request :: rest) =
      exec step (step (exec step initial first) .request) rest := List.foldl_append ..
  rw [split] at done ⊢
  generalize exec step initial first = s at before done ⊢
  have kept : (exec step (step s .request) rest).lastRequest = some s.clock := by
    rw [lastRequest_run last]
    exact lastRequest_request
  constructor
  · intro fresh window
    obtain ⟨t, stored, after⟩ := fresh _ kept
    have behind := (before.behind_request window).run last
    exact Nat.lt_asymm after (behind.stored t stored)
  · intro outside r asked
    rw [kept] at asked
    cases asked
    apply done
    exact exec_rule (fun s a h => h.step a) (before.ahead_request outside)

/-- A request that is coalesced before the probe is served by it. -/
theorem coalesced_request_served :
    Fresh (exec step initial
      [.request, .submit 0, .lock 0, .request, .probe 0, .save 0, .finish 0]) := by
  have fresh := @stored_fresh_iff [.request, .submit 0, .lock 0] [.probe 0, .save 0, .finish 0]
    (by decide) (by decide)
  apply fresh.2.mpr
  rintro ⟨w, mem, window⟩
  have locked : ∀ w ∈ [Stage.locked], w.window = false := by decide
  rw [locked w mem] at window
  exact absurd window nofun

/-- A request that finds a worker after its probe is coalesced with it, and the value
that was probed before the request is the one that is stored. -/
theorem refresh_lost :
    exec step initial [.request, .submit 0, .lock 0, .probe 0, .request, .save 0, .finish 0] =
        ⟨7, some 4, some 0, some 3, false, [.finished]⟩ ∧
      ¬ ∀ actions : List Action,
        Quiet (exec step initial actions) → Fresh (exec step initial actions) := by
  constructor
  · decide
  · intro fresh
    obtain ⟨t, stored, after⟩ := fresh
      [.request, .submit 0, .lock 0, .probe 0, .request, .save 0, .finish 0] (by decide) 4 rfl
    rw [show t = 3 from (Option.some.inj stored).symm] at after
    omega

end Ecube.SpaceRefresh
