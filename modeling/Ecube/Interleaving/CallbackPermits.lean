import Ecube.Basic.Transition

/-!
The permits of callback deliveries (`app/services/callback_service.py`).

`deliver_callback` takes a permit of the pending semaphore and hands the delivery to
the executor; the worker gives the permit back in its last statement. What runs
between the two may raise an exception: the submission, the opening of the worker's
session and its closing are not covered by a `finally` that releases the permit.
A submission that raises has queued nothing.
-/

namespace Ecube.Callback

open Transition

/-- Where a delivery that was given a permit stands. -/
inductive Stage where
  /-- before `submit` -/
  | accepted
  /-- before `SessionLocal()` -/
  | queued
  /-- in `_do_deliver` -/
  | delivering
  /-- before `db.close()` -/
  | closing
  /-- before `release()` -/
  | releasing
  | finished
  | failed
  deriving DecidableEq, Repr

def Stage.unfinished : Stage → Bool
  | .finished | .failed => false
  | _ => true

/-- The semaphore (its size and the permits that are taken) and the accepted deliveries. -/
structure State where
  capacity : Nat
  taken : Nat
  deliveries : List Stage
  deriving DecidableEq, Repr

namespace State

/-- Delivery `k` goes on, if it stands at `stage`. -/
def advance (s : State) (k : Nat) (stage next : Stage) : State :=
  if s.deliveries[k]? = some stage then { s with deliveries := s.deliveries.set k next } else s

def unfinished (s : State) : Nat := s.deliveries.countP Stage.unfinished

end State

/-- The statements of callers and workers, with whether they raise an exception. -/
inductive Action where
  /-- `acquire(blocking=False)`; without a permit the delivery is dropped -/
  | acquire
  | submit (k : Nat) (raises : Bool)
  | openSession (k : Nat) (raises : Bool)
  /-- `_do_deliver`, in whatever way it ends -/
  | deliver (k : Nat)
  | closeSession (k : Nat) (raises : Bool)
  | release (k : Nat)
  deriving DecidableEq, Repr

def step (s : State) : Action → State
  | .acquire =>
      if s.taken < s.capacity then
        { s with taken := s.taken + 1, deliveries := s.deliveries ++ [.accepted] }
      else s
  | .submit k raises => s.advance k .accepted (if raises then .failed else .queued)
  | .openSession k raises => s.advance k .queued (if raises then .failed else .delivering)
  | .deliver k => s.advance k .delivering .closing
  | .closeSession k raises => s.advance k .closing (if raises then .failed else .releasing)
  | .release k =>
      if s.deliveries[k]? = some .releasing then
        { s with taken := s.taken - 1, deliveries := s.deliveries.set k .finished }
      else s

def initial (capacity : Nat) : State := ⟨capacity, 0, []⟩

/-- The permits that are taken belong to the unfinished deliveries. -/
structure PermitsConserved (s : State) : Prop where
  conserved : s.taken = s.unfinished
  bounded : s.taken ≤ s.capacity

instance (s : State) : Decidable (PermitsConserved s) :=
  decidable_of_iff (s.taken = s.unfinished ∧ s.taken ≤ s.capacity)
    ⟨fun ⟨conserved, bounded⟩ => ⟨conserved, bounded⟩, fun h => ⟨h.conserved, h.bounded⟩⟩

/-- The statement is not one that raises an exception without giving the permit back. -/
def Returns (s : State) : Action → Prop
  | .submit k raises => s.deliveries[k]? = some .accepted → raises = false
  | .openSession k raises => s.deliveries[k]? = some .queued → raises = false
  | .closeSession k raises => s.deliveries[k]? = some .closing → raises = false
  | .acquire | .deliver _ | .release _ => True

section Permits

variable {s : State} {k : Nat} {stage next : Stage}

/-- A delivery that goes on stays unfinished, or ends. -/
theorem countP_set (at_ : s.deliveries[k]? = some stage) (before : stage.unfinished = true) :
    (s.deliveries.set k next).countP Stage.unfinished + 1 =
      s.unfinished + if next.unfinished then 1 else 0 := by
  obtain ⟨bound, place⟩ := List.getElem?_eq_some_iff.mp at_
  have counted : 0 < s.unfinished :=
    List.countP_pos_iff.mpr ⟨stage, List.mem_of_getElem? at_, before⟩
  rw [List.countP_set bound, place, before, if_pos rfl]
  rw [State.unfinished] at counted ⊢
  omega

theorem PermitsConserved.advance (h : PermitsConserved s) (before : stage.unfinished = true)
    (after : s.deliveries[k]? = some stage → next.unfinished = true) :
    PermitsConserved (s.advance k stage next) := by
  rw [State.advance]
  split
  next at_ =>
    have counted := @countP_set _ _ _ next at_ before
    rw [if_pos (after at_)] at counted
    constructor
    · rw [h.conserved, State.unfinished]
      exact (Nat.add_right_cancel counted).symm
    · exact h.bounded
  next => exact h

/-- An exception keeps the permit. -/
theorem not_permitsConserved_advance (h : PermitsConserved s) (before : stage.unfinished = true)
    (at_ : s.deliveries[k]? = some stage) : ¬ PermitsConserved (s.advance k stage .failed) := by
  intro lost
  have counted := @countP_set _ _ _ .failed at_ before
  have same := lost.conserved
  rw [State.advance, if_pos at_] at same
  change s.taken = (s.deliveries.set k .failed).countP Stage.unfinished at same
  rw [h.conserved] at same
  simp only [Stage.unfinished, Bool.false_eq_true, if_false, Nat.add_zero] at counted
  omega

theorem permitsConserved_step {a : Action} (h : PermitsConserved s) (returns : Returns s a) :
    PermitsConserved (step s a) := by
  cases a with
  | acquire =>
      rw [step]
      split
      next free =>
        constructor
        · simp [State.unfinished, h.conserved, Stage.unfinished]
        · exact free
      next => exact h
  | submit k raises =>
      apply h.advance rfl
      intro at_
      rw [returns at_]
      rfl
  | openSession k raises =>
      apply h.advance rfl
      intro at_
      rw [returns at_]
      rfl
  | deliver k => exact h.advance rfl fun _ => rfl
  | closeSession k raises =>
      apply h.advance rfl
      intro at_
      rw [returns at_]
      rfl
  | release k =>
      rw [step]
      split
      next at_ =>
        have counted := @countP_set _ _ _ .finished at_ rfl
        simp only [Stage.unfinished, Bool.false_eq_true, if_false, Nat.add_zero] at counted
        constructor
        · change s.taken - 1 = (s.deliveries.set k .finished).countP Stage.unfinished
          rw [h.conserved, ← counted, Nat.add_sub_cancel]
        · exact Nat.le_trans (Nat.sub_le ..) h.bounded
      next => exact h

theorem not_permitsConserved_step {a : Action} (h : PermitsConserved s) (raises : ¬ Returns s a) :
    ¬ PermitsConserved (step s a) := by
  cases a with
  | acquire => exact absurd trivial raises
  | deliver k => exact absurd trivial raises
  | release k => exact absurd trivial raises
  | submit k failure =>
      simp only [Returns, not_forall, Bool.not_eq_false] at raises
      obtain ⟨at_, rfl⟩ := raises
      exact not_permitsConserved_advance h rfl at_
  | openSession k failure =>
      simp only [Returns, not_forall, Bool.not_eq_false] at raises
      obtain ⟨at_, rfl⟩ := raises
      exact not_permitsConserved_advance h rfl at_
  | closeSession k failure =>
      simp only [Returns, not_forall, Bool.not_eq_false] at raises
      obtain ⟨at_, rfl⟩ := raises
      exact not_permitsConserved_advance h rfl at_

end Permits

/-- The permits are conserved throughout a run exactly when no submission, no opening
and no closing of a session raises an exception. -/
theorem permits_conserved_iff {capacity : Nat} {actions : List Action} :
    Always step PermitsConserved (initial capacity) actions ↔
      Along step Returns (initial capacity) actions :=
  always_iff_along (fun _ h => h) (fun _ _ => permitsConserved_step)
    (fun _ _ => not_permitsConserved_step) ⟨rfl, Nat.zero_le _⟩

/-- The only permit is lost, and every later delivery is dropped. -/
theorem permits_lost :
    exec step (initial 1) [.acquire, .submit 0 true, .acquire] = ⟨1, 1, [.failed]⟩ ∧
      ¬ ∀ (capacity : Nat) (actions : List Action),
        Always step PermitsConserved (initial capacity) actions := by
  refine ⟨by decide, fun always => ?_⟩
  exact absurd (always 1 [.acquire, .submit 0 true]) (by decide)

end Ecube.Callback
