import Mathlib.Data.List.Basic
import Mathlib.Data.Nat.Find

/-!
Operations that run in order until one raises.

The environment decides what the `i`-th operation raises, if anything. `run` stops before
the first operation that raises; `calm_or_stops` and the rules for the two cases describe
every run by the index of that operation.
-/

namespace Ecube.StraightLine

variable {α σ ε : Type*}

/-- The state in which the first raising operation starts, and what that raises; or the
last state. The first operation has the index `i`. -/
def run (raises : Nat → α → Option ε) (apply : α → σ → σ) :
    Nat → List α → σ → σ × Option (Nat × α × ε)
  | _, [], s => (s, none)
  | i, op :: rest, s =>
      match raises i op with
      | none => run raises apply (i + 1) rest (apply op s)
      | some e => (s, some (i, op, e))

/-- Nothing raises. -/
def Calm (raises : Nat → α → Option ε) (ops : List α) : Prop :=
  ∀ i, ∀ op ∈ ops[i]?, raises i op = none

/-- The `i`-th operation is the first that raises. -/
structure Stops (raises : Nat → α → Option ε) (ops : List α) (i : Nat) (op : α) (e : ε) :
    Prop where
  here : ops[i]? = some op
  raised : raises i op = some e
  before : ∀ j < i, ∀ earlier ∈ ops[j]?, raises j earlier = none

/-- What the operations do one after the other. -/
def effect (apply : α → σ → σ) (ops : List α) (s : σ) : σ := ops.foldl (fun s op => apply op s) s

section Rules

variable {raises : Nat → α → Option ε} {apply : α → σ → σ} {ops : List α} {s : σ} {i k : Nat}
  {op : α} {e : ε}

theorem run_calm (calm : ∀ i, ∀ op ∈ ops[i]?, raises (k + i) op = none) :
    run raises apply k ops s = (effect apply ops s, none) := by
  induction ops generalizing k s with
  | nil => rfl
  | cons op rest ih =>
      have first : raises k op = none := calm 0 op rfl
      rw [run, first]
      apply ih
      intro i later found
      rw [Nat.add_assoc, Nat.add_comm 1]
      exact calm (i + 1) later found

theorem run_stops (here : ops[i]? = some op) (raised : raises (k + i) op = some e)
    (before : ∀ j < i, ∀ earlier ∈ ops[j]?, raises (k + j) earlier = none) :
    run raises apply k ops s = (effect apply (ops.take i) s, some (k + i, op, e)) := by
  induction ops generalizing k s i with
  | nil => cases here
  | cons first rest ih =>
      cases i with
      | zero =>
          cases here
          rw [Nat.add_zero] at raised ⊢
          rw [run, raised]
          rfl
      | succ i =>
          have calm : raises k first = none := before 0 (Nat.zero_lt_succ _) first rfl
          rw [run, calm]
          dsimp only
          rw [ih here]
          · rw [Nat.add_assoc, Nat.add_comm 1]
            rfl
          · rwa [Nat.add_assoc, Nat.add_comm 1]
          · intro j below earlier found
            rw [Nat.add_assoc, Nat.add_comm 1]
            exact before (j + 1) (Nat.succ_lt_succ below) earlier found

theorem run_of_calm (calm : Calm raises ops) :
    run raises apply 0 ops s = (effect apply ops s, none) := by
  apply run_calm
  intro i op found
  rw [Nat.zero_add]
  exact calm i op found

theorem run_of_stops (h : Stops raises ops i op e) :
    run raises apply 0 ops s = (effect apply (ops.take i) s, some (i, op, e)) := by
  rw [run_stops h.here (e := e)]
  · rw [Nat.zero_add]
  · rw [Nat.zero_add]
    exact h.raised
  · intro j below
    rw [Nat.zero_add]
    exact h.before j below

/-- Every run is calm, or stops at one operation. -/
theorem calm_or_stops (raises : Nat → α → Option ε) (ops : List α) :
    Calm raises ops ∨ ∃ i op e, Stops raises ops i op e := by
  by_cases calm : Calm raises ops
  · exact .inl calm
  · have some : ∃ i, ∃ op ∈ ops[i]?, raises i op ≠ none := by
      simpa only [Calm, not_forall, exists_prop] using calm
    classical
    obtain ⟨op, here, raised⟩ := Nat.find_spec some
    obtain ⟨e, raised⟩ := Option.ne_none_iff_exists'.mp raised
    refine .inr ⟨Nat.find some, op, e, here, raised, fun j below earlier found => ?_⟩
    by_contra raises
    exact Nat.find_min some below ⟨earlier, found, raises⟩

/-- There is only one first operation that raises. -/
theorem Stops.unique {j : Nat} {other : α} {e' : ε} (h : Stops raises ops i op e)
    (h' : Stops raises ops j other e') : i = j ∧ op = other ∧ e = e' := by
  have same : i = j := by
    rcases Nat.lt_trichotomy i j with lt | rfl | lt
    · have quiet := h'.before i lt op h.here
      rw [h.raised] at quiet
      cases quiet
    · rfl
    · have quiet := h.before j lt other h'.here
      rw [h'.raised] at quiet
      cases quiet
  subst same
  have op : op = other := Option.some_inj.mp (h.here.symm.trans h'.here)
  subst op
  exact ⟨rfl, rfl, Option.some_inj.mp (h.raised.symm.trans h'.raised)⟩

end Rules

end Ecube.StraightLine
