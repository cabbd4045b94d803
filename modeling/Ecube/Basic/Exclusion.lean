import Mathlib.Tactic.TypeStar

/-!
Mutual exclusion by a guard that is free or taken.

Parties become owners one at a time, by taking the guard while it is free. What a
step may do to the guard and its owners is one of the changes of `Change`;
`Exclusive.change` is the step rule: every change keeps the owner alone and the
guard taken.
-/

namespace Ecube.Exclusion

variable {ι : Type*}

/-- A guard in one state: whether it can be taken, and who owns it. -/
structure Guard (ι : Type*) where
  free : Prop
  owner : ι → Prop

/-- There is at most one owner, and the guard is not free while there is one. -/
structure Exclusive (g : Guard ι) : Prop where
  held : ∀ i, g.owner i → ¬ g.free
  one : ∀ i j, g.owner i → g.owner j → i = j

/-- A step from `g` to `h`. -/
inductive Change (g h : Guard ι) : Prop where
  /-- no new owner, and the guard is not given back -/
  | keep (owners : ∀ i, h.owner i → g.owner i) (guard : h.free → g.free)
  /-- `k` takes the free guard -/
  | take (k : ι) (free : g.free) (owners : ∀ i, h.owner i → g.owner i ∨ i = k) (taken : ¬ h.free)
  /-- the owner `k` leaves -/
  | leave (k : ι) (owner : g.owner k) (owners : ∀ i, h.owner i → g.owner i ∧ i ≠ k)
  /-- the guard is given back while nobody owns it -/
  | reset (idle : ∀ i, ¬ g.owner i) (owners : ∀ i, h.owner i → g.owner i)

theorem Exclusive.of_idle {g : Guard ι} (idle : ∀ i, ¬ g.owner i) : Exclusive g where
  held i owner := absurd owner (idle i)
  one i _ owner := absurd owner (idle i)

theorem Exclusive.change {g h : Guard ι} (exclusive : Exclusive g) (change : Change g h) :
    Exclusive h := by
  cases change with
  | keep owners guard =>
      constructor
      · intro i owner free
        exact exclusive.held i (owners i owner) (guard free)
      · intro i j hi hj
        exact exclusive.one i j (owners i hi) (owners j hj)
  | take k free owners taken =>
      -- Nobody owned the free guard.
      have new : ∀ i, h.owner i → i = k := fun i owner =>
        (owners i owner).resolve_left fun old => exclusive.held i old free
      constructor
      · exact fun _ _ => taken
      · intro i j hi hj
        rw [new i hi, new j hj]
  | leave k owner owners =>
      refine .of_idle fun i later => ?_
      obtain ⟨old, other⟩ := owners i later
      exact other (exclusive.one i k old owner)
  | reset idle owners => exact .of_idle fun i owner => idle i (owners i owner)

end Ecube.Exclusion
