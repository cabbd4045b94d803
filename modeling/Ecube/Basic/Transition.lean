import Mathlib.Data.List.Basic

/-!
Runs of a deterministic transition system.

A system is a step function `step : S → A → S`; what the environment decides
(a request, a scheduler choice, an operating-system answer) is part of the
action. `exec` performs a list of actions, `Always` speaks about every state a
run visits and `Along` about every action together with the state it is
performed in.

* `always_of_along` is the invariant rule: an invariant that every guarded
  action preserves holds in every state of a run whose actions all meet the
  guard.
* `always_iff_along` is its exact form: when an action outside the guard
  destroys the property at once, a run keeps the property exactly when each of
  its actions meets the guard.
-/

namespace Ecube.Transition

variable {S A : Type*}

/-- The state after performing the actions in order. -/
def exec (step : S → A → S) (s : S) (actions : List A) : S :=
  actions.foldl step s

/-- `P` holds of every action of the run, in the state it is performed in. -/
def Along (step : S → A → S) (P : S → A → Prop) : S → List A → Prop
  | _, [] => True
  | s, a :: rest => P s a ∧ Along step P (step s a) rest

/-- `P` holds in every state of the run, the first and the last included. -/
def Always (step : S → A → S) (P : S → Prop) : S → List A → Prop
  | s, [] => P s
  | s, a :: rest => P s ∧ Always step P (step s a) rest

instance Along.decidable (step : S → A → S) (P : S → A → Prop) [∀ s a, Decidable (P s a)] :
    ∀ s actions, Decidable (Along step P s actions)
  | _, [] => inferInstanceAs (Decidable True)
  | s, a :: rest =>
      haveI := Along.decidable step P (step s a) rest
      inferInstanceAs (Decidable (P s a ∧ Along step P (step s a) rest))

instance Always.decidable (step : S → A → S) (P : S → Prop) [∀ s, Decidable (P s)] :
    ∀ s actions, Decidable (Always step P s actions)
  | s, [] => inferInstanceAs (Decidable (P s))
  | s, a :: rest =>
      haveI := Always.decidable step P (step s a) rest
      inferInstanceAs (Decidable (P s ∧ Always step P (step s a) rest))

section Rules

variable {step : S → A → S} {P Inv : S → Prop} {G : S → A → Prop}

theorem Always.mono (sub : ∀ s, Inv s → P s) :
    ∀ {s : S} {actions : List A}, Always step Inv s actions → Always step P s actions
  | _, [], h => sub _ h
  | _, _ :: _, h => ⟨sub _ h.1, Always.mono sub h.2⟩

/-- The last state of a run is one of its states. -/
theorem Always.last {s : S} {actions : List A} (h : Always step P s actions) :
    P (exec step s actions) := by
  induction actions generalizing s with
  | nil => exact h
  | cons a rest ih => exact ih h.2

/-- What every action preserves holds after a run. -/
theorem exec_rule (keep : ∀ s a, Inv s → Inv (step s a)) {s : S} {actions : List A} (inv : Inv s) :
    Inv (exec step s actions) := by
  induction actions generalizing s with
  | nil => exact inv
  | cons a rest ih => exact ih (keep s a inv)

/-- What an action establishes and every action keeps holds after a run with it. -/
theorem exec_each {Q : A → S → Prop} (establish : ∀ s a, Q a (step s a))
    (keep : ∀ s a b, Q a s → Q a (step s b)) {s : S} {actions : List A} {a : A}
    (mem : a ∈ actions) : Q a (exec step s actions) := by
  induction actions generalizing s with
  | nil => exact absurd mem List.not_mem_nil
  | cons b rest ih =>
      rcases List.mem_cons.mp mem with rfl | later
      · change Q a (exec step (step s a) rest)
        exact exec_rule (fun s b => keep s a b) (establish s a)
      · exact ih later

/-- An invariant that guarded actions preserve holds throughout a guarded run. -/
theorem always_of_along (keep : ∀ s a, Inv s → G s a → Inv (step s a)) :
    ∀ {s : S} {actions : List A}, Inv s → Along step G s actions → Always step Inv s actions
  | _, [], inv, _ => inv
  | _, _ :: _, inv, guarded =>
      ⟨inv, always_of_along keep (keep _ _ inv guarded.1) guarded.2⟩

theorem along_true : ∀ {s : S} {actions : List A}, Along step (fun _ _ => True) s actions
  | _, [] => trivial
  | _, _ :: _ => ⟨trivial, along_true⟩

theorem Along.mono {Q : S → A → Prop} (sub : ∀ s a, G s a → Q s a) :
    ∀ {s : S} {actions : List A}, Along step G s actions → Along step Q s actions
  | _, [], _ => trivial
  | _, _ :: _, guarded => ⟨sub _ _ guarded.1, guarded.2.mono sub⟩

/-- The end of a run. -/
theorem Along.append {s : S} {first rest : List A} (h : Along step G s (first ++ rest)) :
    Along step G (exec step s first) rest := by
  induction first generalizing s with
  | nil => exact h
  | cons a first ih => exact ih h.2

/-- What holds of all actions of a run joins the guard. -/
theorem Along.and_forall {Q : A → Prop} :
    ∀ {s : S} {actions : List A}, Along step G s actions → (∀ a ∈ actions, Q a) →
      Along step (fun s a => G s a ∧ Q a) s actions
  | _, [], _, _ => trivial
  | _, a :: _, guarded, all =>
      ⟨⟨guarded.1, all a (by simp)⟩, guarded.2.and_forall fun b hb => all b (by simp [hb])⟩

/-- Every action of a guarded run is performed in a state with the invariant. -/
theorem along_of_along {Q : S → A → Prop} (keep : ∀ s a, Inv s → G s a → Inv (step s a))
    (use : ∀ s a, Inv s → G s a → Q s a) :
    ∀ {s : S} {actions : List A}, Inv s → Along step G s actions → Along step Q s actions
  | _, [], _, _ => trivial
  | _, _ :: _, inv, guarded =>
      ⟨use _ _ inv guarded.1, along_of_along keep use (keep _ _ inv guarded.1) guarded.2⟩

/-- If guarded actions preserve an invariant that contains `P`, and an action
outside the guard leaves a state without `P`, then a run keeps `P` exactly when
all its actions are guarded. -/
theorem always_iff_along (sub : ∀ s, Inv s → P s)
    (keep : ∀ s a, Inv s → G s a → Inv (step s a))
    (lose : ∀ s a, Inv s → ¬ G s a → ¬ P (step s a)) :
    ∀ {s : S} {actions : List A}, Inv s →
      (Always step P s actions ↔ Along step G s actions) := by
  intro s actions inv
  refine ⟨?_, fun guarded => (always_of_along keep inv guarded).mono sub⟩
  induction actions generalizing s with
  | nil => exact fun _ => trivial
  | cons a rest ih =>
      rintro ⟨-, always⟩
      -- The guard of the first action is forced by the state it leads to.
      have head : P (step s a) := by
        cases rest with
        | nil => exact always
        | cons b rest => exact always.1
      have guarded : G s a := by
        by_contra h
        exact lose s a inv h head
      exact ⟨guarded, ih (keep s a inv guarded) always⟩

end Rules

end Ecube.Transition
