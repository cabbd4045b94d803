import Mathlib.Data.List.Perm.Basic
import Mathlib.Data.List.Perm.Subperm
import Mathlib.Algebra.BigOperators.Group.List.Basic
import Mathlib.Algebra.Order.BigOperators.Group.List
import Mathlib.Algebra.Ring.Int.Defs

/-!
Draining queues in rounds under a budget.

Every round takes the next item of every queue that has one, cutting the item that exhausts the
budget. `drain_spec`: the loop ends, takes no item twice and cuts no item but the last, and what
it takes adds up to the budget or is everything.
-/

namespace Ecube.RoundRobin

variable {α : Type}

/-- The items of a queue with their sizes, and the position of the next one. -/
abbrev Queue (α : Type) := List (α × Int) × Nat

structure Round (α : Type) where
  queues : List (Queue α)
  remaining : Int
  selected : List (α × Int)
  progressed : Bool

/-- One pass over the queues, left as soon as the budget is spent. -/
def round : List (Queue α) → Int → Round α
  | [], remaining => ⟨[], remaining, [], false⟩
  | (items, position) :: queues, remaining =>
      match items[position]? with
      | none =>
          let rest := round queues remaining
          { rest with queues := (items, position) :: rest.queues }
      | some (item, size) =>
          let amount := min size remaining
          if remaining - amount ≤ 0 then
            ⟨(items, position + 1) :: queues, remaining - amount, [(item, amount)], true⟩
          else
            let rest := round queues (remaining - amount)
            ⟨(items, position + 1) :: rest.queues, rest.remaining,
              (item, amount) :: rest.selected, true⟩

/-- Passes over the queues until the budget is spent or a pass finds nothing. -/
def drain : Nat → List (Queue α) → Int → Option (List (α × Int))
  | 0, _, _ => none
  | fuel + 1, queues, remaining =>
      if remaining ≤ 0 then some []
      else
        let pass := round queues remaining
        if pass.progressed then
          (drain fuel pass.queues pass.remaining).map fun later => pass.selected ++ later
        else some pass.selected

def total (items : List (α × Int)) : Int := (items.map Prod.snd).sum

theorem total_append (items later : List (α × Int)) :
    total (items ++ later) = total items + total later := by
  simp [total]

/-- What is left of the queues. -/
def pending (queues : List (Queue α)) : List (α × Int) := queues.flatMap fun q => q.1.drop q.2

/-! ### Cutting a list of items to a budget -/

/-- `selected` are the items `taken`, the last one cut where the budget ends. -/
structure Cut (budget : Int) (taken selected : List (α × Int)) : Prop where
  within : List.Forall₂ (fun t s => s.1 = t.1 ∧ 0 < s.2 ∧ s.2 ≤ t.2) taken selected
  whole : taken.dropLast = selected.dropLast
  bounded : total selected ≤ budget
  partly : selected = taken ∨ total selected = budget

theorem Cut.nil {budget : Int} (enough : 0 ≤ budget) : Cut budget ([] : List (α × Int)) [] where
  within := .nil
  whole := rfl
  bounded := enough
  partly := .inl rfl

theorem Cut.single {budget size : Int} (item : α) (enough : 0 < budget) (positive : 0 < size) :
    Cut budget [(item, size)] [(item, min size budget)] where
  within := .cons ⟨rfl, lt_min positive enough, min_le_left ..⟩ .nil
  whole := rfl
  bounded := by simp [total]
  partly := by
    rcases min_choice size budget with h | h
    · exact .inl (by rw [h])
    · exact .inr (by simp [total, h])

/-- Where the budget is not spent nothing was cut, so the selection goes on. -/
theorem Cut.append {budget : Int} {taken selected taken' selected' : List (α × Int)}
    (first : Cut budget taken selected) (left : total selected < budget)
    (second : Cut (budget - total selected) taken' selected') :
    Cut budget (taken ++ taken') (selected ++ selected') := by
  have uncut : selected = taken := first.partly.resolve_right left.ne
  subst uncut
  refine ⟨List.rel_append first.within second.within, ?_, ?_, ?_⟩
  · cases second.within with
    | nil => rfl
    | cons _ _ =>
        rw [List.dropLast_append_of_ne_nil (by simp), List.dropLast_append_of_ne_nil (by simp),
          second.whole]
  · rw [total_append]
    have bounded := second.bounded
    omega
  · rcases second.partly with same | spent
    · exact .inl (by rw [same])
    · exact .inr (by rw [total_append, spent]; omega)

theorem Cut.total_le {budget : Int} {taken selected : List (α × Int)}
    (cut : Cut budget taken selected) : total selected ≤ total taken := by
  obtain ⟨within, -, -, -⟩ := cut
  induction within with
  | nil => exact le_rfl
  | cons head _ ih =>
      simp only [total, List.map_cons, List.sum_cons] at ih ⊢
      exact add_le_add head.2.2 ih

theorem Cut.pos {budget : Int} {taken selected : List (α × Int)}
    (cut : Cut budget taken selected) (full : selected ≠ []) : 0 < total selected := by
  obtain ⟨within, -, -, -⟩ := cut
  induction within with
  | nil => exact absurd rfl full
  | @cons t s _ rest head _ ih =>
      have sum : total (s :: rest) = s.2 + total rest := by simp [total]
      rcases List.eq_nil_or_concat rest with rfl | ⟨_, _, rfl⟩
      · simpa [total] using head.2.1
      · rw [sum]
        exact add_pos head.2.1 (ih (by simp))

/-- Without a budget nothing is taken. -/
theorem Cut.of_spent {budget : Int} {taken selected : List (α × Int)}
    (cut : Cut budget taken selected) (spent : budget ≤ 0) : taken = [] ∧ selected = [] := by
  have empty : selected = [] := by
    by_contra full
    exact absurd (cut.pos full) (not_lt.mpr (cut.bounded.trans spent))
  subst empty
  exact ⟨List.forall₂_nil_right_iff.mp cut.within, rfl⟩

/-! ### A pass and a run -/

/-- What a pass takes are pending items, and a pass that takes nothing found none. -/
structure RoundSpec (queues : List (Queue α)) (remaining : Int) (pass : Round α)
    (taken : List (α × Int)) : Prop where
  perm : (taken ++ pending pass.queues).Perm (pending queues)
  cut : Cut remaining taken pass.selected
  left : pass.remaining = remaining - total pass.selected
  idle : pass.progressed = false → pending queues = []
  busy : pass.progressed = true → taken ≠ []

theorem round_spec {queues : List (Queue α)} {remaining : Int} (enough : 0 < remaining)
    (positive : ∀ p ∈ pending queues, 0 < p.2) :
    ∃ taken, RoundSpec queues remaining (round queues remaining) taken := by
  induction queues generalizing remaining with
  | nil =>
      exact ⟨[], .refl _, .nil enough.le, by simp [round, total], fun _ => rfl, by simp [round]⟩
  | cons queue queues ih =>
      obtain ⟨items, position⟩ := queue
      rw [round]
      cases next : items[position]? with
      | none =>
          have empty : items.drop position = [] :=
            List.drop_eq_nil_of_le (List.getElem?_eq_none_iff.mp next)
          have same : ∀ rest, pending ((items, position) :: rest) = pending rest := by
            intro rest
            simp [pending, empty]
          rw [same] at positive
          obtain ⟨taken, spec⟩ := ih enough positive
          exact ⟨taken, by simpa [same] using spec.perm, spec.cut, spec.left,
            by simpa [same] using spec.idle, spec.busy⟩
      | some entry =>
          obtain ⟨item, size⟩ := entry
          obtain ⟨inside, found⟩ := List.getElem?_eq_some_iff.mp next
          have front : ∀ rest, pending ((items, position) :: rest) =
              (item, size) :: pending ((items, position + 1) :: rest) := by
            intro rest
            simp [pending, List.drop_eq_getElem_cons inside, found]
          rw [front] at positive
          have here : Cut remaining [(item, size)] [(item, min size remaining)] :=
            .single item enough (positive (item, size) List.mem_cons_self)
          have amount : total [(item, min size remaining)] = min size remaining := by
            simp [total]
          dsimp only
          split
          next spent =>
            exact ⟨[(item, size)], by rw [front]; exact .refl _, here, by rw [amount],
              by simp, by simp⟩
          next more =>
            obtain ⟨taken, spec⟩ := ih (not_le.mp more) fun p hp =>
              positive p (List.mem_cons_of_mem _ (by simp [pending] at hp ⊢; exact .inr hp))
            refine ⟨(item, size) :: taken, ?_, ?_, ?_, by simp, by simp⟩
            · rw [front]
              refine .cons _ ?_
              simp only [pending, List.flatMap_cons]
              exact List.perm_append_comm_assoc _ _ _ |>.trans (.append_left _ spec.perm)
            · exact here.append (by rw [amount]; omega) (by rw [amount]; exact spec.cut)
            · have split : (item, min size remaining) ::
                  (round queues (remaining - min size remaining)).selected =
                    [(item, min size remaining)] ++
                      (round queues (remaining - min size remaining)).selected := rfl
              rw [split, total_append, amount, spec.left]
              omega

theorem drain_mono {fuel more : Nat} {queues : List (Queue α)} {remaining : Int}
    {selected : List (α × Int)} (le : fuel ≤ more)
    (done : drain fuel queues remaining = some selected) :
    drain more queues remaining = some selected := by
  induction fuel generalizing more queues remaining selected with
  | zero => cases done
  | succ fuel ih =>
      obtain ⟨more, rfl⟩ := Nat.exists_eq_succ_of_ne_zero (Nat.ne_of_gt (Nat.zero_lt_of_lt le))
      rw [drain] at done ⊢
      split at done
      next spent => rwa [if_pos spent]
      next left =>
        rw [if_neg left]
        dsimp only at done ⊢
        split at done
        next progressed =>
          obtain ⟨later, drained, rfl⟩ := Option.map_eq_some_iff.mp done
          rw [if_pos progressed, ih (Nat.le_of_succ_le_succ le) drained]
          rfl
        next idle => rwa [if_neg idle]

/-- The loop ends, and it ends with the budget spent or with every item taken. -/
theorem drain_spec {fuel : Nat} {queues : List (Queue α)} {remaining : Int}
    (long : (pending queues).length < fuel) (enough : 0 ≤ remaining)
    (positive : ∀ p ∈ pending queues, 0 < p.2) :
    ∃ selected taken rest, drain fuel queues remaining = some selected ∧
      (taken ++ rest).Perm (pending queues) ∧ Cut remaining taken selected ∧
      (rest = [] ∨ total selected = remaining) := by
  induction fuel generalizing queues remaining with
  | zero => exact absurd long (Nat.not_lt_zero _)
  | succ fuel ih =>
      rw [drain]
      by_cases spent : remaining ≤ 0
      · have zero : total ([] : List (α × Int)) = remaining := le_antisymm enough spent
        exact ⟨[], [], pending queues, if_pos spent, .refl _, .nil enough, .inr zero⟩
      rw [if_neg spent]
      obtain ⟨taken, spec⟩ := round_spec (not_le.mp spent) positive
      dsimp only
      cases progress : (round queues remaining).progressed with
      | false =>
          have none := spec.perm
          rw [spec.idle progress, List.perm_nil, List.append_eq_nil_iff] at none
          refine ⟨_, [], [], rfl, ?_, none.1 ▸ spec.cut, .inl rfl⟩
          rw [spec.idle progress]
          exact .refl _
      | true =>
          -- A pass that progressed leaves fewer pending items.
          have fewer : (pending (round queues remaining).queues).length < fuel := by
            have length := spec.perm.length_eq
            have some_taken := List.length_pos_of_ne_nil (spec.busy progress)
            rw [List.length_append] at length
            omega
          have nonneg : 0 ≤ (round queues remaining).remaining := by
            rw [spec.left]
            exact Int.sub_nonneg_of_le spec.cut.bounded
          obtain ⟨selected, taken', rest, drained, perm, cut, ended⟩ :=
            ih fewer nonneg fun p hp =>
              positive p (spec.perm.subset (List.mem_append_right _ hp))
          refine ⟨(round queues remaining).selected ++ selected, taken ++ taken', rest, ?_, ?_,
            ?_, ?_⟩
          · simp [drained]
          · rw [List.append_assoc]
            exact (perm.append_left taken).trans spec.perm
          · by_cases left : (round queues remaining).remaining ≤ 0
            · obtain ⟨rfl, rfl⟩ := cut.of_spent left
              simpa using spec.cut
            · rw [spec.left] at cut left
              exact spec.cut.append (by omega) cut
          · rw [total_append]
            refine ended.imp_right fun spent => ?_
            rw [spent, spec.left]
            omega

/-- Items taken from a list, in any order, stand at different positions of it. -/
theorem exists_positions {items taken : List α} (part : taken.Subperm items) :
    ∃ positions : List (Fin items.length), positions.Nodup ∧ taken = positions.map items.get := by
  obtain ⟨ordered, perm, sublist⟩ := part
  obtain ⟨positions, rfl, increasing⟩ := List.sublist_eq_map_getElem sublist
  have entries : List.Forall₂ (fun a i => a = items.get i) (positions.map items.get) positions :=
    List.forall₂_map_left_iff.mpr (List.forall₂_same.mpr fun _ _ => rfl)
  obtain ⟨reordered, same, permuted⟩ := List.perm_comp_forall₂ perm.symm entries
  refine ⟨reordered, permuted.nodup_iff.mpr ?_, ?_⟩
  · exact increasing.imp fun lt => Fin.ne_of_lt lt
  · exact List.forall₂_eq_eq_eq ▸ List.forall₂_map_right_iff.mpr same

end Ecube.RoundRobin
