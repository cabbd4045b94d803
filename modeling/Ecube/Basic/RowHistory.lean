import Ecube.Basic.Table
import Ecube.Basic.Transition

/-!
The history of the rows of a table.

`Table.Keeps P R t u` says that every row of `t` with `P` is in `u` under its key, has `P` there
and is related by `R` to what it was. A write to some rows keeps what it keeps of these rows, and
a run keeps what its steps keep (`keeps_exec`).
-/

namespace Ecube.Table

open Transition

variable {ρ : Type} [Row ρ] {P : ρ → Prop} {R : ρ → ρ → Prop} {t u v : Table ρ}

/-- Each row with `P` is still there, with `P` and as `R` says. -/
def Keeps (P : ρ → Prop) (R : ρ → ρ → Prop) (t u : Table ρ) : Prop :=
  ∀ r ∈ t, P r → ∃ r' ∈ u, Row.id r' = Row.id r ∧ P r' ∧ R r r'

namespace Keeps

theorem of_mem (same : ∀ r, R r r) (sub : ∀ r ∈ t, P r → r ∈ u) : Keeps P R t u :=
  fun r mem p => ⟨r, sub r mem p, rfl, p, same r⟩

theorem refl (same : ∀ r, R r r) (t : Table ρ) : Keeps P R t t :=
  of_mem same fun _ mem _ => mem

theorem trans (both : ∀ {a b c}, R a b → R b c → R a c) (first : Keeps P R t u)
    (second : Keeps P R u v) : Keeps P R t v := by
  intro r mem p
  obtain ⟨r₁, mem₁, id₁, p₁, rel₁⟩ := first r mem p
  obtain ⟨r₂, mem₂, id₂, p₂, rel₂⟩ := second r₁ mem₁ p₁
  exact ⟨r₂, mem₂, id₂.trans id₁, p₂, both rel₁ rel₂⟩

theorem modify {k : Nat} {f : ρ → ρ} (key : ∀ r, Row.id (f r) = Row.id r) (same : ∀ r, R r r)
    (written : ∀ r ∈ t, Row.id r = k → P r → P (f r) ∧ R r (f r)) :
    Keeps P R t (t.modify k f key) := by
  intro r mem p
  by_cases here : Row.id r = k
  · obtain ⟨p', rel⟩ := written r mem here p
    exact ⟨f r, (mem_modify key).mpr (.inr ⟨r, mem, here, rfl⟩), key r, p', rel⟩
  · exact ⟨r, (mem_modify key).mpr (.inl ⟨mem, here⟩), rfl, p, same r⟩

theorem insert {mk : Nat → ρ} (key : ∀ k, Row.id (mk k) = k) (same : ∀ r, R r r) :
    Keeps P R t (t.insert mk key) :=
  of_mem same fun _ mem _ => (mem_insert key).mpr (.inl mem)

end Keeps

/-- What the steps of a run keep, the run keeps. -/
theorem keeps_exec {S A : Type*} {step : S → A → S} {rows : S → Table ρ} {G : S → A → Prop}
    (same : ∀ r, R r r) (both : ∀ {a b c}, R a b → R b c → R a c)
    (keep : ∀ s a, G s a → Keeps P R (rows s) (rows (step s a))) {s : S} {actions : List A}
    (guarded : Along step G s actions) : Keeps P R (rows s) (rows (exec step s actions)) := by
  induction actions generalizing s with
  | nil => exact .refl same _
  | cons a rest ih => exact (keep s a guarded.1).trans both (ih guarded.2)

end Ecube.Table
