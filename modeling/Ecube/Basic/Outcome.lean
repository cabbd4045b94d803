import Mathlib.Data.List.Forall2
import Mathlib.Logic.Basic

/-!
Checked computations: a result or the reason it was refused.

Service functions are `do` blocks over `Except`, with `ensure` for a check that
refuses and `orReject` for a lookup that must succeed. The lemmas read a
computation backwards, one statement at a time.
-/

namespace Ecube

variable {ε α β : Type}

/-- Refuse with `e` unless the condition holds. -/
def ensure (c : Prop) [Decidable c] (e : ε) : Except ε Unit :=
  if c then .ok () else .error e

/-- The value of a lookup, or a refusal. -/
def orReject (o : Option α) (e : ε) : Except ε α :=
  match o with
  | some a => .ok a
  | none => .error e

@[simp] theorem bind_eq_ok {x : Except ε α} {f : α → Except ε β} {b : β} :
    x >>= f = .ok b ↔ ∃ a, x = .ok a ∧ f a = .ok b := by
  cases x with
  | error e => simp [bind, Except.bind]
  | ok a => simp [bind, Except.bind]

/-- A refusal comes from the first statement that refuses. -/
theorem bind_eq_error {x : Except ε α} {f : α → Except ε β} {e : ε} :
    x >>= f = .error e ↔ x = .error e ∨ ∃ a, x = .ok a ∧ f a = .error e := by
  cases x with
  | error e' => simp [bind, Except.bind]
  | ok a => simp [bind, Except.bind]

@[simp] theorem pure_eq_ok {a b : α} : (pure a : Except ε α) = .ok b ↔ a = b := by
  simp [pure, Except.pure]

@[simp] theorem ensure_eq_ok {c : Prop} [Decidable c] {e : ε} {u : Unit} :
    ensure c e = .ok u ↔ c := by
  rw [ensure]
  split <;> simp_all

theorem ensure_eq_error {c : Prop} [Decidable c] {e e' : ε} :
    ensure c e = .error e' ↔ ¬ c ∧ e' = e := by
  rw [ensure]
  split <;> simp_all [eq_comm]

@[simp] theorem orReject_eq_ok {o : Option α} {e : ε} {a : α} :
    orReject o e = .ok a ↔ o = some a := by
  cases o <;> simp [orReject]

theorem toOption_eq_some {x : Except ε α} {a : α} : x.toOption = some a ↔ x = .ok a := by
  cases x <;> simp [Except.toOption]

/-- A loop of checked computations succeeds when each of them does. -/
theorem mapM_eq_ok {f : α → Except ε β} {as : List α} {bs : List β} :
    as.mapM f = .ok bs ↔ List.Forall₂ (fun a b => f a = .ok b) as bs := by
  induction as generalizing bs with
  | nil => rw [List.mapM_nil, pure_eq_ok, List.forall₂_nil_left_iff, eq_comm]
  | cons a as ih =>
      simp only [List.mapM_cons, bind_eq_ok, pure_eq_ok, ih, List.forall₂_cons_left_iff]
      constructor
      · rintro ⟨b, hb, rest, hrest, rfl⟩
        exact ⟨b, rest, hb, hrest, rfl⟩
      · rintro ⟨b, rest, hb, hrest, rfl⟩
        exact ⟨b, hb, rest, hrest, rfl⟩

/-- The results and what they are computed from. -/
theorem mem_mapM {f : α → Except ε β} {as : List α} {bs : List β} (h : as.mapM f = .ok bs) :
    (∀ b ∈ bs, ∃ a ∈ as, f a = .ok b) ∧ ∀ a ∈ as, ∃ b ∈ bs, f a = .ok b := by
  have results := mapM_eq_ok.mp h
  clear h
  induction results with
  | nil => exact ⟨by simp, by simp⟩
  | cons first _ ih =>
      simp only [List.exists_mem_cons_iff, List.forall_mem_cons]
      exact ⟨⟨.inl first, fun b hb => .inr (ih.1 b hb)⟩, .inl first, fun a ha => .inr (ih.2 a ha)⟩

/-- A loop of checks succeeds when each of them does. -/
theorem forM_eq_ok {f : α → Except ε Unit} {as : List α} :
    forM as f = .ok () ↔ ∀ a ∈ as, f a = .ok () := by
  induction as with
  | nil => simp
  | cons a as ih =>
      rw [List.forM_cons, bind_eq_ok, List.forall_mem_cons, ← ih]
      exact ⟨fun ⟨_, first, rest⟩ => ⟨first, rest⟩, fun ⟨first, rest⟩ => ⟨(), first, rest⟩⟩

/-- A loop of checks is refused by one of them. -/
theorem forM_eq_error {f : α → Except ε Unit} {as : List α} {e : ε} (h : forM as f = .error e) :
    ∃ a ∈ as, f a = .error e := by
  induction as with
  | nil => cases h
  | cons a as ih =>
      rw [List.forM_cons, bind_eq_error] at h
      rcases h with first | ⟨_, -, rest⟩
      · exact ⟨a, List.mem_cons_self .., first⟩
      · obtain ⟨a', mem, refused⟩ := ih rest
        exact ⟨a', List.mem_cons_of_mem _ mem, refused⟩

/-- A `for` loop that never breaks off succeeds only if each of its rounds does. -/
theorem forIn_eq_ok {f : α → Except ε (ForInStep Unit)} {as : List α}
    (goes : ∀ a r, f a = .ok r → r = .yield ()) (h : (forIn as () fun a _ => f a) = .ok ()) :
    ∀ a ∈ as, f a = .ok (.yield ()) := by
  induction as with
  | nil => exact fun a mem => absurd mem List.not_mem_nil
  | cons a as ih =>
      rw [List.forIn_cons, bind_eq_ok] at h
      obtain ⟨r, first, rest⟩ := h
      cases goes a r first
      exact List.forall_mem_cons.mpr ⟨first, ih rest⟩

theorem exists_mapM_eq_ok {f : α → Except ε β} {as : List α} (each : ∀ a ∈ as, ∃ b, f a = .ok b) :
    ∃ bs, as.mapM f = .ok bs := by
  induction as with
  | nil => exact ⟨[], rfl⟩
  | cons a as ih =>
      obtain ⟨b, hb⟩ := each a (List.mem_cons_self ..)
      obtain ⟨bs, hbs⟩ := ih fun a' mem => each a' (List.mem_cons_of_mem _ mem)
      exact ⟨b :: bs, mapM_eq_ok.mpr (.cons hb (mapM_eq_ok.mp hbs))⟩

end Ecube
