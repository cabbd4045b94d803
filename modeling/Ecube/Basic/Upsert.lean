import Mathlib.Data.List.Induction
import Ecube.Basic.Table

/-!
Upserts by a unique column.

A source that is read again and again is written to a table by upserts: a row
with the right value in the key column is overridden, a missing one is inserted.
An override sets some columns and leaves the others as they are. Two overrides
in a row are one override and the same override twice is the override, and this
is all that idempotence needs: writing a list of overrides a second time leaves
the table as it is (`upserts_upserts`), also when the list names a row twice.
-/

namespace Ecube

/-- Overrides `ω` of rows `ρ` that a column with values in `κ` identifies. -/
structure Override (ρ κ ω : Type) [Row ρ] where
  key : ρ → κ
  target : ω → κ
  apply : ω → ρ → ρ
  /-- The row an insertion starts from. -/
  blank : κ → Nat → ρ
  /-- The second override after the first. -/
  after : ω → ω → ω
  id_apply : ∀ w r, Row.id (apply w r) = Row.id r
  key_apply : ∀ w r, key (apply w r) = key r
  id_blank : ∀ k n, Row.id (blank k n) = n
  key_blank : ∀ k n, key (blank k n) = k
  apply_after : ∀ v w r, apply (after v w) r = apply v (apply w r)
  apply_self : ∀ w r, apply w (apply w r) = apply w r

namespace Override

variable {ρ κ ω : Type} [Row ρ] (O : Override ρ κ ω)

theorem id_insert (w : ω) (n : Nat) : Row.id (O.apply w (O.blank (O.target w) n)) = n :=
  (O.id_apply w _).trans (O.id_blank _ n)

variable [DecidableEq κ]

/-- INSERT, or UPDATE the rows with the target key. -/
def upsert (t : Table ρ) (w : ω) : Table ρ :=
  if t.any fun r => O.key r = O.target w then
    t.update (fun r => O.key r = O.target w) (O.apply w) (O.id_apply w)
  else t.insert (fun n => O.apply w (O.blank (O.target w) n)) (O.id_insert w)

/-- SELECT by the key column. -/
def lookup (t : Table ρ) (k : κ) : Option ρ := t.rows.find? fun r => O.key r = k

/-- The upserts of a whole reading, in its order. -/
def upserts (t : Table ρ) (ws : List ω) : Table ρ := ws.foldl O.upsert t

/-- What a list of overrides makes of a row. -/
def applyAll (ws : List ω) (r : ρ) : ρ :=
  ws.foldl (fun r w => if O.key r = O.target w then O.apply w r else r) r

/-! ### The overrides of one row -/

theorem applyAll_concat (ws : List ω) (w : ω) (r : ρ) :
    O.applyAll (ws ++ [w]) r =
      if O.key (O.applyAll ws r) = O.target w then O.apply w (O.applyAll ws r)
      else O.applyAll ws r := by
  rw [applyAll, List.foldl_append]
  rfl

@[simp] theorem key_applyAll (ws : List ω) (r : ρ) : O.key (O.applyAll ws r) = O.key r := by
  induction ws using List.reverseRecOn with
  | nil => rfl
  | append_singleton ws w ih =>
      rw [applyAll_concat]
      split
      · rw [O.key_apply, ih]
      · exact ih

@[simp] theorem id_applyAll (ws : List ω) (r : ρ) : Row.id (O.applyAll ws r) = Row.id r := by
  induction ws using List.reverseRecOn with
  | nil => rfl
  | append_singleton ws w ih =>
      rw [applyAll_concat]
      split
      · rw [O.id_apply, ih]
      · exact ih

theorem applyAll_of_not_target {ws : List ω} {r : ρ} (other : ∀ w ∈ ws, O.target w ≠ O.key r) :
    O.applyAll ws r = r := by
  induction ws using List.reverseRecOn with
  | nil => rfl
  | append_singleton ws w ih =>
      have before : O.applyAll ws r = r := ih fun w hw => other w (by simp [hw])
      rw [applyAll_concat, before, if_neg (Ne.symm (other w (by simp)))]

/-- On the rows with one key, a list of overrides is one override or none. -/
theorem applyAll_eq_apply (ws : List ω) (k : κ) :
    (∀ r, O.key r = k → O.applyAll ws r = r) ∨
      ∃ w, ∀ r, O.key r = k → O.applyAll ws r = O.apply w r := by
  induction ws using List.reverseRecOn with
  | nil => exact .inl fun _ _ => rfl
  | append_singleton ws w ih =>
      by_cases hit : k = O.target w
      · refine .inr ?_
        rcases ih with same | ⟨v, composed⟩
        · refine ⟨w, fun r hr => ?_⟩
          rw [applyAll_concat, key_applyAll, if_pos (hr.trans hit), same r hr]
        · refine ⟨O.after w v, fun r hr => ?_⟩
          rw [applyAll_concat, key_applyAll, if_pos (hr.trans hit), composed r hr, O.apply_after]
      · have skip : ∀ r, O.key r = k → O.applyAll (ws ++ [w]) r = O.applyAll ws r := by
          intro r hr
          rw [applyAll_concat, key_applyAll, if_neg (by rw [hr]; exact hit)]
        exact ih.imp (fun same r hr => (skip r hr).trans (same r hr))
          fun ⟨v, composed⟩ => ⟨v, fun r hr => (skip r hr).trans (composed r hr)⟩

/-- A list of overrides applied again changes nothing. -/
theorem applyAll_applyAll (ws : List ω) (r : ρ) :
    O.applyAll ws (O.applyAll ws r) = O.applyAll ws r := by
  rcases O.applyAll_eq_apply ws (O.key r) with same | ⟨w, composed⟩
  · exact same _ (O.key_applyAll ws r)
  · rw [composed _ (O.key_applyAll ws r), composed r rfl, O.apply_self]

/-! ### The upserts of a table -/

theorem upserts_concat (t : Table ρ) (ws : List ω) (w : ω) :
    O.upserts t (ws ++ [w]) = O.upsert (O.upserts t ws) w := by
  simp [upserts]

theorem mem_upsert {t : Table ρ} {w : ω} {r : ρ} :
    r ∈ O.upsert t w ↔
      (∃ r₀ ∈ t, (if O.key r₀ = O.target w then O.apply w r₀ else r₀) = r) ∨
        ((∀ r₀ ∈ t, O.key r₀ ≠ O.target w) ∧ r = O.apply w (O.blank (O.target w) (t.seq + 1))) := by
  rw [upsert]
  split
  next found =>
    obtain ⟨r₁, mem₁, key₁⟩ := Table.any_eq_true_iff.mp found
    rw [Table.mem_update (O.id_apply w)]
    simp only [decide_eq_true_eq] at key₁ ⊢
    exact ⟨.inl, fun h => h.resolve_right fun h => h.1 r₁ mem₁ key₁⟩
  next missing =>
    have free : ∀ r₀ ∈ t, O.key r₀ ≠ O.target w := by
      intro r₀ mem₀
      have := Table.any_eq_false_iff.mp (by simpa using missing) r₀ mem₀
      simpa using this
    rw [Table.mem_insert (O.id_insert w)]
    constructor
    · rintro (mem | new)
      · exact .inl ⟨r, mem, if_neg (free r mem)⟩
      · exact .inr ⟨free, new⟩
    · rintro (⟨r₀, mem, rfl⟩ | ⟨-, new⟩)
      · rw [if_neg (free r₀ mem)]
        exact .inl mem
      · exact .inr new

/-- Every target has a row after its upsert. -/
theorem exists_target_upsert (t : Table ρ) (w : ω) : ∃ r ∈ O.upsert t w, O.key r = O.target w := by
  by_cases found : ∃ r₀ ∈ t, O.key r₀ = O.target w
  · obtain ⟨r₀, mem₀, key₀⟩ := found
    refine ⟨O.apply w r₀, O.mem_upsert.mpr (.inl ⟨r₀, mem₀, if_pos key₀⟩), ?_⟩
    rw [O.key_apply, key₀]
  · refine ⟨_, O.mem_upsert.mpr (.inr ⟨fun r₀ mem₀ key₀ => found ⟨r₀, mem₀, key₀⟩, rfl⟩), ?_⟩
    rw [O.key_apply, O.key_blank]

/-- A key in use stays in use, on the same row. -/
theorem exists_key_upsert {t : Table ρ} {w : ω} {r : ρ} (mem : r ∈ t) :
    ∃ r' ∈ O.upsert t w, O.key r' = O.key r ∧ Row.id r' = Row.id r := by
  refine ⟨_, O.mem_upsert.mpr (.inl ⟨r, mem, rfl⟩), ?_⟩
  split
  · exact ⟨O.key_apply w r, O.id_apply w r⟩
  · exact ⟨rfl, rfl⟩

theorem exists_target_upserts {t : Table ρ} {ws : List ω} {w : ω} (hw : w ∈ ws) :
    ∃ r ∈ O.upserts t ws, O.key r = O.target w := by
  induction ws using List.reverseRecOn with
  | nil => exact absurd hw List.not_mem_nil
  | append_singleton ws v ih =>
      rw [upserts_concat]
      rcases List.mem_append.mp hw with hw | hw
      · obtain ⟨r, mem, key⟩ := ih hw
        obtain ⟨r', mem', key', -⟩ := O.exists_key_upsert (w := v) mem
        exact ⟨r', mem', key'.trans key⟩
      · rw [List.mem_singleton.mp hw]
        exact O.exists_target_upsert _ v

/-- A row after the upserts is an old row or a blank one with all of them applied. -/
theorem exists_of_mem_upserts {t : Table ρ} {ws : List ω} {r : ρ} (mem : r ∈ O.upserts t ws) :
    ∃ r₀, r = O.applyAll ws r₀ ∧ (r₀ ∈ t ∨ ∃ k n, r₀ = O.blank k n) := by
  induction ws using List.reverseRecOn generalizing r with
  | nil => exact ⟨r, rfl, .inl mem⟩
  | append_singleton ws w ih =>
      rw [upserts_concat, mem_upsert] at mem
      rcases mem with ⟨r₁, mem₁, rfl⟩ | ⟨free, rfl⟩
      · obtain ⟨r₀, rfl, from₀⟩ := ih mem₁
        exact ⟨r₀, (O.applyAll_concat ws w r₀).symm, from₀⟩
      · -- No earlier override had this target, or the row would exist.
        refine ⟨O.blank (O.target w) ((O.upserts t ws).seq + 1), ?_, .inr ⟨_, _, rfl⟩⟩
        have untouched : O.applyAll ws (O.blank (O.target w) ((O.upserts t ws).seq + 1)) =
            O.blank (O.target w) ((O.upserts t ws).seq + 1) := by
          apply O.applyAll_of_not_target
          intro v hv same
          obtain ⟨r₁, mem₁, key₁⟩ := O.exists_target_upserts (t := t) hv
          exact free r₁ mem₁ (by rw [key₁, same, O.key_blank])
        rw [applyAll_concat, untouched, if_pos (O.key_blank _ _)]

/-- Where every target has a row, the upserts only override. -/
theorem upserts_of_exists {t : Table ρ} {ws : List ω}
    (all : ∀ w ∈ ws, ∃ r ∈ t, O.key r = O.target w) :
    O.upserts t ws = t.update (fun _ => true) (O.applyAll ws) (O.id_applyAll ws) := by
  induction ws using List.reverseRecOn with
  | nil =>
      refine Table.eq_of_rows_eq ?_ rfl
      simp [upserts, Table.update, applyAll]
  | append_singleton ws w ih =>
      have before := ih fun v hv => all v (by simp [hv])
      obtain ⟨r, mem, key⟩ := all w (by simp)
      have found : (O.upserts t ws).any (fun r => O.key r = O.target w) = true := by
        rw [before, Table.any_eq_true_iff]
        refine ⟨O.applyAll ws r, (Table.mem_update _).mpr ⟨r, mem, rfl⟩, ?_⟩
        simpa using key
      rw [upserts_concat, upsert, if_pos found, before]
      refine Table.eq_of_rows_eq ?_ rfl
      simp only [Table.update, List.map_map, Function.comp_def, if_true, applyAll_concat,
        decide_eq_true_eq]

/-- The same list of overrides a second time leaves the table as it is. -/
theorem upserts_upserts (t : Table ρ) (ws : List ω) :
    O.upserts (O.upserts t ws) ws = O.upserts t ws := by
  rw [O.upserts_of_exists fun w hw => O.exists_target_upserts hw]
  refine Table.eq_of_rows_eq ?_ rfl
  conv_rhs => rw [← List.map_id (O.upserts t ws).rows]
  apply List.map_congr_left
  intro r mem
  obtain ⟨r₀, rfl, -⟩ := O.exists_of_mem_upserts (t := t) mem
  exact O.applyAll_applyAll ws r₀

end Override

end Ecube
