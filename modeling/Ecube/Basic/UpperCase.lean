import Ecube.Basic.PosixPath

/-!
The upper case of a text, as `str.upper` has it.

The characters that are not ASCII are looked up in a table, of which `IsUpperTable` says what
Unicode has. Upper case is settled (`upper_upper`), keeps a text trimmed (`strip_upper`) and keeps
the slashes (`count_upper`).
-/

namespace Ecube.UpperCase

open PosixPath

variable (table : Char → Str)

def upperChar (c : Char) : Str := if c.toNat < 128 then [c.toUpper] else table c

/-- `s.upper()`. -/
def upper (s : Str) : Str := s.flatMap (upperChar table)

/-- What holds of the upper case of the characters that are not ASCII. -/
structure IsUpperTable : Prop where
  nonempty : ∀ c, 128 ≤ c.toNat → table c ≠ []
  settled : ∀ c, 128 ≤ c.toNat → ∀ d ∈ table c, upperChar table d = [d]
  dark : ∀ c, 128 ≤ c.toNat → isSpace c = false → ∀ d ∈ table c, isSpace d = false
  plain : ∀ c, 128 ≤ c.toNat → ∀ d ∈ table c, d ≠ '/' ∧ d ≠ '\x00'

variable {table}

theorem ascii_upper : ∀ n < 128, (Char.ofNat n).toUpper.toNat < 128 ∧
    (Char.ofNat n).toUpper.toUpper = (Char.ofNat n).toUpper ∧
    isSpace (Char.ofNat n).toUpper = isSpace (Char.ofNat n) ∧
    ((Char.ofNat n).toUpper = '/' ↔ Char.ofNat n = '/') ∧
    ((Char.ofNat n).toUpper = '\x00' ↔ Char.ofNat n = '\x00') := by
  decide +kernel

theorem ascii_toUpper {c : Char} (ascii : c.toNat < 128) : c.toUpper.toNat < 128 ∧
    c.toUpper.toUpper = c.toUpper ∧ isSpace c.toUpper = isSpace c ∧
    (c.toUpper = '/' ↔ c = '/') ∧ (c.toUpper = '\x00' ↔ c = '\x00') := by
  have all := ascii_upper c.toNat ascii
  rwa [Char.ofNat_toNat] at all

variable (unicode : IsUpperTable table)

include unicode

theorem upperChar_ne_nil (c : Char) : upperChar table c ≠ [] := by
  rw [upperChar]
  split
  · exact List.cons_ne_nil _ _
  next other => exact unicode.nonempty c (Nat.le_of_not_lt other)

theorem upperChar_of_mem {c d : Char} (mem : d ∈ upperChar table c) : upperChar table d = [d] := by
  rw [upperChar] at mem
  split at mem
  next ascii =>
    obtain rfl := List.mem_singleton.mp mem
    obtain ⟨small, settled, -⟩ := ascii_toUpper ascii
    rw [upperChar, if_pos small, settled]
  next other => exact unicode.settled c (Nat.le_of_not_lt other) d mem

theorem upper_upper (s : Str) : upper table (upper table s) = upper table s := by
  have settled : ∀ d ∈ upper table s, upperChar table d = [d] := by
    intro d mem
    obtain ⟨c, -, mem⟩ := List.mem_flatMap.mp mem
    exact upperChar_of_mem unicode mem
  generalize upper table s = t at settled
  induction t with
  | nil => rfl
  | cons d t ih =>
      rw [List.forall_mem_cons] at settled
      rw [upper, List.flatMap_cons, settled.1, ← upper, ih settled.2, List.singleton_append]

theorem isSpace_of_mem_upperChar {c d : Char} (dark : isSpace c = false)
    (mem : d ∈ upperChar table c) : isSpace d = false := by
  rw [upperChar] at mem
  split at mem
  next ascii =>
    obtain rfl := List.mem_singleton.mp mem
    rw [(ascii_toUpper ascii).2.2.1, dark]
  next other => exact unicode.dark c (Nat.le_of_not_lt other) dark d mem

/-- A trimmed text stays trimmed. -/
theorem strip_upper (s : Str) : strip (upper table (strip s)) = upper table (strip s) := by
  cases trimmed : strip s with
  | nil => rfl
  | cons c t =>
      have first : isSpace c = false := head_strip trimmed
      obtain ⟨d, u, shape⟩ := List.exists_cons_of_ne_nil (upperChar_ne_nil unicode c)
      have front : isSpace d = false :=
        isSpace_of_mem_upperChar unicode first (shape ▸ List.mem_cons_self)
      have last : rstrip (upper table (c :: t)) = upper table (c :: t) := by
        have ends : rstrip (c :: t) = c :: t := by rw [← trimmed, rstrip_strip]
        obtain ⟨front, e, split⟩ := List.eq_nil_or_concat (c :: t) |>.resolve_left
          (List.cons_ne_nil c t)
        rw [List.concat_eq_append] at split
        rw [split] at ends ⊢
        have dark : isSpace e = false := by
          have stop := List.rdropWhile_eq_self_iff.mp ends (by simp)
          simpa using stop
        obtain ⟨init, z, whole⟩ := List.eq_nil_or_concat (upperChar table e) |>.resolve_left
          (upperChar_ne_nil unicode e)
        rw [List.concat_eq_append] at whole
        have behind : isSpace z = false :=
          isSpace_of_mem_upperChar unicode dark (whole ▸ by simp)
        rw [upper, List.flatMap_append, List.flatMap_singleton, whole, ← List.append_assoc, rstrip,
          List.rdropWhile_concat_neg]
        rw [behind]
        exact Bool.false_ne_true
      have cons : upper table (c :: t) = d :: (u ++ upper table t) := by
        rw [upper, List.flatMap_cons, shape, ← upper, List.cons_append]
      rw [cons] at last ⊢
      rw [strip_cons front, last]

theorem count_upper (s : Str) : (upper table s).count '/' = s.count '/' := by
  induction s with
  | nil => rfl
  | cons c s ih =>
      rw [upper, List.flatMap_cons, ← upper, List.count_append, ih, List.count_cons, Nat.add_comm]
      congr 1
      rw [upperChar]
      split
      next ascii =>
        rw [List.count_singleton]
        simp [(ascii_toUpper ascii).2.2.2.1]
      next other =>
        have slash : c ≠ '/' := by
          rintro rfl
          exact other (by decide)
        rw [List.count_eq_zero_of_not_mem fun mem =>
          (unicode.plain c (Nat.le_of_not_lt other) _ mem).1 rfl]
        simp [slash]

theorem not_mem_upper {s : Str} (absent : '\x00' ∉ s) : '\x00' ∉ upper table s := by
  intro mem
  obtain ⟨c, within, mem⟩ := List.mem_flatMap.mp mem
  rw [upperChar] at mem
  split at mem
  next ascii =>
    have null := (ascii_toUpper ascii).2.2.2.2.mp (List.mem_singleton.mp mem).symm
    exact absent (null ▸ within)
  next other => exact (unicode.plain c (Nat.le_of_not_lt other) _ mem).2 rfl

end Ecube.UpperCase
