import Ecube.Basic.PosixPath

/-!
Texts that are searched and cut: at a character, and for ASCII words in a text of any case, as
in `word in text.lower()`.

`infix_append_cons` splits such a search at a character that the word does not have, and
`infix_cons_of_head` and `infix_concat_of_getLast` cut off one that it does not start or
end with.
-/

namespace Ecube.Text

open PosixPath

/-! ### Cutting at a character -/

/-- The text before the first occurrence of a character and the text after it. -/
def cut (c : Char) (s : Str) : Option (Str × Str) :=
  if c ∈ s then some (s.takeWhile (· ≠ c), (s.dropWhile (· ≠ c)).tail) else none

theorem cut_append_cons {c : Char} {s rest : Str} (absent : c ∉ s) :
    cut c (s ++ c :: rest) = some (s, rest) := by
  have kept : ∀ d ∈ s, decide (d ≠ c) = true :=
    fun d mem => decide_eq_true fun same => absent (same ▸ mem)
  rw [cut, if_pos (List.mem_append_right _ List.mem_cons_self),
    List.takeWhile_append_of_pos kept, List.dropWhile_append_of_pos kept]
  simp

theorem append_of_cut {c : Char} {s front rest : Str} (h : cut c s = some (front, rest)) :
    s = front ++ c :: rest := by
  rw [cut] at h
  split at h
  next mem =>
    cases h
    have found : s.dropWhile (· ≠ c) = c :: (s.dropWhile (· ≠ c)).tail := by
      cases stop : s.dropWhile (· ≠ c) with
      | nil =>
          have all := List.dropWhile_eq_nil_iff.mp stop c mem
          exact absurd rfl (of_decide_eq_true all)
      | cons d rest =>
          have head := List.head?_dropWhile_not (fun d => decide (d ≠ c)) s
          rw [stop] at head
          simp only [List.head?_cons, decide_eq_false_iff_not, ne_eq, not_not] at head
          rw [head, List.tail_cons]
    rw [← found, List.takeWhile_append_dropWhile]
  next => exact absurd h nofun

/-! ### Words -/

/-- The lower case of a character. Besides the ASCII letters only two characters
have one with an ASCII letter in it; the others are left as they are. -/
def lowerChar (c : Char) : Str :=
  if c = '\u0130' then ['i', '\u0307']
  else if c = '\u212a' then ['k']
  else [c.toLower]

def lower (s : Str) : Str := s.flatMap lowerChar

def hasWord (s : Str) (word : String) : Bool := word.toList <:+: lower s

theorem lower_append (s t : Str) : lower (s ++ t) = lower s ++ lower t :=
  List.flatMap_append

/-- A word without the character `c` lies before it or after it. -/
theorem infix_append_cons {word a b : Str} {c : Char} (absent : c ∉ word) :
    word <:+: a ++ c :: b ↔ word <:+: a ∨ word <:+: b := by
  constructor
  · rintro ⟨front, back, split⟩
    rw [List.append_assoc] at split
    rcases List.append_eq_append_iff.mp split with ⟨rest, rfl, within⟩ | ⟨rest, rfl, beyond⟩
    · rcases List.append_eq_append_iff.mp within with ⟨more, rfl, -⟩ | ⟨more, rfl, across⟩
      · exact .inl ⟨front, more, by simp⟩
      · cases more with
        | nil => exact .inl ⟨front, [], by simp⟩
        | cons d more =>
            obtain ⟨rfl, -⟩ := List.cons.inj across
            exact absurd (List.mem_append_right rest (List.mem_cons_self ..)) absent
    · cases rest with
      | cons d rest =>
          obtain ⟨-, rfl⟩ := List.cons.inj beyond
          exact .inr ⟨rest, back, by simp⟩
      | nil =>
          cases word with
          | nil => exact .inl List.nil_infix
          | cons d word =>
              obtain ⟨rfl, -⟩ := List.cons.inj beyond
              exact absurd (List.mem_cons_self ..) absent
  · rintro (⟨front, back, rfl⟩ | ⟨front, back, rfl⟩)
    · exact ⟨front, back ++ c :: b, by simp⟩
    · exact ⟨a ++ c :: front, back, by simp⟩

theorem infix_cons_of_head {word s : Str} {c : Char} (nonempty : word ≠ [])
    (starts : word.head? ≠ some c) : word <:+: c :: s ↔ word <:+: s := by
  rw [List.infix_cons_iff]
  constructor
  · rintro (⟨rest, eq⟩ | within)
    · cases word with
      | nil => exact absurd rfl nonempty
      | cons d word =>
          obtain ⟨rfl, -⟩ := List.cons.inj eq
          exact absurd rfl starts
    · exact within
  · exact .inr

theorem infix_concat_of_getLast {word s : Str} {c : Char} (nonempty : word ≠ [])
    (ends : word.getLast? ≠ some c) : word <:+: s ++ [c] ↔ word <:+: s := by
  rw [← List.reverse_infix, List.reverse_append, List.reverse_singleton, List.singleton_append,
    infix_cons_of_head (by simpa using nonempty) (by simpa using ends), List.reverse_infix]

/-- A character that is no ASCII capital letter and none of the two others. -/
theorem lowerChar_eq {c : Char} (h : c.toNat < 65 ∨ 90 < c.toNat ∧ c.toNat ≠ 0x130 ∧
    c.toNat ≠ 0x212a) : lowerChar c = [c] := by
  have first : c ≠ '\u0130' := by
    rintro rfl
    exact absurd h (by decide)
  have second : c ≠ '\u212a' := by
    rintro rfl
    exact absurd h (by decide)
  rw [lowerChar, if_neg first, if_neg second]
  delta Char.toLower
  rw [dif_neg]
  intro capital
  have low : 65 ≤ c.toNat := capital.1
  have high : c.toNat ≤ 90 := capital.2
  omega

/-- A lowered character is no capital letter. -/
theorem toLower_eq_or_le (c : Char) : c.toLower = c ∨ 97 ≤ c.toLower.toNat := by
  delta Char.toLower
  split
  next capital =>
    right
    have low : 65 ≤ c.toNat := capital.1
    have high : c.toNat ≤ 90 := capital.2
    show 97 ≤ (c.val + ('a'.val - 'A'.val)).toNat
    rw [UInt32.toNat_add]
    show 97 ≤ (c.toNat + 32) % 2 ^ 32
    omega
  next => exact .inl rfl

theorem toLower_toLower (c : Char) : c.toLower.toLower = c.toLower := by
  rcases toLower_eq_or_le c with same | small
  · rw [same, same]
  · rw [Char.toLower.eq_def c.toLower, dif_neg]
    intro capital
    have high : c.toLower.toNat ≤ 90 := capital.2
    omega

end Ecube.Text
