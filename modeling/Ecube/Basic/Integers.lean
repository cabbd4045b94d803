import Ecube.Basic.PosixPath
import Mathlib.Tactic.IntervalCases

/-!
Integers as `str` writes and `int` reads them in Python: with at most 4300 digits.

`parseInt_strInt`: an integer is read back from its text. `exists_toDigits`: digits without a
leading zero are those of a number.
-/

namespace Ecube.Integers

open PosixPath

def decimal : Int → Str
  | .ofNat n => Nat.toDigits 10 n
  | .negSucc n => '-' :: Nat.toDigits 10 (n + 1)

/-- `sys.int_info.default_max_str_digits`. -/
def maxDigits : Nat := 4300

/-- `str(n)`; `none` is a `ValueError`. -/
def strInt (n : Int) : Option Str :=
  if (Nat.toDigits 10 n.natAbs).length ≤ maxDigits then some (decimal n) else none

/-- The value of a decimal digit. Those that are not ASCII are looked up. -/
def digitValue (digit : Char → Option Nat) (c : Char) : Option Nat :=
  if c.isDigit then some (c.toNat - '0'.toNat) else digit c

/-- A sign, and the digits after it. -/
def splitSign : Str → Bool × Str
  | '-' :: rest => (true, rest)
  | '+' :: rest => (false, rest)
  | s => (false, s)

/-- `int(s)`: digits, with single underscores between them. -/
def parseInt (digit : Char → Option Nat) (s : Str) : Option Int :=
  let signed := splitSign (strip s)
  let groups := signed.2.splitOn '_'
  let digits := groups.flatten
  if [] ∉ groups ∧ digits.all (fun c => (digitValue digit c).isSome) ∧
      digits.length ≤ maxDigits then
    let n := digits.foldl (fun n c => 10 * n + (digitValue digit c).getD 0) 0
    some (if signed.1 then -n else n)
  else none

/-! ### Reading back -/

theorem not_isSpace_of_isDigit {c : Char} (h : c.isDigit = true) : isSpace c = false := by
  have bounds : 48 ≤ c.toNat ∧ c.toNat ≤ 57 := by
    rw [Char.isDigit, Bool.and_eq_true, decide_eq_true_eq, decide_eq_true_eq] at h
    exact ⟨h.1, h.2⟩
  rw [isSpace, decide_eq_false_iff_not]
  omega

theorem isDigit_of_mem_toDigits {n : Nat} {c : Char} (h : c ∈ Nat.toDigits 10 n) :
    c.isDigit = true :=
  Nat.isDigit_of_mem_toDigits (by decide) (by decide) h

theorem decimal_ne_nil (n : Int) : decimal n ≠ [] := by
  cases n with
  | ofNat m => exact Nat.toDigits_ne_nil
  | negSucc m => exact List.cons_ne_nil _ _

theorem not_isSpace_of_mem_decimal {n : Int} {c : Char} (h : c ∈ decimal n) :
    isSpace c = false := by
  have digit : ∀ m, c ∈ Nat.toDigits 10 m → isSpace c = false := fun m mem =>
    not_isSpace_of_isDigit (isDigit_of_mem_toDigits mem)
  cases n with
  | ofNat m => exact digit m h
  | negSucc m =>
      rcases List.mem_cons.mp h with rfl | later
      · rfl
      · exact digit _ later

theorem foldl_digitValue (digit : Char → Option Nat) {s : Str} (h : ∀ c ∈ s, c.isDigit = true)
    (init : Nat) :
    s.foldl (fun n c => 10 * n + (digitValue digit c).getD 0) init =
      Nat.ofDigitChars 10 s init := by
  induction s generalizing init with
  | nil => rfl
  | cons c s ih =>
      rw [List.foldl_cons, Nat.ofDigitChars_cons, digitValue, if_pos (h c List.mem_cons_self),
        Option.getD_some]
      exact ih (fun d mem => h d (List.mem_cons_of_mem c mem)) _

theorem splitSign_toDigits (n : Nat) :
    splitSign (Nat.toDigits 10 n) = (false, Nat.toDigits 10 n) := by
  cases digits : Nat.toDigits 10 n with
  | nil => rfl
  | cons c rest =>
      have digit : c.isDigit = true :=
        isDigit_of_mem_toDigits (digits ▸ List.mem_cons_self)
      unfold splitSign
      split
      next same =>
        cases same
        exact absurd digit (by decide)
      next same =>
        cases same
        exact absurd digit (by decide)
      next => rfl

theorem splitSign_decimal (n : Int) :
    splitSign (decimal n) = (decide (n < 0), Nat.toDigits 10 n.natAbs) := by
  cases n with
  | ofNat m =>
      have nonneg : ¬ Int.ofNat m < 0 := Int.not_lt.mpr (Int.natCast_nonneg m)
      rw [decide_eq_false nonneg]
      exact splitSign_toDigits m
  | negSucc m =>
      have neg : Int.negSucc m < 0 := Int.negSucc_lt_zero m
      rw [decide_eq_true neg]
      rfl

/-- An integer is read back from its text. -/
theorem parseInt_strInt (digit : Char → Option Nat) {n : Int} {s : Str} (h : strInt n = some s) :
    parseInt digit s = some n := by
  rw [strInt] at h
  split at h
  next short =>
    cases h
    have digits : ∀ c ∈ Nat.toDigits 10 n.natAbs, c.isDigit = true :=
      fun c mem => isDigit_of_mem_toDigits mem
    have strips : strip (decimal n) = decimal n :=
      strip_of_no_space fun c mem => not_isSpace_of_mem_decimal mem
    have group : (Nat.toDigits 10 n.natAbs).splitOn '_' = [Nat.toDigits 10 n.natAbs] := by
      apply List.splitOn_eq_singleton
      intro mem
      exact absurd (digits '_' mem) (by decide)
    have known : (Nat.toDigits 10 n.natAbs).all (fun c => (digitValue digit c).isSome) = true := by
      apply List.all_eq_true.mpr
      intro c mem
      rw [digitValue, if_pos (digits c mem), Option.isSome_some]
    have value : (Nat.toDigits 10 n.natAbs).foldl
        (fun n c => 10 * n + (digitValue digit c).getD 0) 0 = n.natAbs := by
      rw [foldl_digitValue digit digits, Nat.ofDigitChars_ten_toDigits]
    have some : [] ∉ [Nat.toDigits 10 n.natAbs] := by
      rw [List.mem_singleton]
      exact Ne.symm Nat.toDigits_ne_nil
    simp only [parseInt, strips, splitSign_decimal, group, List.flatten_singleton]
    rw [if_pos ⟨some, known, short⟩, value]
    split
    next negative =>
      have sign : n < 0 := of_decide_eq_true negative
      congr 1
      omega
    next positive =>
      have sign : ¬ n < 0 := fun negative => positive (decide_eq_true negative)
      congr 1
      omega
  next => exact absurd h nofun

theorem exists_digitChar {c : Char} (digit : c.isDigit = true) :
    ∃ d < 10, c = d.digitChar ∧ (c ≠ '0' → 0 < d) := by
  rw [Char.isDigit, Bool.and_eq_true, decide_eq_true_eq, decide_eq_true_eq] at digit
  have low : 48 ≤ c.toNat := digit.1
  have high : c.toNat ≤ 57 := digit.2
  refine ⟨c.toNat - 48, by omega, ?_, ?_⟩
  · rw [← Char.ofNat_toNat c]
    generalize c.toNat = n at low high
    interval_cases n <;> rfl
  · intro nonzero
    by_contra zero
    have same : c.toNat = 48 := by omega
    exact nonzero (by rw [← Char.ofNat_toNat c, same])

/-- The number of a text is below the power of ten of its length. -/
theorem foldl_digitValue_lt {digit : Char → Option Nat} (small : ∀ c d, digit c = some d → d ≤ 9)
    (s : Str) (init : Nat) :
    s.foldl (fun n c => 10 * n + (digitValue digit c).getD 0) init <
      (init + 1) * 10 ^ s.length := by
  induction s generalizing init with
  | nil => simp
  | cons c s ih =>
      have value : (digitValue digit c).getD 0 ≤ 9 := by
        rw [digitValue]
        split
        next ascii =>
          obtain ⟨d, bound, rfl, _⟩ := exists_digitChar ascii
          interval_cases d <;> decide
        next =>
          cases found : digit c with
          | none => simp
          | some d => exact small c d found
      calc (c :: s).foldl (fun n c => 10 * n + (digitValue digit c).getD 0) init
          < (10 * init + (digitValue digit c).getD 0 + 1) * 10 ^ s.length := ih _
        _ ≤ ((init + 1) * 10) * 10 ^ s.length := Nat.mul_le_mul_right _ (by omega)
        _ = (init + 1) * 10 ^ (c :: s).length := by
          rw [List.length_cons, Nat.pow_succ', Nat.mul_assoc]

/-- An integer that was read can be written. -/
theorem strInt_of_parseInt {digit : Char → Option Nat} (small : ∀ c d, digit c = some d → d ≤ 9)
    {s : Str} {n : Int} (h : parseInt digit s = some n) : (strInt n).isSome = true := by
  have short : (Nat.toDigits 10 n.natAbs).length ≤ maxDigits := by
    simp only [parseInt] at h
    split at h
    next accepted =>
      obtain ⟨-, -, length⟩ := accepted
      generalize ((splitSign (strip s)).2.splitOn '_').flatten = digits at h length
      have bound := foldl_digitValue_lt small digits 0
      rw [Nat.zero_add, Nat.one_mul] at bound
      generalize digits.foldl (fun n c => 10 * n + (digitValue digit c).getD 0) 0 = m at h bound
      have abs : n.natAbs = m := by
        rw [← Option.some.inj h]
        split <;> simp
      rw [abs, Nat.length_toDigits_le_iff (by decide) (by decide)]
      exact Nat.lt_of_lt_of_le bound (Nat.pow_le_pow_right (by decide) length)
    next => cases h
  rw [strInt, if_pos short]
  rfl

/-! ### Digits of a number -/

theorem exists_toDigits {s : Str} (nonempty : s ≠ []) (digits : ∀ c ∈ s, c.isDigit = true)
    (leading : s.head? ≠ some '0') : ∃ n, 0 < n ∧ Nat.toDigits 10 n = s := by
  induction s using List.reverseRecOn with
  | nil => exact absurd rfl nonempty
  | append_singleton front c ih =>
      obtain ⟨d, small, rfl, positive⟩ := exists_digitChar (digits c (by simp))
      by_cases single : front = []
      · subst single
        have nonzero : d.digitChar ≠ '0' := fun zero => leading (congrArg some zero)
        exact ⟨d, positive nonzero, Nat.toDigits_of_lt_base small⟩
      · have head : (front ++ [d.digitChar]).head? = front.head? :=
          List.head?_append_of_ne_nil _ single
        obtain ⟨n, pos, eq⟩ := ih single (fun e mem => digits e (List.mem_append_left _ mem))
          (head ▸ leading)
        refine ⟨10 * n + d, by omega, ?_⟩
        rw [← Nat.toDigits_append_toDigits (by decide) pos small, eq,
          Nat.toDigits_of_lt_base small]

theorem head_toDigits {n : Nat} (positive : 0 < n) : (Nat.toDigits 10 n).head? ≠ some '0' := by
  induction n using Nat.strongRecOn with
  | ind n ih =>
      by_cases small : n < 10
      · rw [Nat.toDigits_of_lt_base small]
        interval_cases n <;> decide
      · have split : 10 * (n / 10) + n % 10 = n := Nat.div_add_mod n 10
        have quotient : 0 < n / 10 := by omega
        rw [← split, ← Nat.toDigits_append_toDigits (by decide) quotient (Nat.mod_lt n (by decide)),
          List.head?_append_of_ne_nil _ Nat.toDigits_ne_nil]
        exact ih (n / 10) (by omega) quotient

end Ecube.Integers
