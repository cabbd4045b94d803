import Ecube.Basic.Swaps
import Ecube.Services.PasswordPolicy

/-!
The demo password that is generated for a policy (`app/utils/password_policy.py`).

The random choices are a list of draws, the results of `secrets.randbelow` in their order.
`demo_password`: the password is long enough, has every class of characters, and has equal
neighbours only where nothing else follows. Sequences and runs of one class are not looked at.
-/

namespace Ecube.DemoPassword

open PasswordPolicy Swaps

/-! ### The generator -/

/-- `_LOWER_POOL`. -/
def lowerPool : Str := "bcdfghjkmnpqrstvwxyz".toList

/-- `_UPPER_POOL`. -/
def upperPool : Str := "BCDFGHJKLMNPQRSTVWXYZ".toList

/-- `_DIGIT_POOL`. -/
def digitPool : Str := "346789".toList

/-- `_SPECIAL_POOL`. -/
def specialPool : Str := "@%+=_!$-?".toList

def pools : List Str := [lowerPool, upperPool, digitPool, specialPool]

def allCharacters : Str := pools.flatten

abbrev Draws := List Nat

/-- `secrets.choice`. -/
def choice (pool : Str) : Draws → Option (Char × Draws)
  | [] => none
  | d :: draws => pool[d]?.map fun c => (c, draws)

/-- `secrets.randbelow`. -/
def randbelow (bound : Nat) : Draws → Option (Nat × Draws)
  | [] => none
  | d :: draws => if d < bound then some (d, draws) else none

/-- A character of a pool that does not equal the last one, if the pool has another. -/
def drawPool (pool characters : Str) (draws : Draws) : Option (Char × Draws) := do
  let (candidate, draws) ← choice pool draws
  let choices := pool.filter fun char => characters.getLast? ≠ some char
  if characters.getLast? = some candidate ∧ choices ≠ [] then choice choices draws
  else some (candidate, draws)

/-- One character of each pool. -/
def drawPools : List Str → Str → Draws → Option (Str × Draws)
  | [], characters, draws => some (characters, draws)
  | pool :: pools, characters, draws => do
      let (candidate, draws) ← drawPool pool characters draws
      drawPools pools (characters ++ [candidate]) draws

/-- Characters are drawn until there are enough; one that equals the last is drawn again. -/
def fill (targetLength : Nat) (characters : Str) : Draws → Option (Str × Draws)
  | [] => if targetLength ≤ characters.length then some (characters, []) else none
  | d :: draws =>
      if targetLength ≤ characters.length then some (characters, d :: draws)
      else
        match allCharacters[d]? with
        | none => none
        | some candidate =>
            if characters.getLast? = some candidate then fill targetLength characters draws
            else fill targetLength (characters ++ [candidate]) draws

/-- Each character, from the one at an index down, is swapped with one that is not behind it. -/
def shuffle : Nat → Str → Draws → Option (Str × Draws)
  | 0, characters, draws => some (characters, draws)
  | index + 1, characters, draws => do
      let (swapIndex, draws) ← randbelow (index + 2) draws
      shuffle index (swap characters (index + 1) swapIndex) draws

/-- `build_policy_friendly_demo_password`. -/
def buildPolicyFriendlyDemoPassword (policyValues : Key → Option Int) (draws : Draws) :
    Option Str := do
  let effectiveValues := nextValues defaultValues policyValues
  let minlen := max (effectiveValues .minlen) 12
  let targetLength := (max minlen 24).toNat
  let (characters, draws) ← drawPools pools [] draws
  let (characters, draws) ← fill targetLength characters draws
  let (characters, _) ← shuffle (characters.length - 1) characters draws
  return separate characters

/-! ### The policy -/

inductive CharClass where
  | lower
  | upper
  | digit
  | other
  deriving DecidableEq, Repr

def CharClass.all : List CharClass := [.lower, .upper, .digit, .other]

def classOf (c : Char) : CharClass :=
  if c.isLower then .lower
  else if c.isUpper then .upper
  else if c.isDigit then .digit
  else .other

def classCount (password : Str) : Nat :=
  (CharClass.all.filter fun cls => password.any fun c => classOf c = cls).length

/-- No run of related neighbours is longer than the bound. -/
def NoLongerRun (r : Char → Char → Prop) (bound : Int) (password : Str) : Prop :=
  ∀ run, run <:+: password → run.IsChain r → run.length ≤ bound

/-- The password satisfies the policy. -/
structure Satisfies (values : Values) (password : Str) : Prop where
  length : values .minlen ≤ password.length
  classes : min (values .minclass) 4 ≤ classCount password
  repeats : 0 < values .maxrepeat → NoLongerRun (· = ·) (values .maxrepeat) password
  rising : 0 < values .maxsequence →
    NoLongerRun (fun a b => b.toNat = a.toNat + 1) (values .maxsequence) password
  falling : 0 < values .maxsequence →
    NoLongerRun (fun a b => a.toNat = b.toNat + 1) (values .maxsequence) password
  classRepeats : 0 < values .maxclassrepeat →
    NoLongerRun (fun a b => classOf a = classOf b) (values .maxclassrepeat) password

/-- What the generator looks after. -/
structure LooksAfter (values : Values) (password : Str) : Prop where
  length : values .minlen ≤ password.length
  classes : min (values .minclass) 4 ≤ classCount password
  repeats : 0 < values .maxrepeat → ∀ front run back, password = front ++ run ++ back →
    run.IsChain (· = ·) → (∃ c ∈ back, c ∉ run) → run.length ≤ values .maxrepeat

/-! ### What is drawn -/

theorem mem_of_choice {pool : Str} {draws rest : Draws} {c : Char}
    (drawn : choice pool draws = some (c, rest)) : c ∈ pool := by
  cases draws with
  | nil => cases drawn
  | cons d draws =>
      rw [choice, Option.map_eq_some_iff] at drawn
      obtain ⟨_, found, ⟨⟩⟩ := drawn
      exact List.mem_of_getElem? found

theorem mem_of_drawPool {pool characters : Str} {draws rest : Draws} {c : Char}
    (drawn : drawPool pool characters draws = some (c, rest)) : c ∈ pool := by
  simp only [drawPool, Option.bind_eq_bind, Option.bind_eq_some_iff] at drawn
  obtain ⟨⟨candidate, draws'⟩, chosen, again⟩ := drawn
  split at again
  · exact List.mem_of_mem_filter (mem_of_choice again)
  · cases again
    exact mem_of_choice chosen

theorem drawPools_spec {pools : List Str} {characters result : Str} {draws rest : Draws}
    (drawn : drawPools pools characters draws = some (result, rest)) :
    characters ⊆ result ∧ ∀ pool ∈ pools, ∃ c ∈ result, c ∈ pool := by
  induction pools generalizing characters draws with
  | nil =>
      cases drawn
      exact ⟨List.Subset.refl _, fun _ mem => absurd mem List.not_mem_nil⟩
  | cons pool pools ih =>
      rw [drawPools] at drawn
      simp only [Option.bind_eq_bind, Option.bind_eq_some_iff] at drawn
      obtain ⟨⟨candidate, draws'⟩, chosen, drawn⟩ := drawn
      have member : candidate ∈ pool := mem_of_drawPool chosen
      obtain ⟨subset, others⟩ := ih drawn
      rw [List.append_subset] at subset
      have kept : candidate ∈ result := subset.2 List.mem_cons_self
      exact ⟨subset.1, List.forall_mem_cons.mpr ⟨⟨candidate, kept, member⟩, others⟩⟩

theorem fill_spec {targetLength : Nat} {characters result : Str} {draws rest : Draws}
    (filled : fill targetLength characters draws = some (result, rest)) :
    characters ⊆ result ∧ targetLength ≤ result.length := by
  induction draws generalizing characters with
  | nil =>
      rw [fill] at filled
      split at filled
      next enough =>
        cases filled
        exact ⟨List.Subset.refl _, enough⟩
      next => cases filled
  | cons d draws ih =>
      rw [fill] at filled
      split at filled
      next enough =>
        cases filled
        exact ⟨List.Subset.refl _, enough⟩
      next =>
        split at filled
        · cases filled
        · split at filled
          · exact ih filled
          · obtain ⟨subset, enough⟩ := ih filled
            exact ⟨(List.append_subset.mp subset).1, enough⟩

theorem shuffle_perm {index : Nat} {characters result : Str} {draws rest : Draws}
    (shuffled : shuffle index characters draws = some (result, rest)) :
    result.Perm characters := by
  induction index generalizing characters draws with
  | zero =>
      cases shuffled
      exact .refl _
  | succ index ih =>
      rw [shuffle] at shuffled
      simp only [Option.bind_eq_bind, Option.bind_eq_some_iff] at shuffled
      obtain ⟨⟨swapIndex, draws'⟩, -, shuffled⟩ := shuffled
      exact (ih shuffled).trans (swap_perm _ _ _)

theorem classOf_lowerPool : lowerPool.all (classOf · = .lower) = true := rfl

theorem classOf_upperPool : upperPool.all (classOf · = .upper) = true := rfl

theorem classOf_digitPool : digitPool.all (classOf · = .digit) = true := rfl

theorem classOf_specialPool : specialPool.all (classOf · = .other) = true := rfl

/-- The pools have one class each. -/
theorem classCount_of_pools {password : Str} (drawn : ∀ pool ∈ pools, ∃ c ∈ password, c ∈ pool) :
    classCount password = 4 := by
  have has : ∀ {pool cls}, pool ∈ pools → pool.all (classOf · = cls) = true →
      password.any (fun c => classOf c = cls) = true := by
    intro pool cls mem uniform
    obtain ⟨c, within, member⟩ := drawn pool mem
    exact List.any_eq_true.mpr ⟨c, within, List.all_eq_true.mp uniform c member⟩
  have lower := has (by simp [pools]) classOf_lowerPool
  have upper := has (by simp [pools]) classOf_upperPool
  have digit := has (by simp [pools]) classOf_digitPool
  have other := has (by simp [pools]) classOf_specialPool
  simp only [classCount, CharClass.all, List.filter_cons, lower, upper, digit, other, if_true,
    List.filter_nil, List.length_cons, List.length_nil]

/-! ### The password -/

/-- Of the policy the generator reads the length alone. -/
theorem build_congr {policyValues other : Key → Option Int} (draws : Draws)
    (same : other .minlen = policyValues .minlen) :
    buildPolicyFriendlyDemoPassword other draws =
      buildPolicyFriendlyDemoPassword policyValues draws := by
  have minlen : nextValues defaultValues other .minlen =
      nextValues defaultValues policyValues .minlen := by
    rw [nextValues, nextValues, same]
  rw [buildPolicyFriendlyDemoPassword, buildPolicyFriendlyDemoPassword, minlen]

/-- The password is long enough, has every class, and has no run that is too long and that
something else follows. It does not depend on the other values of the policy. -/
theorem demo_password {policyValues : Key → Option Int} {draws : Draws} {password : Str}
    (built : buildPolicyFriendlyDemoPassword policyValues draws = some password) :
    LooksAfter (nextValues defaultValues policyValues) password ∧
      ∀ other : Key → Option Int, other .minlen = policyValues .minlen →
        buildPolicyFriendlyDemoPassword other draws = some password := by
  refine ⟨?_, fun other same => (build_congr draws same).trans built⟩
  rw [buildPolicyFriendlyDemoPassword] at built
  simp only [Option.bind_eq_bind, Option.bind_eq_some_iff, Option.pure_def,
    Option.some.injEq] at built
  obtain ⟨⟨first, draws₁⟩, drawn, ⟨filled, draws₂⟩, enough, ⟨shuffled, draws₃⟩, mixed, rfl⟩ := built
  obtain ⟨-, every⟩ := drawPools_spec drawn
  obtain ⟨subset, length⟩ := fill_spec enough
  have perm : (separate shuffled).Perm filled := (separate_perm shuffled).trans (shuffle_perm mixed)
  constructor
  · rw [perm.length_eq]
    omega
  · have all : ∀ pool ∈ pools, ∃ c ∈ separate shuffled, c ∈ pool := by
      intro pool mem
      obtain ⟨c, mem, member⟩ := every pool mem
      exact ⟨c, perm.mem_iff.mpr (subset mem), member⟩
    rw [classCount_of_pools all]
    exact Int.min_le_right _ _
  · intro positive front run back split equal ⟨c, mem, other⟩
    have short := length_le_of_separate split equal mem other
    omega

/-! ### A password that breaks the policy -/

/-- `{"maxrepeat": 1, "maxclassrepeat": 3}`. -/
def strictPolicy : Key → Option Int
  | .maxrepeat => some 1
  | .maxclassrepeat => some 3
  | _ => none

/-- One character of each pool, `pqrst` four times, and swaps of which only the second moves
something. -/
def systematicDraws : Draws :=
  [0, 0, 0, 0] ++ [10, 11, 12, 13, 14, 10, 11, 12, 13, 14, 10, 11, 12, 13, 14, 10, 11, 12, 13, 14] ++
    [23, 18, 21, 20, 19, 18, 17, 16, 15, 14, 13, 12, 11, 10, 9, 8, 7, 6, 5, 4, 3, 2, 1]

def systematicPassword : Str := "bB3@pqrstpqrstpqrspsqrtt".toList

theorem systematic_built :
    buildPolicyFriendlyDemoPassword strictPolicy systematicDraws = some systematicPassword := by
  decide +kernel

theorem systematic_looksAfter :
    LooksAfter (nextValues defaultValues strictPolicy) systematicPassword ∧
      ∀ other : Key → Option Int, other .minlen = strictPolicy .minlen →
        buildPolicyFriendlyDemoPassword other systematicDraws = some systematicPassword :=
  demo_password systematic_built

/-- The password ends with `tt`, has `pqrst` in it and has runs of lower-case letters. -/
theorem systematic_not_satisfies :
    buildPolicyFriendlyDemoPassword strictPolicy systematicDraws = some systematicPassword ∧
      ¬ Satisfies (nextValues defaultValues strictPolicy) systematicPassword ∧
      ¬ NoLongerRun (· = ·) 1 systematicPassword ∧
      ¬ NoLongerRun (fun a b => b.toNat = a.toNat + 1) 4 systematicPassword ∧
      ¬ NoLongerRun (fun a b => classOf a = classOf b) 3 systematicPassword := by
  have repeats : ¬ NoLongerRun (· = ·) 1 systematicPassword := by
    intro bound
    have ends : "tt".toList <:+: systematicPassword := ⟨"bB3@pqrstpqrstpqrspsqr".toList, [], rfl⟩
    have short := bound _ ends (by decide)
    exact absurd short (by decide)
  have middle : "pqrst".toList <:+: systematicPassword :=
    ⟨"bB3@".toList, "pqrstpqrspsqrtt".toList, rfl⟩
  refine ⟨systematic_built, fun satisfies => ?_, repeats, fun bound => ?_, fun bound => ?_⟩
  · exact repeats (satisfies.repeats (by decide))
  · have short := bound _ middle (by decide)
    exact absurd short (by decide)
  · have short := bound _ middle (by decide)
    exact absurd short (by decide)

end Ecube.DemoPassword
