import Ecube.Basic.Integers
import Ecube.Basic.Text
import Ecube.Basic.TextLines
import Mathlib.Logic.Function.Basic

/-!
The password policy in `pwquality.conf` (`app/utils/password_policy.py` and
`app/services/password_policy_service.py`).

The parser takes the last value of a key; the writer replaces the first line of a key and leaves
its further lines (`renderLines`).
-/

namespace Ecube.PasswordPolicy

open PosixPath Text TextLines Integers

/-- `WRITABLE_PASSWORD_POLICY_KEYS`. -/
inductive Key where
  | minlen
  | minclass
  | maxrepeat
  | maxsequence
  | maxclassrepeat
  | dictcheck
  | usercheck
  | difok
  | retry
  deriving DecidableEq, Repr

namespace Key

def all : List Key :=
  [minlen, minclass, maxrepeat, maxsequence, maxclassrepeat, dictcheck, usercheck, difok, retry]

theorem mem_all (k : Key) : k ∈ all := by
  cases k <;> decide

def name : Key → String
  | minlen => "minlen"
  | minclass => "minclass"
  | maxrepeat => "maxrepeat"
  | maxsequence => "maxsequence"
  | maxclassrepeat => "maxclassrepeat"
  | dictcheck => "dictcheck"
  | usercheck => "usercheck"
  | difok => "difok"
  | retry => "retry"

def text (k : Key) : Str := k.name.toList

/-- The key with a name, if it can be written. -/
def ofText (s : Str) : Option Key := all.find? fun k => k.text = s

end Key

abbrev Values := Key → Int

/-- `DEFAULT_PASSWORD_POLICY_VALUES`. -/
def defaultValues : Values
  | .minlen => 14
  | .minclass => 3
  | .maxrepeat => 3
  | .maxsequence => 4
  | .maxclassrepeat => 0
  | .dictcheck => 1
  | .usercheck => 1
  | .difok => 5
  | .retry => 3

/-- The key and the value of a line, unless it is blank or a comment. -/
def assigned (line : Str) : Option (Str × Str) :=
  let stripped := strip line
  if stripped = [] ∨ stripped.head? = some '#' then none
  else (cut '=' stripped).map fun parts => (strip parts.1, strip parts.2)

variable (digit : Char → Option Nat)

/-- `parse_pwquality_value`. -/
def parsePwqualityValue (rawValue : Str) : Option Int := parseInt digit (strip rawValue)

/-- What a line says of a key, if its value is a number. -/
def parsedLine (line : Str) : Option (Key × Int) := do
  let (name, rawValue) ← assigned line
  let key ← Key.ofText name
  let value ← parsePwqualityValue digit rawValue
  return (key, value)

def parseLines (lines : List Str) : Values :=
  lines.foldl
    (fun values line =>
      match parsedLine digit line with
      | some (key, value) => Function.update values key value
      | none => values)
    defaultValues

/-- `parse_pwquality_policy_values`. -/
def parsePwqualityPolicyValues (text : Str) : Values := parseLines digit (splitlines text)

def enforceKey : Str := "enforce_for_root".toList

/-- `_ENFORCE_FOR_ROOT_LINE`. -/
def enforceForRootLine : Str := "enforce_for_root = 1".toList

/-- The line `key = value`. -/
def settingLine (values : Values) (k : Key) : Str := k.text ++ " = ".toList ++ decimal (values k)

/-- The lines with the new values, the keys that have no line, and whether the root line was
written. -/
def renderLines (values : Values) : List Key → List Str → List Str × List Key × Bool
  | remaining, [] => ([], remaining, false)
  | remaining, rawLine :: lines =>
      match assigned rawLine with
      | none =>
          let rest := renderLines values remaining lines
          (rawLine :: rest.1, rest.2)
      | some (name, _) =>
          match remaining.find? fun k => k.text = name with
          | some key =>
              let rest := renderLines values (remaining.filter (· ≠ key)) lines
              (settingLine values key :: rest.1, rest.2)
          | none =>
              let rest := renderLines values remaining lines
              if name = enforceKey then (enforceForRootLine :: rest.1, rest.2.1, true)
              else (rawLine :: rest.1, rest.2)

/-- `_render_updated_policy`. Each value is written once; a number of more than 4300 digits
raises. -/
def renderUpdatedPolicy (existingText : Str) (values : Values) : Option Str :=
  if Key.all.all fun k => (strInt (values k)).isSome then
    let (rendered, remaining, enforceWritten) :=
      renderLines values Key.all (splitlines existingText)
    let gap := if rendered.getLast?.any (fun line => strip line ≠ []) then [[]] else []
    let appended := (Key.all.filter (· ∈ remaining)).map (settingLine values)
    let root := if enforceWritten then [] else [enforceForRootLine]
    some (rstrip (List.intercalate ['\n'] (rendered ++ gap ++ appended ++ root)) ++ ['\n'])
  else none

/-- The values after an update. -/
def nextValues (previous : Values) (updates : Key → Option Int) : Values :=
  fun k => (updates k).getD (previous k)

/-- `update_policy_settings`: the values that are reported, and the text that is written. -/
def updatePolicySettings (updates : Key → Option Int) (existingText : Str) :
    Option (Values × Values × Str) := do
  let previousValues := parsePwqualityPolicyValues digit existingText
  let next := nextValues previousValues updates
  let text ← renderUpdatedPolicy existingText next
  return (previousValues, next, text)

end Ecube.PasswordPolicy
