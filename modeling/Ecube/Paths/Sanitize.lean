import Ecube.Basic.Outcome
import Ecube.Basic.PosixPath

/-!
Source-path validation (`app/utils/sanitize.py`).

`validateSourcePath` and `resolveSourcePath` follow the source check by check.
Characters are Unicode scalar values, so the surrogate code points that
`strict_sanitize_string` also refuses do not occur.
-/

namespace Ecube

open PosixPath

/-- An optional text as Python's `if text:` reads it: the empty string counts as missing. -/
def truthy (s : Option Str) : Option Str := s.filter (· ≠ [])

theorem truthy_eq_some {value : Option Str} {v : Str} (h : truthy value = some v) : value = some v :=
  (Option.filter_eq_some_iff.mp h).1

def strictSanitizeString (value : Str) : Except String Str :=
  if '\x00' ∈ value then
    .error ("Value contains invalid characters (null bytes or surrogate code points) "
      ++ "that are not allowed in path fields")
  else .ok value

def disallowedSourcePrefixes : List Str :=
  ["/proc".toList, "/sys".toList, "/dev".toList, "/run".toList]

/-- Whether a normalised path lies in the area of an optional configured root.
A missing root, and the host root itself, reserve nothing. -/
def inArea (root : Option Str) (normalized : Str) : Bool :=
  match truthy root with
  | none => false
  | some root =>
      let area := normpath (strip root)
      area ≠ [] ∧ area ≠ ['/'] ∧ Below area normalized

def validateSourcePath (value : Str) (usbMountBasePath targetMountPath : Option Str) :
    Except String Str := do
  let value ← strictSanitizeString value
  let normalized := normpath (strip value)
  ensure (normalized ≠ []) "Source path is required"
  ensure (normalized ≠ ['/'])
    "Source path must point to a specific evidence directory, not the system root"
  ensure (∀ area ∈ disallowedSourcePrefixes, ¬ Below area normalized)
    "Source path must not point to a system directory"
  ensure (¬ inArea usbMountBasePath normalized)
    "Source path must not point to the ECUBE USB target area"
  ensure (¬ inArea targetMountPath normalized)
    "Source path must not point to the assigned target drive"
  return normalized

/-- The path a stripped value names on a share: the share itself, a path that
already starts with the mount root, or one joined to it. -/
def shareCandidate (rawValue normalizedMountRoot : Str) : Str :=
  if rawValue = ['/'] then
    normalizedMountRoot
  else if Below normalizedMountRoot rawValue then
    rawValue
  else
    normpath (join normalizedMountRoot (rawValue.dropWhile (· ∈ ['/', '\\'])))

def resolveSourcePath (value : Str) (mountRoot usbMountBasePath targetMountPath : Option Str) :
    Except String Str := do
  let value ← strictSanitizeString value
  let rawValue := strip value
  ensure (rawValue ≠ []) "Source path is required"
  match truthy mountRoot with
  | some root =>
      let normalizedMountRoot := normpath (strip root)
      ensure (normalizedMountRoot ≠ [] ∧ normalizedMountRoot ≠ ['/'])
        "Selected mounted share is unavailable"
      let candidate := shareCandidate rawValue normalizedMountRoot
      -- Paths without a common path are refused with the same message.
      ensure (commonpath candidate normalizedMountRoot = some normalizedMountRoot)
        "Source path must stay within the selected mounted share"
      validateSourcePath candidate usbMountBasePath targetMountPath
  | none => validateSourcePath rawValue usbMountBasePath targetMountPath

theorem strictSanitizeString_eq_ok {value v : Str} (h : strictSanitizeString value = .ok v) :
    v = value := by
  rw [strictSanitizeString] at h
  split at h
  · cases h
  · exact (Except.ok.inj h).symm

/-- An accepted path is the trimmed value in normal form. -/
theorem validateSourcePath_eq_ok {value p : Str} {usb target : Option Str}
    (h : validateSourcePath value usb target = .ok p) : p = normpath (strip value) := by
  simp only [validateSourcePath, bind_eq_ok, ensure_eq_ok, pure_eq_ok] at h
  obtain ⟨v, hv, -, -, -, -, -, -, -, -, -, -, rfl⟩ := h
  rw [strictSanitizeString_eq_ok hv]

/-- An accepted path on a share: the candidate passed the comparison with the
mount root, and is returned trimmed and in normal form. -/
theorem resolveSourcePath_eq_ok {value root p : Str} {usb target : Option Str} (hroot : root ≠ [])
    (h : resolveSourcePath value (some root) usb target = .ok p) :
    normpath (strip root) ≠ ['/'] ∧
      commonpath (shareCandidate (strip value) (normpath (strip root))) (normpath (strip root)) =
        some (normpath (strip root)) ∧
      p = normpath (strip (shareCandidate (strip value) (normpath (strip root)))) := by
  have given : truthy (some root) = some root := by simp [truthy, hroot]
  simp only [resolveSourcePath, given, bind_eq_ok, ensure_eq_ok] at h
  obtain ⟨v, hv, -, -, -, ⟨-, hslash⟩, -, common, valid⟩ := h
  rw [strictSanitizeString_eq_ok hv] at common valid
  exact ⟨hslash, common, validateSourcePath_eq_ok valid⟩

end Ecube
