import Ecube.Paths.Sanitize

/-!
Forbidden source areas (`validate_source_path` in `app/utils/sanitize.py`).

The checks compare texts after `os.path.normpath`. The kernel follows a path from the root,
or from the working directory of the service if it is relative: two leading slashes are one
to it, and a relative path may climb into an area that is written from the root.
`forbidden_areas_iff` says when an accepted path, followed so, lies outside of all areas.
-/

namespace Ecube

open PosixPath

/-! ### Places -/

/-- The parent directory. -/
def dotdot : Str := ['.', '.']

/-- A directory as `getcwd` reports it: names below the root, without `.` and `..`. -/
structure WorkingDirectory where
  names : List Str
  real : ∀ n ∈ names, IsComp n ∧ n ≠ dotdot

/-- The place that one name leads to; above the root there is the root. -/
def enter (place : List Str) (name : Str) : List Str :=
  if name = dotdot then place.dropLast else place ++ [name]

/-- The place that the kernel finds at a path: it starts at the root or, for a relative
path, at the working directory. -/
def followed (cwd : WorkingDirectory) (path : Str) : List Str :=
  (comps path).foldl enter (if initialSlashes path = 0 then cwd.names else [])

/-- The directory of a configured root; a missing root is none. -/
def configuredArea (root : Option Str) : List Str :=
  ((truthy root).map fun root => normpath (strip root)).toList

/-- The filesystem root, and the directories that are forbidden with all below them. -/
def forbiddenAreas (usbMountBasePath targetMountPath : Option Str) : List Str :=
  ['/'] :: disallowedSourcePrefixes ++ configuredArea usbMountBasePath ++
    configuredArea targetMountPath

/-- The path denotes the area or a place below it. Everything lies below the root, so an
area that is the root has the root only. -/
def Denotes (cwd : WorkingDirectory) (area path : Str) : Prop :=
  followed cwd area <+: followed cwd path ∧ (followed cwd area = [] → followed cwd path = [])

instance (cwd : WorkingDirectory) (area path : Str) : Decidable (Denotes cwd area path) :=
  inferInstanceAs (Decidable (_ ∧ _))

/-- The path denotes none of the areas and nothing below them. -/
def OutsideAreas (cwd : WorkingDirectory) (usbMountBasePath targetMountPath : Option Str)
    (path : Str) : Prop :=
  ∀ area ∈ forbiddenAreas usbMountBasePath targetMountPath, ¬ Denotes cwd area path

/-- The texts are written from different places: with another number of leading slashes, or
both relative, where one climbs or the area is the working directory. -/
def WrittenApart (area path : Str) : Prop :=
  initialSlashes area ≠ initialSlashes path ∨
    (initialSlashes path = 0 ∧ (comps area = [] ∨ dotdot ∈ comps area ∨ dotdot ∈ comps path))

instance (area path : Str) : Decidable (WrittenApart area path) :=
  inferInstanceAs (Decidable (_ ∨ _))

/-- The area has the path, but is written apart from it. -/
def Hidden (cwd : WorkingDirectory) (area path : Str) : Prop :=
  WrittenApart area path ∧ Denotes cwd area path

instance (cwd : WorkingDirectory) (area path : Str) : Decidable (Hidden cwd area path) :=
  inferInstanceAs (Decidable (_ ∧ _))

section Follow

variable {cwd : WorkingDirectory} {ps place : List Str} {area path : Str}

theorem foldl_enter (plain : dotdot ∉ ps) : ps.foldl enter place = place ++ ps := by
  induction ps generalizing place with
  | nil => exact (List.append_nil place).symm
  | cons p ps ih =>
      rw [List.mem_cons, not_or] at plain
      rw [List.foldl_cons, enter, if_neg (Ne.symm plain.1), ih plain.2, List.append_assoc,
        List.singleton_append]

/-- Components that are settled from the root do not climb. -/
theorem dotdot_not_mem (settled : Settled true ps) : dotdot ∉ ps := by
  intro mem
  obtain ⟨before, after, rfl⟩ := List.append_of_mem mem
  rw [List.append_cons] at settled
  have climbs := settled_of_prefix settled
  -- All that precedes is `..` too, so the first component is.
  have first : ∃ rest, before ++ [dotdot] = [dotdot] ++ rest := by
    cases before with
    | nil => exact ⟨[], rfl⟩
    | cons p before =>
        obtain rfl : p = dotdot := settled_dotdot climbs p List.mem_cons_self
        exact ⟨before ++ [dotdot], rfl⟩
  obtain ⟨rest, eq⟩ := first
  rw [eq] at climbs
  have alone : Settled true [dotdot] := settled_of_prefix climbs
  exact absurd alone (by unfold Settled; decide)

theorem followed_absolute (norm : Normal path) (absolute : initialSlashes path ≠ 0) :
    followed cwd path = comps path := by
  have settled := norm.settled
  rw [bne_iff_ne.mpr absolute] at settled
  rw [followed, if_neg absolute, foldl_enter (dotdot_not_mem settled), List.nil_append]

theorem followed_relative (relative : initialSlashes path = 0) (plain : dotdot ∉ comps path) :
    followed cwd path = cwd.names ++ comps path := by
  rw [followed, if_pos relative, foldl_enter plain]

/-- Normalised paths without components and with as many leading slashes are the same. -/
theorem eq_of_no_comps (ha : Normal area) (hp : Normal path)
    (same : initialSlashes area = initialSlashes path) (emptyArea : comps area = [])
    (emptyPath : comps path = []) : path = area := by
  rw [← ha, ← hp, normpath_eq, normpath_eq, emptyArea, emptyPath, same]

/-- Where the texts are not written apart, they are compared as the places are. -/
theorem below_of_denotes (ha : Normal area) (hp : Normal path)
    (together : ¬ WrittenApart area path) (denotes : Denotes cwd area path) : Below area path := by
  rw [WrittenApart, not_or, not_not, not_and, not_or, not_or] at together
  obtain ⟨same, relative⟩ := together
  have below : comps area ≠ [] → comps area <+: comps path → Below area path := by
    intro some within
    have iff := @below_iff area path ha some same.symm
    rw [show normpath path = path from hp] at iff
    exact iff.mpr within
  by_cases absolute : initialSlashes path = 0
  · obtain ⟨some, area_, path_⟩ := relative absolute
    refine below some ?_
    have within := denotes.1
    rw [followed_relative (same.trans absolute) area_, followed_relative absolute path_] at within
    exact (List.prefix_append_right_inj _).mp within
  · rw [Denotes, followed_absolute ha (same ▸ absolute), followed_absolute hp absolute] at denotes
    by_cases some : comps area = []
    · exact .inl (eq_of_no_comps ha hp same some (denotes.2 some))
    · exact below some denotes.1

end Follow

/-- What an accepted path has passed. -/
theorem validateSourcePath_outside {value p : Str} {usb target : Option Str}
    (h : validateSourcePath value usb target = .ok p) :
    p ≠ ['/'] ∧ ∀ area ∈ forbiddenAreas usb target, area ≠ ['/'] → ¬ Below area p := by
  have eq := validateSourcePath_eq_ok h
  simp only [validateSourcePath, bind_eq_ok, ensure_eq_ok, pure_eq_ok] at h
  obtain ⟨v, hv, -, -, -, root, -, system, -, onUsb, -, onTarget, rfl⟩ := h
  refine ⟨root, ?_⟩
  have configured : ∀ {root : Option Str} {area : Str}, ¬ inArea root (normpath (strip v)) →
      area ∈ configuredArea root → area ≠ ['/'] → ¬ Below area (normpath (strip v)) := by
    intro root area outside mem other below
    rw [configuredArea, Option.mem_toList, Option.map_eq_some_iff] at mem
    obtain ⟨text, given, rfl⟩ := mem
    have nonempty : normpath (strip text) ≠ [] := by
      intro empty
      have norm := normal_normpath (strip text)
      rw [empty] at norm
      exact absurd norm (by decide)
    exact outside (by rw [inArea, given]; exact decide_eq_true ⟨nonempty, other, below⟩)
  intro area mem other
  rcases List.mem_append.mp mem with mem | mem
  · rcases List.mem_append.mp mem with mem | mem
    · rcases List.mem_cons.mp mem with rfl | mem
      · exact absurd rfl other
      · exact system area mem
    · exact configured onUsb mem other
  · exact configured onTarget mem other

theorem normal_forbiddenAreas {usb target : Option Str} {area : Str}
    (mem : area ∈ forbiddenAreas usb target) : Normal area := by
  have configured : ∀ {root : Option Str}, area ∈ configuredArea root → Normal area := by
    intro root mem
    rw [configuredArea, Option.mem_toList, Option.map_eq_some_iff] at mem
    obtain ⟨text, -, rfl⟩ := mem
    exact normal_normpath _
  have fixed : ∀ area ∈ ['/'] :: disallowedSourcePrefixes, Normal area := by decide
  rcases List.mem_append.mp mem with mem | mem
  · rcases List.mem_append.mp mem with mem | mem
    · exact fixed area mem
    · exact configured mem
  · exact configured mem

/-- An accepted path is absolute exactly when the given one is. It lies outside of all
forbidden areas, as the kernel follows it, exactly when none of them that is written apart
from it has it. -/
theorem forbidden_areas_iff {value p : Str} {usb target : Option Str} (cwd : WorkingDirectory)
    (accepted : validateSourcePath value usb target = .ok p) :
    (initialSlashes p = 0 ↔ initialSlashes (strip value) = 0) ∧
      (OutsideAreas cwd usb target p ↔
        ∀ area ∈ forbiddenAreas usb target, ¬ Hidden cwd area (normpath (strip value))) := by
  have eq := validateSourcePath_eq_ok accepted
  obtain ⟨root, passed⟩ := validateSourcePath_outside accepted
  subst eq
  refine ⟨by rw [initialSlashes_normpath], ?_⟩
  refine forall₂_congr fun area mem => not_congr ⟨fun denotes => ⟨?_, denotes⟩, And.right⟩
  by_contra together
  have below := below_of_denotes (normal_forbiddenAreas mem) (normal_normpath _) together denotes
  by_cases other : area = ['/']
  · -- The path is the root itself, and it was refused as such.
    subst other
    rw [WrittenApart, not_or, not_not] at together
    have absolute : initialSlashes (normpath (strip value)) ≠ 0 := by
      rw [← together.1]
      decide
    have empty := denotes.2 rfl
    rw [followed_absolute (normal_normpath _) absolute] at empty
    exact root (eq_of_no_comps (by decide) (normal_normpath _) together.1 rfl empty)
  · exact passed area mem other below

/-- The working directory of the service. -/
def serviceDirectory : WorkingDirectory where
  names := ["opt".toList, "ecube".toList]
  real := by decide

/-- `/mnt/evidence` lies outside of all areas. -/
theorem evidence_outside :
    OutsideAreas serviceDirectory (some "/mnt/ecube".toList) none "/mnt/evidence".toList := by
  have accepted : validateSourcePath "/mnt/evidence/".toList (some "/mnt/ecube".toList) none =
      .ok "/mnt/evidence".toList := by decide
  exact (forbidden_areas_iff serviceDirectory accepted).2.mpr (by decide)

/-- `//proc` is accepted, and so is `../../proc`; the kernel follows both to `/proc`. -/
theorem double_slash_accepted :
    validateSourcePath "//proc".toList none none = .ok "//proc".toList ∧
      validateSourcePath "../../proc".toList none none = .ok "../../proc".toList ∧
      Denotes serviceDirectory "/proc".toList "../../proc".toList ∧
      ¬ ∀ (cwd : WorkingDirectory) (value p : Str) (usb target : Option Str),
        validateSourcePath value usb target = .ok p → OutsideAreas cwd usb target p := by
  have accepted : validateSourcePath "//proc".toList none none = .ok "//proc".toList := by decide
  refine ⟨accepted, by decide, by decide, fun outside => ?_⟩
  have system := outside serviceDirectory _ _ none none accepted "/proc".toList (by decide)
  exact system (by decide)

end Ecube
