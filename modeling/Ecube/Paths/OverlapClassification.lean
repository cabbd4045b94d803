import Ecube.Paths.Overlap

/-!
The classification of source paths by the components that the kernel reads.

The paths are trimmed and normalised. Equality is that of the normalised texts, which keep
two leading slashes apart from one; containment is that of the parts, for which the
normalised texts are trimmed once more.

* `classifySourcePathOverlap_swap`: exchanging the paths exchanges ancestor and descendant.
* `classifySourcePathOverlap_iff`: where neither difference matters, the classification is
  that of the components.
-/

namespace Ecube

open PosixPath

/-- The components of an absolute path after `.`, `..` and repeated slashes are resolved. -/
def resolved (path : Str) : List Str := walk true [] (comps path)

def Overlap.swap : Overlap → Overlap
  | .none => .none
  | .exact => .exact
  | .ancestor => .descendant
  | .descendant => .ancestor

theorem classifySourcePathOverlap_swap (existing new : Str) :
    classifySourcePathOverlap new existing = (classifySourcePathOverlap existing new).swap := by
  rw [classifySourcePathOverlap, classifySourcePathOverlap]
  by_cases same : normalizePath existing = normalizePath new
  · rw [if_pos same, if_pos same.symm]
    rfl
  · rw [if_neg same, if_neg (Ne.symm same)]
    generalize pathParts (normalizePath existing) = ps
    generalize pathParts (normalizePath new) = qs
    by_cases up : qs.length < ps.length ∧ qs <+: ps
    · have down : ¬ (ps.length < qs.length ∧ ps <+: qs) := fun h => by omega
      rw [if_pos up, if_neg down, if_pos up]
      rfl
    · rw [if_neg up, if_neg up]
      split <;> rfl

/-! ### Normalised paths -/

section Normalised

variable {path : Str}

theorem initialSlashes_pos (absolute : path.head? = some '/') : initialSlashes path ≠ 0 := by
  cases path with
  | nil => cases absolute
  | cons c rest =>
      cases absolute
      rw [initialSlashes.eq_def]
      split
      · exact Nat.one_ne_zero
      · exact Nat.succ_ne_zero 1
      · exact Nat.one_ne_zero
      next slash => exact absurd rfl (slash rest)

theorem isComp_of_mem_resolved {p : Str} (mem : p ∈ resolved path) : IsComp p :=
  isComp_of_mem_walk mem

theorem normpath_of_absolute (absolute : path.head? = some '/') :
    normpath path = render (initialSlashes path) (resolved path) := by
  have rooted : (initialSlashes path != 0) = true := by simpa using initialSlashes_pos absolute
  rw [normpath_eq, rooted, if_neg, resolved]
  obtain ⟨n, slashes⟩ := Nat.exists_eq_succ_of_ne_zero (initialSlashes_pos absolute)
  rw [slashes, render, List.replicate_succ]
  exact List.cons_ne_nil _ _

/-- The pieces of a normalised path are its components. -/
theorem filter_split_render (slashes : Nat) {ps : List Str} (h : ∀ p ∈ ps, IsComp p) :
    (split (render slashes ps)).filter (· ≠ []) = ps := by
  have slashed_pieces : (split (slashed ps)).filter (· ≠ []) = ps := by
    induction ps with
    | nil => rfl
    | cons p ps ih =>
        rw [List.forall_mem_cons] at h
        have piece : [p].filter (· ≠ []) = [p] := by simpa using h.1.1
        by_cases last : ps = []
        · subst last
          rw [slashed_singleton, split_of_not_mem h.1.2.2, piece]
        · rw [slashed_cons last, split_append_slash, split_of_not_mem h.1.2.2, List.filter_append,
            piece, ih h.2]
          rfl
  induction slashes with
  | zero => simpa [render] using slashed_pieces
  | succ n ih =>
      rw [render, List.replicate_succ, List.cons_append, ← List.nil_append ('/' :: _),
        split_append_slash, List.filter_append]
      exact ih

/-- Two absolute paths have one normal form if they have the same components and as many
leading slashes. -/
theorem normpath_inj {other : Str} (absolute : path.head? = some '/')
    (absolute' : other.head? = some '/') :
    normpath path = normpath other ↔
      initialSlashes path = initialSlashes other ∧ resolved path = resolved other := by
  constructor
  · intro same
    have slashes := congrArg initialSlashes same
    have parts := congrArg comps same
    rw [normpath_of_absolute absolute, normpath_of_absolute absolute',
      comps_render _ fun p => isComp_of_mem_resolved, comps_render _ fun p => isComp_of_mem_resolved]
      at parts
    rw [initialSlashes_normpath, initialSlashes_normpath] at slashes
    exact ⟨slashes, parts⟩
  · rintro ⟨slashes, parts⟩
    rw [normpath_of_absolute absolute, normpath_of_absolute absolute', slashes, parts]

/-- An absolute path whose normal form does not end in whitespace. -/
structure ComparablePath (path : Str) : Prop where
  absolute : (strip path).head? = some '/'
  trimmed : strip (normalizePath path) = normalizePath path

instance (path : Str) : Decidable (ComparablePath path) :=
  decidable_of_iff (_ ∧ _) ⟨fun h => ⟨h.1, h.2⟩, fun h => ⟨h.absolute, h.trimmed⟩⟩

theorem ComparablePath.pathParts (plain : ComparablePath path) :
    pathParts (normalizePath path) = resolved (strip path) := by
  rw [Ecube.pathParts, normalizePath, plain.trimmed, normalizePath, normpath_idem,
    normpath_of_absolute plain.absolute]
  exact filter_split_render _ fun p => isComp_of_mem_resolved

end Normalised

/-! ### The classification -/

/-- The classification of two lists of components. -/
def overlapOf (existing new : List Str) : Overlap :=
  if new = existing then .exact
  else if new <+: existing then .ancestor
  else if existing <+: new then .descendant
  else .none

theorem overlapOf_iff (existing new : List Str) :
    (overlapOf existing new = .exact ↔ new = existing) ∧
      (overlapOf existing new = .ancestor ↔ new <+: existing ∧ new ≠ existing) ∧
      (overlapOf existing new = .descendant ↔ existing <+: new ∧ new ≠ existing) ∧
      (overlapOf existing new = .none ↔ ¬ new <+: existing ∧ ¬ existing <+: new) := by
  rw [overlapOf]
  by_cases same : new = existing
  · simp [same]
  · by_cases up : new <+: existing
    · have down : ¬ existing <+: new := fun down =>
        same (up.eq_of_length (Nat.le_antisymm up.length_le down.length_le))
      simp [same, up, down]
    · by_cases down : existing <+: new <;> simp [same, up, down]

theorem shorter_prefix_iff {ps qs : List Str} (ne : ps ≠ qs) :
    ps.length < qs.length ∧ ps <+: qs ↔ ps <+: qs := by
  refine ⟨And.right, fun le => ⟨lt_of_le_of_ne le.length_le fun same => ne ?_, le⟩⟩
  exact le.eq_of_length same

variable {existing new : Str}

theorem classifySourcePathOverlap_eq (first : ComparablePath existing)
    (second : ComparablePath new)
    (slashes : resolved (strip new) = resolved (strip existing) →
      initialSlashes (strip new) = initialSlashes (strip existing)) :
    classifySourcePathOverlap existing new =
      overlapOf (resolved (strip existing)) (resolved (strip new)) := by
  have equal : normalizePath existing = normalizePath new ↔
      resolved (strip new) = resolved (strip existing) := by
    refine (normpath_inj first.absolute second.absolute).trans ⟨fun h => h.2.symm, fun h => ?_⟩
    exact ⟨(slashes h).symm, h.symm⟩
  rw [classifySourcePathOverlap, first.pathParts, second.pathParts, overlapOf]
  by_cases same : resolved (strip new) = resolved (strip existing)
  · rw [if_pos (equal.mpr same), if_pos same]
  · rw [if_neg (mt equal.mp same), if_neg same]
    simp only [shorter_prefix_iff same, shorter_prefix_iff (Ne.symm same)]

/-- Between absolute paths without whitespace at the ends, which are no two spellings of one
directory with one and with two leading slashes, the classification is that of the components.
Exchanging two paths, whatever they are, exchanges ancestor and descendant. -/
theorem classifySourcePathOverlap_iff (first : ComparablePath existing)
    (second : ComparablePath new)
    (slashes : resolved (strip new) = resolved (strip existing) →
      initialSlashes (strip new) = initialSlashes (strip existing)) :
    let kind := classifySourcePathOverlap existing new
    let old := resolved (strip existing)
    let new' := resolved (strip new)
    (kind = .exact ↔ new' = old) ∧ (kind = .ancestor ↔ new' <+: old ∧ new' ≠ old) ∧
      (kind = .descendant ↔ old <+: new' ∧ new' ≠ old) ∧
      (kind = .none ↔ ¬ new' <+: old ∧ ¬ old <+: new') ∧
      ∀ a b, classifySourcePathOverlap b a = (classifySourcePathOverlap a b).swap := by
  obtain ⟨exact', ancestor, descendant, none⟩ :=
    overlapOf_iff (resolved (strip existing)) (resolved (strip new))
  rw [← classifySourcePathOverlap_eq first second slashes] at exact' ancestor descendant none
  exact ⟨exact', ancestor, descendant, none, classifySourcePathOverlap_swap⟩

theorem classifySourcePathOverlap_iff_ancestor :
    let existing := "/a/b/../c/".toList
    let new := " //a/.".toList
    let kind := classifySourcePathOverlap existing new
    let old := resolved (strip existing)
    let new' := resolved (strip new)
    (kind = .exact ↔ new' = old) ∧ (kind = .ancestor ↔ new' <+: old ∧ new' ≠ old) ∧
      (kind = .descendant ↔ old <+: new' ∧ new' ≠ old) ∧
      (kind = .none ↔ ¬ new' <+: old ∧ ¬ old <+: new') ∧
      ∀ a b, classifySourcePathOverlap b a = (classifySourcePathOverlap a b).swap :=
  classifySourcePathOverlap_iff (by decide) (by decide) (by decide)

/-- Trimming makes one directory of two; two spellings of one directory are told apart; and
containment is that of the normal forms trimmed once more. -/
theorem classifySourcePathOverlap_differs :
    classifySourcePathOverlap "/a".toList "/a ".toList = .exact ∧
      resolved "/a ".toList ≠ resolved "/a".toList ∧
    classifySourcePathOverlap "//a".toList "/a".toList = .none ∧
      resolved "/a".toList = resolved "//a".toList ∧
    classifySourcePathOverlap "/a /.".toList "/a/b".toList = .descendant ∧
      ¬ resolved "/a /.".toList <+: resolved "/a/b".toList := by
  decide

end Ecube
