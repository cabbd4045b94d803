import Ecube.Basic.PosixPath

/-!
Overlap of source paths (`app/utils/path_overlap.py`).

`Nested` is what the classification is for: one directory is the other or lies
below it. A classification as `.none` does not exclude it: the comparison of the
texts tells apart spellings with one and with two leading slashes, and the parts
are taken after trimming twice.
-/

namespace Ecube

open PosixPath

/-- How a requested source path lies to an existing one. -/
inductive Overlap where
  | none | exact | ancestor | descendant
  deriving DecidableEq, Repr

def normalizePath (path : Str) : Str := normpath (strip path)

def pathParts (path : Str) : List Str :=
  (split (normalizePath path)).filter (· ≠ [])

def classifySourcePathOverlap (existingPath newPath : Str) : Overlap :=
  let existing := normalizePath existingPath
  let new := normalizePath newPath
  let existingParts := pathParts existing
  let newParts := pathParts new
  if existing = new then .exact
  else if newParts.length < existingParts.length ∧ newParts <+: existingParts then .ancestor
  else if existingParts.length < newParts.length ∧ existingParts <+: newParts then .descendant
  else .none

/-- The directory `q` is `p` or lies below it. -/
def Contains (p q : Str) : Prop :=
  (initialSlashes p = 0 ↔ initialSlashes q = 0) ∧ comps (normpath p) <+: comps (normpath q)

/-- One of the directories contains the other. -/
def Nested (p q : Str) : Prop := Contains p q ∨ Contains q p

instance (p q : Str) : Decidable (Contains p q) := inferInstanceAs (Decidable (_ ∧ _))

instance (p q : Str) : Decidable (Nested p q) := inferInstanceAs (Decidable (_ ∨ _))

theorem Nested.symm {p q : Str} (h : Nested p q) : Nested q p := Or.symm h

/-- Two spellings of one directory that the classification tells apart. -/
example : classifySourcePathOverlap "//a".toList "/a".toList = .none ∧
    Nested "//a".toList "/a".toList := by
  decide

end Ecube
