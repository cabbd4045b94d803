import Mathlib.Data.List.Induction
import Mathlib.Data.List.Nodup
import Mathlib.Logic.Relation

/-!
Trees of files and directories, and what the times of directories say about them.

A tree lists its nodes by path; what is not at the top lies in a directory. A directory has
a time of modification. An edit that adds, removes or renames an entry of a directory gives
the directory another time than it had in the tree that was looked at first; what has been
below the entry may be anything afterwards. The content of a file can change without that.

`kind_eq_of_times`: when every directory of the first tree is still a directory with the
same time, the trees have the same files and directories.
-/

namespace Ecube

inductive Node where
  | file (size : Nat)
  | directory (mtime : Int)
  /-- neither a file nor a directory -/
  | special
  deriving DecidableEq, Repr

inductive Node.Kind where
  | file
  | directory
  | special
  deriving DecidableEq, Repr

def Node.kind : Node → Node.Kind
  | .file _ => .file
  | .directory _ => .directory
  | .special => .special

/-- Nodes by path, from the top. -/
structure FileTree (ν : Type) where
  nodes : List (List ν × Node)
  distinct : (nodes.map Prod.fst).Nodup
  closed : ∀ path name, path ++ [name] ∈ nodes.map Prod.fst →
    ∃ mtime, (path, .directory mtime) ∈ nodes

namespace FileTree

variable {ν : Type} [DecidableEq ν]

/-- What is at a path. -/
def at? (t : FileTree ν) (path : List ν) : Option Node :=
  (t.nodes.find? fun e => e.1 = path).map Prod.snd

section Lookup

variable {t : FileTree ν} {path : List ν} {name : ν} {node : Node}

theorem at?_eq_some_iff : t.at? path = some node ↔ (path, node) ∈ t.nodes := by
  rw [at?, Option.map_eq_some_iff]
  constructor
  · rintro ⟨⟨p, n⟩, found, rfl⟩
    have here : p = path := by simpa using List.find?_some found
    rw [← here]
    exact List.mem_of_find?_eq_some found
  · intro mem
    cases found : t.nodes.find? fun e => e.1 = path with
    | none => exact absurd (List.find?_eq_none.mp found _ mem) (by simp)
    | some e =>
        have here : e.1 = path := by simpa using List.find?_some found
        refine ⟨e, rfl, ?_⟩
        have same := List.inj_on_of_nodup_map t.distinct (List.mem_of_find?_eq_some found) mem here
        rw [same]

/-- Only a directory has something in it. -/
theorem directory_of_at? (found : t.at? (path ++ [name]) = some node) :
    ∃ mtime, t.at? path = some (.directory mtime) := by
  obtain ⟨mtime, mem⟩ := t.closed path name (List.mem_map_of_mem (at?_eq_some_iff.mp found))
  exact ⟨mtime, at?_eq_some_iff.mpr mem⟩

theorem at?_eq_none (plain : ∀ mtime, t.at? path ≠ some (.directory mtime)) :
    t.at? (path ++ [name]) = none := by
  cases found : t.at? (path ++ [name]) with
  | none => rfl
  | some node =>
      obtain ⟨mtime, here⟩ := directory_of_at? found
      exact absurd here (plain mtime)

end Lookup

/-! ### Edits -/

variable {scanned t t' : FileTree ν} {path : List ν}

/-- The directory is one in both trees, with the same time. -/
def Untouched (scanned t : FileTree ν) (path : List ν) : Prop :=
  ∃ mtime, scanned.at? path = some (.directory mtime) ∧ t.at? path = some (.directory mtime)

/-- One edit of a tree, after another tree has been looked at. -/
inductive Edit (scanned : FileTree ν) : FileTree ν → FileTree ν → Prop
  /-- the content of a file -/
  | write {t t' : FileTree ν} (path : List ν) (size size' : Nat)
      (before : t.at? path = some (.file size)) (after : t'.at? path = some (.file size'))
      (others : ∀ other, other ≠ path → t'.at? other = t.at? other) : Edit scanned t t'
  /-- the entries of a directory, with all that is below them -/
  | entries {t t' : FileTree ν} (path : List ν) (mtime mtime' : Int)
      (before : t.at? path = some (.directory mtime))
      (after : t'.at? path = some (.directory mtime'))
      (changed : scanned.at? path ≠ some (.directory mtime'))
      (others : ∀ other, ¬ path <+: other → t'.at? other = t.at? other) : Edit scanned t t'
  /-- another file or directory at the top, or nothing -/
  | replace {t t' : FileTree ν}
      (changed : ∀ mtime, t'.at? [] = some (.directory mtime) →
        scanned.at? [] ≠ some (.directory mtime)) : Edit scanned t t'

/-- A directory has the entries that it has had, unless its time or that of a directory above
it tells otherwise. -/
def Tells (scanned t : FileTree ν) : Prop :=
  ∀ path, (∀ above, above <+: path → Untouched scanned t above) → ∀ name,
    (t.at? (path ++ [name])).map Node.kind = (scanned.at? (path ++ [name])).map Node.kind

theorem tells_step (edit : Edit scanned t t') (tells : Tells scanned t) : Tells scanned t' := by
  intro path untouched name
  cases edit with
  | write file size size' before after others =>
      have directories : ∀ p m, t'.at? p = some (.directory m) → t.at? p = some (.directory m) := by
        intro p m here
        by_cases same : p = file
        · rw [same, after] at here
          cases here
        · rw [← others p same]
          exact here
      rw [← tells path (fun above le => (untouched above le).imp fun m h =>
        ⟨h.1, directories above m h.2⟩) name]
      by_cases same : path ++ [name] = file
      · rw [same, before, after]
        rfl
      · rw [others _ same]
  | entries directory mtime mtime' before after changed others =>
      have outside : ¬ directory <+: path := by
        intro le
        obtain ⟨m, first, now⟩ := untouched directory le
        rw [after] at now
        cases now
        exact changed first
      have same : ∀ above, above <+: path → t'.at? above = t.at? above :=
        fun above le => others above fun le' => outside (le'.trans le)
      rw [← tells path (fun above le => (untouched above le).imp fun m h =>
        ⟨h.1, (same above le).symm.trans h.2⟩) name]
      by_cases below : directory <+: path ++ [name]
      · rcases List.prefix_concat_iff.mp below with here | le
        · rw [← here, before, after]
          rfl
        · exact absurd le outside
      · rw [others _ below]
  | replace changed =>
      obtain ⟨m, first, now⟩ := untouched [] List.nil_prefix
      exact absurd first (changed m now)

/-- Whatever the edits, the times tell. -/
theorem tells_of_edits (edits : Relation.ReflTransGen (Edit scanned) scanned t) :
    Tells scanned t := by
  induction edits with
  | refl => exact fun _ _ _ => rfl
  | tail _ edit tells => exact tells_step edit tells

/-- If every directory of the scanned tree has kept its time, the trees have the same files
and directories. -/
theorem kind_eq_of_times (tells : Tells scanned t)
    (top : ∃ mtime, scanned.at? [] = some (.directory mtime))
    (times : ∀ p mtime, scanned.at? p = some (.directory mtime) →
      t.at? p = some (.directory mtime)) (path : List ν) :
    (t.at? path).map Node.kind = (scanned.at? path).map Node.kind := by
  suffices both : ∀ path : List ν,
      (t.at? path).map Node.kind = (scanned.at? path).map Node.kind ∧
        ∀ mtime, scanned.at? path = some (.directory mtime) →
          ∀ above, above <+: path → Untouched scanned t above from (both path).1
  intro path
  induction path using List.reverseRecOn with
  | nil =>
      obtain ⟨mtime, here⟩ := top
      rw [here, times [] mtime here]
      refine ⟨rfl, fun m _ above le => ?_⟩
      rw [List.prefix_nil.mp le]
      exact ⟨mtime, here, times [] mtime here⟩
  | append_singleton path name ih =>
      obtain ⟨same, above⟩ := ih
      by_cases inside : ∃ mtime, scanned.at? path = some (.directory mtime)
      · obtain ⟨mtime, here⟩ := inside
        refine ⟨tells path (above mtime here) name, fun m found other le => ?_⟩
        rcases List.prefix_concat_iff.mp le with rfl | le
        · exact ⟨m, found, times _ m found⟩
        · exact above mtime here other le
      · have plain : ∀ m, scanned.at? path ≠ some (.directory m) := fun m h => inside ⟨m, h⟩
        have plain' : ∀ m, t.at? path ≠ some (.directory m) := by
          intro m here
          rw [here, Option.map_some] at same
          obtain ⟨node, first, kind⟩ := Option.map_eq_some_iff.mp same.symm
          cases node with
          | directory m' => exact plain m' first
          | file size => cases kind
          | special => cases kind
        rw [at?_eq_none plain, at?_eq_none plain']
        exact ⟨rfl, fun m h => by cases h⟩

end FileTree

end Ecube
