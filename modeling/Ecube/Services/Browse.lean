import Ecube.Basic.SymlinkTree
import Ecube.Basic.Outcome
import Ecube.Paths.AuditText

/-!
Where browsing leads (`browse_service._resolve_and_validate`).

Containment is tested on the resolved path, and links on the components of the one that was
asked for. Both resolve, but not alike: `islink` asks the kernel, for which a path ends at a
directory that is missing, while `realpath` goes on behind it.

* `inside_iff`: what is accepted leads inside the mount by its names alone, exactly when every
  link on the way can be seen there.
* `link_behind_missing`: what a missing directory hides.
-/

namespace Ecube.Browse

open PosixPath SymlinkTree AuditText

inductive Refusal where
  | service (statusCode : Nat) (detail : String)
  | recursionError
  deriving DecidableEq, Repr

/-- `s.rstrip("/")`. -/
def rstripSlashes (s : Str) : Str := s.rdropWhile (· = '/')

section Model

variable (fs : Filesystem) (depth : Nat)

def realpath (filename : Str) : Except Refusal Str :=
  orReject (fs.realpath depth filename) .recursionError

/-- The loop over the components of the unresolved path. -/
def meetsSymlink : Str → List Str → Bool
  | _, [] => false
  | current, component :: components =>
      if component = [] then meetsSymlink current components
      else if fs.islink (join current component) then true
      else meetsSymlink (join current component) components

def contained (realRoot realTarget : Str) : Bool :=
  realTarget = realRoot ∨ rstripSlashes realRoot ++ ['/'] <+: realTarget

def allowedRoot (realRoot : Str) (normalisedPrefixes : List Str) : Bool :=
  normalisedPrefixes.any fun np =>
    np.isPrefixOf (rstripSlashes realRoot ++ ['/']) || realRoot = rstripSlashes np

def resolveAndValidate (browseAllowedPrefixes : List SafeStr) (dbMountRoot : SafeStr)
    (subdir : Str) : Except Refusal (Str × Str) := do
  let realRoot ← realpath fs depth dbMountRoot.1
  ensure ('\x00' ∉ subdir) (.service 400 "Invalid subdir: contains null byte.")
  ensure (subdir.head? ≠ some '/')
    (.service 400 "Invalid subdir: absolute paths are not allowed.")
  let relative := subdir.dropWhile (· = '/')
  let target := if subdir ≠ [] then join realRoot relative else realRoot
  let realTarget ← realpath fs depth target
  ensure (contained realRoot realTarget)
    (.service 400 "Path traversal detected: subdir resolves outside mount root.")
  ensure (subdir ≠ [] → meetsSymlink fs realRoot (split relative) = false)
    (.service 400 "Symlink traversal denied: a path component is a symbolic link.")
  let normalisedPrefixes ← browseAllowedPrefixes.mapM fun p =>
    (realpath fs depth p.1).map fun real => rstripSlashes real ++ ['/']
  ensure (browseAllowedPrefixes ≠ [] → allowedRoot realRoot normalisedPrefixes)
    (.service 403 "Mount root is not in the configured allowed-prefix list.")
  return (realRoot, realTarget)

end Model

/-! ### What has been checked -/

section Checks

variable {fs : Filesystem} {depth : Nat} {prefixes : List SafeStr} {dbMountRoot : SafeStr}
  {subdir realRoot realTarget : Str}

structure Checked (fs : Filesystem) (depth : Nat) (dbMountRoot subdir realRoot realTarget : Str) :
    Prop where
  root : fs.realpath depth dbMountRoot = some realRoot
  relative : subdir.head? ≠ some '/'
  target : fs.realpath depth (if subdir ≠ [] then join realRoot subdir else realRoot) =
    some realTarget
  contained : contained realRoot realTarget = true
  unlinked : subdir ≠ [] → meetsSymlink fs realRoot (split subdir) = false

theorem checked_of_accepted
    (accepted : resolveAndValidate fs depth prefixes dbMountRoot subdir =
      .ok (realRoot, realTarget)) : Checked fs depth dbMountRoot.1 subdir realRoot realTarget := by
  simp only [resolveAndValidate, realpath, bind_eq_ok, orReject_eq_ok, ensure_eq_ok, pure_eq_ok,
    Prod.mk.injEq] at accepted
  obtain ⟨root, resolved, _, -, _, relative, target, reached, _, inside, _, unlinked, _, -, _, -,
    rfl, rfl⟩ := accepted
  have same : subdir.dropWhile (· = '/') = subdir := by
    cases subdir with
    | nil => rfl
    | cons c subdir =>
        have slash : c ≠ '/' := by simpa using relative
        simp [slash]
  rw [same] at reached unlinked
  exact ⟨resolved, relative, reached, inside, unlinked⟩

theorem getLast_slashed (components : List Str) {last : Str} (some_ : last ≠ []) :
    (slashed (components ++ [last])).getLast? = last.getLast? := by
  by_cases first : components = []
  · rw [first, List.nil_append, slashed_singleton]
  · rw [slashed_append first (by simp), slashed_singleton, ← List.singleton_append,
      ← List.append_assoc, List.getLast?_append_of_ne_nil _ some_]

/-- What the loop joins is joined in one go. -/
theorem foldl_join (current : Str) {components : List Str}
    (named : ∀ component ∈ components, component ≠ [] ∧ '/' ∉ component) (some_ : components ≠ []) :
    components.foldl join current = join current (slashed components) := by
  induction components using List.reverseRecOn with
  | nil => exact absurd rfl some_
  | append_singleton components last ih =>
      obtain ⟨before, last_⟩ := List.forall_mem_append.mp named
      rw [List.forall_mem_singleton] at last_
      rw [List.foldl_append, List.foldl_cons, List.foldl_nil]
      by_cases first : components = []
      · rw [first, List.foldl_nil, List.nil_append, slashed_singleton]
      · have slashless : ∀ component ∈ components, '/' ∉ component := fun c mem => (before c mem).2
        have relative : (slashed components).head? ≠ some '/' :=
          Filesystem.head_slashed
            (fun head => (before [] (List.mem_of_mem_head? head)).1 rfl) slashless
        have relative' : (slashed (components ++ [last])).head? ≠ some '/' := by
          refine Filesystem.head_slashed (fun head => ?_)
            (fun c mem => (named c mem).2)
          exact (named [] (List.mem_of_mem_head? head)).1 rfl
        have lastRelative : last.head? ≠ some '/' := fun head =>
          last_.2 (List.mem_of_mem_head? head)
        obtain ⟨front, joins⟩ := Filesystem.exists_join current
        have inside : slashed components ≠ [] ∧ (slashed components).getLast? ≠ some '/' := by
          obtain ⟨init, end_, rfl⟩ := (List.eq_nil_or_concat' components).resolve_left first
          have ends := before end_ (by simp)
          rw [← List.getLast?_isSome, getLast_slashed init ends.1]
          exact ⟨List.getLast?_isSome.mpr ends.1, fun slash => ends.2 (List.mem_of_getLast? slash)⟩
        rw [ih before first, joins _ relative, joins _ relative',
          slashed_append first (by simp), slashed_singleton, join, if_neg lastRelative, if_neg,
          List.append_assoc]
        rw [List.getLast?_append_of_ne_nil _ inside.1, not_or]
        exact ⟨by simp [inside.1], inside.2⟩

theorem not_islink_of_meetsSymlink {current : Str} {components : List Str}
    (unlinked : meetsSymlink fs current components = false) {front : List Str} {name : Str}
    (within : front ++ [name] <+: components.filter (· ≠ [])) :
    fs.islink ((front ++ [name]).foldl join current) = false := by
  induction components generalizing current front with
  | nil =>
      exact absurd (List.prefix_nil.mp within) (by simp)
  | cons component components ih =>
      rw [meetsSymlink] at unlinked
      split at unlinked
      next empty =>
        rw [List.filter_cons_of_neg (by simpa using empty)] at within
        exact ih unlinked within
      next some_ =>
        rw [List.filter_cons_of_pos (by simpa using some_)] at within
        split at unlinked
        next => cases unlinked
        next here =>
          cases front with
          | nil =>
              obtain ⟨rfl, -⟩ := List.cons_prefix_cons.mp within
              exact Bool.eq_false_iff.mpr here
          | cons first front =>
              obtain ⟨rfl, rest⟩ := List.cons_prefix_cons.mp within
              exact ih unlinked rest

end Checks

/-! ### What the mount root and the path have to be like -/

/-- The path leads inside the mount, and no component on the way is a link. -/
structure Inside (fs : Filesystem) (realRoot subdir realTarget : Str) : Prop where
  lexical : realTarget = normpath (join realRoot subdir)
  below : comps realRoot <+: comps realTarget
  unlinked : ∀ way, way <+: comps subdir → way ≠ [] →
    ¬fs.IsLink (walk true (comps realRoot) way)

/-- Every link on the way lies behind directories that can be searched, on a path that is not
too long to be looked up. -/
def LinksExposed (fs : Filesystem) (depth : Nat) (dbMountRoot subdir : Str) : Prop :=
  ∀ realRoot, fs.realpath depth dbMountRoot = some realRoot →
    ∀ front name, front ++ [name] <+: comps subdir →
      fs.IsLink (walk true (comps realRoot) (front ++ [name])) →
        Filesystem.bytes (join realRoot subdir) < Filesystem.pathMax ∧
          ∀ way, way <+: front → fs.Reachable (walk true (comps realRoot) way)

/-- The root that is found resolves to itself. -/
def RootResolved (fs : Filesystem) (depth : Nat) (dbMountRoot : Str) : Prop :=
  ∀ realRoot, fs.realpath depth dbMountRoot = some realRoot →
    fs.realpath depth realRoot = some realRoot

section Results

variable {fs : Filesystem} {depth : Nat} {prefixes : List SafeStr} {dbMountRoot : SafeStr}
  {subdir realRoot realTarget : Str}

/-- An absolute root does, unless it leads into a cycle of links. -/
theorem rootResolved_of_acyclic {dbMountRoot : Str} (absolute : dbMountRoot.head? = some '/')
    (acyclic : fs.Acyclic depth dbMountRoot) : RootResolved fs depth dbMountRoot :=
  fun _ resolves => Filesystem.realpath_realpath absolute acyclic resolves

theorem exists_prefix_of_filter {α : Type} {p : α → Bool} {all front : List α} {a : α}
    (within : front ++ [a] <+: all.filter p) :
    ∃ before, before ++ [a] <+: all ∧ before.filter p = front := by
  obtain ⟨rest, whole⟩ := within
  rw [List.append_assoc, List.singleton_append, eq_comm, List.filter_eq_append_iff] at whole
  obtain ⟨before, after, rfl, rfl, found⟩ := whole
  obtain ⟨skipped, later, rfl, none, -, -⟩ := List.filter_eq_cons_iff.mp found
  refine ⟨before ++ skipped, ⟨later, by simp⟩, ?_⟩
  rw [List.filter_append, List.filter_eq_nil_iff.mpr none, List.append_nil]

theorem slashed_split (path : Str) : slashed (split path) = path := by
  induction path with
  | nil => rfl
  | cons c path ih =>
      rw [split]
      split
      next slash => rw [slashed_cons (split_ne_nil path), ih, slash, List.nil_append]
      next =>
        cases pieces : split path with
        | nil => exact absurd pieces (split_ne_nil path)
        | cons first pieces_ =>
            rw [pieces] at ih
            by_cases last : pieces_ = []
            · rw [last, slashed_singleton] at ih ⊢
              rw [ih]
            · rw [slashed_cons last] at ih ⊢
              rw [List.cons_append, ih]

theorem comps_rstripSlashes (path : Str) : comps (rstripSlashes path) = comps path := by
  induction path using List.reverseRecOn with
  | nil => rfl
  | append_singleton path c ih =>
      rw [rstripSlashes, List.rdropWhile_concat]
      split
      next slash =>
        have slash : c = '/' := by simpa using slash
        rw [slash, comps_append_slash, comps_nil, List.append_nil]
        exact ih
      next => rfl

theorem below_of_contained (inside : contained realRoot realTarget = true) :
    comps realRoot <+: comps realTarget := by
  rcases of_decide_eq_true inside with rfl | ⟨more, rfl⟩
  · exact List.prefix_rfl
  · rw [List.append_assoc, List.singleton_append, comps_append_slash, comps_rstripSlashes]
    exact List.prefix_append _ _

/-- A link that can be seen on the way is refused. -/
theorem unlinked_of_exposed (checked : Checked fs depth dbMountRoot.1 subdir realRoot realTarget)
    (exposed : LinksExposed fs depth dbMountRoot.1 subdir) (way : List Str)
    (within : way <+: comps subdir) (some_ : way ≠ []) :
    ¬fs.IsLink (walk true (comps realRoot) way) := by
  intro link
  obtain ⟨normal, absolute⟩ := Filesystem.normal_realpath checked.root
  obtain ⟨front, name, rfl⟩ := (List.eq_nil_or_concat' way).resolve_left some_
  obtain ⟨short, reached⟩ := exposed realRoot checked.root front name within link
  -- The components that the loop goes through, dots among them, up to this one.
  have dots : comps subdir = Filesystem.kept ((split subdir).filter (· ≠ [])) := by
    rw [Filesystem.kept, List.filter_filter, comps]
    congr 1
    funext piece
    by_cases empty : piece = [] <;> simp [empty]
  rw [dots] at within
  obtain ⟨pieces, through, rfl⟩ := exists_prefix_of_filter within
  rw [← dots] at within
  have named : ∀ piece ∈ pieces ++ [name], piece ≠ [] ∧ '/' ∉ piece := by
    intro piece mem
    obtain ⟨mem, nonempty⟩ := List.mem_filter.mp (through.subset mem)
    exact ⟨by simpa using nonempty, slash_not_mem_of_mem_split mem⟩
  have nonempty : subdir ≠ [] := by
    rintro rfl
    exact some_ (List.prefix_nil.mp within)
  have refused := not_islink_of_meetsSymlink (checked.unlinked nonempty) through
  have first : ∀ rest : List Str, (∀ piece ∈ rest, piece ≠ [] ∧ '/' ∉ piece) →
      rest.head? ≠ some [] := fun rest named head => (named [] (List.mem_of_mem_head? head)).1 rfl
  have shorter : Filesystem.bytes (join realRoot (slashed (pieces ++ [name]))) ≤
      Filesystem.bytes (join realRoot subdir) := by
    obtain ⟨text, joins⟩ := Filesystem.exists_join realRoot
    rw [joins _ checked.relative, joins _ (Filesystem.head_slashed (first _ named)
      fun piece mem => (named piece mem).2), Filesystem.bytes_append, Filesystem.bytes_append]
    conv_rhs => rw [← slashed_split subdir]
    exact Nat.add_le_add_left
      (Filesystem.bytes_slashed_le (through.sublist.trans List.filter_sublist)) _
  obtain ⟨before, -⟩ := List.forall_mem_append.mp named
  rw [foldl_join _ named (by simp), Filesystem.islink_reached normal absolute (first _ before)
    (isComp_of_mem_comps (within.subset (by simp))) (fun piece mem => (before piece mem).2)
    (by omega) reached link] at refused
  cases refused

/-- Links are kept out exactly where they can be seen, as long as the root resolves to itself. -/
theorem inside_iff
    (accepted : resolveAndValidate fs depth prefixes dbMountRoot subdir =
      .ok (realRoot, realTarget)) :
    (Inside fs realRoot subdir realTarget → LinksExposed fs depth dbMountRoot.1 subdir) ∧
      (LinksExposed fs depth dbMountRoot.1 subdir ∧ RootResolved fs depth dbMountRoot.1 →
        Inside fs realRoot subdir realTarget) := by
  have checked := checked_of_accepted accepted
  constructor
  · intro inside other resolves front name within link
    rw [checked.root, Option.some.injEq] at resolves
    rw [← resolves] at link
    exact absurd link (inside.unlinked _ within (by simp))
  · rintro ⟨exposed, resolved⟩
    obtain ⟨normal, absolute⟩ := Filesystem.normal_realpath checked.root
    have unlinked := unlinked_of_exposed checked exposed
    refine ⟨?_, below_of_contained checked.contained, unlinked⟩
    have target := checked.target
    have fixed := resolved realRoot checked.root
    by_cases none : subdir = []
    · rw [if_neg (by simp [none]), fixed, Option.some.injEq] at target
      have joined : Filesystem.Extends realRoot (join realRoot []) [] :=
        Filesystem.extends_join realRoot nofun
      have same : normpath (join realRoot []) = normpath realRoot :=
        Filesystem.normpath_congr joined.slashes (by rw [joined.comps, List.append_nil])
      rw [← target, none, same]
      exact normal.symm
    · rw [if_pos none,
        Filesystem.realpath_join normal absolute fixed none checked.relative unlinked,
        Option.some.injEq] at target
      exact target.symm

end Results

/-! ### A case folder -/

def caseEntries : List (Place × Entry) :=
  [([], .directory), (["mnt".toList], .directory),
    (["mnt".toList, "case".toList], .directory),
    (["mnt".toList, "case".toList, "docs".toList], .directory),
    (["mnt".toList, "case".toList, "link".toList], .link "docs".toList)]

theorem caseEntries_mem {place : Place} (there : caseEntries.lookup place ≠ none) :
    ∃ e, (place, e) ∈ caseEntries := by
  obtain ⟨e, found⟩ := Option.ne_none_iff_exists'.mp there
  obtain ⟨before, after, same, -⟩ := List.lookup_eq_some_iff.mp found
  exact ⟨e, by simp [same]⟩

/-- A mount with a folder and a link to it. -/
def caseFolder : Filesystem where
  entry place := caseEntries.lookup place
  root := rfl
  parent place nonempty there := by
    obtain ⟨e, mem⟩ := caseEntries_mem there
    have up : ∀ row ∈ caseEntries, row.1 ≠ [] →
        caseEntries.lookup row.1.dropLast = some .directory := by decide
    exact up _ mem nonempty
  named place there := by
    obtain ⟨e, mem⟩ := caseEntries_mem there
    have names : ∀ row ∈ caseEntries, ∀ name ∈ row.1, IsName name := by decide
    exact names _ mem
  searchable _ := true
  cwd := []
  cwd_directory := rfl

def caseRoot : SafeStr := ⟨"/mnt/case".toList, by decide⟩

/-- Behind a missing directory the link is not seen, but followed. -/
theorem link_behind_missing :
    resolveAndValidate caseFolder 2 [] caseRoot "gone/../link".toList =
        .ok (caseRoot.1, "/mnt/case/docs".toList) ∧
      ¬Inside caseFolder caseRoot.1 "gone/../link".toList "/mnt/case/docs".toList := by
  refine ⟨by decide +kernel, fun inside => ?_⟩
  exact absurd inside.lexical (by decide +kernel)

theorem inside_docs : Inside caseFolder caseRoot.1 "./docs".toList "/mnt/case/docs".toList := by
  have accepted : resolveAndValidate caseFolder 2 [] caseRoot "./docs".toList =
      .ok (caseRoot.1, "/mnt/case/docs".toList) := by decide +kernel
  have root : caseFolder.realpath 2 caseRoot.1 = some caseRoot.1 := by decide +kernel
  have way : comps "./docs".toList = ["docs".toList] := by decide
  refine (inside_iff accepted).2 ⟨?_, fun realRoot resolves => ?_⟩
  · intro realRoot resolves front name within link
    rw [root, Option.some.injEq] at resolves
    rw [way] at within
    have last : front ++ [name] = ["docs".toList] :=
      (List.prefix_cons_iff.mp within).elim (absurd · (by simp)) fun ⟨rest, same, short⟩ => by
        rw [same, List.prefix_nil.mp short]
    rw [← resolves, last] at link
    exact absurd link (Filesystem.not_isLink_of_directory rfl)
  · rw [root, Option.some.injEq] at resolves
    rw [← resolves, root]

end Ecube.Browse
