import Ecube.Basic.PosixPath
import Mathlib.Algebra.GroupWithZero.Nat

/-!
Filesystems with symbolic links, and how a path in one is resolved: by the kernel (`lstat`)
and by `os.path.realpath`.

A place is the list of the names from the root. The kernel follows a path from directory to
directory; what is missing, or no directory, ends it. `realpath` goes on there, and takes the
last name away for a `..`.

* `follow_reached`: the kernel goes through directories as the names say.
* `realpath_realpath`: resolving again changes nothing, unless there is a cycle of links.
* `realpath_join`: from such a path `realpath` follows the names where there is no link.
-/

namespace Ecube.SymlinkTree

open PosixPath

abbrev Place := List Str

inductive Entry where
  | directory
  /-- anything that is neither a directory nor a link -/
  | file
  | link (target : Str)
  deriving DecidableEq, Repr

def dotdot : Str := ['.', '.']

/-- A name in a directory. -/
def IsName (p : Str) : Prop := IsComp p ∧ p ≠ dotdot

instance (p : Str) : Decidable (IsName p) := inferInstanceAs (Decidable ((_ ∧ _ ∧ _) ∧ _))

structure Filesystem where
  entry : Place → Option Entry
  root : entry [] = some .directory
  parent : ∀ place, place ≠ [] → entry place ≠ none → entry place.dropLast = some .directory
  named : ∀ place, entry place ≠ none → ∀ name ∈ place, IsName name
  /-- whether names in the directory may be looked up -/
  searchable : Place → Bool
  cwd : Place
  cwd_directory : entry cwd = some .directory

namespace Filesystem

variable (fs : Filesystem)

/-! ### The kernel -/

/-- Follow the pieces of a path from a directory. The last one is not followed. -/
def follow (onLink : Place → Str → List Str → Option Place) : Place → List Str → Option Place
  | place, [] => some place
  | place, piece :: rest =>
      if piece = [] then follow onLink place rest
      else if fs.searchable place = false then none
      else if piece = ['.'] then follow onLink place rest
      else if piece = dotdot then follow onLink place.dropLast rest
      else
        match fs.entry (place ++ [piece]) with
        | none => none
        | some .directory => follow onLink (place ++ [piece]) rest
        | some .file => if rest = [] then some (place ++ [piece]) else none
        | some (.link target) =>
            if rest = [] then some (place ++ [piece]) else onLink place target rest

/-- The lookup of a path, with the number of links that may be followed. -/
def lookup : Nat → Place → List Str → Option Place
  | 0 => fs.follow fun _ _ _ => none
  | links + 1 => fs.follow fun place target rest =>
      lookup links (if target.head? = some '/' then [] else place) (split target ++ rest)

def maxLinks : Nat := 40

/-- Where a path starts. -/
def base (rooted : Bool) : Place := if rooted then [] else fs.cwd

/-- How long a path may be, with the byte that ends it. -/
def pathMax : Nat := 4096

def bytes (path : Str) : Nat := (path.map Char.utf8Size).sum

/-- `os.lstat`; `none` is an `OSError`. -/
def lstat (path : Str) : Option Entry :=
  if path = [] ∨ pathMax ≤ bytes path then none
  else (fs.lookup maxLinks (fs.base (path.head? = some '/')) (split path)).bind fs.entry

/-- `os.path.islink`. -/
def islink (path : Str) : Bool :=
  match fs.lstat path with
  | some (.link _) => true
  | _ => false

/-! ### Real paths -/

/-- A path that `_joinrealpath` builds: `/` or nothing, and names with slashes between them. -/
structure Resolved where
  rooted : Bool
  names : List Str
  deriving DecidableEq, Repr

def Resolved.text (p : Resolved) : Str := render (if p.rooted then 1 else 0) p.names

/-- The next name joined to the path, or its last name taken away. -/
def Resolved.push (p : Resolved) (name : Str) : Resolved :=
  { p with names := PosixPath.push p.rooted p.names name }

/-- The links that have been seen, with what they resolve to once that is known. -/
abbrev Seen := List (Resolved × Option Resolved)

/-- A path, or in a cycle of links the text that is left of it. -/
abbrev Outcome := Except Str Resolved × Seen

/-- The loop of `_joinrealpath` over the pieces of a path. -/
def resolvePieces (onLink : Resolved → Str → Seen → Option Outcome) :
    Resolved → List Str → Seen → Option Outcome
  | path, [], seen => some (.ok path, seen)
  | path, name :: rest, seen =>
      if name = [] ∨ name = ['.'] then resolvePieces onLink path rest seen
      else if name = dotdot then resolvePieces onLink (path.push dotdot) rest seen
      else
        let newpath := path.push name
        match fs.lstat newpath.text with
        | some (.link target) =>
            match seen.lookup newpath with
            | some (some resolved) => resolvePieces onLink resolved rest seen
            | some none => some (.error (join newpath.text (slashed rest)), seen)
            | none =>
                match onLink path target ((newpath, none) :: seen) with
                | none => none
                | some (.error unresolved, seen) =>
                    some (.error (join unresolved (slashed rest)), seen)
                | some (.ok resolved, seen) =>
                    resolvePieces onLink resolved rest ((newpath, some resolved) :: seen)
        | _ => resolvePieces onLink newpath rest seen

/-- `_joinrealpath`, with the depth of recursion that is left. `none` is a `RecursionError`. -/
def joinRealpath : Nat → Resolved → Str → Seen → Option Outcome
  | 0, _, _, _ => none
  | depth + 1, path, rest, seen =>
      fs.resolvePieces (joinRealpath depth)
        (if rest.head? = some '/' then ⟨true, []⟩ else path) (split rest) seen

def abspath (path : Str) : Str :=
  normpath (if path.head? = some '/' then path else join (render 1 fs.cwd) path)

/-- `os.path.realpath`. -/
def realpath (depth : Nat) (filename : Str) : Option Str :=
  (fs.joinRealpath depth ⟨false, []⟩ filename []).map fun outcome =>
    fs.abspath (match outcome.1 with
      | .ok path => path.text
      | .error unresolved => unresolved)

/-- No cycle of links is met. -/
def Acyclic (depth : Nat) (filename : Str) : Prop :=
  ∃ path seen, fs.joinRealpath depth ⟨false, []⟩ filename [] = some (.ok path, seen)

/-! ### Places -/

variable {fs}

def IsLink (fs : Filesystem) (place : Place) : Prop :=
  ∃ target, fs.entry place = some (.link target)

/-- A directory that may be passed through. -/
def Passable (fs : Filesystem) (place : Place) : Prop :=
  fs.entry place = some .directory ∧ fs.searchable place = true

/-- A directory behind such directories. -/
def Reachable (fs : Filesystem) (place : Place) : Prop := ∀ q, q <+: place → fs.Passable q

theorem not_isLink_of_directory {place : Place} (directory : fs.entry place = some .directory) :
    ¬fs.IsLink place := by
  rintro ⟨target, link⟩
  rw [directory] at link
  cases link

theorem directory_dropLast {place : Place} (directory : fs.entry place = some .directory) :
    fs.entry place.dropLast = some .directory := by
  by_cases top : place = []
  · rw [top]
    exact fs.root
  · exact fs.parent place top (by simp [directory])

theorem push_name {name : Str} (named : name ≠ dotdot) (rooted : Bool) (names : List Str) :
    push rooted names name = names ++ [name] := if_pos (.inl named)

theorem push_dotdot {place : Place} (named : ∀ name ∈ place, IsName name) :
    push true place dotdot = place.dropLast := by
  refine if_neg ?_
  rintro (same | ⟨rooted, -⟩ | last)
  · exact same rfl
  · cases rooted
  · exact (named dotdot (List.mem_of_getLast? last)).2 rfl

theorem walk_cons (rooted : Bool) (place : Place) (name : Str) (names : List Str) :
    walk rooted place (name :: names) = walk rooted (push rooted place name) names := rfl

theorem walk_names {names : List Str} (named : ∀ name ∈ names, IsName name) (rooted : Bool)
    (place : Place) : walk rooted place names = place ++ names := by
  induction names generalizing place with
  | nil => exact (List.append_nil place).symm
  | cons name names ih =>
      rw [List.forall_mem_cons] at named
      rw [walk_cons, push_name named.1.2, ih named.2, List.append_assoc, List.singleton_append]

/-! ### The kernel on a path -/

/-- The pieces that lead somewhere. -/
def kept (pieces : List Str) : List Str := pieces.filter fun p => p ≠ [] ∧ p ≠ ['.']

theorem comps_eq_kept (path : Str) : comps path = kept (split path) := rfl

theorem kept_cons_of_skipped {piece : Str} (skipped : piece = [] ∨ piece = ['.'])
    (pieces : List Str) : kept (piece :: pieces) = kept pieces := by
  rcases skipped with rfl | rfl <;> rfl

theorem kept_cons {piece : Str} (named : ¬(piece = [] ∨ piece = ['.'])) (pieces : List Str) :
    kept (piece :: pieces) = piece :: kept pieces :=
  List.filter_cons_of_pos (by simpa [not_or] using named)

/-- What is found of a path that leads through directories first. -/
theorem follow_reached (onLink : Place → Str → List Str → Option Place) {place : Place}
    {pieces : List Str} (rest : List Str)
    (reached : ∀ q, q <+: kept pieces → fs.Passable (walk true place q)) :
    fs.follow onLink place (pieces ++ rest) =
      fs.follow onLink (walk true place (kept pieces)) rest := by
  induction pieces generalizing place with
  | nil => rfl
  | cons piece pieces ih =>
      have here : fs.Passable place := reached [] List.nil_prefix
      by_cases skipped : piece = [] ∨ piece = ['.']
      · rw [kept_cons_of_skipped skipped] at reached ⊢
        rw [← ih reached, List.cons_append, follow]
        rcases skipped with rfl | rfl
        · rw [if_pos rfl]
        · rw [if_neg (by decide), if_neg (by simp [here.2]), if_pos rfl]
      · rw [kept_cons skipped] at reached ⊢
        have next : ∀ q, q <+: kept pieces → fs.Passable (walk true (push true place piece) q) :=
          fun q front => reached (piece :: q) ((List.prefix_cons_inj piece).mpr front)
        have after : fs.Passable (push true place piece) := next [] List.nil_prefix
        rw [walk_cons, ← ih next, List.cons_append, follow, if_neg (not_or.mp skipped).1,
          if_neg (by simp [here.2]), if_neg (not_or.mp skipped).2]
        by_cases up : piece = dotdot
        · rw [if_pos up, up, push_dotdot (fs.named place (by simp [here.1]))]
        · rw [push_name up] at after ⊢
          rw [if_neg up, after.1]

theorem follow_link (onLink : Place → Str → List Str → Option Place) {place : Place} {name : Str}
    (searchable : fs.searchable place = true) (link : fs.IsLink (place ++ [name])) :
    fs.follow onLink place [name] = some (place ++ [name]) := by
  obtain ⟨target, link⟩ := link
  obtain ⟨⟨something, other, -⟩, named⟩ :=
    fs.named (place ++ [name]) (by simp [link]) name (by simp)
  rw [follow, if_neg something, if_neg (by simp [searchable]), if_neg other, if_neg named, link]
  exact if_pos rfl

/-- On a path of names, unless a link is met before its end, the place of these names is found,
or none. -/
theorem follow_names (onLink : Place → Str → List Str → Option Place) {place found : Place}
    {names : List Str} (named : ∀ name ∈ names, IsName name)
    (unlinked : ∀ q, q <+: names → q ≠ names →
      ∀ met, fs.follow onLink place q = some met → ¬fs.IsLink met)
    (follows : fs.follow onLink place names = some found) : found = place ++ names := by
  induction names generalizing place with
  | nil => exact (Option.some.inj follows).symm.trans (List.append_nil place).symm
  | cons name names ih =>
      rw [List.forall_mem_cons] at named
      obtain ⟨⟨something, other, -⟩, down⟩ := named.1
      -- What is found at the first name decides how the lookup goes on.
      have step : ∀ rest, fs.follow onLink place (name :: rest) =
          if fs.searchable place = false then none
          else match fs.entry (place ++ [name]) with
            | none => none
            | some .directory => fs.follow onLink (place ++ [name]) rest
            | some .file => if rest = [] then some (place ++ [name]) else none
            | some (.link target) =>
                if rest = [] then some (place ++ [name]) else onLink place target rest := by
        intro rest
        rw [follow, if_neg something, if_neg other, if_neg down]
      rw [step] at follows
      split at follows
      next => cases follows
      next searchable =>
        cases entry : fs.entry (place ++ [name]) with
        | none =>
            rw [entry] at follows
            cases follows
        | some e =>
            rw [entry] at follows
            cases e with
            | directory =>
                have shifted : ∀ q, q <+: names → q ≠ names →
                    ∀ met, fs.follow onLink (place ++ [name]) q = some met → ¬fs.IsLink met := by
                  intro q front shorter met follows
                  refine unlinked (name :: q) ((List.prefix_cons_inj name).mpr front)
                    (fun same => shorter (List.cons.inj same).2) met ?_
                  rw [step, if_neg searchable, entry]
                  exact follows
                rw [ih named.2 shifted follows, List.append_assoc, List.singleton_append]
            | file =>
                dsimp only at follows
                split at follows
                next last =>
                  rw [last]
                  exact (Option.some.inj follows).symm
                next => cases follows
            | link target =>
                dsimp only at follows
                split at follows
                next last =>
                  rw [last]
                  exact (Option.some.inj follows).symm
                next more =>
                  refine absurd ⟨target, entry⟩ (unlinked [name]
                    ((List.prefix_cons_inj name).mpr List.nil_prefix)
                    (fun same => more (List.cons.inj same).2.symm) _ ?_)
                  rw [step, if_neg searchable, entry]
                  exact if_pos rfl

theorem split_slashed {ps : List Str} (some_ : ps ≠ []) (pieces : ∀ p ∈ ps, '/' ∉ p) :
    split (slashed ps) = ps := by
  induction ps with
  | nil => exact absurd rfl some_
  | cons p ps ih =>
      rw [List.forall_mem_cons] at pieces
      by_cases last : ps = []
      · rw [last, slashed_singleton, split_of_not_mem pieces.1]
      · rw [slashed_cons last, split_append_slash, split_of_not_mem pieces.1, ih last pieces.2,
          List.singleton_append]

theorem split_replicate_slash (k : Nat) (s : Str) :
    split (List.replicate k '/' ++ s) = List.replicate k [] ++ split s := by
  induction k with
  | zero => rfl
  | succ k ih => rw [List.replicate_succ, List.cons_append, split, if_pos rfl, ih]; rfl

/-- The pieces of `slashed`, up to an empty one. -/
theorem split_render (k : Nat) {ps : List Str} (pieces : ∀ p ∈ ps, '/' ∉ p) :
    split (render k ps) = List.replicate k [] ++ if ps = [] then [[]] else ps := by
  rw [render, split_replicate_slash]
  split
  next none => rw [none]; rfl
  next some_ => rw [split_slashed some_ pieces]

theorem bytes_append (a b : Str) : bytes (a ++ b) = bytes a + bytes b := by
  rw [bytes, List.map_append, List.sum_append]
  rfl

theorem bytes_slashed_cons (p : Str) {ps : List Str} (some_ : ps ≠ []) :
    bytes (slashed (p :: ps)) = bytes p + (1 + bytes (slashed ps)) := by
  rw [slashed_cons some_, bytes_append]
  exact congrArg (bytes p + ·) (bytes_append ['/'] (slashed ps))

theorem bytes_slashed_le {ps qs : List Str} (within : ps.Sublist qs) :
    bytes (slashed ps) ≤ bytes (slashed qs) := by
  induction within with
  | slnil => rfl
  | @cons ps qs p within ih =>
      by_cases none : qs = []
      · rw [none] at within
        rw [List.sublist_nil.mp within]
        exact Nat.zero_le _
      · rw [bytes_slashed_cons p none]
        omega
  | @cons_cons ps qs p within ih =>
      by_cases none : qs = []
      · rw [none] at within
        rw [none, List.sublist_nil.mp within]
      · rw [bytes_slashed_cons p none]
        by_cases last : ps = []
        · rw [last, slashed_singleton]
          omega
        · rw [bytes_slashed_cons p last]
          omega

theorem bytes_render_le (k : Nat) {q names : List Str} (front : q <+: names) :
    bytes (render k q) ≤ bytes (render k names) := by
  rw [render, render, bytes_append, bytes_append]
  exact Nat.add_le_add_left (bytes_slashed_le front.sublist) _

/-- The lookup of `lstat` for an absolute path of names. -/
theorem lstat_render {names : List Str} (named : ∀ name ∈ names, IsName name) :
    fs.lstat (render 1 names) = if pathMax ≤ bytes (render 1 names) then none
      else (fs.lookup maxLinks [] names).bind fs.entry := by
  have starts : render 1 names = '/' :: slashed names := rfl
  have same : fs.lookup maxLinks [] (split (render 1 names)) = fs.lookup maxLinks [] names := by
    rw [split_render 1 fun p mem => (named p mem).1.2.2]
    change fs.follow _ [] ([] :: if names = [] then [[]] else names) = fs.follow _ [] names
    rw [follow, if_pos rfl]
    split
    next none => rw [none]; rfl
    next => rfl
  rw [lstat, ← same]
  simp [starts, base]

/-- `realpath` has taken nothing on this path for a link. -/
structure Real (fs : Filesystem) (p : Resolved) : Prop where
  rooted : p.rooted = true
  named : ∀ name ∈ p.names, IsName name
  unlinked : ∀ q, q <+: p.names → fs.islink (render 1 q) = false

theorem islink_iff {path : Str} :
    fs.islink path = true ↔ ∃ target, fs.lstat path = some (.link target) := by
  rw [islink]
  split
  next target link => exact ⟨fun _ => ⟨target, link⟩, fun _ => rfl⟩
  next other => exact ⟨nofun, fun ⟨target, link⟩ => absurd link (other target)⟩

/-- Behind such a path `lstat` finds a link only where there is one. -/
theorem Real.isLink_of_islink {place : Place} (real : fs.Real ⟨true, place⟩) {name : Str}
    (named : IsName name) (islink : fs.islink (render 1 (place ++ [name])) = true) :
    fs.IsLink (place ++ [name]) := by
  obtain ⟨target, link⟩ := islink_iff.mp islink
  have all : ∀ n ∈ place ++ [name], IsName n :=
    List.forall_mem_append.mpr ⟨real.named, by simpa using named⟩
  rw [lstat_render all] at link
  split at link
  next => cases link
  next short =>
    obtain ⟨found, follows, link⟩ := Option.bind_eq_some_iff.mp link
    have unlinked : ∀ q, q <+: place ++ [name] → q ≠ place ++ [name] →
        ∀ met, fs.lookup maxLinks [] q = some met → ¬fs.IsLink met := by
      rintro q front shorter met follows ⟨target, link⟩
      have within : q <+: place := (List.prefix_concat_iff.mp front).resolve_left shorter
      have seen : fs.islink (render 1 q) = true := by
        refine islink_iff.mpr ⟨target, ?_⟩
        have le := bytes_render_le 1 front
        rw [lstat_render fun n mem => real.named n (within.subset mem), if_neg (by omega), follows]
        exact link
      rw [real.unlinked q within] at seen
      cases seen
    have same := follow_names _ all unlinked follows
    rw [same] at link
    exact ⟨target, link⟩

/-! ### Resolving -/

theorem Real.push_dotdot {p : Resolved} (real : fs.Real p) : fs.Real (p.push dotdot) := by
  obtain ⟨rooted, names⟩ := p
  obtain rfl : rooted = true := real.rooted
  have popped : (⟨true, names⟩ : Resolved).push dotdot = ⟨true, names.dropLast⟩ :=
    congrArg (Resolved.mk true) (Filesystem.push_dotdot real.named)
  rw [popped]
  exact ⟨rfl, fun name mem => real.named name (List.mem_of_mem_dropLast mem),
    fun q front => real.unlinked q (front.trans (List.dropLast_prefix names))⟩

theorem Real.push_name {p : Resolved} (real : fs.Real p) {name : Str} (named : IsName name)
    (unlinked : fs.islink (p.push name).text = false) : fs.Real (p.push name) := by
  obtain ⟨rooted, names⟩ := p
  obtain rfl : rooted = true := real.rooted
  have pushed : (⟨true, names⟩ : Resolved).push name = ⟨true, names ++ [name]⟩ :=
    congrArg (Resolved.mk true) (Filesystem.push_name named.2 true names)
  rw [pushed] at unlinked ⊢
  refine ⟨rfl, List.forall_mem_append.mpr ⟨real.named, by simpa using named⟩, ?_⟩
  intro q front
  rcases List.prefix_concat_iff.mp front with rfl | within
  · exact unlinked
  · exact real.unlinked q within

theorem real_root : fs.Real ⟨true, []⟩ := by
  refine ⟨rfl, fun name mem => absurd mem List.not_mem_nil, ?_⟩
  intro q front
  rw [List.prefix_nil.mp front, Bool.eq_false_iff]
  intro islink
  obtain ⟨target, link⟩ := islink_iff.mp islink
  rw [lstat_render fun name mem => absurd mem List.not_mem_nil, if_neg (by decide)] at link
  exact not_isLink_of_directory fs.root ⟨target, link⟩

def SeenReal (fs : Filesystem) (seen : Seen) : Prop :=
  ∀ key resolved, (key, some resolved) ∈ seen → fs.Real resolved

theorem isName_of_piece {piece : Str} (slashless : '/' ∉ piece)
    (named : ¬(piece = [] ∨ piece = ['.'])) (down : piece ≠ dotdot) : IsName piece :=
  ⟨⟨(not_or.mp named).1, (not_or.mp named).2, slashless⟩, down⟩

theorem mem_of_lookup {seen : Seen} {key : Resolved} {resolved : Option Resolved}
    (found : seen.lookup key = some resolved) : (key, resolved) ∈ seen := by
  obtain ⟨before, after, rfl, -⟩ := List.lookup_eq_some_iff.mp found
  simp

/-- What resolving a link keeps, the loop keeps. -/
theorem real_resolvePieces {onLink : Resolved → Str → Seen → Option Outcome}
    (keeps : ∀ path target seen p seen', fs.Real path → fs.SeenReal seen →
      onLink path target seen = some (.ok p, seen') → fs.Real p ∧ fs.SeenReal seen')
    {pieces : List Str} (slashless : ∀ piece ∈ pieces, '/' ∉ piece) {path p : Resolved}
    {seen seen' : Seen} (real : fs.Real path) (seenReal : fs.SeenReal seen)
    (resolves : fs.resolvePieces onLink path pieces seen = some (.ok p, seen')) :
    fs.Real p ∧ fs.SeenReal seen' := by
  induction pieces generalizing path seen with
  | nil =>
      cases resolves
      exact ⟨real, seenReal⟩
  | cons piece pieces ih =>
      rw [List.forall_mem_cons] at slashless
      rw [resolvePieces] at resolves
      split at resolves
      next => exact ih slashless.2 real seenReal resolves
      next named =>
        split at resolves
        next => exact ih slashless.2 real.push_dotdot seenReal resolves
        next down =>
          dsimp only at resolves
          split at resolves
          next target link =>
            split at resolves
            next resolved found =>
              exact ih slashless.2 (seenReal _ _ (mem_of_lookup found)) seenReal resolves
            next => cases resolves
            next =>
              have entered : fs.SeenReal ((path.push piece, none) :: seen) := by
                intro key resolved mem
                rcases List.mem_cons.mp mem with same | mem
                · cases same
                · exact seenReal key resolved mem
              split at resolves
              next => cases resolves
              next => cases resolves
              next resolved later inner =>
                obtain ⟨real, laterReal⟩ := keeps _ _ _ _ _ real entered inner
                refine ih slashless.2 real ?_ resolves
                intro key other mem
                rcases List.mem_cons.mp mem with same | mem
                · cases same
                  exact real
                · exact laterReal key other mem
          next unlinked =>
            refine ih slashless.2 (real.push_name
              (isName_of_piece slashless.1 named down) ?_) seenReal resolves
            rw [Bool.eq_false_iff]
            intro islink
            obtain ⟨target, link⟩ := islink_iff.mp islink
            exact unlinked target link

theorem real_joinRealpath {depth : Nat} {path p : Resolved} {rest : Str} {seen seen' : Seen}
    (real : rest.head? = some '/' ∨ fs.Real path) (seenReal : fs.SeenReal seen)
    (resolves : fs.joinRealpath depth path rest seen = some (.ok p, seen')) :
    fs.Real p ∧ fs.SeenReal seen' := by
  induction depth generalizing path rest seen p seen' with
  | zero => cases resolves
  | succ depth ih =>
      rw [joinRealpath] at resolves
      refine real_resolvePieces (fun path target seen p seen' real => ih (.inr real))
        (fun piece mem => slash_not_mem_of_mem_split mem) ?_ seenReal resolves
      split
      next => exact real_root
      next relative => exact real.resolve_left relative

/-! ### Resolved paths -/

theorem normpath_congr {a b : Str} (slashes : initialSlashes a = initialSlashes b)
    (reached : walk (initialSlashes b != 0) [] (comps a) =
      walk (initialSlashes b != 0) [] (comps b)) : normpath a = normpath b := by
  rw [normpath_eq, normpath_eq, slashes, reached]

theorem comps_render_names (k : Nat) {names : List Str} (named : ∀ name ∈ names, IsName name) :
    comps (render k names) = names :=
  comps_render k fun name mem => (named name mem).1

theorem initialSlashes_render_one {names : List Str} (named : ∀ name ∈ names, IsName name) :
    initialSlashes (render 1 names) = 1 := by
  by_cases none : names = []
  · rw [none]
    rfl
  · simpa using initialSlashes_render (by decide) none (fun name mem => (named name mem).1) []

/-- An absolute path of names is normalised. -/
theorem normpath_render {names : List Str} (named : ∀ name ∈ names, IsName name) :
    normpath (render 1 names) = render 1 names := by
  have kept : walk true [] names = names := walk_names named true []
  rw [normpath_eq, initialSlashes_render_one named, comps_render_names 1 named]
  change (if render 1 (walk true [] names) = [] then ['.'] else render 1 (walk true [] names)) = _
  rw [kept]
  exact if_neg nofun

theorem abspath_render {names : List Str} (named : ∀ name ∈ names, IsName name) :
    fs.abspath (render 1 names) = render 1 names := by
  have absolute : (render 1 names).head? = some '/' := rfl
  rw [abspath, if_pos absolute, normpath_render named]

theorem Real.text {p : Resolved} (real : fs.Real p) : p.text = render 1 p.names := by
  rw [Resolved.text, if_pos real.rooted]

theorem initialSlashes_append {a s : Str} (some_ : a ≠ [])
    (apart : s.head? ≠ some '/' ∨ a.getLast? ≠ some '/') :
    initialSlashes (a ++ s) = initialSlashes a := by
  match a with
  | [] => exact absurd rfl some_
  | [c] =>
      by_cases slash : c = '/'
      · have next : s.head? ≠ some '/' := apart.resolve_right (by simp [slash])
        cases s with
        | nil => rfl
        | cons d s => simp_all [initialSlashes]
      · simp [initialSlashes, slash]
  | [c, d] =>
      by_cases slash : d = '/'
      · have next : s.head? ≠ some '/' := apart.resolve_right (by simp [slash])
        cases s with
        | nil => rfl
        | cons e s =>
            by_cases first : c = '/'
            · simp_all [initialSlashes]
            · simp [initialSlashes, first]
      · by_cases first : c = '/'
        · simp [initialSlashes, first, slash]
        · simp [initialSlashes, first]
  | c :: d :: e :: t =>
      by_cases first : c = '/'
      · by_cases second : d = '/'
        · by_cases third : e = '/'
          · simp [initialSlashes, first, second, third]
          · simp [initialSlashes, first, second, third]
        · simp [initialSlashes, first, second]
      · simp [initialSlashes, first]

/-- A path with more names at its end. -/
structure Extends (a b : Str) (names : List Str) : Prop where
  slashes : initialSlashes b = initialSlashes a
  comps : comps b = comps a ++ names

theorem extends_join (a : Str) {rel : Str} (relative : rel.head? ≠ some '/') :
    Extends a (join a rel) (comps rel) := by
  rw [join, if_neg relative]
  split
  next stop =>
    have ends : a = [] ∨ ∃ b, a = b ++ ['/'] :=
      stop.imp_right fun last => ⟨a.dropLast, (List.dropLast_append_getLast? _ last).symm⟩
    refine ⟨?_, comps_append_of_stop ends⟩
    by_cases none : a = []
    · rw [none]
      cases rel with
      | nil => rfl
      | cons c rel =>
          have first : c ≠ '/' := by simpa using relative
          simp [initialSlashes, first]
    · exact initialSlashes_append none (.inl relative)
  next inside =>
    rw [not_or] at inside
    exact ⟨initialSlashes_append inside.1 (.inr inside.2), comps_append_slash a rel⟩

theorem comps_slashed_pieces {pieces : List Str} (slashless : ∀ piece ∈ pieces, '/' ∉ piece) :
    comps (slashed pieces) = kept pieces := by
  by_cases none : pieces = []
  · rw [none]
    rfl
  · rw [comps_eq_kept, split_slashed none slashless]

theorem head_slashed {pieces : List Str} (first : pieces.head? ≠ some [])
    (slashless : ∀ piece ∈ pieces, '/' ∉ piece) : (slashed pieces).head? ≠ some '/' := by
  cases pieces with
  | nil => exact nofun
  | cons piece pieces =>
      cases piece with
      | nil => exact absurd rfl first
      | cons c piece =>
          have other : c ≠ '/' := by
            rintro rfl
            exact slashless _ List.mem_cons_self List.mem_cons_self
          by_cases last : pieces = []
          · simp [last, other]
          · simp [slashed_cons last, other]

/-! ### The loop along unlinked names -/

section Loop

variable (onLink : Resolved → Str → Seen → Option Outcome) {pieces : List Str} {seen seen' : Seen}

theorem resolvePieces_skip {piece : Str} (skipped : piece = [] ∨ piece = ['.']) (path : Resolved) :
    fs.resolvePieces onLink path (piece :: pieces) seen =
      fs.resolvePieces onLink path pieces seen := by
  rw [resolvePieces, if_pos skipped]

theorem resolvePieces_dotdot (path : Resolved) :
    fs.resolvePieces onLink path (dotdot :: pieces) seen =
      fs.resolvePieces onLink (path.push dotdot) pieces seen := by
  rw [resolvePieces, if_neg (by decide), if_pos rfl]

theorem resolvePieces_name {path : Resolved} {name : Str} (named : IsName name)
    (unlinked : fs.islink (path.push name).text = false) :
    fs.resolvePieces onLink path (name :: pieces) seen =
      fs.resolvePieces onLink (path.push name) pieces seen := by
  rw [resolvePieces, if_neg (not_or.mpr ⟨named.1.1, named.1.2.1⟩), if_neg named.2]
  dsimp only
  split
  next target link =>
    rw [islink_iff.mpr ⟨target, link⟩] at unlinked
    cases unlinked
  next => rfl

theorem resolvePieces_replicate (k : Nat) (path : Resolved) :
    fs.resolvePieces onLink path (List.replicate k [] ++ pieces) seen =
      fs.resolvePieces onLink path pieces seen := by
  induction k with
  | zero => rfl
  | succ k ih =>
      rw [List.replicate_succ, List.cons_append, resolvePieces_skip onLink (.inl rfl), ih]

/-- Names that were followed before are followed again. -/
theorem resolvePieces_real {place : Place} {names : List Str}
    (real : fs.Real ⟨true, place ++ names⟩) :
    fs.resolvePieces onLink ⟨true, place⟩ names seen = some (.ok ⟨true, place ++ names⟩, seen) := by
  induction names generalizing place with
  | nil => rw [resolvePieces, List.append_nil]
  | cons name names ih =>
      have named : IsName name := real.named name (by simp)
      have pushed : (⟨true, place⟩ : Resolved).push name = ⟨true, place ++ [name]⟩ :=
        congrArg (Resolved.mk true) (push_name named.2 true place)
      have longer : place ++ name :: names = (place ++ [name]) ++ names := by simp
      rw [longer] at real ⊢
      rw [resolvePieces_name onLink named, pushed, ih real]
      rw [pushed]
      exact real.unlinked _ (List.prefix_append _ names)

/-- Where no place on the way is a link, the names are followed. -/
theorem resolvePieces_unlinked (seen : Seen) {place : Place} (real : fs.Real ⟨true, place⟩)
    (slashless : ∀ piece ∈ pieces, '/' ∉ piece)
    (unlinked : ∀ q, q <+: kept pieces → q ≠ [] → ¬fs.IsLink (walk true place q)) :
    fs.resolvePieces onLink ⟨true, place⟩ pieces seen =
        some (.ok ⟨true, walk true place (kept pieces)⟩, seen) ∧
      fs.Real ⟨true, walk true place (kept pieces)⟩ := by
  induction pieces generalizing place with
  | nil => exact ⟨rfl, real⟩
  | cons piece pieces ih =>
      rw [List.forall_mem_cons] at slashless
      by_cases skipped : piece = [] ∨ piece = ['.']
      · rw [kept_cons_of_skipped skipped] at unlinked ⊢
        rw [resolvePieces_skip onLink skipped]
        exact ih real slashless.2 unlinked
      · rw [kept_cons skipped] at unlinked ⊢
        have later : ∀ q, q <+: kept pieces → q ≠ [] →
            ¬fs.IsLink (walk true (push true place piece) q) := fun q front _ =>
          unlinked (piece :: q) ((List.prefix_cons_inj piece).mpr front) (List.cons_ne_nil _ _)
        rw [walk_cons]
        by_cases up : piece = dotdot
        · rw [up] at later ⊢
          rw [resolvePieces_dotdot]
          exact ih real.push_dotdot slashless.2 later
        · have named := isName_of_piece slashless.1 skipped up
          have here : ¬fs.IsLink (push true place piece) :=
            unlinked [piece] ((List.prefix_cons_inj piece).mpr List.nil_prefix)
              (List.cons_ne_nil _ _)
          have seen_ : fs.islink ((⟨true, place⟩ : Resolved).push piece).text = false := by
            rw [Bool.eq_false_iff]
            intro islink
            have text : ((⟨true, place⟩ : Resolved).push piece).text =
                render 1 (place ++ [piece]) :=
              congrArg (render 1) (push_name up true place)
            rw [text] at islink
            rw [push_name up] at here
            exact here (real.isLink_of_islink named islink)
          rw [resolvePieces_name onLink named seen_]
          exact ih (real.push_name named seen_) slashless.2 later

theorem head_split {path : Str} (some_ : path ≠ []) (relative : path.head? ≠ some '/') :
    (split path).head? ≠ some [] := by
  cases path with
  | nil => exact absurd rfl some_
  | cons c path =>
      have slash : c ≠ '/' := by simpa using relative
      rw [split, if_neg slash]
      split
      · intro same
        cases same
      · intro same
        cases same

theorem resolvePieces_append_ok {path p : Resolved} (more : List Str)
    (resolves : fs.resolvePieces onLink path pieces seen = some (.ok p, seen')) :
    fs.resolvePieces onLink path (pieces ++ more) seen = fs.resolvePieces onLink p more seen' := by
  induction pieces generalizing path seen with
  | nil =>
      cases resolves
      rfl
  | cons piece pieces ih =>
      rw [resolvePieces] at resolves
      rw [List.cons_append, resolvePieces]
      split at resolves
      next skipped => rw [if_pos skipped, ih resolves]
      next named =>
        rw [if_neg named]
        split at resolves
        next up => rw [if_pos up, ih resolves]
        next down =>
          rw [if_neg down]
          dsimp only at resolves ⊢
          split at resolves
          next target link =>
            split at resolves
            next resolved found => exact ih resolves
            next => cases resolves
            next =>
              split at resolves
              next => cases resolves
              next => cases resolves
              next => exact ih resolves
          next => exact ih resolves

/-- In a cycle of links, what follows is put at the end of what is left. -/
theorem resolvePieces_append_error {path : Resolved} {unresolved : Str} {more : List Str}
    (names : ∀ piece ∈ pieces, piece ≠ [] ∧ '/' ∉ piece) (first : more.head? ≠ some [])
    (slashless : ∀ piece ∈ more, '/' ∉ piece)
    (resolves : fs.resolvePieces onLink path pieces seen = some (.error unresolved, seen')) :
    ∃ longer, fs.resolvePieces onLink path (pieces ++ more) seen = some (.error longer, seen') ∧
      Extends unresolved longer (kept more) := by
  have joined : ∀ (text : Str) (rest : List Str), (∀ piece ∈ rest, piece ≠ [] ∧ '/' ∉ piece) →
      Extends (join text (slashed rest)) (join text (slashed (rest ++ more))) (kept more) := by
    intro text rest names
    have slashless' : ∀ piece ∈ rest, '/' ∉ piece := fun piece mem => (names piece mem).2
    have both : ∀ piece ∈ rest ++ more, '/' ∉ piece :=
      List.forall_mem_append.mpr ⟨slashless', slashless⟩
    have starts : rest.head? ≠ some [] := fun head => (names [] (List.mem_of_mem_head? head)).1 rfl
    have startsBoth : (rest ++ more).head? ≠ some [] := by
      cases rest with
      | nil => exact first
      | cons piece rest => exact starts
    have short := extends_join text (head_slashed starts slashless')
    have long := extends_join text (head_slashed startsBoth both)
    refine ⟨long.slashes.trans short.slashes.symm, ?_⟩
    rw [long.comps, short.comps, comps_slashed_pieces both, comps_slashed_pieces slashless', kept,
      List.filter_append, List.append_assoc]
    rfl
  induction pieces generalizing path seen with
  | nil => cases resolves
  | cons piece pieces ih =>
      rw [List.forall_mem_cons] at names
      rw [resolvePieces] at resolves
      rw [List.cons_append, resolvePieces]
      split at resolves
      next skipped =>
        rw [if_pos skipped]
        exact ih names.2 resolves
      next named =>
        rw [if_neg named]
        split at resolves
        next up =>
          rw [if_pos up]
          exact ih names.2 resolves
        next down =>
          rw [if_neg down]
          dsimp only at resolves ⊢
          split at resolves
          next target link =>
            split at resolves
            next resolved found => exact ih names.2 resolves
            next cycle =>
              cases resolves
              exact ⟨_, rfl, joined _ _ names.2⟩
            next =>
              split at resolves
              next => cases resolves
              next inner later unresolved' =>
                cases resolves
                exact ⟨_, rfl, joined _ _ names.2⟩
              next => exact ih names.2 resolves
          next => exact ih names.2 resolves

end Loop

/-! ### Resolved paths resolved again -/

theorem head_render {k : Nat} (absolute : 1 ≤ k) (names : List Str) :
    (render k names).head? = some '/' := by
  obtain ⟨k, rfl⟩ := Nat.exists_eq_add_of_le' absolute
  rfl

theorem joinRealpath_render {k : Nat} (absolute : 1 ≤ k) {names : List Str}
    (slashless : ∀ name ∈ names, '/' ∉ name) (depth : Nat) (path : Resolved) (seen : Seen) :
    fs.joinRealpath (depth + 1) path (render k names) seen =
      fs.resolvePieces (fs.joinRealpath depth) ⟨true, []⟩ names seen := by
  rw [joinRealpath, if_pos (head_render absolute names), split_render k slashless,
    resolvePieces_replicate]
  split
  next none =>
    rw [none]
    exact resolvePieces_skip _ (.inl rfl) _
  next => rfl

theorem split_join_render (k : Nat) {names : List Str} (comps : ∀ name ∈ names, IsComp name)
    {rel : Str} (relative : rel.head? ≠ some '/') :
    split (join (render k names) rel) = List.replicate k [] ++ (names ++ split rel) := by
  by_cases none : names = []
  · have stop : render k names = [] ∨ (render k names).getLast? = some '/' := by
      rw [none, render, slashed_nil, List.append_nil]
      cases k with
      | zero => exact .inl rfl
      | succ k => exact .inr (by rw [List.replicate_succ', List.getLast?_concat])
    rw [join, if_neg relative, if_pos stop, none, render, slashed_nil, List.append_nil,
      split_replicate_slash, List.nil_append]
  · have inside : ¬(render k names = [] ∨ (render k names).getLast? = some '/') := by
      have some_ : slashed names ≠ [] := by
        obtain ⟨c, s, starts, -, -⟩ := slashed_eq_cons none comps
        rw [starts]
        exact List.cons_ne_nil c s
      rw [not_or, render, List.getLast?_append_of_ne_nil _ some_]
      exact ⟨render_ne_nil none comps, getLast_slashed_ne none comps⟩
    rw [join, if_neg relative, if_neg inside, split_append_slash,
      split_render k fun name mem => (comps name mem).2.2, if_neg none, List.append_assoc]

theorem realpath_of_ok {depth : Nat} {filename : Str} {p : Resolved} {seen : Seen}
    (run : fs.joinRealpath depth ⟨false, []⟩ filename [] = some (.ok p, seen)) (real : fs.Real p) :
    fs.realpath depth filename = some (render 1 p.names) := by
  rw [realpath, run, Option.map_some]
  dsimp only
  rw [real.text, abspath_render real.named]

/-- Resolving a resolved path again changes nothing, unless it ends in a cycle of links. -/
theorem realpath_realpath {depth : Nat} {filename r : Str} (absolute : filename.head? = some '/')
    (acyclic : fs.Acyclic depth filename) (resolves : fs.realpath depth filename = some r) :
    fs.realpath depth r = some r := by
  obtain ⟨p, seen, run⟩ := acyclic
  obtain ⟨real, -⟩ := real_joinRealpath (.inl absolute)
    (fun _ _ mem => absurd mem List.not_mem_nil) run
  obtain ⟨rooted, names⟩ := p
  obtain rfl : rooted = true := real.rooted
  rw [realpath_of_ok run real] at resolves
  cases resolves
  cases depth with
  | zero => cases run
  | succ depth =>
      have again : fs.joinRealpath (depth + 1) ⟨false, []⟩ (render 1 names) [] =
          some (.ok ⟨true, names⟩, []) := by
        rw [joinRealpath_render le_rfl fun name mem => (real.named name mem).1.2.2]
        exact resolvePieces_real _ real
      exact realpath_of_ok again real

theorem head_of_initialSlashes (path : Str) : path.head? = some '/' ↔ 1 ≤ initialSlashes path := by
  cases path with
  | nil => exact ⟨nofun, nofun⟩
  | cons c path =>
      by_cases slash : c = '/'
      · have starts : 1 ≤ initialSlashes (c :: path) := by
          rw [slash, initialSlashes.eq_def]
          split
          all_goals first | decide | simp_all
        exact ⟨fun _ => starts, fun _ => by rw [slash]; rfl⟩
      · simp [initialSlashes, slash]

/-- A path with more names, normalised. -/
theorem normpath_extends {a b rel : Str} (relative : rel.head? ≠ some '/')
    (longer : Extends a b (comps rel)) : normpath b = normpath (join (normpath a) rel) := by
  have joined := extends_join (normpath a) relative
  have slashes := joined.slashes.trans (initialSlashes_normpath a)
  refine normpath_congr (longer.slashes.trans slashes.symm) ?_
  have settled : Settled (initialSlashes a != 0) (walk (initialSlashes a != 0) [] (comps a)) :=
    settled_walk (comps a) rfl
  rw [slashes, joined.comps, longer.comps, comps_normpath, walk_append, walk_append, settled]

theorem abspath_extends {a b rel : Str} (relative : rel.head? ≠ some '/')
    (longer : Extends a b (comps rel)) : fs.abspath b = normpath (join (fs.abspath a) rel) := by
  rw [abspath, abspath]
  by_cases absolute : a.head? = some '/'
  · have both : b.head? = some '/' := by
      rwa [head_of_initialSlashes, longer.slashes, ← head_of_initialSlashes]
    rw [if_pos absolute, if_pos both]
    exact normpath_extends relative longer
  · have both : b.head? ≠ some '/' := by
      rwa [ne_eq, head_of_initialSlashes, longer.slashes, ← head_of_initialSlashes]
    rw [if_neg absolute, if_neg both]
    refine normpath_extends relative ?_
    have short := extends_join (render 1 fs.cwd) absolute
    have long := extends_join (render 1 fs.cwd) both
    refine ⟨long.slashes.trans short.slashes.symm, ?_⟩
    rw [long.comps, short.comps, longer.comps, List.append_assoc]

theorem eq_render_of_absolute {path : Str} (normal : Normal path)
    (absolute : path.head? = some '/') : path = render (initialSlashes path) (comps path) := by
  have starts : render (initialSlashes path) (comps path) ≠ [] := by
    intro none
    have head := head_render ((head_of_initialSlashes path).mp absolute) (comps path)
    rw [none] at head
    cases head
  conv_lhs => rw [← show normpath path = path from normal]
  rw [normpath_eq, normal.settled, if_neg starts]

/-- From a path that resolving leaves as it is, resolving follows the names where none of their
places is a link. -/
theorem realpath_join {depth : Nat} {r rel : Str} (normal : Normal r)
    (absolute : r.head? = some '/') (fixed : fs.realpath depth r = some r) (some_ : rel ≠ [])
    (relative : rel.head? ≠ some '/')
    (unlinked : ∀ q, q <+: comps rel → q ≠ [] → ¬fs.IsLink (walk true (comps r) q)) :
    fs.realpath depth (join r rel) = some (normpath (join r rel)) := by
  have slashes : 1 ≤ initialSlashes r := (head_of_initialSlashes r).mp absolute
  have rendered := eq_render_of_absolute normal absolute
  have isComp : ∀ name ∈ comps r, IsComp name := fun name => isComp_of_mem_comps
  have slashless : ∀ piece ∈ split rel, '/' ∉ piece := fun piece => slash_not_mem_of_mem_split
  cases depth with
  | zero => cases fixed
  | succ depth =>
      have runs : fs.joinRealpath (depth + 1) ⟨false, []⟩ r [] =
          fs.resolvePieces (fs.joinRealpath depth) ⟨true, []⟩ (comps r) [] := by
        conv_lhs => rw [rendered]
        exact joinRealpath_render slashes (fun name mem => (isComp name mem).2.2) depth _ []
      have runsOn : fs.joinRealpath (depth + 1) ⟨false, []⟩ (join r rel) [] =
          fs.resolvePieces (fs.joinRealpath depth) ⟨true, []⟩ (comps r ++ split rel) [] := by
        have head : (join r rel).head? = some '/' := by
          rwa [head_of_initialSlashes, (extends_join r relative).slashes]
        have pieces := split_join_render (initialSlashes r) isComp relative
        rw [← rendered] at pieces
        rw [joinRealpath, if_pos head, pieces, resolvePieces_replicate]
      cases run : fs.resolvePieces (fs.joinRealpath depth) ⟨true, []⟩ (comps r) [] with
      | none =>
          rw [realpath, runs, run] at fixed
          cases fixed
      | some outcome =>
          obtain ⟨outcome, seen⟩ := outcome
          cases outcome with
          | error unresolved =>
              obtain ⟨longer, run', extends_⟩ := resolvePieces_append_error _
                (fun name mem => ⟨(isComp name mem).1, (isComp name mem).2.2⟩)
                (head_split some_ relative) slashless run
              rw [realpath, runs, run] at fixed
              have left : fs.abspath unresolved = r := Option.some.inj fixed
              rw [realpath, runsOn, run', Option.map_some]
              exact congrArg some (left ▸ abspath_extends relative extends_)
          | ok p =>
              obtain ⟨real, -⟩ := real_joinRealpath (.inl absolute)
                (fun _ _ mem => absurd mem List.not_mem_nil) (runs.trans run)
              obtain ⟨rooted, names⟩ := p
              obtain rfl : rooted = true := real.rooted
              have there : r = render 1 names :=
                Option.some.inj (fixed.symm.trans (realpath_of_ok (runs.trans run) real))
              have named : comps r = names := by rw [there, comps_render_names 1 real.named]
              rw [named] at unlinked run runsOn
              obtain ⟨follows, real'⟩ :=
                resolvePieces_unlinked (fs.joinRealpath depth) seen real slashless unlinked
              have run' := runsOn.trans ((resolvePieces_append_ok _ (split rel) run).trans follows)
              have joined := extends_join r relative
              have one : initialSlashes (join r rel) = 1 := by
                rw [joined.slashes, there, initialSlashes_render_one real.named]
              have reached : walk true [] (comps (join r rel)) = walk true names (comps rel) := by
                rw [joined.comps, named, walk_append, walk_names real.named, List.nil_append]
              rw [realpath_of_ok run' real', normpath_eq, one]
              change _ =
                some (if render 1 (walk true [] _) = [] then _ else render 1 (walk true [] _))
              rw [reached]
              exact congrArg some (if_neg nofun).symm

theorem normal_abspath (path : Str) : Normal (fs.abspath path) := normal_normpath _

theorem head_abspath (path : Str) : (fs.abspath path).head? = some '/' := by
  rw [abspath, head_of_initialSlashes, initialSlashes_normpath]
  split
  next absolute => exact (head_of_initialSlashes path).mp absolute
  next relative =>
    rw [(extends_join _ relative).slashes]
    exact (head_of_initialSlashes _).mp (head_render le_rfl fs.cwd)

theorem normal_realpath {depth : Nat} {path r : Str} (resolves : fs.realpath depth path = some r) :
    Normal r ∧ r.head? = some '/' := by
  obtain ⟨outcome, -, rfl⟩ := Option.map_eq_some_iff.mp resolves
  exact ⟨normal_abspath _, head_abspath _⟩

/-! ### Links that are seen -/

/-- A relative path is put behind the same text, whatever it is. -/
theorem exists_join (a : Str) :
    ∃ front, ∀ rel : Str, rel.head? ≠ some '/' → join a rel = front ++ rel := by
  by_cases stop : a = [] ∨ a.getLast? = some '/'
  · exact ⟨a, fun rel relative => by rw [join, if_neg relative, if_pos stop]⟩
  · exact ⟨a ++ ['/'], fun rel relative => by rw [join, if_neg relative, if_neg stop]; simp⟩

/-- `os.path.islink` sees a link that lies behind directories only. -/
theorem islink_reached {r name : Str} {pieces : List Str} (normal : Normal r)
    (absolute : r.head? = some '/') (first : pieces.head? ≠ some []) (named : IsComp name)
    (slashless : ∀ piece ∈ pieces, '/' ∉ piece)
    (short : bytes (join r (slashed (pieces ++ [name]))) < pathMax)
    (reached : ∀ q, q <+: kept pieces → fs.Reachable (walk true (comps r) q))
    (link : fs.IsLink (walk true (comps r) (kept pieces ++ [name]))) :
    fs.islink (join r (slashed (pieces ++ [name]))) = true := by
  have rendered := eq_render_of_absolute normal absolute
  have isComp : ∀ name ∈ comps r, IsComp name := fun name => isComp_of_mem_comps
  have settled : Settled true (comps r) := by
    have settled := normal.settled
    have slashes := (head_of_initialSlashes r).mp absolute
    rwa [show (initialSlashes r != 0) = true by simp; omega] at settled
  have all : ∀ piece ∈ pieces ++ [name], '/' ∉ piece :=
    List.forall_mem_append.mpr ⟨slashless, by simpa using named.2.2⟩
  have relative : (slashed (pieces ++ [name])).head? ≠ some '/' := by
    refine head_slashed ?_ all
    cases pieces with
    | nil => exact fun head => named.1 (Option.some.inj head)
    | cons piece pieces => exact first
  -- Up to the last name the path leads through directories.
  have front : kept (List.replicate (initialSlashes r) [] ++ (comps r ++ pieces)) =
      comps r ++ kept pieces := by
    have root : kept (comps r) = comps r :=
      List.filter_eq_self.mpr fun name mem => by
        simp [(isComp name mem).1, (isComp name mem).2.1]
    rw [kept, List.filter_append, List.filter_append]
    change _ ++ (kept (comps r) ++ kept pieces) = _
    rw [root]
    simp
  have directories : ∀ q, q <+: comps r ++ kept pieces → fs.Passable (walk true [] q) := by
    intro q within
    rcases List.prefix_or_prefix_of_prefix within (List.prefix_append _ _) with up | ⟨below, rfl⟩
    · obtain ⟨more, whole⟩ := up
      rw [← whole] at settled
      have front := settled_of_prefix settled
      rw [front]
      exact reached [] List.nil_prefix q ⟨more, whole⟩
    · rw [walk_append, settled]
      exact reached below ((List.prefix_append_right_inj _).mp within) _ List.prefix_rfl
  have last : fs.Passable (walk true (comps r) (kept pieces)) :=
    reached _ List.prefix_rfl _ List.prefix_rfl
  rw [walk_append, walk_singleton] at link
  have down : name ≠ dotdot := by
    rintro rfl
    rw [push_dotdot (fs.named _ (by simp [last.1]))] at link
    exact not_isLink_of_directory (directory_dropLast last.1) link
  rw [push_name down] at link
  have text := (extends_join r relative).slashes
  have head : (join r (slashed (pieces ++ [name]))).head? = some '/' := by
    rwa [head_of_initialSlashes, text, ← head_of_initialSlashes]
  have some_ : join r (slashed (pieces ++ [name])) ≠ [] := by
    intro none
    rw [none] at head
    cases head
  have split_ : split (join r (slashed (pieces ++ [name]))) =
      (List.replicate (initialSlashes r) [] ++ (comps r ++ pieces)) ++ [name] := by
    have pieces_ := split_join_render (initialSlashes r) isComp relative
    rw [← rendered, split_slashed (by simp) all] at pieces_
    rw [pieces_]
    simp
  have found : fs.lookup maxLinks [] (split (join r (slashed (pieces ++ [name])))) =
      some (walk true (comps r) (kept pieces) ++ [name]) := by
    rw [split_, maxLinks, lookup, follow_reached _ [name] (by rwa [front]), front, walk_append,
      settled]
    exact follow_link _ last.2 link
  obtain ⟨target, entry⟩ := link
  refine islink_iff.mpr ⟨target, ?_⟩
  rw [lstat, if_neg (not_or.mpr ⟨some_, by omega⟩), head, base, if_pos (by simp), found]
  exact entry

end Filesystem

end Ecube.SymlinkTree
