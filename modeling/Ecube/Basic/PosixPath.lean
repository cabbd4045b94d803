import Mathlib.Data.List.Basic
import Mathlib.Data.List.DropRight
import Mathlib.Data.List.Infix

/-!
Posix path strings: `strip`, `normpath`, `join` and `commonpath`.

A path is a list of characters. `comps` are its components (the pieces between
slashes that are neither empty nor a dot), `push` is the treatment of one
component by `normpath`, and `walk` follows a list of components from a place
that has already been reached.

* `comps_normpath`: the components of a normalised path are those its walk
  reaches, so normalising twice changes nothing (`normpath_idem`).
* `below_iff`: a normalised path lies at or below a normalised root exactly
  when the root's components are an initial part of its own.
* `render_concat`: the last component of a rendered path, split off, so that
  trimming at the end reaches nothing before it.
-/

namespace Ecube

/-- A string as the list of its characters. -/
abbrev Str := List Char

instance Str.lawfulBEq : LawfulBEq Str := inferInstance

namespace PosixPath

/-! ### Whitespace -/

/-- The characters `str.strip` removes: Unicode whitespace and the information
separators. -/
def isSpace (c : Char) : Bool :=
  let n := c.toNat
  (9 ≤ n ∧ n ≤ 13) ∨ (28 ≤ n ∧ n ≤ 32) ∨ n = 0x85 ∨ n = 0xA0 ∨ n = 0x1680 ∨
    (0x2000 ≤ n ∧ n ≤ 0x200A) ∨ n = 0x2028 ∨ n = 0x2029 ∨ n = 0x202F ∨ n = 0x205F ∨ n = 0x3000

def lstrip (s : Str) : Str := s.dropWhile isSpace

def rstrip (s : Str) : Str := s.rdropWhile isSpace

def strip (s : Str) : Str := rstrip (lstrip s)

@[simp] theorem isSpace_slash : isSpace '/' = false := rfl

@[simp] theorem isSpace_dot : isSpace '.' = false := rfl

@[simp] theorem rstrip_nil : rstrip [] = [] := rfl

/-- Trimming at the end stops at a character that is not whitespace. -/
theorem rstrip_append_cons {c : Char} (h : isSpace c = false) (a x : Str) :
    rstrip (a ++ c :: x) = a ++ c :: rstrip x := by
  induction x using List.reverseRecOn with
  | nil => simp [rstrip, h]
  | append_singleton x d ih =>
      rw [← List.cons_append, ← List.append_assoc, rstrip, rstrip, List.rdropWhile_concat,
        List.rdropWhile_concat]
      split
      · exact ih
      · rw [List.append_assoc, List.cons_append]

/-- Whitespace at the end is trimmed. -/
theorem rstrip_append_spaces {a x : Str} (h : ∀ c ∈ x, isSpace c = true) :
    rstrip (a ++ x) = rstrip a := by
  induction x using List.reverseRecOn with
  | nil => rw [List.append_nil]
  | append_singleton x d ih =>
      rw [← List.append_assoc, rstrip, List.rdropWhile_concat_pos _ _ _ (h d (by simp))]
      exact ih fun c mem => h c (List.mem_append_left _ mem)

theorem rstrip_append {a x : Str} (stop : a = [] ∨ ∃ b, a = b ++ ['/']) :
    rstrip (a ++ x) = a ++ rstrip x := by
  rcases stop with rfl | ⟨b, rfl⟩
  · rfl
  · rw [List.append_assoc, List.append_assoc]
    exact rstrip_append_cons isSpace_slash b x

theorem rstrip_strip (s : Str) : rstrip (strip s) = strip s :=
  List.rdropWhile_idempotent isSpace (lstrip s)

/-- A string that starts with a character that is not whitespace is only trimmed at its end. -/
theorem strip_cons {c : Char} {s : Str} (h : isSpace c = false) :
    strip (c :: s) = rstrip (c :: s) := by
  simp [strip, lstrip, h]

theorem strip_of_no_space {s : Str} (h : ∀ c ∈ s, isSpace c = false) : strip s = s := by
  have front : lstrip s = s := by
    apply List.dropWhile_eq_self_iff.mpr
    intro pos
    simp [h _ (List.getElem_mem pos)]
  rw [strip, front, rstrip, List.rdropWhile_eq_self_iff]
  intro nonempty
  simp [h _ (List.getLast_mem nonempty)]

theorem head_strip {s t : Str} {c : Char} (h : strip s = c :: t) : isSpace c = false := by
  obtain ⟨u, hu⟩ : strip s <+: lstrip s := List.rdropWhile_prefix isSpace _
  rw [h, List.cons_append] at hu
  have stop := List.head?_dropWhile_not isSpace s
  rw [← lstrip, ← hu] at stop
  simpa using stop

theorem strip_strip (s : Str) : strip (strip s) = strip s := by
  cases h : strip s with
  | nil => rfl
  | cons c t =>
      rw [strip_cons (head_strip h), ← h]
      exact rstrip_strip s

/-! ### Components -/

/-- `s.split("/")`. -/
def split : Str → List Str
  | [] => [[]]
  | c :: s =>
      if c = '/' then [] :: split s
      else match split s with
        | [] => [[c]]
        | p :: ps => (c :: p) :: ps

/-- The components of a path: its pieces without the empty ones and the dots. -/
def comps (s : Str) : List Str :=
  (split s).filter fun p => p ≠ [] ∧ p ≠ ['.']

/-- A component: not empty, not a dot, and without a slash. -/
def IsComp (p : Str) : Prop := p ≠ [] ∧ p ≠ ['.'] ∧ '/' ∉ p

instance (p : Str) : Decidable (IsComp p) := inferInstanceAs (Decidable (_ ∧ _ ∧ _))

/-- `"/".join(ps)`. -/
def slashed (ps : List Str) : Str := List.intercalate ['/'] ps

theorem split_ne_nil (s : Str) : split s ≠ [] := by
  cases s with
  | nil => simp [split]
  | cons c s =>
      rw [split]
      split
      · exact List.cons_ne_nil _ _
      · split <;> exact List.cons_ne_nil _ _

theorem split_append_slash (a b : Str) : split (a ++ '/' :: b) = split a ++ split b := by
  induction a with
  | nil => simp [split]
  | cons c a ih =>
      simp only [List.cons_append, split, ih]
      split
      · rfl
      · cases h : split a with
        | nil => exact absurd h (split_ne_nil a)
        | cons p ps => rfl

theorem split_of_not_mem {p : Str} (h : '/' ∉ p) : split p = [p] := by
  induction p with
  | nil => rfl
  | cons c p ih =>
      rw [List.mem_cons, not_or] at h
      simp [split, ih h.2, Ne.symm h.1]

theorem slash_not_mem_of_mem_split {s p : Str} (h : p ∈ split s) : '/' ∉ p := by
  induction s generalizing p with
  | nil =>
      rw [split, List.mem_singleton] at h
      simp [h]
  | cons c s ih =>
      rw [split] at h
      split at h
      · rcases List.mem_cons.mp h with rfl | h
        · simp
        · exact ih h
      · rename_i slash
        cases hs : split s with
        | nil => exact absurd hs (split_ne_nil s)
        | cons q qs =>
            rw [hs] at h ih
            rcases List.mem_cons.mp h with rfl | h
            · rw [List.mem_cons, not_or]
              exact ⟨fun e => slash e.symm, ih List.mem_cons_self⟩
            · exact ih (List.mem_cons_of_mem q h)

theorem isComp_of_mem_comps {s p : Str} (h : p ∈ comps s) : IsComp p := by
  obtain ⟨mem, keep⟩ := List.mem_filter.mp h
  have keep : p ≠ [] ∧ p ≠ ['.'] := by simpa using keep
  exact ⟨keep.1, keep.2, slash_not_mem_of_mem_split mem⟩

@[simp] theorem comps_nil : comps [] = [] := rfl

theorem comps_append_slash (a b : Str) : comps (a ++ '/' :: b) = comps a ++ comps b := by
  rw [comps, split_append_slash, List.filter_append]
  rfl

@[simp] theorem comps_slash (s : Str) : comps ('/' :: s) = comps s := by
  simpa using comps_append_slash [] s

theorem comps_of_not_mem {p : Str} (h : '/' ∉ p) :
    comps p = if p = [] ∨ p = ['.'] then [] else [p] := by
  rw [comps, split_of_not_mem h, List.filter_singleton]
  by_cases hp : p = [] ∨ p = ['.']
  · rcases hp with rfl | rfl <;> simp
  · rw [not_or] at hp
    simp [hp]

theorem comps_of_isComp {p : Str} (h : IsComp p) : comps p = [p] := by
  rw [comps_of_not_mem h.2.2, if_neg (not_or.mpr ⟨h.1, h.2.1⟩)]

@[simp] theorem slashed_nil : slashed [] = [] := rfl

@[simp] theorem slashed_singleton (p : Str) : slashed [p] = p := by
  simp [slashed, List.intercalate]

theorem slashed_cons {p : Str} {ps : List Str} (h : ps ≠ []) :
    slashed (p :: ps) = p ++ '/' :: slashed ps := by
  rw [slashed, List.intercalate_cons_of_ne_nil h]
  simp [slashed]

theorem slashed_append {ps qs : List Str} (hp : ps ≠ []) (hq : qs ≠ []) :
    slashed (ps ++ qs) = slashed ps ++ '/' :: slashed qs := by
  induction ps with
  | nil => exact absurd rfl hp
  | cons p ps ih =>
      rw [List.cons_append]
      by_cases h : ps = []
      · subst h
        rw [List.nil_append, slashed_cons hq, slashed_singleton]
      · rw [slashed_cons (by simp [h]), ih h, slashed_cons h, List.append_assoc, List.cons_append]

theorem comps_slashed {ps : List Str} (h : ∀ p ∈ ps, IsComp p) : comps (slashed ps) = ps := by
  induction ps with
  | nil => rfl
  | cons p ps ih =>
      rw [List.forall_mem_cons] at h
      by_cases hps : ps = []
      · subst hps
        rw [slashed_singleton, comps_of_isComp h.1]
      · rw [slashed_cons hps, comps_append_slash, comps_of_isComp h.1, ih h.2, List.singleton_append]

/-! ### Normalisation -/

/-- How `normpath` treats one component when `acc` has been kept so far. -/
def push (rooted : Bool) (acc : List Str) (p : Str) : List Str :=
  if p ≠ ['.', '.'] ∨ (rooted = false ∧ acc = []) ∨ acc.getLast? = some ['.', '.'] then acc ++ [p]
  else acc.dropLast

/-- The place reached from `acc` by following the components `ps`. -/
def walk (rooted : Bool) (acc ps : List Str) : List Str :=
  ps.foldl (push rooted) acc

/-- The slashes a path starts with: exactly two count as two, more as one. -/
def initialSlashes : Str → Nat
  | '/' :: '/' :: '/' :: _ => 1
  | '/' :: '/' :: _ => 2
  | '/' :: _ => 1
  | _ => 0

/-- `os.path.normpath`. -/
def normpath (s : Str) : Str :=
  let slashes := initialSlashes s
  let path := List.replicate slashes '/' ++ slashed (walk (slashes != 0) [] (comps s))
  if path = [] then ['.'] else path

/-- `os.path.join` of two paths. -/
def join (a b : Str) : Str :=
  if b.head? = some '/' then b
  else if a = [] ∨ a.getLast? = some '/' then a ++ b
  else a ++ '/' :: b

/-- `os.path.basename`: what follows the last slash. -/
def basename (p : Str) : Str := p.rtakeWhile (· ≠ '/')

theorem basename_append {directory name : Str} (plain : '/' ∉ name) :
    basename (directory ++ '/' :: name) = name := by
  rw [basename, List.rtakeWhile, List.reverse_append, List.reverse_cons, List.append_assoc,
    List.takeWhile_append_of_pos]
  · simp
  · intro c mem
    exact decide_eq_true fun same => plain (same ▸ List.mem_reverse.mp mem)

/-- `os.path.dirname`: what precedes the last slash, without trailing slashes. -/
def dirname (p : Str) : Str :=
  let head := p.rdropWhile (· ≠ '/')
  if head.all (· = '/') then head else head.rdropWhile (· = '/')

/-- The longest common initial part of two lists. -/
def commonPrefix : List Str → List Str → List Str
  | p :: ps, q :: qs => if p = q then p :: commonPrefix ps qs else []
  | _, _ => []

/-- `os.path.commonpath` of two paths; mixing absolute and relative paths is an error. -/
def commonpath (a b : Str) : Option Str :=
  if (a.head? = some '/') = (b.head? = some '/') then
    some ((if a.head? = some '/' then ['/'] else []) ++ slashed (commonPrefix (comps a) (comps b)))
  else none

/-- Components that a walk from the start keeps as they are. -/
def Settled (rooted : Bool) (ps : List Str) : Prop := walk rooted [] ps = ps

theorem walk_append (rooted : Bool) (acc ps qs : List Str) :
    walk rooted acc (ps ++ qs) = walk rooted (walk rooted acc ps) qs :=
  List.foldl_append

@[simp] theorem walk_nil (rooted : Bool) (acc : List Str) : walk rooted acc [] = acc := rfl

@[simp] theorem walk_singleton (rooted : Bool) (acc : List Str) (p : Str) :
    walk rooted acc [p] = push rooted acc p := rfl

theorem push_length_le (rooted : Bool) (acc : List Str) (p : Str) :
    (push rooted acc p).length ≤ acc.length + 1 := by
  rw [push]
  split
  · simp
  · rw [List.length_dropLast]
    omega

theorem walk_length_le (rooted : Bool) (acc ps : List Str) :
    (walk rooted acc ps).length ≤ acc.length + ps.length := by
  induction ps generalizing acc with
  | nil => simp
  | cons p ps ih =>
      have step := push_length_le rooted acc p
      have rest := ih (push rooted acc p)
      simp only [walk, List.foldl_cons, List.length_cons] at rest ⊢
      omega

theorem settled_of_append {rooted : Bool} {ps : List Str} {p : Str}
    (h : Settled rooted (ps ++ [p])) : Settled rooted ps := by
  rw [Settled, walk_append, walk_singleton, push] at h
  split at h
  · exact (List.append_inj' h rfl).1
  · -- A pop leaves too few components.
    have short := walk_length_le rooted [] ps
    have long := congrArg List.length h
    rw [List.length_dropLast, List.length_append] at long
    simp only [List.length_nil, List.length_singleton] at short long
    omega

theorem settled_of_prefix {rooted : Bool} {ps qs : List Str} (h : Settled rooted (ps ++ qs)) :
    Settled rooted ps := by
  induction qs using List.reverseRecOn with
  | nil => simpa using h
  | append_singleton qs q ih =>
      rw [← List.append_assoc] at h
      exact ih (settled_of_append h)

theorem settled_push {rooted : Bool} {acc : List Str} (p : Str) (h : Settled rooted acc) :
    Settled rooted (push rooted acc p) := by
  by_cases hp : p ≠ ['.', '.'] ∨ (rooted = false ∧ acc = []) ∨ acc.getLast? = some ['.', '.']
  · have appended : push rooted acc p = acc ++ [p] := if_pos hp
    rw [appended, Settled, walk_append, h, walk_singleton, appended]
  · have popped : push rooted acc p = acc.dropLast := if_neg hp
    rw [popped]
    rcases List.eq_nil_or_concat' acc with rfl | ⟨acc, q, rfl⟩
    · rfl
    · rw [List.dropLast_concat]
      exact settled_of_append h

theorem settled_walk {rooted : Bool} {acc : List Str} (ps : List Str) (h : Settled rooted acc) :
    Settled rooted (walk rooted acc ps) := by
  induction ps generalizing acc with
  | nil => exact h
  | cons p ps ih => exact ih (settled_push p h)

theorem mem_push {rooted : Bool} {acc : List Str} {p q : Str} (h : q ∈ push rooted acc p) :
    q ∈ acc ∨ q = p := by
  rw [push] at h
  split at h
  · simpa using h
  · exact .inl (List.mem_of_mem_dropLast h)

theorem mem_walk {rooted : Bool} {acc ps : List Str} {q : Str} (h : q ∈ walk rooted acc ps) :
    q ∈ acc ∨ q ∈ ps := by
  induction ps generalizing acc with
  | nil => exact .inl h
  | cons p ps ih =>
      rcases ih h with h | h
      · rcases mem_push h with h | rfl
        · exact .inl h
        · exact .inr List.mem_cons_self
      · exact .inr (List.mem_cons_of_mem p h)

/-- In settled components only `..` can precede a `..`. -/
theorem settled_dotdot {rooted : Bool} {ps : List Str} (h : Settled rooted (ps ++ [['.', '.']])) :
    ∀ p ∈ ps, p = ['.', '.'] := by
  induction ps using List.reverseRecOn with
  | nil => simp
  | append_singleton ps q ih =>
      have hq : Settled rooted (ps ++ [q]) := settled_of_append h
      rw [Settled, walk_append, hq, walk_singleton, push] at h
      split at h
      · rename_i hlast
        have last : q = ['.', '.'] := by simpa using hlast
        subst last
        intro p hp
        rcases List.mem_append.mp hp with hp | hp
        · exact ih hq p hp
        · exact List.mem_singleton.mp hp
      · have := congrArg List.length h
        simp at this

/-! ### Normalised paths -/

/-- The path with the given leading slashes and components. -/
def render (slashes : Nat) (ps : List Str) : Str := List.replicate slashes '/' ++ slashed ps

theorem normpath_eq (s : Str) :
    normpath s = if render (initialSlashes s) (walk (initialSlashes s != 0) [] (comps s)) = []
      then ['.'] else render (initialSlashes s) (walk (initialSlashes s != 0) [] (comps s)) :=
  rfl

theorem slashed_eq_cons {ps : List Str} (ne : ps ≠ []) (h : ∀ p ∈ ps, IsComp p) :
    ∃ c s, slashed ps = c :: s ∧ c ≠ '/' ∧ ps.head?.bind List.head? = some c := by
  cases ps with
  | nil => exact absurd rfl ne
  | cons p ps =>
      obtain ⟨hne, -, hslash⟩ := h p List.mem_cons_self
      cases p with
      | nil => exact absurd rfl hne
      | cons c p =>
          rw [List.mem_cons, not_or] at hslash
          by_cases hps : ps = []
          · subst hps
            exact ⟨c, p, by simp, Ne.symm hslash.1, rfl⟩
          · exact ⟨c, p ++ '/' :: slashed ps, by rw [slashed_cons hps]; rfl, Ne.symm hslash.1, rfl⟩

theorem comps_render (slashes : Nat) {ps : List Str} (h : ∀ p ∈ ps, IsComp p) :
    comps (render slashes ps) = ps := by
  induction slashes with
  | zero => simpa [render] using comps_slashed h
  | succ n ih => simpa [render, List.replicate_succ] using ih

theorem render_ne_nil {slashes : Nat} {ps : List Str} (ne : ps ≠ []) (h : ∀ p ∈ ps, IsComp p) :
    render slashes ps ≠ [] := by
  obtain ⟨c, s, hs, -, -⟩ := slashed_eq_cons ne h
  simp [render, hs]

theorem initialSlashes_le (s : Str) : initialSlashes s ≤ 2 := by
  rw [initialSlashes.eq_def]
  split <;> omega

theorem initialSlashes_render {slashes : Nat} {ps : List Str} (le : slashes ≤ 2) (ne : ps ≠ [])
    (h : ∀ p ∈ ps, IsComp p) (t : Str) : initialSlashes (render slashes ps ++ t) = slashes := by
  obtain ⟨c, s, hs, hc, -⟩ := slashed_eq_cons ne h
  rw [render, hs]
  match slashes, le with
  | 0, _ => simp [initialSlashes, hc]
  | 1, _ => simp [initialSlashes, hc]
  | 2, _ => simp [initialSlashes, hc]

theorem isComp_of_mem_walk {rooted : Bool} {s p : Str} (h : p ∈ walk rooted [] (comps s)) :
    IsComp p := by
  rcases mem_walk h with h | h
  · exact absurd h List.not_mem_nil
  · exact isComp_of_mem_comps h

theorem comps_normpath (s : Str) :
    comps (normpath s) = walk (initialSlashes s != 0) [] (comps s) := by
  have hcomp : ∀ p ∈ walk (initialSlashes s != 0) [] (comps s), IsComp p :=
    fun p h => isComp_of_mem_walk h
  have kept := comps_render (initialSlashes s) hcomp
  rw [normpath_eq]
  split
  · rename_i empty
    rw [empty] at kept
    exact kept
  · exact kept

theorem initialSlashes_normpath (s : Str) : initialSlashes (normpath s) = initialSlashes s := by
  have le := initialSlashes_le s
  have hcomp : ∀ p ∈ walk (initialSlashes s != 0) [] (comps s), IsComp p :=
    fun p h => isComp_of_mem_walk h
  rw [normpath_eq]
  generalize initialSlashes s = n at *
  generalize walk (n != 0) [] (comps s) = ps at *
  by_cases ne : ps = []
  · subst ne
    match n, le with
    | 0, _ => rfl
    | 1, _ => rfl
    | 2, _ => rfl
  · rw [if_neg (render_ne_nil ne hcomp)]
    simpa using initialSlashes_render le ne hcomp []

/-- Normalising a normalised path changes nothing. -/
theorem normpath_idem (s : Str) : normpath (normpath s) = normpath s := by
  have settled : walk (initialSlashes s != 0) [] (comps (normpath s)) = comps (normpath s) := by
    rw [comps_normpath]
    exact settled_walk (comps s) rfl
  rw [normpath_eq (normpath s), initialSlashes_normpath, settled, comps_normpath, normpath_eq s]

/-- Paths that normalising leaves as they are. -/
def Normal (s : Str) : Prop := normpath s = s

instance (s : Str) : Decidable (Normal s) := by unfold Normal; infer_instance

theorem normal_normpath (s : Str) : Normal (normpath s) := normpath_idem s

theorem Normal.settled {r : Str} (norm : Normal r) : Settled (initialSlashes r != 0) (comps r) := by
  have settled : Settled (initialSlashes r != 0) (walk (initialSlashes r != 0) [] (comps r)) :=
    settled_walk (comps r) rfl
  rw [← comps_normpath, show normpath r = r from norm] at settled
  exact settled

theorem Normal.eq_render {r : Str} (norm : Normal r) (ne : comps r ≠ []) :
    r = render (initialSlashes r) (comps r) := by
  have kept := norm.settled
  conv_lhs => rw [← norm, normpath_eq, kept, if_neg (render_ne_nil ne fun p => isComp_of_mem_comps)]

/-- `p` is the directory `root` or lies below it, as the strings say. -/
def Below (root p : Str) : Prop := p = root ∨ root ++ ['/'] <+: p

instance (root p : Str) : Decidable (Below root p) := by unfold Below; infer_instance

theorem Below.comps_prefix {root p : Str} (h : Below root p) : comps root <+: comps p := by
  rcases h with rfl | ⟨t, rfl⟩
  · exact List.prefix_rfl
  · rw [List.append_assoc, List.singleton_append, comps_append_slash]
    exact List.prefix_append _ _

theorem head_of_below {root p : Str} (h : Below root p) (ne : root ≠ []) : p.head? = root.head? := by
  cases root with
  | nil => exact absurd rfl ne
  | cons c root =>
      rcases h with rfl | ⟨t, rfl⟩
      · rfl
      · rfl

/-- A normalised path lies at or below a normalised root exactly when the
components of the root are an initial part of its components. -/
theorem below_iff {r s : Str} (norm : Normal r) (ne : comps r ≠ [])
    (slashes : initialSlashes s = initialSlashes r) :
    Below r (normpath s) ↔ comps r <+: comps (normpath s) := by
  refine ⟨Below.comps_prefix, ?_⟩
  rintro ⟨qs, hqs⟩
  have hs : normpath s = render (initialSlashes r) (comps r ++ qs) := by
    conv_lhs => rw [(normal_normpath s).eq_render (by simp [← hqs, ne])]
    rw [initialSlashes_normpath, slashes, hqs]
  have hr := norm.eq_render ne
  by_cases hq : qs = []
  · left
    rw [hs, hq, List.append_nil]
    exact hr.symm
  · right
    refine ⟨slashed qs, ?_⟩
    calc r ++ ['/'] ++ slashed qs
        = render (initialSlashes r) (comps r) ++ ['/'] ++ slashed qs := by rw [← hr]
      _ = render (initialSlashes r) (comps r ++ qs) := by
          simp [render, slashed_append ne hq]
      _ = normpath s := hs.symm

/-! ### Joining and comparing -/

theorem commonPrefix_prefix_left (ps qs : List Str) : commonPrefix ps qs <+: ps := by
  induction ps generalizing qs with
  | nil => exact List.nil_prefix
  | cons p ps ih =>
      cases qs with
      | nil => exact List.nil_prefix
      | cons q qs =>
          rw [commonPrefix]
          split
          · exact (List.prefix_cons_inj p).mpr (ih qs)
          · exact List.nil_prefix

theorem isComp_of_mem_commonPrefix {a b p : Str} (h : p ∈ commonPrefix (comps a) (comps b)) :
    IsComp p :=
  isComp_of_mem_comps ((commonPrefix_prefix_left _ _).subset h)

/-- What it takes for the common path of `a` and a normalised `r` to be `r`:
the root is no plain slash, no dot and has no double slash, it agrees with `a`
on being absolute, and its components are an initial part of `a`'s. -/
theorem commonpath_eq_root {a r : Str} (norm : Normal r) (hr : r ≠ ['/'])
    (h : commonpath a r = some r) :
    comps r ≠ [] ∧ initialSlashes r ≤ 1 ∧ comps r <+: comps a := by
  rw [commonpath] at h
  split at h
  · have hcomp : ∀ p ∈ commonPrefix (comps a) (comps r), IsComp p :=
      fun p => isComp_of_mem_commonPrefix
    -- The common path is itself a rendered list of components.
    obtain ⟨n, hn, hrender⟩ : ∃ n ≤ 1, r = render n (commonPrefix (comps a) (comps r)) := by
      have h := Option.some.inj h
      by_cases abs : a.head? = some '/'
      · rw [if_pos abs] at h
        exact ⟨1, le_rfl, h.symm⟩
      · rw [if_neg abs] at h
        exact ⟨0, by omega, h.symm⟩
    have hcomps : comps r = commonPrefix (comps a) (comps r) := by
      conv_lhs => rw [hrender, comps_render n hcomp]
    have ne : comps r ≠ [] := by
      intro empty
      rw [← hcomps, empty] at hrender
      match n, hn with
      | 0, _ =>
          -- The empty path is not in normal form.
          rw [render] at hrender
          subst hrender
          exact absurd norm (by decide)
      | 1, _ => exact hr hrender
    have hslashes : initialSlashes r = n := by
      conv_lhs => rw [hrender, ← hcomps]
      simpa using initialSlashes_render (by omega) ne (fun p => isComp_of_mem_comps) []
    refine ⟨ne, by omega, ?_⟩
    rw [hcomps]
    exact commonPrefix_prefix_left _ _
  · cases h

theorem getLast_slashed_ne {ps : List Str} (ne : ps ≠ []) (h : ∀ p ∈ ps, IsComp p) :
    (slashed ps).getLast? ≠ some '/' := by
  have single : ∀ p, IsComp p → p.getLast? ≠ some '/' := fun p hp last =>
    hp.2.2 (List.mem_of_getLast? last)
  induction ps with
  | nil => exact absurd rfl ne
  | cons p ps ih =>
      rw [List.forall_mem_cons] at h
      by_cases hps : ps = []
      · subst hps
        rw [slashed_singleton]
        exact single p h.1
      · obtain ⟨c, s, hs, -, -⟩ := slashed_eq_cons hps h.2
        have split_last : slashed (p :: ps) = (p ++ ['/']) ++ slashed ps := by
          rw [slashed_cons hps, List.append_assoc, List.singleton_append]
        rw [split_last, List.getLast?_append_of_ne_nil _ (by simp [hs])]
        exact ih hps h.2

/-- Joining a relative path to a normalised directory that is not the root. -/
theorem join_of_normal {r rel : Str} (norm : Normal r) (ne : comps r ≠ [])
    (hrel : rel.head? ≠ some '/') : join r rel = r ++ '/' :: rel := by
  have hcomp : ∀ p ∈ comps r, IsComp p := fun p => isComp_of_mem_comps
  have last : r.getLast? ≠ some '/' := by
    obtain ⟨c, s, hs, -, -⟩ := slashed_eq_cons ne hcomp
    rw [norm.eq_render ne, render, List.getLast?_append_of_ne_nil _ (by simp [hs])]
    exact getLast_slashed_ne ne hcomp
  have nonempty : r ≠ [] := by
    rw [norm.eq_render ne]
    exact render_ne_nil ne hcomp
  rw [join, if_neg hrel, if_neg (by simp [last, nonempty])]

/-- Following a relative path from a normalised directory. -/
theorem initialSlashes_append_slash {r : Str} (norm : Normal r) (ne : comps r ≠ []) (rel : Str) :
    initialSlashes (r ++ '/' :: rel) = initialSlashes r := by
  conv_lhs => rw [norm.eq_render ne]
  exact initialSlashes_render (initialSlashes_le r) ne (fun p => isComp_of_mem_comps) _

theorem comps_normpath_append_slash {r : Str} (norm : Normal r) (ne : comps r ≠ []) (rel : Str) :
    comps (normpath (r ++ '/' :: rel)) = walk (initialSlashes r != 0) (comps r) (comps rel) := by
  rw [comps_normpath, initialSlashes_append_slash norm ne, comps_append_slash, walk_append,
    norm.settled]

/-! ### Trimming -/

/-- The part of a rendered path before its last component: trimming the path
at its end stops there, and a shorter last component changes nothing else. -/
theorem render_concat {slashes : Nat} {ps : List Str} (p : Str) (le : slashes ≤ 2)
    (h : ∀ q ∈ ps, IsComp q) :
    ∃ a, render slashes (ps ++ [p]) = a ++ p ∧ (a = [] ∨ ∃ b, a = b ++ ['/']) ∧
      comps a = ps ∧ ∀ y, '/' ∉ y → initialSlashes (a ++ y) = slashes := by
  by_cases hps : ps = []
  · subst hps
    refine ⟨List.replicate slashes '/', by simp [render], ?_, ?_, ?_⟩
    · cases slashes with
      | zero => exact .inl rfl
      | succ n => exact .inr ⟨List.replicate n '/', List.replicate_succ'⟩
    · have bare : comps (render slashes []) = [] := comps_render slashes (by simp)
      simpa [render] using bare
    · intro y hy
      cases y with
      | nil =>
          match slashes, le with
          | 0, _ => rfl
          | 1, _ => rfl
          | 2, _ => rfl
      | cons c y =>
          rw [List.mem_cons, not_or] at hy
          match slashes, le with
          | 0, _ => simp [initialSlashes, Ne.symm hy.1]
          | 1, _ => simp [initialSlashes, Ne.symm hy.1]
          | 2, _ => simp [initialSlashes, Ne.symm hy.1]
  · refine ⟨render slashes ps ++ ['/'], ?_, .inr ⟨_, rfl⟩, ?_, ?_⟩
    · simp [render, slashed_append hps]
    · rw [comps_append_slash, comps_render slashes h, comps_nil, List.append_nil]
    · intro y _
      rw [List.append_assoc]
      exact initialSlashes_render le hps h _

theorem comps_append_of_stop {a x : Str} (stop : a = [] ∨ ∃ b, a = b ++ ['/']) :
    comps (a ++ x) = comps a ++ comps x := by
  rcases stop with rfl | ⟨b, rfl⟩
  · rfl
  · rw [List.append_assoc, List.singleton_append, comps_append_slash, comps_append_slash,
      comps_nil, List.append_nil]

end PosixPath

end Ecube
