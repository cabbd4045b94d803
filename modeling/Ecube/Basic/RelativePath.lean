import Ecube.Basic.PosixPath

/-!
Paths relative to a directory: `abspath`, `relpath`, and the children of a directory.

`normal_child`: a child of a normalised directory is normalised. `relpath_child`: relative to the
directory it is its own name. `eq_child_of_relpath`: a path with a relative path of one name is a
child.
-/

namespace Ecube.PosixPath

/-- The pieces between slashes that are not empty. -/
def pieces (s : Str) : List Str := (split s).filter (· ≠ [])

/-- `os.path.abspath`, in the working directory. -/
def abspath (cwd s : Str) : Str :=
  if s.head? = some '/' then normpath s else normpath (join cwd s)

/-- `os.path.relpath`. -/
def relpath (cwd path start : Str) : Str :=
  let startList := pieces (abspath cwd start)
  let pathList := pieces (abspath cwd path)
  let i := (commonPrefix startList pathList).length
  let relList := List.replicate (startList.length - i) ['.', '.'] ++ pathList.drop i
  if relList = [] then ['.'] else slashed relList

/-- A name below the directory. -/
def child (r name : Str) : Str := r ++ '/' :: name

/-! ### Pieces -/

theorem pieces_append_slash (a b : Str) : pieces (a ++ '/' :: b) = pieces a ++ pieces b := by
  rw [pieces, split_append_slash, List.filter_append, ← pieces, ← pieces]

theorem pieces_of_isComp {p : Str} (h : IsComp p) : pieces p = [p] := by
  rw [pieces, split_of_not_mem h.2.2, List.filter_singleton]
  simp [h.1]

theorem pieces_slashed {ps : List Str} (h : ∀ p ∈ ps, IsComp p) : pieces (slashed ps) = ps := by
  induction ps with
  | nil => rfl
  | cons p ps ih =>
      rw [List.forall_mem_cons] at h
      by_cases only : ps = []
      · subst only
        rw [slashed_singleton, pieces_of_isComp h.1]
      · rw [slashed_cons only, pieces_append_slash, pieces_of_isComp h.1, ih h.2,
          List.singleton_append]

theorem pieces_render (slashes : Nat) {ps : List Str} (h : ∀ p ∈ ps, IsComp p) :
    pieces (render slashes ps) = ps := by
  induction slashes with
  | zero => simpa [render] using pieces_slashed h
  | succ n ih =>
      rw [render, List.replicate_succ, List.cons_append, ← render]
      exact (pieces_append_slash [] _).trans ih

/-- A rooted normalised path has no dot in it. -/
theorem pieces_eq_comps {r : Str} (norm : Normal r) (absolute : r.head? = some '/') :
    pieces r = comps r := by
  have components : ∀ p ∈ walk (initialSlashes r != 0) [] (comps r), IsComp p :=
    fun p mem => isComp_of_mem_walk mem
  have shape : r = render (initialSlashes r) (walk (initialSlashes r != 0) [] (comps r)) := by
    have eq := normpath_eq r
    rw [show normpath r = r from norm] at eq
    split at eq
    · rw [eq] at absolute
      cases absolute
    · exact eq
  have settled := norm.settled
  rw [Settled] at settled
  rw [settled] at shape components
  conv_lhs => rw [shape, pieces_render _ components]

/-! ### Common parts -/

theorem commonPrefix_append (ps qs : List Str) : commonPrefix ps (ps ++ qs) = ps := by
  induction ps with
  | nil => cases qs <;> rfl
  | cons p ps ih => rw [List.cons_append, commonPrefix, if_pos rfl, ih]

theorem commonPrefix_prefix_right (ps qs : List Str) : commonPrefix ps qs <+: qs := by
  induction ps generalizing qs with
  | nil => exact List.nil_prefix
  | cons p ps ih =>
      cases qs with
      | nil => exact List.nil_prefix
      | cons q qs =>
          rw [commonPrefix]
          split
          next same => exact same ▸ (List.prefix_cons_inj p).mpr (ih qs)
          next => exact List.nil_prefix

theorem abspath_of_normal {s : Str} (cwd : Str) (norm : Normal s) (absolute : s.head? = some '/') :
    abspath cwd s = s := by
  rw [abspath, if_pos absolute, show normpath s = s from norm]

/-- Between rooted normalised paths the components decide. -/
theorem relpath_of_normal {path start : Str} (cwd : Str) (normPath : Normal path)
    (absPath : path.head? = some '/') (normStart : Normal start)
    (absStart : start.head? = some '/') :
    relpath cwd path start =
      let i := (commonPrefix (comps start) (comps path)).length
      let relList := List.replicate ((comps start).length - i) ['.', '.'] ++ (comps path).drop i
      if relList = [] then ['.'] else slashed relList := by
  rw [relpath, abspath_of_normal cwd normPath absPath, abspath_of_normal cwd normStart absStart,
    pieces_eq_comps normPath absPath, pieces_eq_comps normStart absStart]

/-! ### Children -/

variable {r name : Str}

/-- A normalised directory that is not the root has no slash at its end. -/
theorem getLast?_ne_of_normal (norm : Normal r) (ne : comps r ≠ []) : r.getLast? ≠ some '/' := by
  have components : ∀ p ∈ comps r, IsComp p := fun p => isComp_of_mem_comps
  obtain ⟨c, s, shape, -, -⟩ := slashed_eq_cons ne components
  rw [norm.eq_render ne, render, List.getLast?_append_of_ne_nil _ (by simp [shape])]
  exact getLast_slashed_ne ne components

theorem comps_child (r : Str) (hname : IsComp name) : comps (child r name) = comps r ++ [name] := by
  rw [child, comps_append_slash, comps_of_isComp hname]

theorem normal_child (norm : Normal r) (ne : comps r ≠ []) (hname : IsComp name)
    (up : name ≠ ['.', '.']) : Normal (child r name) := by
  have slashes : initialSlashes (child r name) = initialSlashes r :=
    initialSlashes_append_slash norm ne name
  have walked : walk (initialSlashes r != 0) [] (comps r ++ [name]) = comps r ++ [name] := by
    rw [walk_append, norm.settled, walk_singleton, push, if_pos (.inl up)]
  have shape : render (initialSlashes r) (comps r ++ [name]) = child r name := by
    conv_rhs => rw [child, norm.eq_render ne]
    rw [render, render, slashed_append ne (List.cons_ne_nil _ _), slashed_singleton,
      List.append_assoc]
  have some : child r name ≠ [] := by simp [child]
  rw [Normal, normpath_eq, slashes, comps_child r hname, walked, shape, if_neg some]

theorem head_child (absolute : r.head? = some '/') : (child r name).head? = some '/' := by
  cases r with
  | nil => rfl
  | cons c r => exact absolute

theorem relpath_child (cwd : Str) (norm : Normal r) (absolute : r.head? = some '/')
    (ne : comps r ≠ []) (hname : IsComp name) (up : name ≠ ['.', '.']) :
    relpath cwd (child r name) r = name := by
  rw [relpath_of_normal cwd (normal_child norm ne hname up) (head_child absolute) norm absolute,
    comps_child r hname]
  simp [commonPrefix_append]

/-- A path with a relative path of one name is a child. -/
theorem comps_of_relpath {path : Str} (cwd : Str) (norm : Normal path)
    (absolute : path.head? = some '/') (normRoot : Normal r) (absRoot : r.head? = some '/')
    (here : relpath cwd path r ≠ ['.']) (up : relpath cwd path r ≠ ['.', '.'])
    (single : '/' ∉ relpath cwd path r) :
    IsComp (relpath cwd path r) ∧ comps path = comps r ++ [relpath cwd path r] := by
  have shape := relpath_of_normal cwd norm absolute normRoot absRoot
  generalize relpath cwd path r = rel at *
  have left := commonPrefix_prefix_left (comps r) (comps path)
  have right := commonPrefix_prefix_right (comps r) (comps path)
  generalize commonPrefix (comps r) (comps path) = common at *
  dsimp only at shape
  cases relList : List.replicate ((comps r).length - common.length) ['.', '.'] ++
      (comps path).drop common.length with
  | nil => exact absurd (by rw [shape, if_pos relList]) here
  | cons x more =>
      rw [relList, if_neg (List.cons_ne_nil _ _)] at shape
      cases more with
      | cons y rest =>
          rw [shape, slashed_cons (List.cons_ne_nil _ _)] at single
          exact absurd (List.mem_append_right _ List.mem_cons_self) single
      | nil =>
          rw [slashed_singleton] at shape
          subst shape
          -- The whole directory is common, or the relative path goes up.
          cases above : (comps r).length - common.length with
          | succ k =>
              rw [above, List.replicate_succ, List.cons_append] at relList
              exact absurd (List.cons.inj relList).1.symm up
          | zero =>
              obtain rfl := left.eq_of_length_le (by omega)
              obtain ⟨rest, split⟩ := right
              rw [above, ← split, List.replicate_zero, List.nil_append,
                List.drop_left] at relList
              have member : rel ∈ comps path := by
                rw [← split, relList]
                simp
              exact ⟨isComp_of_mem_comps member, by rw [← split, relList]⟩

end Ecube.PosixPath
