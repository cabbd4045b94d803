import Ecube.Services.NetworkMountPaths

/-!
Generated mount points.

`generated_mount_points_iff`: below a rooted directory that is not the root of the system, each
generated mount point is free, normalised, a child of the directory, and what the cleanup gives
for it; but the root of the system has a second spelling, `//`.
-/

namespace Ecube

open PosixPath

/-- A child of the directory. -/
def IsChild (root path : Str) : Prop :=
  ∃ name, IsComp name ∧ name ≠ ['.', '.'] ∧ path = root ++ '/' :: name

/-- The loop stops at the first candidate that is free. -/
def StopsAt (candidate : Nat → Str) (existing : List Str) (path : Str) : Prop :=
  ∃ n, path = candidate n ∧ path ∉ existing ∧ ∀ i < n, candidate i ∈ existing

/-- What is generated can be cleaned up, and nothing else can. -/
structure Manages (root : Str) : Prop where
  stops : ∀ mountType remotePath existing,
    StopsAt (mountPointCandidate root (slugifyMountLeaf (extractRemoteLeaf mountType remotePath)))
      existing (generateLocalMountPoint root mountType remotePath existing)
  normal : ∀ mountType remotePath existing,
    Normal (generateLocalMountPoint root mountType remotePath existing)
  below : ∀ mountType remotePath existing,
    IsChild root (generateLocalMountPoint root mountType remotePath existing)
  cleaned : ∀ cwd mountType remotePath existing,
    cleanupTarget cwd root (generateLocalMountPoint root mountType remotePath existing) =
      some (generateLocalMountPoint root mountType remotePath existing)
  inside : ∀ cwd path target, cleanupTarget cwd root path = some target → IsChild root target

/-! ### The loop -/

theorem exists_search (candidate : Nat → Str) (existing : List Str) (fuel attempt : Nat) :
    ∃ n, generateLocalMountPoint.search existing candidate fuel attempt = candidate n ∧
      ∀ i, attempt ≤ i → i < n → candidate i ∈ existing := by
  induction fuel generalizing attempt with
  | zero => exact ⟨attempt, rfl, fun i le lt => absurd lt (Nat.not_lt.mpr le)⟩
  | succ fuel ih =>
      rw [generateLocalMountPoint.search]
      split
      next taken =>
        obtain ⟨n, found, before⟩ := ih (attempt + 1)
        refine ⟨n, found, fun i le lt => ?_⟩
        rcases Nat.eq_or_lt_of_le le with rfl | later
        · exact taken
        · exact before i later lt
      next => exact ⟨attempt, rfl, fun i le lt => absurd lt (Nat.not_lt.mpr le)⟩

theorem stopsAt_generateLocalMountPoint (root : Str) (mountType : MountType) (remotePath : Str)
    (existing : List Str) :
    StopsAt (mountPointCandidate root (slugifyMountLeaf (extractRemoteLeaf mountType remotePath)))
      existing (generateLocalMountPoint root mountType remotePath existing) := by
  obtain ⟨n, found, before⟩ := exists_search
    (mountPointCandidate root (slugifyMountLeaf (extractRemoteLeaf mountType remotePath))) existing
    existing.length 0
  exact ⟨n, found, generateLocalMountPoint_not_mem root mountType remotePath existing,
    fun i lt => before i (Nat.zero_le i) lt⟩

/-- A generated mount point has a name of its own below the root. -/
theorem exists_leaf (root : Str) (mountType : MountType) (remotePath : Str) (existing : List Str) :
    ∃ name, IsLeaf name ∧
      generateLocalMountPoint root mountType remotePath existing = child root name := by
  obtain ⟨n, found, -⟩ := stopsAt_generateLocalMountPoint root mountType remotePath existing
  rw [mountPointCandidate_eq] at found
  exact ⟨_, isLeaf_suffixed (isLeaf_slugifyMountLeaf _) n, found⟩

/-! ### The cleanup -/

variable {root : Str}

/-- A rooted directory without a name in it is a spelling of the root. -/
theorem comps_ne_nil (norm : Normal root) (absolute : root.head? = some '/') (proper : root ≠ ['/'])
    (single : root ≠ ['/', '/']) : comps root ≠ [] := by
  intro empty
  have shape := normpath_eq root
  rw [show normpath root = root from norm, empty, walk_nil] at shape
  have le := initialSlashes_le root
  generalize initialSlashes root = slashes at shape le
  match slashes, le with
  | 0, _ =>
      rw [shape] at absolute
      cases absolute
  | 1, _ => exact proper shape
  | 2, _ => exact single shape

theorem rstripSlashes_of_normal (norm : Normal root) (ne : comps root ≠ []) :
    rstripSlashes root = root := by
  apply List.rdropWhile_eq_self_iff.mpr
  intro some slash
  apply getLast?_ne_of_normal norm ne
  rw [List.getLast?_eq_some_getLast some, of_decide_eq_true slash]

theorem cleanupTarget_child (cwd : Str) (norm : Normal root) (absolute : root.head? = some '/')
    (ne : comps root ≠ []) {name : Str} (hname : IsComp name) (up : name ≠ ['.', '.']) :
    cleanupTarget cwd root (child root name) = some (child root name) := by
  have same : normpath (child root name) = child root name := normal_child norm ne hname up
  have below : rstripSlashes root ++ ['/'] <+: child root name := by
    rw [rstripSlashes_of_normal norm ne]
    exact ⟨name, by simp [child]⟩
  have relative := relpath_child cwd norm absolute ne hname up
  have kept : ¬ (name = ['.'] ∨ name = ['.', '.'] ∨ "../".toList <+: name ∨ '/' ∈ name) := by
    rintro (dot | dots | above | slash)
    · exact hname.2.1 dot
    · exact up dots
    · exact hname.2.2 (above.subset (by simp))
    · exact hname.2.2 slash
  have first : name.head? ≠ some '/' := fun head => hname.2.2 (List.mem_of_head? head)
  rw [cleanupTarget, same, if_pos below, relative, if_neg kept, join_of_normal norm ne first]
  rfl

theorem isChild_of_cleanupTarget (norm : Normal root) (absolute : root.head? = some '/')
    (ne : comps root ≠ []) {cwd path target : Str}
    (cleaned : cleanupTarget cwd root path = some target) : IsChild root target := by
  rw [cleanupTarget] at cleaned
  split at cleaned
  next below =>
    dsimp only at cleaned
    split at cleaned
    · cases cleaned
    next kept =>
      cases cleaned
      simp only [not_or] at kept
      obtain ⟨here, up, -, single⟩ := kept
      have absPath : (normpath path).head? = some '/' := by
        obtain ⟨behind, shape⟩ := below
        rw [rstripSlashes_of_normal norm ne] at shape
        rw [← shape, List.append_assoc]
        exact head_child absolute
      obtain ⟨comp, -⟩ :=
        comps_of_relpath cwd (normal_normpath path) absPath norm absolute here up single
      have first : (relpath cwd (normpath path) root).head? ≠ some '/' :=
        fun head => comp.2.2 (List.mem_of_head? head)
      exact ⟨_, comp, up, join_of_normal norm ne first⟩
  next => cases cleaned

/-! ### The root -/

/-- Below a rooted directory that is not `/` the mount points are fresh and can be cleaned up, and
nothing else is, just if the directory is not `//`. -/
theorem generated_mount_points_iff {networkMountBasePath : Str}
    (absolute : (managedNetworkMountRoot networkMountBasePath).head? = some '/')
    (proper : managedNetworkMountRoot networkMountBasePath ≠ ['/']) :
    Manages (managedNetworkMountRoot networkMountBasePath) ↔
      managedNetworkMountRoot networkMountBasePath ≠ ['/', '/'] := by
  have norm : Normal (managedNetworkMountRoot networkMountBasePath) := normal_normpath _
  generalize managedNetworkMountRoot networkMountBasePath = root at *
  constructor
  · rintro manages rfl
    have normal := manages.normal .nfs [] []
    exact absurd normal (by decide)
  · intro single
    have ne := comps_ne_nil norm absolute proper single
    refine ⟨stopsAt_generateLocalMountPoint root, fun mountType remotePath existing => ?_,
      fun mountType remotePath existing => ?_, fun cwd mountType remotePath existing => ?_,
      fun cwd path target cleaned => isChild_of_cleanupTarget norm absolute ne cleaned⟩
    all_goals
      obtain ⟨name, leaf, shape⟩ := exists_leaf root mountType remotePath existing
      obtain ⟨comp, up⟩ := leaf.isComp
      rw [shape]
    · exact normal_child norm ne comp up
    · exact ⟨name, comp, up, rfl⟩
    · exact cleanupTarget_child cwd norm absolute ne comp up

/-- The directory of the default settings. -/
theorem manages_default : Manages (managedNetworkMountRoot "/mnt/ecube-network".toList) :=
  (generated_mount_points_iff rfl (by decide)).mpr (by decide)

/-- A mount point below `//` has three slashes, and the cleanup gives another one for it. -/
theorem double_slash_not_manages :
    (managedNetworkMountRoot "//".toList).head? = some '/' ∧
      managedNetworkMountRoot "//".toList ≠ ['/'] ∧
      ¬ Normal (generateLocalMountPoint (managedNetworkMountRoot "//".toList) .nfs
        "server:/exports".toList []) ∧
      cleanupTarget [] (managedNetworkMountRoot "//".toList)
          (generateLocalMountPoint (managedNetworkMountRoot "//".toList) .nfs
            "server:/exports".toList []) = some "//exports".toList ∧
      ¬ Manages (managedNetworkMountRoot "//".toList) := by
  have triple : generateLocalMountPoint (managedNetworkMountRoot "//".toList) .nfs
      "server:/exports".toList [] = "///exports".toList := rfl
  have unsettled : ¬ Normal "///exports".toList := by decide
  refine ⟨rfl, by decide, triple ▸ unsettled, ?_, fun manages => ?_⟩
  · rw [triple]
    rfl
  · have normal := manages.normal .nfs "server:/exports".toList []
    rw [triple] at normal
    exact unsettled normal

end Ecube
