import Ecube.Basic.RelativePath
import Ecube.Services.Shares

/-!
The mount points below the managed root (`app/utils/network_mount_paths.py`).

What `_generate_local_mount_point` of the share service gives, and what may be cleaned up: the
children of the root.
-/

namespace Ecube

open PosixPath

/-- `managed_network_mount_root`, from the setting. -/
def managedNetworkMountRoot (networkMountBasePath : Str) : Str :=
  normpath (strip networkMountBasePath)

/-- `cleanup_target_for_generated_network_mount_point`. -/
def cleanupTarget (cwd root localMountPoint : Str) : Option Str :=
  let normalized := normpath localMountPoint
  if rstripSlashes root ++ ['/'] <+: normalized then
    let rel := relpath cwd normalized root
    if rel = ['.'] ∨ rel = ['.', '.'] ∨ "../".toList <+: rel ∨ '/' ∈ rel then none
    else some (join root rel)
  else none

/-! ### Names of mount points -/

/-- A name with no slash and no dot at its start. -/
structure IsLeaf (name : Str) : Prop where
  slug : ∀ c ∈ name, isSlugChar c = true
  head : ∃ c rest, name = c :: rest ∧ c ≠ '.'

theorem IsLeaf.isComp {name : Str} (h : IsLeaf name) : IsComp name ∧ name ≠ ['.', '.'] := by
  obtain ⟨c, rest, rfl, first⟩ := h.head
  refine ⟨⟨List.cons_ne_nil _ _, fun dot => ?_, fun slash => ?_⟩, fun dots => ?_⟩
  · exact first (List.cons.inj dot).1
  · exact absurd (h.slug '/' slash) (by decide)
  · exact first (List.cons.inj dots).1

theorem isSlugChar_of_mem_dashRuns {name : Str} {c : Char} (mem : c ∈ dashRuns name) :
    isSlugChar c = true := by
  fun_induction dashRuns name with
  | case1 => cases mem
  | case2 d rest slug ih =>
      rcases List.mem_cons.mp mem with rfl | later
      · exact slug
      · exact ih later
  | case3 d other => rw [List.mem_singleton.mp mem]; rfl
  | case4 d other e rest slug ih =>
      rcases List.mem_cons.mp mem with rfl | later
      · rfl
      · exact ih later
  | case5 d other e rest dark ih => exact ih mem

theorem isLeaf_slugifyMountLeaf (name : Str) : IsLeaf (slugifyMountLeaf name) := by
  rw [slugifyMountLeaf]
  generalize trim : (dashRuns name).dropWhile (fun c => c = '-' ∨ c = '.' ∨ c = '_') = trimmed
  split
  next =>
    have plain : "share".toList.all isSlugChar = true := rfl
    exact ⟨fun c mem => List.all_eq_true.mp plain c mem, ⟨'s', _, rfl, by decide⟩⟩
  next some =>
    have front := List.rdropWhile_prefix (fun c => decide (c = '-' ∨ c = '.' ∨ c = '_')) trimmed
    have within : trimmed ⊆ dashRuns name := trim ▸ List.dropWhile_subset _
    obtain ⟨c, rest, shape⟩ := List.exists_cons_of_ne_nil some
    refine ⟨fun d mem => isSlugChar_of_mem_dashRuns (within (front.subset mem)), c, rest, shape, ?_⟩
    obtain ⟨behind, whole⟩ := front
    have stop := List.head?_dropWhile_not (fun c => decide (c = '-' ∨ c = '.' ∨ c = '_'))
      (dashRuns name)
    rw [trim, ← whole, shape] at stop
    rintro rfl
    simp at stop

/-- The name that is tried in an attempt. -/
def suffixed (leaf : Str) : Nat → Str
  | 0 => leaf
  | n + 1 => leaf ++ '-' :: Nat.toDigits 10 (n + 2)

theorem mountPointCandidate_eq (root leaf : Str) (n : Nat) :
    mountPointCandidate root leaf n = child root (suffixed leaf n) := by
  cases n with
  | zero => rfl
  | succ n => simp [mountPointCandidate, child, suffixed]

theorem isLeaf_suffixed {leaf : Str} (h : IsLeaf leaf) (n : Nat) : IsLeaf (suffixed leaf n) := by
  cases n with
  | zero => exact h
  | succ n =>
      obtain ⟨c, rest, rfl, first⟩ := h.head
      refine ⟨fun d mem => ?_, ⟨c, _, rfl, first⟩⟩
      rcases List.mem_append.mp mem with front | behind
      · exact h.slug d front
      · rcases List.mem_cons.mp behind with rfl | digit
        · rfl
        · have number := Nat.isDigit_of_mem_toDigits (by decide) (by decide) digit
          simp [isSlugChar, Char.isAlphanum, number]

end Ecube
