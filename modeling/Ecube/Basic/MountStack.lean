import Mathlib.Data.List.Nodup

/-!
Mount tables.

A mount table lists pairs of a place and the source mounted there, the newest
first. A place can hold several mounts; only the newest is visible, and an
unmount removes the visible one.

* `stackAt` is the stack of one place: an unmount pops it and leaves the other
  places alone (`stackAt_unmount`), and so for several unmounts
  (`stackAt_unmounts`, `mem_unmounts`).
* `filter_unmount_of_not_top`: an unmount leaves the mounts with some property
  alone if the visible mount does not have it.
* `visible` is the table as a dictionary from places to sources, in the order in
  which the places were first mounted. It holds the tops of the stacks
  (`mem_visible`), each once (`nodup_visible`).
* `mem_foldl_assign`, `exists_mem_foldl_assign`, `lookup_foldl_assign`: any dictionary that is
  filled item by item.
-/

namespace Ecube.MountStack

variable {P S : Type} [DecidableEq P]

/-- The mounts at a place, the visible one first. -/
def stackAt (t : List (P × S)) (p : P) : List (P × S) := t.filter fun m => m.1 = p

def top (t : List (P × S)) (p : P) : Option (P × S) := (stackAt t p).head?

def mount (t : List (P × S)) (p : P) (s : S) : List (P × S) := (p, s) :: t

def unmount (t : List (P × S)) (p : P) : List (P × S) := t.eraseP fun m => m.1 = p

/-! ### Stacks -/

section Stacks

variable {t : List (P × S)} {p q : P} {s : S} {m : P × S}

theorem mem_stackAt : m ∈ stackAt t p ↔ m ∈ t ∧ m.1 = p := by
  rw [stackAt, List.mem_filter, decide_eq_true_eq]

theorem mem_of_mem_tail (h : m ∈ (stackAt t p).tail) : m ∈ t ∧ m.1 = p :=
  mem_stackAt.mp (List.mem_of_mem_tail h)

theorem top_eq_some_of_not_tail (mem : m ∈ stackAt t p) (single : m ∉ (stackAt t p).tail) :
    top t p = some m := by
  rw [top]
  cases stack : stackAt t p with
  | nil =>
      rw [stack] at mem
      cases mem
  | cons first rest =>
      rw [stack] at mem single
      rw [(List.mem_cons.mp mem).resolve_right single]
      rfl

theorem mem_of_top (h : top t p = some m) : m ∈ t ∧ m.1 = p :=
  mem_stackAt.mp (List.mem_of_head? h)

theorem exists_top (mem : m ∈ t) : ∃ n, top t m.1 = some n := by
  have here : stackAt t m.1 ≠ [] := List.ne_nil_of_mem (mem_stackAt.mpr ⟨mem, rfl⟩)
  exact ⟨_, List.head?_eq_some_head here⟩

theorem mem_of_mem_unmount (h : m ∈ unmount t p) : m ∈ t := List.mem_of_mem_eraseP h

theorem stackAt_unmount :
    stackAt (unmount t q) p = if q = p then (stackAt t p).tail else stackAt t p := by
  induction t with
  | nil => simp [stackAt, unmount]
  | cons m t ih =>
      by_cases hit : m.1 = q
      · -- The visible mount of `q` is `m`.
        have erased : unmount (m :: t) q = t := by simp [unmount, hit]
        rw [erased]
        by_cases same : q = p
        · simp [stackAt, hit, same]
        · simp [stackAt, hit, same]
      · have erased : unmount (m :: t) q = m :: unmount t q := by simp [unmount, hit]
        rw [erased]
        by_cases same : q = p
        · subst same
          simpa [stackAt, hit] using ih
        · simp only [same, if_false] at ih ⊢
          simp only [stackAt, List.filter_cons] at ih ⊢
          rw [ih]

/-- A list of places, unmounted one after the other: each stack loses a mount for each time
its place is listed. -/
theorem stackAt_foldl_unmount (ps : List P) :
    stackAt (ps.foldl unmount t) p = (stackAt t p).drop (ps.countP fun q => q = p) := by
  induction ps generalizing t with
  | nil => rfl
  | cons q ps ih =>
      rw [List.foldl_cons, ih, stackAt_unmount, List.countP_cons]
      by_cases same : q = p
      · rw [if_pos same, if_pos (decide_eq_true same), List.drop_tail]
      · rw [if_neg same, if_neg (mt of_decide_eq_true same), Nat.add_zero]

theorem mem_foldl_unmount {ps : List P} :
    m ∈ ps.foldl unmount t ↔ m ∈ (stackAt t m.1).drop (ps.countP fun q => q = m.1) := by
  rw [← stackAt_foldl_unmount, mem_stackAt]
  exact (and_iff_left rfl).symm

theorem countP_place {ps : List P} (nodup : ps.Nodup) (p : P) :
    (ps.countP fun q => q = p) = if p ∈ ps then 1 else 0 := by
  rw [← List.Nodup.count nodup, List.count]
  exact List.countP_congr fun q _ => by simp

/-- A list of different places, unmounted one after the other. -/
theorem stackAt_unmounts {ps : List P} (nodup : ps.Nodup) :
    stackAt (ps.foldl unmount t) p = if p ∈ ps then (stackAt t p).tail else stackAt t p := by
  rw [stackAt_foldl_unmount, countP_place nodup]
  split
  · exact List.drop_one
  · exact List.drop_zero

theorem mem_unmounts {ps : List P} (nodup : ps.Nodup) :
    m ∈ ps.foldl unmount t ↔ (m.1 ∈ ps ∧ m ∈ (stackAt t m.1).tail) ∨ (m.1 ∉ ps ∧ m ∈ t) := by
  have stack : m ∈ ps.foldl unmount t ↔ m ∈ stackAt (ps.foldl unmount t) m.1 := by
    simp [mem_stackAt]
  rw [stack, stackAt_unmounts nodup]
  by_cases hit : m.1 ∈ ps
  · simp [hit]
  · simp [hit, mem_stackAt]

end Stacks

/-! ### The mounts with a property -/

section Filter

variable {t : List (P × S)} {p : P} {own : P × S → Bool}

theorem filter_unmount_of_not_top (other : ∀ m, top t p = some m → own m = false) :
    (unmount t p).filter own = t.filter own := by
  induction t with
  | nil => rfl
  | cons m t ih =>
      by_cases hit : m.1 = p
      · have visible : top (m :: t) p = some m := by simp [top, stackAt, hit]
        have erased : unmount (m :: t) p = t := by simp [unmount, hit]
        rw [erased, List.filter_cons_of_neg (by simp [other m visible])]
      · have erased : unmount (m :: t) p = m :: unmount t p := by simp [unmount, hit]
        have tops : top (m :: t) p = top t p := by simp [top, stackAt, hit]
        rw [erased, List.filter_cons, List.filter_cons, ih (tops ▸ other)]

end Filter

/-! ### The table as a dictionary -/

/-- `d[p] = s`: a place that is already there keeps its position. -/
def assign (d : List (P × S)) (p : P) (s : S) : List (P × S) :=
  if p ∈ d.map Prod.fst then d.map fun m => if m.1 = p then (p, s) else m else d ++ [(p, s)]

/-- The dictionary that reading the table from its oldest mount on builds. -/
def visible (t : List (P × S)) : List (P × S) := t.foldr (fun m d => assign d m.1 m.2) []

section Visible

variable {t d : List (P × S)} {p q : P} {s : S} {m : P × S}

theorem mem_assign : m ∈ assign d p s ↔ m = (p, s) ∨ (m ∈ d ∧ m.1 ≠ p) := by
  rw [assign]
  split
  next present =>
    rw [List.mem_map]
    constructor
    · rintro ⟨n, hn, rfl⟩
      by_cases hit : n.1 = p
      · simp [hit]
      · simp [hit, hn]
    · rintro (rfl | ⟨hm, ne⟩)
      · obtain ⟨n, hn, hit⟩ := List.mem_map.mp present
        exact ⟨n, hn, by simp [hit]⟩
      · exact ⟨m, hm, by simp [ne]⟩
  next absent =>
    rw [List.mem_append, List.mem_singleton, or_comm]
    refine or_congr Iff.rfl ⟨fun hm => ⟨hm, ?_⟩, And.left⟩
    rintro rfl
    exact absent (List.mem_map_of_mem hm)

theorem places_assign :
    (assign d p s).map Prod.fst =
      if p ∈ d.map Prod.fst then d.map Prod.fst else d.map Prod.fst ++ [p] := by
  rw [assign]
  split
  next =>
    rw [List.map_map]
    apply List.map_congr_left
    intro m _
    by_cases hit : m.1 = p
    · simp [hit]
    · simp [hit]
  next => simp

theorem mem_visible : m ∈ visible t ↔ top t m.1 = some m := by
  induction t with
  | nil => simp [visible, top, stackAt]
  | cons n t ih =>
      change m ∈ assign (visible t) n.1 n.2 ↔ _
      rw [mem_assign, ih]
      by_cases hit : n.1 = m.1
      · have first : top (n :: t) m.1 = some n := by simp [top, stackAt, hit]
        rw [first, Option.some_inj, eq_comm (a := n)]
        exact or_iff_left fun below => below.2 hit.symm
      · have tops : top (n :: t) m.1 = top t m.1 := by simp [top, stackAt, hit]
        rw [tops]
        constructor
        · rintro (rfl | ⟨below, -⟩)
          · exact absurd rfl hit
          · exact below
        · exact fun below => .inr ⟨below, Ne.symm hit⟩

theorem nodup_visible : ((visible t).map Prod.fst).Nodup := by
  induction t with
  | nil => exact List.nodup_nil
  | cons m t ih =>
      change ((assign (visible t) m.1 m.2).map Prod.fst).Nodup
      rw [places_assign]
      split
      next => exact ih
      next fresh =>
        refine List.nodup_append.mpr ⟨ih, List.nodup_singleton _, ?_⟩
        rintro q hq p hp rfl
        rw [List.mem_singleton] at hp
        exact fresh (hp ▸ hq)

/-- What is in a dictionary that is filled item by item. -/
theorem mem_foldl_assign {I : Type} {key : I → P} {value : I → S} {items : List I}
    (h : m ∈ items.foldl (fun d i => assign d (key i) (value i)) d) :
    m ∈ d ∨ ∃ i ∈ items, m = (key i, value i) := by
  induction items generalizing d with
  | nil => exact .inl h
  | cons i items ih =>
      rcases ih h with early | ⟨j, mem, same⟩
      · rcases mem_assign.mp early with same | ⟨old, -⟩
        · exact .inr ⟨i, List.mem_cons_self, same⟩
        · exact .inl old
      · exact .inr ⟨j, List.mem_cons_of_mem i mem, same⟩

/-- A key stays once it has been assigned. -/
theorem exists_mem_foldl_assign {I : Type} {key : I → P} {value : I → S} {items : List I} :
    (∃ s, (p, s) ∈ items.foldl (fun d i => assign d (key i) (value i)) d) ↔
      (∃ s, (p, s) ∈ d) ∨ ∃ i ∈ items, key i = p := by
  induction items generalizing d with
  | nil => simp
  | cons i items ih =>
      rw [List.foldl_cons, ih, List.exists_mem_cons_iff, ← or_assoc]
      refine or_congr ?_ Iff.rfl
      simp only [mem_assign, Prod.mk.injEq]
      by_cases same : key i = p
      · exact iff_of_true ⟨value i, .inl ⟨same.symm, rfl⟩⟩ (.inr same)
      · simp [same, Ne.symm same]

section Lookup

variable [BEq P] [LawfulBEq P]

theorem lookup_replace : (d.map fun m => if m.1 = p then (p, s) else m).lookup q =
    if q = p then (d.lookup p).map fun _ => s else d.lookup q := by
  induction d with
  | nil => simp
  | cons m d ih =>
      obtain ⟨place, source⟩ := m
      rw [List.map_cons]
      by_cases hit : place = p
      · rw [if_pos hit, List.lookup_cons, List.lookup_cons, List.lookup_cons, ih, hit]
        by_cases same : q = p
        · simp [same]
        · simp [same, beq_false_of_ne same]
      · rw [if_neg hit, List.lookup_cons, List.lookup_cons, List.lookup_cons, ih,
          beq_false_of_ne (Ne.symm hit)]
        by_cases same : q = p
        · simp [same, beq_false_of_ne (Ne.symm hit)]
        · simp [same]

theorem lookup_assign : (assign d p s).lookup q = if q = p then some s else d.lookup q := by
  rw [assign]
  split
  next present =>
    obtain ⟨m, mem, here⟩ := List.mem_map.mp present
    have some : ((d.lookup p).map fun _ => s) = some s := by
      rw [Option.map_eq_some_iff]
      obtain ⟨v, found⟩ := Option.isSome_iff_exists.mp
        (List.lookup_isSome_iff.mpr ⟨m, mem, beq_iff_eq.mpr here.symm⟩)
      exact ⟨v, found, rfl⟩
    rw [lookup_replace, some]
  next absent =>
    rw [List.lookup_append, List.lookup_cons, List.lookup_nil]
    by_cases same : q = p
    · have missing : d.lookup p = none := by
        rw [List.lookup_eq_none_iff]
        intro m mem
        rw [bne_iff_ne]
        exact fun here => absent (here ▸ List.mem_map_of_mem mem)
      simp [same, missing]
    · simp [same, beq_false_of_ne same]

/-- The value of a key is the one that was assigned last. -/
theorem lookup_foldl_assign {I : Type} {key : I → P} {value : I → S} {items : List I} :
    (items.foldl (fun d i => assign d (key i) (value i)) d).lookup p =
      ((items.reverse.find? fun i => key i = p).map value).or (d.lookup p) := by
  induction items generalizing d with
  | nil => rfl
  | cons i items ih =>
      rw [List.foldl_cons, ih, lookup_assign, List.reverse_cons, List.find?_append]
      cases items.reverse.find? fun i => key i = p with
      | some j => rfl
      | none =>
          by_cases same : key i = p
          · simp [same]
          · simp [same, Ne.symm same]

end Lookup

end Visible

end Ecube.MountStack
