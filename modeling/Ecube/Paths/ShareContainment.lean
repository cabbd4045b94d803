import Ecube.Paths.Sanitize

/-!
Which source paths `resolveSourcePath` keeps inside the selected share.

The comparison with the mount root is made on the candidate before it is
trimmed and normalised for the last time, and compares components without
following `..`. `StaysInShare` says on the two inputs when that is harmless:

* a value that already starts with the mount root is followed component by
  component and must end inside the share (`below_of_absolute`);
* a value joined to the mount root was followed before the comparison, so only
  the last trimming can move it: it must not trim the root itself, nor turn a
  direct child of the share into `..` (`below_of_joined`);
* a relative mount root that starts with whitespace is trimmed at its front
  (`below_of_joined_blank`).

`resolveSourcePath_below_iff` joins the three.
-/

namespace Ecube

open PosixPath

/-- The mount root as `resolveSourcePath` compares with it. -/
def shareRoot (root : Str) : Str := normpath (strip root)

/-- The components a trimmed value names when it is joined to the mount root `r`. -/
def joinedPlace (raw r : Str) : List Str :=
  walk (initialSlashes r != 0) (comps r) (comps (raw.dropWhile (· ∈ ['/', '\\'])))

/-- The final trimming leaves a place below the share root `r` where it is. -/
def TrimSafe (r : Str) (place : List Str) : Prop :=
  (place = comps r → rstrip r = r) ∧
    ∀ x, place = comps r ++ [x] → rstrip x = ['.', '.'] → (comps r).getLast? = some ['.', '.']

/-- The same for a share root that starts with whitespace: what is left of its
first component has to be a dot, and the rest has to lead into the share again. -/
def BlankTrimSafe (r : Str) (place : List Str) : Prop :=
  lstrip (place.headD []) = ['.'] ∧
    comps r <+: walk false [] (comps (rstrip (slashed place.tail)))

/-- The value names a place inside the share with this mount root. -/
def StaysInShare (value root : Str) : Prop :=
  let r := shareRoot root
  let raw := strip value
  if raw = r then True
  else if r ++ ['/'] <+: raw then
    comps r <+: walk (initialSlashes r != 0) (comps r) (comps (raw.drop (r.length + 1)))
  else if (r.head?.map isSpace).getD false then BlankTrimSafe r (joinedPlace raw r)
  else TrimSafe r (joinedPlace raw r)

/-! ### What trimming does to the last component -/

section Trimming

variable {rooted : Bool} {root place : List Str} {x y : Str}

/-- Replacing the last component of the root itself leaves the root only if it
is the same component. -/
theorem prefix_walk_root (settled : Settled rooted (place ++ [x])) (hx : IsComp x) (hy : '/' ∉ y) :
    place ++ [x] <+: walk rooted place (comps y) ↔ y = x := by
  constructor
  · intro h
    rw [comps_of_not_mem hy] at h
    split at h
    · have short := h.length_le
      rw [walk_nil, List.length_append, List.length_singleton] at short
      omega
    · -- The walk adds at most one component, so nothing but `x` can have been added.
      have full := h.eq_of_length_le (by simpa using push_length_le rooted place y)
      rw [walk_singleton, push] at full
      split at full
      · simpa using (List.append_inj' full rfl).2.symm
      · have := congrArg List.length full
        rw [List.length_append, List.length_dropLast, List.length_singleton] at this
        omega
  · rintro rfl
    rw [comps_of_isComp hx]
    have := settled
    rw [Settled, walk_append, settled_of_append settled] at this
    rw [this]

/-- Replacing the last component of a place strictly below the root leaves the
root only by a `..` in a direct child of it. -/
theorem prefix_walk_child (ne : root ≠ []) (inside : root <+: place) (hy : '/' ∉ y) :
    root <+: walk rooted place (comps y) ↔
      (place = root → y = ['.', '.'] → root.getLast? = some ['.', '.']) := by
  rw [comps_of_not_mem hy]
  split
  · rename_i dropped
    apply iff_of_true inside
    intro _ dots
    rcases dropped with rfl | rfl <;> cases dots
  · rw [walk_singleton, push]
    split
    · rename_i appended
      refine iff_of_true (inside.trans (List.prefix_append _ _)) ?_
      rintro rfl rfl
      simpa [ne] using appended
    · rename_i popped
      rw [not_or, not_or, not_not] at popped
      obtain ⟨dots, -, last⟩ := popped
      obtain ⟨rest, rfl⟩ := inside
      rcases List.eq_nil_or_concat' rest with rfl | ⟨rest, z, rfl⟩
      · rw [List.append_nil] at last ⊢
        refine iff_of_false (fun h => ?_) fun h => last (h rfl dots)
        have short := h.length_le
        have := List.length_pos_of_ne_nil ne
        rw [List.length_dropLast] at short
        omega
      · refine iff_of_true ?_ fun h => absurd (congrArg List.length h) (by simp)
        rw [← List.append_assoc, List.dropLast_concat]
        exact List.prefix_append _ _

end Trimming

/-! ### The three kinds of values -/

section Containment

variable {r : Str} (norm : Normal r) (ne : comps r ≠ [])

include norm ne

/-- A value that starts with the mount root is followed from there. -/
theorem below_of_absolute (rel : Str) :
    Below r (normpath (r ++ '/' :: rel)) ↔
      comps r <+: walk (initialSlashes r != 0) (comps r) (comps rel) := by
  rw [below_iff norm ne (initialSlashes_append_slash norm ne rel),
    comps_normpath_append_slash norm ne]

/-- A candidate below the mount root that is trimmed only at its end. -/
theorem below_of_joined {candidate : Str} (hcand : Normal candidate)
    (slashes : initialSlashes candidate = initialSlashes r) (inside : comps r <+: comps candidate)
    (front : strip candidate = rstrip candidate) :
    Below r (normpath (strip candidate)) ↔ TrimSafe r (comps candidate) := by
  have hcomp : ∀ p ∈ comps candidate, IsComp p := fun p => isComp_of_mem_comps
  obtain ⟨place, x, hplace⟩ : ∃ place x, comps candidate = place ++ [x] := by
    rcases List.eq_nil_or_concat' (comps candidate) with h | h
    · exact absurd (List.prefix_nil.mp (h ▸ inside)) ne
    · exact h
  have settled : Settled (initialSlashes r != 0) (place ++ [x]) := by
    rw [← hplace, ← slashes]
    exact hcand.settled
  rw [hplace, List.forall_mem_append] at hcomp
  have hx : IsComp x := hcomp.2 x List.mem_cons_self
  obtain ⟨a, ha, stop, hca, hslashes⟩ :=
    render_concat x (initialSlashes_le r) hcomp.1
  have hcandidate : candidate = a ++ x := by
    rw [hcand.eq_render (by simp [hplace]), slashes, hplace, ha]
  have hy : '/' ∉ rstrip x := fun h => hx.2.2 ((List.rdropWhile_prefix isSpace x).subset h)
  -- Only the last component of the candidate is trimmed.
  have htrim : strip candidate = a ++ rstrip x := by
    rw [front, hcandidate, rstrip_append stop]
  have hreach : comps (normpath (strip candidate)) =
      walk (initialSlashes r != 0) place (comps (rstrip x)) := by
    rw [comps_normpath, htrim, hslashes _ hy, comps_append_of_stop stop, hca, walk_append,
      settled_of_append settled]
  rw [below_iff norm ne (by rw [htrim, hslashes _ hy]), hreach, hplace, TrimSafe]
  rw [hplace] at inside
  by_cases hroot : place ++ [x] = comps r
  · have hr : r = a ++ x := by
      rw [norm.eq_render ne, ← hroot, ha]
    rw [← hroot, prefix_walk_root settled hx hy]
    constructor
    · intro same
      refine ⟨fun _ => by rw [hr, rstrip_append stop, same], fun z h => ?_⟩
      exact absurd (congrArg List.length h) (by simp)
    · rintro ⟨kept, -⟩
      have kept := kept rfl
      rw [hr, rstrip_append stop] at kept
      exact List.append_cancel_left kept
  · have inner : comps r <+: place := by
      rcases List.prefix_concat_iff.mp inside with h | h
      · exact absurd h.symm hroot
      · exact h
    rw [prefix_walk_child ne inner hy]
    constructor
    · intro h
      refine ⟨fun same => absurd same hroot, fun z hz dots => ?_⟩
      obtain ⟨hp, hxz⟩ := List.append_inj' hz rfl
      have hxz : x = z := by simpa using hxz
      exact h hp (hxz ▸ dots)
    · rintro ⟨-, h⟩ rfl dots
      exact h x rfl dots

end Containment

/-! ### A mount root that starts with whitespace -/

section Blank

theorem lstrip_append {a s : Str} : lstrip (a ++ s) = if lstrip a = [] then lstrip s else lstrip a ++ s := by
  rw [lstrip, List.dropWhile_append]
  simp [lstrip]

theorem walk_of_no_dotdot {rooted : Bool} {acc ps : List Str} (h : ∀ p ∈ ps, p ≠ ['.', '.']) :
    walk rooted acc ps = acc ++ ps := by
  induction ps generalizing acc with
  | nil => simp
  | cons p ps ih =>
      rw [List.forall_mem_cons] at h
      have pushed : push rooted acc p = acc ++ [p] := if_pos (.inl h.1)
      rw [walk, List.foldl_cons, pushed, ← walk, ih h.2, List.append_assoc, List.singleton_append]

/-- One more component, or none, keeps the first one or drops everything. -/
theorem head_walk_comps {rooted : Bool} {acc : List Str} {y z : Str} (hz : '/' ∉ z) :
    walk rooted (y :: acc) (comps z) = [] ∨ (walk rooted (y :: acc) (comps z)).head? = some y := by
  rw [comps_of_not_mem hz]
  split
  · exact .inr rfl
  · rw [walk_singleton, push]
    split
    · exact .inr rfl
    · cases acc with
      | nil => exact .inl rfl
      | cons q acc => exact .inr rfl

/-- A settled first component that starts with whitespace is followed by no `..`. -/
theorem no_dotdot_of_settled {rooted : Bool} {c : Char} {k : Str} {ps : List Str}
    (settled : Settled rooted ((c :: k) :: ps)) (hc : isSpace c = true) :
    ∀ p ∈ ps, p ≠ ['.', '.'] := by
  rintro p mem rfl
  obtain ⟨before, after, rfl⟩ := List.append_of_mem mem
  have upto : Settled rooted (((c :: k) :: before) ++ [['.', '.']]) :=
    settled_of_prefix (show Settled rooted ((((c :: k) :: before) ++ [['.', '.']]) ++ after) by
      simpa using settled)
  have dots := settled_dotdot upto (c :: k) List.mem_cons_self
  rw [List.cons.injEq] at dots
  rw [dots.1] at hc
  exact absurd hc (by decide)

/-- Trimming a candidate at its end, as components. -/
theorem comps_rstrip_slashed {ps : List Str} {x : Str} (h : ∀ p ∈ ps, IsComp p) :
    comps (rstrip (slashed (ps ++ [x]))) = ps ++ comps (rstrip x) := by
  obtain ⟨a, ha, stop, hca, -⟩ := render_concat x (Nat.zero_le 2) h
  have : slashed (ps ++ [x]) = a ++ x := by simpa [render] using ha
  rw [this, rstrip_append stop, comps_append_of_stop stop, hca]

theorem head_normpath {s : Str} (h : initialSlashes s ≠ 0) : (normpath s).head? = some '/' := by
  obtain ⟨n, hn⟩ := Nat.exists_eq_succ_of_ne_zero h
  rw [normpath_eq, hn, render, List.replicate_succ]
  simp

/-- What is left of a candidate whose first component starts with whitespace:
nothing below the mount root, unless that component is a dot behind whitespace. -/
theorem not_below_of_lstrip {r : Str} {c : Char} {k : Str} {ps qs : List Str}
    (hr : comps r = (c :: k) :: qs) (hc : isSpace c = true)
    (hcomp : ∀ p ∈ (c :: k) :: ps, IsComp p) (settled : Settled false ((c :: k) :: ps))
    (hy : lstrip (c :: k) ≠ []) (hdot : lstrip (c :: k) ≠ ['.']) :
    ¬ Below r (normpath (rstrip (lstrip (c :: k) ++ (if ps = [] then [] else '/' :: slashed ps)))) := by
  intro below
  rw [List.forall_mem_cons] at hcomp
  have pre := below.comps_prefix
  rw [hr, comps_normpath] at pre
  -- The first component has become shorter.
  have shorter : (lstrip (c :: k)).length < (c :: k).length := by
    have le := (List.dropWhile_suffix (l := k) isSpace).length_le
    simp only [lstrip, List.dropWhile_cons, hc, if_true, List.length_cons]
    omega
  have hyslash : '/' ∉ lstrip (c :: k) := fun h =>
    hcomp.1.2.2 ((List.dropWhile_suffix isSpace).subset h)
  generalize lstrip (c :: k) = y at *
  have headne : ∀ l : List Str, l = [] ∨ l.head? = some y → ¬ (c :: k) :: qs <+: l := by
    rintro l (rfl | hl) ⟨t, ht⟩
    · cases ht
    · rw [← ht, List.cons_append, List.head?_cons, Option.some.injEq] at hl
      rw [hl] at shorter
      exact lt_irrefl _ shorter
  by_cases hps : ps = []
  · rw [if_pos hps, List.append_nil] at pre
    have mem := mem_walk (pre.subset List.mem_cons_self)
    have hz : '/' ∉ rstrip y := fun h => hyslash ((List.rdropWhile_prefix isSpace y).subset h)
    have le := (List.rdropWhile_prefix isSpace y).length_le
    rw [← rstrip, comps_of_not_mem hz] at *
    split at mem
    · simp at mem
    · have same : c :: k = rstrip y := by simpa using mem
      rw [same] at shorter
      omega
  · rw [if_neg hps] at pre
    obtain ⟨init, x, rfl⟩ := (List.eq_nil_or_concat' ps).resolve_left hps
    have nodots := no_dotdot_of_settled settled hc
    rw [List.forall_mem_append] at nodots hcomp
    have hx : IsComp x := hcomp.2.2 x List.mem_cons_self
    have hz : '/' ∉ rstrip x := fun h => hx.2.2 ((List.rdropWhile_prefix isSpace x).subset h)
    have htrim : rstrip (y ++ '/' :: slashed (init ++ [x])) =
        y ++ '/' :: rstrip (slashed (init ++ [x])) := by
      have := rstrip_append (a := y ++ ['/']) (x := slashed (init ++ [x])) (.inr ⟨y, rfl⟩)
      simpa using this
    have hslashes : initialSlashes (y ++ '/' :: rstrip (slashed (init ++ [x]))) = 0 := by
      cases y with
      | nil => exact absurd rfl hy
      | cons d y =>
          rw [List.mem_cons, not_or] at hyslash
          simp [initialSlashes, Ne.symm hyslash.1]
    have hfirst : push (0 != 0) [] y = [y] := if_pos (.inr (.inl ⟨rfl, rfl⟩))
    rw [htrim, hslashes, comps_append_slash, comps_of_isComp ⟨hy, hdot, hyslash⟩,
      comps_rstrip_slashed hcomp.2.1, walk_append, walk_singleton, hfirst, walk_append,
      walk_of_no_dotdot nodots.1] at pre
    exact headne _ (head_walk_comps hz) pre

/-- A mount root that starts with whitespace is not absolute. -/
theorem comps_of_blank_head {r : Str} {c : Char} (norm : Normal r) (ne : comps r ≠ [])
    (head : r.head? = some c) (hc : isSpace c = true) :
    initialSlashes r = 0 ∧ ∃ k qs, comps r = (c :: k) :: qs := by
  have rootless : initialSlashes r = 0 := by
    cases r with
    | nil => cases head
    | cons d r =>
        obtain rfl : d = c := by simpa using head
        have : d ≠ '/' := fun h => by simp [h] at hc
        simp [initialSlashes, this]
  refine ⟨rootless, ?_⟩
  obtain ⟨d, s, hs, -, hd⟩ := slashed_eq_cons ne fun p => isComp_of_mem_comps
  rw [norm.eq_render ne, rootless, render, hs] at head
  obtain rfl : d = c := by simpa using head
  cases hl : comps r with
  | nil => exact absurd hl ne
  | cons p qs =>
      rw [hl, List.head?_cons, Option.bind_some] at hd
      cases p with
      | nil => cases hd
      | cons e k =>
          obtain rfl : e = d := by simpa using hd
          exact ⟨k, qs, rfl⟩

/-- Without its first component a candidate is empty or absolute. -/
theorem not_below_of_blank {r : Str} {c : Char} {ps : List Str} (ne : comps r ≠ [])
    (head : r.head? = some c) (hc : isSpace c = true) :
    ¬ Below r (normpath (rstrip (lstrip (if ps = [] then [] else '/' :: slashed ps)))) := by
  intro below
  have rne : r ≠ [] := fun h => by rw [h] at head; cases head
  by_cases h : ps = []
  · rw [if_pos h] at below
    exact ne (List.prefix_nil.mp below.comps_prefix)
  · rw [if_neg h] at below
    have habs := head_of_below below rne
    rw [head, lstrip, List.dropWhile_cons_of_neg (by simp), head_normpath, Option.some.injEq] at habs
    · rw [← habs] at hc
      exact absurd hc (by simp)
    · have := rstrip_append (a := ['/']) (x := slashed ps) (.inr ⟨[], rfl⟩)
      rw [List.singleton_append] at this
      rw [this, List.singleton_append, initialSlashes.eq_def]
      split <;> simp_all

theorem below_of_joined_blank {r candidate : Str} {c : Char} (norm : Normal r) (ne : comps r ≠ [])
    (head : r.head? = some c) (hc : isSpace c = true) (hcand : Normal candidate)
    (slashes : initialSlashes candidate = initialSlashes r) (inside : comps r <+: comps candidate) :
    Below r (normpath (strip candidate)) ↔ BlankTrimSafe r (comps candidate) := by
  have hcomp : ∀ p ∈ comps candidate, IsComp p := fun p => isComp_of_mem_comps
  obtain ⟨rootless, k, qs, hr⟩ := comps_of_blank_head norm ne head hc
  obtain ⟨ps, hps⟩ : ∃ ps, comps candidate = (c :: k) :: ps := by
    obtain ⟨t, ht⟩ := inside
    exact ⟨qs ++ t, by rw [← ht, hr, List.cons_append]⟩
  have settled : Settled false ((c :: k) :: ps) := by
    have := hcand.settled
    rwa [slashes, rootless, hps] at this
  have hcandidate : candidate = (c :: k) ++ (if ps = [] then [] else '/' :: slashed ps) := by
    conv_lhs => rw [hcand.eq_render (by simp [hps]), slashes, rootless, hps, render]
    by_cases h : ps = []
    · simp [h]
    · rw [if_neg h, slashed_cons h, List.replicate_zero, List.nil_append]
  rw [hps] at hcomp
  rw [BlankTrimSafe, hps, List.headD_cons, List.tail_cons, strip, hcandidate, lstrip_append]
  by_cases hy : lstrip (c :: k) = []
  · rw [if_pos hy, hy]
    exact iff_of_false (not_below_of_blank ne head hc) fun h => absurd h.1 (by simp)
  · rw [if_neg hy]
    by_cases hdot : lstrip (c :: k) = ['.']
    · rw [hdot]
      by_cases h : ps = []
      · subst h
        refine iff_of_false (fun below => ne ?_) fun h => ne ?_
        · exact List.prefix_nil.mp below.comps_prefix
        · exact List.prefix_nil.mp h.2
      · have htrim : rstrip (['.'] ++ '/' :: slashed ps) = ['.'] ++ '/' :: rstrip (slashed ps) := by
          simpa using rstrip_append (a := ['.', '/']) (x := slashed ps) (.inr ⟨['.'], rfl⟩)
        rw [if_neg h, htrim, below_iff norm ne (by rw [rootless]; rfl), comps_normpath,
          comps_append_slash]
        exact ⟨fun h => ⟨rfl, h⟩, fun h => h.2⟩
    · refine iff_of_false ?_ fun h => hdot h.1
      exact not_below_of_lstrip hr hc hcomp settled hy hdot

end Blank

/-! ### The theorem -/

/-- The candidate of a value that does not start with the mount root. -/
theorem shareCandidate_joined {raw r : Str} (norm : Normal r) (ne : comps r ≠ [])
    (outside : ¬ Below r raw) :
    Normal (shareCandidate raw r) ∧ initialSlashes (shareCandidate raw r) = initialSlashes r ∧
      comps (shareCandidate raw r) = joinedPlace raw r := by
  have hrel : (raw.dropWhile (· ∈ ['/', '\\'])).head? ≠ some '/' := by
    have stop := List.head?_dropWhile_not (fun c => decide (c ∈ ['/', '\\'])) raw
    intro h
    rw [h] at stop
    exact absurd stop (by decide)
  by_cases hraw : raw = ['/']
  · rw [shareCandidate, if_pos hraw, joinedPlace, hraw]
    exact ⟨norm, rfl, rfl⟩
  · rw [shareCandidate, if_neg hraw, if_neg outside, join_of_normal norm ne hrel]
    refine ⟨normal_normpath _, ?_, comps_normpath_append_slash norm ne _⟩
    rw [initialSlashes_normpath, initialSlashes_append_slash norm ne]

/-- A path accepted for a share is in normal form, and lies in the share exactly
when the value names a place inside it. -/
theorem resolveSourcePath_below_iff {value root p : Str} {usb target : Option Str}
    (hroot : root ≠ []) (accepted : resolveSourcePath value (some root) usb target = .ok p) :
    (Normal p ∧ Below (shareRoot root) p) ↔ StaysInShare value root := by
  obtain ⟨hslash, common, rfl⟩ := resolveSourcePath_eq_ok hroot accepted
  have norm : Normal (normpath (strip root)) := normal_normpath _
  have stripped : strip (strip value) = strip value := strip_strip value
  rw [and_iff_right (normal_normpath _), StaysInShare, shareRoot]
  clear accepted hroot
  generalize normpath (strip root) = r at *
  generalize strip value = raw at *
  obtain ⟨ne, -, inside⟩ := commonpath_eq_root norm hslash common
  by_cases below : Below r raw
  · -- The value already starts with the mount root and is taken as it is.
    have hraw : raw ≠ ['/'] := by
      rintro rfl
      rcases below with rfl | ⟨t, ht⟩
      · exact hslash rfl
      · have rnil : r = [] := by
          have := congrArg List.length ht
          simp only [List.length_append, List.length_singleton] at this
          exact List.length_eq_zero_iff.mp (by omega)
        exact ne (by rw [rnil]; rfl)
    rw [shareCandidate, if_neg hraw, if_pos below, stripped]
    rcases below with rfl | ⟨rel, rfl⟩
    · rw [if_pos rfl]
      exact iff_of_true (.inl norm) trivial
    · rw [if_neg (by simp), if_pos (List.prefix_append _ _), List.append_assoc,
        List.singleton_append, below_of_absolute norm ne]
      simp
  · obtain ⟨hcand, slashes, hplace⟩ := shareCandidate_joined norm ne below
    rw [Below, not_or] at below
    rw [if_neg below.1, if_neg below.2, ← hplace]
    cases hr : r with
    | nil => exact absurd (by rw [hr]; rfl) ne
    | cons c t =>
        rw [← hr, show r.head? = some c by rw [hr]; rfl, Option.map_some, Option.getD_some]
        by_cases hc : isSpace c = true
        · rw [if_pos hc]
          exact below_of_joined_blank norm ne (by rw [hr]; rfl) hc hcand slashes inside
        · rw [if_neg hc]
          -- The candidate starts with the first character of the mount root.
          have starts : Below r (shareCandidate raw r) := by
            rw [← hcand, below_iff norm ne slashes, hcand]
            exact inside
          have hhead := head_of_below starts (by rw [hr]; exact List.cons_ne_nil _ _)
          refine below_of_joined norm ne hcand slashes inside ?_
          cases hs : shareCandidate raw r with
          | nil => rfl
          | cons d u =>
              rw [hs, hr, List.head?_cons, List.head?_cons, Option.some.injEq] at hhead
              exact strip_cons (by rw [hhead]; simpa using hc)

theorem resolveSourcePath_below_iff_docs :
    resolveSourcePath "/docs".toList (some "/nfs/case1".toList) (some "/mnt/ecube".toList) none =
        .ok "/nfs/case1/docs".toList ∧
      ((Normal "/nfs/case1/docs".toList ∧
          Below (shareRoot "/nfs/case1".toList) "/nfs/case1/docs".toList) ↔
        StaysInShare "/docs".toList "/nfs/case1".toList) :=
  have accepted : resolveSourcePath "/docs".toList (some "/nfs/case1".toList)
      (some "/mnt/ecube".toList) none = .ok "/nfs/case1/docs".toList := by decide
  ⟨accepted, resolveSourcePath_below_iff (by decide) accepted⟩

/-- A value that starts with the mount root and climbs out of it is accepted. -/
theorem resolveSourcePath_leaves_share :
    ¬ ∀ (value root : Str) (usb target : Option Str) (p : Str), root ≠ [] →
        resolveSourcePath value (some root) usb target = .ok p →
        Normal p ∧ Below (shareRoot root) p := by
  intro h
  have escaped := h "/nfs/case1/../../etc".toList "/nfs/case1".toList (some "/mnt/ecube".toList)
    none "/etc".toList (by decide) (by decide)
  exact absurd escaped.2 (by decide)

end Ecube
