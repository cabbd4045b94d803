import Mathlib.Data.List.Basic
import Mathlib.Data.List.Nodup
import Mathlib.Data.List.Perm.Subperm
import Mathlib.Order.Lattice

/-!
Reading rows page by page.

Rows that are ordered by a key: a page holds the first rows after the last key of the page
before, and reading ends with an empty page. `flatten_readPages`: the pages hold every row
once, in order.

Rows that are counted: a page starts at an offset. Rows that match are collected until there
are enough, and reading ends with a page that is not full. `scanPages_eq`: they are the first
matches among all rows.

Rows that are added and taken away between the pages: `mem_collect`, a row that stays is read if
nothing before it is taken away.
-/

namespace Ecube.Pages

variable {ρ : Type*} (key : ρ → Nat) (limit : Nat)

/-- The first rows after a key, or from the start. -/
def page (rows : List ρ) (after : Option Nat) : List ρ :=
  (rows.filter fun r => ∀ k ∈ after, k < key r).take limit

/-- The pages until one is empty. -/
def readPages (rows : List ρ) : Nat → Option Nat → List (List ρ)
  | 0, _ => []
  | fuel + 1, after =>
      match (page key limit rows after).getLast? with
      | none => []
      | some last => page key limit rows after :: readPages rows fuel (some (key last))

variable {key limit} {rows : List ρ}

/-- After the first rows the others are left. -/
theorem filter_after {front rest : List ρ} {last : ρ}
    (sorted : (front ++ rest).Pairwise fun a b => key a < key b)
    (ends : front.getLast? = some last) :
    (front ++ rest).filter (fun r => ∀ k ∈ some (key last), k < key r) = rest := by
  obtain ⟨before, rfl⟩ := List.getLast?_eq_some_iff.mp ends
  obtain ⟨inner, -, cross⟩ := List.pairwise_append.mp sorted
  rw [List.filter_append, List.filter_eq_nil_iff.mpr, List.nil_append, List.filter_eq_self]
  · intro r mem
    have := cross last (List.mem_append_right _ List.mem_cons_self) r mem
    simpa using this
  · intro r mem
    have le : key r ≤ key last := by
      rcases List.mem_append.mp mem with early | here
      · exact Nat.le_of_lt ((List.pairwise_append.mp inner).2.2 r early last List.mem_cons_self)
      · exact Nat.le_of_eq (congrArg key (List.mem_singleton.mp here))
    simpa using le

theorem flatten_readPages_after (pos : 0 < limit) (front : List ρ) {rest : List ρ}
    {after : Option Nat} (sorted : (front ++ rest).Pairwise fun a b => key a < key b)
    (ends : after = front.getLast?.map key) {fuel : Nat} (enough : rest.length < fuel) :
    (readPages key limit (front ++ rest) fuel after).flatten = rest := by
  induction fuel generalizing front rest after with
  | zero => exact absurd enough (Nat.not_lt_zero _)
  | succ fuel ih =>
      have left : (front ++ rest).filter (fun r => ∀ k ∈ after, k < key r) = rest := by
        cases last : front.getLast? with
        | none =>
            rw [List.getLast?_eq_none_iff.mp last, ends, last]
            simp
        | some last' =>
            rw [ends, last]
            exact filter_after sorted last
      have now : page key limit (front ++ rest) after = rest.take limit := by rw [page, left]
      rw [readPages, now]
      cases last : (rest.take limit).getLast? with
      | none =>
          rw [List.getLast?_eq_none_iff, List.take_eq_nil_iff] at last
          rcases last with zero | empty
          · omega
          · rw [empty]
            rfl
      | some r =>
          have more : rest ≠ [] := by
            rintro rfl
            rw [List.take_nil] at last
            cases last
          have shorter : (rest.drop limit).length < fuel := by
            have := List.length_pos_iff.mpr more
            rw [List.length_drop]
            omega
          have split : front ++ rest = (front ++ rest.take limit) ++ rest.drop limit := by
            rw [List.append_assoc, List.take_append_drop]
          have read : some (key r) = (front ++ rest.take limit).getLast?.map key := by
            rw [List.getLast?_append, last]
            rfl
          have later := ih (front ++ rest.take limit) (split ▸ sorted) read shorter
          rw [List.flatten_cons, split, later, List.take_append_drop]

/-- Every row is read once, in order. -/
theorem flatten_readPages (pos : 0 < limit) (sorted : rows.Pairwise fun a b => key a < key b)
    {fuel : Nat} (enough : rows.length < fuel) :
    (readPages key limit rows fuel none).flatten = rows :=
  flatten_readPages_after pos [] sorted rfl enough

/-! ### Matches -/

/-- The matches among the rows, after those found before, until there are enough. -/
def addMatches (p : ρ → Bool) (wanted : Nat) : List ρ → List ρ → List ρ
  | [], found => found
  | r :: rest, found =>
      if p r then
        if wanted ≤ (found ++ [r]).length then found ++ [r]
        else addMatches p wanted rest (found ++ [r])
      else addMatches p wanted rest found

/-- The matches of one page after the other. What matches may depend on the page. -/
def scanPages (fetch : Nat → List ρ) (p : List ρ → ρ → Bool) (limit wanted : Nat) :
    Nat → Nat → List ρ → Option (List ρ)
  | 0, _, _ => none
  | fuel + 1, offset, found =>
      if wanted ≤ found.length then some found
      else
        let batch := fetch offset
        if batch.isEmpty then some found
        else
          let found := addMatches (p batch) wanted batch found
          if batch.length < limit then some found
          else scanPages fetch p limit wanted fuel (offset + batch.length) found

theorem take_take_append (n : Nat) (l rest : List ρ) :
    (l.take n ++ rest).take n = (l ++ rest).take n := by
  rw [List.take_append, List.take_append, List.take_take, Nat.min_self, List.length_take]
  congr 2
  omega

theorem addMatches_eq {p q : ρ → Bool} {wanted : Nat} {found : List ρ}
    (same : ∀ r ∈ rows, p r = q r) (more : found.length < wanted) :
    addMatches p wanted rows found = (found ++ rows.filter q).take wanted := by
  induction rows generalizing found with
  | nil =>
      rw [addMatches, List.filter_nil, List.append_nil, List.take_of_length_le (Nat.le_of_lt more)]
  | cons r rest ih =>
      have later : ∀ r ∈ rest, p r = q r := fun r mem => same r (List.mem_cons_of_mem _ mem)
      rw [addMatches, same r List.mem_cons_self]
      by_cases hit : q r
      · rw [if_pos hit, List.filter_cons_of_pos hit, List.append_cons found r (rest.filter q)]
        split
        next enough =>
          have exactly : wanted = (found ++ [r]).length := by
            rw [List.length_append, List.length_singleton] at enough ⊢
            omega
          rw [exactly, List.take_left]
        next few => exact ih later (by omega)
      · rw [if_neg hit, List.filter_cons_of_neg hit]
        exact ih later more

section Scan

variable {fetch : Nat → List ρ} {p : List ρ → ρ → Bool} {q : ρ → Bool} {limit wanted : Nat}

theorem scanPages_eq_after (pos : 0 < limit) (pages : ∀ k, fetch k = (rows.drop k).take limit)
    (same : ∀ k, ∀ r ∈ fetch k, p (fetch k) r = q r) {offset : Nat} {found : List ρ}
    (few : found.length ≤ wanted) {fuel : Nat} (enough : (rows.drop offset).length < fuel) :
    scanPages fetch p limit wanted fuel offset found =
      some ((found ++ (rows.drop offset).filter q).take wanted) := by
  induction fuel generalizing offset found with
  | zero => exact absurd enough (Nat.not_lt_zero _)
  | succ fuel ih =>
      rw [scanPages]
      by_cases all : wanted ≤ found.length
      · rw [if_pos all, List.take_append_of_le_length all, List.take_of_length_le few]
      · rw [if_neg all]
        dsimp only
        have added := @addMatches_eq _ (fetch offset) (p (fetch offset)) q wanted found
          (same offset) (Nat.lt_of_not_le all)
        rw [added]
        cases empty : (fetch offset).isEmpty with
        | true =>
            rw [List.isEmpty_iff, pages, List.take_eq_nil_iff] at empty
            rw [empty.resolve_left (Nat.ne_of_gt pos), List.filter_nil, List.append_nil,
              List.take_of_length_le few]
            rfl
        | false =>
            rw [if_neg Bool.false_ne_true]
            by_cases last : (fetch offset).length < limit
            · -- the page holds all rows that are left
              have whole : fetch offset = rows.drop offset := by
                rw [pages, List.length_take] at last
                rw [pages, List.take_of_length_le]
                omega
              rw [if_pos last, whole]
            · have left : limit ≤ rows.length - offset := by
                rw [pages, List.length_take, List.length_drop, Nat.not_lt, Nat.le_min] at last
                exact last.2
              have full : (fetch offset).length = limit := by
                rw [pages, List.length_take, List.length_drop, Nat.min_eq_left left]
              have shorter : (rows.drop (offset + limit)).length < fuel := by
                rw [List.length_drop] at enough ⊢
                omega
              rw [if_neg last, full, ih (List.length_take_le _ _) shorter]
              have split : rows.drop offset = fetch offset ++ rows.drop (offset + limit) := by
                rw [pages, ← List.drop_drop, List.take_append_drop]
              rw [split, List.filter_append, ← List.append_assoc, take_take_append]

/-- The matches are the first ones among all rows. -/
theorem scanPages_eq (pos : 0 < limit) (pages : ∀ k, fetch k = (rows.drop k).take limit)
    (same : ∀ k, ∀ r ∈ fetch k, p (fetch k) r = q r) {fuel : Nat} (enough : rows.length < fuel) :
    scanPages fetch p limit wanted fuel 0 [] = some ((rows.filter q).take wanted) :=
  scanPages_eq_after pos pages same (Nat.zero_le _) enough

end Scan

/-! ### Pages by number -/

/-- The first pages are the first rows. -/
theorem flatMap_pages {ρ : Type*} (rows : List ρ) (size n : Nat) :
    ((List.range n).flatMap fun k => (rows.drop (k * size)).take size) = rows.take (n * size) := by
  induction n with
  | zero => simp
  | succ n ih =>
      rw [List.range_succ, List.flatMap_append, ih, List.flatMap_singleton, Nat.succ_mul,
        List.take_add]

/-! ### Rows that change between the pages -/

section Changing

variable {ρ σ κ : Type*} [LinearOrder κ]

/-- Pages are read until one says that no more rows follow, or is empty. -/
def collect (respond : Nat → Nat → List σ × Bool) : Nat → Nat → Nat → Option (List σ)
  | 0, _, _ => none
  | fuel + 1, k, offset =>
      let (entries, more) := respond k offset
      if more && !entries.isEmpty then
        (collect respond fuel (k + 1) (offset + entries.length)).map (entries ++ ·)
      else some entries

variable (rank : ρ → κ)

/-- The rows before a row. -/
def ahead (rows : List ρ) (r : ρ) : List ρ := rows.filter fun a => rank a < rank r

/-- No row is taken from before one that stays. -/
def Trailing (rows later : List ρ) : Prop :=
  ∀ r ∈ rows, r ∈ later → ∀ a ∈ rows, rank a < rank r → a ∈ later

/-- The k-th answer is a page of the k-th rows. It says that no more follow only if the page
reaches every row that is still there when it is answered. -/
structure Serves (views answered : Nat → List ρ) (shown : ρ → σ) (limit : Nat)
    (respond : Nat → Nat → List σ × Bool) : Prop where
  entries : ∀ k offset, (respond k offset).1 = (((views k).drop offset).take limit).map shown
  last : ∀ k offset, (respond k offset).2 = false → ∀ r ∈ views k, r ∈ answered k →
    (ahead rank (views k) r).length < offset + limit

variable {rank} {rows later : List ρ} {r : ρ}

theorem ahead_append (sorted : (rows ++ r :: later).Pairwise fun a b => rank a < rank b) :
    ahead rank (rows ++ r :: later) r = rows := by
  obtain ⟨-, behind, cross⟩ := List.pairwise_append.mp sorted
  have front : rows.filter (fun a => rank a < rank r) = rows :=
    List.filter_eq_self.mpr fun a mem => decide_eq_true (cross a mem r List.mem_cons_self)
  have back : (r :: later).filter (fun a => rank a < rank r) = [] := by
    refine List.filter_eq_nil_iff.mpr fun a mem => ?_
    rcases List.mem_cons.mp mem with rfl | after
    · simp
    · simpa using le_of_lt ((List.pairwise_cons.mp behind).1 a after)
  rw [ahead, List.filter_append, front, back, List.append_nil]

/-- A row is on the page that starts with it or before it. -/
theorem mem_page (sorted : rows.Pairwise fun a b => rank a < rank b) (mem : r ∈ rows)
    {offset limit : Nat} (least : offset ≤ (ahead rank rows r).length)
    (most : (ahead rank rows r).length < offset + limit) : r ∈ (rows.drop offset).take limit := by
  obtain ⟨front, back, rfl⟩ := List.append_of_mem mem
  rw [ahead_append sorted] at least most
  rw [List.drop_append_of_le_length least]
  refine List.mem_take_iff_getElem.mpr ⟨front.length - offset, ?_, ?_⟩
  · simp only [List.length_append, List.length_drop, List.length_cons]
    omega
  · rw [List.getElem_append_right (by simp)]
    simp

theorem length_ahead_lt (sorted : rows.Pairwise fun a b => rank a < rank b) (mem : r ∈ rows) :
    (ahead rank rows r).length < rows.length := by
  obtain ⟨front, back, rfl⟩ := List.append_of_mem mem
  rw [ahead_append sorted, List.length_append, List.length_cons]
  omega

theorem nodup_of_sorted (sorted : rows.Pairwise fun a b => rank a < rank b) : rows.Nodup :=
  List.Pairwise.imp (fun less same => absurd (congrArg rank same) (ne_of_lt less)) sorted

/-- A row that stays does not move to the front. -/
theorem length_ahead_le (sorted : rows.Pairwise fun a b => rank a < rank b)
    (trailing : Trailing rank rows later) (mem : r ∈ rows) (stays : r ∈ later) :
    (ahead rank rows r).length ≤ (ahead rank later r).length := by
  refine (List.Nodup.subperm ((nodup_of_sorted sorted).filter _) fun a inside => ?_).length_le
  obtain ⟨held, before⟩ := List.mem_filter.mp inside
  exact List.mem_filter.mpr ⟨trailing r mem stays a held (of_decide_eq_true before), before⟩

theorem length_ahead_lt_of_trailing (sorted : rows.Pairwise fun a b => rank a < rank b)
    (trailing : Trailing rank rows later) (mem : r ∈ rows) (stays : r ∈ later) :
    (ahead rank rows r).length < later.length := by
  have ahead' : (r :: ahead rank rows r).Nodup :=
    List.nodup_cons.mpr ⟨fun inside => lt_irrefl _
      (of_decide_eq_true (List.mem_filter.mp inside).2), (nodup_of_sorted sorted).filter _⟩
  refine (List.Nodup.subperm ahead' fun a inside => ?_).length_le
  rcases List.mem_cons.mp inside with rfl | before
  · exact stays
  · obtain ⟨held, less⟩ := List.mem_filter.mp before
    exact trailing r mem stays a held (of_decide_eq_true less)

section Reading

variable {views answered : Nat → List ρ} {shown : ρ → σ} {limit : Nat}
  {respond : Nat → Nat → List σ × Bool}

/-- A row that stays is on one of the pages. -/
theorem mem_collect (pos : 0 < limit)
    (sorted : ∀ k, (views k).Pairwise fun a b => rank a < rank b)
    (trailing : ∀ k, Trailing rank (views k) (views (k + 1)))
    (serves : Serves rank views answered shown limit respond) {fuel k offset : Nat} {read : List σ}
    (start : offset ≤ (ahead rank (views k) r).length)
    (kept : ∀ i < fuel, r ∈ views (k + i) ∧ r ∈ answered (k + i))
    (done : collect respond fuel k offset = some read) : shown r ∈ read := by
  induction fuel generalizing k offset read with
  | zero => cases done
  | succ fuel ih =>
      obtain ⟨now, counted⟩ := kept 0 (Nat.succ_pos fuel)
      rw [Nat.add_zero] at now counted
      have page := serves.entries k offset
      have last := serves.last k offset
      rw [collect] at done
      generalize respond k offset = answer at page last done
      obtain ⟨entries, more⟩ := answer
      dsimp only at page last done
      subst page
      by_cases reached : (ahead rank (views k) r).length < offset + limit
      · -- the row is on this page
        have inside := List.mem_map_of_mem (f := shown) (mem_page (sorted k) now start reached)
        split at done
        next =>
          obtain ⟨others, -, rfl⟩ := Option.map_eq_some_iff.mp done
          exact List.mem_append_left _ inside
        next =>
          cases done
          exact inside
      · -- the page is full, and more rows follow
        have within := length_ahead_lt (sorted k) now
        have full : (((views k).drop offset).take limit).length = limit := by
          rw [List.length_take, List.length_drop]
          omega
        have follows : more = true := by
          cases more with
          | true => rfl
          | false => exact absurd (last rfl r now counted) reached
        have nonempty : (((views k).drop offset).take limit).map shown ≠ [] := by
          intro empty
          have := congrArg List.length empty
          rw [List.length_map, full, List.length_nil] at this
          omega
        rw [follows, Bool.true_and, if_pos (by simpa using nonempty)] at done
        obtain ⟨others, rest, rfl⟩ := Option.map_eq_some_iff.mp done
        refine List.mem_append_right _ (ih ?_ ?_ rest)
        · rw [List.length_map, full]
          by_cases final : fuel = 0
          · subst final
            cases rest
          · have stays := (kept 1 (by omega)).1
            have := length_ahead_le (sorted k) (trailing k) now stays
            omega
        · intro i less
          have := kept (i + 1) (by omega)
          rwa [Nat.add_assoc, Nat.add_comm 1 i]

/-- What is read was there when its page was read. -/
theorem mem_of_collect (serves : Serves rank views answered shown limit respond)
    {fuel k offset : Nat} {read : List σ} (done : collect respond fuel k offset = some read)
    {x : σ} (mem : x ∈ read) : ∃ i < fuel, ∃ r ∈ views (k + i), shown r = x := by
  induction fuel generalizing k offset read with
  | zero => cases done
  | succ fuel ih =>
      have page := serves.entries k offset
      rw [collect] at done
      generalize respond k offset = answer at page done
      obtain ⟨entries, more⟩ := answer
      dsimp only at page done
      have here : ∀ y ∈ entries, ∃ i < fuel + 1, ∃ r ∈ views (k + i), shown r = y := by
        intro y inside
        rw [page] at inside
        obtain ⟨r, held, rfl⟩ := List.mem_map.mp inside
        exact ⟨0, Nat.succ_pos fuel, r, List.mem_of_mem_drop (List.mem_of_mem_take held), rfl⟩
      split at done
      next =>
        obtain ⟨others, rest, rfl⟩ := Option.map_eq_some_iff.mp done
        rcases List.mem_append.mp mem with first | later
        · exact here x first
        · obtain ⟨i, less, r, held, rfl⟩ := ih rest later
          refine ⟨i + 1, by omega, r, ?_, rfl⟩
          rwa [Nat.add_assoc, Nat.add_comm 1 i] at held
      next =>
        cases done
        exact here x mem

/-- A reading that ends takes a number of pages. -/
theorem exists_pages {fuel k offset : Nat} {read : List σ}
    (done : collect respond fuel k offset = some read) :
    ∃ pages, 0 < pages ∧ pages ≤ fuel ∧ ∀ other,
      collect respond other k offset = if pages ≤ other then some read else none := by
  induction fuel generalizing k offset read with
  | zero => cases done
  | succ fuel ih =>
      rcases answer : respond k offset with ⟨entries, more⟩
      rw [collect, answer] at done
      dsimp only at done
      split at done
      next goes =>
        obtain ⟨others, rest, rfl⟩ := Option.map_eq_some_iff.mp done
        obtain ⟨pages, -, within, ends⟩ := ih rest
        refine ⟨pages + 1, Nat.succ_pos pages, Nat.succ_le_succ within, fun other => ?_⟩
        cases other with
        | zero => rfl
        | succ other =>
            rw [collect, answer]
            dsimp only
            rw [if_pos goes, ends]
            simp only [Nat.add_le_add_iff_right]
            split <;> rfl
      next stops =>
        cases done
        refine ⟨1, Nat.one_pos, Nat.succ_le_succ (Nat.zero_le fuel), fun other => ?_⟩
        cases other with
        | zero => rfl
        | succ other =>
            rw [collect, answer]
            dsimp only
            rw [if_neg stops, if_pos (Nat.succ_le_succ (Nat.zero_le other))]

/-- Reading ends if the number of rows is bounded. -/
theorem isSome_collect (serves : Serves rank views answered shown limit respond) {most : Nat}
    (bounded : ∀ k, (views k).length ≤ most) {fuel k offset : Nat}
    (enough : most < fuel + offset) (pos : 0 < fuel) :
    (collect respond fuel k offset).isSome = true := by
  induction fuel generalizing k offset with
  | zero => exact absurd pos (Nat.lt_irrefl 0)
  | succ fuel ih =>
      have page := serves.entries k offset
      rw [collect]
      generalize respond k offset = answer at page ⊢
      obtain ⟨entries, more⟩ := answer
      dsimp only at page ⊢
      split
      next goes =>
        have some' : 0 < entries.length := by
          cases entries with
          | nil => simp at goes
          | cons => exact Nat.succ_pos _
        have within : offset + entries.length ≤ most := by
          have := bounded k
          rw [page, List.length_map, List.length_take, List.length_drop] at some' ⊢
          omega
        rw [Option.isSome_map]
        exact ih (by omega) (by omega)
      next => rfl

end Reading

end Changing

end Ecube.Pages
