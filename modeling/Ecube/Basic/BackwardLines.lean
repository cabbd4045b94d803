import Mathlib.Data.List.Basic
import Mathlib.Data.List.Infix

/-!
Reading the lines of a file from its end.

The file is read in blocks, the last one first. Either what stands before the first newline of a
block is carried to the next one (`readBack`), or blocks are collected until they have enough
newlines (`tailBlocks`).

* `readBack_eq`: the lines are looked at as the scan from the start has them, in reverse.
* `tailBlocks_eq`, `lines_drop`: the last lines of the blocks are the last lines of the file.
-/

namespace Ecube.BackwardLines

variable {α : Type} [DecidableEq α] {newline : α}

/-! ### Lines -/

/-- The lines of a text. What follows the last newline is a line unless it is empty. -/
def lines (newline : α) (content : List α) : List (List α) :=
  let parts := content.splitOn newline
  if parts.getLast? = some [] then parts.dropLast else parts

theorem not_mem_of_mem_splitOn {content part : List α} (mem : part ∈ content.splitOn newline) :
    newline ∉ part := by
  induction content generalizing part with
  | nil =>
      rw [List.splitOn_nil, List.mem_singleton] at mem
      rw [mem]
      exact List.not_mem_nil
  | cons a content ih =>
      rw [List.splitOn_cons_eq_if_modifyHead] at mem
      split at mem
      next =>
        rcases List.mem_cons.mp mem with rfl | later
        · exact List.not_mem_nil
        · exact ih later
      next other =>
        cases parts : content.splitOn newline with
        | nil => exact absurd parts (List.splitOn_ne_nil newline _)
        | cons first rest =>
            rw [parts] at mem ih
            rcases List.mem_cons.mp mem with rfl | later
            · rw [List.mem_cons, not_or]
              exact ⟨fun same => other (by simp [same]), ih List.mem_cons_self⟩
            · exact ih (List.mem_cons_of_mem first later)

theorem splitOn_append {front data first : List α} {rest : List (List α)}
    (split : data.splitOn newline = first :: rest) :
    (front ++ data).splitOn newline = (front ++ first).splitOn newline ++ rest := by
  induction front with
  | nil =>
      have whole : newline ∉ first := not_mem_of_mem_splitOn (split ▸ List.mem_cons_self)
      rw [List.nil_append, List.nil_append, split, List.splitOn_eq_singleton whole,
        List.singleton_append]
  | cons a front ih =>
      rw [List.cons_append, List.cons_append, List.splitOn_cons_eq_if_modifyHead,
        List.splitOn_cons_eq_if_modifyHead, ih]
      split
      · rfl
      · cases parts : (front ++ first).splitOn newline with
        | nil => exact absurd parts (List.splitOn_ne_nil newline _)
        | cons part parts => rfl

/-- Of the parts only the last can be missing among the lines. -/
theorem splitOn_eq_lines (newline : α) (content : List α) :
    content.splitOn newline = lines newline content ∨
      content.splitOn newline = lines newline content ++ [[]] := by
  rw [lines]
  split
  next last => exact .inr (List.dropLast_append_getLast? _ last).symm
  next => exact .inl rfl

theorem lines_of_not_mem {content : List α} (whole : newline ∉ content) :
    lines newline content = if content = [] then [] else [content] := by
  rw [lines, List.splitOn_eq_singleton whole, List.getLast?_singleton]
  simp only [Option.some.injEq, List.dropLast_singleton]

theorem lines_append_cons {line rest : List α} (whole : newline ∉ line) :
    lines newline (line ++ newline :: rest) = line :: lines newline rest := by
  have some_ : rest.splitOn newline ≠ [] := List.splitOn_ne_nil newline rest
  rw [lines, lines, List.splitOn_append_cons_self_of_not_mem whole, ← List.singleton_append,
    List.getLast?_append_of_ne_nil _ some_, List.dropLast_append_of_ne_nil some_]
  split <;> rfl

/-! ### A line carried from block to block -/

section Carry

variable {σ ρ : Type} (newline) (size : Nat) (visit : σ → List α → Except ρ σ) (goOn : σ → Bool)
  (content : List α)

/-- The loop over the blocks. The number of rounds bounds the position. -/
def readBack : Nat → Nat → List α → σ → Except ρ σ
  | 0, _, _, state => .ok state
  | rounds + 1, position, carry, state =>
      if 0 < position ∧ goOn state then do
        let readSize := min size position
        let position := position - readSize
        let chunk := (content.drop position).take readSize
        let parts := (chunk ++ carry).splitOn newline
        let carry := if 0 < position then parts.headD [] else []
        let lines := if 0 < position then parts.tail else parts
        let state ← lines.reverse.foldlM visit state
        readBack rounds position carry state
      else .ok state

variable {newline size visit goOn content}

theorem readBack_zero (rounds : Nat) (carry : List α) (state : σ) :
    readBack newline size visit goOn content rounds 0 carry state = .ok state := by
  cases rounds with
  | zero => rfl
  | succ rounds => rw [readBack, if_neg (fun more => absurd more.1 (Nat.lt_irrefl 0))]

omit [DecidableEq α] in
theorem goOn_foldlM
    (keeps : ∀ state line next, visit state line = .ok next → goOn state = true →
      goOn next = true)
    {found : List (List α)} {state next : σ} (going : goOn state = true)
    (visits : found.foldlM visit state = .ok next) : goOn next = true := by
  induction found generalizing state with
  | nil =>
      cases visits
      exact going
  | cons line found ih =>
      rw [List.foldlM_cons] at visits
      cases here : visit state line with
      | error stop =>
          rw [here] at visits
          cases visits
      | ok middle =>
          rw [here] at visits
          exact ih (keeps _ _ _ here going) visits

theorem readBack_eq (some_ : 0 < size)
    (keeps : ∀ state line next, visit state line = .ok next → goOn state = true →
      goOn next = true)
    {rounds position : Nat} (enough : position ≤ rounds) (within : position ≤ content.length)
    (carry : List α) {state : σ} (going : goOn state = true) :
    readBack newline size visit goOn content rounds position carry state =
      if position = 0 then .ok state
      else ((content.take position ++ carry).splitOn newline).reverse.foldlM visit state := by
  induction rounds generalizing position carry state with
  | zero =>
      rw [Nat.le_zero.mp enough]
      rfl
  | succ rounds ih =>
      by_cases start : position = 0
      · rw [start, readBack_zero, if_pos rfl]
      · rw [readBack, if_pos ⟨Nat.pos_of_ne_zero start, going⟩, if_neg start]
        dsimp only
        have pieces : content.take position =
            content.take (position - min size position) ++
              (content.drop (position - min size position)).take (min size position) := by
          rw [← List.take_add]
          congr 1
          omega
        generalize before : position - min size position = q at pieces ⊢
        generalize (content.drop q).take (min size position) = chunk at pieces ⊢
        obtain ⟨first, rest, parts⟩ :=
          List.exists_cons_of_ne_nil (List.splitOn_ne_nil newline (chunk ++ carry))
        have whole : newline ∉ first := not_mem_of_mem_splitOn (parts ▸ List.mem_cons_self)
        rw [pieces, List.append_assoc, splitOn_append parts, parts, List.reverse_append,
          List.foldlM_append]
        by_cases last : q = 0
        · rw [if_neg (by omega), if_neg (by omega), last, List.take_zero, List.nil_append,
            List.splitOn_eq_singleton whole, List.reverse_cons, List.foldlM_append]
          simp only [readBack_zero]
          exact bind_pure _
        · rw [if_pos (by omega), if_pos (by omega), List.headD_cons, List.tail_cons]
          cases visits : rest.reverse.foldlM visit state with
          | error stop => rfl
          | ok next =>
              change readBack newline size visit goOn content rounds q first next = _
              rw [ih (by omega) (by omega) first (goOn_foldlM keeps going visits), if_neg last]
              rfl

end Carry

/-! ### Blocks with enough newlines -/

section Blocks

variable (newline) (size maxLines : Nat) (content : List α)

/-- The loop over the blocks, which are collected from the last one on. -/
def tailBlocks : Nat → Nat → Nat → List (List α) → List (List α)
  | 0, _, _, chunks => chunks
  | rounds + 1, position, newlineCount, chunks =>
      if 0 < position ∧ newlineCount ≤ maxLines then
        let chunkSize := min size position
        let position := position - chunkSize
        let chunk := (content.drop position).take chunkSize
        tailBlocks rounds position (newlineCount + chunk.count newline) (chunks ++ [chunk])
      else chunks

variable {newline size maxLines content}

/-- The blocks are the end of the file, with enough newlines unless it is the whole file. -/
theorem tailBlocks_eq (some_ : 0 < size) {rounds position : Nat} (enough : position ≤ rounds)
    (within : position ≤ content.length) {chunks : List (List α)}
    (joined : chunks.reverse.flatten = content.drop position) :
    ∃ start, (tailBlocks newline size maxLines content rounds position
        ((content.drop position).count newline) chunks).reverse.flatten = content.drop start ∧
      (start = 0 ∨ maxLines < (content.drop start).count newline) := by
  induction rounds generalizing position chunks with
  | zero => exact ⟨position, joined, .inl (Nat.le_zero.mp enough)⟩
  | succ rounds ih =>
      rw [tailBlocks]
      split
      next more =>
        dsimp only
        generalize before : position - min size position = q
        have pieces : (content.drop q).take (min size position) ++ content.drop position =
            content.drop q := by
          have whole : position = q + min size position := by omega
          conv_lhs => rw [whole, ← List.drop_drop, ← whole]
          exact List.take_append_drop _ _
        have counted : (content.drop position).count newline +
            ((content.drop q).take (min size position)).count newline =
              (content.drop q).count newline := by
          rw [← pieces, List.count_append, pieces, Nat.add_comm]
        rw [counted]
        refine ih (by omega) (by omega) ?_
        rw [List.reverse_append, List.flatten_append, joined, List.reverse_singleton,
          List.flatten_singleton, pieces]
      next stop =>
        refine ⟨position, joined, ?_⟩
        rw [not_and_or, not_lt, not_le] at stop
        exact stop.imp_left Nat.le_zero.mp

theorem length_splitOn (newline : α) (content : List α) :
    (content.splitOn newline).length = content.count newline + 1 := by
  induction content with
  | nil => rfl
  | cons a content ih =>
      rw [List.splitOn_cons_eq_if_modifyHead, List.count_cons]
      split
      next => rw [List.length_cons, ih]
      next => rw [List.length_modifyHead, ih]

/-- The lines of the end of a file are those of the file but for the first, if there are several. -/
theorem exists_lines_drop {start : Nat} (enough : 1 ≤ (content.drop start).count newline) :
    ∃ before first last, lines newline content = before ++ last ∧
      lines newline (content.drop start) = first :: last ∧ before ≠ [] ∧
        (content.drop start).count newline ≤ last.length + 1 := by
  obtain ⟨first, rest, parts⟩ :=
    List.exists_cons_of_ne_nil (List.splitOn_ne_nil newline (content.drop start))
  have whole : (content.take start ++ content.drop start).splitOn newline = _ :=
    splitOn_append parts
  rw [List.take_append_drop] at whole
  have counted := length_splitOn newline (content.drop start)
  rw [parts, List.length_cons, Nat.add_right_cancel_iff] at counted
  have some_ : rest ≠ [] := List.length_pos_iff.mp (by omega)
  have trimmed : ∀ front : List (List α),
      (if (front ++ rest).getLast? = some [] then (front ++ rest).dropLast else front ++ rest) =
        front ++ if rest.getLast? = some [] then rest.dropLast else rest := by
    intro front
    rw [List.getLast?_append_of_ne_nil front some_]
    split
    next => rw [List.dropLast_append_of_ne_nil some_]
    next => rfl
  refine ⟨(content.take start ++ first).splitOn newline, first,
    if rest.getLast? = some [] then rest.dropLast else rest, ?_, ?_,
    List.splitOn_ne_nil newline _, ?_⟩
  · rw [lines, whole]
    exact trimmed _
  · rw [lines, parts]
    exact trimmed [first]
  · rw [← counted]
    split
    next => rw [List.length_dropLast]; omega
    next => omega

/-- The last lines of the end of a file with enough newlines are its last lines. -/
theorem lines_drop {start : Nat}
    (enough : start = 0 ∨ maxLines < (content.drop start).count newline) :
    (lines newline (content.drop start)).reverse.take maxLines =
        (lines newline content).reverse.take maxLines ∧
      (maxLines < (lines newline (content.drop start)).length ↔
        maxLines < (lines newline content).length) := by
  rcases enough with rfl | enough
  · rw [List.drop_zero]
    exact ⟨rfl, Iff.rfl⟩
  · have one : 1 ≤ (content.drop start).count newline := by omega
    obtain ⟨before, first, last, whole, back, nonempty, count⟩ := exists_lines_drop one
    have front := List.length_pos_iff.mpr nonempty
    rw [whole, back, List.reverse_cons, List.reverse_append]
    refine ⟨?_, ?_⟩
    · rw [List.take_append_of_le_length (by rw [List.length_reverse]; omega),
        List.take_append_of_le_length (by rw [List.length_reverse]; omega)]
    · rw [List.length_cons, List.length_append]
      omega

end Blocks

end Ecube.BackwardLines
