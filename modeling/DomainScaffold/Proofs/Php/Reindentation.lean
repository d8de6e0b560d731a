import DomainScaffold.Php.Verbatim
import DomainScaffold.Proofs.Text.Pieces
import Mathlib.Data.List.Forall2

/-!
# Lines of moved text

Captured code that is written at another depth has the lines that it had. Either each line behind
the first is moved from the column of the code to the depth, which replaces its first bytes and
empties it if it shows nothing, or all of them are written as they stand.

Results:
* `write_ofSource_eq`, `lines_write_ofSource_eq`: the text that is written, and its lines.
* `movedLine_of_movable`: what becomes of one line.
* `lines_write_ofSource`: the lines of captured code that is written at a depth.
-/

namespace DomainScaffold.Php

open Text Verbatim

variable {text line first : String} {rest : List String} {column level : Nat}

/-! ## Written text -/

theorem toList_indent (level : Nat) : (indent level).toList = List.replicate (4 * level) ' ' := by
  rw [indent, repeated, String.toList_ofList]

theorem not_break_mem_indent (level : Nat) : '\n' ∉ (indent level).toList := by
  rw [toList_indent, List.mem_replicate]
  simp

theorem not_break_mem_moveLeft (h : '\n' ∉ line.toList) (column : Nat) :
    '\n' ∉ (moveLeft column line).toList := by
  rw [moveLeft]
  split
  · exact List.not_mem_nil
  · rw [String.toList_ofList]
    exact fun hmem => h (List.mem_of_mem_drop hmem)

theorem not_break_mem_indentLine (h : '\n' ∉ line.toList) (level : Nat) :
    '\n' ∉ (indentLine level line).toList := by
  rw [indentLine]
  split
  · exact List.not_mem_nil
  · rw [String.toList_append, List.mem_append, not_or]
    exact ⟨not_break_mem_indent level, h⟩

/-- The text of captured code at a depth. -/
theorem write_ofSource_eq (h : lines text = first :: rest) (column level : Nat) :
    (ofSource text column).write level = unlines ((indent level ++ first) ::
      if rest.all (movable column) then rest.map (indentLine level ∘ moveLeft column)
      else rest) := by
  have hbreak : ∀ l ∈ first :: rest, '\n' ∉ l.toList := fun l hl =>
    not_break_mem_of_mem_lines (s := text) (h ▸ hl)
  rw [List.forall_mem_cons] at hbreak
  rw [ofSource, h]
  dsimp only
  split
  · have hlines : lines (unlines (first :: rest.map (moveLeft column))) =
        first :: rest.map (moveLeft column) := by
      refine lines_unlines (List.cons_ne_nil _ _) (List.forall_mem_cons.2 ⟨hbreak.1, ?_⟩)
      rintro _ hmem
      obtain ⟨l, hl, rfl⟩ := List.mem_map.1 hmem
      exact not_break_mem_moveLeft (hbreak.2 l hl) column
    rw [write, if_neg Bool.false_ne_true, hlines]
    dsimp only
    rw [append_unlines, List.map_map]
  · rw [write_fixed rfl, ← append_unlines, ← h, unlines_lines]

theorem lines_write_ofSource_eq (h : lines text = first :: rest) (column level : Nat) :
    lines ((ofSource text column).write level) = (indent level ++ first) ::
      if rest.all (movable column) then rest.map (indentLine level ∘ moveLeft column)
      else rest := by
  have hbreak : ∀ l ∈ first :: rest, '\n' ∉ l.toList := fun l hl =>
    not_break_mem_of_mem_lines (s := text) (h ▸ hl)
  rw [List.forall_mem_cons] at hbreak
  rw [write_ofSource_eq h]
  refine lines_unlines (List.cons_ne_nil _ _) (List.forall_mem_cons.2 ⟨?_, ?_⟩)
  · rw [String.toList_append, List.mem_append, not_or]
    exact ⟨not_break_mem_indent level, hbreak.1⟩
  · split
    · rintro _ hmem
      obtain ⟨l, hl, rfl⟩ := List.mem_map.1 hmem
      exact not_break_mem_indentLine (not_break_mem_moveLeft (hbreak.2 l hl) column) level
    · exact hbreak.2

/-! ## Lines -/

/-- A line of code that starts in a column, and the line it becomes at a depth: an empty one if it
    shows nothing, else the one with an indent in place of its first `column` bytes, all of which are
    spaces and tabs. -/
inductive MovedLine (column level : Nat) : String → String → Prop
  | blank {line : String} : isBlankLine line = true → MovedLine column level line ""
  | shown {lead line : String} : isBlankLine (lead ++ line) = false → lead.utf8ByteSize = column →
    (∀ c ∈ lead.toList, c = ' ' ∨ c = '\t') →
    MovedLine column level (lead ++ line) (repeated (4 * level) ' ' ++ line)

theorem utf8ByteSize_of_blanks {cs : List Char} (h : ∀ c ∈ cs, c = ' ' ∨ c = '\t') :
    (String.ofList cs).utf8ByteSize = cs.length := by
  induction cs with
  | nil => rfl
  | cons c cs ih =>
    obtain ⟨hc, hcs⟩ := List.forall_mem_cons.1 h
    have hsize : c.utf8Size = 1 := by rcases hc with rfl | rfl <;> rfl
    rw [String.ofList_cons, String.utf8ByteSize_append, String.utf8ByteSize_singleton, hsize,
      ih hcs, List.length_cons, Nat.add_comm]

/-- The first characters of a line are spaces and tabs as far as its indent goes. -/
theorem blanks_of_le_indentOf (h : column ≤ indentOf line) :
    (line.toList.take column).length = column ∧
      ∀ c ∈ line.toList.take column, c = ' ' ∨ c = '\t' := by
  have htake : line.toList.take column =
      (line.toList.takeWhile fun c => c == ' ' || c == '\t').take column := by
    conv_lhs => rw [← List.takeWhile_append_dropWhile (p := fun c => c == ' ' || c == '\t')
      (l := line.toList)]
    exact List.take_append_of_le_length h
  rw [htake]
  refine ⟨List.length_take_of_le h, fun c hc => ?_⟩
  simpa using List.all_eq_true.1 List.all_takeWhile c (List.mem_of_mem_take hc)

theorem movedLine_of_movable (h : movable column line = true) (level : Nat) :
    MovedLine column level line (indentLine level (moveLeft column line)) := by
  cases hblank : isBlankLine line with
  | true =>
    rw [moveLeft, if_pos hblank]
    exact .blank hblank
  | false =>
    rw [movable, hblank, Bool.false_or, decide_eq_true_eq] at h
    obtain ⟨hlength, hblanks⟩ := blanks_of_le_indentOf h
    have hsplit : String.ofList (line.toList.take column) ++
        String.ofList (line.toList.drop column) = line := by
      rw [← String.ofList_append, List.take_append_drop, String.ofList_toList]
    -- A line of blanks alone would show nothing.
    have hshown : (String.ofList (line.toList.drop column)).isEmpty = false := by
      rw [Bool.eq_false_iff, Ne, String.isEmpty_iff, ← String.toList_eq_nil_iff,
        String.toList_ofList]
      intro hnil
      have hline := List.take_append_drop column line.toList
      rw [hnil, List.append_nil] at hline
      rw [isBlankLine, ← hline, List.all_eq_false] at hblank
      obtain ⟨c, hc, hvisible⟩ := hblank
      rcases hblanks c hc with rfl | rfl <;> exact hvisible (by decide)
    have hmoved : MovedLine column level (String.ofList (line.toList.take column) ++
        String.ofList (line.toList.drop column)) _ :=
      .shown (hsplit.symm ▸ hblank) (by rw [utf8ByteSize_of_blanks hblanks, hlength])
        (by rwa [String.toList_ofList])
    rw [hsplit] at hmoved
    rwa [moveLeft, hblank, if_neg Bool.false_ne_true, indentLine, hshown,
      if_neg Bool.false_ne_true]

theorem movable_eq_false_iff :
    movable column line = false ↔ isBlankLine line = false ∧ indentOf line < column := by
  rw [movable, Bool.or_eq_false_iff, decide_eq_false_iff_not, Nat.not_le]

/-- The lines of captured code that is written at a depth. -/
theorem lines_write_ofSource (text : String) (column level : Nat) :
    ∃ first rest rest', lines text = first :: rest ∧
      lines ((ofSource text column).write level) = (repeated (4 * level) ' ' ++ first) :: rest' ∧
      rest'.length = rest.length ∧
      if ∃ line ∈ rest, isBlankLine line = false ∧ indentOf line < column then rest' = rest
      else List.Forall₂ (MovedLine column level) rest rest' := by
  obtain ⟨first, rest, hlines⟩ := List.exists_cons_of_ne_nil (lines_ne_nil text)
  have hmovable : (∃ line ∈ rest, isBlankLine line = false ∧ indentOf line < column) ↔
      ¬ rest.all (movable column) = true := by
    simp only [← movable_eq_false_iff, List.all_eq_true, not_forall, Bool.not_eq_true, exists_prop]
  refine ⟨first, rest, _, hlines, lines_write_ofSource_eq hlines column level, ?_, ?_⟩
  · split <;> simp
  · split
    · rename_i hfixed
      rw [if_neg (hmovable.1 hfixed)]
    · rename_i hmoved
      rw [hmovable, not_not] at hmoved
      rw [if_pos hmoved, List.forall₂_map_right_iff, List.forall₂_same]
      exact fun line hline => movedLine_of_movable (List.all_eq_true.1 hmoved line hline) level

example : (ofSource "run(\n        a,\n \n    )" 4).write 2 =
    "        run(\n            a,\n\n        )" := by
  decide +kernel

end DomainScaffold.Php
