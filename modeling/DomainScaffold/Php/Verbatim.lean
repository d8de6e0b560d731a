import DomainScaffold.Text.Blank
import DomainScaffold.Text.Split

/-!
# Verbatim text

Hand-written code is kept as its text. The text of a piece of code is moved to the left by the
column in which it starts, and moved to the right again when it is written at another depth. Where
that would change it, the text keeps its layout.

Results:
* `ofSource_fixed_iff`: when a text keeps its layout.
* `write_fixed`: a fixed text only gets an indent before its first line.
-/

namespace DomainScaffold.Php

open Text

/-- The text of a piece of code. -/
structure Verbatim where
  text : String
  /-- Whether the lines after the first are written as they stand. -/
  fixed : Bool
  deriving DecidableEq, Repr

namespace Verbatim

/-! ## Reading -/

/-- Whether a line holds nothing but white space. -/
def isBlankLine (line : String) : Bool := line.toList.all isBlank

/-- The number of spaces and tabs a line starts with. -/
def indentOf (line : String) : Nat :=
  (line.toList.takeWhile fun c => c == ' ' || c == '\t').length

/-- Whether a line can be moved to the left by `column`. -/
def movable (column : Nat) (line : String) : Bool :=
  isBlankLine line || column ≤ indentOf line

/-- A line moved to the left; a blank one becomes empty. -/
def moveLeft (column : Nat) (line : String) : String :=
  if isBlankLine line then "" else String.ofList (line.toList.drop column)

/-- The lines of a text behind the first one. -/
def continuation (text : String) : List String := (lines text).tail

/-- The text of code that starts in the given column of its first line. -/
def ofSource (text : String) (column : Nat) : Verbatim :=
  match lines text with
  | [] => ⟨text, false⟩
  | first :: rest =>
    if rest.all (movable column) then ⟨unlines (first :: rest.map (moveLeft column)), false⟩
    else ⟨text, true⟩

/-- A text that keeps its layout. -/
def ofFixed (text : String) : Verbatim := ⟨text, true⟩

theorem ofSource_fixed_iff {text : String} {column : Nat} :
    (ofSource text column).fixed = true ↔
      ∃ line ∈ continuation text, movable column line = false := by
  unfold ofSource continuation
  cases h : lines text with
  | nil => simp
  | cons first rest =>
    dsimp only
    by_cases hr : rest.all (movable column) = true
    · rw [if_pos hr]
      simp only [List.tail_cons, Bool.false_eq_true, false_iff, not_exists, not_and]
      intro line hl hf
      rw [List.all_eq_true.1 hr line hl] at hf
      exact absurd hf (by simp)
    · rw [if_neg hr]
      simp only [List.tail_cons, true_iff]
      simpa using hr

/-! ## Writing -/

/-- The spaces in front of code at a depth. -/
def indent (level : Nat) : String := repeated (4 * level) ' '

/-- A line behind the first at a depth; an empty line gets no indent. -/
def indentLine (level : Nat) (line : String) : String :=
  if line.isEmpty then "" else indent level ++ line

/-- The text written at a depth. -/
def write (level : Nat) (v : Verbatim) : String :=
  if v.fixed then indent level ++ v.text
  else
    match lines v.text with
    | [] => ""
    | first :: rest => indent level ++ unlines (first :: rest.map (indentLine level))

theorem write_fixed {v : Verbatim} (h : v.fixed = true) (level : Nat) :
    v.write level = indent level ++ v.text := by
  simp [write, h]

end Verbatim

end DomainScaffold.Php
