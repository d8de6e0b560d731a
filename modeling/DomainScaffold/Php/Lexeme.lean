import DomainScaffold.Text.LetterCase

/-!
# Lexemes

A PHP file is a sequence of lexemes. Each keeps the white space in front of it, so that the text
between two places of a file is what the lexemes between them hold.

Results:
* `sourceText_append`: the text of two runs of lexemes side by side.
-/

namespace DomainScaffold.Php

/-- What a lexeme is. -/
inductive LexemeKind where
  /-- Text above the first opening tag. -/
  | page
  | openTag
  | comment
  /-- A closing tag with the text behind it and the next opening tag. -/
  | interlude
  | word
  /-- A variable with its sign. -/
  | variable
  | integer
  | float
  /-- A single-quoted string. -/
  | quoted
  /-- A string of another form: with interpolation, a here document or a command. -/
  | template
  | symbol
  deriving DecidableEq, Repr

/-- A lexeme with the place where it starts: the row and the number of bytes before it in its
    row. -/
structure Lexeme where
  kind : LexemeKind
  /-- The white space in front. -/
  lead : String
  text : String
  row : Nat
  column : Nat
  deriving DecidableEq, Repr

namespace Lexeme

/-- Whether a lexeme may stand between any two others. -/
def isExtra (l : Lexeme) : Bool := l.kind == .comment || l.kind == .interlude

/-- Whether a lexeme is the given symbol. -/
def isSymbol (text : String) (l : Lexeme) : Bool := l.kind == .symbol && l.text == text

/-- Whether a lexeme is the given word in any case. -/
def isWord (text : String) (l : Lexeme) : Bool :=
  l.kind == .word && Text.foldAscii l.text == text

/-- Whether a lexeme is a string of any form. -/
def isString (l : Lexeme) : Bool := l.kind == .quoted || l.kind == .template

/-- Whether a lexeme goes over several rows. -/
def isLong (l : Lexeme) : Bool := l.text.toList.contains '\n'

/-- The row in which a lexeme ends. -/
def endRow (l : Lexeme) : Nat := l.row + l.text.toList.count '\n'

/-- The text of a lexeme with the white space in front. -/
def fullText (l : Lexeme) : String := l.lead ++ l.text

end Lexeme

/-- The text of lexemes with the white space in front of each. -/
def fullText (ls : List Lexeme) : String := String.join (ls.map Lexeme.fullText)

/-- The text of lexemes from the start of the first to the end of the last. -/
def sourceText : List Lexeme → String
  | [] => ""
  | l :: ls => l.text ++ fullText ls

theorem sourceText_append {as bs : List Lexeme} (h : as ≠ []) :
    sourceText (as ++ bs) = sourceText as ++ fullText bs := by
  cases as with
  | nil => exact absurd rfl h
  | cons a as => simp [sourceText, fullText, String.append_assoc]

end DomainScaffold.Php
