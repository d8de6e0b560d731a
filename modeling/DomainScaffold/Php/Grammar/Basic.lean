import DomainScaffold.Php.Lexeme
import DomainScaffold.Php.Tree

/-!
# Reading lexemes

A parser takes lexemes from the front of a list. Comments and interludes may stand anywhere and are
stepped over, except where a rule asks for them. The rules of the language call each other through
`Rules`, which holds the two that are recursive.

Results:
* `consumed_append`: what a parser took and what it left make up what was there.
-/

namespace DomainScaffold.Php.Grammar

/-- A parser over lexemes. -/
abbrev Parse := StateT (List Lexeme) Option

/-! ## Single lexemes -/

/-- The lexemes from the first on that is neither comment nor interlude. -/
def significant (ls : List Lexeme) : List Lexeme := ls.dropWhile Lexeme.isExtra

/-- The comments and interludes that come next. -/
def extras : Parse (List Lexeme) := fun ls => some (ls.takeWhile Lexeme.isExtra, ls)

/-- The next lexeme, which is not taken. -/
def peek : Parse (Option Lexeme) := fun ls => some ((significant ls).head?, ls)

/-- Whether the next lexeme satisfies `p`. -/
def ahead (p : Lexeme → Bool) : Parse Bool := fun ls => some ((significant ls).head?.any p, ls)

/-- Whether the lexeme behind the next one satisfies `p`. -/
def aheadSecond (p : Lexeme → Bool) : Parse Bool :=
  fun ls => some ((significant (significant ls).tail).head?.any p, ls)

/-- Whether the third lexeme satisfies `p`. -/
def aheadThird (p : Lexeme → Bool) : Parse Bool :=
  fun ls => some ((significant (significant (significant ls).tail).tail).head?.any p, ls)

/-- The next lexeme if it satisfies `p`. -/
def lexeme (p : Lexeme → Bool) : Parse Lexeme := fun ls =>
  match significant ls with
  | [] => none
  | l :: rest => if p l then some (l, rest) else none

/-- The given symbol. -/
def symbol (text : String) : Parse Unit := do discard (lexeme (Lexeme.isSymbol text))

/-- The given word. -/
def word (text : String) : Parse Unit := do discard (lexeme (Lexeme.isWord text))

/-- The given symbol if it comes next, and whether it does. -/
def symbol? (text : String) : Parse Bool := do
  if ← ahead (Lexeme.isSymbol text) then
    symbol text
    return true
  return false

/-- The given word if it comes next, and whether it does. -/
def word? (text : String) : Parse Bool := do
  if ← ahead (Lexeme.isWord text) then
    word text
    return true
  return false

/-- Any word. -/
def anyWord : Parse String := do return (← lexeme (·.kind == .word)).text

/-! ## Text -/

/-- The lexemes of `before` that are not in its end `after`. -/
def consumed (before after : List Lexeme) : List Lexeme :=
  before.take (before.length - after.length)

theorem consumed_append {before after : List Lexeme} (h : after <:+ before) :
    consumed before after ++ after = before := by
  obtain ⟨taken, rfl⟩ := h
  simp [consumed]

/-- The lexemes from the next one on. -/
def here : Parse (List Lexeme) := fun ls => some (significant ls, ls)

/-- The text from a place up to the last lexeme taken. -/
def textFrom (start : List Lexeme) : Parse String :=
  fun ls => some (sourceText (consumed start ls), ls)

/-- The text that a parser takes. -/
def textOf (p : Parse α) : Parse String := do
  let start ← here
  discard p
  textFrom start

/-! ## Repetition -/

/-- A repetition, with a bound on the number of rounds that every rule stays below. -/
def bounded (f : Nat → Parse α) : Parse α := fun ls => f (ls.length + 1) ls

/-- As many `p` as there are in front of a lexeme that satisfies `stop`. -/
def manyUntil (stop : Lexeme → Bool) (p : Parse α) : Nat → Parse (List α)
  | 0 => failure
  | n + 1 => do
    if ← ahead stop then return []
    let a ← p
    return a :: (← manyUntil stop p n)

/-- As many `p` as start with a lexeme that satisfies `start`. -/
def manyWhile (start : Lexeme → Bool) (p : Parse α) : Nat → Parse (List α)
  | 0 => failure
  | n + 1 => do
    if ← ahead start then
      let a ← p
      return a :: (← manyWhile start p n)
    return []

/-- One or more `p` between commas. -/
def commaSeparated (p : Parse α) : Nat → Parse (List α)
  | 0 => failure
  | n + 1 => do
    let a ← p
    if ← symbol? "," then return a :: (← commaSeparated p n)
    return [a]

/-- `p` between commas up to a closing symbol; a comma may stand in front of that. -/
def commasUntil (close : String) (p : Parse α) : Nat → Parse (List α)
  | 0 => failure
  | n + 1 => do
    if ← symbol? close then return []
    let a ← p
    if ← symbol? "," then return a :: (← commasUntil close p n)
    symbol close
    return [a]

/-- One or more `p` between commas. -/
def commas (p : Parse α) : Parse (List α) := bounded (commaSeparated p)

/-- `p` between commas in round brackets. -/
def inBrackets (p : Parse α) : Parse (List α) := do
  symbol "("
  bounded (commasUntil ")" p)

/-- The end of a statement: a semicolon or a closing tag, which is not taken. -/
def statementEnd : Parse Unit := fun ls =>
  if (ls.takeWhile Lexeme.isExtra).any (·.kind == .interlude) then some ((), ls)
  else symbol ";" ls

/-- Whether the end of a statement comes next. -/
def atStatementEnd : Parse Bool := fun ls => some ((statementEnd ls).isSome, ls)

/-! ## Sequences with comments -/

/-- A part of a sequence: a comment or interlude between nodes, or a node with its lexemes. -/
inductive Part (α : Type) where
  | extra (l : Lexeme)
  | node (lexemes : List Lexeme) (value : α)

/-- The parts up to a lexeme that satisfies `stop`, or up to the end of the file if that is no
    lexeme's to say. -/
def partsUntil (stop : Option Lexeme → Bool) (p : Parse α) : Nat → Parse (List (Part α))
  | 0, _ => none
  | n + 1, ls =>
    match ls with
    | [] => if stop none then some ([], []) else none
    | l :: rest =>
      if l.isExtra then (partsUntil stop p n rest).map fun (ps, rest) => (.extra l :: ps, rest)
      else if stop (some l) then some ([], ls)
      else do
        let (a, rest) ← p ls
        let (ps, last) ← partsUntil stop p n rest
        some (.node (consumed ls rest) a :: ps, last)

/-! ## Rules -/

/-- What a statement turns out to be. -/
inductive Construct where
  | expression (value : Expr)
  | ret (value : Option Expr)
  | declareDirective
  /-- A namespace for the code that follows, or for a block of its own. -/
  | namespaceDecl (name : Option String) (isBlock : Bool)
  | importDecl
  | classDecl (decl : ClassDecl)
  /-- An interface, trait or enumeration. -/
  | classLike (name : String)
  | other

/-- The rules that others call: expressions whose operators bind at least as tightly as a level,
    and statements. -/
structure Rules where
  expression : Nat → Parse Expr
  statement : Parse Construct

namespace Rules

/-- An expression of any form. -/
def anyExpression (sub : Rules) : Parse Expr := sub.expression 1

/-- An expression in round brackets. -/
def condition (sub : Rules) : Parse Unit := do
  symbol "("
  discard sub.anyExpression
  symbol ")"

end Rules

end DomainScaffold.Php.Grammar
