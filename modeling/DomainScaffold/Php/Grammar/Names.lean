import DomainScaffold.Php.Grammar.Basic

/-!
# Names and types

Qualified names, types of parameters and properties, and the names of class members, each with the
text that is kept of it.

Results:
* `isTypeMark_iff`: the symbols that join types.
-/

namespace DomainScaffold.Php.Grammar

/-! ## Names -/

/-- Further segments of a name. -/
def segments : Nat → Parse Unit
  | 0 => failure
  | n + 1 => do
    if (← ahead (Lexeme.isSymbol "\\")) && (← aheadSecond (·.kind == .word)) then
      symbol "\\"
      discard anyWord
      segments n

/-- A name with or without namespaces. -/
def qualifiedName : Parse String := textOf do
  discard (symbol? "\\")
  discard anyWord
  bounded segments

/-- Whether a lexeme may start a name. -/
def startsName (l : Lexeme) : Bool := l.kind == .word || l.isSymbol "\\"

/-- A variable, or a dollar sign with a variable or an expression in braces behind it. -/
def simpleVariable (sub : Rules) : Nat → Parse Unit
  | 0 => failure
  | n + 1 => do
    if ← symbol? "$" then
      if ← symbol? "\x7b" then
        discard sub.anyExpression
        symbol "\x7d"
      else simpleVariable sub n
    else discard (lexeme (·.kind == .variable))

/-- Whether a lexeme starts a variable. -/
def startsVariable (l : Lexeme) : Bool := l.kind == .variable || l.isSymbol "$"

/-- The name of a member behind an arrow or double colon. Of an expression in braces only the text
    inside is kept. -/
def memberName (sub : Rules) : Parse String := do
  if ← symbol? "\x7b" then
    let name ← textOf sub.anyExpression
    symbol "\x7d"
    return name
  else if ← ahead startsVariable then textOf (bounded (simpleVariable sub))
  else anyWord

/-! ## Types -/

/-- Whether a symbol joins two types. -/
def isTypeMark (l : Lexeme) : Bool := l.isSymbol "|" || l.isSymbol "&"

theorem isTypeMark_iff {l : Lexeme} :
    isTypeMark l = true ↔ l.kind = .symbol ∧ (l.text = "|" ∨ l.text = "&") := by
  simp [isTypeMark, Lexeme.isSymbol, and_or_left]

/-- Types between marks. An ampersand in front of a variable or dots belongs to the parameter. -/
def typeUnion : Nat → Parse Unit
  | 0 => failure
  | n + 1 => do
    if ← symbol? "(" then
      typeUnion n
      symbol ")"
    else discard qualifiedName
    let second ← aheadSecond fun l => startsName l || l.isSymbol "("
    if (← ahead isTypeMark) && second then
      discard (lexeme isTypeMark)
      typeUnion n

/-- A type. -/
def typeText : Parse String := textOf do
  discard (symbol? "?")
  bounded typeUnion

/-- Whether a lexeme may start a type. -/
def startsType (l : Lexeme) : Bool := startsName l || l.isSymbol "?" || l.isSymbol "("

/-- A type if one comes next. -/
def type? : Parse (Option String) := do
  if ← ahead startsType then return some (← typeText)
  return none

/-- A return type behind a colon if one comes next. -/
def returnType? : Parse (Option String) := do
  if ← symbol? ":" then return some (← typeText)
  return none

end DomainScaffold.Php.Grammar
