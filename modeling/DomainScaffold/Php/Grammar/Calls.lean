import DomainScaffold.Php.Grammar.Names

/-!
# Arguments, attributes and parameters

What stands in round brackets behind the name of a function.

Results:
* `lastText_append`: of several texts in a row the last one is kept.
-/

namespace DomainScaffold.Php.Grammar

/-! ## Arguments -/

/-- An argument. One with a name or in front of which dots stand is kept as text; of one passed by
    reference only the sign is kept. -/
def argument (sub : Rules) : Parse Expr := do
  let start ← here
  if (← ahead (·.kind == .word)) && (← aheadSecond (Lexeme.isSymbol ":")) then
    discard anyWord
    symbol ":"
    discard sub.anyExpression
    return .raw (← textFrom start)
  else if ← symbol? "..." then
    discard sub.anyExpression
    return .raw (← textFrom start)
  else if ← symbol? "&" then
    discard sub.anyExpression
    return .raw "&"
  else sub.anyExpression

/-- Arguments in round brackets. Dots alone stand for all arguments and count as none. -/
def arguments (sub : Rules) : Parse (List Expr) := do
  if (← aheadSecond (Lexeme.isSymbol "...")) && (← aheadThird (Lexeme.isSymbol ")")) then
    symbol "("
    symbol "..."
    symbol ")"
    return []
  inBrackets (argument sub)

/-- Arguments if they come next. -/
def arguments? (sub : Rules) : Parse (Option (List Expr)) := do
  if ← ahead (Lexeme.isSymbol "(") then return some (← arguments sub)
  return none

/-! ## Attributes -/

/-- An attribute with its arguments. -/
def attributeItem (sub : Rules) : Parse Unit := do
  discard qualifiedName
  discard (arguments? sub)

/-- A group of attributes. -/
def attributeGroup (sub : Rules) : Parse Unit := do
  symbol "#["
  discard (bounded (commasUntil "]" (attributeItem sub)))

/-- The text of the attribute groups that come next, as one text. -/
def attributes (sub : Rules) : Parse (List String) := do
  if ← ahead (Lexeme.isSymbol "#[") then
    return [← textOf (bounded (manyWhile (Lexeme.isSymbol "#[") (attributeGroup sub)))]
  return []

/-! ## Parameters -/

/-- Whether a lexeme is one of the given words. -/
def isOneOf (words : List String) (l : Lexeme) : Bool := words.any fun w => l.isWord w

/-- The words that say who may use a member. -/
def visibilityWords : List String := ["public", "protected", "private"]

/-- A modifier, with the note on writing that a visibility may carry. -/
def modifier (words : List String) : Parse String := textOf do
  discard (lexeme (isOneOf words))
  if (← ahead (Lexeme.isSymbol "(")) && (← aheadSecond (Lexeme.isWord "set")) then
    symbol "("
    word "set"
    symbol ")"

/-- The modifiers that come next. -/
def modifiers (words : List String) : Parse (List String) :=
  bounded (manyWhile (isOneOf words) (modifier words))

/-- The last of two optional texts. -/
def lastText (first second : Option String) : Option String := second.orElse fun _ => first

theorem lastText_append (a b c : Option String) :
    lastText (lastText a b) c = lastText a (lastText b c) := by
  cases c <;> simp [lastText]

/-- The text of the last comment that comes next. -/
def lastExtra : Parse (Option String) := do return (← extras).getLast?.map Lexeme.text

/-- A parameter. A comment between its parts stands in for the type if it is the last thing but
    signs in front of the name. -/
def param (sub : Rules) : Parse Param := do
  let attributes ← attributes sub
  let afterAttributes ← if attributes.isEmpty then pure none else lastExtra
  let promotion ← modifiers (visibilityWords ++ ["readonly"])
  let afterPromotion ← if promotion.isEmpty then pure none else lastExtra
  let type ← type?
  let afterType ← if type.isNone then pure none else lastExtra
  let byReference ← symbol? "&"
  let afterReference ← if byReference then lastExtra else pure none
  let isVariadic ← symbol? "..."
  let afterDots ← if isVariadic then lastExtra else pure none
  let name ← lexeme (·.kind == .variable)
  let preset ← do
    if ← symbol? "=" then pure (some (← sub.anyExpression)) else pure none
  let hint := [afterAttributes, afterPromotion, type, afterType, afterReference, afterDots].foldl
    lastText none
  return {
    attributes
    promotion := if promotion.isEmpty then none else some (String.intercalate " " promotion)
    typeHint := hint
    byReference
    isVariadic
    name := Text.trimLeft '$' name.text
    preset }

/-- Parameters in round brackets. -/
def params (sub : Rules) : Parse (List Param) := inBrackets (param sub)

end DomainScaffold.Php.Grammar
