import DomainScaffold.Php.Grammar.Blocks
import DomainScaffold.Php.Grammar.Calls

/-!
# Classes and their members

What stands between the name of a class and the brace that closes it.

Results:
* `isMemberModifier_of_visibility`: the visibilities are modifiers.
-/

namespace DomainScaffold.Php.Grammar

/-! ## Members -/

/-- The words that may stand in front of a member. -/
def memberModifiers : List String :=
  visibilityWords ++ ["static", "abstract", "final", "readonly", "var"]

theorem isMemberModifier_of_visibility {w : String} (h : w ∈ visibilityWords) :
    w ∈ memberModifiers := List.mem_append_left _ h

/-- Whether some modifier is a word. -/
def hasWord (w : String) (modifiers : List String) : Bool :=
  modifiers.any fun m => Text.foldAscii m == w

/-- Whether a modifier starts with the word of a visibility. -/
def isVisibility (modifier : String) : Bool :=
  visibilityWords.any fun w => Text.startsWith w (Text.foldAscii modifier)

/-- The visibility that the last such modifier names. -/
def visibilityOf (modifiers : List String) : Option Visibility :=
  (modifiers.filter isVisibility).getLast?.bind Visibility.ofWord?

/-- A constant with its value. -/
def constantEntry (sub : Rules) : Parse (String × Expr) := do
  let name ← anyWord
  symbol "="
  return (name, ← sub.anyExpression)

/-- Constants behind their keyword; a type is stepped over. -/
def constantEntries (sub : Rules) : Parse (List (String × Expr)) := do
  word "const"
  if !(← aheadSecond (Lexeme.isSymbol "=")) then discard typeText
  let entries ← commas (constantEntry sub)
  statementEnd
  return entries

/-- A property with its default. -/
def propertyEntry (sub : Rules) : Parse (String × Option Expr) := do
  let name ← lexeme (·.kind == .variable)
  let preset ← do
    if ← symbol? "=" then pure (some (← sub.anyExpression)) else pure none
  return (Text.trimLeft '$' name.text, preset)

/-- What a property does when it is read or written. -/
def propertyHook (sub : Rules) : Parse Unit := do
  discard (attributes sub)
  discard (modifiers ["final"])
  discard (symbol? "&")
  discard anyWord
  if ← ahead (Lexeme.isSymbol "(") then discard (params sub)
  if ← symbol? "=>" then
    discard sub.anyExpression
    statementEnd
  else if ← ahead (Lexeme.isSymbol "\x7b") then discard (block sub)
  else statementEnd

/-- The end of a property declaration: a semicolon or hooks in braces. -/
def propertyEnd (sub : Rules) : Parse Unit := do
  if ← symbol? "\x7b" then
    discard (bounded (manyUntil (Lexeme.isSymbol "\x7d") (propertyHook sub)))
    symbol "\x7d"
  else statementEnd

/-- A property declaration behind its modifiers. -/
def property (sub : Rules) (modifiers : List String) : Parse MemberKind := do
  let typeHint ← type?
  let entries ← commas (propertyEntry sub)
  propertyEnd sub
  return .property {
    visibility := visibilityOf modifiers
    isStatic := hasWord "static" modifiers
    isReadonly := hasWord "readonly" modifiers
    typeHint
    entries }

/-- A method declaration behind its modifiers. -/
def method (sub : Rules) (attributes modifiers : List String) : Parse MemberKind := do
  word "function"
  let byReference ← symbol? "&"
  let name ← anyWord
  let params ← params sub
  let returnType ← returnType?
  let body ← do
    if ← ahead (Lexeme.isSymbol "\x7b") then pure (some (← block sub))
    else
      statementEnd
      pure none
  return .method {
    attributes
    visibility := visibilityOf modifiers
    isStatic := hasWord "static" modifiers
    isAbstract := hasWord "abstract" modifiers
    isFinal := hasWord "final" modifiers
    byReference
    name
    params
    returnType
    body }

/-- A rule that settles clashes between traits. -/
def traitRule : Parse Unit := do
  discard qualifiedName
  if ← symbol? "::" then discard anyWord
  if ← word? "insteadof" then discard (commas qualifiedName)
  else
    word "as"
    let visibility ← modifiers visibilityWords
    if visibility.isEmpty || (← ahead (·.kind == .word)) then discard anyWord
  statementEnd

/-- The use of traits. -/
def traitUse : Parse MemberKind := do
  word "use"
  let names ← commas qualifiedName
  if ← symbol? "\x7b" then
    discard (bounded (manyUntil (Lexeme.isSymbol "\x7d") traitRule))
    symbol "\x7d"
  else statementEnd
  return .traitUse names

/-- A case of an enumeration. -/
def enumerationCase (sub : Rules) : Parse MemberKind := do
  word "case"
  discard anyWord
  if ← symbol? "=" then discard sub.anyExpression
  statementEnd
  return .other

/-- A member of a class or enumeration. -/
def member (sub : Rules) : Parse MemberKind := do
  if ← ahead (Lexeme.isWord "use") then traitUse
  else
    let attributes ← attributes sub
    let modifiers ← modifiers memberModifiers
    if ← ahead (Lexeme.isWord "const") then
      return .constant ⟨visibilityOf modifiers, ← constantEntries sub⟩
    else if ← ahead (Lexeme.isWord "function") then method sub attributes modifiers
    else if ← ahead (Lexeme.isWord "case") then enumerationCase sub
    else if modifiers.isEmpty then failure
    else property sub modifiers

/-- The members in braces. -/
def classBody (sub : Rules) : Parse (List Member) := do
  symbol "\x7b"
  let parts ← bounded (partsUntil closesBlock (member sub))
  symbol "\x7d"
  return membersOf parts

/-! ## Class headings -/

/-- Names between commas, with the comments in front of names and commas among them. -/
def namesWithComments : Nat → Parse (List String)
  | 0 => failure
  | n + 1 => do
    let before ← extras
    let name ← qualifiedName
    let behind ← extras
    let head := before.map Lexeme.text ++ [name]
    if ← symbol? "," then
      return head ++ behind.map Lexeme.text ++ (← namesWithComments n)
    return head

/-- The names behind a keyword, if it comes next. -/
def namesBehind (keyword : String) : Parse (List String) := do
  if ← word? keyword then bounded namesWithComments else return []

/-- What follows the name of a class: the parent, the interfaces and the members. -/
def classTail (sub : Rules) : Parse (Option String × List String × List Member) := do
  let parents ← namesBehind "extends"
  let interfaces ← namesBehind "implements"
  let members ← classBody sub
  return (parents.head?, interfaces, members)

/-- The words that may stand in front of a class. -/
def classModifiers : List String := ["final", "abstract", "readonly"]

/-- A class declaration behind its attributes. -/
def classDecl (sub : Rules) (attributes : List String) : Parse ClassDecl := do
  let modifiers ← modifiers classModifiers
  word "class"
  let name ← anyWord
  let (parent, interfaces, members) ← classTail sub
  return {
    attributes
    modifiers := modifiers.map Text.foldAscii
    name
    parent
    interfaces
    members }

end DomainScaffold.Php.Grammar
