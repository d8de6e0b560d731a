import DomainScaffold.Decimal.Integer
import DomainScaffold.Php.Grammar.Members
import DomainScaffold.Php.Quoted

/-!
# Expressions

Expressions by levels of operators. Forms that generated code is made of become nodes; any other
form becomes its text.

Results:
* `operator?_level`: the level of an operator lies between those of `or` and `instanceof`.
-/

namespace DomainScaffold.Php.Grammar

/-! ## Operators -/

/-- An operator between two operands. -/
structure Operator where
  /-- Operators of a higher level bind tighter. -/
  level : Nat
  /-- Whether operators of this level group from the right. -/
  fromRight : Bool
  deriving DecidableEq, Repr

/-- The operators that are symbols. -/
def symbolOperators : List (String × Operator) :=
  [("??", ⟨6, true⟩), ("||", ⟨7, false⟩), ("&&", ⟨8, false⟩), ("|", ⟨9, false⟩), ("^", ⟨10, false⟩),
   ("&", ⟨11, false⟩), ("==", ⟨12, false⟩), ("!=", ⟨12, false⟩), ("<>", ⟨12, false⟩),
   ("===", ⟨12, false⟩), ("!==", ⟨12, false⟩), ("<=>", ⟨12, false⟩), ("<", ⟨13, false⟩),
   (">", ⟨13, false⟩), ("<=", ⟨13, false⟩), (">=", ⟨13, false⟩), (".", ⟨14, false⟩),
   ("<<", ⟨15, false⟩), (">>", ⟨15, false⟩), ("+", ⟨16, false⟩), ("-", ⟨16, false⟩),
   ("*", ⟨17, false⟩), ("/", ⟨17, false⟩), ("%", ⟨17, false⟩), ("**", ⟨18, true⟩)]

/-- The operators that are words. -/
def wordOperators : List (String × Operator) :=
  [("or", ⟨1, false⟩), ("xor", ⟨2, false⟩), ("and", ⟨3, false⟩), ("instanceof", ⟨20, false⟩)]

/-- The level of the conditional operator. -/
def conditionalLevel : Nat := 5

/-- The level of the right side of an assignment. -/
def assignedLevel : Nat := 5

/-- The level of the operand of a sign or negation. -/
def signedLevel : Nat := 20

/-- The level of an operand without operators. -/
def operandLevel : Nat := 21

/-- The operator that a lexeme is. -/
def operator? (l : Lexeme) : Option Operator :=
  match l.kind with
  | .symbol => symbolOperators.lookup l.text
  | .word => wordOperators.lookup (Text.foldAscii l.text)
  | _ => none

theorem mem_of_lookup {k : String} {o : Operator} :
    ∀ {table : List (String × Operator)}, table.lookup k = some o → (k, o) ∈ table
  | (j, p) :: table, h => by
    by_cases hk : k == j
    · simp only [List.lookup_cons, hk, Option.some.injEq] at h
      simp [h, eq_of_beq hk]
    · simp only [List.lookup_cons, hk] at h
      exact List.mem_cons_of_mem _ (mem_of_lookup h)

theorem operator?_level {l : Lexeme} {o : Operator} (h : operator? l = some o) :
    1 ≤ o.level ∧ o.level ≤ signedLevel := by
  unfold operator? at h
  have all : ∀ e ∈ symbolOperators ++ wordOperators, 1 ≤ e.2.level ∧ e.2.level ≤ signedLevel := by
    decide
  split at h
  · exact all _ (List.mem_append_left _ (mem_of_lookup h))
  · exact all _ (List.mem_append_right _ (mem_of_lookup h))
  · cases h

/-- The symbols that assign after an operation. -/
def compoundAssignments : List String :=
  ["+=", "-=", "*=", "/=", "%=", ".=", "**=", "??=", "&=", "|=", "^=", "<<=", ">>="]

/-- The types that a value can be cast to. -/
def castTypes : List String :=
  ["array", "binary", "bool", "boolean", "double", "float", "int", "integer", "object", "real",
   "string", "unset"]

/-! ## Operands and what may follow them -/

/-- What may follow an operand. -/
inductive Form where
  /-- A place: it can be assigned, called, and its parts accessed. -/
  | place
  /-- A value that can be called and whose parts can be accessed. -/
  | value
  /-- An array: a value, or a pattern to be assigned. -/
  | array
  /-- A pattern that is no value. -/
  | pattern
  /-- Nothing may follow. -/
  | closed
  deriving DecidableEq, Repr

/-- Whether calls and accesses may follow. -/
def Form.isOpen : Form → Bool
  | place | value | array => true
  | pattern | closed => false

/-- The text of an operand that starts at a place. -/
def rawFrom (start : List Lexeme) : Parse Expr := do return .raw (← textFrom start)

/-- What follows an arrow: a method call or property. -/
def arrowTail (sub : Rules) (object : Expr) : Parse Expr := do
  let name ← memberName sub
  match ← arguments? sub with
  | some args => return .methodCall object name args
  | none => return .property object name

/-- What follows a double colon: a static call, a constant or a static property. -/
def colonTail (sub : Rules) (start : List Lexeme) : Parse (Expr × Form) := do
  let className ← textFrom start
  let before ← extras
  symbol "::"
  let behind ← extras
  let isVariable ← ahead startsVariable
  let name ← memberName sub
  match ← arguments? sub with
  | some args => return (.staticCall className name args, .place)
  | none =>
    if isVariable then return (← rawFrom start, .place)
    else if before.isEmpty && behind.isEmpty then return (.classConst className name, .value)
    else return (← rawFrom start, .value)

/-- The calls and accesses that follow an operand. -/
def accesses (sub : Rules) (start : List Lexeme) : Nat → Expr × Form → Parse (Expr × Form)
  | 0, _ => failure
  | n + 1, (e, form) => do
    if !form.isOpen then return (e, form)
    else if ← symbol? "->" then accesses sub start n (← arrowTail sub e, .place)
    else if ← symbol? "?->" then
      discard (arrowTail sub e)
      accesses sub start n (← rawFrom start, .place)
    else if ← ahead (Lexeme.isSymbol "::") then accesses sub start n (← colonTail sub start)
    else if ← ahead (Lexeme.isSymbol "(") then
      let function ← textFrom start
      accesses sub start n (.call function (← arguments sub), .place)
    else if ← symbol? "[" then
      if !(← symbol? "]") then
        discard sub.anyExpression
        symbol "]"
      accesses sub start n (← rawFrom start, .place)
    else return (e, form)

/-! ## Arrays -/

/-- What has been read of an array. -/
structure ArrayParts where
  items : List (Option Expr × Expr)
  /-- Whether it holds neither comments nor references. -/
  isPlain : Bool
  /-- Whether an item between two commas is missing. -/
  hasHole : Bool

/-- The value of an array item, unless it is a reference. -/
def arrayValue (sub : Rules) : Parse (Option Expr) := do
  if ← symbol? "&" then
    discard sub.anyExpression
    return none
  return some (← sub.anyExpression)

/-- An array item with or without a key, and whether it holds neither comments nor references. -/
def arrayItem (sub : Rules) : Parse ((Option Expr × Expr) × Bool) := do
  let start ← here
  if ← symbol? "..." then
    discard sub.anyExpression
    return ((none, ← rawFrom start), true)
  match ← arrayValue sub with
  | none => return ((none, .null), false)
  | some first =>
    let before ← extras
    if ← symbol? "=>" then
      let behind ← extras
      match ← arrayValue sub with
      | none => return ((none, .null), false)
      | some value => return ((some first, value), before.isEmpty && behind.isEmpty)
    return ((none, first), true)

/-- The items of an array up to its closing symbol. -/
def arrayItems (sub : Rules) (close : String) : Nat → Parse ArrayParts
  | 0 => failure
  | n + 1 => do
    let comments ← extras
    if ← symbol? close then return ⟨[], comments.isEmpty, false⟩
    if ← symbol? "," then
      let rest ← arrayItems sub close n
      return ⟨rest.items, rest.isPlain && comments.isEmpty, true⟩
    let (item, isPlain) ← arrayItem sub
    let behind ← extras
    let here := isPlain && comments.isEmpty && behind.isEmpty
    if ← symbol? "," then
      let rest ← arrayItems sub close n
      return ⟨item :: rest.items, rest.isPlain && here, rest.hasHole⟩
    symbol close
    return ⟨[item], here, false⟩

/-- An array behind its opening symbol. -/
def arrayTail (sub : Rules) (start : List Lexeme) (close : String) : Parse (Expr × Form) := do
  let parts ← bounded (arrayItems sub close)
  let e ← if parts.isPlain then pure (.array parts.items) else rawFrom start
  return (e, if parts.hasHole then .pattern else .array)

/-! ## Functions -/

/-- The variables that a function takes from where it is written. -/
def capturedVariable : Parse Unit := do
  discard (symbol? "&")
  discard (lexeme (·.kind == .variable))

/-- A function or arrow function. -/
def closure (sub : Rules) : Parse Unit := do
  discard (attributes sub)
  discard (word? "static")
  if ← word? "fn" then
    discard (symbol? "&")
    discard (params sub)
    discard returnType?
    symbol "=>"
    discard sub.anyExpression
  else
    word "function"
    discard (symbol? "&")
    discard (params sub)
    if ← word? "use" then discard (inBrackets capturedVariable)
    discard returnType?
    discard (block sub)

/-- One arm of a `match`. -/
def matchArm (sub : Rules) : Parse Unit := do
  discard (bounded (commasUntil "=>" sub.anyExpression))
  discard sub.anyExpression

/-- A choice between values. -/
def matchTail (sub : Rules) : Parse Unit := do
  sub.condition
  symbol "\x7b"
  discard (bounded (commasUntil "\x7d" (matchArm sub)))

/-! ## Objects -/

/-- The accesses that belong to the class of a new object. -/
def classAccesses (sub : Rules) : Nat → Parse Unit
  | 0 => failure
  | n + 1 => do
    if (← symbol? "->") || (← symbol? "?->") || (← symbol? "::") then
      discard (memberName sub)
      classAccesses sub n
    else if ← symbol? "[" then
      discard sub.anyExpression
      symbol "]"
      classAccesses sub n

/-- A class without a name behind `new`. -/
def anonymousClass (sub : Rules) : Parse Unit := do
  discard (attributes sub)
  discard (word? "readonly")
  word "class"
  discard (arguments? sub)
  discard (classTail sub)

/-- A new object. -/
def newObject (sub : Rules) (start : List Lexeme) : Parse Expr := do
  word "new"
  if (← ahead (Lexeme.isWord "class")) || (← ahead (Lexeme.isSymbol "#[")) ||
      ((← ahead (Lexeme.isWord "readonly")) && (← aheadSecond (Lexeme.isWord "class"))) then
    anonymousClass sub
    rawFrom start
  else if (← ahead startsName) && !(← aheadSecond (Lexeme.isSymbol "::")) then
    let className ← qualifiedName
    let args ← arguments? sub
    return .new className (args.getD [])
  else
    if ← ahead (Lexeme.isSymbol "(") then sub.condition
    else
      if ← ahead startsName then discard qualifiedName
      else bounded (simpleVariable sub)
      bounded (classAccesses sub)
    discard (arguments? sub)
    rawFrom start

/-! ## Yield and clone -/

/-- The text of the first comment, or else the expression. -/
def firstOf (comments : List Lexeme) (e : Expr) : Expr :=
  match comments with
  | [] => e
  | l :: _ => .raw l.text

/-- Whether a lexeme closes what an expression may stand in. -/
def closesExpression (l : Lexeme) : Bool :=
  [")", "]", "\x7d", ",", ";"].any fun s => l.isSymbol s

/-- A value handed out of a generator. -/
def yieldTail (sub : Rules) (start : List Lexeme) : Parse Expr := do
  let behind ← extras
  if ← word? "from" then
    let comments ← extras
    return .yield (some (firstOf (behind ++ comments) (← sub.anyExpression)))
  else if (← ahead closesExpression) || (← atStatementEnd) then return .yield none
  else
    discard sub.anyExpression
    if ← symbol? "=>" then discard sub.anyExpression
    let whole ← rawFrom start
    if behind.isEmpty then return whole else return .yield (some (firstOf behind whole))

/-- A copy of an object. -/
def cloneTail (sub : Rules) : Parse Expr := do
  let comments ← extras
  return .clone (firstOf comments (← sub.expression operandLevel))

/-! ## Operands -/

/-- The value of an integer if it is decimal and has at most 63 bits. -/
def integerExpr (text : String) : Expr :=
  let n := Decimal.value text.toList
  if text.toList.all Char.isDigit && n < Nat.pow 2 63 then .int n else .raw text

/-- The words that take all to their right. -/
def greedyWords : List String :=
  ["print", "throw", "include", "include_once", "require", "require_once"]

/-- The literal that a word is. -/
def wordLiteral? (word : String) : Option Expr :=
  [("true", Expr.bool true), ("false", Expr.bool false), ("null", .null)].lookup
    (Text.foldAscii word)

/-- The words that are no names at the start of an operand, whatever follows them. -/
def operandWords : List String := ["match", "array", "list"]

/-- An operand that starts with a word. -/
def wordOperand (sub : Rules) (start : List Lexeme) (l : Lexeme) : Parse (Expr × Form) := do
  if let some literal := wordLiteral? l.text then
    discard anyWord
    return (literal, .closed)
  else if l.isWord "new" then return (← newObject sub start, .closed)
  else if ← word? "clone" then return (← cloneTail sub, .closed)
  else if ← word? "yield" then return (← yieldTail sub start, .closed)
  else if isOneOf greedyWords l then
    discard anyWord
    discard sub.anyExpression
    return (← rawFrom start, .closed)
  else if isOneOf ["fn", "function"] l ||
      (l.isWord "static" && (← aheadSecond (isOneOf ["fn", "function"]))) then
    closure sub
    return (← rawFrom start, .closed)
  else if ← aheadSecond (Lexeme.isSymbol "(") then
    if ← word? "match" then
      matchTail sub
      return (← rawFrom start, .closed)
    else if ← word? "array" then
      symbol "("
      arrayTail sub start ")"
    else if ← word? "list" then
      symbol "("
      discard (bounded (arrayItems sub ")"))
      return (← rawFrom start, .pattern)
    else return (.name (← qualifiedName), .value)
  else if isOneOf operandWords l then failure
  else if l.isWord "namespace" && !(← aheadSecond (Lexeme.isSymbol "\\")) then failure
  else return (.name (← qualifiedName), .value)

/-- Whether a cast comes next. -/
def aheadCast : Parse Bool := do
  return (← ahead (Lexeme.isSymbol "(")) && (← aheadSecond (isOneOf castTypes)) &&
    (← aheadThird (Lexeme.isSymbol ")"))

/-- An operand that starts with a symbol. -/
def symbolOperand (sub : Rules) (start : List Lexeme) (l : Lexeme) : Parse (Expr × Form) := do
  if ["!", "-", "+", "~"].any fun s => l.isSymbol s then
    symbol l.text
    discard (sub.expression signedLevel)
    return (← rawFrom start, .closed)
  else if ["@", "++", "--"].any fun s => l.isSymbol s then
    symbol l.text
    discard (sub.expression operandLevel)
    return (← rawFrom start, .closed)
  else if ← aheadCast then
    symbol "("
    discard anyWord
    symbol ")"
    discard (sub.expression operandLevel)
    return (← rawFrom start, .closed)
  else if ← ahead (Lexeme.isSymbol "(") then
    sub.condition
    return (← rawFrom start, .value)
  else if ← symbol? "[" then arrayTail sub start "]"
  else if l.isSymbol "#[" then
    closure sub
    return (← rawFrom start, .closed)
  else if l.isSymbol "$" then
    bounded (simpleVariable sub)
    return (← rawFrom start, .place)
  else return (.name (← qualifiedName), .value)

/-- An operand without the accesses that follow it. -/
def bareOperand (sub : Rules) (start : List Lexeme) : Parse (Expr × Form) := do
  match ← peek with
  | none => failure
  | some l =>
    let literal (e : Expr) (form : Form) : Parse (Expr × Form) := do
      discard (lexeme fun _ => true)
      return (e, form)
    match l.kind with
    | .word => wordOperand sub start l
    | .symbol => symbolOperand sub start l
    | .variable => literal (.var (Text.trimLeft '$' l.text)) .place
    | .integer => literal (integerExpr l.text) .closed
    | .float => literal (.float l.text) .closed
    | .quoted => literal (((unquote? l.text).map Expr.text).getD (.raw l.text)) .value
    | .template => literal (.raw l.text) .value
    | .page | .openTag | .comment | .interlude => failure

/-- An assignment to a target, or the target itself if nothing is assigned. -/
def assignment (sub : Rules) (start : List Lexeme) (target : Expr) : Parse Expr := do
  symbol "="
  if ← symbol? "&" then
    discard (sub.expression assignedLevel)
    rawFrom start
  else return .assign target (← sub.expression assignedLevel)

/-- What may follow a place: an assignment or a count up or down. -/
def placeTail (sub : Rules) (start : List Lexeme) (e : Expr) : Parse Expr := do
  if ← ahead (Lexeme.isSymbol "=") then assignment sub start e
  else if (← symbol? "++") || (← symbol? "--") then rawFrom start
  else if ← ahead fun l => compoundAssignments.any fun s => l.isSymbol s then
    discard (lexeme fun _ => true)
    discard (sub.expression assignedLevel)
    rawFrom start
  else return e

/-- An operand with all that binds tighter than any operator. -/
def operand (sub : Rules) (start : List Lexeme) : Parse Expr := do
  let bare ← bareOperand sub start
  let (e, form) ← bounded fun n => accesses sub start n bare
  match form with
  | .place => placeTail sub start e
  | .array =>
    if ← ahead (Lexeme.isSymbol "=") then assignment sub start (← rawFrom start) else return e
  | .pattern =>
    if ← ahead (Lexeme.isSymbol "=") then assignment sub start (← rawFrom start)
    else if ← ahead fun l => closesExpression l && !l.isSymbol ";" then rawFrom start
    else failure
  | .value | .closed => return e

/-! ## Operators between operands -/

/-- The operators of at least a level that follow an operand, with their right sides. -/
def operations (sub : Rules) (level : Nat) (start : List Lexeme) : Nat → Expr → Parse Expr
  | 0, _ => failure
  | n + 1, left => do
    match ← peek with
    | none => return left
    | some l =>
      if l.isSymbol "?" && level ≤ conditionalLevel then
        symbol "?"
        if !(← symbol? ":") then
          discard sub.anyExpression
          symbol ":"
        discard (sub.expression (conditionalLevel + 1))
        operations sub level start n (← rawFrom start)
      else
        match operator? l with
        | none => return left
        | some o =>
          if o.level < level then return left
          else
            discard (lexeme fun _ => true)
            let right ← sub.expression (if o.fromRight then o.level else o.level + 1)
            operations sub level start n (.binary left l.text right)

/-- An expression whose operators are at least of a level. -/
def expressionRule (sub : Rules) (level : Nat) : Parse Expr := do
  let start ← here
  let first ← operand sub start
  bounded fun n => operations sub level start n first

end DomainScaffold.Php.Grammar
