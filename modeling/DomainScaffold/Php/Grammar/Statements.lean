import DomainScaffold.Php.Grammar.Expressions

/-!
# Statements

Statements of every form. Of most only their extent matters; expression statements, returns and
declarations are kept in parts.

Results:
* `closesBranch_iff`: the words at which a branch without braces ends.
-/

namespace DomainScaffold.Php.Grammar

/-! ## Bodies -/

/-- Statements up to one of the given words. -/
def statementsUntil (sub : Rules) (words : List String) : Parse Unit := do
  discard (bounded (manyUntil (isOneOf words) sub.statement))

/-- A statement, or statements between a colon and a closing word. -/
def body (sub : Rules) (closing : String) : Parse Unit := do
  if ← symbol? ":" then
    statementsUntil sub [closing]
    word closing
    statementEnd
  else discard sub.statement

/-! ## Branches -/

/-- The words at which a branch between colons ends. -/
def branchWords : List String := ["elseif", "else", "endif"]

theorem closesBranch_iff {l : Lexeme} :
    isOneOf branchWords l = true ↔
      l.isWord "elseif" = true ∨ l.isWord "else" = true ∨ l.isWord "endif" = true := by
  simp [isOneOf, branchWords]

/-- The further branches between colons behind the first. -/
def colonBranches (sub : Rules) : Nat → Parse Unit
  | 0 => failure
  | n + 1 => do
    if ← word? "elseif" then
      sub.condition
      symbol ":"
      statementsUntil sub branchWords
      colonBranches sub n
    else
      if ← word? "else" then
        symbol ":"
        statementsUntil sub ["endif"]
      word "endif"
      statementEnd

/-- The further branches that are statements. -/
def statementBranches (sub : Rules) : Nat → Parse Unit
  | 0 => failure
  | n + 1 => do
    if ← word? "elseif" then
      sub.condition
      discard sub.statement
      statementBranches sub n
    else if ← word? "else" then discard sub.statement

/-- What follows `if`. -/
def ifTail (sub : Rules) : Parse Unit := do
  sub.condition
  if ← symbol? ":" then
    statementsUntil sub branchWords
    bounded (colonBranches sub)
  else
    discard sub.statement
    bounded (statementBranches sub)

/-- One case of a `switch`. -/
def switchCase (sub : Rules) (closing : Lexeme → Bool) : Parse Unit := do
  if ← word? "case" then discard sub.anyExpression else word "default"
  if !(← symbol? ":") then symbol ";"
  discard (bounded (manyUntil (fun l => isOneOf ["case", "default"] l || closing l) sub.statement))

/-- What follows `switch`. -/
def switchTail (sub : Rules) : Parse Unit := do
  sub.condition
  if ← symbol? ":" then
    let closing := Lexeme.isWord "endswitch"
    discard (bounded (manyUntil closing (switchCase sub closing)))
    word "endswitch"
    statementEnd
  else
    symbol "\x7b"
    let closing := Lexeme.isSymbol "\x7d"
    discard (bounded (manyUntil closing (switchCase sub closing)))
    symbol "\x7d"

/-! ## Loops -/

/-- What follows `while`. -/
def whileTail (sub : Rules) : Parse Unit := do
  sub.condition
  body sub "endwhile"

/-- What follows `do`. -/
def doTail (sub : Rules) : Parse Unit := do
  discard sub.statement
  word "while"
  sub.condition
  statementEnd

/-- Expressions up to a symbol. -/
def expressionsUntil (sub : Rules) (close : String) : Parse Unit := do
  discard (bounded (commasUntil close sub.anyExpression))

/-- What follows `for`. -/
def forTail (sub : Rules) : Parse Unit := do
  symbol "("
  expressionsUntil sub ";"
  expressionsUntil sub ";"
  expressionsUntil sub ")"
  body sub "endfor"

/-- A variable or pattern that takes the values of a loop. -/
def loopTarget (sub : Rules) : Parse Unit := do
  discard (symbol? "&")
  discard sub.anyExpression

/-- What follows `foreach`. -/
def foreachTail (sub : Rules) : Parse Unit := do
  symbol "("
  discard sub.anyExpression
  word "as"
  loopTarget sub
  if ← symbol? "=>" then loopTarget sub
  symbol ")"
  body sub "endforeach"

/-! ## Errors -/

/-- A handler of thrown objects. -/
def catchClause (sub : Rules) : Parse Unit := do
  word "catch"
  symbol "("
  discard typeText
  discard (lexeme (·.kind == .variable)) <|> pure ()
  symbol ")"
  discard (block sub)

/-- What follows `try`: at least one handler or closing block. -/
def tryTail (sub : Rules) : Parse Unit := do
  discard (block sub)
  let clauses ← bounded (manyWhile (Lexeme.isWord "catch") (catchClause sub))
  if ← word? "finally" then discard (block sub)
  else if clauses.isEmpty then failure

/-! ## Simple statements -/

/-- A variable with its first value. -/
def staticVariable (sub : Rules) : Parse Unit := do
  discard (lexeme (·.kind == .variable))
  if ← symbol? "=" then discard sub.anyExpression

/-- What follows `return`. A comment right behind the word stands in for the value. -/
def returnTail (sub : Rules) : Parse Construct := do
  let comments ← extras
  if ← atStatementEnd then
    statementEnd
    return .ret (comments.head?.map fun l => .raw l.text)
  else
    let value ← sub.anyExpression
    statementEnd
    return .ret (some (firstOf comments value))

/-- An expression statement. -/
def expressionStatement (sub : Rules) : Parse Construct := do
  let value ← sub.anyExpression
  statementEnd
  return .expression value

/-- An optional level behind `break` or `continue`. -/
def jumpTail (sub : Rules) : Parse Unit := do
  if !(← atStatementEnd) then discard sub.anyExpression
  statementEnd

/-- What follows `exit`. -/
def exitTail (sub : Rules) : Parse Unit := do
  if ← symbol? "(" then expressionsUntil sub ")"
  statementEnd

/-- What follows `declare`. -/
def declareTail (sub : Rules) : Parse Unit := do
  symbol "("
  discard anyWord
  symbol "="
  discard (sub.expression operandLevel)
  symbol ")"
  body sub "enddeclare"

/-! ## Declarations -/

/-- A function declaration. -/
def functionDecl (sub : Rules) : Parse Unit := do
  word "function"
  discard (symbol? "&")
  discard anyWord
  discard (params sub)
  discard returnType?
  discard (block sub)

/-- Whether a function with a name comes next. -/
def aheadFunction : Parse Bool := do
  return (← ahead (Lexeme.isWord "function")) &&
    ((← aheadSecond (·.kind == .word)) ||
      ((← aheadSecond (Lexeme.isSymbol "&")) && (← aheadThird (·.kind == .word))))

/-- Whether a class comes next: its modifiers are followed by its keyword. -/
def aheadClass : Parse Bool := fun ls =>
  some (((modifiers classModifiers *> ahead (Lexeme.isWord "class")) ls).any (·.1), ls)

/-- An interface, trait or enumeration behind its attributes. -/
def classLike (sub : Rules) : Parse Construct := do
  discard (lexeme (isOneOf ["interface", "trait", "enum"]))
  let name ← anyWord
  discard returnType?
  discard (classTail sub)
  return .classLike name

/-- Whether an interface, trait or enumeration comes next. -/
def aheadClassLike : Parse Bool := do
  return (← ahead (isOneOf ["interface", "trait", "enum"])) && (← aheadSecond (·.kind == .word))

/-- A declaration that attributes may stand in front of. -/
def declaration (sub : Rules) : Parse Construct := do
  let attributes ← attributes sub
  if ← aheadClass then return .classDecl (← classDecl sub attributes)
  else if ← aheadClassLike then classLike sub
  else if ← aheadFunction then
    functionDecl sub
    return .other
  else failure

/-- A namespace. -/
def namespaceDecl (sub : Rules) : Parse Construct := do
  word "namespace"
  if ← ahead (Lexeme.isSymbol "\x7b") then
    discard (block sub)
    return .namespaceDecl none true
  else
    let name ← qualifiedName
    if ← ahead (Lexeme.isSymbol "\x7b") then
      discard (block sub)
      return .namespaceDecl (some name) true
    else
      statementEnd
      return .namespaceDecl (some name) false

/-- A name in a list of imports, with the name it gets. -/
def importClause : Parse Unit := do
  if (← ahead (isOneOf ["function", "const"])) && (← aheadSecond startsName) &&
      !(← aheadSecond (fun l => l.isWord "as" || l.isSymbol "\\")) then discard anyWord
  discard qualifiedName
  if ← word? "as" then discard anyWord

/-- Imports. -/
def importDecl : Parse Construct := do
  word "use"
  discard (commas do
    importClause
    if ← symbol? "\\" then
      symbol "\x7b"
      discard (bounded (commasUntil "\x7d" importClause)))
  statementEnd
  return .importDecl

/-! ## All statements -/

/-- What follows the first word of a statement, for the words that only start one form. -/
def wordStatement? (sub : Rules) (l : Lexeme) : Option (Parse Unit) :=
  [("if", ifTail sub), ("switch", switchTail sub), ("while", whileTail sub), ("do", doTail sub),
   ("for", forTail sub), ("foreach", foreachTail sub), ("try", tryTail sub),
   ("declare", declareTail sub), ("break", jumpTail sub), ("continue", jumpTail sub),
   ("echo", do discard (commas sub.anyExpression); statementEnd),
   ("goto", do discard anyWord; statementEnd),
   ("global", do discard (commas (bounded (simpleVariable sub))); statementEnd),
   ("unset", do discard (inBrackets sub.anyExpression); statementEnd)].lookup
    (Text.foldAscii l.text)

/-- A statement that starts with a word. -/
def startingWithWord (sub : Rules) (l : Lexeme) : Parse Construct := do
  if ← aheadSecond (Lexeme.isSymbol ":") then
    discard anyWord
    symbol ":"
    return .other
  else if let some tail := wordStatement? sub l then
    discard anyWord
    tail
    return if l.isWord "declare" then .declareDirective else .other
  else if ← word? "return" then returnTail sub
  else if l.isWord "use" then importDecl
  else if l.isWord "namespace" then
    namespaceDecl sub <|> do
      if ← aheadSecond (Lexeme.isSymbol "\\") then expressionStatement sub else failure
  else if l.isWord "const" then
    discard (constantEntries sub)
    return .other
  else if l.isWord "static" && (← aheadSecond (·.kind == .variable)) then
    discard anyWord
    discard (commas (staticVariable sub))
    statementEnd
    return .other
  else if l.isWord "exit" then
    (do
      discard anyWord
      exitTail sub
      return .other) <|> expressionStatement sub
  else if (← aheadClass) || (← aheadClassLike) || (← aheadFunction) then declaration sub
  else if isOneOf ["abstract", "final", "readonly", "interface", "trait", "enum"] l then failure
  else expressionStatement sub

/-- A statement. -/
def statementRule (sub : Rules) : Parse Construct := do
  match ← peek with
  | none => failure
  | some l =>
    if l.kind == .word then startingWithWord sub l
    else if l.isSymbol "\x7b" then
      discard (block sub)
      return .other
    else if l.isSymbol ";" then
      symbol ";"
      return .other
    else if l.isSymbol "#[" then declaration sub <|> expressionStatement sub
    else expressionStatement sub

/-! ## The recursive rules -/

mutual

/-- Expressions that hold at most `depth` others inside each other. -/
def expressionAt : Nat → Nat → Parse Expr
  | 0, _ => failure
  | depth + 1, level => expressionRule ⟨expressionAt depth, statementAt depth⟩ level

/-- Statements that hold at most `depth` others inside each other. -/
def statementAt : Nat → Parse Construct
  | 0 => failure
  | depth + 1 => statementRule ⟨expressionAt depth, statementAt depth⟩

end

/-- A statement of a file. Every nested rule follows a lexeme of its own or is the expression of a
    statement, so twice the number of lexemes bounds the depth. -/
def anyStatement : Parse Construct := fun ls => statementAt (2 * ls.length + 2) ls

end DomainScaffold.Php.Grammar
