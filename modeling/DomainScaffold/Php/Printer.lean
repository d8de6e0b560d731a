import DomainScaffold.Decimal.Integer
import DomainScaffold.Php.Quoted
import DomainScaffold.Php.Tree

/-!
# Printing PHP

A tree is written with one empty line between the sections of a file and between members, except in
runs of constants, properties or trait uses and behind a comment. Nodes with a text of their own
are written from it, all others from their fields.

Results:
* `member_verbatim`: a member with text is written from it.
-/

namespace DomainScaffold.Php.Printer

open Text Verbatim

/-! ## Leaves -/

/-- Texts between commas. -/
def commas (parts : List String) : String := String.intercalate ", " parts

/-- A text in front of which, if it is present, nothing is written otherwise. -/
def optionally (f : String → String) : Option String → String
  | none => ""
  | some s => f s

/-! ## Expressions -/

/-- The number of method calls at the end of an expression. -/
def chainLength : Expr → Nat
  | .methodCall object _ _ => chainLength object + 1
  | _ => 0

mutual

/-- An expression at a depth. A chain of three or more method calls is broken, with one call per
    line behind the first; `broken` says that the expression starts such a chain. -/
def exprAt (level : Nat) (broken : Bool) : Expr → String
  | .var name => "$" ++ name
  | .name text => text
  | .classConst className name => className ++ "::" ++ name
  | .text value => quote value
  | .int value => Decimal.integer value
  | .float text => text
  | .bool value => if value then "true" else "false"
  | .null => "null"
  | .array items =>
    if items.isEmpty then "[]"
    else if items.all fun item => item.1.isNone then
      "[" ++ commas (valuesAt level items) ++ "]"
    else "[\n" ++ entriesAt (level + 1) items ++ indent level ++ "]"
  | .call function args => function ++ "(" ++ commas (argsAt level args) ++ ")"
  | .methodCall object method args =>
    let long := broken || 2 ≤ chainLength object
    let link := "->" ++ method ++ "("
    if long && 0 < chainLength object then
      exprAt level long object ++ "\n" ++ indent (level + 1) ++ link ++
        commas (argsAt (level + 1) args) ++ ")"
    else exprAt level long object ++ link ++ commas (argsAt level args) ++ ")"
  | .staticCall className method args =>
    className ++ "::" ++ method ++ "(" ++ commas (argsAt level args) ++ ")"
  | .property object name => exprAt level false object ++ "->" ++ name
  | .new className args => "new " ++ className ++ "(" ++ commas (argsAt level args) ++ ")"
  | .clone value => "clone " ++ exprAt level false value
  | .yield none => "yield"
  | .yield (some value) => "yield " ++ exprAt level false value
  | .assign target value => exprAt level false target ++ " = " ++ exprAt level false value
  | .binary left op right =>
    exprAt level false left ++ " " ++ op ++ " " ++ exprAt level false right
  | .raw text => text

/-- Arguments at a depth. -/
def argsAt (level : Nat) : List Expr → List String
  | [] => []
  | arg :: args => exprAt level false arg :: argsAt level args

/-- The values of array items at a depth. -/
def valuesAt (level : Nat) : List (Option Expr × Expr) → List String
  | [] => []
  | (_, value) :: items => exprAt level false value :: valuesAt level items

/-- Array items at a depth, each on a line of its own. -/
def entriesAt (level : Nat) : List (Option Expr × Expr) → String
  | [] => ""
  | (none, value) :: items =>
    indent level ++ exprAt level false value ++ ",\n" ++ entriesAt level items
  | (some key, value) :: items =>
    indent level ++ exprAt level false key ++ " => " ++ exprAt level false value ++ ",\n" ++
      entriesAt level items

end

/-- An expression at a depth. -/
def exprText (level : Nat) (e : Expr) : String := exprAt level false e

/-- An expression at the start of a line without indent. -/
def expr (e : Expr) : String := exprText 0 e

/-! ## Statements -/

/-- A comment behind a node. -/
def trailingText (trailing : Option String) : String := optionally (" " ++ ·) trailing

/-- A statement from its fields. -/
def statementFields (level : Nat) : StatementKind → String
  | .expression value => indent level ++ exprText level value ++ ";"
  | .ret (some value) => indent level ++ "return " ++ exprText level value ++ ";"
  | .ret none => indent level ++ "return;"
  | .other => ""

/-- A statement at a depth. -/
def statement (level : Nat) (s : Statement) : String :=
  (match s.verbatim with
    | some v => v.write level
    | none => statementFields level s.kind) ++ trailingText s.trailing

/-- A statement with its line break, and the empty line before it. -/
def statementLine (level : Nat) (s : Statement) : String :=
  (if s.blankBefore then "\n" else "") ++ statement level s ++ "\n"

/-! ## Members -/

/-- A word with a space behind it. -/
def spaced (word : String) : String := word ++ " "

/-- A word that is only written if the flag is set. -/
def flagged (flag : Bool) (word : String) : String := if flag then word else ""

/-- A visibility with a space behind it. -/
def visibilityText (v : Option Visibility) : String := optionally spaced (v.map Visibility.word)

/-- A constant declaration. -/
def constantDecl (level : Nat) (d : ConstantDecl) : String :=
  visibilityText d.visibility ++ "const " ++
    commas (d.entries.map fun e => e.1 ++ " = " ++ exprText level e.2) ++ ";"

/-- The words in front of the properties of a declaration. -/
def propertyWords (d : PropertyDecl) : List String :=
  (match d.visibility with
    | some v => [v.word]
    | none => if !d.isStatic && !d.isReadonly then ["var"] else []) ++
  (if d.isStatic then ["static"] else []) ++ (if d.isReadonly then ["readonly"] else []) ++
  d.typeHint.toList

/-- A property with its default. -/
def propertyEntry (level : Nat) (e : String × Option Expr) : String :=
  "$" ++ e.1 ++ optionally (" = " ++ ·) (e.2.map (exprText level))

/-- A property declaration. -/
def propertyDecl (level : Nat) (d : PropertyDecl) : String :=
  String.intercalate " " (propertyWords d) ++ " " ++
    commas (d.entries.map (propertyEntry level)) ++ ";"

/-- A parameter. -/
def param (level : Nat) (p : Param) : String :=
  String.join (p.attributes.map spaced) ++ optionally spaced p.promotion ++
    optionally spaced p.typeHint ++ flagged p.byReference "&" ++ flagged p.isVariadic "..." ++
    "$" ++ p.name ++ optionally (" = " ++ ·) (p.preset.map (exprText level))

/-- The head of a method: modifiers, name, parameters and return type. -/
def methodHead (level : Nat) (m : MethodDecl) : String :=
  flagged m.isFinal "final " ++ flagged m.isAbstract "abstract " ++
    visibilityText m.visibility ++ flagged m.isStatic "static " ++ "function " ++
    flagged m.byReference "&" ++ m.name ++ "(" ++ commas (m.params.map (param level)) ++ ")" ++
    optionally (": " ++ ·) m.returnType

/-- A method declaration. -/
def methodDecl (level : Nat) (m : MethodDecl) : String :=
  String.join (m.attributes.map fun a => indent level ++ a ++ "\n") ++ indent level ++
    methodHead level m ++
    match m.body with
    | none => ";"
    | some body =>
      "\n" ++ indent level ++ "\x7b\n" ++ String.join (body.map (statementLine (level + 1))) ++
        indent level ++ "\x7d"

/-- A member from its fields. -/
def memberFields (level : Nat) : MemberKind → String
  | .traitUse names => indent level ++ "use " ++ commas names ++ ";"
  | .constant d => indent level ++ constantDecl level d
  | .property d => indent level ++ propertyDecl level d
  | .method m => methodDecl level m
  | .comment | .other => ""

/-- A member at a depth. -/
def member (level : Nat) (m : Member) : String :=
  (match m.verbatim with
    | some v => v.write level
    | none => memberFields level m.kind) ++ trailingText m.trailing

theorem member_verbatim {m : Member} {v : Verbatim} (h : m.verbatim = some v) (level : Nat) :
    member level m = v.write level ++ trailingText m.trailing := by
  simp [member, h]

/-! ## Classes -/

/-- Whether an empty line stands between two members. -/
def separated : MemberKind → MemberKind → Bool
  | .comment, _ => false
  | .constant _, .constant _ => false
  | .property _, .property _ => false
  | .traitUse _, .traitUse _ => false
  | _, _ => true

/-- Members behind a member of kind `before`. -/
def membersAfter (before : MemberKind) : List Member → String
  | [] => ""
  | m :: ms =>
    (if separated before m.kind then "\n" else "") ++ member 1 m ++ "\n" ++
      membersAfter m.kind ms

/-- The members of a class. -/
def members : List Member → String
  | [] => ""
  | m :: ms => member 1 m ++ "\n" ++ membersAfter m.kind ms

/-- The head of a class on its line. -/
def classHead (c : ClassDecl) : String :=
  String.join (c.modifiers.map spaced) ++ "class " ++ c.name ++
    optionally (" extends " ++ ·) c.parent ++
    if c.interfaces.isEmpty then "" else " implements " ++ commas c.interfaces

/-- A class. -/
def classDecl (c : ClassDecl) : String :=
  String.join (c.attributes.map (· ++ "\n")) ++ classHead c ++ "\n\x7b\n" ++
    members c.members ++ "\x7d"

/-! ## Files -/

/-- An import. -/
def importLine (i : Import) : String :=
  "use " ++
    (match i.kind with
      | .classLike => ""
      | .function => "function "
      | .constant => "const ") ++
    i.name ++ optionally (" as " ++ ·) i.rename ++ ";"

/-- Whether a text is a comment and no attribute. -/
def isComment (text : String) : Bool :=
  startsWith "//" text || startsWith "/*" text || (startsWith "#" text && !startsWith "#[" text)

/-- The sections above the items of a file. -/
def sections (t : SourceTree) : List String :=
  (if t.header.isEmpty then [] else [unlines (t.header.map (Verbatim.write 0))]) ++
  (if t.strictTypes then ["declare(strict_types=1);"] else []) ++
  (t.namespaceName.map fun n => "namespace " ++ n ++ ";").toList ++
  (if t.imports.isEmpty then [] else [unlines (t.imports.map importLine)])

/-- An item. -/
def item : Item → String
  | .classItem decl => classDecl decl
  | .other _ code => code.write 0

/-- Whether an item is a comment, which stands right above what follows. -/
def isCommentItem : Item → Bool
  | .classItem _ => false
  | .other _ code => isComment code.text

/-- Items, the first of them behind a comment or not. -/
def itemsFrom (behindComment : Bool) : List Item → String
  | [] => ""
  | i :: is =>
    (if behindComment then "" else "\n") ++ item i ++ "\n" ++ itemsFrom (isCommentItem i) is

/-- A file. -/
def file (t : SourceTree) : String :=
  let head := sections t
  "<?php\n" ++
    (if head.isEmpty then "" else "\n" ++ String.intercalate "\n\n" head ++ "\n") ++
    itemsFrom false t.items

end DomainScaffold.Php.Printer
