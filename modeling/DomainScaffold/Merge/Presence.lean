import DomainScaffold.Php.Printer

/-!
# What is there already

When a file or class counts as having something. Names of classes are compared by their last
segment and, like those of methods, without regard to case.

Results:
* `positionAfter?_le`: a place behind a member lies in the list of members.
* `isPresent_append_self`: a statement with an expression is present once it has been added.
-/

namespace DomainScaffold.Merge

open Php Text

/-! ## Names -/

/-- The last segment of a name. -/
def shortName (name : String) : String :=
  let name := trimLeft '\\' name
  ((cutLast? '\\' name).map Prod.snd).getD name

/-- Whether two names are taken for one class. -/
def sameClassName (a b : String) : Bool := sameIgnoringCase (shortName a) (shortName b)

/-! ## Imports -/

/-- Whether two imports compete for one name in a file. -/
def sameLocalName (a b : Import) : Bool :=
  a.kind == b.kind && sameIgnoringCase a.localName b.localName

/-- Whether a file has an import. -/
def hasImport (imports : List Import) (i : Import) : Bool :=
  imports.any fun j => sameLocalName j i && sameIgnoringCase j.name i.name

/-- The import of another name that takes the name of an import in a file. -/
def conflictingImport? (imports : List Import) (i : Import) : Option Import :=
  imports.find? fun j => sameLocalName j i && !sameIgnoringCase j.name i.name

/-! ## Members -/

/-- Whether a class has an interface. -/
def implements (c : ClassDecl) (name : String) : Bool :=
  c.interfaces.any fun i => sameClassName i name

/-- Whether a class uses a trait. -/
def usesTrait (c : ClassDecl) (name : String) : Bool :=
  c.traitNames.any fun t => sameClassName t name

/-- The place of an entry: the first member that has it, and where it stands in that member. -/
def placeOf? (names : Member → List String) (c : ClassDecl) (name : String) :
    Option (Nat × Nat) := do
  let i ← c.members.findIdx? fun m => (names m).contains name
  let m ← c.members[i]?
  let j ← (names m).findIdx? (· == name)
  return (i, j)

/-- The place of a constant. -/
def constantPlace? : ClassDecl → String → Option (Nat × Nat) :=
  placeOf? fun m => m.constants.map Prod.fst

/-- The place of a property. -/
def propertyPlace? : ClassDecl → String → Option (Nat × Nat) :=
  placeOf? fun m => m.properties.map Prod.fst

/-- Whether a member is a method with a name. -/
def isMethodNamed (name : String) (m : Member) : Bool :=
  m.method?.any fun d => sameIgnoringCase d.name name

/-- The place of a method. -/
def methodPlace? (c : ClassDecl) (name : String) : Option Nat :=
  c.members.findIdx? (isMethodNamed name)

/-- The place behind the last member that satisfies `p`. -/
def positionAfter? (p : Member → Bool) (ms : List Member) : Option Nat :=
  (ms.reverse.findIdx? p).map fun i => ms.length - i

theorem positionAfter?_le {p : Member → Bool} {ms : List Member} {n : Nat}
    (h : positionAfter? p ms = some n) : n ≤ ms.length := by
  obtain ⟨i, _, rfl⟩ := Option.map_eq_some_iff.1 h
  omega

/-- Whether a member is a use of traits. -/
def isTraitUse (m : Member) : Bool :=
  match m.kind with
  | .traitUse _ => true
  | _ => false

/-- Whether a member declares constants. -/
def isConstant (m : Member) : Bool :=
  match m.kind with
  | .constant _ => true
  | _ => false

/-- Whether a member declares properties. -/
def isProperty (m : Member) : Bool :=
  match m.kind with
  | .property _ => true
  | _ => false

/-! ## Statements -/

/-- What a call is known by: the name of what is called, without regard to case, and the first
    argument as it is printed. -/
def identityOf (name : String) (args : List Expr) : String × String :=
  (foldAscii name, (args.head?.map Printer.expr).getD "")

/-- What a chain of calls is known by: its innermost call. -/
def callIdentity? : Expr → Option (String × String)
  | .methodCall object method args =>
    match callIdentity? object with
    | some identity => some identity
    | none => some (identityOf method args)
  | .staticCall _ method args => some (identityOf method args)
  | .call function args => some (identityOf function args)
  | _ => none

/-- What a statement is known by if it is a chain of calls. -/
def statementIdentity? (s : Statement) : Option (String × String) :=
  match s.kind with
  | .expression e => callIdentity? e
  | _ => none

/-- The expression of a statement as it is printed. -/
def printedExpression? (s : Statement) : Option String := s.expression?.map Printer.expr

/-- Whether a body holds a statement that does the same: a chain of calls by what it is known by,
    any other expression by how it is printed. -/
def isPresent (body : List Statement) (s : Statement) : Bool :=
  match s.expression?.bind callIdentity? with
  | some identity => body.any fun t => statementIdentity? t == some identity
  | none =>
    match printedExpression? s with
    | some printed => body.any fun t => printedExpression? t == some printed
    | none => false

theorem isPresent_append_self {body : List Statement} {e : Expr} :
    isPresent (body ++ [Statement.ofExpr e]) (Statement.ofExpr e) = true := by
  unfold isPresent
  cases h : callIdentity? e <;>
    simp [Statement.ofExpr, Statement.ofKind, Statement.expression?, statementIdentity?,
      printedExpression?, h]

end DomainScaffold.Merge
