import DomainScaffold.Php.Expr
import DomainScaffold.Php.Verbatim
import DomainScaffold.Text.LetterCase

/-!
# PHP source trees

The part of a PHP file that is edited: imports, classes, members and statements. A node read from a
file keeps its text until it is edited; then it is written from its fields. What the tree does not
model is kept as text only.

Results:
* `classNamed?_eq_none_iff`: when no class of a tree has a name.
-/

namespace DomainScaffold.Php

/-! ## Statements -/

/-- What a statement is. -/
inductive StatementKind where
  | expression (value : Expr)
  | ret (value : Option Expr)
  /-- A comment or a statement of another form; it only exists as text. -/
  | other
  deriving DecidableEq, Repr

/-- A statement. -/
structure Statement where
  kind : StatementKind
  verbatim : Option Verbatim
  /-- A comment behind the statement on its line. -/
  trailing : Option String
  /-- Whether an empty line stands before the statement. -/
  blankBefore : Bool
  deriving DecidableEq, Repr

namespace Statement

/-- A statement that was not read from a file. -/
def ofKind (kind : StatementKind) : Statement := ⟨kind, none, none, false⟩

/-- An expression statement. -/
def ofExpr (value : Expr) : Statement := ofKind (.expression value)

/-- A return of a value. -/
def ofReturn (value : Expr) : Statement := ofKind (.ret (some value))

/-- The expression of an expression statement or return. -/
def expression? (s : Statement) : Option Expr :=
  match s.kind with
  | .expression value => some value
  | .ret value => value
  | .other => none

end Statement

/-! ## Members -/

/-- Who may use a member. -/
inductive Visibility where
  | pub
  | prot
  | priv
  deriving DecidableEq, Repr

namespace Visibility

/-- The word for a visibility. -/
def word : Visibility → String
  | pub => "public"
  | prot => "protected"
  | priv => "private"

/-- The visibility with a word, in any case. -/
def ofWord? (word : String) : Option Visibility :=
  [pub, prot, priv].find? fun v => v.word == Text.foldAscii word

end Visibility

/-- A constant declaration: each constant with its value. -/
structure ConstantDecl where
  visibility : Option Visibility
  entries : List (String × Expr)
  deriving DecidableEq, Repr

/-- A property declaration: each property, without its sign, with its default. -/
structure PropertyDecl where
  visibility : Option Visibility
  isStatic : Bool
  isReadonly : Bool
  typeHint : Option String
  entries : List (String × Option Expr)
  deriving DecidableEq, Repr

/-- A parameter; its name is kept without its sign. -/
structure Param where
  /-- Attribute groups as written. -/
  attributes : List String
  /-- The modifiers that make the parameter a property. -/
  promotion : Option String
  typeHint : Option String
  byReference : Bool
  isVariadic : Bool
  name : String
  preset : Option Expr
  deriving DecidableEq, Repr

/-- A method declaration. -/
structure MethodDecl where
  attributes : List String
  visibility : Option Visibility
  isStatic : Bool
  isAbstract : Bool
  isFinal : Bool
  byReference : Bool
  name : String
  params : List Param
  returnType : Option String
  /-- The statements, unless the method has no body. -/
  body : Option (List Statement)
  deriving DecidableEq, Repr

/-- What a member is. -/
inductive MemberKind where
  | traitUse (names : List String)
  | constant (decl : ConstantDecl)
  | property (decl : PropertyDecl)
  | method (decl : MethodDecl)
  /-- A comment on a line of its own; it only exists as text. -/
  | comment
  /-- A member of another form; it only exists as text. -/
  | other
  deriving DecidableEq, Repr

/-- A member of a class. -/
structure Member where
  kind : MemberKind
  verbatim : Option Verbatim
  /-- A comment behind the member on its line. -/
  trailing : Option String
  deriving DecidableEq, Repr

namespace Member

/-- A member that was not read from a file. -/
def ofKind (kind : MemberKind) : Member := ⟨kind, none, none⟩

/-- The member to be written from its fields. -/
def touched (m : Member) : Member := { m with verbatim := none }

/-- The method of a member. -/
def method? (m : Member) : Option MethodDecl :=
  match m.kind with
  | .method decl => some decl
  | _ => none

/-- The constants of a member. -/
def constants (m : Member) : List (String × Expr) :=
  match m.kind with
  | .constant decl => decl.entries
  | _ => []

/-- The properties of a member. -/
def properties (m : Member) : List (String × Option Expr) :=
  match m.kind with
  | .property decl => decl.entries
  | _ => []

/-- The traits of a member. -/
def traits (m : Member) : List String :=
  match m.kind with
  | .traitUse names => names
  | _ => []

end Member

/-! ## Classes -/

/-- A class. -/
structure ClassDecl where
  /-- Attribute groups as written. -/
  attributes : List String
  modifiers : List String
  name : String
  parent : Option String
  interfaces : List String
  members : List Member
  deriving DecidableEq, Repr

namespace ClassDecl

/-- A class with nothing in it. -/
def named (name : String) : ClassDecl := ⟨[], [], name, none, [], []⟩

/-- The methods in order. -/
def methods (c : ClassDecl) : List MethodDecl := c.members.filterMap Member.method?

/-- The method with a name, in any case. -/
def method? (c : ClassDecl) (name : String) : Option MethodDecl :=
  c.methods.find? fun m => Text.sameIgnoringCase m.name name

/-- The names of the constants. -/
def constantNames (c : ClassDecl) : List String :=
  c.members.flatMap fun m => m.constants.map Prod.fst

/-- The names of the properties. -/
def propertyNames (c : ClassDecl) : List String :=
  c.members.flatMap fun m => m.properties.map Prod.fst

/-- The names of the traits as written. -/
def traitNames (c : ClassDecl) : List String := c.members.flatMap Member.traits

end ClassDecl

/-! ## Imports -/

/-- What an import names. -/
inductive ImportKind where
  | classLike
  | function
  | constant
  deriving DecidableEq, Repr

/-- An import of a file. -/
structure Import where
  /-- The full name without a separator at its start. -/
  name : String
  /-- The name it gets in the file, if it is another one than its last segment. -/
  rename : Option String
  kind : ImportKind
  deriving DecidableEq, Repr

namespace Import

/-- The import of a class. -/
def ofClass (name : String) : Import := ⟨Text.trimLeft '\\' name, none, .classLike⟩

/-- The import of a class under another name. -/
def ofClassAs (name rename : String) : Import := { ofClass name with rename := some rename }

/-- The name by which the file refers to the import. -/
def localName (i : Import) : String :=
  match i.rename with
  | some rename => rename
  | none => ((Text.cutLast? '\\' i.name).map Prod.snd).getD i.name

/-- The namespace of the imported name. -/
def namespaceName (i : Import) : String := ((Text.cutLast? '\\' i.name).map Prod.fst).getD ""

end Import

/-! ## Files -/

/-- A top-level declaration or statement. -/
inductive Item where
  | classItem (decl : ClassDecl)
  /-- Any other code; `declares` is the name of the interface, trait or enumeration that it
      declares. -/
  | other (declares : Option String) (code : Verbatim)
  deriving DecidableEq, Repr

/-- A PHP file. -/
structure SourceTree where
  strictTypes : Bool
  /-- The comments above everything else. -/
  header : List Verbatim
  namespaceName : Option String
  imports : List Import
  items : List Item
  deriving DecidableEq, Repr

/-- The class of an item. -/
def Item.class? : Item → Option ClassDecl
  | .classItem decl => some decl
  | .other .. => none

/-- The name of the class-like that an item declares. -/
def Item.declares? : Item → Option String
  | .classItem decl => some decl.name
  | .other declares _ => declares

namespace SourceTree

/-- A file without content. -/
def empty : SourceTree := ⟨false, [], none, [], []⟩

/-- Whether a file declares nothing. -/
def isEmpty (t : SourceTree) : Bool :=
  t.namespaceName.isNone && t.imports.isEmpty && t.items.isEmpty && t.header.isEmpty

/-- The classes in order. -/
def classes (t : SourceTree) : List ClassDecl := t.items.filterMap Item.class?

/-- The class with a name, in any case. -/
def classNamed? (t : SourceTree) (name : String) : Option ClassDecl :=
  t.classes.find? fun c => Text.sameIgnoringCase c.name name

/-- The name of the first class, interface, trait or enumeration. -/
def declaredName? (t : SourceTree) : Option String := t.items.findSome? Item.declares?

theorem classNamed?_eq_none_iff {t : SourceTree} {name : String} :
    t.classNamed? name = none ↔
      ∀ c ∈ t.classes, Text.sameIgnoringCase c.name name = false := by
  simp [classNamed?]

end SourceTree

end DomainScaffold.Php
