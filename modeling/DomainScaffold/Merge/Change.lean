import DomainScaffold.Php.Tree

/-!
# Changes

What a file must contain, said without reference to the file: a class and the declarations it must
have. Every change can be made any number of times.

Results:
* `ordered_perm`: the order in which changes are made leaves none out.
-/

namespace DomainScaffold.Merge

open Php

/-- The class that changes are for, and how it is declared if it does not exist. -/
structure ClassTarget where
  name : String
  modifiers : List String
  parent : Option String
  deriving DecidableEq, Repr

/-- A final class without a parent. -/
def ClassTarget.finalClass (name : String) : ClassTarget := ⟨name, ["final"], none⟩

/-- Something that a file must contain. -/
inductive Change where
  /-- The file imports a name. -/
  | importName (i : Import)
  | interface (name : String)
  | traitUse (name : String)
  | constant (decl : ConstantDecl)
  | property (decl : PropertyDecl)
  | method (decl : MethodDecl)
  /-- Methods that exist together or not at all. -/
  | methodGroup (decls : List MethodDecl)
  /-- Statements at the end of a method. -/
  | statements (method : String) (statements : List Statement)
  /-- An entry of the array that a method returns. -/
  | mapEntry (method : String) (key value : Expr)
  deriving DecidableEq, Repr

/-- The order in which the changes of a class are made. -/
inductive Pass where
  | imports
  | interfaces
  | traits
  | constants
  | properties
  | methods
  | injections
  deriving DecidableEq, Repr

/-- The pass in which a change is made. -/
def Change.pass : Change → Pass
  | importName _ => .imports
  | interface _ => .interfaces
  | traitUse _ => .traits
  | constant _ => .constants
  | property _ => .properties
  | method _ | methodGroup _ => .methods
  | statements .. | mapEntry .. => .injections

/-- The passes behind the one in which the class is declared. -/
def Pass.inClass : List Pass :=
  [.interfaces, .traits, .constants, .properties, .methods, .injections]

/-- The changes of a pass in their order. -/
def ofPass (changes : List Change) (p : Pass) : List Change := changes.filter (·.pass == p)

/-- The changes of a class in the order in which they are made. -/
def ordered (changes : List Change) : List Change := Pass.inClass.flatMap (ofPass changes)

theorem ordered_perm (changes : List Change) :
    (ofPass changes .imports ++ ordered changes).Perm changes := by
  induction changes with
  | nil => simp [ofPass, ordered]
  | cons c cs ih =>
    rw [List.perm_iff_count] at ih ⊢
    intro d
    have h := ih d
    simp only [ordered, Pass.inClass, ofPass, List.flatMap_cons, List.flatMap_nil,
      List.count_append, List.count_nil, List.filter_cons, List.count_cons] at h ⊢
    rcases c with _ | _ | _ | _ | _ | _ | _ | _ | _ <;>
      simp [Change.pass, List.count_cons] at h ⊢ <;> omega

/-- What a class must have, and the namespace it is in. -/
structure ChangeSet where
  namespaceName : String
  target : ClassTarget
  changes : List Change
  deriving DecidableEq, Repr

end DomainScaffold.Merge
