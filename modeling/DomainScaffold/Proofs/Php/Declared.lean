import DomainScaffold.Proofs.Php.LineBreaks

/-!
# What a file declares

Results:
* `laterNamespace_takes_class`: of several namespaces in a file the last one takes the classes of
  all, and a directive for strict types is printed with the value 1.
-/

namespace DomainScaffold.Php

open Grammar

/-! ## Declarations -/

/-- The texts of the lexemes that are code. -/
def codeTexts (ls : List Lexeme) : List String :=
  (ls.filter fun l => !l.isExtra).map Lexeme.text

/-- A name in a namespace. -/
def inNamespace (space : String) (name : String) : String :=
  if space.isEmpty then name else space ++ "\\" ++ name

/-- The full names of the classes, interfaces, traits and enumerations that parts of a file declare
    behind a place where a namespace is in force. -/
def declaredFrom (space : String) : List (Grammar.Part Construct) → List String
  | [] => []
  | .node _ (.namespaceDecl name _) :: ps => declaredFrom (Text.trimLeft '\\' (name.getD "")) ps
  | .node _ (.classDecl decl) :: ps => inNamespace space decl.name :: declaredFrom space ps
  | .node _ (.classLike name) :: ps => inNamespace space name :: declaredFrom space ps
  | _ :: ps => declaredFrom space ps

/-- The code of a part that is a directive. -/
def directive? : Grammar.Part Construct → Option (List String)
  | .node ls .declareDirective => some (codeTexts ls)
  | _ => none

/-- What a file declares: the full names of its classes, interfaces, traits and enumerations, and
    the code of its directives. -/
structure Declared where
  names : List String
  directives : List (List String)
  deriving DecidableEq, Repr

/-- What the text of a file declares, unless it is no PHP. -/
def declared? (source : String) : Option Declared :=
  ((lexemes? source).bind SourceTree.fileParts?).map fun parts =>
    ⟨declaredFrom "" parts, parts.filterMap directive?⟩

/-! ## Namespaces and strict types -/

/-- A file with two namespaces and without strict types. -/
def withTwoNamespaces : String :=
  "<?php\ndeclare(strict_types=0);\nnamespace A;\nclass X \x7b\x7d\nnamespace B;\nclass Y \x7b\x7d\n"

/-- The last namespace of a file takes the classes of all, and the value of the directive for strict
    types becomes 1. -/
theorem laterNamespace_takes_class (path : String) :
    declared? withTwoNamespaces = some ⟨["A\\X", "B\\Y"],
      [["declare", "(", "strict_types", "=", "0", ")", ";"]]⟩ ∧
    ∃ t, SourceTree.ofText withTwoNamespaces path = .ok t ∧
      declared? (Printer.file t) = some ⟨["B\\X", "B\\Y"],
        [["declare", "(", "strict_types", "=", "1", ")", ";"]]⟩ := by
  refine ⟨by decide +kernel, ⟨true, [], some "B", [],
    [.classItem (.named "X"), .classItem (.named "Y")]⟩, ?_, by decide +kernel⟩
  exact ofText_eq_ok (by decide +kernel) (by decide +kernel) (by decide +kernel) path

end DomainScaffold.Php
