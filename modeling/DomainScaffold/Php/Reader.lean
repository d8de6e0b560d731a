import DomainScaffold.Error
import DomainScaffold.Php.Grammar.Statements
import DomainScaffold.Php.ImportText
import DomainScaffold.Php.Lexeme.Scan

/-!
# Reading a PHP file

The tree of a file. Of a file that is no valid PHP nothing is read, and a namespace with a block is
refused, because such a file may hold classes of several namespaces.

Results:
* `ofText_blank`: a blank text is an empty file.
-/

namespace DomainScaffold.Php

namespace SourceTree

open Grammar

/-- A tree with one more item. -/
def withItem (t : SourceTree) (i : Item) : SourceTree := { t with items := t.items ++ [i] }

/-- Whether nothing but the header and directives has been read. -/
def isAtHeader (t : SourceTree) : Bool :=
  t.namespaceName.isNone && t.imports.isEmpty && t.items.isEmpty

/-- A tree with one more part of a file, or nothing for a namespace with a block. -/
def withPart? (t : SourceTree) (p : Grammar.Part Construct) : Option SourceTree :=
  match p with
  | .extra l =>
    if l.kind == .comment && t.isAtHeader then
      some { t with header := t.header ++ [p.verbatim] }
    else some (t.withItem (.other none p.verbatim))
  | .node ls c =>
    match c with
    | .declareDirective =>
      if Text.occurs "strict_types" (sourceText ls) then some { t with strictTypes := true }
      else some (t.withItem (.other none p.verbatim))
    | .namespaceDecl _ true => none
    | .namespaceDecl name false =>
      some { t with namespaceName := name.map (Text.trimLeft '\\') }
    | .importDecl => some { t with imports := t.imports ++ importsOfText (sourceText ls) }
    | .classDecl decl => some (t.withItem (.classItem decl))
    | .classLike name => some (t.withItem (.other (some name) p.verbatim))
    | .expression _ | .ret _ | .other => some (t.withItem (.other none p.verbatim))

/-- The parts of a file: text above the first opening tag, and the statements behind the tag. -/
def fileParts? (ls : List Lexeme) : Option (List (Grammar.Part Construct)) :=
  let (page, code) := ls.span (·.kind == .page)
  let code := code.dropWhile (·.kind == .openTag)
  (partsUntil Option.isNone anyStatement (code.length + 1) code).map fun (parts, _) =>
    page.map (fun l => .node [l] .other) ++ parts

/-- The tree of a file with the given path. -/
def ofText (source path : String) : Outcome SourceTree :=
  let source := Text.replaceAll "\r\n" "\n" source
  if (Text.trim source).isEmpty then .ok empty
  else
    match (lexemes? source).bind fileParts? with
    | none => .error (.invalidSyntax path)
    | some parts =>
      match parts.foldlM withPart? empty with
      | none => .error (.unsupportedFile path)
      | some t => .ok t

theorem ofText_blank {source path : String}
    (h : (Text.trim (Text.replaceAll "\r\n" "\n" source)).isEmpty = true) :
    ofText source path = .ok empty := by
  simp [ofText, h]

end SourceTree

end DomainScaffold.Php
