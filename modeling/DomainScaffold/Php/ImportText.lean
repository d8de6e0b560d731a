import DomainScaffold.Php.Tree
import DomainScaffold.Text.Blank
import DomainScaffold.Text.Split

/-!
# Imports from their text

A declaration with several names, or with a group of names behind a common start, gives one import
for each name. A name with anything but a new name behind it is left out.

Results:
* `mem_importsOfText_kind`: all imports of a declaration are of one kind.
-/

namespace DomainScaffold.Php

open Text

/-- What a declaration imports, and the rest of it. -/
def importKindOf (body : String) : ImportKind × String :=
  match afterLead? "function " body with
  | some rest => (.function, trim rest)
  | none =>
    match afterLead? "const " body with
    | some rest => (.constant, trim rest)
    | none => (.classLike, body)

/-- The common start of the names of a group and the text inside its braces. -/
def importGroup? (body : String) : Option (String × String) := do
  let (start, rest) ← cutFirst? '\x7b' body
  let (inside, _) ← cutLast? '\x7d' rest
  return (trimBoth '\\' (trim start) ++ "\\", inside)

/-- The import that a part between commas stands for. -/
def importOfClause? (kind : ImportKind) (start clause : String) : Option Import :=
  let named (name : String) (rename : Option String) : Import :=
    ⟨start ++ trimLeft '\\' name, rename, kind⟩
  match words clause with
  | [name] => some (named name none)
  | [name, link, rename] =>
    if sameIgnoringCase link "as" then some (named name (some rename)) else none
  | _ => none

/-- The imports that a declaration stands for. -/
def importsOfText (declaration : String) : List Import :=
  let clean := trimRight ';' (trim declaration)
  let (kind, body) := importKindOf (trim ((afterLead? "use" clean).getD clean))
  let (start, clauses) := (importGroup? body).getD ("", body)
  (splitOn ',' clauses).filterMap (importOfClause? kind start)

theorem mem_importsOfText_kind {declaration : String} {i j : Import}
    (hi : i ∈ importsOfText declaration) (hj : j ∈ importsOfText declaration) :
    i.kind = j.kind := by
  have kindOf : ∀ {kind : ImportKind} {start clause : String} {k : Import},
      importOfClause? kind start clause = some k → k.kind = kind := by
    intro kind start clause k h
    unfold importOfClause? at h
    split at h
    · cases h; rfl
    · split at h
      · cases h; rfl
      · cases h
    · cases h
  obtain ⟨_, _, h⟩ := List.mem_filterMap.1 hi
  obtain ⟨_, _, h'⟩ := List.mem_filterMap.1 hj
  rw [kindOf h, kindOf h']

end DomainScaffold.Php
