import DomainScaffold.Blueprint
import DomainScaffold.Php.Build

/-!
# Artifacts

An artifact is what one element contributes to one file: changes to a class, or the whole text of a
file that is written as it is.
-/

namespace DomainScaffold

open Merge

/-- What a file is to contain. -/
inductive ArtifactContent where
  | code (set : ChangeSet)
  | verbatim (text : String)
  deriving DecidableEq, Repr

/-- A contribution to a file. -/
structure Artifact where
  /-- The name under which the file is reported. -/
  name : String
  path : Path
  content : ArtifactContent
  deriving DecidableEq, Repr

/-- The changes that a final class is to contain. -/
def ClassLocation.changeSet (l : ClassLocation) (changes : List Change) : ChangeSet :=
  ⟨l.namespaceName, .finalClass l.className, changes⟩

namespace Artifact

/-- Changes to a class. -/
def ofClass (name : String) (l : ClassLocation) (changes : List Change) : Artifact :=
  ⟨name, l.path, .code (l.changeSet changes)⟩

/-- The changes of an artifact. -/
def changeSet? (a : Artifact) : Option ChangeSet :=
  match a.content with
  | .code set => some set
  | .verbatim _ => none

@[simp] theorem changeSet?_ofClass (name : String) (l : ClassLocation) (changes : List Change) :
    (ofClass name l changes).changeSet? = some (l.changeSet changes) := rfl

end Artifact

end DomainScaffold
