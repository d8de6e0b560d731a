import DomainScaffold.Error
import DomainScaffold.Path

/-!
# Access to files

What loading, generating and writing need of a file system. Everything that works with files is
written against this interface, so that it can run over a disk as well as over a tree in memory.

Results:
* `required_none`: a required file that does not exist is an error.
-/

namespace DomainScaffold

/-- Operations that stop at the first error. -/
abbrev FileAction (m : Type → Type) := ExceptT GenerationError m

/-- The operations on files. -/
structure FileAccess (m : Type → Type) where
  /-- The text of a file; none if nothing exists at the path. -/
  read : Path → FileAction m (Option String)
  /-- Whether a path leads to a file. -/
  isFile : Path → m Bool
  /-- Puts a text into a file, and creates the directories that it needs. -/
  write : Path → String → FileAction m Unit

namespace FileAccess

/-- The text of a file that has to exist. -/
def required (path : Path) : Option String → Outcome String
  | some text => .ok text
  | none => .error (.fileAccess path.text "file not found")

theorem required_none (path : Path) :
    required path none = .error (.fileAccess path.text "file not found") := rfl

variable {m : Type → Type} [Monad m]

/-- Reads a file that has to exist. -/
def readRequired (files : FileAccess m) (path : Path) : FileAction m String := do
  required path (← files.read path)

end FileAccess

end DomainScaffold
