import DomainScaffold.Command.Run

/-!
# The command

Runs the command over the files on disk.
-/

namespace DomainScaffold.Disk

/-- The error of an operation on a path. -/
def failure (path : Path) (e : IO.Error) : GenerationError := .fileAccess path.text (toString e)

/-- The text of a file; none if nothing exists at the path. -/
def read (path : Path) : FileAction IO (Option String) := ExceptT.mk do
  try
    let text ← IO.FS.readFile path.text
    return .ok (some text)
  catch
    | .noFileOrDirectory .. => return .ok none
    | e => return .error (failure path e)

/-- Whether a path leads to a file. -/
def isFile (path : Path) : IO Bool := do
  try
    let _ ← IO.FS.readBinFile path.text
    return true
  catch _ => return false

/-- Puts a text into a file, and creates the directories that it needs. -/
def write (path : Path) (text : String) : FileAction IO Unit := ExceptT.mk do
  let dir := path.parent
  try
    if !dir.text.isEmpty then IO.FS.createDirAll dir.text
    IO.FS.writeFile path.text text
    return .ok ()
  catch e => return .error (failure path e)

/-- Access to the files on disk. -/
def access : FileAccess IO := ⟨read, isFile, write⟩

end DomainScaffold.Disk

open DomainScaffold in
/-- Runs the command with the given arguments. -/
def main (args : List String) : IO UInt32 := do
  let response ← Command.run Disk.access args
  IO.print (Command.printed response.output)
  IO.eprint (Command.printed response.errors)
  return UInt32.ofNat response.code
