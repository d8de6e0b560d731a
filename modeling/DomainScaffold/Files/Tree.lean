import DomainScaffold.Files.Access

/-!
# File trees

Directories and files in memory, with a working directory. A path is followed piece by piece; every
piece but the last has to be an existing directory, and two dots lead to the directory above.

Results:
* `found?_putFile_self`, `found?_putFile_of_ne`: what is found after a file was written.
* `read_blank`: the empty path leads nowhere.
-/

namespace DomainScaffold

/-- The names from the root to something. -/
abbrev Place := List String

/-- Directories and files by their places. The root is always a directory. -/
structure FileTree where
  dirs : List Place
  files : List (Place × String)
  /-- The directory that relative paths start from. -/
  work : Place
  deriving Repr

namespace FileTree

/-- What can be at a place. -/
inductive Entry where
  | dir
  | file (text : String)
  deriving DecidableEq, Repr

/-- Why a path leads nowhere. -/
inductive Failure where
  | missing
  | notDirectory
  | isDirectory
  | invalidName
  deriving DecidableEq, Repr

/-- The text of a failure. -/
def Failure.reason : Failure → String
  | missing => "No such file or directory"
  | notDirectory => "Not a directory"
  | isDirectory => "Is a directory"
  | invalidName => "Invalid name"

/-- A tree with a working directory that is empty. -/
def atPlace (work : Place) : FileTree :=
  ⟨(List.range work.length).map fun n => work.take (n + 1), [], work⟩

/-- What is at a place. -/
def found? (t : FileTree) (place : Place) : Option Entry :=
  match t.files.find? fun f => f.1 == place with
  | some f => some (.file f.2)
  | none => if place.isEmpty || t.dirs.contains place then some .dir else none

/-! ## Following paths -/

/-- The length of the longest name in bytes. -/
def maxName : Nat := 255

/-- The place that a piece of a path leads to from a directory. -/
def follow (place : Place) (piece : String) : Except Failure Place :=
  if piece = "" || piece = "." then .ok place
  else if piece = ".." then .ok place.dropLast
  else if piece.utf8ByteSize > maxName then .error .invalidName
  else .ok (place ++ [piece])

/-- The place that the pieces of a path lead to from a place. -/
def walk (t : FileTree) : Place → List String → Except Failure Place
  | place, [] => .ok place
  | place, piece :: pieces =>
    match t.found? place with
    | none => .error .missing
    | some (.file _) => .error .notDirectory
    | some .dir =>
      match follow place piece with
      | .error e => .error e
      | .ok next => walk t next pieces

/-- The place that a path starts from. -/
def start (t : FileTree) (path : Path) : Place := if path.isAbsolute then [] else t.work

/-- The place of a path. -/
def locate (t : FileTree) (path : Path) : Except Failure Place :=
  if path.text.isEmpty then .error .missing
  else if path.text.toList.contains '\x00' then .error .invalidName
  else t.walk (t.start path) (Text.splitOn '/' path.text)

/-- The text at a path; none if nothing is there. -/
def readText (t : FileTree) (path : Path) : Except Failure (Option String) :=
  match t.locate path with
  | .error .missing => .ok none
  | .error e => .error e
  | .ok place =>
    match t.found? place with
    | none => .ok none
    | some .dir => .error .isDirectory
    | some (.file text) => .ok (some text)

theorem read_blank (t : FileTree) : t.readText ⟨""⟩ = .ok none := rfl

/-- Whether there is a file at a path. -/
def isFile (t : FileTree) (path : Path) : Bool :=
  match t.readText path with
  | .ok (some _) => true
  | _ => false

/-! ## Changing a tree -/

/-- The tree with a file at a place. -/
def putFile (t : FileTree) (place : Place) (text : String) : FileTree :=
  { t with files := (place, text) :: t.files.filter fun f => f.1 != place }

theorem found?_putFile_self (t : FileTree) (place : Place) (text : String) :
    (t.putFile place text).found? place = some (.file text) := by
  simp [found?, putFile]

theorem found?_putFile_of_ne (t : FileTree) {place other : Place} (h : other ≠ place)
    (text : String) : (t.putFile place text).found? other = t.found? other := by
  have hp : (place == other) = false := by simpa using fun e => h e.symm
  have hf : (t.putFile place text).files.find? (fun f => f.1 == other) =
      t.files.find? fun f => f.1 == other := by
    simp only [putFile, List.find?_cons, hp]
    induction t.files with
    | nil => rfl
    | cons f files ih =>
      by_cases hq : f.1 = place
      · have ho : (f.1 == other) = false := by simpa [hq] using fun e => h e.symm
        simp [hq, ih, hp]
      · simp [hq, List.find?_cons, ih]
  simp only [found?, hf]
  rfl

/-- The place that the pieces of a path lead to, with the directories on the way created. -/
def makeDirs : FileTree → Place → List String → FileTree × Except Failure Place
  | t, place, [] => (t, .ok place)
  | t, place, piece :: pieces =>
    match follow place piece with
    | .error e => (t, .error e)
    | .ok next =>
      match t.found? next with
      | some .dir => makeDirs t next pieces
      | some (.file _) => (t, .error .notDirectory)
      | none => makeDirs { t with dirs := next :: t.dirs } next pieces

/-- The tree with the directories of a path. -/
def withDirs (t : FileTree) (path : Path) : FileTree × Except Failure Unit :=
  if path.text.isEmpty then (t, .ok ())
  else if path.text.toList.contains '\x00' then (t, .error .invalidName)
  else
    let (t, place) := t.makeDirs (t.start path) (Text.splitOn '/' path.text)
    (t, place.map fun _ => ())

/-- The tree with a text at a path whose directories exist. -/
def withText (t : FileTree) (path : Path) (text : String) : Except Failure FileTree :=
  match t.locate path with
  | .error e => .error e
  | .ok place =>
    match t.found? place with
    | some .dir => .error .isDirectory
    | _ => .ok (t.putFile place text)

/-! ## Access -/

/-- The error of a failure at a path. -/
def failure (path : Path) (f : Failure) : GenerationError := .fileAccess path.text f.reason

/-- The tree after a text was written, and whether that failed. -/
def write (t : FileTree) (path : Path) (text : String) : Outcome Unit × FileTree :=
  let (made, dirs) := t.withDirs path.parent
  match dirs with
  | .error e => (.error (failure path.parent e), made)
  | .ok () =>
    match made.withText path text with
    | .error e => (.error (failure path e), made)
    | .ok done => (.ok (), done)

/-- Access to a tree that is kept as a state. -/
def access : FileAccess (StateM FileTree) where
  read path := fun t => ((t.readText path).mapError (failure path), t)
  isFile path := fun t => (t.isFile path, t)
  write path text := fun t => t.write path text

/-! ## Contents -/

/-- What follows the names of a directory in a place inside it. -/
def inside? : (dir place : Place) → Option Place
  | [], place => some place
  | d :: dir, p :: place => if d = p then inside? dir place else none
  | _ :: _, [] => none

/-- The files below a directory, by their paths from it, in the order of their paths. -/
def filesBelow (t : FileTree) (dir : Place) : List (String × String) :=
  (t.files.filterMap fun f =>
    (inside? dir f.1).map fun names => (String.intercalate "/" names, f.2)).mergeSort
      fun f g => f.1 ≤ g.1

end FileTree

end DomainScaffold
