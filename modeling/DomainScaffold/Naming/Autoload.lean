import DomainScaffold.Error
import DomainScaffold.Json.Reader
import DomainScaffold.Json.Record
import DomainScaffold.Naming.Filter
import DomainScaffold.Path

/-!
# Autoload map

A PSR-4 map says which directory holds the classes of a namespace. A namespace belongs to the
longest mapped namespace that leads it, a directory to the deepest mapped directory around it.

Results:
* `insert_entries`: a namespace is mapped at most once, by its last entry.
-/

namespace DomainScaffold.Naming

/-- Namespaces, each with a separator at its end, and their directories. -/
structure Autoload where
  entries : List (String × Path)
  deriving Repr

namespace Autoload

/-! ## Building -/

/-- The map without entries. -/
def empty : Autoload := ⟨[]⟩

/-- Whether a map has no entries. -/
def isEmpty (m : Autoload) : Bool := m.entries.isEmpty

/-- A namespace with one separator at its end; the global one is empty. -/
def normalizeNamespace (namespaceName : String) : String :=
  let trimmed := Text.trimBoth '\\' namespaceName
  if trimmed.isEmpty then "" else trimmed ++ "\\"

/-- Maps a namespace, in place of an earlier entry. -/
def insert (m : Autoload) (namespaceName : String) (dir : Path) : Autoload :=
  let key := normalizeNamespace namespaceName
  ⟨m.entries.filter (fun e => e.1 != key) ++ [(key, dir.normalized)]⟩

theorem insert_entries (m : Autoload) (namespaceName : String) (dir : Path) :
    ((m.insert namespaceName dir).entries.filter fun e =>
      e.1 == normalizeNamespace namespaceName) =
      [(normalizeNamespace namespaceName, dir.normalized)] := by
  simp [insert, List.filter_append, List.filter_filter]

/-- Whether a namespace is mapped. -/
def maps (m : Autoload) (namespaceName : String) : Bool :=
  m.entries.any fun e => e.1 == normalizeNamespace namespaceName

/-! ## Looking up -/

/-- The last element of a list with the greatest measure. -/
def lastMax? {α : Type} (measure : α → Nat) (xs : List α) : Option α :=
  xs.foldl (fun best x =>
    match best with
    | none => some x
    | some b => if measure x < measure b then some b else some x) none

/-- The entry of the longest namespace that leads `namespaceName`. -/
def longest? (m : Autoload) (namespaceName : String) : Option (String × Path) :=
  let qualified := Text.trimBoth '\\' namespaceName ++ "\\"
  lastMax? (fun e => e.1.utf8ByteSize) (m.entries.filter fun e => Text.startsWith e.1 qualified)

/-- The directory that holds the classes of a namespace. -/
def namespaceDir (m : Autoload) (namespaceName : String) (toDirectory : Filter) :
    Outcome Path :=
  let name := Text.trimBoth '\\' namespaceName
  match m.longest? name with
  | none => .error (.noAutoloadEntry name)
  | some (lead, dir) =>
    let rest := Text.trimRight '\\' ((Text.afterLead? lead (name ++ "\\")).getD "")
    .ok (if rest.isEmpty then dir else dir.join ⟨toDirectory.apply rest⟩)

/-- The file of a class by its full name. -/
def classPath (m : Autoload) (fullName : String) (toDirectory : Filter) : Outcome Path := do
  let name := Text.trimBoth '\\' fullName
  let (space, short) := (Text.cutLast? '\\' name).getD ("", name)
  let dir ← m.namespaceDir space toDirectory
  return dir.join ⟨short ++ ".php"⟩

/-- The mapped directories around `dir`, each with its namespace and the path inside it. -/
def around (m : Autoload) (dir : Path) : List (String × Path × Path) :=
  m.entries.filterMap fun (lead, base) =>
    match dir.relativeTo? base with
    | none => none
    | some inner => if inner.components.contains .parent then none else some (lead, base, inner)

/-- The namespace of the classes in a directory. -/
def namespaceForDir (m : Autoload) (dir : Path) (toNamespace : Filter) : Outcome String :=
  let dir := dir.normalized
  match lastMax? (fun e => e.2.1.components.length) (m.around dir) with
  | none => .error (.noAutoloadEntry dir.slashed)
  | some (lead, _, inner) =>
    let rest := inner.slashed
    .ok (if rest.isEmpty then Text.trimRight '\\' lead else lead ++ toNamespace.apply rest)

/-! ## Package files -/

/-- The autoload entries of one section of a package file. -/
def sectionEntries? (v : Option Json) : Option (Fields Json) :=
  if Json.isAbsent v then some []
  else
    match v.bind (Json.record? ["psr-4"]) with
    | some [none] | some [some .null] => some []
    | some [some (.object fields)] => some (Fields.ofPairs fields)
    | _ => none

/-- The sections of a package file, the one for development last. -/
def sections? (source : String) : Option (List (Fields Json)) := do
  match ← Json.record? ["autoload", "autoload-dev"] (← Json.parseFields? source) with
  | [main, dev] => return [← sectionEntries? main, ← sectionEntries? dev]
  | _ => none

/-- The directory of an entry: a text, or the first text of a list. -/
def entryDir? : Json → Option String
  | .text dir => some dir
  | .list dirs => dirs.findSome? Json.text?
  | _ => none

/-- Adds an entry of a package file; the first entry of a namespace counts. -/
def addEntry (m : Autoload) (entry : String × Json) : Outcome Autoload :=
  match entryDir? entry.2 with
  | some dir => .ok (if m.maps entry.1 then m else m.insert entry.1 ⟨dir⟩)
  | none => .error (.configuration ("psr-4 entry '" ++ entry.1 ++ "' has no directory"))

/-- The map of a package file. -/
def ofPackageFile (source : String) : Outcome Autoload :=
  match sections? source with
  | none => .error (.configuration ("invalid composer.json: " ++ jsonReport))
  | some sections => sections.flatten.foldlM addEntry empty

end Autoload

end DomainScaffold.Naming
