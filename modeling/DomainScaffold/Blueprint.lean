import DomainScaffold.Graph.Basic
import DomainScaffold.Settings

/-!
# Blueprints

A blueprint is a domain graph with the settings of a project. It says which class belongs to an
element: its name, its namespace and its file.

Results:
* `locate_className`, `locate_path`: a class is located in the file that its element is given.
* `locate_eq_ok_iff`: when a class is located, and where.
-/

namespace DomainScaffold

open Naming

/-- Where a class is: its namespace, its short name and its file. -/
structure ClassLocation where
  namespaceName : String
  className : String
  path : Path
  deriving DecidableEq, Repr

namespace ClassLocation

/-- The name of the class with its namespace. -/
def fullName (l : ClassLocation) : String :=
  if l.namespaceName.isEmpty then l.className else l.namespaceName ++ "\\" ++ l.className

/-- The place of a class next to another one. -/
def sibling (l : ClassLocation) (className : String) : ClassLocation :=
  ⟨l.namespaceName, className, l.path.parent.join ⟨className ++ ".php"⟩⟩

end ClassLocation

/-- A domain graph and the settings of the project that it is generated into. -/
structure Blueprint where
  settings : Settings
  graph : DomainGraph

namespace Blueprint

variable (b : Blueprint)

/-! ## Names -/

/-- The strategies for names. -/
def naming : Strategies := b.settings.naming

/-- The layout of the project. -/
def layout : Layout := b.settings.layout

/-- The class name of an element. -/
def className (e : Element) : String := b.naming.name .className e.name

/-- The name of the constant for an element. -/
def constantName (e : Element) : String := b.naming.name .constantName e.name

/-- The name under which an element is registered. -/
def constantValue (e : Element) : String := b.naming.name .constantValue e.name

/-- The name of a parameter that holds an element. -/
def parameterName (e : Element) : String := b.naming.name .parameterName e.name

/-- The identifying property of an aggregate. -/
def identifier (aggregate : Element) : String :=
  aggregate.identifier.getD (b.naming.name .identifier aggregate.name)

/-! ## Directories -/

/-- The directory of an aggregate. -/
def aggregateDir (aggregate : Element) : Path :=
  b.layout.modelDir.join ⟨b.className aggregate⟩

/-- The directory of a command or event: `folder` below its aggregate, else the one that the layout
    gives, else `folder` below the model. -/
def messageDir (e : Element) (given : Option Path) (folder : String) : Outcome Path :=
  if b.layout.aggregateFolder then
    match b.graph.aggregateFor e.id with
    | some aggregate => .ok ((b.aggregateDir aggregate).join ⟨folder⟩)
    | none => .error e.missingAggregate
  else .ok (given.getD (b.layout.modelDir.join ⟨folder⟩))

/-- The directory of a document: that of its namespace, taken from the root if it starts with a
    separator and below the value objects otherwise. -/
def documentDir (e : Element) : Outcome Path :=
  let toDirectory := b.naming.filter .namespaceToDirectory
  match e.namespaceOverride with
  | none => .ok b.layout.valueObjectDir
  | some space =>
    if Text.startsWith "\\" space then b.settings.autoload.namespaceDir space toDirectory
    else .ok (b.layout.valueObjectDir.join ⟨toDirectory.apply (Text.trimBoth '\\' space)⟩)

/-- The directory of the class of an element. -/
def dirOf (e : Element) : Outcome Path :=
  match e.kind with
  | .aggregate => .ok (b.aggregateDir e)
  | .command => b.messageDir e b.layout.commandDir "Command"
  | .event => b.messageDir e b.layout.eventDir "Event"
  | .document => b.documentDir e
  | other =>
    .error (.configuration
      (other.name ++ " '" ++ e.name ++ "' (" ++ e.id ++ ") has no class layout"))

/-- The file of a class in a directory. -/
def fileIn (dir : Path) (className : String) : Path := dir.join ⟨className ++ ".php"⟩

/-- The file of the class of an element. -/
def pathOf (e : Element) : Outcome Path := (b.dirOf e).map fun dir => fileIn dir (b.className e)

/-! ## Classes -/

/-- The place of a class in a directory. -/
def locateIn (dir : Path) (className : String) : Outcome ClassLocation :=
  (b.settings.autoload.namespaceForDir dir (b.naming.filter .directoryToNamespace)).map fun space =>
    ⟨space, className, fileIn dir className⟩

/-- The namespace of an element whose metadata names it from the root. -/
def rootNamespace? (e : Element) : Option String :=
  (e.namespaceOverride.filter (Text.startsWith "\\")).map (Text.trimBoth '\\')

/-- The place of the class of an element. -/
def locate (e : Element) : Outcome ClassLocation := do
  let dir ← b.dirOf e
  let location ← b.locateIn dir (b.className e)
  return { location with namespaceName := (rootNamespace? e).getD location.namespaceName }

/-- The place of the class for the state of an aggregate, next to its behaviour. -/
def stateClass (aggregate : Element) : Outcome ClassLocation :=
  b.locateIn (b.aggregateDir aggregate) (b.naming.name .stateClassName aggregate.name)

/-- The place of a class that describes the model to the framework. -/
def apiClass (className : String) : Outcome ClassLocation :=
  b.locateIn b.layout.apiDir className

theorem locateIn_eq_ok_iff {dir : Path} {name : String} {l : ClassLocation} :
    b.locateIn dir name = .ok l ↔
      ∃ space, b.settings.autoload.namespaceForDir dir (b.naming.filter .directoryToNamespace) =
        .ok space ∧ l = ⟨space, name, fileIn dir name⟩ := by
  unfold locateIn
  cases b.settings.autoload.namespaceForDir dir (b.naming.filter .directoryToNamespace) with
  | error e => simp [Except.map]
  | ok space => simp [Except.map, eq_comm]

theorem locate_eq_ok_iff {e : Element} {l : ClassLocation} :
    b.locate e = .ok l ↔
      ∃ dir space, b.dirOf e = .ok dir ∧
        b.settings.autoload.namespaceForDir dir (b.naming.filter .directoryToNamespace) =
          .ok space ∧
        l = ⟨(rootNamespace? e).getD space, b.className e, fileIn dir (b.className e)⟩ := by
  unfold locate
  cases hd : b.dirOf e with
  | error e => simp [bind, Except.bind]
  | ok dir =>
    simp only [bind, Except.bind, pure, Except.pure]
    unfold locateIn
    cases hs : b.settings.autoload.namespaceForDir dir (b.naming.filter .directoryToNamespace) with
    | error e => simp [Except.map, hs]
    | ok space => simp [Except.map, hs, eq_comm]

theorem locate_className {e : Element} {l : ClassLocation} (h : b.locate e = .ok l) :
    l.className = b.className e := by
  obtain ⟨dir, space, _, _, rfl⟩ := (locate_eq_ok_iff b).1 h
  rfl

theorem locate_path {e : Element} {l : ClassLocation} (h : b.locate e = .ok l) :
    b.pathOf e = .ok l.path := by
  obtain ⟨dir, space, hd, _, rfl⟩ := (locate_eq_ok_iff b).1 h
  simp [pathOf, hd, Except.map]

/-! ## Schema files -/

/-- The file of a schema. -/
def schemaFile (name : String) : Path := b.layout.schemaDir.join ⟨name ++ ".json"⟩

/-- The directory of the schema files as seen from the description classes. -/
def schemaPathFromApi : String :=
  let inner := ((b.layout.schemaDir.relativeTo? b.layout.apiDir).map Path.slashed).getD ""
  if inner.isEmpty then "/" else "/" ++ inner ++ "/"

/-! ## Elements -/

/-- The element with an id. -/
def element (id : String) : Outcome Element :=
  match b.graph.element? id with
  | some e => .ok e
  | none => .error (.unknownElement id)

end Blueprint

end DomainScaffold
