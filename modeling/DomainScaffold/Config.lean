import DomainScaffold.Files.Access
import DomainScaffold.Settings
import DomainScaffold.Toml.Reader

/-!
# Configuration files

A project describes itself in a configuration file; every entry may be left out. Namespaces come
from the file itself and from the package file of the project, which is read when the configuration
names it, or when it names no namespaces.

Results:
* `settings_eq_error_of_conflicting`: a layout with two rules for one path is refused.
* `ofText_blank`: a blank document leaves out everything.
* `entries?_of_unknown`: what has an unknown entry is no configuration.
-/

namespace DomainScaffold

open Naming Merge

/-- A configuration as written. -/
structure ConfigFile where
  layout : Layout
  naming : Option NamingTable
  /-- Namespaces with their directories. -/
  namespaces : List (String × Path)
  /-- The package file, as seen from the configuration. -/
  packageFile : Option Path
  stateStyle : StateStyle
  policy : MergePolicy
  strictTypes : Bool

namespace ConfigFile

/-- The name of a configuration file. -/
def fileName : Path := ⟨"esgen.toml"⟩

/-- The name of a package file. -/
def packageFileName : Path := ⟨"composer.json"⟩

/-- The configuration that leaves out everything. -/
def empty : ConfigFile where
  layout := .standard
  naming := none
  namespaces := []
  packageFile := none
  stateStyle := .immutableRecord
  policy := .preserve
  strictTypes := true

/-! ## Reading -/

/-- A path that has a default. -/
def pathOr? (absent : Path) : Option Json → Option Path
  | none => some absent
  | some v => v.text?.map Path.mk

/-- A path that may be absent or `null`. -/
def optionalPath? (v : Option Json) : Option (Option Path) :=
  (Json.optionalText? v).map fun text => text.map Path.mk

/-- The fields of a layout in order. -/
def layoutFields : List String :=
  ["model_dir", "api_dir", "value_object_dir", "query_dir", "resolver_dir", "finder_dir",
    "schema_dir", "command_dir", "event_dir", "aggregate_folder"]

/-- A layout as written. -/
def layout? (v : Json) : Option Layout := do
  match ← Json.record? layoutFields v with
  | [model, api, valueObject, query, resolver, finder, schema, command, event, folder] =>
    return {
      modelDir := ← pathOr? Layout.standard.modelDir model
      apiDir := ← pathOr? Layout.standard.apiDir api
      valueObjectDir := ← pathOr? Layout.standard.valueObjectDir valueObject
      queryDir := ← pathOr? Layout.standard.queryDir query
      resolverDir := ← pathOr? Layout.standard.resolverDir resolver
      finderDir := ← pathOr? Layout.standard.finderDir finder
      schemaDir := ← pathOr? Layout.standard.schemaDir schema
      commandDir := ← optionalPath? command
      eventDir := ← optionalPath? event
      aggregateFolder := ← Json.flag? false folder }
  | _ => none

/-- The word of a choice: a text, or the only key of an object without data. -/
def choice? (isEmpty : Json → Bool) : Json → Option String
  | .text word => some word
  | .object [(word, data)] => if isEmpty data then some word else none
  | _ => none

/-- The style with a word. -/
def stateStyle? : String → Option StateStyle
  | "immutable-record" => some .immutableRecord
  | "raw-array" => some .rawArray
  | _ => none

/-- The policy with a word. -/
def policy? : String → Option MergePolicy
  | "preserve-existing" => some .preserve
  | "replace-existing" => some .replace
  | _ => none

/-- Namespaces as written. -/
def namespaces? : Json → Option (List (String × Path))
  | .object fields => fields.mapM fun (name, dir) => dir.text?.map fun text => (name, ⟨text⟩)
  | _ => none

/-- An entry that has a default. -/
def entryOr? {α : Type} (absent : α) (read : Json → Option α) : Option Json → Option α
  | none => some absent
  | some v => read v

/-- A naming table that may be absent or `null`. -/
def naming? (v : Option Json) : Option (Option NamingTable) :=
  if Json.isAbsent v then some none else (v.bind NamingTable.ofJson?).map some

/-- The fields of a configuration in order. -/
def fieldNames : List String :=
  ["layout", "naming", "psr4", "composer", "state", "merge", "strict_types"]

/-- The entries of a configuration; unknown ones are refused. -/
def entries? (v : Json) : Option (List (Option Json)) :=
  if (v.object?.getD []).all fun f => fieldNames.contains f.1 then Json.record? fieldNames v
  else none

/-- A configuration as written; `isEmpty` says what stands for no data in a choice. -/
def ofJson? (isEmpty : Json → Bool) (v : Json) : Option ConfigFile := do
  match ← entries? v with
  | [layout, naming, namespaces, packageFile, state, merge, strict] =>
    return {
      layout := ← entryOr? .standard layout? layout
      naming := ← naming? naming
      namespaces := ← entryOr? [] namespaces? namespaces
      packageFile := ← optionalPath? packageFile
      stateStyle := ← entryOr? .immutableRecord (fun v => (choice? isEmpty v).bind stateStyle?) state
      policy := ← entryOr? .preserve (fun v => (choice? isEmpty v).bind policy?) merge
      strictTypes := ← Json.flag? true strict }
  | _ => none

theorem entries?_of_unknown {fields : List (String × Json)} {f : String × Json} (hf : f ∈ fields)
    (h : f.1 ∉ fieldNames) : entries? (.object fields) = none := by
  unfold entries?
  rw [if_neg]
  simp only [Json.object?, Option.getD_some, List.all_eq_true, List.contains_iff_mem]
  exact fun ha => h (ha f hf)

/-- Stands for the report on a configuration that is not understood, whose wording and position are
    not fixed. -/
def tomlReport : String := "<toml>"

/-- Whether a value stands for no data in a document: an empty table or list. -/
def isEmptyTable : Json → Bool
  | .object [] => true
  | .list [] => true
  | _ => false

/-- The configuration in a document. -/
def ofText (source : String) : Outcome ConfigFile :=
  match (Toml.parse? source).bind (ofJson? isEmptyTable) with
  | some c => .ok c
  | none => .error (.configuration tomlReport)

theorem ofText_blank : ofText "" = .ok empty := rfl

/-! ## Settings -/

/-- The strategies of a configuration. -/
def strategies (c : ConfigFile) : Outcome Strategies :=
  (c.naming.getD NamingTable.conventional).build

/-- The package file to be read, seen from `base`; `present` says whether one is there. -/
def packageFile? (c : ConfigFile) (base : Path) (present : Bool) : Option Path :=
  match c.packageFile with
  | some path => some (base.join path)
  | none =>
    if c.namespaces.isEmpty && present then some (base.join packageFileName) else none

/-- The autoload map of a package file with the namespaces of the configuration in front. -/
def autoload (c : ConfigFile) (package : Autoload) : Autoload :=
  c.namespaces.foldl (fun m (name, dir) => m.insert name dir) package

/-- The settings that a configuration asks for. -/
def settings (c : ConfigFile) (naming : Strategies) (package : Autoload) : Outcome Settings := do
  let layout ← c.layout.validated
  let autoload := c.autoload package
  if autoload.isEmpty then
    .error (.configuration
      ("no PSR-4 autoload mapping (add [psr4] or point \x60composer\x60 at a composer.json)"))
  else return ⟨layout, autoload, naming, c.stateStyle, ⟨c.policy, c.strictTypes⟩⟩

theorem settings_eq_error_of_conflicting {c : ConfigFile} (h : c.layout.conflicting = true)
    (naming : Strategies) (package : Autoload) :
    ∃ reason, c.settings naming package = .error (.configuration reason) := by
  unfold settings Layout.validated
  rw [if_pos h]
  exact ⟨_, rfl⟩

variable {m : Type → Type} [Monad m]

/-- The configuration in a file that has to exist. -/
def load (files : FileAccess m) (path : Path) : FileAction m ConfigFile := do
  ofText (← files.readRequired path)

/-- The autoload map of a package file, or an empty one. -/
def readPackage (files : FileAccess m) : Option Path → FileAction m Autoload
  | none => return .empty
  | some path => do
    let source ← files.readRequired path
    Autoload.ofPackageFile source

/-- The settings of a configuration whose paths are seen from `base`. A package file that is `given`
    takes the place of the one of the configuration. -/
def resolve (files : FileAccess m) (c : ConfigFile) (base : Path) (given : Option Path) :
    FileAction m Settings := do
  let naming ← c.strategies
  let present ← files.isFile (base.join packageFileName)
  let package ← readPackage files (given.or (c.packageFile? base present))
  c.settings naming package

end ConfigFile

end DomainScaffold
