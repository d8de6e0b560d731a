import DomainScaffold.Error
import DomainScaffold.Json.Record
import DomainScaffold.Naming.Filter

/-!
# Naming strategies

Every identifier that is generated comes out of one strategy, a filter for one role. A project
either writes down the filter of every role or takes the conventional ones and overrides some.

Results:
* `build_conventional`: the conventional table builds the conventional strategies.
* `build_eq_ok_iff_complete`: without a preset exactly the complete tables build.
-/

namespace DomainScaffold.Naming

/-! ## Roles -/

/-- What an identifier names. -/
inductive Role where
  | className
  | stateClassName
  | constantName
  | constantValue
  | commandMethod
  | eventMethod
  | withMethod
  | parameterName
  | propertyName
  | finderMethod
  | queryName
  | identifier
  | directoryToNamespace
  | namespaceToDirectory
  deriving DecidableEq, Repr

/-- The key of a role in a configuration. -/
def Role.key : Role → String
  | .className => "class_name"
  | .stateClassName => "state_class_name"
  | .constantName => "constant_name"
  | .constantValue => "constant_value"
  | .commandMethod => "command_method"
  | .eventMethod => "event_method"
  | .withMethod => "with_method"
  | .parameterName => "parameter_name"
  | .propertyName => "property_name"
  | .finderMethod => "finder_method"
  | .queryName => "query_name"
  | .identifier => "identifier"
  | .directoryToNamespace => "directory_to_namespace"
  | .namespaceToDirectory => "namespace_to_directory"

/-- Every role, in the order in which missing ones are reported. -/
def Role.all : List Role :=
  [.className, .stateClassName, .constantName, .constantValue, .commandMethod, .eventMethod,
    .withMethod, .parameterName, .propertyName, .finderMethod, .queryName, .identifier,
    .directoryToNamespace, .namespaceToDirectory]

theorem Role.mem_all (r : Role) : r ∈ Role.all := by cases r <;> simp [Role.all]

/-! ## Strategies -/

/-- A filter for every role. -/
structure Strategies where
  filter : Role → Filter
  /-- Names the store of an aggregate's state; a store is only registered when this is set. -/
  storeState : Option Filter

/-- The name a label gets in a role. -/
def Strategies.name (s : Strategies) (role : Role) (label : String) : String :=
  (s.filter role).apply label

/-- The conventional steps of a role: `AddBuilding`, `ADD_BUILDING`, `addBuilding`,
    `whenBuildingAdded`, `withBuildingAdded`. -/
def conventionalSteps : Role → List Step
  | .className => [.pascal]
  | .stateClassName => [.pascal, .after "State"]
  | .constantName => [.upperSnake]
  | .constantValue => [.pascal]
  | .commandMethod => [.camel]
  | .eventMethod => [.pascal, .before "when"]
  | .withMethod => [.pascal, .before "with"]
  | .parameterName => [.camel]
  | .propertyName => [.camel]
  | .finderMethod => [.pascal, .before "find"]
  | .queryName => [.pascal, .before "Get"]
  | .identifier => [.camel, .after "Id"]
  | .directoryToNamespace => [.replace "/" "\\"]
  | .namespaceToDirectory => [.replace "\\" "/"]

/-- The conventional strategies, without a state store. -/
def conventional : Strategies := ⟨fun role => Filter.ofSteps (conventionalSteps role), none⟩

/-! ## As written in a configuration -/

/-- The naming part of a configuration: a preset, and filters for some roles. -/
structure NamingTable where
  preset : Option String
  filters : Role → Option Filter
  storeState : Option Filter

/-- The table that asks for the conventional strategies. -/
def NamingTable.conventional : NamingTable := ⟨some "conventional", fun _ => none, none⟩

/-- The roles that have no filter. -/
def NamingTable.missing (t : NamingTable) : List Role :=
  Role.all.filter fun role => (t.filters role).isNone

/-- The strategies of a table; without a preset every role needs a filter. -/
def NamingTable.build (t : NamingTable) : Outcome Strategies :=
  match t.preset with
  | some preset =>
    if preset = "conventional" then
      .ok ⟨fun role => (t.filters role).getD (Naming.conventional.filter role), t.storeState⟩
    else
      .error (.configuration
        ("unknown naming preset '" ++ preset ++ "' (available: conventional)"))
  | none =>
    if t.missing.isEmpty then
      .ok ⟨fun role => (t.filters role).getD Filter.identity, t.storeState⟩
    else
      .error (.configuration ("naming strategies without a value: " ++
        String.intercalate ", " (t.missing.map Role.key) ++
        " (set them or use preset = \"conventional\")"))

theorem build_conventional : NamingTable.conventional.build = .ok Naming.conventional := rfl

theorem build_eq_ok_iff_complete {t : NamingTable} (h : t.preset = none) :
    (∃ s, t.build = .ok s) ↔ ∀ role, (t.filters role).isSome = true := by
  have hm : t.missing.isEmpty = true ↔ ∀ role, (t.filters role).isSome = true := by
    rw [List.isEmpty_iff, NamingTable.missing, List.filter_eq_nil_iff]
    constructor
    · intro hf role
      have := hf role (Role.mem_all role)
      cases hr : t.filters role <;> simp_all
    · intro hs role _
      have := hs role
      cases hr : t.filters role <;> simp_all
  rw [← hm]
  unfold NamingTable.build
  rw [h]
  by_cases he : t.missing.isEmpty <;> simp [he]

/-! ## Reading -/

/-- A step without data, by its word. -/
def Step.ofWord? : String → Option Step
  | "identity" => some .identity
  | "pascal" => some .pascal
  | "camel" => some .camel
  | "snake" => some .snake
  | "upper-snake" => some .upperSnake
  | "kebab" => some .kebab
  | "lowercase" => some .lowercase
  | "plural" => some .plural
  | _ => none

/-- A step with data, by its word. -/
def Step.ofField? (word : String) (data : Json) : Option Step :=
  match word with
  | "prefix" => data.text?.map .before
  | "suffix" => data.text?.map .after
  | "replace" =>
    match Json.record? ["from", "to"] data with
    | some [some (.text old), some (.text new)] => some (.replace old new)
    | _ => none
  | word => if data.isNull then Step.ofWord? word else none

/-- A step as written: a word, or an object with exactly one key. -/
def Step.ofJson? : Json → Option Step
  | .text word => Step.ofWord? word
  | .object [(word, data)] => Step.ofField? word data
  | _ => none

/-- A filter as written: one step or a list of steps. -/
def Filter.ofJson? (v : Json) : Option Filter :=
  match v with
  | .list items => (items.mapM Step.ofJson?).map Filter.ofSteps
  | v => (Step.ofJson? v).map fun step => Filter.ofSteps [step]

/-- A filter that may be absent. -/
def optionalFilter? (v : Option Json) : Option (Option Filter) :=
  match v with
  | none | some .null => some none
  | some v => (Filter.ofJson? v).map some

/-- The fields of a naming table in order. -/
def NamingTable.fieldNames : List String := "preset" :: Role.all.map Role.key ++ ["store_state"]

/-- The naming part of a configuration as written. -/
def NamingTable.ofJson? (v : Json) : Option NamingTable := do
  match ← Json.record? NamingTable.fieldNames v with
  | preset :: entries =>
    let preset ← Json.optionalText? preset
    let filters ← entries.mapM optionalFilter?
    let byRole := Role.all.zip filters
    return ⟨preset, fun role => (byRole.lookup role).join, (filters.getLast?).join⟩
  | [] => none

end DomainScaffold.Naming
