import DomainScaffold.Merge.Apply
import DomainScaffold.Naming.Autoload
import DomainScaffold.Naming.Strategies

/-!
# Settings

What a project says about its generated code: the directories it goes to, the namespaces of those
directories, how names are made, how the state of an aggregate is represented, and how code is
merged into existing files.

Results:
* `conflicting_iff`: when a layout has two rules for one path.
-/

namespace DomainScaffold

open Naming Merge

/-! ## Layout -/

/-- The directories of a project that generated files go to. -/
structure Layout where
  /-- Every aggregate has a directory of its own in here. -/
  modelDir : Path
  apiDir : Path
  valueObjectDir : Path
  queryDir : Path
  resolverDir : Path
  finderDir : Path
  schemaDir : Path
  /-- The directory of all commands, if they do not go below the model. -/
  commandDir : Option Path
  /-- The directory of all events, if they do not go below the model. -/
  eventDir : Option Path
  /-- Whether commands and events go to the directory of their aggregate. -/
  aggregateFolder : Bool
  deriving DecidableEq, Repr

namespace Layout

/-- The layout of a project that asks for no other one. -/
def standard : Layout where
  modelDir := ⟨"src/Domain/Model"⟩
  apiDir := ⟨"src/Domain/Api"⟩
  valueObjectDir := ⟨"src/Domain/Model/ValueObject"⟩
  queryDir := ⟨"src/Domain/Query"⟩
  resolverDir := ⟨"src/Domain/Resolver"⟩
  finderDir := ⟨"src/Infrastructure/Finder"⟩
  schemaDir := ⟨"src/Domain/Api/_schema"⟩
  commandDir := none
  eventDir := none
  aggregateFolder := false

/-- Whether a layout has two rules for the place of a command or event. -/
def conflicting (l : Layout) : Bool :=
  l.aggregateFolder && (l.commandDir.isSome || l.eventDir.isSome)

/-- The layout, unless it is conflicting. -/
def validated (l : Layout) : Outcome Layout :=
  if l.conflicting then
    .error (.configuration "aggregate_folder cannot be combined with command_dir or event_dir")
  else .ok l

theorem conflicting_iff {l : Layout} :
    l.conflicting = true ↔
      l.aggregateFolder = true ∧ (l.commandDir.isSome = true ∨ l.eventDir.isSome = true) := by
  simp [conflicting]

theorem conflicting_standard : standard.conflicting = false := rfl

end Layout

/-! ## Settings -/

/-- How the state of an aggregate is represented. -/
inductive StateStyle where
  /-- Typed fields from the schema of the state. -/
  | immutableRecord
  /-- The record data in one array. -/
  | rawArray
  deriving DecidableEq, Repr

/-- The word for a style in a configuration. -/
def StateStyle.word : StateStyle → String
  | immutableRecord => "immutable-record"
  | rawArray => "raw-array"

/-- The settings of a project. -/
structure Settings where
  layout : Layout
  autoload : Autoload
  naming : Strategies
  stateStyle : StateStyle
  merging : MergeRules

/-- The settings of a project that says nothing but where its namespaces are: strict types are on
    and existing code is preserved. -/
def Settings.standard (autoload : Autoload) : Settings :=
  ⟨.standard, autoload, conventional, .immutableRecord, ⟨.preserve, true⟩⟩

end DomainScaffold
