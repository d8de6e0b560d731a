import DomainScaffold.Merge.Change

/-!
# Framework names

The names of the event sourcing framework that generated code refers to.
-/

namespace DomainScaffold.Framework

open Php Merge

/-! ## Classes -/

/-- The messages that handlers are given. -/
def message : String := "EventEngine\\Messaging\\Message"

/-- The object that a model is described to. -/
def eventEngine : String := "EventEngine\\EventEngine"

/-- What description classes implement. -/
def eventEngineDescription : String := "EventEngine\\EventEngineDescription"

/-- What record classes implement. -/
def immutableRecord : String := "EventEngine\\Data\\ImmutableRecord"

/-- The trait with the behaviour of record classes. -/
def immutableRecordLogic : String := "EventEngine\\Data\\ImmutableRecordLogic"

/-- Builds schemas. -/
def jsonSchema : String := "EventEngine\\JsonSchema\\JsonSchema"

/-- Reads schemas from files. -/
def jsonSchemaArray : String := "EventEngine\\JsonSchema\\JsonSchemaArray"

/-- What query resolvers implement. -/
def resolver : String := "EventEngine\\Querying\\Resolver"

/-- The store that finders read. -/
def documentStore : String := "EventEngine\\DocumentStore\\DocumentStore"

/-- What command handlers return. -/
def generator : String := "Generator"

/-- The last segment of a name. -/
def short (name : String) : String := ((Text.cutLast? '\\' name).map Prod.snd).getD name

/-- The change that imports a class. -/
def imported (name : String) : Change := .importName (.ofClass name)

/-- The name that the state of an aggregate has in its behaviour class. -/
def stateName : String := "State"

/-! ## Description classes -/

/-- The classes that describe the model to the framework. -/
inductive ApiClass where
  | aggregate
  | command
  | event
  | query
  deriving DecidableEq, Repr

/-- The name of a description class. -/
def ApiClass.name : ApiClass → String
  | aggregate => "Aggregate"
  | command => "Command"
  | event => "Event"
  | query => "Query"

/-- The name under which a description class is reported. -/
def ApiClass.artifactName (c : ApiClass) : String := "Api\\" ++ c.name

end DomainScaffold.Framework
