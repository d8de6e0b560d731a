import DomainScaffold.Artifact.Behaviour
import DomainScaffold.Artifact.Message

/-!
# Description classes

Four classes describe the model to the framework: aggregates, commands, events and queries. All
elements of a kind share one of them. An element adds its constants, and appends its registration to
the method that describes the model.

Results:
* `registration_mode`: a chain says in its second link whether the command creates its aggregate.
-/

namespace DomainScaffold

open Php Merge Naming

namespace Description

/-! ## Parts -/

/-- The method that describes the model. -/
def describe : String := "describe"

/-- The method that maps names to classes. -/
def classMap : String := "classMap"

/-- The constant with the directory of the schema files. -/
def schemaPath : String := "SCHEMA_PATH"

/-- The object that a model is described to. -/
def engine : Expr := .var "eventEngine"

/-- The changes that make a class a description class. -/
def base : List Change :=
  [Framework.imported Framework.eventEngine, Framework.imported Framework.eventEngineDescription,
    .interface (Framework.short Framework.eventEngineDescription),
    .method (.publicStatic describe [.typed (Framework.short Framework.eventEngine) "eventEngine"]
      (some "void") [])]

/-- The change that adds a constant. -/
def constant (name : String) (value : Expr) : Change := .constant (.publicOne name value)

/-- The schema read from the file with a name. -/
def fileSchema (name : String) : Expr :=
  .staticCall (Framework.short Framework.jsonSchemaArray) "fromFile"
    [.binary (.selfConst schemaPath) "." (.text (name ++ ".json"))]

/-- The schema of an object without properties. -/
def emptySchema : Expr :=
  .staticCall (Framework.short Framework.jsonSchema) "object" [.list []]

/-- A class with the name of one of its methods. -/
def handle (className method : String) : Expr := .list [.classRef className, .text method]

end Description

namespace Blueprint

variable (b : Blueprint)

open Description

/-- What reading a schema from a file needs. -/
def schemaFileChanges : List Change :=
  [Framework.imported Framework.jsonSchemaArray,
    constant schemaPath (.binary (.name "__DIR__") "." (.text b.schemaPathFromApi))]

/-! ## Commands and events -/

/-- The schema of a message, and what it needs: its file, or an object without properties. -/
def messageSchema (e : Element) : List Change × Expr :=
  if e.schema.isSome then (b.schemaFileChanges, fileSchema (b.constantValue e))
  else ([Framework.imported Framework.jsonSchema], emptySchema)

/-- The class and the method that messages of a kind are registered with. -/
def registrar? (kind : ElementKind) : Option (Framework.ApiClass × String) :=
  match kind with
  | .command => some (.command, "registerCommand")
  | .event => some (.event, "registerEvent")
  | _ => none

/-- The registration of a command or event. -/
def messageDescription (e : Element) : Outcome Artifact :=
  match registrar? e.kind with
  | none => .error (notMessage e)
  | some (api, register) => do
    let location ← b.apiClass api.name
    let record ← b.locate e
    let self := Expr.selfConst (b.constantName e)
    let schema := b.messageSchema e
    return .ofClass api.artifactName location
      (base ++ [constant (b.constantName e) (.text (b.constantValue e))] ++ schema.1 ++
        [.statements describe [.ofExpr (.methodCall engine register [self, schema.2])],
          Framework.imported record.fullName,
          .method (.publicStatic classMap [] (some "array") []),
          .mapEntry classMap self (.classRef record.className)])

/-! ## Aggregates -/

/-- The links of a chain for the events that a command records. -/
def recordLinks (behaviour : String) (chain : Expr) : List (String × Element) → Expr
  | [] => chain
  | (method, event) :: rest =>
    recordLinks behaviour
      (.methodCall (.methodCall chain method [b.eventConst event]) "apply"
        [handle behaviour (b.applierName event)]) rest

/-- The events of a command, each with the link that records it. -/
def recordMethods (events : List Element) : List (String × Element) :=
  (("recordThat" :: List.replicate events.length "orRecordThat").zip events)

/-- The first links of a chain: the command, and whether it creates the aggregate. -/
def processLink (aggregate command : Element) : Expr :=
  .methodCall
    (.methodCall engine "process"
      [.classConst Framework.ApiClass.command.name (b.constantName command)])
    (if command.createsAggregate then "withNew" else "withExisting")
    [.selfConst (b.constantName aggregate)]

/-- The registration of a command: how it finds its aggregate, what handles it, what it records, and
    where the state of a new aggregate is stored. -/
def registration (aggregate command : Element) (events : List Element) (behaviour : String) :
    Expr :=
  let identified := Expr.methodCall (b.processLink aggregate command) "identifiedBy"
    [.text (b.identifier aggregate)]
  let handled := Expr.methodCall identified "handle" [handle behaviour (b.handlerName command)]
  let recorded := b.recordLinks behaviour handled (recordMethods events)
  match b.naming.storeState, command.createsAggregate with
  | some store, true =>
    .methodCall recorded "storeStateIn" [.text (store.apply aggregate.name)]
  | _, _ => recorded

theorem registration_mode (aggregate command : Element) :
    ∃ link, b.processLink aggregate command =
      .methodCall link (if command.createsAggregate then "withNew" else "withExisting")
        [.selfConst (b.constantName aggregate)] := ⟨_, rfl⟩

/-- The registration of an aggregate and its commands. -/
def aggregateDescription (c : AggregateConnection) : Outcome Artifact := do
  let aggregate ← b.element c.aggregate
  let location ← b.apiClass Framework.ApiClass.aggregate.name
  let behaviour ← b.locate aggregate
  let chains ← c.commands.mapM fun (id, ids) => do
    let command ← b.element id
    let events ← ids.mapM b.element
    return Statement.ofExpr (b.registration aggregate command events behaviour.className)
  return .ofClass Framework.ApiClass.aggregate.artifactName location
    (base ++
      [constant (b.constantName aggregate) (.text (b.constantValue aggregate)),
        Framework.imported behaviour.fullName, .statements describe chains])

/-! ## Queries -/

/-- The registration of the type that a document is returned as. -/
def typeRegistration (document : Element) : List Statement :=
  if document.schema.isSome then
    [.ofExpr (.methodCall engine "registerType"
      [.text (b.className document), fileSchema (b.className document)])]
  else []

/-- The registration of a query. -/
def queryRegistration (document : Element) (name resolver : String) : Statement :=
  .ofExpr
    (.methodCall
      (.methodCall
        (.methodCall engine "registerQuery"
          [.selfConst (b.naming.name .constantName name), fileSchema name])
        "resolveWith" [.classRef resolver])
      "setReturnType"
      [.staticCall (Framework.short Framework.jsonSchema) "typeRef"
        [.text (b.className document)]])

/-- The registration of the query for a document, answered by a resolver. -/
def queryDescription (document : Element) (name : String) (resolver : ClassLocation) :
    Outcome Artifact :=
  (b.apiClass Framework.ApiClass.query.name).map fun location =>
    .ofClass Framework.ApiClass.query.artifactName location
      (base ++
        [constant (b.naming.name .constantName name) (.text name),
          Framework.imported resolver.fullName, Framework.imported Framework.jsonSchema] ++
        (if document.schema.isSome then b.schemaFileChanges else []) ++ b.schemaFileChanges ++
        [.statements describe
          (b.typeRegistration document ++
            [b.queryRegistration document name resolver.className])])

end Blueprint

end DomainScaffold
