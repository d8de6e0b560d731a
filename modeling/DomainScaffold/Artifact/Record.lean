import DomainScaffold.Artifact.Basic
import DomainScaffold.Artifact.Framework
import DomainScaffold.Naming.Words

/-!
# Record classes

A record class has for every property of an object schema a constant with the key, a private field
and a method that reads it. The type of a field follows from the schema; a reference to a document
becomes its class.

Results:
* `keys_planProperties`: every property of the schema is planned, in order.
* `constant_mem_recordMembers`: a record gets a constant for the key of every planned property.
-/

namespace DomainScaffold

open Php Merge Schema Naming

/-! ## Plans -/

/-- Whether objects inside a schema get classes of their own. -/
inductive Nesting where
  /-- Inline objects and own definitions become classes. -/
  | classes
  /-- Inline objects and own definitions stay arrays. -/
  | arrays
  deriving DecidableEq, Repr

/-- A class that a nested object needs. -/
structure NestedClass where
  className : String
  type : SchemaType

/-- What becomes of a property of a schema. -/
structure PropertyPlan where
  /-- The key in the data of the record. -/
  key : String
  property : String
  constant : String
  /-- The type of the field, with the mark of a nullable one. -/
  hint : Option String
  /-- The class that the type needs. -/
  needs : Option String
  deriving DecidableEq, Repr

/-- The type of a field for a schema type without a class. -/
def plainHint (t : SchemaType) : Option String :=
  match t.shape with
  | .text _ => some "string"
  | .integer _ => some "int"
  | .number _ => some "float"
  | .boolean => some "bool"
  | .object .. | .array _ => some "array"
  | .null | .mixed | .reference .. => none

/-- The type of a property, the class that it needs, and the nested classes that it asks for. -/
structure PropertyType where
  hint : Option String
  needs : Option String
  nested : List NestedClass

/-- A type without a class of its own. -/
def PropertyType.plain (t : SchemaType) : PropertyType := ⟨plainHint t, none, []⟩

namespace Blueprint

variable (b : Blueprint)

/-- The type that a node stands for. -/
def resolve (types : TypeSet) (t : SchemaType) : Outcome SchemaType :=
  types.resolve b.graph.definitions t

/-- The first document with a class name. -/
def documentNamed? (className : String) : Option Element :=
  (b.graph.ofKind .document).find? fun e => b.className e == className

/-- The class of a document: that of the state for the state of an aggregate. -/
def documentClass (document : Element) : Outcome ClassLocation :=
  match if document.isAggregateState then b.graph.aggregateFor document.id else none with
  | some aggregate => b.stateClass aggregate
  | none => b.locate document

/-- The class for the items of a list, if they are objects without a document. -/
def itemClasses (types : TypeSet) (key : String) (items : Option SchemaType) :
    Outcome (List NestedClass) :=
  match items with
  | none => .ok []
  | some items =>
    match items.shape with
    | .object .. => .ok [⟨pascal key ++ "Item", items⟩]
    | .reference target _ _ =>
      if Fields.has target types.localTypes then
        (b.resolve types items).map fun t =>
          if t.properties?.isSome then [⟨pascal target, t⟩] else []
      else .ok []
    | _ => .ok []

/-- The type of a property that stands for `resolved`. -/
def propertyType (types : TypeSet) (nesting : Nesting) (key : String)
    (t resolved : SchemaType) : Outcome PropertyType :=
  match t.shape, nesting with
  | .reference target _ _, _ =>
    if Fields.has target types.localTypes then
      if nesting = .classes && resolved.properties?.isSome then
        .ok ⟨some (pascal target), none, [⟨pascal target, resolved⟩]⟩
      else .ok (.plain resolved)
    else
      match b.documentNamed? (pascal target) with
      | none => .ok (.plain resolved)
      | some document =>
        (b.documentClass document).map fun l => ⟨some l.className, some l.fullName, []⟩
  | .object .., .classes => .ok ⟨some (pascal key), none, [⟨pascal key, t⟩]⟩
  | .array items, .classes =>
    (b.itemClasses types key items).map fun nested => ⟨some "array", none, nested⟩
  | _, _ => .ok (.plain resolved)

/-- The report of a reference in the schema of an element that stands for nothing. -/
def referenceError (e : Element) : GenerationError → GenerationError
  | .unknownReference reference =>
    e.shapeError "a resolvable reference" ("'" ++ reference ++ "'")
  | other => other

/-- What becomes of one property of an object, and the nested classes that it asks for. -/
def planProperty (e : Element) (types : TypeSet) (required : List String) (nesting : Nesting)
    (p : String × SchemaType) : Outcome (PropertyPlan × List NestedClass) := do
  let resolved ← (b.resolve types p.2).mapError (referenceError e)
  let type ← b.propertyType types nesting p.1 p.2 resolved
  let isRequired := resolved.info.required || required.contains p.1
  let mark := if resolved.info.nullable || !isRequired then "?" else ""
  return (⟨p.1, b.naming.name .propertyName p.1, b.naming.name .constantName p.1,
    type.hint.map (mark ++ ·), type.needs⟩, type.nested)

/-- What becomes of the properties of an object. -/
def planProperties (e : Element) (types : TypeSet) (properties : List (String × SchemaType))
    (required : List String) (nesting : Nesting) :
    Outcome (List (PropertyPlan × List NestedClass)) :=
  properties.mapM (b.planProperty e types required nesting)

theorem key_planProperty {e : Element} {types : TypeSet} {required : List String}
    {nesting : Nesting} {p : String × SchemaType} {plan : PropertyPlan × List NestedClass}
    (h : b.planProperty e types required nesting p = .ok plan) : plan.1.key = p.1 := by
  unfold planProperty at h
  cases hr : (b.resolve types p.2).mapError (referenceError e) with
  | error e => simp [hr, bind, Except.bind] at h
  | ok resolved =>
    cases ht : b.propertyType types nesting p.1 p.2 resolved with
    | error e => simp [hr, ht, bind, Except.bind] at h
    | ok type =>
      simp only [hr, ht, bind, Except.bind, pure, Except.pure, Except.ok.injEq] at h
      rw [← h]

theorem keys_planProperties {e : Element} {types : TypeSet} {required : List String}
    {nesting : Nesting} {properties : List (String × SchemaType)}
    {plans : List (PropertyPlan × List NestedClass)}
    (h : b.planProperties e types properties required nesting = .ok plans) :
    plans.map (fun plan => plan.1.key) = properties.map Prod.fst := by
  unfold planProperties at h
  induction properties generalizing plans with
  | nil => cases h; rfl
  | cons p properties ih =>
    rw [List.mapM_cons] at h
    cases hp : b.planProperty e types required nesting p with
    | error e => simp [hp, bind, Except.bind] at h
    | ok plan =>
      cases hs : properties.mapM (b.planProperty e types required nesting) with
      | error e => simp [hp, hs, bind, Except.bind] at h
      | ok rest =>
        simp only [hp, hs, bind, Except.bind, pure, Except.pure, Except.ok.injEq] at h
        rw [← h, List.map_cons, List.map_cons, ih hs, b.key_planProperty hp]

end Blueprint

/-! ## Members -/

/-- The changes that make a class a record. -/
def recordBase : List Change :=
  [Framework.imported Framework.immutableRecord, Framework.imported Framework.immutableRecordLogic,
    .interface (Framework.short Framework.immutableRecord),
    .traitUse (Framework.short Framework.immutableRecordLogic)]

namespace PropertyPlan

/-- The import, the constant and the field of a property. -/
def fields (p : PropertyPlan) : List Change :=
  (p.needs.map Framework.imported).toList ++
    [.constant (.publicOne p.constant (.text p.key)),
      .property (.privateOne p.hint p.property none)]

/-- The method that reads a property. -/
def getter (p : PropertyPlan) : MethodDecl :=
  .publicOne p.property [] p.hint [.ofReturn (.ofThis p.property)]

end PropertyPlan

/-- The changes for the planned properties of a record. -/
def recordMembers (plans : List PropertyPlan) : List Change :=
  plans.flatMap PropertyPlan.fields ++ plans.map fun p => .method p.getter

theorem constant_mem_recordMembers {plans : List PropertyPlan} {p : PropertyPlan} (h : p ∈ plans) :
    .constant (.publicOne p.constant (.text p.key)) ∈ recordMembers plans := by
  simp only [recordMembers, List.mem_append, List.mem_flatMap]
  exact .inl ⟨p, h, by simp [PropertyPlan.fields]⟩

/-- The changes of a record class. -/
def recordChanges (plans : List PropertyPlan) : List Change := recordBase ++ recordMembers plans

namespace Blueprint

variable (b : Blueprint)

/-- The changes of the record class for the root of a schema, which has to be an object. -/
def rootRecord (e : Element) (types : TypeSet) : Outcome (List Change) :=
  match types.root.shape with
  | .object properties required _ =>
    (b.planProperties e types properties required .arrays).map fun plans =>
      recordChanges (plans.map Prod.fst)
  | _ => .error (e.shapeError "ObjectType" types.root.kindName)

end Blueprint

end DomainScaffold
