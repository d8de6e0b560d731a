import DomainScaffold.Artifact.Record

/-!
# State classes

The state class of an aggregate holds its data, as typed fields or as one array, and has a method
for every recorded event that gives a copy to be changed.

Results:
* `stateSource_eq`: where the schema of a state comes from.
-/

namespace DomainScaffold

open Php Merge

/-! ## States of one array -/

namespace RawState

/-- The property with the data. -/
def data : String := "recordData"

/-- The parameter with the data. -/
def dataParam : Param := .typed "array" data

/-- A return of a new object. -/
def newSelf (value : Expr) : Statement := .ofReturn (.new "self" [value])

/-- A call of the method that sets the data. -/
def setData (object : Expr) : Statement :=
  .ofExpr (.methodCall object "setRecordData" [.var data])

/-- The data of an object as an array. -/
def arrayOf (object : Expr) : Expr := .methodCall object "toArray" []

/-- The methods of a state of one array. -/
def methods : List MethodDecl :=
  [.publicStatic "fromRecordData" [dataParam] (some "self") [newSelf (.var data)],
    .publicStatic "fromArray" [.typed "array" "nativeData"] (some "self")
      [newSelf (.var "nativeData")],
    .privateOne "__construct" [dataParam] none [setData .this],
    .publicOne "with" [dataParam] (some "self")
      [.ofExpr (.assign (.var "copy") (.clone .this)), setData (.var "copy"),
        .ofReturn (.var "copy")],
    .publicOne "toArray" [] (some "array") [.ofReturn (.ofThis data)],
    .publicOne "equals" [.typed (Framework.short Framework.immutableRecord) "other"] (some "bool")
      [.ofReturn (.binary (arrayOf .this) "===" (arrayOf (.var "other")))],
    .privateOne "setRecordData" [dataParam] (some "void")
      [.ofExpr (.assign (.ofThis data) (.call "array_merge" [.ofThis data, .var data]))]]

/-- The changes of a state of one array. -/
def changes : List Change :=
  [Framework.imported Framework.immutableRecord,
    .interface (Framework.short Framework.immutableRecord),
    .property (.privateOne (some "array") data (some (.list []))), .methodGroup methods]

end RawState

/-! ## State classes -/

namespace Blueprint

variable (b : Blueprint)

/-- The method that gives a copy to be changed by an event. -/
def wither (event : Element) : MethodDecl :=
  .publicOne (b.naming.name .withMethod event.name) [] (some "self")
    [.ofExpr (.assign (.var "instance") (.clone .this)), .ofReturn (.var "instance")]

/-- The element with the schema of the state: the state document if it has one, else the
    aggregate. -/
def stateSource (c : AggregateConnection) (aggregate : Element) : Element :=
  ((c.stateDocument.bind b.graph.element?).filter fun e => e.types.isSome).getD aggregate

/-- The changes for the data of a state. -/
def stateData (c : AggregateConnection) (aggregate : Element) : Outcome (List Change) :=
  match b.settings.stateStyle with
  | .rawArray => .ok RawState.changes
  | .immutableRecord =>
    let source := b.stateSource c aggregate
    match source.types with
    | none => .ok recordBase
    | some types => b.rootRecord source types

/-- The state class of an aggregate. -/
def state (c : AggregateConnection) : Outcome Artifact := do
  let aggregate ← b.element c.aggregate
  let location ← b.stateClass aggregate
  let data ← b.stateData c aggregate
  let events ← c.events.mapM b.element
  return .ofClass location.className location (data ++ events.map fun e => .method (b.wither e))

theorem stateSource_eq (c : AggregateConnection) (aggregate : Element) :
    b.stateSource c aggregate = aggregate ∨
      ∃ id e, c.stateDocument = some id ∧ b.graph.element? id = some e ∧ e.types.isSome = true ∧
        b.stateSource c aggregate = e := by
  unfold stateSource
  cases hd : c.stateDocument with
  | none => exact .inl rfl
  | some id =>
    cases he : b.graph.element? id with
    | none => exact .inl (by simp [he])
    | some e =>
      by_cases ht : e.types.isSome = true
      · exact .inr ⟨id, e, rfl, he, ht, by simp [he, Option.filter, ht]⟩
      · exact .inl (by simp [he, Option.filter, ht])

end Blueprint

end DomainScaffold
