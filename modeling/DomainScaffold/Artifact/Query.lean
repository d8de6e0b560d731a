import DomainScaffold.Artifact.Description
import DomainScaffold.Artifact.Sidecar

/-!
# Query classes

A document that can be queried gets a record class for the request and a resolver that answers it.
When the state of an aggregate is stored, a finder looks it up for the resolver.

Results:
* `storedAggregate?_eq_none`: without a store no state is looked up.
-/

namespace DomainScaffold.Blueprint

open Php Merge Naming

variable (b : Blueprint)

/-! ## Stored states -/

/-- The aggregate whose stored state answers a query on a document. -/
def storedAggregate? (document : Element) : Option Element :=
  if b.naming.storeState.isNone then none
  else
    (if document.isAggregateState then some document
      else b.graph.stateDocumentFor document.id).bind fun state => b.graph.aggregateFor state.id

theorem storedAggregate?_eq_none (h : b.naming.storeState = none) (document : Element) :
    b.storedAggregate? document = none := by
  simp [storedAggregate?, h]

/-- The changes that give a class an object through its constructor. -/
def injected (className property : String) : List Change :=
  [.property (.privateOne (some className) property none),
    .method (.publicOne "__construct" [.typed className property] none
      [.ofExpr (.assign (.ofThis property) (.var property))])]

/-- The name of the method that finds the state of an aggregate. -/
def finderMethod (aggregate : Element) : String := b.naming.name .finderMethod aggregate.name

/-- The store with the states of an aggregate. -/
def storeOf (aggregate : Element) : String :=
  (b.naming.storeState.map fun store => store.apply aggregate.name).getD ""

/-- The method that finds the state of an aggregate by its identifier. -/
def find (aggregate : Element) (state : ClassLocation) : MethodDecl :=
  let id := b.identifier aggregate
  .publicOne (b.finderMethod aggregate) [.typed "string" id] (some ("?" ++ state.className))
    [.ofExpr (.assign (.var "document")
        (.methodCall (.ofThis "documentStore") "getDoc"
          [.text (b.storeOf aggregate), .var id])),
      .ofReturn (.raw
        ("$document === null ? null : " ++ state.className ++ "::fromArray($document)"))]

/-- The changes of a finder. -/
def finderChanges (aggregate : Element) (finder state : ClassLocation) : List Change :=
  [Framework.imported Framework.documentStore] ++
    (if state.namespaceName = finder.namespaceName then []
      else [Framework.imported state.fullName]) ++
    injected (Framework.short Framework.documentStore) "documentStore" ++
    [.method (b.find aggregate state)]

/-! ## Resolvers -/

/-- The changes that make a class a resolver. -/
def resolverBase : List Change :=
  [Framework.imported Framework.resolver, Framework.imported Framework.message,
    .interface (Framework.short Framework.resolver)]

/-- The method that answers a query. -/
def resolveMethod (message returnType : String) (answer : Expr) : MethodDecl :=
  .publicOne "resolve" [.typed (Framework.short Framework.message) message] (some returnType)
    [.ofReturn answer]

/-- The answer that a finder gives. -/
def foundState (message : String) (aggregate : Element) : Expr :=
  .methodCall (.ofThis "finder") (b.finderMethod aggregate)
    [.methodCall (.var message) "get" [.text (b.identifier aggregate)]]

/-- A resolver without a finder. -/
def plainResolver (message : String) (l : ClassLocation) : Artifact :=
  .ofClass ("Resolver\\" ++ l.className) l
    (resolverBase ++ [.method (resolveMethod message "array" (.list []))])

/-- A resolver with the finder that it asks. -/
def findingResolver (message : String) (l : ClassLocation) (aggregate : Element) :
    Outcome (List Artifact) := do
  let state ← b.stateClass aggregate
  let finder ← b.locateIn b.layout.finderDir (b.className aggregate ++ "Finder")
  return [.ofClass ("Resolver\\" ++ l.className) l
      (resolverBase ++ [Framework.imported finder.fullName, Framework.imported state.fullName] ++
        injected finder.className "finder" ++
        [.method (resolveMethod message ("?" ++ state.className) (b.foundState message aggregate))]),
    .ofClass ("Finder\\" ++ finder.className) finder (b.finderChanges aggregate finder state)]

/-- The resolver of a document, with its finder if there is one. -/
def resolvers (message : String) (l : ClassLocation) (document : Element) :
    Outcome (List Artifact) :=
  match b.storedAggregate? document with
  | some aggregate => b.findingResolver message l aggregate
  | none => .ok [plainResolver message l]

/-! ## Queries -/

/-- The record class of a request. -/
def request (document : Element) (types : Schema.TypeSet) (className : String) :
    Outcome Artifact := do
  let location ← b.locateIn b.layout.queryDir className
  let changes ← b.rootRecord document types
  return .ofClass ("Query\\" ++ className) location changes

/-- The classes for the query on a document, if it can be queried. -/
def query (document : Element) : Outcome (List Artifact) :=
  if document.is .document then
    match document.queryTypes with
    | none => .ok []
    | some types => do
      let name := b.queryNameOf document
      let request ← b.request document types (b.naming.name .className name)
      let resolver ← b.locateIn b.layout.resolverDir (b.className document ++ "Resolver")
      let resolvers ← b.resolvers (b.naming.name .parameterName name) resolver document
      let description ← b.queryDescription document name resolver
      return request :: resolvers ++ [description]
  else .error (document.shapeError "Document" document.kind.name)

end DomainScaffold.Blueprint
