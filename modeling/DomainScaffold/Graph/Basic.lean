import DomainScaffold.Graph.Element
import DomainScaffold.Naming.Words

/-!
# Domain graphs

A graph holds elements with distinct ids and directed edges between them. An aggregate handles the
commands next to it; a command records its own events, or those of its aggregate if it has none.

Results:
* `mem_outgoing_iff`, `mem_incoming_iff`: both directions of the neighbour relation are the edges.
* `mem_neighbourIds_comm`: being neighbours is symmetric.
-/

namespace DomainScaffold

open Schema

/-- Elements in the order of the document, edges, and the definitions that all schemas share. -/
structure DomainGraph where
  elements : List Element
  edges : List (String × String)
  definitions : Definitions

/-- The edges at one element. -/
structure Connection where
  identity : String
  /-- Where edges to the element come from. -/
  sources : List String
  /-- Where edges from the element lead. -/
  targets : List String
  deriving DecidableEq, Repr

/-- An aggregate with its commands and what they record. -/
structure AggregateConnection where
  aggregate : String
  /-- Every command with the events it records. -/
  commands : List (String × List String)
  /-- Every recorded event, once. -/
  events : List String
  stateDocument : Option String
  deriving DecidableEq, Repr

namespace DomainGraph

/-! ## Construction -/

/-- The first id that occurs again later. -/
def firstRepeated? : (seen : List String) → List Element → Option String
  | _, [] => none
  | seen, e :: es => if seen.contains e.id then some e.id else firstRepeated? (e.id :: seen) es

/-- The first end of an edge that is no element. -/
def firstUnknown? (elements : List Element) (edges : List (String × String)) : Option String :=
  (edges.flatMap fun e => [e.1, e.2]).find? fun id => !elements.any fun e => e.id == id

/-- Registers the schema of a document under its name. -/
def register (d : Definitions) (e : Element) : Outcome Definitions :=
  match e.is .document, e.schema with
  | true, some schema => d.insert (Naming.pascal e.name) schema
  | _, _ => .ok d

/-- The graph of elements and edges. -/
def ofParts (elements : List Element) (edges : List (String × String)) : Outcome DomainGraph :=
  match firstRepeated? [] elements, firstUnknown? elements edges with
  | some id, _ => .error (.duplicateElement id)
  | none, some id => .error (.unknownElement id)
  | none, none =>
    (elements.foldlM register Definitions.empty).map fun d => ⟨elements, edges, d⟩

/-! ## Neighbours -/

variable (g : DomainGraph)

/-- The element with an id. -/
def element? (id : String) : Option Element := g.elements.find? fun e => e.id == id

/-- The ends of edges from an element, each once. -/
def outgoing (id : String) : List String :=
  ((g.edges.filter fun e => e.1 == id).map Prod.snd).eraseDups

/-- The starts of edges to an element, each once. -/
def incoming (id : String) : List String :=
  ((g.edges.filter fun e => e.2 == id).map Prod.fst).eraseDups

/-- The neighbours in both directions, outgoing ones first, each once. -/
def neighbourIds (id : String) : List String := (g.outgoing id ++ g.incoming id).eraseDups

/-- The neighbouring elements. -/
def neighbours (id : String) : List Element := (g.neighbourIds id).filterMap g.element?

theorem mem_outgoing_iff {a b : String} : b ∈ g.outgoing a ↔ (a, b) ∈ g.edges := by
  simp [outgoing, List.mem_eraseDups]

theorem mem_incoming_iff {a b : String} : a ∈ g.incoming b ↔ (a, b) ∈ g.edges := by
  simp [incoming, List.mem_eraseDups]

theorem mem_neighbourIds_comm {a b : String} :
    b ∈ g.neighbourIds a ↔ a ∈ g.neighbourIds b := by
  simp [neighbourIds, List.mem_eraseDups, mem_outgoing_iff, mem_incoming_iff, or_comm]

/-- The edges at an element. -/
def connection? (id : String) : Option Connection :=
  (g.element? id).map fun _ => ⟨id, g.incoming id, g.outgoing id⟩

/-- The elements of a kind. -/
def ofKind (kind : ElementKind) : List Element := g.elements.filter fun e => e.is kind

/-- The targets of a kind. -/
def targetsOfKind (id : String) (kind : ElementKind) : List String :=
  (g.outgoing id).filter fun t => (g.element? t).any fun e => e.is kind

/-! ## Aggregates -/

/-- What a command of an aggregate records: its own events, else those of the aggregate. -/
def recordedBy (aggregate command : String) : List String :=
  let own := g.targetsOfKind command .event
  if own.isEmpty then g.targetsOfKind aggregate .event else own

/-- The commands next to an aggregate. -/
def commandsOf (aggregate : String) : List Element :=
  (g.neighbours aggregate).filter fun e => e.is .command

/-- The document with the state of an aggregate. -/
def stateOf (aggregate : String) : Option Element :=
  (g.neighbours aggregate).find? Element.isAggregateState

/-- The aggregate with an id, its commands, their events and its state. -/
def aggregateConnection (id : String) : Outcome AggregateConnection :=
  match (g.element? id).filter fun e => e.is .aggregate with
  | none => .error (.aggregateNotFound id id)
  | some aggregate =>
    let commands := g.commandsOf id
    match commands.find? fun c => (g.recordedBy id c.id).isEmpty with
    | some c => .error (.commandWithoutEvent c.name c.id aggregate.name)
    | none =>
      let recorded := commands.map fun c => (c.id, g.recordedBy id c.id)
      .ok ⟨id, recorded, (recorded.flatMap Prod.snd).eraseDups, (g.stateOf id).map Element.id⟩

/-- Every aggregate with its connection, in the order of the graph. -/
def aggregateConnections : Outcome (List AggregateConnection) :=
  (g.ofKind .aggregate).mapM fun e => g.aggregateConnection e.id

/-- The first aggregate next to an element. -/
def nearestAggregate (id : String) : Option Element :=
  (g.neighbours id).find? fun e => e.is .aggregate

/-- The aggregate that an element belongs to: a command to the one next to it, an event to the one
    next to it or next to a command that records it, a state document to the one next to it. -/
def aggregateFor (id : String) : Option Element :=
  match g.element? id with
  | none => none
  | some e =>
    match e.kind with
    | .aggregate => some e
    | .command => g.nearestAggregate id
    | .event =>
      (g.nearestAggregate id).or
        (((g.incoming id).filterMap g.element?).filter (fun s => s.is .command)
          |>.findSome? fun c => g.nearestAggregate c.id)
    | .document => if e.isAggregateState then g.nearestAggregate id else none
    | _ => none

/-- The document with the state that a queried document is about. -/
def stateDocumentFor (document : String) : Option Element :=
  (g.neighbours document).find? fun e => e.id != document && e.isAggregateState

end DomainGraph

end DomainScaffold
