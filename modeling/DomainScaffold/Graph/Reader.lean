import DomainScaffold.Graph.Basic
import DomainScaffold.Json.Record

/-!
# Reading graph documents

A graph document lists nodes; edges may be written at either end.

Results:
* `mem_edges_iff`: an edge is read from the sources of its end or the targets of its start.
-/

namespace DomainScaffold.DomainGraph

/-- A node as written. -/
structure Node where
  id : String
  label : String
  kind : String
  metadata : Option Json
  sources : List String
  targets : List String
  parent : Option String

/-- The fields of a node in order. -/
def Node.fieldNames : List String :=
  ["id", "name", "type", "metadata", "sources", "targets", "parent"]

/-- A node of a document. -/
def Node.ofJson? (v : Json) : Option Node := do
  match ← Json.record? Node.fieldNames v with
  | [id, label, kind, metadata, sources, targets, parent] =>
    return {
      id := ← Json.requiredText? id
      label := ← Json.requiredText? label
      kind := ← Json.requiredText? kind
      metadata := if Json.isAbsent metadata then none else metadata.map Json.distinct
      sources := ← Json.textList? sources
      targets := ← Json.textList? targets
      parent := ← Json.optionalText? parent }
  | _ => none

/-- The nodes of a document. -/
def nodes? (source : String) : Option (List Node) := do
  match ← Json.record? ["nodes"] (← Json.parseFields? source) with
  | [some (.list nodes)] => nodes.mapM Node.ofJson?
  | _ => none

/-- The element of a node. -/
def Node.element (n : Node) : Outcome Element :=
  match ElementKind.parse? n.kind with
  | none => .error (.unknownKind n.kind n.label n.id)
  | some kind => do
    let metadata ← match n.metadata with
      | none => .ok none
      | some raw => (Metadata.ofJson raw kind (normalizeLabel n.label) n.id).map some
    .ok ⟨n.id, n.label, kind, metadata, n.parent⟩

/-- The edges written at a node. -/
def Node.edges (n : Node) : List (String × String) :=
  n.sources.map (fun s => (s, n.id)) ++ n.targets.map fun t => (n.id, t)

/-- The graph of nodes. -/
def ofNodes (nodes : List Node) : Outcome DomainGraph := do
  let elements ← nodes.mapM Node.element
  ofParts elements (nodes.flatMap Node.edges)

/-- The graph of a document. -/
def ofText (source : String) : Outcome DomainGraph :=
  match nodes? source with
  | none => .error (.graphDocument jsonReport)
  | some nodes => ofNodes nodes

theorem mem_edges_iff {nodes : List Node} {a b : String} :
    (a, b) ∈ nodes.flatMap Node.edges ↔
      ∃ n ∈ nodes, (n.id = b ∧ a ∈ n.sources) ∨ (n.id = a ∧ b ∈ n.targets) := by
  simp only [List.mem_flatMap, Node.edges, List.mem_append, List.mem_map, Prod.mk.injEq]
  constructor
  · rintro ⟨n, hn, ⟨s, hs, rfl, rfl⟩ | ⟨t, ht, rfl, rfl⟩⟩
    · exact ⟨n, hn, .inl ⟨rfl, hs⟩⟩
    · exact ⟨n, hn, .inr ⟨rfl, ht⟩⟩
  · rintro ⟨n, hn, ⟨rfl, hs⟩ | ⟨rfl, ht⟩⟩
    · exact ⟨n, hn, .inl ⟨a, hs, rfl, rfl⟩⟩
    · exact ⟨n, hn, .inr ⟨b, ht, rfl, rfl⟩⟩

end DomainScaffold.DomainGraph
