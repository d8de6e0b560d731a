import DomainScaffold.Schema.Definitions

/-!
# Names in schema types

The names that a schema mentions: the keys of its properties and the targets of its references.
Everything that is named after a part of a schema is named after one of them.

Results:
* `key_mem_mentions`, `mem_mentions_of_property`: properties are mentioned with all they mention.
-/

namespace DomainScaffold

open Schema

namespace SchemaType

mutual

/-- The keys and targets in a type. -/
def mentions : SchemaType → List String
  | .node _ shape => mentionsOfShape shape

/-- The keys and targets in a shape. -/
def mentionsOfShape : Shape SchemaType → List String
  | .object properties _ _ => mentionsOfProperties properties
  | .array items => mentionsOfOption items
  | .reference target _ kept => target :: mentionsOfOption kept
  | _ => []

/-- The keys and targets in properties. -/
def mentionsOfProperties : List (String × SchemaType) → List String
  | [] => []
  | (key, t) :: rest => key :: (mentions t ++ mentionsOfProperties rest)

/-- The keys and targets in a type that may be absent. -/
def mentionsOfOption : Option SchemaType → List String
  | none => []
  | some t => mentions t

end

theorem key_mem_mentions {properties : List (String × SchemaType)} {p : String × SchemaType}
    (h : p ∈ properties) : p.1 ∈ mentionsOfProperties properties := by
  induction properties with
  | nil => simp at h
  | cons q rest ih =>
    rcases List.mem_cons.1 h with rfl | h
    · simp [mentionsOfProperties]
    · simp [mentionsOfProperties, ih h]

theorem mem_mentions_of_property {properties : List (String × SchemaType)}
    {p : String × SchemaType} (h : p ∈ properties) {name : String} (hn : name ∈ mentions p.2) :
    name ∈ mentionsOfProperties properties := by
  induction properties with
  | nil => simp at h
  | cons q rest ih =>
    rcases List.mem_cons.1 h with rfl | h
    · simp [mentionsOfProperties, hn]
    · simp [mentionsOfProperties, ih h]

end SchemaType

namespace Schema

/-- The keys and targets in the types of a schema and in the shared definitions. -/
def TypeSet.mentions (s : TypeSet) (shared : Definitions) : List String :=
  s.root.mentions ++ s.localTypes.flatMap (fun d => d.2.mentions) ++
    shared.entries.flatMap fun d => d.2.2.mentions

end Schema

end DomainScaffold
