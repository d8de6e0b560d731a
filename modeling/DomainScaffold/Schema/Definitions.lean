import DomainScaffold.Schema.Reader

/-!
# Definitions and references

A schema has definitions of its own beside its root type, and a graph shares further ones between
all its schemas. A reference is looked up in its own schema first.

Resolving follows references until a type that is none is reached. What a reference stands for is
kept on the reference, with the flags of the reference carried over, and is not looked up again.

Results:
* `resolveIn_of_not_reference`: a type that is no reference resolves to itself.
* `insert_of_has`: a shared definition is never replaced.
-/

namespace DomainScaffold.Schema

/-! ## Shared definitions -/

/-- The definitions that all schemas of a graph share: each name with its schema and type. -/
structure Definitions where
  entries : Fields (Json × SchemaType)

namespace Definitions

/-- No definitions. -/
def empty : Definitions := ⟨[]⟩

/-- The type of a definition. -/
def find? (d : Definitions) (name : String) : Option SchemaType :=
  (Fields.find? name d.entries).map Prod.snd

/-- The schema of a definition. -/
def schema? (d : Definitions) (name : String) : Option Json :=
  (Fields.find? name d.entries).map Prod.fst

/-- The names in order. -/
def names (d : Definitions) : List String := Fields.keys d.entries

/-- Adds a definition; a name that is taken keeps its first schema. -/
def insert (d : Definitions) (name : String) (schema : Json) : Outcome Definitions :=
  if Fields.has name d.entries then .ok d
  else (typeOf schema).map fun t => ⟨Fields.insert name (schema, t) d.entries⟩

theorem insert_of_has {d : Definitions} {name : String} (h : Fields.has name d.entries = true)
    (schema : Json) : d.insert name schema = .ok d := by
  simp [insert, h]

/-- Changes the type of a definition. -/
def update (d : Definitions) (name : String) (f : SchemaType → SchemaType) : Definitions :=
  ⟨d.entries.map fun e => if e.1 = name then (e.1, e.2.1, f e.2.2) else e⟩

end Definitions

/-! ## The types of one schema -/

/-- The type of a schema, with the definitions that only it sees. -/
structure TypeSet where
  root : SchemaType
  localTypes : Fields SchemaType

/-- The definitions below a key of a schema. -/
def definitionsAt (schema : Json) (key : String) : List (String × Json) :=
  ((schema.field? key).bind Json.object?).getD []

/-- The types of named schemas. -/
def namedTypes (schemas : List (String × Json)) : Outcome (List (String × SchemaType)) :=
  schemas.mapM fun (name, schema) => (typeOf schema).map fun t => (name, t)

/-- The types of a schema. -/
def TypeSet.ofSchema (schema : Json) : Outcome TypeSet := do
  let root ← typeOf schema
  let own ← namedTypes (definitionsAt schema "definitions" ++ definitionsAt schema "$defs")
  .ok ⟨root, Fields.ofPairs own⟩

/-- The properties of the root, or the word for what it is instead. -/
def TypeSet.rootProperties (s : TypeSet) : Except String (List (String × SchemaType)) :=
  match s.root.properties? with
  | some properties => .ok properties
  | none => .error s.root.kindName

/-! ## Resolving -/

/-- The type that a name stands for, in the schema first. -/
def lookup? (s : TypeSet) (shared : Definitions) (target : String) : Option SchemaType :=
  (Fields.find? target s.localTypes).or (shared.find? target)

/-- A definition in the place of a reference to it: name and flags of the reference carry over, and
    the name of the definition stands in for a missing title. -/
def inPlaceOf (reference : Info) (target : String) (t : SchemaType) : SchemaType :=
  t.withInfo { t.info with
    required := reference.required
    nullable := t.info.nullable || reference.nullable
    name := reference.name.or t.info.name
    title := t.info.title.or (some target) }

/-- The number of links of a chain of references that are followed. -/
def maxLinks : Nat := 32

/-- Follows at most `links` references by the look-up; gives back the type with what was found kept
    on its references, and the type reached. -/
def resolveIn (find : String → Option SchemaType) :
    (links : Nat) → SchemaType → SchemaType × Outcome SchemaType
  | 0, t => (t, .error (.invalidSchema "reference chain too deep"))
  | links + 1, .node info (.reference target pointer kept) =>
    match kept.or ((find target).map (inPlaceOf info target)) with
    | none =>
      (.node info (.reference target pointer kept), .error (.unknownReference pointer))
    | some t =>
      let (t, reached) := resolveIn find links t
      (.node info (.reference target pointer (some t)), reached)
  | _ + 1, t => (t, .ok t)

/-- The type that `t` stands for. -/
def TypeSet.resolve (s : TypeSet) (shared : Definitions) (t : SchemaType) :
    Outcome SchemaType :=
  (resolveIn (lookup? s shared) maxLinks t).2

theorem resolveIn_of_not_reference (find : String → Option SchemaType) (links : Nat)
    {t : SchemaType} (h : ∀ target pointer kept, t.shape ≠ .reference target pointer kept) :
    resolveIn find (links + 1) t = (t, .ok t) := by
  obtain ⟨info, shape⟩ := t
  cases shape <;> first | rfl | exact absurd rfl (h _ _ _)

end DomainScaffold.Schema
