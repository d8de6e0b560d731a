import DomainScaffold.Schema.Definitions

/-!
# Positions in schema types

A position names a node: a tree to start in, and moves downwards. Resolving the type at a position
keeps what was found in the tree and leads to the position of the type reached.

Results:
* `below?_replaceBelow`: what is put at a position is found there.
-/

namespace DomainScaffold.Schema

/-! ## Moves -/

/-- A step from a node to one below it. -/
inductive Move where
  | property (name : String)
  | items
  | resolved
  deriving DecidableEq, Repr

/-- The node below. -/
def child? (move : Move) (t : SchemaType) : Option SchemaType :=
  match move, t.shape with
  | .property name, .object properties _ _ => Fields.find? name properties
  | .items, .array items => items
  | .resolved, .reference _ _ kept => kept
  | _, _ => none

/-- Puts a node below, in place of the one that is there. -/
def withChild (move : Move) (new : SchemaType) (t : SchemaType) : SchemaType :=
  match move, t.shape with
  | .property name, .object properties required additional =>
    .node t.info (.object (Fields.insert name new properties) required additional)
  | .items, .array _ => .node t.info (.array (some new))
  | .resolved, .reference target pointer _ => .node t.info (.reference target pointer (some new))
  | _, _ => t

/-- The node behind several moves. -/
def below? : List Move → SchemaType → Option SchemaType
  | [], t => some t
  | move :: moves, t => (child? move t).bind (below? moves)

/-- Replaces the node behind several moves. -/
def replaceBelow (new : SchemaType) : List Move → SchemaType → SchemaType
  | [], _ => new
  | move :: moves, t =>
    match child? move t with
    | none => t
    | some c => withChild move (replaceBelow new moves c) t

theorem child?_withChild {move : Move} {t c : SchemaType} (h : child? move t = some c)
    (new : SchemaType) : child? move (withChild move new t) = some new := by
  obtain ⟨info, shape⟩ := t
  cases move <;> cases shape <;>
    simp_all [child?, withChild, Fields.find?_insert_self]

theorem below?_replaceBelow {moves : List Move} {t c : SchemaType} (h : below? moves t = some c)
    (new : SchemaType) : below? moves (replaceBelow new moves t) = some new := by
  induction moves generalizing t with
  | nil => rfl
  | cons move moves ih =>
    obtain ⟨d, hd, hc⟩ := Option.bind_eq_some_iff.1 h
    simp only [replaceBelow, hd, below?, child?_withChild hd, Option.bind_some]
    exact ih hc

/-! ## Positions -/

/-- The tree a position starts in. -/
inductive Origin where
  | root
  | localType (name : String)
  | shared (name : String)
  deriving DecidableEq, Repr

/-- A node of a schema or of the shared definitions. -/
structure Position where
  origin : Origin
  moves : List Move
  deriving DecidableEq, Repr

/-- The position behind one more move. -/
def Position.below (p : Position) (move : Move) : Position := ⟨p.origin, p.moves ++ [move]⟩

/-- A schema with the shared definitions it is read with. -/
structure Registry where
  types : TypeSet
  shared : Definitions

namespace Registry

/-- The tree of an origin. -/
def tree? (r : Registry) : Origin → Option SchemaType
  | .root => some r.types.root
  | .localType name => Fields.find? name r.types.localTypes
  | .shared name => r.shared.find? name

/-- Replaces the tree of an origin. -/
def withTree (r : Registry) (new : SchemaType) : Origin → Registry
  | .root => { r with types := { r.types with root := new } }
  | .localType name =>
    { r with types := { r.types with localTypes := Fields.insert name new r.types.localTypes } }
  | .shared name => { r with shared := r.shared.update name fun _ => new }

/-- The node at a position. -/
def typeAt? (r : Registry) (p : Position) : Option SchemaType :=
  (r.tree? p.origin).bind (below? p.moves)

/-- Replaces the node at a position. -/
def replaceAt (r : Registry) (p : Position) (new : SchemaType) : Registry :=
  match r.tree? p.origin with
  | none => r
  | some t => r.withTree (replaceBelow new p.moves t) p.origin

/-- Resolves the type at a position link by link, each link as the ones before it have left the
    registry: what a reference stands for may hold the reference itself. -/
def resolveLinks : (links : Nat) → Registry → Position → Registry × Outcome Position
  | 0, r, _ => (r, .error (.invalidSchema "reference chain too deep"))
  | links + 1, r, p =>
    match r.typeAt? p with
    | some (.node info (.reference target pointer kept)) =>
      match kept.or ((lookup? r.types r.shared target).map (inPlaceOf info target)) with
      | none => (r, .error (.unknownReference pointer))
      | some t =>
        resolveLinks links (r.replaceAt p (.node info (.reference target pointer (some t))))
          (p.below .resolved)
    | _ => (r, .ok p)

/-- Resolves the type at a position; gives the registry with what was found kept, and the position
    of the type reached. -/
def resolveAt (r : Registry) (p : Position) : Registry × Outcome Position :=
  resolveLinks maxLinks r p

end Registry

end DomainScaffold.Schema
