import DomainScaffold.Decimal.Binary64

/-!
# Schema types

A schema describes a tree of typed nodes. What every node carries (its name, title, description
and flags) stands beside its shape. A reference may keep the type it was resolved to.
-/

namespace DomainScaffold.Schema

/-! ## Shapes -/

/-- Rules for a text. -/
structure TextRules where
  format : Option String
  pattern : Option String
  choices : List String
  minLength : Option Nat
  maxLength : Option Nat
  deriving DecidableEq, Repr

/-- The bounds of a number. -/
structure NumberRules where
  minimum : Option Binary64
  maximum : Option Binary64
  deriving DecidableEq, Repr

/-- What a node is, with nodes of type `α` below it. -/
inductive Shape (α : Type) where
  | text (rules : TextRules)
  | integer (rules : NumberRules)
  | number (rules : NumberRules)
  | boolean
  | null
  | object (properties : List (String × α)) (required : List String) (additional : Bool)
  | array (items : Option α)
  | reference (target pointer : String) (resolved : Option α)
  | mixed
  deriving BEq, Repr

/-! ## Nodes -/

/-- What every node carries. -/
structure Info where
  /-- The name of the property that the node describes. -/
  name : Option String
  title : Option String
  description : Option String
  required : Bool
  nullable : Bool
  deriving DecidableEq, Repr

/-- No name, no texts, neither required nor nullable. -/
def Info.plain : Info := ⟨none, none, none, false, false⟩

end DomainScaffold.Schema

namespace DomainScaffold

open Schema in
/-- A typed node of a schema. -/
inductive SchemaType where
  | node (info : Info) (shape : Shape SchemaType)

namespace SchemaType

open Schema

/-- What the node carries. -/
def info : SchemaType → Info
  | node info _ => info

/-- What the node is. -/
def shape : SchemaType → Shape SchemaType
  | node _ shape => shape

instance : Inhabited SchemaType := ⟨node Info.plain .mixed⟩

/-- The node with other flags and texts. -/
def withInfo (info : Info) (t : SchemaType) : SchemaType := node info t.shape

/-- The word for the shape of a node in reports. -/
def kindName (t : SchemaType) : String :=
  match t.shape with
  | .text _ => "StringType"
  | .integer _ => "IntegerType"
  | .number _ => "NumberType"
  | .boolean => "BooleanType"
  | .null => "NullType"
  | .object .. => "ObjectType"
  | .array _ => "ArrayType"
  | .reference .. => "ReferenceType"
  | .mixed => "MixedType"

/-- Whether a node holds a single value. -/
def isScalar (t : SchemaType) : Bool :=
  match t.shape with
  | .text _ | .integer _ | .number _ | .boolean => true
  | _ => false

/-- The properties of an object. -/
def properties? (t : SchemaType) : Option (List (String × SchemaType)) :=
  match t.shape with
  | .object properties _ _ => some properties
  | _ => none

@[simp] theorem info_node (i : Info) (s : Shape SchemaType) : (node i s).info = i := rfl

@[simp] theorem shape_node (i : Info) (s : Shape SchemaType) : (node i s).shape = s := rfl

end SchemaType

end DomainScaffold
