import DomainScaffold.Decimal.Binary64
import DomainScaffold.Fields

/-!
# JSON values

A JSON value keeps the order of its object keys, because that order decides the order of what is
generated. A number is an integer that fits 64 bits, signed or unsigned, or else a binary64
number.
-/

namespace DomainScaffold

/-- A JSON value. -/
inductive Json where
  | null
  | bool (b : Bool)
  | int (i : Int)
  | real (x : Binary64)
  | text (s : String)
  | list (items : List Json)
  | object (fields : List (String × Json))
  deriving Inhabited, BEq, Repr

namespace Json

/-- The text of a string value. -/
def text? : Json → Option String
  | .text s => some s
  | _ => none

/-- The flag of a Boolean value. -/
def bool? : Json → Option Bool
  | .bool b => some b
  | _ => none

/-- The items of a list. -/
def list? : Json → Option (List Json)
  | .list items => some items
  | _ => none

/-- The fields of an object. -/
def object? : Json → Option (Fields Json)
  | .object fields => some fields
  | _ => none

/-- A non-negative integer. -/
def nat? : Json → Option Nat
  | .int i => if 0 ≤ i then some i.toNat else none
  | _ => none

/-- Any number, rounded to binary64. -/
def real? : Json → Option Binary64
  | .int i => some (Binary64.ofInt i)
  | .real x => some x
  | _ => none

/-- The value of an object's field; `none` for any other value. -/
def field? (key : String) (value : Json) : Option Json := value.object?.bind (Fields.find? key)

/-- Whether the value is `null`. -/
def isNull : Json → Bool
  | .null => true
  | _ => false

end Json

end DomainScaffold
