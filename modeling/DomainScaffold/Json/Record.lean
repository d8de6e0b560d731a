import DomainScaffold.Json.Value

/-!
# Records in JSON

A record with fixed fields is written as an object or as the list of its field values in order.
In an object other keys are ignored, and a field must not be given twice; a list may be shorter
than the record and never longer.

Results:
* `length_padded`: a list gives one entry per field.
-/

namespace DomainScaffold.Json

/-- The values of a key, in order. -/
def valuesOf (key : String) (fields : List (String × Json)) : List Json :=
  (fields.filter fun f => f.1 == key).map Prod.snd

/-- The value of a field that occurs at most once. -/
def single? (key : String) (fields : List (String × Json)) : Option (Option Json) :=
  match valuesOf key fields with
  | [] => some none
  | [v] => some (some v)
  | _ :: _ :: _ => none

/-- The first entries of `items`, one per name, absent ones at the end. -/
def padded : (names : List String) → List Json → List (Option Json)
  | [], _ => []
  | _ :: names, [] => none :: padded names []
  | _ :: names, v :: items => some v :: padded names items

/-- The values of the named fields, each if present. -/
def record? (names : List String) : Json → Option (List (Option Json))
  | .object fields => names.mapM (single? · fields)
  | .list items => if items.length ≤ names.length then some (padded names items) else none
  | _ => none

theorem length_padded (names : List String) (items : List Json) :
    (padded names items).length = names.length := by
  induction names generalizing items with
  | nil => rfl
  | cons n names ih => cases items <;> simp [padded, ih]

/-! ## Field values -/

/-- A required text. -/
def requiredText? (v : Option Json) : Option String := v.bind text?

/-- A text that may be absent or `null`. -/
def optionalText? : Option Json → Option (Option String)
  | none | some .null => some none
  | some (.text s) => some (some s)
  | some _ => none

/-- A list of texts; an absent one is empty. -/
def textList? : Option Json → Option (List String)
  | none => some []
  | some (.list items) => items.mapM text?
  | some _ => none

/-- A flag with a default for an absent one. -/
def flag? (absent : Bool) : Option Json → Option Bool
  | none => some absent
  | some (.bool b) => some b
  | some _ => none

/-- Whether a field is absent or `null`. -/
def isAbsent : Option Json → Bool
  | none | some .null => true
  | some _ => false

end DomainScaffold.Json
