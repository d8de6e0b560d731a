import DomainScaffold.Decimal.Integer
import DomainScaffold.Error
import DomainScaffold.Json.Printer
import DomainScaffold.Text.Blank
import DomainScaffold.Text.Split

/-!
# Shorthand schemas

A compact notation for schemas: an object whose keys are properties and whose values are type
texts or nested objects. A key that ends with `?` is optional. A type text names a type, followed
by options between bars; `[]` makes an array, and any name that is no primitive type refers to a
definition.

Results:
* `expand_object_type`: the schema of a shorthand object is an object schema.
-/

namespace DomainScaffold.Schema.Shorthand

/-! ## Option values -/

/-- The digits of a text without a sign, and whether the sign was a minus. -/
def unsigned (cs : List Char) : Bool × List Char :=
  match cs with
  | '+' :: cs => (false, cs)
  | '-' :: cs => (true, cs)
  | cs => (false, cs)

/-- An integer of 64 bits, with an optional sign. -/
def integer? (cs : List Char) : Option Int :=
  let (negative, ds) := unsigned cs
  if ds.isEmpty || !ds.all Char.isDigit then none
  else
    let n := Decimal.value ds
    let i : Int := if negative then -n else n
    if -0x8000000000000000 ≤ i ∧ i < 0x8000000000000000 then some i else none

/-- `digits · 10 ^ e`, rounded; exponents beyond the range of the format need no power. -/
def scaled (negative : Bool) (digits : Nat) (size : Nat) (e : Int) : Binary64 :=
  if digits = 0 ∨ e + size < -400 then ⟨negative, 0⟩
  else if 400 < e then ⟨negative, Binary64.infinityCode⟩
  else if e < 0 then Binary64.ofRatio negative digits (Nat.pow 10 e.natAbs)
  else Binary64.ofRatio negative (digits * Nat.pow 10 e.natAbs) 1

/-- The exponent behind a mantissa: nothing, or a letter and an integer. -/
def exponent? : List Char → Option Int
  | [] => some 0
  | c :: cs =>
    if c = 'e' ∨ c = 'E' then
      let (negative, ds) := unsigned cs
      if ds.isEmpty || !ds.all Char.isDigit then none
      else some (if negative then -(Decimal.value ds : Int) else Decimal.value ds)
    else none

/-- A decimal number with an optional sign, fraction and exponent; infinity and what is not a
    number have words. -/
def real? (cs : List Char) : Option Binary64 :=
  let (negative, cs) := unsigned cs
  let word := String.ofList (cs.map Char.toLower)
  if word = "inf" ∨ word = "infinity" then some ⟨negative, Binary64.infinityCode⟩
  else if word = "nan" then some ⟨negative, Binary64.infinityCode + 1⟩
  else
    let whole := cs.takeWhile Char.isDigit
    let rest := cs.dropWhile Char.isDigit
    let (fraction, rest) := match rest with
      | '.' :: rest => (rest.takeWhile Char.isDigit, rest.dropWhile Char.isDigit)
      | rest => ([], rest)
    let ds := whole ++ fraction
    if ds.isEmpty then none
    else (exponent? rest).map fun e =>
      scaled negative (Decimal.value ds) ds.length (e - fraction.length)

/-- The value of an option: a number, a flag or a text. -/
def optionValue (raw : String) : Json :=
  let raw := Text.trim raw
  match integer? raw.toList, real? raw.toList with
  | some i, _ => .int i
  | none, some x => if x.isFinite then .real x else .null
  | none, none =>
    match raw with
    | "true" => .bool true
    | "false" => .bool false
    | raw => .text raw

/-! ## Type texts -/

/-- The type names that are not references. -/
def primitives : List String :=
  ["string", "integer", "number", "boolean", "null", "object", "array"]

/-- The schema of a type name. -/
def named (name : String) : Fields Json :=
  if primitives.contains name then [("type", .text name)]
  else [("$ref", .text ("#/definitions/" ++ name))]

/-- The schema with `null` allowed: beside the type name if there is one, else as a choice. -/
def nullable (fields : Fields Json) : Fields Json :=
  match Fields.find? "type" fields with
  | some (.text name) =>
    Fields.insert "type" (.list [.text name, .text "null"]) (Fields.remove "type" fields)
  | _ =>
    [("oneOf", .list [.object (Fields.remove "type" fields),
      .object [("type", .text "null")]])]

/-- The schema with an option of the type text `spec` added. -/
def withOption (spec : String) (fields : Fields Json) (option : String) :
    Outcome (Fields Json) :=
  if option = "null" then .ok (nullable fields)
  else
    match Text.cutFirst? ':' option with
    | none =>
      .error (.invalidSchema
        ("invalid shorthand option '" ++ option ++ "' in '" ++ spec ++ "'"))
    | some (key, raw) =>
      let value := if key = "enum" then
          .list ((Text.splitOn ',' raw).map fun choice => .text (Text.trim choice))
        else optionValue raw
      .ok (Fields.insert (Text.trim key) value fields)

theorem length_dropLead_lt {lead cs rest : List Char} (hl : lead ≠ [])
    (h : Text.dropLead lead cs = some rest) : rest.length < cs.length := by
  rw [Text.dropLead_eq_some_iff] at h
  subst h
  have : 0 < lead.length := List.length_pos_iff.2 hl
  simp
  omega

/-- The schema of a type without options, given backwards; `spec` is the text it stands in. -/
def typeBackwards (spec : String) (back : List Char) : Outcome (Fields Json) :=
  if (Text.trimBlank back).isEmpty then
    .error (.invalidSchema ("empty shorthand type in '" ++ spec ++ "'"))
  else
    match _h : Text.dropLead [']', '['] (Text.trimBlank back) with
    | some item => do
      let items ← typeBackwards (String.ofList item.reverse) item
      .ok [("type", .text "array"), ("items", .object items)]
    | none => .ok (named (String.ofList (Text.trimBlank back).reverse))
termination_by back.length
decreasing_by
  have h1 := length_dropLead_lt (by simp) _h
  have h2 := Text.length_trimBlank_le back
  omega

/-- The schema of a type text. -/
def ofText (spec : String) : Outcome Json := do
  match Text.splitOn '|' spec with
  | [] => .error (.invalidSchema ("empty shorthand type in '" ++ spec ++ "'"))
  | first :: options =>
    let base ← typeBackwards spec first.toList.reverse
    let fields ← (options.map Text.trim).foldlM (withOption spec) base
    .ok (.object fields)

/-! ## Objects -/

/-- The key without a question mark at its end, and whether it had one. -/
def propertyName (key : String) : String × Bool :=
  match Text.beforeTail? "?" key with
  | some name => (name, true)
  | none => (key, false)

/-- The schema of an object whose properties have the given keys and schemas. -/
def objectSchema (title : Option Json) (properties : List (String × Json)) : Json :=
  let named := properties.map fun p => (propertyName p.1, p.2)
  .object ([("type", .text "object")] ++ (title.toList.map fun t => ("title", t)) ++
    [("properties", .object (Fields.ofPairs (named.map fun p => (p.1.1, p.2)))),
      ("required", .list ((named.filter fun p => !p.1.2).map fun p => .text p.1.1)),
      ("additionalProperties", .bool false)])

mutual

/-- The schema of a shorthand value. -/
def expand : Json → Outcome Json
  | .object fields =>
    (expandFields fields).map (objectSchema (Fields.find? "$title" fields))
  | .text spec => ofText spec
  | other => .error (.invalidSchema ("unsupported shorthand value " ++ other.compact))

/-- The schemas of the properties of a shorthand object. -/
def expandFields : List (String × Json) → Outcome (List (String × Json))
  | [] => .ok []
  | (key, value) :: rest =>
    if key = "$title" then expandFields rest
    else do
      let schema ← expand value
      let schemas ← expandFields rest
      .ok ((key, schema) :: schemas)

end

theorem expand_object_type {fields : List (String × Json)} {schema : Json}
    (h : expand (.object fields) = .ok schema) :
    schema.field? "type" = some (.text "object") := by
  rw [expand] at h
  cases hf : expandFields fields with
  | error e => rw [hf] at h; cases h
  | ok ps =>
    rw [hf] at h
    cases h
    simp [objectSchema, Json.field?, Json.object?, Fields.find?]

end DomainScaffold.Schema.Shorthand
