import DomainScaffold.Error
import DomainScaffold.Json.Printer
import DomainScaffold.Schema.Type
import DomainScaffold.Text.Split

/-!
# Reading schemas

The type of a JSON schema. A choice between one schema and `null` is that schema made nullable. A
schema without a `type` is an object, an array or a text if it has properties, items or an
enumeration, and anything otherwise.

Results:
* `typeOf_eq_error_of_not_object`: what is no object is no schema.
* `referenceTarget_mem`: a reference names one of the segments of its pointer.
-/

namespace DomainScaffold.Schema

/-! ## Fields of a schema -/

/-- A text field. -/
def textField (fields : Fields Json) (key : String) : Option String :=
  (Fields.find? key fields).bind Json.text?

/-- The rules of a text. An enumeration lists texts as they are and other values as JSON. -/
def textRules (fields : Fields Json) : TextRules where
  format := textField fields "format"
  pattern := textField fields "pattern"
  choices := (((Fields.find? "enum" fields).bind Json.list?).getD []).filterMap fun
    | .null => none
    | .text s => some s
    | v => some v.compact
  minLength := (Fields.find? "minLength" fields).bind Json.nat?
  maxLength := (Fields.find? "maxLength" fields).bind Json.nat?

/-- The bounds of a number. -/
def numberRules (fields : Fields Json) : NumberRules where
  minimum := (Fields.find? "minimum" fields).bind Json.real?
  maximum := (Fields.find? "maximum" fields).bind Json.real?

/-- The required names of an object. -/
def requiredNames (fields : Fields Json) : List String :=
  (((Fields.find? "required" fields).bind Json.list?).getD []).filterMap Json.text?

/-- Whether an object may have other properties. -/
def allowsAdditional (fields : Fields Json) : Bool :=
  match Fields.find? "additionalProperties" fields with
  | some (.bool false) => false
  | _ => true

/-- Title and description. -/
def infoOf (fields : Fields Json) : Info :=
  { Info.plain with title := textField fields "title", description := textField fields "description" }

/-! ## References -/

/-- The definition that a pointer names: its last segment that is not empty. -/
def referenceTarget (pointer : String) : String :=
  let segments := (Text.splitAt (fun c => c == '/' || c == '#') pointer.toList).filter (· != [])
  String.ofList (segments.getLast?.getD [])

/-- A reference that was not resolved yet. -/
def referenceTo (pointer : String) : Shape SchemaType :=
  .reference (referenceTarget pointer) pointer none

theorem referenceTarget_mem {pointer : String} (h : referenceTarget pointer ≠ "") :
    (referenceTarget pointer).toList ∈
      Text.splitAt (fun c => c == '/' || c == '#') pointer.toList := by
  unfold referenceTarget at h ⊢
  generalize hs : (Text.splitAt (fun c => c == '/' || c == '#') pointer.toList).filter (· != []) =
    segments at h ⊢
  cases hl : segments.getLast? with
  | none => simp [hl] at h
  | some last =>
    have hm : last ∈ segments := List.mem_of_getLast? hl
    rw [← hs] at hm
    simpa [hl] using (List.mem_filter.1 hm).1

/-! ## Variants and type names -/

/-- Whether a schema only allows `null`. -/
def isNullSchema (v : Json) : Bool := (v.field? "type").bind Json.text? == some "null"

/-- The variants of a choice. -/
def variants? (fields : Fields Json) : Option (List Json) :=
  ((Fields.find? "oneOf" fields).or (Fields.find? "anyOf" fields)).bind Json.list?

/-- The only variant besides `null`, and whether `null` is a variant too. -/
def soleVariant? (fields : Fields Json) : Option (Json × Bool) :=
  match variants? fields with
  | none => none
  | some variants =>
    match variants.filter (fun v => !isNullSchema v) with
    | [v] => some (v, 1 < variants.length)
    | _ => none

/-- The type name of a schema, if any, and whether `null` is allowed beside it. -/
def typeName (fields : Fields Json) : Outcome (Option String × Bool) :=
  match Fields.find? "type" fields with
  | some (.text name) => .ok (some name, false)
  | some (.list names) =>
    let names := names.filterMap Json.text?
    let nullable := names.contains "null"
    .ok ((names.find? (· != "null")).or (if nullable then some "null" else none), nullable)
  | some other => .error (.invalidSchema ("invalid type declaration " ++ other.compact))
  | none =>
    .ok (if Fields.has "properties" fields then some "object"
      else if Fields.has "items" fields then some "array"
      else if Fields.has "enum" fields then some "string"
      else none, false)

/-! ## Sizes -/

theorem sizeOf_find?_lt {key : String} {fields : List (String × Json)} {v : Json}
    (h : Fields.find? key fields = some v) : sizeOf v < sizeOf fields := by
  induction fields with
  | nil => simp [Fields.find?] at h
  | cons f fields ih =>
    obtain ⟨k, w⟩ := f
    by_cases hk : k = key
    · simp only [Fields.find?, hk, if_true, Option.some.injEq] at h
      subst h
      simp
      omega
    · simp only [Fields.find?, hk, if_false] at h
      have := ih h
      simp
      omega

theorem sizeOf_variants?_lt {fields : List (String × Json)} {vs : List Json}
    (h : variants? fields = some vs) : sizeOf vs < sizeOf fields := by
  unfold variants? at h
  obtain ⟨w, hw, hl⟩ := Option.bind_eq_some_iff.1 h
  have hlt : sizeOf w < sizeOf fields := by
    cases h1 : Fields.find? "oneOf" fields with
    | some x => rw [h1] at hw; simp at hw; subst hw; exact sizeOf_find?_lt h1
    | none => rw [h1] at hw; simp at hw; exact sizeOf_find?_lt hw
  cases w <;> simp [Json.list?] at hl
  subst hl
  simp at hlt
  omega

theorem sizeOf_soleVariant?_lt {fields : List (String × Json)} {v : Json} {b : Bool}
    (h : soleVariant? fields = some (v, b)) : sizeOf v < sizeOf fields := by
  unfold soleVariant? at h
  split at h
  · exact absurd h (by simp)
  · rename_i vs hvs
    split at h
    · rename_i w hw
      simp only [Option.some.injEq, Prod.mk.injEq] at h
      have hm : w ∈ vs.filter (fun v => !isNullSchema v) := by simp [hw]
      have := List.sizeOf_lt_of_mem (List.mem_filter.1 hm).1
      have := sizeOf_variants?_lt hvs
      rw [← h.1]
      omega
    · exact absurd h (by simp)

/-! ## Types -/

/-- A variant that stands for a choice: the texts of the choice win, and so does its `null`. -/
def asChoice (outer : Info) (nullable : Bool) (t : SchemaType) : SchemaType :=
  t.withInfo { t.info with
    nullable := t.info.nullable || nullable
    title := outer.title.or t.info.title
    description := outer.description.or t.info.description }

/-- A type as the property of an object. -/
def asProperty (required : List String) (name : String) (t : SchemaType) : SchemaType :=
  t.withInfo { t.info with name := some name, required := required.contains name }

mutual

/-- The type of a schema. -/
def typeOf (schema : Json) : Outcome SchemaType :=
  match _hs : schema with
  | .object fields =>
    match _hv : soleVariant? fields with
    | some (variant, nullable) => (typeOf variant).map (asChoice (infoOf fields) nullable)
    | none =>
      match textField fields "$ref" with
      | some pointer => .ok (.node (infoOf fields) (referenceTo pointer))
      | none => do
        let (name, nullable) ← typeName fields
        let shape ← match name with
          | some "string" => .ok (.text (textRules fields))
          | some "integer" => .ok (.integer (numberRules fields))
          | some "number" => .ok (.number (numberRules fields))
          | some "boolean" => .ok .boolean
          | some "null" => .ok .null
          | some "object" =>
            match _hp : Fields.find? "properties" fields with
            | some (.object props) => do
              let ps ← propertyTypes (requiredNames fields) props
              .ok (.object (Fields.ofPairs ps) (requiredNames fields) (allowsAdditional fields))
            | _ => .ok (.object [] (requiredNames fields) (allowsAdditional fields))
          | some "array" =>
            match _hi : Fields.find? "items" fields with
            | some (.object item) => (typeOf (.object item)).map fun t => .array (some t)
            | _ => .ok (.array none)
          | some other => .error (.invalidSchema ("unsupported type '" ++ other ++ "'"))
          | none => .ok .mixed
        .ok (.node { infoOf fields with nullable := nullable } shape)
  | other => .error (.invalidSchema ("expected a schema object, got " ++ other.compact))
termination_by sizeOf schema
decreasing_by
  · subst _hs
    have := sizeOf_soleVariant?_lt _hv
    simp
    omega
  · subst _hs
    have := sizeOf_find?_lt _hp
    simp at this ⊢
    omega
  · subst _hs
    have := sizeOf_find?_lt _hi
    simp at this ⊢
    omega

/-- The types of the properties of an object, each with its name. -/
def propertyTypes (required : List String) (props : List (String × Json)) :
    Outcome (List (String × SchemaType)) :=
  match props with
  | [] => .ok []
  | (name, schema) :: rest => do
    let t ← typeOf schema
    let ts ← propertyTypes required rest
    .ok ((name, asProperty required name t) :: ts)
termination_by sizeOf props

end

theorem typeOf_eq_error_of_not_object {v : Json} (h : v.object? = none) :
    typeOf v = .error (.invalidSchema ("expected a schema object, got " ++ v.compact)) := by
  cases v <;> simp [Json.object?] at h <;> rw [typeOf] <;> simp

end DomainScaffold.Schema
