import DomainScaffold.Proofs.SideBySide
import DomainScaffold.Schema.Reader

/-!
# What a schema is read as

There are three ways to read a schema: a choice with one variant besides `null` is read as that
variant, a schema with a pointer as a reference, and every other one by the name of its type. What
is read of a property or of an item is read in the same way.

Results:
* `typeOf_of_variant`, `typeOf_of_reference`, `typeOf_of_name`: the three ways.
* `typeOf_induction`: a choice is read like its variant.
* `propertyTypes_eq_ok`, `keys_propertyTypes`: the properties are read one by one, in order.
* `root_of_typeOf`: what was just read has no name and is not required.
-/

namespace DomainScaffold.Schema

open SchemaType

section Ways

variable {fields : Fields Json} {schema : Json} {t : SchemaType}

/-! ## Three ways -/

theorem typeOf_of_variant {variant : Json} {nullable : Bool}
    (h : soleVariant? fields = some (variant, nullable)) :
    typeOf (.object fields) = (typeOf variant).map (asChoice (infoOf fields) nullable) := by
  rw [typeOf]
  split
  · rename_i hsole
    obtain ⟨rfl, rfl⟩ := Prod.mk.inj (Option.some.inj (h.symm.trans hsole))
    rfl
  · rename_i hnone
    cases h.symm.trans hnone

theorem typeOf_of_reference {pointer : String} (hsole : soleVariant? fields = none)
    (href : textField fields "$ref" = some pointer) :
    typeOf (.object fields) = .ok (.node (infoOf fields) (referenceTo pointer)) := by
  rw [typeOf]
  split
  · rename_i hsome
    cases hsole.symm.trans hsome
  · rw [href]

/-- The schemas of the properties of an object. -/
def listedProperties (fields : Fields Json) : Fields Json :=
  ((Fields.find? "properties" fields).bind Json.object?).getD []

/-- What a type name stands for in a schema. -/
def shapeNamed (fields : Fields Json) : Option String → Outcome (Shape SchemaType)
  | some "string" => .ok (.text (textRules fields))
  | some "integer" => .ok (.integer (numberRules fields))
  | some "number" => .ok (.number (numberRules fields))
  | some "boolean" => .ok .boolean
  | some "null" => .ok .null
  | some "object" =>
    (propertyTypes (requiredNames fields) (listedProperties fields)).map fun ps =>
      .object (Fields.ofPairs ps) (requiredNames fields) (allowsAdditional fields)
  | some "array" =>
    match (Fields.find? "items" fields).bind Json.object? with
    | some item => (typeOf (.object item)).map fun u => .array (some u)
    | none => .ok (.array none)
  | some other => .error (.invalidSchema ("unsupported type '" ++ other ++ "'"))
  | none => .ok .mixed

theorem bind_object?_eq_none {v : Option Json} (h : ∀ fs, v = some (.object fs) → False) :
    v.bind Json.object? = none := by
  cases v with
  | none => rfl
  | some v =>
    cases v with
    | object fs => exact (h fs rfl).elim
    | _ => rfl

theorem typeOf_of_name (hsole : soleVariant? fields = none)
    (href : textField fields "$ref" = none) :
    typeOf (.object fields) = (typeName fields).bind fun n =>
      (shapeNamed fields n.1).map (node { infoOf fields with nullable := n.2 }) := by
  rw [typeOf]
  split
  · rename_i hsome
    cases hsole.symm.trans hsome
  · rw [href]
    dsimp only
    cases typeName fields with
    | error e => rfl
    | ok n =>
      obtain ⟨name, nullable⟩ := n
      simp only [bind, Except.bind]
      split
      case h_6 =>
        rw [shapeNamed]
        split
        · rename_i props hprops
          have hlisted : listedProperties fields = props := by
            rw [listedProperties, hprops]
            rfl
          rw [hlisted]
          cases propertyTypes (requiredNames fields) props <;> rfl
        · rename_i hprops
          rw [listedProperties, bind_object?_eq_none hprops, Option.getD_none, propertyTypes]
          rfl
      case h_7 =>
        rw [shapeNamed]
        split
        · rename_i item hitem
          rw [hitem, Option.bind_some, Json.object?]
          dsimp only
          cases typeOf (.object item) <;> rfl
        · rename_i hitem
          rw [bind_object?_eq_none hitem]
          rfl
      case h_8 =>
        rw [shapeNamed]
        · rfl
        all_goals assumption
      all_goals rfl

/-! ## What is read -/

/-- Whether a shape has no parts. -/
def IsLeaf : Shape SchemaType → Prop
  | .object .. | .array (some _) | .reference .. => False
  | _ => True

/-- The shapes that a schema without a choice is read as. -/
inductive ReadShape (fields : Fields Json) : Shape SchemaType → Prop
  | object {ps : List (String × SchemaType)}
      (hps : propertyTypes (requiredNames fields) (listedProperties fields) = .ok ps) :
      ReadShape fields
        (.object (Fields.ofPairs ps) (requiredNames fields) (allowsAdditional fields))
  | array {item : List (String × Json)} {u : SchemaType}
      (hitem : Fields.find? "items" fields = some (.object item))
      (hu : typeOf (.object item) = .ok u) : ReadShape fields (.array (some u))
  | reference (pointer : String) : ReadShape fields (referenceTo pointer)
  | leaf {shape : Shape SchemaType} (h : IsLeaf shape) : ReadShape fields shape

theorem readShape_named {name : Option String} {shape : Shape SchemaType}
    (h : shapeNamed fields name = .ok shape) : ReadShape fields shape := by
  unfold shapeNamed at h
  split at h
  case h_6 =>
    obtain ⟨ps, hps, rfl⟩ := Outcome.map_eq_ok h
    exact .object hps
  case h_7 =>
    split at h
    · rename_i item hitem
      obtain ⟨v, hv, hfields⟩ := Option.bind_eq_some_iff.1 hitem
      obtain ⟨u, hu, rfl⟩ := Outcome.map_eq_ok h
      cases v <;> cases hfields
      exact .array hv hu
    · cases h
      exact .leaf trivial
  case h_8 => cases h
  all_goals
    cases h
    exact .leaf trivial

/-- A schema without a choice carries its own texts. -/
theorem typeOf_plain (hsole : soleVariant? fields = none) (h : typeOf (.object fields) = .ok t) :
    ∃ nullable shape, t = .node { infoOf fields with nullable := nullable } shape ∧
      ReadShape fields shape := by
  cases href : textField fields "$ref" with
  | some pointer =>
    rw [typeOf_of_reference hsole href] at h
    cases h
    exact ⟨false, _, rfl, .reference pointer⟩
  | none =>
    rw [typeOf_of_name hsole href] at h
    obtain ⟨⟨name, nullable⟩, -, h⟩ := Outcome.bind_eq_ok h
    obtain ⟨shape, hshape, rfl⟩ := Outcome.map_eq_ok h
    exact ⟨nullable, shape, rfl, readShape_named hshape⟩

theorem exists_fields_of_typeOf (h : typeOf schema = .ok t) :
    ∃ fields, schema = .object fields := by
  cases schema with
  | object fields => exact ⟨fields, rfl⟩
  | _ =>
    rw [typeOf_eq_error_of_not_object rfl] at h
    cases h

variable {required : List String} {props : List (String × Json)} {ps : List (String × SchemaType)}

/-- Whether a property is what is read from a schema under a name. -/
def IsProperty (required : List String) (name : String) (schema : Json)
    (p : String × SchemaType) : Prop :=
  ∃ u, typeOf schema = .ok u ∧ p = (name, asProperty required name u)

/-- The properties are read one by one. -/
theorem propertyTypes_eq_ok (h : propertyTypes required props = .ok ps) :
    List.Forall₂ (fun s p => IsProperty required s.1 s.2 p) props ps := by
  induction props generalizing ps with
  | nil =>
    rw [propertyTypes] at h
    cases h
    exact .nil
  | cons s props ih =>
    rw [propertyTypes] at h
    obtain ⟨u, hu, h⟩ := Outcome.bind_eq_ok h
    obtain ⟨us, hus, h⟩ := Outcome.bind_eq_ok h
    cases h
    exact .cons ⟨u, hu, rfl⟩ (ih hus)

theorem keys_propertyTypes (h : propertyTypes required props = .ok ps) :
    ps.map Prod.fst = props.map Prod.fst := by
  refine map_eq_of_forall₂ (propertyTypes_eq_ok h) ?_
  rintro s _ ⟨u, -, rfl⟩
  rfl

theorem exists_of_mem_propertyTypes (h : propertyTypes required props = .ok ps)
    {p : String × SchemaType} (hp : p ∈ ps) :
    ∃ s u, (p.1, s) ∈ props ∧ typeOf s = .ok u ∧ p.2 = asProperty required p.1 u := by
  have hflip : List.Forall₂ (fun p s => IsProperty required s.1 s.2 p) ps props :=
    (propertyTypes_eq_ok h).flip
  obtain ⟨s, hzip, u, hu, rfl⟩ := exists_mem_zip_of_mem hflip hp
  exact ⟨s.2, u, (List.of_mem_zip hzip).2, hu, rfl⟩

theorem sizeOf_listedProperties_lt {name : String} (h : (name, schema) ∈ listedProperties fields) :
    sizeOf schema < sizeOf fields := by
  rw [listedProperties] at h
  cases hprops : (Fields.find? "properties" fields).bind Json.object? with
  | none =>
    rw [hprops] at h
    cases h
  | some props =>
    rw [hprops, Option.getD_some] at h
    obtain ⟨v, hv, hobject⟩ := Option.bind_eq_some_iff.1 hprops
    cases v <;> cases hobject
    have hfields := sizeOf_find?_lt hv
    have hmem := List.sizeOf_lt_of_mem h
    simp at hfields hmem
    omega

/-- A choice is read like its variant; whatever else is read may use what is read of its parts. -/
theorem typeOf_induction {P : Json → SchemaType → Prop}
    (choice : ∀ {fields variant nullable t}, soleVariant? fields = some (variant, nullable) →
      typeOf variant = .ok t → P variant t →
      P (.object fields) (asChoice (infoOf fields) nullable t))
    (plain : ∀ {fields t}, soleVariant? fields = none → typeOf (.object fields) = .ok t →
      (∀ name s u, (name, s) ∈ listedProperties fields → typeOf s = .ok u → P s u) →
      (∀ item u, Fields.find? "items" fields = some (.object item) →
        typeOf (.object item) = .ok u → P (.object item) u) →
      P (.object fields) t)
    {schema : Json} {t : SchemaType} (h : typeOf schema = .ok t) : P schema t := by
  obtain ⟨fields, hschema⟩ := exists_fields_of_typeOf h
  rw [hschema] at h ⊢
  cases hsole : soleVariant? fields with
  | none =>
    exact plain hsole h (fun name s u hs hu => typeOf_induction choice plain hu)
      fun item u hitem hu => typeOf_induction choice plain hu
  | some v =>
    obtain ⟨variant, nullable⟩ := v
    rw [typeOf_of_variant hsole] at h
    obtain ⟨u, hu, rfl⟩ := Outcome.map_eq_ok h
    exact choice hsole hu (typeOf_induction choice plain hu)
termination_by sizeOf schema
decreasing_by
  · have hlt := sizeOf_listedProperties_lt hs
    rw [hschema, Json.object.sizeOf_spec fields]
    omega
  · have hlt := sizeOf_find?_lt hitem
    rw [hschema, Json.object.sizeOf_spec fields]
    omega
  · have hlt := sizeOf_soleVariant?_lt hsole
    rw [hschema, Json.object.sizeOf_spec fields]
    omega

/-- What was just read has no name and is not required. -/
theorem root_of_typeOf (h : typeOf schema = .ok t) :
    t.info.name = none ∧ t.info.required = false := by
  refine typeOf_induction (P := fun _ t => t.info.name = none ∧ t.info.required = false)
    (fun _ _ ih => ih) (fun hsole h _ _ => ?_) h
  obtain ⟨nullable, shape, rfl, -⟩ := typeOf_plain hsole h
  exact ⟨rfl, rfl⟩

end Ways

end DomainScaffold.Schema
