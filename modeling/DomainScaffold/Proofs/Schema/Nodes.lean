import DomainScaffold.Proofs.Fields
import DomainScaffold.Proofs.Schema.Reading
import DomainScaffold.Schema.Position

/-!
# Nodes of a schema

Every node of a type was read from some place in the schema: the moves that lead to the node lead
to the place, and a choice with one variant besides `null` is unwrapped wherever one stands. A node
does not know its own name nor whether it is required; the object that it is a property of says
both, and keeps the order in which its schema lists the properties.

Results:
* `exists_fieldsAt`: every node was read from the place behind its moves.
* `mem_requiredNames_iff`: the properties that are required.
* `typeOf_flags`: names and flags of all nodes.
-/

namespace DomainScaffold.Schema

open SchemaType

variable {schema : Json} {fields : Fields Json} {t u c : SchemaType} {move : Move}
  {moves : List Move}

/-! ## Places -/

/-- The fields that a schema is read by: its own, or those of its one variant besides `null`. -/
inductive Unwraps : Json → Fields Json → Prop
  | own {fields : Fields Json} (h : soleVariant? fields = none) : Unwraps (.object fields) fields
  | variant {fields inner : Fields Json} {variant : Json} {nullable : Bool}
      (hsole : soleVariant? fields = some (variant, nullable)) (h : Unwraps variant inner) :
      Unwraps (.object fields) inner

/-- The fields that stand behind moves through properties and items. -/
inductive FieldsAt : Json → List Move → Fields Json → Prop
  | here {schema : Json} {fields : Fields Json} (h : Unwraps schema fields) :
      FieldsAt schema [] fields
  | property {schema s : Json} {fields inner : Fields Json} {name : String} {moves : List Move}
      (h : Unwraps schema fields) (hs : (name, s) ∈ listedProperties fields)
      (hrest : FieldsAt s moves inner) : FieldsAt schema (.property name :: moves) inner
  | items {schema : Json} {fields item inner : Fields Json} {moves : List Move}
      (h : Unwraps schema fields) (hitem : Fields.find? "items" fields = some (.object item))
      (hrest : FieldsAt (.object item) moves inner) : FieldsAt schema (.items :: moves) inner

/-- A choice has the shape of what it is unwrapped to. -/
theorem exists_unwraps (h : typeOf schema = .ok t) :
    ∃ fields, Unwraps schema fields ∧ ReadShape fields t.shape := by
  refine typeOf_induction
    (P := fun schema t => ∃ fields, Unwraps schema fields ∧ ReadShape fields t.shape)
    ?choice ?plain h
  case choice =>
    intro fields variant nullable t hsole _ ih
    obtain ⟨inner, hinner, hshape⟩ := ih
    exact ⟨inner, .variant hsole hinner, hshape⟩
  case plain =>
    intro fields t hsole h _ _
    obtain ⟨nullable, shape, rfl, hshape⟩ := typeOf_plain hsole h
    exact ⟨fields, .own hsole, hshape⟩

/-- What is found below a node was read from a property or from the items. -/
theorem exists_of_child? (hshape : ReadShape fields t.shape) (hc : child? move t = some c) :
    (∃ name s v, move = .property name ∧ (name, s) ∈ listedProperties fields ∧
      typeOf s = .ok v ∧ c = asProperty (requiredNames fields) name v) ∨
    ∃ item, move = .items ∧ Fields.find? "items" fields = some (.object item) ∧
      typeOf (.object item) = .ok c := by
  obtain ⟨info, shape⟩ := t
  cases hshape with
  | object hps =>
    cases move with
    | property name =>
      have hmem := Fields.mem_of_mem_ofPairs (Fields.mem_of_find? hc)
      obtain ⟨s, v, hs, hv, heq⟩ := exists_of_mem_propertyTypes hps hmem
      exact .inl ⟨name, s, v, rfl, hs, hv, heq⟩
    | _ => cases hc
  | array hitem hu =>
    cases move with
    | items =>
      cases hc
      exact .inr ⟨_, rfl, hitem, hu⟩
    | _ => cases hc
  | reference =>
    cases move <;> cases hc
  | leaf hleaf =>
    cases shape with
    | array items =>
      cases items with
      | none => cases move <;> cases hc
      | some => cases hleaf
    | object => cases hleaf
    | reference => cases hleaf
    | _ => cases move <;> cases hc

/-- Every node was read from the place behind its moves. The induction is on the moves; what is
    called and flagged as a property still has the shape that was read. -/
theorem exists_fieldsAt (h : typeOf schema = .ok t) (hshape : u.shape = t.shape)
    (hc : below? moves u = some c) :
    ∃ fields, FieldsAt schema moves fields ∧ ReadShape fields c.shape := by
  induction moves generalizing schema t u with
  | nil =>
    cases hc
    obtain ⟨fields, hunwraps, hread⟩ := exists_unwraps h
    exact ⟨fields, .here hunwraps, hshape ▸ hread⟩
  | cons move moves ih =>
    obtain ⟨d, hd, hbelow⟩ := Option.bind_eq_some_iff.1 hc
    obtain ⟨fields, hunwraps, hread⟩ := exists_unwraps h
    rcases exists_of_child? (hshape ▸ hread) hd with ⟨name, s, v, rfl, hs, hv, heq⟩ |
      ⟨item, rfl, hitem, hv⟩
    · obtain ⟨inner, hinner, hread⟩ := ih hv (heq ▸ rfl) hbelow
      exact ⟨inner, .property hunwraps hs hinner, hread⟩
    · obtain ⟨inner, hinner, hread⟩ := ih hv rfl hbelow
      exact ⟨inner, .items hunwraps hitem hinner, hread⟩

/-! ## Properties -/

/-- Whether the list of required names has a name. -/
def Requires (fields : Fields Json) (name : String) : Prop :=
  ∃ names, Fields.find? "required" fields = some (.list names) ∧ .text name ∈ names

theorem mem_requiredNames_iff {name : String} :
    name ∈ requiredNames fields ↔ Requires fields name := by
  have htext : ∀ v : Json, v.text? = some name ↔ v = .text name := fun v => by
    cases v <;> simp [Json.text?]
  simp only [requiredNames, List.mem_filterMap, htext, exists_eq_right, Requires]
  cases Fields.find? "required" fields with
  | none => simp
  | some v => cases v <;> simp [Json.list?]

/-- Names and flags of all nodes of a type. The root and the items of lists have no name and are not
    required. The properties of every object are listed as in the schema at its place; each has its
    key as name, and is required exactly if the required names of that schema have it. -/
theorem typeOf_flags (h : typeOf schema = .ok t) :
    (t.info.name = none ∧ t.info.required = false) ∧
    (∀ moves u item, below? moves t = some u → u.shape = .array (some item) →
      item.info.name = none ∧ item.info.required = false) ∧
    ∀ moves u properties required additional, below? moves t = some u →
      u.shape = .object properties required additional →
      ∃ fields, FieldsAt schema moves fields ∧
        Fields.keys properties = (Fields.keys (listedProperties fields)).eraseDups ∧
        ∀ p ∈ properties, p.2.info.name = some p.1 ∧
          (p.2.info.required = true ↔ Requires fields p.1) := by
  refine ⟨root_of_typeOf h, ?items, ?objects⟩
  case items =>
    intro moves u item hu hshape
    obtain ⟨fields, -, hread⟩ := exists_fieldsAt h rfl hu
    rw [hshape] at hread
    cases hread with
    | array hitem hv => exact root_of_typeOf hv
    | leaf hleaf => cases hleaf
  case objects =>
    intro moves u properties required additional hu hshape
    obtain ⟨fields, hfields, hread⟩ := exists_fieldsAt h rfl hu
    refine ⟨fields, hfields, ?_⟩
    rw [hshape] at hread
    cases hread with
    | object hps =>
      refine ⟨?_, fun p hp => ?_⟩
      · rw [Fields.keys_ofPairs, keys_propertyTypes hps, Fields.keys]
      · obtain ⟨s, v, -, -, heq⟩ := exists_of_mem_propertyTypes hps (Fields.mem_of_mem_ofPairs hp)
        rw [heq]
        refine ⟨rfl, ?_⟩
        rw [← mem_requiredNames_iff, ← List.contains_iff_mem]
        rfl
    | leaf hleaf => cases hleaf

/-- A building whose rooms may be unknown; every room has a window. -/
def roomsSchema : Json :=
  .object [("type", .text "object"),
    ("properties", .object [("rooms", .object [("type", .text "array"),
      ("items", .object [("oneOf", .list [
        .object [("properties", .object [("door", .object [("type", .text "boolean")]),
            ("window", .object [("type", .list [.text "string", .text "null"])])]),
          ("required", .list [.text "window"])],
        .object [("type", .text "null")]])])])])]

/-- A room in `roomsSchema`. -/
def roomType : SchemaType :=
  .node { Info.plain with nullable := true } (.object
    [("door", .node { Info.plain with name := some "door" } .boolean),
      ("window", .node ⟨some "window", none, none, true, true⟩
        (.text ⟨none, none, [], none, none⟩))] ["window"] true)

/-- What `roomsSchema` is read as. -/
def roomsType : SchemaType :=
  .node .plain (.object [("rooms", .node { Info.plain with name := some "rooms" }
    (.array (some roomType)))] [] true)

/-- The flags of a room that may be absent from the list. -/
theorem typeOf_flags_rooms :
    typeOf roomsSchema = .ok roomsType ∧
    below? [.property "rooms", .items] roomsType = some roomType ∧
    (roomType.info.name = none ∧ roomType.info.required = false) ∧
    ∃ fields, FieldsAt roomsSchema [.property "rooms", .items] fields ∧
      ["door", "window"] = (Fields.keys (listedProperties fields)).eraseDups ∧
      ¬ Requires fields "door" ∧ Requires fields "window" := by
  have hread : typeOf roomsSchema = .ok roomsType := by with_unfolding_all rfl
  have hrooms : below? [.property "rooms", .items] roomsType = some roomType := rfl
  have hlist : below? [.property "rooms"] roomsType =
      some (.node { Info.plain with name := some "rooms" } (.array (some roomType))) := rfl
  obtain ⟨-, hitems, hobjects⟩ := typeOf_flags hread
  obtain ⟨fields, hfields, hkeys, hflags⟩ := hobjects _ _ _ _ _ hrooms rfl
  refine ⟨hread, hrooms, hitems _ _ _ hlist rfl, fields, hfields, hkeys, ?_, ?_⟩
  · have hdoor := (hflags ("door", _) List.mem_cons_self).2
    exact fun h => absurd (hdoor.2 h) Bool.false_ne_true
  · exact (hflags ("window", _) (List.mem_cons_of_mem _ List.mem_cons_self)).2.1 rfl

end DomainScaffold.Schema
