import DomainScaffold.Proofs.Fields
import DomainScaffold.Proofs.Schema.Reading
import DomainScaffold.Proofs.SideBySide
import DomainScaffold.Proofs.Text.Pieces
import DomainScaffold.Schema.Definitions
import DomainScaffold.Schema.Shorthand

/-!
# Shorthand objects

A shorthand object is written out as a schema and the schema is read as a type. As long as no two
keys of an object name the same property, the type has one property for each key but the title, in
the order of the keys, required unless the key is marked, and nothing else; and so has the type of
each object inside.

Results:
* `nameOf_iff`: which property a key names.
* `expandFields_eq_ok`, `typeOf_objectSchema`: the two translations of one object.
* `readFrom_of_expand`: each property is read from the value of its key.
* `describes_of_expand`: the type of a shorthand object, at every depth.
-/

namespace DomainScaffold.Schema.Shorthand

open SchemaType

variable {fields : Fields Json} {key name : String} {schema : Json} {t : SchemaType}

/-! ## Keys -/

/-- Whether a key has the mark of an optional property. -/
def Marked (key : String) : Prop := ∃ name, key = name ++ "?"

/-- Whether a key names a property: the key is the name with a mark, or is the name and has none. -/
def NameOf (key name : String) : Prop := key = name ++ "?" ∨ ¬ Marked key ∧ key = name

theorem propertyName_snd_iff : (propertyName key).2 = true ↔ Marked key := by
  rw [propertyName, Marked]
  cases hname : Text.beforeTail? "?" key with
  | some name => exact iff_of_true rfl ⟨name, Text.beforeTail?_eq_some_iff.1 hname⟩
  | none =>
    refine iff_of_false Bool.false_ne_true fun ⟨name, hmark⟩ => ?_
    cases hname.symm.trans (Text.beforeTail?_eq_some_iff.2 hmark)

theorem nameOf_iff : NameOf key name ↔ (propertyName key).1 = name := by
  rw [NameOf, ← propertyName_snd_iff, propertyName, ← Text.beforeTail?_eq_some_iff]
  cases hname : Text.beforeTail? "?" key with
  | some name => simp
  | none => simp

/-- The keys that name properties. -/
def propertyKeys (fields : Fields Json) : List String := fields.keys.filter (· != "$title")

/-- No two keys of an object name the same property, nor do those of an object inside. -/
inductive DistinctNames : Fields Json → Prop
  | object {fields : Fields Json}
      (distinct : (propertyKeys fields).Pairwise fun k k' =>
        ∀ name, NameOf k name → ¬ NameOf k' name)
      (nested : ∀ key inner, (key, .object inner) ∈ fields → key ≠ "$title" → DistinctNames inner) :
      DistinctNames fields

/-- Whether a property is the one that a key asks for. -/
structure AskedBy (key : String) (p : String × SchemaType) : Prop where
  name : NameOf key p.1
  info : p.2.info.name = some p.1
  required : p.2.info.required = true ↔ ¬ Marked key

/-- The types of shorthand objects: an object with the properties that the keys ask for, in their
    order, and no others, where the property of an object is such a type again. -/
inductive Describes : Fields Json → SchemaType → Prop
  | object {fields : Fields Json} {info : Info} {properties : List (String × SchemaType)}
      {required : List String} (asked : List.Forall₂ AskedBy (propertyKeys fields) properties)
      (nested : ∀ key inner p, (key, .object inner) ∈ fields → key ≠ "$title" → p ∈ properties →
        NameOf key p.1 → Describes inner p.2) :
      Describes fields (.node info (.object properties required false))

theorem Describes.withInfo (h : Describes fields t) (info : Info) :
    Describes fields (t.withInfo info) := by
  cases h with
  | object asked nested => exact .object asked nested

/-! ## Written out -/

/-- The fields that stand for properties. -/
def propertyFields (fields : Fields Json) : Fields Json := fields.filter fun f => f.1 != "$title"

theorem keys_propertyFields (fields : Fields Json) :
    (propertyFields fields).keys = propertyKeys fields := by
  rw [propertyFields, propertyKeys, Fields.keys, Fields.keys, List.filter_map]
  rfl

/-- The schemas of the properties stand under their keys. -/
theorem expandFields_eq_ok {ps : List (String × Json)} (h : expandFields fields = .ok ps) :
    List.Forall₂ (fun f p => p.1 = f.1 ∧ expand f.2 = .ok p.2) (propertyFields fields) ps := by
  induction fields generalizing ps with
  | nil =>
    rw [expandFields] at h
    cases h
    exact .nil
  | cons f fields ih =>
    obtain ⟨key, value⟩ := f
    rw [expandFields] at h
    rw [propertyFields, List.filter_cons]
    split at h
    · rename_i hkey
      rw [if_neg (by simp [hkey])]
      exact ih h
    · rename_i hkey
      obtain ⟨schema, hschema, h⟩ := Outcome.bind_eq_ok h
      obtain ⟨schemas, hschemas, h⟩ := Outcome.bind_eq_ok h
      cases h
      rw [if_pos (by simpa using hkey)]
      exact .cons ⟨rfl, hschema⟩ (ih hschemas)

/-- The names of the properties without a mark. -/
def requiredOf (keys : List String) : List String :=
  (keys.filter fun key => !(propertyName key).2).map fun key => (propertyName key).1

/-- The fields of the schema of an object. -/
def objectFields (title : Option Json) (ps : List (String × Json)) : Fields Json :=
  let named := ps.map fun p => (propertyName p.1, p.2)
  [("type", .text "object")] ++ (title.toList.map fun t => ("title", t)) ++
    [("properties", .object (Fields.ofPairs (named.map fun p => (p.1.1, p.2)))),
      ("required", .list ((named.filter fun p => !p.1.2).map fun p => .text p.1.1)),
      ("additionalProperties", .bool false)]

theorem objectSchema_eq (title : Option Json) (ps : List (String × Json)) :
    objectSchema title ps = .object (objectFields title ps) := rfl

theorem listedProperties_objectFields (title : Option Json) (ps : List (String × Json)) :
    listedProperties (objectFields title ps) =
      Fields.ofPairs (ps.map fun p => ((propertyName p.1).1, p.2)) := by
  have hmap : (ps.map fun p => (propertyName p.1, p.2)).map (fun p => (p.1.1, p.2)) =
      ps.map fun p => ((propertyName p.1).1, p.2) := List.map_map
  rw [← hmap]
  cases title <;> rfl

theorem requiredNames_objectFields (title : Option Json) (ps : List (String × Json)) :
    requiredNames (objectFields title ps) = requiredOf (ps.map Prod.fst) := by
  have hrequired : requiredNames (objectFields title ps) =
      (((ps.map fun p => (propertyName p.1, p.2)).filter fun p => !p.1.2).map
        fun p => Json.text p.1.1).filterMap Json.text? := by
    cases title <;> rfl
  rw [hrequired, requiredOf, List.filterMap_map, List.filter_map, List.filter_map, List.map_map,
    List.filterMap_map, ← List.filterMap_eq_map]
  rfl

/-- The schema of an object is read property by property. -/
theorem typeOf_objectSchema {title : Option Json} {ps : List (String × Json)}
    (hnames : (ps.map fun p => (propertyName p.1).1).Nodup)
    (h : typeOf (objectSchema title ps) = .ok t) :
    ∃ info properties, t = .node info (.object properties (requiredOf (ps.map Prod.fst)) false) ∧
      List.Forall₂ (fun s p => IsProperty (requiredOf (ps.map Prod.fst)) (propertyName s.1).1 s.2 p)
        ps properties := by
  have hsole : soleVariant? (objectFields title ps) = none := by cases title <;> rfl
  have href : textField (objectFields title ps) "$ref" = none := by cases title <;> rfl
  have hname : typeName (objectFields title ps) = .ok (some "object", false) := rfl
  have hallows : allowsAdditional (objectFields title ps) = false := by cases title <;> rfl
  have hlisted : Fields.ofPairs (ps.map fun p => ((propertyName p.1).1, p.2)) =
      ps.map fun p => ((propertyName p.1).1, p.2) := by
    refine Fields.ofPairs_of_distinct ?_
    rw [Fields.DistinctKeys, Fields.keys, List.map_map]
    exact hnames
  rw [objectSchema_eq, typeOf_of_name hsole href, hname] at h
  obtain ⟨shape, hshape, rfl⟩ := Outcome.map_eq_ok h
  obtain ⟨properties, hproperties, rfl⟩ := Outcome.map_eq_ok hshape
  rw [listedProperties_objectFields, hlisted, requiredNames_objectFields] at hproperties
  have hdistinct : Fields.DistinctKeys properties := by
    rw [Fields.DistinctKeys, Fields.keys, keys_propertyTypes hproperties, List.map_map]
    exact hnames
  rw [Fields.ofPairs_of_distinct hdistinct, requiredNames_objectFields, hallows]
  exact ⟨_, properties, rfl, List.forall₂_map_left_iff.1 (propertyTypes_eq_ok hproperties)⟩

/-! ## Read -/

/-- Whether a property is read from the value of a key. -/
def ReadFrom (required : List String) (f : String × Json) (p : String × SchemaType) : Prop :=
  ∃ schema, expand f.2 = .ok schema ∧ IsProperty required (propertyName f.1).1 schema p

theorem readFrom_of_expand
    (hnames : ((propertyKeys fields).map fun key => (propertyName key).1).Nodup)
    (h : expand (.object fields) = .ok schema) (ht : typeOf schema = .ok t) :
    ∃ info properties,
      t = .node info (.object properties (requiredOf (propertyKeys fields)) false) ∧
      List.Forall₂ (ReadFrom (requiredOf (propertyKeys fields))) (propertyFields fields)
        properties := by
  rw [expand] at h
  obtain ⟨ps, hps, rfl⟩ := Outcome.map_eq_ok h
  have hfields := expandFields_eq_ok hps
  have hkeys : ps.map Prod.fst = propertyKeys fields :=
    (map_eq_of_forall₂ hfields fun _ _ h => h.1).trans (keys_propertyFields fields)
  rw [← hkeys] at hnames ⊢
  rw [List.map_map] at hnames
  obtain ⟨info, properties, rfl, hall⟩ := typeOf_objectSchema hnames ht
  refine ⟨info, properties, rfl, (forall₂_comp hfields hall).imp ?_⟩
  rintro f p ⟨s, ⟨hkey, hs⟩, hp⟩
  rw [hkey] at hp
  exact ⟨s.2, hs, hp⟩

theorem mem_requiredOf_iff {keys : List String}
    (hnames : (keys.map fun key => (propertyName key).1).Nodup) (hkey : key ∈ keys) :
    (propertyName key).1 ∈ requiredOf keys ↔ ¬ Marked key := by
  rw [requiredOf, List.mem_map, ← propertyName_snd_iff]
  constructor
  · rintro ⟨other, hother, hname⟩
    obtain ⟨hmem, hmark⟩ := List.mem_filter.1 hother
    rw [← List.inj_on_of_nodup_map hnames hmem hkey hname]
    simpa using hmark
  · intro hmark
    exact ⟨key, List.mem_filter.2 ⟨hkey, by simpa using hmark⟩, rfl⟩

section Properties

variable {required : List String} {properties : List (String × SchemaType)}

theorem names_of_readFrom
    (hall : List.Forall₂ (ReadFrom required) (propertyFields fields) properties) :
    properties.map Prod.fst = (propertyKeys fields).map fun key => (propertyName key).1 := by
  rw [← keys_propertyFields, Fields.keys, List.map_map]
  refine map_eq_of_forall₂ hall ?_
  rintro f _ ⟨schema, -, u, -, rfl⟩
  rfl

theorem askedBy_of_readFrom
    (hnames : ((propertyKeys fields).map fun key => (propertyName key).1).Nodup)
    (hall : List.Forall₂ (ReadFrom (requiredOf (propertyKeys fields))) (propertyFields fields)
      properties) : List.Forall₂ AskedBy (propertyKeys fields) properties := by
  have hmem : ∀ f ∈ propertyFields fields, f.1 ∈ propertyKeys fields := by
    intro f hf
    rw [← keys_propertyFields]
    exact List.mem_map_of_mem hf
  rw [← keys_propertyFields, Fields.keys, List.forall₂_map_left_iff]
  refine ((List.forall₂_and_left _ _).2 ⟨hmem, hall⟩).imp ?_
  rintro f _ ⟨hkey, schema, -, u, -, rfl⟩
  exact ⟨nameOf_iff.2 rfl, rfl, List.contains_iff_mem.trans (mem_requiredOf_iff hnames hkey)⟩

end Properties

/-! ## Shorthand objects -/

theorem pairwise_nameOf_iff {keys : List String} :
    (keys.Pairwise fun k k' => ∀ name, NameOf k name → ¬ NameOf k' name) ↔
      (keys.map fun key => (propertyName key).1).Nodup := by
  have hnames : ∀ k k', (∀ name, NameOf k name → ¬ NameOf k' name) ↔
      (propertyName k).1 ≠ (propertyName k').1 := by
    intro k k'
    constructor
    · intro h heq
      exact h _ (nameOf_iff.2 rfl) (nameOf_iff.2 heq.symm)
    · intro h name hk hk'
      exact h ((nameOf_iff.1 hk).trans (nameOf_iff.1 hk').symm)
  rw [List.Nodup, List.pairwise_map]
  simp only [hnames]

/-- The type that is read from the schema of a shorthand object has exactly the properties that the
    keys name. -/
theorem describes_of_typeOf (hd : DistinctNames fields)
    (h : expand (.object fields) = .ok schema) (ht : typeOf schema = .ok t) :
    Describes fields t := by
  induction hd generalizing schema t with
  | @object fields distinct _ ih =>
    have hnames := pairwise_nameOf_iff.1 distinct
    obtain ⟨info, properties, rfl, hall⟩ := readFrom_of_expand hnames h ht
    have hdistinct : (properties.map Prod.fst).Nodup := by
      rw [names_of_readFrom hall]
      exact hnames
    refine .object (askedBy_of_readFrom hnames hall) fun key inner p hmem hkey hp hname => ?_
    have hfield : (key, Json.object inner) ∈ propertyFields fields :=
      List.mem_filter.2 ⟨hmem, by simpa using hkey⟩
    obtain ⟨q, hzip, schema', hschema, u, hu, hq⟩ := exists_mem_zip_of_mem hall hfield
    -- The key names one property only, the one that was read from its value.
    have hpq : p = q := by
      refine List.inj_on_of_nodup_map hdistinct hp (List.of_mem_zip hzip).2 ?_
      rw [← nameOf_iff.1 hname, hq]
    rw [hpq, hq]
    exact (ih key inner hmem hkey hschema hu).withInfo _

/-- If the schema of a shorthand object is accepted, its type has exactly the properties that the
    keys name: in their order, required unless the key has a mark, without any others allowed, and so
    for each object inside. -/
theorem describes_of_expand {types : TypeSet} (hd : DistinctNames fields)
    (h : expand (.object fields) = .ok schema) (htypes : TypeSet.ofSchema schema = .ok types) :
    Describes fields types.root := by
  rw [TypeSet.ofSchema] at htypes
  obtain ⟨root, hroot, htypes⟩ := Outcome.bind_eq_ok htypes
  obtain ⟨own, -, htypes⟩ := Outcome.bind_eq_ok htypes
  cases htypes
  exact describes_of_typeOf hd h hroot

/-- The shorthand of an owner. -/
def ownerFields : Fields Json := [("name", .text "string")]

/-- The shorthand of a house that may have an owner. -/
def houseFields : Fields Json :=
  [("$title", .text "House"), ("street", .text "string"), ("owner?", .object ownerFields)]

/-- What `houseFields` is written out as. -/
def houseSchema : Json :=
  .object [("type", .text "object"), ("title", .text "House"),
    ("properties", .object [("street", .object [("type", .text "string")]),
      ("owner", .object [("type", .text "object"),
        ("properties", .object [("name", .object [("type", .text "string")])]),
        ("required", .list [.text "name"]), ("additionalProperties", .bool false)])]),
    ("required", .list [.text "street"]), ("additionalProperties", .bool false)]

/-- What `houseSchema` is read as. -/
def houseType : SchemaType :=
  .node { Info.plain with title := some "House" } (.object
    [("street", .node { Info.plain with name := some "street", required := true }
        (.text ⟨none, none, [], none, none⟩)),
      ("owner", .node { Info.plain with name := some "owner" } (.object
        [("name", .node { Info.plain with name := some "name", required := true }
          (.text ⟨none, none, [], none, none⟩))] ["name"] false))] ["street"] false)

theorem distinctNames_houseFields : DistinctNames houseFields := by
  have howner : DistinctNames ownerFields := by
    refine .object (pairwise_nameOf_iff.2 (by decide +kernel)) fun key inner hmem _ => ?_
    cases List.mem_singleton.1 hmem
  refine .object (pairwise_nameOf_iff.2 (by decide +kernel)) fun key inner hmem _ => ?_
  rw [houseFields, List.mem_cons, List.mem_cons, List.mem_singleton] at hmem
  obtain h | h | h := hmem <;> cases h
  exact howner

/-- The house has a street and may have an owner with a name. -/
theorem describes_of_expand_houseFields :
    expand (.object houseFields) = .ok houseSchema ∧
    TypeSet.ofSchema houseSchema = .ok ⟨houseType, []⟩ ∧ Describes houseFields houseType := by
  have hschema : expand (.object houseFields) = .ok houseSchema := by with_unfolding_all rfl
  have htypes : TypeSet.ofSchema houseSchema = .ok ⟨houseType, []⟩ := by with_unfolding_all rfl
  exact ⟨hschema, htypes, describes_of_expand distinctNames_houseFields hschema htypes⟩

end DomainScaffold.Schema.Shorthand
