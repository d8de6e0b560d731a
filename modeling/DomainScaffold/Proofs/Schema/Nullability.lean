import DomainScaffold.Proofs.Fields
import DomainScaffold.Proofs.Schema.Reading
import DomainScaffold.Proofs.Text.Pieces
import DomainScaffold.Schema.Shorthand

/-!
# Allowing null in a type text

An option `null` at the end of a type text changes the schema of the text in one of two ways: a
type name becomes a list of names, and any other schema becomes a variant beside `null`. The variant
loses the type of the schema, and a list of names does not count beside a pointer. Hence the option
does not always leave the rest of the type as it was.

Results:
* `ofText_append_null`: the schema of a text with the option.
* `TakesNull`: the schemas that may be nullable without any other change.
* `typeOf_nullable_iff`: only these stay what they were.
* `typeOf_ofText_append_null_iff`: both for texts, with the options that never get in the way.
* `repeatedNull_type_lost`: null allowed twice makes a text anything.
-/

namespace DomainScaffold.Schema.Shorthand

open SchemaType

variable {fields fields' : Fields Json} {spec spec' option : String} {schema : Json}
  {t : SchemaType}

/-- The type with null allowed and everything else as it is. -/
def allowNull (t : SchemaType) : SchemaType := t.withInfo { t.info with nullable := true }

/-! ## Texts and options -/

theorem optionValue_list? (raw : String) : (optionValue raw).list? = none := by
  unfold optionValue
  dsimp only
  split
  · rfl
  · split <;> rfl
  · split <;> rfl

/-- An option allows null or writes one field; only the enumeration is a list. -/
theorem withOption_eq_ok (h : withOption spec fields option = .ok fields') :
    (option = "null" ∧ fields' = nullable fields) ∨
      ∃ key raw value, Text.cutFirst? ':' option = some (key, raw) ∧
        fields' = Fields.insert (Text.trim key) value fields ∧
        (value.list? = none ∨ Text.trim key = "enum") := by
  rw [withOption] at h
  split at h
  · rename_i hnull
    cases h
    exact .inl ⟨hnull, rfl⟩
  · split at h
    · cases h
    · rename_i key raw hcut
      cases h
      refine .inr ⟨key, raw, _, hcut, rfl, ?_⟩
      split
      · rename_i hkey
        rw [hkey]
        exact .inr (by decide +kernel)
      · exact .inl (optionValue_list? raw)

/-- A text that a failure would name does not matter as long as there is none. -/
theorem withOption_of_eq_ok (h : withOption spec fields option = .ok fields') :
    withOption spec' fields option = .ok fields' := by
  rw [withOption] at h ⊢
  split at h
  · rename_i hnull
    rw [if_pos hnull, h]
  · rename_i hnull
    rw [if_neg hnull]
    split at h
    · cases h
    · exact h

theorem typeBackwards_of_eq_ok {back : List Char} (h : typeBackwards spec back = .ok fields) :
    typeBackwards spec' back = .ok fields := by
  rw [typeBackwards] at h ⊢
  split at h
  · cases h
  · rename_i hne
    rw [if_neg hne]
    exact h

theorem foldlM_withOption_of_eq_ok {options : List String}
    (h : options.foldlM (withOption spec) fields = .ok fields') :
    options.foldlM (withOption spec') fields = .ok fields' := by
  induction options generalizing fields with
  | nil => exact h
  | cons option options ih =>
    rw [List.foldlM_cons] at h ⊢
    obtain ⟨next, hnext, h⟩ := Outcome.bind_eq_ok h
    rw [withOption_of_eq_ok hnext]
    exact ih h

/-- The options of a type text. -/
def optionsOf (spec : String) : List String := (Text.splitOn '|' spec).tail.map Text.trim

/-- A type text is a type with options. -/
theorem ofText_eq_ok_iff : ofText spec = .ok schema ↔
    ∃ first base fields, (Text.splitOn '|' spec).head? = some first ∧
      typeBackwards spec first.toList.reverse = .ok base ∧
      (optionsOf spec).foldlM (withOption spec) base = .ok fields ∧ schema = .object fields := by
  rw [ofText, optionsOf]
  cases Text.splitOn '|' spec with
  | nil => simp
  | cons first options =>
    constructor
    · intro h
      obtain ⟨base, hbase, h⟩ := Outcome.bind_eq_ok h
      obtain ⟨fields, hfields, h⟩ := Outcome.bind_eq_ok h
      cases h
      exact ⟨first, base, fields, rfl, hbase, hfields, rfl⟩
    · rintro ⟨_, base, fields, hfirst, hbase, hfields, rfl⟩
      cases hfirst
      dsimp only
      rw [hbase]
      exact congrArg (Except.map Json.object) hfields

theorem splitOn_append_null (spec : String) :
    Text.splitOn '|' (spec ++ "|null") = Text.splitOn '|' spec ++ ["null"] := by
  have hnull : "|null".toList = '|' :: "null".toList := by decide
  have hlast : Text.splitAt (· == '|') "null".toList = ["null".toList] :=
    Text.splitAt_of_not_mem (by decide)
  rw [Text.splitOn, String.toList_append, hnull, Text.splitAt_append_cons (by rfl), hlast,
    List.map_append, Text.splitOn]
  rfl

/-- A text with the option `null` at its end has the same schema with null allowed. -/
theorem ofText_append_null (h : ofText spec = .ok (.object fields)) :
    ofText (spec ++ "|null") = .ok (.object (nullable fields)) := by
  obtain ⟨first, base, _, hfirst, hbase, hfields, hobject⟩ := ofText_eq_ok_iff.1 h
  cases hobject
  refine ofText_eq_ok_iff.2
    ⟨first, base, nullable fields, ?_, typeBackwards_of_eq_ok hbase, ?_, rfl⟩
  · rw [splitOn_append_null, List.head?_append, hfirst]
    rfl
  · have hne : Text.splitOn '|' spec ≠ [] := by
      intro hnil
      rw [hnil] at hfirst
      cases hfirst
    have hoptions : optionsOf (spec ++ "|null") = optionsOf spec ++ ["null"] := by
      rw [optionsOf, splitOn_append_null, List.tail_append_of_ne_nil hne, List.map_append,
        optionsOf]
      rfl
    rw [hoptions, List.foldlM_append, foldlM_withOption_of_eq_ok hfields]
    rfl

/-! ## Schemas of texts -/

/-- Only null is a further variant in the schema of a text, beside a schema without a type. -/
structure Built (fields : Fields Json) : Prop where
  distinct : Fields.DistinctKeys fields
  variants : ∀ vs, variants? fields = some vs →
    ∃ inner, Fields.find? "type" inner = none ∧
      vs = [.object inner, .object [("type", .text "null")]]

/-- A written field makes no choice unless it is a list. -/
theorem variants?_insert {key : String} {value : Json} {vs : List Json}
    (hvalue : value.list? = none ∨ key ≠ "oneOf" ∧ key ≠ "anyOf")
    (h : variants? (Fields.insert key value fields) = some vs) : variants? fields = some vs := by
  rw [variants?] at h ⊢
  by_cases hone : key = "oneOf"
  · have hlist := hvalue.resolve_right fun hne => hne.1 hone
    rw [hone, Fields.find?_insert_self, Option.some_or, Option.bind_some, hlist] at h
    cases h
  · rw [Fields.find?_insert_of_ne (Ne.symm hone)] at h
    by_cases hany : key = "anyOf"
    · have hlist := hvalue.resolve_right fun hne => hne.2 hany
      rw [hany, Fields.find?_insert_self] at h
      cases hfound : Fields.find? "oneOf" fields with
      | none =>
        rw [hfound, Option.none_or, Option.bind_some, hlist] at h
        cases h
      | some v => rwa [hfound] at h
    · rwa [Fields.find?_insert_of_ne (Ne.symm hany)] at h

theorem nullable_of_name {name : String} (h : Fields.find? "type" fields = some (.text name)) :
    nullable fields =
      Fields.insert "type" (.list [.text name, .text "null"]) (Fields.remove "type" fields) := by
  rw [nullable, h]

theorem nullable_of_not_name (h : ∀ name, Fields.find? "type" fields ≠ some (.text name)) :
    nullable fields = [("oneOf", .list [.object (Fields.remove "type" fields),
      .object [("type", .text "null")]])] := by
  rw [nullable]
  split
  · rename_i name hname
    exact absurd hname (h name)
  · rfl

theorem Built.nullable (h : Built fields) : Built (nullable fields) := by
  by_cases hname : ∃ name, Fields.find? "type" fields = some (.text name)
  · obtain ⟨name, hname⟩ := hname
    rw [nullable_of_name hname]
    refine ⟨(h.distinct.remove "type").insert _ _, fun vs hvs => h.variants vs ?_⟩
    have hremoved := variants?_insert (.inr ⟨by decide, by decide⟩) hvs
    rw [variants?, Fields.find?_remove_of_ne h.distinct (by decide),
      Fields.find?_remove_of_ne h.distinct (by decide)] at hremoved
    exact hremoved
  · rw [nullable_of_not_name (not_exists.1 hname)]
    refine ⟨List.nodup_singleton _, fun vs hvs => ?_⟩
    cases hvs
    exact ⟨_, Fields.find?_remove_self h.distinct "type", rfl⟩

theorem Built.withOption (h : Built fields) (hok : withOption spec fields option = .ok fields') :
    Built fields' := by
  obtain ⟨-, rfl⟩ | ⟨key, raw, value, -, rfl, hvalue⟩ := withOption_eq_ok hok
  · exact h.nullable
  · refine ⟨h.distinct.insert _ _, fun vs hvs => h.variants vs (variants?_insert ?_ hvs)⟩
    refine hvalue.imp_right fun henum => ?_
    rw [henum]
    exact ⟨by decide, by decide⟩

/-- What a type without options is: a type name, with items in an array, or a pointer. -/
theorem typeBackwards_eq_ok {back : List Char} (h : typeBackwards spec back = .ok fields) :
    (∃ items, fields = [("type", .text "array"), ("items", items)]) ∨
      (∃ name, fields = [("type", .text name)]) ∨
        ∃ pointer, fields = [("$ref", .text pointer)] := by
  rw [typeBackwards] at h
  split at h
  · cases h
  · split at h
    · obtain ⟨items, -, h⟩ := Outcome.bind_eq_ok h
      cases h
      exact .inl ⟨_, rfl⟩
    · cases h
      rw [named]
      split
      · exact .inr (.inl ⟨_, rfl⟩)
      · exact .inr (.inr ⟨_, rfl⟩)

theorem built_of_typeBackwards {back : List Char} (h : typeBackwards spec back = .ok fields) :
    Built fields := by
  obtain ⟨items, rfl⟩ | ⟨name, rfl⟩ | ⟨pointer, rfl⟩ := typeBackwards_eq_ok h
  · exact ⟨by simp [Fields.DistinctKeys, Fields.keys], fun vs hvs => by cases hvs⟩
  · exact ⟨List.nodup_singleton _, fun vs hvs => by cases hvs⟩
  · exact ⟨List.nodup_singleton _, fun vs hvs => by cases hvs⟩

theorem built_of_ofText (h : ofText spec = .ok schema) :
    ∃ fields, schema = .object fields ∧ Built fields := by
  obtain ⟨first, base, fields, -, hbase, hfields, rfl⟩ := ofText_eq_ok_iff.1 h
  exact ⟨fields, rfl, Outcome.foldlM_induction (fun _ _ _ _ hs hok => hs.withOption hok)
    (built_of_typeBackwards hbase) hfields⟩

theorem Built.soleVariant {variant : Json} {b : Bool} (h : Built fields)
    (hsole : soleVariant? fields = some (variant, b)) : b = true := by
  rw [soleVariant?] at hsole
  split at hsole
  · cases hsole
  · rename_i vs hvs
    obtain ⟨inner, hinner, rfl⟩ := h.variants vs hvs
    split at hsole
    · cases hsole
      rfl
    · cases hsole

/-! ## Schemas with another type -/

/-- Whether two schemas differ in their types at most. -/
def SameBesideType (fields fields' : Fields Json) : Prop :=
  ∀ key, key ≠ "type" → Fields.find? key fields' = Fields.find? key fields

theorem sameBesideType_remove (h : Fields.DistinctKeys fields) :
    SameBesideType fields (Fields.remove "type" fields) :=
  fun _ hkey => Fields.find?_remove_of_ne h hkey

theorem sameBesideType_nullable {name : String} (h : Fields.DistinctKeys fields)
    (hname : Fields.find? "type" fields = some (.text name)) :
    SameBesideType fields (nullable fields) := by
  intro key hkey
  rw [nullable_of_name hname, Fields.find?_insert_of_ne hkey]
  exact Fields.find?_remove_of_ne h hkey

namespace SameBesideType

theorem textField (h : SameBesideType fields fields') {key : String} (hkey : key ≠ "type") :
    textField fields' key = textField fields key := by
  rw [Schema.textField, Schema.textField, h key hkey]

theorem infoOf (h : SameBesideType fields fields') : infoOf fields' = infoOf fields := by
  rw [Schema.infoOf, Schema.infoOf, h.textField (by decide), h.textField (by decide)]

theorem soleVariant? (h : SameBesideType fields fields') :
    soleVariant? fields' = soleVariant? fields := by
  rw [Schema.soleVariant?, Schema.soleVariant?, variants?, variants?, h _ (by decide),
    h _ (by decide)]

theorem shapeNamed (h : SameBesideType fields fields') (name : Option String) :
    shapeNamed fields' name = shapeNamed fields name := by
  have htext : textRules fields' = textRules fields := by
    rw [textRules, textRules, h.textField (by decide), h.textField (by decide), h _ (by decide),
      h _ (by decide), h _ (by decide)]
  have hnumber : numberRules fields' = numberRules fields := by
    rw [numberRules, numberRules, h _ (by decide), h _ (by decide)]
  have hrequired : requiredNames fields' = requiredNames fields := by
    rw [requiredNames, requiredNames, h _ (by decide)]
  have hlisted : listedProperties fields' = listedProperties fields := by
    rw [listedProperties, listedProperties, h _ (by decide)]
  have hallows : allowsAdditional fields' = allowsAdditional fields := by
    rw [allowsAdditional, allowsAdditional, h _ (by decide)]
  have hitems : Fields.find? "items" fields' = Fields.find? "items" fields := h _ (by decide)
  unfold Schema.shapeNamed
  rw [htext, hnumber, hrequired, hlisted, hallows, hitems]

theorem typeOf_of_variant {v : Json × Bool} (h : SameBesideType fields fields')
    (hsole : Schema.soleVariant? fields = some v) :
    typeOf (.object fields') = typeOf (.object fields) := by
  rw [Schema.typeOf_of_variant (h.soleVariant?.trans hsole), Schema.typeOf_of_variant hsole,
    h.infoOf]

theorem typeOf_of_reference {pointer : String} (h : SameBesideType fields fields')
    (hsole : Schema.soleVariant? fields = none)
    (href : Schema.textField fields "$ref" = some pointer) :
    typeOf (.object fields') = typeOf (.object fields) := by
  rw [Schema.typeOf_of_reference (h.soleVariant?.trans hsole)
      ((h.textField (by decide)).trans href), Schema.typeOf_of_reference hsole href, h.infoOf]

end SameBesideType

/-! ## Nullable schemas -/

/-- The type name of a schema that does not give one. -/
def inferredName (fields : Fields Json) : Option String :=
  if Fields.has "properties" fields then some "object"
  else if Fields.has "items" fields then some "array"
  else if Fields.has "enum" fields then some "string"
  else none

theorem typeName_remove (h : Fields.DistinctKeys fields) :
    typeName (Fields.remove "type" fields) = .ok (inferredName fields, false) := by
  have hhas : ∀ key, key ≠ "type" →
      Fields.has key (Fields.remove "type" fields) = Fields.has key fields := by
    intro key hkey
    rw [Fields.has, Fields.has, Fields.find?_remove_of_ne h hkey]
  rw [typeName, Fields.find?_remove_self h, hhas _ (by decide), hhas _ (by decide),
    hhas _ (by decide), inferredName]

/-- The word that a shape is read for. -/
def wordOf : Shape SchemaType → Option String
  | .text _ => some "string"
  | .integer _ => some "integer"
  | .number _ => some "number"
  | .boolean => some "boolean"
  | .null => some "null"
  | .object .. => some "object"
  | .array _ => some "array"
  | .reference .. | .mixed => none

theorem wordOf_shapeNamed {name : Option String} {shape : Shape SchemaType}
    (h : shapeNamed fields name = .ok shape) : wordOf shape = name := by
  unfold shapeNamed at h
  split at h
  case h_6 =>
    obtain ⟨ps, -, rfl⟩ := Outcome.map_eq_ok h
    rfl
  case h_7 =>
    split at h
    · obtain ⟨u, -, rfl⟩ := Outcome.map_eq_ok h
      rfl
    · cases h
      rfl
  case h_8 => cases h
  all_goals
    cases h
    rfl

/-- The schemas that may be nullable without any other change: choices, type names without a
    pointer, pointers without a type name, and those whose other fields tell the type. -/
inductive TakesNull (fields : Fields Json) : Prop
  | choice {v : Json × Bool} (hsole : soleVariant? fields = some v)
  | name {name : String} (hname : Fields.find? "type" fields = some (.text name))
      (href : textField fields "$ref" = none)
  | reference {pointer : String} (hname : ∀ name, Fields.find? "type" fields ≠ some (.text name))
      (href : textField fields "$ref" = some pointer)
  | inferred {b : Bool} (hname : ∀ name, Fields.find? "type" fields ≠ some (.text name))
      (href : textField fields "$ref" = none) (h : typeName fields = .ok (inferredName fields, b))

theorem asChoice_plain (t : SchemaType) : asChoice Info.plain true t = allowNull t := by
  simp [asChoice, allowNull, Info.plain]

theorem allowNull_of_nullable (h : t.info.nullable = true) : allowNull t = t := by
  obtain ⟨⟨name, title, description, required, nullable⟩, shape⟩ := t
  cases h
  rfl

/-- Without a type name, null is a variant beside what is left of the schema. -/
theorem typeOf_nullable_of_not_name (hd : Fields.DistinctKeys fields)
    (hname : ∀ name, Fields.find? "type" fields ≠ some (.text name)) :
    typeOf (.object (nullable fields)) =
      (typeOf (.object (Fields.remove "type" fields))).map allowNull := by
  have hnull : isNullSchema (.object (Fields.remove "type" fields)) = false := by
    rw [isNullSchema, Json.field?, Json.object?, Option.bind_some, Fields.find?_remove_self hd]
    rfl
  have hsole : soleVariant? (nullable fields) =
      some (.object (Fields.remove "type" fields), true) := by
    have hvariants : variants? (nullable fields) = some
        [.object (Fields.remove "type" fields), .object [("type", .text "null")]] := by
      rw [nullable_of_not_name hname]
      rfl
    rw [soleVariant?, hvariants]
    dsimp only
    rw [List.filter_cons_of_pos (by rw [hnull]; rfl), List.filter_cons_of_neg (by decide),
      List.filter_nil]
    rfl
  have hinfo : infoOf (nullable fields) = Info.plain := by
    rw [nullable_of_not_name hname]
    rfl
  rw [typeOf_of_variant hsole, hinfo, funext asChoice_plain]

theorem typeOf_nullable_of_choice {v : Json × Bool} (hb : Built fields)
    (hsole : soleVariant? fields = some v) (ht : typeOf (.object fields) = .ok t) :
    typeOf (.object (nullable fields)) = .ok (allowNull t) := by
  obtain ⟨variant, b⟩ := v
  by_cases hname : ∃ name, Fields.find? "type" fields = some (.text name)
  · obtain ⟨name, hname⟩ := hname
    rw [(sameBesideType_nullable hb.distinct hname).typeOf_of_variant hsole, ht]
    rw [typeOf_of_variant hsole, hb.soleVariant hsole] at ht
    obtain ⟨u, -, rfl⟩ := Outcome.map_eq_ok ht
    rw [allowNull_of_nullable]
    exact Bool.or_true _
  · rw [typeOf_nullable_of_not_name hb.distinct (not_exists.1 hname),
      (sameBesideType_remove hb.distinct).typeOf_of_variant hsole, ht]
    rfl

/-- A type name without a pointer keeps its fields in a list of names. -/
theorem typeOf_nullable_of_name {name : String} (hd : Fields.DistinctKeys fields)
    (hsole : soleVariant? fields = none) (hname : Fields.find? "type" fields = some (.text name))
    (href : textField fields "$ref" = none) (ht : typeOf (.object fields) = .ok t) :
    typeOf (.object (nullable fields)) = .ok (allowNull t) := by
  have hsame := sameBesideType_nullable hd hname
  have hlisted : typeName (nullable fields) = .ok (some name, true) := by
    rw [typeName, nullable_of_name hname, Fields.find?_insert_self]
    by_cases hnull : name = "null"
    · rw [hnull]
      rfl
    · simp [Json.text?, hnull]
  rw [typeOf_of_name hsole href, typeName, hname] at ht
  obtain ⟨shape, hshape, rfl⟩ := Outcome.map_eq_ok ht
  rw [typeOf_of_name (hsame.soleVariant?.trans hsole) ((hsame.textField (by decide)).trans href),
    hlisted, hsame.infoOf]
  dsimp only [Except.bind]
  rw [hsame.shapeNamed, hshape]
  rfl

/-- A pointer beside a type name takes no null. -/
theorem typeOf_nullable_of_reference_name {name pointer : String} (hd : Fields.DistinctKeys fields)
    (hsole : soleVariant? fields = none) (hname : Fields.find? "type" fields = some (.text name))
    (href : textField fields "$ref" = some pointer) (ht : typeOf (.object fields) = .ok t) :
    typeOf (.object (nullable fields)) = .ok t ∧ t.info.nullable = false := by
  rw [(sameBesideType_nullable hd hname).typeOf_of_reference hsole href, ht]
  rw [typeOf_of_reference hsole href] at ht
  cases ht
  exact ⟨rfl, rfl⟩

/-- Without its type, a schema keeps its type exactly if its other fields tell it. -/
theorem typeOf_nullable_of_list {n : Option String × Bool} (hd : Fields.DistinctKeys fields)
    (hsole : soleVariant? fields = none)
    (hname : ∀ name, Fields.find? "type" fields ≠ some (.text name))
    (href : textField fields "$ref" = none) (hn : typeName fields = .ok n)
    (ht : typeOf (.object fields) = .ok t) :
    typeOf (.object (nullable fields)) = .ok (allowNull t) ↔ n.1 = inferredName fields := by
  have hsame := sameBesideType_remove hd
  rw [typeOf_of_name hsole href, hn] at ht
  obtain ⟨shape, hshape, rfl⟩ := Outcome.map_eq_ok ht
  rw [typeOf_nullable_of_not_name hd hname,
    typeOf_of_name (hsame.soleVariant?.trans hsole) ((hsame.textField (by decide)).trans href),
    typeName_remove hd, hsame.infoOf]
  dsimp only [Except.bind]
  rw [hsame.shapeNamed]
  constructor
  · intro h
    -- Equal shapes were read for the same word.
    obtain ⟨u, hu, hallowed⟩ := Outcome.map_eq_ok h
    obtain ⟨shape', hshape', rfl⟩ := Outcome.map_eq_ok hu
    cases hallowed
    rw [← wordOf_shapeNamed hshape, wordOf_shapeNamed hshape']
  · intro h
    rw [← h, hshape]
    rfl

/-- Allowing null leaves the rest of a type as it was exactly for the schemas that take it. -/
theorem typeOf_nullable_iff (hb : Built fields) (ht : typeOf (.object fields) = .ok t) :
    typeOf (.object (nullable fields)) = .ok (allowNull t) ↔ TakesNull fields := by
  cases hsole : soleVariant? fields with
  | some v =>
    exact iff_of_true (typeOf_nullable_of_choice hb hsole ht) (.choice hsole)
  | none =>
    by_cases hname : ∃ name, Fields.find? "type" fields = some (.text name)
    · obtain ⟨name, hname⟩ := hname
      cases href : textField fields "$ref" with
      | none =>
        exact iff_of_true (typeOf_nullable_of_name hb.distinct hsole hname href ht)
          (.name hname href)
      | some pointer =>
        -- The pointer is read and the list of names beside it is not.
        obtain ⟨hsame, hnull⟩ := typeOf_nullable_of_reference_name hb.distinct hsole hname href ht
        refine iff_of_false (fun h => ?_) fun h => ?_
        · rw [hsame, Except.ok.injEq] at h
          exact Bool.false_ne_true (hnull.symm.trans (congrArg (fun u => u.info.nullable) h))
        · cases h with
          | choice hsole' => cases hsole.symm.trans hsole'
          | name _ href' => cases href.symm.trans href'
          | reference hname' _ | inferred hname' _ _ => exact hname' name hname
    · have hname' := not_exists.1 hname
      cases href : textField fields "$ref" with
      | some pointer =>
        -- The pointer is all that is read of the variant, with or without its type.
        refine iff_of_true ?_ (.reference hname' href)
        rw [typeOf_nullable_of_not_name hb.distinct hname',
          (sameBesideType_remove hb.distinct).typeOf_of_reference hsole href, ht]
        rfl
      | none =>
        have htype := ht
        rw [typeOf_of_name hsole href] at htype
        obtain ⟨⟨name, b⟩, hn, -⟩ := Outcome.bind_eq_ok htype
        rw [typeOf_nullable_of_list hb.distinct hsole hname' href hn ht]
        constructor
        · rintro rfl
          exact .inferred hname' href hn
        · intro h
          cases h with
          | choice hsole' => cases hsole.symm.trans hsole'
          | name hname'' _ => exact absurd hname'' (hname' _)
          | reference _ href' => cases href.symm.trans href'
          | inferred _ _ hn' =>
            cases hn.symm.trans hn'
            rfl

/-! ## Nullable texts -/

/-- Whether an option writes a field other than the type and the pointer. -/
def LeavesType (option : String) : Prop :=
  option ≠ "null" ∧ ∀ key raw, Text.cutFirst? ':' option = some (key, raw) →
    Text.trim key ≠ "type" ∧ Text.trim key ≠ "$ref"

/-- Whether a schema has either a type name or a pointer. -/
def NameOrPointer (fields : Fields Json) : Prop :=
  (∃ name, Fields.find? "type" fields = some (.text name) ∧ textField fields "$ref" = none) ∨
    Fields.find? "type" fields = none ∧ ∃ pointer, textField fields "$ref" = some pointer

theorem NameOrPointer.takesNull (h : NameOrPointer fields) : TakesNull fields := by
  obtain ⟨name, hname, href⟩ | ⟨hname, pointer, href⟩ := h
  · exact .name hname href
  · exact .reference (fun name hsome => by cases hname.symm.trans hsome) href

theorem NameOrPointer.withOption (hoption : LeavesType option) (h : NameOrPointer fields)
    (hok : withOption spec fields option = .ok fields') : NameOrPointer fields' := by
  obtain ⟨hnull, -⟩ | ⟨key, raw, value, hcut, rfl, -⟩ := withOption_eq_ok hok
  · exact absurd hnull hoption.1
  · obtain ⟨htype, href⟩ := hoption.2 key raw hcut
    rw [NameOrPointer, textField, Fields.find?_insert_of_ne htype.symm,
      Fields.find?_insert_of_ne href.symm]
    exact h

theorem nameOrPointer_of_typeBackwards {back : List Char}
    (h : typeBackwards spec back = .ok fields) : NameOrPointer fields := by
  obtain ⟨items, rfl⟩ | ⟨name, rfl⟩ | ⟨pointer, rfl⟩ := typeBackwards_eq_ok h
  · exact .inl ⟨_, rfl, rfl⟩
  · exact .inl ⟨_, rfl, rfl⟩
  · exact .inr ⟨rfl, _, rfl⟩

/-- The option `null` at the end of a text allows null in its schema. The type is the one of the
    text, only nullable, exactly if the schema takes null, and it does unless the text allows null
    already or has an option that writes the type or the pointer. -/
theorem typeOf_ofText_append_null_iff (h : ofText spec = .ok schema) (ht : typeOf schema = .ok t) :
    ∃ fields, schema = .object fields ∧
      ofText (spec ++ "|null") = .ok (.object (nullable fields)) ∧
      (typeOf (.object (nullable fields)) = .ok (allowNull t) ↔ TakesNull fields) ∧
      ((∀ option ∈ optionsOf spec, LeavesType option) → TakesNull fields) := by
  obtain ⟨fields, rfl, hb⟩ := built_of_ofText h
  refine ⟨fields, rfl, ofText_append_null h, typeOf_nullable_iff hb ht, fun hoptions => ?_⟩
  obtain ⟨first, base, _, -, hbase, hfields, hobject⟩ := ofText_eq_ok_iff.1 h
  cases hobject
  exact NameOrPointer.takesNull (Outcome.foldlM_induction
    (fun option hmem _ _ hs hok => hs.withOption (hoptions option hmem) hok)
    (nameOrPointer_of_typeBackwards hbase) hfields)

/-- A text of at least one character. -/
def filledText : SchemaType := .node .plain (.text ⟨none, none, [], some 1, none⟩)

/-- A text with a bound may be null. -/
theorem typeOf_ofText_append_null_iff_filledText :
    ofText "string|minLength:1" = .ok (.object [("type", .text "string"), ("minLength", .int 1)]) ∧
    ofText ("string|minLength:1" ++ "|null") = .ok (.object
      (nullable [("type", .text "string"), ("minLength", .int 1)])) ∧
    typeOf (.object (nullable [("type", .text "string"), ("minLength", .int 1)])) =
      .ok (allowNull filledText) := by
  have hspec : ofText "string|minLength:1" =
      .ok (.object [("type", .text "string"), ("minLength", .int 1)]) := by
    with_unfolding_all rfl
  have htype : typeOf (.object [("type", .text "string"), ("minLength", .int 1)]) =
      .ok filledText := by
    with_unfolding_all rfl
  obtain ⟨_, hfields, hnull, hiff, htakes⟩ := typeOf_ofText_append_null_iff hspec htype
  cases hfields
  refine ⟨hspec, hnull, hiff.2 (htakes fun option hoption => ?_)⟩
  have hoptions : optionsOf "string|minLength:1" = ["minLength:1"] := by decide +kernel
  rw [hoptions, List.mem_singleton] at hoption
  refine ⟨by rw [hoption]; decide, fun key raw hcut => ?_⟩
  have hkey : Text.cutFirst? ':' "minLength:1" = some ("minLength", "1") := by decide +kernel
  rw [hoption, hkey, Option.some.injEq, Prod.mk.injEq] at hcut
  rw [← hcut.1]
  decide +kernel

/-- A text or null. -/
def textOrNull : SchemaType :=
  .node { Info.plain with nullable := true } (.text ⟨none, none, [], none, none⟩)

/-- Null allowed once more makes it anything, and a pointer beside a type name takes no null. -/
theorem repeatedNull_type_lost :
    ((ofText "string|null").bind typeOf = .ok textOrNull ∧
      (ofText ("string|null" ++ "|null")).bind typeOf =
        .ok (.node { Info.plain with nullable := true } .mixed) ∧
      allowNull textOrNull ≠ .node { Info.plain with nullable := true } .mixed) ∧
    (ofText "Address|type:string").bind typeOf =
      .ok (.node .plain (referenceTo "#/definitions/Address")) ∧
    (ofText ("Address|type:string" ++ "|null")).bind typeOf =
      .ok (.node .plain (referenceTo "#/definitions/Address")) := by
  refine ⟨⟨by with_unfolding_all rfl, by with_unfolding_all rfl, ?_⟩, by with_unfolding_all rfl,
    by with_unfolding_all rfl⟩
  exact fun h => absurd (congrArg kindName h) (by decide)

end DomainScaffold.Schema.Shorthand
