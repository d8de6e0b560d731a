import DomainScaffold.Graph.Reader
import DomainScaffold.Proofs.Generation.Origins

/-!
# Classes of documents

A record types a property that refers to a document with the class of that document, and imports the
class. Whether the class is generated is decided elsewhere: a document with an object or a single
value gets one, and so does the state of an aggregate that is there. A list gets none, nor does a
state without an aggregate; a record that refers to one of those imports a class that does not
exist.

Results:
* `needs_planProperty`: only classes of documents are needed by the properties of a record.
* `typed_of_mem_artifacts`: what a record imports for its properties is the class of a document.
* `declares_documentClass`: which classes of documents are generated.
* `record_imports_declared`: what a record imports is declared, if the document has a class.
-/

namespace DomainScaffold

open Php Merge Schema

/-! ## Declared classes -/

/-- One of the artifacts declares a class. -/
def Declares (artifacts : List Artifact) (l : ClassLocation) : Prop :=
  ∃ a ∈ artifacts, ∃ set, a.changeSet? = some set ∧ set.namespaceName = l.namespaceName ∧
    set.target.name = l.className

theorem declares_of_mem {artifacts : List Artifact} {name : String} {l : ClassLocation}
    {changes : List Change} (h : .ofClass name l changes ∈ artifacts) : Declares artifacts l :=
  ⟨_, h, _, Artifact.changeSet?_ofClass _ _ _, rfl, rfl⟩

namespace Blueprint

variable (b : Blueprint)

/-! ## Types of properties -/

/-- Changes import the class of a document and declare a property of that type. -/
def ImportsDocument (changes : List Change) (i : Import) : Prop :=
  ∃ document ∈ b.graph.ofKind .document, ∃ l decl, b.documentClass document = .ok l ∧
    i = .ofClass l.fullName ∧ .property decl ∈ changes ∧
    (decl.typeHint = some l.className ∨ decl.typeHint = some ("?" ++ l.className))

/-- What is imported behind the first changes of a record is the class of a document. -/
def Typed (changes : List Change) : Prop :=
  ∀ rest, changes = recordBase ++ rest → ∀ i, .importName i ∈ rest → b.ImportsDocument rest i

variable {b}

/-- A property of a type with a class needs the class of a document. -/
theorem needs_propertyType {types : TypeSet} {nesting : Nesting} {key : String}
    {t resolved : SchemaType} {type : PropertyType}
    (h : b.propertyType types nesting key t resolved = .ok type) {n : String}
    (hn : type.needs = some n) :
    ∃ document ∈ b.graph.ofKind .document, ∃ l, b.documentClass document = .ok l ∧
      n = l.fullName ∧ type.hint = some l.className := by
  unfold propertyType at h
  split at h
  · split at h
    · split at h <;> cases h <;> cases hn
    · split at h
      · cases h
        cases hn
      · rename_i document hdocument
        obtain ⟨l, hl, rfl⟩ := Outcome.map_eq_ok h
        cases hn
        exact ⟨document, List.mem_of_find?_eq_some hdocument, l, hl, rfl, rfl⟩
  · cases h
    cases hn
  · obtain ⟨nested, -, rfl⟩ := Outcome.map_eq_ok h
    cases hn
  · cases h
    cases hn

/-- A planned property needs no class but that of a document, with which it is typed. -/
theorem needs_planProperty {e : Element} {types : TypeSet} {required : List String}
    {nesting : Nesting} {p : String × SchemaType} {plan : PropertyPlan × List NestedClass}
    (h : b.planProperty e types required nesting p = .ok plan) {n : String}
    (hn : plan.1.needs = some n) :
    ∃ document ∈ b.graph.ofKind .document, ∃ l, b.documentClass document = .ok l ∧
      n = l.fullName ∧
      (plan.1.hint = some l.className ∨ plan.1.hint = some ("?" ++ l.className)) := by
  obtain ⟨resolved, -, h⟩ := Outcome.bind_eq_ok h
  obtain ⟨type, htype, h⟩ := Outcome.bind_eq_ok h
  cases h
  obtain ⟨document, hdocument, l, hl, rfl, hhint⟩ := needs_propertyType htype hn
  refine ⟨document, hdocument, l, hl, rfl, ?_⟩
  dsimp only
  rw [hhint]
  split
  · exact .inr rfl
  · exact .inl (by simp)

theorem importName_mem_recordMembers {plans : List PropertyPlan} {i : Import}
    (h : .importName i ∈ recordMembers plans) :
    ∃ p ∈ plans, ∃ n, p.needs = some n ∧ i = .ofClass n := by
  simp only [recordMembers, List.mem_append, List.mem_flatMap, List.mem_map] at h
  rcases h with ⟨p, hp, h⟩ | ⟨p, -, h⟩
  · simp only [PropertyPlan.fields, List.mem_append, Option.mem_toList, Option.map_eq_some_iff,
      List.mem_cons, List.not_mem_nil, or_false] at h
    rcases h with ⟨n, hn, h⟩ | h | h
    · exact ⟨p, hp, n, hn, (Change.importName.inj h).symm⟩
    · cases h
    · cases h
  · cases h

theorem property_mem_recordMembers {plans : List PropertyPlan} {p : PropertyPlan} (hp : p ∈ plans) :
    .property (.privateOne p.hint p.property none) ∈ recordMembers plans :=
  List.mem_append_left _ (List.mem_flatMap.2 ⟨p, hp, by simp [PropertyPlan.fields]⟩)

/-! ## Records -/

/-- A record with planned properties, and further changes that import nothing. -/
theorem typed_recordChanges {e : Element} {types : TypeSet} {required : List String}
    {nesting : Nesting} {properties : List (String × SchemaType)}
    {plans : List (PropertyPlan × List NestedClass)}
    (h : b.planProperties e types properties required nesting = .ok plans) {more : List Change}
    (hmore : ∀ i, .importName i ∉ more) :
    b.Typed (recordChanges (plans.map Prod.fst) ++ more) := by
  intro rest hrest i hi
  rw [recordChanges, List.append_assoc] at hrest
  obtain rfl := List.append_cancel_left hrest
  obtain ⟨p, hp, n, hn, rfl⟩ :=
    importName_mem_recordMembers ((List.mem_append.1 hi).resolve_right (hmore i))
  obtain ⟨plan, hplan, rfl⟩ := List.mem_map.1 hp
  obtain ⟨property, -, hproperty⟩ := Outcome.exists_of_mem_mapM h hplan
  obtain ⟨document, hdocument, l, hl, rfl, hhint⟩ := needs_planProperty hproperty hn
  exact ⟨document, hdocument, l, _, hl, rfl,
    List.mem_append_left _ (property_mem_recordMembers hp), hhint⟩

/-- A record without properties, and further changes that import nothing. -/
theorem typed_recordBase {more : List Change} (hmore : ∀ i, .importName i ∉ more) :
    b.Typed (recordBase ++ more) := by
  intro rest hrest i hi
  obtain rfl := List.append_cancel_left hrest
  exact absurd hi (hmore i)

theorem typed_rootRecord {e : Element} {types : TypeSet} {changes : List Change}
    (h : b.rootRecord e types = .ok changes) {more : List Change}
    (hmore : ∀ i, .importName i ∉ more) : b.Typed (changes ++ more) := by
  obtain ⟨properties, required, plans, hplans, rfl⟩ := b.rootRecord_eq_ok h
  exact typed_recordChanges hplans hmore

/-- Changes that do not begin as those of a record are none. -/
theorem typed_of_ne {changes : List Change} {n : Nat} (hn : n < recordBase.length)
    (h : changes[n]? ≠ recordBase[n]?) : b.Typed changes := by
  rintro rest rfl
  exact absurd (List.getElem?_append_left hn) h

theorem typed_description (rest : List Change) : b.Typed (Description.base ++ rest) :=
  typed_of_ne (n := 0) (by decide) (show Description.base[0]? ≠ recordBase[0]? by decide)

theorem typed_valueObjectChanges {e : Element} {types : TypeSet} {changes : List Change}
    (h : b.ValueObjectChanges e types changes) : b.Typed changes := by
  cases h with
  | scalar hint suffix =>
    exact typed_of_ne (n := 0) (by decide) (by simp [scalarChanges, recordBase, Framework.imported])
  | record hplans =>
    have hnone : ∀ i, Change.importName i ∉ ([] : List Change) := by simp
    simpa using typed_recordChanges hplans hnone

/-! ## Artifacts -/

theorem typed_resolverChanges {changes : List Change} (h : b.ResolverChanges changes) :
    b.Typed changes := by
  cases h with
  | plain message =>
    exact typed_of_ne (n := 0) (by decide) (show resolverBase[0]? ≠ recordBase[0]? by decide)
  | finding message aggregate finder state =>
    exact typed_of_ne (n := 0) (by decide) (show resolverBase[0]? ≠ recordBase[0]? by decide)
  | finder aggregate finder state =>
    exact typed_of_ne (n := 0) (by decide)
      (show some (Framework.imported Framework.documentStore) ≠ recordBase[0]? by decide)

/-- What a record among the artifacts imports for its properties is the class of a document. -/
theorem typed_of_mem_artifacts {a : Artifact} (ha : a ∈ b.artifacts) {set : ChangeSet}
    (hset : a.changeSet? = some set) : b.Typed set.changes := by
  have hnone : ∀ i, Change.importName i ∉ ([] : List Change) := by simp
  cases b.origin_of_mem_artifacts ha with
  | behaviour _ h =>
    obtain ⟨aggregate, location, state, api, methods, -, -, -, -, rfl⟩ := b.behaviour_eq_ok h
    cases hset
    exact typed_of_ne (n := 1) (by decide)
      (show some (Framework.imported Framework.message) ≠ recordBase[1]? by decide)
  | state _ h =>
    obtain ⟨aggregate, location, data, events, -, -, hdata, rfl⟩ := b.state_eq_ok h
    cases hset
    have hmethods : ∀ i, Change.importName i ∉ events.map fun e => Change.method (b.wither e) := by
      simp
    rcases hdata with rfl | rfl | ⟨source, types, hdata⟩
    · exact typed_of_ne (n := 1) (by decide)
        (show RawState.changes[1]? ≠ recordBase[1]? by decide)
    · exact typed_recordBase hmethods
    · exact typed_rootRecord hdata hmethods
  | aggregateDescription _ h =>
    obtain ⟨aggregate, location, behaviour, chains, -, -, -, rfl⟩ :=
      b.aggregateDescription_eq_ok h
    cases hset
    exact typed_description _
  | message _ h =>
    obtain ⟨location, changes, rfl, hchanges⟩ := b.message_eq_ok h
    cases hset
    rw [ClassLocation.changeSet, ← List.append_nil changes]
    rcases hchanges with rfl | ⟨types, hchanges⟩
    · exact typed_recordBase hnone
    · exact typed_rootRecord hchanges hnone
  | messageDescription _ h =>
    obtain ⟨api, register, location, record, -, -, -, rfl⟩ := b.messageDescription_eq_ok h
    cases hset
    simp only [ClassLocation.changeSet, List.append_assoc]
    exact typed_description _
  | valueObject _ h hmem =>
    rcases b.valueObjects_eq_ok h with ⟨rfl, -⟩ | ⟨types, l, s, -, -, hs, rfl⟩
    · cases hmem
    · obtain ⟨c, hc, rfl⟩ := List.mem_map.1 hmem
      cases hset
      exact typed_valueObjectChanges (valueObjectChanges_of_mem hs hc)
  | request _ _ h =>
    obtain ⟨location, changes, rfl, hchanges⟩ := b.request_eq_ok h
    cases hset
    rw [ClassLocation.changeSet, ← List.append_nil changes]
    exact typed_rootRecord hchanges hnone
  | resolver _ h hmem =>
    obtain ⟨name, location, changes, rfl, hchanges⟩ := b.resolvers_eq_ok h _ hmem
    cases hset
    exact typed_resolverChanges hchanges
  | queryDescription _ _ _ _ h =>
    obtain ⟨location, -, rfl⟩ := Outcome.map_eq_ok h
    cases hset
    simp only [ClassLocation.changeSet, List.append_assoc]
    exact typed_description _
  | schemaFile _ hmem =>
    obtain ⟨name, schema, rfl⟩ := b.eq_schemaArtifact_of_mem hmem
    cases hset

/-! ## Generated classes -/

/-- Whether a document gets a class: the state of an aggregate if that is there, any other one if it
    is an object or a single value. -/
def hasClass (b : Blueprint) (document : Element) : Bool :=
  if document.isAggregateState then (b.graph.aggregateFor document.id).isSome
  else document.types.any fun types =>
    (b.resolve types types.root).toOption.any fun t => t.isScalar || t.properties?.isSome

/-- The state class of every aggregate is generated. -/
theorem declares_stateClass (h : b.errors = []) {aggregate : Element}
    (haggregate : b.graph.element? aggregate.id = some aggregate)
    (hkind : aggregate.is .aggregate = true) {l : ClassLocation}
    (hl : b.stateClass aggregate = .ok l) : Declares b.artifacts l := by
  have hmem := DomainGraph.mem_ofKind_of_element? haggregate hkind
  cases hc : b.graph.aggregateConnection aggregate.id with
  | error e =>
    obtain ⟨group, hgroup, -⟩ := exists_mem_artifacts h (t := .error e)
      (mem_attempts_of_aggregate hmem (by simp [aggregateAttempts, hc]))
    cases hgroup
  | ok c =>
    obtain ⟨a, ha, hstate⟩ := exists_mem_artifacts_of_one h (x := b.state c)
      (mem_attempts_of_connection hc (by simp))
    obtain ⟨aggregate', l', data, events, haggregate', hl', -, rfl⟩ := b.state_eq_ok hstate
    rw [(DomainGraph.aggregateConnection_eq_ok hc).2.1, haggregate] at haggregate'
    obtain rfl := Option.some.inj haggregate'
    obtain rfl := Except.ok.inj (hl.symm.trans hl')
    exact declares_of_mem ha

theorem classesFor_eq_ok {e : Element} {types : TypeSet} {l : ClassLocation} {t : SchemaType}
    {classes : List PlacedClass} {nested : List NestedClass}
    (h : b.classesFor e types l t = .ok (classes, nested))
    (ht : (t.isScalar || t.properties?.isSome) = true) : ∃ changes, (l, changes) ∈ classes := by
  unfold classesFor at h
  split at h
  · cases h
    exact ⟨_, List.mem_singleton_self _⟩
  · obtain ⟨plans, -, hp⟩ := Outcome.map_eq_ok h
    cases hp
    exact ⟨_, List.mem_singleton_self _⟩
  · simp_all [SchemaType.isScalar, SchemaType.properties?]
  · simp_all [SchemaType.isScalar, SchemaType.properties?]
  · cases h

/-- The class of every document is generated that is an object or a single value. -/
theorem declares_valueObject (h : b.errors = []) {document : Element}
    (hdocument : document ∈ b.graph.ofKind .document)
    (hstate : document.isAggregateState = false) (hclass : b.hasClass document = true)
    {l : ClassLocation} (hl : b.locate document = .ok l) : Declares b.artifacts l := by
  obtain ⟨group, hgroup, hmem⟩ := exists_mem_artifacts h
    (mem_attempts_of_document hdocument (t := b.valueObjects document) (by simp [documentAttempts]))
  rw [hasClass, hstate, if_neg (by decide)] at hclass
  obtain ⟨types, htypes, hclass⟩ := (Option.any_eq_true _ _).1 hclass
  obtain ⟨t, ht, hclass⟩ := (Option.any_eq_true _ _).1 hclass
  rcases b.valueObjects_eq_ok hgroup with ⟨-, hnone⟩ | ⟨types', l', s, htypes', hl', hs, rfl⟩
  · simp [htypes, hstate] at hnone
  · obtain rfl := Option.some.inj (htypes.symm.trans htypes')
    obtain rfl := Except.ok.inj (hl.symm.trans hl')
    obtain ⟨t', classes, nested, ht', hclasses, hsubset⟩ := classes_subset_expansion hs
    obtain rfl := Except.ok.inj ((Outcome.toOption_eq_some_iff.1 ht).symm.trans ht')
    obtain ⟨changes, hchanges⟩ := classesFor_eq_ok hclasses hclass
    exact declares_of_mem (hmem _ (List.mem_map_of_mem (hsubset hchanges)))

/-- The class that a document is referred to by is generated, if the document has one. -/
theorem declares_documentClass (h : b.errors = []) {document : Element}
    (hdocument : document ∈ b.graph.ofKind .document) (hclass : b.hasClass document = true)
    {l : ClassLocation} (hl : b.documentClass document = .ok l) : Declares b.artifacts l := by
  unfold documentClass at hl
  cases hstate : document.isAggregateState with
  | false =>
    rw [hstate, if_neg (by decide)] at hl
    exact declares_valueObject h hdocument hstate hclass hl
  | true =>
    rw [hasClass, hstate, if_pos rfl] at hclass
    obtain ⟨aggregate, haggregate⟩ := Option.isSome_iff_exists.1 hclass
    rw [hstate, if_pos rfl, haggregate] at hl
    obtain ⟨helement, hkind⟩ := DomainGraph.aggregateFor_eq_some haggregate
    exact declares_stateClass h helement hkind hl

/-- What a record imports for its properties is the class of a document; and it is declared by one
    of the artifacts if the document has a class. -/
theorem record_imports_declared {a : Artifact} {set : ChangeSet} {rest : List Change} {i : Import}
    (h : b.errors = []) (ha : a ∈ b.artifacts) (hset : a.changeSet? = some set)
    (hrest : set.changes = recordBase ++ rest) (hi : .importName i ∈ rest) :
    b.ImportsDocument rest i ∧
      ∀ document ∈ b.graph.ofKind .document, ∀ l, b.documentClass document = .ok l →
        i = .ofClass l.fullName → b.hasClass document = true → Declares b.artifacts l :=
  ⟨typed_of_mem_artifacts ha hset rest hrest i hi, fun _ hdocument _ hl _ hclass =>
    declares_documentClass h hdocument hclass hl⟩

/-! ### A document that an event refers to -/

/-- The nodes of an event with a property that refers to a document. -/
def taggedNodes (tags : Json) : List DomainGraph.Node :=
  let schema : Json := .object [("type", .text "object"),
    ("properties", .object [("tags", .object [("$ref", .text "#/definitions/Tags")])])]
  [⟨"tagged", "Tagged", "event", some (.object [("schema", schema)]), [], [], none⟩,
    ⟨"tags", "Tags", "document", some tags, [], [], none⟩]

/-- A project with an event that refers to a document. -/
def tagged (tags : Json) : Blueprint :=
  ⟨.standard (Naming.Autoload.empty.insert "Acme" ⟨"src"⟩),
    (DomainGraph.ofNodes (taggedNodes tags)).toOption.getD ⟨[], [], .empty⟩⟩

/-- The metadata of a document that is a text. -/
def textDocument : Json := .object [("schema", .object [("type", .text "string")])]

/-- The metadata of a document that is a list. -/
def listDocument : Json := .object [("schema", .object [("type", .text "array")])]

/-- The metadata of a document with the state of an aggregate. -/
def stateDocument : Json :=
  .object [("schema", .object [("type", .text "object")]), ("aggregateState", .bool true)]

/-- The import of the class of the document. -/
def tagsImport : Import := .ofClass "Acme\\Domain\\Model\\ValueObject\\Tags"

/-- Whether changes are those of a record that imports a class for a property. -/
def importsBehindBase (i : Import) (set : ChangeSet) : Bool :=
  set.changes.take recordBase.length == recordBase &&
    (set.changes.drop recordBase.length).contains (.importName i)

theorem record_imports_declared_tagged :
    (tagged textDocument).errors = [] ∧
    ∃ a ∈ (tagged textDocument).artifacts, ∃ set rest, a.changeSet? = some set ∧
      set.changes = recordBase ++ rest ∧ .importName tagsImport ∈ rest ∧
      ∃ document ∈ (tagged textDocument).graph.ofKind .document, ∃ l,
        (tagged textDocument).documentClass document = .ok l ∧ tagsImport = .ofClass l.fullName ∧
        Declares (tagged textDocument).artifacts l := by
  have h : (tagged textDocument).errors = [] := by decide +kernel
  have himports : ∃ a ∈ (tagged textDocument).artifacts, ∃ set ∈ a.changeSet?,
      importsBehindBase tagsImport set = true := by decide +kernel
  have hclass : ∀ document ∈ (tagged textDocument).graph.ofKind .document,
      (tagged textDocument).hasClass document = true := by decide +kernel
  obtain ⟨a, ha, set, hset, himports⟩ := himports
  obtain ⟨hbase, hi⟩ := Bool.and_eq_true_iff.1 himports
  have hrest : set.changes = recordBase ++ set.changes.drop recordBase.length := by
    conv_lhs => rw [← List.take_append_drop recordBase.length set.changes, eq_of_beq hbase]
  have hi := List.contains_iff_mem.1 hi
  obtain ⟨⟨document, hdocument, l, decl, hl, heq, -, -⟩, hdeclares⟩ :=
    record_imports_declared h ha hset hrest hi
  exact ⟨h, a, ha, set, _, hset, hrest, hi, document, hdocument, l, hl, heq,
    hdeclares document hdocument l hl heq (hclass document hdocument)⟩

/-- Without an error the event imports the class of the document, which no artifact declares. -/
def LacksTags (document : Json) : Prop :=
  (DomainGraph.ofNodes (taggedNodes document)).toOption.isSome = true ∧
    (tagged document).errors = [] ∧
    (∃ a ∈ (tagged document).artifacts, ∃ set ∈ a.changeSet?,
      importsBehindBase tagsImport set = true) ∧
    ∀ a ∈ (tagged document).artifacts, ∀ set ∈ a.changeSet?, set.target.name ≠ "Tags"

instance (document : Json) : Decidable (LacksTags document) :=
  inferInstanceAs (Decidable (_ ∧ _ ∧ _ ∧ _))

/-- Neither a list nor a state without an aggregate gets the class that a record imports for it. -/
theorem tagged_not_declared : LacksTags listDocument ∧ LacksTags stateDocument := by
  decide +kernel

end Blueprint

end DomainScaffold
