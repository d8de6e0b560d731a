import DomainScaffold.Artifact.Model
import DomainScaffold.Proofs.Generation.Chains
import DomainScaffold.Proofs.Graph.Aggregates

/-!
# Origins of artifacts

Every artifact of a model was made of an element in one of a few ways; and if nothing failed, every
way that applies to an element was taken.

Results:
* `behaviour_eq_ok`, `state_eq_ok`, `message_eq_ok`, `request_eq_ok`, `valueObjects_eq_ok`,
  `resolvers_eq_ok`: what the artifacts made in one way consist of.
* `origin_of_mem_artifacts`: how the artifacts of a model were made.
* `exists_mem_artifacts_of_one`: without errors an attempt at one artifact gave it.
* `schemaArtifacts_subset`: schema files are always among the artifacts.
-/

namespace DomainScaffold.Blueprint

open Php Merge Schema

variable (b : Blueprint)

/-! ## Contents of artifacts -/

/-- What holds of the parts of a record holds of all its changes. -/
theorem all_recordChanges {f : Change → Bool} (hbase : recordBase.all f = true)
    (hfields : ∀ p : PropertyPlan, p.fields.all f = true)
    (hgetter : ∀ p : PropertyPlan, f (.method p.getter) = true) (plans : List PropertyPlan) :
    (recordChanges plans).all f = true := by
  rw [recordChanges, recordMembers, List.all_append, List.all_append, List.all_flatMap,
    List.all_map, hbase, Bool.true_and, Bool.and_eq_true]
  exact ⟨List.all_eq_true.2 fun p _ => hfields p, List.all_eq_true.2 fun p _ => hgetter p⟩

/-- What the record class for the root of a schema consists of. -/
theorem rootRecord_eq_ok {e : Element} {types : TypeSet} {changes : List Change}
    (h : b.rootRecord e types = .ok changes) :
    ∃ properties required plans, b.planProperties e types properties required .arrays = .ok plans ∧
      changes = recordChanges (plans.map Prod.fst) := by
  unfold rootRecord at h
  split at h
  · obtain ⟨plans, hplans, rfl⟩ := Outcome.map_eq_ok h
    exact ⟨_, _, plans, hplans, rfl⟩
  · cases h

/-- What a behaviour class consists of. -/
theorem behaviour_eq_ok {c : AggregateConnection} {a : Artifact} (h : b.behaviour c = .ok a) :
    ∃ aggregate location state api methods, b.graph.element? c.aggregate = some aggregate ∧
      b.locate aggregate = .ok location ∧ b.apiClass Framework.ApiClass.event.name = .ok api ∧
      b.allMethods aggregate [] c.commands = .ok methods ∧
      a = .ofClass (b.className aggregate) location
        ([Framework.imported api.fullName, Framework.imported Framework.message,
            Framework.imported Framework.generator,
            .importName (.ofClassAs (ClassLocation.fullName state) Framework.stateName)] ++
          (methods.handlers ++ methods.appliers).map .method) := by
  obtain ⟨aggregate, haggregate, h⟩ := Outcome.bind_eq_ok h
  obtain ⟨location, hlocation, h⟩ := Outcome.bind_eq_ok h
  obtain ⟨state, -, h⟩ := Outcome.bind_eq_ok h
  obtain ⟨api, hapi, h⟩ := Outcome.bind_eq_ok h
  obtain ⟨methods, hmethods, h⟩ := Outcome.bind_eq_ok h
  cases h
  exact ⟨aggregate, location, state, api, methods, b.element_eq_ok_iff.1 haggregate, hlocation,
    hapi, hmethods, rfl⟩

/-- What a state class consists of. -/
theorem state_eq_ok {c : AggregateConnection} {a : Artifact} (h : b.state c = .ok a) :
    ∃ aggregate location data, ∃ events : List Element,
      b.graph.element? c.aggregate = some aggregate ∧ b.stateClass aggregate = .ok location ∧
      (data = RawState.changes ∨ data = recordBase ∨
        ∃ source types, b.rootRecord source types = .ok data) ∧
      a = .ofClass location.className location
        (data ++ events.map fun e => .method (b.wither e)) := by
  obtain ⟨aggregate, haggregate, h⟩ := Outcome.bind_eq_ok h
  obtain ⟨location, hlocation, h⟩ := Outcome.bind_eq_ok h
  obtain ⟨data, hdata, h⟩ := Outcome.bind_eq_ok h
  obtain ⟨events, -, h⟩ := Outcome.bind_eq_ok h
  cases h
  refine ⟨aggregate, location, data, events, b.element_eq_ok_iff.1 haggregate, hlocation, ?_, rfl⟩
  unfold stateData at hdata
  split at hdata
  · cases hdata
    exact .inl rfl
  · dsimp only at hdata
    split at hdata
    · cases hdata
      exact .inr (.inl rfl)
    · exact .inr (.inr ⟨_, _, hdata⟩)

/-- What the class of a message consists of. -/
theorem message_eq_ok {e : Element} {a : Artifact} (h : b.message e = .ok a) :
    ∃ location changes, a = .ofClass (b.constantName e) location changes ∧
      (changes = recordBase ∨ ∃ types, b.rootRecord e types = .ok changes) := by
  unfold message at h
  split at h
  · obtain ⟨location, -, h⟩ := Outcome.bind_eq_ok h
    cases htypes : e.types with
    | none =>
      rw [htypes] at h
      cases h
      exact ⟨location, _, rfl, .inl rfl⟩
    | some types =>
      rw [htypes] at h
      obtain ⟨changes, hchanges, h⟩ := Outcome.bind_eq_ok h
      cases h
      exact ⟨location, changes, rfl, .inr ⟨types, hchanges⟩⟩
  · cases h

/-- What the class of a request consists of. -/
theorem request_eq_ok {document : Element} {types : TypeSet} {className : String} {a : Artifact}
    (h : b.request document types className = .ok a) :
    ∃ location changes, a = .ofClass ("Query\\" ++ className) location changes ∧
      b.rootRecord document types = .ok changes := by
  obtain ⟨location, -, h⟩ := Outcome.bind_eq_ok h
  obtain ⟨changes, hchanges, h⟩ := Outcome.bind_eq_ok h
  cases h
  exact ⟨location, changes, rfl, hchanges⟩

/-! ### Value objects -/

/-- The changes of the class of an object or a single value in a schema. -/
inductive ValueObjectChanges (e : Element) (types : TypeSet) : List Change → Prop
  | scalar (hint suffix : String) : ValueObjectChanges e types (scalarChanges hint suffix)
  | record {properties : List (String × SchemaType)} {required : List String}
      {plans : List (PropertyPlan × List NestedClass)}
      (h : b.planProperties e types properties required .classes = .ok plans) :
      ValueObjectChanges e types (recordChanges (plans.map Prod.fst))

/-- An expansion keeps the classes that were there. -/
def Extends (e : Element) (types : TypeSet) (s s' : Expansion) : Prop :=
  ∃ new, s'.classes = s.classes ++ new ∧ ∀ c ∈ new, b.ValueObjectChanges e types c.2

section Expansion

variable {b} {e : Element} {types : TypeSet}

theorem Extends.refl (s : Expansion) : b.Extends e types s s := ⟨[], by simp, by simp⟩

theorem Extends.trans {s s' s'' : Expansion} (h : b.Extends e types s s')
    (h' : b.Extends e types s' s'') : b.Extends e types s s'' := by
  obtain ⟨new, hs, hnew⟩ := h
  obtain ⟨new', hs', hnew'⟩ := h'
  exact ⟨new ++ new', by rw [hs', hs, List.append_assoc], List.forall_mem_append.2 ⟨hnew, hnew'⟩⟩

theorem Extends.subset {s s' : Expansion} (h : b.Extends e types s s') :
    s.classes ⊆ s'.classes := by
  obtain ⟨new, hs, -⟩ := h
  rw [hs]
  exact List.subset_append_left _ _

theorem extends_classesFor {l : ClassLocation} {t : SchemaType} {classes : List PlacedClass}
    {nested : List NestedClass} (h : b.classesFor e types l t = .ok (classes, nested))
    (s : Expansion) : b.Extends e types s (s.add l.className classes) := by
  refine ⟨classes, rfl, ?_⟩
  unfold classesFor at h
  split at h
  · cases h
    exact List.forall_mem_singleton.2 (.scalar _ _)
  · obtain ⟨plans, hplans, hp⟩ := Outcome.map_eq_ok h
    cases hp
    exact List.forall_mem_singleton.2 (.record hplans)
  · cases h
    simp
  · obtain ⟨t, -, ht⟩ := Outcome.map_eq_ok h
    cases ht
    simp
  · cases h

theorem extends_expand {depth : Nat} {l : ClassLocation} {t : SchemaType} {s s' : Expansion}
    (h : b.expand e types depth l t s = .ok s') : b.Extends e types s s' := by
  induction depth generalizing l t s s' with
  | zero =>
    cases h
    exact .refl s
  | succ depth ih =>
    unfold expand at h
    split at h
    · cases h
      exact .refl s
    · obtain ⟨resolved, -, h⟩ := Outcome.bind_eq_ok h
      obtain ⟨⟨classes, nested⟩, hclasses, h⟩ := Outcome.bind_eq_ok h
      exact Outcome.foldlM_induction (P := b.Extends e types s)
        (fun n _ s' s'' hs hn => hs.trans (ih hn)) (extends_classesFor hclasses s) h

theorem valueObjectChanges_of_mem {l : ClassLocation} {s : Expansion}
    (h : b.expansion e types l = .ok s) {c : PlacedClass} (hc : c ∈ s.classes) :
    b.ValueObjectChanges e types c.2 := by
  obtain ⟨new, hnew, hchanges⟩ := extends_expand h
  exact hchanges c (by simpa [hnew, Expansion.empty] using hc)

/-- The class of the root of a schema is among its classes. -/
theorem classes_subset_expansion {l : ClassLocation} {s : Expansion}
    (h : b.expansion e types l = .ok s) :
    ∃ resolved classes nested, b.resolve types types.root = .ok resolved ∧
      b.classesFor e types l resolved = .ok (classes, nested) ∧ classes ⊆ s.classes := by
  obtain ⟨depth, hdepth⟩ : ∃ depth, (b.classNames types l.className).length = depth + 1 :=
    Nat.exists_eq_succ_of_ne_zero (by simp [classNames])
  rw [expansion, hdepth, expand, if_neg (by simp [Expansion.has, Expansion.empty])] at h
  obtain ⟨resolved, hresolved, h⟩ := Outcome.bind_eq_ok h
  obtain ⟨⟨classes, nested⟩, hclasses, h⟩ := Outcome.bind_eq_ok h
  have hextends : b.Extends e types (Expansion.empty.add l.className classes) s :=
    Outcome.foldlM_induction (P := b.Extends e types _)
      (fun n _ s' s'' hs hn => hs.trans (extends_expand hn)) (.refl _) h
  exact ⟨resolved, classes, nested, hresolved, hclasses, hextends.subset⟩

end Expansion

/-- The value objects of a document are the classes of its schema. -/
theorem valueObjects_eq_ok {document : Element} {group : List Artifact}
    (h : b.valueObjects document = .ok group) :
    group = [] ∧ (document.types = none ∨ document.isAggregateState = true) ∨
      ∃ types l s, document.types = some types ∧ b.locate document = .ok l ∧
        b.expansion document types l = .ok s ∧
        group =
          s.classes.map fun c => .ofClass (valueObjectName l.className c.1.className) c.1 c.2 := by
  unfold valueObjects at h
  split at h
  · split at h
    · rename_i htypes
      cases h
      exact .inl ⟨rfl, .inl htypes⟩
    · rename_i types htypes
      split at h
      · rename_i hstate
        cases h
        exact .inl ⟨rfl, .inr hstate⟩
      · obtain ⟨l, hl, h⟩ := Outcome.bind_eq_ok h
        obtain ⟨s, hs, h⟩ := Outcome.bind_eq_ok h
        cases h
        exact .inr ⟨types, l, s, htypes, hl, hs, rfl⟩
  · cases h

/-! ### Resolvers and descriptions -/

/-- The changes of a resolver or finder. -/
inductive ResolverChanges : List Change → Prop
  | plain (message : String) : ResolverChanges
      (resolverBase ++ [.method (resolveMethod message "array" (.list []))])
  | finding (message : String) (aggregate : Element) (finder state : ClassLocation) :
      ResolverChanges
        (resolverBase ++
            [Framework.imported finder.fullName, Framework.imported state.fullName] ++
          injected finder.className "finder" ++
          [.method (resolveMethod message ("?" ++ state.className)
            (b.foundState message aggregate))])
  | finder (aggregate : Element) (finder state : ClassLocation) :
      ResolverChanges (b.finderChanges aggregate finder state)

/-- What a resolver and its finder consist of. -/
theorem resolvers_eq_ok {message : String} {l : ClassLocation} {document : Element}
    {group : List Artifact} (h : b.resolvers message l document = .ok group) :
    ∀ a ∈ group, ∃ name location changes, a = .ofClass name location changes ∧
      b.ResolverChanges changes := by
  unfold resolvers at h
  split at h
  · obtain ⟨state, -, h⟩ := Outcome.bind_eq_ok h
    obtain ⟨finder, -, h⟩ := Outcome.bind_eq_ok h
    cases h
    exact List.forall_mem_cons.2 ⟨⟨_, _, _, rfl, .finding _ _ _ _⟩,
      List.forall_mem_singleton.2 ⟨_, _, _, rfl, .finder _ _ _⟩⟩
  · cases h
    exact List.forall_mem_singleton.2 ⟨_, _, _, rfl, .plain _⟩

/-- A schema file holds the schema of an element under one of its names. -/
theorem eq_schemaArtifact_of_mem {e : Element} {a : Artifact} (h : a ∈ b.schemaArtifacts e) :
    ∃ name schema, a = b.schemaArtifact name schema := by
  unfold schemaArtifacts at h
  split at h <;> simp at h
  · grind
  · grind
  · grind

/-! ## Ways of making artifacts -/

/-- How an artifact was made. -/
inductive Origin : Artifact → Prop
  | behaviour {id : String} {c : AggregateConnection} {a : Artifact}
      (hc : b.graph.aggregateConnection id = .ok c) (h : b.behaviour c = .ok a) : Origin a
  | state {id : String} {c : AggregateConnection} {a : Artifact}
      (hc : b.graph.aggregateConnection id = .ok c) (h : b.state c = .ok a) : Origin a
  | aggregateDescription {id : String} {c : AggregateConnection} {a : Artifact}
      (hc : b.graph.aggregateConnection id = .ok c) (h : b.aggregateDescription c = .ok a) :
      Origin a
  | message {e : Element} {a : Artifact} (he : e ∈ b.graph.elements) (h : b.message e = .ok a) :
      Origin a
  | messageDescription {e : Element} {a : Artifact} (he : e ∈ b.graph.elements)
      (h : b.messageDescription e = .ok a) : Origin a
  | valueObject {e : Element} {group : List Artifact} {a : Artifact} (he : e ∈ b.graph.elements)
      (h : b.valueObjects e = .ok group) (ha : a ∈ group) : Origin a
  | request {e : Element} {types : TypeSet} {className : String} {a : Artifact}
      (he : e ∈ b.graph.elements) (htypes : e.queryTypes = some types)
      (h : b.request e types className = .ok a) : Origin a
  | resolver {e : Element} {message : String} {l : ClassLocation} {group : List Artifact}
      {a : Artifact} (he : e ∈ b.graph.elements) (h : b.resolvers message l e = .ok group)
      (ha : a ∈ group) : Origin a
  | queryDescription {e : Element} {types : TypeSet} {l : ClassLocation} {a : Artifact}
      (he : e ∈ b.graph.elements) (hkind : e.is .document = true)
      (htypes : e.queryTypes = some types)
      (hl : b.locateIn b.layout.resolverDir (b.className e ++ "Resolver") = .ok l)
      (h : b.queryDescription e (b.queryNameOf e) l = .ok a) : Origin a
  | schemaFile {e : Element} {a : Artifact} (he : e ∈ b.graph.elements)
      (ha : a ∈ b.schemaArtifacts e) : Origin a

theorem origin_of_one {x : Outcome Artifact} (hx : ∀ a, x = .ok a → b.Origin a)
    {group : List Artifact} (h : .ok group = Attempt.one x) : ∀ a ∈ group, b.Origin a := by
  obtain ⟨a, ha, rfl⟩ := Outcome.map_eq_ok h.symm
  exact List.forall_mem_singleton.2 (hx a ha)

theorem origin_of_query {e : Element} (he : e ∈ b.graph.elements) {group : List Artifact}
    (h : b.query e = .ok group) : ∀ a ∈ group, b.Origin a := by
  unfold query at h
  split at h
  · rename_i hkind
    split at h
    · cases h
      simp
    · rename_i types htypes
      obtain ⟨request, hrequest, h⟩ := Outcome.bind_eq_ok h
      obtain ⟨resolver, hresolver, h⟩ := Outcome.bind_eq_ok h
      obtain ⟨resolvers, hresolvers, h⟩ := Outcome.bind_eq_ok h
      obtain ⟨description, hdescription, h⟩ := Outcome.bind_eq_ok h
      cases h
      exact List.forall_mem_cons.2 ⟨.request he htypes hrequest, List.forall_mem_append.2
        ⟨fun a ha => .resolver he hresolvers ha,
          List.forall_mem_singleton.2
            (.queryDescription he hkind htypes hresolver hdescription)⟩⟩
  · cases h

theorem mem_elements_of_mem_ofKind {e : Element} {kind : ElementKind}
    (he : e ∈ b.graph.ofKind kind) : e ∈ b.graph.elements := (List.mem_filter.1 he).1

theorem origin_of_mem_artifacts {a : Artifact} (h : a ∈ b.artifacts) : b.Origin a := by
  obtain ⟨group, hgroup, ha⟩ := b.mem_artifacts_iff.1 h
  suffices hall : ∀ a ∈ group, b.Origin a from hall a ha
  simp only [attempts, List.mem_append, List.mem_flatMap] at hgroup
  rcases hgroup with (⟨e, -, ht⟩ | ⟨e, he, ht⟩) | ⟨e, he, ht⟩
  · unfold aggregateAttempts at ht
    split at ht
    · simp at ht
    · rename_i c hc
      simp only [List.mem_cons, List.not_mem_nil, or_false] at ht
      rcases ht with ht | ht | ht
      · exact b.origin_of_one (fun a => .behaviour hc) ht
      · exact b.origin_of_one (fun a => .state hc) ht
      · exact b.origin_of_one (fun a => .aggregateDescription hc) ht
  · have he : e ∈ b.graph.elements :=
      he.elim b.mem_elements_of_mem_ofKind b.mem_elements_of_mem_ofKind
    simp only [messageAttempts, List.mem_cons, List.not_mem_nil, or_false] at ht
    rcases ht with ht | ht | ht
    · exact b.origin_of_one (fun a => .message he) ht
    · exact b.origin_of_one (fun a => .messageDescription he) ht
    · cases ht
      exact fun a => .schemaFile he
  · have he := b.mem_elements_of_mem_ofKind he
    simp only [documentAttempts, List.mem_cons, List.not_mem_nil, or_false] at ht
    rcases ht with ht | ht | ht
    · exact fun a => .valueObject he ht.symm
    · exact b.origin_of_query he ht.symm
    · cases ht
      exact fun a => .schemaFile he

/-! ## Attempts that succeed -/

variable {b}

theorem exists_mem_artifacts (h : b.errors = []) {t : Attempt} (ht : t ∈ b.attempts) :
    ∃ group, t = .ok group ∧ ∀ a ∈ group, a ∈ b.artifacts := by
  obtain ⟨group, rfl⟩ := b.errors_eq_nil_iff.1 h t ht
  exact ⟨group, rfl, fun a ha => b.mem_artifacts_iff.2 ⟨group, ht, ha⟩⟩

theorem exists_mem_artifacts_of_one (h : b.errors = []) {x : Outcome Artifact}
    (hx : Attempt.one x ∈ b.attempts) : ∃ a ∈ b.artifacts, x = .ok a := by
  obtain ⟨group, hgroup, hmem⟩ := exists_mem_artifacts h hx
  obtain ⟨a, ha, rfl⟩ := Outcome.map_eq_ok hgroup
  exact ⟨a, hmem a (by simp), ha⟩

theorem mem_attempts_of_aggregate {aggregate : Element}
    (he : aggregate ∈ b.graph.ofKind .aggregate) {t : Attempt}
    (ht : t ∈ b.aggregateAttempts aggregate) : t ∈ b.attempts :=
  List.mem_append_left _ (List.mem_append_left _ (List.mem_flatMap.2 ⟨aggregate, he, ht⟩))

theorem mem_attempts_of_message {e : Element}
    (he : e ∈ b.graph.ofKind .command ++ b.graph.ofKind .event) {t : Attempt}
    (ht : t ∈ b.messageAttempts e) : t ∈ b.attempts :=
  List.mem_append_left _ (List.mem_append_right _ (List.mem_flatMap.2 ⟨e, he, ht⟩))

theorem mem_attempts_of_document {document : Element} (he : document ∈ b.graph.ofKind .document)
    {t : Attempt} (ht : t ∈ b.documentAttempts document) : t ∈ b.attempts :=
  List.mem_append_right _ (List.mem_flatMap.2 ⟨document, he, ht⟩)

/-- The attempts for an aggregate with a connection. -/
theorem mem_attempts_of_connection {id : String} {c : AggregateConnection}
    (hc : b.graph.aggregateConnection id = .ok c) {t : Attempt}
    (ht : t ∈ [Attempt.one (b.behaviour c), .one (b.state c), .one (b.aggregateDescription c)]) :
    t ∈ b.attempts := by
  obtain ⟨⟨aggregate, haggregate, hkind⟩, -⟩ := DomainGraph.aggregateConnection_eq_ok hc
  refine mem_attempts_of_aggregate (DomainGraph.mem_ofKind_of_element? haggregate hkind) ?_
  rwa [aggregateAttempts, (DomainGraph.mem_of_element? haggregate).2, hc]

/-- Schema files are always among the artifacts. -/
theorem schemaArtifacts_subset {e : Element} (he : e ∈ b.graph.elements) :
    ∀ a ∈ b.schemaArtifacts e, a ∈ b.artifacts := by
  intro a ha
  refine b.mem_artifacts_iff.2 ⟨_, ?_, ha⟩
  have hkind : e.kind = .command ∨ e.kind = .event ∨ e.kind = .document := by
    unfold schemaArtifacts at ha
    split at ha <;> simp_all
  have hmem : ∀ kind, e.kind = kind → e ∈ b.graph.ofKind kind := fun kind hk =>
    List.mem_filter.2 ⟨he, by simp [Element.is, hk]⟩
  rcases hkind with hk | hk | hk
  · exact mem_attempts_of_message (List.mem_append_left _ (hmem _ hk)) (by simp [messageAttempts])
  · exact mem_attempts_of_message (List.mem_append_right _ (hmem _ hk)) (by simp [messageAttempts])
  · exact mem_attempts_of_document (hmem _ hk) (by simp [documentAttempts])

end DomainScaffold.Blueprint
