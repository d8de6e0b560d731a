import DomainScaffold.Graph.Reader
import DomainScaffold.Proofs.Generation.Behaviours
import DomainScaffold.Proofs.Graph.Construction

/-!
# References to schema files

Registrations read schemas from files. The name of a file and the question whether there is one are
settled twice, where the schema is registered and where it is written; both come out the same. Only
the registrations of messages, of the types of documents and of queries read schemas.

Results:
* `query_isSome_of_ofText`: in a graph that was read, a query with types has a schema.
* `describedBy_of_mem_parts`: only registrations read schemas.
* `exists_link_of_mem_parts`: a schema is read in a registering call, and the directory is declared.
* `exists_schemaArtifact_of_link`: what such a call reads is the file of the schema it registers.
* `schemaFiles_agree`: every schema that is read is written.
-/

namespace DomainScaffold

open Php Merge Schema

/-! ## Parts of expressions -/

namespace Php.Expr

mutual

/-- An expression and all expressions in it. -/
def parts : Expr → List Expr
  | .array items => .array items :: partsOfItems items
  | .call f args => .call f args :: partsOfArgs args
  | .methodCall object m args => .methodCall object m args :: (parts object ++ partsOfArgs args)
  | .staticCall c m args => .staticCall c m args :: partsOfArgs args
  | .property object n => .property object n :: parts object
  | .new c args => .new c args :: partsOfArgs args
  | .clone value => .clone value :: parts value
  | .yield value => .yield value :: partsOfOption value
  | .assign target value => .assign target value :: (parts target ++ parts value)
  | .binary left op right => .binary left op right :: (parts left ++ parts right)
  | e => [e]

/-- The parts of arguments. -/
def partsOfArgs : List Expr → List Expr
  | [] => []
  | e :: es => parts e ++ partsOfArgs es

/-- The parts of an expression that may be absent. -/
def partsOfOption : Option Expr → List Expr
  | none => []
  | some e => parts e

/-- The parts of array items. -/
def partsOfItems : List (Option Expr × Expr) → List Expr
  | [] => []
  | (k, e) :: items => partsOfOption k ++ parts e ++ partsOfItems items

end

theorem partsOfArgs_eq (args : List Expr) : partsOfArgs args = args.flatMap parts := by
  induction args with
  | nil => rfl
  | cons e es ih => rw [partsOfArgs, ih, List.flatMap_cons]

/-- Whether an expression is a call that reads a file. -/
def isFileCall : Expr → Bool
  | .staticCall _ m _ => m == "fromFile"
  | _ => false

/-- Whether no part of an expression reads a file. -/
def readsNone (e : Expr) : Bool := e.parts.all fun x => !x.isFileCall

end Php.Expr

/-! ## Parts of changes -/

/-- The expressions of a method: the presets of its parameters, and its statements. -/
def Php.MethodDecl.exprs (d : MethodDecl) : List Expr :=
  d.params.filterMap Param.preset ++ (d.body.getD []).filterMap Statement.expression?

/-- The expressions of a change. -/
def Merge.Change.exprs : Change → List Expr
  | .constant d => d.entries.map Prod.snd
  | .property d => d.entries.filterMap Prod.snd
  | .method d => d.exprs
  | .methodGroup ds => ds.flatMap MethodDecl.exprs
  | .statements _ ss => ss.filterMap Statement.expression?
  | .mapEntry _ k v => [k, v]
  | .importName _ | .interface _ | .traitUse _ => []

/-- Whether no expression of a change reads a file. -/
def Merge.Change.readsNone (ch : Change) : Bool := ch.exprs.all Expr.readsNone

/-- The expressions of a change set, with all expressions in them. -/
def Merge.ChangeSet.parts (set : ChangeSet) : List Expr :=
  (set.changes.flatMap Change.exprs).flatMap Expr.parts

/-- The calls in the chains of a change set. -/
def Merge.ChangeSet.links (set : ChangeSet) : List (String × List Expr) :=
  (set.changes.flatMap Change.exprs).flatMap Expr.links

theorem mem_parts_iff {set : ChangeSet} {x : Expr} :
    x ∈ set.parts ↔ ∃ ch ∈ set.changes, ∃ e ∈ ch.exprs, x ∈ e.parts := by
  simp only [ChangeSet.parts, List.mem_flatMap]
  grind

theorem mem_links_iff {set : ChangeSet} {l : String × List Expr} :
    l ∈ set.links ↔ ∃ ch ∈ set.changes, ∃ e ∈ ch.exprs, l ∈ e.links := by
  simp only [ChangeSet.links, List.mem_flatMap]
  grind

/-- An expression that reads no file reads no schema. -/
theorem fileSchema_not_mem_of_readsNone {x : Expr} (h : x.readsNone = true) (n : String) :
    Description.fileSchema n ∉ x.parts := by
  intro hn
  have hnone := List.all_eq_true.1 h _ hn
  simp [Description.fileSchema, Expr.isFileCall] at hnone

theorem fileSchema_not_mem_parts {set : ChangeSet} (h : set.changes.all Change.readsNone = true)
    (n : String) : Description.fileSchema n ∉ set.parts := by
  intro hn
  obtain ⟨ch, hch, e, he, hx⟩ := mem_parts_iff.1 hn
  exact fileSchema_not_mem_of_readsNone
    (List.all_eq_true.1 (List.all_eq_true.1 h ch hch) e he) n hx

namespace Blueprint

variable {b : Blueprint}

/-! ## Classes that read no schema -/

theorem readsNone_recordChanges (plans : List PropertyPlan) :
    (recordChanges plans).all Change.readsNone = true := by
  have hfields : ∀ p : PropertyPlan, p.fields.all Change.readsNone = true := fun p => by
    unfold PropertyPlan.fields
    cases p.needs <;> rfl
  exact all_recordChanges rfl hfields (fun _ => rfl) plans

theorem readsNone_rootRecord {e : Element} {types : TypeSet} {changes : List Change}
    (h : b.rootRecord e types = .ok changes) : changes.all Change.readsNone = true := by
  obtain ⟨properties, required, plans, -, rfl⟩ := b.rootRecord_eq_ok h
  exact readsNone_recordChanges _

theorem readsNone_handler (command first : Element) :
    (Change.method (b.handler command first)).readsNone = true := by
  unfold handler messageParams
  cases command.createsAggregate <;> rfl

theorem readsNone_applier (event : Element) (creates : Bool) :
    (Change.method (b.applier event creates)).readsNone = true := by
  cases creates <;> rfl

theorem readsNone_valueObjectChanges {e : Element} {types : TypeSet} {changes : List Change}
    (h : b.ValueObjectChanges e types changes) : changes.all Change.readsNone = true := by
  cases h with
  | scalar hint suffix =>
    unfold scalarChanges valueText
    split <;> rfl
  | record hplans => exact readsNone_recordChanges _

theorem readsNone_resolverChanges {changes : List Change} (h : b.ResolverChanges changes) :
    changes.all Change.readsNone = true := by
  cases h with
  | plain message => rfl
  | finding message aggregate finder state => rfl
  | finder aggregate finder state =>
    unfold finderChanges
    split <;> rfl

/-! ## Chains -/

theorem readsNone_methodCall {object : Expr} (h : object.readsNone = true) {args : List Expr}
    (hargs : ∀ x ∈ args, x.readsNone = true) (method : String) :
    (Expr.methodCall object method args).readsNone = true := by
  simp only [Expr.readsNone, Expr.parts, Expr.partsOfArgs_eq, List.all_cons, List.all_append,
    List.all_flatMap, Bool.and_eq_true]
  exact ⟨rfl, h, List.all_eq_true.2 hargs⟩

theorem readsNone_registration (aggregate command : Element) (events : List Element)
    (behaviour : String) :
    (b.registration aggregate command events behaviour).readsNone = true :=
  b.registration_induction (P := fun x => x.readsNone = true) rfl
    (fun _ m _ h => readsNone_methodCall h (List.forall_mem_singleton.2 rfl) m)
    (fun _ m _ h => readsNone_methodCall h (List.forall_mem_singleton.2 rfl) m)
    (fun _ m _ _ h => readsNone_methodCall h (List.forall_mem_singleton.2 rfl) m) events behaviour

theorem readsNone_registrations {aggregate : Element} {behaviour : String}
    {commands : List (String × List String)} {chains : List Expr}
    (h : List.Forall₂ (fun p chain => b.registrationOf aggregate behaviour p = .ok chain)
      commands chains) :
    (Change.statements Description.describe (chains.map Statement.ofExpr)).readsNone = true := by
  rw [Change.readsNone, Change.exprs, List.filterMap_map]
  refine List.all_eq_true.2 fun x hx => ?_
  obtain ⟨chain, hchain, hx⟩ := List.mem_filterMap.1 hx
  obtain ⟨p, -, hp⟩ := exists_mem_zip_of_mem h.flip hchain
  obtain ⟨command, events, -, -, rfl⟩ := b.registrationOf_eq_ok hp
  cases hx
  exact readsNone_registration aggregate command events behaviour

/-- An expression reads schemas only in the calls of its chain. -/
def ReadsInLinks (x : Expr) : Prop :=
  ∀ n, Description.fileSchema n ∈ x.parts → ∃ l ∈ x.links, Description.fileSchema n ∈ l.2

theorem readsInLinks_of_readsNone {x : Expr} (h : x.readsNone = true) : ReadsInLinks x :=
  fun n hn => absurd hn (fileSchema_not_mem_of_readsNone h n)

theorem fileSchema_mem_parts_iff {n k : String} :
    Description.fileSchema n ∈ (Description.fileSchema k).parts ↔ n = k := by
  simp [Description.fileSchema, Expr.parts, Expr.partsOfArgs, Expr.selfConst]

theorem readsInLinks_methodCall {object : Expr} (h : ReadsInLinks object) {args : List Expr}
    (hargs : ∀ x ∈ args, x.readsNone = true ∨ ∃ k, x = Description.fileSchema k)
    (method : String) : ReadsInLinks (.methodCall object method args) := by
  intro n hn
  rw [Expr.parts, Expr.partsOfArgs_eq] at hn
  rcases List.mem_cons.1 hn with hn | hn
  · cases hn
  · rcases List.mem_append.1 hn with hn | hn
    · obtain ⟨l, hl, hmem⟩ := h n hn
      exact ⟨l, List.mem_append_left _ hl, hmem⟩
    · obtain ⟨x, hx, hn⟩ := List.mem_flatMap.1 hn
      rcases hargs x hx with hnone | ⟨k, rfl⟩
      · exact absurd hn (fileSchema_not_mem_of_readsNone hnone n)
      · rw [fileSchema_mem_parts_iff.1 hn]
        exact ⟨_, List.mem_append_right _ (List.mem_singleton_self _), hx⟩

/-! ## Registrations -/

variable (b) in
/-- An element has its registration in an artifact: a message, or a document with its query. -/
inductive DescribedBy (e : Element) (a : Artifact) : Prop
  | message (h : b.messageDescription e = .ok a)
  | query {types : TypeSet} {resolver : ClassLocation} (hkind : e.is .document = true)
      (htypes : e.queryTypes = some types)
      (h : b.queryDescription e (b.queryNameOf e) resolver = .ok a)

/-- The schema that a call registers for an element. -/
def schemaFor (method : String) (e : Element) : Option Json :=
  if method = "registerQuery" then e.querySchema else e.schema

/-- Only registrations read schemas. -/
theorem describedBy_of_mem_parts {a : Artifact} (ha : a ∈ b.artifacts) {set : ChangeSet}
    (hset : a.changeSet? = some set) {n : String} (hn : Description.fileSchema n ∈ set.parts) :
    ∃ e ∈ b.graph.elements, b.DescribedBy e a := by
  suffices hnone : (∃ e ∈ b.graph.elements, b.DescribedBy e a) ∨
      set.changes.all Change.readsNone = true from
    hnone.resolve_right fun h => fileSchema_not_mem_parts h n hn
  cases b.origin_of_mem_artifacts ha with
  | behaviour _ h =>
    obtain ⟨aggregate, location, state, api, methods, -, -, -, hmethods, rfl⟩ :=
      b.behaviour_eq_ok h
    cases hset
    right
    rw [ClassLocation.changeSet, List.all_append, List.all_map]
    exact List.all_eq_true.2
      (forall_mem_allMethods readsNone_handler readsNone_applier hmethods)
  | state _ h =>
    obtain ⟨aggregate, location, data, events, -, -, hdata, rfl⟩ := b.state_eq_ok h
    cases hset
    right
    rw [ClassLocation.changeSet, List.all_append, List.all_map, Bool.and_eq_true]
    refine ⟨?_, List.all_eq_true.2 fun e _ => rfl⟩
    rcases hdata with rfl | rfl | ⟨source, types, hdata⟩
    · rfl
    · rfl
    · exact readsNone_rootRecord hdata
  | aggregateDescription _ h =>
    obtain ⟨aggregate, location, behaviour, chains, -, -, hchains, rfl⟩ :=
      b.aggregateDescription_eq_ok h
    cases hset
    right
    rw [ClassLocation.changeSet, List.all_append, List.all_cons, List.all_cons, List.all_cons,
      readsNone_registrations hchains]
    rfl
  | message _ h =>
    obtain ⟨location, changes, rfl, hchanges⟩ := b.message_eq_ok h
    cases hset
    right
    rcases hchanges with rfl | ⟨types, hchanges⟩
    · rfl
    · exact readsNone_rootRecord hchanges
  | messageDescription he h => exact .inl ⟨_, he, .message h⟩
  | valueObject _ h hmem =>
    rcases b.valueObjects_eq_ok h with ⟨rfl, -⟩ | ⟨types, l, s, -, -, hs, rfl⟩
    · cases hmem
    · obtain ⟨c, hc, rfl⟩ := List.mem_map.1 hmem
      cases hset
      exact .inr (readsNone_valueObjectChanges (valueObjectChanges_of_mem hs hc))
  | request _ _ h =>
    obtain ⟨location, changes, rfl, hchanges⟩ := b.request_eq_ok h
    cases hset
    exact .inr (readsNone_rootRecord hchanges)
  | resolver _ h hmem =>
    obtain ⟨name, location, changes, rfl, hchanges⟩ := b.resolvers_eq_ok h _ hmem
    cases hset
    exact .inr (readsNone_resolverChanges hchanges)
  | queryDescription he hkind htypes _ h => exact .inl ⟨_, he, .query hkind htypes h⟩
  | schemaFile _ hmem =>
    obtain ⟨name, schema, rfl⟩ := b.eq_schemaArtifact_of_mem hmem
    cases hset

/-! ### Reading in calls -/

theorem readsInLinks_of_all {changes : List Change} (h : changes.all Change.readsNone = true) :
    ∀ ch ∈ changes, ∀ x ∈ ch.exprs, ReadsInLinks x := fun ch hch x hx =>
  readsInLinks_of_readsNone (List.all_eq_true.1 (List.all_eq_true.1 h ch hch) x hx)

theorem exists_link_of_readsInLinks {set : ChangeSet}
    (h : ∀ ch ∈ set.changes, ∀ x ∈ ch.exprs, ReadsInLinks x) {n : String}
    (hn : Description.fileSchema n ∈ set.parts) :
    ∃ l ∈ set.links, Description.fileSchema n ∈ l.2 := by
  obtain ⟨ch, hch, x, hx, hn⟩ := mem_parts_iff.1 hn
  obtain ⟨l, hl, hmem⟩ := h ch hch x hx n hn
  exact ⟨l, mem_links_iff.2 ⟨ch, hch, x, hx, hl⟩, hmem⟩

theorem schemaPath_mem_schemaFileChanges :
    Description.constant Description.schemaPath
      (.binary (.name "__DIR__") "." (.text b.schemaPathFromApi)) ∈ b.schemaFileChanges := by
  simp [schemaFileChanges]

theorem readsInLinks_messageCall (e : Element) (register : String) :
    ReadsInLinks (.methodCall Description.engine register
      [.selfConst (b.constantName e), Description.fileSchema (b.constantValue e)]) :=
  readsInLinks_methodCall (readsInLinks_of_readsNone rfl)
    (List.forall_mem_cons.2 ⟨.inl rfl, List.forall_mem_singleton.2 (.inr ⟨_, rfl⟩)⟩) _

/-- The registrations of a query and of the type that it returns. -/
theorem readsInLinks_queryCalls (document : Element) (name resolver : String) :
    ∀ x ∈ (Change.statements Description.describe (b.typeRegistration document ++
      [b.queryRegistration document name resolver])).exprs, ReadsInLinks x := by
  have htype : ReadsInLinks (.methodCall Description.engine "registerType"
      [.text (b.className document), Description.fileSchema (b.className document)]) :=
    readsInLinks_methodCall (readsInLinks_of_readsNone rfl)
      (List.forall_mem_cons.2 ⟨.inl rfl, List.forall_mem_singleton.2 (.inr ⟨_, rfl⟩)⟩) _
  have hquery : ∀ x, (b.queryRegistration document name resolver).expression? = some x →
      ReadsInLinks x := by
    rintro x ⟨⟩
    refine readsInLinks_methodCall (readsInLinks_methodCall (readsInLinks_methodCall
      (readsInLinks_of_readsNone rfl) ?_ _) ?_ _) ?_ _
    · exact List.forall_mem_cons.2 ⟨.inl rfl, List.forall_mem_singleton.2 (.inr ⟨_, rfl⟩)⟩
    · exact List.forall_mem_singleton.2 (.inl rfl)
    · exact List.forall_mem_singleton.2 (.inl rfl)
  intro x hx
  rw [Change.exprs, List.filterMap_append] at hx
  rcases List.mem_append.1 hx with hx | hx
  · unfold typeRegistration at hx
    split at hx
    · obtain rfl := List.mem_singleton.1 hx
      exact htype
    · cases hx
  · obtain ⟨s, hs, hx⟩ := List.mem_filterMap.1 hx
    obtain rfl := List.mem_singleton.1 hs
    exact hquery x hx

/-- A description that reads a schema declares the directory and reads in a registering call. -/
theorem exists_link_of_mem_parts {e : Element} {a : Artifact} (h : b.DescribedBy e a)
    {set : ChangeSet} (hset : a.changeSet? = some set) {n : String}
    (hn : Description.fileSchema n ∈ set.parts) :
    (∃ value, Description.constant Description.schemaPath value ∈ set.changes) ∧
      ∃ l ∈ set.links, Description.fileSchema n ∈ l.2 := by
  cases h with
  | message h =>
    obtain ⟨api, register, location, record, -, -, -, rfl⟩ := b.messageDescription_eq_ok h
    cases hset
    cases hschema : e.schema.isSome with
    | false =>
      -- nothing is read for a message without a schema
      refine absurd hn (fileSchema_not_mem_parts ?_ n)
      simp only [ClassLocation.changeSet, messageSchema, hschema]
      rfl
    | true =>
      simp only [ClassLocation.changeSet, messageSchema, hschema, if_true] at hn ⊢
      refine ⟨⟨_, List.mem_append_left _
        (List.mem_append_right _ schemaPath_mem_schemaFileChanges)⟩,
        exists_link_of_readsInLinks ?_ hn⟩
      exact List.forall_mem_append.2 ⟨readsInLinks_of_all rfl, List.forall_mem_cons.2
        ⟨List.forall_mem_singleton.2 (readsInLinks_messageCall e register),
          readsInLinks_of_all rfl⟩⟩
  | @query types resolver hkind htypes h =>
    obtain ⟨location, -, rfl⟩ := Outcome.map_eq_ok h
    cases hset
    refine ⟨⟨_, List.mem_append_left _ (List.mem_append_right _ schemaPath_mem_schemaFileChanges)⟩,
      exists_link_of_readsInLinks ?_ hn⟩
    refine List.forall_mem_append.2 ⟨readsInLinks_of_all ?_, List.forall_mem_singleton.2
      (readsInLinks_queryCalls e (b.queryNameOf e) resolver.className)⟩
    split <;> rfl

/-! ### Files of registered schemas -/

theorem registrar_eq_some {kind : ElementKind} {api : Framework.ApiClass} {register : String}
    (h : registrar? kind = some (api, register)) :
    (kind = .command ∨ kind = .event) ∧ register ≠ "registerQuery" := by
  unfold registrar? at h
  split at h <;> cases h <;> decide

theorem links_messageDescription {e : Element} {a : Artifact} (h : b.messageDescription e = .ok a)
    {set : ChangeSet} (hset : a.changeSet? = some set) :
    ∃ register, (e.kind = .command ∨ e.kind = .event) ∧ register ≠ "registerQuery" ∧
      set.links = [(register, [.selfConst (b.constantName e), (b.messageSchema e).2])] := by
  obtain ⟨api, register, location, record, hregistrar, -, -, rfl⟩ := b.messageDescription_eq_ok h
  cases hset
  obtain ⟨hkind, hregister⟩ := registrar_eq_some hregistrar
  refine ⟨register, hkind, hregister, ?_⟩
  unfold messageSchema
  split <;> rfl

theorem links_queryDescription {document : Element} {name : String} {resolver : ClassLocation}
    {a : Artifact} (h : b.queryDescription document name resolver = .ok a) {set : ChangeSet}
    (hset : a.changeSet? = some set) :
    set.links =
      (if document.schema.isSome then [("registerType",
          [.text (b.className document), Description.fileSchema (b.className document)])]
        else []) ++
      [("registerQuery",
          [.selfConst (b.naming.name .constantName name), Description.fileSchema name]),
        ("resolveWith", [.classRef resolver.className]),
        ("setReturnType", [.staticCall (Framework.short Framework.jsonSchema) "typeRef"
          [.text (b.className document)]])] := by
  obtain ⟨location, -, rfl⟩ := Outcome.map_eq_ok h
  cases hset
  simp only [ClassLocation.changeSet, ChangeSet.links, typeRegistration]
  split <;> rfl

theorem fileSchema_inj {n k : String} :
    Description.fileSchema n = Description.fileSchema k ↔ n = k := by
  simp [Description.fileSchema]

/-- What a registering call reads is the file of the schema that it registers. -/
theorem exists_schemaArtifact_of_link {e : Element} {a : Artifact} (h : b.DescribedBy e a)
    (hquery : e.queryTypes.isSome = true → e.querySchema.isSome = true) {set : ChangeSet}
    (hset : a.changeSet? = some set) {l : String × List Expr} (hl : l ∈ set.links) {n : String}
    (hn : Description.fileSchema n ∈ l.2) :
    ∃ schema, schemaFor l.1 e = some schema ∧ b.schemaArtifact n schema ∈ b.schemaArtifacts e := by
  cases h with
  | message h =>
    obtain ⟨register, hkind, hregister, hlinks⟩ := links_messageDescription h hset
    rw [hlinks] at hl
    obtain rfl := List.mem_singleton.1 hl
    have hn : Description.fileSchema n = (b.messageSchema e).2 := by
      rcases List.mem_cons.1 hn with hn | hn
      · cases hn
      · exact List.mem_singleton.1 hn
    unfold messageSchema at hn
    split at hn
    · rename_i hschema
      obtain ⟨schema, hschema⟩ := Option.isSome_iff_exists.1 hschema
      obtain rfl := fileSchema_inj.1 hn
      refine ⟨schema, by rw [schemaFor, if_neg hregister, hschema], ?_⟩
      rcases hkind with hkind | hkind <;> simp [schemaArtifacts, hkind, hschema]
    · simp [Description.fileSchema, Description.emptySchema] at hn
  | @query types resolver hkind htypes h =>
    obtain ⟨query, hschema⟩ := Option.isSome_iff_exists.1 (hquery (by rw [htypes]; rfl))
    have hkind : e.kind = .document := eq_of_beq hkind
    rw [links_queryDescription h hset] at hl
    rcases List.mem_append.1 hl with hl | hl
    · split at hl
      · rename_i htype
        obtain ⟨schema, htype⟩ := Option.isSome_iff_exists.1 htype
        obtain rfl := List.mem_singleton.1 hl
        obtain rfl : n = b.className e := by simpa [Description.fileSchema] using hn
        have hmethod : "registerType" ≠ "registerQuery" := by decide
        exact ⟨schema, by rw [schemaFor, if_neg hmethod, htype], by
          simp [schemaArtifacts, hkind, htype]⟩
      · cases hl
    · simp only [List.mem_cons, List.not_mem_nil, or_false] at hl
      rcases hl with rfl | rfl | rfl
      · obtain rfl : n = b.queryNameOf e := by
          simpa [Description.fileSchema, Expr.selfConst] using hn
        exact ⟨query, by rw [schemaFor, if_pos rfl, hschema], by
          simp [schemaArtifacts, hkind, hschema]⟩
      · simp [Description.fileSchema, Expr.classRef] at hn
      · simp [Description.fileSchema] at hn

/-! ### Graphs that were read -/

theorem query_isSome_of_ofFields {fields : Fields Json} {m : Metadata}
    (h : Metadata.ofFields fields = .ok m) (htypes : m.queryTypes.isSome = true) :
    m.query.isSome = true := by
  obtain ⟨schema, -, h⟩ := Outcome.bind_eq_ok h
  obtain ⟨query, -, h⟩ := Outcome.bind_eq_ok h
  obtain ⟨types, -, h⟩ := Outcome.bind_eq_ok h
  obtain ⟨queryTypes, hquery, h⟩ := Outcome.bind_eq_ok h
  cases h
  cases query with
  | none =>
    cases hquery
    cases htypes
  | some query => rfl

theorem query_isSome_of_node {node : DomainGraph.Node} {e : Element}
    (h : node.element = .ok e) (htypes : e.queryTypes.isSome = true) :
    e.querySchema.isSome = true := by
  unfold Element.queryTypes at htypes
  unfold Element.querySchema
  split at htypes
  · rw [if_pos ‹_›]
    cases hm : e.metadata with
    | none =>
      rw [hm] at htypes
      cases htypes
    | some m =>
      rw [hm] at htypes
      obtain rfl | ⟨fields, hfields⟩ := DomainGraph.Node.metadata_of_element h hm
      · cases htypes
      · exact query_isSome_of_ofFields hfields htypes
  · cases htypes

/-- In a graph that was read, a query with types has a schema. -/
theorem query_isSome_of_ofText {source : String} {g : DomainGraph}
    (h : DomainGraph.ofText source = .ok g) {e : Element} (he : e ∈ g.elements)
    (htypes : e.queryTypes.isSome = true) : e.querySchema.isSome = true := by
  unfold DomainGraph.ofText at h
  split at h
  · cases h
  · rename_i nodes _
    obtain ⟨elements, helements, h⟩ := Outcome.bind_eq_ok h
    have hmem : e ∈ elements := by
      unfold DomainGraph.ofParts at h
      split at h
      · cases h
      · cases h
      · obtain ⟨d, -, rfl⟩ := Outcome.map_eq_ok h
        exact he
    obtain ⟨node, -, hnode⟩ := Outcome.exists_of_mem_mapM helements hmem
    exact query_isSome_of_node hnode htypes

/-! ### Agreement -/

/-- Every schema that is read is written: a description that reads a schema declares the directory,
    reads it in a registering call for its element, and the file holds the schema that the call
    registers. -/
theorem schemaFiles_agree {source : String} (hread : DomainGraph.ofText source = .ok b.graph)
    {a : Artifact} (ha : a ∈ b.artifacts) {set : ChangeSet} (hset : a.changeSet? = some set)
    {n : String} (hn : Description.fileSchema n ∈ set.parts) :
    (∃ value, Description.constant Description.schemaPath value ∈ set.changes) ∧
      (∃ l ∈ set.links, Description.fileSchema n ∈ l.2) ∧
      (∃ e ∈ b.graph.elements, b.DescribedBy e a) ∧
      ∀ e ∈ b.graph.elements, b.DescribedBy e a → ∀ l ∈ set.links,
        Description.fileSchema n ∈ l.2 →
        ∃ schema, schemaFor l.1 e = some schema ∧ ∃ file ∈ b.artifacts,
          file.path = b.layout.schemaDir.join ⟨n ++ ".json"⟩ ∧
          file.content = .verbatim (schema.pretty ++ "\n") := by
  obtain ⟨e, he, hdescribed⟩ := describedBy_of_mem_parts ha hset hn
  obtain ⟨hpath, hlink⟩ := exists_link_of_mem_parts hdescribed hset hn
  refine ⟨hpath, hlink, ⟨e, he, hdescribed⟩, fun e he hdescribed l hl hn => ?_⟩
  obtain ⟨schema, hschema, hfile⟩ := exists_schemaArtifact_of_link hdescribed
    (query_isSome_of_ofText hread he) hset hl hn
  exact ⟨schema, hschema, _, schemaArtifacts_subset he _ hfile, rfl, rfl⟩

/-- A document that can be queried under a name of its own. -/
def queriedSource : String :=
  "[[[\"building\", \"Building\", \"document\", \x7b\"schema\": \x7b\"type\": \"object\"\x7d, " ++
    "\"query\": \x7b\"type\": \"object\"\x7d, \"queryName\": \"Building List\"\x7d]]]"

/-- A project with the document. -/
def queried : Blueprint :=
  ⟨.standard (Naming.Autoload.empty.insert "Acme" ⟨"src"⟩),
    (DomainGraph.ofText queriedSource).toOption.getD ⟨[], [], .empty⟩⟩

theorem schemaFiles_agree_queried :
    DomainGraph.ofText queriedSource = .ok queried.graph ∧
    ∃ a ∈ queried.artifacts, ∃ set, a.changeSet? = some set ∧
      Description.fileSchema "Building List" ∈ set.parts ∧
      ∃ e ∈ queried.graph.elements, queried.DescribedBy e a ∧ ∃ l ∈ set.links,
        Description.fileSchema "Building List" ∈ l.2 ∧ ∃ schema, schemaFor l.1 e = some schema ∧
        ∃ file ∈ queried.artifacts,
          file.path = queried.layout.schemaDir.join ⟨"Building List" ++ ".json"⟩ ∧
          file.content = .verbatim (schema.pretty ++ "\n") := by
  have hisOk : (DomainGraph.ofText queriedSource).toOption.isSome = true := by decide +kernel
  have hread : DomainGraph.ofText queriedSource = .ok queried.graph := by
    obtain ⟨g, hg⟩ := Option.isSome_iff_exists.1 hisOk
    rw [Outcome.toOption_eq_some_iff.1 hg, queried, hg, Option.getD_some]
  have hreads : ∃ a ∈ queried.artifacts, ∃ set ∈ a.changeSet?,
      Description.fileSchema "Building List" ∈ set.parts := by decide +kernel
  obtain ⟨a, ha, set, hset, hn⟩ := hreads
  obtain ⟨-, ⟨l, hl, hmem⟩, ⟨e, he, hdescribed⟩, hfiles⟩ := schemaFiles_agree hread ha hset hn
  exact ⟨hread, a, ha, set, hset, hn, e, he, hdescribed, l, hl, hmem,
    hfiles e he hdescribed l hl hmem⟩

end Blueprint

end DomainScaffold
