import DomainScaffold.Proofs.Generation.Behaviours
import DomainScaffold.Proofs.Generation.Forms

/-!
# The forms of artifacts

Every artifact of a model is of the forms that are read back as they were written, whatever the
model: the classes of behaviours, states, records, values, queries and descriptions only differ in
their names.

Results:
* `lasting_of_mem_artifacts`: the changes of an artifact whose names are names of the language.
-/

namespace DomainScaffold

open Php Merge Schema

/-! ## Change sets -/

/-- Whether a change set declares the methods that it adds something to. -/
def DeclaresInjected (changes : List Change) : Prop :=
  ∀ ch ∈ changes, ∀ method, injectedMethod? ch = some method →
    ∃ d, .method d ∈ changes ∧ Text.foldAscii d.name = Text.foldAscii method

/-- Whether the changes of an artifact are generated ones, if their names are names of the
    language. -/
def Artifact.Lasting (a : Artifact) : Prop :=
  ∀ set, a.changeSet? = some set → set.isNamed = true → LastingSet set

/-- Whether a change has a form that is read back, and adds nothing to a method. -/
def Merge.Change.isDeclaration (ch : Change) : Bool :=
  ch.isFormed && (injectedMethod? ch).isNone

section Sets

variable {name : String} {l : ClassLocation} {changes : List Change}

theorem lasting_ofClass
    (hchanges : (l.changeSet changes).isNamed = true → ∀ ch ∈ changes, LastingChange ch)
    (hdeclares : DeclaresInjected changes) : (Artifact.ofClass name l changes).Lasting := by
  rintro set hset hn
  obtain rfl := Option.some.inj ((Artifact.changeSet?_ofClass name l changes).symm.trans hset)
  have hnames := hn
  simp only [ChangeSet.isNamed, Bool.and_eq_true, Bool.or_eq_true] at hnames
  exact ⟨hnames.1.1, rfl, hnames.1.2, hchanges hn, hdeclares⟩

theorem isNamed_of_mem {set : ChangeSet} (h : set.isNamed = true) {ch : Change}
    (hch : ch ∈ set.changes) : ch.isNamed = true := by
  simp only [ChangeSet.isNamed, Bool.and_eq_true] at h
  exact List.all_eq_true.1 h.2 ch hch

/-- A class of declarations. -/
theorem lasting_of_declarations (h : changes.all Change.isDeclaration = true) :
    (Artifact.ofClass name l changes).Lasting := by
  have hform : ∀ ch ∈ changes, ch.isFormed = true ∧ injectedMethod? ch = none := fun ch hch => by
    have := List.all_eq_true.1 h ch hch
    rwa [Change.isDeclaration, Bool.and_eq_true, Option.isNone_iff_eq_none] at this
  refine lasting_ofClass (fun hn ch hch => lastingChange_of_formed (hform ch hch).1
    (isNamed_of_mem hn hch)) fun ch hch method hm => ?_
  rw [(hform ch hch).2] at hm
  cases hm

end Sets

namespace Blueprint

variable (b : Blueprint)

/-! ## Behaviours -/

theorem isFormed_handler (command first : Element) : (b.handler command first).isFormed = true := by
  unfold handler messageParams
  cases command.createsAggregate <;> rfl

theorem isFormed_applier (event : Element) (creates : Bool) :
    (b.applier event creates).isFormed = true := by
  cases creates <;> rfl

/-- Methods of such forms are declarations. -/
theorem all_isDeclaration_methods {ds : List MethodDecl} (h : ∀ d ∈ ds, d.isFormed = true) :
    (ds.map Change.method).all Change.isDeclaration = true := by
  rw [List.all_map, List.all_eq_true]
  intro d hd
  rw [Function.comp_apply, Change.isDeclaration, Change.isFormed, h d hd]
  rfl

theorem lasting_behaviour {c : AggregateConnection} {a : Artifact} (h : b.behaviour c = .ok a) :
    a.Lasting := by
  obtain ⟨aggregate, location, state, api, methods, -, -, -, hmethods, rfl⟩ := b.behaviour_eq_ok h
  refine lasting_of_declarations ?_
  have hformed := forall_mem_allMethods (P := fun d => d.isFormed = true) b.isFormed_handler
    b.isFormed_applier hmethods
  rw [List.all_append, all_isDeclaration_methods hformed]
  rfl

/-! ## Records -/

theorem all_isDeclaration_recordChanges (plans : List PropertyPlan) :
    (recordChanges plans).all Change.isDeclaration = true := by
  have hfields : ∀ p : PropertyPlan, p.fields.all Change.isDeclaration = true := fun p => by
    unfold PropertyPlan.fields
    cases p.needs <;> rfl
  exact all_recordChanges rfl hfields (fun _ => rfl) plans

theorem all_isDeclaration_rootRecord {e : Element} {types : TypeSet}
    {changes : List Change} (h : b.rootRecord e types = .ok changes) :
    changes.all Change.isDeclaration = true := by
  obtain ⟨properties, required, plans, -, rfl⟩ := b.rootRecord_eq_ok h
  exact all_isDeclaration_recordChanges _

theorem lasting_message {e : Element} {a : Artifact} (h : b.message e = .ok a) : a.Lasting := by
  obtain ⟨location, changes, rfl, rfl | ⟨types, hchanges⟩⟩ := b.message_eq_ok h
  · exact lasting_of_declarations rfl
  · exact lasting_of_declarations (b.all_isDeclaration_rootRecord hchanges)

theorem lasting_state {c : AggregateConnection} {a : Artifact} (h : b.state c = .ok a) :
    a.Lasting := by
  obtain ⟨aggregate, location, data, events, -, -, hdata, rfl⟩ := b.state_eq_ok h
  have hformed : data.all Change.isDeclaration = true := by
    rcases hdata with rfl | rfl | ⟨source, types, hdata⟩
    · rfl
    · rfl
    · exact b.all_isDeclaration_rootRecord hdata
  refine lasting_of_declarations ?_
  rw [List.all_append, hformed, List.all_map]
  exact List.all_eq_true.2 fun e _ => rfl

theorem lasting_request {document : Element} {types : TypeSet} {className : String}
    {a : Artifact} (h : b.request document types className = .ok a) : a.Lasting := by
  obtain ⟨location, changes, rfl, hchanges⟩ := b.request_eq_ok h
  exact lasting_of_declarations (b.all_isDeclaration_rootRecord hchanges)

/-! ## Value objects -/

theorem all_isDeclaration_valueObjectChanges {e : Element} {types : TypeSet}
    {changes : List Change} (h : b.ValueObjectChanges e types changes) :
    changes.all Change.isDeclaration = true := by
  cases h with
  | scalar hint suffix =>
    unfold scalarChanges valueText
    split <;> rfl
  | record hplans => exact all_isDeclaration_recordChanges _

theorem lasting_valueObjects {document : Element} {as : List Artifact}
    (h : b.valueObjects document = .ok as) : ∀ a ∈ as, a.Lasting := by
  rcases b.valueObjects_eq_ok h with ⟨rfl, -⟩ | ⟨types, l, s, -, -, hs, rfl⟩
  · simp
  · intro a ha
    obtain ⟨c, hc, rfl⟩ := List.mem_map.1 ha
    exact lasting_of_declarations
      (b.all_isDeclaration_valueObjectChanges (valueObjectChanges_of_mem hs hc))

/-! ## Queries -/

theorem isFormed_find (aggregate : Element) (state : ClassLocation) :
    (b.find aggregate state).isFormed = true := by
  have hfound : foundClass? ("$document === null ? null : " ++ state.className ++
      "::fromArray($document)") = some state.className := foundClass?_eq_some_iff.2 rfl
  have hreturn : (Statement.ofReturn (.raw ("$document === null ? null : " ++ state.className ++
      "::fromArray($document)"))).isFormed = true := by
    simp [Statement.isFormed, Statement.ofReturn, Statement.ofKind, StatementKind.isFormed, hfound]
  show ((Statement.ofReturn (.raw _)).isFormed && true && true) = true
  rw [hreturn]
  rfl

theorem all_isDeclaration_finderChanges (aggregate : Element) (finder state : ClassLocation) :
    (b.finderChanges aggregate finder state).all Change.isDeclaration = true := by
  have hfind : (Change.method (b.find aggregate state)).isDeclaration = true := by
    rw [Change.isDeclaration, Change.isFormed, b.isFormed_find]
    rfl
  unfold finderChanges
  simp only [List.all_append, List.all_cons, hfind]
  split <;> rfl

theorem lasting_resolvers {message : String} {l : ClassLocation} {document : Element}
    {as : List Artifact} (h : b.resolvers message l document = .ok as) : ∀ a ∈ as, a.Lasting := by
  intro a ha
  obtain ⟨name, location, changes, rfl, hchanges⟩ := b.resolvers_eq_ok h a ha
  cases hchanges with
  | plain message => exact lasting_of_declarations rfl
  | finding message aggregate finder state => exact lasting_of_declarations rfl
  | finder aggregate finder state =>
    exact lasting_of_declarations (b.all_isDeclaration_finderChanges aggregate finder state)

/-! ## Descriptions -/

open Description

theorem describe_mem_base :
    .method (.publicStatic describe [.typed (Framework.short Framework.eventEngine) "eventEngine"]
      (some "void") []) ∈ base := by
  simp [base]

/-- Whether a change declares a method. -/
def declaresMethod (method : String) : Change → Bool
  | .method d => d.name == method
  | _ => false

/-- Whether what a change adds is added to the method that describes the model, or to one that is
    declared by other changes. -/
def describes (rest : List Change) (ch : Change) : Bool :=
  (injectedMethod? ch).all fun method => method == describe || rest.any (declaresMethod method)

/-- A class that describes the model: it declares the method that the registrations are added to. -/
theorem lasting_description {name : String} {l : ClassLocation} {rest : List Change}
    (hrest : (l.changeSet (base ++ rest)).isNamed = true → ∀ ch ∈ rest, LastingChange ch)
    (hdescribes : rest.all (describes rest) = true) :
    (Artifact.ofClass name l (base ++ rest)).Lasting := by
  have hbase : ∀ ch ∈ base, ch.isFormed = true ∧ injectedMethod? ch = none := by
    intro ch hch
    have hform : base.all Change.isDeclaration = true := rfl
    have := List.all_eq_true.1 hform ch hch
    rwa [Change.isDeclaration, Bool.and_eq_true, Option.isNone_iff_eq_none] at this
  refine lasting_ofClass (fun hn => List.forall_mem_append.2 ⟨fun ch hch => ?_, hrest hn⟩)
    (List.forall_mem_append.2 ⟨fun ch hch method hm => ?_, fun ch hch method hm => ?_⟩)
  · exact lastingChange_of_formed (hbase ch hch).1
      (isNamed_of_mem hn (List.mem_append_left _ hch))
  · rw [(hbase ch hch).2] at hm
    cases hm
  · have hdeclared := List.all_eq_true.1 hdescribes ch hch
    rw [describes, hm, Option.all_some, Bool.or_eq_true, beq_iff_eq, List.any_eq_true] at hdeclared
    rcases hdeclared with rfl | ⟨declaration, hmem, hdeclares⟩
    · exact ⟨_, List.mem_append_left _ describe_mem_base, rfl⟩
    · cases declaration with
      | method d =>
        exact ⟨d, List.mem_append_right _ hmem, congrArg Text.foldAscii (beq_iff_eq.1 hdeclares)⟩
      | _ => cases hdeclares

theorem lasting_description_of_formed {name : String} {l : ClassLocation} {rest : List Change}
    (hform : rest.all Change.isFormed = true) (hdescribes : rest.all (describes rest) = true) :
    (Artifact.ofClass name l (base ++ rest)).Lasting :=
  lasting_description (fun hn ch hch => lastingChange_of_formed (List.all_eq_true.1 hform ch hch)
    (isNamed_of_mem hn (List.mem_append_right _ hch))) hdescribes

/-! ### Commands and events -/

theorem lasting_messageDescription {e : Element} {a : Artifact}
    (h : b.messageDescription e = .ok a) : a.Lasting := by
  obtain ⟨api, register, location, record, -, -, -, rfl⟩ := b.messageDescription_eq_ok h
  rw [List.append_assoc, List.append_assoc, messageSchema]
  split <;> exact lasting_description_of_formed rfl rfl

/-! ### Aggregates -/

/-- Whether an expression is a chain of calls of a form that is read back, and known by what holds
    no string. -/
def isChain (e : Expr) : Bool := e.isCall && startsWithVariable e && e.isFormed && e.isSteady

/-- A chain with one more call. -/
theorem isChain_methodCall {e : Expr} (h : isChain e = true) {args : List Expr}
    (hargs : areFormed args = true) (method : String) :
    isChain (.methodCall e method args) = true := by
  simp only [isChain, Bool.and_eq_true] at h ⊢
  obtain ⟨⟨⟨hcall, hstarts⟩, hform⟩, hsteady⟩ := h
  have hobject : e.isObject = true := by
    cases e <;> first | rfl | cases hcall
  refine ⟨⟨⟨rfl, hstarts⟩, ?_⟩, ?_⟩
  · rw [Expr.isFormed, hobject, hform, hargs]
    rfl
  · rw [Expr.isSteady, if_pos hcall]
    exact hsteady

/-- A statement that is such a chain. -/
theorem isFormed_of_isChain {e : Expr} (h : isChain e = true) :
    ((Statement.ofExpr e).isFormed && (Statement.ofExpr e).kind.isSteady &&
      (Statement.ofExpr e).kind.isCall) = true := by
  simp only [isChain, Bool.and_eq_true] at h
  obtain ⟨⟨⟨hcall, hstarts⟩, hform⟩, hsteady⟩ := h
  have hkind : (StatementKind.expression e).isFormed = true := by
    cases e with
    | methodCall object method args =>
      show (startsWithVariable _ && Expr.isFormed _) = true
      rw [hstarts, hform]
      rfl
    | staticCall _ _ _ | call _ _ => cases hstarts
    | _ => cases hcall
  simp only [Statement.ofExpr, Statement.ofKind, Statement.isFormed, StatementKind.isSteady,
    StatementKind.isCall, hkind, hsteady, hcall]
  rfl

theorem isChain_registration (aggregate command : Element) (events : List Element)
    (behaviour : String) :
    isChain (b.registration aggregate command events behaviour) = true :=
  b.registration_induction (P := fun x => isChain x = true) rfl
    (fun _ m _ h => isChain_methodCall h rfl m) (fun _ m _ h => isChain_methodCall h rfl m)
    (fun _ m _ _ h => isChain_methodCall h rfl m) events behaviour

theorem lasting_aggregateDescription {c : AggregateConnection} {a : Artifact}
    (h : b.aggregateDescription c = .ok a) : a.Lasting := by
  obtain ⟨aggregate, location, behaviour, chains, -, -, hchains, rfl⟩ :=
    b.aggregateDescription_eq_ok h
  have hform : (chains.map Statement.ofExpr).all
      (fun s => s.isFormed && s.kind.isSteady && s.kind.isCall) = true := by
    rw [List.all_map]
    refine List.all_eq_true.2 fun chain hchain => ?_
    obtain ⟨p, -, hp⟩ := Outcome.exists_of_mem_mapM (Outcome.mapM_eq_ok_iff.2 hchains) hchain
    obtain ⟨command, events, -, -, rfl⟩ := b.registrationOf_eq_ok hp
    exact isFormed_of_isChain (b.isChain_registration aggregate command events behaviour.className)
  refine lasting_description_of_formed ?_ rfl
  simp only [List.all_cons, List.all_nil, Change.isFormed, hform]
  rfl

/-! ### Queries -/

/-- What a name starts with has no line breaks. -/
theorem joinedBreaks_of_isIdentifier {s tail : String} (h : isIdentifier (s ++ tail) = true) :
    joinedBreaks s = s := by
  rw [← String.toList_inj, toList_joinedBreaks]
  refine joinBreaks_eq_self fun c hc => ?_
  rintro rfl
  have hmem : '\r' ∈ (s ++ tail).toList := by
    rw [String.toList_append]
    exact List.mem_append_left _ hc
  have hpart := (isIdentifier_chars h hmem).1
  revert hpart
  decide

/-- The registration of the type that a document is returned as is known by the class of the
    document, which the name of its resolver starts with. -/
theorem lasting_typeRegistration {document : Element} {tail : String}
    (h : isIdentifier (b.className document ++ tail) = true)
    (hn : ∀ s ∈ b.typeRegistration document, s.kind.isNamed = true) :
    ∀ s ∈ b.typeRegistration document, LastingStatement s ∧ Registers s := by
  have hclass := joinedBreaks_of_isIdentifier h
  unfold typeRegistration at hn ⊢
  split at hn
  · rename_i hschema
    rw [if_pos hschema]
    refine List.forall_mem_singleton.2 ⟨⟨plainStatement_of_formed rfl (hn _ (by simp)), ?_⟩, rfl⟩
    show callIdentity? (Expr.joined _) = callIdentity? _
    simp only [engine, Expr.joined, joinedArgs, hclass, callIdentity?, identityOf, List.head?_cons]
  · rename_i hschema
    rw [if_neg hschema]
    simp

theorem isFormed_queryRegistration (document : Element) (name resolver : String) :
    ((b.queryRegistration document name resolver).isFormed &&
      (b.queryRegistration document name resolver).kind.isSteady &&
      (b.queryRegistration document name resolver).kind.isCall) = true := rfl

/-- The registration of a query names its resolver. -/
theorem isClassRef_of_queryRegistration {document : Element} {name resolver : String}
    (h : (b.queryRegistration document name resolver).kind.isNamed = true) :
    isClassRef resolver = true := by
  simp only [queryRegistration, Statement.ofExpr, Statement.ofKind, StatementKind.isNamed,
    Expr.isNamed, Expr.classRef, areNamed, Bool.and_eq_true] at h
  exact h.1.1.2.1.1

theorem lasting_queryDescription {document : Element} {name : String} {resolver : ClassLocation}
    {a : Artifact} (hresolver : resolver.className = b.className document ++ "Resolver")
    (h : b.queryDescription document name resolver = .ok a) : a.Lasting := by
  unfold queryDescription at h
  obtain ⟨location, -, rfl⟩ := Outcome.map_eq_ok h
  simp only [List.append_assoc]
  refine lasting_description (fun hn ch hch => ?_) ?_
  · have hnamed := isNamed_of_mem hn (List.mem_append_right _ hch)
    have hschema : ∀ ch ∈ b.schemaFileChanges, ch.isFormed = true := List.all_eq_true.1 rfl
    simp only [List.mem_append] at hch
    rcases hch with hch | hch | hch | hch
    · exact lastingChange_of_formed (List.all_eq_true.1 rfl ch hch) hnamed
    · split at hch
      · exact lastingChange_of_formed (hschema ch hch) hnamed
      · cases hch
    · exact lastingChange_of_formed (hschema ch hch) hnamed
    · obtain rfl := List.mem_singleton.1 hch
      obtain ⟨htype, hquery⟩ := List.forall_mem_append.1 (List.all_eq_true.1 hnamed)
      rw [List.forall_mem_singleton] at hquery
      have hclass := isIdentifier_of_isClassRef (b.isClassRef_of_queryRegistration hquery)
      rw [hresolver] at hclass
      have hform := b.isFormed_queryRegistration document name resolver.className
      simp only [Bool.and_eq_true] at hform
      exact .statements (List.forall_mem_append.2 ⟨b.lasting_typeRegistration hclass htype,
        List.forall_mem_singleton.2 ⟨lastingStatement_of_formed hform.1.1 hform.1.2 hquery,
          registers_of_isCall hform.2⟩⟩)
  · split <;> rfl

/-! ## Models -/

/-- Every artifact of a model is of generated changes, if the names in it are names of the
    language. -/
theorem lasting_of_mem_artifacts {a : Artifact} (h : a ∈ b.artifacts) : a.Lasting := by
  cases b.origin_of_mem_artifacts h with
  | behaviour _ h => exact b.lasting_behaviour h
  | state _ h => exact b.lasting_state h
  | aggregateDescription _ h => exact b.lasting_aggregateDescription h
  | message _ h => exact b.lasting_message h
  | messageDescription _ h => exact b.lasting_messageDescription h
  | valueObject _ h ha => exact b.lasting_valueObjects h _ ha
  | request _ _ h => exact b.lasting_request h
  | resolver _ h ha => exact b.lasting_resolvers h _ ha
  | queryDescription _ _ _ hl h =>
    obtain ⟨space, -, rfl⟩ := b.locateIn_eq_ok_iff.1 hl
    exact b.lasting_queryDescription rfl h
  | schemaFile _ ha =>
    obtain ⟨name, schema, rfl⟩ := b.eq_schemaArtifact_of_mem ha
    exact fun set hset => by cases hset

end Blueprint

end DomainScaffold
