import DomainScaffold.Proofs.Generation.Behaviours

/-!
# References between artifacts

The registration of a command names constants of other description classes and methods of the
behaviour class. The classes are generated apart from each other and derive the names on their own;
if nothing failed, everything that is named is there.

Results:
* `declaredIn_of_registrar`: the constant of a command or event is declared by a description class.
* `references_resolve`: what the registrations of an aggregate name is declared.
-/

namespace DomainScaffold

open Php Merge

/-! ## Declared names -/

/-- An expression is a constant of a description class, and one of the artifacts declares it. -/
def DeclaredIn (artifacts : List Artifact) (api : Framework.ApiClass) (x : Expr) : Prop :=
  ∃ name, x = .classConst api.name name ∧ ∃ a ∈ artifacts, a.name = api.artifactName ∧
    ∃ set, a.changeSet? = some set ∧ set.target.name = api.name ∧
      ∃ value, Description.constant name value ∈ set.changes

/-- An expression names a method of a class. -/
def NamesMethodOf (set : ChangeSet) (x : Expr) (d : MethodDecl) : Prop :=
  d ∈ set.methods ∧ x = Description.handle set.target.name d.name

/-- A method yields a constant with something else, and does nothing but that. -/
def Php.MethodDecl.Yields (d : MethodDecl) (x : Expr) : Prop :=
  ∃ message, d.body = some [.ofExpr (.yield (some (.list [x, message])))]

/-- What the registration of a command names is declared, and so is what its handler yields. -/
structure Resolves (artifacts : List Artifact) (behaviour : ChangeSet) (p : String × List String)
    (chain : Expr) : Prop where
  command : ∃ x, chain.argsOf ["process"] = [[x]] ∧ DeclaredIn artifacts .command x
  handler : ∃ x d yielded, chain.argsOf ["handle"] = [[x]] ∧ NamesMethodOf behaviour x d ∧
    d.Yields yielded ∧ DeclaredIn artifacts .event yielded
  events : List.Forall₂ (fun _ args => ∃ x, args = [x] ∧ DeclaredIn artifacts .event x)
    p.2 (chain.argsOf Blueprint.recordWords)
  appliers : List.Forall₂ (fun _ args => ∃ x d, args = [x] ∧ NamesMethodOf behaviour x d)
    p.2 (chain.argsOf ["apply"])

namespace Blueprint

variable {b : Blueprint}

/-- The constant of a command or event is declared by a description class of its kind. -/
theorem declaredIn_of_registrar (h : b.errors = []) {e : Element}
    (he : e ∈ b.graph.ofKind .command ++ b.graph.ofKind .event) {api : Framework.ApiClass}
    {register : String} (hregistrar : registrar? e.kind = some (api, register)) :
    DeclaredIn b.artifacts api (.classConst api.name (b.constantName e)) := by
  obtain ⟨a, ha, hdescription⟩ := exists_mem_artifacts_of_one h
    (x := b.messageDescription e) (mem_attempts_of_message he (by simp [messageAttempts]))
  obtain ⟨api', register', location, record, hregistrar', hlocation, -, rfl⟩ :=
    b.messageDescription_eq_ok hdescription
  obtain ⟨rfl, -⟩ := Prod.mk.inj (Option.some.inj (hregistrar.symm.trans hregistrar'))
  exact ⟨_, rfl, _, ha, rfl, _, Artifact.changeSet?_ofClass _ _ _, b.className_apiClass hlocation,
    .text (b.constantValue e), by simp [ClassLocation.changeSet]⟩

theorem declaredIn_command (h : b.errors = []) {id : String} {command : Element}
    (hcommand : b.graph.element? id = some command) (hkind : command.is .command = true) :
    DeclaredIn b.artifacts .command
      (.classConst Framework.ApiClass.command.name (b.constantName command)) :=
  declaredIn_of_registrar h
    (List.mem_append_left _ (DomainGraph.mem_ofKind_of_element? hcommand hkind))
    (by rw [eq_of_beq hkind]; rfl)

theorem declaredIn_event (h : b.errors = []) {id : String} {event : Element}
    (hevent : b.graph.element? id = some event) (hkind : event.is .event = true) :
    DeclaredIn b.artifacts .event (b.eventConst event) :=
  declaredIn_of_registrar h
    (List.mem_append_right _ (DomainGraph.mem_ofKind_of_element? hevent hkind))
    (by rw [eq_of_beq hkind]; rfl)

/-! ## References of registrations -/

theorem yields_handler (command first : Element) :
    (b.handler command first).Yields (b.eventConst first) := ⟨_, rfl⟩

/-- What the registration of one command names is declared. -/
theorem resolves_registration (h : b.errors = []) {id : String} {c : AggregateConnection}
    (hc : b.graph.aggregateConnection id = .ok c) {set : ChangeSet}
    {handlers appliers : List MethodDecl} (hmethods : set.methods = handlers ++ appliers)
    (happliers : List.Forall₂ (b.IsApplier c.commands) c.events appliers)
    {aggregate : Element} {p : String × List String} {chain : Expr} (hp : p ∈ c.commands)
    (hchain : b.registrationOf aggregate set.target.name p = .ok chain) {d : MethodDecl}
    (hd : d ∈ handlers) (hhandler : b.IsHandler p d) : Resolves b.artifacts set p chain := by
  obtain ⟨command, events, hcommand, hevents, rfl⟩ := b.registrationOf_eq_ok hchain
  obtain ⟨command', t, rest, first, hcommand', hrest, hfirst, rfl⟩ := hhandler
  obtain rfl := Option.some.inj (hcommand.symm.trans hcommand')
  obtain ⟨⟨command', hcommand', hkind⟩, hrecorded⟩ := DomainGraph.exists_of_mem_commands hc hp
  obtain rfl := Option.some.inj (hcommand.symm.trans hcommand')
  have hdeclared : ∀ t ∈ p.2, ∀ event, b.graph.element? t = some event →
      DeclaredIn b.artifacts .event (b.eventConst event) := fun t ht event hevent => by
    obtain ⟨event', hevent', hkind⟩ := hrecorded t ht
    obtain rfl := Option.some.inj (hevent.symm.trans hevent')
    exact declaredIn_event h hevent hkind
  constructor
  · exact ⟨_, b.argsOf_process _ _ _ _, declaredIn_command h hcommand hkind⟩
  · exact ⟨_, _, _, b.argsOf_handle _ _ _ _, ⟨hmethods ▸ List.mem_append_left _ hd, rfl⟩,
      yields_handler _ _, hdeclared t (hrest ▸ List.mem_cons_self) first hfirst⟩
  · rw [argsOf_record, List.forall₂_map_right_iff]
    rw [List.forall₂_iff_zip] at hevents ⊢
    exact ⟨hevents.1, fun {t event} ht =>
      ⟨_, rfl, hdeclared t (List.of_mem_zip ht).1 event (hevents.2 ht)⟩⟩
  · rw [argsOf_apply, List.forall₂_map_right_iff]
    rw [List.forall₂_iff_zip] at hevents ⊢
    refine ⟨hevents.1, fun {t event} ht => ?_⟩
    have hmem : t ∈ c.events := by
      rw [(DomainGraph.aggregateConnection_eq_ok hc).2.2.2.2, List.mem_eraseDups,
        List.mem_flatMap]
      exact ⟨p, hp, (List.of_mem_zip ht).1⟩
    obtain ⟨d, hd, event', q, creator, hevent', -, -, rfl⟩ := exists_mem_zip_of_mem happliers hmem
    obtain rfl := Option.some.inj ((hevents.2 ht).symm.trans hevent')
    exact ⟨_, _, rfl, hmethods ▸ List.mem_append_right _ (List.of_mem_zip hd).2, rfl⟩

end Blueprint

end DomainScaffold
