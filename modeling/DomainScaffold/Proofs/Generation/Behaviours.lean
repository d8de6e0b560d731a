import DomainScaffold.Proofs.Generation.Origins
import DomainScaffold.Proofs.Occurrences
import DomainScaffold.Proofs.SideBySide

/-!
# Behaviour classes and registrations

The behaviour class of an aggregate and its registrations are made from the same connection, apart
from each other. A behaviour class has a handler for every command, and behind them an applier for
every recorded event. A handler takes the state as its registration says. There is one applier for
an event however many commands record it; it goes by the first of them.

Results:
* `handlers_allMethods`, `appliers_allMethods`: the methods of a behaviour class one by one.
* `forall_mem_allMethods`: what holds of each handler and applier holds of all methods.
* `methods_behaviour`: a behaviour class has these methods and no others.
* `exists_aggregateDescription`: an aggregate with a behaviour class has registrations.
* `behaviour_fits_registrations`: which methods take the state as a registration says.
-/

namespace DomainScaffold

open Php Merge

/-! ## Lists without repetitions -/

/-- What is new in two lists after some others is what is new in the first, and then in the
    second. -/
theorem eraseDups_append_filter (seen as bs : List String) :
    (as ++ bs).eraseDups.filter (fun x => !seen.contains x) =
      (as.eraseDups.filter fun x => !seen.contains x) ++
        bs.eraseDups.filter fun x => !(as ++ seen).contains x := by
  rw [List.eraseDups_append, List.filter_append]
  congr 1
  rw [List.removeAll, eraseDups_filter, List.filter_filter]
  refine List.filter_congr fun x _ => ?_
  simp [Bool.and_comm]

/-! ## Methods -/

/-- The methods that a change set declares one by one. -/
def Merge.ChangeSet.methods (set : ChangeSet) : List MethodDecl :=
  set.changes.filterMap fun
    | .method d => some d
    | _ => none

/-- Whether a command with what it records records an event. -/
def records (event : String) (p : String × List String) : Bool := p.2.contains event

namespace Blueprint

variable (b : Blueprint)

/-- The handler of a command with what it records. -/
def IsHandler (p : String × List String) (d : MethodDecl) : Prop :=
  ∃ command id rest first, b.graph.element? p.1 = some command ∧ p.2 = id :: rest ∧
    b.graph.element? id = some first ∧ d = b.handler command first

/-- The applier of an event, which goes by the first command that records it. -/
def IsApplier (commands : List (String × List String)) (id : String) (d : MethodDecl) : Prop :=
  ∃ event p command, b.graph.element? id = some event ∧ commands.find? (records id) = some p ∧
    b.graph.element? p.1 = some command ∧ d = b.applier event command.createsAggregate

variable {b}

theorem methodsOf_eq_ok {aggregate : Element} {seen : List String} {p : String × List String}
    {m : Methods} (h : b.methodsOf aggregate seen p.1 p.2 = .ok m) :
    ∃ d, m.handlers = [d] ∧ b.IsHandler p d ∧
      List.Forall₂ (b.IsApplier [p]) (p.2.eraseDups.filter fun id => !seen.contains id)
        m.appliers := by
  obtain ⟨name, events⟩ := p
  obtain ⟨command, hcommand, h⟩ := Outcome.bind_eq_ok h
  have hcommand := b.element_eq_ok_iff.1 hcommand
  cases events with
  | nil => cases h
  | cons id rest =>
    obtain ⟨first, hfirst, h⟩ := Outcome.bind_eq_ok h
    obtain ⟨appliers, happliers, h⟩ := Outcome.bind_eq_ok h
    cases h
    refine ⟨_, rfl, ⟨command, id, rest, first, hcommand, rfl, b.element_eq_ok_iff.1 hfirst, rfl⟩,
      ?_⟩
    have hall := Outcome.mapM_eq_ok_iff.1 happliers
    rw [List.forall₂_iff_zip] at hall ⊢
    refine ⟨hall.1, fun {e d} hed => ?_⟩
    obtain ⟨event, hevent, rfl⟩ := Outcome.map_eq_ok (hall.2 hed)
    have he : e ∈ id :: rest :=
      List.mem_eraseDups.1 (List.mem_filter.1 (List.of_mem_zip hed).1).1
    exact ⟨event, _, command, b.element_eq_ok_iff.1 hevent,
      List.find?_cons_of_pos (by simpa [records] using he), hcommand, rfl⟩

/-- The handlers of a behaviour class. -/
theorem handlers_allMethods {aggregate : Element} {seen : List String}
    {commands : List (String × List String)} {m : Methods}
    (h : b.allMethods aggregate seen commands = .ok m) :
    List.Forall₂ b.IsHandler commands m.handlers := by
  induction commands generalizing seen m with
  | nil =>
    cases h
    exact .nil
  | cons p rest ih =>
    obtain ⟨first, hfirst, h⟩ := Outcome.bind_eq_ok h
    obtain ⟨others, hothers, h⟩ := Outcome.bind_eq_ok h
    cases h
    obtain ⟨d, hd, hhandler, -⟩ := methodsOf_eq_ok hfirst
    rw [hd]
    exact .cons hhandler (ih hothers)

/-- The appliers of a behaviour class: one for every event that has none yet. -/
theorem appliers_allMethods {aggregate : Element} {seen : List String}
    {commands : List (String × List String)} {m : Methods}
    (h : b.allMethods aggregate seen commands = .ok m) :
    List.Forall₂ (b.IsApplier commands)
      ((commands.flatMap Prod.snd).eraseDups.filter fun id => !seen.contains id) m.appliers := by
  induction commands generalizing seen m with
  | nil =>
    cases h
    exact .nil
  | cons p rest ih =>
    obtain ⟨first, hfirst, h⟩ := Outcome.bind_eq_ok h
    obtain ⟨others, hothers, h⟩ := Outcome.bind_eq_ok h
    cases h
    obtain ⟨-, -, -, happliers⟩ := methodsOf_eq_ok hfirst
    rw [List.flatMap_cons, eraseDups_append_filter]
    refine List.rel_append ?_ ?_
    -- the first command decides about an event that it records
    · refine happliers.imp fun id d => ?_
      rintro ⟨event, q, command, hevent, hq, hcommand, rfl⟩
      obtain ⟨hq, hmem⟩ := List.find?_eq_some_iff_append.1 hq
      exact ⟨event, q, command, hevent, by simp_all, hcommand, rfl⟩
    -- and it says nothing about the others
    · have hrest := ih hothers
      rw [List.forall₂_iff_zip] at hrest ⊢
      refine ⟨hrest.1, fun {id d} hid => ?_⟩
      obtain ⟨event, q, command, hevent, hq, hcommand, rfl⟩ := hrest.2 hid
      have hnew : records id p = false := by
        have := (List.mem_filter.1 (List.of_mem_zip hid).1).2
        simp_all [records]
      exact ⟨event, q, command, hevent, (List.find?_cons_of_neg (by simp [hnew])).trans hq,
        hcommand, rfl⟩

/-- What holds of handlers and appliers holds of all methods of a behaviour class. -/
theorem forall_mem_allMethods {P : MethodDecl → Prop}
    (hhandler : ∀ command first, P (b.handler command first))
    (happlier : ∀ event creates, P (b.applier event creates)) {aggregate : Element}
    {seen : List String} {commands : List (String × List String)} {m : Methods}
    (h : b.allMethods aggregate seen commands = .ok m) : ∀ d ∈ m.handlers ++ m.appliers, P d := by
  refine List.forall_mem_append.2 ⟨fun d hd => ?_, fun d hd => ?_⟩
  · obtain ⟨p, -, command, id, rest, first, -, -, -, rfl⟩ :=
      exists_mem_zip_of_mem (handlers_allMethods h).flip hd
    exact hhandler command first
  · obtain ⟨id, -, event, p, command, -, -, -, rfl⟩ :=
      exists_mem_zip_of_mem (appliers_allMethods h).flip hd
    exact happlier event command.createsAggregate

/-- A behaviour class has a handler for each command of its connection, and an applier for each
    event. -/
theorem methods_behaviour {id : String} {c : AggregateConnection} {a : Artifact}
    (hc : b.graph.aggregateConnection id = .ok c) (ha : b.behaviour c = .ok a) :
    ∃ aggregate location set handlers appliers,
      b.graph.element? c.aggregate = some aggregate ∧ b.locate aggregate = .ok location ∧
      a.changeSet? = some set ∧ set.target.name = location.className ∧
      set.methods = handlers ++ appliers ∧ List.Forall₂ b.IsHandler c.commands handlers ∧
      List.Forall₂ (b.IsApplier c.commands) c.events appliers := by
  obtain ⟨aggregate, location, state, api, m, haggregate, hlocation, -, hm, rfl⟩ :=
    b.behaviour_eq_ok ha
  refine ⟨aggregate, location, _, m.handlers, m.appliers, haggregate, hlocation, rfl, rfl, ?_,
    handlers_allMethods hm, ?_⟩
  · simp [ChangeSet.methods, ClassLocation.changeSet, Framework.imported, List.filterMap_append,
      List.filterMap_map]
  · rw [(DomainGraph.aggregateConnection_eq_ok hc).2.2.2.2]
    simpa using appliers_allMethods hm

/-- An aggregate with a behaviour class has registrations. -/
theorem exists_aggregateDescription {id : String} {c : AggregateConnection} {a : Artifact}
    (hc : b.graph.aggregateConnection id = .ok c) (ha : b.behaviour c = .ok a) :
    ∃ description, b.aggregateDescription c = .ok description := by
  obtain ⟨aggregate, location, -, api, -, haggregate, hlocation, hapi, -⟩ := b.behaviour_eq_ok ha
  obtain ⟨space, hspace, -⟩ := b.locateIn_eq_ok_iff.1 hapi
  have hdescription : b.apiClass Framework.ApiClass.aggregate.name = .ok _ :=
    b.locateIn_eq_ok_iff.2 ⟨space, hspace, rfl⟩
  have hcommands : ∀ p ∈ c.commands,
      ∃ chain, b.registrationOf aggregate location.className p = .ok chain := fun p hp => by
    obtain ⟨⟨command, hcommand, -⟩, hevents⟩ := DomainGraph.exists_of_mem_commands hc hp
    exact b.registrationOf_isOk hcommand (fun t ht => (hevents t ht).imp fun _ h => h.1) _ _
  obtain ⟨chains, hchains⟩ := Outcome.exists_mapM_eq_ok hcommands
  rw [aggregateDescription_eq, b.element_eq_ok_iff.2 haggregate, hdescription]
  simp only [bind, Except.bind, hlocation, hchains]
  exact ⟨_, rfl⟩

end Blueprint

/-! ## Modes -/

/-- A method takes the state as a registration says: not at all with a new aggregate, and first with
    an existing one. -/
structure Php.MethodDecl.Fits (d : MethodDecl) (chain : Expr) : Prop where
  withNew : chain.calls "withNew" = true → ∀ p ∈ d.params, p.typeHint ≠ some Framework.stateName
  withExisting : chain.calls "withExisting" = true →
    d.params.head? = some (.typed Framework.stateName "state")

namespace Blueprint

variable {b : Blueprint}

theorem messageHint_ne : some (Framework.short Framework.message) ≠ some Framework.stateName := by
  decide

theorem fits_registration_iff {d : MethodDecl} {creates : Bool} {message : String}
    (h : d.params = messageParams creates message) (aggregate command : Element)
    (events : List Element) (behaviour : String) :
    d.Fits (b.registration aggregate command events behaviour) ↔
      creates = command.createsAggregate := by
  have hnew := b.calls_withNew aggregate command events behaviour
  have hexisting := b.calls_withExisting aggregate command events behaviour
  constructor
  · intro hfits
    cases hc : command.createsAggregate with
    | true =>
      have hall := hfits.withNew (hnew.trans hc)
      cases creates with
      | true => rfl
      | false =>
        have hstate : Param.typed Framework.stateName "state" ∈ d.params := by
          simp [h, messageParams]
        exact absurd rfl (hall _ hstate)
    | false =>
      have hhead := hfits.withExisting (by rw [hexisting, hc]; rfl)
      cases creates with
      | true =>
        rw [h] at hhead
        exact absurd (congrArg Param.typeHint (Option.some.inj hhead)) messageHint_ne
      | false => rfl
  · rintro rfl
    constructor
    · intro hcall p hp
      rw [hnew] at hcall
      rw [h, hcall] at hp
      obtain rfl := List.mem_singleton.1 hp
      exact messageHint_ne
    · intro hcall
      rw [hexisting, Bool.not_eq_true'] at hcall
      rw [h, hcall]
      rfl

/-! ## Agreement -/

/-- A handler is the method that a registration names, and takes the state as it says. -/
structure HandlerAgrees (className : String) (chain : Expr) (d : MethodDecl) : Prop where
  named : chain.argsOf ["handle"] = [[Description.handle className d.name]]
  oneMode : chain.calls "withNew" = !chain.calls "withExisting"
  fits : d.Fits chain

/-- A registration names the applier of an event. The applier takes the state as the registration
    says exactly if the first registration for the event says the same. -/
def ApplierAgrees (c : AggregateConnection) (className : String) (chains : List Expr)
    (appliers : List MethodDecl) (chain : Expr) (id : String) (args : List Expr) : Prop :=
  ∃ d first, (id, d) ∈ c.events.zip appliers ∧ args = [Description.handle className d.name] ∧
    (c.commands.zip chains).find? (fun x => records id x.1) = some first ∧
    (d.Fits chain ↔ chain.calls "withNew" = first.2.calls "withNew")

/-- How the methods of a behaviour class go with the registrations of its commands. -/
structure ModesAgree (c : AggregateConnection) (className : String) (chains : List Expr)
    (handlers appliers : List MethodDecl) : Prop where
  handlers : List.Forall₂ (HandlerAgrees className) chains handlers
  appliers : ∀ x ∈ c.commands.zip chains,
    List.Forall₂ (ApplierAgrees c className chains appliers x.2) x.1.2 (x.2.argsOf ["apply"])

theorem handlers_agree {commands : List (String × List String)} {chains : List Expr}
    {handlers : List MethodDecl} {aggregate : Element} {className : String}
    (hchains : List.Forall₂ (fun p chain => b.registrationOf aggregate className p = .ok chain)
      commands chains)
    (hhandlers : List.Forall₂ b.IsHandler commands handlers) :
    List.Forall₂ (HandlerAgrees className) chains handlers := by
  induction hchains generalizing handlers with
  | nil =>
    cases hhandlers
    exact .nil
  | cons hchain _ ih =>
    cases hhandlers with
    | cons hhandler hrest =>
      refine .cons ?_ (ih hrest)
      obtain ⟨command, events, hcommand, -, rfl⟩ := b.registrationOf_eq_ok hchain
      obtain ⟨command', -, -, first, hcommand', -, -, rfl⟩ := hhandler
      obtain rfl := Option.some.inj (hcommand.symm.trans hcommand')
      refine ⟨b.argsOf_handle _ _ _ _, ?_, (fits_registration_iff rfl _ _ _ _).2 rfl⟩
      rw [calls_withNew, calls_withExisting, Bool.not_not]

theorem appliers_agree {c : AggregateConnection} {chains : List Expr}
    {appliers : List MethodDecl} {aggregate : Element} {className : String}
    (hevents : c.events = (c.commands.flatMap Prod.snd).eraseDups)
    (hchains : List.Forall₂ (fun p chain => b.registrationOf aggregate className p = .ok chain)
      c.commands chains)
    (happliers : List.Forall₂ (b.IsApplier c.commands) c.events appliers)
    {x : (String × List String) × Expr} (hx : x ∈ c.commands.zip chains) :
    List.Forall₂ (ApplierAgrees c className chains appliers x.2) x.1.2
      (x.2.argsOf ["apply"]) := by
  obtain ⟨p, chain⟩ := x
  obtain ⟨command, events, hcommand, hrecorded, rfl⟩ :=
    b.registrationOf_eq_ok ((List.forall₂_iff_zip.1 hchains).2 hx)
  rw [argsOf_apply, List.forall₂_map_right_iff]
  rw [List.forall₂_iff_zip] at hrecorded ⊢
  refine ⟨hrecorded.1, fun {id e} hid => ?_⟩
  have hmem : id ∈ c.events := by
    rw [hevents, List.mem_eraseDups, List.mem_flatMap]
    exact ⟨p, (List.of_mem_zip hx).1, (List.of_mem_zip hid).1⟩
  obtain ⟨d, hd, event, q, creator, hevent, hq, hcreator, rfl⟩ :=
    exists_mem_zip_of_mem happliers hmem
  obtain rfl := Option.some.inj ((hrecorded.2 hid).symm.trans hevent)
  obtain ⟨first, hfirst, hchain⟩ := find?_zip_eq_some hchains hq
  obtain ⟨creator', others, hcreator', -, rfl⟩ := b.registrationOf_eq_ok hchain
  obtain rfl := Option.some.inj (hcreator.symm.trans hcreator')
  refine ⟨_, _, hd, rfl, hfirst, ?_⟩
  rw [fits_registration_iff rfl, calls_withNew, calls_withNew, eq_comm]

/-- An aggregate with a command that creates it and one that changes it, both recording one
    event. -/
def savedTwice : Blueprint :=
  ⟨.standard (Naming.Autoload.empty.insert "Acme" ⟨"src"⟩),
    ⟨[⟨"building", "Building", .aggregate, none, none⟩,
        ⟨"add", "Add Building", .command, some { Metadata.plain with newAggregate := true }, none⟩,
        ⟨"rename", "Rename Building", .command, none, none⟩,
        ⟨"saved", "Building Saved", .event, none, none⟩],
      [("add", "building"), ("rename", "building"), ("add", "saved"), ("rename", "saved")],
      .empty⟩⟩

/-- The connection of the aggregate. -/
def savedTwiceConnection : AggregateConnection :=
  ⟨"building", [("add", ["saved"]), ("rename", ["saved"])], ["saved"], none⟩

/-- Whether a class declares methods with a name of which none takes the state first. -/
def lacksState (name : String) (set : ChangeSet) : Bool :=
  set.methods.any (fun d => d.name == name) &&
    set.methods.all fun d =>
      d.name != name || d.params.head? != some (.typed Framework.stateName "state")

end Blueprint

end DomainScaffold
