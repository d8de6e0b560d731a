import DomainScaffold.Artifact.Description
import Mathlib.Data.List.Forall2

/-!
# Registration chains

A registration is a chain of calls on one object. Read call by call it says which command it is for,
whether the command creates its aggregate, what handles the command, and what records and applies
its events.

Results:
* `links_registration`: the calls of the registration of a command.
* `argsOf_process`, `argsOf_handle`, `argsOf_record`, `argsOf_apply`: what the calls are given.
* `registration_induction`: what calls keep holds of a whole registration.
* `calls_withNew`, `calls_withExisting`: a chain says whether the command creates its aggregate.
* `aggregateDescription_eq_ok`: the description of an aggregate has one chain for each command.
-/

namespace DomainScaffold

open Php Merge

theorem Outcome.mapM_eq_ok_iff {α β : Type} {f : α → Outcome β} {as : List α} {bs : List β} :
    as.mapM f = .ok bs ↔ List.Forall₂ (fun a b => f a = .ok b) as bs := by
  induction as generalizing bs with
  | nil => cases bs <;> simp [pure, Except.pure]
  | cons a as ih =>
    rw [List.mapM_cons]
    constructor
    · intro h
      obtain ⟨b, hb, h⟩ := Outcome.bind_eq_ok h
      obtain ⟨rest, hrest, h⟩ := Outcome.bind_eq_ok h
      cases h
      exact .cons hb (ih.1 hrest)
    · rintro (_ | ⟨hb, hrest⟩)
      rw [hb, ih.2 hrest]
      rfl

theorem Outcome.mapM_map {α β γ : Type} (f : α → Outcome β) (g : β → γ) (as : List α) :
    as.mapM (fun a => Except.map g (f a)) = Except.map (List.map g) (as.mapM f) := by
  induction as with
  | nil => rfl
  | cons a as ih =>
    rw [List.mapM_cons, List.mapM_cons, ih]
    cases f a with
    | error e => rfl
    | ok b => cases as.mapM f <;> rfl

theorem Outcome.exists_mapM_eq_ok {α β : Type} {f : α → Outcome β} {as : List α}
    (h : ∀ a ∈ as, ∃ b, f a = .ok b) : ∃ bs, as.mapM f = .ok bs := by
  induction as with
  | nil => exact ⟨[], rfl⟩
  | cons a as ih =>
    obtain ⟨b, hb⟩ := h a List.mem_cons_self
    obtain ⟨bs, hbs⟩ := ih fun a ha => h a (List.mem_cons_of_mem _ ha)
    exact ⟨b :: bs, Outcome.mapM_eq_ok_iff.2 (.cons hb (Outcome.mapM_eq_ok_iff.1 hbs))⟩

theorem Outcome.toOption_eq_some_iff {α : Type} {x : Outcome α} {a : α} :
    x.toOption = some a ↔ x = .ok a := by
  cases x <;> simp [Except.toOption]

/-! ## Reading chains -/

namespace Php

/-- The calls of a chain in order: the method of each, and what it is given. -/
def Expr.links : Expr → List (String × List Expr)
  | .methodCall object method args => object.links ++ [(method, args)]
  | _ => []

/-- What calls of the given methods are given. -/
def argsAmong (methods : List String) (links : List (String × List Expr)) : List (List Expr) :=
  (links.filter fun l => methods.contains l.1).map Prod.snd

/-- What the calls of the given methods in a chain are given. -/
def Expr.argsOf (chain : Expr) (methods : List String) : List (List Expr) :=
  argsAmong methods chain.links

/-- Whether a chain calls a method. -/
def Expr.calls (chain : Expr) (method : String) : Bool := chain.links.any fun l => l.1 == method

theorem links_methodCall (object : Expr) (method : String) (args : List Expr) :
    (Expr.methodCall object method args).links = object.links ++ [(method, args)] := rfl

theorem argsAmong_append (methods : List String) (ls ms : List (String × List Expr)) :
    argsAmong methods (ls ++ ms) = argsAmong methods ls ++ argsAmong methods ms := by
  simp [argsAmong]

theorem argsAmong_flatMap {α : Type} (methods : List String) (f : α → List (String × List Expr))
    (as : List α) :
    argsAmong methods (as.flatMap f) = as.flatMap fun a => argsAmong methods (f a) := by
  induction as with
  | nil => rfl
  | cons a as ih => rw [List.flatMap_cons, argsAmong_append, ih, List.flatMap_cons]

end Php

/-! ## Registrations -/

namespace Blueprint

open Description

variable (b : Blueprint)

/-- The methods that record an event: the first one of a command, and further ones. -/
def recordWords : List String := ["recordThat", "orRecordThat"]

/-- The calls for one event: what records it, and what applies it. -/
def eventLinks (behaviour : String) (e : String × Element) : List (String × List Expr) :=
  [(e.1, [b.eventConst e.2]), ("apply", [handle behaviour (b.applierName e.2)])]

/-- The call that says where the state of a new aggregate is stored. -/
def storeLinks (aggregate command : Element) : List (String × List Expr) :=
  match b.naming.storeState, command.createsAggregate with
  | some store, true => [("storeStateIn", [.text (store.apply aggregate.name)])]
  | _, _ => []

theorem links_recordLinks (behaviour : String) (chain : Expr) (events : List (String × Element)) :
    (b.recordLinks behaviour chain events).links =
      chain.links ++ events.flatMap (b.eventLinks behaviour) := by
  induction events generalizing chain with
  | nil => simp [recordLinks]
  | cons e events ih =>
    rw [recordLinks, ih, links_methodCall, links_methodCall, List.flatMap_cons, eventLinks]
    simp

/-- The calls of the registration of a command. -/
theorem links_registration (aggregate command : Element) (events : List Element)
    (behaviour : String) :
    (b.registration aggregate command events behaviour).links =
      [("process", [.classConst Framework.ApiClass.command.name (b.constantName command)]),
        (if command.createsAggregate then "withNew" else "withExisting",
          [.selfConst (b.constantName aggregate)]),
        ("identifiedBy", [.text (b.identifier aggregate)]),
        ("handle", [handle behaviour (b.handlerName command)])] ++
      (recordMethods events).flatMap (b.eventLinks behaviour) ++ b.storeLinks aggregate command := by
  unfold registration storeLinks
  cases b.naming.storeState <;> cases hnew : command.createsAggregate <;>
    simp [links_recordLinks, processLink, engine, Expr.links, hnew]

/-- What all calls keep holds of a registration, if it holds of its first calls. -/
theorem registration_induction {P : Expr → Prop} {aggregate command : Element}
    (hprocess : P (b.processLink aggregate command))
    (htext : ∀ x m s, P x → P (.methodCall x m [.text s]))
    (hevent : ∀ x m e, P x → P (.methodCall x m [b.eventConst e]))
    (hhandle : ∀ x m c n, P x → P (.methodCall x m [handle c n])) (events : List Element)
    (behaviour : String) : P (b.registration aggregate command events behaviour) := by
  have hrecorded : ∀ (es : List (String × Element)) chain, P chain →
      P (b.recordLinks behaviour chain es) := fun es => by
    induction es with
    | nil => exact fun chain h => h
    | cons e es ih => exact fun chain h => ih _ (hhandle _ _ _ _ (hevent _ _ _ h))
  have hall := hrecorded (recordMethods events) _
    (hhandle _ "handle" behaviour (b.handlerName command)
      (htext _ "identifiedBy" (b.identifier aggregate) hprocess))
  unfold registration
  dsimp only
  split
  · exact htext _ _ _ hall
  · exact hall

/-! ### The events of a chain -/

theorem map_snd_recordMethods (events : List Element) :
    (recordMethods events).map Prod.snd = events :=
  List.map_snd_zip (by simp)

theorem fst_mem_recordWords {events : List Element} {e : String × Element}
    (he : e ∈ recordMethods events) : e.1 ∈ recordWords := by
  have hfst := (List.of_mem_zip he).1
  rcases List.mem_cons.1 hfst with h | h
  · simp [recordWords, h]
  · simp [recordWords, List.eq_of_mem_replicate h]

/-- What is given to the calls of some methods for all events, if it is `f` for each event. -/
theorem argsAmong_eventLinks {methods : List String} {behaviour : String}
    {f : Element → List (List Expr)}
    (hf : ∀ e, e.1 ∈ recordWords → argsAmong methods (b.eventLinks behaviour e) = f e.2)
    (events : List Element) :
    argsAmong methods ((recordMethods events).flatMap (b.eventLinks behaviour)) =
      events.flatMap f := by
  calc argsAmong methods ((recordMethods events).flatMap (b.eventLinks behaviour))
      = (recordMethods events).flatMap fun e => f e.2 := by
        rw [argsAmong_flatMap]
        exact List.flatMap_congr fun e he => hf e (fst_mem_recordWords he)
    _ = ((recordMethods events).map Prod.snd).flatMap f := by rw [List.flatMap_map]
    _ = events.flatMap f := by rw [map_snd_recordMethods]

/-- What is given to the calls of some methods, if none of them says where the state is stored. -/
theorem argsOf_registration {methods : List String} (hstore : "storeStateIn" ∉ methods)
    {behaviour : String} {f : Element → List (List Expr)}
    (hf : ∀ e, e.1 ∈ recordWords → argsAmong methods (b.eventLinks behaviour e) = f e.2)
    (aggregate command : Element) (events : List Element) :
    (b.registration aggregate command events behaviour).argsOf methods =
      argsAmong methods
        [("process", [.classConst Framework.ApiClass.command.name (b.constantName command)]),
          (if command.createsAggregate then "withNew" else "withExisting",
            [.selfConst (b.constantName aggregate)]),
          ("identifiedBy", [.text (b.identifier aggregate)]),
          ("handle", [handle behaviour (b.handlerName command)])] ++ events.flatMap f := by
  have hstored : argsAmong methods (b.storeLinks aggregate command) = [] := by
    unfold storeLinks
    split <;> simp [argsAmong, hstore]
  rw [Expr.argsOf, links_registration, argsAmong_append, argsAmong_append, hstored,
    List.append_nil, b.argsAmong_eventLinks hf]

section Args

variable (aggregate command : Element) (events : List Element) (behaviour : String)

theorem argsOf_process :
    (b.registration aggregate command events behaviour).argsOf ["process"] =
      [[.classConst Framework.ApiClass.command.name (b.constantName command)]] := by
  rw [b.argsOf_registration (f := fun _ => []) (by decide)]
  · cases command.createsAggregate <;> simp [argsAmong]
  · rintro ⟨m, e⟩ hm
    rcases List.mem_pair.1 hm with rfl | rfl <;> rfl

theorem argsOf_handle :
    (b.registration aggregate command events behaviour).argsOf ["handle"] =
      [[handle behaviour (b.handlerName command)]] := by
  rw [b.argsOf_registration (f := fun _ => []) (by decide)]
  · cases command.createsAggregate <;> simp [argsAmong]
  · rintro ⟨m, e⟩ hm
    rcases List.mem_pair.1 hm with rfl | rfl <;> rfl

theorem argsOf_record :
    (b.registration aggregate command events behaviour).argsOf recordWords =
      events.map fun e => [b.eventConst e] := by
  rw [b.argsOf_registration (f := fun e => [[b.eventConst e]]) (by decide)]
  · cases command.createsAggregate <;>
      simp [argsAmong, recordWords, List.map_eq_flatMap]
  · rintro ⟨m, e⟩ hm
    rcases List.mem_pair.1 hm with rfl | rfl <;> rfl

theorem argsOf_apply :
    (b.registration aggregate command events behaviour).argsOf ["apply"] =
      events.map fun e => [handle behaviour (b.applierName e)] := by
  rw [b.argsOf_registration (f := fun e => [[handle behaviour (b.applierName e)]]) (by decide)]
  · cases command.createsAggregate <;> simp [argsAmong, List.map_eq_flatMap]
  · rintro ⟨m, e⟩ hm
    rcases List.mem_pair.1 hm with rfl | rfl <;> rfl

/-! ### The mode of a chain -/

/-- A chain calls no method for the mode but the second one. -/
theorem calls_registration {method : String} (hrecord : method ∉ recordWords)
    (hother : method ∉ ["process", "identifiedBy", "handle", "apply", "storeStateIn"]) :
    (b.registration aggregate command events behaviour).calls method =
      ((if command.createsAggregate then "withNew" else "withExisting") == method) := by
  have hne : ∀ word ∈ ["process", "identifiedBy", "handle", "apply", "storeStateIn"],
      (word == method) = false := fun word hword =>
    beq_eq_false_iff_ne.2 fun h => hother (h ▸ hword)
  simp only [List.forall_mem_cons] at hne
  obtain ⟨hprocess, hidentified, hhandle, happly, hstore, -⟩ := hne
  have hevents : ((recordMethods events).flatMap (b.eventLinks behaviour)).any
      (fun l => l.1 == method) = false := by
    rw [List.any_eq_false]
    intro l hl
    obtain ⟨e, he, hl⟩ := List.mem_flatMap.1 hl
    have hword := fst_mem_recordWords he
    simp only [eventLinks, List.mem_cons, List.not_mem_nil, or_false] at hl
    rcases hl with rfl | rfl
    · simpa using fun h : e.1 = method => hrecord (h ▸ hword)
    · simpa using happly
  have hstored : (b.storeLinks aggregate command).any (fun l => l.1 == method) = false := by
    unfold storeLinks
    split
    · rw [List.any_cons, hstore]
      rfl
    · rfl
  simp [Expr.calls, links_registration, hevents, hstored, hprocess, hidentified, hhandle]

theorem calls_withNew :
    (b.registration aggregate command events behaviour).calls "withNew" =
      command.createsAggregate := by
  rw [b.calls_registration aggregate command events behaviour (by decide) (by decide)]
  cases command.createsAggregate <;> rfl

theorem calls_withExisting :
    (b.registration aggregate command events behaviour).calls "withExisting" =
      !command.createsAggregate := by
  rw [b.calls_registration aggregate command events behaviour (by decide) (by decide)]
  cases command.createsAggregate <;> rfl

end Args

/-! ## Descriptions -/

theorem className_apiClass {name : String} {l : ClassLocation} (h : b.apiClass name = .ok l) :
    l.className = name := by
  obtain ⟨space, -, rfl⟩ := b.locateIn_eq_ok_iff.1 h
  rfl

/-- What the description of a command or event is made of. -/
theorem messageDescription_eq_ok {e : Element} {a : Artifact}
    (h : b.messageDescription e = .ok a) :
    ∃ api register location record, registrar? e.kind = some (api, register) ∧
      b.apiClass api.name = .ok location ∧ b.locate e = .ok record ∧
      a = .ofClass api.artifactName location
        (base ++ [constant (b.constantName e) (.text (b.constantValue e))] ++
          (b.messageSchema e).1 ++
          [.statements describe [.ofExpr (.methodCall engine register
              [.selfConst (b.constantName e), (b.messageSchema e).2])],
            Framework.imported record.fullName,
            .method (.publicStatic classMap [] (some "array") []),
            .mapEntry classMap (.selfConst (b.constantName e)) (.classRef record.className)]) := by
  unfold messageDescription at h
  split at h
  · cases h
  · rename_i api register hregistrar
    obtain ⟨location, hlocation, h⟩ := Outcome.bind_eq_ok h
    obtain ⟨record, hrecord, h⟩ := Outcome.bind_eq_ok h
    cases h
    exact ⟨api, register, location, record, hregistrar, hlocation, hrecord, rfl⟩

/-- The registration of a command with the ids of what it records. -/
def registrationOf (aggregate : Element) (behaviour : String) (p : String × List String) :
    Outcome Expr := do
  let command ← b.element p.1
  let events ← p.2.mapM b.element
  return b.registration aggregate command events behaviour

theorem element_eq_ok_iff {id : String} {e : Element} :
    b.element id = .ok e ↔ b.graph.element? id = some e := by
  unfold element
  split <;> simp [*]

theorem registrationOf_eq_ok {aggregate : Element} {behaviour : String}
    {p : String × List String} {chain : Expr}
    (h : b.registrationOf aggregate behaviour p = .ok chain) :
    ∃ command events, b.graph.element? p.1 = some command ∧
      List.Forall₂ (fun id e => b.graph.element? id = some e) p.2 events ∧
      chain = b.registration aggregate command events behaviour := by
  obtain ⟨command, hcommand, h⟩ := Outcome.bind_eq_ok h
  obtain ⟨events, hevents, h⟩ := Outcome.bind_eq_ok h
  cases h
  exact ⟨command, events, b.element_eq_ok_iff.1 hcommand,
    (Outcome.mapM_eq_ok_iff.1 hevents).imp fun _ _ => b.element_eq_ok_iff.1, rfl⟩

theorem registrationOf_isOk {p : String × List String} {command : Element}
    (hcommand : b.graph.element? p.1 = some command)
    (hevents : ∀ id ∈ p.2, ∃ event, b.graph.element? id = some event) (aggregate : Element)
    (behaviour : String) : ∃ chain, b.registrationOf aggregate behaviour p = .ok chain := by
  obtain ⟨events, hevents⟩ := Outcome.exists_mapM_eq_ok (f := b.element) fun id hid =>
    (hevents id hid).imp fun _ => b.element_eq_ok_iff.2
  refine ⟨b.registration aggregate command events behaviour, ?_⟩
  rw [registrationOf, b.element_eq_ok_iff.2 hcommand, hevents]
  rfl

/-- The description of an aggregate is made of the registrations of its commands. -/
theorem aggregateDescription_eq (c : AggregateConnection) :
    b.aggregateDescription c = do
      let aggregate ← b.element c.aggregate
      let location ← b.apiClass Framework.ApiClass.aggregate.name
      let behaviour ← b.locate aggregate
      let chains ← c.commands.mapM (b.registrationOf aggregate behaviour.className)
      return .ofClass Framework.ApiClass.aggregate.artifactName location
        (base ++
          [constant (b.constantName aggregate) (.text (b.constantValue aggregate)),
            Framework.imported behaviour.fullName,
            .statements describe (chains.map Statement.ofExpr)]) := by
  have hchain : ∀ (aggregate : Element) (behaviour : String),
      (fun p : String × List String => do
        let command ← b.element p.1
        let events ← p.2.mapM b.element
        return Statement.ofExpr (b.registration aggregate command events behaviour)) =
      fun p => Except.map Statement.ofExpr (b.registrationOf aggregate behaviour p) := by
    intro aggregate behaviour
    funext p
    unfold registrationOf
    cases b.element p.1 with
    | error e => rfl
    | ok command => cases p.2.mapM b.element <;> rfl
  have hchains : ∀ (aggregate : Element) (behaviour : String),
      (c.commands.mapM fun p : String × List String => do
        let command ← b.element p.1
        let events ← p.2.mapM b.element
        return Statement.ofExpr (b.registration aggregate command events behaviour)) =
      Except.map (List.map Statement.ofExpr)
        (c.commands.mapM (b.registrationOf aggregate behaviour)) := fun aggregate behaviour => by
    rw [hchain, Outcome.mapM_map]
  unfold aggregateDescription
  refine bind_congr fun aggregate => bind_congr fun location => bind_congr fun behaviour => ?_
  refine Eq.trans (congrArg (· >>= _) (hchains aggregate behaviour.className)) ?_
  cases c.commands.mapM (b.registrationOf aggregate behaviour.className) <;> rfl

/-- The description of an aggregate has one chain for each command. -/
theorem aggregateDescription_eq_ok {c : AggregateConnection} {a : Artifact}
    (h : b.aggregateDescription c = .ok a) :
    ∃ aggregate location behaviour chains, b.graph.element? c.aggregate = some aggregate ∧
      b.locate aggregate = .ok behaviour ∧
      List.Forall₂ (fun p chain => b.registrationOf aggregate behaviour.className p = .ok chain)
        c.commands chains ∧
      a = .ofClass Framework.ApiClass.aggregate.artifactName location
        (base ++
          [constant (b.constantName aggregate) (.text (b.constantValue aggregate)),
            Framework.imported behaviour.fullName,
            .statements describe (chains.map Statement.ofExpr)]) := by
  rw [aggregateDescription_eq] at h
  obtain ⟨aggregate, haggregate, h⟩ := Outcome.bind_eq_ok h
  obtain ⟨location, -, h⟩ := Outcome.bind_eq_ok h
  obtain ⟨behaviour, hbehaviour, h⟩ := Outcome.bind_eq_ok h
  obtain ⟨chains, hchains, h⟩ := Outcome.bind_eq_ok h
  cases h
  exact ⟨aggregate, location, behaviour, chains, b.element_eq_ok_iff.1 haggregate, hbehaviour,
    Outcome.mapM_eq_ok_iff.1 hchains, rfl⟩

end Blueprint

end DomainScaffold
