import DomainScaffold.Artifact.Basic
import DomainScaffold.Artifact.Framework

/-!
# Behaviour classes

The behaviour class of an aggregate has a static method for every command, which yields the first
event that the command records, and one for every recorded event, which makes the next state. A
command that creates the aggregate is handled without a state; an event is applied the way the first
command that records it is handled.

Results:
* `params_handler`, `params_applier`: which methods take a state.
-/

namespace DomainScaffold.Blueprint

open Php Merge Naming

variable (b : Blueprint)

/-! ## Methods -/

/-- The parameters of a method for a message; all but creating ones take the state first. -/
def messageParams (creates : Bool) (message : String) : List Param :=
  (if creates then [] else [.typed Framework.stateName "state"]) ++
    [.typed (Framework.short Framework.message) message]

/-- The payload of a message. -/
def payload (message : String) : Expr := .methodCall (.var message) "payload" []

/-- The name of the method that handles a command. -/
def handlerName (command : Element) : String := b.naming.name .commandMethod command.name

/-- The name of the method that applies an event. -/
def applierName (event : Element) : String := b.naming.name .eventMethod event.name

/-- The constant of an event in the description class of events. -/
def eventConst (event : Element) : Expr :=
  .classConst Framework.ApiClass.event.name (b.constantName event)

/-- The method that handles a command and yields its first event. -/
def handler (command first : Element) : MethodDecl :=
  let message := b.parameterName command
  .publicStatic (b.handlerName command) (messageParams command.createsAggregate message)
    (some Framework.generator)
    [.ofExpr (.yield (some (.list [b.eventConst first, payload message])))]

/-- The method that makes the next state from an event. -/
def applier (event : Element) (creates : Bool) : MethodDecl :=
  let message := b.parameterName event
  let next : Expr :=
    if creates then .staticCall Framework.stateName "fromArray" [payload message]
    else .methodCall (.var "state") "with" [payload message]
  .publicStatic (b.applierName event) (messageParams creates message) (some Framework.stateName)
    [.ofReturn next]

theorem params_handler (command first : Element) :
    (b.handler command first).params.length = if command.createsAggregate then 1 else 2 := by
  cases h : command.createsAggregate <;>
    simp [handler, messageParams, MethodDecl.publicStatic, MethodDecl.plain, h]

theorem params_applier (event : Element) (creates : Bool) :
    (b.applier event creates).params.length = if creates then 1 else 2 := by
  cases creates <;> simp [applier, messageParams, MethodDecl.publicStatic, MethodDecl.plain]

/-! ## Class -/

/-- The methods of a behaviour class. -/
structure Methods where
  handlers : List MethodDecl
  appliers : List MethodDecl

/-- The handler of a command, and the appliers of the events that only later commands of the
    aggregate may have in common with it. -/
def methodsOf (aggregate : Element) (seen : List String) (command : String)
    (events : List String) : Outcome Methods := do
  let command ← b.element command
  match events with
  | [] => .error (.commandWithoutEvent command.name command.id aggregate.name)
  | id :: _ =>
    let first ← b.element id
    let fresh := events.eraseDups.filter fun id => !seen.contains id
    let appliers ← fresh.mapM fun id =>
      (b.element id).map fun event => b.applier event command.createsAggregate
    return ⟨[b.handler command first], appliers⟩

/-- The methods for commands and what they record; events in `seen` have an applier already. -/
def allMethods (aggregate : Element) :
    (seen : List String) → List (String × List String) → Outcome Methods
  | _, [] => .ok ⟨[], []⟩
  | seen, (command, events) :: rest => do
    let first ← b.methodsOf aggregate seen command events
    let others ← allMethods aggregate (events ++ seen) rest
    return ⟨first.handlers ++ others.handlers, first.appliers ++ others.appliers⟩

/-- The behaviour class of an aggregate. -/
def behaviour (c : AggregateConnection) : Outcome Artifact := do
  let aggregate ← b.element c.aggregate
  let location ← b.locate aggregate
  let state ← b.stateClass aggregate
  let eventApi ← b.apiClass Framework.ApiClass.event.name
  let methods ← b.allMethods aggregate [] c.commands
  return .ofClass (b.className aggregate) location
    ([Framework.imported eventApi.fullName, Framework.imported Framework.message,
        Framework.imported Framework.generator,
        .importName (.ofClassAs state.fullName Framework.stateName)] ++
      (methods.handlers ++ methods.appliers).map .method)

end DomainScaffold.Blueprint
