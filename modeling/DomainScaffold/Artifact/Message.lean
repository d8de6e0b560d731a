import DomainScaffold.Artifact.Record

/-!
# Message classes

A command or event is a record class with the properties of its payload.

Results:
* `message_eq_error_of_kind`: nothing but a command or event is a message.
-/

namespace DomainScaffold

open Merge

/-- Whether an element is a message: a command or an event. -/
def Element.isMessage (e : Element) : Bool := e.is .command || e.is .event

namespace Blueprint

variable (b : Blueprint)

/-- The report of an element that is no message. -/
def notMessage (e : Element) : GenerationError := e.shapeError "Command or Event" e.kind.name

/-- The record class of a command or event. -/
def message (e : Element) : Outcome Artifact :=
  if e.isMessage then do
    let location ← b.locate e
    let changes ← match e.types with
      | none => .ok recordBase
      | some types => b.rootRecord e types
    return .ofClass (b.constantName e) location changes
  else .error (notMessage e)

theorem message_eq_error_of_kind {e : Element} (h : e.isMessage = false) :
    b.message e = .error (notMessage e) := by
  simp [message, h]

end Blueprint

end DomainScaffold
