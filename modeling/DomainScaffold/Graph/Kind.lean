import DomainScaffold.Text.Blank
import DomainScaffold.Text.LetterCase

/-!
# Kinds of elements

The closed set of element kinds that a domain graph can hold, and how they are spelled.

Results:
* `parse?_name`: the name of a kind is one of its spellings.
-/

namespace DomainScaffold

/-- What an element of a domain graph is. -/
inductive ElementKind where
  | aggregate
  | command
  | event
  | document
  | feature
  | boundedContext
  | policy
  | role
  | ui
  | hotSpot
  | externalSystem
  deriving DecidableEq, Repr, Inhabited

namespace ElementKind

/-- Every kind. -/
def all : List ElementKind :=
  [aggregate, command, event, document, feature, boundedContext, policy, role, ui, hotSpot,
    externalSystem]

/-- The name of a kind. -/
def name : ElementKind → String
  | aggregate => "Aggregate"
  | command => "Command"
  | event => "Event"
  | document => "Document"
  | feature => "Feature"
  | boundedContext => "BoundedContext"
  | policy => "Policy"
  | role => "Role"
  | ui => "UI"
  | hotSpot => "HotSpot"
  | externalSystem => "ExternalSystem"

/-- The spelling without case, hyphens, underscores and white space. -/
def fold (spelling : String) : String :=
  String.ofList ((spelling.toList.filter fun c => c != '-' && c != '_' && !Text.isBlank c).flatMap
    Text.lowerForm)

/-- The kind with a spelling; case, hyphens, underscores and white space do not matter. -/
def parse? (spelling : String) : Option ElementKind :=
  all.find? fun kind => fold kind.name == fold spelling

theorem parse?_name (kind : ElementKind) : parse? kind.name = some kind := by
  cases kind <;> decide +kernel

end ElementKind

end DomainScaffold
