import DomainScaffold.Artifact.Query
import DomainScaffold.Artifact.State
import DomainScaffold.Artifact.ValueObject

/-!
# Artifacts of a model

Every element is asked for its artifacts in the order of the graph: aggregates, then commands and
events, then documents. What fails is reported, and the rest goes on.

Results:
* `mem_artifacts_iff`, `mem_errors_iff`: artifacts and errors are what the attempts gave.
* `errors_eq_nil_iff`: there is no error when every attempt succeeds.
-/

namespace DomainScaffold

/-- A group of artifacts that exist together, or the reason why they do not. -/
abbrev Attempt := Outcome (List Artifact)

namespace Attempt

/-- A single artifact. -/
def one (a : Outcome Artifact) : Attempt := a.map fun a => [a]

/-- The artifacts of an attempt. -/
def artifacts : Attempt → List Artifact
  | .ok artifacts => artifacts
  | .error _ => []

/-- The error of an attempt. -/
def error? : Attempt → Option GenerationError
  | .ok _ => none
  | .error e => some e

end Attempt

namespace Blueprint

variable (b : Blueprint)

/-! ## Attempts -/

/-- The attempts for an aggregate. -/
def aggregateAttempts (aggregate : Element) : List Attempt :=
  match b.graph.aggregateConnection aggregate.id with
  | .error e => [.error e]
  | .ok c => [.one (b.behaviour c), .one (b.state c), .one (b.aggregateDescription c)]

/-- The attempts for a command or event. -/
def messageAttempts (e : Element) : List Attempt :=
  [.one (b.message e), .one (b.messageDescription e), .ok (b.schemaArtifacts e)]

/-- The attempts for a document. -/
def documentAttempts (document : Element) : List Attempt :=
  [b.valueObjects document, b.query document, .ok (b.schemaArtifacts document)]

/-- The attempts for all elements. -/
def attempts : List Attempt :=
  (b.graph.ofKind .aggregate).flatMap b.aggregateAttempts ++
    (b.graph.ofKind .command ++ b.graph.ofKind .event).flatMap b.messageAttempts ++
    (b.graph.ofKind .document).flatMap b.documentAttempts

/-! ## Artifacts -/

/-- The artifacts of a model. -/
def artifacts : List Artifact := b.attempts.flatMap Attempt.artifacts

/-- The errors of the artifacts that could not be made. -/
def errors : List GenerationError := b.attempts.filterMap Attempt.error?

theorem mem_artifacts_iff {a : Artifact} :
    a ∈ b.artifacts ↔ ∃ group, .ok group ∈ b.attempts ∧ a ∈ group := by
  simp only [artifacts, List.mem_flatMap]
  constructor
  · rintro ⟨t, ht, ha⟩
    cases t with
    | error e => simp [Attempt.artifacts] at ha
    | ok group => exact ⟨group, ht, ha⟩
  · rintro ⟨group, ht, ha⟩
    exact ⟨_, ht, ha⟩

theorem mem_errors_iff {e : GenerationError} : e ∈ b.errors ↔ .error e ∈ b.attempts := by
  simp only [errors, List.mem_filterMap]
  constructor
  · rintro ⟨t, ht, he⟩
    cases t with
    | error e' => cases he; exact ht
    | ok group => cases he
  · intro ht
    exact ⟨_, ht, rfl⟩

theorem errors_eq_nil_iff : b.errors = [] ↔ ∀ t ∈ b.attempts, ∃ group, t = .ok group := by
  rw [List.eq_nil_iff_forall_not_mem]
  constructor
  · intro h t ht
    cases t with
    | ok group => exact ⟨group, rfl⟩
    | error e => exact absurd (b.mem_errors_iff.2 ht) (h e)
  · intro h e he
    obtain ⟨group, hg⟩ := h _ (b.mem_errors_iff.1 he)
    cases hg

end Blueprint

end DomainScaffold
