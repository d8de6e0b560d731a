import DomainScaffold.Naming.Words
import DomainScaffold.Text.Visible

/-!
# Naming filters

A filter turns a label into an identifier. It is a chain of steps, each a spelling or an edit of
the text; filters compose by running one after the other.

Results:
* `apply_andThen`: composed filters run in order.
-/

namespace DomainScaffold.Naming

/-! ## Steps -/

/-- One step of a filter. -/
inductive Step where
  | identity
  | pascal
  | camel
  | snake
  | upperSnake
  | kebab
  | lowercase
  | plural
  | before (text : String)
  | after (text : String)
  | replace (old new : String)
  deriving DecidableEq, Repr

/-- The effect of a step on a text. -/
def Step.apply : Step → String → String
  | .identity, s => s
  | .pascal, s => Naming.pascal s
  | .camel, s => Naming.camel s
  | .snake, s => Naming.snake s
  | .upperSnake, s => Naming.upperSnake s
  | .kebab, s => Naming.kebab s
  | .lowercase, s => Text.lower s
  | .plural, s => Naming.plural s
  | .before text, s => text ++ s
  | .after text, s => s ++ text
  | .replace old new, s => Text.replaceAll old new s

/-- How a step is shown. -/
def Step.describe : Step → String
  | .identity => "Identity"
  | .pascal => "Pascal"
  | .camel => "Camel"
  | .snake => "Snake"
  | .upperSnake => "UpperSnake"
  | .kebab => "Kebab"
  | .lowercase => "Lowercase"
  | .plural => "Plural"
  | .before text => "Prefix(" ++ Text.quoted text ++ ")"
  | .after text => "Suffix(" ++ Text.quoted text ++ ")"
  | .replace old new =>
    "Replace \x7b from: " ++ Text.quoted old ++ ", to: " ++ Text.quoted new ++ " \x7d"

/-! ## Filters -/

/-- A filter: chains of steps that run one after the other. The chains are kept apart because an
    empty one still shows when the filter is described. -/
structure Filter where
  chains : List (List Step)
  deriving DecidableEq, Repr

namespace Filter

/-- The filter of one chain. -/
def ofSteps (steps : List Step) : Filter := ⟨[steps]⟩

/-- The filter that changes nothing. -/
def identity : Filter := ofSteps [.identity]

/-- First `f`, then `g`. -/
def andThen (f g : Filter) : Filter := ⟨f.chains ++ g.chains⟩

/-- The result of a filter. -/
def apply (f : Filter) (s : String) : String :=
  f.chains.flatten.foldl (fun acc step => step.apply acc) s

theorem apply_andThen (f g : Filter) (s : String) :
    (f.andThen g).apply s = g.apply (f.apply s) := by
  simp [andThen, apply]

theorem apply_identity (s : String) : identity.apply s = s := rfl

/-- The steps of a filter as shown. -/
def describe (f : Filter) : String :=
  let chain := fun steps => String.intercalate " | " (List.map Step.describe steps)
  "Filter(" ++ String.intercalate " | " (f.chains.map chain) ++ ")"

end Filter

end DomainScaffold.Naming
