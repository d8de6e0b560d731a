import DomainScaffold.Graph.Kind

/-!
# Errors

Every reason for which loading, generating or merging can fail, and the text that reports it.
-/

namespace DomainScaffold

/-- Why something could not be loaded, generated or merged. -/
inductive GenerationError where
  /-- A file could not be read or written. -/
  | fileAccess (path reason : String)
  /-- An element has to belong to an aggregate and does not. -/
  | missingAggregate (kind : ElementKind) (name id : String)
  /-- No aggregate has the id. -/
  | aggregateNotFound (name id : String)
  /-- A command of an aggregate records nothing. -/
  | commandWithoutEvent (name id aggregate : String)
  /-- An edge names an element that does not exist. -/
  | unknownElement (id : String)
  /-- Two elements have one id. -/
  | duplicateElement (id : String)
  /-- An element has a kind that is not known. -/
  | unknownKind (kind name id : String)
  /-- The schema of an element does not have the expected shape. -/
  | schemaShape (kind : ElementKind) (name id expected actual : String)
  /-- A schema refers to a definition that does not exist. -/
  | unknownReference (reference : String)
  /-- A schema is not understood. -/
  | invalidSchema (reason : String)
  /-- The metadata of an element is not understood. -/
  | metadata (kind : ElementKind) (name id reason : String)
  /-- The graph document is not understood. -/
  | graphDocument (reason : String)
  /-- A file holds something that is never merged into. -/
  | unsupportedFile (path : String)
  /-- A file is not valid PHP. -/
  | invalidSyntax (path : String)
  /-- The method that statements go into is missing or has no body. -/
  | methodNotFound (className method : String)
  /-- A file declares another class. -/
  | classMismatch (expected found : String)
  /-- A file declares another namespace. -/
  | namespaceMismatch (expected found : String)
  /-- The short name of an import is taken. -/
  | importConflict (className name existing : String)
  /-- A method returns no array that entries could be added to. -/
  | classMapNotFound (className method : String)
  /-- The configuration is not usable. -/
  | configuration (reason : String)
  /-- No autoload entry covers a namespace or directory. -/
  | noAutoloadEntry (target : String)
  /-- Two artifacts have one file. -/
  | fileCollision (path first second : String)
  deriving DecidableEq, Repr

namespace GenerationError

/-- The text that reports an error. -/
def message : GenerationError → String
  | fileAccess path reason => "Failed to access file '" ++ path ++ "': " ++ reason
  | missingAggregate kind name id =>
    kind.name ++ " '" ++ name ++ "' (" ++ id ++ ") has no aggregate connection"
  | aggregateNotFound name id =>
    "Aggregate '" ++ name ++ "' (" ++ id ++ ") not found in aggregate map"
  | commandWithoutEvent name id aggregate =>
    "Command '" ++ name ++ "' (" ++ id ++ ") of aggregate '" ++ aggregate ++
      "' does not record any event"
  | unknownElement id => "Unknown vertex reference '" ++ id ++ "' in graph document"
  | duplicateElement id => "Duplicate vertex id '" ++ id ++ "' in graph document"
  | unknownKind kind name id =>
    "Unknown vertex type '" ++ kind ++ "' for '" ++ name ++ "' (" ++ id ++ ")"
  | schemaShape kind name id expected actual =>
    kind.name ++ " '" ++ name ++ "' (" ++ id ++ "): expected " ++ expected ++ ", got " ++ actual
  | unknownReference reference => "Unresolvable schema reference '" ++ reference ++ "'"
  | invalidSchema reason => "Invalid schema: " ++ reason
  | metadata kind name id reason =>
    "Failed to parse metadata of " ++ kind.name ++ " '" ++ name ++ "' (" ++ id ++ "): " ++ reason
  | graphDocument reason => "Failed to parse graph document: " ++ reason
  | unsupportedFile path => "Failed to parse file: " ++ path
  | invalidSyntax path => "Syntax error in " ++ path
  | methodNotFound className method =>
    "Target method '" ++ method ++ "' not found in class '" ++ className ++
      "' for statement injection"
  | classMismatch expected found =>
    "File declares class '" ++ found ++ "', expected '" ++ expected ++ "'"
  | namespaceMismatch expected found =>
    "File declares namespace '" ++ found ++ "', expected '" ++ expected ++ "'"
  | importConflict className name existing =>
    "Cannot import '" ++ name ++ "' into class '" ++ className ++ "': '" ++ existing ++
      "' is already imported under the same name"
  | classMapNotFound className method =>
    "Method '" ++ method ++ "' of class '" ++ className ++ "' has no array return to extend"
  | configuration reason => "Invalid configuration: " ++ reason
  | noAutoloadEntry target => "No PSR-4 autoload prefix covers '" ++ target ++ "'"
  | fileCollision path first second =>
    "'" ++ first ++ "' and '" ++ second ++ "' both resolve to file '" ++ path ++ "'"

end GenerationError

/-! ## Outcomes -/

/-- A result or the reason why there is none. -/
abbrev Outcome (α : Type) := Except GenerationError α

theorem Outcome.map_eq_ok {α β : Type} {f : α → β} {x : Outcome α} {y : β}
    (h : Except.map f x = .ok y) : ∃ a, x = .ok a ∧ f a = y := by
  cases x with
  | error e => cases h
  | ok a => exact ⟨a, rfl, by simpa [Except.map] using h⟩

theorem Outcome.bind_eq_ok {α β : Type} {x : Outcome α} {f : α → Outcome β} {y : β}
    (h : x >>= f = .ok y) : ∃ a, x = .ok a ∧ f a = .ok y := by
  cases x with
  | error e => cases h
  | ok a => exact ⟨a, rfl, h⟩

theorem Outcome.exists_of_mem_mapM {α β : Type} {f : α → Outcome β} {as : List α} {bs : List β}
    (h : as.mapM f = .ok bs) {b : β} (hb : b ∈ bs) : ∃ a ∈ as, f a = .ok b := by
  induction as generalizing bs with
  | nil =>
    cases h
    cases hb
  | cons a as ih =>
    rw [List.mapM_cons] at h
    obtain ⟨c, hc, h⟩ := Outcome.bind_eq_ok h
    obtain ⟨cs, hcs, h⟩ := Outcome.bind_eq_ok h
    cases h
    rcases List.mem_cons.1 hb with rfl | hb
    · exact ⟨a, by simp, hc⟩
    · obtain ⟨a', ha', hf⟩ := ih hcs hb
      exact ⟨a', List.mem_cons_of_mem _ ha', hf⟩

theorem Outcome.exists_of_mapM {α β : Type} {f : α → Outcome β} {as : List α} {bs : List β}
    (h : as.mapM f = .ok bs) {a : α} (ha : a ∈ as) : ∃ b ∈ bs, f a = .ok b := by
  induction as generalizing bs with
  | nil => cases ha
  | cons x as ih =>
    rw [List.mapM_cons] at h
    obtain ⟨c, hc, h⟩ := Outcome.bind_eq_ok h
    obtain ⟨cs, hcs, h⟩ := Outcome.bind_eq_ok h
    cases h
    rcases List.mem_cons.1 ha with rfl | ha
    · exact ⟨c, by simp, hc⟩
    · obtain ⟨b, hb, hf⟩ := ih hcs ha
      exact ⟨b, List.mem_cons_of_mem _ hb, hf⟩

/-- What every step keeps holds after steps in a row. -/
theorem Outcome.foldlM_induction {α β : Type} {f : β → α → Outcome β} {P : β → Prop} {as : List α}
    (step : ∀ a ∈ as, ∀ s s', P s → f s a = .ok s' → P s') {s s' : β} (hs : P s)
    (h : as.foldlM f s = .ok s') : P s' := by
  induction as generalizing s with
  | nil =>
    cases h
    exact hs
  | cons a as ih =>
    rw [List.foldlM_cons] at h
    obtain ⟨next, hnext, h⟩ := Outcome.bind_eq_ok h
    rw [List.forall_mem_cons] at step
    exact ih step.2 (step.1 s next hs hnext) h

/-- Stands in a message for the report of a JSON reader, whose wording and position are not part of
    the message. -/
def jsonReport : String := "<json>"

end DomainScaffold
