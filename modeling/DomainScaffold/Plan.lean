import DomainScaffold.Artifact.Model

/-!
# File plans

Artifacts are grouped by file. Parts of one class share a file when they are reported under one
name, and texts when they are equal; any other artifact for a file that is taken is a collision.

Results:
* `add_eq_error_iff`: an artifact is refused exactly when its file cannot take it.
* `paths_add`: an accepted artifact adds at most its own path, at the end.
-/

namespace DomainScaffold

open Merge

/-! ## Planned files -/

/-- Whether two change sets are for the same class. -/
def Merge.ChangeSet.sameClass (s t : ChangeSet) : Bool :=
  Text.trimBoth '\\' s.namespaceName == Text.trimBoth '\\' t.namespaceName &&
    Text.sameIgnoringCase s.target.name t.target.name

/-- What a file is to become. -/
inductive PlannedContent where
  /-- The changes of one class, in order. -/
  | code (first : ChangeSet) (others : List ChangeSet)
  | verbatim (text : String)
  deriving DecidableEq, Repr

/-- A file with everything that is headed for it. -/
structure PlannedFile where
  path : Path
  /-- The name under which the file is reported. -/
  name : String
  content : PlannedContent
  deriving DecidableEq, Repr

namespace PlannedFile

/-- The file of a first artifact. -/
def ofArtifact (a : Artifact) : PlannedFile :=
  ⟨a.path, a.name, match a.content with
    | .code set => .code set []
    | .verbatim text => .verbatim text⟩

/-- The file with one more artifact, if the artifact may share it. -/
def with? (f : PlannedFile) (a : Artifact) : Option PlannedFile :=
  match f.content, a.content with
  | .code first others, .code set =>
    if f.name = a.name && first.sameClass set then
      some { f with content := .code first (others ++ [set]) }
    else none
  | .verbatim text, .verbatim new => if text = new then some f else none
  | _, _ => none

theorem path_with? {f g : PlannedFile} {a : Artifact} (h : f.with? a = some g) :
    g.path = f.path := by
  unfold with? at h
  split at h
  · split at h
    · cases h; rfl
    · cases h
  · split at h
    · cases h; rfl
    · cases h
  · cases h

/-- The report of an artifact that cannot share a file. -/
def collision (f : PlannedFile) (a : Artifact) : GenerationError :=
  .fileCollision a.path.text f.name a.name

end PlannedFile

/-! ## Plans -/

/-- Planned files in the order in which they were first needed. -/
abbrev FilePlan := List PlannedFile

namespace FilePlan

/-- The plan with an artifact in its file, or the report that the file is taken. -/
def add (a : Artifact) : FilePlan → Outcome FilePlan
  | [] => .ok [.ofArtifact a]
  | f :: plan =>
    if f.path.same a.path then
      match f.with? a with
      | some f => .ok (f :: plan)
      | none => .error (f.collision a)
    else (add a plan).map (f :: ·)

/-- The plan with artifacts, and the reports of those that are left out. -/
def addAll : FilePlan → List Artifact → FilePlan × List GenerationError
  | plan, [] => (plan, [])
  | plan, a :: artifacts =>
    match add a plan with
    | .ok plan => addAll plan artifacts
    | .error e =>
      let (plan, errors) := addAll plan artifacts
      (plan, e :: errors)

/-- The plan of artifacts. -/
def ofArtifacts (artifacts : List Artifact) : FilePlan × List GenerationError :=
  addAll [] artifacts

/-- The file planned for a path. -/
def file? (plan : FilePlan) (path : Path) : Option PlannedFile :=
  plan.find? fun f => f.path.same path

/-- The paths of a plan. -/
def paths (plan : FilePlan) : List Path := plan.map PlannedFile.path

theorem add_eq_error_iff {plan : FilePlan} {a : Artifact} {e : GenerationError} :
    add a plan = .error e ↔
      ∃ f, plan.file? a.path = some f ∧ f.with? a = none ∧ e = f.collision a := by
  induction plan with
  | nil => simp [add, file?]
  | cons f plan ih =>
    unfold file? at ih ⊢
    rw [List.find?_cons]
    by_cases h : f.path.same a.path = true
    · simp only [add, h, if_true]
      cases hw : f.with? a with
      | none => simp [hw, eq_comm]
      | some g => simp [hw]
    · simp only [add, h] at ih ⊢
      simp only [Bool.false_eq_true, if_false]
      rw [← ih]
      cases add a plan <;> simp [Except.map]

theorem paths_add {plan plan' : FilePlan} {a : Artifact} (h : add a plan = .ok plan') :
    paths plan' = if (plan.file? a.path).isSome then paths plan else paths plan ++ [a.path] := by
  induction plan generalizing plan' with
  | nil => cases h; simp [paths, file?, PlannedFile.ofArtifact]
  | cons f plan ih =>
    unfold file? at ih ⊢
    rw [List.find?_cons]
    by_cases hp : f.path.same a.path = true
    · simp only [add, hp, if_true] at h ⊢
      cases hw : f.with? a with
      | none => simp [hw] at h
      | some g =>
        simp only [hw, Except.ok.injEq] at h
        subst h
        simp [paths, PlannedFile.path_with? hw]
    · simp only [add, hp, Bool.false_eq_true, if_false] at h ⊢
      obtain ⟨rest, hr, rfl⟩ := Outcome.map_eq_ok h
      have := ih hr
      simp only [paths, List.map_cons] at this ⊢
      rw [this]
      split <;> simp

end FilePlan

/-- The files planned for a blueprint, and what is wrong with the others. -/
def Blueprint.plan (b : Blueprint) : FilePlan × List GenerationError :=
  let (plan, collisions) := FilePlan.ofArtifacts b.artifacts
  (plan, b.errors ++ collisions)

end DomainScaffold
