import DomainScaffold.Php.Reader
import DomainScaffold.Plan

/-!
# Reports

A run renders every planned file against what is in the project: change sets are merged into the
code that is there, and texts replace it. The report names each file with what became of it. A file
that gains nothing, or that belongs to something else, is reported as it was.

Results:
* `status_ofTexts_unchanged_iff`: a file is unchanged when it already has the generated text.
* `render_existing_unreadable`: a file that cannot be read is not touched.
-/

namespace DomainScaffold

open Php Merge

/-! ## Files -/

/-- What a run makes of a file. -/
inductive FileStatus where
  | created
  | updated
  | unchanged
  deriving DecidableEq, Repr

/-- The status of a file with the text that it had, if it existed, and the one that it gets. -/
def FileStatus.ofTexts (old : Option String) (new : String) : FileStatus :=
  match old with
  | none => .created
  | some old => if old = new then .unchanged else .updated

theorem status_ofTexts_unchanged_iff {old : Option String} {new : String} :
    FileStatus.ofTexts old new = .unchanged ↔ old = some new := by
  cases old with
  | none => simp [FileStatus.ofTexts]
  | some old => by_cases h : old = new <;> simp [FileStatus.ofTexts, h]

/-- A generated file. -/
structure GeneratedFile where
  path : Path
  text : String
  status : FileStatus
  deriving DecidableEq, Repr

/-- Whether a file has to be written. -/
def GeneratedFile.isChanged (f : GeneratedFile) : Bool := f.status != .unchanged

/-- A generated file, and the changes that could not be made in it. -/
structure RenderedFile where
  file : GeneratedFile
  issues : List GenerationError

/-! ## Rendering -/

/-- The text of a file after change sets; code that gains nothing, or that the changes are not for,
    stays as it was. -/
def mergedText (rules : MergeRules) (path : Path) (sets : List ChangeSet) (old : Option String) :
    Outcome (String × List GenerationError) :=
  match old with
  | none =>
    let merged := mergeAll rules .empty sets
    .ok (Printer.file merged.tree, merged.issues)
  | some source => do
    let tree ← SourceTree.ofText source path.text
    let merged := mergeAll rules tree sets
    return (if merged.applied && merged.modified then Printer.file merged.tree else source,
      merged.issues)

/-- The text that a planned file gets. -/
def PlannedFile.newText (rules : MergeRules) (f : PlannedFile) (old : Option String) :
    Outcome (String × List GenerationError) :=
  match f.content with
  | .verbatim text => .ok (text, [])
  | .code first others => mergedText rules f.path (first :: others) old

/-- A planned file rendered against what is in the project. -/
def PlannedFile.render (rules : MergeRules) (f : PlannedFile) (existing : Outcome (Option String)) :
    Outcome RenderedFile := do
  let old ← existing
  let (text, issues) ← f.newText rules old
  return ⟨⟨f.path, text, .ofTexts old text⟩, issues⟩

theorem render_existing_unreadable (rules : MergeRules) (f : PlannedFile) (e : GenerationError) :
    f.render rules (.error e) = .error e := rfl

/-! ## Reports -/

/-- What a run made: files by name, and what could not be made. -/
structure Report where
  files : Fields GeneratedFile
  errors : List GenerationError

namespace Report

/-- Whether a run had no errors. -/
def isClean (r : Report) : Bool := r.errors.isEmpty

/-- The files to be written. -/
def changed (r : Report) : List GeneratedFile :=
  (r.files.map Prod.snd).filter GeneratedFile.isChanged

/-- The name of a file in a report: its own, followed by its path if the name is taken. -/
def keyFor (files : Fields GeneratedFile) (f : PlannedFile) : String :=
  if Fields.has f.name files then f.name ++ " (" ++ f.path.text ++ ")" else f.name

/-- The report with a planned file that was rendered or failed. -/
def add (r : Report) (f : PlannedFile) (rendered : Outcome RenderedFile) : Report :=
  match rendered with
  | .ok rendered =>
    ⟨Fields.insert (keyFor r.files f) rendered.file r.files, r.errors ++ rendered.issues⟩
  | .error e => ⟨r.files, r.errors ++ [e]⟩

end Report

/-- The report on planned files, each with what is in its place in the project, behind the errors of
    the plan. -/
def Report.ofSources (rules : MergeRules) (errors : List GenerationError)
    (sources : List (PlannedFile × Outcome (Option String))) : Report :=
  sources.foldl (fun r (f, existing) => r.add f (f.render rules existing)) ⟨[], errors⟩

/-- The report of a run over a project, whose files are given by `read`. -/
def Blueprint.generate (b : Blueprint) (read : Path → Outcome (Option String)) : Report :=
  let (plan, errors) := b.plan
  .ofSources b.settings.merging errors (plan.map fun f => (f, read f.path))

end DomainScaffold
