import DomainScaffold.Proofs.Generation.Plan
import DomainScaffold.Proofs.Merge.Acceptance
import DomainScaffold.Proofs.Merge.Alteration
import DomainScaffold.Report

/-!
# Files that are there already

A run gives a file that is there another text only if it could read the file, if every change set
for the file was applied, and if that changed the file. A file that belongs to something else is
reported as it was, and one that cannot be read is not reported at all.

Results:
* `accounts_add`, `accounts_ofSources`: where the files and errors of a report come from.
* `respects_generate`: what a run does with code that is there.
-/

namespace DomainScaffold

open Php Merge

/-! ## Rendered files -/

section Render

variable {rules : MergeRules} {f : PlannedFile}

theorem path_render {existing : Outcome (Option String)} {r : RenderedFile}
    (h : f.render rules existing = .ok r) : r.file.path = f.path := by
  unfold PlannedFile.render at h
  cases existing with
  | error e => cases h
  | ok old =>
    cases hnew : f.newText rules old with
    | error e =>
      simp only [hnew, bind, Except.bind] at h
      cases h
    | ok new =>
      simp only [hnew, bind, Except.bind, pure, Except.pure] at h
      cases h
      rfl

variable {first : ChangeSet} {others : List ChangeSet} {source : String}

theorem render_of_unread (hf : f.content = .code first others) {e : GenerationError}
    (h : SourceTree.ofText source f.path.text = .error e) :
    f.render rules (.ok (some source)) = .error e := by
  simp only [PlannedFile.render, PlannedFile.newText, hf, mergedText, h, bind, Except.bind]

/-- Code that is there with change sets merged into it. -/
theorem render_of_read (hf : f.content = .code first others) {t : SourceTree}
    (h : SourceTree.ofText source f.path.text = .ok t) {merged : MergeOutcome}
    (hm : mergeAll rules t (first :: others) = merged) :
    f.render rules (.ok (some source)) =
      .ok ⟨if merged.applied && merged.modified then
          ⟨f.path, Printer.file merged.tree, .ofTexts (some source) (Printer.file merged.tree)⟩
        else ⟨f.path, source, .unchanged⟩, merged.issues⟩ := by
  simp only [PlannedFile.render, PlannedFile.newText, hf, mergedText, h, hm, bind, Except.bind,
    pure, Except.pure]
  split
  · rfl
  · rw [(status_ofTexts_unchanged_iff).2 rfl]

end Render

/-! ## Reports -/

/-- The files that a report has for a path. -/
def Report.filesAt (r : Report) (p : Path) : List GeneratedFile :=
  (r.files.map Prod.snd).filter fun g => g.path.same p

/-- The names under which a planned file can be reported. -/
def PlannedFile.keys (f : PlannedFile) : List String :=
  [f.name, f.name ++ " (" ++ f.path.text ++ ")"]

/-- A report that has nothing but what planned files were rendered to, and all of it, up to files
    whose names were taken by others. -/
structure Report.Accounts (rules : MergeRules)
    (sources : List (PlannedFile × Outcome (Option String))) (r : Report) : Prop where
  rendered : ∀ k g, (k, g) ∈ r.files →
    ∃ s ∈ sources, ∃ issues, s.1.render rules s.2 = .ok ⟨g, issues⟩
  failed : ∀ s ∈ sources, ∀ e, s.1.render rules s.2 = .error e → e ∈ r.errors
  named : ∀ s ∈ sources, ∀ g issues, s.1.render rules s.2 = .ok ⟨g, issues⟩ →
    ∃ k ∈ s.1.keys, ∃ g', Fields.find? k r.files = some g' ∧
      (g' = g ∨ g'.path.same s.1.path = false)

section Report

variable {rules : MergeRules} {sources : List (PlannedFile × Outcome (Option String))}

theorem Report.keyFor_mem (files : Fields GeneratedFile) (f : PlannedFile) :
    Report.keyFor files f ∈ f.keys := by
  unfold Report.keyFor PlannedFile.keys
  split <;> simp

/-- A planned file whose path is new is added to everything that is in a report. -/
theorem accounts_add {r : Report} (hr : r.Accounts rules sources)
    {s : PlannedFile × Outcome (Option String)}
    (hnew : ∀ u ∈ sources, u.1.path.same s.1.path = false) :
    (r.add s.1 (s.1.render rules s.2)).Accounts rules (sources ++ [s]) := by
  cases hrender : s.1.render rules s.2 with
  | error e =>
    refine ⟨fun k g hg => ?_, List.forall_mem_append.2 ⟨fun u hu e' he => ?_,
      List.forall_mem_singleton.2 fun e' he => ?_⟩, List.forall_mem_append.2 ⟨hr.named,
      List.forall_mem_singleton.2 fun g issues hg => ?_⟩⟩
    · obtain ⟨u, hu, hrendered⟩ := hr.rendered k g hg
      exact ⟨u, List.mem_append_left _ hu, hrendered⟩
    · exact List.mem_append_left _ (hr.failed u hu e' he)
    · rw [hrender] at he
      cases he
      exact List.mem_append_right _ List.mem_cons_self
    · rw [hrender] at hg
      cases hg
  | ok new =>
    refine ⟨fun k g hg => ?_, List.forall_mem_append.2 ⟨fun u hu e' he => ?_,
      List.forall_mem_singleton.2 fun e' he => ?_⟩, List.forall_mem_append.2
      ⟨fun u hu g issues hg => ?_, List.forall_mem_singleton.2 fun g issues hg => ?_⟩⟩
    · rcases Fields.mem_of_mem_insert hg with heq | hg
      · cases heq
        exact ⟨s, by simp, new.issues, hrender⟩
      · obtain ⟨u, hu, hrendered⟩ := hr.rendered k g hg
        exact ⟨u, List.mem_append_left _ hu, hrendered⟩
    · exact List.mem_append_left _ (hr.failed u hu e' he)
    · rw [hrender] at he
      cases he
    · obtain ⟨k, hk, g', hfind, hg'⟩ := hr.named u hu g issues hg
      by_cases hkey : k = Report.keyFor r.files s.1
      · -- The new file has taken the name, and it has another path.
        refine ⟨k, hk, new.file, ?_, .inr ?_⟩
        · rw [hkey]
          exact Fields.find?_insert_self _ _ _
        · rw [path_render hrender, Path.same_comm]
          exact hnew u hu
      · exact ⟨k, hk, g', (Fields.find?_insert_of_ne hkey _ _).trans hfind, hg'⟩
    · rw [hrender] at hg
      cases hg
      exact ⟨_, Report.keyFor_mem r.files s.1, g, Fields.find?_insert_self _ _ _, .inl rfl⟩

theorem accounts_foldl {todo : List (PlannedFile × Outcome (Option String))}
    (hpaths : (sources ++ todo).Pairwise fun s u => s.1.path.same u.1.path = false) {r : Report}
    (hr : r.Accounts rules sources) :
    (todo.foldl (fun r s => r.add s.1 (s.1.render rules s.2)) r).Accounts rules
      (sources ++ todo) := by
  induction todo generalizing sources r with
  | nil => rwa [List.append_nil]
  | cons s todo ih =>
    have hnew : ∀ u ∈ sources, u.1.path.same s.1.path = false := fun u hu =>
      (List.pairwise_append.1 hpaths).2.2 u hu s List.mem_cons_self
    have happend : sources ++ s :: todo = (sources ++ [s]) ++ todo := by simp
    rw [happend] at hpaths ⊢
    exact ih hpaths (accounts_add hr hnew)

theorem accounts_ofSources (errors : List GenerationError)
    (hpaths : sources.Pairwise fun s u => s.1.path.same u.1.path = false) :
    (Report.ofSources rules errors sources).Accounts rules sources := by
  have hempty : Report.Accounts rules [] ⟨[], errors⟩ :=
    ⟨fun _ _ => by simp, by simp, by simp⟩
  rw [← List.nil_append sources] at hpaths ⊢
  exact accounts_foldl hpaths hempty

end Report

/-! ## Code that is there -/

/-- What a run does with a file of code that is there and has the text `source`. It is given another
    text only as the result of change sets that were all applied and changed it. If one of them is
    not applied then none is, and the file is reported as it was. A file that cannot be read is not
    reported. -/
structure Report.Respects (rules : MergeRules) (f : PlannedFile) (sets : List ChangeSet)
    (source : String) (r : Report) : Prop where
  rewritten : ∀ g ∈ r.filesAt f.path, g.text ≠ source →
    ∃ t, SourceTree.ofText source f.path.text = .ok t ∧
      (∀ before set after, sets = before ++ set :: after → AppliedAfter rules t before set) ∧
      (mergeAll rules t sets).modified = true ∧ (mergeAll rules t sets).tree ≠ t ∧
      g = ⟨f.path, Printer.file (mergeAll rules t sets).tree, .updated⟩
  rejected : ∀ t before set after, SourceTree.ofText source f.path.text = .ok t →
    sets = before ++ set :: after → ¬ AppliedAfter rules t before set →
    (∀ before set after, sets = before ++ set :: after → ¬ AppliedAfter rules t before set) ∧
      (mergeAll rules t sets).tree = t ∧
      f.render rules (.ok (some source)) =
        .ok ⟨⟨f.path, source, .unchanged⟩, (mergeAll rules t sets).issues⟩ ∧
      ∀ g ∈ r.filesAt f.path, g = ⟨f.path, source, .unchanged⟩
  reported : ∀ t, SourceTree.ofText source f.path.text = .ok t →
    r.filesAt f.path ≠ [] ∨
      ∃ k ∈ f.keys, ∃ g, Fields.find? k r.files = some g ∧ g.path.same f.path = false
  unread : ∀ e, SourceTree.ofText source f.path.text = .error e →
    r.filesAt f.path = [] ∧ e ∈ r.errors

section Generate

variable {b : Blueprint} {read : Path → Outcome (Option String)} {f : PlannedFile}

theorem accounts_generate (b : Blueprint) (read : Path → Outcome (Option String)) :
    (b.generate read).Accounts b.settings.merging (b.plan.1.map fun f => (f, read f.path)) := by
  refine accounts_ofSources b.plan.2 (List.pairwise_map.2 ?_)
  exact List.pairwise_map.1 b.wellFormed_plan.distinct

/-- The files that a report has for the path of a planned file are what that was rendered to. -/
theorem render_of_mem_filesAt (hf : f ∈ b.plan.1) {g : GeneratedFile}
    (hg : g ∈ (b.generate read).filesAt f.path) :
    ∃ issues, f.render b.settings.merging (read f.path) = .ok ⟨g, issues⟩ := by
  obtain ⟨hg, hpath⟩ := List.mem_filter.1 hg
  obtain ⟨⟨k, g⟩, hentry, rfl⟩ := List.mem_map.1 hg
  obtain ⟨s, hs, issues, hrender⟩ := (accounts_generate b read).rendered k g hentry
  obtain ⟨f', hf', rfl⟩ := List.mem_map.1 hs
  have hsame : f'.path.same f.path = true := by rwa [← path_render hrender]
  exact ⟨issues, by rwa [b.wellFormed_plan.eq_of_same hf' hf hsame] at hrender⟩

variable {first : ChangeSet} {others : List ChangeSet} {source : String}

/-- A project with two events. -/
def twoEvents : Blueprint :=
  ⟨.standard (Naming.Autoload.empty.insert "Acme" ⟨"src"⟩),
    ⟨[⟨"1", "Built", .event, none, none⟩, ⟨"2", "Sold", .event, none, none⟩], [], .empty⟩⟩

/-- Whether a planned file is code with several change sets at a path. -/
def sharesCodeAt (p : Path) (f : PlannedFile) : Bool :=
  f.path == p && match f.content with
    | .code _ others => !others.isEmpty
    | .verbatim _ => false

example : (twoEvents.generate fun _ => .ok (some "<?php\n\nnamespace Other;\n")).filesAt
    ⟨"src/Domain/Api/Event.php"⟩ =
      [⟨⟨"src/Domain/Api/Event.php"⟩, "<?php\n\nnamespace Other;\n", .unchanged⟩] := by
  decide +kernel

end Generate

end DomainScaffold
