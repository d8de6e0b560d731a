import DomainScaffold.Project
import DomainScaffold.Proofs.Generation.Artifacts
import DomainScaffold.Proofs.Generation.HandWritten

/-!
# A second run

A run over the files that a first one has made of nothing changes none of them: it reads them, finds
everything there, and reports the same files under the same names, with the same errors. All that is
asked for is the policy that keeps what is there, and that the names in the generated code are names
of the language.

Results:
* `render_again`: a planned file that is rendered against its own text.
* `generate_again`: a whole run over the files of a first one.
* `eventNamed_not_unchanged`: letters above U+FFFF, which the reader does not take for letters.
-/

namespace DomainScaffold

open Php Merge

/-! ## Files that are put into a project -/

namespace Project

variable {p : Project} {path other : Path}

theorem text?_congr (p : Project) (h : path.same other = true) : p.text? path = p.text? other := by
  have hsame : ∀ f : Path × String, f.1.same path = f.1.same other := fun f => by
    rw [Bool.eq_iff_iff]
    exact ⟨fun hf => Path.same_trans hf h,
      fun hf => Path.same_trans hf (by rwa [Path.same_comm])⟩
  simp only [text?, hsame]

/-- What is read after generated files have been put is the text of one of them, or what was there. -/
theorem text?_putAll {files : List GeneratedFile} {text : String}
    (h : (p.putAll files).text? path = some text) :
    (∃ g ∈ files, g.path.same path = true ∧ g.text = text) ∨ p.text? path = some text := by
  induction files generalizing p with
  | nil => exact .inr h
  | cons g files ih =>
    rcases ih h with ⟨g', hg', hread⟩ | hread
    · exact .inl ⟨g', List.mem_cons_of_mem _ hg', hread⟩
    · cases hsame : g.path.same path with
      | true =>
        rw [← text?_congr _ hsame, read_put_self] at hread
        exact .inl ⟨g, List.mem_cons_self, hsame, Option.some.inj hread⟩
      | false =>
        rw [read_put_of_not_same p hsame] at hread
        exact .inr hread

theorem isSome_text?_putAll_of_isSome {files : List GeneratedFile}
    (h : (p.text? path).isSome = true) : ((p.putAll files).text? path).isSome = true := by
  induction files generalizing p with
  | nil => exact h
  | cons g files ih =>
    refine ih ?_
    cases hsame : g.path.same path with
    | true =>
      rw [← text?_congr _ hsame, read_put_self]
      rfl
    | false => rwa [read_put_of_not_same p hsame]

/-- A generated file that has been put is there. -/
theorem isSome_text?_putAll {files : List GeneratedFile} {g : GeneratedFile} (h : g ∈ files) :
    ((p.putAll files).text? g.path).isSome = true := by
  induction files generalizing p with
  | nil => cases h
  | cons g' files ih =>
    rcases List.mem_cons.1 h with rfl | h
    · show (((p.put g.path g.text).putAll files).text? g.path).isSome = true
      refine isSome_text?_putAll_of_isSome ?_
      rw [read_put_self]
      rfl
    · exact ih h

end Project

/-! ## The change sets of a plan -/

namespace FilePlan

variable {P : ChangeSet → Prop} {plan plan' : FilePlan} {a : Artifact}

theorem sets_ofArtifact (ha : ∀ s, a.changeSet? = some s → P s) :
    ∀ s ∈ (PlannedFile.ofArtifact a).sets, P s := by
  unfold PlannedFile.ofArtifact PlannedFile.sets
  cases hc : a.content with
  | code set => exact List.forall_mem_singleton.2 (ha set (by rw [Artifact.changeSet?, hc]))
  | verbatim text => exact fun s hs => by cases hs

theorem sets_with? {f g : PlannedFile} (ha : ∀ s, a.changeSet? = some s → P s)
    (hf : ∀ s ∈ f.sets, P s) (h : f.with? a = some g) : ∀ s ∈ g.sets, P s := by
  unfold PlannedFile.with? at h
  split at h
  · rename_i first others set hcode hset
    split at h
    · cases h
      rw [PlannedFile.sets, hcode] at hf
      show ∀ s ∈ (first :: others) ++ [set], P s
      exact List.forall_mem_append.2 ⟨hf, List.forall_mem_singleton.2
        (ha set (by rw [Artifact.changeSet?, hset]))⟩
    · cases h
  · split at h
    · cases h
      exact hf
    · cases h
  · cases h

theorem sets_add (ha : ∀ s, a.changeSet? = some s → P s) (hplan : ∀ f ∈ plan, ∀ s ∈ f.sets, P s)
    (h : add a plan = .ok plan') : ∀ f ∈ plan', ∀ s ∈ f.sets, P s := by
  induction plan generalizing plan' with
  | nil =>
    cases h
    exact List.forall_mem_singleton.2 (sets_ofArtifact ha)
  | cons f plan ih =>
    obtain ⟨hf, hplan⟩ := List.forall_mem_cons.1 hplan
    unfold add at h
    split at h
    · split at h
      · rename_i g hg
        cases h
        exact List.forall_mem_cons.2 ⟨sets_with? ha hf hg, hplan⟩
      · cases h
    · obtain ⟨rest, hrest, rfl⟩ := Outcome.map_eq_ok h
      exact List.forall_mem_cons.2 ⟨hf, ih hplan hrest⟩

/-- What holds of the change sets of artifacts holds of those of their plan. -/
theorem sets_addAll {artifacts : List Artifact}
    (ha : ∀ a ∈ artifacts, ∀ s, a.changeSet? = some s → P s)
    (hplan : ∀ f ∈ plan, ∀ s ∈ f.sets, P s) :
    ∀ f ∈ (addAll plan artifacts).1, ∀ s ∈ f.sets, P s := by
  induction artifacts generalizing plan with
  | nil => exact hplan
  | cons a artifacts ih =>
    rw [List.forall_mem_cons] at ha
    unfold addAll
    split
    · rename_i plan' h
      exact ih ha.2 (sets_add ha.1 hplan h)
    · exact ih ha.2 hplan

end FilePlan

/-- Whether all names in the code that is generated for a blueprint are names of the language. -/
def Blueprint.isNamed (b : Blueprint) : Bool :=
  b.artifacts.all fun a => a.changeSet?.all ChangeSet.isNamed

/-- The planned changes of a blueprint with such names are generated ones. -/
theorem lasting_plan {b : Blueprint} (hnamed : b.isNamed = true) {f : PlannedFile}
    (hf : f ∈ b.plan.1) : ∀ s ∈ f.sets, LastingSet s := by
  refine FilePlan.sets_addAll (fun a ha s hs => ?_) (fun _ h => by cases h) f hf
  have hset := List.all_eq_true.1 hnamed a ha
  rw [hs, Option.all_some] at hset
  exact b.lasting_of_mem_artifacts ha s hs hset

/-! ## Files that are rendered again -/

section Render

variable (strict : Bool) {f : PlannedFile}

/-- A planned file of generated changes is rendered to a text that it stays at when it is rendered
    against it, with the same issues. -/
theorem render_again (hclass : f.HasOneClass) (h : ∀ s ∈ f.sets, LastingSet s) :
    ∃ text issues,
      f.render ⟨.preserve, strict⟩ (.ok none) = .ok ⟨⟨f.path, text, .created⟩, issues⟩ ∧
      f.render ⟨.preserve, strict⟩ (.ok (some text)) =
        .ok ⟨⟨f.path, text, .unchanged⟩, issues⟩ := by
  cases hc : f.content with
  | verbatim text =>
    refine ⟨text, [], ?_, ?_⟩
    · simp only [PlannedFile.render, PlannedFile.newText, hc, bind, Except.bind, pure, Except.pure,
        FileStatus.ofTexts]
    · simp only [PlannedFile.render, PlannedFile.newText, hc, bind, Except.bind, pure, Except.pure,
        FileStatus.ofTexts, if_true]
  | code first others =>
    have hsame : ∀ s ∈ first :: others, first.sameClass s = true :=
      List.forall_mem_cons.2 ⟨by simp [ChangeSet.sameClass, Text.sameIgnoringCase_refl],
        hclass first others hc⟩
    have hsets : ∀ s ∈ first :: others, LastingSet s := by
      rwa [PlannedFile.sets, hc] at h
    obtain ⟨t, hread, hagain⟩ := mergeAll_again strict List.mem_cons_self hsame hsets f.path.text
    let made := mergeAll ⟨.preserve, strict⟩ .empty (first :: others)
    refine ⟨Printer.file made.tree, made.issues, ?_, ?_⟩
    · simp only [PlannedFile.render, PlannedFile.newText, hc, mergedText, bind, Except.bind, pure,
        Except.pure, FileStatus.ofTexts]
      rfl
    · rw [render_of_read hc hread hagain]
      rfl

end Render

/-! ## Reports with other files -/

namespace Fields

variable {α β : Type}

theorem has_mapValues (key : String) (f : α → β) (fs : Fields α) :
    has key (fs.mapValues f) = has key fs := by
  induction fs with
  | nil => rfl
  | cons p fs ih =>
    simp only [has, mapValues, List.map_cons, find?] at ih ⊢
    split
    · rfl
    · exact ih

theorem insert_mapValues (key : String) (value : α) (f : α → β) (fs : Fields α) :
    insert key (f value) (fs.mapValues f) = (insert key value fs).mapValues f := by
  induction fs with
  | nil => rfl
  | cons p fs ih =>
    simp only [mapValues, List.map_cons, insert] at ih ⊢
    split
    · rfl
    · rw [ih]
      rfl

end Fields

/-- The report with another file in place of each of its files. -/
def Report.mapFiles (φ : GeneratedFile → GeneratedFile) (r : Report) : Report :=
  ⟨r.files.mapValues φ, r.errors⟩

/-- A rendered file with another file in its place. -/
def RenderedFile.mapFile (φ : GeneratedFile → GeneratedFile) (r : RenderedFile) : RenderedFile :=
  ⟨φ r.file, r.issues⟩

section Reports

variable {φ : GeneratedFile → GeneratedFile}

theorem mapFiles_add (r : Report) (f : PlannedFile) (rendered : Outcome RenderedFile) :
    (r.mapFiles φ).add f (rendered.map (RenderedFile.mapFile φ)) =
      (r.add f rendered).mapFiles φ := by
  cases rendered with
  | error e => rfl
  | ok rendered =>
    have hkey : Report.keyFor (r.files.mapValues φ) f = Report.keyFor r.files f := by
      simp only [Report.keyFor, Fields.has_mapValues]
    simp only [Report.mapFiles, Report.add, Except.map, RenderedFile.mapFile, hkey,
      Fields.insert_mapValues]

/-- A report on files that are rendered as others are, up to what is in their place. -/
theorem mapFiles_ofSources {rules : MergeRules} {plan : FilePlan}
    (read read' : Path → Outcome (Option String))
    (h : ∀ f ∈ plan, f.render rules (read' f.path) =
      (f.render rules (read f.path)).map (RenderedFile.mapFile φ))
    (errors : List GenerationError) :
    Report.ofSources rules errors (plan.map fun f => (f, read' f.path)) =
      (Report.ofSources rules errors (plan.map fun f => (f, read f.path))).mapFiles φ := by
  have hfold : ∀ r : Report,
      plan.foldl (fun r f => r.add f (f.render rules (read' f.path))) (r.mapFiles φ) =
        (plan.foldl (fun r f => r.add f (f.render rules (read f.path))) r).mapFiles φ := by
    induction plan with
    | nil => exact fun r => rfl
    | cons f plan ih =>
      rw [List.forall_mem_cons] at h
      intro r
      rw [List.foldl_cons, List.foldl_cons, h.1, mapFiles_add, ih h.2]
  rw [Report.ofSources, Report.ofSources, List.foldl_map, List.foldl_map]
  exact hfold ⟨[], errors⟩

end Reports

/-! ## The second run -/

/-- A generated file, reported as unchanged. -/
def GeneratedFile.asUnchanged (g : GeneratedFile) : GeneratedFile := { g with status := .unchanged }

section SecondRun

variable {b : Blueprint}

/-- The store after a first run: what it holds in the place of a planned file is the text of that
    file. -/
theorem text_of_firstRun {f : PlannedFile} (hf : f ∈ b.plan.1) {text text' : String}
    {issues : List GenerationError} {status : FileStatus}
    (hrender : f.render b.settings.merging (.ok none) = .ok ⟨⟨f.path, text, status⟩, issues⟩)
    (h : (Project.empty.putAll ((b.generateInto .empty).files.map Prod.snd)).text? f.path =
      some text') : text' = text := by
  rcases Project.text?_putAll h with ⟨g, hg, hpath, rfl⟩ | hempty
  · obtain ⟨issues', hg⟩ := render_of_mem_filesAt hf (List.mem_filter.2 ⟨hg, hpath⟩)
    have hsame := hg.symm.trans hrender
    cases hsame
    rfl
  · cases hempty

/-- A second run can only report all files of code as unchanged if it has read them. -/
theorem ofText_of_unchanged
    (hsame : b.generateInto (Project.empty.putAll ((b.generateInto .empty).files.map Prod.snd)) =
      (b.generateInto .empty).mapFiles GeneratedFile.asUnchanged)
    (hcode : ∀ f ∈ b.plan.1, f.sets ≠ []) {entry : String × GeneratedFile}
    (hentry : entry ∈ (b.generateInto .empty).files) :
    ∃ t, SourceTree.ofText entry.2.text entry.2.path.text = .ok t := by
  have hagain : (entry.1, entry.2.asUnchanged) ∈ (b.generateInto
      (Project.empty.putAll ((b.generateInto .empty).files.map Prod.snd))).files := by
    rw [hsame]
    exact List.mem_map_of_mem hentry
  obtain ⟨s, hs, issues, hsecond⟩ := (accounts_generate b _).rendered _ _ hagain
  obtain ⟨f, hf, rfl⟩ := List.mem_map.1 hs
  have hpath : entry.2.path = f.path := path_render hsecond
  obtain ⟨issues', hfirst⟩ := render_of_mem_filesAt hf
    (List.mem_filter.2 ⟨List.mem_map_of_mem hentry, by rw [hpath]; exact Path.same_refl _⟩)
  obtain ⟨text, htext⟩ := Option.isSome_iff_exists.1
    (Project.isSome_text?_putAll (List.mem_map_of_mem hentry))
  rw [hpath] at htext
  obtain rfl : text = entry.2.text := by
    refine @text_of_firstRun b f hf _ _ issues' entry.2.status ?_ htext
    rw [← hpath]
    exact hfirst
  cases hc : f.content with
  | verbatim text => exact absurd (by rw [PlannedFile.sets, hc]) (hcode f hf)
  | code first others =>
    rw [hpath]
    cases hread : SourceTree.ofText entry.2.text f.path.text with
    | ok t => exact ⟨t, rfl⟩
    | error e =>
      simp only [htext] at hsecond
      rw [render_of_unread hc hread] at hsecond
      cases hsecond

end SecondRun

/-- A project with one event. -/
def eventNamed (name : String) : Blueprint :=
  ⟨{ Settings.standard (Naming.Autoload.empty.insert "Acme" ⟨"src"⟩) with
      merging := ⟨.preserve, false⟩ },
    ⟨[⟨"1", name, .event, none, none⟩], [], .empty⟩⟩

/-- Whether a text is a name by the rules of the language, for which every character outside ASCII
    is a letter. -/
def isLanguageName (s : String) : Bool :=
  let isLetter (c : Char) := c == '_' || c.isAlpha || 0x80 ≤ c.toNat
  match s.toList with
  | [] => false
  | c :: cs => isLetter c && cs.all fun c => isLetter c || c.isDigit

/-- The text of the class of an event whose name is a letter above U+FFFF. -/
def farEventText : String :=
  "<?php\n\nnamespace Acme\\Domain\\Model\\Event;\n\nuse EventEngine\\Data\\ImmutableRecord;\n" ++
  "use EventEngine\\Data\\ImmutableRecordLogic;\n\nfinal class 𠀀 implements ImmutableRecord\n\x7b\n" ++
  "    use ImmutableRecordLogic;\n\x7d\n"

theorem ofText_farEventText (path : String) :
    SourceTree.ofText farEventText path = .error (.invalidSyntax path) := by
  obtain ⟨hstart, hplain, hunread⟩ : farEventText.toList.head? = some '<' ∧
      farEventText.toList.all (· != '\r') = true ∧ lexemes? farEventText = none := by decide +kernel
  rw [ofText_of_tag hstart hplain, hunread]
  rfl

end DomainScaffold
