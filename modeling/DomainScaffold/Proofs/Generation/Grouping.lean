import DomainScaffold.Proofs.Generation.Collisions
import DomainScaffold.Proofs.Occurrences

/-!
# What becomes of artifacts

A plan has one file for each path, in the order in which the paths first occur. An artifact whose
file can take it is one of the change sets of the file, or has the text of the file; any other one
is reported as a collision with the first artifact for the file. So every artifact is accounted for.

Results:
* `add_cases`: what adding an artifact does to a plan.
* `Accounts.addAll_singleton`: an artifact is accounted for when it is added.
* `ofArtifacts_accounts`: the plan and the reports account for all artifacts.
-/

namespace DomainScaffold

open Merge

/-! ## One artifact -/

namespace Artifact

/-- The change sets of a file that has only this artifact. -/
def sets (a : Artifact) : List ChangeSet := a.changeSet?.toList

theorem shares_self (a : Artifact) : a.shares a = true := by
  unfold shares
  cases a.content with
  | code set => simp [ChangeSet.sameClass, Text.sameIgnoringCase_refl]
  | verbatim text => simp

end Artifact

namespace PlannedFile

variable {f g : PlannedFile} {a : Artifact}

theorem setsOf_ofArtifact (a : Artifact) : (ofArtifact a).sets = a.sets := by
  unfold ofArtifact sets Artifact.sets Artifact.changeSet?
  cases a.content <;> rfl

/-- A file that takes an artifact has its change set behind the others. -/
theorem setsOf_with? (h : f.with? a = some g) : g.sets = f.sets ++ a.sets := by
  unfold with? at h
  split at h
  · rename_i first others set hcode hset
    split at h
    · cases h
      simp [sets, Artifact.sets, Artifact.changeSet?, hcode, hset]
    · cases h
  · rename_i text new hverbatim hnew
    split at h
    · cases h
      simp [sets, Artifact.sets, Artifact.changeSet?, hverbatim, hnew]
    · cases h
  · cases h

/-- Whether a file has the change set of an artifact, which has the name of the file and is for the
    class of its first change set. -/
def Merges (f : PlannedFile) (a : Artifact) : Prop :=
  ∃ set ∈ f.sets, a.content = .code set ∧ f.name = a.name ∧
    ∀ first others, f.content = .code first others → first.sameClass set = true

/-- Whether a file and an artifact are the same text. -/
def Repeats (f : PlannedFile) (a : Artifact) : Prop :=
  ∃ text, f.content = .verbatim text ∧ a.content = .verbatim text

theorem shares_of_merges (h : f.Merges a) : f.first.shares a = true := by
  obtain ⟨set, hset, hcontent, hname, hclass⟩ := h
  cases hf : f.content with
  | code head others => simp [first, Artifact.shares, hf, hcontent, hname, hclass _ _ hf]
  | verbatim text => simp [sets, hf] at hset

theorem shares_of_repeats (h : f.Repeats a) : f.first.shares a = true := by
  obtain ⟨text, hf, hcontent⟩ := h
  simp [first, Artifact.shares, hf, hcontent]

/-- What a file can take it merges or repeats, provided that it has the change set. -/
theorem merges_or_repeats (hshares : f.first.shares a = true)
    (hset : ∀ set, a.changeSet? = some set → set ∈ f.sets) : f.Merges a ∨ f.Repeats a := by
  unfold Artifact.shares first at hshares
  cases hf : f.content with
  | code set others =>
    cases hcontent : a.content with
    | code set' =>
      simp only [hf, hcontent, Bool.and_eq_true, beq_iff_eq] at hshares
      refine .inl ⟨set', hset set' (by rw [Artifact.changeSet?, hcontent]), hcontent, hshares.1, ?_⟩
      intro first others' heq
      rw [hf, PlannedContent.code.injEq] at heq
      rw [← heq.1]
      exact hshares.2
    | verbatim text => simp [hf, hcontent] at hshares
  | verbatim text =>
    cases hcontent : a.content with
    | code set => simp [hf, hcontent] at hshares
    | verbatim text' =>
      simp only [hf, hcontent, beq_iff_eq] at hshares
      exact .inr ⟨text, hf, by rw [hcontent, hshares]⟩

theorem shares_of_with? (h : f.with? a = some g) : f.first.shares a = true := by
  rw [← Bool.not_eq_false, ← with?_eq_none_iff, h]
  exact Option.some_ne_none g

end PlannedFile

namespace FilePlan

variable {plan plan' : FilePlan} {a : Artifact} {f : PlannedFile} {artifacts : List Artifact}
  {errors : List GenerationError}

/-- What adding an artifact does: it makes a new file, or the file for its path takes it, or the
    plan stays and the artifact is reported. -/
theorem add_cases (a : Artifact) (plan : FilePlan) :
    (plan.file? a.path = none ∧ add a plan = .ok (plan ++ [.ofArtifact a])) ∨
    ∃ before f after, plan = before ++ f :: after ∧ f.path.same a.path = true ∧
      ((∃ g, f.with? a = some g ∧ add a plan = .ok (before ++ g :: after)) ∨
        f.with? a = none ∧ add a plan = .error (f.collision a)) := by
  induction plan with
  | nil => exact .inl ⟨rfl, rfl⟩
  | cons f plan ih =>
    cases hpath : f.path.same a.path with
    | true =>
      refine .inr ⟨[], f, plan, rfl, hpath, ?_⟩
      cases hwith : f.with? a with
      | none => exact .inr ⟨rfl, by rw [add, if_pos hpath, hwith]⟩
      | some g => exact .inl ⟨g, rfl, by rw [add, if_pos hpath, hwith]; rfl⟩
    | false =>
      have hother : ¬ f.path.same a.path = true := Bool.eq_false_iff.1 hpath
      obtain ⟨hnone, hadd⟩ | ⟨before, f', after, rfl, hpath', hcase⟩ := ih
      · refine .inl ⟨?_, by rw [add, if_neg hother, hadd]; rfl⟩
        rw [file?, List.find?_cons, hpath]
        exact hnone
      · refine .inr ⟨f :: before, f', after, rfl, hpath', ?_⟩
        obtain ⟨g, hwith, hadd⟩ | ⟨hwith, hadd⟩ := hcase
        · exact .inl ⟨g, hwith, by rw [add, if_neg hother, hadd]; rfl⟩
        · exact .inr ⟨hwith, by rw [add, if_neg hother, hadd]; rfl⟩

/-! ## All artifacts -/

/-- The artifacts that go into the file that `first` was the first for. -/
def members (artifacts : List Artifact) (first : Artifact) : List Artifact :=
  artifacts.filter fun a => first.path.same a.path && first.shares a

/-- The report of an artifact that cannot go into the file for its path. -/
def refusal? (artifacts : List Artifact) (a : Artifact) : Option GenerationError :=
  (firstFor artifacts a.path).bind fun first =>
    if first.shares a then none else some (.fileCollision a.path.text first.name a.name)

/-- Whether a plan and the errors of making it account for all artifacts. -/
structure Accounts (artifacts : List Artifact) (plan : FilePlan)
    (errors : List GenerationError) : Prop where
  /-- The files are for the paths of the artifacts, each once and in the order of their first
      occurrence. -/
  paths : plan.map (fun f => f.path.components) =
    (artifacts.map fun a => a.path.components).eraseDups
  /-- A file is named and made after the first artifact for its path. -/
  first : ∀ f ∈ plan, firstFor artifacts f.path = some f.first
  /-- The change sets of a file are those of the artifacts that go into it, in order. -/
  sets : ∀ f ∈ plan, f.sets = (members artifacts f.first).filterMap Artifact.changeSet?
  /-- The errors are the reports of the artifacts that do not go into their files, in order. -/
  errors : errors = artifacts.filterMap (refusal? artifacts)

theorem members_concat_of_mem {first : Artifact} (h : first.path.same a.path = true)
    (hshares : first.shares a = true) :
    members (artifacts ++ [a]) first = members artifacts first ++ [a] := by
  rw [members, List.filter_append, List.filter_cons_of_pos (by rw [h, hshares]; rfl)]
  rfl

theorem members_concat_of_not_mem {first : Artifact}
    (h : (first.path.same a.path && first.shares a) = false) :
    members (artifacts ++ [a]) first = members artifacts first := by
  rw [members, List.filter_append, List.filter_cons_of_neg (by simp [h]), List.filter_nil,
    List.append_nil, members]

theorem members_eq_nil {first : Artifact}
    (h : ∀ a ∈ artifacts, first.path.same a.path = false) : members artifacts first = [] :=
  List.filter_eq_nil_iff.2 fun a ha => by simp [h a ha]

theorem firstFor_concat_of_some {first : Artifact} {path : Path}
    (h : firstFor artifacts path = some first) : firstFor (artifacts ++ [a]) path = some first := by
  rw [firstFor_append, h, Option.some_or]

/-- The reports of earlier artifacts do not depend on later ones. -/
theorem filterMap_refusal?_concat (artifacts : List Artifact) (a : Artifact) :
    (artifacts ++ [a]).filterMap (refusal? (artifacts ++ [a])) =
      artifacts.filterMap (refusal? artifacts) ++ (refusal? (artifacts ++ [a]) a).toList := by
  have hearlier : ∀ b ∈ artifacts, refusal? (artifacts ++ [a]) b = refusal? artifacts b := by
    intro b hb
    have hsome : (firstFor artifacts b.path).isSome = true :=
      List.find?_isSome.2 ⟨b, hb, Path.same_refl _⟩
    obtain ⟨first, hfirst⟩ := Option.isSome_iff_exists.1 hsome
    rw [refusal?, refusal?, hfirst, firstFor_concat_of_some hfirst]
  rw [List.filterMap_append, List.filterMap_congr hearlier]
  cases h : refusal? (artifacts ++ [a]) a with
  | none => rw [List.filterMap_cons_none h]; rfl
  | some e => rw [List.filterMap_cons_some h]; rfl

section Step

variable (h : Accounts artifacts plan errors)
include h

theorem Accounts.mem_iff {path : Path} : (∃ f ∈ plan, f.path.same path = true) ↔
    ∃ a ∈ artifacts, a.path.same path = true := by
  have hmem : path.components ∈ plan.map (fun f => f.path.components) ↔
      path.components ∈ artifacts.map fun a => a.path.components := by
    rw [h.paths, List.mem_eraseDups]
  simpa [Path.same_iff] using hmem

/-- Other files have other paths. -/
theorem Accounts.not_same {before after : FilePlan} (hplan : plan = before ++ f :: after)
    (hpath : f.path.same a.path = true) {g : PlannedFile} (hg : g ∈ before ∨ g ∈ after) :
    g.path.same a.path = false := by
  have hnodup : (plan.map fun f => f.path.components).Nodup := by
    rw [h.paths]
    exact nodup_eraseDups _
  rw [hplan, List.map_append, List.map_cons, List.nodup_append, List.nodup_cons] at hnodup
  obtain ⟨-, ⟨hafter, -⟩, hbefore⟩ := hnodup
  rw [Bool.eq_false_iff]
  intro hsame
  have heq : g.path.components = f.path.components :=
    (Path.same_iff.1 hsame).trans (Path.same_iff.1 hpath).symm
  obtain hg | hg := hg
  · exact hbefore _ (List.mem_map_of_mem hg) _ List.mem_cons_self heq
  · exact hafter (heq ▸ List.mem_map_of_mem hg)

/-- A file that an artifact does not go into stays as it is. -/
theorem Accounts.stays (hf : f ∈ plan)
    (hout : (f.first.path.same a.path && f.first.shares a) = false) :
    firstFor (artifacts ++ [a]) f.path = some f.first ∧
      f.sets = (members (artifacts ++ [a]) f.first).filterMap Artifact.changeSet? :=
  ⟨firstFor_concat_of_some (h.first f hf), by rw [members_concat_of_not_mem hout, h.sets f hf]⟩

/-- An artifact for a new path makes a file. -/
theorem Accounts.of_new (hnone : plan.file? a.path = none) :
    Accounts (artifacts ++ [a]) (plan ++ [.ofArtifact a]) errors := by
  have hplan : ∀ f ∈ plan, f.path.same a.path = false := fun f hf => by
    simpa using List.find?_eq_none.1 hnone f hf
  have hartifacts : ∀ b ∈ artifacts, b.path.same a.path = false := by
    intro b hb
    rw [Bool.eq_false_iff]
    intro hsame
    obtain ⟨f, hf, hpath⟩ := h.mem_iff.2 ⟨b, hb, hsame⟩
    rw [hplan f hf] at hpath
    cases hpath
  have hfirst : firstFor (artifacts ++ [a]) a.path = some a := by
    rw [firstFor_append, firstFor_cons_of_same (Path.same_refl _)]
    rw [show firstFor artifacts a.path = none from List.find?_eq_none.2 fun b hb => by
      simp [hartifacts b hb]]
    rfl
  refine ⟨?_, List.forall_mem_append.2 ⟨fun f hf => ?_, List.forall_mem_singleton.2 ?_⟩,
    List.forall_mem_append.2 ⟨fun f hf => ?_, List.forall_mem_singleton.2 ?_⟩, ?_⟩
  · rw [List.map_append, List.map_append, List.map_singleton, List.map_singleton, h.paths,
      eraseDups_concat, if_neg]
    · rfl
    · intro hmem
      obtain ⟨b, hb, hcomponents⟩ := List.mem_map.1 hmem
      have hsame := hartifacts b hb
      rw [Path.same_iff.2 hcomponents] at hsame
      cases hsame
  · exact firstFor_concat_of_some (h.first f hf)
  · rw [PlannedFile.first_ofArtifact]
    exact hfirst
  · exact (h.stays hf (by rw [show f.first.path.same a.path = false from hplan f hf]; rfl)).2
  · rw [PlannedFile.first_ofArtifact, members_concat_of_mem (Path.same_refl _) a.shares_self,
      members_eq_nil fun b hb => by rw [Path.same_comm, hartifacts b hb],
      PlannedFile.setsOf_ofArtifact, Artifact.sets]
    cases hset : a.changeSet? <;> simp [hset]
  · rw [filterMap_refusal?_concat, refusal?, hfirst, h.errors]
    simp [a.shares_self]

/-- An artifact for a path that has a file does not change the paths. -/
theorem Accounts.components_concat (hf : f ∈ plan) (hpath : f.path.same a.path = true) :
    ((artifacts ++ [a]).map fun a => a.path.components).eraseDups =
      plan.map fun f => f.path.components := by
  have hmem : a.path.components ∈ artifacts.map fun a => a.path.components := by
    rw [← List.mem_eraseDups, ← h.paths, ← Path.same_iff.1 hpath]
    exact List.mem_map_of_mem hf
  rw [List.map_append, List.map_singleton, eraseDups_concat, if_pos hmem, h.paths]

/-- An artifact that its file takes is behind what the file has. -/
theorem Accounts.of_taken {before after : FilePlan} {g : PlannedFile}
    (hplan : plan = before ++ f :: after) (hpath : f.path.same a.path = true)
    (hwith : f.with? a = some g) :
    Accounts (artifacts ++ [a]) (before ++ g :: after) errors := by
  have hf : f ∈ plan := by simp [hplan]
  have hshares : f.first.shares a = true := PlannedFile.shares_of_with? hwith
  have hstays : ∀ g' : PlannedFile, g' ∈ before ∨ g' ∈ after →
      firstFor (artifacts ++ [a]) g'.path = some g'.first ∧
        g'.sets = (members (artifacts ++ [a]) g'.first).filterMap Artifact.changeSet? := by
    intro g' hg'
    have hmem : g' ∈ plan := by
      rw [hplan, List.mem_append, List.mem_cons]
      exact hg'.imp_right .inr
    refine h.stays hmem ?_
    rw [show g'.first.path.same a.path = false from h.not_same hplan hpath hg']
    rfl
  have hfirst : firstFor (artifacts ++ [a]) f.path = some f.first :=
    firstFor_concat_of_some (h.first f hf)
  refine ⟨?_, fun g' hg' => ?_, fun g' hg' => ?_, ?_⟩
  · rw [h.components_concat hf hpath, hplan]
    simp [PlannedFile.path_with? hwith]
  · rw [List.mem_append, List.mem_cons, or_left_comm] at hg'
    obtain rfl | hg' := hg'
    · rw [PlannedFile.path_with? hwith, PlannedFile.first_with? hwith]
      exact hfirst
    · exact (hstays g' hg').1
  · rw [List.mem_append, List.mem_cons, or_left_comm] at hg'
    obtain rfl | hg' := hg'
    · rw [PlannedFile.first_with? hwith, members_concat_of_mem hpath hshares,
        PlannedFile.setsOf_with? hwith, h.sets f hf, List.filterMap_append, Artifact.sets]
      cases hset : a.changeSet? <;> simp [hset]
    · exact (hstays g' hg').2
  · have hfirst' : firstFor (artifacts ++ [a]) a.path = some f.first := by
      rw [← firstFor_congr hpath, hfirst]
    rw [filterMap_refusal?_concat, refusal?, hfirst', h.errors]
    simp [hshares]

/-- An artifact that its file does not take is reported. -/
theorem Accounts.of_refused (hf : f ∈ plan) (hpath : f.path.same a.path = true)
    (hshares : f.first.shares a = false) :
    Accounts (artifacts ++ [a]) plan (errors ++ [f.collision a]) := by
  have hstays : ∀ g ∈ plan, firstFor (artifacts ++ [a]) g.path = some g.first ∧
      g.sets = (members (artifacts ++ [a]) g.first).filterMap Artifact.changeSet? := by
    intro g hg
    refine h.stays hg ?_
    cases hsame : g.path.same a.path with
    | false => rw [show g.first.path.same a.path = false from hsame]; rfl
    | true =>
      -- The file for the path is the one that refuses the artifact.
      have hfirst := h.first g hg
      rw [firstFor_congr hsame, ← firstFor_congr hpath, h.first f hf] at hfirst
      rw [← Option.some.inj hfirst, hshares, Bool.and_false]
  refine ⟨(h.components_concat hf hpath).symm, fun g hg => (hstays g hg).1,
    fun g hg => (hstays g hg).2, ?_⟩
  have hfirst : firstFor (artifacts ++ [a]) a.path = some f.first := by
    rw [← firstFor_congr hpath, (hstays f hf).1]
  rw [filterMap_refusal?_concat, refusal?, hfirst, h.errors, Option.bind_some,
    if_neg (Bool.eq_false_iff.1 hshares)]
  rfl

/-- An artifact is accounted for when it is added. -/
theorem Accounts.addAll_singleton (a : Artifact) :
    Accounts (artifacts ++ [a]) (addAll plan [a]).1 (errors ++ (addAll plan [a]).2) := by
  obtain ⟨hnone, hadd⟩ | ⟨before, f, after, hplan, hpath, hcase⟩ := add_cases a plan
  · rw [addAll_of_ok hadd]
    simpa [addAll] using h.of_new hnone
  · obtain ⟨g, hwith, hadd⟩ | ⟨hwith, hadd⟩ := hcase
    · rw [addAll_of_ok hadd]
      simpa [addAll] using h.of_taken hplan hpath hwith
    · rw [addAll_of_error hadd]
      exact h.of_refused (by simp [hplan]) hpath (PlannedFile.with?_eq_none_iff.1 hwith)

end Step

theorem accounts_ofArtifacts (artifacts : List Artifact) :
    Accounts artifacts (ofArtifacts artifacts).1 (ofArtifacts artifacts).2 := by
  induction artifacts using List.reverseRecOn with
  | nil => exact ⟨rfl, fun f hf => (by cases hf), fun f hf => (by cases hf), rfl⟩
  | append_singleton artifacts a ih =>
    rw [ofArtifacts, addAll_append, ← ofArtifacts]
    exact ih.addAll_singleton a

/-- An artifact has a file that merges it or repeats it, or else it is reported. -/
theorem Accounts.of_mem (h : Accounts artifacts plan errors) (ha : a ∈ artifacts) :
    ∃ f ∈ plan, f.path.same a.path = true ∧
      ((f.Merges a ∨ f.Repeats a) ∧ refusal? artifacts a = none ∨
        ¬ (f.Merges a ∨ f.Repeats a) ∧ refusal? artifacts a = some (f.collision a)) := by
  obtain ⟨f, hf, hpath⟩ := h.mem_iff.2 ⟨a, ha, Path.same_refl _⟩
  refine ⟨f, hf, hpath, ?_⟩
  have hrefusal : refusal? artifacts a =
      if f.first.shares a then none else some (f.collision a) := by
    rw [refusal?, ← firstFor_congr hpath, h.first f hf]
    rfl
  cases hshares : f.first.shares a with
  | true =>
    refine .inl ⟨PlannedFile.merges_or_repeats hshares fun set hset => ?_, ?_⟩
    · rw [h.sets f hf]
      refine List.mem_filterMap.2 ⟨a, List.mem_filter.2 ⟨ha, ?_⟩, hset⟩
      rw [hshares, Bool.and_true]
      exact hpath
    · rw [hrefusal, if_pos hshares]
  | false =>
    refine .inr ⟨?_, by rw [hrefusal, if_neg (Bool.eq_false_iff.1 hshares)]⟩
    rintro (hmerges | hrepeats)
    · rw [PlannedFile.shares_of_merges hmerges] at hshares
      cases hshares
    · rw [PlannedFile.shares_of_repeats hrepeats] at hshares
      cases hshares

/-- The plan of artifacts accounts for all of them: each one is merged into the file for its path,
    or is the text of that file, or is reported once, in which case it does not change the plan. -/
theorem ofArtifacts_accounts (artifacts : List Artifact) :
    Accounts artifacts (ofArtifacts artifacts).1 (ofArtifacts artifacts).2 ∧
    (∀ a ∈ artifacts, ∃ f ∈ (ofArtifacts artifacts).1, f.path.same a.path = true ∧
      ((f.Merges a ∨ f.Repeats a) ∧ refusal? artifacts a = none ∨
        ¬ (f.Merges a ∨ f.Repeats a) ∧ refusal? artifacts a = some (f.collision a))) ∧
    ∀ a e, add a (ofArtifacts artifacts).1 = .error e →
      ofArtifacts (artifacts ++ [a]) =
        ((ofArtifacts artifacts).1, (ofArtifacts artifacts).2 ++ [e]) := by
  have accounts := accounts_ofArtifacts artifacts
  refine ⟨accounts, fun a ha => accounts.of_mem ha, fun a e hadd => ?_⟩
  rw [ofArtifacts, addAll_append, ← ofArtifacts, addAll_of_error hadd]
  rfl

example : (ofArtifacts [⟨"A", ⟨"src/x"⟩, .verbatim "1"⟩, ⟨"B", ⟨"src//x"⟩, .verbatim "1"⟩,
    ⟨"C", ⟨"src/./x"⟩, .verbatim "2"⟩]) =
      ([⟨⟨"src/x"⟩, "A", .verbatim "1"⟩], [.fileCollision "src/./x" "A" "C"]) := by
  decide +kernel

end FilePlan

end DomainScaffold
