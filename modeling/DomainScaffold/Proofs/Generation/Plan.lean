import DomainScaffold.Plan
import Mathlib.Data.List.Pairwise

/-!
# Well-formed plans

A plan has one entry for each file, and all change sets of an entry are for one class.

Results:
* `wellFormed_add`: an accepted artifact keeps a plan well-formed.
* `wellFormed_plan`: the plan of a blueprint is well-formed.
-/

namespace DomainScaffold

open Merge

/-- The change sets of a planned file. -/
def PlannedFile.sets (f : PlannedFile) : List ChangeSet :=
  match f.content with
  | .code first others => first :: others
  | .verbatim _ => []

/-- Whether all change sets of a planned file are for the class of the first one. -/
def PlannedFile.HasOneClass (f : PlannedFile) : Prop :=
  ∀ first others, f.content = .code first others → ∀ s ∈ others, first.sameClass s = true

theorem PlannedFile.hasOneClass_ofArtifact (a : Artifact) : (ofArtifact a).HasOneClass := by
  intro first others h s hs
  unfold ofArtifact at h
  cases hc : a.content with
  | code set =>
    simp only [hc, PlannedContent.code.injEq] at h
    rw [← h.2] at hs
    cases hs
  | verbatim text => simp [hc] at h

theorem PlannedFile.HasOneClass.with? {f g : PlannedFile} {a : Artifact} (hf : f.HasOneClass)
    (h : f.with? a = some g) : g.HasOneClass := by
  unfold PlannedFile.with? at h
  split at h
  · rename_i first others set hcode _
    split at h
    · rename_i hsame
      cases h
      intro first' others' heq s hs
      simp only [PlannedContent.code.injEq] at heq
      obtain ⟨rfl, rfl⟩ := heq
      rcases List.mem_append.1 hs with hs | hs
      · exact hf first others hcode s hs
      · rw [List.mem_singleton] at hs
        subst hs
        simp only [Bool.and_eq_true] at hsame
        exact hsame.2
    · cases h
  · split at h
    · cases h
      exact hf
    · cases h
  · cases h

namespace FilePlan

/-- No two entries are for one file, and every entry is for one class. -/
structure WellFormed (plan : FilePlan) : Prop where
  distinct : plan.paths.Pairwise fun p q => p.same q = false
  oneClass : ∀ f ∈ plan, f.HasOneClass

theorem WellFormed.eq_of_same {plan : FilePlan} (hplan : plan.WellFormed) {f g : PlannedFile}
    (hf : f ∈ plan) (hg : g ∈ plan) (h : f.path.same g.path = true) : f = g := by
  have : Std.Symm fun f g : PlannedFile => f.path.same g.path = false :=
    ⟨fun f g h => by rwa [Path.same_comm]⟩
  by_contra hne
  have hdiffers := (List.pairwise_map.1 hplan.distinct).forall hf hg hne
  rw [h] at hdiffers
  cases hdiffers

theorem hasOneClass_add {plan plan' : FilePlan} {a : Artifact} (hplan : ∀ f ∈ plan, f.HasOneClass)
    (h : add a plan = .ok plan') : ∀ f ∈ plan', f.HasOneClass := by
  induction plan generalizing plan' with
  | nil =>
    cases h
    exact List.forall_mem_singleton.2 (PlannedFile.hasOneClass_ofArtifact a)
  | cons f plan ih =>
    obtain ⟨hf, hplan⟩ := List.forall_mem_cons.1 hplan
    unfold add at h
    split at h
    · split at h
      · rename_i g hg
        cases h
        exact List.forall_mem_cons.2 ⟨hf.with? hg, hplan⟩
      · cases h
    · obtain ⟨rest, hrest, rfl⟩ := Outcome.map_eq_ok h
      exact List.forall_mem_cons.2 ⟨hf, ih hplan hrest⟩

theorem wellFormed_add {plan plan' : FilePlan} {a : Artifact} (hplan : plan.WellFormed)
    (h : add a plan = .ok plan') : plan'.WellFormed := by
  refine ⟨?_, hasOneClass_add hplan.oneClass h⟩
  rw [paths_add h]
  split
  · exact hplan.distinct
  · rename_i hnone
    refine List.pairwise_append.2 ⟨hplan.distinct, List.pairwise_singleton _ _, ?_⟩
    intro p hp q hq
    obtain ⟨f, hf, rfl⟩ := List.mem_map.1 hp
    rw [List.mem_singleton] at hq
    subst hq
    rw [file?, Option.not_isSome_iff_eq_none, List.find?_eq_none] at hnone
    simpa using hnone f hf

theorem wellFormed_addAll {plan : FilePlan} (hplan : plan.WellFormed) (artifacts : List Artifact) :
    (addAll plan artifacts).1.WellFormed := by
  induction artifacts generalizing plan with
  | nil => exact hplan
  | cons a artifacts ih =>
    unfold addAll
    split
    · rename_i plan' h
      exact ih (wellFormed_add hplan h)
    · exact ih hplan

end FilePlan

theorem Blueprint.wellFormed_plan (b : Blueprint) : b.plan.1.WellFormed :=
  FilePlan.wellFormed_addAll ⟨.nil, fun _ hf => by cases hf⟩ b.artifacts

end DomainScaffold
