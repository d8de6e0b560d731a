import DomainScaffold.Plan
import DomainScaffold.Proofs.Merge.Run

/-!
# Which files changes are for

A change set is applied exactly if the file has its namespace and class or can still get them. That
depends on nothing but the class that the changes are for, and a file that has taken some changes of
a class takes all of them. So of the change sets for one class all are applied or none is.

Results:
* `merge_applied_iff`: when a change set is applied.
* `accepts_merge`: a file that takes the changes of a class takes more of them.
* `mergeAll_all_or_none`: change sets of one class are all applied, or none is and the file stays.
-/

namespace DomainScaffold.Merge

open Php

/-! ## Acceptance -/

/-- Whether a file has the namespace and the class that a change set is for, or can get them. -/
structure Accepts (set : ChangeSet) (t : SourceTree) : Prop where
  space : NamespaceFits set.namespaceName t.namespaceName ∨ t.namespaceName = none ∧ t.items = []
  declared : (t.classNamed? set.target.name).isSome = true ∨ t.declaredName? = none

theorem accepts_empty (set : ChangeSet) : Accepts set .empty := ⟨.inr ⟨rfl, rfl⟩, .inr rfl⟩

theorem exists_ensureNamespace {name : String} {t : SourceTree}
    (h : NamespaceFits name t.namespaceName ∨ t.namespaceName = none ∧ t.items = []) :
    ∃ e, ensureNamespace name t = .ok e ∧ e.value.items = t.items := by
  rcases h with h | ⟨hn, hi⟩
  · exact ⟨_, ensureNamespace_of_fits h, rfl⟩
  · by_cases hempty : (Text.trimBoth '\\' name).isEmpty = true
    · exact ⟨.kept t, by simp only [ensureNamespace, hn, if_pos hempty], rfl⟩
    · refine ⟨.replaced { t with namespaceName := some (Text.trimBoth '\\' name) }, ?_, rfl⟩
      simp only [ensureNamespace, hn, if_neg hempty, hi, List.isEmpty_nil, if_true]

theorem exists_ensureClass {target : ClassTarget} {t : SourceTree}
    (h : (t.classNamed? target.name).isSome = true ∨ t.declaredName? = none) :
    ∃ e, ensureClass target t = .ok e := by
  unfold ensureClass
  by_cases hc : (t.classNamed? target.name).isSome = true
  · exact ⟨.kept t, if_pos hc⟩
  · rw [if_neg hc, h.resolve_left hc]
    exact ⟨_, rfl⟩

section Merge

variable {rules : MergeRules} {set other : ChangeSet} {t : SourceTree}

theorem classNamed?_congr {t u : SourceTree} (h : t.items = u.items) (name : String) :
    t.classNamed? name = u.classNamed? name := by
  rw [SourceTree.classNamed?, SourceTree.classes, h]
  rfl

theorem merge_applied_iff : (merge rules t set).applied = true ↔ Accepts set t := by
  constructor
  · intro h
    obtain ⟨p, i, c, prepared, -, -⟩ := merge_applied h
    have hfits := prepared.fits
    refine ⟨prepared.namespaceName.imp_left fun hn => by rwa [hn] at hfits, ?_⟩
    refine prepared.items.imp (fun hi => ?_) And.left
    rw [← classNamed?_congr hi]
    exact prepared.target.classNamed?
  · intro h
    have hspace : NamespaceFits set.namespaceName (ensureStrictTypes rules t).value.namespaceName ∨
        (ensureStrictTypes rules t).value.namespaceName = none ∧
          (ensureStrictTypes rules t).value.items = [] := by
      rw [value_ensureStrictTypes]
      exact h.space
    obtain ⟨spaced, hn, hi⟩ := exists_ensureNamespace hspace
    generalize hp : withImports spaced.value (importRun set spaced.value.imports).1.value = p
    have hitems : p.items = t.items := by
      rw [← hp, withImports, hi, value_ensureStrictTypes]
    have hdeclared := h.declared
    rw [← classNamed?_congr hitems, SourceTree.declaredName?, ← hitems] at hdeclared
    obtain ⟨declared, hd⟩ := exists_ensureClass hdeclared
    rw [← hp, importRun] at hd
    simp only [merge, hn, applyChanges_imports fun _ => pass_of_mem_ofPass, Edited.map, hd]

/-- A file that takes changes of a class takes more changes of that class behind them. -/
theorem accepts_merge (rules : MergeRules) (h : Accepts set t) :
    Accepts set (merge rules t set).tree := by
  have happlied : (merge rules t set).applied = true := merge_applied_iff.2 h
  obtain ⟨p, i, c, prepared, htree, -⟩ := merge_applied happlied
  rw [htree]
  exact ⟨.inl prepared.fits, .inl (prepared.target_classRun _).classNamed?⟩

/-! ## Change sets of one class -/

theorem sameClass_comm (s u : ChangeSet) : s.sameClass u = u.sameClass s := by
  rw [ChangeSet.sameClass, ChangeSet.sameClass, Text.sameIgnoringCase_comm, Bool.beq_comm]

theorem Accepts.of_sameClass (hs : set.sameClass other = true) (h : Accepts set t) :
    Accepts other t := by
  rw [ChangeSet.sameClass, Bool.and_eq_true, beq_iff_eq] at hs
  have hname (c : ClassDecl) : Text.sameIgnoringCase c.name other.target.name =
      Text.sameIgnoringCase c.name set.target.name := by
    rw [Bool.eq_iff_iff, Text.sameIgnoringCase_iff, Text.sameIgnoringCase_iff,
      Text.sameIgnoringCase_iff.1 hs.2]
  refine ⟨h.space.imp_left ?_, ?_⟩
  · unfold NamespaceFits
    rw [hs.1]
    exact id
  · unfold SourceTree.classNamed?
    simp only [hname]
    exact h.declared

theorem accepts_iff_of_sameClass (hs : set.sameClass other = true) :
    Accepts other t ↔ Accepts set t :=
  ⟨.of_sameClass (by rwa [sameClass_comm]), .of_sameClass hs⟩

/-- Whether a change set is applied behind others. -/
def AppliedAfter (rules : MergeRules) (t : SourceTree) (before : List ChangeSet)
    (set : ChangeSet) : Prop :=
  (merge rules (mergeAll rules t before).tree set).applied = true

variable {sets before after : List ChangeSet}

theorem accepts_mergeAll (hs : ∀ s ∈ sets, set.sameClass s = true) (h : Accepts set t) :
    Accepts set (mergeAll rules t sets).tree := by
  induction sets generalizing t with
  | nil => exact h
  | cons s sets ih =>
    obtain ⟨hs, hrest⟩ := List.forall_mem_cons.1 hs
    exact ih hrest ((accepts_iff_of_sameClass hs).1 (accepts_merge rules (h.of_sameClass hs)))

theorem mergeAll_of_not_accepts (hs : ∀ s ∈ sets, set.sameClass s = true)
    (h : ¬ Accepts set t) :
    (mergeAll rules t sets).tree = t ∧ (mergeAll rules t sets).modified = false := by
  induction sets with
  | nil => exact ⟨rfl, rfl⟩
  | cons s sets ih =>
    obtain ⟨hs, hrest⟩ := List.forall_mem_cons.1 hs
    have hrejected : (merge rules t s).applied = false := by
      rw [Bool.eq_false_iff, Ne, merge_applied_iff, accepts_iff_of_sameClass hs]
      exact h
    obtain ⟨htree, hmodified⟩ := merge_rejected hrejected
    obtain ⟨htree', hmodified'⟩ := ih hrest
    simp only [mergeAll, htree, htree', hmodified, hmodified', Bool.or_self, and_self]

/-- Merges in a row are applied exactly if each of them is. -/
theorem mergeAll_applied_iff :
    (mergeAll rules t sets).applied = true ↔
      ∀ before s after, sets = before ++ s :: after → AppliedAfter rules t before s := by
  induction sets generalizing t with
  | nil => simp [mergeAll]
  | cons first sets ih =>
    rw [mergeAll, Bool.and_eq_true, ih]
    constructor
    · rintro ⟨hfirst, hrest⟩ before s after h
      cases before with
      | nil =>
        cases h
        exact hfirst
      | cons b before =>
        obtain ⟨rfl, heq⟩ := List.cons.inj h
        exact hrest before s after heq
    · intro h
      exact ⟨h [] first sets rfl,
        fun before s after heq => h (first :: before) s after (by rw [heq]; rfl)⟩

/-- Of the change sets of one class, each one is applied at its turn, or none is and the file stays
    as it was. -/
theorem mergeAll_all_or_none (hs : ∀ s ∈ sets, set.sameClass s = true) :
    (∀ before s after, sets = before ++ s :: after → AppliedAfter rules t before s) ∨
      (∀ before s after, sets = before ++ s :: after → ¬ AppliedAfter rules t before s) ∧
        (mergeAll rules t sets).tree = t ∧ (mergeAll rules t sets).modified = false := by
  by_cases h : Accepts set t
  · refine .inl fun before s after heq => ?_
    rw [heq, List.forall_mem_append, List.forall_mem_cons] at hs
    exact merge_applied_iff.2 ((accepts_mergeAll hs.1 h).of_sameClass hs.2.1)
  · refine .inr ⟨fun before s after heq => ?_, mergeAll_of_not_accepts hs h⟩
    rw [heq, List.forall_mem_append, List.forall_mem_cons] at hs
    rw [AppliedAfter, merge_applied_iff, accepts_iff_of_sameClass hs.2.1,
      (mergeAll_of_not_accepts hs.1 h).1]
    exact h

end Merge

end DomainScaffold.Merge
