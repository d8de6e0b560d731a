import DomainScaffold.Proofs.Merge.Run

/-!
# Changes that cannot be made

A change that cannot be made leaves an issue and nothing else: the changes behind it find the file
as if it had not been there. Which changes of a set these are is told by their places in the set,
since one of two equal changes can fail and the other one not.

Results:
* `map_snd_failing`: a run has an issue for each change that fails, in their order.
* `makeAll_filter`: a run without the changes that fail.
* `map_snd_failures`: the issues of a merge.
* `merge_withoutFailures`: a merge without the changes that fail.
-/

namespace DomainScaffold.Merge

open Php

/-! ## Changes with their places -/

/-- The changes of a pass in their order, with their places. -/
def placedOfPass (changes : List (Change × Nat)) (p : Pass) : List (Change × Nat) :=
  changes.filter fun ch => ch.1.pass == p

/-- The changes of a class in the order in which they are made, with their places. -/
def placedOrdered (changes : List (Change × Nat)) : List (Change × Nat) :=
  Pass.inClass.flatMap (placedOfPass changes)

section Placed

variable (changes : List (Change × Nat))

theorem map_fst_placedOfPass (p : Pass) :
    (placedOfPass changes p).map Prod.fst = ofPass (changes.map Prod.fst) p := by
  rw [ofPass, List.filter_map]
  rfl

theorem map_fst_placedOrdered :
    (placedOrdered changes).map Prod.fst = ordered (changes.map Prod.fst) := by
  rw [placedOrdered, List.map_flatMap, ordered]
  congr 1
  funext p
  exact map_fst_placedOfPass changes p

theorem placedOfPass_filter (q : Change × Nat → Bool) (p : Pass) :
    placedOfPass (changes.filter q) p = (placedOfPass changes p).filter q := by
  simp only [placedOfPass, List.filter_filter, Bool.and_comm]

theorem placedOrdered_filter (q : Change × Nat → Bool) :
    placedOrdered (changes.filter q) = (placedOrdered changes).filter q := by
  rw [placedOrdered, placedOrdered, List.filter_flatMap]
  congr 1
  funext p
  exact placedOfPass_filter changes q p

theorem count_placedOfPass (p : Pass) (ch : Change × Nat) :
    (placedOfPass changes p).count ch = if ch.1.pass = p then changes.count ch else 0 := by
  split
  · rename_i h
    exact List.count_filter (by simpa using h)
  · rename_i h
    refine List.count_eq_zero.2 fun hmem => h ?_
    simpa using (List.mem_filter.1 hmem).2

/-- Each change has its turn once. -/
theorem placed_perm : (placedOfPass changes .imports ++ placedOrdered changes).Perm changes := by
  rw [List.perm_iff_count]
  intro ch
  simp only [placedOrdered, Pass.inClass, List.flatMap_cons, List.flatMap_nil, List.count_append,
    List.count_nil, count_placedOfPass]
  cases ch.1.pass <;> simp

end Placed

/-! ## Runs -/

section Failing

variable {α : Type} {f : Change → α → Outcome (Edited α)}

/-- The changes in a row that cannot be made: their places and what is wrong with them. -/
def failing (f : Change → α → Outcome (Edited α)) :
    List (Change × Nat) → α → List (Nat × GenerationError)
  | [], _ => []
  | (ch, n) :: changes, a =>
    match f ch a with
    | .error e => (n, e) :: failing f changes a
    | .ok first => failing f changes first.value

theorem failing_cons_error {ch : Change} {n : Nat} {changes : List (Change × Nat)} {a : α}
    {e : GenerationError} (h : f ch a = .error e) :
    failing f ((ch, n) :: changes) a = (n, e) :: failing f changes a := by
  rw [failing, h]

theorem failing_cons_ok {ch : Change} {n : Nat} {changes : List (Change × Nat)} {a : α}
    {first : Edited α} (h : f ch a = .ok first) :
    failing f ((ch, n) :: changes) a = failing f changes first.value := by
  rw [failing, h]

/-- A run has an issue for each change that fails, in their order. -/
theorem map_snd_failing (changes : List (Change × Nat)) (a : α) :
    (failing f changes a).map Prod.snd = (makeAll f (changes.map Prod.fst) a).2 := by
  induction changes generalizing a with
  | nil => rfl
  | cons change changes ih =>
    obtain ⟨ch, n⟩ := change
    rw [List.map_cons]
    cases h : f ch a with
    | error e => rw [failing_cons_error h, makeAll_cons_error h, List.map_cons, ih]
    | ok first => rw [failing_cons_ok h, makeAll_cons_ok h, ih]

theorem failing_subset (changes : List (Change × Nat)) (a : α) :
    (failing f changes a).map Prod.fst ⊆ changes.map Prod.snd := by
  induction changes generalizing a with
  | nil => simp [failing]
  | cons change changes ih =>
    obtain ⟨ch, n⟩ := change
    rw [List.map_cons]
    cases h : f ch a with
    | error e =>
      rw [failing_cons_error h, List.map_cons]
      exact List.cons_subset_cons n (ih a)
    | ok first =>
      rw [failing_cons_ok h]
      exact List.subset_cons_of_subset n (ih first.value)

/-- A run without the changes that fail makes the same of something, and nothing fails. -/
theorem makeAll_filter {changes : List (Change × Nat)} (hnodup : (changes.map Prod.snd).Nodup)
    {a : α} (failed : Nat → Bool)
    (hfailed : ∀ ch ∈ changes, failed ch.2 = true ↔ ch.2 ∈ (failing f changes a).map Prod.fst) :
    makeAll f ((changes.filter fun ch => !failed ch.2).map Prod.fst) a =
      ((makeAll f (changes.map Prod.fst) a).1, []) := by
  induction changes generalizing a with
  | nil => rfl
  | cons change changes ih =>
    obtain ⟨ch, n⟩ := change
    rw [List.map_cons, List.nodup_cons] at hnodup
    rw [List.forall_mem_cons] at hfailed
    obtain ⟨hfirst, hrest⟩ := hfailed
    cases h : f ch a with
    | error e =>
      rw [failing_cons_error h] at hfirst hrest
      rw [List.filter_cons_of_neg (by simp [hfirst]), List.map_cons, makeAll_cons_error h]
      refine ih hnodup.2 fun d hd => (hrest d hd).trans ?_
      -- The place of the first change is not the one of a later change.
      have hne : d.2 ≠ n := fun heq => hnodup.1 (List.mem_map.2 ⟨d, hd, heq⟩)
      simp [hne]
    | ok first =>
      rw [failing_cons_ok h] at hfirst hrest
      have hmade : failed n = false := by
        rw [← Bool.not_eq_true, hfirst]
        exact fun hn => hnodup.1 (failing_subset changes first.value hn)
      rw [List.filter_cons_of_pos (by simp [hmade]), List.map_cons, List.map_cons,
        makeAll_cons_ok h, makeAll_cons_ok h, ih hnodup.2 hrest]

end Failing

/-! ## Merges -/

/-- The changes of a set that a merge does not make: their places in the set and the issues that
    they leave. -/
def failures (rules : MergeRules) (t : SourceTree) (set : ChangeSet) :
    List (Nat × GenerationError) :=
  match ensureNamespace set.namespaceName (ensureStrictTypes rules t).value with
  | .error _ => []
  | .ok spaced =>
    let imports := placedOfPass set.changes.zipIdx .imports
    let imported := (applyChanges rules.policy set (imports.map Prod.fst) spaced.value).1.value
    match ensureClass set.target imported with
    | .error _ => []
    | .ok declared =>
      failing (applyChange rules.policy set) imports spaced.value ++
        failing (applyChange rules.policy set) (placedOrdered set.changes.zipIdx) declared.value

/-- A change set without the changes that a merge does not make. -/
def withoutFailures (rules : MergeRules) (t : SourceTree) (set : ChangeSet) : ChangeSet :=
  { set with
    changes := (set.changes.zipIdx.filter fun ch =>
      !((failures rules t set).map Prod.fst).contains ch.2).map Prod.fst }

section Merge

variable {rules : MergeRules} {t : SourceTree} {set : ChangeSet} {spaced declared : Edited SourceTree}

/-- A merge that is applied has a namespace and a class to work on. -/
theorem exists_of_applied (h : (merge rules t set).applied = true) :
    ∃ spaced declared : Edited SourceTree,
      ensureNamespace set.namespaceName (ensureStrictTypes rules t).value = .ok spaced ∧
      ensureClass set.target (applyChanges rules.policy set (ofPass set.changes .imports)
        spaced.value).1.value = .ok declared := by
  unfold merge at h
  dsimp only at h
  split at h
  · cases h
  · rename_i spaced hn
    split at h
    · cases h
    · rename_i declared hd
      exact ⟨spaced, declared, hn, hd⟩

theorem merge_eq
    (hn : ensureNamespace set.namespaceName (ensureStrictTypes rules t).value = .ok spaced)
    (hd : ensureClass set.target (applyChanges rules.policy set (ofPass set.changes .imports)
      spaced.value).1.value = .ok declared) :
    merge rules t set =
      ⟨(applyChanges rules.policy set (ordered set.changes) declared.value).1.value,
        (applyChanges rules.policy set (ofPass set.changes .imports) spaced.value).2 ++
          (applyChanges rules.policy set (ordered set.changes) declared.value).2, true,
        (ensureStrictTypes rules t).changed || spaced.changed ||
          (applyChanges rules.policy set (ofPass set.changes .imports) spaced.value).1.changed ||
          declared.changed ||
          (applyChanges rules.policy set (ordered set.changes) declared.value).1.changed⟩ := by
  simp only [merge, hn, hd]

theorem failures_eq
    (hn : ensureNamespace set.namespaceName (ensureStrictTypes rules t).value = .ok spaced)
    (hd : ensureClass set.target (applyChanges rules.policy set (ofPass set.changes .imports)
      spaced.value).1.value = .ok declared) :
    failures rules t set =
      failing (applyChange rules.policy set) (placedOfPass set.changes.zipIdx .imports)
          spaced.value ++
        failing (applyChange rules.policy set) (placedOrdered set.changes.zipIdx)
          declared.value := by
  simp only [failures, hn, map_fst_placedOfPass, List.zipIdx_map_fst, hd]

/-- A merge that is applied leaves an issue for each change that it does not make. -/
theorem map_snd_failures (h : (merge rules t set).applied = true) :
    (failures rules t set).map Prod.snd = (merge rules t set).issues := by
  obtain ⟨spaced, declared, hn, hd⟩ := exists_of_applied h
  rw [failures_eq hn hd, merge_eq hn hd, List.map_append, map_snd_failing, map_snd_failing,
    map_fst_placedOfPass, map_fst_placedOrdered, List.zipIdx_map_fst, applyChanges_eq,
    applyChanges_eq]

theorem nodup_places (changes : List Change) :
    ((placedOfPass changes.zipIdx .imports ++ placedOrdered changes.zipIdx).map Prod.snd).Nodup := by
  rw [((placed_perm changes.zipIdx).map Prod.snd).nodup_iff, List.zipIdx_map_snd]
  exact List.nodup_range'

/-- A merge that is applied leaves an issue for each change that it does not make; without these
    changes it makes the same file and leaves none. -/
theorem merge_withoutFailures (h : (merge rules t set).applied = true) :
    (failures rules t set).map Prod.snd = (merge rules t set).issues ∧
      merge rules t (withoutFailures rules t set) =
        ⟨(merge rules t set).tree, [], true, (merge rules t set).modified⟩ := by
  refine ⟨map_snd_failures h, ?_⟩
  obtain ⟨spaced, declared, hn, hd⟩ := exists_of_applied h
  have hplaces := nodup_places set.changes
  rw [List.map_append, List.nodup_append] at hplaces
  obtain ⟨himports, hordered, hdisjoint⟩ := hplaces
  have hfailures := failures_eq hn hd
  have hfst := List.zipIdx_map_fst 0 set.changes
  -- Each run of the smaller set is one without the changes that fail.
  have himported : applyChanges rules.policy (withoutFailures rules t set)
      (ofPass (withoutFailures rules t set).changes .imports) spaced.value =
      ((applyChanges rules.policy set (ofPass set.changes .imports) spaced.value).1, []) := by
    have hrun := makeAll_filter (f := applyChange rules.policy set) himports (a := spaced.value)
      ((failures rules t set).map Prod.fst).contains fun ch hch => by
        rw [List.contains_iff_mem, hfailures, List.map_append, List.mem_append]
        exact or_iff_left fun hmem =>
          hdisjoint _ (List.mem_map_of_mem hch) _ (failing_subset _ _ hmem) rfl
    rw [← placedOfPass_filter, map_fst_placedOfPass, map_fst_placedOfPass, hfst] at hrun
    simp only [applyChanges_eq]
    exact hrun
  have hdone : applyChanges rules.policy (withoutFailures rules t set)
      (ordered (withoutFailures rules t set).changes) declared.value =
      ((applyChanges rules.policy set (ordered set.changes) declared.value).1, []) := by
    have hrun := makeAll_filter (f := applyChange rules.policy set) hordered (a := declared.value)
      ((failures rules t set).map Prod.fst).contains fun ch hch => by
        rw [List.contains_iff_mem, hfailures, List.map_append, List.mem_append]
        exact or_iff_right fun hmem =>
          hdisjoint _ (failing_subset _ _ hmem) _ (List.mem_map_of_mem hch) rfl
    rw [← placedOrdered_filter, map_fst_placedOrdered, map_fst_placedOrdered, hfst] at hrun
    simp only [applyChanges_eq]
    exact hrun
  have hd' : ensureClass (withoutFailures rules t set).target
      (applyChanges rules.policy (withoutFailures rules t set)
        (ofPass (withoutFailures rules t set).changes .imports) spaced.value).1.value =
      .ok declared := by
    rw [himported]
    exact hd
  have hsmaller : merge rules t (withoutFailures rules t set) = _ := merge_eq hn hd'
  rw [hsmaller, merge_eq hn hd, himported, hdone]
  rfl

end Merge

/-- A file with another `Message` and a class that returns a map. -/
def mixedFile : SourceTree :=
  { SourceTree.empty with
    namespaceName := some "Acme"
    imports := [.ofClass "Vendor\\Message"]
    items := [.classItem { ClassDecl.named "Event" with
      members := [.ofKind (.method
        ⟨[], some .pub, true, false, false, false, "classMap", [], some "array",
          some [.ofReturn (.array [])]⟩)] }] }

/-- Changes for that class. The entry can be made before the statement, which returns something
    else than an array, and not behind it. -/
def mixedSet : ChangeSet :=
  ⟨"Acme", .finalClass "Event",
    [.importName (.ofClass "Acme\\Bus\\Message"), .mapEntry "classMap" (.text "a") (.text "b"),
      .statements "classMap" [.ofReturn (.text "c"), .ofExpr (.var "d")],
      .mapEntry "classMap" (.text "a") (.text "b"), .statements "describe" [], .traitUse "Lists"]⟩

example : (failures ⟨.preserve, true⟩ mixedFile mixedSet).map Prod.fst = [0, 3, 4] := by decide +kernel

theorem merge_withoutFailures_mixedSet :
    (merge ⟨.preserve, true⟩ mixedFile mixedSet).applied = true ∧
      (failures ⟨.preserve, true⟩ mixedFile mixedSet).map Prod.snd =
        (merge ⟨.preserve, true⟩ mixedFile mixedSet).issues ∧
      merge ⟨.preserve, true⟩ mixedFile (withoutFailures ⟨.preserve, true⟩ mixedFile mixedSet) =
        ⟨(merge ⟨.preserve, true⟩ mixedFile mixedSet).tree, [], true,
          (merge ⟨.preserve, true⟩ mixedFile mixedSet).modified⟩ :=
  have h : (merge ⟨.preserve, true⟩ mixedFile mixedSet).applied = true := by decide +kernel
  ⟨h, merge_withoutFailures h⟩

end DomainScaffold.Merge
