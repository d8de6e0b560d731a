import DomainScaffold.Proofs.Merge.Acceptance
import DomainScaffold.Proofs.Merge.Completeness

/-!
# Merging again into a file that has grown

Under the policy that keeps, a change set that has been merged into a file finds everything there
when it is merged again, also when other change sets have been merged in between: imports stay and
only take names that were free, classes and bodies only grow. So a second run of merges over what a
first one has led to changes nothing and reports the same issues.

Results:
* `continues_merge`, `continues_mergeAll`: how merges let a file grow.
* `merge_resumed`: a change set that is merged again later.
* `mergeAll_resumed`: change sets that are merged again one after the other.
-/

namespace DomainScaffold.Merge

open Php

/-! ## Files that have grown -/

/-- Imports to which others were added one by one, each with a name that was free. -/
inductive ImportsGrown (is : List Import) : List Import → Prop where
  | refl : ImportsGrown is is
  | add {js : List Import} {j : Import} : ImportsGrown is js →
      (∀ x ∈ js, sameLocalName x j = false) → ImportsGrown is (js ++ [j])

/-- A file that another one has become: it has the same namespace once there is a class, and
    everything that the other one has. -/
structure Continues (old new : SourceTree) : Prop where
  strictTypes : old.strictTypes = true → new.strictTypes = true
  namespaceName : ∀ name c, old.classNamed? name = some c →
    new.namespaceName = old.namespaceName
  imports : ImportsGrown old.imports new.imports
  grown : TreeGrown old new

theorem ImportsGrown.trans {is js ks : List Import} (h₁ : ImportsGrown is js)
    (h₂ : ImportsGrown js ks) : ImportsGrown is ks := by
  induction h₂ with
  | refl => exact h₁
  | add _ hfree ih => exact ih.add hfree

theorem Continues.refl (t : SourceTree) : Continues t t :=
  ⟨id, fun _ _ _ => rfl, .refl, .refl t⟩

theorem Continues.trans {t u v : SourceTree} (h₁ : Continues t u) (h₂ : Continues u v) :
    Continues t v where
  strictTypes h := h₂.strictTypes (h₁.strictTypes h)
  namespaceName name c hc := by
    obtain ⟨d, hd, -⟩ := h₁.grown.classes name c hc
    exact (h₂.namespaceName name d hd).trans (h₁.namespaceName name c hc)
  imports := h₁.imports.trans h₂.imports
  grown := h₁.grown.trans h₂.grown

theorem importsGrown_importRun (set : ChangeSet) (is : List Import) :
    ImportsGrown is (importRun set is).1.value := by
  refine makeAll_induction (P := ImportsGrown is) (fun ch _ js hjs => ?_) .refl
  cases ch with
  | importName i =>
    have step := importStep set i js
    generalize importInto set (.importName i) js = o at step ⊢
    cases step with
    | needless _ => exact hjs
    | taken _ _ => exact hjs
    | added hfree => exact hjs.add hfree
  | _ => exact hjs

section Merge

variable {strict : Bool} {set : ChangeSet}

/-- A merge lets a file grow. -/
theorem continues_merge (hr : ∀ ch ∈ set.changes, OnlyRegisters ch) (t : SourceTree) :
    Continues t (merge ⟨.preserve, strict⟩ t set).tree := by
  cases happlied : (merge ⟨.preserve, strict⟩ t set).applied with
  | false =>
    rw [(merge_rejected happlied).1]
    exact .refl t
  | true =>
    obtain ⟨p, i, c, prepared, htree, -⟩ := merge_applied happlied
    have hgrown : TreeGrown t (merge ⟨.preserve, strict⟩ t set).tree := treeGrown_merge hr t
    rw [htree] at hgrown ⊢
    refine ⟨fun h => ?_, fun name d hd => ?_, importsGrown_importRun set t.imports, hgrown⟩
    · show p.strictTypes = true
      rw [prepared.strictTypes, h, Bool.true_or]
    · refine prepared.namespaceName.resolve_right ?_
      rintro ⟨-, hempty⟩
      rw [SourceTree.classNamed?, SourceTree.classes, hempty] at hd
      cases hd

theorem continues_mergeAll {sets : List ChangeSet}
    (hr : ∀ s ∈ sets, ∀ ch ∈ s.changes, OnlyRegisters ch) (t : SourceTree) :
    Continues t (mergeAll ⟨.preserve, strict⟩ t sets).tree := by
  induction sets generalizing t with
  | nil => exact .refl t
  | cons set sets ih =>
    rw [List.forall_mem_cons] at hr
    exact (continues_merge hr.1 t).trans (ih hr.2 _)

/-! ## Imports -/

/-- Imports that are made again when others have been added. -/
theorem importRun_resumed {is js : List Import}
    (h : ImportsGrown (importRun set is).1.value js) :
    importRun set js = (.kept js, (importRun set is).2) := by
  refine makeAll_resumed (fun ch _ => settled_import_self set ch)
    (fun ch _ d _ => settled_import_stays set ch d) is fun ch issue hsettled => ?_
  induction h with
  | refl => exact hsettled
  | add _ hfree ih => exact settled_import_append ih hfree

/-! ## The class -/

theorem bodyOfMethod?_eq (c : ClassDecl) (method : String) :
    bodyOfMethod? c method = (methodKind? method c.members).bind bodyOf? :=
  method?_body_eq c method

/-- Whether a class has a body for every method that a change adds something to. -/
def HasBodies (c : ClassDecl) (ch : Change) : Prop :=
  ∀ method, injectedMethod? ch = some method → (bodyOfMethod? c method).isSome = true

/-- What is met stays met when a class grows. -/
theorem Met.mono {ch : Change} {c d : ClassDecl} (hr : OnlyRegisters ch) (hbodies : HasBodies c ch)
    (h : Met .preserve ch c) (hgrow : ClassGrown c d) : Met .preserve ch d where
  interfaces := by
    cases ch with
    | interface name =>
      have hany := any_interfacesAfter_self name c.interfaces
      rw [h.interfaces] at hany
      exact interfacesAfter_of_any (hgrow.interfaces name hany)
    | _ => rfl
  has e he := by
    rw [hgrow.name] at he
    have hhas := h.has e he
    cases e with
    | declare u => exact hgrow.names u.slot hhas
    | group ds =>
      refine hhas.imp_right fun hany => ?_
      obtain ⟨m, hm, hname⟩ := List.any_eq_true.1 hany
      exact List.any_eq_true.2 ⟨m, hm, hgrow.names (.method m.name) hname⟩
    | body _ _ => trivial
  kept method f hf := by
    rw [hgrow.name] at hf
    have hp : ch.pass = .injections := by
      by_contra hp
      exact declares_of_mem hp hf
    have hmethod : injectedMethod? ch = some method := by
      cases ch <;> simp_all [memberEdits, injectedMethod?]
    obtain ⟨_, _, heq, hgrows⟩ := addsOnce_of_mem hr hp hf
    cases heq
    obtain ⟨body, hbody⟩ := Option.isSome_iff_exists.1 (hbodies method hmethod)
    obtain ⟨grown, hgrown, hbodyGrows⟩ := hgrow.bodies method body hbody
    have hkept := h.kept method f hf
    rw [bodyOfMethod?_eq] at hbody hgrown
    obtain ⟨k, hk, hkbody⟩ := Option.bind_eq_some_iff.1 hbody
    obtain ⟨m, hm, rfl⟩ := Option.map_eq_some_iff.1 hk
    rw [apply_body_eq_self_iff] at hkept ⊢
    have hsame := bodyWritten_eq_self_iff.1 (hkept m hm) body hkbody
    intro n hn
    rw [methodKind?, hn] at hgrown
    refine bodyWritten_eq_self_iff.2 fun b hb => ?_
    obtain rfl : b = grown := Option.some.inj (hb.symm.trans hgrown)
    exact hgrows.stays body b hsame hbodyGrows

/-- What a change that has a body to add to finds wrong with a class is found wrong with it when it
    has grown. -/
theorem issueOf?_grown {ch : Change} {c d : ClassDecl} (hbodies : HasBodies c ch)
    (hgrow : ClassGrown c d) : issueOf? d.name d.members ch = issueOf? c.name c.members ch := by
  have htakes : ∀ method, injectedMethod? ch = some method →
      takes? method d.members = takes? method c.members := by
    intro method hmethod
    obtain ⟨body, hbody⟩ := Option.isSome_iff_exists.1 (hbodies method hmethod)
    obtain ⟨grown, hgrown, hbodyGrows⟩ := hgrow.bodies method body hbody
    rw [bodyOfMethod?_eq, Option.bind_eq_some_iff] at hbody hgrown
    obtain ⟨k, hk, hkbody⟩ := hbody
    obtain ⟨l, hl, hlbody⟩ := hgrown
    rw [takes?_eq, takes?_eq, hk, hl, Option.map_some, Option.map_some, hkbody, hlbody,
      Option.map_some, Option.map_some, hbodyGrows.takes]
  cases ch with
  | statements method ss => simp only [issueOf?, htakes method rfl, hgrow.name]
  | mapEntry method key value => simp only [issueOf?, htakes method rfl, hgrow.name]
  | _ => rfl

/-- A run of changes that change nothing reports what is wrong with each of them. -/
theorem makeAll_issues_of_kept {changes : List Change} {c : ClassDecl}
    (h : ∀ ch ∈ changes, ∀ e, editOf .preserve ch c = .ok e → e = .kept c) :
    (makeAll (editOf .preserve) changes c).2 = changes.filterMap (issueOf? c.name c.members) := by
  induction changes with
  | nil => rfl
  | cons ch changes ih =>
    rw [List.forall_mem_cons] at h
    have hvalue : valueOr c (editOf .preserve ch c) = c := by
      cases he : editOf .preserve ch c with
      | error _ => rfl
      | ok e => rw [h.1 e he]; rfl
    rw [makeAll_issues_cons, hvalue, ih h.2, issue?_editOf, List.filterMap_cons]
    cases issueOf? c.name c.members ch <;> rfl

/-- The changes of a class that are made again when the class has grown. -/
theorem classRun_resumed (hr : ∀ ch ∈ set.changes, OnlyRegisters ch) {c d : ClassDecl}
    (hbodies : ∀ ch ∈ set.changes, HasBodies (classRun .preserve set c).1.value ch)
    (hgrow : ClassGrown (classRun .preserve set c).1.value d) :
    classRun .preserve set d = (.kept d, (classRun .preserve set c).2) := by
  have hmet : ∀ ch ∈ ordered set.changes, Met .preserve ch d := fun ch hch =>
    have hmem := mem_of_mem_ordered hch
    (met_classRun hr .preserve c hch).mono (hr ch hmem) (hbodies ch hmem) hgrow
  have hkept : ∀ ch ∈ ordered set.changes, ∀ e, editOf .preserve ch d = .ok e → e = .kept d :=
    fun ch hch _ he => editOf_kept (hmet ch hch) he
  refine Prod.ext (makeAll_kept hkept) ?_
  have hagain := classRun_again_issues hr .preserve c
  show (makeAll (editOf .preserve) (ordered set.changes) d).2 = (classRun .preserve set c).2
  rw [← hagain, makeAll_issues_of_kept hkept, classRun, makeAll_issues_of_kept
    fun ch hch _ he => editOf_kept (met_classRun hr .preserve c hch) he]
  refine List.filterMap_congr fun ch hch => ?_
  exact issueOf?_grown (hbodies ch (mem_of_mem_ordered hch)) hgrow

/-! ## Merges -/

/-- Whether the class of a change set has, in a file, a body for every method that the set adds
    something to. -/
def BodiesThere (set : ChangeSet) (t : SourceTree) : Prop :=
  ∀ c, t.classNamed? set.target.name = some c → ∀ ch ∈ set.changes, HasBodies c ch

/-- A change set that is merged again when the file has grown. -/
theorem merge_resumed {t new : SourceTree} (hr : ∀ ch ∈ set.changes, OnlyRegisters ch)
    (happlied : (merge ⟨.preserve, strict⟩ t set).applied = true)
    (hbodies : BodiesThere set (merge ⟨.preserve, strict⟩ t set).tree)
    (h : Continues (merge ⟨.preserve, strict⟩ t set).tree new) :
    merge ⟨.preserve, strict⟩ new set =
      ⟨new, (merge ⟨.preserve, strict⟩ t set).issues, true, false⟩ := by
  obtain ⟨p, i, c, prepared, htree, hissues⟩ := merge_applied happlied
  have hclass := (prepared.target_classRun (importRun set t.imports).1.value).classNamed?_eq
  rw [← htree] at hclass
  obtain ⟨d, hd, hgrow⟩ := h.grown.classes _ _ hclass
  obtain ⟨j, d', htarget⟩ : ∃ j d', IsTarget set.target.name new j d' :=
    isTarget_of_classNamed? (by rw [hd]; rfl)
  obtain rfl : d' = d := Option.some.inj (htarget.classNamed?_eq.symm.trans hd)
  have hstrict : strict = true → new.strictTypes = true := fun hs => by
    refine h.strictTypes ?_
    rw [htree]
    exact prepared.strictTypes.trans (by rw [hs, Bool.or_true])
  have hfits : NamespaceFits set.namespaceName new.namespaceName := by
    rw [h.namespaceName _ _ hclass, htree]
    exact prepared.fits
  have himports : importRun set new.imports = (.kept new.imports, (importRun set t.imports).2) := by
    refine importRun_resumed ?_
    have himports := h.imports
    rw [htree] at himports
    exact himports
  have hrun := classRun_resumed hr (hbodies _ hclass) hgrow
  have hsame : withClass (withImports new new.imports) j d' = new := withClass_self htarget
  rw [merge_of_settled hstrict hfits htarget, himports, hrun, hissues]
  simp only [Edited.kept, hsame, Bool.or_self]

/-- Change sets that are merged again, one after the other, into what they have led to. -/
theorem mergeAll_resumed {sets : List ChangeSet} {t new : SourceTree}
    (hr : ∀ s ∈ sets, ∀ ch ∈ s.changes, OnlyRegisters ch)
    (happlied : (mergeAll ⟨.preserve, strict⟩ t sets).applied = true)
    (hbodies : ∀ prior s later, sets = prior ++ s :: later →
      BodiesThere s (mergeAll ⟨.preserve, strict⟩ t (prior ++ [s])).tree)
    (h : Continues (mergeAll ⟨.preserve, strict⟩ t sets).tree new) :
    mergeAll ⟨.preserve, strict⟩ new sets =
      ⟨new, (mergeAll ⟨.preserve, strict⟩ t sets).issues, true, false⟩ := by
  induction sets generalizing t with
  | nil => rfl
  | cons set sets ih =>
    rw [List.forall_mem_cons] at hr
    obtain ⟨hfirst, hrest⟩ := Bool.and_eq_true_iff.1 happlied
    have hmerge := merge_resumed hr.1 hfirst (hbodies [] set sets rfl)
      ((continues_mergeAll hr.2 _).trans h)
    have hothers := ih hr.2 hrest (fun prior s later heq =>
      hbodies (set :: prior) s later (by rw [heq]; rfl)) h
    simp only [mergeAll, hmerge, hothers, Bool.and_self, Bool.or_self]

end Merge

end DomainScaffold.Merge
