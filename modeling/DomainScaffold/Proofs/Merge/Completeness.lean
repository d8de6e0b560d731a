import DomainScaffold.Proofs.Merge.Frame
import DomainScaffold.Proofs.Merge.Idempotence
import DomainScaffold.Proofs.Merge.Registrations

/-!
# Everything is there in the end

Under the policy that keeps, a change without an issue is fulfilled at the moment at which it is
made, and what a file has is never lost again: classes, names and imports stay, and bodies grow.
So a run of merges without issues fulfils every change of every set.

Results:
* `classGrown_editOf`, `treeGrown_applyChange`: what one step leaves there.
* `fulfilled_applyChange`: what one step brings about.
* `treeGrown_merge`, `treeGrown_mergeAll`: what merges leave there.
* `mergeAll_complete`: what merges without issues bring about.
-/

namespace DomainScaffold.Merge

open Php

/-! ## Growing files -/

/-- The body of a method of a class. -/
def bodyOfMethod? (c : ClassDecl) (method : String) : Option (List Statement) :=
  (c.method? method).bind MethodDecl.body

/-- A class that has everything that another one has. -/
structure ClassGrown (old new : ClassDecl) : Prop where
  name : new.name = old.name
  interfaces : ∀ name, implements old name = true → implements new name = true
  names : ∀ s : Slot, old.members.any s.inMember = true → new.members.any s.inMember = true
  bodies : ∀ method body, bodyOfMethod? old method = some body →
    ∃ grown, bodyOfMethod? new method = some grown ∧ Grows body grown

/-- A file that has everything that another one has. -/
structure TreeGrown (old new : SourceTree) : Prop where
  imports : ∀ i, hasImport old.imports i = true → hasImport new.imports i = true
  classes : ∀ name c, old.classNamed? name = some c →
    ∃ d, new.classNamed? name = some d ∧ ClassGrown c d

theorem ClassGrown.refl (c : ClassDecl) : ClassGrown c c :=
  ⟨rfl, fun _ => id, fun _ => id, fun _ body h => ⟨body, h, .refl body⟩⟩

theorem ClassGrown.trans {c d e : ClassDecl} (h₁ : ClassGrown c d) (h₂ : ClassGrown d e) :
    ClassGrown c e where
  name := h₂.name.trans h₁.name
  interfaces name h := h₂.interfaces name (h₁.interfaces name h)
  names s h := h₂.names s (h₁.names s h)
  bodies method body h := by
    obtain ⟨mid, hmid, hgrow⟩ := h₁.bodies method body h
    obtain ⟨new, hnew, hgrow'⟩ := h₂.bodies method mid hmid
    exact ⟨new, hnew, hgrow.trans hgrow'⟩

theorem TreeGrown.refl (t : SourceTree) : TreeGrown t t :=
  ⟨fun _ => id, fun _ c h => ⟨c, h, .refl c⟩⟩

theorem TreeGrown.trans {t u v : SourceTree} (h₁ : TreeGrown t u) (h₂ : TreeGrown u v) :
    TreeGrown t v where
  imports i h := h₂.imports i (h₁.imports i h)
  classes name c h := by
    obtain ⟨d, hd, hgrow⟩ := h₁.classes name c h
    obtain ⟨e, he, hgrow'⟩ := h₂.classes name d hd
    exact ⟨e, he, hgrow.trans hgrow'⟩

/-! ## Steps in a class -/

section Class

variable {ch : Change} {c : ClassDecl}

/-- Under the policy that keeps, an edit leaves a method as it is or lets its body grow. -/
theorem feeds_of_preserve {className : String} (hr : OnlyRegisters ch) {e : MemberEdit}
    (he : e ∈ memberEdits className .preserve ch) (name : String) : Feeds name (kindStep e) := by
  cases e with
  | declare u =>
    rcases write_eq_id_or he with hid | ⟨hp, -⟩
    · refine feeds_of_id fun k _ => ?_
      simp only [kindStep, MemberEdit.target?, MemberEdit.write, hid, id, ite_self]
    · cases hp
  | group ds => exact feeds_of_id fun _ _ => rfl
  | body method f =>
    have hp : ch.pass = .injections := by
      by_contra hp
      exact declares_of_mem hp he
    exact (addsOnce_of_mem hr hp he).feeds name

/-- What a class has stays there. -/
theorem classGrown_editOf (hr : OnlyRegisters ch) (c : ClassDecl) :
    ClassGrown c (valueOr c (editOf .preserve ch c)) := by
  rw [editOf_value]
  refine ⟨rfl, fun name h => any_interfacesAfter h ch, fun s h => any_makeEdits _ h,
    fun method body h => ?_⟩
  rw [bodyOfMethod?, method?_body_eq] at h ⊢
  obtain ⟨k, hk, hbody⟩ := Option.bind_eq_some_iff.1 h
  obtain ⟨f, hf, hfeed⟩ := feeds_kindSteps fun e he => feeds_of_preserve hr he method
  refine ⟨f body, ?_, hf.grows body⟩
  rw [methodKind?_makeEdits_of_some hk, Option.bind_some, hfeed k (isMethod_of_methodKind? hk),
    bodyOf?_bodyWritten, hbody, Option.map_some]

/-- What a change of a class asks of it; methods of a group may also have been there before. -/
def FulfilledIn (before after : ClassDecl) : Change → Prop
  | .importName _ => True
  | .interface name => implements after name = true
  | .traitUse name => usesTrait after name = true
  | .constant decl => ∀ e ∈ decl.entries, (constantPlace? after e.1).isSome = true
  | .property decl => ∀ e ∈ decl.entries, (propertyPlace? after e.1).isSome = true
  | .method d => (methodPlace? after d.name).isSome = true
  | .methodGroup ds => (∀ d ∈ ds, (methodPlace? after d.name).isSome = true) ∨
      ∃ d ∈ ds, (methodPlace? before d.name).isSome = true
  | .statements method ss => ∃ body, bodyOfMethod? after method = some body ∧
      ∀ s ∈ ss, isPresent body s = true
  | .mapEntry method key _ => ∃ body, bodyOfMethod? after method = some body ∧ Keyed key body

theorem isSome_constantPlace? (c : ClassDecl) (name : String) :
    (constantPlace? c name).isSome = c.members.any (Slot.constant name).inMember := by
  rw [← constantNames_contains_eq]
  cases h : constantPlace? c name with
  | none => exact (placeOf?_eq_none h).symm
  | some place => exact (any_of_findIdx? (placeOf?_eq_some h).1).symm

theorem isSome_propertyPlace? (c : ClassDecl) (name : String) :
    (propertyPlace? c name).isSome = c.members.any (Slot.property name).inMember := by
  rw [← propertyNames_contains_eq]
  cases h : propertyPlace? c name with
  | none => exact (placeOf?_eq_none h).symm
  | some place => exact (any_of_findIdx? (placeOf?_eq_some h).1).symm

theorem FulfilledIn.mono {before mid after : ClassDecl} (hr : OnlyRegisters ch)
    (h : FulfilledIn before mid ch) (hgrow : ClassGrown mid after) :
    FulfilledIn before after ch := by
  cases ch with
  | importName _ => trivial
  | interface name => exact hgrow.interfaces name h
  | traitUse name =>
    simp only [FulfilledIn, usesTrait_eq] at h ⊢
    exact hgrow.names _ h
  | constant decl =>
    simp only [FulfilledIn, isSome_constantPlace?] at h ⊢
    exact fun e he => hgrow.names _ (h e he)
  | property decl =>
    simp only [FulfilledIn, isSome_propertyPlace?] at h ⊢
    exact fun e he => hgrow.names _ (h e he)
  | method d =>
    simp only [FulfilledIn, isSome_methodPlace?] at h ⊢
    exact hgrow.names _ h
  | methodGroup ds =>
    simp only [FulfilledIn, isSome_methodPlace?] at h ⊢
    exact h.imp_left fun hall d hd => hgrow.names _ (hall d hd)
  | statements method ss =>
    obtain ⟨body, hbody, hss⟩ := h
    obtain ⟨grown, hgrown, hgrows⟩ := hgrow.bodies method body hbody
    exact ⟨grown, hgrown, fun s hs => hgrows.present (hr s hs) (hss s hs)⟩
  | mapEntry method key value =>
    obtain ⟨body, hbody, hkey⟩ := h
    obtain ⟨grown, hgrown, hgrows⟩ := hgrow.bodies method body hbody
    exact ⟨grown, hgrown, hgrows.key key hkey⟩

/-- An injection without an issue finds its method with a body. -/
theorem bodyOfMethod?_body_apply {method : String} {f : List Statement → List Statement}
    {ms : List Member} {k : MemberKind} {body : List Statement}
    (hk : methodKind? method ms = some k) (hbody : bodyOf? k = some body) :
    (methodKind? method ((MemberEdit.body method f).apply ms)).bind bodyOf? = some (f body) := by
  rw [methodKind?_apply hk, Option.bind_some,
    kindStep_of_fits (e := .body method f) rfl (isMethod_of_methodKind? hk), MemberEdit.write,
    bodyOf?_bodyWritten, hbody, Option.map_some]

theorem body_of_takes? {method : String} {ms : List Member} {takes : Bool}
    (h : takes? method ms = some (some takes)) :
    ∃ k body, methodKind? method ms = some k ∧ bodyOf? k = some body ∧
      takesEntries body = takes := by
  rw [takes?_eq] at h
  obtain ⟨k, hk, h⟩ := Option.map_eq_some_iff.1 h
  obtain ⟨body, hbody, h⟩ := Option.map_eq_some_iff.1 h
  exact ⟨k, body, hk, hbody, h⟩

/-- A change without an issue is fulfilled. -/
theorem fulfilledIn_editOf (hr : OnlyRegisters ch) {e : Edited ClassDecl}
    (h : editOf .preserve ch c = .ok e) : FulfilledIn c e.value ch := by
  have hvalue : e.value = valueOr c (editOf .preserve ch c) := by rw [h]; rfl
  have hissue : issueOf? c.name c.members ch = none := by rw [← issue?_editOf .preserve, h]; rfl
  rw [hvalue, editOf_value]
  have has : ∀ d ∈ memberEdits c.name .preserve ch,
      Has d (makeEdits (memberEdits c.name .preserve ch) c.members) := fun d hd =>
    has_makeEdits_self hd c.members
  cases ch with
  | importName _ => trivial
  | interface name => exact any_interfacesAfter_self name c.interfaces
  | traitUse name =>
    rw [FulfilledIn, usesTrait_eq]
    exact has (.declare (.ofTrait name)) (by simp [memberEdits])
  | constant decl =>
    simp only [FulfilledIn, isSome_constantPlace?]
    exact fun e he => has (.declare (.ofConstant .preserve decl e)) (List.mem_map.2 ⟨e, he, rfl⟩)
  | property decl =>
    simp only [FulfilledIn, isSome_propertyPlace?]
    exact fun e he => has (.declare (.ofProperty .preserve decl e)) (List.mem_map.2 ⟨e, he, rfl⟩)
  | method d =>
    rw [FulfilledIn, isSome_methodPlace?]
    exact has (.declare (.ofMethod .preserve d)) (by simp [memberEdits])
  | methodGroup ds =>
    simp only [FulfilledIn, isSome_methodPlace?, memberEdits, makeEdits_singleton, MemberEdit.apply]
    split
    · rename_i hany
      obtain ⟨d, hd, hfound⟩ := List.any_eq_true.1 hany
      exact .inr ⟨d, hd, hfound⟩
    · refine .inl fun d hd => List.any_eq_true.2 ⟨.ofKind (.method d), ?_, ?_⟩
      · exact List.mem_append_right _ (List.mem_map.2 ⟨d, hd, rfl⟩)
      · simp [Slot.inMember, Member.ofKind, outlineOf, Slot.fits]
  | statements method ss =>
    obtain ⟨takes, ht⟩ : ∃ takes, takes? method c.members = some (some takes) := by
      simp only [issueOf?] at hissue
      split at hissue
      · exact ⟨_, ‹_›⟩
      · cases hissue
    obtain ⟨k, body, hk, hbody, -⟩ := body_of_takes? ht
    refine ⟨_, ?_, fun s hs => present_foldl_injected (hr s hs) hs body⟩
    rw [bodyOfMethod?, method?_body_eq, memberEdits, makeEdits_singleton,
      bodyOfMethod?_body_apply hk hbody, afterEdit_foldl_injected]
  | mapEntry method key value =>
    have ht : takes? method c.members = some (some true) := by
      simp only [issueOf?] at hissue
      split at hissue
      · cases hissue
      · assumption
      · cases hissue
    obtain ⟨k, body, hk, hbody, htakes⟩ := body_of_takes? ht
    refine ⟨_, ?_, (keyed_or_not_takes (.classMapNotFound c.name method) key value body).resolve_right
      fun hnot => ?_⟩
    · rw [bodyOfMethod?, method?_body_eq, memberEdits, makeEdits_singleton,
        bodyOfMethod?_body_apply hk hbody]
    · rw [(grows_injectEntry _ key value body).takes, htakes] at hnot
      cases hnot

end Class

/-! ## Steps in a file -/

section File

variable {set : ChangeSet} {ch : Change} {t : SourceTree}

/-- In a file with another class of the same name in one place, a class in another place is still
    the one with its name. -/
theorem isTarget_withClass_of_ne {name other : String} {i j : Nat} {c d e : ClassDecl}
    (hc : IsTarget name t i c) (hd : d.name = c.name) (he : IsTarget other t j e) (hij : i ≠ j) :
    IsTarget other (withClass t i d) j e := by
  obtain ⟨hlt, hfit, hmin⟩ := List.findIdx?_eq_some_iff_getElem.1 he.1
  refine ⟨List.findIdx?_eq_some_iff_getElem.2 ⟨by simpa [withClass] using hlt, ?_, fun k hk => ?_⟩,
    by simp [withClass, hij, he.2]⟩
  · simpa [withClass, List.getElem_set, hij] using hfit
  · by_cases hik : i = k
    · subst hik
      have hi := hmin i hk
      obtain ⟨_, hget⟩ := List.getElem?_eq_some_iff.1 hc.2
      rw [hget] at hi
      simpa [withClass, isClassNamed, Item.class?, hd] using hi
    · simpa [withClass, List.getElem_set, hik] using hmin k hk

/-- A file in which one class has grown has grown. -/
theorem treeGrown_withClass {name : String} {i : Nat} {c d : ClassDecl}
    (hc : IsTarget name t i c) (hd : ClassGrown c d) : TreeGrown t (withClass t i d) where
  imports _ h := h
  classes other e he := by
    have hsome : (t.classNamed? other).isSome = true := by rw [he]; rfl
    obtain ⟨j, e', he'⟩ := isTarget_of_classNamed? hsome
    obtain rfl : e' = e := by
      rw [he'.classNamed?_eq, Option.some.injEq] at he
      exact he
    by_cases hij : i = j
    · subst hij
      obtain rfl : e' = c := by
        have := hc.2.symm.trans he'.2
        simpa using this.symm
      exact ⟨d, (isTarget_withClass he' hd.name).classNamed?_eq, hd⟩
    · exact ⟨e', (isTarget_withClass_of_ne hc hd.name he' hij).classNamed?_eq, .refl e'⟩

theorem treeGrown_of_items {u : SourceTree} (hi : u.imports = t.imports)
    (hs : ∃ more, u.items = t.items ++ more) : TreeGrown t u where
  imports i h := by rwa [hi]
  classes name c h := by
    obtain ⟨more, hs⟩ := hs
    refine ⟨c, ?_, .refl c⟩
    rw [SourceTree.classNamed?, SourceTree.classes] at h ⊢
    rw [hs, List.filterMap_append, List.find?_append, h]
    rfl

theorem hasImport_append {is : List Import} {i : Import} (h : hasImport is i = true)
    (more : List Import) : hasImport (is ++ more) i = true := by
  rw [hasImport, List.any_append, ← hasImport, h, Bool.true_or]

/-- What a file has stays there. -/
theorem treeGrown_applyChange (hr : OnlyRegisters ch) (t : SourceTree) :
    TreeGrown t (valueOr t (applyChange .preserve set ch t)) := by
  by_cases hp : ch.pass = .imports
  · cases ch with
    | importName i =>
      rw [applyChange_importName]
      have step := importStep set i t.imports
      generalize importInto set (.importName i) t.imports = o at step
      cases step with
      | needless _ => exact .refl t
      | taken _ _ => exact .refl t
      | added _ => exact ⟨fun _ h => hasImport_append h [i], fun _ c h => ⟨c, h, .refl c⟩⟩
    | _ => cases hp
  · rw [applyChange_inClass hp]
    rcases valueOr_editClass set.target.name (editOf .preserve ch) t with heq | ⟨i, c, hc, heq⟩
    · rw [heq]
      exact .refl t
    · rw [heq]
      exact treeGrown_withClass hc (classGrown_editOf hr c)

/-- What a change asks of a file. -/
def Fulfilled (set : ChangeSet) (before after : SourceTree) : Change → Prop
  | .importName i => isOwnImport set i = true ∨ hasImport after.imports i = true
  | ch => ∃ c d, before.classNamed? set.target.name = some c ∧
      after.classNamed? set.target.name = some d ∧ FulfilledIn c d ch

theorem fulfilled_iff_of_inClass (hp : ch.pass ≠ .imports) {before after : SourceTree} :
    Fulfilled set before after ch ↔ ∃ c d, before.classNamed? set.target.name = some c ∧
      after.classNamed? set.target.name = some d ∧ FulfilledIn c d ch := by
  cases ch with
  | importName i => exact absurd rfl hp
  | _ => exact Iff.rfl

theorem Fulfilled.mono {before mid after : SourceTree} (hr : OnlyRegisters ch)
    (h : Fulfilled set before mid ch) (hgrow : TreeGrown mid after) :
    Fulfilled set before after ch := by
  by_cases hp : ch.pass = .imports
  · cases ch with
    | importName i => exact h.imp_right (hgrow.imports i)
    | _ => cases hp
  · rw [fulfilled_iff_of_inClass hp] at h ⊢
    obtain ⟨c, d, hc, hd, hful⟩ := h
    obtain ⟨e, he, hde⟩ := hgrow.classes _ d hd
    exact ⟨c, e, hc, he, hful.mono hr hde⟩

/-- A change without an issue is fulfilled in the file. -/
theorem fulfilled_applyChange (hr : OnlyRegisters ch) {e : Edited SourceTree}
    (h : applyChange .preserve set ch t = .ok e) : Fulfilled set t e.value ch := by
  by_cases hp : ch.pass = .imports
  · cases ch with
    | importName i =>
      rw [applyChange_importName] at h
      have step := importStep set i t.imports
      generalize importInto set (.importName i) t.imports = o at step h
      cases step with
      | needless hneed =>
        cases h
        rwa [Bool.or_eq_true] at hneed
      | taken _ _ => cases h
      | added _ =>
        cases h
        exact .inr (by simp [Edited.map, withImports, Edited.replaced, hasImport, sameLocalName,
          Text.sameIgnoringCase_refl])
    | _ => cases hp
  · rw [fulfilled_iff_of_inClass hp]
    rw [applyChange_inClass hp] at h
    cases hi : t.items.findIdx? (isClassNamed set.target.name) with
    | none =>
      rw [editClass, hi] at h
      cases h
    | some i =>
      obtain ⟨c, hc⟩ := isTarget_of_findIdx? hi
      rw [editClass_of_target hc] at h
      obtain ⟨e', he', rfl⟩ := Outcome.map_eq_ok h
      refine ⟨c, e'.value, hc.classNamed?_eq, ?_, fulfilledIn_editOf hr he'⟩
      have hname : e'.value.name = c.name := by
        have := congrArg ClassDecl.name (editOf_value .preserve ch c)
        rwa [he'] at this
      exact (isTarget_withClass hc hname).classNamed?_eq

/-! ## Runs -/

theorem treeGrown_run {changes : List Change} (hr : ∀ ch ∈ changes, OnlyRegisters ch)
    (t : SourceTree) : TreeGrown t (makeAll (applyChange .preserve set) changes t).1.value :=
  makeAll_induction (P := TreeGrown t)
    (fun ch hch u hu => hu.trans (treeGrown_applyChange (hr ch hch) u)) (.refl t)

/-- In a run without issues, a change is fulfilled from where it is made to the end. -/
theorem fulfilled_run {made rest : List Change}
    (hr : ∀ d ∈ made ++ ch :: rest, OnlyRegisters d)
    (h : (makeAll (applyChange .preserve set) (made ++ ch :: rest) t).2 = []) :
    Fulfilled set (makeAll (applyChange .preserve set) made t).1.value
      (makeAll (applyChange .preserve set) (made ++ ch :: rest) t).1.value ch := by
  rw [makeAll_append] at h ⊢
  dsimp only at h ⊢
  generalize (makeAll (applyChange .preserve set) made t).1.value = mid at h ⊢
  have hstep := (List.append_eq_nil_iff.1 h).2
  rw [makeAll_issues_cons] at hstep
  cases ho : applyChange .preserve set ch mid with
  | error e =>
    rw [ho] at hstep
    cases hstep
  | ok e =>
    rw [makeAll_cons_ok ho]
    have hch : OnlyRegisters ch := hr ch (by simp)
    exact (fulfilled_applyChange hch ho).mono hch
      (treeGrown_run (fun d hd => hr d (by simp [hd])) e.value)

theorem treeGrown_ensureClass (target : ClassTarget) (t : SourceTree) :
    TreeGrown t (valueOr t (ensureClass target t)) := by
  cases ho : ensureClass target t with
  | error e => exact .refl t
  | ok e =>
    rw [valueOr]
    rcases ensureClass_ok ho with ⟨hv, -⟩ | ⟨-, hv⟩
    · rw [hv]
      exact .refl t
    · rw [hv]
      exact treeGrown_of_items rfl ⟨_, rfl⟩

/-- Merging leaves there what a file has. -/
theorem treeGrown_merge {strict : Bool} (hr : ∀ ch ∈ set.changes, OnlyRegisters ch)
    (t : SourceTree) : TreeGrown t (merge ⟨.preserve, strict⟩ t set).tree := by
  refine merge_induction (P := TreeGrown t) (fun u hu => hu.trans ?_) (fun u hu => hu.trans ?_)
    (fun u hu => hu.trans (treeGrown_ensureClass set.target u))
    (fun ch hch u hu => hu.trans (treeGrown_applyChange (hr ch hch) u)) (.refl t)
  · rw [value_ensureStrictTypes]
    exact treeGrown_of_items rfl ⟨[], (List.append_nil _).symm⟩
  · cases ho : ensureNamespace set.namespaceName u with
    | error e => exact .refl u
    | ok e =>
      obtain ⟨found, hv, -, -⟩ := ensureNamespace_ok ho
      rw [valueOr, hv]
      exact treeGrown_of_items rfl ⟨[], (List.append_nil _).symm⟩

theorem treeGrown_mergeAll {strict : Bool} {sets : List ChangeSet}
    (hr : ∀ set ∈ sets, ∀ ch ∈ set.changes, OnlyRegisters ch) (t : SourceTree) :
    TreeGrown t (mergeAll ⟨.preserve, strict⟩ t sets).tree := by
  induction sets generalizing t with
  | nil => exact .refl t
  | cons set sets ih =>
    exact (treeGrown_merge (hr set (by simp)) t).trans
      (ih (fun s hs => hr s (List.mem_cons_of_mem _ hs)) _)

end File

/-! ## The order of changes -/

/-- The changes of a set in the order in which a merge makes them. -/
def madeInOrder (changes : List Change) : List Change :=
  ofPass changes .imports ++ ordered changes

/-- The place of a pass among all passes. -/
def Pass.rank (p : Pass) : Nat := (Pass.imports :: Pass.inClass).idxOf p

theorem passes_sorted : (Pass.imports :: Pass.inClass).Pairwise fun p q => p.rank < q.rank := by
  decide

theorem mem_passes (p : Pass) : p ∈ Pass.imports :: Pass.inClass := by
  cases p <;> decide

/-- Changes whose passes come one after the other. -/
def InOrder (changes : List Change) : Prop :=
  changes.Pairwise fun a b => a.pass.rank ≤ b.pass.rank

theorem inOrder_madeInOrder (changes : List Change) : InOrder (madeInOrder changes) := by
  show ((Pass.imports :: Pass.inClass).flatMap (ofPass changes)).Pairwise _
  refine List.pairwise_flatMap.2 ⟨fun p _ => ?_, passes_sorted.imp fun hpq a ha b hb => ?_⟩
  · refine List.Pairwise.imp_of_mem (R := fun _ _ => True) (fun ha hb _ => ?_)
      (List.pairwise_of_forall fun _ _ => trivial)
    exact (pass_of_mem_ofPass ha ▸ pass_of_mem_ofPass hb ▸ Nat.le_refl _)
  · rw [pass_of_mem_ofPass ha, pass_of_mem_ofPass hb]
    exact Nat.le_of_lt hpq

theorem ofPass_cons_of_ne {a : Change} {p : Pass} (h : a.pass ≠ p) (changes : List Change) :
    ofPass (a :: changes) p = ofPass changes p :=
  List.filter_cons_of_neg (by simpa using h)

/-- Changes that are in order are made in that order. -/
theorem madeInOrder_of_inOrder {changes : List Change} (h : InOrder changes) :
    madeInOrder changes = changes := by
  induction changes with
  | nil => rfl
  | cons a changes ih =>
    obtain ⟨hfirst, hrest⟩ := List.pairwise_cons.1 h
    obtain ⟨before, after, hpasses⟩ := List.append_of_mem (mem_passes a.pass)
    have hsorted := passes_sorted
    rw [hpasses, List.pairwise_append, List.pairwise_cons] at hsorted
    have hbefore : ∀ p ∈ before, p.rank < a.pass.rank := fun p hp =>
      hsorted.2.2 p hp a.pass (by simp)
    -- No change is made in a pass before that of the first one.
    have hnone : before.flatMap (ofPass changes) = [] :=
      List.flatMap_eq_nil_iff.2 fun p hp => List.filter_eq_nil_iff.2 fun b hb hbp => by
        have := hfirst b hb
        rw [beq_iff_eq.1 hbp] at this
        exact absurd (hbefore p hp) (by omega)
    have hsame : before.flatMap (ofPass (a :: changes)) = before.flatMap (ofPass changes) :=
      List.flatMap_congr fun p hp => ofPass_cons_of_ne
        (fun hap => by have := hbefore p hp; rw [hap] at this; omega) changes
    have hlater : after.flatMap (ofPass (a :: changes)) = after.flatMap (ofPass changes) :=
      List.flatMap_congr fun p hp => ofPass_cons_of_ne
        (fun hap => by have := hsorted.2.1.1 p hp; rw [hap] at this; omega) changes
    have hown : ofPass (a :: changes) a.pass = a :: ofPass changes a.pass :=
      List.filter_cons_of_pos (by simp)
    have ih : (Pass.imports :: Pass.inClass).flatMap (ofPass changes) = changes := ih hrest
    show (Pass.imports :: Pass.inClass).flatMap (ofPass (a :: changes)) = a :: changes
    rw [hpasses, List.flatMap_append, List.flatMap_cons] at ih ⊢
    rw [hsame, hnone, hown, hlater]
    rw [hnone] at ih
    exact congrArg (a :: ·) ih

/-- What is made first is made in the same order if there is nothing else to be made. -/
theorem madeInOrder_of_prefix {changes made rest : List Change}
    (h : madeInOrder changes = made ++ rest) : madeInOrder made = made :=
  madeInOrder_of_inOrder ((h ▸ inOrder_madeInOrder changes).sublist (List.sublist_append_left _ _))

/-! ## Merges -/

section Merges

variable {strict : Bool} {set : ChangeSet} {t : SourceTree} {made rest : List Change} {ch : Change}

/-- The steps of a merge that is applied. -/
theorem merge_steps {rules : MergeRules} (h : (merge rules t set).applied = true) :
    ∃ spaced declared,
      ensureNamespace set.namespaceName (ensureStrictTypes rules t).value = .ok spaced ∧
      ensureClass set.target (makeAll (applyChange rules.policy set)
        (ofPass set.changes .imports) spaced.value).1.value = .ok declared := by
  unfold merge at h
  cases hn : ensureNamespace set.namespaceName (ensureStrictTypes rules t).value with
  | error e => simp only [hn] at h; cases h
  | ok spaced =>
    simp only [hn, applyChanges_eq] at h
    cases hd : ensureClass set.target (makeAll (applyChange rules.policy set)
        (ofPass set.changes .imports) spaced.value).1.value with
    | error e => simp only [hd] at h; cases h
    | ok declared => exact ⟨spaced, declared, rfl, hd⟩

/-- What the steps of a merge lead to. -/
theorem merge_of_steps {rules : MergeRules} {spaced declared : Edited SourceTree}
    (hn : ensureNamespace set.namespaceName (ensureStrictTypes rules t).value = .ok spaced)
    (hd : ensureClass set.target (makeAll (applyChange rules.policy set)
        (ofPass set.changes .imports) spaced.value).1.value = .ok declared) :
    (merge rules t set).tree =
        (makeAll (applyChange rules.policy set) (ordered set.changes) declared.value).1.value ∧
      (merge rules t set).issues =
        (makeAll (applyChange rules.policy set) (ofPass set.changes .imports) spaced.value).2 ++
          (makeAll (applyChange rules.policy set) (ordered set.changes) declared.value).2 := by
  simp only [merge, hn, applyChanges_eq, hd, and_self]

theorem applyChange_congr {policy : MergePolicy} {other : ChangeSet}
    (hn : other.namespaceName = set.namespaceName) (ht : other.target = set.target) :
    applyChange policy other = applyChange policy set := by
  funext ch t
  cases ch <;> simp only [applyChange, ensureImport, hn, ht]

/-- The file right before a change of the class, as a merge of the changes before it. -/
theorem merge_made {rules : MergeRules} {spaced declared : Edited SourceTree}
    (hn : ensureNamespace set.namespaceName (ensureStrictTypes rules t).value = .ok spaced)
    (hd : ensureClass set.target (makeAll (applyChange rules.policy set)
        (ofPass set.changes .imports) spaced.value).1.value = .ok declared)
    (hsplit : ordered set.changes = made ++ rest) :
    (merge rules t { set with changes := ofPass set.changes .imports ++ made }).tree =
      (makeAll (applyChange rules.policy set) made declared.value).1.value := by
  generalize hother : { set with changes := ofPass set.changes .imports ++ made } = other
  have hsteps : applyChange rules.policy other = applyChange rules.policy set :=
    applyChange_congr (by rw [← hother]) (by rw [← hother])
  have hinOrder : madeInOrder other.changes = other.changes := by
    rw [← hother]
    have hmade : madeInOrder set.changes = (ofPass set.changes .imports ++ made) ++ rest := by
      rw [madeInOrder, hsplit, List.append_assoc]
    exact madeInOrder_of_prefix hmade
  have hnone : ofPass made .imports = [] := List.filter_eq_nil_iff.2 fun ch hch himport =>
    pass_ne_imports_of_mem_ordered (hsplit ▸ List.mem_append_left _ hch : ch ∈ ordered set.changes)
      (beq_iff_eq.1 himport)
  have himports : ofPass other.changes .imports = ofPass set.changes .imports := by
    rw [← hother, ofPass, List.filter_append, ← ofPass, ← ofPass, hnone, ofPass, ofPass,
      List.filter_filter]
    simp
  have hordered : ordered other.changes = made := by
    rw [madeInOrder, himports] at hinOrder
    rw [← hother] at hinOrder ⊢
    exact List.append_cancel_left hinOrder
  have hn' : ensureNamespace other.namespaceName (ensureStrictTypes rules t).value = .ok spaced := by
    rw [← hother]
    exact hn
  have hd' : ensureClass other.target (makeAll (applyChange rules.policy other)
      (ofPass other.changes .imports) spaced.value).1.value = .ok declared := by
    rw [hsteps, himports, ← hother]
    exact hd
  rw [(merge_of_steps hn' hd').1, hsteps, hordered]

/-- In a merge without issues, a change is fulfilled from where it is made to the end. -/
theorem fulfilled_merge (hr : ∀ ch ∈ set.changes, OnlyRegisters ch)
    (h : (merge ⟨.preserve, strict⟩ t set).issues = [])
    (hsplit : madeInOrder set.changes = made ++ ch :: rest) :
    Fulfilled set (merge ⟨.preserve, strict⟩ t { set with changes := made }).tree
      (merge ⟨.preserve, strict⟩ t set).tree ch := by
  obtain ⟨spaced, declared, hn, hd⟩ := merge_steps (applied_of_issues_eq_nil h)
  obtain ⟨htree, hissues⟩ := merge_of_steps hn hd
  rw [h, eq_comm, List.append_eq_nil_iff] at hissues
  have himports : ∀ d ∈ ofPass set.changes .imports, OnlyRegisters d := fun d hd =>
    hr d (mem_of_mem_ofPass hd)
  have hordered : ∀ d ∈ ordered set.changes, OnlyRegisters d := fun d hd =>
    hr d (mem_of_mem_ordered hd)
  have hclass (made : List Change) (heq : ordered set.changes = made ++ ch :: rest) :
      Fulfilled set
        (merge ⟨.preserve, strict⟩ t
          { set with changes := ofPass set.changes .imports ++ made }).tree
        (merge ⟨.preserve, strict⟩ t set).tree ch := by
    rw [merge_made hn hd heq, htree, heq]
    exact fulfilled_run (heq ▸ hordered) (heq ▸ hissues.2)
  rcases List.append_eq_append_iff.1 hsplit with ⟨made', rfl, heq⟩ | ⟨bs, heq, hbs⟩
  · exact hclass made' heq
  · cases bs with
    | nil =>
      obtain rfl : ofPass set.changes .imports = made := by simpa using heq
      have := hclass [] (by simpa using hbs.symm)
      rwa [List.append_nil] at this
    | cons b bs =>
      obtain ⟨rfl, -⟩ := List.cons.inj hbs
      have himports' := himports
      rw [heq] at himports' hissues
      have hrun := fulfilled_run himports' hissues.1
      have hfinal : TreeGrown (makeAll (applyChange .preserve set) (ofPass set.changes .imports)
          spaced.value).1.value (merge ⟨.preserve, strict⟩ t set).tree := by
        have hdeclare := treeGrown_ensureClass set.target (makeAll (applyChange .preserve set)
          (ofPass set.changes .imports) spaced.value).1.value
        rw [hd] at hdeclare
        rw [htree]
        exact hdeclare.trans (treeGrown_run hordered declared.value)
      have hch : ch ∈ ofPass set.changes .imports := heq ▸ by simp
      -- What an import asks of a file does not depend on the file before it.
      cases ch with
      | importName i =>
        rw [← heq] at hrun
        exact hrun.mono (himports _ hch) hfinal
      | _ => cases pass_of_mem_ofPass hch

theorem mem_madeInOrder {changes : List Change} : ch ∈ madeInOrder changes ↔ ch ∈ changes :=
  (ordered_perm changes).mem_iff

/-- Merges in a row without issues, which are all applied then: in the end, the class of each of
    the sets is there, and so is everything that its changes ask for. Of a group of methods, one
    may have been there before the group was made. -/
theorem mergeAll_complete {prior later : List ChangeSet}
    (hr : ∀ s ∈ prior ++ set :: later, ∀ ch ∈ s.changes, OnlyRegisters ch)
    (h : (mergeAll ⟨.preserve, strict⟩ t (prior ++ set :: later)).issues = []) :
    let start := (mergeAll ⟨.preserve, strict⟩ t prior).tree
    let final := (mergeAll ⟨.preserve, strict⟩ t (prior ++ set :: later)).tree
    (final.classNamed? set.target.name).isSome = true ∧
      ∀ ch ∈ set.changes, ch ∈ madeInOrder set.changes ∧
        ∀ made rest, madeInOrder set.changes = made ++ ch :: rest →
          Fulfilled set (merge ⟨.preserve, strict⟩ start { set with changes := made }).tree
            final ch := by
  intro start final
  obtain ⟨htree, hissues⟩ := mergeAll_append ⟨.preserve, strict⟩ t prior (set :: later)
  rw [hissues] at h
  have hset : (merge ⟨.preserve, strict⟩ start set).issues = [] :=
    (List.append_eq_nil_iff.1 (List.append_eq_nil_iff.1 h).2).1
  have hrs : ∀ ch ∈ set.changes, OnlyRegisters ch := hr set (by simp)
  have hgrow : TreeGrown (merge ⟨.preserve, strict⟩ start set).tree final := by
    rw [show final = _ from htree]
    exact treeGrown_mergeAll (fun s hs => hr s (by simp [hs])) _
  refine ⟨?_, fun ch hch => ⟨mem_madeInOrder.2 hch, fun made rest hsplit =>
    (fulfilled_merge hrs hset hsplit).mono (hrs ch hch) hgrow⟩⟩
  obtain ⟨p, i, c, prepared, hmerged, -⟩ := merge_applied (applied_of_issues_eq_nil hset)
  have hname : (classRun .preserve set c).1.value.name = c.name := by
    rw [classRun, makeAll_editOf_value]
  have hc : IsTarget set.target.name
      (withImports p (importRun set start.imports).1.value) i c := prepared.target
  have htarget := (isTarget_withClass hc hname).classNamed?_eq
  rw [← hmerged] at htarget
  obtain ⟨d, hd, -⟩ := hgrow.classes _ _ htarget
  rw [hd]
  rfl

end Merges

theorem mergeAll_complete_registerSet :
    (∀ s ∈ [registerSet "a"] ++ registerSet "b" :: [registerSet "c"],
        ∀ ch ∈ s.changes, OnlyRegisters ch) ∧
      (mergeAll ⟨.preserve, true⟩ .empty
        ([registerSet "a"] ++ registerSet "b" :: [registerSet "c"])).issues = [] ∧
      let start := (mergeAll ⟨.preserve, true⟩ .empty [registerSet "a"]).tree
      let final := (mergeAll ⟨.preserve, true⟩ .empty
        ([registerSet "a"] ++ registerSet "b" :: [registerSet "c"])).tree
      (final.classNamed? (registerSet "b").target.name).isSome = true ∧
        ∀ ch ∈ (registerSet "b").changes, ch ∈ madeInOrder (registerSet "b").changes ∧
          ∀ made rest, madeInOrder (registerSet "b").changes = made ++ ch :: rest →
            Fulfilled (registerSet "b")
              (merge ⟨.preserve, true⟩ start { registerSet "b" with changes := made }).tree
              final ch :=
  have hr : ∀ s ∈ [registerSet "a"] ++ registerSet "b" :: [registerSet "c"],
      ∀ ch ∈ s.changes, OnlyRegisters ch := by decide
  have h : (mergeAll ⟨.preserve, true⟩ .empty
      ([registerSet "a"] ++ registerSet "b" :: [registerSet "c"])).issues = [] := by decide
  ⟨hr, h, mergeAll_complete hr h⟩

end DomainScaffold.Merge
