import DomainScaffold.Php.Build
import DomainScaffold.Proofs.Merge.Issues

/-!
# Which registrations survive

Several change sets for one class are merged one after the other. Under the policy that replaces, a
set that declares a method sets it back, and what earlier sets have added to its body is lost with
it. This module says exactly what is left.

Results:
* `holds_run_iff`: what a method holds after a run of changes.
* `holdsAfterAll_iff`: only the last declaration of a method counts, and what is added behind it.
* `holds_classRun`: every set has its own registrations in the class at first.
* `registrations_survive_iff`: which registrations of a set are there in the end.
-/

namespace DomainScaffold.Merge

open Php

/-! ## Registrations -/

/-- What an injection adds to a body: a call by what it is known by, or an entry of the array that
    is returned last by its printed key. -/
inductive Registration where
  | call (identity : String × String)
  | entry (key : String)
  deriving DecidableEq, Repr

namespace Registration

/-- Whether a body holds a registration. -/
def inBody : Registration → List Statement → Bool
  | .call identity, body => body.any fun t => statementIdentity? t == some identity
  | .entry key, body =>
    match lastReturn? body with
    | some (.ret (some (.array items))) => items.any fun item => item.1.map Printer.expr == some key
    | _ => false

/-- The registrations that a change adds to the body of its method. -/
def ofChange : Change → List Registration
  | .statements _ ss => (ss.filterMap statementIdentity?).map .call
  | .mapEntry _ key _ => [.entry (Printer.expr key)]
  | _ => []

theorem inBody_entry_iff (key : Expr) (body : List Statement) :
    (entry (Printer.expr key)).inBody body = true ↔ Keyed key body := by
  rw [inBody]
  constructor
  · intro h
    split at h
    · rename_i items hl
      exact ⟨items, hl, h⟩
    · cases h
  · rintro ⟨items, hl, hk⟩
    rw [hl]
    exact hk

theorem inBody_entry_append {key : String} {body added : List Statement} (h : NoReturn added) :
    (entry key).inBody (body ++ added) = (entry key).inBody body := by
  rw [inBody, lastReturn?_append h, inBody]

/-- Statements add themselves. -/
theorem inBody_injected_iff {ss : List Statement} (hss : ∀ s ∈ ss, Registers s) (r : Registration)
    (method : String) (body : List Statement) :
    r.inBody (Edited.foldl injected body ss).value = true ↔
      r.inBody body = true ∨ r ∈ ofChange (.statements method ss) := by
  obtain ⟨added, hv, hsub, -⟩ := foldl_injected body ss
  have hreturn : NoReturn added := fun t ht => not_isReturn_of_registers (hss t (hsub.subset ht))
  cases r with
  | entry key =>
    rw [hv, inBody_entry_append hreturn]
    simp [ofChange]
  | call i =>
    simp only [ofChange, List.mem_map, List.mem_filterMap, call.injEq, exists_eq_right]
    constructor
    · intro h
      rw [hv, inBody, List.any_append, Bool.or_eq_true] at h
      refine h.imp_right fun h => ?_
      obtain ⟨s, hs, hi⟩ := List.any_eq_true.1 h
      exact ⟨s, hsub.subset hs, beq_iff_eq.1 hi⟩
    · rintro (h | ⟨s, hs, hi⟩)
      · rw [hv]
        exact any_identity_append h
      · have := present_foldl_injected (hss s hs) hs body
        rwa [isPresent_of_identity hi] at this

/-- An entry that can be added adds its key. -/
theorem inBody_injectEntry_iff (noMap : GenerationError) {method : String} {key value : Expr}
    {body : List Statement} (ht : takesEntries body = true) (r : Registration) :
    r.inBody (afterEdit body (injectEntry noMap key value body)) = true ↔
      r.inBody body = true ∨ r ∈ ofChange (.mapEntry method key value) := by
  have step := entryStep noMap key value body
  generalize injectEntry noMap key value body = o at step
  cases step with
  | refused hf => rw [ht] at hf; cases hf
  | @there _ items _ hl hk =>
    simp only [afterEdit, Bool.false_eq_true, if_false, ofChange, List.mem_singleton]
    refine ⟨.inl, fun h => h.elim id ?_⟩
    rintro rfl
    exact (inBody_entry_iff key body).2 ⟨items, hl, hk⟩
  | opened hn =>
    simp only [afterEdit, Edited.replaced, if_true, ofChange, List.mem_singleton]
    cases r with
    | call i => simp [inBody, Statement.ofReturn, Statement.ofKind, statementIdentity?]
    | entry k =>
      have hl : lastReturn? (body ++ [.ofReturn (.array [(some key, value)])]) =
          some (.ret (some (.array [(some key, value)]))) := lastReturn?_concat body rfl
      rw [inBody, hl, inBody, lastReturn?_of_none hn]
      simp only [List.any_cons, List.any_nil, Option.map_some, Bool.or_false, beq_iff_eq,
        Option.some.injEq, Bool.false_eq_true, false_or, entry.injEq]
      exact eq_comm
  | @added before s after items hs ha hk =>
    simp only [afterEdit, Edited.replaced, if_true, ofChange, List.mem_singleton]
    have hr : isReturn s = true := by simp [isReturn, hs]
    cases r with
    | call i =>
      simp only [inBody, List.any_append, List.any_cons, statementIdentity?_of_isReturn hr]
      simp [statementIdentity?]
    | entry k =>
      rw [inBody, lastReturn?_of_last rfl ha, inBody, lastReturn?_of_last hr ha, hs]
      simp only [List.any_append, List.any_cons, List.any_nil, Option.map_some, Bool.or_false,
        Bool.or_eq_true, beq_iff_eq, Option.some.injEq, entry.injEq]
      rw [eq_comm (a := k)]

end Registration

/-! ## What becomes of a method -/

section Method

variable {name : String} {ms : List Member} {k : MemberKind}

theorem not_any_of_declare {u : Upsert} (h : ¬ Has (.declare u) ms)
    (hk : methodKind? name ms = some k) :
    u.slot.fits (outlineOf k) = false ∧
      (Slot.method name).inMember (.ofKind u.fresh) = false := by
  obtain ⟨m, hm, rfl⟩ := Option.map_eq_some_iff.1 hk
  have hmem := List.mem_of_find?_eq_some hm
  have hfit : (Slot.method name).inMember m = true := List.find?_some hm
  have hu : u.slot.inMember m = false := by
    by_contra hu
    exact h (List.any_eq_true.2 ⟨m, hmem, by simpa using hu⟩)
  refine ⟨hu, ?_⟩
  by_contra hfresh
  rw [Bool.not_eq_false] at hfresh
  rw [Slot.inMember, u.fresh_only _ hfresh _ hfit] at hu
  cases hu

/-- A method that is there is found again after every edit. -/
theorem methodKind?_apply (h : methodKind? name ms = some k) (e : MemberEdit) :
    methodKind? name (e.apply ms) = some (kindStep e k) := by
  by_cases hhas : Has e ms
  · have hstep : methodKind? name (makeEdits [e] ms) = _ :=
      methodKind?_makeEdits (by simpa using hhas) name
    rw [h] at hstep
    exact hstep
  · cases e with
    | body _ _ => exact absurd trivial hhas
    | declare u =>
      obtain ⟨hslot, hfresh⟩ := not_any_of_declare hhas h
      rw [kindStep_of_not_fits (e := .declare u) rfl hslot, MemberEdit.apply,
        Upsert.apply_of_not_any (by simpa [Has] using hhas), methodKind?,
        find?_insertIdx_of_false hfresh]
      exact h
    | group ds =>
      have hany : ¬ (ds.any fun d => ms.any (Slot.method d.name).inMember) = true := fun hany =>
        hhas (.inr hany)
      obtain ⟨m, hm, hk⟩ := Option.map_eq_some_iff.1 h
      rw [MemberEdit.apply, if_neg hany, methodKind?, List.find?_append, hm, ← hk]
      rfl

theorem methodKind?_makeEdits_of_some (h : methodKind? name ms = some k) (es : List MemberEdit) :
    methodKind? name (makeEdits es ms) = some (kindSteps es k) := by
  induction es generalizing ms k with
  | nil => exact h
  | cons e es ih => exact ih (methodKind?_apply h e)

theorem methodKind?_congr {other : String} (h : Text.foldAscii other = Text.foldAscii name) :
    methodKind? other ms = methodKind? name ms := by
  have : (Slot.method other).inMember = (Slot.method name).inMember := by
    funext m
    unfold Slot.inMember
    cases outlineOf m.kind <;> simp [Slot.fits, h]
  rw [methodKind?, this, methodKind?]

theorem kindSteps_eq_self {es : List MemberEdit} (h : ∀ e ∈ es, kindStep e k = k) :
    kindSteps es k = k := by
  induction es with
  | nil => rfl
  | cons e es ih =>
    show kindSteps es (kindStep e k) = k
    rw [h e (by simp), ih fun d hd => h d (List.mem_cons_of_mem _ hd)]

end Method

/-! ## One change -/

/-- The method that a change declares, if it has a name. -/
def declared? (name : String) : Change → Option MethodDecl
  | .method d => if Text.sameIgnoringCase d.name name then some d else none
  | _ => none

/-- Whether a change adds something to the method with a name. -/
def addsTo (name : String) (ch : Change) : Bool :=
  (injectedMethod? ch).any fun method => Text.sameIgnoringCase method name

/-- Whether a method holds a registration. -/
def Holds (r : Registration) (k : MemberKind) : Prop := r.inBody ((bodyOf? k).getD []) = true

/-- Whether a method holds a registration after a change, given whether it did before. -/
def holdsAfter (name : String) (r : Registration) (ch : Change) (before : Prop) : Prop :=
  match declared? name ch with
  | some d => r.inBody (d.body.getD []) = true
  | none => before ∨ addsTo name ch = true ∧ r ∈ Registration.ofChange ch

theorem holdsAfter_of_other {name : String} {r : Registration} {ch : Change} {before : Prop}
    (hd : declared? name ch = none) (ha : addsTo name ch = false) :
    holdsAfter name r ch before ↔ before := by
  simp [holdsAfter, hd, ha]

section Change

variable {name : String} {className : String} {ms : List Member} {k : MemberKind}
  {ch : Change} {r : Registration}

theorem exists_of_isMethod (h : IsMethod name k) : ∃ d, k = .method d := by
  cases k with
  | method d => exact ⟨d, rfl⟩
  | _ => cases h

/-- An injection into a method that has nothing wrong with it adds its registrations. -/
theorem holds_body_iff {method : String} {f : List Statement → List Statement}
    {added : List Registration} (hk : IsMethod name k)
    (hname : Text.sameIgnoringCase method name = true)
    (hbody : ∃ body, bodyOf? k = some body ∧
      (r.inBody (f body) = true ↔ r.inBody body = true ∨ r ∈ added)) :
    Holds r (kindSteps [.body method f] k) ↔ Holds r k ∨ r ∈ added := by
  obtain ⟨body, hb, hadded⟩ := hbody
  have hfit : (Text.foldAscii name == Text.foldAscii method) = true := by
    rw [beq_iff_eq]
    exact (beq_iff_eq.1 hname).symm
  have hstep : kindSteps [.body method f] k = bodyWritten f k :=
    kindStep_of_fits (e := .body method f) rfl ((fits_method_iff hk).trans hfit)
  rw [Holds, hstep, bodyOf?_bodyWritten, Holds, hb]
  exact hadded

theorem kindSteps_body_of_other {method : String} {f : List Statement → List Statement}
    (hk : IsMethod name k) (hname : Text.sameIgnoringCase method name = false) :
    kindSteps [.body method f] k = k := by
  have hfit : (Text.foldAscii name == Text.foldAscii method) = false := by
    rw [Bool.beq_comm]
    exact hname
  exact kindStep_of_not_fits (e := .body method f) rfl ((fits_method_iff hk).trans hfit)

theorem takes?_of_methodKind? {method : String} (hk : methodKind? name ms = some k)
    (hname : Text.sameIgnoringCase method name = true) :
    takes? method ms = some ((bodyOf? k).map takesEntries) := by
  rw [takes?_eq, methodKind?_congr (beq_iff_eq.1 hname), hk, Option.map_some]

/-- What a change that has nothing wrong with it makes of a method. -/
theorem holds_change_iff (hr : OnlyRegisters ch) (hk : methodKind? name ms = some k)
    (hissue : issueOf? className ms ch = none) :
    Holds r (kindSteps (memberEdits className .replace ch) k) ↔
      holdsAfter name r ch (Holds r k) := by
  have hmethod := isMethod_of_methodKind? hk
  obtain ⟨d, rfl⟩ := exists_of_isMethod hmethod
  cases ch with
  | importName _ | interface _ | methodGroup _ => exact (holdsAfter_of_other rfl rfl).symm
  | traitUse other => exact (holdsAfter_of_other rfl rfl).symm
  | constant decl =>
    rw [kindSteps_eq_self, holdsAfter_of_other rfl rfl]
    intro e he
    obtain ⟨entry, _, rfl⟩ := List.mem_map.1 he
    rfl
  | property decl =>
    rw [kindSteps_eq_self, holdsAfter_of_other rfl rfl]
    intro e he
    obtain ⟨entry, _, rfl⟩ := List.mem_map.1 he
    rfl
  | method d' =>
    cases hname : Text.sameIgnoringCase d'.name name with
    | false =>
      rw [kindSteps_eq_self, holdsAfter_of_other (by simp [declared?, hname]) rfl]
      intro e he
      rw [memberEdits, List.mem_singleton] at he
      subst he
      refine kindStep_of_not_fits (s := .method d'.name) rfl ((fits_method_iff hmethod).trans ?_)
      rw [Bool.beq_comm]
      exact hname
    | true =>
      have hfit : (Text.foldAscii name == Text.foldAscii d'.name) = true := by
        rw [beq_iff_eq]
        exact (beq_iff_eq.1 hname).symm
      have hstep : kindSteps (memberEdits className .replace (.method d')) (.method d) =
          .method d' :=
        kindStep_of_fits (e := .declare (.ofMethod .replace d')) rfl
          ((fits_method_iff hmethod).trans hfit)
      rw [hstep, holdsAfter, declared?, if_pos hname]
      rfl
  | statements method ss =>
    cases hname : Text.sameIgnoringCase method name with
    | false =>
      rw [memberEdits, kindSteps_body_of_other hmethod hname,
        holdsAfter_of_other rfl (by simp [addsTo, injectedMethod?, hname])]
    | true =>
      have hadds : addsTo name (.statements method ss) = true := by
        simp [addsTo, injectedMethod?, hname]
      simp only [holdsAfter, declared?, hadds, true_and]
      refine holds_body_iff hmethod hname ?_
      rw [issueOf?, takes?_of_methodKind? hk hname] at hissue
      cases hb : bodyOf? (.method d) with
      | none => rw [hb] at hissue; cases hissue
      | some body =>
        refine ⟨body, rfl, ?_⟩
        rw [afterEdit_foldl_injected]
        exact Registration.inBody_injected_iff hr r method body
  | mapEntry method key value =>
    cases hname : Text.sameIgnoringCase method name with
    | false =>
      rw [memberEdits, kindSteps_body_of_other hmethod hname,
        holdsAfter_of_other rfl (by simp [addsTo, injectedMethod?, hname])]
    | true =>
      have hadds : addsTo name (.mapEntry method key value) = true := by
        simp [addsTo, injectedMethod?, hname]
      simp only [holdsAfter, declared?, hadds, true_and]
      refine holds_body_iff hmethod hname ?_
      rw [issueOf?, takes?_of_methodKind? hk hname] at hissue
      cases hb : bodyOf? (.method d) with
      | none => rw [hb] at hissue; cases hissue
      | some body =>
        have ht : takesEntries body = true := by
          by_contra ht
          rw [Bool.not_eq_true] at ht
          simp [hb, ht] at hissue
        exact ⟨body, rfl, Registration.inBody_injectEntry_iff _ ht r⟩

end Change

/-! ## A run of changes -/

/-- Whether a method holds a registration after changes in a row. -/
def holdsAfterAll (name : String) (r : Registration) (changes : List Change) (before : Prop) :
    Prop :=
  changes.foldl (fun before ch => holdsAfter name r ch before) before

theorem holdsAfterAll_append (name : String) (r : Registration) (cs ds : List Change)
    (before : Prop) :
    holdsAfterAll name r (cs ++ ds) before =
      holdsAfterAll name r ds (holdsAfterAll name r cs before) := List.foldl_append

/-- What changes that have nothing wrong with them make of a method. -/
theorem holds_run_iff {name : String} {changes : List Change}
    (hr : ∀ ch ∈ changes, OnlyRegisters ch) {c : ClassDecl} {k : MemberKind}
    (hk : methodKind? name c.members = some k) (h : (makeAll (editOf .replace) changes c).2 = [])
    (r : Registration) :
    ∃ k', methodKind? name (makeAll (editOf .replace) changes c).1.value.members = some k' ∧
      (Holds r k' ↔ holdsAfterAll name r changes (Holds r k)) := by
  induction changes generalizing c k with
  | nil => exact ⟨k, hk, Iff.rfl⟩
  | cons ch changes ih =>
    rw [makeAll_issues_cons, List.append_eq_nil_iff, issue?_editOf] at h
    obtain ⟨hissue, hrest⟩ := h
    have hissue : issueOf? c.name c.members ch = none := by
      cases hi : issueOf? c.name c.members ch with
      | none => rfl
      | some e => rw [hi] at hissue; cases hissue
    have hnext : methodKind? name (valueOr c (editOf .replace ch c)).members =
        some (kindSteps (memberEdits c.name .replace ch) k) := by
      rw [editOf_value]
      exact methodKind?_makeEdits_of_some hk _
    obtain ⟨k', hk', hiff⟩ := ih (fun d hd => hr d (List.mem_cons_of_mem _ hd)) hnext hrest
    refine ⟨k', ?_, ?_⟩
    · rw [makeAll_value, List.foldl_cons, ← makeAll_value]
      exact hk'
    · rw [hiff, holdsAfterAll, holdsAfterAll, List.foldl_cons,
        propext (holds_change_iff (hr ch (by simp)) hk hissue)]

/-- The last declaration of a method among changes, and the changes behind it. -/
def lastDeclaration? (name : String) : List Change → Option (MethodDecl × List Change)
  | [] => none
  | ch :: changes =>
    match lastDeclaration? name changes with
    | some found => some found
    | none => (declared? name ch).map (·, changes)

/-- Whether changes add a registration to the method with a name. -/
def adds (name : String) (r : Registration) (changes : List Change) : Bool :=
  changes.any fun ch => addsTo name ch && decide (r ∈ Registration.ofChange ch)

theorem adds_cons (name : String) (r : Registration) (ch : Change) (changes : List Change) :
    adds name r (ch :: changes) = true ↔
      (addsTo name ch = true ∧ r ∈ Registration.ofChange ch) ∨ adds name r changes = true := by
  simp [adds]

/-- Whether a registration that a method holds is there after changes in a row: they do not declare
    the method, or the last declaration brings the registration along, or it is added again behind
    that. -/
def survives (name : String) (r : Registration) (changes : List Change) : Bool :=
  match lastDeclaration? name changes with
  | none => true
  | some (d, behind) => r.inBody (d.body.getD []) || adds name r behind

/-- Only the last declaration of a method counts, and what is added behind it. -/
theorem holdsAfterAll_iff (name : String) (r : Registration) (changes : List Change)
    (before : Prop) :
    holdsAfterAll name r changes before ↔
      match lastDeclaration? name changes with
      | none => before ∨ adds name r changes = true
      | some (d, behind) => r.inBody (d.body.getD []) = true ∨ adds name r behind = true := by
  induction changes generalizing before with
  | nil => simp [holdsAfterAll, lastDeclaration?, adds]
  | cons ch changes ih =>
    rw [holdsAfterAll, List.foldl_cons, ← holdsAfterAll, ih, lastDeclaration?]
    cases lastDeclaration? name changes with
    | some found => exact Iff.rfl
    | none =>
      cases hd : declared? name ch with
      | some d => simp only [holdsAfter, hd, Option.map_some]
      | none => simp only [holdsAfter, hd, Option.map_none, adds_cons, or_assoc]

theorem holdsAfterAll_iff_survives {name : String} {r : Registration} {changes : List Change}
    {before : Prop} (h : before) :
    holdsAfterAll name r changes before ↔ survives name r changes = true := by
  rw [holdsAfterAll_iff, survives]
  cases lastDeclaration? name changes with
  | none => simp [h]
  | some found => simp

theorem lastDeclaration?_of_injections {changes : List Change}
    (h : ∀ ch ∈ changes, ch.pass = .injections) (name : String) :
    lastDeclaration? name changes = none := by
  induction changes with
  | nil => rfl
  | cons ch changes ih =>
    rw [lastDeclaration?, ih fun d hd => h d (List.mem_cons_of_mem _ hd)]
    have hch := h ch (by simp)
    cases ch with
    | method d => cases hch
    | _ => rfl

/-! ## One set -/

section Set

variable {set : ChangeSet} {ch : Change} {method : String}

theorem pass_of_injectedMethod? (h : injectedMethod? ch = some method) :
    ch.pass = .injections := by
  cases ch with
  | statements _ _ => rfl
  | mapEntry _ _ _ => rfl
  | _ => cases h

theorem methodKind?_of_issueOf? {className : String} {ms : List Member}
    (hm : injectedMethod? ch = some method) (h : issueOf? className ms ch = none) :
    ∃ k, methodKind? method ms = some k := by
  rw [← Option.isSome_iff_exists]
  cases hk : methodKind? method ms with
  | some k => rfl
  | none =>
    have ht : takes? method ms = none := by rw [takes?_eq, hk, Option.map_none]
    cases ch with
    | statements _ _ => cases hm; simp [issueOf?, ht] at h
    | mapEntry _ _ _ => cases hm; simp [issueOf?, ht] at h
    | _ => cases hm

/-- Every set has its own registrations in the class at first. -/
theorem holds_classRun (hr : ∀ ch ∈ set.changes, OnlyRegisters ch) {c : ClassDecl}
    (hissues : (classRun .replace set c).2 = []) (hch : ch ∈ set.changes)
    (hm : injectedMethod? ch = some method) {r : Registration} (h : r ∈ Registration.ofChange ch) :
    ∃ k, methodKind? method (classRun .replace set c).1.value.members = some k ∧ Holds r k := by
  have hmem : ch ∈ ofPass set.changes .injections :=
    List.mem_filter.2 ⟨hch, beq_iff_eq.2 (pass_of_injectedMethod? hm)⟩
  have hrest : ∀ d ∈ ofPass set.changes .injections, OnlyRegisters d := fun d hd =>
    hr d (mem_of_mem_ofPass hd)
  rw [classRun, ordered_eq, makeAll_append] at hissues ⊢
  dsimp only at hissues ⊢
  rw [List.append_eq_nil_iff] at hissues
  generalize (makeAll (editOf .replace) (declarations set.changes) c).1.value = c₁ at hissues ⊢
  have hnone := hissues.2
  rw [issues_of_injections hrest fun _ => pass_of_mem_ofPass, List.filterMap_eq_nil_iff] at hnone
  obtain ⟨k, hk⟩ := methodKind?_of_issueOf? hm (hnone ch hmem)
  obtain ⟨k', hk', hiff⟩ := holds_run_iff hrest hk hissues.2 r
  refine ⟨k', hk', hiff.2 ?_⟩
  rw [holdsAfterAll_iff, lastDeclaration?_of_injections fun _ => pass_of_mem_ofPass]
  refine .inr (List.any_eq_true.2 ⟨ch, hmem, ?_⟩)
  simp [addsTo, hm, Text.sameIgnoringCase_refl, h]

end Set

/-! ## Sets in a row -/

/-- The changes of a class that sets stand for, one set after the other. -/
def runChanges (sets : List ChangeSet) : List Change := sets.flatMap fun set => ordered set.changes

theorem runChanges_cons (set : ChangeSet) (sets : List ChangeSet) :
    runChanges (set :: sets) = ordered set.changes ++ runChanges sets := rfl

section Target

variable {name : String} {t : SourceTree} {i : Nat} {c : ClassDecl}

theorem isTarget_congr {other : String} (h : Text.sameIgnoringCase name other = true) :
    IsTarget name t i c ↔ IsTarget other t i c := by
  have : isClassNamed name = isClassNamed other := by
    funext item
    rw [isClassNamed, isClassNamed]
    congr 1
    funext d
    rw [Text.sameIgnoringCase, Text.sameIgnoringCase, beq_iff_eq.1 h]
  rw [IsTarget, IsTarget, this]

theorem IsTarget.unique {u : SourceTree} {j : Nat} {d : ClassDecl} (h : IsTarget name t i c)
    (h' : IsTarget name u j d) (hitems : u.items = t.items) : j = i ∧ d = c := by
  obtain ⟨hj, hd⟩ := h'
  rw [hitems, h.1, Option.some.injEq] at hj
  subst hj
  rw [hitems, h.2, Option.some.injEq, Item.classItem.injEq] at hd
  exact ⟨rfl, hd.symm⟩

theorem IsTarget.declaredName?_ne_none (h : IsTarget name t i c) : t.declaredName? ≠ none := by
  intro hnone
  rw [SourceTree.declaredName?, List.findSome?_eq_none_iff] at hnone
  have := hnone _ (List.mem_of_getElem? h.2)
  cases this

theorem IsTarget.classNamed?_eq (h : IsTarget name t i c) : t.classNamed? name = some c := by
  have hfind : t.items.find? (isClassNamed name) = some (.classItem c) := by
    rw [List.find?_eq_bind_findIdx?_getElem?, h.1, Option.bind_some, h.2]
  rw [SourceTree.classNamed?, SourceTree.classes, List.find?_filterMap]
  exact congrArg (Option.bind · Item.class?) hfind

end Target

/-- The body of a method of a class. -/
def bodyIn? (t : SourceTree) (className method : String) : Option (List Statement) :=
  ((t.classNamed? className).bind (·.method? method)).bind MethodDecl.body

theorem method?_body_eq (c : ClassDecl) (method : String) :
    (c.method? method).bind MethodDecl.body = (methodKind? method c.members).bind bodyOf? := by
  have hfind : (fun m : Member => m.method?.any fun d => Text.sameIgnoringCase d.name method) =
      (Slot.method method).inMember := by
    funext m
    unfold Member.method? Slot.inMember
    cases m.kind <;> rfl
  rw [ClassDecl.method?, ClassDecl.methods, List.find?_filterMap, hfind, methodKind?]
  cases hm : c.members.find? (Slot.method method).inMember with
  | none => rfl
  | some m =>
    obtain ⟨d, hd⟩ := method?_eq_some_of_inMember (List.find?_some hm)
    simp [Member.method?, hd, bodyOf?]

theorem bodyIn?_of_target {name method : String} {t : SourceTree} {i : Nat} {c : ClassDecl}
    {k : MemberKind} (ht : IsTarget name t i c) (hk : methodKind? method c.members = some k) :
    bodyIn? t name method = bodyOf? k := by
  rw [bodyIn?, ht.classNamed?_eq, Option.bind_some, method?_body_eq, hk, Option.bind_some]

/-- Whether a registration is in the body of a method of a class. -/
def Registered (r : Registration) (t : SourceTree) (className method : String) : Prop :=
  ∃ body, bodyIn? t className method = some body ∧ r.inBody body = true

theorem Registration.inBody_nil (r : Registration) : r.inBody [] = false := by
  cases r <;> rfl

theorem registered_iff_holds {name method : String} {t : SourceTree} {i : Nat} {c : ClassDecl}
    {k : MemberKind} (ht : IsTarget name t i c) (hk : methodKind? method c.members = some k)
    (r : Registration) : Registered r t name method ↔ Holds r k := by
  rw [Registered, bodyIn?_of_target ht hk, Holds]
  cases bodyOf? k with
  | none => simp [r.inBody_nil]
  | some body => simp

theorem applied_of_issues_eq_nil {rules : MergeRules} {t : SourceTree} {set : ChangeSet}
    (h : (merge rules t set).issues = []) : (merge rules t set).applied = true := by
  unfold merge at h ⊢
  dsimp only at h ⊢
  split
  · rename_i hs
    rw [hs] at h
    cases h
  · rename_i hs
    rw [hs] at h
    dsimp only at h
    split
    · rename_i hd
      rw [hd] at h
      simp [rejected] at h
    · rfl

section Sets

variable {name method : String} {strictTypes : Bool} {t : SourceTree} {set : ChangeSet}
  {before after : List ChangeSet}

/-- The class of a file that a set without issues has been merged into. -/
theorem merge_target (h : (merge ⟨.replace, strictTypes⟩ t set).issues = []) :
    ∃ i c, (classRun .replace set c).2 = [] ∧
      IsTarget set.target.name (merge ⟨.replace, strictTypes⟩ t set).tree i
        (classRun .replace set c).1.value ∧
      ∀ j d, IsTarget set.target.name t j d → d = c := by
  obtain ⟨p, i, c, prepared, htree, hissues⟩ := merge_applied (applied_of_issues_eq_nil h)
  rw [h, eq_comm, List.append_eq_nil_iff] at hissues
  refine ⟨i, c, hissues.2, ?_, fun j d hd => ?_⟩
  · rw [htree]
    exact prepared.target_classRun _
  · rcases prepared.items with hitems | ⟨hnone, -⟩
    · exact (prepared.target.unique hd hitems.symm).2
    · exact absurd hnone hd.declaredName?_ne_none

/-- What sets that have nothing wrong with them make of a method. -/
theorem holds_mergeAll_iff {sets : List ChangeSet}
    (hsame : ∀ s ∈ sets, Text.sameIgnoringCase s.target.name name = true)
    (hr : ∀ s ∈ sets, ∀ ch ∈ s.changes, OnlyRegisters ch) {i : Nat} {c : ClassDecl}
    {k : MemberKind} (ht : IsTarget name t i c) (hk : methodKind? method c.members = some k)
    (h : (mergeAll ⟨.replace, strictTypes⟩ t sets).issues = []) (r : Registration) :
    Registered r (mergeAll ⟨.replace, strictTypes⟩ t sets).tree name method ↔
      holdsAfterAll method r (runChanges sets) (Holds r k) := by
  induction sets generalizing t i c k with
  | nil => exact registered_iff_holds ht hk r
  | cons set sets ih =>
    simp only [mergeAll, List.append_eq_nil_iff] at h
    obtain ⟨j, d, hclass, hnext, hold⟩ := merge_target h.1
    have hname := hsame set (by simp)
    obtain rfl := hold i c ((isTarget_congr hname).2 ht)
    obtain ⟨k', hk', hiff⟩ := holds_run_iff
      (fun ch hch => hr set (by simp) ch (mem_of_mem_ordered hch)) hk hclass r
    rw [mergeAll]
    dsimp only
    rw [ih (fun s hs => hsame s (List.mem_cons_of_mem _ hs))
      (fun s hs => hr s (List.mem_cons_of_mem _ hs)) ((isTarget_congr hname).1 hnext) hk' h.2,
      propext hiff, runChanges_cons, holdsAfterAll_append]

theorem mergeAll_append (rules : MergeRules) (t : SourceTree) (before after : List ChangeSet) :
    (mergeAll rules t (before ++ after)).tree =
        (mergeAll rules (mergeAll rules t before).tree after).tree ∧
      (mergeAll rules t (before ++ after)).issues = (mergeAll rules t before).issues ++
        (mergeAll rules (mergeAll rules t before).tree after).issues := by
  induction before generalizing t with
  | nil => exact ⟨rfl, rfl⟩
  | cons set before ih =>
    obtain ⟨htree, hissues⟩ := ih (merge rules t set).tree
    refine ⟨htree, ?_⟩
    simp only [List.cons_append, mergeAll, hissues, List.append_assoc]

/-- Which registrations of a set are there in the end: those that survive the sets behind it. -/
theorem registered_iff_survives
    (hsame : ∀ s ∈ after, Text.sameIgnoringCase s.target.name set.target.name = true)
    (hr : ∀ s ∈ set :: after, ∀ ch ∈ s.changes, OnlyRegisters ch)
    (h : (mergeAll ⟨.replace, strictTypes⟩ t (before ++ set :: after)).issues = [])
    {ch : Change} (hch : ch ∈ set.changes) (hm : injectedMethod? ch = some method)
    {r : Registration} (hadd : r ∈ Registration.ofChange ch) :
    Registered r (mergeAll ⟨.replace, strictTypes⟩ t (before ++ set :: after)).tree
        set.target.name method ↔
      survives method r (runChanges after) = true := by
  obtain ⟨htree, hissues⟩ := mergeAll_append ⟨.replace, strictTypes⟩ t before (set :: after)
  rw [hissues, List.append_eq_nil_iff] at h
  have h := h.2
  rw [htree]
  generalize (mergeAll ⟨.replace, strictTypes⟩ t before).tree = t₁ at h ⊢
  simp only [mergeAll, List.append_eq_nil_iff] at h
  obtain ⟨i, c, hclass, htarget, -⟩ := merge_target h.1
  obtain ⟨k, hk, hholds⟩ := holds_classRun (hr set (by simp)) hclass hch hm hadd
  rw [← holdsAfterAll_iff_survives hholds]
  exact holds_mergeAll_iff hsame (fun s hs => hr s (List.mem_cons_of_mem _ hs)) htarget hk h.2 r

/-- When the sets of one class are merged in a row without issues under the policy that replaces,
    the statements and entries that a set adds are in the class in the end exactly if they survive
    the sets behind it. -/
theorem registrations_survive_iff (strictTypes : Bool) (t : SourceTree)
    (before after : List ChangeSet) (set : ChangeSet)
    (hsame : ∀ s ∈ after, Text.sameIgnoringCase s.target.name set.target.name = true)
    (hr : ∀ s ∈ set :: after, ∀ ch ∈ s.changes, OnlyRegisters ch)
    (h : (mergeAll ⟨.replace, strictTypes⟩ t (before ++ set :: after)).issues = []) :
    let final := (mergeAll ⟨.replace, strictTypes⟩ t (before ++ set :: after)).tree
    (∀ method ss, .statements method ss ∈ set.changes → ∀ s ∈ ss,
      ∃ identity, statementIdentity? s = some identity ∧
        ((∃ body, bodyIn? final set.target.name method = some body ∧ isPresent body s = true) ↔
          survives method (.call identity) (runChanges after) = true)) ∧
    (∀ method key value, .mapEntry method key value ∈ set.changes →
      ((∃ body, bodyIn? final set.target.name method = some body ∧ Keyed key body) ↔
        survives method (.entry (Printer.expr key)) (runChanges after) = true)) := by
  refine ⟨fun method ss hch s hs => ?_, fun method key value hch => ?_⟩
  · obtain ⟨identity, hi⟩ := Option.isSome_iff_exists.1 (hr set (by simp) _ hch s hs)
    have hadd : Registration.call identity ∈ Registration.ofChange (.statements method ss) :=
      List.mem_map.2 ⟨identity, List.mem_filterMap.2 ⟨s, hs, hi⟩, rfl⟩
    refine ⟨identity, hi, ?_⟩
    rw [← registered_iff_survives hsame hr h hch rfl hadd]
    simp only [isPresent_of_identity hi]
    exact Iff.rfl
  · rw [← registered_iff_survives hsame hr h hch rfl (List.mem_singleton_self _)]
    simp only [← Registration.inBody_entry_iff]
    exact Iff.rfl

end Sets

/-- The statement that registers an event. -/
def eventRegistration (constantName : String) : Statement :=
  .ofExpr (.methodCall (.var "eventEngine") "registerEvent" [.selfConst constantName])

/-- What an event adds to the class that describes all events. -/
def eventSet (constantName className : String) : ChangeSet :=
  ⟨"Acme\\Api", .finalClass "Event",
    [.method (.publicStatic "describe" [.typed "EventEngine" "eventEngine"] (some "void") []),
      .constant (.publicOne constantName (.text className)),
      .statements "describe" [eventRegistration constantName],
      .method (.publicStatic "classMap" [] (some "array") []),
      .mapEntry "classMap" (.selfConst constantName) (.classRef className)]⟩

/-- The class that describes two events. -/
def twoEvents : SourceTree :=
  (mergeAll ⟨.replace, false⟩ .empty
    [eventSet "ADDED" "BuildingAdded", eventSet "SOLD" "BuildingSold"]).tree

theorem registrations_survive_iff_eventSet :
    (∀ s ∈ [eventSet "SOLD" "BuildingSold"],
      Text.sameIgnoringCase s.target.name (eventSet "ADDED" "BuildingAdded").target.name = true) ∧
    (∀ s ∈ [eventSet "ADDED" "BuildingAdded", eventSet "SOLD" "BuildingSold"],
      ∀ ch ∈ s.changes, OnlyRegisters ch) ∧
    (mergeAll ⟨.replace, false⟩ .empty
      ([] ++ eventSet "ADDED" "BuildingAdded" :: [eventSet "SOLD" "BuildingSold"])).issues = [] ∧
    (∀ method ss, .statements method ss ∈ (eventSet "ADDED" "BuildingAdded").changes → ∀ s ∈ ss,
      ∃ identity, statementIdentity? s = some identity ∧
        ((∃ body, bodyIn? twoEvents "Event" method = some body ∧ isPresent body s = true) ↔
          survives method (.call identity) (runChanges [eventSet "SOLD" "BuildingSold"]) = true)) ∧
    (∀ method key value,
      .mapEntry method key value ∈ (eventSet "ADDED" "BuildingAdded").changes →
      ((∃ body, bodyIn? twoEvents "Event" method = some body ∧ Keyed key body) ↔
        survives method (.entry (Printer.expr key))
          (runChanges [eventSet "SOLD" "BuildingSold"]) = true)) :=
  have hsame : ∀ s ∈ [eventSet "SOLD" "BuildingSold"],
      Text.sameIgnoringCase s.target.name (eventSet "ADDED" "BuildingAdded").target.name = true := by
    decide
  have hr : ∀ s ∈ [eventSet "ADDED" "BuildingAdded", eventSet "SOLD" "BuildingSold"],
      ∀ ch ∈ s.changes, OnlyRegisters ch := by decide
  have h : (mergeAll ⟨.replace, false⟩ .empty
      ([] ++ eventSet "ADDED" "BuildingAdded" :: [eventSet "SOLD" "BuildingSold"])).issues = [] := by
    decide
  ⟨hsame, hr, h, registrations_survive_iff false .empty [] [eventSet "SOLD" "BuildingSold"]
    (eventSet "ADDED" "BuildingAdded") hsame hr h⟩

/-- The set of the second event takes away what the set of the first one has added. -/
theorem eventSet_registrations_lost :
    (∀ s ∈ [eventSet "ADDED" "BuildingAdded", eventSet "SOLD" "BuildingSold"],
      ∀ ch ∈ s.changes, OnlyRegisters ch) ∧
    (mergeAll ⟨.replace, false⟩ .empty
      [eventSet "ADDED" "BuildingAdded", eventSet "SOLD" "BuildingSold"]).issues = [] ∧
    (¬ ∃ body, bodyIn? twoEvents "Event" "describe" = some body ∧
      isPresent body (eventRegistration "ADDED") = true) ∧
    ¬ ∃ body, bodyIn? twoEvents "Event" "classMap" = some body ∧ Keyed (.selfConst "ADDED") body := by
  have hdescribe : bodyIn? twoEvents "Event" "describe" = some [eventRegistration "SOLD"] := rfl
  have hmap : bodyIn? twoEvents "Event" "classMap" = some
      [.ofReturn (.array [(some (.selfConst "SOLD"), .classRef "BuildingSold")])] := rfl
  refine ⟨by decide, by decide, ?_, ?_⟩
  · rintro ⟨body, hb, hp⟩
    cases hdescribe.symm.trans hb
    revert hp
    decide
  · rintro ⟨body, hb, hk⟩
    cases hmap.symm.trans hb
    rw [← Registration.inBody_entry_iff] at hk
    revert hk
    decide

end DomainScaffold.Merge
