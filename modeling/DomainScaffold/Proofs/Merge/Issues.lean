import DomainScaffold.Proofs.Merge.Repetition

/-!
# The issues of a run

Only injections can fail, and they fail because of the method that they are for: it is missing, has
no body or returns something that takes no entries. Nothing of that changes when the changes of a
set are made again.

Results:
* `issue?_editOf`: what is wrong with a change.
* `takes_apply_of_feeds`: additions change none of that.
* `issues_classRun_again`: the issues of a second run.
-/

namespace DomainScaffold.Merge

open Php

/-- What was wrong with an edit. -/
def issue? {α : Type} : Outcome α → Option GenerationError
  | .ok _ => none
  | .error e => some e

/-- Whether entries can be added to what a method returns, if it exists and has a body. -/
def takes? (name : String) (ms : List Member) : Option (Option Bool) :=
  (ms.find? (Slot.method name).inMember).map fun m => (bodyOf? m.kind).map takesEntries

/-- What is wrong with a change of a class with some members. -/
def issueOf? (className : String) (ms : List Member) : Change → Option GenerationError
  | .statements method _ =>
    match takes? method ms with
    | some (some _) => none
    | _ => some (.methodNotFound className method)
  | .mapEntry method _ _ =>
    match takes? method ms with
    | none => some (.methodNotFound className method)
    | some (some true) => none
    | _ => some (.classMapNotFound className method)
  | _ => none

theorem issue?_editBody {method : String} {noBody : GenerationError}
    {f : List Statement → Outcome (Edited (List Statement))} (hf : Exact f) (c : ClassDecl) :
    issue? (editBody method noBody f c) =
      match c.members.find? (Slot.method method).inMember with
      | none => some (.methodNotFound c.name method)
      | some m =>
        match bodyOf? m.kind with
        | none => some noBody
        | some body => issue? (f body) := by
  cases hfind : c.members.find? (Slot.method method).inMember with
  | none => rw [editBody_of_find?_eq_none hfind]; rfl
  | some m =>
    obtain ⟨d, hd⟩ := method?_eq_some_of_inMember (List.find?_some hfind)
    cases hb : d.body with
    | none => simp only [editBody_of_bodyless hfind hd hb, hd, bodyOf?, hb]; rfl
    | some body =>
      simp only [editBody_of_body hfind hd hb hf, hd, bodyOf?, hb]
      cases f body <;> rfl

theorem issue?_injectEntry (noMap : GenerationError) (key value : Expr) (body : List Statement) :
    issue? (injectEntry noMap key value body) = if takesEntries body then none else some noMap := by
  have step := entryStep noMap key value body
  generalize injectEntry noMap key value body = o at step
  cases step with
  | opened hn => simp [issue?, takesEntries, lastReturn?_of_none hn]
  | @added before s after items hs ha _ =>
    have hl : lastReturn? (before ++ s :: after) = some s.kind :=
      lastReturn?_of_last (by simp [isReturn, hs]) ha
    simp [issue?, takesEntries, hl, hs]
  | there hl _ => simp [issue?, takesEntries, hl]
  | refused ht => simp [issue?, ht]

/-- What is wrong with a change. -/
theorem issue?_editOf (policy : MergePolicy) (ch : Change) (c : ClassDecl) :
    issue? (editOf policy ch c) = issueOf? c.name c.members ch := by
  cases ch with
  | statements method ss =>
    rw [editOf, injectStatements, issue?_editBody (exact_injected ss), issueOf?, takes?]
    cases c.members.find? (Slot.method method).inMember with
    | none => rfl
    | some m => cases h : bodyOf? m.kind <;> simp [h, issue?]
  | mapEntry method key value =>
    rw [editOf, injectMapEntry, issue?_editBody (exact_injectEntry _ key value), issueOf?, takes?]
    cases c.members.find? (Slot.method method).inMember with
    | none => rfl
    | some m =>
      cases h : bodyOf? m.kind with
      | none => simp [h]
      | some body =>
        simp only [h, issue?_injectEntry, Option.map_some]
        cases takesEntries body <;> rfl
  | _ => rfl

/-! ## What injections see -/

section Find

variable {es : List MemberEdit} {e : MemberEdit} {ms : List Member}

theorem find?_apply (h : Has e ms) (name : String) :
    (e.apply ms).find? (Slot.method name).inMember =
      (ms.find? (Slot.method name).inMember).map (rewrite (kindStep e)) := by
  cases hfind : ms.find? (Slot.method name).inMember with
  | none =>
    rw [find?_eq_none_iff_any, Slot.any_inMember] at hfind
    rw [Option.map_none, find?_eq_none_iff_any, Slot.any_inMember, outlines_apply h, hfind]
  | some n =>
    have hn : (Slot.method name).inMember n = true := List.find?_some hfind
    have hpin := apply_pin hn h
    rw [pin_of_find? hfind] at hpin
    rw [hpin, find?_pin, Option.map_some]
    · rwa [inMember_rewrite_kindStep]
    · exact any_apply e (List.any_eq_true.2 ⟨n, List.mem_of_find?_eq_some hfind, hn⟩)

theorem find?_makeEdits (h : ∀ e ∈ es, Has e ms) (name : String) :
    (makeEdits es ms).find? (Slot.method name).inMember =
      (ms.find? (Slot.method name).inMember).map (memberSteps es) := by
  induction es generalizing ms with
  | nil => exact Option.map_id'.symm
  | cons e es ih =>
    show (makeEdits es (e.apply ms)).find? _ = _
    rw [ih fun d hd => has_apply e (h d (List.mem_cons_of_mem _ hd)), find?_apply (h e (by simp)),
      Option.map_map]
    rfl

/-- The kind of the method with a name. -/
def methodKind? (name : String) (ms : List Member) : Option MemberKind :=
  (ms.find? (Slot.method name).inMember).map Member.kind

theorem takes?_eq (name : String) (ms : List Member) :
    takes? name ms = (methodKind? name ms).map fun k => (bodyOf? k).map takesEntries := by
  rw [takes?, methodKind?, Option.map_map]
  rfl

theorem methodKind?_makeEdits (h : ∀ e ∈ es, Has e ms) (name : String) :
    methodKind? name (makeEdits es ms) = (methodKind? name ms).map (kindSteps es) := by
  rw [methodKind?, find?_makeEdits h, methodKind?, Option.map_map, Option.map_map]
  congr 1
  funext n
  exact kind_memberSteps es n

theorem isMethod_of_methodKind? {name : String} {k : MemberKind}
    (h : methodKind? name ms = some k) : IsMethod name k := by
  obtain ⟨m, hm, rfl⟩ := Option.map_eq_some_iff.1 h
  have hfit : (Slot.method name).inMember m = true := List.find?_some hm
  exact hfit

/-- Growing does not change whether entries can be added. -/
theorem takes_bodyWritten {f : List Statement → List Statement} (hf : GrowsOnce f)
    (k : MemberKind) : (bodyOf? (bodyWritten f k)).map takesEntries =
      (bodyOf? k).map takesEntries := by
  rw [bodyOf?_bodyWritten, Option.map_map]
  congr 1
  funext body
  exact (hf.grows body).takes

/-- Additions change none of what injections see. -/
theorem takes?_makeEdits_of_adds (hadds : ∀ e ∈ es, AddsOnce e) (name : String) :
    takes? name (makeEdits es ms) = takes? name ms := by
  have hhas : ∀ e ∈ es, Has e ms := fun e he => by
    obtain ⟨method, f, rfl, _⟩ := hadds e he
    trivial
  rw [takes?_eq, takes?_eq, methodKind?_makeEdits hhas]
  cases hk : methodKind? name ms with
  | none => rfl
  | some k =>
    obtain ⟨g, hg, hge⟩ := feeds_kindSteps fun e he => (hadds e he).feeds name
    simp only [Option.map_some]
    rw [hge k (isMethod_of_methodKind? hk), takes_bodyWritten hg]

/-- After additions, declarations made again lead back to what injections saw. -/
theorem takes?_makeEdits_again {ws js : List MemberEdit} {ms : List Member}
    (hw : ∀ e ∈ ws, Has e ms) (hself : makeEdits ws ms = ms) (hadds : ∀ e ∈ js, AddsOnce e)
    (hsteps : ∀ e ∈ ws, ∀ name, Sets name (kindStep e) ∨ Feeds name (kindStep e))
    (name : String) :
    takes? name (makeEdits ws (makeEdits js ms)) = takes? name ms := by
  have hjs : ∀ e ∈ js, Has e ms := fun e he => by
    obtain ⟨method, f, rfl, _⟩ := hadds e he
    trivial
  rw [takes?_eq, takes?_eq, methodKind?_makeEdits (fun e he => has_makeEdits js (hw e he)),
    methodKind?_makeEdits hjs]
  have hpin := methodKind?_makeEdits hw name
  rw [hself] at hpin
  cases hk : methodKind? name ms with
  | none => rfl
  | some k =>
    rw [hk, Option.map_some, Option.some.injEq] at hpin
    have hmethod := isMethod_of_methodKind? hk
    obtain ⟨g, hg, hge⟩ := feeds_kindSteps fun e he => (hadds e he).feeds name
    simp only [Option.map_some]
    rcases kindSteps_cases fun e he => hsteps e he name with ⟨fixed, hs⟩ | ⟨h, hh, hhe⟩
    · rw [hs _ (isMethod_kindSteps js hmethod), ← hs _ hmethod, ← hpin]
    · rw [hhe _ (isMethod_kindSteps js hmethod), hge k hmethod, takes_bodyWritten hh,
        takes_bodyWritten hg]

end Find

/-! ## Issues of a run -/

theorem makeAll_issues_cons {α : Type} {f : Change → α → Outcome (Edited α)} (ch : Change)
    (changes : List Change) (a : α) :
    (makeAll f (ch :: changes) a).2 =
      (issue? (f ch a)).toList ++ (makeAll f changes (valueOr a (f ch a))).2 := by
  cases h : f ch a with
  | error e =>
    rw [makeAll_cons_error h]
    rfl
  | ok e =>
    rw [makeAll_cons_ok h]
    rfl

section Run

variable {policy : MergePolicy} {changes : List Change}

theorem issues_of_declarations (h : ∀ ch ∈ changes, ch.pass ≠ .injections) (c : ClassDecl) :
    (makeAll (editOf policy) changes c).2 = [] := by
  induction changes generalizing c with
  | nil => rfl
  | cons ch changes ih =>
    rw [makeAll_issues_cons, ih fun d hd => h d (List.mem_cons_of_mem _ hd), issue?_editOf]
    have hch := h ch (by simp)
    cases ch with
    | statements _ _ => exact absurd rfl hch
    | mapEntry _ _ _ => exact absurd rfl hch
    | _ => rfl

theorem issueOf?_congr {className : String} {ms ns : List Member} (ch : Change)
    (h : ∀ name, takes? name ms = takes? name ns) :
    issueOf? className ms ch = issueOf? className ns ch := by
  cases ch <;> simp only [issueOf?, h]

theorem issues_of_injections (hr : ∀ ch ∈ changes, OnlyRegisters ch)
    (h : ∀ ch ∈ changes, ch.pass = .injections) (c : ClassDecl) :
    (makeAll (editOf policy) changes c).2 =
      changes.filterMap (issueOf? c.name c.members) := by
  induction changes generalizing c with
  | nil => rfl
  | cons ch changes ih =>
    rw [makeAll_issues_cons, ih (fun d hd => hr d (List.mem_cons_of_mem _ hd))
      (fun d hd => h d (List.mem_cons_of_mem _ hd)), issue?_editOf, editOf_value]
    have htakes : ∀ name, takes? name (makeEdits (memberEdits c.name policy ch) c.members) =
        takes? name c.members := fun name =>
      takes?_makeEdits_of_adds
        (fun e he => addsOnce_of_mem (hr ch (by simp)) (h ch (by simp)) he) name
    have hcongr : issueOf? c.name (makeEdits (memberEdits c.name policy ch) c.members) =
        issueOf? c.name c.members := funext fun d => issueOf?_congr d htakes
    simp only [hcongr, List.filterMap_cons]
    cases issueOf? c.name c.members ch <;> rfl

end Run

end DomainScaffold.Merge
