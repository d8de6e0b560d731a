import DomainScaffold.Proofs.Merge.Issues

/-!
# Merging again

A change set that is merged into its own result changes nothing, whatever the policy, and what was
wrong with its changes is wrong with them again. Under the policy that keeps what is there, the
second merge also says that it changed nothing.

Results:
* `importRun_again`: the imports of a second run.
* `classRun_again`: the class of a second run.
* `editOf_kept`: under the policy that keeps, a change that is met is a step that changes nothing.
* `merge_merge`: a second merge.
-/

namespace DomainScaffold.Merge

open Php

/-! ## Settled changes -/

/-- A change leaves something as it is, with a given issue if there is one. -/
def Settled {α : Type} (f : Change → α → Outcome (Edited α)) (ch : Change)
    (issue : Option GenerationError) (a : α) : Prop :=
  match issue with
  | none => f ch a = .ok (.kept a)
  | some e => f ch a = .error e

section MakeAll

variable {α : Type} {f : Change → α → Outcome (Edited α)} {changes : List Change}

theorem settled_run {ch : Change} {issue : Option GenerationError}
    (hstays : ∀ d ∈ changes, ∀ a, Settled f ch issue a → Settled f ch issue (valueOr a (f d a)))
    {a : α} (h : Settled f ch issue a) : Settled f ch issue (makeAll f changes a).1.value := by
  rw [makeAll_value]
  induction changes generalizing a with
  | nil => exact h
  | cons d changes ih =>
    exact ih (fun c hc => hstays c (List.mem_cons_of_mem _ hc)) (hstays d (by simp) a h)

/-- If every change is settled once it has been made and stays so, a run on anything in which
    everything is settled as in the result of a first run changes nothing. -/
theorem makeAll_resumed
    (hself : ∀ ch ∈ changes, ∀ a, Settled f ch (issue? (f ch a)) (valueOr a (f ch a)))
    (hstays : ∀ ch ∈ changes, ∀ d ∈ changes, ∀ issue a,
      Settled f ch issue a → Settled f ch issue (valueOr a (f d a))) (a : α) {b : α}
    (hb : ∀ ch issue, Settled f ch issue (makeAll f changes a).1.value → Settled f ch issue b) :
    makeAll f changes b = (.kept b, (makeAll f changes a).2) := by
  induction changes generalizing a with
  | nil => rfl
  | cons ch changes ih =>
    have hlast : (makeAll f (ch :: changes) a).1.value =
        (makeAll f changes (valueOr a (f ch a))).1.value := by
      rw [makeAll_value, makeAll_value, List.foldl_cons]
    rw [hlast] at hb
    have ih := ih (fun d hd => hself d (List.mem_cons_of_mem _ hd))
      (fun d hd c hc => hstays d (List.mem_cons_of_mem _ hd) c (List.mem_cons_of_mem _ hc))
      (valueOr a (f ch a)) hb
    have hset := hb ch _ (settled_run
      (fun d hd a => hstays ch (by simp) d (List.mem_cons_of_mem _ hd) _ a)
      (hself ch (by simp) a))
    rw [makeAll_issues_cons]
    cases hi : issue? (f ch a) with
    | none =>
      rw [hi] at hset
      rw [makeAll_cons_ok hset]
      simp only [Edited.kept, Bool.false_or, ih]
      rfl
    | some e =>
      rw [hi] at hset
      rw [makeAll_cons_error hset, ih]
      rfl

/-- If every change is settled once it has been made and stays so, a second run changes nothing. -/
theorem makeAll_again
    (hself : ∀ ch ∈ changes, ∀ a, Settled f ch (issue? (f ch a)) (valueOr a (f ch a)))
    (hstays : ∀ ch ∈ changes, ∀ d ∈ changes, ∀ issue a,
      Settled f ch issue a → Settled f ch issue (valueOr a (f d a))) (a : α) :
    makeAll f changes (makeAll f changes a).1.value =
      (.kept (makeAll f changes a).1.value, (makeAll f changes a).2) :=
  makeAll_resumed hself hstays a fun _ _ h => h

/-- A run whose changes can be made without changing anything, or not at all. -/
theorem makeAll_kept {a : α} (h : ∀ ch ∈ changes, ∀ e, f ch a = .ok e → e = .kept a) :
    (makeAll f changes a).1 = .kept a := by
  induction changes with
  | nil => rfl
  | cons ch changes ih =>
    have ih := ih fun d hd => h d (List.mem_cons_of_mem _ hd)
    cases hf : f ch a with
    | error e => rw [makeAll_cons_error hf, ih]
    | ok e =>
      cases h ch (by simp) e hf
      rw [makeAll_cons_ok hf]
      simp only [Edited.kept, Bool.false_or, ih]

end MakeAll

/-! ## Imports -/

theorem sameLocalName_trans {i j k : Import} (h₁ : sameLocalName i j = true)
    (h₂ : sameLocalName j k = true) : sameLocalName i k = true := by
  simp only [sameLocalName, Bool.and_eq_true, beq_iff_eq, Text.sameIgnoringCase_iff] at h₁ h₂ ⊢
  exact ⟨h₁.1.trans h₂.1, h₁.2.trans h₂.2⟩

theorem sameLocalName_symm {i j : Import} (h : sameLocalName i j = true) :
    sameLocalName j i = true := by
  simp only [sameLocalName, Bool.and_eq_true, beq_iff_eq, Text.sameIgnoringCase_iff] at h ⊢
  exact ⟨h.1.symm, h.2.symm⟩

/-- The ways in which an import is made: it is not needed, its name is taken, or it is added and
    no import had its name. -/
inductive ImportStep (set : ChangeSet) (i : Import) (is : List Import) :
    Outcome (Edited (List Import)) → Prop where
  | needless : (isOwnImport set i || hasImport is i) = true → ImportStep set i is (.ok (.kept is))
  | taken {x} : (isOwnImport set i || hasImport is i) = false → conflictingImport? is i = some x →
      ImportStep set i is (.error (.importConflict set.target.name i.name x.name))
  | added : (∀ x ∈ is, sameLocalName x i = false) → ImportStep set i is (.ok (.replaced (is ++ [i])))

theorem importStep (set : ChangeSet) (i : Import) (is : List Import) :
    ImportStep set i is (importInto set (.importName i) is) := by
  cases h : isOwnImport set i || hasImport is i with
  | true =>
    rw [importInto, if_pos h]
    exact .needless h
  | false =>
    rw [importInto, if_neg (by simp [h])]
    cases hc : conflictingImport? is i with
    | some x => exact .taken h hc
    | none =>
      refine .added fun x hx => ?_
      rw [Bool.or_eq_false_iff, hasImport, List.any_eq_false] at h
      rw [conflictingImport?, List.find?_eq_none] at hc
      have hname := h.2 x hx
      have hother := hc x hx
      cases hl : sameLocalName x i <;> simp_all

theorem importInto_of_kept {set : ChangeSet} {i : Import} {is : List Import}
    (h : importInto set (.importName i) is = .ok (.kept is)) :
    (isOwnImport set i || hasImport is i) = true := by
  have step := importStep set i is
  rw [h] at step
  generalize ho : (Except.ok (.kept is) : Outcome (Edited (List Import))) = o at step
  cases step with
  | needless h => exact h
  | taken _ _ => cases ho
  | added _ => simp [Edited.kept, Edited.replaced] at ho

theorem settled_import_self (set : ChangeSet) (ch : Change) (is : List Import) :
    Settled (importInto set) ch (issue? (importInto set ch is))
      (valueOr is (importInto set ch is)) := by
  cases ch with
  | importName i =>
    have step := importStep set i is
    generalize ho : importInto set (.importName i) is = o at step ⊢
    cases step with
    | needless _ => exact ho
    | taken _ _ => exact ho
    | added _ =>
      have hhas : hasImport (is ++ [i]) i = true := by
        simp [hasImport, sameLocalName, Text.sameIgnoringCase_refl]
      show importInto set (.importName i) (is ++ [i]) = _
      rw [importInto, if_pos (by rw [hhas, Bool.or_true])]
      rfl
  | _ => rfl

/-- An import whose name was free changes nothing for the others. -/
theorem settled_import_append {set : ChangeSet} {ch : Change} {issue : Option GenerationError}
    {is : List Import} (h : Settled (importInto set) ch issue is) {j : Import}
    (hfree : ∀ x ∈ is, sameLocalName x j = false) :
    Settled (importInto set) ch issue (is ++ [j]) := by
  cases ch with
  | importName i =>
    cases issue with
    | none =>
      have hkept := importInto_of_kept h
      have hkept' : (isOwnImport set i || hasImport (is ++ [j]) i) = true := by
        rw [Bool.or_eq_true] at hkept ⊢
        refine hkept.imp_right fun hhas => ?_
        rw [hasImport, List.any_append, ← hasImport, hhas, Bool.true_or]
      show importInto set (.importName i) (is ++ [j]) = _
      rw [importInto, if_pos hkept']
    | some e =>
      have hi := importStep set i is
      rw [show importInto set (.importName i) is = .error e from h] at hi
      cases hi with
      | @taken x hneed hx =>
        -- The name of the new import was free, so it is not the one that is taken.
        have hxi : sameLocalName x i = true := by
          have := List.find?_some hx
          rw [Bool.and_eq_true] at this
          exact this.1
        have hji : sameLocalName j i = false := by
          by_contra hji
          rw [Bool.not_eq_false] at hji
          have hxj := sameLocalName_trans hxi (sameLocalName_symm hji)
          rw [hfree x (List.mem_of_find?_eq_some hx)] at hxj
          cases hxj
        have hneed' : (isOwnImport set i || hasImport (is ++ [j]) i) = false := by
          rw [Bool.or_eq_false_iff] at hneed ⊢
          refine ⟨hneed.1, ?_⟩
          rw [hasImport, List.any_append, ← hasImport, hneed.2]
          simp [hji]
        have hx' : conflictingImport? (is ++ [j]) i = some x := by
          rw [conflictingImport?, List.find?_append, ← conflictingImport?, hx]
          rfl
        show importInto set (.importName i) (is ++ [j]) = _
        rw [importInto, if_neg (by simp [hneed']), hx']
  | _ => cases issue <;> first | rfl | cases h

theorem settled_import_stays (set : ChangeSet) (ch d : Change) (issue : Option GenerationError)
    (is : List Import) (h : Settled (importInto set) ch issue is) :
    Settled (importInto set) ch issue (valueOr is (importInto set d is)) := by
  cases d with
  | importName j =>
    have step := importStep set j is
    generalize importInto set (.importName j) is = o at step ⊢
    cases step with
    | needless _ => exact h
    | taken _ _ => exact h
    | added hfree => exact settled_import_append h hfree
  | _ => exact h

/-- The imports of a second run. -/
theorem importRun_again (set : ChangeSet) (is : List Import) :
    importRun set (importRun set is).1.value = (.kept (importRun set is).1.value,
      (importRun set is).2) :=
  makeAll_again (fun ch _ => settled_import_self set ch)
    (fun ch _ d _ => settled_import_stays set ch d) is

/-! ## Interfaces -/

theorem interfacesAfter_of_any {name : String} {is : List String}
    (h : (is.any fun i => sameClassName i name) = true) :
    interfacesAfter (.interface name) is = is :=
  if_pos h

theorem any_interfacesAfter {name : String} {is : List String}
    (h : (is.any fun i => sameClassName i name) = true) (ch : Change) :
    ((interfacesAfter ch is).any fun i => sameClassName i name) = true := by
  cases ch with
  | interface other =>
    rw [interfacesAfter]
    split
    · exact h
    · rw [List.any_append, h, Bool.true_or]
  | _ => exact h

theorem any_interfacesAfter_self (name : String) (is : List String) :
    ((interfacesAfter (.interface name) is).any fun i => sameClassName i name) = true := by
  rw [interfacesAfter]
  split
  · assumption
  · simp [sameClassName, Text.sameIgnoringCase_refl]

theorem interfacesAfter_self (ch : Change) (is : List String) :
    interfacesAfter ch (interfacesAfter ch is) = interfacesAfter ch is := by
  cases ch with
  | interface name => exact interfacesAfter_of_any (any_interfacesAfter_self name is)
  | _ => rfl

theorem interfacesAfter_stays {ch : Change} {is : List String} (h : interfacesAfter ch is = is)
    (d : Change) : interfacesAfter ch (interfacesAfter d is) = interfacesAfter d is := by
  cases ch with
  | interface name =>
    have hany := any_interfacesAfter_self name is
    rw [h] at hany
    exact interfacesAfter_of_any (any_interfacesAfter hany d)
  | _ => rfl

/-- The interfaces that changes make of others have all that the changes ask for. -/
theorem interfacesAfter_foldl {changes : List Change} {ch : Change} (hch : ch ∈ changes)
    (is : List String) :
    interfacesAfter ch (changes.foldl (fun is d => interfacesAfter d is) is) =
      changes.foldl (fun is d => interfacesAfter d is) is := by
  have hstays : ∀ (ds : List Change) (is : List String), interfacesAfter ch is = is →
      interfacesAfter ch (ds.foldl (fun is d => interfacesAfter d is) is) =
        ds.foldl (fun is d => interfacesAfter d is) is := by
    intro ds
    induction ds with
    | nil => exact fun _ h => h
    | cons d ds ih => exact fun is h => ih _ (interfacesAfter_stays h d)
  induction changes generalizing is with
  | nil => cases hch
  | cons d changes ih =>
    rcases List.mem_cons.1 hch with rfl | hch
    · exact hstays changes _ (interfacesAfter_self ch is)
    · exact ih hch (interfacesAfter d is)

theorem foldl_interfacesAfter_again (changes : List Change) (is : List String) :
    changes.foldl (fun is d => interfacesAfter d is)
        (changes.foldl (fun is d => interfacesAfter d is) is) =
      changes.foldl (fun is d => interfacesAfter d is) is := by
  have h : ∀ ch ∈ changes, interfacesAfter ch _ = _ := fun ch hch => interfacesAfter_foldl hch is
  generalize changes.foldl (fun is d => interfacesAfter d is) is = js at h ⊢
  induction changes with
  | nil => rfl
  | cons ch changes ih =>
    rw [List.foldl_cons, h ch (by simp)]
    exact ih fun d hd => h d (List.mem_cons_of_mem _ hd)

/-! ## The class -/

section Class

variable {set : ChangeSet}

theorem classRun_again_value (h : ∀ ch ∈ set.changes, OnlyRegisters ch) (policy : MergePolicy)
    (c : ClassDecl) :
    (classRun policy set (classRun policy set c).1.value).1.value =
      (classRun policy set c).1.value := by
  simp only [classRun, makeAll_editOf_value, foldl_interfacesAfter_again, edits_again h]

theorem classRun_issues (h : ∀ ch ∈ set.changes, OnlyRegisters ch) (policy : MergePolicy)
    (c : ClassDecl) :
    (classRun policy set c).2 = (ofPass set.changes .injections).filterMap (issueOf? c.name
      (makeEdits (declarationEdits c.name policy set.changes) c.members)) := by
  rw [classRun, ordered_eq, makeAll_append,
    issues_of_declarations fun _ => pass_ne_injections_of_mem, List.nil_append,
    issues_of_injections (fun ch hch => h ch (mem_of_mem_ofPass hch)) fun _ => pass_of_mem_ofPass,
    makeAll_editOf_value]
  rfl

theorem classRun_again_issues (h : ∀ ch ∈ set.changes, OnlyRegisters ch) (policy : MergePolicy)
    (c : ClassDecl) :
    (classRun policy set (classRun policy set c).1.value).2 = (classRun policy set c).2 := by
  have htakes : ∀ name,
      takes? name (makeEdits (declarationEdits c.name policy set.changes)
        (makeEdits (injectionEdits c.name policy set.changes)
          (makeEdits (declarationEdits c.name policy set.changes) c.members))) =
      takes? name (makeEdits (declarationEdits c.name policy set.changes) c.members) :=
    takes?_makeEdits_again (fun _ he => has_makeEdits_self he c.members)
      (declarationEdits_again c.members) (fun _ => addsOnce_of_mem_edits h)
      (fun _ he => sets_or_feeds_of_mem_edits h he)
  rw [classRun_issues h, classRun_issues h]
  simp only [classRun, makeAll_editOf_value, edits_eq, makeEdits_append]
  congr 1
  funext ch
  exact issueOf?_congr ch htakes

/-! ## The policy that keeps -/

theorem foldl_kept {β : Type} {f : β → ClassDecl → Edited ClassDecl} {u : β → Upsert}
    (h : ∀ b c, Performs (u b) c (f b c)) {bs : List β} {c : ClassDecl}
    (hid : ∀ b ∈ bs, (u b).write = id)
    (hany : ∀ b ∈ bs, c.members.any (u b).slot.inMember = true) :
    Edited.foldl f c bs = .kept c := by
  induction bs with
  | nil => rfl
  | cons b bs ih =>
    have hvalue : (f b c).value = c := by
      rw [(h b c).value, apply_of_write_eq_id (hid b (by simp)) (hany b (by simp))]
      rfl
    rw [Edited.foldl, hvalue, (h b c).changed (hid b (by simp)) (hany b (by simp))]
    simp only [Bool.false_or]
    exact ih (fun d hd => hid d (List.mem_cons_of_mem _ hd))
      (fun d hd => hany d (List.mem_cons_of_mem _ hd))

theorem editBody_kept {method : String} {noBody : GenerationError}
    {f : List Statement → Outcome (Edited (List Statement))} (hf : Exact f) {c : ClassDecl}
    (h : (MemberEdit.body method fun b => afterEdit b (f b)).apply c.members = c.members)
    {e : Edited ClassDecl} (he : editBody method noBody f c = .ok e) : e = .kept c := by
  cases hfind : c.members.find? (Slot.method method).inMember with
  | none =>
    rw [editBody_of_find?_eq_none hfind] at he
    cases he
  | some m =>
    obtain ⟨d, hd⟩ := method?_eq_some_of_inMember (List.find?_some hfind)
    cases hb : d.body with
    | none =>
      rw [editBody_of_bodyless hfind hd hb] at he
      cases he
    | some body =>
      rw [editBody_of_body hfind hd hb hf] at he
      cases hbody : f body with
      | error _ => rw [hbody] at he; cases he
      | ok e' =>
        rw [hbody] at he
        cases he
        have hsame := congrArg Member.kind ((editFirst_eq_self_iff hfind).1 h)
        rw [kind_rewrite, hd, bodyWritten, hb, Option.map_some, hbody,
          MemberKind.method.injEq] at hsame
        have hvalue := Option.some.inj ((congrArg MethodDecl.body hsame).trans hb)
        have hchanged : e'.changed = false := by
          by_contra hc
          rw [Bool.not_eq_false] at hc
          rw [afterEdit, if_pos hc] at hvalue
          exact hf body e' hbody hc hvalue
        show (⟨withMembers c ((MemberEdit.body method fun b => afterEdit b (f b)).apply c.members),
          e'.changed⟩ : Edited ClassDecl) = _
        rw [h, hchanged]
        rfl

/-- A change that is met: what it declares is there, and so is what it adds to a body. -/
structure Met (policy : MergePolicy) (ch : Change) (c : ClassDecl) : Prop where
  interfaces : interfacesAfter ch c.interfaces = c.interfaces
  has : ∀ e ∈ memberEdits c.name policy ch, Has e c.members
  kept : ∀ method f, .body method f ∈ memberEdits c.name policy ch →
    (MemberEdit.body method f).apply c.members = c.members

theorem Performs.eq_kept {u : Upsert} {c : ClassDecl} {e : Edited ClassDecl} (h : Performs u c e)
    (hid : u.write = id) (hany : c.members.any u.slot.inMember = true) : e = .kept c := by
  have hvalue := h.value
  rw [apply_of_write_eq_id hid hany] at hvalue
  rw [Edited.kept, ← h.changed hid hany]
  cases e
  exact congrArg (Edited.mk · _) hvalue

/-- Under the policy that keeps, a change that is met is a step that changes nothing. -/
theorem editOf_kept {ch : Change} {c : ClassDecl} (h : Met .preserve ch c) {e : Edited ClassDecl}
    (he : editOf .preserve ch c = .ok e) : e = .kept c := by
  cases ch with
  | importName i => cases he; rfl
  | interface name =>
    cases he
    have hany := any_interfacesAfter_self name c.interfaces
    rw [h.interfaces] at hany
    exact if_pos hany
  | traitUse name =>
    cases he
    exact (performs_ensureTrait name c).eq_kept rfl (h.has (.declare (.ofTrait name)) (by simp [memberEdits]))
  | constant decl =>
    cases he
    exact foldl_kept (performs_ensureConstantEntry .preserve decl) (fun _ _ => rfl)
      fun b hb => h.has _ (List.mem_map.2 ⟨b, hb, rfl⟩)
  | property decl =>
    cases he
    exact foldl_kept (performs_ensurePropertyEntry .preserve decl) (fun _ _ => rfl)
      fun b hb => h.has _ (List.mem_map.2 ⟨b, hb, rfl⟩)
  | method d =>
    cases he
    exact (performs_ensureMethod .preserve d c).eq_kept rfl
      (h.has (.declare (.ofMethod .preserve d)) (by simp [memberEdits]))
  | methodGroup ds =>
    cases he
    rcases h.has (.group ds) (by simp [memberEdits]) with rfl | hany
    · simp [ensureMethodGroup, appendMethods, Edited.kept, withMembers]
    · exact if_pos (by simpa only [isSome_methodPlace?] using hany)
  | statements method ss =>
    exact editBody_kept (exact_injected ss) (h.kept _ _ (by simp [memberEdits])) he
  | mapEntry method key value =>
    exact editBody_kept (exact_injectEntry _ key value) (h.kept _ _ (by simp [memberEdits])) he

theorem apply_body_eq_self_iff {method : String} {f : List Statement → List Statement}
    {ms : List Member} : (MemberEdit.body method f).apply ms = ms ↔
      ∀ m, ms.find? (Slot.method method).inMember = some m → bodyWritten f m.kind = m.kind := by
  constructor
  · intro h m hm
    have hself := congrArg Member.kind ((editFirst_eq_self_iff hm).1 h)
    rwa [kind_rewrite] at hself
  · exact fun h => editFirst_eq_self fun m hm => rewrite_of_eq (h m hm)

theorem AddsOnce.has {e : MemberEdit} (h : AddsOnce e) (ms : List Member) : Has e ms := by
  obtain ⟨_, _, rfl, _⟩ := h
  trivial

theorem apply_body_self {method : String} {f : List Statement → List Statement}
    (hf : GrowsOnce f) (ms : List Member) :
    (MemberEdit.body method f).apply ((MemberEdit.body method f).apply ms) =
      (MemberEdit.body method f).apply ms := by
  simp only [MemberEdit.apply]
  rw [editFirst_editFirst fun m hm => by
    rwa [Slot.inMember, kind_rewrite, outline_bodyWritten]]
  exact editFirst_congr fun m _ => rewrite_rewrite_self (hf.bodyWritten_again m.kind)

/-- An addition that is there stays there under other additions. -/
theorem apply_body_stays {method : String} {f : List Statement → List Statement}
    (hf : GrowsOnce f) {d : MemberEdit} (hd : AddsOnce d) {ms : List Member}
    (h : (MemberEdit.body method f).apply ms = ms) :
    (MemberEdit.body method f).apply (d.apply ms) = d.apply ms := by
  rw [apply_body_eq_self_iff] at h ⊢
  intro n hn
  rw [find?_apply (hd.has ms)] at hn
  obtain ⟨m, hm, rfl⟩ := Option.map_eq_some_iff.1 hn
  obtain ⟨g, hg, hge⟩ := hd.feeds method
  have hmethod : (Slot.method method).inMember m = true := List.find?_some hm
  rw [kind_rewrite, hge m.kind hmethod]
  exact hf.bodyWritten_stays hg (h m hm)

theorem apply_body_makeEdits {method : String} {f : List Statement → List Statement}
    (hf : GrowsOnce f) {es : List MemberEdit} (hadds : ∀ e ∈ es, AddsOnce e) {ms : List Member}
    (h : (MemberEdit.body method f).apply ms = ms) :
    (MemberEdit.body method f).apply (makeEdits es ms) = makeEdits es ms := by
  induction es generalizing ms with
  | nil => exact h
  | cons e es ih =>
    exact ih (fun d hd => hadds d (List.mem_cons_of_mem _ hd))
      (apply_body_stays hf (hadds e (by simp)) h)

/-- What additions in a row have added is there. -/
theorem apply_body_of_mem {method : String} {f : List Statement → List Statement}
    {es : List MemberEdit} (he : .body method f ∈ es) (hadds : ∀ e ∈ es, AddsOnce e)
    (ms : List Member) :
    (MemberEdit.body method f).apply (makeEdits es ms) = makeEdits es ms := by
  induction es generalizing ms with
  | nil => cases he
  | cons e es ih =>
    have hadds' : ∀ d ∈ es, AddsOnce d := fun d hd => hadds d (List.mem_cons_of_mem _ hd)
    rcases List.mem_cons.1 he with rfl | he
    · obtain ⟨_, _, heq, hf⟩ := hadds (.body method f) (by simp)
      cases heq
      exact apply_body_makeEdits hf hadds' (apply_body_self hf ms)
    · exact ih he hadds' (e.apply ms)

theorem met_classRun (h : ∀ ch ∈ set.changes, OnlyRegisters ch) (policy : MergePolicy)
    (c : ClassDecl) {ch : Change} (hch : ch ∈ ordered set.changes) :
    Met policy ch (classRun policy set c).1.value := by
  rw [classRun, makeAll_editOf_value]
  refine ⟨interfacesAfter_foldl hch c.interfaces, fun e he => ?_, fun method f hf => ?_⟩
  · exact has_makeEdits_self (List.mem_flatMap.2 ⟨ch, hch, he⟩) c.members
  · dsimp only at hf ⊢
    rw [edits_eq, makeEdits_append]
    refine apply_body_of_mem ?_ (fun _ => addsOnce_of_mem_edits h) _
    rw [ordered_eq] at hch
    rcases List.mem_append.1 hch with hch | hch
    · exact absurd (declares_of_mem (pass_ne_injections_of_mem hch) hf) id
    · exact List.mem_flatMap.2 ⟨ch, hch, hf⟩

/-- The class of a second run under the policy that keeps. -/
theorem classRun_again_kept (h : ∀ ch ∈ set.changes, OnlyRegisters ch) (c : ClassDecl) :
    (classRun .preserve set (classRun .preserve set c).1.value).1 =
      .kept (classRun .preserve set c).1.value :=
  makeAll_kept fun _ hch _ he => editOf_kept (met_classRun h .preserve c hch) he

end Class

/-! ## Merges -/

/-- Merging a change set into its own result changes nothing. -/
theorem merge_merge {rules : MergeRules} {set : ChangeSet} {t : SourceTree}
    (hr : ∀ ch ∈ set.changes, OnlyRegisters ch) (h : (merge rules t set).applied = true) :
    let first := merge rules t set
    let second := merge rules first.tree set
    second.applied = true ∧ second.tree = first.tree ∧ second.issues = first.issues ∧
      (rules.policy = .preserve → second.modified = false) := by
  obtain ⟨p, i, c, prepared, htree, hissues⟩ := merge_applied h
  dsimp only
  rw [htree, hissues]
  generalize hd : (classRun rules.policy set c).1.value = d
  generalize hu : withClass (withImports p (importRun set t.imports).1.value) i d = u
  have htarget : IsTarget set.target.name u i d := by
    have hname : d.name = c.name := by rw [← hd, classRun, makeAll_editOf_value]
    have hc : IsTarget set.target.name (withImports p (importRun set t.imports).1.value) i c :=
      prepared.target
    rw [← hu]
    exact isTarget_withClass hc hname
  have hstrict : rules.strictTypes = true → u.strictTypes = true := fun hs => by
    rw [← hu]
    exact prepared.strictTypes.trans (by rw [hs, Bool.or_true])
  have hfits : NamespaceFits set.namespaceName u.namespaceName := by
    rw [← hu]
    exact prepared.fits
  have himports : u.imports = (importRun set t.imports).1.value := by
    rw [← hu]
    rfl
  have hsame : withClass (withImports u u.imports) i d = u := withClass_self htarget
  have hvalue : (classRun rules.policy set d).1.value = d := by
    rw [← hd, classRun_again_value hr]
  rw [merge_of_settled hstrict hfits htarget, himports, importRun_again, ← himports, hvalue]
  refine ⟨rfl, hsame, ?_, fun hp => ?_⟩
  · rw [← hd, classRun_again_issues hr]
  · rw [hp] at hd ⊢
    rw [← hd, classRun_again_kept hr]
    rfl

/-- A class with a method that registers a name. -/
def registerSet (name : String) : ChangeSet :=
  ⟨"Acme", .finalClass "Event",
    [.interface "Description",
      .method ⟨[], some .pub, true, false, false, false, "describe", [], some "void", some []⟩,
      .statements "describe" [.ofExpr (.methodCall (.var "engine") "register" [.text name])]]⟩

theorem merge_merge_registerSet :
    (∀ ch ∈ (registerSet "a").changes, OnlyRegisters ch) ∧
      (merge ⟨.replace, true⟩ .empty (registerSet "a")).applied = true ∧
      let first := merge ⟨.replace, true⟩ .empty (registerSet "a")
      let second := merge ⟨.replace, true⟩ first.tree (registerSet "a")
      second.applied = true ∧ second.tree = first.tree ∧ second.issues = first.issues ∧
        (MergePolicy.replace = .preserve → second.modified = false) :=
  have hr : ∀ ch ∈ (registerSet "a").changes, OnlyRegisters ch := by decide
  have h : (merge ⟨.replace, true⟩ .empty (registerSet "a")).applied = true := by decide
  ⟨hr, h, merge_merge hr h⟩

end DomainScaffold.Merge
