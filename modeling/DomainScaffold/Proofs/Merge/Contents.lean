import DomainScaffold.Proofs.Merge.Acceptance
import DomainScaffold.Proofs.Merge.Distinct
import DomainScaffold.Proofs.Merge.Replacement

/-!
# The contents of a new class

A class that is made of nothing by declarations has what they say and nothing else. Of several
methods with one name the policy that keeps takes the first, the one that replaces the last.

Results:
* `saidBy_apply`, `saidBy_makeEdits`: where the members of a class come from.
* `reading_method_apply`, `reading_methods`: which of several methods with one name is there.
* `contents_merge`: the class that a merge makes of nothing.
* `conflict_of_mem_issues`: what can be wrong with declarations.
-/

namespace DomainScaffold.Merge

open Php

/-! ## Declarations -/

/-- A change that declares things each on its own. -/
def DeclaresEach : Change → Prop
  | .methodGroup _ | .statements .. | .mapEntry .. => False
  | _ => True

/-- The method that a change declares. -/
def methodOfChange? : Change → Option MethodDecl
  | .method d => some d
  | _ => none

/-- The methods that changes declare one by one. -/
def declaredMethods (changes : List Change) : List MethodDecl := changes.filterMap methodOfChange?

theorem declaredMethods_append (changes more : List Change) :
    declaredMethods (changes ++ more) = declaredMethods changes ++ declaredMethods more :=
  List.filterMap_append

theorem declaredMethods_map_method (ds : List MethodDecl) :
    declaredMethods (ds.map .method) = ds := by
  rw [declaredMethods, List.filterMap_map]
  exact List.filterMap_some

theorem mem_declaredMethods {changes : List Change} {d : MethodDecl} :
    d ∈ declaredMethods changes ↔ .method d ∈ changes := by
  rw [declaredMethods, List.mem_filterMap]
  constructor
  · rintro ⟨ch, hch, hd⟩
    cases ch <;> cases hd
    exact hch
  · exact fun h => ⟨_, h, rfl⟩

/-- The methods are declared in one pass, and in their order. -/
theorem declaredMethods_ordered (changes : List Change) :
    declaredMethods (ordered changes) = declaredMethods changes := by
  have hpass : ∀ p, declaredMethods (ofPass changes p) =
      if p = .methods then declaredMethods changes else [] := by
    intro p
    rw [declaredMethods, ofPass, List.filterMap_filter]
    split
    · rename_i hp
      refine List.filterMap_congr fun ch _ => ?_
      cases ch <;> simp [Change.pass, methodOfChange?, hp]
    · rename_i hp
      refine List.filterMap_eq_nil_iff.2 fun ch _ => ?_
      cases ch <;> simp [Change.pass, methodOfChange?, Ne.symm hp]
  simp [ordered, Pass.inClass, declaredMethods_append, hpass]

/-! ## Where members come from -/

/-- What a member declares if it comes from changes. -/
inductive SaidBy (changes : List Change) : MemberKind → Prop
  | trait (names : List String) : SaidBy changes (.traitUse names)
  | constant {decl d : ConstantDecl} {entry : String × Expr} (h : .constant decl ∈ changes)
      (hentry : entry ∈ decl.entries) (hd : d.entries = [entry]) : SaidBy changes (.constant d)
  | property {decl d : PropertyDecl} {entry : String × Option Expr} (h : .property decl ∈ changes)
      (hentry : entry ∈ decl.entries) (hd : d.entries = [entry]) : SaidBy changes (.property d)
  | method {d : MethodDecl} (h : .method d ∈ changes) : SaidBy changes (.method d)

section SaidBy

variable {className : String} {policy : MergePolicy} {changes : List Change} {ch : Change}
  {ms : List Member} {e : MemberEdit}

/-- What holds of the new member of an edit, and is kept where the edit rewrites one, holds of all
    members behind it. -/
theorem forall_apply {P : MemberKind → Prop} {u : Upsert} (hfresh : P u.fresh)
    (hwrite : ∀ k, u.slot.fits (outlineOf k) = true → P k → P (u.write k))
    (h : ∀ m ∈ ms, P m.kind) : ∀ m ∈ u.apply ms, P m.kind := by
  intro m hm
  by_cases hany : ms.any u.slot.inMember = true
  · rw [Upsert.apply_of_any hany] at hm
    rcases mem_editFirst hm with hm | ⟨n, hn, hfits, rfl⟩
    · exact h m hm
    · rw [kind_rewrite]
      exact hwrite n.kind hfits (h n hn)
  · rw [Upsert.apply_of_not_any (by simpa using hany), List.mem_insertIdx (u.place_le ms)] at hm
    rcases hm with rfl | hm
    · exact hfresh
    · exact h m hm

theorem saidBy_constantWritten {decl : ConstantDecl} {entry : String × Expr}
    (h : .constant decl ∈ changes) (hentry : entry ∈ decl.entries) {k : MemberKind}
    (hfits : (Slot.constant entry.1).fits (outlineOf k) = true) (hk : SaidBy changes k) :
    SaidBy changes (constantWritten entry k) := by
  cases hk with
  | @constant _ d old _ _ hd =>
    have hname : entry.1 = old.1 := by simpa [outlineOf, Slot.fits, hd] using hfits
    exact .constant h hentry (by simp [editFirst, hd, ← hname])
  | _ => cases hfits

theorem saidBy_propertyWritten {decl : PropertyDecl} {entry : String × Option Expr}
    (h : .property decl ∈ changes) (hentry : entry ∈ decl.entries) {k : MemberKind}
    (hfits : (Slot.property entry.1).fits (outlineOf k) = true) (hk : SaidBy changes k) :
    SaidBy changes (propertyWritten decl entry k) := by
  cases hk with
  | @property _ d _ _ _ hd =>
    rw [propertyWritten, if_pos (by rw [hd]; rfl)]
    exact .property h hentry rfl
  | _ => cases hfits

/-- An edit for a change leaves members that come from changes. -/
theorem saidBy_apply (hch : ch ∈ changes) (heach : DeclaresEach ch)
    (he : e ∈ memberEdits className policy ch) (h : ∀ m ∈ ms, SaidBy changes m.kind) :
    ∀ m ∈ e.apply ms, SaidBy changes m.kind := by
  cases ch with
  | traitUse name =>
    obtain rfl := List.mem_singleton.1 he
    exact forall_apply (.trait [name]) (fun _ _ hk => hk) h
  | constant decl =>
    obtain ⟨entry, hentry, rfl⟩ := List.mem_map.1 he
    refine forall_apply (.constant hch hentry rfl) (fun k hfits hk => ?_) h
    cases policy with
    | preserve => exact hk
    | replace => exact saidBy_constantWritten hch hentry hfits hk
  | property decl =>
    obtain ⟨entry, hentry, rfl⟩ := List.mem_map.1 he
    refine forall_apply (.property hch hentry rfl) (fun k hfits hk => ?_) h
    cases policy with
    | preserve => exact hk
    | replace => exact saidBy_propertyWritten hch hentry hfits hk
  | method d =>
    obtain rfl := List.mem_singleton.1 he
    refine forall_apply (.method hch) (fun k hfits hk => ?_) h
    cases policy with
    | preserve => exact hk
    | replace =>
      obtain ⟨d', rfl⟩ := exists_of_isMethod hfits
      exact .method hch
  | importName _ | interface _ => cases he
  | _ => exact absurd heach id

/-- All members that edits for changes make of none come from the changes. -/
theorem saidBy_makeEdits {es : List MemberEdit}
    (hes : ∀ e ∈ es, ∃ ch ∈ changes, DeclaresEach ch ∧ e ∈ memberEdits className policy ch)
    (h : ∀ m ∈ ms, SaidBy changes m.kind) : ∀ m ∈ makeEdits es ms, SaidBy changes m.kind := by
  induction es generalizing ms with
  | nil => exact h
  | cons e es ih =>
    obtain ⟨ch, hch, heach, he⟩ := hes e (by simp)
    exact ih (fun e' he' => hes e' (List.mem_cons_of_mem _ he')) (saidBy_apply hch heach he h)

end SaidBy

/-! ## Methods with one name -/

/-- The method with a name that declarations leave in a class without methods. -/
def chosen (policy : MergePolicy) (name : String) (ds : List MethodDecl) : Option MethodDecl :=
  let named := ds.filter fun d => Text.sameIgnoringCase d.name name
  match policy with
  | .preserve => named.head?
  | .replace => named.getLast?

section Chosen

variable {policy : MergePolicy} {name : String} {d : MethodDecl} {ds es : List MethodDecl}
  {ms : List Member}

theorem mem_of_chosen (h : chosen policy name ds = some d) :
    d ∈ ds ∧ Text.sameIgnoringCase d.name name = true := by
  cases policy with
  | preserve => exact List.mem_filter.1 (List.mem_of_head? h)
  | replace => exact List.mem_filter.1 (List.mem_of_getLast? h)

theorem exists_chosen (policy : MergePolicy) (hd : d ∈ ds)
    (hname : Text.sameIgnoringCase d.name name = true) :
    ∃ c, chosen policy name ds = some c := by
  have hne : ds.filter (fun d => Text.sameIgnoringCase d.name name) ≠ [] :=
    List.ne_nil_of_mem (List.mem_filter.2 ⟨hd, hname⟩)
  cases policy with
  | preserve => exact ⟨_, List.head?_eq_some_head hne⟩
  | replace => exact ⟨_, List.getLast?_eq_some_getLast hne⟩

/-- Methods of other names change nothing. -/
theorem chosen_append_of_forall (h : ∀ d ∈ es, Text.sameIgnoringCase d.name name = false) :
    chosen policy name (ds ++ es) = chosen policy name ds := by
  have hnone : es.filter (fun d => Text.sameIgnoringCase d.name name) = [] :=
    List.filter_eq_nil_iff.2 fun d hd => by simp [h d hd]
  simp only [chosen, List.filter_append, hnone, List.append_nil]

/-- The policy that keeps keeps what it has chosen. -/
theorem chosen_preserve_append {c : MethodDecl} (h : chosen .preserve name ds = some c) :
    chosen .preserve name (ds ++ es) = some c := by
  rw [chosen] at h ⊢
  rw [List.filter_append, List.head?_append, h, Option.some_or]

/-- The policy that replaces prefers later methods. -/
theorem chosen_replace_append (hd : d ∈ es) (hname : Text.sameIgnoringCase d.name name = true) :
    chosen .replace name (ds ++ es) = chosen .replace name es := by
  obtain ⟨c, hc⟩ := exists_chosen .replace hd hname
  rw [chosen] at hc ⊢
  rw [List.filter_append, List.getLast?_append, hc, Option.some_or, chosen, hc]

theorem chosen_concat : chosen policy name (ds ++ [d]) =
    if Text.sameIgnoringCase d.name name then
      match policy with
      | .preserve => (chosen policy name ds).or (some d)
      | .replace => some d
    else chosen policy name ds := by
  cases hname : Text.sameIgnoringCase d.name name with
  | false => exact chosen_append_of_forall (by simpa using hname)
  | true => cases policy <;> simp [chosen, hname]

theorem methodOf?_congr {other : String} (h : Text.sameIgnoringCase other name = true) :
    methodOf? other = methodOf? name := by
  funext k
  have hfold : Text.foldAscii other = Text.foldAscii name := beq_iff_eq.1 h
  cases k <;> simp only [methodOf?, hfold]

/-- The method with a name behind a declaration. -/
theorem reading_method_apply (policy : MergePolicy) (name : String) (d : MethodDecl)
    (ms : List Member) :
    reading (methodOf? name) ((Upsert.ofMethod policy d).apply ms) =
      if Text.sameIgnoringCase d.name name then
        match policy with
        | .preserve => (reading (methodOf? name) ms).or (some d)
        | .replace => some d
      else reading (methodOf? name) ms := by
  have hself : methodOf? d.name (.method d) = some d := if_pos (beq_self_eq_true _)
  cases hname : Text.sameIgnoringCase d.name name with
  | true =>
    rw [← methodOf?_congr hname, if_pos rfl]
    cases policy with
    | preserve =>
      have hkeeps : Decides (.ofMethod .preserve d) (methodOf? d.name) id :=
        ⟨(decides_method d).isSome, fun k _ => (Option.map_id_apply ).symm⟩
      rw [reading_apply_self hkeeps]
      cases reading (methodOf? d.name) ms with
      | none => exact hself
      | some _ => rfl
    | replace =>
      rw [reading_apply_self (decides_method d)]
      cases reading (methodOf? d.name) ms with
      | none => exact hself
      | some _ => rfl
  | false =>
    have hfold : Text.foldAscii d.name ≠ Text.foldAscii name := beq_eq_false_iff_ne.1 hname
    have hfresh : methodOf? name (.method d) = none := if_neg (by simpa using hfold)
    rw [if_neg nofun]
    refine reading_apply_of_ignores (e := .declare (.ofMethod policy d)) ⟨fun k hk => ?_, ?_⟩ ms
    · cases policy with
      | preserve => rfl
      | replace =>
        obtain ⟨e, rfl⟩ := exists_of_isMethod hk
        rw [methodOf?_of_ne hk hfold]
        exact hfresh
    · exact hfresh

/-- Other declarations leave methods as they are. -/
theorem ignores_methodOf?_of_mem {className : String} {ch : Change} {e : MemberEdit}
    (hch : DeclaresEach ch) (hmethod : methodOfChange? ch = none)
    (he : e ∈ memberEdits className policy ch) : Ignores (methodOf? name) e := by
  cases ch with
  | traitUse name =>
    obtain rfl := List.mem_singleton.1 he
    exact ⟨fun _ _ => rfl, rfl⟩
  | constant decl =>
    obtain ⟨entry, -, rfl⟩ := List.mem_map.1 he
    refine ⟨fun k _ => ?_, rfl⟩
    cases policy <;> cases k <;> rfl
  | property decl =>
    obtain ⟨entry, -, rfl⟩ := List.mem_map.1 he
    refine ⟨fun k _ => ?_, rfl⟩
    cases policy <;> cases k <;> rfl
  | method d => cases hmethod
  | importName _ | interface _ => cases he
  | _ => exact absurd hch id

/-- The method with a name that declarations make of nothing. -/
theorem reading_methods {className : String} {changes : List Change}
    (h : ∀ ch ∈ changes, DeclaresEach ch) :
    reading (methodOf? name) (makeEdits (changes.flatMap (memberEdits className policy)) []) =
      chosen policy name (declaredMethods changes) := by
  induction changes using List.reverseRecOn with
  | nil => cases policy <;> rfl
  | append_singleton changes ch ih =>
    have ih := ih fun ch hch => h ch (List.mem_append_left _ hch)
    have hch := h ch (by simp)
    rw [List.flatMap_append, makeEdits_append, List.flatMap_singleton, declaredMethods_append]
    generalize makeEdits (changes.flatMap (memberEdits className policy)) [] = ms at ih ⊢
    cases hmethod : methodOfChange? ch with
    | none =>
      have hnone : declaredMethods [ch] = [] := List.filterMap_eq_nil_iff.2 (by simpa using hmethod)
      rw [reading_makeEdits_of_ignores fun e he => ignores_methodOf?_of_mem hch hmethod he, ih,
        hnone, List.append_nil]
    | some d =>
      obtain rfl : ch = .method d := by
        cases ch <;> cases hmethod
        rfl
      show reading _ ((Upsert.ofMethod policy d).apply ms) =
        chosen policy name (declaredMethods changes ++ [d])
      rw [reading_method_apply, chosen_concat, ih]

end Chosen

/-! ## The class -/

/-- What the class that declarations make of nothing has. -/
structure Contents (policy : MergePolicy) (changes : List Change) (c : ClassDecl) : Prop where
  /-- It declares nothing twice. -/
  distinct : ClassDistinct .asWritten c
  /-- It has nothing but what the changes say. -/
  said : ∀ m ∈ c.members, SaidBy changes m.kind
  /-- It has something for each name of a change. -/
  has : ∀ ch ∈ changes, ∀ s ∈ replacedSlots ch, c.members.any s.inMember = true
  method? : ∀ name, c.method? name = chosen policy name (declaredMethods changes)

theorem Contents.mem_declaredMethods {policy : MergePolicy} {changes : List Change} {c : ClassDecl}
    (h : Contents policy changes c) {d : MethodDecl} (hd : d ∈ c.methods) :
    d ∈ declaredMethods changes := by
  obtain ⟨⟨kind, _, _⟩, hm, hkind⟩ := List.mem_filterMap.1 hd
  have hsaid := h.said _ hm
  cases hsaid with
  | method hd =>
    cases hkind
    exact Merge.mem_declaredMethods.2 hd
  | _ => cases hkind

/-- A method is found by its name. -/
theorem Contents.method?_of_mem {policy : MergePolicy} {changes : List Change} {c : ClassDecl}
    (h : Contents policy changes c) {d : MethodDecl} (hd : d ∈ c.methods) :
    c.method? d.name = some d := by
  have hsome : (c.method? d.name).isSome = true :=
    List.find?_isSome.2 ⟨d, hd, Text.sameIgnoringCase_refl _⟩
  obtain ⟨d', hd'⟩ := Option.isSome_iff_exists.1 hsome
  have hname := List.find?_some hd'
  rw [hd', List.inj_on_of_nodup_map h.distinct.methods (List.mem_of_find?_eq_some hd') hd
    (beq_iff_eq.1 hname)]

theorem mem_memberEdits_of_slot (className : String) (policy : MergePolicy) {ch : Change} {s : Slot}
    (hs : s ∈ replacedSlots ch) :
    ∃ u, .declare u ∈ memberEdits className policy ch ∧ u.slot = s := by
  cases ch with
  | constant decl =>
    obtain ⟨entry, hentry, rfl⟩ := List.mem_map.1 hs
    exact ⟨.ofConstant policy decl entry, List.mem_map.2 ⟨entry, hentry, rfl⟩, rfl⟩
  | property decl =>
    obtain ⟨entry, hentry, rfl⟩ := List.mem_map.1 hs
    exact ⟨.ofProperty policy decl entry, List.mem_map.2 ⟨entry, hentry, rfl⟩, rfl⟩
  | method d =>
    obtain rfl := List.mem_singleton.1 hs
    exact ⟨.ofMethod policy d, List.mem_singleton_self _, rfl⟩
  | _ => cases hs

/-- An issue of a run is that of a change. -/
theorem exists_of_mem_issues {α : Type} {f : Change → α → Outcome (Edited α)}
    {changes : List Change} {a : α} {e : GenerationError} (he : e ∈ (makeAll f changes a).2) :
    ∃ ch ∈ changes, ∃ b, f ch b = .error e := by
  induction changes generalizing a with
  | nil => cases he
  | cons ch changes ih =>
    cases h : f ch a with
    | error e' =>
      rw [makeAll_cons_error h] at he
      rcases List.mem_cons.1 he with rfl | he
      · exact ⟨ch, by simp, a, h⟩
      · obtain ⟨ch', hch', hfails⟩ := ih he
        exact ⟨ch', List.mem_cons_of_mem _ hch', hfails⟩
    | ok first =>
      rw [makeAll_cons_ok h] at he
      obtain ⟨ch', hch', hfails⟩ := ih he
      exact ⟨ch', List.mem_cons_of_mem _ hch', hfails⟩

section Merge

variable {rules : MergeRules} {set : ChangeSet}

/-- The class that a run of declarations makes of a class without members. -/
theorem contents_classRun (heach : ∀ ch ∈ set.changes, DeclaresEach ch) {policy : MergePolicy}
    {c : ClassDecl} (hmembers : c.members = [])
    (hdistinct : ClassDistinct .asWritten (classRun policy set c).1.value) :
    Contents policy set.changes (classRun policy set c).1.value := by
  have hvalue : (classRun policy set c).1.value.members =
      makeEdits ((ordered set.changes).flatMap (memberEdits c.name policy)) [] := by
    rw [classRun, makeAll_editOf_value, hmembers]
  have hedits : ∀ e ∈ (ordered set.changes).flatMap (memberEdits c.name policy),
      ∃ ch ∈ set.changes, DeclaresEach ch ∧ e ∈ memberEdits c.name policy ch := fun e he => by
    obtain ⟨ch, hch, he⟩ := List.mem_flatMap.1 he
    have hch := mem_of_mem_ordered hch
    exact ⟨ch, hch, heach ch hch, he⟩
  refine ⟨hdistinct, fun m hm => ?_, fun ch hch s hs => ?_, fun name => ?_⟩
  · rw [hvalue] at hm
    exact saidBy_makeEdits hedits (fun _ hm => absurd hm List.not_mem_nil) m hm
  · obtain ⟨u, hu, rfl⟩ := mem_memberEdits_of_slot c.name policy hs
    have hpass : ch.pass ≠ .imports := by
      intro hp
      cases ch <;> simp [Change.pass, replacedSlots] at hp hs
    have hhas : Has (.declare u) _ := has_makeEdits_self
      (List.mem_flatMap.2 ⟨ch, mem_ordered_of_pass hch hpass, hu⟩) []
    rw [hvalue]
    exact hhas
  · rw [method?_eq_reading, hvalue, reading_methods fun ch hch => heach ch (mem_of_mem_ordered hch),
      declaredMethods_ordered]

/-- The class that a merge of declarations makes of an empty file. -/
theorem contents_merge (rules : MergeRules) (set : ChangeSet)
    (heach : ∀ ch ∈ set.changes, DeclaresEach ch)
    (hbrings : ∀ ch ∈ set.changes, BringsDistinct ch) :
    ∃ c, (merge rules .empty set).tree.classNamed? set.target.name = some c ∧
      Contents rules.policy set.changes c := by
  have hempty : TreeDistinct .asWritten .empty := ⟨by decide, List.nodup_nil, nofun⟩
  have happlied : (merge rules .empty set).applied = true :=
    merge_applied_iff.2 (accepts_empty set)
  have hclass := merge_classNamed? happlied
  exact ⟨_, hclass, contents_classRun heach rfl
    ((treeDistinct_merge hbrings hempty).classes _ (List.mem_of_find?_eq_some hclass))⟩

/-- What is wrong with declarations is that an import of another name is there. -/
theorem conflict_of_mem_issues (heach : ∀ ch ∈ set.changes, DeclaresEach ch) {e : GenerationError}
    (he : e ∈ (merge rules .empty set).issues) :
    ∃ i existing, .importName i ∈ set.changes ∧
      e = .importConflict set.target.name i.name existing := by
  have happlied : (merge rules .empty set).applied = true :=
    merge_applied_iff.2 (accepts_empty set)
  obtain ⟨_, _, c, _, _, hissues⟩ := merge_applied happlied
  rw [hissues, List.mem_append] at he
  rcases he with he | he
  · obtain ⟨ch, hch, is, hfails⟩ := exists_of_mem_issues he
    cases ch with
    | importName i =>
      have step := importStep set i is
      rw [hfails] at step
      cases step with
      | taken _ _ => exact ⟨i, _, mem_of_mem_ofPass hch, rfl⟩
    | _ => cases pass_of_mem_ofPass hch
  · obtain ⟨ch, hch, d, hfails⟩ := exists_of_mem_issues he
    have heach := heach ch (mem_of_mem_ordered hch)
    cases ch with
    | methodGroup _ => exact absurd heach id
    | statements _ _ => exact absurd heach id
    | mapEntry _ _ _ => exact absurd heach id
    | _ => cases hfails

end Merge

end DomainScaffold.Merge
