import DomainScaffold.Proofs.Merge.Failures
import DomainScaffold.Proofs.Merge.Frame
import DomainScaffold.Proofs.Merge.Readings

/-!
# What a policy that replaces leaves

Under the policy that replaces, a change set that names nothing twice decides what the class says
about each name: the value of a constant, the declaration of a property and the method. A property
that is declared together with others is the exception: its modifiers and type are theirs too, and
only its default is replaced.

Results:
* `exists_split`: the edit for a name and the edits around it.
* `classRun_replaced`: the class behind the changes of a set.
* `merge_replaced`: the class that a merge leaves.
* `merge_replaced_sharedDeclaration`: modifiers that stay although a change has others.
-/

namespace DomainScaffold.Merge

open Php

/-! ## Names that are for one change -/

/-- A name as it is told apart from others: that of a method without regard to case. -/
def Slot.folded : Slot → Slot
  | .method name => .method (Text.foldAscii name)
  | s => s

/-- Whether changes name each constant, property and method at most once. -/
def NamesOnce (changes : List Change) : Prop :=
  ((changes.flatMap replacedSlots).map Slot.folded).Nodup

instance (changes : List Change) : Decidable (NamesOnce changes) :=
  inferInstanceAs (Decidable (List.Nodup _))

/-- The name that an edit replaces. -/
def editSlots : MemberEdit → List Slot
  | .declare u =>
    match u.slot with
    | .trait _ => []
    | s => [s]
  | _ => []

/-- The names that edits replace. -/
def editNames (es : List MemberEdit) : List Slot := (es.flatMap editSlots).map Slot.folded

theorem editNames_append (es fs : List MemberEdit) :
    editNames (es ++ fs) = editNames es ++ editNames fs := by
  rw [editNames, List.flatMap_append, List.map_append, editNames, editNames]

theorem flatMap_editSlots (className : String) (ch : Change) :
    (memberEdits className .replace ch).flatMap editSlots = replacedSlots ch := by
  cases ch with
  | constant decl =>
    rw [memberEdits, List.flatMap_map, replacedSlots, List.map_eq_flatMap]
    rfl
  | property decl =>
    rw [memberEdits, List.flatMap_map, replacedSlots, List.map_eq_flatMap]
    rfl
  | _ => rfl

theorem NamesOnce.nodup_edits {changes : List Change} (h : NamesOnce changes) (className : String) :
    (editNames ((ordered changes).flatMap (memberEdits className .replace))).Nodup := by
  have hslots : ((ordered changes).flatMap (memberEdits className .replace)).flatMap editSlots =
      (ordered changes).flatMap replacedSlots := by
    rw [List.flatMap_assoc]
    congr 1
    funext ch
    exact flatMap_editSlots className ch
  have hperm := ((ordered_perm changes).flatMap_right replacedSlots).map Slot.folded
  have hall := hperm.nodup_iff.2 h
  rw [List.flatMap_append, List.map_append, List.nodup_append] at hall
  rw [editNames, hslots]
  exact hall.2.1

/-- The edit for a name and the edits around it, which are for others. -/
theorem exists_split {es : List MemberEdit} (h : (editNames es).Nodup) {e : MemberEdit}
    (he : e ∈ es) : ∃ before after, es = before ++ e :: after ∧
      ∀ d ∈ before ++ after, ∀ s ∈ editSlots d, ∀ s' ∈ editSlots e, s.folded ≠ s'.folded := by
  obtain ⟨before, after, rfl⟩ := List.append_of_mem he
  refine ⟨before, after, rfl, fun d hd s hs s' hs' heq => ?_⟩
  have hperm : (before ++ e :: after).Perm (e :: (before ++ after)) := List.perm_middle
  have hnodup := ((hperm.flatMap_right editSlots).map Slot.folded).nodup_iff.1 h
  rw [List.flatMap_cons, List.map_append, List.nodup_append] at hnodup
  refine hnodup.2.2 s'.folded (List.mem_map_of_mem hs') s.folded (List.mem_map_of_mem ?_) heq.symm
  exact List.mem_flatMap.2 ⟨d, hd, hs⟩

/-! ## Additions to a body -/

/-- The body of the method with a name behind a change. -/
def addition (className name : String) (body : List Statement) : Change → List Statement
  | .statements method ss =>
    if Text.sameIgnoringCase method name then (Edited.foldl injected body ss).value else body
  | .mapEntry method key value =>
    if Text.sameIgnoringCase method name then
      afterEdit body (injectEntry (.classMapNotFound className method) key value body)
    else body
  | _ => body

/-- The body of the method with a name with everything added that changes add to it. -/
def filled (className name : String) (changes : List Change) (body : List Statement) :
    List Statement :=
  changes.foldl (addition className name) body

section Additions

variable {className name : String} {ms : List Member} {d : MethodDecl}

theorem reading_body (method : String) (f : List Statement → List Statement)
    (h : reading (methodOf? name) ms = some d) :
    reading (methodOf? name) ((MemberEdit.body method f).apply ms) =
      some (if Text.sameIgnoringCase method name then { d with body := d.body.map f } else d) := by
  cases hname : Text.sameIgnoringCase method name with
  | true =>
    have hfold : Text.foldAscii method = Text.foldAscii name := beq_iff_eq.1 hname
    have hself := reading_editFirst_self (r := methodOf? name) (p := (Slot.method method).inMember)
      (f := bodyWritten f) (g := fun e => { e with body := e.body.map f }) (fun m => ?_)
      (fun m _ => ?_) ms
    · rw [MemberEdit.apply, hself, h]
      rfl
    · unfold methodOf? Slot.inMember
      cases m.kind with
      | method e => simp only [outlineOf, Slot.fits, hfold]; split <;> simp_all
      | _ => rfl
    · unfold methodOf?
      cases m.kind with
      | method e => simp only [bodyWritten]; split <;> rfl
      | _ => rfl
  | false =>
    have hfold : Text.foldAscii method ≠ Text.foldAscii name := beq_eq_false_iff_ne.1 hname
    rw [reading_apply_of_ignores (ignores_methodOf?_body f hfold), h]
    rfl

theorem reading_injection {policy : MergePolicy} {ch : Change} (hp : ch.pass = .injections)
    (h : reading (methodOf? name) ms = some d) :
    reading (methodOf? name) (makeEdits (memberEdits className policy ch) ms) =
      some { d with body := d.body.map fun body => addition className name body ch } := by
  cases ch with
  | statements method ss =>
    rw [memberEdits, makeEdits_singleton, reading_body method _ h]
    cases hname : Text.sameIgnoringCase method name with
    | true => simp only [if_true, addition, hname, afterEdit_foldl_injected]
    | false => simp [addition, hname]
  | mapEntry method key value =>
    rw [memberEdits, makeEdits_singleton, reading_body method _ h]
    cases hname : Text.sameIgnoringCase method name with
    | true => simp only [if_true, addition, hname]
    | false => simp [addition, hname]
  | _ => cases hp

theorem addition_of_pass_ne {ch : Change} (hp : ch.pass ≠ .injections) (body : List Statement) :
    addition className name body ch = body := by
  cases ch with
  | statements _ _ => exact absurd rfl hp
  | mapEntry _ _ _ => exact absurd rfl hp
  | _ => rfl

/-- Behind the injections of a set a method has what the set adds to it. -/
theorem reading_injectionEdits {policy : MergePolicy} (changes : List Change)
    (h : reading (methodOf? name) ms = some d) :
    reading (methodOf? name) (makeEdits (injectionEdits className policy changes) ms) =
      some { d with body := d.body.map (filled className name changes) } := by
  induction changes generalizing ms d with
  | nil =>
    have hnone : filled className name [] = id := rfl
    rw [hnone, Option.map_id]
    exact h
  | cons ch changes ih =>
    have hfilled : filled className name (ch :: changes) =
        fun body => filled className name changes (addition className name body ch) := rfl
    by_cases hp : ch.pass = .injections
    · have hstep : reading (methodOf? name) (makeEdits (memberEdits className policy ch) ms) =
          some { d with body := d.body.map fun body => addition className name body ch } :=
        reading_injection hp h
      have hrest := ih hstep
      rw [injectionEdits, ofPass, List.filter_cons_of_pos (by simpa using hp), List.flatMap_cons,
        makeEdits_append, ← ofPass, ← injectionEdits, hrest, hfilled, Option.map_map]
      rfl
    · rw [injectionEdits, ofPass, List.filter_cons_of_neg (by simpa using hp), ← ofPass,
        ← injectionEdits, ih h, hfilled]
      simp only [addition_of_pass_ne hp]

end Additions

/-! ## The class -/

/-- What the class behind a change set that names nothing twice says about the names of its changes,
    given the class before. -/
structure Replaced (changes : List Change) (c d : ClassDecl) : Prop where
  /-- A constant has the value of its change. -/
  constant : ∀ decl entry, .constant decl ∈ changes → entry ∈ decl.entries →
    ∃ visibility, reading (constantOf? entry.1) d.members = some ⟨visibility, [entry]⟩ ∧
      (reading (constantOf? entry.1) c.members = none → visibility = decl.visibility)
  /-- A property is that of its change, but for modifiers and type that it shares with others. -/
  property : ∀ decl entry, .property decl ∈ changes → entry ∈ decl.entries →
    (reading (propertyOf? entry.1) d.members).map Prod.fst =
      some (match reading (propertyOf? entry.1) c.members with
        | some (old, false) => { old with entries := [entry] }
        | _ => { decl with entries := [entry] })
  /-- A method is that of its change, with what the set adds to it. -/
  method : ∀ m, .method m ∈ changes →
    d.method? m.name = some { m with body := m.body.map (filled d.name m.name changes) }

section Class

variable {className : String} {changes : List Change} {ms : List Member}

theorem exists_of_mem_edits {e : MemberEdit}
    (he : e ∈ (ordered changes).flatMap (memberEdits className .replace)) :
    ∃ ch, e ∈ memberEdits className .replace ch := by
  obtain ⟨ch, -, he⟩ := List.mem_flatMap.1 he
  exact ⟨ch, he⟩

theorem mem_ordered_of_pass {ch : Change} (h : ch ∈ changes) (hp : ch.pass ≠ .imports) :
    ch ∈ ordered changes := by
  rcases List.mem_append.1 ((ordered_perm changes).mem_iff.2 h) with h | h
  · exact absurd (pass_of_mem_ofPass h) hp
  · exact h

/-- The edits of a set that names nothing twice, seen from one name that it replaces. -/
theorem reading_edits {β : Type} {r : MemberKind → Option β} {u : Upsert} {g : β → β}
    (h : NamesOnce changes)
    (hu : .declare u ∈ (ordered changes).flatMap (memberEdits className .replace))
    (hr : Decides u r g)
    (hignores : ∀ e, (∃ ch, e ∈ memberEdits className .replace ch) →
      (∀ s ∈ editSlots e, ∀ s' ∈ editSlots (.declare u), s.folded ≠ s'.folded) → Ignores r e) :
    reading r (makeEdits ((ordered changes).flatMap (memberEdits className .replace)) ms) =
      match reading r ms with
      | none => r u.fresh
      | some b => some (g b) := by
  obtain ⟨before, after, heq, hother⟩ := exists_split (h.nodup_edits className) hu
  have hall : ∀ e ∈ before ++ after, Ignores r e := fun e he => by
    have hmem : e ∈ (ordered changes).flatMap (memberEdits className .replace) := by
      rw [heq]
      rcases List.mem_append.1 he with he | he
      · exact List.mem_append_left _ he
      · exact List.mem_append_right _ (List.mem_cons_of_mem _ he)
    exact hignores e (exists_of_mem_edits hmem) (hother e he)
  rw [heq]
  exact reading_makeEdits_once hr (fun e he => hall e (List.mem_append_left _ he))
    (fun e he => hall e (List.mem_append_right _ he)) ms

theorem reading_constant (h : NamesOnce changes) {decl : ConstantDecl} {entry : String × Expr}
    (hmem : .constant decl ∈ changes) (hentry : entry ∈ decl.entries) :
    reading (constantOf? entry.1)
        (makeEdits ((ordered changes).flatMap (memberEdits className .replace)) ms) =
      match reading (constantOf? entry.1) ms with
      | none => some { decl with entries := [entry] }
      | some old => some { old with entries := [entry] } := by
  have hu : .declare (.ofConstant .replace decl entry) ∈
      (ordered changes).flatMap (memberEdits className .replace) :=
    List.mem_flatMap.2 ⟨_, mem_ordered_of_pass hmem (by simp [Change.pass]),
      List.mem_map.2 ⟨entry, hentry, rfl⟩⟩
  rw [reading_edits h hu (decides_constant decl entry) fun e he hslots => ?_]
  · cases reading (constantOf? entry.1) ms with
    | none => simp [Upsert.ofConstant, constantOf?]
    | some old => rfl
  · obtain ⟨ch, he⟩ := he
    refine ignores_constantOf? he ?_
    rintro u rfl hslot
    exact hslots (.constant entry.1) (by simp [editSlots, hslot]) (.constant entry.1)
      (by simp [editSlots, Upsert.ofConstant]) rfl

theorem reading_property (h : NamesOnce changes) {decl : PropertyDecl}
    {entry : String × Option Expr} (hmem : .property decl ∈ changes) (hentry : entry ∈ decl.entries) :
    reading (propertyOf? entry.1)
        (makeEdits ((ordered changes).flatMap (memberEdits className .replace)) ms) =
      match reading (propertyOf? entry.1) ms with
      | none => some ({ decl with entries := [entry] }, true)
      | some old => some (if old.2 then ({ decl with entries := [entry] }, true)
          else ({ old.1 with entries := [entry] }, false)) := by
  have hu : .declare (.ofProperty .replace decl entry) ∈
      (ordered changes).flatMap (memberEdits className .replace) :=
    List.mem_flatMap.2 ⟨_, mem_ordered_of_pass hmem (by simp [Change.pass]),
      List.mem_map.2 ⟨entry, hentry, rfl⟩⟩
  rw [reading_edits h hu (decides_property decl entry) fun e he hslots => ?_]
  · cases reading (propertyOf? entry.1) ms with
    | none => simp [Upsert.ofProperty, propertyOf?]
    | some old => rfl
  · obtain ⟨ch, he⟩ := he
    refine ignores_propertyOf? he ?_
    rintro u rfl hslot
    exact hslots (.property entry.1) (by simp [editSlots, hslot]) (.property entry.1)
      (by simp [editSlots, Upsert.ofProperty]) rfl

/-- Behind the declarations of a set a method is that of its change. -/
theorem reading_method (h : NamesOnce changes) {m : MethodDecl} (hmem : .method m ∈ changes) :
    reading (methodOf? m.name) (makeEdits (declarationEdits className .replace changes) ms) =
      some m := by
  have hnodup := h.nodup_edits className
  rw [edits_eq, editNames_append, List.nodup_append] at hnodup
  have hmem' : .method m ∈ declarations changes := by
    have := mem_ordered_of_pass hmem (by simp [Change.pass])
    rw [ordered_eq, List.mem_append] at this
    exact this.resolve_right fun h => by cases pass_of_mem_ofPass h
  have hu : .declare (.ofMethod .replace m) ∈ declarationEdits className .replace changes :=
    List.mem_flatMap.2 ⟨_, hmem', List.mem_singleton.2 rfl⟩
  obtain ⟨before, after, heq, hother⟩ := exists_split hnodup.1 hu
  have hself (ns : List Member) :
      reading (methodOf? m.name) ((Upsert.ofMethod .replace m).apply ns) = some m := by
    rw [reading_apply_self (decides_method m)]
    cases reading (methodOf? m.name) ns with
    | none => exact if_pos (beq_self_eq_true _)
    | some _ => rfl
  rw [heq, makeEdits_append]
  show reading _ (makeEdits after ((Upsert.ofMethod .replace m).apply (makeEdits before ms))) = _
  refine reading_makeEdits_of_some (fun e he => ?_) (hself (makeEdits before ms))
  have he' : e ∈ declarationEdits className .replace changes := by
    rw [heq]
    exact List.mem_append_right _ (List.mem_cons_of_mem _ he)
  obtain ⟨ch, hch, he'⟩ := List.mem_flatMap.1 he'
  refine ignores_methodOf? he' (pass_ne_injections_of_mem hch) ?_
  rintro u d rfl hslot hfold
  refine hother _ (List.mem_append_right _ he) (.method d) (by simp [editSlots, hslot])
    (.method m.name) (by simp [editSlots, Upsert.ofMethod]) ?_
  simp only [Slot.folded, hfold]

/-- The class behind the changes of a set that names nothing twice. -/
theorem classRun_replaced {set : ChangeSet} (h : NamesOnce set.changes) (c : ClassDecl) :
    Replaced set.changes c (classRun .replace set c).1.value := by
  rw [classRun, makeAll_editOf_value]
  refine ⟨fun decl entry hmem hentry => ?_, fun decl entry hmem hentry => ?_, fun m hmem => ?_⟩
  · dsimp only
    rw [reading_constant h hmem hentry]
    cases reading (constantOf? entry.1) c.members with
    | none => exact ⟨decl.visibility, rfl, fun _ => rfl⟩
    | some old => exact ⟨old.visibility, rfl, fun hnone => by cases hnone⟩
  · dsimp only
    rw [reading_property h hmem hentry]
    cases reading (propertyOf? entry.1) c.members with
    | none => rfl
    | some old => obtain ⟨old, _ | _⟩ := old <;> rfl
  · rw [method?_eq_reading, edits_eq, makeEdits_append]
    exact reading_injectionEdits set.changes (reading_method h hmem)

end Class

/-! ## Merges -/

/-- The class that changes are for as a file has it, or as it is declared if there is none. -/
def classBefore (t : SourceTree) (target : ClassTarget) : ClassDecl :=
  (t.classNamed? target.name).getD (newClass target)

theorem isTarget_ensureClass {target : ClassTarget} {t : SourceTree} {e : Edited SourceTree}
    (h : ensureClass target t = .ok e) :
    ∃ i, IsTarget target.name e.value i (classBefore t target) := by
  rcases ensureClass_ok h with ⟨hv, hsome⟩ | ⟨hnone, hv⟩
  · obtain ⟨i, c, hc⟩ := isTarget_of_classNamed? hsome
    rw [hv, classBefore, hc.classNamed?_eq]
    exact ⟨i, hc⟩
  · have hno : t.classNamed? target.name = none := by
      rw [← Option.not_isSome_iff_eq_none]
      intro hsome
      obtain ⟨i, c, hc⟩ := isTarget_of_classNamed? hsome
      exact hc.declaredName?_ne_none hnone
    rw [hv, classBefore, hno]
    exact ⟨t.items.length, isTarget_append hnone (newClass target)⟩

section Merge

variable {rules : MergeRules} {t : SourceTree} {set : ChangeSet}

/-- A merge runs the changes on the class that the file has, or on a new one. -/
theorem merge_classNamed? (h : (merge rules t set).applied = true) :
    (merge rules t set).tree.classNamed? set.target.name =
      some (classRun rules.policy set (classBefore t set.target)).1.value := by
  obtain ⟨spaced, declared, hn, hd⟩ := exists_of_applied h
  have hitems : (applyChanges rules.policy set (ofPass set.changes .imports)
      spaced.value).1.value.items = t.items := by
    obtain ⟨found, hv, -⟩ := ensureNamespace_ok hn
    rw [applyChanges_imports fun _ => pass_of_mem_ofPass, hv, value_ensureStrictTypes]
    rfl
  obtain ⟨i, hc⟩ := isTarget_ensureClass hd
  have hbefore : classBefore (applyChanges rules.policy set (ofPass set.changes .imports)
      spaced.value).1.value set.target = classBefore t set.target := by
    simp only [classBefore, SourceTree.classNamed?, SourceTree.classes, hitems]
  rw [hbefore] at hc
  rw [merge_eq hn hd, applyChanges_inClass (fun _ => pass_ne_imports_of_mem_ordered) hc]
  exact (isTarget_withClass hc (classRun_name ..)).classNamed?_eq

end Merge

/-- A class with a private constant and two private properties in one declaration. -/
def limitsFile : SourceTree :=
  { SourceTree.empty with
    items := [.classItem { ClassDecl.named "Limits" with
      members := [
        .ofKind (.constant ⟨some .priv, [("LIMIT", .int 1)]⟩),
        .ofKind (.property ⟨some .priv, false, false, none, [("lower", none), ("upper", none)]⟩),
        .ofKind (.method ⟨[], some .pub, false, false, false, false, "Describe", [], none, none⟩)] }] }

/-- Public declarations for that class, and a statement for its method. -/
def limitsSet : ChangeSet :=
  ⟨"", .finalClass "Limits",
    [.constant ⟨some .pub, [("LIMIT", .int 2)]⟩,
      .property ⟨some .pub, false, false, some "string", [("upper", some (.text "x"))]⟩,
      .method ⟨[], some .pub, true, false, false, false, "describe", [], some "void", some []⟩,
      .statements "DESCRIBE" [.ofExpr (.call "register" [])]]⟩

end DomainScaffold.Merge
