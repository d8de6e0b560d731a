import DomainScaffold.Proofs.Merge.Run

/-!
# Layout does not matter

A statement or member that was read from a file carries its text, the comment behind it and the
empty line before it. None of them takes part in the decision what is there already: a merge that
keeps existing members does the same to two files that differ in layout only.

Results:
* `erased_insertAfter`, `erased_setKind`: edits of members up to layout.
* `layoutFree_editOf`, `layoutFree_applyChange`: every change is made without regard to layout.
* `merge_layout`: merges into files that differ in layout only.
-/

namespace DomainScaffold.Php

/-! ## Trees without layout -/

/-- The statement without its layout. -/
def Statement.erased (s : Statement) : Statement := .ofKind s.kind

/-- The method with statements without layout. -/
def MethodDecl.erased (d : MethodDecl) : MethodDecl :=
  { d with body := d.body.map (List.map Statement.erased) }

/-- What a member is, without the layout of statements in it. -/
def MemberKind.erased : MemberKind → MemberKind
  | .method d => .method d.erased
  | kind => kind

/-- The member without layout. -/
def Member.erased (m : Member) : Member := .ofKind m.kind.erased

/-- The class without layout. -/
def ClassDecl.erased (c : ClassDecl) : ClassDecl := { c with members := c.members.map Member.erased }

/-- The item without the layout of a class. -/
def Item.erased : Item → Item
  | .classItem c => .classItem c.erased
  | .other declares code => .other declares code

/-- The file without the layout of its classes. -/
def SourceTree.erased (t : SourceTree) : SourceTree := { t with items := t.items.map Item.erased }

@[simp] theorem Statement.kind_erased (s : Statement) : s.erased.kind = s.kind := rfl

@[simp] theorem Statement.erased_erased (s : Statement) : s.erased.erased = s.erased := rfl

@[simp] theorem map_erased_map_erased (body : List Statement) :
    (body.map Statement.erased).map Statement.erased = body.map Statement.erased := by
  simp

@[simp] theorem MethodDecl.erased_erased (d : MethodDecl) : d.erased.erased = d.erased := by
  cases d with
  | mk _ _ _ _ _ _ _ _ _ body => cases body <;> simp [MethodDecl.erased]

@[simp] theorem MemberKind.erased_erased (k : MemberKind) : k.erased.erased = k.erased := by
  cases k <;> simp [MemberKind.erased]

@[simp] theorem Member.kind_erased (m : Member) : m.erased.kind = m.kind.erased := rfl

@[simp] theorem Member.erased_erased (m : Member) : m.erased.erased = m.erased := by
  simp [Member.erased, Member.ofKind]

@[simp] theorem ClassDecl.erased_erased (c : ClassDecl) : c.erased.erased = c.erased := by
  simp [ClassDecl.erased, Function.comp_def]

@[simp] theorem Item.erased_erased (i : Item) : i.erased.erased = i.erased := by
  cases i <;> simp [Item.erased]

@[simp] theorem SourceTree.erased_erased (t : SourceTree) : t.erased.erased = t.erased := by
  simp [SourceTree.erased, Function.comp_def]

/-! ## What the layout does not change -/

@[simp] theorem Member.method?_erased (m : Member) :
    m.erased.method? = m.method?.map MethodDecl.erased := by
  obtain ⟨kind, _, _⟩ := m
  cases kind <;> rfl

@[simp] theorem Member.constants_erased (m : Member) : m.erased.constants = m.constants := by
  obtain ⟨kind, _, _⟩ := m
  cases kind <;> rfl

@[simp] theorem Member.properties_erased (m : Member) : m.erased.properties = m.properties := by
  obtain ⟨kind, _, _⟩ := m
  cases kind <;> rfl

@[simp] theorem Member.traits_erased (m : Member) : m.erased.traits = m.traits := by
  obtain ⟨kind, _, _⟩ := m
  cases kind <;> rfl

@[simp] theorem Item.declares?_erased (i : Item) : i.erased.declares? = i.declares? := by
  cases i <;> rfl

@[simp] theorem Item.erased_classItem (c : ClassDecl) :
    (Item.classItem c).erased = .classItem c.erased := rfl

@[simp] theorem Item.class?_erased (i : Item) : i.erased.class? = i.class?.map ClassDecl.erased := by
  cases i <;> rfl

end DomainScaffold.Php

namespace DomainScaffold.Merge

open Php

/-! ## Steps that do not see the layout -/

/-- Whether what a step makes of something is known up to `e` from the thing up to `e`. -/
def LayoutFree {α : Type} (e : α → α) (f : α → Outcome (Edited α)) : Prop :=
  ∀ a, (f (e a)).map (Edited.map e) = (f a).map (Edited.map e)

section LayoutFree

variable {α β : Type} {e : α → α}

/-- Two results that agree up to `e` are of one kind. -/
theorem alike_cases {x y : Outcome (Edited α)}
    (h : x.map (Edited.map e) = y.map (Edited.map e)) :
    (∃ issue, x = .error issue ∧ y = .error issue) ∨
      ∃ a b, x = .ok a ∧ y = .ok b ∧ e a.value = e b.value ∧ a.changed = b.changed := by
  cases x with
  | error issue =>
    cases y with
    | error issue' => exact .inl ⟨issue, rfl, by simpa [Except.map] using Eq.symm h⟩
    | ok b => cases h
  | ok a =>
    cases y with
    | error issue => cases h
    | ok b => exact .inr ⟨a, b, rfl, rfl, by simpa [Except.map, Edited.map] using h⟩

theorem LayoutFree.alike {f : α → Outcome (Edited α)} (h : LayoutFree e f) {a b : α}
    (hab : e a = e b) : (f a).map (Edited.map e) = (f b).map (Edited.map e) := by
  rw [← h a, hab, h b]

theorem map_foldl_of_eq {f : β → α → Edited α}
    (h : ∀ b a, (f b (e a)).map e = (f b a).map e) {a a' : α} (ha : e a = e a') (bs : List β) :
    (Edited.foldl f a bs).map e = (Edited.foldl f a' bs).map e := by
  induction bs generalizing a a' with
  | nil => simp [Edited.foldl, Edited.kept, Edited.map, ha]
  | cons b bs ih =>
    have hstep : (f b a).map e = (f b a').map e := by rw [← h b a, ha, h b a']
    simp only [Edited.map, Edited.mk.injEq] at hstep
    have hrest := ih hstep.1
    simp only [Edited.map, Edited.mk.injEq] at hrest
    simp [Edited.foldl, Edited.map, hstep.2, hrest]

/-- A run of such steps does the same to things that agree up to `e`. -/
theorem makeAll_layout {f : Change → α → Outcome (Edited α)} (changes : List Change)
    (h : ∀ ch ∈ changes, LayoutFree e (f ch)) {a b : α} (hab : e a = e b) :
    (makeAll f changes a).1.map e = (makeAll f changes b).1.map e ∧
      (makeAll f changes a).2 = (makeAll f changes b).2 := by
  induction changes generalizing a b with
  | nil => simp [makeAll, Edited.kept, Edited.map, hab]
  | cons change changes ih =>
    have ih := fun {a b} => @ih (fun ch hch => h ch (List.mem_cons_of_mem _ hch)) a b
    rcases alike_cases ((h change (by simp)).alike hab) with
      ⟨issue, ha, hb⟩ | ⟨x, y, ha, hb, hv, hc⟩
    · rw [makeAll_cons_error ha, makeAll_cons_error hb]
      exact ⟨(ih hab).1, by rw [(ih hab).2]⟩
    · obtain ⟨hrest, hissues⟩ := ih hv
      simp only [Edited.map, Edited.mk.injEq] at hrest
      rw [makeAll_cons_ok ha, makeAll_cons_ok hb]
      simp [Edited.map, hrest, hc, hissues]

end LayoutFree

/-! ## Statements -/

@[simp] theorem isReturn_erased (s : Statement) : isReturn s.erased = isReturn s := rfl

@[simp] theorem isPresent_map_erased (body : List Statement) (s : Statement) :
    isPresent (body.map Statement.erased) s = isPresent body s := by
  unfold isPresent
  simp only [List.any_map]
  rfl

theorem injected_erased (s : Statement) (body : List Statement) :
    (injected s (body.map Statement.erased)).map (List.map Statement.erased) =
      (injected s body).map (List.map Statement.erased) := by
  unfold injected
  rw [isPresent_map_erased]
  split <;> simp [Edited.map, Edited.kept, Edited.replaced, Function.comp_def]

theorem layoutFree_foldl_injected (ss : List Statement) :
    LayoutFree (List.map Statement.erased) fun body => .ok (Edited.foldl injected body ss) :=
  fun body => congrArg Except.ok
    (map_foldl_of_eq injected_erased (map_erased_map_erased body) ss)

theorem map_erased_modify (body : List Statement) (i : Nat) (kind : StatementKind) :
    (body.modify i fun s => { s with kind, verbatim := none }).map Statement.erased =
      (body.map Statement.erased).modify i fun s => { s with kind, verbatim := none } := by
  refine List.ext_getElem? fun j => ?_
  simp only [List.getElem?_map, List.getElem?_modify]
  rcases body[j]? with _ | s
  · rfl
  · by_cases h : i = j
    · simp [h]
      rfl
    · simp [h]

theorem layoutFree_injectEntry (noMap : GenerationError) (key value : Expr) :
    LayoutFree (List.map Statement.erased) (injectEntry noMap key value) := by
  intro body
  have hreturn : isReturn ∘ Statement.erased = isReturn := rfl
  have hkind (i : Nat) : ((body.map Statement.erased)[i]?).map Statement.kind =
      (body[i]?).map Statement.kind := by
    rw [List.getElem?_map, Option.map_map]
    rfl
  simp only [injectEntry, ← List.map_reverse, List.findIdx?_map, hreturn, List.length_map, hkind]
  split
  · simp [Except.map, Edited.map, Edited.replaced, Function.comp_def]
  · split
    · simp only [Except.map, Edited.map, map_erased_modify, map_erased_map_erased]
    · rfl

/-! ## Members -/

@[simp] theorem isTraitUse_erased (m : Member) : isTraitUse m.erased = isTraitUse m := by
  obtain ⟨kind, _, _⟩ := m
  cases kind <;> rfl

@[simp] theorem isConstant_erased (m : Member) : isConstant m.erased = isConstant m := by
  obtain ⟨kind, _, _⟩ := m
  cases kind <;> rfl

@[simp] theorem isProperty_erased (m : Member) : isProperty m.erased = isProperty m := by
  obtain ⟨kind, _, _⟩ := m
  cases kind <;> rfl

@[simp] theorem implements_erased (c : ClassDecl) (name : String) :
    implements c.erased name = implements c name := rfl

@[simp] theorem usesTrait_erased (c : ClassDecl) (name : String) :
    usesTrait c.erased name = usesTrait c name := by
  simp [usesTrait, ClassDecl.traitNames, ClassDecl.erased, List.flatMap_map]

theorem placeOf?_erased {names : Member → List String} (h : ∀ m, names m.erased = names m)
    (c : ClassDecl) (name : String) : placeOf? names c.erased name = placeOf? names c name := by
  simp only [placeOf?, ClassDecl.erased, List.findIdx?_map, Function.comp_def, h,
    List.getElem?_map]
  cases c.members.findIdx? fun m => (names m).contains name with
  | none => rfl
  | some i => cases hm : c.members[i]? <;> simp [hm, h]

@[simp] theorem constantPlace?_erased (c : ClassDecl) (name : String) :
    constantPlace? c.erased name = constantPlace? c name :=
  placeOf?_erased (by simp) c name

@[simp] theorem propertyPlace?_erased (c : ClassDecl) (name : String) :
    propertyPlace? c.erased name = propertyPlace? c name :=
  placeOf?_erased (by simp) c name

@[simp] theorem methodPlace?_erased (c : ClassDecl) (name : String) :
    methodPlace? c.erased name = methodPlace? c name := by
  have h : isMethodNamed name ∘ Member.erased = isMethodNamed name := by
    funext m
    rw [Function.comp_apply, isMethodNamed, Member.method?_erased, Option.any_map]
    rfl
  simp [methodPlace?, ClassDecl.erased, List.findIdx?_map, h]

theorem positionAfter?_map_erased {p : Member → Bool} (h : ∀ m, p m.erased = p m)
    (ms : List Member) : positionAfter? p (ms.map Member.erased) = positionAfter? p ms := by
  simp [positionAfter?, ← List.map_reverse, List.findIdx?_map, Function.comp_def, h]

/-- A new member goes to the same place in any layout. -/
theorem erased_insertAfter {conditions : List (Member → Bool)}
    (h : ∀ p ∈ conditions, ∀ m, p m.erased = p m) (kind : MemberKind) (c : ClassDecl) :
    (insertAfter conditions kind c.erased).erased = (insertAfter conditions kind c).erased := by
  have hplace : (conditions.findSome? fun p => positionAfter? p (c.members.map Member.erased)) =
      conditions.findSome? fun p => positionAfter? p c.members := by
    induction conditions with
    | nil => rfl
    | cons p conditions ih =>
      rw [List.findSome?_cons, List.findSome?_cons, positionAfter?_map_erased (h p (by simp)),
        ih fun q hq => h q (List.mem_cons_of_mem _ hq)]
  simp only [insertAfter, ClassDecl.erased, withMembers, hplace]
  simp [List.map_insertIdx, Function.comp_def]

theorem erased_setKind {i : Nat} {kind kind' : MemberKind} (h : kind.erased = kind'.erased)
    (c : ClassDecl) : (setKind i kind c.erased).erased = (setKind i kind' c).erased := by
  simp only [setKind, ClassDecl.erased, withMembers, ClassDecl.mk.injEq, true_and]
  refine List.ext_getElem? fun j => ?_
  simp only [List.getElem?_map, List.getElem?_modify]
  rcases c.members[j]? with _ | m
  · rfl
  · by_cases hij : i = j <;> simp [hij, Member.erased, Member.ofKind, h]

/-! ## Changes of a class -/

theorem erased_ensureTrait (name : String) (c : ClassDecl) :
    (ensureTrait name c.erased).map ClassDecl.erased =
      (ensureTrait name c).map ClassDecl.erased := by
  unfold ensureTrait
  rw [usesTrait_erased]
  split
  · simp [Edited.map, Edited.kept]
  · simp [Edited.map, Edited.replaced, erased_insertAfter]

theorem erased_ensureConstantEntry (decl : ConstantDecl) (entry : String × Expr) (c : ClassDecl) :
    (ensureConstantEntry .preserve decl entry c.erased).map ClassDecl.erased =
      (ensureConstantEntry .preserve decl entry c).map ClassDecl.erased := by
  unfold ensureConstantEntry
  rw [constantPlace?_erased]
  cases constantPlace? c entry.1 with
  | some place => simp [Edited.map, Edited.kept]
  | none => simp [Edited.map, Edited.replaced, erased_insertAfter]

theorem erased_ensurePropertyEntry (decl : PropertyDecl) (entry : String × Option Expr)
    (c : ClassDecl) :
    (ensurePropertyEntry .preserve decl entry c.erased).map ClassDecl.erased =
      (ensurePropertyEntry .preserve decl entry c).map ClassDecl.erased := by
  unfold ensurePropertyEntry
  rw [propertyPlace?_erased]
  cases propertyPlace? c entry.1 with
  | some place => simp [Edited.map, Edited.kept]
  | none => simp [Edited.map, Edited.replaced, erased_insertAfter]

theorem erased_appendMethods (ds : List MethodDecl) (c : ClassDecl) :
    (appendMethods ds c.erased).erased = (appendMethods ds c).erased := by
  simp [appendMethods, withMembers, ClassDecl.erased, Function.comp_def]

theorem erased_ensureMethod (d : MethodDecl) (c : ClassDecl) :
    (ensureMethod .preserve d c.erased).map ClassDecl.erased =
      (ensureMethod .preserve d c).map ClassDecl.erased := by
  unfold ensureMethod
  rw [methodPlace?_erased]
  cases methodPlace? c d.name with
  | some i => simp [Edited.map, Edited.kept]
  | none => simp [Edited.map, Edited.replaced, erased_appendMethods]

theorem erased_ensureMethodGroup (ds : List MethodDecl) (c : ClassDecl) :
    (ensureMethodGroup ds c.erased).map ClassDecl.erased =
      (ensureMethodGroup ds c).map ClassDecl.erased := by
  unfold ensureMethodGroup
  simp only [methodPlace?_erased]
  split
  · simp [Edited.map, Edited.kept]
  · simp [Edited.map, erased_appendMethods]

theorem layoutFree_editBody {method : String} {noBody : GenerationError}
    {f : List Statement → Outcome (Edited (List Statement))}
    (hf : LayoutFree (List.map Statement.erased) f) :
    LayoutFree ClassDecl.erased (editBody method noBody f) := by
  intro c
  have hmethod (i : Nat) : (c.erased.members[i]?).bind Member.method? =
      ((c.members[i]?).bind Member.method?).map MethodDecl.erased := by
    cases hm : c.members[i]? <;> simp [ClassDecl.erased, hm]
  unfold editBody
  rw [methodPlace?_erased]
  cases methodPlace? c method with
  | none => rfl
  | some i =>
    simp only [hmethod]
    rcases (c.members[i]?).bind Member.method? with _ | ⟨_, _, _, _, _, _, _, _, _, _ | body⟩
    · rfl
    · rfl
    · -- Both runs edit the body of one method, and the edits agree up to layout.
      simp only [Option.map_some, MethodDecl.erased]
      rcases alike_cases (hf body) with ⟨issue, hx, hy⟩ | ⟨x, y, hx, hy, hv, hc⟩
      · rw [hx, hy]
        rfl
      · rw [hx, hy]
        simp only [bind, Except.bind, hc]
        split
        · refine congrArg (fun c => Except.ok (Edited.replaced c)) (erased_setKind ?_ c)
          simp [MemberKind.erased, MethodDecl.erased, hv]
        · simp [Except.map, pure, Except.pure, Edited.map, Edited.kept]

/-- Every change of a class is made without regard to layout. -/
theorem layoutFree_editOf (change : Change) :
    LayoutFree ClassDecl.erased (editOf .preserve change) := by
  intro c
  cases change with
  | importName i => simp [editOf, Except.map, Edited.map, Edited.kept]
  | interface name =>
    refine congrArg Except.ok ?_
    unfold ensureInterface
    rw [implements_erased]
    split
    · simp [Edited.map, Edited.kept]
    · simp [Edited.map, Edited.replaced, ClassDecl.erased]
  | traitUse name => exact congrArg Except.ok (erased_ensureTrait name c)
  | constant decl =>
    exact congrArg Except.ok
      (map_foldl_of_eq (erased_ensureConstantEntry decl) c.erased_erased decl.entries)
  | property decl =>
    exact congrArg Except.ok
      (map_foldl_of_eq (erased_ensurePropertyEntry decl) c.erased_erased decl.entries)
  | method d => exact congrArg Except.ok (erased_ensureMethod d c)
  | methodGroup ds => exact congrArg Except.ok (erased_ensureMethodGroup ds c)
  | statements method ss => exact layoutFree_editBody (layoutFree_foldl_injected ss) c
  | mapEntry method key value => exact layoutFree_editBody (layoutFree_injectEntry _ key value) c

/-! ## Changes of a file -/

theorem isClassNamed_erased (name : String) (i : Item) :
    isClassNamed name i.erased = isClassNamed name i := by
  cases i <;> rfl

@[simp] theorem declaredName?_erased (t : SourceTree) :
    t.erased.declaredName? = t.declaredName? := by
  simp [SourceTree.declaredName?, SourceTree.erased, List.findSome?_map, Function.comp_def]

@[simp] theorem classNamed?_erased (t : SourceTree) (name : String) :
    t.erased.classNamed? name = (t.classNamed? name).map ClassDecl.erased := by
  have h : t.erased.classes = t.classes.map ClassDecl.erased := by
    simp [SourceTree.classes, SourceTree.erased, List.filterMap_map, List.map_filterMap,
      Function.comp_def]
  rw [SourceTree.classNamed?, h, List.find?_map]
  rfl

theorem layoutFree_editClass {name : String} {f : ClassDecl → Outcome (Edited ClassDecl)}
    (hf : LayoutFree ClassDecl.erased f) : LayoutFree SourceTree.erased (editClass name f) := by
  intro t
  have hclass (i : Nat) : (t.erased.items[i]?).bind Item.class? =
      ((t.items[i]?).bind Item.class?).map ClassDecl.erased := by
    cases hi : t.items[i]? <;> simp [SourceTree.erased, hi]
  have hplace : t.erased.items.findIdx? (isClassNamed name) =
      t.items.findIdx? (isClassNamed name) := by
    simp [SourceTree.erased, List.findIdx?_map, Function.comp_def, isClassNamed_erased]
  have hset (i : Nat) {c d : ClassDecl} (hcd : c.erased = d.erased) :
      (withClass t.erased i c).erased = (withClass t i d).erased := by
    simp [withClass, SourceTree.erased, List.map_set, hcd, Function.comp_def]
  unfold editClass
  rw [hplace]
  cases t.items.findIdx? (isClassNamed name) with
  | none => rfl
  | some i =>
    simp only [hclass]
    rcases (t.items[i]?).bind Item.class? with _ | c
    · rfl
    · simp only [Option.map_some]
      rcases alike_cases (hf c) with ⟨issue, hx, hy⟩ | ⟨x, y, hx, hy, hv, hc⟩
      · rw [hx, hy]
        rfl
      · rw [hx, hy]
        exact congrArg Except.ok (congrArg₂ Edited.mk (hset i hv) hc)

theorem layoutFree_ensureImport (set : ChangeSet) (i : Import) :
    LayoutFree SourceTree.erased (ensureImport set i) := by
  intro t
  unfold ensureImport
  simp only [show t.erased.imports = t.imports from rfl]
  split
  · simp [Except.map, Edited.map, Edited.kept]
  · split
    · rfl
    · simp [Except.map, Edited.map, Edited.replaced, SourceTree.erased, Function.comp_def]

theorem layoutFree_ensureNamespace (name : String) :
    LayoutFree SourceTree.erased (ensureNamespace name) := by
  intro t
  unfold ensureNamespace
  simp only [show t.erased.namespaceName = t.namespaceName from rfl,
    show t.erased.items.isEmpty = t.items.isEmpty by simp [SourceTree.erased]]
  cases t.namespaceName with
  | some found =>
    by_cases hf : Text.sameIgnoringCase found (Text.trimBoth '\\' name) = true
    · simp [hf, Except.map, Edited.map, Edited.kept]
    · simp [hf, Except.map]
  | none =>
    by_cases he : (Text.trimBoth '\\' name).isEmpty = true
    · simp [he, Except.map, Edited.map, Edited.kept]
    · by_cases hi : t.items.isEmpty = true
      · simp [he, hi, Except.map, Edited.map, Edited.replaced, SourceTree.erased,
          Function.comp_def]
      · simp [he, hi, Except.map]

theorem layoutFree_ensureClass (target : ClassTarget) :
    LayoutFree SourceTree.erased (ensureClass target) := by
  intro t
  unfold ensureClass
  simp only [classNamed?_erased, Option.isSome_map, declaredName?_erased]
  split
  · simp [Except.map, Edited.map, Edited.kept]
  · split
    · rfl
    · simp [Except.map, Edited.map, Edited.replaced, SourceTree.erased, Function.comp_def]

/-- Every change is made without regard to layout. -/
theorem layoutFree_applyChange (set : ChangeSet) (change : Change) :
    LayoutFree SourceTree.erased (applyChange .preserve set change) := by
  by_cases h : change.pass = .imports
  · cases change with
    | importName i => exact layoutFree_ensureImport set i
    | _ => cases h
  · intro t
    rw [applyChange_inClass h, applyChange_inClass h]
    exact layoutFree_editClass (layoutFree_editOf change) t

theorem erased_ensureStrictTypes (rules : MergeRules) {t u : SourceTree}
    (h : t.erased = u.erased) :
    (ensureStrictTypes rules t).map SourceTree.erased =
      (ensureStrictTypes rules u).map SourceTree.erased := by
  obtain ⟨hs, hh, hn, hi, hitems⟩ := SourceTree.mk.injEq .. ▸ h
  unfold ensureStrictTypes
  rw [show t.strictTypes = u.strictTypes from hs]
  split <;> simp [Edited.map, Edited.kept, Edited.replaced, SourceTree.erased, *]

/-! ## Merges -/

/-- What merging made of a file, without layout. -/
def MergeOutcome.erased (o : MergeOutcome) : MergeOutcome := { o with tree := o.tree.erased }

/-- A merge that keeps existing members does the same up to layout. -/
theorem erased_merge (strict : Bool) {t u : SourceTree} (h : t.erased = u.erased)
    (set : ChangeSet) :
    (merge ⟨.preserve, strict⟩ t set).erased = (merge ⟨.preserve, strict⟩ u set).erased := by
  have run (changes : List Change) {t u : SourceTree} (h : t.erased = u.erased) :=
    makeAll_layout changes (fun ch _ => layoutFree_applyChange set ch) h
  have hstrict := erased_ensureStrictTypes ⟨.preserve, strict⟩ h
  simp only [Edited.map, Edited.mk.injEq] at hstrict
  simp only [merge, applyChanges_eq]
  rcases alike_cases ((layoutFree_ensureNamespace set.namespaceName).alike hstrict.1) with
    ⟨issue, hn, hn'⟩ | ⟨x, y, hn, hn', hv, hc⟩
  · simp only [hn, hn', rejected, MergeOutcome.erased, h]
  · obtain ⟨himports, hissues⟩ := run (ofPass set.changes .imports) hv
    simp only [Edited.map, Edited.mk.injEq] at himports
    simp only [hn, hn']
    rcases alike_cases ((layoutFree_ensureClass set.target).alike himports.1) with
      ⟨issue, hd, hd'⟩ | ⟨p, q, hd, hd', hp, hq⟩
    · simp only [hd, hd', rejected, MergeOutcome.erased, h, hissues]
    · obtain ⟨hdone, hrest⟩ := run (ordered set.changes) hp
      simp only [Edited.map, Edited.mk.injEq] at hdone
      simp only [hd, hd', MergeOutcome.erased, hissues, hrest, hdone, hstrict.2, hc, himports.2, hq]

/-- Merges that keep existing members, into files that differ in layout only: they are applied or
    not, change something or not and have the same issues, and the files they make differ in layout
    only. -/
theorem merge_layout {strict : Bool} {t u : SourceTree} (h : t.erased = u.erased)
    (set : ChangeSet) :
    (merge ⟨.preserve, strict⟩ t set).applied = (merge ⟨.preserve, strict⟩ u set).applied ∧
      (merge ⟨.preserve, strict⟩ t set).modified = (merge ⟨.preserve, strict⟩ u set).modified ∧
      (merge ⟨.preserve, strict⟩ t set).issues = (merge ⟨.preserve, strict⟩ u set).issues ∧
      (merge ⟨.preserve, strict⟩ t set).tree.erased =
        (merge ⟨.preserve, strict⟩ u set).tree.erased := by
  have hmerge := erased_merge strict h set
  simp only [MergeOutcome.erased, MergeOutcome.mk.injEq] at hmerge
  exact ⟨hmerge.2.2.1, hmerge.2.2.2, hmerge.2.1, hmerge.1⟩

/-- A file with a class whose method returns an empty list, as it is laid out: the texts of the
    method and of the return, and the comments behind them. -/
def listFile (method ret : Option Verbatim) (behindMethod behindReturn : Option String)
    (blank : Bool) : SourceTree :=
  { SourceTree.empty with
    namespaceName := some "Acme"
    items := [.classItem { ClassDecl.named "Event" with
      members := [⟨.method ⟨[], some .pub, true, false, false, false, "names", [], some "array",
          some [⟨.ret (some (.array [])), ret, behindReturn, blank⟩]⟩, method, behindMethod⟩] }] }

/-- An entry for the list, and a class constant. -/
def listSet : ChangeSet :=
  ⟨"Acme", .finalClass "Event",
    [.mapEntry "names" (.text "a") (.text "b"), .constant ⟨some .pub, [("A", .text "a")]⟩]⟩

theorem merge_layout_listFile :
    let written := listFile none none none none false
    let read := listFile (some ⟨"public static function names(): array { return []; }", false⟩)
      (some ⟨"return [];", false⟩) (some "// by hand") (some "// none yet") true
    written.erased = read.erased ∧
      (merge ⟨.preserve, true⟩ written listSet).applied =
        (merge ⟨.preserve, true⟩ read listSet).applied ∧
      (merge ⟨.preserve, true⟩ written listSet).modified =
        (merge ⟨.preserve, true⟩ read listSet).modified ∧
      (merge ⟨.preserve, true⟩ written listSet).issues =
        (merge ⟨.preserve, true⟩ read listSet).issues ∧
      (merge ⟨.preserve, true⟩ written listSet).tree.erased =
        (merge ⟨.preserve, true⟩ read listSet).tree.erased :=
  have h : (listFile none none none none false).erased =
      (listFile (some ⟨"public static function names(): array { return []; }", false⟩)
        (some ⟨"return [];", false⟩) (some "// by hand") (some "// none yet") true).erased := rfl
  ⟨h, merge_layout h listSet⟩

end DomainScaffold.Merge
