import DomainScaffold.Plan
import DomainScaffold.Proofs.Merge.Registrations
import DomainScaffold.Proofs.Merge.Rereading

/-!
# Merging generated changes

Change sets of generated code make a generated file of an empty one: one class whose members are
written plainly, and whose statements are known by what has no line breaks. Such a file is printed,
read back and merged again without a change.

Results:
* `lasting_editOf`, `wellMade_merge`: generated changes keep a generated file generated.
* `mergeAll_again`: change sets that have made a file of nothing change nothing in the file that is
  read from its text, and report the same.
-/

namespace DomainScaffold.Merge

open Php Grammar

/-! ## Generated code -/

/-- A statement of generated code that is known by the same when it is read back. -/
structure LastingStatement (s : Statement) : Prop where
  plain : PlainStatement s
  steady : Steady s.kind

/-- What a member of generated code is, with statements that are known by the same when they are
    read back. -/
structure LastingKind (k : MemberKind) : Prop where
  plain : PlainMemberKind k
  steady : SteadyMember k

/-- A member of generated code, which has no text of its own. -/
structure LastingMember (m : Member) : Prop where
  eq_ofKind : m = .ofKind m.kind
  kind : LastingKind m.kind

/-- A class of generated code. -/
structure LastingClass (c : ClassDecl) : Prop where
  plain : PlainClass c
  steady : ∀ m ∈ c.members, SteadyMember m.kind

/-- A file of generated code, with its class or before it has one. -/
structure WellMade (t : SourceTree) : Prop where
  header : t.header = []
  namespaceName : ∀ n ∈ t.namespaceName, isPath n = true
  imports : ∀ i ∈ t.imports, PlainImport i
  items : t.items = [] ∨ ∃ c, t.items = [.classItem c] ∧ LastingClass c

theorem LastingKind.member {k : MemberKind} (h : LastingKind k) : LastingMember (.ofKind k) :=
  ⟨rfl, h⟩

theorem LastingClass.member {c : ClassDecl} (h : LastingClass c) :
    ∀ m ∈ c.members, LastingMember m := fun m hm =>
  ⟨(h.plain.members m hm).eq_ofKind, (h.plain.members m hm).kind, h.steady m hm⟩

theorem LastingClass.of_members {c d : ClassDecl} (h : LastingClass c)
    (hd : d = { c with interfaces := d.interfaces, members := d.members })
    (hinterfaces : ∀ i ∈ d.interfaces, isFreeName i = true)
    (hmembers : ∀ m ∈ d.members, LastingMember m) : LastingClass d := by
  obtain ⟨hattributes, hmodifiers, hparent, hname, -, -⟩ := h.plain
  refine ⟨⟨?_, ?_, ?_, ?_, hinterfaces, fun m hm => ?_⟩, fun m hm => (hmembers m hm).kind.steady⟩
  · rw [hd]; exact hattributes
  · rw [hd]; exact hmodifiers
  · rw [hd]; exact hparent
  · rw [hd]; exact hname
  · exact ⟨(hmembers m hm).eq_ofKind, (hmembers m hm).kind.plain⟩

/-! ## Bodies -/

section Bodies

variable {body : List Statement}

theorem lastingKind_iff {k : MemberKind} :
    LastingKind k ↔ PlainMemberKind k ∧
      ∀ body, bodyOf? k = some body → ∀ s ∈ body, LastingStatement s := by
  constructor
  · rintro ⟨hplain, hsteady⟩
    refine ⟨hplain, fun body hbody s hs => ⟨?_, hsteady body hbody s hs⟩⟩
    cases hplain with
    | method _ _ _ hstatements =>
      obtain rfl := Option.some.inj hbody
      exact hstatements s hs
    | _ => cases hbody
  · rintro ⟨hplain, hstatements⟩
    exact ⟨hplain, fun body hbody s hs => (hstatements body hbody s hs).steady⟩

/-- A member whose body is rewritten by what keeps statements generated. -/
theorem LastingKind.bodyWritten {f : List Statement → List Statement} {k : MemberKind}
    (hf : ∀ body, (∀ s ∈ body, LastingStatement s) → ∀ s ∈ f body, LastingStatement s)
    (h : LastingKind k) : LastingKind (bodyWritten f k) := by
  rw [lastingKind_iff] at h ⊢
  obtain ⟨hplain, hstatements⟩ := h
  cases hplain with
  | @method visibility isStatic name params returnType body hname hparams hreturn _ =>
    have hbody := hf body (hstatements body rfl)
    refine ⟨.method hname hparams hreturn fun s hs => (hbody s hs).plain, fun b hb => ?_⟩
    obtain rfl := Option.some.inj hb
    exact hbody
  | traitUse h => exact ⟨.traitUse h, hstatements⟩
  | constant h₁ h₂ => exact ⟨.constant h₁ h₂, hstatements⟩
  | property h₁ h₂ h₃ => exact ⟨.property h₁ h₂ h₃, hstatements⟩

theorem LastingMember.rewrite {f : MemberKind → MemberKind} {m : Member}
    (hf : LastingKind m.kind → LastingKind (f m.kind)) (h : LastingMember m) :
    LastingMember (rewrite f m) := by
  by_cases hsame : f m.kind = m.kind
  · rwa [rewrite_of_eq hsame]
  · have htrailing : m.trailing = none := by rw [h.eq_ofKind]; rfl
    rw [rewrite_of_ne hsame, htrailing]
    exact (hf h.kind).member

theorem lasting_injected {ss : List Statement} (hss : ∀ s ∈ ss, LastingStatement s)
    (hbody : ∀ s ∈ body, LastingStatement s) :
    ∀ s ∈ afterEdit body (.ok (Edited.foldl injected body ss)), LastingStatement s := by
  obtain ⟨added, hvalue, hsub, -⟩ := foldl_injected body ss
  rw [afterEdit_foldl_injected, hvalue]
  exact List.forall_mem_append.2 ⟨hbody, fun s hs => hss s (hsub.subset hs)⟩

theorem arePlainItems_append (items more : List (Option Expr × Expr)) :
    arePlainItems (items ++ more) = (arePlainItems items && arePlainItems more) := by
  induction items with
  | nil => rfl
  | cons item items ih =>
    rcases item with ⟨_ | key, e⟩ <;> simp [arePlainItems, ih, Bool.and_assoc]

/-- A return of an array with one more entry. -/
theorem lasting_withEntry {items : List (Option Expr × Expr)} {key value : Expr}
    (hitems : arePlainItems items = true)
    (hkeys : ∀ item ∈ items, item.1.map Expr.joined = item.1) (hkey : isPlain key = true)
    (hvalue : isPlain value = true) (hjoined : key.joined = key) :
    LastingStatement (.ofReturn (.array (items ++ [(some key, value)]))) := by
  refine ⟨⟨rfl, .ret ?_⟩, ?_⟩
  · simp [isPlain, arePlainItems_append, arePlainItems, hitems, hkey, hvalue]
  · exact List.forall_mem_append.2 ⟨hkeys, List.forall_mem_singleton.2 (congrArg some hjoined)⟩

theorem lasting_injectEntry (noMap : GenerationError) {key value : Expr}
    (hkey : isPlain key = true) (hvalue : isPlain value = true) (hjoined : key.joined = key)
    (hbody : ∀ s ∈ body, LastingStatement s) :
    ∀ s ∈ afterEdit body (injectEntry noMap key value body), LastingStatement s := by
  have step := entryStep noMap key value body
  generalize injectEntry noMap key value body = o at step ⊢
  cases step with
  | opened _ =>
    exact List.forall_mem_append.2 ⟨hbody, List.forall_mem_singleton.2
      (lasting_withEntry (rfl : arePlainItems [] = true) (by simp) hkey hvalue hjoined)⟩
  | @added before s after items hs _ _ =>
    rw [List.forall_mem_append, List.forall_mem_cons] at hbody
    obtain ⟨hbefore, ⟨hplain, hsteady⟩, hafter⟩ := hbody
    refine List.forall_mem_append.2 ⟨hbefore, List.forall_mem_cons.2 ⟨?_, hafter⟩⟩
    have hform : ∀ k, ({ s with kind := k, verbatim := none } : Statement) = .ofKind k := fun k => by
      rw [hplain.eq_ofKind]
      rfl
    have hitems : arePlainItems items = true := by
      have hkind := hplain.kind
      rw [hs] at hkind
      cases hkind with
      | ret h => exact h
    rw [hs] at hsteady
    rw [hform]
    exact lasting_withEntry hitems hsteady hkey hvalue hjoined
  | there _ _ => exact hbody
  | refused _ => exact hbody

end Bodies

/-! ## Changes -/

/-- A change of generated code that adds only what is known by the same when it is read back. -/
inductive LastingChange : Change → Prop where
  | importName {i : Import} : PlainImport i → LastingChange (.importName i)
  | interface {name : String} : isFreeName name = true → LastingChange (.interface name)
  | traitUse {name : String} : isFreeName name = true → LastingChange (.traitUse name)
  | constant {decl : ConstantDecl} : PlainMemberKind (.constant decl) →
      LastingChange (.constant decl)
  | property {decl : PropertyDecl} : PlainMemberKind (.property decl) →
      LastingChange (.property decl)
  | method {d : MethodDecl} : LastingKind (.method d) → LastingChange (.method d)
  | methodGroup {ds : List MethodDecl} : (∀ d ∈ ds, LastingKind (.method d)) →
      LastingChange (.methodGroup ds)
  | statements {method : String} {ss : List Statement} :
      (∀ s ∈ ss, LastingStatement s ∧ Registers s) → LastingChange (.statements method ss)
  | mapEntry {method : String} {key value : Expr} : isPlain key = true → isPlain value = true →
      key.joined = key → LastingChange (.mapEntry method key value)

theorem LastingChange.onlyRegisters {ch : Change} (h : LastingChange ch) : OnlyRegisters ch := by
  intro s hs
  cases h with
  | statements hss => exact (hss s hs).2
  | _ => cases hs

section Members

variable {ms : List Member} {policy : MergePolicy} {k : MemberKind}

/-- A member without a body is generated if it is plain. -/
theorem lastingKind_of_bodyless (h : PlainMemberKind k) (hbody : bodyOf? k = none) :
    LastingKind k :=
  lastingKind_iff.2 ⟨h, fun b hb => by rw [hbody] at hb; cases hb⟩

theorem lasting_replacing {f : MemberKind → MemberKind}
    (hf : ∀ k, LastingKind k → LastingKind (f k)) (h : LastingKind k) :
    LastingKind (replacing policy f k) := by
  cases policy with
  | preserve => exact h
  | replace => exact hf k h

theorem LastingKind.constantWritten {entry : String × Expr} (hvalue : isPlain entry.2 = true)
    (h : LastingKind k) : LastingKind (constantWritten entry k) := by
  have hplain := h.plain
  cases hplain with
  | @constant name value hname hold =>
    rw [Merge.constantWritten, ConstantDecl.publicOne, editFirst]
    split
    · exact lastingKind_of_bodyless (.constant hname hvalue) rfl
    · exact lastingKind_of_bodyless (.constant hname hold) rfl
  | _ => exact h

theorem LastingKind.propertyWritten {decl : PropertyDecl} {entry : String × Option Expr}
    (hfresh : LastingKind (.property { decl with entries := [entry] })) (h : LastingKind k) :
    LastingKind (propertyWritten decl entry k) := by
  have hplain := h.plain
  cases hplain with
  | property _ _ _ => exact hfresh
  | _ => exact h

theorem LastingKind.methodWritten {d : MethodDecl} (hd : LastingKind (.method d))
    (h : LastingKind k) : LastingKind (methodWritten d k) := by
  cases k with
  | method e => exact hd
  | _ => exact h

theorem lasting_upsert {u : Upsert} (hwrite : ∀ k, LastingKind k → LastingKind (u.write k))
    (hfresh : LastingKind u.fresh) (h : ∀ m ∈ ms, LastingMember m) :
    ∀ m ∈ u.apply ms, LastingMember m := by
  intro m hm
  cases hany : ms.any u.slot.inMember with
  | true =>
    rw [Upsert.apply_of_any hany] at hm
    rcases mem_editFirst hm with hm | ⟨n, hn, -, rfl⟩
    · exact h m hm
    · exact (h n hn).rewrite (hwrite n.kind)
  | false =>
    rw [Upsert.apply_of_not_any hany] at hm
    rcases List.eq_or_mem_of_mem_insertIdx hm with rfl | hm
    · exact hfresh.member
    · exact h m hm

theorem lasting_body {method : String} {f : List Statement → List Statement}
    (hf : ∀ body, (∀ s ∈ body, LastingStatement s) → ∀ s ∈ f body, LastingStatement s)
    (h : ∀ m ∈ ms, LastingMember m) :
    ∀ m ∈ (MemberEdit.body method f).apply ms, LastingMember m := by
  intro m hm
  rcases mem_editFirst hm with hm | ⟨n, hn, -, rfl⟩
  · exact h m hm
  · exact (h n hn).rewrite fun hkind => hkind.bodyWritten hf

/-- Generated changes add generated members. -/
theorem lasting_memberEdit {className : String} {ch : Change} (hch : LastingChange ch)
    {e : MemberEdit} (he : e ∈ memberEdits className policy ch)
    (h : ∀ m ∈ ms, LastingMember m) : ∀ m ∈ e.apply ms, LastingMember m := by
  cases hch with
  | importName _ => cases he
  | interface _ => cases he
  | @traitUse name hname =>
    obtain rfl := List.mem_singleton.1 he
    exact lasting_upsert (fun _ => id) (lastingKind_of_bodyless (.traitUse hname) rfl) h
  | @constant decl hdecl =>
    cases hdecl with
    | constant hname hvalue =>
      obtain rfl := List.mem_singleton.1 he
      exact lasting_upsert (fun _ => lasting_replacing fun _ => .constantWritten hvalue)
        (lastingKind_of_bodyless (.constant hname hvalue) rfl) h
  | @property decl hdecl =>
    cases hdecl with
    | property hhint hname hpreset =>
      obtain rfl := List.mem_singleton.1 he
      have hfresh := lastingKind_of_bodyless (.property hhint hname hpreset) rfl
      exact lasting_upsert (fun _ => lasting_replacing fun _ => .propertyWritten hfresh) hfresh h
  | method hd =>
    obtain rfl := List.mem_singleton.1 he
    exact lasting_upsert (fun _ => lasting_replacing fun _ => .methodWritten hd) hd h
  | @methodGroup ds hds =>
    obtain rfl := List.mem_singleton.1 he
    rw [MemberEdit.apply]
    split
    · exact h
    · refine List.forall_mem_append.2 ⟨h, fun m hm => ?_⟩
      obtain ⟨d, hd, rfl⟩ := List.mem_map.1 hm
      exact (hds d hd).member
  | statements hss =>
    obtain rfl := List.mem_singleton.1 he
    exact lasting_body (fun _ hbody => lasting_injected (fun s hs => (hss s hs).1) hbody) h
  | mapEntry hkey hvalue hjoined =>
    obtain rfl := List.mem_singleton.1 he
    exact lasting_body (fun _ hbody => lasting_injectEntry _ hkey hvalue hjoined hbody) h

theorem lasting_makeEdits {es : List MemberEdit}
    (hes : ∀ e ∈ es, ∀ ms, (∀ m ∈ ms, LastingMember m) → ∀ m ∈ e.apply ms, LastingMember m)
    (h : ∀ m ∈ ms, LastingMember m) : ∀ m ∈ makeEdits es ms, LastingMember m := by
  induction es generalizing ms with
  | nil => exact h
  | cons e es ih =>
    rw [List.forall_mem_cons] at hes
    exact ih hes.2 (hes.1 ms h)

end Members

/-- A generated class with a generated change. -/
theorem lasting_editOf {policy : MergePolicy} {c : ClassDecl} {ch : Change}
    (hch : LastingChange ch) (h : LastingClass c) :
    LastingClass (valueOr c (editOf policy ch c)) := by
  rw [editOf_value]
  refine h.of_members rfl ?_
    (lasting_makeEdits (fun e he ms => lasting_memberEdit hch he) h.member)
  cases hch with
  | interface hname =>
    rw [interfacesAfter]
    split
    · exact h.plain.interfaces
    · exact List.forall_mem_append.2 ⟨h.plain.interfaces, List.forall_mem_singleton.2 hname⟩
  | _ => exact h.plain.interfaces

/-! ## Change sets -/

/-- A change set of generated code. It declares the methods that it adds something to. -/
structure LastingSet (set : ChangeSet) : Prop where
  namespaceName : (Text.trimBoth '\\' set.namespaceName).isEmpty = true ∨
    isPath (Text.trimBoth '\\' set.namespaceName) = true
  target : set.target = .finalClass set.target.name
  name : isFreeName set.target.name = true
  changes : ∀ ch ∈ set.changes, LastingChange ch
  declares : ∀ ch ∈ set.changes, ∀ method, injectedMethod? ch = some method →
    ∃ d, .method d ∈ set.changes ∧ Text.foldAscii d.name = Text.foldAscii method

section Merge

variable {rules : MergeRules} {strict : Bool} {set : ChangeSet} {t : SourceTree}

theorem lastingClass_newClass (h : LastingSet set) : LastingClass (newClass set.target) := by
  rw [h.target]
  exact ⟨⟨rfl, rfl, rfl, h.name, by simp [newClass, ClassDecl.named],
    by simp [newClass, ClassDecl.named]⟩, by simp [newClass, ClassDecl.named]⟩

theorem wellMade_ensureNamespace (h : LastingSet set) (ht : WellMade t) :
    WellMade (valueOr t (ensureNamespace set.namespaceName t)) := by
  unfold ensureNamespace
  cases hn : t.namespaceName with
  | some found =>
    dsimp only
    split <;> exact ht
  | none =>
    dsimp only
    split
    · exact ht
    · rename_i hempty
      split
      · refine ⟨ht.header, fun n hfound => ?_, ht.imports, ht.items⟩
        obtain rfl := Option.some.inj hfound
        exact h.namespaceName.resolve_left hempty
      · exact ht

theorem wellMade_ensureClass (h : LastingSet set) (ht : WellMade t) :
    WellMade (valueOr t (ensureClass set.target t)) := by
  cases he : ensureClass set.target t with
  | error e => exact ht
  | ok e =>
    rcases ensureClass_ok he with ⟨hvalue, -⟩ | ⟨hnone, hvalue⟩
    · rw [valueOr, hvalue]
      exact ht
    · rw [valueOr, hvalue]
      refine ⟨ht.header, ht.namespaceName, ht.imports, .inr ?_⟩
      rcases ht.items with hitems | ⟨c, hitems, -⟩
      · exact ⟨_, by rw [hitems]; rfl, lastingClass_newClass h⟩
      · simp [SourceTree.declaredName?, hitems, Item.declares?] at hnone

/-- A generated file with a generated change. -/
theorem wellMade_applyChange {policy : MergePolicy} {ch : Change} (hch : LastingChange ch)
    (ht : WellMade t) : WellMade (valueOr t (applyChange policy set ch t)) := by
  by_cases hp : ch.pass = .imports
  · cases hch with
    | @importName i hi =>
      rw [applyChange_importName]
      have step := importStep set i t.imports
      generalize importInto set (.importName i) t.imports = o at step ⊢
      cases step with
      | needless _ => exact ht
      | taken _ _ => exact ht
      | added _ =>
        exact ⟨ht.header, ht.namespaceName,
          List.forall_mem_append.2 ⟨ht.imports, List.forall_mem_singleton.2 hi⟩, ht.items⟩
    | _ => cases hp
  · rw [applyChange_inClass hp]
    rcases valueOr_editClass set.target.name (editOf policy ch) t with
      hsame | ⟨i, c, hc, hvalue⟩
    · rwa [hsame]
    · rw [hvalue]
      refine ⟨ht.header, ht.namespaceName, ht.imports, .inr ?_⟩
      rcases ht.items with hitems | ⟨d, hitems, hd⟩
      · have hplace := hc.2
        rw [hitems] at hplace
        cases hplace
      · obtain ⟨rfl, rfl⟩ : i = 0 ∧ d = c := by
          have hplace := hc.2
          rw [hitems, List.getElem?_singleton] at hplace
          split at hplace
          · rename_i hi
            exact ⟨hi, Item.classItem.inj (Option.some.inj hplace)⟩
          · cases hplace
        exact ⟨_, by rw [withClass, hitems]; rfl, lasting_editOf hch hd⟩

/-- A generated file with a generated change set. -/
theorem wellMade_merge (h : LastingSet set) (ht : WellMade t) :
    WellMade (merge rules t set).tree := by
  refine merge_induction (fun t ht => ?_) (fun t ht => wellMade_ensureNamespace h ht)
    (fun t ht => wellMade_ensureClass h ht)
    (fun ch hch t ht => wellMade_applyChange (h.changes ch hch) ht) ht
  rw [value_ensureStrictTypes]
  exact ⟨ht.header, ht.namespaceName, ht.imports, ht.items⟩

theorem wellMade_mergeAll {sets : List ChangeSet} (h : ∀ s ∈ sets, LastingSet s)
    (ht : WellMade t) : WellMade (mergeAll rules t sets).tree := by
  induction sets generalizing t with
  | nil => exact ht
  | cons set sets ih =>
    rw [List.forall_mem_cons] at h
    exact ih h.2 (wellMade_merge h.1 ht)

theorem wellMade_empty : WellMade .empty := ⟨rfl, by simp [SourceTree.empty],
  by simp [SourceTree.empty], .inl rfl⟩

/-- A generated file that has a class is plain, and the class is known by the same when it is read
    back. -/
theorem WellMade.plainTree (ht : WellMade t) (hitems : t.items ≠ []) :
    PlainTree t ∧ ∀ d ∈ t.classes, ∀ m ∈ d.members, SteadyMember m.kind := by
  obtain ⟨d, hd, hlasting⟩ := ht.items.resolve_left hitems
  refine ⟨⟨ht.header, ht.namespaceName, ht.imports, d, hd, hlasting.plain⟩, fun e he => ?_⟩
  have hclasses : t.classes = [d] := by rw [SourceTree.classes, hd]; rfl
  rw [hclasses, List.mem_singleton] at he
  rw [he]
  exact hlasting.steady

theorem WellMade.lastingClass (ht : WellMade t) {name : String} {c : ClassDecl}
    (hc : t.classNamed? name = some c) : LastingClass c := by
  rcases ht.items with hitems | ⟨d, hitems, hd⟩
  · simp [SourceTree.classNamed?, SourceTree.classes, hitems] at hc
  · have hclasses : t.classes = [d] := by rw [SourceTree.classes, hitems]; rfl
    have hmem := List.mem_of_find?_eq_some hc
    rw [hclasses, List.mem_singleton] at hmem
    rwa [hmem]

/-! ## Bodies that are there -/

/-- The class of an applied change set. -/
theorem classNamed?_merge (happlied : (merge rules t set).applied = true) :
    ∃ c, (merge rules t set).tree.classNamed? set.target.name =
      some (classRun rules.policy set c).1.value := by
  obtain ⟨p, i, c, prepared, htree, -⟩ := merge_applied happlied
  rw [htree]
  exact ⟨c, (prepared.target_classRun _).classNamed?_eq⟩

/-- A file that a change set was applied to has a class. -/
theorem items_merge_of_applied (h : (merge rules t set).applied = true) :
    (merge rules t set).tree.items ≠ [] := by
  obtain ⟨c, hc⟩ := classNamed?_merge h
  intro hnone
  rw [SourceTree.classNamed?, SourceTree.classes, hnone] at hc
  cases hc

theorem items_merge_of_ne_nil (h : t.items ≠ []) : (merge rules t set).tree.items ≠ [] := by
  cases happlied : (merge rules t set).applied with
  | true => exact items_merge_of_applied happlied
  | false => rwa [(merge_rejected happlied).1]

theorem items_mergeAll_of_ne_nil (sets : List ChangeSet) (h : t.items ≠ []) :
    (mergeAll rules t sets).tree.items ≠ [] := by
  induction sets generalizing t with
  | nil => exact h
  | cons set sets ih => exact ih (items_merge_of_ne_nil h)

/-- What change sets make of nothing has a class. -/
theorem items_mergeAll_empty {sets : List ChangeSet} (hsets : sets ≠ []) :
    (mergeAll rules .empty sets).tree.items ≠ [] := by
  obtain ⟨first, others, rfl⟩ := List.exists_cons_of_ne_nil hsets
  exact items_mergeAll_of_ne_nil others
    (items_merge_of_applied (merge_applied_iff.2 (accepts_empty first)))

theorem mem_ordered_of_ne {changes : List Change} {ch : Change} (h : ch ∈ changes)
    (hp : ch.pass ≠ .imports) : ch ∈ ordered changes :=
  (List.mem_append.1 (mem_madeInOrder.2 h)).resolve_left fun hm => hp (pass_of_mem_ofPass hm)

theorem inMember_method_congr {a b : String} (h : Text.foldAscii a = Text.foldAscii b) :
    (Slot.method a).inMember = (Slot.method b).inMember := by
  funext m
  rw [Slot.inMember, Slot.inMember]
  cases outlineOf m.kind <;> simp only [Slot.fits, h]

/-- The methods of a generated class have bodies. -/
theorem LastingClass.isSome_bodyOfMethod? {c : ClassDecl} (h : LastingClass c) {method : String}
    (hany : c.members.any (Slot.method method).inMember = true) :
    (bodyOfMethod? c method).isSome = true := by
  obtain ⟨m, hm⟩ := find?_of_any hany
  obtain ⟨d, hd⟩ := method?_eq_some_of_inMember (List.find?_some hm)
  have hplain := (h.plain.members m (List.mem_of_find?_eq_some hm)).kind
  rw [bodyOfMethod?_eq, methodKind?, hm, Option.map_some, Option.bind_some]
  rw [hd] at hplain ⊢
  cases hplain with
  | method _ _ _ _ => rfl

/-- The methods that a generated change set adds something to have a body once it is merged. -/
theorem bodiesThere_merge (h : LastingSet set) (ht : WellMade t)
    (happlied : (merge ⟨.preserve, strict⟩ t set).applied = true) :
    BodiesThere set (merge ⟨.preserve, strict⟩ t set).tree := by
  intro d hd ch hch method hmethod
  have hwell : WellMade (merge ⟨.preserve, strict⟩ t set).tree := wellMade_merge h ht
  have hlasting := hwell.lastingClass hd
  obtain ⟨c, hc⟩ := classNamed?_merge happlied
  obtain rfl := Option.some.inj (hc.symm.trans hd)
  obtain ⟨m, hm, hname⟩ := h.declares ch hch method hmethod
  have hmet := met_classRun (fun ch hch => (h.changes ch hch).onlyRegisters) .preserve c
    (mem_ordered_of_ne hm (by simp [Change.pass]))
  have hhas : Has (.declare (.ofMethod .preserve m)) (classRun .preserve set c).1.value.members :=
    hmet.has _ (by simp [memberEdits])
  refine hlasting.isSome_bodyOfMethod? ?_
  rw [← inMember_method_congr hname]
  exact hhas

/-! ## Merging again -/

/-- Merges in a row as far as the one of a certain set. -/
theorem mergeAll_concat (rules : MergeRules) (t : SourceTree) (prior : List ChangeSet)
    (set : ChangeSet) :
    (mergeAll rules t (prior ++ [set])).tree =
      (merge rules (mergeAll rules t prior).tree set).tree :=
  (mergeAll_append rules t prior [set]).1

variable (strict) in
/-- Generated change sets for one class that have made a file of nothing: the file is read from its
    text, and they change nothing in it and report the same. -/
theorem mergeAll_again {sets : List ChangeSet} {first : ChangeSet} (hfirst : first ∈ sets)
    (hsame : ∀ s ∈ sets, first.sameClass s = true) (h : ∀ s ∈ sets, LastingSet s)
    (path : String) :
    let made := mergeAll ⟨.preserve, strict⟩ .empty sets
    ∃ t, SourceTree.ofText (Printer.file made.tree) path = .ok t ∧
      mergeAll ⟨.preserve, strict⟩ t sets = ⟨t, made.issues, true, false⟩ := by
  intro made
  have hr : ∀ s ∈ sets, ∀ ch ∈ s.changes, OnlyRegisters ch :=
    fun s hs ch hch => ((h s hs).changes ch hch).onlyRegisters
  have hall : ∀ before s after, sets = before ++ s :: after →
      AppliedAfter ⟨.preserve, strict⟩ .empty before s := by
    refine (mergeAll_all_or_none hsame).resolve_right fun ⟨hnone, _⟩ => ?_
    obtain ⟨s, rest, hsets⟩ := List.exists_cons_of_ne_nil (List.ne_nil_of_mem hfirst)
    exact hnone [] s rest hsets (merge_applied_iff.2 (accepts_empty s))
  have hwell : ∀ prior later, sets = prior ++ later →
      WellMade (mergeAll ⟨.preserve, strict⟩ .empty prior).tree := fun prior later hsets =>
    wellMade_mergeAll (fun s hs => h s (by rw [hsets]; exact List.mem_append_left _ hs))
      wellMade_empty
  obtain ⟨hplain, hsteady⟩ := (hwell sets [] (by simp)).plainTree
    (items_mergeAll_empty (List.ne_nil_of_mem hfirst))
  obtain ⟨t, hread, hrereads⟩ := ofText_file hplain path
  refine ⟨t, hread, mergeAll_resumed hr (mergeAll_applied_iff.2 hall) ?_
    (continues_readAs hsteady hrereads)⟩
  intro prior s later hsets
  rw [mergeAll_concat]
  exact bodiesThere_merge (h s (by rw [hsets]; simp)) (hwell prior (s :: later) hsets)
    (hall prior s later hsets)

end Merge

end DomainScaffold.Merge
