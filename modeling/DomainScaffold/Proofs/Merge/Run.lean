import DomainScaffold.Proofs.Merge.Bodies

/-!
# The changes of a class one after the other

A merge adds imports and then edits one class. This module takes it apart: the imports are made in
the list of imports alone, and the changes of the class are edits of its interfaces and members.

Results:
* `editOf_value`: what a change makes of a class.
* `makeAll_editOf_value`: what changes in a row make of a class.
* `applyChanges_imports`, `applyChanges_inClass`: the passes of a merge as runs on the imports and
  on the class.
* `merge_applied`: the parts of a merge that is applied.
* `merge_induction`: what every step of a merge keeps.
-/

namespace DomainScaffold.Merge

open Php

/-! ## Edits of the members -/

/-- An edit of the members of a class. -/
inductive MemberEdit where
  | declare (u : Upsert)
  | group (ds : List MethodDecl)
  | body (method : String) (f : List Statement → List Statement)

/-- The members with an edit made. -/
def MemberEdit.apply : MemberEdit → List Member → List Member
  | .declare u, ms => u.apply ms
  | .group ds, ms =>
    if ds.any fun d => ms.any (Slot.method d.name).inMember then ms
    else ms ++ ds.map fun d => .ofKind (.method d)
  | .body method f, ms => editFirst (Slot.method method).inMember (rewrite (bodyWritten f)) ms

/-- The edits that a change of a class stands for. -/
def memberEdits (className : String) (policy : MergePolicy) : Change → List MemberEdit
  | .importName _ | .interface _ => []
  | .traitUse name => [.declare (.ofTrait name)]
  | .constant decl => decl.entries.map fun e => .declare (.ofConstant policy decl e)
  | .property decl => decl.entries.map fun e => .declare (.ofProperty policy decl e)
  | .method d => [.declare (.ofMethod policy d)]
  | .methodGroup ds => [.group ds]
  | .statements method ss => [.body method fun b => afterEdit b (.ok (Edited.foldl injected b ss))]
  | .mapEntry method key value => [.body method fun b =>
      afterEdit b (injectEntry (.classMapNotFound className method) key value b)]

/-- The method that a change adds something to the body of. -/
def injectedMethod? : Change → Option String
  | .statements method _ | .mapEntry method _ _ => some method
  | _ => none

/-- The members with edits made in a row. -/
def makeEdits (es : List MemberEdit) (ms : List Member) : List Member :=
  es.foldl (fun ms e => e.apply ms) ms

theorem makeEdits_append (es fs : List MemberEdit) (ms : List Member) :
    makeEdits (es ++ fs) ms = makeEdits fs (makeEdits es ms) := List.foldl_append

theorem makeEdits_singleton (e : MemberEdit) (ms : List Member) : makeEdits [e] ms = e.apply ms :=
  rfl

/-- The interfaces of a class with a change made. -/
def interfacesAfter (change : Change) (is : List String) : List String :=
  match change with
  | .interface name => if is.any fun i => sameClassName i name then is else is ++ [name]
  | _ => is

/-! ## Changes of a class -/

/-- The class with a change made; an import leaves it as it is. -/
def editOf (policy : MergePolicy) (change : Change) (c : ClassDecl) : Outcome (Edited ClassDecl) :=
  match change with
  | .importName _ => .ok (.kept c)
  | .interface name => .ok (ensureInterface name c)
  | .traitUse name => .ok (ensureTrait name c)
  | .constant decl => .ok (ensureConstants policy decl c)
  | .property decl => .ok (ensureProperties policy decl c)
  | .method decl => .ok (ensureMethod policy decl c)
  | .methodGroup decls => .ok (ensureMethodGroup decls c)
  | .statements method ss => injectStatements method ss c
  | .mapEntry method key value => injectMapEntry method key value c

/-- The value of an edit, or what was there if it could not be made. -/
def valueOr {α : Type} (a : α) : Outcome (Edited α) → α
  | .ok e => e.value
  | .error _ => a

theorem foldl_performs {β : Type} {f : β → ClassDecl → Edited ClassDecl} {u : β → Upsert}
    (h : ∀ b c, Performs (u b) c (f b c)) (bs : List β) (c : ClassDecl) :
    (Edited.foldl f c bs).value =
      withMembers c (makeEdits (bs.map fun b => .declare (u b)) c.members) := by
  induction bs generalizing c with
  | nil => rfl
  | cons b bs ih =>
    rw [Edited.foldl]
    dsimp only
    rw [ih, (h b c).value]
    rfl

theorem value_editBody {method : String} {noBody : GenerationError}
    {f : List Statement → Outcome (Edited (List Statement))} (hf : Exact f) (c : ClassDecl) :
    valueOr c (editBody method noBody f c) =
      withMembers c ((MemberEdit.body method fun b => afterEdit b (f b)).apply c.members) := by
  rw [MemberEdit.apply]
  cases hfind : c.members.find? (Slot.method method).inMember with
  | none =>
    rw [editBody_of_find?_eq_none hfind, editFirst_eq_self fun m hm => by rw [hfind] at hm; cases hm]
    rfl
  | some m =>
    obtain ⟨d, hd⟩ := method?_eq_some_of_inMember (List.find?_some hfind)
    cases hb : d.body with
    | none =>
      rw [editBody_of_bodyless hfind hd hb, editFirst_rewrite_eq_self hfind]
      · rfl
      · rw [hd, bodyWritten, hb, Option.map_none, ← hb]
    | some body =>
      rw [editBody_of_body hfind hd hb hf]
      cases he : f body with
      | ok e => rfl
      | error e =>
        rw [editFirst_rewrite_eq_self hfind]
        · rfl
        · rw [hd, bodyWritten, hb, Option.map_some, he, afterEdit, ← hb]

theorem isSome_methodPlace? (c : ClassDecl) (name : String) :
    (methodPlace? c name).isSome = c.members.any (Slot.method name).inMember := by
  rw [methodPlace?, isMethodNamed_eq, List.findIdx?_isSome]

/-- What a change makes of a class. -/
theorem editOf_value (policy : MergePolicy) (change : Change) (c : ClassDecl) :
    valueOr c (editOf policy change c) =
      { c with
        interfaces := interfacesAfter change c.interfaces
        members := makeEdits (memberEdits c.name policy change) c.members } := by
  cases change with
  | importName i => rfl
  | interface name =>
    by_cases h : implements c name = true
    · rw [editOf, ensureInterface, if_pos h, interfacesAfter, if_pos (by exact h)]
      rfl
    · rw [editOf, ensureInterface, if_neg h, interfacesAfter, if_neg (by exact h)]
      rfl
  | traitUse name => exact (performs_ensureTrait name c).value
  | constant decl => exact foldl_performs (performs_ensureConstantEntry policy decl) decl.entries c
  | property decl => exact foldl_performs (performs_ensurePropertyEntry policy decl) decl.entries c
  | method d => exact (performs_ensureMethod policy d c).value
  | methodGroup ds =>
    simp only [editOf, ensureMethodGroup, memberEdits, makeEdits_singleton, MemberEdit.apply,
      isSome_methodPlace?]
    by_cases h : (ds.any fun d => c.members.any (Slot.method d.name).inMember) = true
    · rw [if_pos h, if_pos h]
      rfl
    · rw [if_neg h, if_neg h]
      rfl
  | statements method ss => exact value_editBody (exact_injected ss) c
  | mapEntry method key value => exact value_editBody (exact_injectEntry _ key value) c

/-! ## Changes in a row -/

/-- Something with all changes made that can be made, and what was wrong with the others. -/
def makeAll {α : Type} (f : Change → α → Outcome (Edited α)) :
    List Change → α → Edited α × List GenerationError
  | [], a => (.kept a, [])
  | change :: changes, a =>
    match f change a with
    | .error e =>
      let (rest, issues) := makeAll f changes a
      (rest, e :: issues)
    | .ok first =>
      let (rest, issues) := makeAll f changes first.value
      (⟨rest.value, first.changed || rest.changed⟩, issues)

theorem applyChanges_eq (policy : MergePolicy) (set : ChangeSet) (changes : List Change)
    (t : SourceTree) :
    applyChanges policy set changes t = makeAll (applyChange policy set) changes t := by
  induction changes generalizing t with
  | nil => rfl
  | cons change changes ih =>
    unfold applyChanges makeAll
    cases applyChange policy set change t with
    | error e => simp only [ih]
    | ok first => simp only [ih]

section MakeAll

variable {α β : Type} {f : Change → α → Outcome (Edited α)} {g : Change → β → Outcome (Edited β)}

theorem makeAll_cons_error {change : Change} {changes : List Change} {a : α} {e : GenerationError}
    (h : f change a = .error e) :
    makeAll f (change :: changes) a = ((makeAll f changes a).1, e :: (makeAll f changes a).2) := by
  rw [makeAll, h]

theorem makeAll_cons_ok {change : Change} {changes : List Change} {a : α} {first : Edited α}
    (h : f change a = .ok first) :
    makeAll f (change :: changes) a =
      (⟨(makeAll f changes first.value).1.value,
        first.changed || (makeAll f changes first.value).1.changed⟩,
        (makeAll f changes first.value).2) := by
  rw [makeAll, h]

theorem makeAll_value (changes : List Change) (a : α) :
    (makeAll f changes a).1.value = changes.foldl (fun a ch => valueOr a (f ch a)) a := by
  induction changes generalizing a with
  | nil => rfl
  | cons change changes ih =>
    rw [List.foldl_cons, ← ih]
    cases h : f change a with
    | error e =>
      rw [makeAll_cons_error h]
      rfl
    | ok first =>
      rw [makeAll_cons_ok h]
      rfl

theorem makeAll_append (cs ds : List Change) (a : α) :
    makeAll f (cs ++ ds) a =
      (⟨(makeAll f ds (makeAll f cs a).1.value).1.value,
        (makeAll f cs a).1.changed || (makeAll f ds (makeAll f cs a).1.value).1.changed⟩,
        (makeAll f cs a).2 ++ (makeAll f ds (makeAll f cs a).1.value).2) := by
  induction cs generalizing a with
  | nil => simp [makeAll, Edited.kept]
  | cons change cs ih =>
    rw [List.cons_append]
    cases h : f change a with
    | error e => simp only [makeAll_cons_error h, ih, List.cons_append]
    | ok first => simp only [makeAll_cons_ok h, ih, Bool.or_assoc]

/-- A run inside something larger is a run of its own. -/
theorem makeAll_lift (emb : β → α) (inv : β → Prop) {changes : List Change}
    (hf : ∀ ch ∈ changes, ∀ b, inv b → f ch (emb b) = (g ch b).map (Edited.map emb))
    (hinv : ∀ ch ∈ changes, ∀ b, inv b → inv (valueOr b (g ch b))) {b : β} (hb : inv b) :
    makeAll f changes (emb b) = ((makeAll g changes b).1.map emb, (makeAll g changes b).2) := by
  induction changes generalizing b with
  | nil => rfl
  | cons change changes ih =>
    have ih := fun {d} => @ih (fun ch h => hf ch (List.mem_cons_of_mem _ h))
      (fun ch h => hinv ch (List.mem_cons_of_mem _ h)) d
    have hstep := hf change (by simp) b hb
    have hnext := hinv change (by simp) b hb
    cases hg : g change b with
    | error e =>
      rw [hg] at hstep
      rw [makeAll_cons_error hg, makeAll_cons_error hstep, ih hb]
    | ok first =>
      rw [hg] at hstep
      have hnext : inv first.value := by rwa [hg] at hnext
      rw [makeAll_cons_ok hg, makeAll_cons_ok hstep]
      simp only [Edited.map, ih hnext]

/-- What every step keeps holds after a run. -/
theorem makeAll_induction {P : α → Prop} {changes : List Change}
    (step : ∀ ch ∈ changes, ∀ a, P a → P (valueOr a (f ch a))) {a : α} (h : P a) :
    P (makeAll f changes a).1.value := by
  rw [makeAll_value]
  induction changes generalizing a with
  | nil => exact h
  | cons change changes ih =>
    exact ih (fun ch hch => step ch (List.mem_cons_of_mem _ hch)) (step change (by simp) a h)

end MakeAll

theorem makeEdits_flatMap (className : String) (policy : MergePolicy) (changes : List Change)
    (ms : List Member) :
    makeEdits (changes.flatMap (memberEdits className policy)) ms =
      changes.foldl (fun ms ch => makeEdits (memberEdits className policy ch) ms) ms := by
  induction changes generalizing ms with
  | nil => rfl
  | cons change changes ih => rw [List.flatMap_cons, makeEdits_append, ih, List.foldl_cons]

/-- What changes in a row make of a class. -/
theorem makeAll_editOf_value (policy : MergePolicy) (changes : List Change) (c : ClassDecl) :
    (makeAll (editOf policy) changes c).1.value =
      { c with
        interfaces := changes.foldl (fun is ch => interfacesAfter ch is) c.interfaces
        members := makeEdits (changes.flatMap (memberEdits c.name policy)) c.members } := by
  rw [makeAll_value, makeEdits_flatMap]
  induction changes generalizing c with
  | nil => rfl
  | cons change changes ih =>
    rw [List.foldl_cons, editOf_value, ih]
    rfl

/-! ## The class of a file -/

/-- The file with another class at a place. -/
def withClass (t : SourceTree) (i : Nat) (c : ClassDecl) : SourceTree :=
  { t with items := t.items.set i (.classItem c) }

/-- Whether the changes for a class go into the item at a place. -/
def IsTarget (name : String) (t : SourceTree) (i : Nat) (c : ClassDecl) : Prop :=
  t.items.findIdx? (isClassNamed name) = some i ∧ t.items[i]? = some (.classItem c)

theorem isTarget_of_findIdx? {name : String} {t : SourceTree} {i : Nat}
    (h : t.items.findIdx? (isClassNamed name) = some i) : ∃ c, IsTarget name t i c := by
  obtain ⟨hlt, hfit, _⟩ := List.findIdx?_eq_some_iff_getElem.1 h
  cases hk : t.items[i] with
  | classItem d => exact ⟨d, h, by rw [List.getElem?_eq_getElem hlt, hk]⟩
  | other _ _ => rw [hk] at hfit; cases hfit

theorem isTarget_withClass {name : String} {t : SourceTree} {i : Nat} {c d : ClassDecl}
    (h : IsTarget name t i c) (hd : d.name = c.name) : IsTarget name (withClass t i d) i d := by
  obtain ⟨hi, hc⟩ := h
  obtain ⟨hlt, hfit, hmin⟩ := List.findIdx?_eq_some_iff_getElem.1 hi
  rw [List.getElem?_eq_getElem hlt, Option.some.injEq] at hc
  refine ⟨List.findIdx?_eq_some_iff_getElem.2 ⟨by simpa [withClass] using hlt, ?_, ?_⟩, ?_⟩
  · rw [hc] at hfit
    simpa [withClass, isClassNamed, Item.class?, hd] using hfit
  · intro j hj
    have hne : i ≠ j := by omega
    simpa [withClass, List.getElem_set, hne] using hmin j hj
  · simp [withClass, hlt]

theorem editClass_of_target {name : String} {t : SourceTree} {i : Nat} {c : ClassDecl}
    (h : IsTarget name t i c) (f : ClassDecl → Outcome (Edited ClassDecl)) :
    editClass name f t = (f c).map (Edited.map (withClass t i)) := by
  rw [editClass, h.1]
  simp only [h.2, Option.bind_some, Item.class?]
  cases f c <;> rfl

theorem applyChange_inClass {policy : MergePolicy} {set : ChangeSet} {change : Change}
    (h : change.pass ≠ .imports) (t : SourceTree) :
    applyChange policy set change t = editClass set.target.name (editOf policy change) t := by
  cases change with
  | importName i => exact absurd rfl h
  | _ => rfl

theorem withClass_withClass (t : SourceTree) (i : Nat) (c d : ClassDecl) :
    withClass (withClass t i c) i d = withClass t i d := by
  simp [withClass]

theorem withClass_self {name : String} {t : SourceTree} {i : Nat} {c : ClassDecl}
    (h : IsTarget name t i c) : withClass t i c = t := by
  obtain ⟨hlt, hc⟩ := List.getElem?_eq_some_iff.1 h.2
  rw [withClass, ← hc, List.set_getElem_self]

/-- An edit of the class of a file edits that class, or there is none and nothing happens. -/
theorem valueOr_editClass (name : String) (f : ClassDecl → Outcome (Edited ClassDecl))
    (t : SourceTree) :
    valueOr t (editClass name f t) = t ∨
      ∃ i c, IsTarget name t i c ∧
        valueOr t (editClass name f t) = withClass t i (valueOr c (f c)) := by
  cases hi : t.items.findIdx? (isClassNamed name) with
  | none => exact .inl (by rw [editClass, hi]; rfl)
  | some i =>
    obtain ⟨c, hc⟩ := isTarget_of_findIdx? hi
    refine .inr ⟨i, c, hc, ?_⟩
    rw [editClass_of_target hc]
    cases f c with
    | error e => exact (withClass_self hc).symm
    | ok e => rfl

/-- The passes that change the class are a run on the class alone. -/
theorem applyChanges_inClass {policy : MergePolicy} {set : ChangeSet} {changes : List Change}
    (h : ∀ ch ∈ changes, ch.pass ≠ .imports) {t : SourceTree} {i : Nat} {c : ClassDecl}
    (hc : IsTarget set.target.name t i c) :
    applyChanges policy set changes t =
      ((makeAll (editOf policy) changes c).1.map (withClass t i),
        (makeAll (editOf policy) changes c).2) := by
  rw [applyChanges_eq]
  have step : ∀ ch ∈ changes, ∀ d : ClassDecl, d.name = c.name →
      applyChange policy set ch (withClass t i d) =
        (editOf policy ch d).map (Edited.map (withClass t i)) := fun ch hch d hd => by
    rw [applyChange_inClass (h ch hch), editClass_of_target (isTarget_withClass hc hd)]
    congr 2
    funext e
    exact withClass_withClass t i d e
  have hlift := makeAll_lift (withClass t i) (fun d => d.name = c.name) step
    (fun ch _ d hd => by rw [editOf_value]; exact hd) rfl
  rwa [withClass_self hc] at hlift

/-! ## The imports of a file -/

/-- Whether an import is of the namespace of the class. -/
def isOwnImport (set : ChangeSet) (i : Import) : Bool :=
  i.kind == .classLike && i.rename.isNone &&
    Text.sameIgnoringCase i.namespaceName (Text.trimBoth '\\' set.namespaceName)

/-- Imports with one more if they do not have it, unless it is of the namespace of the class. -/
def importInto (set : ChangeSet) (change : Change) (imports : List Import) :
    Outcome (Edited (List Import)) :=
  match change with
  | .importName i =>
    if isOwnImport set i || hasImport imports i then .ok (.kept imports)
    else
      match conflictingImport? imports i with
      | some existing => .error (.importConflict set.target.name i.name existing.name)
      | none => .ok (.replaced (imports ++ [i]))
  | _ => .ok (.kept imports)

/-- The file with other imports. -/
def withImports (t : SourceTree) (imports : List Import) : SourceTree := { t with imports }

theorem applyChange_importName (policy : MergePolicy) (set : ChangeSet) (i : Import)
    (t : SourceTree) :
    applyChange policy set (.importName i) t =
      (importInto set (.importName i) t.imports).map (Edited.map (withImports t)) := by
  by_cases hi : (isOwnImport set i || hasImport t.imports i) = true
  · rw [applyChange, ensureImport, importInto, if_pos hi, if_pos (by exact hi)]
    rfl
  · rw [applyChange, ensureImport, importInto, if_neg hi, if_neg (by exact hi)]
    cases conflictingImport? t.imports i <;> rfl

/-- The pass that adds imports is a run on the imports alone. -/
theorem applyChanges_imports {policy : MergePolicy} {set : ChangeSet} {changes : List Change}
    (h : ∀ ch ∈ changes, ch.pass = .imports) (t : SourceTree) :
    applyChanges policy set changes t =
      ((makeAll (importInto set) changes t.imports).1.map (withImports t),
        (makeAll (importInto set) changes t.imports).2) := by
  rw [applyChanges_eq]
  refine makeAll_lift (withImports t) (fun _ => True) (fun ch hch is _ => ?_)
    (fun _ _ _ _ => trivial) trivial
  cases ch with
  | importName i => exact applyChange_importName policy set i (withImports t is)
  | _ => cases h _ hch

/-! ## A whole merge -/

/-- Whether a namespace is the one that a change set is for. -/
def NamespaceFits (name : String) (found : Option String) : Prop :=
  match found with
  | some found => Text.sameIgnoringCase found (Text.trimBoth '\\' name) = true
  | none => (Text.trimBoth '\\' name).isEmpty = true

/-- A file with strict types, namespace and class as a change set needs them, made from another
    one by adding what was missing. -/
structure Prepared (rules : MergeRules) (set : ChangeSet) (t p : SourceTree) (i : Nat)
    (c : ClassDecl) : Prop where
  strictTypes : p.strictTypes = (t.strictTypes || rules.strictTypes)
  header : p.header = t.header
  fits : NamespaceFits set.namespaceName p.namespaceName
  namespaceName : p.namespaceName = t.namespaceName ∨ t.namespaceName = none ∧ t.items = []
  imports : p.imports = t.imports
  target : IsTarget set.target.name p i c
  items : p.items = t.items ∨
    t.declaredName? = none ∧ i = t.items.length ∧ p.items = t.items ++ [.classItem c]

theorem isTarget_of_classNamed? {t : SourceTree} {name : String}
    (h : (t.classNamed? name).isSome = true) : ∃ i c, IsTarget name t i c := by
  rw [SourceTree.classNamed?, SourceTree.classes, List.find?_isSome] at h
  obtain ⟨c, hc, hn⟩ := h
  obtain ⟨item, hi, hic⟩ := List.mem_filterMap.1 hc
  have hany : t.items.any (isClassNamed name) = true :=
    List.any_eq_true.2 ⟨item, hi, by rw [isClassNamed, hic]; exact hn⟩
  rw [← List.findIdx?_isSome, Option.isSome_iff_exists] at hany
  obtain ⟨i, hfind⟩ := hany
  exact ⟨i, isTarget_of_findIdx? hfind⟩

theorem IsTarget.classNamed? {t : SourceTree} {name : String} {i : Nat} {c : ClassDecl}
    (h : IsTarget name t i c) : (t.classNamed? name).isSome = true := by
  obtain ⟨hlt, hfit, _⟩ := List.findIdx?_eq_some_iff_getElem.1 h.1
  obtain ⟨_, hc⟩ := List.getElem?_eq_some_iff.1 h.2
  rw [SourceTree.classNamed?, SourceTree.classes, List.find?_isSome]
  refine ⟨c, List.mem_filterMap.2 ⟨_, List.getElem_mem hlt, by rw [hc]; rfl⟩, ?_⟩
  rw [hc] at hfit
  exact hfit

/-- In a file that declares nothing, a new class is the one that the changes are for. -/
theorem isTarget_append {t : SourceTree} (h : t.declaredName? = none) (c : ClassDecl) :
    IsTarget c.name { t with items := t.items ++ [.classItem c] } t.items.length c := by
  refine ⟨List.findIdx?_eq_some_iff_getElem.2 ⟨by simp, ?_, fun j hj => ?_⟩, by simp⟩
  · simp [isClassNamed, Item.class?, Text.sameIgnoringCase_refl]
  · rw [SourceTree.declaredName?, List.findSome?_eq_none_iff] at h
    have hlt : j < t.items.length := by simpa using hj
    have hn := h _ (List.getElem_mem hlt)
    rw [List.getElem_append_left hlt]
    cases hk : t.items[j] with
    | classItem d => rw [hk] at hn; cases hn
    | other _ _ => simp [isClassNamed, Item.class?]

theorem value_ensureStrictTypes (rules : MergeRules) (t : SourceTree) :
    (ensureStrictTypes rules t).value =
      { t with strictTypes := t.strictTypes || rules.strictTypes } := by
  rcases t with ⟨strictTypes, _, _, _, _⟩
  cases strictTypes <;> cases hr : rules.strictTypes <;>
    simp [ensureStrictTypes, Edited.kept, Edited.replaced, hr]

theorem ensureStrictTypes_of_settled {rules : MergeRules} {t : SourceTree}
    (h : rules.strictTypes = true → t.strictTypes = true) :
    ensureStrictTypes rules t = .kept t := by
  unfold ensureStrictTypes
  cases hr : rules.strictTypes with
  | false => simp
  | true => simp [h hr]

theorem ensureNamespace_of_fits {name : String} {t : SourceTree}
    (h : NamespaceFits name t.namespaceName) : ensureNamespace name t = .ok (.kept t) := by
  unfold ensureNamespace
  cases hn : t.namespaceName with
  | none =>
    rw [hn] at h
    exact if_pos h
  | some found =>
    rw [hn] at h
    exact if_pos h

theorem ensureNamespace_ok {name : String} {t : SourceTree} {e : Edited SourceTree}
    (h : ensureNamespace name t = .ok e) :
    ∃ found, e.value = { t with namespaceName := found } ∧ NamespaceFits name found ∧
      (found = t.namespaceName ∨ t.namespaceName = none ∧ t.items = []) := by
  unfold ensureNamespace at h
  cases hn : t.namespaceName with
  | some found =>
    simp only [hn] at h
    split at h
    · rename_i hs
      cases h
      exact ⟨some found, by rw [← hn]; rfl, hs, .inl rfl⟩
    · cases h
  | none =>
    simp only [hn] at h
    split at h
    · rename_i hs
      cases h
      exact ⟨none, by rw [← hn]; rfl, hs, .inl rfl⟩
    · split at h
      · rename_i hi
        cases h
        exact ⟨_, rfl, Text.sameIgnoringCase_refl _, .inr ⟨rfl, by simpa using hi⟩⟩
      · cases h

theorem ensureClass_of_target {target : ClassTarget} {t : SourceTree} {i : Nat} {c : ClassDecl}
    (h : IsTarget target.name t i c) : ensureClass target t = .ok (.kept t) :=
  if_pos h.classNamed?

/-- The class that a change set declares if there is none. -/
def newClass (target : ClassTarget) : ClassDecl :=
  { ClassDecl.named target.name with modifiers := target.modifiers, parent := target.parent }

theorem ensureClass_ok {target : ClassTarget} {t : SourceTree} {e : Edited SourceTree}
    (h : ensureClass target t = .ok e) :
    e.value = t ∧ (t.classNamed? target.name).isSome = true ∨
      t.declaredName? = none ∧
        e.value = { t with items := t.items ++ [.classItem (newClass target)] } := by
  unfold ensureClass at h
  split at h
  · rename_i hs
    cases h
    exact .inl ⟨rfl, hs⟩
  · cases hd : t.declaredName? with
    | some found => simp [hd] at h
    | none =>
      simp only [hd] at h
      cases h
      exact .inr ⟨rfl, rfl⟩

theorem pass_of_mem_ofPass {changes : List Change} {p : Pass} {ch : Change}
    (h : ch ∈ ofPass changes p) : ch.pass = p := by
  rw [ofPass, List.mem_filter, beq_iff_eq] at h
  exact h.2

theorem mem_of_mem_ordered {changes : List Change} {ch : Change} (h : ch ∈ ordered changes) :
    ch ∈ changes :=
  (ordered_perm changes).subset (List.mem_append_right _ h)

theorem pass_ne_imports_of_mem_ordered {changes : List Change} {ch : Change}
    (h : ch ∈ ordered changes) : ch.pass ≠ .imports := by
  obtain ⟨p, hp, hch⟩ := List.mem_flatMap.1 h
  rw [pass_of_mem_ofPass hch]
  rintro rfl
  simp [Pass.inClass] at hp

section Merge

variable {rules : MergeRules} {set : ChangeSet} {t : SourceTree} {i : Nat} {c : ClassDecl}

/-- The run of a change set on imports. -/
def importRun (set : ChangeSet) (imports : List Import) :
    Edited (List Import) × List GenerationError :=
  makeAll (importInto set) (ofPass set.changes .imports) imports

/-- The run of a change set on the class. -/
def classRun (policy : MergePolicy) (set : ChangeSet) (c : ClassDecl) :
    Edited ClassDecl × List GenerationError :=
  makeAll (editOf policy) (ordered set.changes) c

theorem classRun_name (policy : MergePolicy) (set : ChangeSet) (c : ClassDecl) :
    (classRun policy set c).1.value.name = c.name := by
  rw [classRun, makeAll_editOf_value]

/-- The class that changes have been made in is still the one that they are for. -/
theorem Prepared.target_classRun {p : SourceTree} (h : Prepared rules set t p i c)
    (is : List Import) :
    IsTarget set.target.name (withClass (withImports p is) i (classRun rules.policy set c).1.value) i
      (classRun rules.policy set c).1.value := by
  have hc : IsTarget set.target.name (withImports p is) i c := h.target
  exact isTarget_withClass hc (classRun_name rules.policy set c)

/-- A merge into a file that has namespace and class already. -/
theorem merge_of_settled (hs : rules.strictTypes = true → t.strictTypes = true)
    (hn : NamespaceFits set.namespaceName t.namespaceName) (hc : IsTarget set.target.name t i c) :
    merge rules t set =
      ⟨withClass (withImports t (importRun set t.imports).1.value) i
          (classRun rules.policy set c).1.value,
        (importRun set t.imports).2 ++ (classRun rules.policy set c).2, true,
        (importRun set t.imports).1.changed || (classRun rules.policy set c).1.changed⟩ := by
  have hc' : IsTarget set.target.name (withImports t (importRun set t.imports).1.value) i c := hc
  simp only [merge, ensureStrictTypes_of_settled hs, Edited.kept, ensureNamespace_of_fits hn,
    applyChanges_imports fun _ => pass_of_mem_ofPass, Edited.map]
  rw [importRun] at hc'
  simp only [ensureClass_of_target hc', Edited.kept,
    applyChanges_inClass (fun _ => pass_ne_imports_of_mem_ordered) hc']
  simp [importRun, classRun, Edited.map]

/-- The parts of a merge that is applied. -/
theorem merge_applied (h : (merge rules t set).applied = true) :
    ∃ p i c, Prepared rules set t p i c ∧
      (merge rules t set).tree = withClass (withImports p (importRun set t.imports).1.value) i
        (classRun rules.policy set c).1.value ∧
      (merge rules t set).issues =
        (importRun set t.imports).2 ++ (classRun rules.policy set c).2 := by
  unfold merge at h ⊢
  cases hn : ensureNamespace set.namespaceName (ensureStrictTypes rules t).value with
  | error e => simp only [hn] at h; cases h
  | ok spaced =>
    obtain ⟨found, hv, hfits, hfound⟩ := ensureNamespace_ok hn
    rw [value_ensureStrictTypes] at hv hfound
    simp only [hn, hv, applyChanges_imports fun _ => pass_of_mem_ofPass, Edited.map] at h ⊢
    split
    · rename_i e hd
      simp only [hd] at h
      cases h
    · rename_i declared hd
      rcases ensureClass_ok hd with ⟨hv, hclass⟩ | ⟨hnone, hv⟩
      · obtain ⟨i, c, hc⟩ := isTarget_of_classNamed? hclass
        refine ⟨{ t with
          strictTypes := t.strictTypes || rules.strictTypes
          namespaceName := found }, i, c, ⟨rfl, rfl, hfits, hfound, rfl, hc, .inl rfl⟩, ?_⟩
        simp only [hv, applyChanges_inClass (fun _ => pass_ne_imports_of_mem_ordered) hc]
        exact ⟨rfl, rfl⟩
      · have hc := isTarget_append hnone (newClass set.target)
        refine ⟨{ t with
          strictTypes := t.strictTypes || rules.strictTypes
          namespaceName := found
          items := t.items ++ [.classItem (newClass set.target)] }, t.items.length,
          newClass set.target,
          ⟨rfl, rfl, hfits, hfound, rfl, hc, .inr ⟨hnone, rfl, rfl⟩⟩, ?_⟩
        simp only [hv, applyChanges_inClass (fun _ => pass_ne_imports_of_mem_ordered) hc]
        exact ⟨rfl, rfl⟩

/-- What every step of a merge keeps holds of the merged file. -/
theorem merge_induction {P : SourceTree → Prop}
    (strict : ∀ t, P t → P (ensureStrictTypes rules t).value)
    (space : ∀ t, P t → P (valueOr t (ensureNamespace set.namespaceName t)))
    (declare : ∀ t, P t → P (valueOr t (ensureClass set.target t)))
    (change : ∀ ch ∈ set.changes, ∀ t, P t → P (valueOr t (applyChange rules.policy set ch t)))
    (h : P t) : P (merge rules t set).tree := by
  have run {changes : List Change} (hsub : ∀ ch ∈ changes, ch ∈ set.changes) {t : SourceTree}
      (ht : P t) : P (applyChanges rules.policy set changes t).1.value := by
    rw [applyChanges_eq]
    exact makeAll_induction (fun ch hch => change ch (hsub ch hch)) ht
  have hspace := space _ (strict t h)
  unfold merge
  cases hn : ensureNamespace set.namespaceName (ensureStrictTypes rules t).value with
  | error e => simpa only [hn, rejected] using h
  | ok spaced =>
    rw [hn, valueOr] at hspace
    have himports := run (fun _ hch => (List.mem_filter.1 hch).1 :
      ∀ ch ∈ ofPass set.changes .imports, ch ∈ set.changes) hspace
    have hdeclare := declare _ himports
    cases hd : ensureClass set.target
        (applyChanges rules.policy set (ofPass set.changes .imports) spaced.value).1.value with
    | error e => simpa only [hn, hd, rejected] using h
    | ok declared =>
      rw [hd, valueOr] at hdeclare
      simpa only [hn, hd] using run (fun _ => mem_of_mem_ordered) hdeclare

end Merge

end DomainScaffold.Merge
