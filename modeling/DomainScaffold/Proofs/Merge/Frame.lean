import Mathlib.Data.List.Forall2
import DomainScaffold.Proofs.Merge.Run

/-!
# What a merge leaves alone

A merge adds to a file. What stands there stays where it is and as it is, up to the members that
the policy lets it replace and the methods that it adds statements to.

Results:
* `BodyGrown.trans`: bodies only grow, however often they are edited.
* `apply_keeps`: an edit keeps the members in order.
* `merge_keeps`: a merge keeps the file.
-/

namespace DomainScaffold.Merge

open Php

/-! ## Grown bodies -/

/-- A body whose last return gives back an array with more items at its end. -/
def ReturnGrown (old new : List Statement) : Prop :=
  ∃ before last after items more, old = before ++ last :: after ∧
    last.kind = .ret (some (.array items)) ∧ NoReturn after ∧
    new = before ++
      { last with kind := .ret (some (.array (items ++ more))), verbatim := none } :: after

/-- A body with the statements of another one in their order, and others behind them. The array
    that is returned last may have got items at its end. -/
def BodyGrown (old new : List Statement) : Prop :=
  ∃ grown added, new = grown ++ added ∧ (grown = old ∨ ReturnGrown old grown)

theorem BodyGrown.refl (body : List Statement) : BodyGrown body body :=
  ⟨body, [], by simp, .inl rfl⟩

theorem BodyGrown.append (body added : List Statement) : BodyGrown body (body ++ added) :=
  ⟨body, added, rfl, .inl rfl⟩

/-- A body has one last return. -/
theorem last_return_unique {b b' a a' : List Statement} {s s' : Statement}
    (h : b ++ s :: a = b' ++ s' :: a') (hs : isReturn s = true) (hs' : isReturn s' = true)
    (ha : NoReturn a) (ha' : NoReturn a') : b = b' ∧ s = s' ∧ a = a' := by
  rcases List.append_eq_append_iff.1 h with ⟨x, hb, hx⟩ | ⟨x, hb, hx⟩
  · cases x with
    | nil => simp_all
    | cons y x =>
      obtain ⟨rfl, rfl⟩ := List.cons.inj hx
      exact absurd (ha s' (by simp)) (by simp [hs'])
  · cases x with
    | nil => simp_all
    | cons y x =>
      obtain ⟨rfl, rfl⟩ := List.cons.inj hx
      exact absurd (ha' s (by simp)) (by simp [hs])

theorem ReturnGrown.trans {old mid new : List Statement} (h₁ : ReturnGrown old mid)
    (h₂ : ReturnGrown mid new) : ReturnGrown old new := by
  obtain ⟨b, l, a, items, more, rfl, hl, ha, rfl⟩ := h₁
  obtain ⟨b', l', a', items', more', hmid, hl', ha', rfl⟩ := h₂
  obtain ⟨rfl, rfl, rfl⟩ := last_return_unique hmid (by simp [isReturn]) (by simp [isReturn, hl'])
    ha ha'
  simp only [StatementKind.ret.injEq, Option.some.injEq, Expr.array.injEq] at hl'
  subst hl'
  exact ⟨b, l, a, items, more ++ more', rfl, hl, ha, by simp⟩

/-- What has been added at the end does not take part, or the last return is in it. -/
theorem ReturnGrown.of_append {body added new : List Statement}
    (h : ReturnGrown (body ++ added) new) :
    (∃ added', new = body ++ added') ∨ ∃ grown, new = grown ++ added ∧ ReturnGrown body grown := by
  obtain ⟨b, l, a, items, more, heq, hl, ha, rfl⟩ := h
  rcases List.append_eq_append_iff.1 heq with ⟨x, rfl, hx⟩ | ⟨x, rfl, hx⟩
  · exact .inl ⟨_, List.append_assoc _ _ _⟩
  · cases x with
    | nil =>
      rw [List.append_nil]
      exact .inl ⟨_, rfl⟩
    | cons y x =>
      obtain ⟨rfl, rfl⟩ := List.cons.inj hx
      refine .inr ⟨_, ?_, b, l, x, items, more, rfl, hl, ?_, rfl⟩
      · simp
      · exact fun s hs => ha s (List.mem_append_left _ hs)

/-- Bodies only grow, however often they are edited. -/
theorem BodyGrown.trans {old mid new : List Statement} (h₁ : BodyGrown old mid)
    (h₂ : BodyGrown mid new) : BodyGrown old new := by
  obtain ⟨g₁, a₁, rfl, h₁⟩ := h₁
  obtain ⟨g₂, a₂, rfl, rfl | h₂⟩ := h₂
  · exact ⟨g₁, a₁ ++ a₂, List.append_assoc _ _ _, h₁⟩
  · rcases h₂.of_append with ⟨a, rfl⟩ | ⟨g, rfl, hg⟩
    · exact ⟨g₁, a ++ a₂, List.append_assoc _ _ _, h₁⟩
    · refine ⟨g, a₁ ++ a₂, List.append_assoc _ _ _, .inr ?_⟩
      rcases h₁ with rfl | h₁
      · exact hg
      · exact h₁.trans hg

theorem bodyGrown_injected (ss body : List Statement) :
    BodyGrown body (afterEdit body (.ok (Edited.foldl injected body ss))) := by
  obtain ⟨added, hv, -, -⟩ := foldl_injected body ss
  rw [afterEdit, hv]
  split
  · exact .append body added
  · exact .refl body

theorem bodyGrown_injectEntry (noMap : GenerationError) (key value : Expr)
    (body : List Statement) :
    BodyGrown body (afterEdit body (injectEntry noMap key value body)) := by
  have step := entryStep noMap key value body
  generalize injectEntry noMap key value body = o at step
  cases step with
  | opened _ => exact .append body _
  | @added before s after items hs ha _ =>
    exact ⟨_, [], (List.append_nil _).symm, .inr ⟨before, s, after, items, _, rfl, hs, ha, rfl⟩⟩
  | there _ _ => exact .refl body
  | refused _ => exact .refl body

/-! ## Kept members -/

/-- The names that a change replaces where the policy says so. -/
def replacedSlots : Change → List Slot
  | .constant decl => decl.entries.map fun e => .constant e.1
  | .property decl => decl.entries.map fun e => .property e.1
  | .method d => [.method d.name]
  | _ => []

/-- A member that declares a name which some change is for. -/
def Named (changes : List Change) (m : Member) : Prop :=
  ∃ ch ∈ changes, ∃ s ∈ replacedSlots ch, s.inMember m = true

/-- A method that something is to be added to. -/
def Injected (changes : List Change) (m : Member) : Prop :=
  ∃ ch ∈ changes, ∃ name, injectedMethod? ch = some name ∧ (Slot.method name).inMember m = true

/-- A method with another body that has grown from the one it had. -/
def MethodGrown (m n : Member) : Prop :=
  ∃ d body body', m.kind = .method d ∧ d.body = some body ∧ BodyGrown body body' ∧
    n.kind = .method { d with body := some body' } ∧ n.trailing = m.trailing

/-- A member is the same, or it is a method whose body has grown because something is added to
    it. -/
def MemberKept (changes : List Change) (m n : Member) : Prop :=
  n = m ∨ Injected changes m ∧ MethodGrown m n

/-- A member is kept unless the policy lets the changes replace it. -/
def KeptBy (policy : MergePolicy) (changes : List Change) (m n : Member) : Prop :=
  policy = .preserve ∨ ¬ Named changes m → MemberKept changes m n

theorem MethodGrown.outline_eq {m n : Member} (h : MethodGrown m n) :
    outlineOf n.kind = outlineOf m.kind := by
  obtain ⟨d, body, body', hm, -, -, hn, -⟩ := h
  rw [hm, hn]
  rfl

theorem MethodGrown.trans {m n o : Member} (h₁ : MethodGrown m n) (h₂ : MethodGrown n o) :
    MethodGrown m o := by
  obtain ⟨d, body, body', hm, hb, hg, hn, ht⟩ := h₁
  obtain ⟨d', mid, body'', hn', hb', hg', ho, ht'⟩ := h₂
  rw [hn, MemberKind.method.injEq] at hn'
  subst hn'
  rw [Option.some.injEq] at hb'
  subst hb'
  exact ⟨d, body, body'', hm, hb, hg.trans hg', ho, ht'.trans ht⟩

section Kept

variable {policy : MergePolicy} {changes : List Change} {m n o : Member}

theorem MemberKept.outline_eq (h : MemberKept changes m n) :
    outlineOf n.kind = outlineOf m.kind := by
  rcases h with rfl | ⟨-, h⟩
  · rfl
  · exact h.outline_eq

theorem named_congr (h : outlineOf n.kind = outlineOf m.kind) :
    Named changes n ↔ Named changes m := by
  simp only [Named, Slot.inMember, h]

instance : Std.Refl (KeptBy policy changes) := ⟨fun _ _ => .inl rfl⟩

theorem KeptBy.trans (h₁ : KeptBy policy changes m n) (h₂ : KeptBy policy changes n o) :
    KeptBy policy changes m o := by
  intro h
  have hm := h₁ h
  have hn := h₂ (h.imp_right fun hnamed => mt (named_congr hm.outline_eq).1 hnamed)
  rcases hm with rfl | ⟨hi, hg⟩
  · exact hn
  · rcases hn with rfl | ⟨-, hg'⟩
    · exact .inr ⟨hi, hg⟩
    · exact .inr ⟨hi, hg.trans hg'⟩

instance : IsTrans Member (KeptBy policy changes) := ⟨fun _ _ _ => KeptBy.trans⟩

end Kept

/-! ## Kept order -/

theorem forall₂_editFirst {α : Type} {R : α → α → Prop} [Std.Refl R] {p : α → Bool} {f : α → α}
    {l : List α} (h : ∀ a ∈ l, p a = true → R a (f a)) : List.Forall₂ R l (editFirst p f l) := by
  induction l with
  | nil => exact .nil
  | cons a l ih =>
    by_cases hp : p a = true
    · rw [editFirst_cons_of_pos hp]
      exact .cons (h a (by simp) hp) (List.forall₂_refl l)
    · rw [Bool.not_eq_true] at hp
      rw [editFirst_cons_of_neg hp]
      exact .cons (Std.Refl.refl a) (ih fun b hb => h b (List.mem_cons_of_mem _ hb))

/-- Members that are kept in their order, with others between them. -/
abbrev MembersKept (policy : MergePolicy) (changes : List Change) :
    List Member → List Member → Prop :=
  List.SublistForall₂ (KeptBy policy changes)

section Members

variable {policy : MergePolicy} {changes : List Change} {className : String} {ch : Change}

theorem membersKept_editFirst {p : Member → Bool} {f : Member → Member} {ms : List Member}
    (h : ∀ m ∈ ms, p m = true → KeptBy policy changes m (f m)) :
    MembersKept policy changes ms (editFirst p f ms) :=
  List.sublistForall₂_iff.2 ⟨_, forall₂_editFirst h, List.Sublist.refl _⟩

/-- Only under a policy that replaces does a declaring edit rewrite members, and only those with a
    name that its change replaces. -/
theorem write_eq_id_or {u : Upsert} (hu : .declare u ∈ memberEdits className policy ch) :
    u.write = id ∨ policy = .replace ∧ u.slot ∈ replacedSlots ch := by
  cases ch with
  | traitUse name =>
    simp only [memberEdits, List.mem_singleton, MemberEdit.declare.injEq] at hu
    subst hu
    exact .inl rfl
  | constant decl =>
    obtain ⟨e, he, hu⟩ := List.mem_map.1 hu
    cases hu
    cases policy with
    | preserve => exact .inl rfl
    | replace => exact .inr ⟨rfl, List.mem_map.2 ⟨e, he, rfl⟩⟩
  | property decl =>
    obtain ⟨e, he, hu⟩ := List.mem_map.1 hu
    cases hu
    cases policy with
    | preserve => exact .inl rfl
    | replace => exact .inr ⟨rfl, List.mem_map.2 ⟨e, he, rfl⟩⟩
  | method d =>
    simp only [memberEdits, List.mem_singleton, MemberEdit.declare.injEq] at hu
    subst hu
    cases policy with
    | preserve => exact .inl rfl
    | replace => exact .inr ⟨rfl, by simp [replacedSlots, Upsert.ofMethod]⟩
  | _ => simp [memberEdits] at hu

/-- An injection makes a body grow, in the method that it is for. -/
theorem bodyGrown_of_mem {method : String} {f : List Statement → List Statement}
    (h : .body method f ∈ memberEdits className policy ch) :
    injectedMethod? ch = some method ∧ ∀ body, BodyGrown body (f body) := by
  cases ch with
  | statements name ss =>
    simp only [memberEdits, List.mem_singleton, MemberEdit.body.injEq] at h
    obtain ⟨rfl, rfl⟩ := h
    exact ⟨rfl, bodyGrown_injected ss⟩
  | mapEntry name key value =>
    simp only [memberEdits, List.mem_singleton, MemberEdit.body.injEq] at h
    obtain ⟨rfl, rfl⟩ := h
    exact ⟨rfl, bodyGrown_injectEntry _ key value⟩
  | constant decl => simp [memberEdits] at h
  | property decl => simp [memberEdits] at h
  | _ => simp [memberEdits] at h

theorem memberKept_bodyWritten {f : List Statement → List Statement}
    (hf : ∀ body, BodyGrown body (f body)) {m : Member} (hi : Injected changes m) :
    MemberKept changes m (rewrite (bodyWritten f) m) := by
  by_cases hw : bodyWritten f m.kind = m.kind
  · exact .inl (rewrite_of_eq hw)
  · cases hb : bodyOf? m.kind with
    | none =>
      refine absurd ?_ hw
      cases hk : m.kind with
      | method d =>
        rw [hk] at hb
        rw [bodyWritten, show d.body = none from hb, Option.map_none, ← show d.body = none from hb]
      | _ => rfl
    | some body =>
      obtain ⟨d, hd, hdb⟩ := kind_of_bodyOf? hb
      refine .inr ⟨hi, d, body, f body, hd, hdb, hf body, ?_, trailing_rewrite _ m⟩
      rw [kind_rewrite, hd, bodyWritten, hdb, Option.map_some]

/-- An edit keeps the members in order. -/
theorem apply_keeps (hch : ch ∈ changes) {e : MemberEdit}
    (he : e ∈ memberEdits className policy ch) (ms : List Member) :
    MembersKept policy changes ms (e.apply ms) := by
  cases e with
  | declare u =>
    by_cases hany : ms.any u.slot.inMember = true
    · rw [MemberEdit.apply, Upsert.apply_of_any hany]
      refine membersKept_editFirst fun m _ hm hcond => ?_
      rcases write_eq_id_or he with hid | ⟨hp, hs⟩
      · rw [hid, rewrite_id]
        exact .inl rfl
      · rcases hcond with hpol | hnamed
        · rw [hp] at hpol
          cases hpol
        · exact absurd ⟨ch, hch, u.slot, hs, hm⟩ hnamed
    · rw [Bool.not_eq_true] at hany
      rw [MemberEdit.apply, Upsert.apply_of_not_any hany]
      exact (List.sublist_insertIdx ms _ _).sublistForall₂
  | group ds =>
    rw [MemberEdit.apply]
    split
    · exact (List.Sublist.refl ms).sublistForall₂
    · exact (List.sublist_append_left ms _).sublistForall₂
  | body method f =>
    obtain ⟨hname, hf⟩ := bodyGrown_of_mem he
    rw [MemberEdit.apply]
    exact membersKept_editFirst fun m _ hm _ =>
      memberKept_bodyWritten hf ⟨ch, hch, method, hname, hm⟩

theorem makeEdits_keeps {es : List MemberEdit}
    (h : ∀ e ∈ es, ∀ ms, MembersKept policy changes ms (e.apply ms)) (ms : List Member) :
    MembersKept policy changes ms (makeEdits es ms) := by
  induction es generalizing ms with
  | nil => exact (List.Sublist.refl ms).sublistForall₂
  | cons e es ih =>
    have first := h e (by simp) ms
    have rest := ih (fun e he => h e (List.mem_cons_of_mem _ he)) (e.apply ms)
    exact IsTrans.trans _ _ _ first rest

end Members

/-! ## Kept classes and files -/

/-- A class with everything in it kept, up to new interfaces and members. -/
structure ClassKept (policy : MergePolicy) (changes : List Change) (c d : ClassDecl) : Prop where
  name : d.name = c.name
  attributes : d.attributes = c.attributes
  modifiers : d.modifiers = c.modifiers
  parent : d.parent = c.parent
  interfaces : c.interfaces <+: d.interfaces
  members : MembersKept policy changes c.members d.members

/-- The items of a file with one class kept and the others as they were, or with one more class in
    a file that declared nothing. -/
inductive ItemsKept (policy : MergePolicy) (set : ChangeSet) : List Item → List Item → Prop where
  | edited {before c d after} : Text.sameIgnoringCase c.name set.target.name = true →
      (∀ i ∈ before, isClassNamed set.target.name i = false) →
      ClassKept policy set.changes c d →
      ItemsKept policy set (before ++ .classItem c :: after) (before ++ .classItem d :: after)
  | declared {items d} : items.findSome? Item.declares? = none →
      Text.sameIgnoringCase d.name set.target.name = true →
      ItemsKept policy set items (items ++ [.classItem d])

/-- A file with everything in it kept, up to what a change set adds or replaces. -/
structure TreeKept (policy : MergePolicy) (set : ChangeSet) (t u : SourceTree) : Prop where
  strictTypes : t.strictTypes = true → u.strictTypes = true
  header : u.header = t.header
  namespaceName : ∀ name, t.namespaceName = some name → u.namespaceName = some name
  imports : t.imports <+: u.imports
  items : ItemsKept policy set t.items u.items

theorem prefix_interfacesAfter (ch : Change) (is : List String) : is <+: interfacesAfter ch is := by
  cases ch with
  | interface name =>
    rw [interfacesAfter]
    split
    · exact List.prefix_rfl
    · exact List.prefix_append _ _
  | _ => exact List.prefix_rfl

theorem prefix_foldl {α : Type} {f : List α → Change → List α} (h : ∀ ch l, l <+: f l ch)
    (changes : List Change) (l : List α) : l <+: changes.foldl f l := by
  induction changes generalizing l with
  | nil => exact List.prefix_rfl
  | cons ch changes ih => exact (h ch l).trans (ih (f l ch))

theorem prefix_importRun (set : ChangeSet) (imports : List Import) :
    imports <+: (importRun set imports).1.value := by
  rw [importRun, makeAll_value]
  refine prefix_foldl (fun ch is => ?_) _ _
  cases ch with
  | importName i =>
    rw [importInto]
    split
    · exact List.prefix_rfl
    · split
      · exact List.prefix_rfl
      · exact List.prefix_append _ _
  | _ => exact List.prefix_rfl

theorem classRun_keeps (policy : MergePolicy) (set : ChangeSet) (c : ClassDecl) :
    ClassKept policy set.changes c (classRun policy set c).1.value := by
  rw [classRun, makeAll_editOf_value]
  refine ⟨rfl, rfl, rfl, rfl, prefix_foldl (fun ch is => prefix_interfacesAfter ch is) _ _, ?_⟩
  refine makeEdits_keeps (fun e he ms => ?_) c.members
  obtain ⟨ch, hch, he⟩ := List.mem_flatMap.1 he
  exact apply_keeps (mem_of_mem_ordered hch) he ms

theorem IsTarget.sameName {name : String} {t : SourceTree} {i : Nat} {c : ClassDecl}
    (h : IsTarget name t i c) : Text.sameIgnoringCase c.name name = true := by
  obtain ⟨hlt, hfit, _⟩ := List.findIdx?_eq_some_iff_getElem.1 h.1
  obtain ⟨_, hc⟩ := List.getElem?_eq_some_iff.1 h.2
  rw [hc] at hfit
  exact hfit

theorem IsTarget.items_eq {name : String} {t : SourceTree} {i : Nat} {c : ClassDecl}
    (h : IsTarget name t i c) : ∃ before after, t.items = before ++ .classItem c :: after ∧
      before.length = i ∧ ∀ x ∈ before, isClassNamed name x = false := by
  obtain ⟨hlt, _, hmin⟩ := List.findIdx?_eq_some_iff_getElem.1 h.1
  refine ⟨t.items.take i, t.items.drop (i + 1), eq_take_append_cons_drop h.2,
    List.length_take_of_le (Nat.le_of_lt hlt), fun x hx => ?_⟩
  obtain ⟨j, hj, rfl⟩ := List.mem_iff_getElem.1 hx
  rw [List.length_take] at hj
  rw [List.getElem_take]
  simpa using hmin j (by omega)

/-- A merge keeps the file. Without a policy that replaces, every member is kept; with one, every
    member is whose names are not those of a change. -/
theorem merge_keeps {rules : MergeRules} {t : SourceTree} {set : ChangeSet}
    (h : (merge rules t set).applied = true) :
    TreeKept rules.policy set t (merge rules t set).tree := by
  obtain ⟨p, i, c, prepared, htree, -⟩ := merge_applied h
  have hclass := classRun_keeps rules.policy set c
  rw [htree]
  refine ⟨fun hs => prepared.strictTypes.trans (by rw [hs, Bool.true_or]), prepared.header,
    fun name hname => ?_, prefix_importRun set t.imports, ?_⟩
  · rcases prepared.namespaceName with hn | ⟨hn, -⟩
    · exact hn.trans hname
    · rw [hn] at hname
      cases hname
  · have hname : Text.sameIgnoringCase (classRun rules.policy set c).1.value.name
        set.target.name = true := by
      rw [hclass.name]
      exact prepared.target.sameName
    rcases prepared.items with hitems | ⟨hnone, hi, hitems⟩
    · obtain ⟨before, after, heq, hlen, hbefore⟩ := prepared.target.items_eq
      have hset : (withClass (withImports p (importRun set t.imports).1.value) i
          (classRun rules.policy set c).1.value).items =
          before ++ .classItem (classRun rules.policy set c).1.value :: after := by
        simp [withClass, withImports, heq, ← hlen]
      rw [← hitems, hset, heq]
      exact .edited prepared.target.sameName hbefore hclass
    · have hset : (withClass (withImports p (importRun set t.imports).1.value) i
          (classRun rules.policy set c).1.value).items =
          t.items ++ [.classItem (classRun rules.policy set c).1.value] := by
        simp [withClass, withImports, hitems, hi]
      rw [hset]
      exact .declared hnone hname

/-- A file with a class whose method returns a map, behind a comment. -/
def mapFile : SourceTree :=
  { SourceTree.empty with
    header := [⟨"// by hand", false⟩]
    namespaceName := some "Acme"
    items := [.classItem { ClassDecl.named "Event" with
      members := [.ofKind (.method
        ⟨[], some .pub, true, false, false, false, "classMap", [], some "array",
          some [.ofReturn (.array [])]⟩)] }] }

/-- A trait for the class and an entry for its map. -/
def mapSet : ChangeSet :=
  ⟨"Acme", .finalClass "Event", [.traitUse "Lists", .mapEntry "classMap" (.text "a") (.text "b")]⟩

theorem merge_keeps_mapFile :
    (merge ⟨.preserve, true⟩ mapFile mapSet).applied = true ∧
      TreeKept .preserve mapSet mapFile (merge ⟨.preserve, true⟩ mapFile mapSet).tree :=
  have h : (merge ⟨.preserve, true⟩ mapFile mapSet).applied = true := by decide
  ⟨h, merge_keeps h⟩

end DomainScaffold.Merge
