import DomainScaffold.Proofs.Merge.Resumption
import DomainScaffold.Proofs.Php.LineBreaks

/-!
# Files that are read back

A generated file that is printed and read back has everything that merges look for in it: the
outlines of its members, the calls that its statements are known by, and the keys of the arrays that
its methods return. All that is asked for is that no such call or key holds a line break of two
characters, which is read as one.

Results:
* `grows_rereads`, `classGrown_readAs`: bodies and classes that are read back.
* `continues_readAs`: a file that is read back goes on where the printed one was.
-/

namespace DomainScaffold.Merge

open Php Grammar

/-! ## What is known of a statement -/

/-- Whether what merges know a statement by is the same when line breaks are joined: the call that
    it is known by, or the keys of the array that it returns. -/
def Steady : StatementKind → Prop
  | .expression e => callIdentity? e.joined = callIdentity? e
  | .ret (some (.array items)) => ∀ item ∈ items, item.1.map Expr.joined = item.1
  | _ => True

/-- How a statement is read back from its print. -/
def Rereads (s s' : Statement) : Prop := ReadAs s.kind.joined s'.kind

section Statements

variable {s s' : Statement} {body body' : List Statement}

theorem statementIdentity?_rereads (hs : Steady s.kind) (h : Rereads s s') :
    statementIdentity? s' = statementIdentity? s := by
  obtain ⟨k, _, _, _⟩ := s
  obtain ⟨k', _, _, _⟩ := s'
  simp only [Rereads, statementIdentity?] at hs h ⊢
  cases k with
  | expression e =>
    have hjoined : callIdentity? e.joined = callIdentity? e := hs
    generalize hj : StatementKind.joined (.expression e) = j at h
    cases h with
    | same _ =>
      rw [← hj]
      exact hjoined
    | yield value text =>
      rw [StatementKind.joined, StatementKind.expression.injEq] at hj
      rw [hj] at hjoined
      simp only [← hjoined, callIdentity?]
    | raw _ _ => cases hj
  | ret value =>
    generalize hj : StatementKind.joined (.ret value) = j at h
    cases h with
    | same _ => rw [← hj]; rfl
    | yield _ _ => cases hj
    | raw _ _ => rfl
  | other =>
    generalize hj : StatementKind.joined .other = j at h
    cases h with
    | same _ => rw [← hj]; rfl
    | yield _ _ => cases hj
    | raw _ _ => cases hj

theorem isReturn_rereads (h : Rereads s s') : isReturn s' = isReturn s := by
  have hjoined : isReturn s.joined = isReturn s := by
    obtain ⟨k, _, _, _⟩ := s
    cases k <;> rfl
  rw [← hjoined]
  obtain ⟨k', _, _, _⟩ := s'
  simp only [Rereads, isReturn, Statement.joined] at h ⊢
  generalize s.kind.joined = j at h
  cases h <;> rfl

theorem map_fst_joinedItems {items : List (Option Expr × Expr)}
    (h : ∀ item ∈ items, item.1.map Expr.joined = item.1) :
    (joinedItems items).map Prod.fst = items.map Prod.fst := by
  induction items with
  | nil => rfl
  | cons item items ih =>
    rw [List.forall_mem_cons] at h
    obtain ⟨key, e⟩ := item
    cases key with
    | none => rw [joinedItems, List.map_cons, List.map_cons, ih h.2]
    | some key =>
      have hkey : some key.joined = some key := h.1
      rw [joinedItems, List.map_cons, List.map_cons, ih h.2, hkey]

theorem hasKey_joinedItems {items : List (Option Expr × Expr)}
    (h : ∀ item ∈ items, item.1.map Expr.joined = item.1) (key : Expr) :
    hasKey key (joinedItems items) = hasKey key items := by
  have hany : ∀ items : List (Option Expr × Expr), hasKey key items =
      (items.map Prod.fst).any fun k => k.map Printer.expr == some (Printer.expr key) :=
    fun items => by
      rw [List.any_map]
      rfl
  rw [hany, hany, map_fst_joinedItems h]

/-! ## Bodies -/

/-- What is found first in lists of related elements is related. -/
theorem find?_forall₂ {α β : Type} {R : α → β → Prop} {p : α → Bool} {q : β → Bool}
    {as : List α} {bs : List β} (h : List.Forall₂ R as bs) (hR : ∀ a b, R a b → q b = p a) :
    Option.Rel R (as.find? p) (bs.find? q) := by
  induction h with
  | nil => exact .none
  | cons hab _ ih =>
    rw [List.find?_cons, List.find?_cons, hR _ _ hab]
    split
    · exact .some hab
    · exact ih

theorem any_forall₂ {α β : Type} {R : α → β → Prop} {p : α → Bool} {q : β → Bool}
    {as : List α} {bs : List β} (h : List.Forall₂ R as bs) (hR : ∀ a b, R a b → q b = p a) :
    bs.any q = as.any p := by
  induction h with
  | nil => rfl
  | cons hab _ ih => rw [List.any_cons, List.any_cons, hR _ _ hab, ih]

/-- The last return of a body that is read back is that of the printed body as it is read back. -/
theorem lastReturn?_rereads (h : List.Forall₂ Rereads body body') :
    Option.Rel (fun k k' => ReadAs k.joined k') (lastReturn? body) (lastReturn? body') := by
  have hreverse : List.Forall₂ Rereads body.reverse body'.reverse := List.rel_reverse h
  have hfind := find?_forall₂ hreverse fun _ _ => isReturn_rereads
  rw [lastReturn?, lastReturn?]
  generalize body.reverse.find? isReturn = s at hfind
  generalize body'.reverse.find? isReturn = s' at hfind
  cases hfind with
  | none => exact .none
  | some hs => exact .some hs

theorem steady_of_lastReturn? (hsteady : ∀ s ∈ body, Steady s.kind) {k : StatementKind}
    (h : lastReturn? body = some k) : Steady k := by
  obtain ⟨s, hs, rfl⟩ := Option.map_eq_some_iff.1 h
  exact hsteady s (List.mem_reverse.1 (List.mem_of_find?_eq_some hs))

/-- Whether a statement returns an array. -/
def returnsArray : StatementKind → Bool
  | .ret (some (.array _)) => true
  | _ => false

theorem takesEntries_eq (body : List Statement) :
    takesEntries body = (lastReturn? body).all returnsArray := by
  rw [takesEntries]
  cases lastReturn? body with
  | none => rfl
  | some k =>
    rw [Option.all_some]
    unfold returnsArray
    cases k with
    | ret value =>
      cases value with
      | none => rfl
      | some e => cases e <;> rfl
    | _ => rfl

theorem returnsArray_of_readAs {k k' : StatementKind} (h : ReadAs k.joined k') :
    returnsArray k' = returnsArray k := by
  have hjoined : returnsArray k.joined = returnsArray k := by
    cases k with
    | ret value =>
      cases value with
      | none => rfl
      | some e =>
        cases e with
        | yield value => cases value <;> rfl
        | _ => rfl
    | _ => rfl
  rw [← hjoined]
  generalize k.joined = j at h
  cases h <;> rfl

/-- An array that is returned is read back as an array. -/
theorem array_of_readAs {items : List (Option Expr × Expr)} {k' : StatementKind}
    (h : ReadAs (StatementKind.ret (some (.array items))).joined k') :
    k' = .ret (some (.array (joinedItems items))) := by
  generalize hj : (StatementKind.ret (some (.array items))).joined = j at h
  cases h with
  | same _ => exact hj.symm
  | yield _ _ => cases hj
  | raw _ _ => cases hj

/-- A body that is read back is known by everything that the printed one is known by. -/
theorem grows_rereads (hsteady : ∀ s ∈ body, Steady s.kind)
    (h : List.Forall₂ Rereads body body') : Grows body body' where
  identity i hi := by
    induction h with
    | nil => exact hi
    | @cons s s' body body' hs _ ih =>
      rw [List.forall_mem_cons] at hsteady
      rw [List.any_cons, Bool.or_eq_true] at hi ⊢
      rw [statementIdentity?_rereads hsteady.1 hs]
      exact hi.imp_right (ih hsteady.2)
  key key hkey := by
    obtain ⟨items, hlast, hhas⟩ := hkey
    have hrel := lastReturn?_rereads h
    have hkeys := steady_of_lastReturn? hsteady hlast
    rw [hlast] at hrel
    generalize hl : lastReturn? body' = l at hrel
    cases hrel with
    | some hk =>
      exact ⟨_, hl.trans (congrArg some (array_of_readAs hk)),
        (hasKey_joinedItems hkeys key).trans hhas⟩
  takes := by
    rw [takesEntries_eq, takesEntries_eq]
    have hrel := lastReturn?_rereads h
    generalize lastReturn? body = k at hrel
    generalize lastReturn? body' = k' at hrel
    cases hrel with
    | none => rfl
    | some hk => exact returnsArray_of_readAs hk

end Statements

/-! ## Classes -/

/-- Whether the statements in the bodies of a class are known by what has no line breaks. -/
def SteadyMember (k : MemberKind) : Prop :=
  ∀ body, bodyOf? k = some body → ∀ s ∈ body, Steady s.kind

section Classes

variable {k k' : MemberKind} {c c' : ClassDecl}

@[simp] theorem outlineOf_joined (k : MemberKind) : outlineOf k.joined = outlineOf k := by
  cases k <;> simp [MemberKind.joined, outlineOf, Function.comp_def]

theorem outlineOf_readAs (h : MemberReadAs k k') : outlineOf k' = outlineOf k := by
  cases h <;> rfl

/-- The body of a method is read back statement by statement. -/
theorem bodyOf?_readAs (h : MemberReadAs k.joined k') {body : List Statement}
    (hbody : bodyOf? k = some body) :
    ∃ body', bodyOf? k' = some body' ∧ List.Forall₂ Rereads body body' := by
  obtain ⟨d, rfl, hd⟩ := kind_of_bodyOf? hbody
  generalize hj : (MemberKind.method d).joined = j at h
  cases h with
  | same _ =>
    refine ⟨body.map Statement.joined, ?_, ?_⟩
    · rw [← hj, MemberKind.joined, bodyOf?, hd]
      rfl
    · rw [List.forall₂_map_right_iff]
      exact List.forall₂_same.2 fun s _ => .same _
  | @method e joined body' he hread =>
    refine ⟨body', rfl, ?_⟩
    rw [MemberKind.joined, MemberKind.method.injEq] at hj
    rw [← hj, hd] at he
    obtain rfl := Option.some.inj he
    exact (List.forall₂_map_left_iff.1 hread).imp fun _ _ hs => hs

theorem inMember_readAs {m m' : Member} (h : MemberReadAs m.kind.joined m'.kind) (s : Slot) :
    s.inMember m' = s.inMember m := by
  rw [Slot.inMember, outlineOf_readAs h, outlineOf_joined, Slot.inMember]

theorem forall₂_members_of_readAs (h : ClassReadAs c.joined c') :
    List.Forall₂ (fun m m' => MemberReadAs m.kind.joined m'.kind) c.members c'.members :=
  List.forall₂_map_left_iff.1 h.members

/-- A class that is read back has everything that the printed one has. -/
theorem classGrown_readAs (hsteady : ∀ m ∈ c.members, SteadyMember m.kind)
    (h : ClassReadAs c.joined c') : ClassGrown c c' where
  name := by rw [h.head]; rfl
  interfaces name hname := by rw [h.head]; exact hname
  names s hs := by
    rw [← hs]
    exact any_forall₂ (forall₂_members_of_readAs h) fun _ _ hm => inMember_readAs hm s
  bodies method body hbody := by
    rw [bodyOfMethod?_eq, Option.bind_eq_some_iff] at hbody
    obtain ⟨k, hk, hkbody⟩ := hbody
    obtain ⟨m, hm, rfl⟩ := Option.map_eq_some_iff.1 hk
    have hrel := find?_forall₂ (forall₂_members_of_readAs h)
      fun _ _ hm => inMember_readAs hm (.method method)
    rw [hm] at hrel
    generalize hfind : c'.members.find? (Slot.method method).inMember = found at hrel
    cases hrel with
    | @some _ m' hread =>
      obtain ⟨body', hbody', hrereads⟩ := bodyOf?_readAs hread hkbody
      refine ⟨body', ?_, grows_rereads ?_ hrereads⟩
      · rw [bodyOfMethod?_eq, methodKind?, hfind]
        exact hbody'
      · exact hsteady m (List.mem_of_find?_eq_some hm) body hkbody

end Classes

/-! ## Files -/

/-- A file that is read back goes on where the printed one was. -/
theorem continues_readAs {t t' : SourceTree}
    (hsteady : ∀ c ∈ t.classes, ∀ m ∈ c.members, SteadyMember m.kind)
    (h : TreeReadAs t.joined t') : Continues t t' := by
  obtain ⟨d, d', hitems, rfl, hread⟩ := h
  obtain ⟨c, ht, rfl⟩ : ∃ c, t.items = [.classItem c] ∧ d = c.joined := by
    rw [SourceTree.joined, List.map_eq_singleton_iff] at hitems
    obtain ⟨item, hitem, hjoined⟩ := hitems
    cases item with
    | classItem c =>
      rw [Item.classItem.injEq] at hjoined
      exact ⟨c, hitem, hjoined.symm⟩
    | other _ _ => cases hjoined
  have hclass : c ∈ t.classes := by simp [SourceTree.classes, ht, Item.class?]
  have hgrown := classGrown_readAs (hsteady c hclass) hread
  refine ⟨id, fun _ _ _ => rfl, .refl, ⟨fun _ => id, fun name e he => ?_⟩⟩
  simp only [SourceTree.classNamed?, SourceTree.classes, ht, List.filterMap_cons,
    List.filterMap_nil, Item.class?, List.find?_cons, List.find?_nil] at he ⊢
  rw [hgrown.name]
  split at he
  · obtain rfl := Option.some.inj he
    exact ⟨d', rfl, hgrown⟩
  · cases he

end DomainScaffold.Merge
