import DomainScaffold.Php.Reader

/-!
# Trees that were read

Every member of a class that was read from a file keeps the text that it was read from; only an
edit takes that text away.

Results:
* `yields_statementRule`: a class that is read as a statement has the texts of its members.
* `hasTexts_ofText`: so has every class of a file.
-/

namespace DomainScaffold.Php

/-- Whether every member of a class has the text that it was read from. -/
def ClassDecl.HasTexts (c : ClassDecl) : Prop := ∀ m ∈ c.members, m.verbatim.isSome = true

/-- Whether every member of every class of a file has the text that it was read from. -/
def SourceTree.HasTexts (t : SourceTree) : Prop := ∀ c ∈ t.classes, c.HasTexts

namespace Grammar

/-! ## Results of parsers -/

/-- Whether everything that a parser reads satisfies `P`. -/
def Yields (p : Parse α) (P : α → Prop) : Prop := ∀ ls a rest, p ls = some (a, rest) → P a

section Yields

variable {α β : Type} {P : α → Prop} {Q : β → Prop}

theorem yields_pure {a : α} (h : P a) : Yields (pure a) P := by
  intro ls b rest hb
  cases hb
  exact h

theorem yields_failure : Yields (failure : Parse α) P := by
  intro ls a rest h
  cases h

theorem yields_bind {p : Parse β} {f : β → Parse α} (hp : Yields p Q)
    (hf : ∀ b, Q b → Yields (f b) P) : Yields (p >>= f) P := by
  intro ls a rest h
  obtain ⟨⟨b, mid⟩, hb, ha⟩ := Option.bind_eq_some_iff.1 h
  exact hf b (hp ls b mid hb) mid a rest ha

/-- A parser whose own results do not matter. -/
theorem yields_then {p : Parse β} {f : β → Parse α} (hf : ∀ b, Yields (f b) P) :
    Yields (p >>= f) P :=
  yields_bind (Q := fun _ => True) (fun _ _ _ _ => trivial) fun b _ => hf b

theorem yields_orElse {p q : Parse α} (hp : Yields p P) (hq : Yields q P) :
    Yields (p <|> q) P := by
  intro ls a rest h
  have h : (p ls <|> q ls) = some (a, rest) := h
  cases hpls : p ls with
  | none =>
    rw [hpls] at h
    exact hq ls a rest h
  | some result =>
    rw [hpls] at h
    exact hp ls a rest (hpls.trans h)

theorem yields_ite {c : Prop} [Decidable c] {p q : Parse α} (hp : Yields p P) (hq : Yields q P) :
    Yields (if c then p else q) P := by
  split
  · exact hp
  · exact hq

/-- Whether the node of a part satisfies `P`. -/
def Part.Satisfies (P : α → Prop) : Part α → Prop
  | .extra _ => True
  | .node _ a => P a

theorem yields_partsUntil {stop : Option Lexeme → Bool} {p : Parse α} (hp : Yields p P) (n : Nat) :
    Yields (partsUntil stop p n) fun ps => ∀ part ∈ ps, part.Satisfies P := by
  induction n with
  | zero =>
    intro ls ps rest h
    cases h
  | succ n ih =>
    intro ls ps last h
    cases ls with
    | nil =>
      simp only [partsUntil] at h
      split at h
      · cases h
        simp
      · cases h
    | cons l rest =>
      simp only [partsUntil] at h
      split at h
      · obtain ⟨⟨qs, end_⟩, hqs, hq⟩ := Option.map_eq_some_iff.1 h
        cases hq
        exact List.forall_mem_cons.2 ⟨trivial, ih _ _ _ hqs⟩
      · split at h
        · cases h
          simp
        · obtain ⟨⟨a, mid⟩, ha, h⟩ := Option.bind_eq_some_iff.1 h
          obtain ⟨⟨qs, end_⟩, hqs, hq⟩ := Option.bind_eq_some_iff.1 h
          cases hq
          exact List.forall_mem_cons.2 ⟨hp _ _ _ ha, ih _ _ _ hqs⟩

end Yields

/-! ## Classes -/

theorem hasTexts_membersAfter (last : Nat) {before : Member} (h : before.verbatim.isSome = true)
    (ps : List (Part MemberKind)) :
    ∀ m ∈ membersAfter last before ps, m.verbatim.isSome = true := by
  induction ps generalizing last before with
  | nil => simpa [membersAfter] using h
  | cons p ps ih =>
    have hrest : ∀ m ∈ before :: membersAfter p.endRow (membersAfter.memberOf p) ps,
        m.verbatim.isSome = true := List.forall_mem_cons.2 ⟨h, ih _ rfl⟩
    unfold membersAfter
    split
    · split
      · exact ih _ h
      · exact hrest
    · exact hrest

theorem hasTexts_membersOf (ps : List (Part MemberKind)) :
    ∀ m ∈ membersOf ps, m.verbatim.isSome = true := by
  cases ps with
  | nil => simp [membersOf]
  | cons p ps => exact hasTexts_membersAfter _ rfl ps

variable (sub : Rules)

theorem yields_classTail :
    Yields (classTail sub) fun tail => ∀ m ∈ tail.2.2, m.verbatim.isSome = true := by
  have hbody : Yields (classBody sub) fun ms => ∀ m ∈ ms, m.verbatim.isSome = true :=
    yields_then fun _ => yields_then fun ps => yields_then fun _ =>
      yields_pure (hasTexts_membersOf ps)
  exact yields_then fun _ => yields_then fun _ => yields_bind hbody fun _ h => yields_pure h

theorem yields_classDecl (attributes : List String) :
    Yields (classDecl sub attributes) ClassDecl.HasTexts :=
  yields_then fun _ => yields_then fun _ => yields_then fun _ =>
    yields_bind (yields_classTail sub) fun _ h => yields_pure h

/-! ## Statements -/

/-- Whether a statement that is a class has the texts of its members. -/
def Construct.HasTexts : Construct → Prop
  | .classDecl c => c.HasTexts
  | _ => True

theorem yields_declaration : Yields (declaration sub) Construct.HasTexts := by
  refine yields_then fun attributes => yields_then fun _ => yields_ite ?_ (yields_then fun _ =>
    yields_ite ?_ (yields_then fun _ => yields_ite ?_ yields_failure))
  · exact yields_bind (yields_classDecl sub attributes) fun _ h => yields_pure h
  · exact yields_then fun _ => yields_then fun _ => yields_then fun _ => yields_then fun _ =>
      yields_pure trivial
  · exact yields_then fun _ => yields_pure trivial

theorem yields_expressionStatement : Yields (expressionStatement sub) Construct.HasTexts :=
  yields_then fun _ => yields_then fun _ => yields_pure trivial

theorem yields_returnTail : Yields (returnTail sub) Construct.HasTexts := by
  refine yields_then fun _ => yields_then fun _ => yields_ite ?_ ?_
  · exact yields_then fun _ => yields_pure trivial
  · exact yields_then fun _ => yields_then fun _ => yields_pure trivial

theorem yields_namespaceDecl : Yields (namespaceDecl sub) Construct.HasTexts := by
  refine yields_then fun _ => yields_then fun _ => yields_ite ?_ ?_
  · exact yields_then fun _ => yields_pure trivial
  · refine yields_then fun _ => yields_then fun _ => yields_ite ?_ ?_
    · exact yields_then fun _ => yields_pure trivial
    · exact yields_then fun _ => yields_pure trivial

theorem yields_importDecl : Yields importDecl Construct.HasTexts :=
  yields_then fun _ => yields_then fun _ => yields_then fun _ => yields_pure trivial

theorem yields_startingWithWord (l : Lexeme) :
    Yields (startingWithWord sub l) Construct.HasTexts := by
  refine yields_then fun _ => yields_ite ?label ?_
  case label => exact yields_then fun _ => yields_then fun _ => yields_pure trivial
  split
  case h_1 =>
    refine yields_then fun _ => yields_then fun _ => yields_pure ?_
    split <;> trivial
  refine yields_then fun _ => yields_ite (yields_returnTail sub) (yields_ite yields_importDecl
    (yields_ite (yields_orElse (yields_namespaceDecl sub) ?namespaceName) (yields_ite ?constants
      (yields_then fun _ => yields_ite ?statics (yields_ite ?exits ?others)))))
  case namespaceName =>
    exact yields_then fun _ => yields_ite (yields_expressionStatement sub) yields_failure
  case constants => exact yields_then fun _ => yields_pure trivial
  case statics =>
    exact yields_then fun _ => yields_then fun _ => yields_then fun _ => yields_pure trivial
  case exits =>
    refine yields_orElse ?_ (yields_expressionStatement sub)
    exact yields_then fun _ => yields_then fun _ => yields_pure trivial
  case others =>
    exact yields_then fun _ => yields_then fun _ => yields_then fun _ => yields_ite
      (yields_declaration sub) (yields_ite yields_failure (yields_expressionStatement sub))

theorem yields_statementRule : Yields (statementRule sub) Construct.HasTexts := by
  refine yields_then fun next => ?_
  split
  · exact yields_failure
  · rename_i l
    refine yields_ite (yields_startingWithWord sub l) (yields_ite ?_ (yields_ite ?_
      (yields_ite ?_ (yields_expressionStatement sub))))
    · exact yields_then fun _ => yields_pure trivial
    · exact yields_then fun _ => yields_pure trivial
    · exact yields_orElse (yields_declaration sub) (yields_expressionStatement sub)

theorem yields_anyStatement : Yields anyStatement Construct.HasTexts := by
  intro ls
  rw [anyStatement, statementAt]
  exact yields_statementRule _ ls

end Grammar

/-! ## Files -/

namespace SourceTree

open Grammar

theorem hasTexts_fileParts? {ls : List Lexeme} {ps : List (Grammar.Part Construct)}
    (h : fileParts? ls = some ps) : ∀ p ∈ ps, p.Satisfies Construct.HasTexts := by
  obtain ⟨⟨parts, rest⟩, hparts, rfl⟩ := Option.map_eq_some_iff.1 h
  intro p hp
  rcases List.mem_append.1 hp with hp | hp
  · obtain ⟨l, -, rfl⟩ := List.mem_map.1 hp
    trivial
  · exact yields_partsUntil yields_anyStatement _ _ _ _ hparts p hp

theorem HasTexts.withItem {t : SourceTree} (ht : t.HasTexts) {i : Item}
    (hi : ∀ c, i.class? = some c → c.HasTexts) : (t.withItem i).HasTexts := by
  intro c hc
  obtain ⟨j, hj, hjc⟩ := List.mem_filterMap.1 hc
  rcases List.mem_append.1 hj with hj | hj
  · exact ht c (List.mem_filterMap.2 ⟨j, hj, hjc⟩)
  · rw [List.mem_singleton] at hj
    subst hj
    exact hi c hjc

theorem HasTexts.withPart? {t u : SourceTree} {p : Grammar.Part Construct} (ht : t.HasTexts)
    (hp : p.Satisfies Construct.HasTexts) (h : t.withPart? p = some u) : u.HasTexts := by
  have hother (name : Option String) (v : Verbatim) : (t.withItem (.other name v)).HasTexts :=
    ht.withItem fun c hc => by cases hc
  cases p with
  | extra l =>
    simp only [SourceTree.withPart?] at h
    split at h
    · cases h
      exact ht
    · cases h
      exact hother _ _
  | node ls c =>
    cases c with
    | declareDirective =>
      simp only [SourceTree.withPart?] at h
      split at h
      · cases h
        exact ht
      · cases h
        exact hother _ _
    | namespaceDecl name isBlock =>
      cases isBlock with
      | true => cases h
      | false =>
        cases h
        exact ht
    | importDecl =>
      cases h
      exact ht
    | classDecl decl =>
      cases h
      refine ht.withItem fun c hc => ?_
      cases hc
      exact hp
    | _ =>
      cases h
      exact hother _ _

theorem HasTexts.foldlM_withPart? {ps : List (Grammar.Part Construct)}
    (hps : ∀ p ∈ ps, p.Satisfies Construct.HasTexts) {t u : SourceTree} (ht : t.HasTexts)
    (h : ps.foldlM SourceTree.withPart? t = some u) : u.HasTexts := by
  induction ps generalizing t with
  | nil =>
    cases h
    exact ht
  | cons p ps ih =>
    obtain ⟨hp, hps⟩ := List.forall_mem_cons.1 hps
    rw [List.foldlM_cons] at h
    obtain ⟨v, hv, h⟩ := Option.bind_eq_some_iff.1 h
    exact ih hps (ht.withPart? hp hv) h

/-- Every class that is read from a file has the texts of its members. -/
theorem hasTexts_ofText {source path : String} {t : SourceTree} (h : ofText source path = .ok t) :
    t.HasTexts := by
  have hempty : SourceTree.empty.HasTexts := fun c hc => by cases hc
  simp only [ofText] at h
  split at h
  · cases h
    exact hempty
  · split at h
    · cases h
    · rename_i parts hparts
      obtain ⟨ls, -, hls⟩ := Option.bind_eq_some_iff.1 hparts
      split at h
      · cases h
      · rename_i u hu
        cases h
        exact hempty.foldlM_withPart? (hasTexts_fileParts? hls) hu

end SourceTree

end DomainScaffold.Php
