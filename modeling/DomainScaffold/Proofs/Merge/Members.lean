import DomainScaffold.Merge.Apply
import DomainScaffold.Proofs.Merge.FirstMatch

/-!
# Edits as functions on members

The edits that declare something look for the first member that declares a name. If there is one,
they rewrite it in place or leave it; if there is none, they put a new member somewhere. This module
brings them into that form.

Results:
* `rewrite_absorb`: a rewrite that is made again later need not be made before.
* `outlines_apply_of_any`: an edit of a name that is there leaves all names where they are.
* `value_ensureTrait`, `value_ensureConstantEntry`, `value_ensurePropertyEntry`,
  `value_ensureMethod`: what the edits make of the members.
-/

namespace DomainScaffold.Merge

open Php

/-! ## Names of members -/

/-- What edits see of a member: the names that it declares. -/
inductive Outline where
  | traits (names : List String)
  | constants (names : List String)
  | properties (names : List String)
  /-- A method by its name in lower case. -/
  | method (name : String)
  | text
  deriving DecidableEq, Repr

/-- The names that a member of some kind declares. -/
def outlineOf : MemberKind → Outline
  | .traitUse names => .traits names
  | .constant d => .constants (d.entries.map Prod.fst)
  | .property d => .properties (d.entries.map Prod.fst)
  | .method d => .method (Text.foldAscii d.name)
  | .comment | .other => .text

/-- The names that members declare. -/
def outlines (ms : List Member) : List Outline := ms.map fun m => outlineOf m.kind

/-- A name that an edit looks for. -/
inductive Slot where
  | trait (name : String)
  | constant (name : String)
  | property (name : String)
  | method (name : String)
  deriving DecidableEq, Repr

namespace Slot

/-- Whether a name is among declared ones. -/
def fits : Slot → Outline → Bool
  | .trait name, .traits names => names.any fun t => sameClassName t name
  | .constant name, .constants names => names.contains name
  | .property name, .properties names => names.contains name
  | .method name, .method other => other == Text.foldAscii name
  | _, _ => false

/-- Whether a member declares a name. -/
def inMember (s : Slot) (m : Member) : Bool := s.fits (outlineOf m.kind)

theorem any_inMember (s : Slot) (ms : List Member) :
    ms.any s.inMember = (outlines ms).any s.fits := by
  rw [outlines, List.any_map]
  rfl

end Slot

theorem isMethodNamed_eq (name : String) : isMethodNamed name = (Slot.method name).inMember := by
  funext m
  unfold isMethodNamed Slot.inMember Member.method?
  cases m.kind <;> simp [outlineOf, Slot.fits, Text.sameIgnoringCase]

theorem constantNames_contains_eq (name : String) :
    (fun m : Member => (m.constants.map Prod.fst).contains name) =
      (Slot.constant name).inMember := by
  funext m
  unfold Slot.inMember Member.constants
  cases m.kind <;> rfl

theorem propertyNames_contains_eq (name : String) :
    (fun m : Member => (m.properties.map Prod.fst).contains name) =
      (Slot.property name).inMember := by
  funext m
  unfold Slot.inMember Member.properties
  cases m.kind <;> rfl

theorem usesTrait_eq (c : ClassDecl) (name : String) :
    usesTrait c name = c.members.any (Slot.trait name).inMember := by
  rw [usesTrait, ClassDecl.traitNames, List.any_flatMap]
  congr 1
  funext m
  unfold Slot.inMember Member.traits
  cases m.kind <;> rfl

theorem sameClassName_symm {a b : String} (h : sameClassName a b = true) :
    sameClassName b a = true := by
  rwa [sameClassName, Text.sameIgnoringCase_comm]

theorem sameClassName_trans {a b c : String} (h₁ : sameClassName a b = true)
    (h₂ : sameClassName b c = true) : sameClassName a c = true := by
  simp only [sameClassName, Text.sameIgnoringCase_iff] at h₁ h₂ ⊢
  rw [h₁, h₂]

/-! ## Rewriting one member -/

/-- The member with its kind rewritten. If that changes it, it is written from its fields from then
    on. -/
def rewrite (f : MemberKind → MemberKind) (m : Member) : Member :=
  if f m.kind = m.kind then m else { m.touched with kind := f m.kind }

theorem rewrite_of_eq {f : MemberKind → MemberKind} {m : Member} (h : f m.kind = m.kind) :
    rewrite f m = m :=
  if_pos h

theorem rewrite_of_ne {f : MemberKind → MemberKind} {m : Member} (h : f m.kind ≠ m.kind) :
    rewrite f m = ⟨f m.kind, none, m.trailing⟩ :=
  if_neg h

@[simp] theorem kind_rewrite (f : MemberKind → MemberKind) (m : Member) :
    (rewrite f m).kind = f m.kind := by
  by_cases h : f m.kind = m.kind
  · rw [rewrite_of_eq h, h]
  · rw [rewrite_of_ne h]

@[simp] theorem trailing_rewrite (f : MemberKind → MemberKind) (m : Member) :
    (rewrite f m).trailing = m.trailing := by
  by_cases h : f m.kind = m.kind
  · rw [rewrite_of_eq h]
  · rw [rewrite_of_ne h]

theorem rewrite_id (m : Member) : rewrite id m = m := rewrite_of_eq rfl

theorem rewrite_rewrite_self {f : MemberKind → MemberKind} {m : Member}
    (h : f (f m.kind) = f m.kind) : rewrite f (rewrite f m) = rewrite f m :=
  rewrite_of_eq (by rw [kind_rewrite, h])

/-- A rewrite that is made again later need not be made before. -/
theorem rewrite_absorb {f g : MemberKind → MemberKind} {m : Member}
    (h : f (g (f m.kind)) = f (g m.kind)) :
    rewrite f (rewrite g (rewrite f m)) = rewrite f (rewrite g m) := by
  by_cases hf : f m.kind = m.kind
  · rw [rewrite_of_eq hf]
  · -- On both sides the member ends with the same kind, and it has been touched.
    rw [rewrite_of_ne hf]
    have touched : ∀ k, rewrite f (rewrite g ⟨k, none, m.trailing⟩) =
        ⟨f (g k), none, m.trailing⟩ := fun k => by
      by_cases hg : g k = k <;> by_cases hk : f (g k) = g k <;>
        simp_all [rewrite, Member.touched]
    rw [touched, h]
    by_cases hg : g m.kind = m.kind
    · rw [rewrite_of_eq hg, rewrite_of_ne hf, hg]
    · rw [rewrite_of_ne hg]
      by_cases hk : f (g m.kind) = g m.kind
      · rw [rewrite_of_eq hk, hk]
      · rw [rewrite_of_ne hk]

/-! ## Declaring edits -/

/-- An edit that declares a name: how a member that declares it already is rewritten, and else the
    new member and its place. -/
structure Upsert where
  slot : Slot
  write : MemberKind → MemberKind
  place : List Member → Nat
  fresh : MemberKind
  fits_fresh : slot.fits (outlineOf fresh) = true
  fresh_only : ∀ s : Slot, s.fits (outlineOf fresh) = true →
    ∀ o, s.fits o = true → slot.fits o = true
  write_fresh : write fresh = fresh
  outline_write : ∀ k, slot.fits (outlineOf k) = true → outlineOf (write k) = outlineOf k
  write_write : ∀ k, slot.fits (outlineOf k) = true → write (write k) = write k
  place_le : ∀ ms, place ms ≤ ms.length
  place_congr : ∀ ms ns, outlines ms = outlines ns → place ms = place ns

namespace Upsert

/-- The members with the edit made. -/
def apply (u : Upsert) (ms : List Member) : List Member :=
  if ms.any u.slot.inMember then editFirst u.slot.inMember (rewrite u.write) ms
  else ms.insertIdx (u.place ms) (.ofKind u.fresh)

theorem apply_of_any {u : Upsert} {ms : List Member} (h : ms.any u.slot.inMember = true) :
    u.apply ms = editFirst u.slot.inMember (rewrite u.write) ms :=
  if_pos h

theorem apply_of_not_any {u : Upsert} {ms : List Member} (h : ms.any u.slot.inMember = false) :
    u.apply ms = ms.insertIdx (u.place ms) (.ofKind u.fresh) :=
  if_neg (by simp [h])

theorem outline_rewrite (u : Upsert) (m : Member) (h : u.slot.inMember m = true) :
    outlineOf (rewrite u.write m).kind = outlineOf m.kind := by
  rw [kind_rewrite, u.outline_write _ h]

/-- An edit of a name that is there leaves all names where they are. -/
theorem outlines_apply_of_any {u : Upsert} {ms : List Member}
    (h : ms.any u.slot.inMember = true) : outlines (u.apply ms) = outlines ms := by
  rw [apply_of_any h]
  exact map_editFirst (fun m hm => u.outline_rewrite m hm) ms

theorem any_apply_self (u : Upsert) (ms : List Member) : (u.apply ms).any u.slot.inMember = true := by
  by_cases h : ms.any u.slot.inMember = true
  · rwa [Slot.any_inMember, outlines_apply_of_any h, ← Slot.any_inMember]
  · rw [apply_of_not_any (by simpa using h)]
    exact List.any_eq_true.2
      ⟨_, (List.mem_insertIdx (u.place_le ms)).2 (.inl rfl), u.fits_fresh⟩

/-- A name that is there stays there. -/
theorem any_apply_of_any (u : Upsert) {s : Slot} {ms : List Member}
    (h : ms.any s.inMember = true) : (u.apply ms).any s.inMember = true := by
  by_cases hu : ms.any u.slot.inMember = true
  · rwa [s.any_inMember, outlines_apply_of_any hu, ← s.any_inMember]
  · rw [apply_of_not_any (by simpa using hu)]
    exact any_insertIdx_of_any h _ _

end Upsert

/-! ## The place of a new member -/

theorem positionAfter?_congr {p q : Member → Bool} {ms ns : List Member}
    (h : ms.map p = ns.map q) : positionAfter? p ms = positionAfter? q ns := by
  have hl : ms.length = ns.length := by simpa using congrArg List.length h
  have hr : ms.reverse.findIdx? p = ns.reverse.findIdx? q := by
    have := congrArg (fun l => l.reverse.findIdx? id) h
    simpa [← List.map_reverse, List.findIdx?_map] using this
  rw [positionAfter?, positionAfter?, hr, hl]

/-- The place behind the last member that satisfies the first of some conditions that any
    satisfies, or the front. -/
def placeAfter (conditions : List (Member → Bool)) (ms : List Member) : Nat :=
  (conditions.findSome? fun p => positionAfter? p ms).getD 0

/-- Whether a condition on members only depends on the names that they declare. -/
def OnOutline (p : Member → Bool) : Prop := ∃ r : Outline → Bool, ∀ m, p m = r (outlineOf m.kind)

theorem onOutline_isTraitUse : OnOutline isTraitUse :=
  ⟨fun | .traits _ => true | _ => false, fun m => by unfold isTraitUse; cases m.kind <;> rfl⟩

theorem onOutline_isConstant : OnOutline isConstant :=
  ⟨fun | .constants _ => true | _ => false, fun m => by unfold isConstant; cases m.kind <;> rfl⟩

theorem onOutline_isProperty : OnOutline isProperty :=
  ⟨fun | .properties _ => true | _ => false, fun m => by unfold isProperty; cases m.kind <;> rfl⟩

theorem OnOutline.positionAfter?_congr {p : Member → Bool} (hp : OnOutline p) {ms ns : List Member}
    (h : outlines ms = outlines ns) : positionAfter? p ms = positionAfter? p ns := by
  obtain ⟨r, hr⟩ := hp
  have := congrArg (List.map r) h
  exact Merge.positionAfter?_congr (by simpa [outlines, Function.comp_def, ← hr] using this)

theorem placeAfter_le (conditions : List (Member → Bool)) (ms : List Member) :
    placeAfter conditions ms ≤ ms.length := by
  unfold placeAfter
  cases h : conditions.findSome? fun p => positionAfter? p ms with
  | none => exact Nat.zero_le _
  | some n =>
    obtain ⟨p, _, hp⟩ := List.exists_of_findSome?_eq_some h
    exact positionAfter?_le hp

theorem placeAfter_congr {conditions : List (Member → Bool)} (hc : ∀ p ∈ conditions, OnOutline p)
    {ms ns : List Member} (h : outlines ms = outlines ns) :
    placeAfter conditions ms = placeAfter conditions ns := by
  unfold placeAfter
  congr 1
  induction conditions with
  | nil => rfl
  | cons p ps ih =>
    rw [List.findSome?_cons, List.findSome?_cons, (hc p (by simp)).positionAfter?_congr h,
      ih fun q hq => hc q (List.mem_cons_of_mem _ hq)]

/-! ## The edits -/

/-- A rewrite that is only made where the policy says so. -/
def replacing (policy : MergePolicy) (f : MemberKind → MemberKind) : MemberKind → MemberKind :=
  match policy with
  | .preserve => id
  | .replace => f

/-- A declaration with the value of one constant replaced. -/
def constantWritten (entry : String × Expr) : MemberKind → MemberKind
  | .constant d => .constant
      { d with entries := editFirst (fun e => e.1 == entry.1) (fun e => (e.1, entry.2)) d.entries }
  | k => k

/-- A declaration with one property replaced: all of it if it declares nothing else. -/
def propertyWritten (decl : PropertyDecl) (entry : String × Option Expr) : MemberKind → MemberKind
  | .property d => .property
      (if d.entries.length = 1 then { decl with entries := [entry] }
      else { d with entries := editFirst (fun e => e.1 == entry.1) (fun _ => entry) d.entries })
  | k => k

/-- Another method in the place of a method. -/
def methodWritten (d : MethodDecl) : MemberKind → MemberKind
  | .method _ => .method d
  | k => k

namespace Upsert

/-- The use of a trait. -/
def ofTrait (name : String) : Upsert where
  slot := .trait name
  write := id
  place := placeAfter [isTraitUse]
  fresh := .traitUse [name]
  fits_fresh := by simp [outlineOf, Slot.fits, sameClassName, Text.sameIgnoringCase_refl]
  fresh_only s hs o ho := by
    cases s with
    | trait n =>
      cases o with
      | traits ts =>
        simp only [outlineOf, Slot.fits, List.any_cons, List.any_nil, Bool.or_false] at hs
        simp only [Slot.fits, List.any_eq_true] at ho ⊢
        obtain ⟨t, ht, htn⟩ := ho
        exact ⟨t, ht, sameClassName_trans htn (sameClassName_symm hs)⟩
      | _ => cases ho
    | _ => cases hs
  write_fresh := rfl
  outline_write _ _ := rfl
  write_write _ _ := rfl
  place_le := placeAfter_le _
  place_congr ms ns := placeAfter_congr (by simpa using onOutline_isTraitUse)

theorem outline_constantWritten (entry : String × Expr) (k : MemberKind) :
    outlineOf (constantWritten entry k) = outlineOf k := by
  cases k with
  | constant d => simp [constantWritten, outlineOf, map_editFirst (k := Prod.fst)]
  | _ => rfl

theorem constantWritten_constantWritten (entry : String × Expr) (k : MemberKind) :
    constantWritten entry (constantWritten entry k) = constantWritten entry k := by
  cases k with
  | constant d =>
    simp only [constantWritten]
    rw [editFirst_editFirst (p := fun e => e.1 == entry.1) (g := fun e => (e.1, entry.2))
      fun e he => he]
  | _ => rfl

/-- One constant of a declaration. -/
def ofConstant (policy : MergePolicy) (decl : ConstantDecl) (entry : String × Expr) : Upsert where
  slot := .constant entry.1
  write := replacing policy (constantWritten entry)
  place := placeAfter [isConstant, isTraitUse]
  fresh := .constant { decl with entries := [entry] }
  fits_fresh := by simp [outlineOf, Slot.fits]
  fresh_only s hs o ho := by
    cases s with
    | constant n =>
      simp only [outlineOf, Slot.fits, List.map_cons, List.map_nil, List.contains_cons,
        List.contains_nil, Bool.or_false, beq_iff_eq] at hs
      rwa [← hs]
    | _ => cases hs
  write_fresh := by
    cases policy
    · rfl
    · simp [replacing, constantWritten, editFirst]
  outline_write k _ := by
    cases policy
    · rfl
    · exact outline_constantWritten entry k
  write_write k _ := by
    cases policy
    · rfl
    · exact constantWritten_constantWritten entry k
  place_le := placeAfter_le _
  place_congr ms ns := placeAfter_congr (by simpa using ⟨onOutline_isConstant, onOutline_isTraitUse⟩)

theorem outline_propertyWritten (decl : PropertyDecl) {entry : String × Option Expr}
    {k : MemberKind} (h : (Slot.property entry.1).fits (outlineOf k) = true) :
    outlineOf (propertyWritten decl entry k) = outlineOf k := by
  cases k with
  | property d =>
    by_cases hl : d.entries.length = 1
    · obtain ⟨e, he⟩ := List.length_eq_one_iff.1 hl
      simp only [outlineOf, Slot.fits, he, List.map_cons, List.map_nil, List.contains_cons,
        List.contains_nil, Bool.or_false, beq_iff_eq] at h
      simp [propertyWritten, outlineOf, he, h]
    · simp only [propertyWritten, outlineOf, hl, if_false]
      rw [map_editFirst (f := fun _ => entry) fun e he => (beq_iff_eq.1 he).symm]
  | _ => rfl

theorem propertyWritten_propertyWritten (decl : PropertyDecl) (entry : String × Option Expr)
    (k : MemberKind) :
    propertyWritten decl entry (propertyWritten decl entry k) = propertyWritten decl entry k := by
  cases k with
  | property d =>
    by_cases hl : d.entries.length = 1
    · simp [propertyWritten, hl]
    · simp only [propertyWritten, hl, if_false, length_editFirst]
      rw [editFirst_editFirst (g := fun _ => entry) fun e he => by simp]
  | _ => rfl

/-- One property of a declaration. -/
def ofProperty (policy : MergePolicy) (decl : PropertyDecl) (entry : String × Option Expr) :
    Upsert where
  slot := .property entry.1
  write := replacing policy (propertyWritten decl entry)
  place := placeAfter [isProperty, isConstant, isTraitUse]
  fresh := .property { decl with entries := [entry] }
  fits_fresh := by simp [outlineOf, Slot.fits]
  fresh_only s hs o ho := by
    cases s with
    | property n =>
      simp only [outlineOf, Slot.fits, List.map_cons, List.map_nil, List.contains_cons,
        List.contains_nil, Bool.or_false, beq_iff_eq] at hs
      rwa [← hs]
    | _ => cases hs
  write_fresh := by
    cases policy
    · rfl
    · simp [replacing, propertyWritten]
  outline_write k h := by
    cases policy
    · rfl
    · exact outline_propertyWritten decl h
  write_write k _ := by
    cases policy
    · rfl
    · exact propertyWritten_propertyWritten decl entry k
  place_le := placeAfter_le _
  place_congr ms ns := placeAfter_congr
    (by simpa using ⟨onOutline_isProperty, onOutline_isConstant, onOutline_isTraitUse⟩)

/-- A method behind all members. -/
def ofMethod (policy : MergePolicy) (d : MethodDecl) : Upsert where
  slot := .method d.name
  write := replacing policy (methodWritten d)
  place := List.length
  fresh := .method d
  fits_fresh := by simp [outlineOf, Slot.fits]
  fresh_only s hs o ho := by
    cases s with
    | method n =>
      cases o with
      | method other =>
        simp only [outlineOf, Slot.fits, beq_iff_eq] at hs ho ⊢
        rw [ho, hs]
      | _ => cases ho
    | _ => cases hs
  write_fresh := by cases policy <;> rfl
  outline_write k h := by
    cases policy
    · rfl
    · cases k with
      | method e =>
        simp only [outlineOf, Slot.fits, beq_iff_eq] at h
        simp [replacing, methodWritten, outlineOf, h]
      | _ => rfl
  write_write k _ := by
    cases policy
    · rfl
    · cases k <;> rfl
  place_le _ := Nat.le_refl _
  place_congr ms ns h := by simpa [outlines] using congrArg List.length h

end Upsert

/-- An edit of a class that declares a name makes of its members what `u` makes of them. If nothing
    is to be rewritten, a name that is there makes it a step that changes nothing. -/
structure Performs (u : Upsert) (c : ClassDecl) (e : Edited ClassDecl) : Prop where
  value : e.value = withMembers c (u.apply c.members)
  changed : u.write = id → c.members.any u.slot.inMember = true → e.changed = false

theorem apply_of_write_eq_id {u : Upsert} (hu : u.write = id) {ms : List Member}
    (h : ms.any u.slot.inMember = true) : u.apply ms = ms := by
  rw [Upsert.apply_of_any h, hu]
  exact editFirst_eq_self fun m _ => rewrite_id m

theorem Performs.kept {u : Upsert} {c : ClassDecl} (hu : u.write = id)
    (h : c.members.any u.slot.inMember = true) : Performs u c (.kept c) where
  value := by rw [apply_of_write_eq_id hu h]; rfl
  changed _ _ := rfl

theorem Performs.insertAfter {u : Upsert} {c : ClassDecl} {conditions : List (Member → Bool)}
    (hp : u.place = placeAfter conditions) (h : c.members.any u.slot.inMember = false) :
    Performs u c (.replaced (insertAfter conditions u.fresh c)) where
  value := by rw [Upsert.apply_of_not_any h, hp]; rfl
  changed _ ha := by simp [h] at ha

theorem performs_ensureTrait (name : String) (c : ClassDecl) :
    Performs (.ofTrait name) c (ensureTrait name c) := by
  unfold ensureTrait
  rw [usesTrait_eq]
  split
  · rename_i h
    exact .kept rfl h
  · rename_i h
    exact .insertAfter rfl (Bool.not_eq_true _ ▸ h)

/-! ## Edits in place -/

theorem placeOf?_eq_some {names : Member → List String} {c : ClassDecl} {name : String} {i j : Nat}
    (h : placeOf? names c name = some (i, j)) :
    c.members.findIdx? (fun m => (names m).contains name) = some i ∧
      ∃ m, c.members[i]? = some m ∧ (names m).findIdx? (· == name) = some j := by
  unfold placeOf? at h
  simp only [Option.bind_eq_bind, Option.pure_def, Option.bind_eq_some_iff, Option.some.injEq,
    Prod.mk.injEq] at h
  obtain ⟨i, hi, m, hm, j, hj, rfl, rfl⟩ := h
  exact ⟨hi, m, hm, hj⟩

theorem placeOf?_eq_none {names : Member → List String} {c : ClassDecl} {name : String}
    (h : placeOf? names c name = none) :
    c.members.any (fun m => (names m).contains name) = false := by
  by_contra ha
  rw [Bool.not_eq_false, ← List.findIdx?_isSome, Option.isSome_iff_exists] at ha
  obtain ⟨i, hi⟩ := ha
  obtain ⟨hlt, hm, _⟩ := List.findIdx?_eq_some_iff_getElem.1 hi
  have hj : ((names c.members[i]).findIdx? (· == name)).isSome = true := by
    rw [List.findIdx?_isSome, List.any_beq']
    exact hm
  obtain ⟨j, hj⟩ := Option.isSome_iff_exists.1 hj
  unfold placeOf? at h
  simp only [hi, List.getElem?_eq_getElem hlt, hj, Option.bind_eq_bind, Option.bind_some,
    Option.pure_def] at h
  cases h

section InPlace

variable {p : Member → Bool} {f : MemberKind → MemberKind} {u : Upsert} {c : ClassDecl} {i : Nat}
  {m : Member}

theorem editFirst_rewrite_eq_self {ms : List Member} (h : ms.find? p = some m)
    (hf : f m.kind = m.kind) : editFirst p (rewrite f) ms = ms :=
  (editFirst_eq_self_iff h).2 (rewrite_of_eq hf)

theorem setKind_eq (hi : c.members.findIdx? p = some i) (hm : c.members[i]? = some m)
    (hf : f m.kind ≠ m.kind) :
    setKind i (f m.kind) c = withMembers c (editFirst p (rewrite f) c.members) := by
  rw [setKind, modify_eq_editFirst hi, editFirst_congr]
  intro n hn
  rw [find?_of_findIdx? hi hm] at hn
  cases hn
  rw [rewrite_of_ne hf]
  rfl

theorem Performs.unchanged (hi : c.members.findIdx? u.slot.inMember = some i)
    (hm : c.members[i]? = some m) (hu : u.write m.kind = m.kind) : Performs u c (.kept c) where
  value := by
    rw [Upsert.apply_of_any (any_of_findIdx? hi),
      editFirst_rewrite_eq_self (find?_of_findIdx? hi hm) hu]
    rfl
  changed _ _ := rfl

theorem Performs.setKind (hi : c.members.findIdx? u.slot.inMember = some i)
    (hm : c.members[i]? = some m) (hu : u.write m.kind ≠ m.kind) :
    Performs u c (.replaced (setKind i (u.write m.kind) c)) where
  value := by
    rw [Upsert.apply_of_any (any_of_findIdx? hi)]
    exact setKind_eq hi hm hu
  changed h _ := absurd (by rw [h]; rfl) hu

end InPlace

theorem performs_replaceConstant {decl : ConstantDecl} {entry : String × Expr} {c : ClassDecl}
    {place : Nat × Nat} (h : constantPlace? c entry.1 = some place) :
    Performs (.ofConstant .replace decl entry) c (replaceConstant place entry.2 c) := by
  obtain ⟨i, j⟩ := place
  obtain ⟨hi, m, hm, hj⟩ := placeOf?_eq_some h
  rw [constantNames_contains_eq] at hi
  unfold replaceConstant
  rw [hm, Option.map_some]
  cases hk : m.kind with
  | constant d =>
    rw [Member.constants, hk] at hj
    simp only [List.findIdx?_map, Function.comp_def] at hj
    obtain ⟨e, he⟩ : ∃ e, d.entries[j]? = some e :=
      ⟨_, List.getElem?_eq_getElem (List.findIdx?_eq_some_iff_getElem.1 hj).1⟩
    have hw : constantWritten entry m.kind = .constant
        { d with entries := d.entries.modify j fun e => (e.1, entry.2) } := by
      rw [hk, modify_eq_editFirst hj]
      rfl
    have hself : constantWritten entry m.kind = m.kind ↔ e.2 = entry.2 := by
      rw [hw, hk, modify_eq_editFirst hj, MemberKind.constant.injEq]
      constructor
      · intro hd
        have := (editFirst_eq_self_iff (find?_of_findIdx? hj he)).1 (congrArg (·.entries) hd)
        rw [← this]
      · intro hv
        rw [(editFirst_eq_self_iff (find?_of_findIdx? hj he)).2 (by rw [← hv])]
    simp only [he, Option.map_some, Option.some.injEq]
    by_cases hv : e.2 = entry.2
    · rw [if_pos hv]
      exact .unchanged hi hm (hself.2 hv)
    · rw [if_neg hv, ← hw]
      exact .setKind hi hm fun hs => hv (hself.1 hs)
  | _ =>
    rw [Member.constants, hk] at hj
    simp at hj

theorem performs_ensureConstantEntry (policy : MergePolicy) (decl : ConstantDecl)
    (entry : String × Expr) (c : ClassDecl) :
    Performs (.ofConstant policy decl entry) c (ensureConstantEntry policy decl entry c) := by
  unfold ensureConstantEntry
  cases hp : constantPlace? c entry.1 with
  | none =>
    have h := placeOf?_eq_none hp
    rw [constantNames_contains_eq] at h
    exact .insertAfter rfl h
  | some place =>
    cases policy with
    | preserve =>
      obtain ⟨hi, _⟩ := placeOf?_eq_some hp
      rw [constantNames_contains_eq] at hi
      exact .kept rfl (any_of_findIdx? hi)
    | replace => exact performs_replaceConstant hp

theorem performs_replaceProperty {decl : PropertyDecl} {entry : String × Option Expr}
    {c : ClassDecl} {place : Nat × Nat} (h : propertyPlace? c entry.1 = some place) :
    Performs (.ofProperty .replace decl entry) c (replaceProperty place decl entry c) := by
  obtain ⟨i, j⟩ := place
  obtain ⟨hi, m, hm, hj⟩ := placeOf?_eq_some h
  rw [propertyNames_contains_eq] at hi
  unfold replaceProperty
  rw [hm, Option.map_some]
  cases hk : m.kind with
  | property d =>
    rw [Member.properties, hk] at hj
    simp only [List.findIdx?_map, Function.comp_def] at hj
    have hw : propertyWritten decl entry m.kind = .property
        (if d.entries.length = 1 then { decl with entries := [entry] }
        else { d with entries := d.entries.set j entry }) := by
      rw [hk, set_eq_editFirst hj]
      rfl
    dsimp only
    generalize (if d.entries.length = 1 then { decl with entries := [entry] }
      else { d with entries := d.entries.set j entry } : PropertyDecl) = new at hw ⊢
    by_cases hd : d = new
    · rw [if_pos hd]
      exact .unchanged hi hm (by rw [hk, hd]; rw [hk] at hw; exact hd ▸ hw)
    · rw [if_neg hd, ← hw]
      refine .setKind hi hm fun hs => hd ?_
      rw [hk] at hs hw
      exact MemberKind.property.inj (hs.symm.trans hw)
  | _ =>
    rw [Member.properties, hk] at hj
    simp at hj

theorem performs_ensurePropertyEntry (policy : MergePolicy) (decl : PropertyDecl)
    (entry : String × Option Expr) (c : ClassDecl) :
    Performs (.ofProperty policy decl entry) c (ensurePropertyEntry policy decl entry c) := by
  unfold ensurePropertyEntry
  cases hp : propertyPlace? c entry.1 with
  | none =>
    have h := placeOf?_eq_none hp
    rw [propertyNames_contains_eq] at h
    exact .insertAfter rfl h
  | some place =>
    cases policy with
    | preserve =>
      obtain ⟨hi, _⟩ := placeOf?_eq_some hp
      rw [propertyNames_contains_eq] at hi
      exact .kept rfl (any_of_findIdx? hi)
    | replace => exact performs_replaceProperty hp

theorem method?_eq_some_of_inMember {name : String} {m : Member}
    (h : (Slot.method name).inMember m = true) : ∃ d, m.kind = .method d := by
  unfold Slot.inMember at h
  cases hk : m.kind with
  | method d => exact ⟨d, rfl⟩
  | _ => simp [hk, outlineOf, Slot.fits] at h

theorem performs_ensureMethod (policy : MergePolicy) (d : MethodDecl) (c : ClassDecl) :
    Performs (.ofMethod policy d) c (ensureMethod policy d c) := by
  unfold ensureMethod methodPlace?
  rw [isMethodNamed_eq]
  cases hi : c.members.findIdx? (Slot.method d.name).inMember with
  | none =>
    have h : c.members.any (Slot.method d.name).inMember = false := by
      rw [← List.findIdx?_isSome, hi]
      rfl
    exact {
      value := by
        rw [Upsert.apply_of_not_any h]
        simp [Upsert.ofMethod, appendMethods, Edited.replaced]
      changed := fun _ ha => by rw [Upsert.ofMethod, h] at ha; cases ha }
  | some i =>
    obtain ⟨hlt, hfit, _⟩ := List.findIdx?_eq_some_iff_getElem.1 hi
    have hm : c.members[i]? = some c.members[i] := List.getElem?_eq_getElem hlt
    obtain ⟨e, he⟩ := method?_eq_some_of_inMember hfit
    have hw : methodWritten d c.members[i].kind = .method d := by rw [he]; rfl
    cases policy with
    | preserve => exact .kept rfl (any_of_findIdx? hi)
    | replace =>
      simp only [hm, Option.map_some, Option.some.injEq]
      by_cases hk : c.members[i].kind = .method d
      · rw [if_pos hk]
        exact .unchanged hi hm (hw.trans hk.symm)
      · rw [if_neg hk, ← hw]
        exact .setKind hi hm fun hs => hk (hs.symm.trans hw)

end DomainScaffold.Merge
