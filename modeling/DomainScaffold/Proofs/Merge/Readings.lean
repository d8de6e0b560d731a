import DomainScaffold.Proofs.Merge.Registrations

/-!
# What a class says about one name

A constant, a property or a method of a class is read off the first member that declares it, without
the other things that this member declares. Under the policy that replaces, the edit for a name
decides what is read for it, and edits for other names do not change that.

Results:
* `reading_apply_self`: the edit for a name.
* `reading_apply_of_ignores`: an edit for another name.
* `reading_makeEdits_once`: edits in a row of which one is for the name.
* `ignores_constantOf?`, `ignores_propertyOf?`, `ignores_methodOf?`: which edits are for other names.
-/

namespace DomainScaffold.Merge

open Php

/-! ## Readings -/

section Reading

variable {β : Type} {r : MemberKind → Option β} {ms : List Member}

/-- What the first member says about something that says anything about it. -/
def reading (r : MemberKind → Option β) (ms : List Member) : Option β :=
  ms.findSome? fun m => r m.kind

theorem reading_congr {ns : List Member}
    (h : (ms.map fun m => r m.kind) = ns.map fun m => r m.kind) :
    reading r ms = reading r ns := by
  have hmap (l : List Member) : reading r l = (l.map fun m => r m.kind).findSome? id := by
    rw [List.findSome?_map]
    rfl
  rw [hmap, hmap, h]

theorem reading_editFirst_of_eq {p : Member → Bool} {f : MemberKind → MemberKind}
    (h : ∀ m, p m = true → r (f m.kind) = r m.kind) (ms : List Member) :
    reading r (editFirst p (rewrite f) ms) = reading r ms :=
  reading_congr (map_editFirst (fun m hm => by rw [kind_rewrite, h m hm]) ms)

/-- The edit of the first member that says something changes what is read. -/
theorem reading_editFirst_self {p : Member → Bool} {f : MemberKind → MemberKind} {g : β → β}
    (hp : ∀ m, (r m.kind).isSome = p m) (hf : ∀ m, p m = true → r (f m.kind) = (r m.kind).map g)
    (ms : List Member) : reading r (editFirst p (rewrite f) ms) = (reading r ms).map g := by
  induction ms with
  | nil => rfl
  | cons m ms ih =>
    cases hm : p m with
    | true =>
      obtain ⟨b, hb⟩ := Option.isSome_iff_exists.1 ((hp m).trans hm)
      rw [editFirst_cons_of_pos hm, reading, List.findSome?_cons, kind_rewrite, hf m hm, hb, reading,
        List.findSome?_cons, hb]
      rfl
    | false =>
      have hnone : r m.kind = none := by simpa [hm] using hp m
      rw [editFirst_cons_of_neg hm, reading, List.findSome?_cons, hnone, reading,
        List.findSome?_cons, hnone]
      exact ih

theorem reading_insertIdx_of_none {n : Member} (hn : r n.kind = none) (i : Nat) (ms : List Member) :
    reading r (ms.insertIdx i n) = reading r ms := by
  induction ms generalizing i with
  | nil => cases i <;> simp [reading, hn]
  | cons m ms ih =>
    cases i with
    | zero => simp [reading, hn]
    | succ i =>
      rw [List.insertIdx_succ_cons, reading, List.findSome?_cons, reading, List.findSome?_cons]
      cases r m.kind with
      | some b => rfl
      | none => exact ih i

/-- A new member says something that no other one says. -/
theorem reading_insertIdx_self {n : Member} {i : Nat} (hi : i ≤ ms.length)
    (h : reading r ms = none) : reading r (ms.insertIdx i n) = r n.kind := by
  induction ms generalizing i with
  | nil =>
    obtain rfl : i = 0 := by simpa using hi
    simp [reading]
  | cons m ms ih =>
    rw [reading, List.findSome?_cons] at h
    cases hm : r m.kind with
    | some b => rw [hm] at h; cases h
    | none =>
      rw [hm] at h
      cases i with
      | zero =>
        rw [List.insertIdx_zero, reading, List.findSome?_cons]
        cases hn : r n.kind with
        | some b => rfl
        | none => rw [List.findSome?_cons, hm]; exact h
      | succ i =>
        rw [List.insertIdx_succ_cons, reading, List.findSome?_cons, hm]
        exact ih (by simpa using hi) h

theorem reading_append_of_some {b : β} (h : reading r ms = some b) (ns : List Member) :
    reading r (ms ++ ns) = some b := by
  rw [reading, List.findSome?_append, ← reading, h]
  rfl

/-! ## Edits -/

/-- An edit that does not change what is read. -/
def Ignores (r : MemberKind → Option β) : MemberEdit → Prop
  | .declare u => (∀ k, u.slot.fits (outlineOf k) = true → r (u.write k) = r k) ∧ r u.fresh = none
  | .group ds => ∀ d ∈ ds, r (.method d) = none
  | .body method f => ∀ k, IsMethod method k → r (bodyWritten f k) = r k

/-- An edit for another name. -/
theorem reading_apply_of_ignores {e : MemberEdit} (h : Ignores r e) (ms : List Member) :
    reading r (e.apply ms) = reading r ms := by
  cases e with
  | declare u =>
    by_cases hany : ms.any u.slot.inMember = true
    · rw [MemberEdit.apply, Upsert.apply_of_any hany]
      exact reading_editFirst_of_eq (fun m hm => h.1 m.kind hm) ms
    · rw [MemberEdit.apply, Upsert.apply_of_not_any (by simpa using hany)]
      exact reading_insertIdx_of_none h.2 _ ms
  | group ds =>
    rw [MemberEdit.apply]
    split
    · rfl
    · have hnone : reading r (ds.map fun d => .ofKind (.method d)) = none := by
        rw [reading, List.findSome?_map, List.findSome?_eq_none_iff]
        exact h
      rw [reading, List.findSome?_append, ← reading, ← reading, hnone, Option.or_none]
  | body method f => exact reading_editFirst_of_eq (fun m hm => h m.kind hm) ms

theorem reading_makeEdits_of_ignores {es : List MemberEdit} (h : ∀ e ∈ es, Ignores r e)
    (ms : List Member) : reading r (makeEdits es ms) = reading r ms := by
  induction es generalizing ms with
  | nil => rfl
  | cons e es ih =>
    refine (ih (fun d hd => h d (List.mem_cons_of_mem _ hd)) (e.apply ms)).trans ?_
    exact reading_apply_of_ignores (h e (by simp)) ms

/-- Groups do not change what is read once something is. -/
theorem reading_makeEdits_of_some {es : List MemberEdit}
    (h : ∀ e ∈ es, Ignores r e ∨ ∃ ds, e = .group ds) {b : β} (hb : reading r ms = some b) :
    reading r (makeEdits es ms) = some b := by
  induction es generalizing ms with
  | nil => exact hb
  | cons e es ih =>
    have hstep : reading r (e.apply ms) = some b := by
      rcases h e (by simp) with hi | ⟨ds, rfl⟩
      · rw [reading_apply_of_ignores hi, hb]
      · rw [MemberEdit.apply]
        split
        · exact hb
        · exact reading_append_of_some hb _
    exact ih (fun d hd => h d (List.mem_cons_of_mem _ hd)) hstep

/-- A declaring edit decides what is read: `g` of what was there, or what is new. -/
structure Decides (u : Upsert) (r : MemberKind → Option β) (g : β → β) : Prop where
  isSome : ∀ k, (r k).isSome = u.slot.fits (outlineOf k)
  write : ∀ k, u.slot.fits (outlineOf k) = true → r (u.write k) = (r k).map g

theorem reading_isSome {u : Upsert} {g : β → β} (h : Decides u r g) (ms : List Member) :
    (reading r ms).isSome = ms.any u.slot.inMember := by
  rw [reading, List.isSome_findSome?]
  congr 1
  funext m
  exact h.isSome m.kind

/-- The edit for a name. -/
theorem reading_apply_self {u : Upsert} {g : β → β} (h : Decides u r g) (ms : List Member) :
    reading r (u.apply ms) =
      match reading r ms with
      | none => r u.fresh
      | some b => some (g b) := by
  have hsome := reading_isSome h ms
  cases hb : reading r ms with
  | none =>
    rw [hb] at hsome
    rw [Upsert.apply_of_not_any hsome.symm, reading_insertIdx_self (u.place_le ms) hb]
    rfl
  | some b =>
    rw [hb] at hsome
    have hself := reading_editFirst_self (p := u.slot.inMember) (fun m => h.isSome m.kind)
      (fun m hm => h.write m.kind hm) ms
    rw [Upsert.apply_of_any hsome.symm, hself, hb]
    rfl

/-- Edits in a row of which one is for the name. -/
theorem reading_makeEdits_once {u : Upsert} {g : β → β} (h : Decides u r g)
    {before after : List MemberEdit} (hbefore : ∀ e ∈ before, Ignores r e)
    (hafter : ∀ e ∈ after, Ignores r e) (ms : List Member) :
    reading r (makeEdits (before ++ .declare u :: after) ms) =
      match reading r ms with
      | none => r u.fresh
      | some b => some (g b) := by
  rw [makeEdits_append]
  refine (reading_makeEdits_of_ignores hafter (u.apply (makeEdits before ms))).trans ?_
  rw [reading_apply_self h, reading_makeEdits_of_ignores hbefore]

end Reading

/-! ## Constants, properties and methods -/

/-- The declaration of one constant, without the others that are declared with it. -/
def constantOf? (name : String) : MemberKind → Option ConstantDecl
  | .constant d => (d.entries.find? (·.1 == name)).map fun e => { d with entries := [e] }
  | _ => none

/-- The declaration of one property, without the others that are declared with it, and whether there
    are none. -/
def propertyOf? (name : String) : MemberKind → Option (PropertyDecl × Bool)
  | .property d => (d.entries.find? (·.1 == name)).map fun e =>
      ({ d with entries := [e] }, d.entries.length == 1)
  | _ => none

/-- The method with a name, in any case. -/
def methodOf? (name : String) : MemberKind → Option MethodDecl
  | .method d => if Text.foldAscii d.name == Text.foldAscii name then some d else none
  | _ => none

theorem method?_eq_reading (c : ClassDecl) (name : String) :
    c.method? name = reading (methodOf? name) c.members := by
  rw [ClassDecl.method?, ClassDecl.methods, reading]
  induction c.members with
  | nil => rfl
  | cons m ms ih =>
    rw [List.findSome?_cons, ← ih, List.filterMap_cons]
    unfold Member.method?
    cases m.kind with
    | method d =>
      cases h : Text.sameIgnoringCase d.name name <;>
        simp only [methodOf?, List.find?_cons, h] <;>
        rw [Text.sameIgnoringCase] at h <;> simp [h]
    | _ => rfl

/-! ## Edits for a name -/

theorem isSome_find?_name {β : Type} (name : String) (entries : List (String × β)) :
    (entries.find? (·.1 == name)).isSome = (entries.map Prod.fst).contains name := by
  rw [List.isSome_find?, ← List.any_beq', List.any_map]
  rfl

theorem fst_of_find?_name {β : Type} {name : String} {entries : List (String × β)}
    {e : String × β} (h : entries.find? (·.1 == name) = some e) : e.1 = name := by
  simpa using List.find?_some h

/-- Another name is not found among edited entries if it was not the one that is edited. -/
theorem find?_editFirst_of_ne {α : Type} {p q : α → Bool} {f : α → α}
    (h : ∀ a, p a = true → q a = false ∧ q (f a) = false) (l : List α) :
    (editFirst p f l).find? q = l.find? q := by
  induction l with
  | nil => rfl
  | cons a l ih =>
    by_cases hp : p a = true
    · simp [editFirst, hp, h a hp]
    · simp [editFirst, hp, List.find?_cons, ih]

theorem decides_constant (decl : ConstantDecl) (entry : String × Expr) :
    Decides (.ofConstant .replace decl entry) (constantOf? entry.1)
      fun old => { old with entries := [entry] } where
  isSome k := by
    cases k with
    | constant d => rw [constantOf?, Option.isSome_map, isSome_find?_name]; rfl
    | _ => rfl
  write k hk := by
    cases k with
    | constant d =>
      show constantOf? entry.1 (constantWritten entry (.constant d)) = _
      rw [constantWritten, constantOf?, constantOf?,
        find?_editFirst_self (p := fun e => e.1 == entry.1) (f := fun e => (e.1, entry.2))
          fun e he => he]
      cases he : d.entries.find? (·.1 == entry.1) with
      | none => rfl
      | some e => rw [Option.map_some, fst_of_find?_name he]; rfl
    | _ => cases hk

theorem decides_property (decl : PropertyDecl) (entry : String × Option Expr) :
    Decides (.ofProperty .replace decl entry) (propertyOf? entry.1) fun old =>
      if old.2 then ({ decl with entries := [entry] }, true)
      else ({ old.1 with entries := [entry] }, false) where
  isSome k := by
    cases k with
    | property d => rw [propertyOf?, Option.isSome_map, isSome_find?_name]; rfl
    | _ => rfl
  write k hk := by
    cases k with
    | property d =>
      show propertyOf? entry.1 (propertyWritten decl entry (.property d)) = _
      have hsome : (d.entries.find? (·.1 == entry.1)).isSome = true := by
        rw [isSome_find?_name]
        exact hk
      obtain ⟨e, he⟩ := Option.isSome_iff_exists.1 hsome
      by_cases hl : d.entries.length = 1
      · simp [propertyWritten, propertyOf?, hl, he]
      · simp only [propertyWritten, propertyOf?, if_neg hl, length_editFirst, he,
          find?_editFirst_self (p := fun e => e.1 == entry.1) (f := fun _ => entry)
            fun _ _ => beq_self_eq_true _]
        simp [hl]
    | _ => cases hk

theorem decides_method (d : MethodDecl) :
    Decides (.ofMethod .replace d) (methodOf? d.name) fun _ => d where
  isSome k := by
    cases k with
    | method e =>
      show (methodOf? d.name (.method e)).isSome = (Text.foldAscii e.name == Text.foldAscii d.name)
      rw [methodOf?]
      split <;> simp_all
    | _ => rfl
  write k hk := by
    cases k with
    | method e =>
      have hname : (Text.foldAscii e.name == Text.foldAscii d.name) = true := hk
      show methodOf? d.name (.method d) = _
      rw [methodOf?, methodOf?, if_pos hname, if_pos (beq_self_eq_true _)]
      rfl
    | _ => cases hk

/-! ## Edits for other names -/

section Ignores

variable {className name : String} {ch : Change} {e : MemberEdit}

theorem ignores_constantOf? (he : e ∈ memberEdits className .replace ch)
    (h : ∀ u, e = .declare u → u.slot ≠ .constant name) : Ignores (constantOf? name) e := by
  cases e with
  | group ds => exact fun _ _ => rfl
  | body method f =>
    intro k _
    cases k <;> rfl
  | declare u =>
    have hslot := h u rfl
    cases declaring_of_mem he with
    | constant decl entry =>
      have hname : entry.1 ≠ name := fun heq => hslot (congrArg Slot.constant heq)
      refine ⟨fun k _ => ?_, by simp [Upsert.ofConstant, constantOf?, hname]⟩
      cases k with
      | constant d =>
        show constantOf? name (constantWritten entry (.constant d)) = _
        rw [constantWritten, constantOf?, constantOf?, find?_editFirst_of_ne fun a ha => ?_]
        have ha : a.1 = entry.1 := beq_iff_eq.1 ha
        simp [ha, hname]
      | _ => rfl
    | _ =>
      refine ⟨fun k _ => ?_, rfl⟩
      cases k <;> rfl

theorem ignores_propertyOf? (he : e ∈ memberEdits className .replace ch)
    (h : ∀ u, e = .declare u → u.slot ≠ .property name) : Ignores (propertyOf? name) e := by
  cases e with
  | group ds => exact fun _ _ => rfl
  | body method f =>
    intro k _
    cases k <;> rfl
  | declare u =>
    have hslot := h u rfl
    cases declaring_of_mem he with
    | property decl entry =>
      have hname : entry.1 ≠ name := fun heq => hslot (congrArg Slot.property heq)
      refine ⟨fun k hk => ?_, by simp [Upsert.ofProperty, propertyOf?, hname]⟩
      cases k with
      | property d =>
        show propertyOf? name (propertyWritten decl entry (.property d)) = _
        by_cases hl : d.entries.length = 1
        · -- The declaration has no other entry, so nothing is read from it before and after.
          obtain ⟨a, ha⟩ := List.length_eq_one_iff.1 hl
          have hfit : (d.entries.map Prod.fst).contains entry.1 = true := hk
          have hfst : a.1 = entry.1 := by simpa [ha, eq_comm] using hfit
          simp [propertyWritten, propertyOf?, ha, hfst, hname]
        · rw [propertyWritten, if_neg hl, propertyOf?, propertyOf?, length_editFirst,
            find?_editFirst_of_ne fun a ha => ?_]
          have ha : a.1 = entry.1 := beq_iff_eq.1 ha
          simp [ha, hname]
      | _ => rfl
    | _ =>
      refine ⟨fun k _ => ?_, rfl⟩
      cases k <;> rfl

theorem methodOf?_of_ne {method : String} {k : MemberKind} (hk : IsMethod method k)
    (h : Text.foldAscii method ≠ Text.foldAscii name) : methodOf? name k = none := by
  cases k with
  | method d =>
    have hd : Text.foldAscii d.name = Text.foldAscii method := beq_iff_eq.1 hk
    simp [methodOf?, hd, h]
  | _ => rfl

theorem ignores_methodOf?_body {method : String} (f : List Statement → List Statement)
    (h : Text.foldAscii method ≠ Text.foldAscii name) :
    Ignores (methodOf? name) (.body method f) := fun k hk => by
  have hk' : IsMethod method (bodyWritten f k) := by rwa [IsMethod, outline_bodyWritten]
  rw [methodOf?_of_ne hk h, methodOf?_of_ne hk' h]

theorem ignores_methodOf? (he : e ∈ memberEdits className .replace ch)
    (hp : ch.pass ≠ .injections)
    (h : ∀ u d, e = .declare u → u.slot = .method d → Text.foldAscii d ≠ Text.foldAscii name) :
    Ignores (methodOf? name) e ∨ ∃ ds, e = .group ds := by
  cases e with
  | group ds => exact .inr ⟨ds, rfl⟩
  | body method f => exact absurd (declares_of_mem hp he) id
  | declare u =>
    refine .inl ?_
    cases declaring_of_mem he with
    | method d =>
      have hname := h _ d.name rfl rfl
      have hself : IsMethod d.name (.method d) := beq_self_eq_true _
      refine ⟨fun k hk => ?_, methodOf?_of_ne hself hname⟩
      have hk' : IsMethod d.name k := hk
      obtain ⟨e, rfl⟩ := exists_of_isMethod hk'
      rw [methodOf?_of_ne hk' hname]
      exact methodOf?_of_ne hself hname
    | _ =>
      refine ⟨fun k _ => ?_, rfl⟩
      cases k <;> rfl

end Ignores

end DomainScaffold.Merge
