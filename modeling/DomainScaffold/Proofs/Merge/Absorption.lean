import Mathlib.Data.List.Induction
import DomainScaffold.Proofs.Merge.Run

/-!
# Making declarations again

A second run of the declarations of a change set goes through states that the first run did not
see: a member that two of them write is set back before it is written again. It still ends where
the first run ended, because a declaration that is made again later need not be made before.

Results:
* `has_apply`: a name that an edit has declared stays declared.
* `apply_absorb`: the law for two edits.
* `makeEdits_absorb`: the law for an edit and those before it.
* `makeEdits_makeEdits`: declarations made again change nothing.
-/

namespace DomainScaffold.Merge

open Php

/-! ## Declared names -/

/-- Whether the members have a name that an edit declares, so that it adds no member. -/
def Has : MemberEdit → List Member → Prop
  | .declare u, ms => ms.any u.slot.inMember = true
  | .group ds, ms => ds = [] ∨ (ds.any fun d => ms.any (Slot.method d.name).inMember) = true
  | .body .., _ => True

theorem has_congr {e : MemberEdit} {ms ns : List Member} (h : outlines ms = outlines ns) :
    Has e ms ↔ Has e ns := by
  cases e with
  | declare u => simp only [Has, Slot.any_inMember, h]
  | group ds => simp only [Has, Slot.any_inMember, h]
  | body _ _ => exact Iff.rfl

theorem outline_bodyWritten (f : List Statement → List Statement) (k : MemberKind) :
    outlineOf (bodyWritten f k) = outlineOf k := by
  cases k <;> rfl

theorem outlines_body (method : String) (f : List Statement → List Statement) (ms : List Member) :
    outlines ((MemberEdit.body method f).apply ms) = outlines ms :=
  map_editFirst (fun m _ => by rw [kind_rewrite, outline_bodyWritten]) ms

/-- An edit whose names are there leaves all names where they are. -/
theorem outlines_apply {e : MemberEdit} {ms : List Member} (h : Has e ms) :
    outlines (e.apply ms) = outlines ms := by
  cases e with
  | declare u => exact Upsert.outlines_apply_of_any h
  | group ds =>
    rcases h with rfl | h
    · simp [MemberEdit.apply]
    · rw [MemberEdit.apply, if_pos h]
  | body method f => exact outlines_body method f ms

/-- A name that is there stays there. -/
theorem any_apply (e : MemberEdit) {s : Slot} {ms : List Member} (h : ms.any s.inMember = true) :
    (e.apply ms).any s.inMember = true := by
  cases e with
  | declare u => exact u.any_apply_of_any h
  | group ds =>
    rw [MemberEdit.apply]
    split
    · exact h
    · rw [List.any_append, h, Bool.true_or]
  | body method f => rwa [s.any_inMember, outlines_body, ← s.any_inMember]

/-- A name that an edit has declared stays declared. -/
theorem has_apply {d : MemberEdit} (e : MemberEdit) {ms : List Member} (h : Has d ms) :
    Has d (e.apply ms) := by
  cases d with
  | declare u => exact any_apply e h
  | group ds =>
    rcases h with rfl | h
    · exact .inl rfl
    · obtain ⟨d, hd, hany⟩ := List.any_eq_true.1 h
      exact .inr (List.any_eq_true.2 ⟨d, hd, any_apply e hany⟩)
  | body _ _ => trivial

theorem has_apply_self (e : MemberEdit) (ms : List Member) : Has e (e.apply ms) := by
  cases e with
  | declare u => exact u.any_apply_self ms
  | group ds =>
    rw [MemberEdit.apply]
    split
    · rename_i h
      exact .inr h
    · cases ds with
      | nil => exact .inl rfl
      | cons d ds =>
        refine .inr (List.any_eq_true.2 ⟨d, by simp, ?_⟩)
        simp [Slot.inMember, Member.ofKind, outlineOf, Slot.fits]
  | body _ _ => trivial

theorem has_makeEdits {d : MemberEdit} (es : List MemberEdit) {ms : List Member} (h : Has d ms) :
    Has d (makeEdits es ms) := by
  induction es generalizing ms with
  | nil => exact h
  | cons e es ih => exact ih (has_apply e h)

theorem any_makeEdits (es : List MemberEdit) {s : Slot} {ms : List Member}
    (h : ms.any s.inMember = true) : (makeEdits es ms).any s.inMember = true := by
  induction es generalizing ms with
  | nil => exact h
  | cons e es ih => exact ih (any_apply e h)

theorem has_makeEdits_self {es : List MemberEdit} {e : MemberEdit} (he : e ∈ es)
    (ms : List Member) : Has e (makeEdits es ms) := by
  induction es generalizing ms with
  | nil => cases he
  | cons d es ih =>
    rcases List.mem_cons.1 he with rfl | he
    · exact has_makeEdits es (has_apply_self e ms)
    · exact ih he (d.apply ms)

/-! ## Two declarations -/

/-- An edit that declares something. -/
def Declares : MemberEdit → Prop
  | .declare _ | .group _ => True
  | .body .. => False

/-- Two rewrites of one member: the first one need not be made if it is made again later. -/
def Absorbs : MemberEdit → MemberEdit → Prop
  | .declare u, .declare v => ∀ k, u.slot.fits (outlineOf k) = true →
      v.slot.fits (outlineOf k) = true → u.write (v.write (u.write k)) = u.write (v.write k)
  | _, _ => True

theorem group_apply_of_has {ds : List MethodDecl} {ms : List Member} (h : Has (.group ds) ms) :
    (MemberEdit.group ds).apply ms = ms := by
  rcases h with rfl | h
  · simp [MemberEdit.apply]
  · rw [MemberEdit.apply, if_pos h]

namespace Upsert

theorem inMember_rewrite (u : Upsert) {m : Member} (h : u.slot.inMember m = true) (s : Slot) :
    s.inMember (rewrite u.write m) = s.inMember m := by
  rw [Slot.inMember, u.outline_rewrite m h]
  rfl

theorem find?_insertIdx_of_not_any {u : Upsert} {ms : List Member} {k : Nat}
    (hk : k ≤ ms.length) (h : ms.any u.slot.inMember = false) :
    (ms.insertIdx k (.ofKind u.fresh)).find? u.slot.inMember = some (.ofKind u.fresh) := by
  have hfit : u.slot.inMember (.ofKind u.fresh) = true := u.fits_fresh
  obtain ⟨m, hm⟩ := find?_of_any <| List.any_eq_true.2
    ⟨Member.ofKind u.fresh, (List.mem_insertIdx hk).2 (.inl rfl), hfit⟩
  rcases (List.mem_insertIdx hk).1 (List.mem_of_find?_eq_some hm) with rfl | hmem
  · exact hm
  · exact absurd (List.find?_some hm) (List.any_eq_false.1 h m hmem)

theorem apply_apply_self (u : Upsert) (ms : List Member) : u.apply (u.apply ms) = u.apply ms := by
  rw [apply_of_any (u.any_apply_self ms)]
  by_cases h : ms.any u.slot.inMember = true
  · rw [apply_of_any h, editFirst_editFirst fun m hm => by rwa [u.inMember_rewrite hm]]
    refine editFirst_congr fun m hm => rewrite_rewrite_self (u.write_write _ ?_)
    exact List.find?_some (p := u.slot.inMember) hm
  · rw [Bool.not_eq_true] at h
    rw [apply_of_not_any h,
      editFirst_rewrite_eq_self (find?_insertIdx_of_not_any (u.place_le ms) h) u.write_fresh]

/-- A new member does not change what an edit of another name does. -/
theorem apply_insertIdx {v : Upsert} {m : Member} {ms : List Member} {k : Nat}
    (hv : ms.any v.slot.inMember = true) (hm : v.slot.inMember m = false) :
    v.apply (ms.insertIdx k m) = (v.apply ms).insertIdx k m := by
  rw [apply_of_any (any_insertIdx_of_any hv k m), apply_of_any hv, editFirst_insertIdx hm]

theorem apply_append {v : Upsert} {ms : List Member} (hv : ms.any v.slot.inMember = true)
    (ns : List Member) : v.apply (ms ++ ns) = v.apply ms ++ ns := by
  rw [apply_of_any (by rw [List.any_append, hv, Bool.true_or]), apply_of_any hv,
    editFirst_append hv]

/-- Two edits of names: the first one need not be made if it is made again later. -/
theorem apply_absorb {u v : Upsert} (huv : Absorbs (.declare u) (.declare v)) {ms : List Member}
    (hv : ms.any v.slot.inMember = true) : u.apply (v.apply (u.apply ms)) = u.apply (v.apply ms) := by
  by_cases hu : ms.any u.slot.inMember = true
  · rw [apply_of_any (v.any_apply_of_any hu), apply_of_any hv,
      apply_of_any (v.any_apply_of_any (u.any_apply_self ms)),
      apply_of_any (u.any_apply_of_any hv), apply_of_any hu]
    refine editFirst_absorb (fun m hm => ?_) (fun m hm => ?_) (fun m hm => ?_) (fun m hm hm' => ?_) ms
    · exact ⟨by rwa [u.inMember_rewrite hm], u.inMember_rewrite hm _⟩
    · exact ⟨v.inMember_rewrite hm _, by rwa [v.inMember_rewrite hm]⟩
    · exact rewrite_rewrite_self (u.write_write _ hm)
    · exact rewrite_absorb (huv _ hm hm')
  · rw [Bool.not_eq_true] at hu
    -- The new member has no name that is there already.
    have hfresh : v.slot.inMember (.ofKind u.fresh) = false := by
      by_contra hfit
      obtain ⟨m, hm, hfits⟩ := List.any_eq_true.1 hv
      exact List.any_eq_false.1 hu m hm
        (u.fresh_only v.slot (Bool.not_eq_false _ ▸ hfit) _ hfits)
    have hout := outlines_apply_of_any hv
    have huv : (v.apply ms).any u.slot.inMember = false := by
      rwa [Slot.any_inMember, hout, ← Slot.any_inMember]
    have hcomm : v.apply (u.apply ms) = u.apply (v.apply ms) := by
      rw [apply_of_not_any hu, apply_insertIdx hv hfresh, apply_of_not_any huv,
        u.place_congr _ _ hout]
    rw [hcomm, apply_apply_self]

end Upsert

theorem apply_apply_self {e : MemberEdit} (he : Declares e) (ms : List Member) :
    e.apply (e.apply ms) = e.apply ms := by
  cases e with
  | declare u => exact u.apply_apply_self ms
  | group ds => exact group_apply_of_has (has_apply_self _ ms)
  | body _ _ => cases he

/-- Two declarations: the first one need not be made if it is made again later. -/
theorem apply_absorb {e d : MemberEdit} (he : Declares e) (hd : Declares d) (hed : Absorbs e d)
    {ms : List Member} (h : Has d ms) : e.apply (d.apply (e.apply ms)) = e.apply (d.apply ms) := by
  cases d with
  | body _ _ => cases hd
  | group ds =>
    rw [group_apply_of_has h, group_apply_of_has (has_apply e h), apply_apply_self he]
  | declare v =>
    cases e with
    | body _ _ => cases he
    | declare u => exact Upsert.apply_absorb hed h
    | group ds =>
      have hout := outlines_apply (e := .declare v) h
      by_cases hg : Has (.group ds) ms
      · rw [group_apply_of_has hg]
      · have happ : ∀ ns, outlines ns = outlines ms → (MemberEdit.group ds).apply ns =
            ns ++ ds.map fun d => .ofKind (.method d) := fun ns hns => by
          rw [MemberEdit.apply, if_neg]
          exact fun hany => hg ((has_congr hns).1 (.inr hany))
        have hcomm : (MemberEdit.declare v).apply ((MemberEdit.group ds).apply ms) =
            (MemberEdit.group ds).apply ((MemberEdit.declare v).apply ms) := by
          rw [happ ms rfl, happ _ hout]
          exact Upsert.apply_append h _
        rw [hcomm, apply_apply_self (e := .group ds) trivial]

/-! ## The declarations of changes -/

/-- The declaring edits that changes stand for. -/
inductive Declaring (policy : MergePolicy) : Upsert → Prop where
  | trait (name : String) : Declaring policy (.ofTrait name)
  | constant (decl : ConstantDecl) (entry : String × Expr) :
      Declaring policy (.ofConstant policy decl entry)
  | property (decl : PropertyDecl) (entry : String × Option Expr) :
      Declaring policy (.ofProperty policy decl entry)
  | method (d : MethodDecl) : Declaring policy (.ofMethod policy d)

theorem declaring_of_mem {className : String} {policy : MergePolicy} {ch : Change} {u : Upsert}
    (h : .declare u ∈ memberEdits className policy ch) : Declaring policy u := by
  cases ch with
  | traitUse name =>
    cases List.mem_singleton.1 h
    exact .trait name
  | constant decl =>
    obtain ⟨e, _, he⟩ := List.mem_map.1 h
    cases he
    exact .constant decl e
  | property decl =>
    obtain ⟨e, _, he⟩ := List.mem_map.1 h
    cases he
    exact .property decl e
  | method d =>
    cases List.mem_singleton.1 h
    exact .method d
  | _ => simp [memberEdits] at h

theorem Declaring.write_of_preserve {u : Upsert} (h : Declaring .preserve u) : u.write = id := by
  cases h <;> rfl

theorem constantWritten_absorb (e e' : String × Expr) (k : MemberKind) :
    constantWritten e (constantWritten e' (constantWritten e k)) =
      constantWritten e (constantWritten e' k) := by
  cases k with
  | constant d =>
    simp only [constantWritten]
    rw [editFirst_absorb]
    · exact fun a ha => ⟨ha, rfl⟩
    · exact fun a ha => ⟨rfl, ha⟩
    · exact fun _ _ => rfl
    · exact fun _ _ _ => rfl
  | _ => rfl

theorem propertyWritten_absorb (decl decl' : PropertyDecl) (e e' : String × Option Expr)
    (k : MemberKind) :
    propertyWritten decl e (propertyWritten decl' e' (propertyWritten decl e k)) =
      propertyWritten decl e (propertyWritten decl' e' k) := by
  cases k with
  | property d =>
    by_cases hl : d.entries.length = 1
    · simp [propertyWritten, hl]
    · simp only [propertyWritten, hl, if_false, length_editFirst]
      rw [editFirst_absorb]
      · exact fun a ha => ⟨beq_self_eq_true _, by rw [beq_iff_eq.1 ha]⟩
      · exact fun a ha => ⟨by rw [beq_iff_eq.1 ha], beq_self_eq_true _⟩
      · exact fun _ _ => rfl
      · exact fun _ _ _ => rfl
  | _ => rfl

/-- Two edits that look for names of one kind have laws of their own; else no member fits both. -/
theorem absorbs_declaring {policy : MergePolicy} {u v : Upsert} (hu : Declaring policy u)
    (hv : Declaring policy v) : Absorbs (.declare u) (.declare v) := by
  intro k hku hkv
  cases policy with
  | preserve => rw [hu.write_of_preserve, hv.write_of_preserve]; rfl
  | replace =>
    cases hu with
    | trait name => rfl
    | constant decl e =>
      cases hv with
      | trait name => exact Upsert.constantWritten_constantWritten e k
      | constant decl' e' => exact constantWritten_absorb e e' k
      | _ => cases k <;> first | cases hku | cases hkv
    | property decl e =>
      cases hv with
      | trait name => exact Upsert.propertyWritten_propertyWritten decl e k
      | property decl' e' => exact propertyWritten_absorb decl decl' e e' k
      | _ => cases k <;> first | cases hku | cases hkv
    | method d =>
      cases hv with
      | method d' => cases k <;> rfl
      | _ => cases k <;> first | cases hku | cases hkv

theorem absorbs_memberEdits {className : String} {policy : MergePolicy} {ch ch' : Change}
    {e d : MemberEdit} (he : e ∈ memberEdits className policy ch)
    (hd : d ∈ memberEdits className policy ch') : Absorbs e d := by
  cases e with
  | declare u =>
    cases d with
    | declare v => exact absorbs_declaring (declaring_of_mem he) (declaring_of_mem hd)
    | _ => trivial
  | _ => trivial

/-! ## Declarations in a row -/

/-- An edit need not be made before others if it is made again behind them. -/
theorem makeEdits_absorb {e : MemberEdit} (he : Declares e) {ds : List MemberEdit}
    (hd : ∀ d ∈ ds, Declares d ∧ Absorbs e d) {ms : List Member} (h : ∀ d ∈ ds, Has d ms) :
    e.apply (makeEdits ds (e.apply ms)) = e.apply (makeEdits ds ms) := by
  induction ds generalizing ms with
  | nil => exact apply_apply_self he ms
  | cons d ds ih =>
    have ih : ∀ ns, (∀ c ∈ ds, Has c ns) →
        e.apply (makeEdits ds (e.apply ns)) = e.apply (makeEdits ds ns) := fun ns hns =>
      ih (fun c hc => hd c (List.mem_cons_of_mem _ hc)) hns
    have hds : ∀ c ∈ ds, Has c (d.apply ms) := fun c hc =>
      has_apply d (h c (List.mem_cons_of_mem _ hc))
    have hds' : ∀ c ∈ ds, Has c (d.apply (e.apply ms)) := fun c hc =>
      has_apply d (has_apply e (h c (List.mem_cons_of_mem _ hc)))
    obtain ⟨hdd, hed⟩ := hd d (by simp)
    calc e.apply (makeEdits ds (d.apply (e.apply ms)))
        = e.apply (makeEdits ds (e.apply (d.apply (e.apply ms)))) := (ih _ hds').symm
      _ = e.apply (makeEdits ds (e.apply (d.apply ms))) := by
        rw [apply_absorb he hdd hed (h d (by simp))]
      _ = e.apply (makeEdits ds (d.apply ms)) := ih _ hds

/-- Declarations made again change nothing. -/
theorem makeEdits_makeEdits {es : List MemberEdit} (hd : ∀ e ∈ es, Declares e)
    (habs : ∀ e ∈ es, ∀ d ∈ es, Absorbs e d) (ms : List Member) :
    makeEdits es (makeEdits es ms) = makeEdits es ms := by
  induction es using List.reverseRecOn with
  | nil => rfl
  | append_singleton es e ih =>
    have hmem : ∀ d ∈ es, d ∈ es ++ [e] := fun d hd => List.mem_append_left _ hd
    have ih := ih (fun d hd' => hd d (hmem d hd'))
      (fun d hd' c hc => habs d (hmem d hd') c (hmem c hc))
    have he : e ∈ es ++ [e] := by simp
    simp only [makeEdits_append, makeEdits_singleton]
    rw [makeEdits_absorb (hd e he) (fun d hd' => ⟨hd d (hmem d hd'), habs e he d (hmem d hd')⟩)
      fun d hd' => has_makeEdits_self hd' ms, ih]

end DomainScaffold.Merge
