import Mathlib.Order.Monotone.Basic
import DomainScaffold.Proofs.Merge.Replacement

/-!
# Where new members go

A new member is put behind the last one of its kind, or of an earlier kind if there is none. So it
never stands between a comment and what the comment is written for, and members that stand in the
order of their kinds stay in it.

Results:
* `InPlace.trans`: what stays in its place does so over edits in a row.
* `placeAfter_spec`: what stands in front of a new member and behind it.
* `arranged_apply`: what one edit keeps.
* `merge_arranged`: what a merge keeps.
-/

namespace DomainScaffold.Merge

open Php

/-! ## Places that are kept -/

/-- A member at most edited in place: it declares the same names and has the same comment on its
    line. A member that only exists as text is not edited, and an edited one is written from its
    fields. -/
structure EditedInPlace (m n : Member) : Prop where
  outline : outlineOf n.kind = outlineOf m.kind
  trailing : n.trailing = m.trailing
  written : n = m ∨ n.verbatim = none ∧ outlineOf m.kind ≠ .text

theorem EditedInPlace.refl (m : Member) : EditedInPlace m m := ⟨rfl, rfl, .inl rfl⟩

theorem EditedInPlace.trans {m n o : Member} (h₁ : EditedInPlace m n) (h₂ : EditedInPlace n o) :
    EditedInPlace m o where
  outline := h₂.outline.trans h₁.outline
  trailing := h₂.trailing.trans h₁.trailing
  written := by
    rcases h₂.written with rfl | ⟨hnone, htext⟩
    · exact h₁.written
    · exact .inr ⟨hnone, h₁.outline ▸ htext⟩

/-- What a comment is edited to is the comment. -/
theorem EditedInPlace.eq_of_comment {m n : Member} (h : EditedInPlace m n)
    (hm : m.kind = .comment) : n = m :=
  h.written.resolve_right fun hw => hw.2 (by rw [hm]; rfl)

/-- Members that all stand, at most edited, in their order among others: the one at `i` is at
    `place i`, and what comes right behind a comment still does. -/
structure InPlace (place : Nat → Nat) (ms ns : List Member) : Prop where
  strictMono : StrictMono place
  member : ∀ i m, ms[i]? = some m → ∃ n, ns[place i]? = some n ∧ EditedInPlace m n
  comment : ∀ i m, ms[i]? = some m → m.kind = .comment → i + 1 < ms.length →
    place (i + 1) = place i + 1

theorem InPlace.refl (ms : List Member) : InPlace id ms ms :=
  ⟨strictMono_id, fun _ m hm => ⟨m, hm, .refl m⟩, fun _ _ _ _ _ => rfl⟩

/-- What stays in its place does so over edits in a row. -/
theorem InPlace.trans {place place' : Nat → Nat} {ms ns os : List Member}
    (h₁ : InPlace place ms ns) (h₂ : InPlace place' ns os) :
    InPlace (place' ∘ place) ms os where
  strictMono := h₂.strictMono.comp h₁.strictMono
  member i m hm := by
    obtain ⟨n, hn, hmn⟩ := h₁.member i m hm
    obtain ⟨o, ho, hno⟩ := h₂.member _ n hn
    exact ⟨o, ho, hmn.trans hno⟩
  comment i m hm hk hlt := by
    obtain ⟨n, hn, hmn⟩ := h₁.member i m hm
    obtain rfl := hmn.eq_of_comment hk
    have hnext := h₁.comment i n hm hk hlt
    -- The member behind the comment is still there, so the comment is not the last one.
    obtain ⟨n', hn', -⟩ := h₁.member (i + 1) _ (List.getElem?_eq_getElem hlt)
    rw [hnext] at hn'
    obtain ⟨hlt', -⟩ := List.getElem?_eq_some_iff.1 hn'
    rw [Function.comp_apply, Function.comp_apply, hnext]
    exact h₂.comment (place i) n hn hk hlt'

/-! ## New members -/

/-- Where the member at `i` is found when one has been put at `k`. -/
def shifted (k i : Nat) : Nat := if i < k then i else i + 1

theorem strictMono_shifted (k : Nat) : StrictMono (shifted k) := by
  intro i j hij
  unfold shifted
  split <;> split <;> omega

theorem getElem?_shifted (ms : List Member) (k i : Nat) (n : Member) :
    (ms.insertIdx k n)[shifted k i]? = ms[i]? := by
  unfold shifted
  split
  · rename_i hlt
    rw [List.getElem?_insertIdx_of_lt hlt]
  · rename_i hle
    rw [List.getElem?_insertIdx_of_gt (by omega), Nat.add_sub_cancel]

/-- A new member leaves the others in their places, unless it is put right behind a comment that
    has something behind it. -/
theorem inPlace_insertIdx {ms : List Member} {k : Nat}
    (hcomment : ∀ i m, k = i + 1 → ms[i]? = some m → k < ms.length → m.kind ≠ .comment)
    (n : Member) : InPlace (shifted k) ms (ms.insertIdx k n) where
  strictMono := strictMono_shifted k
  member i m hm := ⟨m, by rw [getElem?_shifted, hm], .refl m⟩
  comment i m hm hkind hlt := by
    have hne : k ≠ i + 1 := fun heq => hcomment i m heq hm (heq ▸ hlt) hkind
    unfold shifted
    split <;> split <;> omega

theorem inPlace_append (ms ns : List Member) : InPlace id ms (ms ++ ns) :=
  ⟨strictMono_id, fun i m hm => ⟨m, by
    rw [id, List.getElem?_append_left (List.getElem?_eq_some_iff.1 hm).1, hm], .refl m⟩,
    fun _ _ _ _ _ => rfl⟩

/-! ## Rewritten members -/

theorem outline_ne_text {s : Slot} {m : Member} (h : s.inMember m = true) :
    outlineOf m.kind ≠ .text := by
  intro htext
  rw [Slot.inMember, htext] at h
  cases s <;> cases h

theorem editedInPlace_rewrite {f : MemberKind → MemberKind} {m : Member}
    (hout : outlineOf (f m.kind) = outlineOf m.kind) (htext : outlineOf m.kind ≠ .text) :
    EditedInPlace m (rewrite f m) where
  outline := by rw [kind_rewrite, hout]
  trailing := trailing_rewrite f m
  written := by
    by_cases hf : f m.kind = m.kind
    · exact .inl (rewrite_of_eq hf)
    · exact .inr ⟨by rw [rewrite_of_ne hf], htext⟩

/-- A rewrite of the first member with a name leaves all members in their places. -/
theorem inPlace_editFirst {s : Slot} {f : MemberKind → MemberKind}
    (hout : ∀ m, s.inMember m = true → outlineOf (f m.kind) = outlineOf m.kind)
    (ms : List Member) : InPlace id ms (editFirst s.inMember (rewrite f) ms) where
  strictMono := strictMono_id
  member i m hm := by
    have : Std.Refl EditedInPlace := ⟨.refl⟩
    have hall : List.Forall₂ EditedInPlace ms (editFirst s.inMember (rewrite f) ms) :=
      forall₂_editFirst fun m _ hm => editedInPlace_rewrite (hout m hm) (outline_ne_text hm)
    obtain ⟨hlt, rfl⟩ := List.getElem?_eq_some_iff.1 hm
    exact ⟨_, List.getElem?_eq_getElem (by simpa using hlt), hall.get hlt (by simpa using hlt)⟩
  comment _ _ _ _ _ := rfl

/-! ## The order of the kinds -/

/-- Where members of a kind stand in a class: uses of traits, constants, properties, methods.
    Comments and members of other forms may stand anywhere. -/
def sectionOf? : Outline → Option Nat
  | .traits _ => some 0
  | .constants _ => some 1
  | .properties _ => some 2
  | .method _ => some 3
  | .text => none

/-- Whether a member belongs to a section. -/
def inSection (r : Nat) (m : Member) : Bool := sectionOf? (outlineOf m.kind) == some r

/-- Members whose sections come one after the other. -/
def InSections (ms : List Member) : Prop :=
  ms.Pairwise fun m n => ∀ a ∈ sectionOf? (outlineOf m.kind),
    ∀ b ∈ sectionOf? (outlineOf n.kind), a ≤ b

instance (ms : List Member) : Decidable (InSections ms) :=
  inferInstanceAs (Decidable (List.Pairwise ..))

theorem isTraitUse_eq : isTraitUse = inSection 0 := by
  funext m
  unfold isTraitUse inSection
  cases m.kind <;> rfl

theorem isConstant_eq : isConstant = inSection 1 := by
  funext m
  unfold isConstant inSection
  cases m.kind <;> rfl

theorem isProperty_eq : isProperty = inSection 2 := by
  funext m
  unfold isProperty inSection
  cases m.kind <;> rfl

theorem inSections_iff_outlines {ms : List Member} :
    InSections ms ↔ (outlines ms).Pairwise fun o p =>
      ∀ a ∈ sectionOf? o, ∀ b ∈ sectionOf? p, a ≤ b := by
  rw [outlines, List.pairwise_map]
  rfl

theorem InSections.of_outlines_eq {ms ns : List Member} (h : InSections ms)
    (hout : outlines ns = outlines ms) : InSections ns := by
  rw [inSections_iff_outlines, hout, ← inSections_iff_outlines]
  exact h

theorem insertIdx_length_append {α : Type} (before after : List α) (a : α) :
    (before ++ after).insertIdx before.length a = before ++ a :: after := by
  induction before with
  | nil => rfl
  | cons b before ih => rw [List.cons_append, List.length_cons, List.insertIdx_succ_cons, ih]; rfl

/-- The place behind the last member that satisfies a condition, or that there is none. -/
theorem positionAfter?_spec (p : Member → Bool) (ms : List Member) :
    positionAfter? p ms = none ∧ (∀ m ∈ ms, p m = false) ∨
    ∃ front m after, ms = front ++ m :: after ∧ p m = true ∧ (∀ n ∈ after, p n = false) ∧
      positionAfter? p ms = some (front.length + 1) := by
  cases h : ms.reverse.findIdx? p with
  | none =>
    refine .inl ⟨by rw [positionAfter?, h]; rfl, fun m hm => ?_⟩
    exact List.findIdx?_eq_none_iff.1 h m (List.mem_reverse.2 hm)
  | some i =>
    obtain ⟨hlt, hp, hmin⟩ := List.findIdx?_eq_some_iff_getElem.1 h
    have hsplit := eq_take_append_cons_drop (List.getElem?_eq_getElem hlt)
    have hms : ms = (ms.reverse.drop (i + 1)).reverse ++ ms.reverse[i] ::
        (ms.reverse.take i).reverse := by
      conv_lhs => rw [← List.reverse_reverse ms, hsplit]
      simp
    refine .inr ⟨_, _, _, hms, hp, fun n hn => ?_, ?_⟩
    · obtain ⟨j, hj, rfl⟩ := List.mem_iff_getElem.1 (List.mem_reverse.1 hn)
      rw [List.length_take] at hj
      rw [List.getElem_take]
      simpa using hmin j (by omega)
    · rw [positionAfter?, h, Option.map_some, List.length_reverse, List.length_drop,
        List.length_reverse]
      rw [List.length_reverse] at hlt
      congr 1
      omega

/-- The conditions that look for the last member of a section, or else of the one before it. -/
def sectionsFrom : Nat → List (Member → Bool)
  | 0 => [inSection 0]
  | r + 1 => inSection (r + 1) :: sectionsFrom r

theorem placeAfter_cons_of_some {p : Member → Bool} {ps : List (Member → Bool)} {ms : List Member}
    {k : Nat} (h : positionAfter? p ms = some k) : placeAfter (p :: ps) ms = k := by
  rw [placeAfter, List.findSome?_cons, h]
  rfl

theorem placeAfter_cons_of_none {p : Member → Bool} {ps : List (Member → Bool)} {ms : List Member}
    (h : positionAfter? p ms = none) : placeAfter (p :: ps) ms = placeAfter ps ms := by
  rw [placeAfter, List.findSome?_cons, h]
  rfl

/-- A new member of section `r` is put at the front or right behind a member of some section
    `s ≤ r`, and no member of a section from `s` to `r` comes behind it. -/
theorem placeAfter_spec (r : Nat) (ms : List Member) :
    ∃ before after s, ms = before ++ after ∧ placeAfter (sectionsFrom r) ms = before.length ∧
      s ≤ r ∧ (before = [] ∧ s = 0 ∨ ∃ front m, before = front ++ [m] ∧ inSection s m = true) ∧
      ∀ m ∈ after, ∀ a ∈ sectionOf? (outlineOf m.kind), a < s ∨ r < a := by
  have other {s a : Nat} {m : Member} (hm : inSection s m = false)
      (ha : a ∈ sectionOf? (outlineOf m.kind)) : a ≠ s := by
    rintro rfl
    rw [inSection, Option.mem_def.1 ha, beq_self_eq_true] at hm
    cases hm
  -- What is found for section `r` itself is right for every list of further conditions.
  have found {r : Nat} {ps : List (Member → Bool)} {front after : List Member} {m : Member}
      (hms : ms = front ++ m :: after) (hm : inSection r m = true)
      (hafter : ∀ n ∈ after, inSection r n = false)
      (hk : positionAfter? (inSection r) ms = some (front.length + 1)) :
      ∃ before after s, ms = before ++ after ∧
        placeAfter (inSection r :: ps) ms = before.length ∧ s ≤ r ∧
        (before = [] ∧ s = 0 ∨ ∃ front m, before = front ++ [m] ∧ inSection s m = true) ∧
        ∀ m ∈ after, ∀ a ∈ sectionOf? (outlineOf m.kind), a < s ∨ r < a :=
    ⟨front ++ [m], after, r, by rw [hms]; simp, by rw [placeAfter_cons_of_some hk]; simp,
      Nat.le_refl r, .inr ⟨front, m, rfl, hm⟩, fun n hn a ha =>
        Nat.lt_or_gt_of_ne (other (hafter n hn) ha)⟩
  induction r with
  | zero =>
    rcases positionAfter?_spec (inSection 0) ms with
      ⟨hk, hnone⟩ | ⟨front, m, after, hms, hm, ha, hk⟩
    · refine ⟨[], ms, 0, rfl, placeAfter_cons_of_none hk, Nat.le_refl 0, .inl ⟨rfl, rfl⟩,
        fun m hm a ha => .inr ?_⟩
      exact Nat.pos_of_ne_zero (other (hnone m hm) ha)
    · exact found hms hm ha hk
  | succ r ih =>
    rcases positionAfter?_spec (inSection (r + 1)) ms with
      ⟨hk, hnone⟩ | ⟨front, m, after, hms, hm, ha, hk⟩
    · obtain ⟨before, after, s, hms, hplace, hs, hbefore, hafter⟩ := ih
      refine ⟨before, after, s, hms, (placeAfter_cons_of_none hk).trans hplace, by omega, hbefore,
        fun m hm a ha => ?_⟩
      have hne := other (hnone m (hms ▸ List.mem_append_right before hm)) ha
      have hafter := hafter m hm a ha
      omega
    · exact found hms hm ha hk

/-- A new member is put behind the members of its section and of earlier ones, and in front of
    those of later ones. -/
theorem InSections.insert {ms : List Member} (h : InSections ms) {r : Nat} {n : Member}
    (hn : sectionOf? (outlineOf n.kind) = some r) :
    InSections (ms.insertIdx (placeAfter (sectionsFrom r) ms) n) := by
  obtain ⟨before, after, s, rfl, hplace, hs, hbefore, hafter⟩ := placeAfter_spec r ms
  rw [hplace, insertIdx_length_append]
  obtain ⟨hfront, hback, hacross⟩ := List.pairwise_append.1 h
  have hle : ∀ m ∈ before, ∀ a ∈ sectionOf? (outlineOf m.kind), a ≤ r := by
    intro m hm a ha
    rcases hbefore with ⟨rfl, -⟩ | ⟨front, last, rfl, hlast⟩
    · cases hm
    · have hlast : sectionOf? (outlineOf last.kind) = some s := beq_iff_eq.1 hlast
      rcases List.mem_append.1 hm with hm | hm
      · exact Nat.le_trans ((List.pairwise_append.1 hfront).2.2 m hm last (by simp) a ha s hlast) hs
      · rw [List.mem_singleton.1 hm, hlast] at ha
        cases ha
        exact hs
  have hge : ∀ m ∈ after, ∀ a ∈ sectionOf? (outlineOf m.kind), r ≤ a := by
    intro m hm a ha
    rcases hafter m hm a ha with hlt | hlt
    · rcases hbefore with ⟨-, rfl⟩ | ⟨front, last, rfl, hlast⟩
      · exact absurd hlt (Nat.not_lt_zero a)
      · have := hacross last (by simp) m hm s (beq_iff_eq.1 hlast) a ha
        omega
    · exact Nat.le_of_lt hlt
  refine List.pairwise_append.2 ⟨hfront, List.pairwise_cons.2 ⟨fun m hm a ha b hb => ?_, hback⟩,
    fun m hm o ho a ha b hb => ?_⟩
  · rw [hn] at ha
    cases ha
    exact hge m hm b hb
  · rcases List.mem_cons.1 ho with rfl | ho
    · rw [hn] at hb
      cases hb
      exact hle m hm a ha
    · exact hacross m hm o ho a ha b hb

/-! ## Edits -/

/-- Members after edits: all of them in their places, and in the order of their kinds if they were
    before. -/
def Arranged (ms ns : List Member) : Prop :=
  (∃ place, InPlace place ms ns) ∧ (InSections ms → InSections ns)

theorem Arranged.refl (ms : List Member) : Arranged ms ms := ⟨⟨id, .refl ms⟩, id⟩

theorem Arranged.trans {ms ns os : List Member} (h₁ : Arranged ms ns) (h₂ : Arranged ns os) :
    Arranged ms os := by
  obtain ⟨⟨place, hplace⟩, horder⟩ := h₁
  obtain ⟨⟨place', hplace'⟩, horder'⟩ := h₂
  exact ⟨⟨place' ∘ place, hplace.trans hplace'⟩, fun h => horder' (horder h)⟩

theorem arranged_editFirst {s : Slot} {f : MemberKind → MemberKind}
    (hout : ∀ m, s.inMember m = true → outlineOf (f m.kind) = outlineOf m.kind)
    (ms : List Member) : Arranged ms (editFirst s.inMember (rewrite f) ms) :=
  ⟨⟨id, inPlace_editFirst hout ms⟩, fun h => h.of_outlines_eq
    (map_editFirst (fun m hm => by rw [kind_rewrite, hout m hm]) ms)⟩

theorem arranged_insert (r : Nat) (ms : List Member) {n : Member}
    (hn : sectionOf? (outlineOf n.kind) = some r) :
    Arranged ms (ms.insertIdx (placeAfter (sectionsFrom r) ms) n) := by
  refine ⟨⟨_, inPlace_insertIdx (fun i m hi hm _ hcomment => ?_) n⟩,
    fun h => h.insert hn⟩
  -- What stands in front of the new member belongs to a section, so it is no comment.
  obtain ⟨before, after, s, hms, hplace, -, hbefore, -⟩ := placeAfter_spec r ms
  rw [hplace] at hi
  rcases hbefore with ⟨rfl, -⟩ | ⟨front, last, rfl, hlast⟩
  · cases hi
  · have hlen : front.length = i := by simpa using hi
    have hget : ms[i]? = some last := by simp [hms, ← hlen]
    rw [hget] at hm
    cases hm
    rw [inSection, hcomment] at hlast
    cases hlast

theorem InSections.append_methods {ms : List Member} (h : InSections ms) (ds : List MethodDecl) :
    InSections (ms ++ ds.map fun d => .ofKind (.method d)) := by
  have hle : ∀ o : Outline, ∀ a ∈ sectionOf? o, a ≤ 3 := by
    intro o a ha
    cases o <;> cases ha <;> decide
  have hsection : ∀ m ∈ ds.map fun d => Member.ofKind (.method d),
      ∀ b ∈ sectionOf? (outlineOf m.kind), b = 3 := by
    intro m hm b hb
    obtain ⟨d, -, rfl⟩ := List.mem_map.1 hm
    cases hb
    rfl
  refine List.pairwise_append.2 ⟨h, List.pairwise_iff_forall_sublist.2 fun hsub a ha b hb => ?_,
    fun m _ n hn a ha b hb => ?_⟩
  · rw [hsection _ (hsub.subset (by simp)) b hb]
    exact hle _ a ha
  · rw [hsection n hn b hb]
    exact hle _ a ha

theorem arranged_append (ms : List Member) (ds : List MethodDecl) :
    Arranged ms (ms ++ ds.map fun d => .ofKind (.method d)) :=
  ⟨⟨id, inPlace_append ms _⟩, fun h => h.append_methods ds⟩

/-- A declaring edit keeps members in their places and in order. -/
theorem arranged_declare {policy : MergePolicy} {u : Upsert} (hu : Declaring policy u)
    (ms : List Member) : Arranged ms (u.apply ms) := by
  by_cases hany : ms.any u.slot.inMember = true
  · rw [Upsert.apply_of_any hany]
    exact arranged_editFirst (fun m hm => u.outline_write _ hm) ms
  · rw [Upsert.apply_of_not_any (by simpa using hany)]
    cases hu with
    | trait name =>
      simp only [Upsert.ofTrait, isTraitUse_eq]
      exact arranged_insert 0 ms rfl
    | constant decl entry =>
      simp only [Upsert.ofConstant, isTraitUse_eq, isConstant_eq]
      exact arranged_insert 1 ms rfl
    | property decl entry =>
      simp only [Upsert.ofProperty, isTraitUse_eq, isConstant_eq, isProperty_eq]
      exact arranged_insert 2 ms rfl
    | method d =>
      have happend : ms.insertIdx ms.length (.ofKind (.method d)) =
          ms ++ [d].map fun d => .ofKind (.method d) := by
        simp
      exact happend ▸ arranged_append ms [d]

/-- An edit keeps members in their places and in order. -/
theorem arranged_apply {className : String} {policy : MergePolicy} {ch : Change} {e : MemberEdit}
    (he : e ∈ memberEdits className policy ch) (ms : List Member) : Arranged ms (e.apply ms) := by
  cases e with
  | declare u => exact arranged_declare (declaring_of_mem he) ms
  | group ds =>
    rw [MemberEdit.apply]
    split
    · exact .refl ms
    · exact arranged_append ms ds
  | body method f => exact arranged_editFirst (fun m _ => outline_bodyWritten f m.kind) ms

theorem arranged_makeEdits {es : List MemberEdit} (h : ∀ e ∈ es, ∀ ms, Arranged ms (e.apply ms))
    (ms : List Member) : Arranged ms (makeEdits es ms) := by
  induction es generalizing ms with
  | nil => exact .refl ms
  | cons e es ih =>
    exact (h e (by simp) ms).trans (ih (fun e he => h e (List.mem_cons_of_mem _ he)) (e.apply ms))

theorem arranged_classRun (policy : MergePolicy) (set : ChangeSet) (c : ClassDecl) :
    Arranged c.members (classRun policy set c).1.value.members := by
  rw [classRun, makeAll_editOf_value]
  refine arranged_makeEdits (fun e he ms => ?_) c.members
  obtain ⟨ch, -, he⟩ := List.mem_flatMap.1 he
  exact arranged_apply he ms

/-! ## Merges -/

/-- A merge keeps the members of every class in their places, where what comes right behind a
    comment stays there, and in the order of their kinds. This holds of the class that the changes
    are for, which may be a new one, and of all classes that were there. -/
theorem merge_arranged {rules : MergeRules} {t : SourceTree} {set : ChangeSet}
    (h : (merge rules t set).applied = true) :
    (∃ d, (merge rules t set).tree.classNamed? set.target.name = some d ∧
      Arranged (classBefore t set.target).members d.members) ∧
    ∀ (i : Nat) (c : ClassDecl), t.items[i]? = some (.classItem c) →
      ∃ d : ClassDecl, (merge rules t set).tree.items[i]? = some (.classItem d) ∧
        Arranged c.members d.members := by
  refine ⟨⟨_, merge_classNamed? h, arranged_classRun rules.policy set _⟩, fun i c hc => ?_⟩
  obtain ⟨p, j, d, prepared, htree, -⟩ := merge_applied h
  have hitem : p.items[i]? = some (.classItem c) := by
    rcases prepared.items with hitems | ⟨-, -, hitems⟩
    · rw [hitems, hc]
    · rw [hitems, List.getElem?_append_left (List.getElem?_eq_some_iff.1 hc).1, hc]
  rw [htree]
  by_cases hij : j = i
  · subst hij
    have hd := prepared.target.2
    rw [hitem] at hd
    cases hd
    obtain ⟨hlt, -⟩ := List.getElem?_eq_some_iff.1 hitem
    exact ⟨_, by simp [withClass, withImports, hlt], arranged_classRun rules.policy set c⟩
  · refine ⟨c, ?_, .refl c.members⟩
    rw [withClass, withImports, List.getElem?_set_ne hij]
    exact hitem

/-- A class with a comment in front of its constant and one in front of its method. -/
def documentedFile : SourceTree :=
  { SourceTree.empty with
    items := [.classItem { ClassDecl.named "Basket" with
      members := [
        ⟨.comment, some ⟨"// limits", false⟩, none⟩,
        .ofKind (.constant ⟨some .priv, [("LIMIT", .int 1)]⟩),
        ⟨.comment, some ⟨"/** Puts it in. */", false⟩, none⟩,
        .ofKind (.method
          ⟨[], some .pub, false, false, false, false, "add", [], some "void", some []⟩)] }] }

/-- A member of each kind for that class. -/
def basketSet : ChangeSet :=
  ⟨"", .finalClass "Basket",
    [.method ⟨[], some .pub, false, false, false, false, "remove", [], some "void", some []⟩,
      .property ⟨some .priv, false, false, some "array", [("items", some (.list []))]⟩,
      .constant ⟨some .pub, [("LIMIT", .int 2), ("EMPTY", .int 0)]⟩,
      .traitUse "Countable",
      .statements "add" [.ofExpr (.call "register" [])]]⟩

theorem merge_arranged_basketSet :
    (merge ⟨.replace, false⟩ documentedFile basketSet).applied = true ∧
      ∃ d, (merge ⟨.replace, false⟩ documentedFile basketSet).tree.classNamed? "Basket" = some d ∧
        Arranged (classBefore documentedFile basketSet.target).members d.members ∧
        InSections d.members := by
  have h : (merge ⟨.replace, false⟩ documentedFile basketSet).applied = true := by decide
  obtain ⟨d, hd, harranged⟩ := (merge_arranged h).1
  exact ⟨h, d, hd, harranged, harranged.2 (by decide)⟩

end DomainScaffold.Merge
