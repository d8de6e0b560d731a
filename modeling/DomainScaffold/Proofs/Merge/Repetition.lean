import DomainScaffold.Proofs.Merge.Absorption
import DomainScaffold.Proofs.Merge.Growth

/-!
# Making all edits of a class again

Behind the declarations of a change set come its injections. Made again, the declarations may set a
method back; then it gets the same statements and entries again. Otherwise these are there already.

Results:
* `makeEdits_pin`: edits of names that are there, seen from one method.
* `kindSteps_cases`: in a row, they set the method back or only let it grow.
* `makeEdits_repeat`: all edits made again change nothing.
-/

namespace DomainScaffold.Merge

open Php

/-! ## Edits in place -/

/-- The name of the member that an edit rewrites if it is there. -/
def MemberEdit.target? : MemberEdit → Option Slot
  | .declare u => some u.slot
  | .group _ => none
  | .body method _ => some (.method method)

/-- How an edit rewrites that member. -/
def MemberEdit.write : MemberEdit → MemberKind → MemberKind
  | .declare u => u.write
  | .group _ => id
  | .body _ f => bodyWritten f

/-- What an edit of names that are there makes of a member, if that is the one it looks for. -/
def kindStep (e : MemberEdit) (k : MemberKind) : MemberKind :=
  match e.target? with
  | none => k
  | some s => if s.fits (outlineOf k) then e.write k else k

theorem kindStep_of_fits {e : MemberEdit} {s : Slot} (hs : e.target? = some s) {k : MemberKind}
    (h : s.fits (outlineOf k) = true) : kindStep e k = e.write k := by
  simp [kindStep, hs, h]

theorem kindStep_of_not_fits {e : MemberEdit} {s : Slot} (hs : e.target? = some s)
    {k : MemberKind} (h : s.fits (outlineOf k) = false) : kindStep e k = k := by
  simp [kindStep, hs, h]

theorem apply_of_target? {e : MemberEdit} {s : Slot} (hs : e.target? = some s) {ms : List Member}
    (h : Has e ms) : e.apply ms = editFirst s.inMember (rewrite e.write) ms := by
  cases e with
  | declare u =>
    cases hs
    exact Upsert.apply_of_any h
  | group _ => cases hs
  | body _ _ =>
    cases hs
    rfl

theorem apply_of_no_target {e : MemberEdit} (hs : e.target? = none) {ms : List Member}
    (h : Has e ms) : e.apply ms = ms := by
  cases e with
  | group ds => exact group_apply_of_has h
  | _ => cases hs

theorem outline_write {e : MemberEdit} {s : Slot} (hs : e.target? = some s) {k : MemberKind}
    (h : s.fits (outlineOf k) = true) : outlineOf (e.write k) = outlineOf k := by
  cases e with
  | declare u =>
    cases hs
    exact u.outline_write k h
  | group _ => cases hs
  | body _ f => exact outline_bodyWritten f k

theorem outline_kindStep (e : MemberEdit) (k : MemberKind) :
    outlineOf (kindStep e k) = outlineOf k := by
  cases hs : e.target? with
  | none => rw [kindStep, hs]
  | some s =>
    cases h : s.fits (outlineOf k) with
    | true => rw [kindStep_of_fits hs h, outline_write hs h]
    | false => rw [kindStep_of_not_fits hs h]

theorem inMember_rewrite_kindStep (e : MemberEdit) (s : Slot) (m : Member) :
    s.inMember (rewrite (kindStep e) m) = s.inMember m := by
  rw [Slot.inMember, kind_rewrite, outline_kindStep, Slot.inMember]

/-! ## One method -/

theorem outline_of_method {name : String} {m : Member}
    (h : (Slot.method name).inMember m = true) :
    outlineOf m.kind = .method (Text.foldAscii name) := by
  unfold Slot.inMember at h
  cases hk : outlineOf m.kind with
  | method other =>
    rw [hk] at h
    rw [beq_iff_eq.1 h]
  | _ => rw [hk] at h; cases h

/-- A name that a method has is the name of the method. -/
theorem inMember_eq_of_fits {s : Slot} {name : String} {m : Member}
    (hm : (Slot.method name).inMember m = true) (hs : s.inMember m = true) :
    s.inMember = (Slot.method name).inMember := by
  rw [Slot.inMember, outline_of_method hm] at hs
  cases s with
  | method other =>
    have := beq_iff_eq.1 hs
    funext n
    unfold Slot.inMember
    cases outlineOf n.kind <;> simp [Slot.fits, this]
  | _ => cases hs

theorem not_inMember_of_not_fits {s : Slot} {name : String} {m n : Member}
    (hm : (Slot.method name).inMember m = true) (hn : (Slot.method name).inMember n = true)
    (hs : s.inMember m = false) : s.inMember n = false := by
  rwa [Slot.inMember, outline_of_method hn, ← outline_of_method hm, ← Slot.inMember]

/-- The members with another one in the place of the method with a name. -/
def pin (name : String) (n : Member) (ms : List Member) : List Member :=
  editFirst (Slot.method name).inMember (fun _ => n) ms

section Pin

variable {name : String} {n : Member} {ms : List Member}

theorem outlines_pin (hn : (Slot.method name).inMember n = true) :
    outlines (pin name n ms) = outlines ms :=
  map_editFirst (fun m hm => by rw [outline_of_method hn, outline_of_method hm]) ms

theorem find?_pin (hn : (Slot.method name).inMember n = true)
    (h : ms.any (Slot.method name).inMember = true) :
    (pin name n ms).find? (Slot.method name).inMember = some n := by
  rw [pin, find?_editFirst_self fun _ _ => hn]
  obtain ⟨m, hm⟩ := find?_of_any h
  rw [hm, Option.map_some]

theorem pin_of_find? (h : ms.find? (Slot.method name).inMember = some n) : pin name n ms = ms :=
  (editFirst_eq_self_iff h).2 rfl

/-- An edit of names that are there, seen from one method. -/
theorem apply_pin {e : MemberEdit} (hn : (Slot.method name).inMember n = true) (h : Has e ms) :
    e.apply (pin name n ms) = pin name (rewrite (kindStep e) n) (e.apply ms) := by
  have h' : Has e (pin name n ms) := (has_congr (outlines_pin hn)).2 h
  cases hs : e.target? with
  | none =>
    rw [apply_of_no_target hs h, apply_of_no_target hs h', rewrite_of_eq (by rw [kindStep, hs])]
  | some s =>
    rw [apply_of_target? hs h, apply_of_target? hs h']
    cases hfit : s.inMember n with
    | true =>
      have hstep : rewrite (kindStep e) n = rewrite e.write n := by
        rw [rewrite, rewrite, kindStep_of_fits hs hfit]
      rw [hstep, inMember_eq_of_fits hn hfit, pin, pin, editFirst_editFirst fun _ _ => hn,
        editFirst_editFirst fun m hm => ?_]
      rw [Slot.inMember, kind_rewrite, outline_write hs, ← Slot.inMember]
      · exact hm
      · rw [← Slot.inMember, inMember_eq_of_fits hn hfit]
        exact hm
    | false =>
      rw [rewrite_of_eq (kindStep_of_not_fits hs hfit), pin, pin]
      refine editFirst_comm (fun m hm => ?_) (fun m hm => ?_) (fun m hm => ?_) ms
      · rw [Slot.inMember, kind_rewrite, outline_write hs hm, ← Slot.inMember]
      · rw [hfit, not_inMember_of_not_fits hn hm hfit]
      · by_contra hne
        rw [Bool.not_eq_false] at hne
        rw [not_inMember_of_not_fits hn hne hfit] at hm
        cases hm

/-- What edits of names that are there make of a member in a row. -/
def memberSteps (es : List MemberEdit) (n : Member) : Member :=
  es.foldl (fun n e => rewrite (kindStep e) n) n

/-- What they make of its kind. -/
def kindSteps (es : List MemberEdit) (k : MemberKind) : MemberKind :=
  es.foldl (fun k e => kindStep e k) k

theorem inMember_memberSteps (es : List MemberEdit) (s : Slot) (m : Member) :
    s.inMember (memberSteps es m) = s.inMember m := by
  induction es generalizing m with
  | nil => rfl
  | cons e es ih => exact (ih _).trans (inMember_rewrite_kindStep e s m)

theorem outline_kindSteps (es : List MemberEdit) (k : MemberKind) :
    outlineOf (kindSteps es k) = outlineOf k := by
  induction es generalizing k with
  | nil => rfl
  | cons e es ih => exact (ih _).trans (outline_kindStep e k)

theorem kind_memberSteps (es : List MemberEdit) (n : Member) :
    (memberSteps es n).kind = kindSteps es n.kind := by
  induction es generalizing n with
  | nil => rfl
  | cons e es ih =>
    refine (ih _).trans ?_
    rw [kind_rewrite]
    rfl

/-- What is written from its fields stays so. -/
theorem memberSteps_touched (es : List MemberEdit) (k : MemberKind) (trailing : Option String) :
    memberSteps es ⟨k, none, trailing⟩ = ⟨kindSteps es k, none, trailing⟩ := by
  induction es generalizing k with
  | nil => rfl
  | cons e es ih =>
    refine Eq.trans ?_ (ih (kindStep e k))
    show memberSteps es (rewrite (kindStep e) ⟨k, none, trailing⟩) = _
    congr 1
    by_cases h : kindStep e k = k
    · rw [rewrite_of_eq h, h]
    · rw [rewrite_of_ne h]

/-- Edits of names that are there, seen from one method. -/
theorem makeEdits_pin {es : List MemberEdit} (hn : (Slot.method name).inMember n = true)
    (h : ∀ e ∈ es, Has e ms) :
    makeEdits es (pin name n ms) = pin name (memberSteps es n) (makeEdits es ms) := by
  induction es generalizing n ms with
  | nil => rfl
  | cons e es ih =>
    have hn' : (Slot.method name).inMember (rewrite (kindStep e) n) = true := by
      rwa [inMember_rewrite_kindStep]
    show makeEdits es (e.apply (pin name n ms)) = _
    rw [apply_pin hn (h e (by simp))]
    exact ih hn' fun d hd => has_apply e (h d (List.mem_cons_of_mem _ hd))

end Pin

/-! ## What becomes of a method -/

/-- Whether a kind is a method with a name. -/
def IsMethod (name : String) (k : MemberKind) : Prop := (Slot.method name).fits (outlineOf k) = true

/-- The method with a name is replaced by a fixed one, whatever it was. -/
def Sets (name : String) (h : MemberKind → MemberKind) : Prop :=
  ∃ fixed, ∀ k, IsMethod name k → h k = fixed

/-- The body of the method with a name grows, but only once. -/
def Feeds (name : String) (h : MemberKind → MemberKind) : Prop :=
  ∃ f, GrowsOnce f ∧ ∀ k, IsMethod name k → h k = bodyWritten f k

theorem bodyWritten_id (k : MemberKind) : bodyWritten id k = k := by
  cases k <;> simp [bodyWritten]

theorem feeds_of_id {name : String} {h : MemberKind → MemberKind}
    (hid : ∀ k, IsMethod name k → h k = k) : Feeds name h :=
  ⟨id, growsOnce_id, fun k hk => by rw [hid k hk, bodyWritten_id]⟩

theorem isMethod_kindSteps {name : String} (es : List MemberEdit) {k : MemberKind}
    (h : IsMethod name k) : IsMethod name (kindSteps es k) := by
  rwa [IsMethod, outline_kindSteps]

theorem isMethod_kindStep {name : String} (e : MemberEdit) {k : MemberKind}
    (h : IsMethod name k) : IsMethod name (kindStep e k) := by
  rwa [IsMethod, outline_kindStep]

section Steps

variable {name : String} {es : List MemberEdit}

/-- Edits that only feed a method feed it in a row. -/
theorem feeds_kindSteps (h : ∀ e ∈ es, Feeds name (kindStep e)) : Feeds name (kindSteps es) := by
  induction es with
  | nil => exact feeds_of_id fun _ _ => rfl
  | cons e es ih =>
    obtain ⟨f, hf, hfe⟩ := h e (by simp)
    obtain ⟨g, hg, hge⟩ := ih fun d hd => h d (List.mem_cons_of_mem _ hd)
    refine ⟨_, hf.comp hg, fun k hk => ?_⟩
    show kindSteps es (kindStep e k) = _
    rw [hge _ (isMethod_kindStep e hk), hfe k hk, bodyWritten_bodyWritten]

/-- In a row, edits set the method back or only let it grow. -/
theorem kindSteps_cases (h : ∀ e ∈ es, Sets name (kindStep e) ∨ Feeds name (kindStep e)) :
    Sets name (kindSteps es) ∨ Feeds name (kindSteps es) := by
  induction es with
  | nil => exact .inr (feeds_of_id fun _ _ => rfl)
  | cons e es ih =>
    rcases ih fun d hd => h d (List.mem_cons_of_mem _ hd) with ⟨fixed, hs⟩ | ⟨g, hg, hge⟩
    · exact .inl ⟨fixed, fun k hk => hs _ (isMethod_kindStep e hk)⟩
    · rcases h e (by simp) with ⟨fixed, hs⟩ | ⟨f, hf, hfe⟩
      · refine .inl ⟨kindSteps es fixed, fun k hk => ?_⟩
        show kindSteps es (kindStep e k) = _
        rw [hs k hk]
      · refine .inr ⟨_, hf.comp hg, fun k hk => ?_⟩
        show kindSteps es (kindStep e k) = _
        rw [hge _ (isMethod_kindStep e hk), hfe k hk, bodyWritten_bodyWritten]

/-- An addition to a method that the edits before it leave as it is need not be made before
    them. -/
theorem bodyWritten_kindSteps (h : ∀ e ∈ es, Sets name (kindStep e) ∨ Feeds name (kindStep e))
    {f : List Statement → List Statement} (hf : GrowsOnce f) {k : MemberKind}
    (hk : IsMethod name k) (hself : kindSteps es k = k) :
    bodyWritten f (kindSteps es (bodyWritten f k)) = bodyWritten f k := by
  have hk' : IsMethod name (bodyWritten f k) := by rwa [IsMethod, outline_bodyWritten]
  rcases kindSteps_cases h with ⟨fixed, hs⟩ | ⟨g, hg, hge⟩
  · rw [hs _ hk', ← hs _ hk, hself]
  · rw [hge k hk] at hself
    rw [hge _ hk', hg.bodyWritten_stays hf hself, hf.bodyWritten_again]

theorem rewrite_memberSteps (h : ∀ e ∈ es, Sets name (kindStep e) ∨ Feeds name (kindStep e))
    {f : List Statement → List Statement} (hf : GrowsOnce f) {n : Member}
    (hn : (Slot.method name).inMember n = true) (hself : memberSteps es n = n) :
    rewrite (bodyWritten f) (memberSteps es (rewrite (bodyWritten f) n)) =
      rewrite (bodyWritten f) n := by
  have hkind : kindSteps es n.kind = n.kind := by rw [← kind_memberSteps, hself]
  by_cases hw : bodyWritten f n.kind = n.kind
  · rw [rewrite_of_eq hw, hself, rewrite_of_eq hw]
  · have hlaw := bodyWritten_kindSteps h hf hn hkind
    rw [rewrite_of_ne hw, memberSteps_touched]
    by_cases hk : bodyWritten f (kindSteps es (bodyWritten f n.kind)) =
        kindSteps es (bodyWritten f n.kind)
    · rw [rewrite_of_eq hk, ← hk, hlaw]
    · rw [rewrite_of_ne hk, hlaw]

end Steps

/-! ## All edits -/

/-- The additions behind the declarations need not be made before them. -/
theorem makeEdits_body_absorb {es : List MemberEdit} {method : String}
    {f : List Statement → List Statement} (hf : GrowsOnce f)
    (h : ∀ e ∈ es, Sets method (kindStep e) ∨ Feeds method (kindStep e)) {ms : List Member}
    (hhas : ∀ e ∈ es, Has e ms) (hself : makeEdits es ms = ms) :
    (MemberEdit.body method f).apply (makeEdits es ((MemberEdit.body method f).apply ms)) =
      (MemberEdit.body method f).apply ms := by
  by_cases hany : ms.any (Slot.method method).inMember = true
  · obtain ⟨n, hn⟩ := find?_of_any hany
    have hfit : (Slot.method method).inMember n = true := List.find?_some hn
    have happ : ∀ m, (Slot.method method).inMember m = true →
        (MemberEdit.body method f).apply (pin method m ms) =
          pin method (rewrite (bodyWritten f) m) ms := fun m hm => by
      rw [MemberEdit.apply, pin, pin, editFirst_editFirst fun _ _ => hm]
    have hfit' : (Slot.method method).inMember (rewrite (bodyWritten f) n) = true := by
      rwa [Slot.inMember, kind_rewrite, outline_bodyWritten]
    have hsteps : memberSteps es n = n := by
      have hpin := makeEdits_pin hfit hhas
      rw [pin_of_find? hn, hself] at hpin
      have hfind : (pin method (memberSteps es n) ms).find? (Slot.method method).inMember =
          some (memberSteps es n) := find?_pin ((inMember_memberSteps es _ n).trans hfit) hany
      rw [← hpin, hn] at hfind
      exact (Option.some.inj hfind).symm
    have hms : ms = pin method n ms := (pin_of_find? hn).symm
    rw [hms, happ n hfit, makeEdits_pin hfit' hhas, hself,
      happ _ ((inMember_memberSteps es _ _).trans hfit'), rewrite_memberSteps h hf hfit hsteps]
  · rw [Bool.not_eq_true] at hany
    have happ : (MemberEdit.body method f).apply ms = ms := editFirst_of_any_eq_false hany
    rw [happ, hself, happ]

/-- An edit that adds to a body, but only once. -/
def AddsOnce (e : MemberEdit) : Prop := ∃ method f, e = .body method f ∧ GrowsOnce f

/-- All edits made again change nothing. -/
theorem makeEdits_repeat {ws js : List MemberEdit}
    (hw : ∀ ms, makeEdits ws (makeEdits ws ms) = makeEdits ws ms) (hj : ∀ e ∈ js, AddsOnce e)
    (hsteps : ∀ e ∈ ws ++ js, ∀ name, Sets name (kindStep e) ∨ Feeds name (kindStep e))
    (ms : List Member) :
    makeEdits (ws ++ js) (makeEdits (ws ++ js) ms) = makeEdits (ws ++ js) ms := by
  induction js using List.reverseRecOn with
  | nil =>
    rw [List.append_nil]
    exact hw ms
  | append_singleton js e ih =>
    have hmem : ∀ d ∈ ws ++ js, d ∈ ws ++ (js ++ [e]) := fun d hd => by
      rw [← List.append_assoc]
      exact List.mem_append_left _ hd
    have ih := ih (fun d hd => hj d (List.mem_append_left _ hd))
      (fun d hd => hsteps d (hmem d hd))
    obtain ⟨method, f, rfl, hf⟩ := hj e (by simp)
    have hlast : ∀ ns, makeEdits (ws ++ (js ++ [.body method f])) ns =
        (MemberEdit.body method f).apply (makeEdits (ws ++ js) ns) := fun ns => by
      rw [← List.append_assoc, makeEdits_append]
      rfl
    rw [hlast, hlast]
    exact makeEdits_body_absorb hf (fun d hd => hsteps d (hmem d hd) method)
      (fun d hd => has_makeEdits_self hd ms) ih

/-! ## The changes of a set -/

/-- The statements that a change injects. -/
def injectedStatements : Change → List Statement
  | .statements _ ss => ss
  | _ => []

/-- A change that only injects statements which are known by a call. -/
def OnlyRegisters (ch : Change) : Prop := ∀ s ∈ injectedStatements ch, Registers s

instance (ch : Change) : Decidable (OnlyRegisters ch) :=
  inferInstanceAs (Decidable (∀ s ∈ injectedStatements ch, Registers s))

/-- The changes behind which the injections are made. -/
def declarations (changes : List Change) : List Change :=
  [Pass.interfaces, .traits, .constants, .properties, .methods].flatMap (ofPass changes)

theorem ordered_eq (changes : List Change) :
    ordered changes = declarations changes ++ ofPass changes .injections := by
  simp [ordered, declarations, Pass.inClass]

section Changes

variable {className : String} {policy : MergePolicy} {ch : Change} {e : MemberEdit}

theorem addsOnce_of_mem (hch : OnlyRegisters ch) (hp : ch.pass = .injections)
    (he : e ∈ memberEdits className policy ch) : AddsOnce e := by
  cases ch with
  | statements method ss =>
    rw [memberEdits, List.mem_singleton] at he
    exact ⟨method, _, he, growsOnce_injected hch⟩
  | mapEntry method key value =>
    rw [memberEdits, List.mem_singleton] at he
    exact ⟨method, _, he, growsOnce_injectEntry _ key value⟩
  | _ => cases hp

theorem declares_of_mem (hp : ch.pass ≠ .injections) (he : e ∈ memberEdits className policy ch) :
    Declares e := by
  cases ch with
  | statements _ _ => exact absurd rfl hp
  | mapEntry _ _ _ => exact absurd rfl hp
  | constant decl =>
    obtain ⟨entry, _, rfl⟩ := List.mem_map.1 he
    trivial
  | property decl =>
    obtain ⟨entry, _, rfl⟩ := List.mem_map.1 he
    trivial
  | traitUse _ | method _ | methodGroup _ =>
    rw [memberEdits, List.mem_singleton] at he
    subst he
    trivial
  | _ => simp [memberEdits] at he

theorem pass_ne_injections_of_mem {changes : List Change} (h : ch ∈ declarations changes) :
    ch.pass ≠ .injections := by
  obtain ⟨p, hp, hch⟩ := List.mem_flatMap.1 h
  rw [pass_of_mem_ofPass hch]
  rintro rfl
  simp at hp

/-- An edit of a name of another kind leaves methods as they are. -/
theorem feeds_of_target? {name : String} {s : Slot} (hs : e.target? = some s)
    (h : ∀ k, IsMethod name k → s.fits (outlineOf k) = false) : Feeds name (kindStep e) :=
  feeds_of_id fun k hk => kindStep_of_not_fits hs (h k hk)

theorem fits_method_iff {name other : String} {k : MemberKind} (hk : IsMethod name k) :
    (Slot.method other).fits (outlineOf k) =
      (Text.foldAscii name == Text.foldAscii other) := by
  cases k with
  | method d =>
    have := beq_iff_eq.1 hk
    simp [outlineOf, Slot.fits, this]
  | _ => cases hk

theorem sets_or_feeds_of_declaring {u : Upsert} (hu : Declaring policy u) (name : String) :
    Sets name (kindStep (.declare u)) ∨ Feeds name (kindStep (.declare u)) := by
  cases hu with
  | method d =>
    by_cases hname : (Text.foldAscii name == Text.foldAscii d.name) = true
    · cases policy with
      | preserve =>
        exact .inr (feeds_of_id fun k hk =>
          kindStep_of_fits (e := .declare (.ofMethod .preserve d)) rfl
            ((fits_method_iff hk).trans hname))
      | replace =>
        refine .inl ⟨.method d, fun k hk => ?_⟩
        rw [kindStep_of_fits (e := .declare (.ofMethod .replace d)) rfl
          ((fits_method_iff hk).trans hname)]
        cases k with
        | method _ => rfl
        | _ => cases hk
    · rw [Bool.not_eq_true] at hname
      exact .inr (feeds_of_target? (s := .method d.name) rfl fun k hk =>
        (fits_method_iff hk).trans hname)
  | trait other =>
    exact .inr (feeds_of_target? (s := .trait other) rfl fun k hk => by
      cases k with
      | method _ => rfl
      | _ => cases hk)
  | constant _ entry =>
    exact .inr (feeds_of_target? (s := .constant entry.1) rfl fun k hk => by
      cases k with
      | method _ => rfl
      | _ => cases hk)
  | property _ entry =>
    exact .inr (feeds_of_target? (s := .property entry.1) rfl fun k hk => by
      cases k with
      | method _ => rfl
      | _ => cases hk)

theorem feeds_body {f : List Statement → List Statement} (hf : GrowsOnce f) (method name : String) :
    Feeds name (kindStep (.body method f)) := by
  by_cases hname : (Text.foldAscii name == Text.foldAscii method) = true
  · exact ⟨f, hf, fun k hk => kindStep_of_fits (e := .body method f) rfl
      ((fits_method_iff hk).trans hname)⟩
  · rw [Bool.not_eq_true] at hname
    exact feeds_of_target? (s := .method method) rfl fun k hk => (fits_method_iff hk).trans hname

theorem AddsOnce.feeds (h : AddsOnce e) (name : String) : Feeds name (kindStep e) := by
  obtain ⟨method, f, rfl, hf⟩ := h
  exact feeds_body hf method name

theorem sets_or_feeds_of_mem (hch : OnlyRegisters ch) (he : e ∈ memberEdits className policy ch)
    (name : String) : Sets name (kindStep e) ∨ Feeds name (kindStep e) := by
  cases e with
  | declare u => exact sets_or_feeds_of_declaring (declaring_of_mem he) name
  | group ds => exact .inr (feeds_of_id fun _ _ => rfl)
  | body method f =>
    have hp : ch.pass = .injections := by
      by_contra hp
      exact declares_of_mem hp he
    exact .inr ((addsOnce_of_mem hch hp he).feeds name)

end Changes

/-- The edits of the members that come before the injections. -/
def declarationEdits (className : String) (policy : MergePolicy) (changes : List Change) :
    List MemberEdit :=
  (declarations changes).flatMap (memberEdits className policy)

/-- The edits of the members that injections make. -/
def injectionEdits (className : String) (policy : MergePolicy) (changes : List Change) :
    List MemberEdit :=
  (ofPass changes .injections).flatMap (memberEdits className policy)

section Edits

variable {className : String} {policy : MergePolicy} {changes : List Change} {e : MemberEdit}

theorem edits_eq : (ordered changes).flatMap (memberEdits className policy) =
    declarationEdits className policy changes ++ injectionEdits className policy changes := by
  rw [ordered_eq, List.flatMap_append]
  rfl

theorem mem_of_mem_declarations {ch : Change} (h : ch ∈ declarations changes) : ch ∈ changes :=
  mem_of_mem_ordered (by rw [ordered_eq]; exact List.mem_append_left _ h)

theorem mem_of_mem_ofPass {ch : Change} {p : Pass} (h : ch ∈ ofPass changes p) : ch ∈ changes :=
  (List.mem_filter.1 h).1

theorem declares_of_mem_edits (he : e ∈ declarationEdits className policy changes) :
    Declares e := by
  obtain ⟨ch, hch, he⟩ := List.mem_flatMap.1 he
  exact declares_of_mem (pass_ne_injections_of_mem hch) he

theorem declarationEdits_again (ms : List Member) :
    makeEdits (declarationEdits className policy changes)
        (makeEdits (declarationEdits className policy changes) ms) =
      makeEdits (declarationEdits className policy changes) ms := by
  refine makeEdits_makeEdits (fun _ => declares_of_mem_edits) (fun e he d hd => ?_) ms
  obtain ⟨ch, _, he⟩ := List.mem_flatMap.1 he
  obtain ⟨ch', _, hd⟩ := List.mem_flatMap.1 hd
  exact absorbs_memberEdits he hd

theorem addsOnce_of_mem_edits (h : ∀ ch ∈ changes, OnlyRegisters ch)
    (he : e ∈ injectionEdits className policy changes) : AddsOnce e := by
  obtain ⟨ch, hch, he⟩ := List.mem_flatMap.1 he
  exact addsOnce_of_mem (h ch (mem_of_mem_ofPass hch)) (pass_of_mem_ofPass hch) he

theorem sets_or_feeds_of_mem_edits (h : ∀ ch ∈ changes, OnlyRegisters ch)
    (he : e ∈ declarationEdits className policy changes) (name : String) :
    Sets name (kindStep e) ∨ Feeds name (kindStep e) := by
  obtain ⟨ch, hch, he⟩ := List.mem_flatMap.1 he
  exact sets_or_feeds_of_mem (h ch (mem_of_mem_declarations hch)) he name

/-- The changes of a class made again change none of its members. -/
theorem edits_again (h : ∀ ch ∈ changes, OnlyRegisters ch) (ms : List Member) :
    makeEdits ((ordered changes).flatMap (memberEdits className policy))
        (makeEdits ((ordered changes).flatMap (memberEdits className policy)) ms) =
      makeEdits ((ordered changes).flatMap (memberEdits className policy)) ms := by
  rw [edits_eq]
  refine makeEdits_repeat declarationEdits_again (fun _ => addsOnce_of_mem_edits h)
    (fun e he name => ?_) ms
  rcases List.mem_append.1 he with he | he
  · exact sets_or_feeds_of_mem_edits h he name
  · exact .inr ((addsOnce_of_mem_edits h he).feeds name)

end Edits

end DomainScaffold.Merge
