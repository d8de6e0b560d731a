import DomainScaffold.Proofs.Merge.Members

/-!
# Edits of method bodies

What the injections make of the body of a method: statements are added at its end, and entries at
the end of the array that it returns last.

Results:
* `foldl_injected`: statements are only added behind those that are there.
* `injectEntry_of_last`, `injectEntry_of_none`: where an entry goes.
* `editBody_eq`: an injection as a rewrite of one member.
-/

namespace DomainScaffold.Merge

open Php

/-! ## Statements at the end -/

/-- A statement that is known by a call. -/
def Registers (s : Statement) : Prop := (statementIdentity? s).isSome = true

instance (s : Statement) : Decidable (Registers s) := inferInstanceAs (Decidable (_ = true))

theorem isPresent_of_identity {s : Statement} {i : String × String}
    (h : statementIdentity? s = some i) (body : List Statement) :
    isPresent body s = body.any fun t => statementIdentity? t == some i := by
  unfold statementIdentity? at h
  unfold isPresent Statement.expression?
  cases hk : s.kind with
  | expression e =>
    rw [hk] at h
    simp [show callIdentity? e = some i from h]
  | _ => rw [hk] at h; cases h

theorem isPresent_of_mem {s : Statement} (hs : Registers s) {body : List Statement}
    (h : s ∈ body) : isPresent body s = true := by
  obtain ⟨i, hi⟩ := Option.isSome_iff_exists.1 hs
  rw [isPresent_of_identity hi]
  exact List.any_eq_true.2 ⟨s, h, by simp [hi]⟩

theorem not_isReturn_of_registers {s : Statement} (hs : Registers s) : isReturn s = false := by
  unfold Registers statementIdentity? at hs
  unfold isReturn
  cases hk : s.kind with
  | ret _ => rw [hk] at hs; cases hs
  | _ => rfl

theorem injected_of_present {s : Statement} {body : List Statement}
    (h : isPresent body s = true) : injected s body = .kept body :=
  if_pos h

theorem injected_of_not_present {s : Statement} {body : List Statement}
    (h : isPresent body s = false) : injected s body = .replaced (body ++ [s]) :=
  if_neg (by simp [h])

/-- Statements are only added behind those that are there. -/
theorem foldl_injected (body ss : List Statement) :
    ∃ added, (Edited.foldl injected body ss).value = body ++ added ∧ added.Sublist ss ∧
      ((Edited.foldl injected body ss).changed = true ↔ added ≠ []) := by
  induction ss generalizing body with
  | nil => exact ⟨[], by simp [Edited.foldl, Edited.kept]⟩
  | cons s ss ih =>
    by_cases hp : isPresent body s = true
    · obtain ⟨added, hv, hsub, hc⟩ := ih body
      refine ⟨added, ?_, hsub.cons s, ?_⟩
      · simp [Edited.foldl, injected_of_present hp, Edited.kept, hv]
      · simp [Edited.foldl, injected_of_present hp, Edited.kept, hc]
    · rw [Bool.not_eq_true] at hp
      obtain ⟨added, hv, hsub, _⟩ := ih (body ++ [s])
      refine ⟨s :: added, ?_, hsub.cons_cons s, ?_⟩
      · simp [Edited.foldl, injected_of_not_present hp, Edited.replaced, hv]
      · simp [Edited.foldl, injected_of_not_present hp, Edited.replaced]

/-! ## The last return -/

/-- Whether a list of statements has no return. -/
def NoReturn (ss : List Statement) : Prop := ∀ s ∈ ss, isReturn s = false

theorem noReturn_or_last (body : List Statement) :
    NoReturn body ∨ ∃ before s after,
      body = before ++ s :: after ∧ isReturn s = true ∧ NoReturn after := by
  induction body with
  | nil => exact .inl fun s hs => by cases hs
  | cons t body ih =>
    rcases ih with h | ⟨before, s, after, rfl, hs, ha⟩
    · by_cases ht : isReturn t = true
      · exact .inr ⟨[], t, body, rfl, ht, h⟩
      · refine .inl fun s hs => ?_
        rcases List.mem_cons.1 hs with rfl | hs
        · simpa using ht
        · exact h s hs
    · exact .inr ⟨t :: before, s, after, rfl, hs, ha⟩

/-- The last return of a body. -/
def lastReturn? (body : List Statement) : Option StatementKind :=
  (body.reverse.find? isReturn).map Statement.kind

theorem lastReturn?_of_none {body : List Statement} (h : NoReturn body) :
    lastReturn? body = none := by
  rw [lastReturn?, List.find?_eq_none.2 fun s hs => by simp [h s (List.mem_reverse.1 hs)]]
  rfl

theorem lastReturn?_of_last {before after : List Statement} {s : Statement}
    (hs : isReturn s = true) (ha : NoReturn after) :
    lastReturn? (before ++ s :: after) = some s.kind := by
  have hn : after.reverse.find? isReturn = none :=
    List.find?_eq_none.2 fun t ht => by simp [ha t (List.mem_reverse.1 ht)]
  simp [lastReturn?, List.find?_append, hn, hs]

theorem lastReturn?_concat (body : List Statement) {s : Statement} (hs : isReturn s = true) :
    lastReturn? (body ++ [s]) = some s.kind :=
  lastReturn?_of_last hs fun _ h => by cases h

theorem lastReturn?_append {body added : List Statement} (h : NoReturn added) :
    lastReturn? (body ++ added) = lastReturn? body := by
  have hn : added.reverse.find? isReturn = none :=
    List.find?_eq_none.2 fun t ht => by simp [h t (List.mem_reverse.1 ht)]
  simp [lastReturn?, List.find?_append, hn]

theorem findIdx?_isReturn_of_none {body : List Statement} (h : NoReturn body) :
    body.reverse.findIdx? isReturn = none := by
  rw [List.findIdx?_eq_none_iff]
  exact fun s hs => h s (List.mem_reverse.1 hs)

theorem findIdx?_isReturn_of_last {before after : List Statement} {s : Statement}
    (hs : isReturn s = true) (ha : NoReturn after) :
    (before ++ s :: after).reverse.findIdx? isReturn = some after.length := by
  have hn := findIdx?_isReturn_of_none ha
  simp [List.findIdx?_append, List.findIdx?_cons, hn, hs]

/-- A body without a return gets one. -/
theorem injectEntry_of_none {noMap : GenerationError} {key value : Expr} {body : List Statement}
    (h : NoReturn body) :
    injectEntry noMap key value body =
      .ok (.replaced (body ++ [.ofReturn (.array [(some key, value)])])) := by
  rw [injectEntry, findIdx?_isReturn_of_none h]

section LastReturn

variable {noMap : GenerationError} {key value : Expr} {before after : List Statement}
  {s : Statement}

theorem injectEntry_last (hr : isReturn s = true) (ha : NoReturn after) :
    injectEntry noMap key value (before ++ s :: after) =
      match s.kind with
      | .ret (some (.array items)) => .ok ((withEntry key value items).map fun items =>
          before ++ { s with kind := .ret (some (.array items)), verbatim := none } :: after)
      | _ => .error noMap := by
  have hi : (before ++ s :: after).length - 1 - after.length = before.length := by simp
  have hs : (before ++ s :: after)[before.length]? = some s := by simp
  have hm : ∀ f, (before ++ s :: after).modify before.length f = before ++ f s :: after := fun f =>
    List.modifyTailIdx_add (List.modifyHead f) 0 before (s :: after)
  simp only [injectEntry, findIdx?_isReturn_of_last hr ha, hi, hs, hm, Option.map_some]
  cases s.kind with
  | ret value =>
    cases value with
    | none => rfl
    | some e => cases e <;> rfl
  | _ => rfl

/-- The array of the last return gets an entry. -/
theorem injectEntry_of_array {items : List (Option Expr × Expr)}
    (hs : s.kind = .ret (some (.array items))) (ha : NoReturn after) :
    injectEntry noMap key value (before ++ s :: after) =
      .ok ((withEntry key value items).map fun items =>
        before ++ { s with kind := .ret (some (.array items)), verbatim := none } :: after) := by
  rw [injectEntry_last (by simp [isReturn, hs]) ha, hs]

/-- A last return of something else gets none. -/
theorem injectEntry_of_not_array (hr : isReturn s = true)
    (hs : ∀ items, s.kind ≠ .ret (some (.array items))) (ha : NoReturn after) :
    injectEntry noMap key value (before ++ s :: after) = .error noMap := by
  rw [injectEntry_last hr ha]
  split
  · rename_i items hk
    exact absurd hk (hs items)
  · rfl

end LastReturn

/-- Whether entries can be added to what a body returns. -/
def takesEntries (body : List Statement) : Bool :=
  match lastReturn? body with
  | none | some (.ret (some (.array _))) => true
  | some _ => false

/-- Whether an array has an entry with a key. -/
def hasKey (key : Expr) (items : List (Option Expr × Expr)) : Bool :=
  items.any fun item => item.1.map Printer.expr == some (Printer.expr key)

theorem withEntry_of_hasKey {key value : Expr} {items : List (Option Expr × Expr)}
    (h : hasKey key items = true) : withEntry key value items = .kept items :=
  if_pos h

theorem withEntry_of_not_hasKey {key value : Expr} {items : List (Option Expr × Expr)}
    (h : hasKey key items = false) :
    withEntry key value items = .replaced (items ++ [(some key, value)]) :=
  if_neg (by rw [hasKey] at h; simp [h])

/-- The ways in which adding an entry to the array that a body returns can end: a return is added,
    an entry is added, the key is there already, or something else is returned. -/
inductive EntryStep (noMap : GenerationError) (key value : Expr) :
    List Statement → Outcome (Edited (List Statement)) → Prop where
  | opened {body} : NoReturn body → EntryStep noMap key value body
      (.ok (.replaced (body ++ [.ofReturn (.array [(some key, value)])])))
  | added {before s after items} : s.kind = .ret (some (.array items)) → NoReturn after →
      hasKey key items = false → EntryStep noMap key value (before ++ s :: after)
        (.ok (.replaced (before ++
          { s with kind := .ret (some (.array (items ++ [(some key, value)]))), verbatim := none } ::
            after)))
  | there {body items other} : lastReturn? body = some (.ret (some (.array items))) →
      hasKey key items = true → EntryStep noMap key value body (.ok ⟨other, false⟩)
  | refused {body} : takesEntries body = false → EntryStep noMap key value body (.error noMap)

theorem entryStep (noMap : GenerationError) (key value : Expr) (body : List Statement) :
    EntryStep noMap key value body (injectEntry noMap key value body) := by
  rcases noReturn_or_last body with h | ⟨before, s, after, rfl, hs, ha⟩
  · rw [injectEntry_of_none h]
    exact .opened h
  · have hl : lastReturn? (before ++ s :: after) = some s.kind := lastReturn?_of_last hs ha
    by_cases hk : ∃ items, s.kind = .ret (some (.array items))
    · obtain ⟨items, hk⟩ := hk
      rw [injectEntry_of_array hk ha]
      by_cases hi : hasKey key items = true
      · rw [withEntry_of_hasKey hi]
        exact .there (hl.trans (congrArg some hk)) hi
      · rw [Bool.not_eq_true] at hi
        rw [withEntry_of_not_hasKey hi]
        exact .added hk ha hi
    · rw [not_exists] at hk
      rw [injectEntry_of_not_array hs hk ha]
      refine .refused ?_
      rw [takesEntries, hl]
      split
      · rename_i h
        cases h
      · rename_i items h
        exact absurd (Option.some.inj h) (hk items)
      · rfl

/-! ## Injections into a class -/

/-- What is left of something when an edit of it has been tried. -/
def afterEdit {α : Type} (a : α) : Outcome (Edited α) → α
  | .ok e => if e.changed then e.value else a
  | .error _ => a

/-- An edit says that it changed something only if it did. -/
def Exact {α : Type} (f : α → Outcome (Edited α)) : Prop :=
  ∀ a e, f a = .ok e → e.changed = true → e.value ≠ a

theorem exact_injected (ss : List Statement) :
    Exact fun body => .ok (Edited.foldl injected body ss) := by
  rintro body e ⟨⟩ hc hv
  obtain ⟨added, ha, -, hi⟩ := foldl_injected body ss
  exact hi.1 hc (by simpa [ha] using hv)

theorem exact_injectEntry (noMap : GenerationError) (key value : Expr) :
    Exact (injectEntry noMap key value) := by
  intro body e he hc hv
  have step := entryStep noMap key value body
  rw [he] at step
  cases step with
  | opened _ => simp [Edited.replaced] at hv
  | added hk _ _ =>
    rename_i s _ items
    have := congrArg Statement.kind (List.cons.inj (List.append_cancel_left hv)).1
    rw [hk] at this
    simp at this
  | there _ _ => cases hc

/-- A method with its body rewritten. -/
def bodyWritten (f : List Statement → List Statement) : MemberKind → MemberKind
  | .method d => .method { d with body := d.body.map f }
  | k => k

/-- The body of a member that is a method. -/
def bodyOf? : MemberKind → Option (List Statement)
  | .method d => d.body
  | _ => none

theorem kind_of_bodyOf? {k : MemberKind} {body : List Statement} (h : bodyOf? k = some body) :
    ∃ d, k = .method d ∧ d.body = some body := by
  cases k with
  | method d => exact ⟨d, rfl, h⟩
  | _ => cases h

section EditBody

variable {method : String} {noBody : GenerationError} {c : ClassDecl}
  {f : List Statement → Outcome (Edited (List Statement))} {m : Member} {d : MethodDecl}
  {body : List Statement}

theorem editBody_of_find?_eq_none (h : c.members.find? (Slot.method method).inMember = none) :
    editBody method noBody f c = .error (.methodNotFound c.name method) := by
  unfold editBody methodPlace?
  rw [isMethodNamed_eq, List.findIdx?_eq_none_iff.2 fun m hm => by
    simpa using List.find?_eq_none.1 h m hm]

theorem editBody_of_findIdx? {i : Nat}
    (hi : c.members.findIdx? (Slot.method method).inMember = some i)
    (hm : c.members[i]? = some m) (hk : m.kind = .method d) :
    editBody method noBody f c =
      match d.body with
      | none => .error noBody
      | some body => (f body).map fun e =>
        if e.changed then .replaced (setKind i (.method { d with body := some e.value }) c)
        else .kept c := by
  unfold editBody methodPlace?
  rw [isMethodNamed_eq, hi]
  simp only [hm, Option.bind_some, Member.method?, hk]
  rcases d with ⟨_, _, _, _, _, _, _, _, _, _ | body⟩
  · rfl
  · dsimp only
    cases f body with
    | error e => rfl
    | ok e => cases hc : e.changed <;> simp [Except.map, pure, Except.pure, bind, Except.bind, hc]

theorem editBody_of_bodyless (h : c.members.find? (Slot.method method).inMember = some m)
    (hk : m.kind = .method d) (hb : d.body = none) :
    editBody method noBody f c = .error noBody := by
  obtain ⟨i, hi, hm⟩ := findIdx?_of_find? h
  rw [editBody_of_findIdx? hi hm hk, hb]

/-- An injection as a rewrite of one member. -/
theorem editBody_of_body (h : c.members.find? (Slot.method method).inMember = some m)
    (hk : m.kind = .method d) (hb : d.body = some body) (hf : Exact f) :
    editBody method noBody f c = (f body).map fun e =>
      ⟨withMembers c (editFirst (Slot.method method).inMember
        (rewrite (bodyWritten fun b => afterEdit b (f b))) c.members), e.changed⟩ := by
  obtain ⟨i, hi, hm⟩ := findIdx?_of_find? h
  rw [editBody_of_findIdx? hi hm hk, hb]
  dsimp only
  cases he : f body with
  | error e => rfl
  | ok e =>
    have hw : bodyWritten (fun b => afterEdit b (f b)) m.kind =
        .method { d with body := some (if e.changed then e.value else body) } := by
      rw [hk, bodyWritten, hb, Option.map_some, he, afterEdit]
    simp only [Except.map]
    by_cases hc : e.changed = true
    · rw [if_pos hc] at hw
      have hne : bodyWritten (fun b => afterEdit b (f b)) m.kind ≠ m.kind := by
        intro hs
        have hd := congrArg MethodDecl.body (MemberKind.method.inj (hw.symm.trans (hs.trans hk)))
        exact hf body e he hc (Option.some.inj (hd.trans hb))
      rw [if_pos hc, ← setKind_eq hi hm hne, hw, hc]
      rfl
    · rw [if_neg hc, ← hb] at hw
      rw [if_neg hc, editFirst_rewrite_eq_self h (hw.trans hk.symm)]
      simp [Edited.kept, withMembers, hc]

end EditBody

end DomainScaffold.Merge
