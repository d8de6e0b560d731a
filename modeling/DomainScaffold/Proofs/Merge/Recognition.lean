import DomainScaffold.Proofs.Merge.Registrations

/-!
# Statements that are injected again

An injection adds a statement unless the body has it: a chain of calls by what it is known by, any
other expression by how it is printed. Calls are only looked for among the expression statements,
so a return of a call does not find itself, and a statement without an expression is never found.

Results:
* `isPresent_foldl_injected_eq`: which injected statements are found in the body that they are in.
* `injectStatements_eq_kept_iff`: when an injection changes nothing.
* `injectStatements_again_iff`: when an injection that is made again changes nothing.
* `injectStatements_again_added`: statements that are added a second time.
-/

namespace DomainScaffold.Merge

open Php

/-! ## How a statement is looked for -/

section Presence

variable {s : Statement} {e : Expr}

/-- A chain of calls is looked for among the calls of expression statements. -/
theorem isPresent_of_call {i : String × String} (he : s.expression? = some e)
    (hi : callIdentity? e = some i) (body : List Statement) :
    isPresent body s = body.any fun t => statementIdentity? t == some i := by
  rw [isPresent, he, Option.bind_some, hi]

/-- Any other expression is looked for by how it is printed, so it finds itself. -/
theorem isPresent_of_no_call (he : s.expression? = some e) (hi : callIdentity? e = none)
    (body : List Statement) :
    isPresent body s = body.any fun t => printedExpression? t == some (Printer.expr e) := by
  rw [isPresent, he, Option.bind_some, hi, printedExpression?, he, Option.map_some]

/-- What has no expression is not found anywhere. -/
theorem isPresent_of_no_expression (he : s.expression? = none) (body : List Statement) :
    isPresent body s = false := by
  rw [isPresent, he, Option.bind_none, printedExpression?, he, Option.map_none]

end Presence

/-- Whether a statement is found in a body that it is in. -/
def isFoundAgain (body : List Statement) (s : Statement) : Bool :=
  match s.kind with
  | .expression _ => true
  | .ret (some e) =>
    match callIdentity? e with
    | some i => body.any fun t => statementIdentity? t == some i
    | none => true
  | .ret none | .other => false

theorem isPresent_concat_no_call {s : Statement} {e : Expr} (he : s.expression? = some e)
    (hi : callIdentity? e = none) (body : List Statement) : isPresent (body ++ [s]) s = true := by
  rw [isPresent_of_no_call he hi, List.any_append]
  simp [printedExpression?, he]

theorem isPresent_concat_expression {s : Statement} {e : Expr} (hs : s.kind = .expression e)
    (body : List Statement) : isPresent (body ++ [s]) s = true := by
  have he : s.expression? = some e := by rw [Statement.expression?, hs]
  cases hi : callIdentity? e with
  | none => exact isPresent_concat_no_call he hi body
  | some i =>
    have hid : statementIdentity? s = some i := by rw [statementIdentity?, hs]; exact hi
    rw [isPresent_of_call he hi, List.any_append]
    simp [hid]

/-- A call that an expression statement makes is found once the statement has been added. -/
theorem any_identity_foldl_injected {body ss : List Statement} (i : String × String) :
    ((Edited.foldl injected body ss).value.any fun t => statementIdentity? t == some i) =
      (body ++ ss).any fun t => statementIdentity? t == some i := by
  rw [Bool.eq_iff_iff]
  obtain ⟨added, hv, hsub, -⟩ := foldl_injected body ss
  constructor
  · rw [hv, List.any_append, List.any_append, Bool.or_eq_true, Bool.or_eq_true]
    refine Or.imp_right fun h => ?_
    obtain ⟨t, ht, hid⟩ := List.any_eq_true.1 h
    exact List.any_eq_true.2 ⟨t, hsub.subset ht, hid⟩
  · rw [List.any_append, Bool.or_eq_true]
    rintro (h | h)
    · rw [hv]
      exact any_identity_append h
    · obtain ⟨t, ht, hid⟩ := List.any_eq_true.1 h
      have hid := beq_iff_eq.1 hid
      have ht := present_foldl_injected (by rw [Registers, hid]; rfl) ht body
      rwa [isPresent_of_identity hid] at ht

/-- An injected statement is found in the body behind the injection exactly if it is one that finds
    itself, or a call of the body or of the injection is the one that it returns. -/
theorem isPresent_foldl_injected_eq {body ss : List Statement} {s : Statement} (hs : s ∈ ss) :
    isPresent (Edited.foldl injected body ss).value s = isFoundAgain (body ++ ss) s := by
  rw [isFoundAgain]
  cases hk : s.kind with
  | expression e => exact isPresent_foldl_injected (isPresent_concat_expression hk) hs body
  | ret value =>
    cases value with
    | none => exact isPresent_of_no_expression (by rw [Statement.expression?, hk]) _
    | some e =>
      have he : s.expression? = some e := by rw [Statement.expression?, hk]
      dsimp only
      cases hi : callIdentity? e with
      | none => exact isPresent_foldl_injected (isPresent_concat_no_call he hi) hs body
      | some i => rw [isPresent_of_call he hi, any_identity_foldl_injected]
  | other => exact isPresent_of_no_expression (by rw [Statement.expression?, hk]) _

/-! ## Injections into a class -/

section Class

variable {method : String} {ss : List Statement} {c : ClassDecl} {m : Member}
  {body : List Statement}

/-- An injection as a rewrite of the member that is the method. -/
theorem injectStatements_of_body (h : c.members.find? (Slot.method method).inMember = some m)
    (hb : bodyOf? m.kind = some body) :
    injectStatements method ss c = .ok
      ⟨withMembers c (editFirst (Slot.method method).inMember
        (rewrite (bodyWritten fun b => (Edited.foldl injected b ss).value)) c.members),
        (Edited.foldl injected body ss).changed⟩ := by
  obtain ⟨d, hk, hd⟩ := kind_of_bodyOf? hb
  rw [injectStatements, editBody_of_body h hk hd (exact_injected ss)]
  simp only [afterEdit_foldl_injected]
  rfl

/-- An injection changes nothing exactly if the body has all of its statements. -/
theorem injectStatements_eq_kept_iff (ss : List Statement)
    (h : c.members.find? (Slot.method method).inMember = some m) (hb : bodyOf? m.kind = some body) :
    injectStatements method ss c = .ok (.kept c) ↔ ∀ s ∈ ss, isPresent body s = true := by
  rw [injectStatements_of_body h hb, ← foldl_injected_eq_self_iff]
  obtain ⟨added, hv, -, hchanged⟩ := foldl_injected body ss
  constructor
  · intro heq
    have hsame : (Edited.foldl injected body ss).changed = false :=
      congrArg Edited.changed (Except.ok.inj heq)
    have hnone : added = [] := by
      by_contra hne
      rw [hchanged.2 hne] at hsame
      cases hsame
    rw [hv, hnone, List.append_nil]
  · intro hself
    have hnone : added = [] := by simpa [hself] using hv
    have hsame : (Edited.foldl injected body ss).changed = false :=
      Bool.eq_false_iff.2 fun htrue => hchanged.1 htrue hnone
    have hwritten : bodyWritten (fun b => (Edited.foldl injected b ss).value) m.kind = m.kind :=
      bodyWritten_eq_self_iff.2 fun b hb' => by
        rw [hb, Option.some.injEq] at hb'
        rw [← hb', hself]
    rw [editFirst_rewrite_eq_self h hwritten, hsame]
    rfl

/-- An injection into a method with a body that is made twice changes nothing the second time
    exactly if each of its statements is found again. -/
theorem injectStatements_again_iff (ss : List Statement)
    (h : (c.method? method).bind MethodDecl.body = some body) :
    ∃ first second, injectStatements method ss c = .ok first ∧
      injectStatements method ss first.value = .ok second ∧
      (second = .kept first.value ↔ ∀ s ∈ ss, isFoundAgain (body ++ ss) s = true) := by
  rw [method?_body_eq, methodKind?] at h
  obtain ⟨k, hkind, hb⟩ := Option.bind_eq_some_iff.1 h
  obtain ⟨m, hfind, rfl⟩ := Option.map_eq_some_iff.1 hkind
  -- The first injection leaves the method in its place, with the statements in its body.
  have hfind' : (editFirst (Slot.method method).inMember
      (rewrite (bodyWritten fun b => (Edited.foldl injected b ss).value)) c.members).find?
        (Slot.method method).inMember =
      some (rewrite (bodyWritten fun b => (Edited.foldl injected b ss).value) m) := by
    rw [find?_editFirst_self fun m hm => ?_, hfind, Option.map_some]
    rwa [Slot.inMember, kind_rewrite, outline_bodyWritten]
  have hb' : bodyOf? (rewrite (bodyWritten fun b => (Edited.foldl injected b ss).value) m).kind =
      some (Edited.foldl injected body ss).value := by
    rw [kind_rewrite, bodyOf?_bodyWritten, hb, Option.map_some]
  refine ⟨_, _, injectStatements_of_body hfind hb, injectStatements_of_body hfind' hb', ?_⟩
  have hiff := injectStatements_eq_kept_iff (c := withMembers c _) ss hfind' hb'
  rw [injectStatements_of_body (c := withMembers c _) hfind' hb', Except.ok.injEq] at hiff
  rw [hiff]
  exact forall₂_congr fun s hs => by rw [isPresent_foldl_injected_eq hs]

end Class

/-- A class with a method that registers something. -/
def registeringClass : ClassDecl :=
  { ClassDecl.named "Service" with
    members := [.ofKind (.method ⟨[], some .pub, false, false, false, false, "boot", [], none,
      some [.ofExpr (.call "register" [.text "a"])]⟩)] }

/-- A return of the call that the method makes already. -/
def returnedCall : List Statement := [.ofReturn (.call "register" [.text "a"])]

theorem injectStatements_again_iff_returnedCall :
    (registeringClass.method? "BOOT").bind MethodDecl.body =
        some [.ofExpr (.call "register" [.text "a"])] ∧
      ∃ first second, injectStatements "BOOT" returnedCall registeringClass = .ok first ∧
        injectStatements "BOOT" returnedCall first.value = .ok second ∧
        second = .kept first.value := by
  have hbody : (registeringClass.method? "BOOT").bind MethodDecl.body =
      some [.ofExpr (.call "register" [.text "a"])] := by decide +kernel
  obtain ⟨first, second, hfirst, hsecond, hiff⟩ :=
    injectStatements_again_iff returnedCall hbody
  exact ⟨hbody, first, second, hfirst, hsecond, hiff.2 (by decide)⟩

/-- A class with a method that does nothing. -/
def idleClass : ClassDecl :=
  { ClassDecl.named "Service" with
    members := [.ofKind (.method ⟨[], some .pub, false, false, false, false, "run", [], none,
      some []⟩)] }

/-- A statement that the method has after an injection and has twice after the same injection. -/
def AddedAgain (s : Statement) : Prop :=
  ∃ first second, injectStatements "run" [s] idleClass = .ok first ∧
    injectStatements "run" [s] first.value = .ok second ∧ second.changed = true ∧
    (first.value.method? "run").bind MethodDecl.body = some [s] ∧
    (second.value.method? "run").bind MethodDecl.body = some [s, s]

/-- A return of a call, a return of nothing and a statement that only exists as text are added a
    second time. -/
theorem injectStatements_again_added :
    AddedAgain (.ofReturn (.call "f" [])) ∧ AddedAgain (.ofKind (.ret none)) ∧
      AddedAgain ⟨.other, some ⟨"unset($x);", false⟩, none, false⟩ :=
  ⟨⟨_, _, rfl, rfl, rfl, rfl, rfl⟩, ⟨_, _, rfl, rfl, rfl, rfl, rfl⟩,
    ⟨_, _, rfl, rfl, rfl, rfl, rfl⟩⟩

end DomainScaffold.Merge
