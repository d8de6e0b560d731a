import DomainScaffold.Artifact.Basic
import DomainScaffold.Proofs.Merge.Plain

/-!
# Forms and names of generated code

That generated code is read back as it was written depends on two things: that it only has forms
which the reader takes apart as they were put together, and that the names in it are names of the
language. The forms are fixed by the generator, the names come from the model; so the two are told
apart here.

Results:
* `isPlain_of_formed`: an expression of such a form with such names is plain.
* `lastingChange_of_formed`: the same for changes.
-/

namespace DomainScaffold

open Php Merge

/-! ## Names -/

namespace Php

mutual

/-- Whether the names in an expression are names of the language. -/
def Expr.isNamed : Expr → Bool
  | .var s => isIdentifier s
  | .name s => isClassRef s
  | .classConst className s => isClassRef className && isIdentifier s
  | .text _ | .int _ | .float _ | .bool _ | .null | .yield none => true
  | .array items => areNamedItems items
  | .call function args => isFreeName function && areNamed args
  | .methodCall object method args => object.isNamed && isIdentifier method && areNamed args
  | .staticCall className method args =>
    isClassRef className && isIdentifier method && areNamed args
  | .property object s => object.isNamed && isIdentifier s
  | .new className args => isClassRef className && areNamed args
  | .clone value => value.isNamed
  | .yield (some value) => value.isNamed
  | .assign target value => target.isNamed && value.isNamed
  | .binary left _ right => left.isNamed && right.isNamed
  | .raw text => (foundClass? text).all isFreeName

/-- Whether the names in expressions are names of the language. -/
def areNamed : List Expr → Bool
  | [] => true
  | e :: es => e.isNamed && areNamed es

/-- Whether the names in array items are names of the language. -/
def areNamedItems : List (Option Expr × Expr) → Bool
  | [] => true
  | (none, e) :: items => e.isNamed && areNamedItems items
  | (some key, e) :: items => key.isNamed && e.isNamed && areNamedItems items

end

/-- Whether the names in a statement are names of the language. -/
def StatementKind.isNamed : StatementKind → Bool
  | .expression e | .ret (some e) => e.isNamed
  | .ret none | .other => true

/-- Whether the name of a parameter is a name of the language, and its type is one. -/
def Param.isNamed (p : Param) : Bool := p.typeHint.all isTypeHint && isIdentifier p.name

/-- Whether the names in a method are names of the language. -/
def MethodDecl.isNamed (d : MethodDecl) : Bool :=
  isIdentifier d.name && d.params.all Param.isNamed && d.returnType.all isTypeHint &&
    d.body.all fun body => body.all fun s => s.kind.isNamed

/-- Whether an import is of a name of the language, and goes by such a name. -/
def Import.isNamed (i : Import) : Bool := isPath i.name && i.rename.all isFreeName

end Php

namespace Merge

/-- Whether the names in a change are names of the language. -/
def Change.isNamed : Change → Bool
  | .importName i => i.isNamed
  | .interface name | .traitUse name => isFreeName name
  | .constant d => d.entries.all fun e => isIdentifier e.1 && e.2.isNamed
  | .property d => d.typeHint.all isTypeHint &&
    d.entries.all fun e => isIdentifier e.1 && e.2.all Expr.isNamed
  | .method d => d.isNamed
  | .methodGroup ds => ds.all MethodDecl.isNamed
  | .statements _ ss => ss.all fun s => s.kind.isNamed
  | .mapEntry _ key value => key.isNamed && value.isNamed

/-- Whether all names in a change set are names of the language: those of namespaces and classes, of
    constants, properties, methods and parameters, and of types. -/
def ChangeSet.isNamed (set : ChangeSet) : Bool :=
  ((Text.trimBoth '\\' set.namespaceName).isEmpty ||
    isPath (Text.trimBoth '\\' set.namespaceName)) &&
    isFreeName set.target.name && set.changes.all Change.isNamed

end Merge

/-! ## Forms -/

namespace Php

/-- Whether an expression is a call. -/
def Expr.isCall : Expr → Bool
  | .methodCall _ _ _ | .staticCall _ _ _ | .call _ _ => true
  | _ => false

/-- Whether an expression is a variable or a constant of a class, which hold no string. -/
def Expr.isAtom : Expr → Bool
  | .var _ | .classConst _ _ => true
  | _ => false

/-- Whether the innermost call of a chain has no first argument that may hold a string. -/
def Expr.isSteady : Expr → Bool
  | .methodCall object _ args => if object.isCall then object.isSteady else args.head?.all isAtom
  | .staticCall _ _ args | .call _ args => args.head?.all isAtom
  | _ => true

mutual

/-- Whether an expression has a form that is read back as it was written, if its names are names of
    the language. -/
def Expr.isFormed : Expr → Bool
  | .var _ | .name _ | .classConst _ _ | .text _ | .bool _ | .null => true
  | .array items => areFormedItems items
  | .call _ args | .staticCall _ _ args | .new _ args => areFormed args
  | .methodCall object _ args => object.isObject && object.isFormed && areFormed args
  | .property object _ => object.isObject && object.isFormed
  | .clone value => value.level == 21 && value.isFormed
  | .binary left op right =>
    (plainOperators.lookup op).any (fun n => n ≤ left.level && n < right.level) &&
      left.isFormed && right.isFormed
  | .int _ | .float _ | .yield _ | .assign _ _ | .raw _ => false

/-- Whether expressions have such forms. -/
def areFormed : List Expr → Bool
  | [] => true
  | e :: es => e.isFormed && areFormed es

/-- Whether array items have such forms. -/
def areFormedItems : List (Option Expr × Expr) → Bool
  | [] => true
  | (none, e) :: items => e.isFormed && areFormedItems items
  | (some key, e) :: items => key.isFormed && e.isFormed && areFormedItems items

end

/-- Whether a statement has a form that is read back. -/
def StatementKind.isFormed : StatementKind → Bool
  | .expression (.assign target value) =>
    target.isObject && startsWithVariable target && target.isFormed && value.isFormed
  | .expression (.yield (some value)) => isArray value && value.isFormed
  | .expression e => startsWithVariable e && e.isFormed
  | .ret (some (.raw text)) => text == castText || (foundClass? text).isSome
  | .ret (some e) => e.isFormed
  | .ret none | .other => false

/-- Whether what a statement is known by holds no string. -/
def StatementKind.isSteady : StatementKind → Bool
  | .expression e => e.isSteady
  | .ret (some (.array items)) => items.all fun item => item.1.all Expr.isAtom
  | .ret _ | .other => true

/-- Whether a statement is a call. -/
def StatementKind.isCall : StatementKind → Bool
  | .expression e => e.isCall
  | .ret _ | .other => false

/-- Whether a statement has no text of its own, and a form that is read back. -/
def Statement.isFormed (s : Statement) : Bool :=
  s.verbatim.isNone && s.trailing.isNone && !s.blankBefore && s.kind.isFormed

/-- Whether a parameter has a name and at most a type. -/
def Param.isFormed (p : Param) : Bool :=
  p.attributes.isEmpty && p.promotion.isNone && !p.byReference && !p.isVariadic && p.preset.isNone

/-- Whether a method has a form that is read back. -/
def MethodDecl.isFormed (d : MethodDecl) : Bool :=
  d.attributes.isEmpty && d.visibility.isSome && !d.isAbstract && !d.isFinal && !d.byReference &&
    d.params.all Param.isFormed &&
    d.body.any fun body => body.all fun s => s.isFormed && s.kind.isSteady

end Php

/-- Whether a change adds something of a form that is read back and known by the same then. -/
def Merge.Change.isFormed : Change → Bool
  | .importName i => i.kind == .classLike
  | .interface _ | .traitUse _ => true
  | .constant ⟨visibility, [(_, value)]⟩ => visibility == some .pub && value.isFormed
  | .property ⟨visibility, isStatic, isReadonly, _, [(_, preset)]⟩ =>
    visibility == some .priv && !isStatic && !isReadonly && preset.all Expr.isFormed
  | .constant _ | .property _ => false
  | .method d => d.isFormed
  | .methodGroup ds => ds.all MethodDecl.isFormed
  | .statements _ ss => ss.all fun s => s.isFormed && s.kind.isSteady && s.kind.isCall
  | .mapEntry _ key value => key.isAtom && value.isFormed

/-! ## Plain code -/

namespace Php

mutual

theorem isPlain_of_formed : ∀ e : Expr, e.isFormed = true → e.isNamed = true → isPlain e = true
  | .var _, _, hn => isName_of_isIdentifier hn
  | .name _, _, hn => isClassName_of_isClassRef hn
  | .classConst _ _, _, hn => by
    simp only [Expr.isNamed, isPlain, Bool.and_eq_true] at hn ⊢
    exact ⟨isClassName_of_isClassRef hn.1, isName_of_isIdentifier hn.2⟩
  | .text _, _, _ => rfl
  | .bool _, _, _ => rfl
  | .null, _, _ => rfl
  | .array items, hf, hn => arePlainItems_of_formed items hf hn
  | .call function args, hf, hn => by
    simp only [Expr.isNamed, isPlain, Bool.and_eq_true] at hn ⊢
    exact ⟨isQualified_of_isOpenName (isOpenName_of_isFreeName hn.1),
      arePlain_of_formed args hf hn.2⟩
  | .staticCall className method args, hf, hn => by
    simp only [Expr.isNamed, isPlain, Bool.and_eq_true] at hn ⊢
    exact ⟨⟨isClassName_of_isClassRef hn.1.1, isName_of_isIdentifier hn.1.2⟩,
      arePlain_of_formed args hf hn.2⟩
  | .new className args, hf, hn => by
    simp only [Expr.isNamed, isPlain, Bool.and_eq_true] at hn ⊢
    exact ⟨isClassName_of_isClassRef hn.1, arePlain_of_formed args hf hn.2⟩
  | .methodCall object method args, hf, hn => by
    simp only [Expr.isFormed, Expr.isNamed, isPlain, Bool.and_eq_true] at hf hn ⊢
    exact ⟨⟨⟨hf.1.1, isPlain_of_formed object hf.1.2 hn.1.1⟩, isName_of_isIdentifier hn.1.2⟩,
      arePlain_of_formed args hf.2 hn.2⟩
  | .property object s, hf, hn => by
    simp only [Expr.isFormed, Expr.isNamed, isPlain, Bool.and_eq_true] at hf hn ⊢
    exact ⟨⟨hf.1, isPlain_of_formed object hf.2 hn.1⟩, isName_of_isIdentifier hn.2⟩
  | .clone value, hf, hn => by
    simp only [Expr.isFormed, isPlain, Bool.and_eq_true] at hf ⊢
    exact ⟨hf.1, isPlain_of_formed value hf.2 hn⟩
  | .binary left op right, hf, hn => by
    simp only [Expr.isFormed, Expr.isNamed, isPlain, Bool.and_eq_true] at hf hn ⊢
    exact ⟨⟨hf.1.1, isPlain_of_formed left hf.1.2 hn.1⟩, isPlain_of_formed right hf.2 hn.2⟩

theorem arePlain_of_formed :
    ∀ es : List Expr, areFormed es = true → areNamed es = true → arePlain es = true
  | [], _, _ => rfl
  | e :: es, hf, hn => by
    simp only [areFormed, areNamed, arePlain, Bool.and_eq_true] at hf hn ⊢
    exact ⟨isPlain_of_formed e hf.1 hn.1, arePlain_of_formed es hf.2 hn.2⟩

theorem arePlainItems_of_formed : ∀ items : List (Option Expr × Expr),
    areFormedItems items = true → areNamedItems items = true → arePlainItems items = true
  | [], _, _ => rfl
  | (none, e) :: items, hf, hn => by
    simp only [areFormedItems, areNamedItems, arePlainItems, Bool.and_eq_true] at hf hn ⊢
    exact ⟨isPlain_of_formed e hf.1 hn.1, arePlainItems_of_formed items hf.2 hn.2⟩
  | (some key, e) :: items, hf, hn => by
    simp only [areFormedItems, areNamedItems, arePlainItems, Bool.and_eq_true] at hf hn ⊢
    exact ⟨⟨isPlain_of_formed key hf.1.1 hn.1.1, isPlain_of_formed e hf.1.2 hn.1.2⟩,
      arePlainItems_of_formed items hf.2 hn.2⟩

end

theorem plainKind_of_formed {k : StatementKind} (hf : k.isFormed = true) (hn : k.isNamed = true) :
    PlainKind k := by
  unfold StatementKind.isFormed at hf
  split at hf
  · simp only [StatementKind.isNamed, Expr.isNamed, Bool.and_eq_true] at hf hn
    exact .assign hf.1.1.1 hf.1.1.2 (isPlain_of_formed _ hf.1.2 hn.1) (isPlain_of_formed _ hf.2 hn.2)
  · rename_i value
    rw [Bool.and_eq_true] at hf
    cases value with
    | array items => exact .yield (isPlain_of_formed _ hf.2 hn)
    | _ => cases hf.1
  · rw [Bool.and_eq_true] at hf
    exact .expression (startsStatement_of_startsWithVariable hf.1) (isPlain_of_formed _ hf.2 hn)
  · rename_i text
    rw [Bool.or_eq_true, beq_iff_eq] at hf
    rcases hf with rfl | hfound
    · exact .cast
    · obtain ⟨className, hclass⟩ := Option.isSome_iff_exists.1 hfound
      rw [StatementKind.isNamed, Expr.isNamed, hclass, Option.all_some] at hn
      rw [foundClass?_eq_some_iff.1 hclass]
      exact .found hn
  · exact .ret (isPlain_of_formed _ hf hn)
  · cases hf
  · cases hf

theorem plainStatement_of_formed {s : Statement} (hf : s.isFormed = true)
    (hn : s.kind.isNamed = true) : PlainStatement s := by
  simp only [Statement.isFormed, Bool.and_eq_true, Bool.not_eq_true', Option.isNone_iff_eq_none]
    at hf
  obtain ⟨⟨⟨hverbatim, htrailing⟩, hblank⟩, hkind⟩ := hf
  refine ⟨?_, plainKind_of_formed hkind hn⟩
  obtain ⟨k, _, _, _⟩ := s
  cases hverbatim
  cases htrailing
  cases hblank
  rfl

theorem plainParam_of_formed {p : Param} (hf : p.isFormed = true) (hn : p.isNamed = true) :
    PlainParam p := by
  obtain ⟨attributes, promotion, hint, byReference, isVariadic, name, preset⟩ := p
  simp only [Param.isFormed, Param.isNamed, Bool.and_eq_true, Bool.not_eq_true',
    Option.isNone_iff_eq_none, List.isEmpty_iff] at hf hn
  obtain ⟨⟨⟨⟨rfl, rfl⟩, rfl⟩, rfl⟩, rfl⟩ := hf
  cases hint with
  | none => exact .untyped hn.2
  | some hint => exact .typed (typeHint_of_isTypeHint hn.1) hn.2

end Php

/-! ## Steady calls -/

namespace Merge

theorem isSome_callIdentity? (e : Expr) : (callIdentity? e).isSome = e.isCall := by
  cases e with
  | methodCall object method args =>
    rw [callIdentity?]
    cases callIdentity? object <;> rfl
  | _ => rfl

theorem joined_of_isAtom {e : Expr} (h : e.isAtom = true) : e.joined = e := by
  cases e <;> first | rfl | cases h

theorem isCall_joined (e : Expr) : e.joined.isCall = e.isCall := by
  cases e with
  | yield value => cases value <;> rfl
  | _ => rfl

theorem identityOf_joined {args : List Expr} (h : args.head?.all Expr.isAtom = true)
    (name : String) : identityOf name (joinedArgs args) = identityOf name args := by
  cases args with
  | nil => rfl
  | cons e es => simp only [identityOf, joinedArgs, List.head?_cons, joined_of_isAtom h]

/-- What a chain of calls is known by does not change when line breaks are joined, if it holds no
    string. -/
theorem callIdentity?_joined {e : Expr} (h : e.isSteady = true) :
    callIdentity? e.joined = callIdentity? e := by
  fun_induction Expr.isSteady e with
  | case1 object method args hcall ih =>
    obtain ⟨i, hi⟩ := Option.isSome_iff_exists.1 ((isSome_callIdentity? object).trans hcall)
    rw [Expr.joined, callIdentity?, callIdentity?, ih h, hi]
  | case2 object method args hcall =>
    have hnone : ∀ e : Expr, ¬ e.isCall = true → callIdentity? e = none := fun e he => by
      rwa [← isSome_callIdentity?, Option.not_isSome_iff_eq_none] at he
    rw [Expr.joined, callIdentity?, callIdentity?, hnone object hcall,
      hnone object.joined (by rwa [isCall_joined])]
    exact congrArg some (identityOf_joined h method)
  | case3 className method args => exact congrArg some (identityOf_joined h method)
  | case4 function args => exact congrArg some (identityOf_joined h function)
  | case5 e hmethod hstatic hfunction =>
    have hcall : ¬ e.isCall = true := by
      cases e with
      | methodCall object method args => exact absurd rfl (hmethod object method args)
      | staticCall className method args => exact absurd rfl (hstatic className method args)
      | call function args => exact absurd rfl (hfunction function args)
      | _ => exact Bool.false_ne_true
    have hjoined : ¬ e.joined.isCall = true := by rwa [isCall_joined]
    rw [← isSome_callIdentity?, Option.not_isSome_iff_eq_none] at hcall hjoined
    rw [hcall, hjoined]

theorem steady_of_isSteady {k : StatementKind} (h : k.isSteady = true) : Steady k := by
  cases k with
  | expression e => exact callIdentity?_joined h
  | ret value =>
    cases value with
    | none => trivial
    | some e =>
      cases e with
      | array items =>
        intro item hitem
        have hatom := List.all_eq_true.1 h item hitem
        obtain ⟨key, e⟩ := item
        cases key with
        | none => rfl
        | some key => exact congrArg some (joined_of_isAtom hatom)
      | _ => trivial
  | other => trivial

/-! ## Changes -/

theorem lastingStatement_of_formed {s : Statement} (hf : s.isFormed = true)
    (hs : s.kind.isSteady = true) (hn : s.kind.isNamed = true) : LastingStatement s :=
  ⟨plainStatement_of_formed hf hn, steady_of_isSteady hs⟩

theorem registers_of_isCall {s : Statement} (h : s.kind.isCall = true) : Registers s := by
  unfold Registers statementIdentity?
  cases hk : s.kind with
  | expression e =>
    rw [hk] at h
    exact (isSome_callIdentity? e).trans h
  | _ =>
    rw [hk] at h
    cases h

theorem lastingKind_of_formed {d : MethodDecl} (hf : d.isFormed = true) (hn : d.isNamed = true) :
    LastingKind (.method d) := by
  obtain ⟨attributes, visibility, isStatic, isAbstract, isFinal, byReference, name, params,
    returnType, body⟩ := d
  simp only [MethodDecl.isFormed, MethodDecl.isNamed, Bool.and_eq_true, Bool.not_eq_true',
    List.isEmpty_iff, Option.isSome_iff_exists, List.all_eq_true, Option.all_eq_true,
    Option.any_eq_true] at hf hn
  obtain ⟨⟨⟨⟨⟨⟨rfl, visibility, rfl⟩, rfl⟩, rfl⟩, rfl⟩, hparams⟩, body, rfl, hbody⟩ := hf
  obtain ⟨⟨⟨hname, hparamNames⟩, hreturn⟩, hbodyNames⟩ := hn
  have hstatements : ∀ s ∈ body, LastingStatement s := fun s hs =>
    lastingStatement_of_formed (hbody s hs).1 (hbody s hs).2 (hbodyNames body rfl s hs)
  refine lastingKind_iff.2 ⟨.method hname
    (fun p hp => plainParam_of_formed (hparams p hp) (hparamNames p hp))
    (fun hint hhint => typeHint_of_isTypeHint (hreturn hint hhint))
    fun s hs => (hstatements s hs).plain, fun b hb => ?_⟩
  obtain rfl := Option.some.inj hb
  exact hstatements

/-- A change of such a form with such names is one of generated code. -/
theorem lastingChange_of_formed {ch : Change} (hf : ch.isFormed = true) (hn : ch.isNamed = true) :
    LastingChange ch := by
  cases ch with
  | importName i =>
    simp only [Change.isNamed, Import.isNamed, Bool.and_eq_true, Option.all_eq_true] at hn
    exact .importName ⟨by simpa [Change.isFormed] using hf, hn.1, hn.2⟩
  | interface name => exact .interface hn
  | traitUse name => exact .traitUse hn
  | constant d =>
    rcases d with ⟨visibility, _ | ⟨⟨name, value⟩, _ | ⟨_, _⟩⟩⟩
    · cases hf
    · simp only [Change.isFormed, Change.isNamed, Bool.and_eq_true, beq_iff_eq, List.all_cons,
        List.all_nil, and_true] at hf hn
      obtain ⟨rfl, hvalue⟩ := hf
      exact .constant (.constant hn.1 (isPlain_of_formed _ hvalue hn.2))
    · cases hf
  | property d =>
    rcases d with ⟨visibility, isStatic, isReadonly, hint, _ | ⟨⟨name, preset⟩, _ | ⟨_, _⟩⟩⟩
    · cases hf
    · simp only [Change.isFormed, Change.isNamed, Bool.and_eq_true, Bool.not_eq_true', beq_iff_eq,
        List.all_cons, List.all_nil, and_true, Option.all_eq_true] at hf hn
      obtain ⟨⟨⟨rfl, rfl⟩, rfl⟩, hpreset⟩ := hf
      exact .property (.property (fun s hs => typeHint_of_isTypeHint (hn.1 s hs)) hn.2.1
        fun e he => isPlain_of_formed _ (hpreset e he) (hn.2.2 e he))
    · cases hf
  | method d => exact .method (lastingKind_of_formed hf hn)
  | methodGroup ds =>
    exact .methodGroup fun d hd => lastingKind_of_formed (List.all_eq_true.1 hf d hd)
      (List.all_eq_true.1 hn d hd)
  | statements method ss =>
    refine .statements fun s hs => ?_
    have hform := List.all_eq_true.1 hf s hs
    simp only [Bool.and_eq_true] at hform
    exact ⟨lastingStatement_of_formed hform.1.1 hform.1.2 (List.all_eq_true.1 hn s hs),
      registers_of_isCall hform.2⟩
  | mapEntry method key value =>
    simp only [Change.isFormed, Change.isNamed, Bool.and_eq_true] at hf hn
    have hkey : key.isFormed = true := by
      have hatom := hf.1
      cases key <;> first | rfl | cases hatom
    exact .mapEntry (isPlain_of_formed _ hkey hn.1) (isPlain_of_formed _ hf.2 hn.2)
      (joined_of_isAtom hf.1)

end Merge

end DomainScaffold
