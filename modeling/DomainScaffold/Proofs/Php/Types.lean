import DomainScaffold.Php.Build
import DomainScaffold.Proofs.Php.Statements

/-!
# Types and parameters

How types and parameters are spelled, and that they are read back as they were.

Results:
* `typeText_typeTokens`: a type is read as it is written.
* `params_paramsTokens`: parameters in round brackets are read back.
-/

namespace DomainScaffold.Php

open Scan

/-! ## Types -/

/-- The types of the language that generated code names. -/
def plainTypes : List String := ["string", "int", "float", "bool", "array", "self", "void"]

/-- Whether a text is the name of a type. -/
def isTypeName (s : String) : Bool := isFreeName s || plainTypes.contains s

/-- Whether a text is a type: a name, or a name with the mark of a value that may be absent. -/
def isTypeHint (s : String) : Bool := isTypeName ((Text.afterLead? "?" s).getD s)

/-- The tokens of a type. -/
def typeTokens (lead s : String) : List Token :=
  match Text.afterLead? "?" s with
  | some name => [.sym lead "?", .word "" name]
  | none => [.word lead s]

/-- The forms that a type has. -/
inductive TypeHint : String → Prop where
  | name {s : String} : Text.afterLead? "?" s = none → isTypeName s = true → TypeHint s
  | orNull {s : String} : isTypeName s = true → TypeHint ("?" ++ s)

theorem typeHint_of_isTypeHint {s : String} (h : isTypeHint s = true) : TypeHint s := by
  rw [isTypeHint] at h
  cases hs : Text.afterLead? "?" s with
  | none =>
    rw [hs] at h
    exact .name hs h
  | some name =>
    rw [hs] at h
    rw [Text.afterLead?_eq_some_iff.1 hs]
    exact .orNull h

theorem typeTokens_orNull (lead s : String) :
    typeTokens lead ("?" ++ s) = [.sym lead "?", .word "" s] := by
  rw [typeTokens, Text.afterLead?_eq_some_iff.2 rfl]

theorem typeTokens_name {lead s : String} (h : Text.afterLead? "?" s = none) :
    typeTokens lead s = [.word lead s] := by
  rw [typeTokens, h]

theorem written_typeTokens {lead s : String} (h : TypeHint s) :
    written (typeTokens lead s) = lead ++ s := by
  cases h with
  | name hs _ => simp [typeTokens_name hs, Token.word]
  | orNull _ => simp [typeTokens_orNull, Token.word, Token.sym, String.append_assoc]

theorem isIdentifier_of_isTypeName {s : String} (h : isTypeName s = true) :
    isIdentifier s = true := by
  rw [isTypeName, Bool.or_eq_true, List.contains_iff_mem] at h
  rcases h with h | h
  · exact isIdentifier_of_isFreeName h
  · have hall : ∀ t ∈ plainTypes, isIdentifier t = true := by decide
    exact hall s h

theorem exists_firstChar {s : String} (h : isIdentifier s = true) (next : Option Char) :
    ∃ c, firstChar [.word "" s] next = some c ∧ isNameStart c = true := by
  obtain ⟨c, cs, htext, hc, -, -⟩ := isIdentifier_iff.1 h
  exact ⟨c, by simp [firstChar, Token.word, htext], hc⟩

theorem separated_typeTokens {lead s : String} (hlead : IsLead lead) (h : TypeHint s)
    {next : Option Char} (hnext : endsName next = true) :
    Separated (typeTokens lead s) next := by
  cases h with
  | name hs hname =>
    rw [typeTokens_name hs]
    exact ⟨fits_word hlead (isName_of_isIdentifier (isIdentifier_of_isTypeName hname)) hnext, trivial⟩
  | orNull hname =>
    have hid := isIdentifier_of_isTypeName hname
    obtain ⟨c, hc, hstart⟩ := exists_firstChar hid next
    rw [typeTokens_orNull]
    refine ⟨fits_symbol hlead ?_, fits_word isLead_empty (isName_of_isIdentifier hid) hnext, trivial⟩
    rw [hc]
    simp [endsSymbol, openSymbols, plainSymbols, isNamePart_of_isNameStart hstart]

/-! ## Parameters -/

/-- The forms that a parameter of generated code has. -/
inductive PlainParam : Param → Prop where
  | untyped {name : String} : isIdentifier name = true → PlainParam (.untyped name)
  | typed {hint name : String} : TypeHint hint → isIdentifier name = true →
      PlainParam (.typed hint name)

/-- The tokens of a parameter. -/
def paramTokens (lead : String) (p : Param) : List Token :=
  match p.typeHint with
  | none => [.var lead p.name]
  | some hint => typeTokens lead hint ++ [.var " " p.name]

/-- The tokens of parameters with their commas, the first of them behind `lead`. -/
def paramsTokens (lead : String) : List Param → List Token
  | [] => []
  | p :: ps => paramTokens lead p ++ (commaBefore ps ++ paramsTokens " " ps)

theorem written_paramTokens (level : Nat) {lead : String} {p : Param} (h : PlainParam p) :
    written (paramTokens lead p) = lead ++ Printer.param level p := by
  cases h with
  | untyped _ =>
    simp [paramTokens, Param.untyped, Printer.param, Printer.optionally, Printer.flagged, Token.var]
  | typed hhint _ =>
    simp [paramTokens, Param.typed, Param.untyped, Printer.param, Printer.optionally,
      Printer.flagged, Printer.spaced, Token.var, written_typeTokens hhint, ← String.toList_inj]

theorem written_paramsTokens (level : Nat) {ps : List Param} (h : ∀ p ∈ ps, PlainParam p)
    (lead : String) : written (paramsTokens lead ps) =
      (if ps.isEmpty then "" else lead) ++ Printer.commas (ps.map (Printer.param level)) := by
  induction ps generalizing lead with
  | nil => rfl
  | cons p ps ih =>
    rw [List.forall_mem_cons] at h
    rw [paramsTokens, List.map_cons, commas_cons, written_append, written_append,
      written_paramTokens level h.1, ih h.2]
    cases ps with
    | nil => simp [commaBefore, Printer.commas]
    | cons q ps => simp [commaBefore, Token.sym, ← String.toList_inj]

theorem separated_paramTokens {lead : String} (hlead : IsLead lead) {p : Param}
    (h : PlainParam p) {next : Option Char} (hnext : endsName next = true) :
    Separated (paramTokens lead p) next := by
  cases h with
  | untyped hname => exact ⟨fits_variable hlead (isName_of_isIdentifier hname) hnext, trivial⟩
  | typed hhint hname =>
    exact separated_append.2 ⟨separated_typeTokens hlead hhint (endsName_space rfl),
      fits_variable isLead_space (isName_of_isIdentifier hname) hnext, trivial⟩

theorem separated_paramsTokens {ps : List Param} (h : ∀ p ∈ ps, PlainParam p) {lead : String}
    (hlead : IsLead lead) {next : Option Char} (hnext : endsName next = true) :
    Separated (paramsTokens lead ps) next := by
  induction ps generalizing lead with
  | nil => trivial
  | cons p ps ih =>
    rw [List.forall_mem_cons] at h
    rw [paramsTokens, separated_append, separated_append]
    cases ps with
    | nil => exact ⟨separated_paramTokens hlead h.1 hnext, trivial, trivial⟩
    | cons q ps =>
      exact ⟨separated_paramTokens hlead h.1 rfl,
        ⟨fits_plainSymbol isLead_empty (by decide) _, trivial⟩, ih h.2 isLead_space⟩

/-! ## Reading -/

namespace Grammar

variable {l l' r : Lexeme} {ls rest : List Lexeme} {sub : Rules}

theorem typeUnion_word {fuel : Nat} (hl : l.kind = .word) (hr : r.isExtra = false)
    (hmark : isTypeMark r = false) (hs : r.isSymbol "\\" = false) :
    typeUnion (fuel + 1) (l :: r :: rest) = some ((), r :: rest) := by
  have hextra := isExtra_of_kind (.inl hl)
  have hbracket : l.isSymbol "(" = false := by simp [Lexeme.isSymbol, hl]
  simp [typeUnion, symbol?_cons_of_not hextra hbracket, qualifiedName_cons hl hr hs,
    ahead_cons hr, hmark, aheadSecond]

theorem sourceText_typeTokens {lead s : String} (h : TypeHint s)
    (hls : ls.map Lexeme.token = typeTokens lead s) : sourceText ls = s := by
  cases h with
  | name hnone _ =>
    rw [typeTokens_name hnone] at hls
    obtain ⟨l, ls', rfl, -, rfl, hnil⟩ := exists_of_word hls
    rw [List.map_eq_nil_iff] at hnil
    simp [hnil, sourceText, fullText]
  | @orNull name _ =>
    rw [typeTokens_orNull] at hls
    obtain ⟨l, ls', rfl, hl, hls'⟩ := exists_of_sym hls
    simp only [Lexeme.isSymbol, Bool.and_eq_true, beq_iff_eq] at hl
    rw [sourceText, ← written_map_token, hls', hl.2]
    simp [Token.word]

variable (rest) in
/-- A type is read as it is written. -/
theorem typeText_typeTokens {lead s : String} (h : TypeHint s)
    (hls : ls.map Lexeme.token = typeTokens lead s) (hr : r.isExtra = false)
    (hmark : isTypeMark r = false) (hs : r.isSymbol "\\" = false) :
    typeText (ls ++ r :: rest) = some (s, r :: rest) := by
  have htext := textFrom_append ls (r :: rest)
  rw [sourceText_typeTokens h hls] at htext
  cases h with
  | name hnone _ =>
    rw [typeTokens_name hnone] at hls
    obtain ⟨l, ls', rfl, hl, -, hnil⟩ := exists_of_word hls
    rw [List.map_eq_nil_iff] at hnil
    subst hnil
    have hextra := isExtra_of_kind (.inl hl)
    have hquestion : l.isSymbol "?" = false := by simp [Lexeme.isSymbol, hl]
    rw [List.singleton_append] at htext ⊢
    simp only [typeText, textOf, bind_apply, here_cons hextra, Option.bind_some, discard_apply,
      symbol?_cons_of_not hextra hquestion, Option.map_some, bounded_apply,
      typeUnion_word hl hr hmark hs, htext]
  | orNull _ =>
    rw [typeTokens_orNull] at hls
    obtain ⟨mark, ls₁, rfl, hquestion, hls₁⟩ := exists_of_sym hls
    obtain ⟨l, ls', rfl, hl, -, hnil⟩ := exists_of_word hls₁
    rw [List.map_eq_nil_iff] at hnil
    subst hnil
    have hextra := isExtra_of_isSymbol hquestion
    simp only [List.cons_append, List.nil_append] at htext ⊢
    simp only [typeText, textOf, bind_apply, here_cons hextra, Option.bind_some, discard_apply,
      symbol?_cons hquestion, Option.map_some, bounded_apply, typeUnion_word hl hr hmark hs, htext]

/-- A type starts with a name or a question mark. -/
theorem exists_of_typeTokens {lead s : String} (h : TypeHint s)
    (hls : ls.map Lexeme.token = typeTokens lead s) :
    ∃ l ls', ls = l :: ls' ∧ startsType l = true ∧ l.isExtra = false ∧
      (l.isSymbol "?" = true ∨ l.kind = .word ∧ isTypeName l.text = true) := by
  cases h with
  | name hnone hname =>
    rw [typeTokens_name hnone] at hls
    obtain ⟨l, ls', rfl, hl, rfl, -⟩ := exists_of_word hls
    exact ⟨l, ls', rfl, by simp [startsType, startsName, hl], isExtra_of_kind (.inl hl),
      .inr ⟨hl, hname⟩⟩
  | orNull _ =>
    rw [typeTokens_orNull] at hls
    obtain ⟨l, ls', rfl, hl, -⟩ := exists_of_sym hls
    exact ⟨l, ls', rfl, by simp [startsType, hl], isExtra_of_isSymbol hl, .inl hl⟩

/-- No type is one of the words that stand in front of a parameter or member. -/
theorem isOneOf_of_typeName {words : List String} (hwords : ∀ w ∈ words, w ∈ reservedWords)
    (hplain : ∀ w ∈ words, w ∉ plainTypes)
    (h : l.isSymbol "?" = true ∨ l.kind = .word ∧ isTypeName l.text = true) :
    isOneOf words l = false := by
  rw [isOneOf, List.any_eq_false]
  intro w hw
  rw [Bool.not_eq_true]
  rcases h with h | ⟨hk, h⟩
  · simp only [Lexeme.isSymbol, Bool.and_eq_true, beq_iff_eq] at h
    simp [Lexeme.isWord, h]
  · rw [isWord_of_kind hk, beq_eq_false_iff_ne]
    rw [isTypeName, Bool.or_eq_true, List.contains_iff_mem] at h
    rintro rfl
    rcases h with h | h
    · rw [isFreeName, Bool.and_eq_true, Bool.not_eq_true'] at h
      simp [hwords _ hw] at h
    · have hfold : ∀ t ∈ plainTypes, Text.foldAscii t = t := by decide
      rw [hfold _ h] at hw
      exact hplain _ hw h

/-! ### Parameters -/

/-- A parameter without attributes, modifiers and signs: what is read as its type, and its name. -/
theorem param_of_type {hint : Option String} {name : String}
    (hattributes : attributes sub ls = some ([], ls))
    (hmodifiers : modifiers (visibilityWords ++ ["readonly"]) ls = some ([], ls))
    (htype : type? ls = some (hint, l :: r :: rest)) (hl : l.kind = .variable)
    (ht : l.text = "$" ++ name) (hname : isIdentifier name = true) (hr : r.isExtra = false)
    (heq : r.isSymbol "=" = false) :
    param sub ls = some ({ Param.untyped name with typeHint := hint }, r :: rest) := by
  have hextra := isExtra_of_kind (.inr hl)
  have hsymbol : ∀ s, l.isSymbol s = false := fun s => by simp [Lexeme.isSymbol, hl]
  have hextras : lastExtra (l :: r :: rest) = some (none, l :: r :: rest) := by
    simp [lastExtra, extras_cons hextra]
  have hvariable : lexeme (·.kind == .variable) (l :: r :: rest) = some (l, r :: rest) :=
    lexeme_cons hextra (by simp [hl])
  unfold param
  cases hint <;>
    simp only [↓bind_of_eq_some hattributes, ↓bind_of_eq_some hmodifiers, ↓bind_of_eq_some htype,
      ↓bind_of_eq_some hextras, ↓bind_of_eq_some (symbol?_cons_of_not hextra (hsymbol _)),
      ↓bind_of_eq_some hvariable, ↓bind_of_eq_some (symbol?_cons_of_not hr heq),
      ↓bind_of_eq_some (pure_apply none _), ↓List.isEmpty_nil, ↓Option.isNone_none,
      ↓Option.isNone_some, ↓Bool.false_eq_true, ↓reduceIte, ht,
      trimLeft_sign (isName_of_isIdentifier hname), pure_apply] <;>
    rfl

/-- A variable with its sign. -/
theorem param_variable {name : String} (hl : l.kind = .variable) (ht : l.text = "$" ++ name)
    (hname : isIdentifier name = true) (hr : r.isExtra = false) (heq : r.isSymbol "=" = false) :
    param sub (l :: r :: rest) = some (.untyped name, r :: rest) := by
  have hextra := isExtra_of_kind (.inr hl)
  have hsymbol : ∀ s, l.isSymbol s = false := fun s => by simp [Lexeme.isSymbol, hl]
  have hnone : isOneOf (visibilityWords ++ ["readonly"]) l = false := by
    simp [isOneOf, Lexeme.isWord, hl]
  have hstarts : startsType l = false := by simp [startsType, startsName, hl, hsymbol]
  exact param_of_type (by simp [attributes, ahead_cons hextra, hsymbol])
    (modifiers_none hextra hnone) (by simp [type?, ahead_cons hextra, hstarts]) hl ht hname hr heq

/-- A type with a variable. -/
theorem param_typed {lead hint name : String} (hhint : TypeHint hint)
    (hls : ls.map Lexeme.token = typeTokens lead hint) (hl : l.kind = .variable)
    (ht : l.text = "$" ++ name) (hname : isIdentifier name = true) (hr : r.isExtra = false)
    (heq : r.isSymbol "=" = false) :
    param sub (ls ++ l :: r :: rest) = some (.typed hint name, r :: rest) := by
  have hextra := isExtra_of_kind (.inr hl)
  have hsymbol : ∀ s, l.isSymbol s = false := fun s => by simp [Lexeme.isSymbol, hl]
  have hmark : isTypeMark l = false := by simp [isTypeMark, hsymbol]
  have htype := typeText_typeTokens (r :: rest) hhint hls hextra hmark (hsymbol _)
  obtain ⟨first, ls', rfl, hstarts, hextra', hkind⟩ := exists_of_typeTokens hhint hls
  have hnone : isOneOf (visibilityWords ++ ["readonly"]) first = false :=
    isOneOf_of_typeName (by decide) (by decide) hkind
  have hgroup : first.isSymbol "#[" = false := by
    rcases hkind with hkind | ⟨hkind, -⟩
    · exact isSymbol_of_isSymbol hkind (by decide)
    · simp [Lexeme.isSymbol, hkind]
  rw [List.cons_append] at htype ⊢
  exact param_of_type (by simp [attributes, ahead_cons hextra', hgroup])
    (modifiers_none hextra' hnone) (by simp [type?, ahead_cons hextra', hstarts, htype]) hl ht
    hname hr heq

theorem param_paramTokens {p : Param} (h : PlainParam p) {lead : String}
    (hls : ls.map Lexeme.token = paramTokens lead p) (hr : r.isExtra = false)
    (heq : r.isSymbol "=" = false) : param sub (ls ++ r :: rest) = some (p, r :: rest) := by
  cases h with
  | untyped hname =>
    obtain ⟨l, ls', rfl, hl, ht, hnil⟩ := exists_of_var hls
    rw [List.map_eq_nil_iff] at hnil
    subst hnil
    exact param_variable hl ht hname hr heq
  | typed hhint hname =>
    obtain ⟨lst, ls', rfl, hlst, hls'⟩ := List.map_eq_append_iff.1 hls
    obtain ⟨l, ls', rfl, hl, ht, hnil⟩ := exists_of_var hls'
    rw [List.map_eq_nil_iff] at hnil
    subst hnil
    rw [List.append_assoc]
    exact param_typed hhint hlst hl ht hname hr heq

/-- A parameter does not start with a symbol that closes the list of them. -/
theorem exists_of_paramTokens {p : Param} (h : PlainParam p) {lead : String}
    (hls : ls.map Lexeme.token = paramTokens lead p) :
    ∃ l ls', ls = l :: ls' ∧ l.isExtra = false ∧ ∀ s, s ≠ "?" → l.isSymbol s = false := by
  cases h with
  | untyped _ =>
    obtain ⟨l, ls', rfl, hl, -, -⟩ := exists_of_var hls
    exact ⟨l, ls', rfl, isExtra_of_kind (.inr hl), fun s _ => by simp [Lexeme.isSymbol, hl]⟩
  | typed hhint _ =>
    obtain ⟨lst, ls', rfl, hlst, -⟩ := List.map_eq_append_iff.1 hls
    obtain ⟨l, lst, rfl, -, hextra, hkind⟩ := exists_of_typeTokens hhint hlst
    refine ⟨l, _, rfl, hextra, fun s hs => ?_⟩
    rcases hkind with hkind | ⟨hkind, -⟩
    · exact isSymbol_of_isSymbol hkind hs.symm
    · simp [Lexeme.isSymbol, hkind]

theorem commasUntil_paramsTokens {ps : List Param} (h : ∀ p ∈ ps, PlainParam p) {lead : String}
    (hls : ls.map Lexeme.token = paramsTokens lead ps) (hr : r.isSymbol ")" = true) {fuel : Nat}
    (hfuel : ps.length < fuel) :
    commasUntil ")" (param sub) fuel (ls ++ r :: rest) = some (ps, rest) := by
  induction ps generalizing ls lead fuel with
  | nil =>
    obtain ⟨fuel, rfl⟩ := Nat.exists_eq_add_of_lt hfuel
    rw [paramsTokens, List.map_eq_nil_iff] at hls
    subst hls
    simp [commasUntil, symbol?_cons hr]
  | cons p ps ih =>
    obtain ⟨fuel, rfl⟩ : ∃ k, fuel = k + 1 := ⟨fuel - 1, by omega⟩
    rw [List.length_cons, Nat.succ_lt_succ_iff] at hfuel
    rw [List.forall_mem_cons] at h
    rw [paramsTokens] at hls
    obtain ⟨lsp, lsr, rfl, hlsp, hlsr⟩ := List.map_eq_append_iff.1 hls
    have hfirst : ∀ ms, symbol? ")" (lsp ++ ms) = some (false, lsp ++ ms) := by
      intro ms
      obtain ⟨l, ls', rfl, hextra, hsymbol⟩ := exists_of_paramTokens h.1 hlsp
      exact symbol?_cons_of_not hextra (hsymbol _ (by decide))
    rcases exists_of_commaBefore hlsr with ⟨rfl, hlsr⟩ | ⟨comma, ls', hne, rfl, hcomma, hls'⟩
    · rw [paramsTokens, List.map_eq_nil_iff] at hlsr
      subst hlsr
      have hextra := isExtra_of_isSymbol hr
      have hread : param sub (lsp ++ r :: rest) = some (p, r :: rest) :=
        param_paramTokens h.1 hlsp hextra (isSymbol_of_isSymbol hr (by decide))
      have hnot : r.isSymbol "," = false := isSymbol_of_isSymbol hr (by decide)
      simp [commasUntil, hfirst, hread, symbol?_cons_of_not hextra hnot, symbol_cons hr]
    · have hread : param sub (lsp ++ comma :: (ls' ++ r :: rest)) =
          some (p, comma :: (ls' ++ r :: rest)) :=
        param_paramTokens h.1 hlsp (isExtra_of_isSymbol hcomma)
          (isSymbol_of_isSymbol hcomma (by decide))
      simp [commasUntil, hfirst, hread, symbol?_cons hcomma, ih h.2 hls' hfuel]

theorem length_paramsTokens_ge {ps : List Param} (h : ∀ p ∈ ps, PlainParam p) (lead : String) :
    ps.length ≤ (paramsTokens lead ps).length := by
  induction ps generalizing lead with
  | nil => exact Nat.le_refl 0
  | cons p ps ih =>
    rw [List.forall_mem_cons] at h
    have hothers := ih h.2 " "
    have hfirst : 1 ≤ (paramTokens lead p).length := by
      cases h.1 with
      | untyped _ => exact Nat.le_refl 1
      | typed _ _ => simp [paramTokens, Param.typed]
    simp only [paramsTokens, List.length_append, List.length_cons]
    omega

/-- Parameters in round brackets are read back. -/
theorem params_paramsTokens {ps : List Param} (h : ∀ p ∈ ps, PlainParam p) {lead : String}
    {left : Lexeme} (hleft : left.isSymbol "(" = true)
    (hls : ls.map Lexeme.token = paramsTokens lead ps) (hr : r.isSymbol ")" = true) :
    params sub (left :: (ls ++ r :: rest)) = some (ps, rest) := by
  have hlength := length_paramsTokens_ge h lead
  rw [← hls, List.length_map] at hlength
  have hread : commasUntil ")" (param sub) ((ls ++ r :: rest).length + 1) (ls ++ r :: rest) =
      some (ps, rest) :=
    commasUntil_paramsTokens h hls hr (by rw [List.length_append]; omega)
  rw [params, inBrackets, bind_apply, symbol_cons hleft, Option.bind_some, bounded_apply, hread]

end Grammar

end DomainScaffold.Php
