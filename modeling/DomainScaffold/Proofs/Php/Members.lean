import Mathlib.Data.List.Forall2
import DomainScaffold.Proofs.Php.Types

/-!
# Reading members

The members that generated classes are made of, how they are spelled, and that they are read back.
Of a method, the statements that are only known by their text are read back as texts.

Results:
* `written_memberTokens`: a printed member is put together from its tokens.
* `separated_memberTokens`: each of its tokens is scanned as such.
* `member_memberTokens`: a member is read back from its tokens.
-/

namespace DomainScaffold.Php

open Scan Verbatim

/-! ## Plain members -/

/-- A statement of generated code, which has no text of its own. -/
structure PlainStatement (s : Statement) : Prop where
  eq_ofKind : s = .ofKind s.kind
  kind : PlainKind s.kind

/-- The forms that a member of generated code has. -/
inductive PlainMemberKind : MemberKind → Prop where
  | traitUse {name : String} : isFreeName name = true → PlainMemberKind (.traitUse [name])
  | constant {name : String} {value : Expr} : isIdentifier name = true → isPlain value = true →
      PlainMemberKind (.constant (.publicOne name value))
  | property {hint : Option String} {name : String} {preset : Option Expr} :
      (∀ s ∈ hint, TypeHint s) → isIdentifier name = true → (∀ e ∈ preset, isPlain e = true) →
      PlainMemberKind (.property (.privateOne hint name preset))
  | method {visibility : Visibility} {isStatic : Bool} {name : String} {params : List Param}
      {returnType : Option String} {body : List Statement} : isIdentifier name = true →
      (∀ p ∈ params, PlainParam p) → (∀ s ∈ returnType, TypeHint s) →
      (∀ s ∈ body, PlainStatement s) →
      PlainMemberKind (.method (.plain visibility isStatic name params returnType body))

/-- A member of generated code, which has no text of its own. -/
structure PlainMember (m : Member) : Prop where
  eq_ofKind : m = .ofKind m.kind
  kind : PlainMemberKind m.kind

/-! ## Spelling -/

/-- The tokens of a value behind an equals sign, if there is one. -/
def presetTokens : Option Expr → List Token
  | none => []
  | some e => .sym " " "=" :: exprTokens 1 false " " e

/-- The tokens of a type in front of something, if there is one. -/
def hintTokens : Option String → List Token
  | none => []
  | some s => typeTokens " " s

/-- The tokens of a return type. -/
def returnTokens : Option String → List Token
  | none => []
  | some s => .sym "" ":" :: typeTokens " " s

/-- The tokens of statements in braces. -/
def blockTokens (body : List Statement) : List Token :=
  .sym (newline 1) "\x7b" ::
    (body.flatMap (fun s => statementTokens 2 s.kind) ++ [.sym (newline 1) "\x7d"])

/-- The tokens of a method. -/
def methodTokens (lead : String) (d : MethodDecl) : List Token :=
  .word lead ((d.visibility.map Visibility.word).getD "") ::
    ((if d.isStatic then [.word " " "static"] else []) ++
      .word " " "function" :: .word " " d.name :: .sym "" "(" ::
        (paramsTokens "" d.params ++ .sym "" ")" ::
          (returnTokens d.returnType ++ blockTokens (d.body.getD []))))

/-- The tokens of a member, the first of them behind `lead`. -/
def memberTokens (lead : String) : MemberKind → List Token
  | .traitUse [name] => [.word lead "use", .word " " name, .sym "" ";"]
  | .constant ⟨_, [(name, value)]⟩ =>
    .word lead "public" :: .word " " "const" :: .word " " name :: .sym " " "=" ::
      (exprTokens 1 false " " value ++ [.sym "" ";"])
  | .property ⟨_, _, _, hint, [(name, preset)]⟩ =>
    .word lead "private" ::
      (hintTokens hint ++ .var " " name :: (presetTokens preset ++ [.sym "" ";"]))
  | .method d => methodTokens lead d
  | _ => []

theorem written_hintTokens {hint : Option String} (h : ∀ s ∈ hint, TypeHint s) :
    written (hintTokens hint) = String.join (hint.toList.map (" " ++ ·)) := by
  cases hint with
  | none => rfl
  | some s => simp [hintTokens, written_typeTokens (h s rfl)]

theorem written_presetTokens {preset : Option Expr} (h : ∀ e ∈ preset, isPlain e = true) :
    written (presetTokens preset) =
      Printer.optionally (" = " ++ ·) (preset.map (Printer.exprText 1)) := by
  cases preset with
  | none => rfl
  | some e =>
    simp [presetTokens, written_exprTokens 1 false " " e (h e rfl), Token.sym, Printer.optionally,
      Printer.exprText, ← String.toList_inj]

theorem written_returnTokens {returnType : Option String} (h : ∀ s ∈ returnType, TypeHint s) :
    written (returnTokens returnType) = Printer.optionally (": " ++ ·) returnType := by
  cases returnType with
  | none => rfl
  | some s =>
    simp [returnTokens, written_typeTokens (h s rfl), Token.sym, Printer.optionally,
      ← String.toList_inj]

theorem written_statements {body : List Statement} (h : ∀ s ∈ body, PlainStatement s) :
    written (body.flatMap fun s => statementTokens 2 s.kind) ++ "\n" =
      "\n" ++ String.join (body.map (Printer.statementLine 2)) := by
  induction body with
  | nil => simp
  | cons s body ih =>
    rw [List.forall_mem_cons] at h
    have hline : Printer.statementLine 2 s = Printer.statementFields 2 s.kind ++ "\n" := by
      rw [h.1.eq_ofKind]
      simp [Printer.statementLine, Printer.statement, Statement.ofKind, Printer.trailingText,
        Printer.optionally]
    rw [List.flatMap_cons, written_append, String.append_assoc, ih h.2,
      written_statementTokens 2 h.1.kind, List.map_cons, hline]
    simp [String.append_assoc]

theorem written_blockTokens {body : List Statement} (h : ∀ s ∈ body, PlainStatement s) :
    written (blockTokens body) = "\n" ++ indent 1 ++ "\x7b\n" ++
      String.join (body.map (Printer.statementLine 2)) ++ indent 1 ++ "\x7d" := by
  have hbody := written_statements h
  calc written (blockTokens body)
      = "\n" ++ indent 1 ++ "\x7b" ++
          (written (body.flatMap fun s => statementTokens 2 s.kind) ++ "\n") ++ indent 1 ++
            "\x7d" := by
        simp [blockTokens, Token.sym, newline, ← String.toList_inj]
    _ = _ := by
        rw [hbody]
        simp [← String.toList_inj]

/-- A printed member is put together from its tokens. -/
theorem written_memberTokens {k : MemberKind} (h : PlainMemberKind k) (before : String) :
    written (memberTokens (before ++ indent 1) k) = before ++ Printer.memberFields 1 k := by
  cases h with
  | traitUse _ =>
    simp [memberTokens, Printer.memberFields, Printer.commas, Token.word, Token.sym,
      ← String.toList_inj]
  | @constant name value _ hvalue =>
    simp [memberTokens, ConstantDecl.publicOne, Printer.memberFields, Printer.constantDecl,
      Printer.visibilityText, Printer.optionally, Printer.spaced, Visibility.word, Printer.commas,
      Token.word, Token.sym, written_exprTokens 1 false " " value hvalue, Printer.exprText,
      ← String.toList_inj]
  | @property hint name preset hhint _ hpreset =>
    have hwords : String.intercalate " " ("private" :: hint.toList) =
        "private" ++ String.join (hint.toList.map (" " ++ ·)) := by
      cases hint <;> simp [← String.toList_inj]
    simp [memberTokens, PropertyDecl.privateOne, Printer.memberFields, Printer.propertyDecl,
      Printer.propertyWords, Visibility.word, Printer.commas, Printer.propertyEntry, Token.word,
      Token.sym, Token.var, written_hintTokens hhint, written_presetTokens hpreset, hwords,
      ← String.toList_inj]
  | @method visibility isStatic name params returnType body _ hparams hreturn hbody =>
    have hps := written_paramsTokens 1 hparams ""
    cases isStatic <;>
      simp [memberTokens, methodTokens, MethodDecl.plain, Printer.memberFields, Printer.methodDecl,
        Printer.methodHead, Printer.visibilityText, Printer.optionally, Printer.spaced,
        Printer.flagged, Token.word, Token.sym, hps, written_returnTokens hreturn,
        written_blockTokens hbody, ← String.toList_inj]

theorem separated_hintTokens {hint : Option String} (h : ∀ s ∈ hint, TypeHint s)
    {next : Option Char} (hnext : endsName next = true) :
    Separated (hintTokens hint) next ∧ endsName (firstChar (hintTokens hint) next) = true := by
  cases hint with
  | none => exact ⟨trivial, hnext⟩
  | some s =>
    have hs := h s rfl
    refine ⟨separated_typeTokens isLead_space hs hnext, ?_⟩
    cases hs with
    | name hnone _ =>
      rw [hintTokens, typeTokens_name hnone]
      exact endsName_space rfl
    | orNull _ =>
      rw [hintTokens, typeTokens_orNull]
      exact endsName_space rfl

theorem separated_presetTokens {preset : Option Expr} (h : ∀ e ∈ preset, isPlain e = true)
    {next : Option Char} (hnext : endsName next = true) :
    Separated (presetTokens preset) next ∧
      endsName (firstChar (presetTokens preset) next) = true := by
  cases preset with
  | none => exact ⟨trivial, hnext⟩
  | some e =>
    have he := h e rfl
    refine ⟨⟨fits_symbol isLead_space ?_, separated_exprTokens 1 false isLead_space e he _ hnext⟩,
      rfl⟩
    have hfirst := firstChar_exprTokens he 1 false [] next
    rw [List.append_nil] at hfirst
    rw [hfirst]
    rfl

theorem separated_returnTokens {returnType : Option String} (h : ∀ s ∈ returnType, TypeHint s)
    {next : Option Char} (hnext : endsName next = true) :
    Separated (returnTokens returnType) next := by
  cases returnType with
  | none => trivial
  | some s =>
    have hs := h s rfl
    refine ⟨fits_symbol isLead_empty ?_, separated_typeTokens isLead_space hs hnext⟩
    cases hs with
    | name hnone _ =>
      rw [typeTokens_name hnone]
      exact endsSymbol_space (by decide) rfl
    | orNull _ =>
      rw [typeTokens_orNull]
      exact endsSymbol_space (by decide) rfl

theorem separated_statements {body : List Statement} (h : ∀ s ∈ body, PlainStatement s)
    (next : Option Char) : Separated (body.flatMap fun s => statementTokens 2 s.kind) next := by
  induction body with
  | nil => trivial
  | cons s body ih =>
    rw [List.forall_mem_cons] at h
    exact separated_append.2 ⟨separated_statementTokens 2 h.1.kind _, ih h.2⟩

theorem separated_blockTokens {body : List Statement} (h : ∀ s ∈ body, PlainStatement s)
    (next : Option Char) : Separated (blockTokens body) next :=
  ⟨fits_plainSymbol (isLead_newline 1) (by decide) _, separated_append.2
    ⟨separated_statements h _, fits_plainSymbol (isLead_newline 1) (by decide) _, trivial⟩⟩

/-- Each token of a member is scanned as such. -/
theorem separated_memberTokens {k : MemberKind} (h : PlainMemberKind k) {lead : String}
    (hlead : IsLead lead) (next : Option Char) : Separated (memberTokens lead k) next := by
  cases h with
  | traitUse hname =>
    exact ⟨fits_word hlead (by decide) (endsName_space rfl),
      fits_word isLead_space (isName_of_isFreeName hname) rfl,
      fits_plainSymbol isLead_empty (by decide) _, trivial⟩
  | @constant name value hname hvalue =>
    refine ⟨fits_word hlead (by decide) (endsName_space rfl),
      fits_word isLead_space (by decide) (endsName_space rfl),
      fits_word isLead_space (isName_of_isIdentifier hname) (endsName_space rfl),
      fits_symbol isLead_space ?_,
      separated_line 1 isLead_space hvalue next⟩
    rw [firstChar_exprTokens hvalue]
    rfl
  | @property hint name preset hhint hname hpreset =>
    have hend : endsName (firstChar [.sym "" ";"] next) = true := rfl
    obtain ⟨hpresetSep, hpresetFirst⟩ := separated_presetTokens hpreset hend
    rw [← firstChar_append] at hpresetFirst
    have hvar : endsName
        (firstChar (.var " " name :: (presetTokens preset ++ [.sym "" ";"])) next) = true :=
      endsName_space rfl
    obtain ⟨hhintSep, hhintFirst⟩ := separated_hintTokens hhint hvar
    rw [← firstChar_append] at hhintFirst
    exact ⟨fits_word hlead (by decide) hhintFirst, separated_append.2 ⟨hhintSep,
      fits_variable isLead_space (isName_of_isIdentifier hname) hpresetFirst, separated_append.2
        ⟨hpresetSep, fits_plainSymbol isLead_empty (by decide) _, trivial⟩⟩⟩
  | @method visibility isStatic name params returnType body hname hparams hreturn hbody =>
    have hblock := separated_blockTokens hbody next
    have hhead : Separated (.word " " "function" :: .word " " name :: .sym "" "(" ::
        (paramsTokens "" params ++ .sym "" ")" ::
          (returnTokens returnType ++ blockTokens body))) next := by
      refine ⟨fits_word isLead_space (by decide) (endsName_space rfl),
        fits_word isLead_space (isName_of_isIdentifier hname) rfl,
        fits_plainSymbol isLead_empty (by decide) _,
        separated_append.2 ⟨separated_paramsTokens hparams isLead_empty rfl,
          fits_plainSymbol isLead_empty (by decide) _, separated_append.2 ⟨?_, hblock⟩⟩⟩
      refine separated_returnTokens hreturn ?_
      rw [blockTokens, firstChar_newline]
      rfl
    have hword : isName visibility.word = true := by cases visibility <;> decide
    cases isStatic with
    | false => exact ⟨fits_word hlead hword (endsName_space rfl), hhead⟩
    | true =>
      exact ⟨fits_word hlead hword (endsName_space rfl),
        fits_word isLead_space (by decide) (endsName_space rfl), hhead⟩

/-! ## Reading -/

namespace Grammar

variable {α β : Type} {l r : Lexeme} {ls rest : List Lexeme} {sub : Rules}

/-! ### Sequences -/

theorem partsUntil_stop {stop : Option Lexeme → Bool} {p : Parse α} {fuel : Nat}
    (hr : r.isExtra = false) (hstop : stop (some r) = true) :
    partsUntil stop p (fuel + 1) (r :: rest) = some ([], r :: rest) := by
  simp [partsUntil, hr, hstop]

/-- One more node in front of others. -/
theorem partsUntil_node {stop : Option Lexeme → Bool} {p : Parse α} {fuel : Nat} {a : α}
    {parts : List (Part α)} {last : List Lexeme} (hl : l.isExtra = false)
    (hstop : stop (some l) = false) (hp : p (l :: (ls ++ rest)) = some (a, rest))
    (h : partsUntil stop p fuel rest = some (parts, last)) :
    partsUntil stop p (fuel + 1) (l :: (ls ++ rest)) =
      some (.node (l :: ls) a :: parts, last) := by
  have hconsumed : consumed (l :: (ls ++ rest)) rest = l :: ls := by
    rw [consumed, ← List.cons_append, List.length_append, Nat.add_sub_cancel, List.take_left]
  simp [partsUntil, hl, hstop, hp, h, hconsumed]

/-- Parts that are read of things: each is a node of the tokens of its thing, with what is read of
    them. -/
def PartsOf (tokens : β → List Token) (R : β → α → Prop) (things : List β)
    (parts : List (Part α)) : Prop :=
  List.Forall₂ (fun b p => ∃ ls a, p = .node ls a ∧ ls.map Lexeme.token = tokens b ∧ R b a)
    things parts

/-- Things that start as operands do are read one after the other, up to where nothing more is
    read. -/
theorem partsUntil_tokens {stop : Option Lexeme → Bool} {p : Parse α} {tokens : β → List Token}
    {R : β → α → Prop} {things : List β} {last : List Lexeme} {n : Nat}
    (hhead : ∀ b ∈ things, ∃ t ts, tokens b = t :: ts ∧ startsOperand t = true)
    (hread : ∀ b ∈ things, ∀ ls rest, ls.map Lexeme.token = tokens b → ls.length ≤ n →
      ∃ a, p (ls ++ rest) = some (a, rest) ∧ R b a)
    (hstop : ∀ l, startsOperand l.token = true → stop (some l) = false)
    (hlast : ∀ fuel, partsUntil stop p (fuel + 1) last = some ([], last))
    (hls : ls.map Lexeme.token = things.flatMap tokens) (hn : ls.length ≤ n) {fuel : Nat}
    (hfuel : things.length < fuel) :
    ∃ parts, partsUntil stop p fuel (ls ++ last) = some (parts, last) ∧
      PartsOf tokens R things parts := by
  induction things generalizing ls fuel with
  | nil =>
    obtain ⟨fuel, rfl⟩ : ∃ k, fuel = k + 1 := ⟨fuel - 1, by omega⟩
    rw [List.flatMap_nil, List.map_eq_nil_iff] at hls
    subst hls
    exact ⟨[], hlast fuel, .nil⟩
  | cons b things ih =>
    obtain ⟨fuel, rfl⟩ : ∃ k, fuel = k + 1 := ⟨fuel - 1, by omega⟩
    rw [List.length_cons, Nat.succ_lt_succ_iff] at hfuel
    rw [List.forall_mem_cons] at hhead hread
    rw [List.flatMap_cons] at hls
    obtain ⟨lsb, lsr, rfl, hlsb, hlsr⟩ := List.map_eq_append_iff.1 hls
    rw [List.length_append] at hn
    obtain ⟨parts, hparts, hothers⟩ := ih hhead.2 hread.2 hlsr (by omega) hfuel
    obtain ⟨a, hp, hfirst⟩ := hread.1 lsb (lsr ++ last) hlsb (by omega)
    obtain ⟨t, ts, htokens, ht⟩ := hhead.1
    obtain ⟨l, lsb, rfl, rfl, -⟩ := List.map_eq_cons_iff.1 (hlsb.trans htokens)
    rw [List.append_assoc]
    exact ⟨_, partsUntil_node (isExtra_of_startsOperand ht) (hstop l ht) hp hparts,
      .cons ⟨_, a, rfl, hlsb, hfirst⟩ hothers⟩

/-- The tokens of things are at least as many as the things. -/
theorem length_flatMap_ge {tokens : β → List Token} {things : List β}
    (hhead : ∀ b ∈ things, ∃ t ts, tokens b = t :: ts ∧ startsOperand t = true) :
    things.length ≤ (things.flatMap tokens).length := by
  induction things with
  | nil => exact Nat.le_refl 0
  | cons b things ih =>
    rw [List.forall_mem_cons] at hhead
    have hothers := ih hhead.2
    obtain ⟨t, ts, htokens, -⟩ := hhead.1
    rw [List.flatMap_cons, htokens, List.length_append, List.length_cons, List.length_cons]
    omega

theorem closesBlock_of_startsOperand (h : startsOperand l.token = true) :
    closesBlock (some l) = false := isSymbol_of_startsOperand h (by decide)

/-- Things in braces, behind the first brace. -/
theorem partsUntil_brace {p : Parse α} {tokens : β → List Token} {R : β → α → Prop}
    {things : List β} {n : Nat}
    (hhead : ∀ b ∈ things, ∃ t ts, tokens b = t :: ts ∧ startsOperand t = true)
    (hread : ∀ b ∈ things, ∀ ls rest, ls.map Lexeme.token = tokens b → ls.length ≤ n →
      ∃ a, p (ls ++ rest) = some (a, rest) ∧ R b a) (hr : r.isSymbol "\x7d" = true)
    (hls : ls.map Lexeme.token = things.flatMap tokens) (hn : ls.length ≤ n) :
    ∃ parts, bounded (partsUntil closesBlock p) (ls ++ r :: rest) = some (parts, r :: rest) ∧
      PartsOf tokens R things parts := by
  have hlength := length_flatMap_ge hhead
  rw [← hls, List.length_map] at hlength
  exact partsUntil_tokens hhead hread (fun _ => closesBlock_of_startsOperand)
    (fun _ => partsUntil_stop (isExtra_of_isSymbol hr) hr) hls hn
    (by rw [List.length_append]; omega)

/-! ### Statements -/

/-- How a statement with a text of its own is read back, by its kind. -/
abbrev StatementReadAs (s : Statement) (c : Construct) : Prop := ReadAs s.kind c.statementKind

/-- A statement starts as an operand does. -/
theorem head_statementTokens (level : Nat) {k : StatementKind} (h : PlainKind k) :
    ∃ t ts, statementTokens level k = t :: ts ∧ startsOperand t = true := by
  cases h with
  | @assign target value _ hstarts _ _ =>
    obtain ⟨s, ts, hts⟩ := exists_of_startsWithVariable hstarts
    exact ⟨_, _, by rw [statementTokens, hts]; rfl, rfl⟩
  | yield _ => exact ⟨_, _, rfl, rfl⟩
  | @expression e _ he =>
    obtain ⟨t, ts, htokens, ht, -⟩ := head_exprTokens level false (newline level) e he
    exact ⟨_, _, by rw [statementTokens_expression level he, htokens]; rfl, ht⟩
  | cast => exact ⟨_, _, rfl, rfl⟩
  | found _ => exact ⟨_, _, statementTokens_raw level _, rfl⟩
  | ret he => exact ⟨_, _, statementTokens_ret level he, rfl⟩

/-- What is read of statements are their kinds. -/
theorem kinds_statementsAfter {body : List Statement} {parts : List (Part Construct)}
    {tokens : Statement → List Token} (h : PartsOf tokens StatementReadAs body parts)
    (last : Nat) (before : Option Statement) :
    ∃ body', statementsAfter last before parts = before.toList ++ body' ∧
      List.Forall₂ (fun s s' => ReadAs s.kind s'.kind) body body' := by
  induction h generalizing last before with
  | nil => exact ⟨[], by simp [statementsAfter], .nil⟩
  | cons hp hps ih =>
    obtain ⟨ls, c, rfl, -, hkind⟩ := hp
    obtain ⟨body', hbody, hkinds⟩ := ih (Part.node ls c).endRow
      (some (statementsAfter.statementOf (.node ls c) last))
    rw [statementsAfter_node, hbody]
    exact ⟨_ :: body', rfl, .cons hkind hkinds⟩

variable (rest) in
/-- A block is read back up to the kinds of its statements. -/
theorem block_blockTokens (n : Nat) {body : List Statement} (h : ∀ s ∈ body, PlainStatement s)
    (hls : ls.map Lexeme.token = blockTokens body) (hn : ls.length ≤ n) :
    ∃ body', block (rulesAt (n + 2)) (ls ++ rest) = some (body', rest) ∧
      List.Forall₂ (fun s s' => ReadAs s.kind s'.kind) body body' := by
  rw [blockTokens] at hls
  obtain ⟨l, ls₁, rfl, hl, hls₁⟩ := exists_of_sym hls
  obtain ⟨lsb, lsr, rfl, hlsb, hlsr⟩ := List.map_eq_append_iff.1 hls₁
  obtain ⟨r, rfl, hr⟩ := exists_of_sym_single hlsr
  simp only [List.length_cons, List.length_append] at hn
  obtain ⟨parts, hparts, hkinds⟩ : ∃ parts, bounded (partsUntil closesBlock (statementAt (n + 2)))
      (lsb ++ r :: rest) = some (parts, r :: rest) ∧
        PartsOf (fun s => statementTokens 2 s.kind) StatementReadAs body parts :=
    partsUntil_brace (fun s hs => head_statementTokens 2 (h s hs).kind)
      (fun s hs _ _ hls hn => statementAt_statementTokens (h s hs).kind hls hn) hr hlsb (by omega)
  obtain ⟨body', hbody, hkinds⟩ := kinds_statementsAfter hkinds l.row none
  refine ⟨body', ?_, hkinds⟩
  have hbrace : lexeme (Lexeme.isSymbol "\x7b") (l :: (lsb ++ r :: rest)) =
      some (l, lsb ++ r :: rest) := lexeme_cons (isExtra_of_isSymbol hl) hl
  simp only [List.cons_append, List.append_assoc, List.nil_append]
  rw [block, bind_apply, hbrace, Option.bind_some, bind_apply]
  show (bounded (partsUntil closesBlock (statementAt (n + 2))) _).bind _ = _
  rw [hparts]
  simp [symbol_cons hr, statementsOf, hbody]

/-! ### Members -/

/-- How a member is read back: as it was, or, if it is a method, with each statement of its body as
    that is read back. -/
inductive MemberReadAs : MemberKind → MemberKind → Prop where
  | same (k : MemberKind) : MemberReadAs k k
  | method {d : MethodDecl} {body body' : List Statement} : d.body = some body →
      List.Forall₂ (fun s s' => ReadAs s.kind s'.kind) body body' →
      MemberReadAs (.method d) (.method { d with body := some body' })

theorem commaSeparated_last {p : Parse α} {a : α} {fuel : Nat} (hp : p ls = some (a, r :: rest))
    (hr : r.isExtra = false) (hcomma : r.isSymbol "," = false) :
    commaSeparated p (fuel + 1) ls = some ([a], r :: rest) := by
  simp [commaSeparated, hp, symbol?_cons_of_not hr hcomma]

variable (rest) in
/-- A list of one thing between commas. -/
theorem commas_single {p : Parse α} {a : α} (hp : p ls = some (a, r :: rest))
    (hr : r.isExtra = false) (hcomma : r.isSymbol "," = false) :
    commas p ls = some ([a], r :: rest) := by
  rw [commas, bounded_apply, commaSeparated_last hp hr hcomma]

/-- The value behind an equals sign, in front of a semicolon. -/
theorem anyExpression_line {n : Nat} {e : Expr} (he : isPlain e = true) {lead : String}
    (hls : ls.map Lexeme.token = exprTokens 1 false lead e) (hn : ls.length ≤ n)
    (hr : r.isSymbol ";" = true) :
    (rulesAt n).anyExpression (ls ++ r :: rest) = some (e, r :: rest) :=
  expressionAt_exprTokens n e 1 false lead 1 ls r rest he (one_le_level he) hls hn
    (Ends.of_closer (by decide) hr 1)

theorem member_traitUse {use name : Lexeme} (huse : use.isWord "use" = true)
    (hname : name.kind = .word) (hr : r.isSymbol ";" = true) :
    member sub (use :: name :: r :: rest) = some (.traitUse [name.text], rest) := by
  have hextra := isExtra_of_isSymbol hr
  have hsep : r.isSymbol "\\" = false := isSymbol_of_isSymbol hr (by decide)
  have hbrace : r.isSymbol "\x7b" = false := isSymbol_of_isSymbol hr (by decide)
  have hcomma : r.isSymbol "," = false := isSymbol_of_isSymbol hr (by decide)
  have hnames : commas qualifiedName (name :: r :: rest) = some ([name.text], r :: rest) :=
    commas_single _ (qualifiedName_cons hname hextra hsep) hextra hcomma
  simp [member, ahead_cons (isExtra_of_isWord huse), huse, traitUse, word_cons huse, hnames,
    symbol?_cons_of_not hextra hbrace, statementEnd_cons hr]

variable (rest sub) in
/-- A member that starts with a modifier is what its keyword says. -/
theorem member_modifiers (first : Lexeme) (ms : List Lexeme)
    (hms : ∀ m ∈ first :: ms, isOneOf memberModifiers m = true) (hr : r.isExtra = false)
    (hopen : r.isSymbol "(" = false) (hnone : isOneOf memberModifiers r = false) :
    member sub (first :: (ms ++ r :: rest)) =
      (if r.isWord "const" then do
        return .constant ⟨visibilityOf (first.text :: ms.map Lexeme.text), ← constantEntries sub⟩
      else if r.isWord "function" then method sub [] (first.text :: ms.map Lexeme.text)
      else if r.isWord "case" then enumerationCase sub
      else property sub (first.text :: ms.map Lexeme.text)) (r :: rest) := by
  have hread : modifiers memberModifiers (first :: ms ++ r :: rest) =
      some ((first :: ms).map Lexeme.text, r :: rest) := modifiers_words _ _ _ hms hr hopen hnone
  have hfirst := hms first List.mem_cons_self
  have hkind := kind_of_isOneOf hfirst
  have hextra := isExtra_of_kind (.inl hkind)
  have huse : first.isWord "use" = false := by
    obtain ⟨w, hw, hword⟩ := List.any_eq_true.1 hfirst
    exact isWord_of_isWord hword (by rintro rfl; revert hw; decide)
  have hgroup : first.isSymbol "#[" = false := by simp [Lexeme.isSymbol, hkind]
  rw [List.cons_append, List.map_cons] at hread
  simp only [member, bind_apply, ahead_cons hextra, Option.bind_some, huse, Bool.false_eq_true,
    if_false, attributes, hgroup, pure_apply, hread, ahead_cons hr, List.isEmpty_cons]
  cases hconst : r.isWord "const" <;> cases hfunction : r.isWord "function" <;>
    cases hcase : r.isWord "case" <;> simp [ahead_cons hr, hfunction, hcase]

theorem isOneOf_visibility {l : Lexeme} (hk : l.kind = .word) {v : Visibility}
    (ht : l.text = v.word) : isOneOf memberModifiers l = true := by
  have hall : memberModifiers.any fun w => Text.foldAscii v.word == w := by cases v <;> decide
  simpa [isOneOf, isWord_of_kind hk, ht] using hall

/-- A constant is read back. -/
theorem member_constant {n : Nat} {name lead : String} {value : Expr} (hvalue : isPlain value = true)
    (hls : ls.map Lexeme.token = memberTokens lead (.constant (.publicOne name value)))
    (hn : ls.length ≤ n) :
    member (rulesAt n) (ls ++ rest) = some (.constant (.publicOne name value), rest) := by
  obtain ⟨first, ls₁, rfl, hfirst, hpublic, hls₁⟩ := exists_of_word hls
  obtain ⟨const, ls₂, rfl, hconst, hword, hls₂⟩ := exists_of_word hls₁
  obtain ⟨l, ls₃, rfl, hl, rfl, hls₃⟩ := exists_of_word hls₂
  obtain ⟨sign, ls₄, rfl, hsign, hls₄⟩ := exists_of_sym hls₃
  obtain ⟨lsv, r, rfl, hlsv, hr⟩ := exists_of_semicolon hls₄
  have hextra := isExtra_of_isSymbol hr
  have hconstWord : const.isWord "const" = true := by
    rw [isWord_of_kind hconst, hword]
    decide
  have hread : (rulesAt n).anyExpression (lsv ++ r :: rest) = some (value, r :: rest) := by
    refine anyExpression_line hvalue hlsv ?_ hr
    simp only [List.length_cons, List.length_append] at hn
    omega
  have hentry : constantEntry (rulesAt n) (l :: sign :: (lsv ++ r :: rest)) =
      some ((l.text, value), r :: rest) := by
    simp [constantEntry, anyWord_cons hl, symbol_cons hsign, hread]
  have hentries : constantEntries (rulesAt n) (const :: l :: sign :: (lsv ++ r :: rest)) =
      some ([(l.text, value)], rest) := by
    have hlist := commas_single _ hentry hextra (isSymbol_of_isSymbol hr (by decide))
    simp [constantEntries, word_cons hconstWord, hlist, hsign, statementEnd_cons hr,
      aheadSecond_cons (isExtra_of_kind (.inl hl)) (isExtra_of_isSymbol hsign)]
  have hnone : isOneOf memberModifiers const = false := by
    simp only [isOneOf, isWord_of_kind hconst, hword]
    decide
  have hmodifiers :=
    member_modifiers (l :: sign :: (lsv ++ r :: rest)) (rulesAt n) first [] (r := const)
    (List.forall_mem_singleton.2 (isOneOf_visibility hfirst (v := .pub) hpublic))
    (isExtra_of_kind (.inl hconst)) (by simp [Lexeme.isSymbol, hconst]) hnone
  have hvisibility : visibilityOf ["public"] = some .pub := by decide
  have hpublic : first.text = "public" := hpublic
  simp only [List.nil_append, hconstWord, if_true, List.map_nil, hpublic, hvisibility, bind_apply,
    hentries] at hmodifiers
  simpa [ConstantDecl.publicOne] using hmodifiers

/-- A property with its default is read back. -/
theorem propertyEntry_tokens {n : Nat} {name : String} {preset : Option Expr} {l : Lexeme}
    (hl : l.kind = .variable) (ht : l.text = "$" ++ name) (hname : isIdentifier name = true)
    (hpreset : ∀ e ∈ preset, isPlain e = true) (hls : ls.map Lexeme.token = presetTokens preset)
    (hn : ls.length ≤ n) (hr : r.isSymbol ";" = true) :
    propertyEntry (rulesAt n) (l :: (ls ++ r :: rest)) = some ((name, preset), r :: rest) := by
  have hextra := isExtra_of_kind (.inr hl)
  cases preset with
  | none =>
    rw [presetTokens, List.map_eq_nil_iff] at hls
    subst hls
    have hsign : r.isSymbol "=" = false := isSymbol_of_isSymbol hr (by decide)
    simp [propertyEntry, lexeme_cons hextra, hl, ht, trimLeft_sign (isName_of_isIdentifier hname),
      symbol?_cons_of_not (isExtra_of_isSymbol hr) hsign]
  | some e =>
    obtain ⟨sign, lse, rfl, hsign, hlse⟩ := exists_of_sym hls
    have hread : (rulesAt n).anyExpression (lse ++ r :: rest) = some (e, r :: rest) := by
      refine anyExpression_line (hpreset e rfl) hlse ?_ hr
      rw [List.length_cons] at hn
      omega
    simp [propertyEntry, lexeme_cons hextra, hl, ht, trimLeft_sign (isName_of_isIdentifier hname),
      symbol?_cons hsign, hread]

/-- A type in front of a variable, if there is one. -/
theorem type?_hintTokens {hint : Option String} (h : ∀ s ∈ hint, TypeHint s)
    (hls : ls.map Lexeme.token = hintTokens hint) (hr : r.kind = .variable) :
    type? (ls ++ r :: rest) = some (hint, r :: rest) := by
  have hextra := isExtra_of_kind (.inr hr)
  have hsymbol : ∀ s, r.isSymbol s = false := fun s => by simp [Lexeme.isSymbol, hr]
  cases hint with
  | none =>
    rw [hintTokens, List.map_eq_nil_iff] at hls
    subst hls
    simp [type?, ahead_cons hextra, startsType, startsName, hsymbol, hr]
  | some s =>
    have hmark : isTypeMark r = false := by simp [isTypeMark, hsymbol]
    have hread := typeText_typeTokens rest (h s rfl) hls hextra hmark (hsymbol _)
    obtain ⟨l, ls', rfl, hstarts, hextra', -⟩ := exists_of_typeTokens (h s rfl) hls
    rw [List.cons_append] at hread ⊢
    simp [type?, ahead_cons hextra', hstarts, hread]

variable (rest) in
/-- What stands behind the modifier of a property is no modifier and no keyword of a member. -/
theorem exists_of_hintTokens {hint : Option String} (h : ∀ s ∈ hint, TypeHint s)
    (hls : ls.map Lexeme.token = hintTokens hint) (hr : r.kind = .variable) :
    ∃ l ls', ls ++ r :: rest = l :: ls' ∧ l.isExtra = false ∧ l.isSymbol "(" = false ∧
      isOneOf memberModifiers l = false ∧ isOneOf ["const", "function", "case"] l = false := by
  cases hint with
  | none =>
    rw [hintTokens, List.map_eq_nil_iff] at hls
    subst hls
    exact ⟨r, rest, rfl, isExtra_of_kind (.inr hr), by simp [Lexeme.isSymbol, hr],
      by simp [isOneOf, Lexeme.isWord, hr], by simp [isOneOf, Lexeme.isWord, hr]⟩
  | some s =>
    obtain ⟨l, ls', rfl, -, hextra, hkind⟩ := exists_of_typeTokens (h s rfl) hls
    refine ⟨l, ls' ++ r :: rest, rfl, hextra, ?_,
      isOneOf_of_typeName (by decide) (by decide) hkind,
      isOneOf_of_typeName (by decide) (by decide) hkind⟩
    rcases hkind with hkind | ⟨hkind, -⟩
    · exact isSymbol_of_isSymbol hkind (by decide)
    · simp [Lexeme.isSymbol, hkind]

/-- A property is read back. -/
theorem member_property {n : Nat} {hint : Option String} {name lead : String} {preset : Option Expr}
    (hhint : ∀ s ∈ hint, TypeHint s) (hname : isIdentifier name = true)
    (hpreset : ∀ e ∈ preset, isPlain e = true)
    (hls : ls.map Lexeme.token = memberTokens lead (.property (.privateOne hint name preset)))
    (hn : ls.length ≤ n) :
    member (rulesAt n) (ls ++ rest) = some (.property (.privateOne hint name preset), rest) := by
  obtain ⟨first, ls₁, rfl, hfirst, hprivate, hls₁⟩ := exists_of_word hls
  obtain ⟨lsh, ls₂, rfl, hlsh, hls₂⟩ := List.map_eq_append_iff.1 hls₁
  obtain ⟨l, ls₃, rfl, hl, ht, hls₃⟩ := exists_of_var hls₂
  obtain ⟨lsp, r, rfl, hlsp, hr⟩ := exists_of_semicolon hls₃
  have hentry : propertyEntry (rulesAt n) (l :: (lsp ++ r :: rest)) =
      some ((name, preset), r :: rest) := by
    refine propertyEntry_tokens hl ht hname hpreset hlsp ?_ hr
    simp only [List.length_cons, List.length_append] at hn
    omega
  have hentries := commas_single _ hentry (isExtra_of_isSymbol hr)
    (isSymbol_of_isSymbol hr (by decide))
  have hend : propertyEnd (rulesAt n) (r :: rest) = some ((), rest) := by
    have hbrace : r.isSymbol "\x7b" = false := isSymbol_of_isSymbol hr (by decide)
    simp [propertyEnd, symbol?_cons_of_not (isExtra_of_isSymbol hr) hbrace, statementEnd_cons hr]
  have hprivate : first.text = "private" := hprivate
  have hvisibility : visibilityOf ["private"] = some .priv := by decide
  have hstatic : hasWord "static" ["private"] = false := by decide
  have hreadonly : hasWord "readonly" ["private"] = false := by decide
  have hproperty : property (rulesAt n) ["private"] (lsh ++ l :: (lsp ++ r :: rest)) =
      some (.property (.privateOne hint name preset), rest) := by
    simp [property, type?_hintTokens hhint hlsh hl, hentries, hend, hvisibility, hstatic,
      hreadonly, PropertyDecl.privateOne]
  obtain ⟨next, others, hnext, hextra, hopen, hnone, hkeyword⟩ :=
    exists_of_hintTokens (lsp ++ r :: rest) hhint hlsh hl
  have hmodifiers := member_modifiers others (rulesAt n) first [] (r := next)
    (List.forall_mem_singleton.2 (isOneOf_visibility hfirst (v := .priv) hprivate)) hextra hopen
    hnone
  simp only [isOneOf, List.any_cons, List.any_nil, Bool.or_false, Bool.or_eq_false_iff] at hkeyword
  simp only [List.nil_append, hkeyword, Bool.false_eq_true, if_false, List.map_nil, hprivate,
    ← hnext, hproperty] at hmodifiers
  simpa using hmodifiers

theorem visibilityOf_word (v : Visibility) : visibilityOf [v.word] = some v := by
  cases v <;> decide

theorem visibilityOf_static (v : Visibility) : visibilityOf [v.word, "static"] = some v := by
  cases v <;> decide

/-- A return type behind a list of parameters, if there is one. -/
theorem returnType?_returnTokens {returnType : Option String} (h : ∀ s ∈ returnType, TypeHint s)
    (hls : ls.map Lexeme.token = returnTokens returnType) (hr : r.isSymbol "\x7b" = true) :
    returnType? (ls ++ r :: rest) = some (returnType, r :: rest) := by
  have hextra := isExtra_of_isSymbol hr
  cases returnType with
  | none =>
    rw [returnTokens, List.map_eq_nil_iff] at hls
    subst hls
    have hcolon : r.isSymbol ":" = false := isSymbol_of_isSymbol hr (by decide)
    simp [returnType?, symbol?_cons_of_not hextra hcolon]
  | some s =>
    obtain ⟨colon, lst, rfl, hcolon, hlst⟩ := exists_of_sym hls
    have hsymbol : ∀ t, t ≠ "\x7b" → r.isSymbol t = false :=
      fun t ht => isSymbol_of_isSymbol hr ht.symm
    have hmark : isTypeMark r = false := by simp [isTypeMark, hsymbol]
    have hread := typeText_typeTokens rest (h s rfl) hlst hextra hmark
      (hsymbol _ (by decide))
    simp [returnType?, symbol?_cons hcolon, hread]

variable (rest) in
/-- A method is read back up to the kinds of its statements, behind modifiers. -/
theorem method_methodTokens (n : Nat) {name : String} {params : List Param}
    {returnType : Option String} {body : List Statement} (hname : isIdentifier name = true)
    (hparams : ∀ p ∈ params, PlainParam p) (hreturn : ∀ s ∈ returnType, TypeHint s)
    (hbody : ∀ s ∈ body, PlainStatement s)
    (hls : ls.map Lexeme.token = .word " " "function" :: .word " " name :: .sym "" "(" ::
      (paramsTokens "" params ++ .sym "" ")" :: (returnTokens returnType ++ blockTokens body)))
    (hn : ls.length ≤ n) (ms : List String) :
    ∃ body', method (rulesAt (n + 2)) [] ms (ls ++ rest) =
        some (.method {
          attributes := []
          visibility := visibilityOf ms
          isStatic := hasWord "static" ms
          isAbstract := hasWord "abstract" ms
          isFinal := hasWord "final" ms
          byReference := false
          name := name
          params := params
          returnType := returnType
          body := some body' }, rest) ∧
      List.Forall₂ (fun s s' => ReadAs s.kind s'.kind) body body' := by
  obtain ⟨keyword, ls₁, rfl, hkeyword, htext, hls₁⟩ := exists_of_word hls
  obtain ⟨l, ls₂, rfl, hl, rfl, hls₂⟩ := exists_of_word hls₁
  obtain ⟨left, ls₃, rfl, hleft, hls₃⟩ := exists_of_sym hls₂
  obtain ⟨lsp, ls₄, rfl, hlsp, hls₄⟩ := List.map_eq_append_iff.1 hls₃
  obtain ⟨right, ls₅, rfl, hright, hls₅⟩ := exists_of_sym hls₄
  obtain ⟨lst, lsb, rfl, hlst, hlsb⟩ := List.map_eq_append_iff.1 hls₅
  obtain ⟨brace, lsb', hbrace, hsymbol, -⟩ := exists_of_sym hlsb
  have hextra := isExtra_of_kind (.inl hl)
  have hfunction : keyword.isWord "function" = true := by
    rw [isWord_of_kind hkeyword, htext]
    decide
  have hreference : l.isSymbol "&" = false := by simp [Lexeme.isSymbol, hl]
  have hps : Grammar.params (rulesAt (n + 2)) (left :: (lsp ++ right :: (lst ++ lsb ++ rest))) =
      some (params, lst ++ lsb ++ rest) := params_paramsTokens hparams hleft hlsp hright
  have hreturns : returnType? (lst ++ (lsb ++ rest)) = some (returnType, lsb ++ rest) := by
    rw [hbrace]
    exact returnType?_returnTokens hreturn hlst hsymbol
  have hahead : ahead (Lexeme.isSymbol "\x7b") (lsb ++ rest) = some (true, lsb ++ rest) := by
    rw [hbrace, List.cons_append, ahead_cons (isExtra_of_isSymbol hsymbol), hsymbol]
  obtain ⟨body', hblock, hkinds⟩ := block_blockTokens rest n hbody hlsb (by
    simp only [List.length_cons, List.length_append] at hn
    omega)
  refine ⟨body', ?_, hkinds⟩
  rw [List.append_assoc] at hps
  simp [method, word_cons hfunction, symbol?_cons_of_not hextra hreference, anyWord_cons hl, hps,
    hreturns, hahead, hblock]

/-- A method with its modifiers is read back up to the kinds of its statements. -/
theorem member_method {n : Nat} {visibility : Visibility} {isStatic : Bool} {name lead : String}
    {params : List Param} {returnType : Option String} {body : List Statement}
    (hname : isIdentifier name = true) (hparams : ∀ p ∈ params, PlainParam p)
    (hreturn : ∀ s ∈ returnType, TypeHint s) (hbody : ∀ s ∈ body, PlainStatement s)
    (hls : ls.map Lexeme.token =
      methodTokens lead (.plain visibility isStatic name params returnType body))
    (hn : ls.length ≤ n) :
    ∃ body', member (rulesAt (n + 2)) (ls ++ rest) =
        some (.method (.plain visibility isStatic name params returnType body'), rest) ∧
      List.Forall₂ (fun s s' => ReadAs s.kind s'.kind) body body' := by
  obtain ⟨first, ls₁, rfl, hfirst, hword, hls₁⟩ := exists_of_word hls
  have hword : first.text = visibility.word := hword
  obtain ⟨lsm, lsf, rfl, hlsm, hlsf⟩ := List.map_eq_append_iff.1 hls₁
  obtain ⟨keyword, others, hkeywords, hkeyword, htext, -⟩ := exists_of_word hlsf
  -- The modifiers behind the visibility: none, or the word of a static method.
  have hmodifiers : (∀ m ∈ lsm, isOneOf memberModifiers m = true) ∧
      lsm.map Lexeme.text = if isStatic then ["static"] else [] := by
    cases isStatic with
    | false =>
      rw [show (MethodDecl.plain _ false _ _ _ _).isStatic = false from rfl] at hlsm
      simp only [Bool.false_eq_true, if_false, List.map_eq_nil_iff] at hlsm
      simp [hlsm]
    | true =>
      obtain ⟨static, lsm, rfl, hkind, hstatic, hnil⟩ := exists_of_word hlsm
      rw [List.map_eq_nil_iff] at hnil
      subst hnil
      refine ⟨List.forall_mem_singleton.2 ?_, by simp [hstatic]⟩
      simp only [isOneOf, isWord_of_kind hkind, hstatic]
      decide
  obtain ⟨body', hread, hkinds⟩ := method_methodTokens rest n hname hparams
    hreturn hbody hlsf (by
      simp only [List.length_cons, List.length_append] at hn
      omega) (first.text :: lsm.map Lexeme.text)
  have hnone : isOneOf memberModifiers keyword = false := by
    simp only [isOneOf, isWord_of_kind hkeyword, htext]
    decide
  have hmember := member_modifiers (others ++ rest) (rulesAt (n + 2)) first lsm
    (r := keyword)
    (List.forall_mem_cons.2 ⟨isOneOf_visibility hfirst hword, hmodifiers.1⟩)
    (isExtra_of_kind (.inl hkeyword)) (by simp [Lexeme.isSymbol, hkeyword]) hnone
  have hconst : keyword.isWord "const" = false := by
    rw [isWord_of_kind hkeyword, htext]
    decide
  have hfunction : keyword.isWord "function" = true := by
    rw [isWord_of_kind hkeyword, htext]
    decide
  rw [← List.cons_append (a := keyword), ← hkeywords] at hmember
  refine ⟨body', ?_, hkinds⟩
  rw [List.cons_append, List.append_assoc, hmember, hconst, hfunction]
  simp only [Bool.false_eq_true, if_false, if_true, hread]
  rw [hword, hmodifiers.2]
  cases isStatic with
  | false =>
    rw [if_neg Bool.false_ne_true, visibilityOf_word]
    cases visibility <;> rfl
  | true =>
    rw [if_pos rfl, visibilityOf_static]
    cases visibility <;> rfl

/-- A member is read back. -/
theorem member_memberTokens {n : Nat} {k : MemberKind} (h : PlainMemberKind k) {lead : String}
    (hls : ls.map Lexeme.token = memberTokens lead k) (hn : ls.length ≤ n) :
    ∃ k', member (rulesAt (n + 2)) (ls ++ rest) = some (k', rest) ∧ MemberReadAs k k' := by
  cases h with
  | traitUse _ =>
    obtain ⟨use, ls₁, rfl, huse, htext, hls₁⟩ := exists_of_word hls
    obtain ⟨l, ls₂, rfl, hl, rfl, hls₂⟩ := exists_of_word hls₁
    obtain ⟨r, rfl, hr⟩ := exists_of_sym_single hls₂
    have hword : use.isWord "use" = true := by
      rw [isWord_of_kind huse, htext]
      decide
    exact ⟨_, member_traitUse hword hl hr, .same _⟩
  | constant _ hvalue => exact ⟨_, member_constant hvalue hls (by omega), .same _⟩
  | property hhint hname hpreset =>
    exact ⟨_, member_property hhint hname hpreset hls (by omega), .same _⟩
  | method hname hparams hreturn hbody =>
    obtain ⟨body', hread, hkinds⟩ := member_method hname hparams hreturn hbody hls hn
    exact ⟨_, hread, .method rfl hkinds⟩

end Grammar

end DomainScaffold.Php
