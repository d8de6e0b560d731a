import DomainScaffold.Proofs.Php.Spelling

/-!
# Reading arguments and accesses

The parts of an expression that stand behind its operand, read from their tokens, provided that the
rules below read the expressions in them.

Results:
* `arguments_argsTokens`: arguments in round brackets.
* `accesses_arrow`, `accesses_colon`, `accesses_call`: the accesses one after the other.
* `accesses_ends`: nothing that ends an expression is an access.
-/

namespace DomainScaffold.Php.Grammar

variable {l l' r : Lexeme} {ls rest tail : List Lexeme} {sub : Rules} {start : List Lexeme}

/-! ## Words -/

/-- The words that start an operand of another form than a name. -/
def operandKeywords : List String :=
  ["true", "false", "null", "new", "clone", "yield", "fn", "function", "static", "match", "array",
   "list", "namespace", "class", "readonly"] ++ greedyWords

theorem foldAscii_ne_of_isClassWord {s : String} (h : isClassWord s = true) :
    ∀ w ∈ operandKeywords, (Text.foldAscii s == w) = false := by
  intro w hw
  rw [isClassWord, Bool.or_eq_true, beq_iff_eq] at h
  rcases h with h | rfl
  · rw [isOpenName, Bool.and_eq_true, Bool.not_eq_true'] at h
    have hall : ∀ w ∈ operandKeywords, w ∈ reservedWords := by decide
    rw [beq_eq_false_iff_ne]
    rintro rfl
    simp [hall _ hw] at h
  · revert w
    decide

theorem isWord_of_isClassWord (h : isClassWord l.text = true) :
    ∀ w ∈ operandKeywords, l.isWord w = false := by
  intro w hw
  rw [Lexeme.isWord, foldAscii_ne_of_isClassWord h w hw, Bool.and_false]

/-- A name is an operand whatever follows it. -/
theorem wordOperand_name (h : isClassWord l.text = true) (hk : l.kind = .word)
    (hl' : l'.isExtra = false) :
    wordOperand sub start l (l :: l' :: ls) =
      (qualifiedName (l :: l' :: ls)).map fun x => ((.name x.1, .value), x.2) := by
  have hw := isWord_of_isClassWord h
  have hfold := foldAscii_ne_of_isClassWord h
  have hextra : l.isExtra = false := by simp [Lexeme.isExtra, hk]
  simp only [operandKeywords, greedyWords, List.cons_append, List.nil_append,
    List.forall_mem_cons] at hw hfold
  cases hcall : l'.isSymbol "(" <;> cases hname : qualifiedName (l :: l' :: ls) <;>
    simp [wordOperand, wordLiteral?, List.lookup_cons, hw, hfold, word?_cons_of_not hextra,
      isOneOf, greedyWords, operandWords, aheadSecond_cons hextra hl', hcall, hname]

/-! ## What follows an expression -/

/-- The symbols that an operand goes on with. -/
def accessSymbols : List String :=
  ["->", "?->", "::", "(", "[", "\\", "=", "++", "--"] ++ compoundAssignments

/-- Whether an expression of a level ends in front of a lexeme. -/
structure Ends (level : Nat) (r : Lexeme) : Prop where
  notExtra : r.isExtra = false
  noAccess : ∀ s ∈ accessSymbols, r.isSymbol s = false
  noChoice : ¬(r.isSymbol "?" = true ∧ level ≤ conditionalLevel)
  operator : ∀ o, operator? r = some o → o.level < level

/-- The symbols that close what an expression stands in. -/
def closers : List String := [")", "]", ",", ";", "=>", ":"]

theorem Ends.of_closer {s : String} (hs : s ∈ closers) (hr : r.isSymbol s = true) (level : Nat) :
    Ends level r := by
  have hextra := isExtra_of_isSymbol hr
  simp only [Lexeme.isSymbol, Bool.and_eq_true, beq_iff_eq] at hr
  have hsymbol : ∀ t, r.isSymbol t = (s == t) := fun t => by simp [Lexeme.isSymbol, hr]
  have hnone : operator? r = none := by
    have hall : ∀ s ∈ closers, symbolOperators.lookup s = none := by decide
    rw [operator?, hr.1]
    dsimp only
    rw [hr.2, hall s hs]
  refine ⟨hextra, fun t ht => ?_, ?_, fun o ho => ?_⟩
  · rw [hsymbol]
    have hall : ∀ s ∈ closers, ∀ t ∈ accessSymbols, (s == t) = false := by decide
    exact hall s hs t ht
  · have hall : ∀ s ∈ closers, (s == "?") = false := by decide
    simp [hsymbol, hall s hs]
  · rw [hnone] at ho
    cases ho

/-! ## How expressions start -/

/-- The symbols that an operand of generated code may start with. -/
def operandSymbols : List String := ["[", "\\"]

/-- Whether a token starts an operand. -/
def startsOperand (t : Token) : Bool :=
  t.kind == .word || t.kind == .variable || t.kind == .quoted || t.kind == .integer ||
    t.kind == .symbol && operandSymbols.contains t.text

/-- Whether a token inside an expression may stand behind a word, so that the word is no label. -/
def followsWord (t : Token) : Bool :=
  t.kind == .word || t.kind == .variable || t.kind == .quoted || t.kind == .integer ||
    t.kind == .symbol && t.text != ":"

theorem followsWord_of_startsOperand {t : Token} (h : startsOperand t = true) :
    followsWord t = true := by
  simp only [startsOperand, operandSymbols, Bool.or_eq_true, Bool.and_eq_true, beq_iff_eq,
    List.contains_iff_mem] at h
  rcases h with (((h | h) | h) | h) | ⟨h, hs⟩
  all_goals simp only [followsWord, h, beq_self_eq_true, Bool.or_true, Bool.true_or]
  rw [bne_iff_ne.2 (fun heq => absurd (heq ▸ hs) (by decide))]
  rfl

theorem isSymbol_of_followsWord (h : followsWord l.token = true) :
    l.isExtra = false ∧ l.isSymbol ":" = false := by
  simp only [followsWord, Lexeme.token, Bool.or_eq_true, Bool.and_eq_true, beq_iff_eq,
    bne_iff_ne] at h
  rcases h with (((h | h) | h) | h) | ⟨h, hs⟩ <;> simp [Lexeme.isExtra, Lexeme.isSymbol, *]

/-- What starts with a name starts with an operand. -/
theorem head_qualifiedTokens {text : String} (h : NameForm text) (lead : String) {us : List Token}
    (hus : us.head?.all followsWord = true) : ∃ t ts, qualifiedTokens lead text ++ us = t :: ts ∧
      startsOperand t = true ∧ (t.kind = .word → ts.head?.all followsWord = true) := by
  cases h with
  | @relative s names _ hnames =>
    rw [qualifiedTokens_relative lead hnames]
    refine ⟨_, _, rfl, rfl, fun _ => ?_⟩
    cases names with
    | nil => exact hus
    | cons name names => rfl
  | full hnames =>
    rw [qualifiedTokens_full lead hnames]
    exact ⟨_, _, rfl, rfl, fun h => by cases h⟩

/-- A plain expression starts with an operand, and no colon stands behind a word at the start. -/
theorem head_exprTokens (level : Nat) (broken : Bool) (lead : String) (e : Expr)
    (h : isPlain e = true) : ∃ t ts, exprTokens level broken lead e = t :: ts ∧
      startsOperand t = true ∧ (t.kind = .word → ts.head?.all followsWord = true) := by
  cases e with
  | var | text | bool | null | int => exact ⟨_, _, rfl, rfl, fun _ => rfl⟩
  | name s =>
    rw [exprTokens, ← List.append_nil (qualifiedTokens lead s)]
    exact head_qualifiedTokens (nameForm_of_isClassName h) lead rfl
  | classConst className s =>
    rw [isPlain, Bool.and_eq_true] at h
    exact head_qualifiedTokens (nameForm_of_isClassName h.1) lead rfl
  | call function args =>
    rw [isPlain, Bool.and_eq_true] at h
    exact head_qualifiedTokens (nameForm_of_isQualified h.1) lead rfl
  | staticCall className method args =>
    simp only [isPlain, Bool.and_eq_true] at h
    exact head_qualifiedTokens (nameForm_of_isClassName h.1.1) lead rfl
  | new className args =>
    rw [isPlain, Bool.and_eq_true] at h
    have hus : (Token.sym "" "(" :: (argsTokens level "" args ++ [.sym "" ")"])).head?.all
        followsWord = true := rfl
    obtain ⟨t, ts, htokens, ht, -⟩ :=
      head_qualifiedTokens (nameForm_of_isClassName h.1) " " hus
    rw [exprTokens, htokens]
    exact ⟨_, _, rfl, rfl, fun _ => followsWord_of_startsOperand ht⟩
  | array items => exact ⟨_, _, rfl, rfl, fun h => by cases h⟩
  | methodCall object method args =>
    simp only [isPlain, Bool.and_eq_true] at h
    obtain ⟨t, ts, htokens, ht, hts⟩ := head_exprTokens level
      (broken || 2 ≤ Printer.chainLength object) lead object h.1.1.2
    rw [exprTokens, htokens]
    split
    all_goals
      refine ⟨t, _, rfl, ht, fun hk => ?_⟩
      cases ts with
      | nil => rfl
      | cons u ts => exact hts hk
  | property object s =>
    simp only [isPlain, Bool.and_eq_true] at h
    obtain ⟨t, ts, htokens, ht, hts⟩ := head_exprTokens level false lead object h.1.2
    rw [exprTokens, htokens]
    refine ⟨t, _, rfl, ht, fun hk => ?_⟩
    cases ts with
    | nil => rfl
    | cons u ts => exact hts hk
  | clone value =>
    simp only [isPlain, Bool.and_eq_true] at h
    obtain ⟨t, ts, htokens, ht, -⟩ := head_exprTokens level false " " value h.2
    rw [exprTokens, htokens]
    exact ⟨_, _, rfl, rfl, fun _ => followsWord_of_startsOperand ht⟩
  | binary left op right =>
    simp only [isPlain, Bool.and_eq_true] at h
    obtain ⟨t, ts, htokens, ht, hts⟩ := head_exprTokens level false lead left h.1.2
    have hop := mem_operators (Option.isSome_of_any h.1.1)
    rw [exprTokens, htokens]
    refine ⟨t, _, rfl, ht, fun hk => ?_⟩
    cases ts with
    | nil =>
      rcases hop with rfl | rfl | rfl | rfl <;> rfl
    | cons u ts => exact hts hk
  | float | yield | assign | raw => cases h

/-! ## Names and accesses -/

/-- What the rules that a rule calls read back: plain expressions of up to `n` lexemes. -/
def ReadsBelow (sub : Rules) (n : Nat) : Prop :=
  ∀ (e : Expr) (level : Nat) (broken : Bool) (lead : String) (bound : Nat) (ls : List Lexeme)
    (r : Lexeme) (tail : List Lexeme), isPlain e = true → bound ≤ e.level →
      ls.map Lexeme.token = exprTokens level broken lead e → ls.length ≤ n → Ends bound r →
      sub.expression bound (ls ++ r :: tail) = some (e, r :: tail)

theorem isExtra_of_startsOperand (h : startsOperand l.token = true) : l.isExtra = false := by
  simp only [startsOperand, Lexeme.token, Bool.or_eq_true, Bool.and_eq_true, beq_iff_eq] at h
  rcases h with (((h | h) | h) | h) | ⟨h, -⟩ <;> simp [Lexeme.isExtra, h]

theorem isSymbol_of_startsOperand (h : startsOperand l.token = true) {s : String}
    (hs : s ∉ operandSymbols) : l.isSymbol s = false := by
  simp only [startsOperand, Lexeme.token, Bool.or_eq_true, Bool.and_eq_true, beq_iff_eq,
    List.contains_iff_mem] at h
  rcases h with (((h | h) | h) | h) | ⟨h, h'⟩ <;> simp [Lexeme.isSymbol, h]
  exact fun heq => hs (heq ▸ h')

/-- How the lexemes of a plain expression start. -/
theorem exists_of_exprTokens {e : Expr} (he : isPlain e = true) {level : Nat} {broken : Bool}
    {lead : String} (hls : ls.map Lexeme.token = exprTokens level broken lead e) :
    ∃ l ls', ls = l :: ls' ∧ startsOperand l.token = true ∧
      (l.kind = .word → ls'.head?.all (fun u => followsWord u.token) = true) := by
  obtain ⟨t, ts, htokens, ht, hcolon⟩ := head_exprTokens level broken lead e he
  rw [htokens] at hls
  obtain ⟨l, ls', rfl, rfl, rfl⟩ := List.map_eq_cons_iff.1 hls
  refine ⟨l, ls', rfl, ht, fun hk => ?_⟩
  have := hcolon hk
  rwa [List.head?_map, Option.all_map] at this

theorem one_le_level {e : Expr} (h : isPlain e = true) : 1 ≤ e.level := by
  cases e with
  | binary left op right =>
    simp only [isPlain, Bool.and_eq_true] at h
    rcases mem_operators (Option.isSome_of_any h.1.1) with rfl | rfl | rfl | rfl <;>
      simp [Expr.level, plainOperators, List.lookup_cons]
  | _ => exact Nat.le_add_left 1 20

variable (tail) in
theorem argument_exprTokens {n : Nat} (hsub : ReadsBelow sub n) {e : Expr} (he : isPlain e = true)
    {level : Nat} {broken : Bool} {lead : String}
    (hls : ls.map Lexeme.token = exprTokens level broken lead e) (hn : ls.length ≤ n)
    (hr : Ends 1 r) (hcolon : r.isSymbol ":" = false) :
    argument sub (ls ++ r :: tail) = some (e, r :: tail) := by
  have hread := hsub e level broken lead 1 ls r tail he (one_le_level he) hls hn hr
  obtain ⟨l, ls', rfl, hl, hsecond⟩ := exists_of_exprTokens he hls
  have hextra := isExtra_of_startsOperand hl
  rw [List.cons_append] at hread ⊢
  -- A word with a colon behind it would name the argument.
  have hlabel : ¬(l.kind = .word ∧
      (significant (ls' ++ r :: tail)).head?.any (Lexeme.isSymbol ":") = true) := by
    rintro ⟨hk, hany⟩
    have hsecond := hsecond hk
    cases ls' with
    | nil =>
      rw [List.nil_append, significant_cons hr.notExtra] at hany
      rw [List.head?_cons, Option.any_some, hcolon] at hany
      cases hany
    | cons u ls' =>
      obtain ⟨hu, hnot⟩ := isSymbol_of_followsWord hsecond
      rw [List.cons_append, significant_cons hu] at hany
      rw [List.head?_cons, Option.any_some, hnot] at hany
      cases hany
  have hdots := isSymbol_of_startsOperand hl (by decide : "..." ∉ operandSymbols)
  have hsign := isSymbol_of_startsOperand hl (by decide : "&" ∉ operandSymbols)
  simp [argument, here_cons hextra, ahead_cons hextra, aheadSecond, significant_cons hextra,
    if_neg hlabel, symbol?_cons_of_not hextra hdots, symbol?_cons_of_not hextra hsign,
    Rules.anyExpression, hread]

/-! ## Arguments -/

/-- The lexemes of a comma between two elements of a list, or none behind the last. -/
theorem exists_of_commaBefore {α : Type} {args : List α} {ts : List Token}
    (h : ls.map Lexeme.token = commaBefore args ++ ts) :
    (args = [] ∧ ls.map Lexeme.token = ts) ∨
      ∃ comma ls', args ≠ [] ∧ ls = comma :: ls' ∧ comma.isSymbol "," = true ∧
        ls'.map Lexeme.token = ts := by
  cases args with
  | nil => exact .inl ⟨rfl, h⟩
  | cons a args =>
    obtain ⟨row, column, ls', rfl, hls'⟩ := exists_of_map_token h
    exact .inr ⟨_, ls', by simp, rfl, rfl, hls'⟩

theorem isSymbol_of_isSymbol {s t : String} (h : l.isSymbol s = true) (hst : s ≠ t) :
    l.isSymbol t = false := by
  simp only [Lexeme.isSymbol, Bool.and_eq_true, beq_iff_eq] at h
  simp [Lexeme.isSymbol, h, hst]

variable (rest) in
theorem commasUntil_argsTokens {n : Nat} (hsub : ReadsBelow sub n) {close : Lexeme}
    (hclose : close.isSymbol ")" = true) {args : List Expr} (hargs : arePlain args = true)
    {level : Nat} {lead : String} (hls : ls.map Lexeme.token = argsTokens level lead args)
    (hn : ls.length ≤ n) {fuel : Nat} (hfuel : args.length < fuel) :
    commasUntil ")" (argument sub) fuel (ls ++ close :: rest) = some (args, rest) := by
  induction args generalizing ls lead fuel with
  | nil =>
    obtain ⟨fuel, rfl⟩ := Nat.exists_eq_add_of_lt hfuel
    rw [argsTokens, List.map_eq_nil_iff] at hls
    subst hls
    simp [commasUntil, symbol?_cons hclose]
  | cons arg args ih =>
    obtain ⟨fuel, rfl⟩ : ∃ k, fuel = k + 1 := ⟨fuel - 1, by omega⟩
    rw [List.length_cons, Nat.succ_lt_succ_iff] at hfuel
    rw [arePlain, Bool.and_eq_true] at hargs
    rw [argsTokens] at hls
    obtain ⟨lsa, lsr, rfl, hlsa, hlsr⟩ := List.map_eq_append_iff.1 hls
    rw [List.length_append] at hn
    have hfirst : symbol? ")" (lsa ++ (lsr ++ close :: rest)) =
        some (false, lsa ++ (lsr ++ close :: rest)) := by
      obtain ⟨l, ls', rfl, hl, -⟩ := exists_of_exprTokens hargs.1 hlsa
      exact symbol?_cons_of_not (isExtra_of_startsOperand hl)
        (isSymbol_of_startsOperand hl (by decide))
    rcases exists_of_commaBefore hlsr with ⟨rfl, hlsr⟩ | ⟨comma, ls', hne, rfl, hcomma, hls'⟩
    · -- The last argument stands in front of the bracket.
      rw [argsTokens, List.map_eq_nil_iff] at hlsr
      subst hlsr
      have hread := argument_exprTokens rest hsub hargs.1 hlsa (by omega)
        (Ends.of_closer (by decide) hclose 1) (isSymbol_of_isSymbol hclose (by decide))
      have hcomma : close.isSymbol "," = false := isSymbol_of_isSymbol hclose (by decide)
      rw [List.nil_append] at hfirst
      simp [commasUntil, hfirst, hread, symbol_cons hclose,
        symbol?_cons_of_not (isExtra_of_isSymbol hclose) hcomma]
    · have hread := argument_exprTokens (ls' ++ close :: rest) hsub hargs.1 hlsa (by omega)
        (Ends.of_closer (by decide) hcomma 1)
        (isSymbol_of_isSymbol hcomma (by decide))
      rw [List.length_cons] at hn
      have hothers := ih hargs.2 hls' (by omega) hfuel
      rw [List.cons_append] at hfirst
      simp [commasUntil, hfirst, hread, symbol?_cons hcomma, hothers]

theorem length_argsTokens_ge {args : List Expr} (hargs : arePlain args = true) (level : Nat)
    (lead : String) : args.length ≤ (argsTokens level lead args).length := by
  induction args generalizing lead with
  | nil => exact Nat.le_refl 0
  | cons arg args ih =>
    rw [arePlain, Bool.and_eq_true] at hargs
    obtain ⟨t, ts, htokens, -⟩ := head_exprTokens level false lead arg hargs.1
    have hothers := ih hargs.2 " "
    simp only [argsTokens, htokens, List.length_append, List.length_cons]
    omega

variable (rest) in
/-- Arguments in round brackets. -/
theorem arguments_argsTokens {n : Nat} (hsub : ReadsBelow sub n) {left close : Lexeme}
    (hleft : left.isSymbol "(" = true) (hclose : close.isSymbol ")" = true) {args : List Expr}
    (hargs : arePlain args = true) {level : Nat} {lead : String}
    (hls : ls.map Lexeme.token = argsTokens level lead args) (hn : ls.length ≤ n) :
    arguments sub (left :: (ls ++ close :: rest)) = some (args, rest) := by
  have hsecond : (significant (ls ++ close :: rest)).head?.any (Lexeme.isSymbol "...") = false := by
    cases args with
    | nil =>
      rw [argsTokens, List.map_eq_nil_iff] at hls
      subst hls
      rw [List.nil_append, significant_cons (isExtra_of_isSymbol hclose)]
      exact isSymbol_of_isSymbol hclose (by decide)
    | cons arg args =>
      rw [arePlain, Bool.and_eq_true] at hargs
      rw [argsTokens] at hls
      obtain ⟨lsa, lsr, rfl, hlsa, -⟩ := List.map_eq_append_iff.1 hls
      obtain ⟨l, ls', rfl, hl, -⟩ := exists_of_exprTokens hargs.1 hlsa
      rw [List.append_assoc, List.cons_append, significant_cons (isExtra_of_startsOperand hl)]
      exact isSymbol_of_startsOperand hl (by decide)
  have hlength := length_argsTokens_ge hargs level lead
  rw [← hls, List.length_map] at hlength
  have hfuel : args.length < (ls ++ close :: rest).length + 1 := by
    rw [List.length_append]
    omega
  have hread := commasUntil_argsTokens rest hsub hclose hargs hls hn hfuel
  have hextra := isExtra_of_isSymbol hleft
  simp [arguments, aheadSecond, aheadThird, significant_cons hextra, hsecond, inBrackets,
    symbol_cons hleft]
  simpa using hread

/-! ## Accesses -/

section Accesses

variable {fuel : Nat} {e : Expr} {form : Form} {arrow member : Lexeme}

theorem memberName_word (hk : member.kind = .word) :
    memberName sub (member :: rest) = some (member.text, rest) := by
  have hextra : member.isExtra = false := by simp [Lexeme.isExtra, hk]
  have hbrace : member.isSymbol "\x7b" = false := by simp [Lexeme.isSymbol, hk]
  have hvariable : startsVariable member = false := by
    simp [startsVariable, Lexeme.isSymbol, hk]
  simp [memberName, symbol?_cons_of_not hextra hbrace, ahead_cons hextra, hvariable,
    anyWord_cons hk]

theorem accesses_arrow (hform : form.isOpen = true) (harrow : arrow.isSymbol "->" = true) :
    accesses sub start (fuel + 1) (e, form) (arrow :: rest) =
      (arrowTail sub e rest).bind fun x => accesses sub start fuel (x.1, .place) x.2 := by
  simp [accesses, hform, symbol?_cons harrow]

theorem accesses_colon (hform : form.isOpen = true) (hcolon : l.isSymbol "::" = true) :
    accesses sub start (fuel + 1) (e, form) (l :: rest) =
      (colonTail sub start (l :: rest)).bind fun x => accesses sub start fuel x.1 x.2 := by
  have hextra := isExtra_of_isSymbol hcolon
  have harrow : l.isSymbol "->" = false := isSymbol_of_isSymbol hcolon (by decide)
  have hsafe : l.isSymbol "?->" = false := isSymbol_of_isSymbol hcolon (by decide)
  simp [accesses, hform, symbol?_cons_of_not hextra harrow, symbol?_cons_of_not hextra hsafe,
    ahead_cons hextra, hcolon]

theorem accesses_call (hform : form.isOpen = true) (hleft : l.isSymbol "(" = true)
    (ls : List Lexeme) :
    accesses sub (ls ++ l :: rest) (fuel + 1) (e, form) (l :: rest) =
      (arguments sub (l :: rest)).bind fun x =>
        accesses sub (ls ++ l :: rest) fuel (.call (sourceText ls) x.1, .place) x.2 := by
  have hextra := isExtra_of_isSymbol hleft
  have harrow : l.isSymbol "->" = false := isSymbol_of_isSymbol hleft (by decide)
  have hsafe : l.isSymbol "?->" = false := isSymbol_of_isSymbol hleft (by decide)
  have hcolon : l.isSymbol "::" = false := isSymbol_of_isSymbol hleft (by decide)
  simp [accesses, hform, symbol?_cons_of_not hextra harrow, symbol?_cons_of_not hextra hsafe,
    ahead_cons hextra, hcolon, hleft, textFrom_append]

/-- Nothing that ends an expression is an access. -/
theorem accesses_ends {level : Nat} (hr : Ends level r) :
    accesses sub start (fuel + 1) (e, form) (r :: tail) = some ((e, form), r :: tail) := by
  have hno := hr.noAccess
  simp only [accessSymbols, List.cons_append, List.forall_mem_cons] at hno
  cases hform : form.isOpen with
  | false => simp [accesses, hform]
  | true =>
    have hbracket : r.isSymbol "[" = false := hr.noAccess _ (by decide)
    simp [accesses, hform, symbol?_cons_of_not hr.notExtra, ahead_cons hr.notExtra, hno]

variable {n : Nat} {left close : Lexeme} {args : List Expr} {level : Nat} {lead : String}

theorem arrowTail_call (hsub : ReadsBelow sub n) (hk : member.kind = .word)
    (hleft : left.isSymbol "(" = true) (hclose : close.isSymbol ")" = true)
    (hargs : arePlain args = true) (hls : ls.map Lexeme.token = argsTokens level lead args)
    (hn : ls.length ≤ n) :
    arrowTail sub e (member :: left :: (ls ++ close :: rest)) =
      some (.methodCall e member.text args, rest) := by
  have hread := arguments_argsTokens rest hsub hleft hclose hargs hls hn
  simp [arrowTail, memberName_word hk, arguments?, ahead_cons (isExtra_of_isSymbol hleft), hleft,
    hread]

theorem arrowTail_property (hk : member.kind = .word) (hl : l.isExtra = false)
    (hleft : l.isSymbol "(" = false) :
    arrowTail sub e (member :: l :: rest) = some (.property e member.text, l :: rest) := by
  simp [arrowTail, memberName_word hk, arguments?, ahead_cons hl, hleft]

theorem colonTail_call (hsub : ReadsBelow sub n) (lsc : List Lexeme)
    (hcolon : arrow.isSymbol "::" = true) (hk : member.kind = .word)
    (hleft : left.isSymbol "(" = true) (hclose : close.isSymbol ")" = true)
    (hargs : arePlain args = true) (hls : ls.map Lexeme.token = argsTokens level lead args)
    (hn : ls.length ≤ n) :
    colonTail sub (lsc ++ arrow :: member :: left :: (ls ++ close :: rest))
        (arrow :: member :: left :: (ls ++ close :: rest)) =
      some ((.staticCall (sourceText lsc) member.text args, .place), rest) := by
  have hread := arguments_argsTokens rest hsub hleft hclose hargs hls hn
  have htext := textFrom_append lsc (arrow :: member :: left :: (ls ++ close :: rest))
  have hextra : member.isExtra = false := by simp [Lexeme.isExtra, hk]
  simp [colonTail, htext, extras_cons (isExtra_of_isSymbol hcolon), symbol_cons hcolon,
    extras_cons hextra, ahead_cons hextra, memberName_word hk, arguments?,
    ahead_cons (isExtra_of_isSymbol hleft), hleft, hread]

theorem colonTail_const (lsc : List Lexeme) (hcolon : arrow.isSymbol "::" = true)
    (hk : member.kind = .word) (hl : l.isExtra = false) (hleft : l.isSymbol "(" = false) :
    colonTail sub (lsc ++ arrow :: member :: l :: rest) (arrow :: member :: l :: rest) =
      some ((.classConst (sourceText lsc) member.text, .value), l :: rest) := by
  have htext := textFrom_append lsc (arrow :: member :: l :: rest)
  have hextra : member.isExtra = false := by simp [Lexeme.isExtra, hk]
  have hvariable : startsVariable member = false := by
    simp [startsVariable, Lexeme.isSymbol, hk]
  simp [colonTail, htext, extras_cons (isExtra_of_isSymbol hcolon), symbol_cons hcolon,
    extras_cons hextra, ahead_cons hextra, hvariable, memberName_word hk, arguments?,
    ahead_cons hl, hleft]

end Accesses

end DomainScaffold.Php.Grammar
