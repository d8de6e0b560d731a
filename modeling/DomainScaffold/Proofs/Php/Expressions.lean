import DomainScaffold.Proofs.Php.Accesses

/-!
# Reading expressions

A plain expression that was printed is read back as it was. Its operand is followed as far as
accesses go on, and then the operators as far as they bind; both end at what follows the
expression.

Results:
* `expressionAt_exprTokens`: a plain expression is read back from its tokens.
-/

namespace DomainScaffold.Php.Grammar

variable {l l' r : Lexeme} {ls rest tail : List Lexeme} {sub : Rules} {start : List Lexeme}

/-! ## Arrays -/

section Arrays

variable {n : Nat} {close : Lexeme} {level : Nat} {lead : String}

variable (tail) in
theorem arrayValue_exprTokens (hsub : ReadsBelow sub n) {e : Expr} (he : isPlain e = true)
    (hls : ls.map Lexeme.token = exprTokens level false lead e) (hn : ls.length ≤ n)
    (hr : Ends 1 r) : arrayValue sub (ls ++ r :: tail) = some (some e, r :: tail) := by
  have hread := hsub e level false lead 1 ls r tail he (one_le_level he) hls hn hr
  obtain ⟨l, ls', rfl, hl, -⟩ := exists_of_exprTokens he hls
  have hsign : symbol? "&" (l :: (ls' ++ r :: tail)) = some (false, l :: (ls' ++ r :: tail)) :=
    symbol?_cons_of_not (isExtra_of_startsOperand hl) (isSymbol_of_startsOperand hl (by decide))
  rw [List.cons_append] at hread ⊢
  simp [arrayValue, hsign, Rules.anyExpression, hread]

variable (tail) in
/-- An item without a key. -/
theorem arrayItem_value (hsub : ReadsBelow sub n) {e : Expr} (he : isPlain e = true)
    (hls : ls.map Lexeme.token = exprTokens level false lead e) (hn : ls.length ≤ n) {s : String}
    (hs : s ∈ [",", "]"]) (hr : r.isSymbol s = true) :
    arrayItem sub (ls ++ r :: tail) = some (((none, e), true), r :: tail) := by
  have hcloser : s ∈ closers ∧ s ≠ "=>" := by
    simp only [List.mem_cons, List.not_mem_nil, or_false] at hs
    rcases hs with rfl | rfl <;> decide
  have hread := arrayValue_exprTokens tail hsub he hls hn
    (Ends.of_closer hcloser.1 hr 1)
  obtain ⟨l, ls', rfl, hl, -⟩ := exists_of_exprTokens he hls
  have hextra := isExtra_of_startsOperand hl
  have hdots := isSymbol_of_startsOperand hl (by decide : "..." ∉ operandSymbols)
  have harrow : r.isSymbol "=>" = false := isSymbol_of_isSymbol hr hcloser.2
  rw [List.cons_append] at hread ⊢
  simp [arrayItem, here_cons hextra, symbol?_cons_of_not hextra hdots, hread,
    extras_cons (isExtra_of_isSymbol hr), symbol?_cons_of_not (isExtra_of_isSymbol hr) harrow]

variable (tail) in
/-- An item with a key. -/
theorem arrayItem_entry (hsub : ReadsBelow sub n) {key e : Expr} (hkey : isPlain key = true)
    (he : isPlain e = true) {lsk : List Lexeme} {leadk : String}
    (hlsk : lsk.map Lexeme.token = exprTokens level false leadk key) (hnk : lsk.length ≤ n)
    {arrow : Lexeme} (harrow : arrow.isSymbol "=>" = true)
    (hls : ls.map Lexeme.token = exprTokens level false lead e) (hn : ls.length ≤ n)
    (hr : r.isSymbol "," = true) :
    arrayItem sub (lsk ++ arrow :: (ls ++ r :: tail)) =
      some (((some key, e), true), r :: tail) := by
  have hreadk := arrayValue_exprTokens (ls ++ r :: tail) hsub hkey hlsk hnk
    (Ends.of_closer (by decide) harrow 1)
  have hread := arrayValue_exprTokens tail hsub he hls hn
    (Ends.of_closer (by decide) hr 1)
  obtain ⟨l, ls', rfl, hl, -⟩ := exists_of_exprTokens he hls
  obtain ⟨k, ks', rfl, hk, -⟩ := exists_of_exprTokens hkey hlsk
  have hextra := isExtra_of_startsOperand hk
  have hdots := isSymbol_of_startsOperand hk (by decide : "..." ∉ operandSymbols)
  rw [List.cons_append] at hreadk hread ⊢
  rw [List.cons_append] at hreadk ⊢
  simp [arrayItem, here_cons hextra, symbol?_cons_of_not hextra hdots, hreadk, hread,
    extras_cons (isExtra_of_isSymbol harrow), symbol?_cons harrow,
    extras_cons (isExtra_of_startsOperand hl)]

theorem arrayItems_close (hclose : close.isSymbol "]" = true) {fuel : Nat} :
    arrayItems sub "]" (fuel + 1) (close :: rest) = some (⟨[], true, false⟩, rest) := by
  simp [arrayItems, extras_cons (isExtra_of_isSymbol hclose), symbol?_cons hclose]

/-- One item with a comma behind it. -/
theorem arrayItems_item {fuel : Nat} {item : Option Expr × Expr} {comma : Lexeme}
    {parts : ArrayParts × List Lexeme} (hl : startsOperand l.token = true)
    (hitem : arrayItem sub (l :: ls) = some ((item, true), comma :: rest))
    (hcomma : comma.isSymbol "," = true) (hrest : arrayItems sub "]" fuel rest = some parts) :
    arrayItems sub "]" (fuel + 1) (l :: ls) =
      some (⟨item :: parts.1.items, parts.1.isPlain, parts.1.hasHole⟩, parts.2) := by
  have hextra := isExtra_of_startsOperand hl
  have hclose := isSymbol_of_startsOperand hl (by decide : "]" ∉ operandSymbols)
  have hsep := isSymbol_of_startsOperand hl (by decide : "," ∉ operandSymbols)
  simp [arrayItems, extras_cons hextra, symbol?_cons_of_not hextra hclose,
    symbol?_cons_of_not hextra hsep, hitem, extras_cons (isExtra_of_isSymbol hcomma),
    symbol?_cons hcomma, hrest]

/-- The last item, in front of the bracket. -/
theorem arrayItems_last {fuel : Nat} {item : Option Expr × Expr}
    (hl : startsOperand l.token = true)
    (hitem : arrayItem sub (l :: ls) = some ((item, true), close :: rest))
    (hclose : close.isSymbol "]" = true) :
    arrayItems sub "]" (fuel + 1) (l :: ls) = some (⟨[item], true, false⟩, rest) := by
  have hextra := isExtra_of_startsOperand hl
  have hnot := isSymbol_of_startsOperand hl (by decide : "]" ∉ operandSymbols)
  have hsep := isSymbol_of_startsOperand hl (by decide : "," ∉ operandSymbols)
  have hcomma : close.isSymbol "," = false := isSymbol_of_isSymbol hclose (by decide)
  have hextra' := isExtra_of_isSymbol hclose
  simp [arrayItems, extras_cons hextra, symbol?_cons_of_not hextra hnot,
    symbol?_cons_of_not hextra hsep, hitem, extras_cons hextra',
    symbol?_cons_of_not hextra' hcomma, symbol_cons hclose]

theorem arePlainItems_cons {item : Option Expr × Expr} {items : List (Option Expr × Expr)} :
    arePlainItems (item :: items) = true ↔
      (item.1.all isPlain = true ∧ isPlain item.2 = true) ∧ arePlainItems items = true := by
  obtain ⟨_ | key, value⟩ := item <;> simp [arePlainItems]

/-- Values in square brackets. -/
theorem arrayItems_valuesTokens (hsub : ReadsBelow sub n) (hclose : close.isSymbol "]" = true)
    {items : List (Option Expr × Expr)} (hitems : arePlainItems items = true)
    (hkeys : ∀ item ∈ items, item.1 = none)
    (hls : ls.map Lexeme.token = valuesTokens level lead items) (hn : ls.length ≤ n) {fuel : Nat}
    (hfuel : items.length < fuel) :
    arrayItems sub "]" fuel (ls ++ close :: rest) = some (⟨items, true, false⟩, rest) := by
  induction items generalizing ls lead fuel with
  | nil =>
    obtain ⟨fuel, rfl⟩ := Nat.exists_eq_add_of_lt hfuel
    rw [valuesTokens, List.map_eq_nil_iff] at hls
    subst hls
    exact arrayItems_close hclose
  | cons item items ih =>
    obtain ⟨fuel, rfl⟩ : ∃ k, fuel = k + 1 := ⟨fuel - 1, by omega⟩
    rw [List.length_cons, Nat.succ_lt_succ_iff] at hfuel
    obtain ⟨⟨-, hvalue⟩, hrest⟩ := arePlainItems_cons.1 hitems
    rw [List.forall_mem_cons] at hkeys
    obtain ⟨key, value⟩ := item
    obtain rfl : key = none := hkeys.1
    rw [valuesTokens] at hls
    obtain ⟨lsa, lsr, rfl, hlsa, hlsr⟩ := List.map_eq_append_iff.1 hls
    rw [List.length_append] at hn
    obtain ⟨l, ls', hstart, hl, -⟩ := exists_of_exprTokens hvalue hlsa
    rcases exists_of_commaBefore hlsr with ⟨rfl, hlsr⟩ | ⟨comma, ls'', hne, rfl, hcomma, hls''⟩
    · rw [valuesTokens, List.map_eq_nil_iff] at hlsr
      subst hlsr
      have hread := arrayItem_value rest hsub hvalue hlsa (by omega) (by decide) hclose
      rw [List.append_nil]
      rw [hstart, List.cons_append] at hread ⊢
      exact arrayItems_last hl hread hclose
    · rw [List.length_cons] at hn
      have hread := arrayItem_value (ls'' ++ close :: rest) hsub hvalue hlsa (by omega) (by decide)
        hcomma
      have hothers := ih hrest hkeys.2 hls'' (by omega) hfuel
      rw [List.append_assoc, List.cons_append]
      rw [hstart, List.cons_append] at hread ⊢
      exact arrayItems_item hl hread hcomma hothers

/-- Entries in square brackets, with a comma behind each. -/
theorem arrayItems_entriesTokens (hsub : ReadsBelow sub n) (hclose : close.isSymbol "]" = true)
    {items : List (Option Expr × Expr)} (hitems : arePlainItems items = true)
    (hls : ls.map Lexeme.token = entriesTokens level items) (hn : ls.length ≤ n) {fuel : Nat}
    (hfuel : items.length < fuel) :
    arrayItems sub "]" fuel (ls ++ close :: rest) = some (⟨items, true, false⟩, rest) := by
  induction items generalizing ls fuel with
  | nil =>
    obtain ⟨fuel, rfl⟩ := Nat.exists_eq_add_of_lt hfuel
    rw [entriesTokens, List.map_eq_nil_iff] at hls
    subst hls
    exact arrayItems_close hclose
  | cons item items ih =>
    obtain ⟨fuel, rfl⟩ : ∃ k, fuel = k + 1 := ⟨fuel - 1, by omega⟩
    rw [List.length_cons, Nat.succ_lt_succ_iff] at hfuel
    obtain ⟨⟨hkey, hvalue⟩, hrest⟩ := arePlainItems_cons.1 hitems
    obtain ⟨_ | key, value⟩ := item
    · rw [entriesTokens] at hls
      obtain ⟨lsa, lsr, rfl, hlsa, hlsr⟩ := List.map_eq_append_iff.1 hls
      obtain ⟨row, column, ls'', rfl, hls''⟩ := exists_of_map_token hlsr
      rw [List.length_append, List.length_cons] at hn
      have hread := arrayItem_value (ls'' ++ close :: rest) hsub hvalue hlsa (by omega) (s := ",")
        (by decide) rfl (r := ⟨.symbol, "", ",", row, column⟩)
      have hothers := ih hrest hls'' (by omega) hfuel
      obtain ⟨l, ls', hstart, hl, -⟩ := exists_of_exprTokens hvalue hlsa
      rw [List.append_assoc, List.cons_append]
      rw [hstart, List.cons_append] at hread ⊢
      exact arrayItems_item hl hread rfl hothers
    · rw [Option.all_some] at hkey
      rw [entriesTokens] at hls
      obtain ⟨lsk, lsr, rfl, hlsk, hlsr⟩ := List.map_eq_append_iff.1 hls
      obtain ⟨row, column, lsv, rfl, hlsv⟩ := exists_of_map_token hlsr
      obtain ⟨lsa, lsc, rfl, hlsa, hlsc⟩ := List.map_eq_append_iff.1 hlsv
      obtain ⟨row', column', ls'', rfl, hls''⟩ := exists_of_map_token hlsc
      simp only [List.length_append, List.length_cons] at hn
      have hread := arrayItem_entry (ls'' ++ close :: rest) hsub hkey hvalue hlsk (by omega)
        (show Lexeme.isSymbol "=>" ⟨.symbol, " ", "=>", row, column⟩ = true from rfl) hlsa (by omega)
        (r := ⟨.symbol, "", ",", row', column'⟩) rfl
      have hothers := ih hrest hls'' (by omega) hfuel
      obtain ⟨l, ls', hstart, hl, -⟩ := exists_of_exprTokens hkey hlsk
      simp only [List.append_assoc, List.cons_append]
      rw [hstart, List.cons_append] at hread ⊢
      exact arrayItems_item hl hread rfl hothers

end Arrays

/-! ## Operands -/

section Operands

theorem trimLeft_sign {s : String} (h : isName s = true) :
    Text.trimLeft '$' ("$" ++ s) = s := by
  obtain ⟨c, cs, htext, hc, -⟩ := isName_iff.1 h
  have hne : (c == '$') = false := by
    rw [beq_eq_false_iff_ne]
    rintro rfl
    exact absurd hc (by decide)
  have hsign : ("$" ++ s).toList = '$' :: c :: cs := by
    rw [String.toList_append, htext]
    rfl
  rw [Text.trimLeft, hsign, List.dropWhile_cons_of_pos (by rfl),
    List.dropWhile_cons_of_neg (by simp [hne]),
    ← htext, String.ofList_toList]

theorem bareOperand_variable (hk : l.kind = .variable) :
    bareOperand sub start (l :: ls) = some ((.var (Text.trimLeft '$' l.text), .place), ls) := by
  have hextra : l.isExtra = false := by simp [Lexeme.isExtra, hk]
  simp [bareOperand, peek_cons hextra, hk, lexeme_cons hextra (p := fun _ => true) rfl]

theorem bareOperand_quoted (hk : l.kind = .quoted) {value : String} (ht : l.text = quote value) :
    bareOperand sub start (l :: ls) = some ((.text value, .value), ls) := by
  have hextra : l.isExtra = false := by simp [Lexeme.isExtra, hk]
  simp [bareOperand, peek_cons hextra, hk, lexeme_cons hextra (p := fun _ => true) rfl, ht,
    unquote?_quote]

theorem bareOperand_word (hk : l.kind = .word) :
    bareOperand sub start (l :: ls) = wordOperand sub start l (l :: ls) := by
  have hextra : l.isExtra = false := by simp [Lexeme.isExtra, hk]
  simp [bareOperand, peek_cons hextra, hk]

theorem bareOperand_bracket (hl : l.isSymbol "[" = true) :
    bareOperand sub start (l :: ls) = arrayTail sub start "]" ls := by
  have hextra := isExtra_of_isSymbol hl
  have hk : l.kind = .symbol := by
    simp only [Lexeme.isSymbol, Bool.and_eq_true, beq_iff_eq] at hl
    exact hl.1
  have hnot : ∀ s ∈ ["!", "-", "+", "~", "@", "++", "--", "("], l.isSymbol s = false := by
    intro s hs
    refine isSymbol_of_isSymbol hl ?_
    rintro rfl
    revert hs
    decide
  simp only [List.forall_mem_cons] at hnot
  simp [bareOperand, peek_cons hextra, hk, symbolOperand, hnot, aheadCast, ahead_cons hextra,
    aheadSecond, aheadThird, symbol?_cons hl]

theorem wordOperand_literal (hk : l.kind = .word) {e : Expr} (h : wordLiteral? l.text = some e) :
    wordOperand sub start l (l :: ls) = some ((e, .closed), ls) := by
  simp [wordOperand, h, anyWord_cons hk]

variable {n level : Nat} {lead : String} {left close : Lexeme} {args : List Expr}

/-- The first two lexemes of the name of a class with what follows it. -/
theorem exists_of_className {className leadc : String} {lsc : List Lexeme}
    (h : NameForm className) (hlsc : lsc.map Lexeme.token = qualifiedTokens leadc className)
    (hr : r.isSymbol "(" = true) (rest : List Lexeme) :
    ∃ c c' tail, lsc ++ r :: rest = c :: c' :: tail ∧ startsName c = true ∧
      c.isWord "class" = false ∧ c.isWord "readonly" = false ∧ c.isSymbol "#[" = false ∧
      c'.isExtra = false ∧ c'.isSymbol "::" = false := by
  rcases exists_of_qualifiedTokens h hlsc with ⟨c, ls', rfl, hc, hword, hmark⟩ |
    ⟨c, c', ls', rfl, hc, hc'⟩
  · have hw := isWord_of_isClassWord hword
    have hstarts : startsName c = true := by simp [startsName, hc]
    have hgroup : c.isSymbol "#[" = false := by simp [Lexeme.isSymbol, hc]
    cases ls' with
    | nil =>
      exact ⟨c, r, rest, rfl, hstarts, hw _ (by decide), hw _ (by decide), hgroup,
        isExtra_of_isSymbol hr, isSymbol_of_isSymbol hr (by decide)⟩
    | cons c' ls' =>
      have hc' := hmark c' rfl
      exact ⟨c, c', _, rfl, hstarts, hw _ (by decide), hw _ (by decide), hgroup,
        isExtra_of_isSymbol hc', isSymbol_of_isSymbol hc' (by decide)⟩
  · have hkind := hc
    simp only [Lexeme.isSymbol, Bool.and_eq_true, beq_iff_eq] at hkind
    refine ⟨c, c', _, rfl, by simp [startsName, hc], ?_, ?_, isSymbol_of_isSymbol hc (by decide),
      isExtra_of_kind (.inl hc'), by simp [Lexeme.isSymbol, hc']⟩ <;> simp [Lexeme.isWord, hkind]

theorem wordOperand_new (hsub : ReadsBelow sub n) (hl : l.kind = .word) (ht : l.text = "new")
    {className leadc : String} {lsc : List Lexeme} (hclass : NameForm className)
    (hlsc : lsc.map Lexeme.token = qualifiedTokens leadc className)
    (hleft : left.isSymbol "(" = true) (hclose : close.isSymbol ")" = true)
    (hargs : arePlain args = true) (hls : ls.map Lexeme.token = argsTokens level lead args)
    (hn : ls.length ≤ n) :
    wordOperand sub start l (l :: (lsc ++ left :: (ls ++ close :: rest))) =
      some ((.new className args, .closed), rest) := by
  have hread := arguments_argsTokens rest hsub hleft hclose hargs hls hn
  have hnew : l.isWord "new" = true := by simp [Lexeme.isWord, hl, ht, Text.foldAscii]
  have hextra := isExtra_of_isSymbol hleft
  have hnone : wordLiteral? l.text = none := by
    rw [ht]
    decide
  have hname := qualifiedName_qualifiedTokens (ls ++ close :: rest) hclass hlsc hextra
    (isSymbol_of_isSymbol hleft (by decide))
  obtain ⟨c, c', tail, hlist, hstarts, hclassWord, hreadonly, hgroup, hc', hcolon⟩ :=
    exists_of_className hclass hlsc hleft (ls ++ close :: rest)
  have hc : c.isExtra = false := by
    simp only [startsName, Bool.or_eq_true, beq_iff_eq] at hstarts
    rcases hstarts with h | h
    · exact isExtra_of_kind (.inl h)
    · exact isExtra_of_isSymbol h
  rw [hlist] at hname ⊢
  simp [wordOperand, hnone, hnew, newObject, word_cons hnew, ahead_cons hc, hgroup,
    aheadSecond_cons hc hc', hclassWord, hreadonly, hstarts, hcolon, hname, arguments?,
    ahead_cons hextra, hleft, hread]

theorem wordOperand_clone (hsub : ReadsBelow sub n) (hl : l.kind = .word) (ht : l.text = "clone")
    {e : Expr} (he : isPlain e = true) (hlevel : e.level = 21)
    (hls : ls.map Lexeme.token = exprTokens level false lead e) (hn : ls.length ≤ n)
    (hr : Ends 21 r) :
    wordOperand sub start l (l :: (ls ++ r :: tail)) = some ((.clone e, .closed), r :: tail) := by
  have hread := hsub e level false lead 21 ls r tail he (by omega) hls hn hr
  obtain ⟨l', ls', rfl, hl', -⟩ := exists_of_exprTokens he hls
  have hnone : wordLiteral? l.text = none := by
    rw [ht]
    decide
  have hnew : l.isWord "new" = false := by simp [Lexeme.isWord, ht, Text.foldAscii]
  have hclone : l.isWord "clone" = true := by simp [Lexeme.isWord, hl, ht, Text.foldAscii]
  rw [List.cons_append] at hread ⊢
  simp [wordOperand, hnone, hnew, word?_cons hclone, cloneTail,
    extras_cons (isExtra_of_startsOperand hl'), operandLevel, hread, firstOf]

/-- An operand is read up to `rest`: from its first part on, a number of accesses leads there. -/
def ReadsOperand (sub : Rules) (start : List Lexeme) (e : Expr) (form : Form)
    (rest : List Lexeme) : Prop :=
  ∃ first mid k, bareOperand sub start start = some (first, mid) ∧
    k + rest.length ≤ mid.length ∧
    ∀ fuel, accesses sub start (fuel + k) first mid = accesses sub start fuel (e, form) rest

theorem ReadsOperand.bare {e : Expr} {form : Form}
    (h : bareOperand sub start start = some ((e, form), rest)) :
    ReadsOperand sub start e form rest :=
  ⟨(e, form), rest, 0, h, by omega, fun _ => rfl⟩

theorem ReadsOperand.step {e e' : Expr} {form form' : Form} {mid : List Lexeme}
    (h : ReadsOperand sub start e form mid) (hlength : rest.length < mid.length)
    (hstep : ∀ fuel, accesses sub start (fuel + 1) (e, form) mid =
      accesses sub start fuel (e', form') rest) : ReadsOperand sub start e' form' rest := by
  obtain ⟨first, before, k, hbare, hk, haccesses⟩ := h
  refine ⟨first, before, k + 1, hbare, by omega, fun fuel => ?_⟩
  rw [← hstep, ← haccesses, Nat.add_assoc, Nat.add_comm 1 k]

/-- What may stand behind an operand: nothing that belongs to it. -/
structure Leaves (e : Expr) (l : Lexeme) : Prop where
  notExtra : l.isExtra = false
  noBracket : l.isSymbol "(" = false
  noSegment : l.isSymbol "\\" = false
  ends : e.isObject = false → Ends 21 l

theorem Leaves.of_ends {level : Nat} (h : Ends level l) (e : Expr) : Leaves e l where
  notExtra := h.notExtra
  noBracket := h.noAccess _ (by decide)
  noSegment := h.noAccess _ (by decide)
  ends _ := by
    refine ⟨h.notExtra, h.noAccess, by simp [conditionalLevel], fun o ho => ?_⟩
    have := (operator?_level ho).2
    simp only [signedLevel] at this
    omega

theorem Leaves.of_symbol {e : Expr} (he : e.isObject = true) {s : String} (hs : l.isSymbol s = true)
    (h : s ≠ "(" ∧ s ≠ "\\") : Leaves e l where
  notExtra := isExtra_of_isSymbol hs
  noBracket := isSymbol_of_isSymbol hs h.1
  noSegment := isSymbol_of_isSymbol hs h.2
  ends he' := by
    rw [he] at he'
    cases he'

theorem level_of_isObject {e : Expr} (h : e.isObject = true) : e.level = 21 := by
  cases e with
  | binary _ _ _ => cases h
  | _ => rfl

/-- A separator starts a name. -/
theorem bareOperand_separator (hl : l.isSymbol "\\" = true) :
    bareOperand sub start (l :: ls) =
      (qualifiedName (l :: ls)).map fun x => ((.name x.1, .value), x.2) := by
  have hextra := isExtra_of_isSymbol hl
  have hk : l.kind = .symbol := by
    simp only [Lexeme.isSymbol, Bool.and_eq_true, beq_iff_eq] at hl
    exact hl.1
  have hnot : ∀ s ∈ ["!", "-", "+", "~", "@", "++", "--", "(", "[", "#[", "$"],
      l.isSymbol s = false := by
    intro s hs
    refine isSymbol_of_isSymbol hl ?_
    rintro rfl
    revert hs
    decide
  simp only [List.forall_mem_cons] at hnot
  cases hname : qualifiedName (l :: ls) <;>
    simp [bareOperand, peek_cons hextra, hk, symbolOperand, hnot, aheadCast, ahead_cons hextra,
      aheadSecond, aheadThird, symbol?_cons_of_not hextra, hname]

variable (rest sub) in
theorem bareOperand_name {text lead : String} (h : NameForm text)
    (hls : ls.map Lexeme.token = qualifiedTokens lead text) (hr : r.isExtra = false)
    (hs : r.isSymbol "\\" = false) :
    bareOperand sub start (ls ++ r :: rest) = some ((.name text, .value), r :: rest) := by
  have hname := qualifiedName_qualifiedTokens rest h hls hr hs
  rcases exists_of_qualifiedTokens h hls with ⟨l, ls', rfl, hl, hword, hmark⟩ |
    ⟨l, l', ls', rfl, hl, -⟩
  · obtain ⟨l', tail, htail, hl'⟩ : ∃ l' tail, ls' ++ r :: rest = l' :: tail ∧
        l'.isExtra = false := by
      cases ls' with
      | nil => exact ⟨r, rest, rfl, hr⟩
      | cons l' ls' => exact ⟨l', _, rfl, isExtra_of_isSymbol (hmark l' rfl)⟩
    rw [List.cons_append, htail] at hname ⊢
    rw [bareOperand_word hl, wordOperand_name hword hl hl', hname]
    rfl
  · rw [List.cons_append] at hname ⊢
    rw [bareOperand_separator hl, hname]
    rfl

theorem bareOperand_integer (hk : l.kind = .integer) :
    bareOperand sub start (l :: ls) = some ((integerExpr l.text, .closed), ls) := by
  have hextra : l.isExtra = false := by simp [Lexeme.isExtra, hk]
  simp [bareOperand, peek_cons hextra, hk, lexeme_cons hextra (p := fun _ => true) rfl]

theorem bareOperand_literal (hl : l.kind = .word) {e : Expr} (h : wordLiteral? l.text = some e) :
    bareOperand sub start (l :: ls) = some ((e, .closed), ls) := by
  rw [bareOperand_word hl, wordOperand_literal hl h]

variable (ls) in
/-- An array is read up to its bracket. -/
theorem arrayTail_items {items : List (Option Expr × Expr)}
    (h : ∀ fuel, items.length < fuel →
      arrayItems sub "]" fuel (ls ++ close :: rest) = some (⟨items, true, false⟩, rest))
    (hlength : items.length ≤ ls.length) :
    arrayTail sub start "]" (ls ++ close :: rest) = some ((.array items, .array), rest) := by
  have hread := h ((ls ++ close :: rest).length + 1) (by simp; omega)
  rw [arrayTail, bind_apply, bounded_apply, hread]
  simp

theorem length_valuesTokens_ge {items : List (Option Expr × Expr)}
    (hitems : arePlainItems items = true) (level : Nat) (lead : String) :
    items.length ≤ (valuesTokens level lead items).length := by
  induction items generalizing lead with
  | nil => exact Nat.le_refl 0
  | cons item items ih =>
    obtain ⟨⟨-, hvalue⟩, hrest⟩ := arePlainItems_cons.1 hitems
    obtain ⟨key, value⟩ := item
    obtain ⟨t, ts, htokens, -⟩ := head_exprTokens level false lead value hvalue
    have hothers := ih hrest " "
    simp only [valuesTokens, htokens, List.length_append, List.length_cons]
    omega

theorem length_entriesTokens_ge (items : List (Option Expr × Expr)) (level : Nat) :
    items.length ≤ (entriesTokens level items).length := by
  induction items with
  | nil => exact Nat.le_refl 0
  | cons item items ih =>
    obtain ⟨_ | key, value⟩ := item <;>
      simp only [entriesTokens, List.length_append, List.length_cons] <;> omega

theorem bareOperand_array (hsub : ReadsBelow sub n) {items : List (Option Expr × Expr)}
    (hitems : arePlainItems items = true) {broken : Bool}
    (hls : ls.map Lexeme.token = exprTokens level broken lead (.array items))
    (hn : ls.length ≤ n + 1) :
    bareOperand sub start (ls ++ rest) = some ((.array items, .array), rest) := by
  rw [exprTokens] at hls
  obtain ⟨row, column, ls, rfl, hls'⟩ := exists_of_map_token hls
  rw [List.cons_append, bareOperand_bracket rfl]
  rw [List.length_cons] at hn
  cases items with
  | nil =>
    obtain ⟨row, column, ls, rfl, hls''⟩ := exists_of_map_token hls'
    rw [List.map_eq_nil_iff] at hls''
    subst hls''
    exact arrayTail_items [] (fun fuel hfuel => by
      obtain ⟨fuel, rfl⟩ := Nat.exists_eq_add_of_lt hfuel
      exact arrayItems_close rfl) (Nat.le_refl 0)
  | cons item items =>
    rw [List.isEmpty_cons, if_neg (by simp)] at hls'
    by_cases hkeys : ((item :: items).all fun item => item.1.isNone) = true
    · rw [if_pos hkeys] at hls'
      obtain ⟨lsv, lsc, rfl, hlsv, hlsc⟩ := List.map_eq_append_iff.1 hls'
      obtain ⟨row, column, lsc, rfl, hnil⟩ := exists_of_map_token hlsc
      rw [List.map_eq_nil_iff] at hnil
      subst hnil
      rw [List.length_append, List.length_singleton] at hn
      have hlength := length_valuesTokens_ge hitems level ""
      rw [← hlsv, List.length_map] at hlength
      rw [List.append_assoc, List.singleton_append]
      refine arrayTail_items _ (fun fuel hfuel => ?_) hlength
      exact arrayItems_valuesTokens hsub rfl hitems (by simpa using hkeys) hlsv (by omega) hfuel
    · rw [if_neg hkeys] at hls'
      obtain ⟨lsv, lsc, rfl, hlsv, hlsc⟩ := List.map_eq_append_iff.1 hls'
      obtain ⟨row, column, lsc, rfl, hnil⟩ := exists_of_map_token hlsc
      rw [List.map_eq_nil_iff] at hnil
      subst hnil
      rw [List.length_append, List.length_singleton] at hn
      have hlength := length_entriesTokens_ge (item :: items) (level + 1)
      rw [← hlsv, List.length_map] at hlength
      rw [List.append_assoc, List.singleton_append]
      refine arrayTail_items _ (fun fuel hfuel => ?_) hlength
      exact arrayItems_entriesTokens hsub rfl hitems hlsv (by omega) hfuel

/-- The lexemes of arguments in round brackets. -/
theorem exists_of_brackets
    (h : ls.map Lexeme.token = .sym "" "(" :: (argsTokens level lead args ++ [.sym "" ")"])) :
    ∃ left lsa close, ls = left :: (lsa ++ [close]) ∧ left.isSymbol "(" = true ∧
      close.isSymbol ")" = true ∧ lsa.map Lexeme.token = argsTokens level lead args := by
  obtain ⟨row, column, ls, rfl, h'⟩ := exists_of_map_token h
  obtain ⟨lsa, lsc, rfl, hlsa, hlsc⟩ := List.map_eq_append_iff.1 h'
  obtain ⟨row', column', lsc, rfl, hnil⟩ := exists_of_map_token hlsc
  rw [List.map_eq_nil_iff] at hnil
  subst hnil
  exact ⟨_, lsa, _, rfl, rfl, rfl, hlsa⟩

/-- The link of a chain: an arrow with a method and its arguments. -/
theorem ReadsOperand.link (hsub : ReadsBelow sub n) {e : Expr} {arrowLead method : String}
    (hargs : arePlain args = true)
    (h : ls.map Lexeme.token = .sym arrowLead "->" :: .word "" method :: .sym "" "(" ::
      (argsTokens level lead args ++ [.sym "" ")"]))
    (hn : ls.length ≤ n + 1) {form : Form} (hform : form.isOpen = true)
    (hobject : ReadsOperand sub start e form (ls ++ rest)) :
    ReadsOperand sub start (.methodCall e method args) .place rest := by
  obtain ⟨row, column, ls, rfl, h'⟩ := exists_of_map_token h
  obtain ⟨row', column', ls, rfl, h''⟩ := exists_of_map_token h'
  obtain ⟨left, lsa, close, rfl, hleft, hclose, hlsa⟩ := exists_of_brackets h''
  simp only [List.length_cons, List.length_append, List.length_nil] at hn
  refine hobject.step (by simp; omega) fun fuel => ?_
  rw [List.cons_append, accesses_arrow hform rfl, List.cons_append, List.cons_append,
    List.append_assoc, List.singleton_append,
    arrowTail_call hsub rfl hleft hclose hargs hlsa (by omega)]
  rfl

/-- Whether an operand is read from its tokens, up to the last access that belongs to it. -/
def OperandReads (sub : Rules) (n : Nat) (e : Expr) : Prop :=
  ∀ (level : Nat) (broken : Bool) (lead : String) (ls : List Lexeme) (l : Lexeme)
    (tail : List Lexeme), ls.map Lexeme.token = exprTokens level broken lead e →
      ls.length ≤ n + 1 → Leaves e l →
      ∃ form, (e.isObject = false ∨ form = .place) ∧ form ≠ .pattern ∧
        ReadsOperand sub (ls ++ l :: tail) e form (l :: tail)

theorem operandReads_var {s : String} (hs : isName s = true) :
    OperandReads sub n (.var s) := by
  intro level broken lead ls l tail hls _ _
  obtain ⟨row, column, rfl⟩ := exists_of_single hls
  refine ⟨.place, .inr rfl, by decide, .bare ?_⟩
  rw [List.singleton_append, bareOperand_variable rfl]
  dsimp only [Token.var]
  rw [trimLeft_sign hs]

theorem operandReads_name {s : String} (hs : NameForm s) : OperandReads sub n (.name s) := by
  intro level broken lead ls l tail hls _ hl
  rw [exprTokens] at hls
  exact ⟨.value, .inl rfl, by decide, .bare (bareOperand_name _ _ hs hls hl.notExtra hl.noSegment)⟩

theorem operandReads_text (value : String) : OperandReads sub n (.text value) := by
  intro level broken lead ls l tail hls _ _
  obtain ⟨row, column, rfl⟩ := exists_of_single hls
  exact ⟨.value, .inl rfl, by decide, .bare (bareOperand_quoted rfl rfl)⟩

theorem operandReads_int {value : Int} (h : isPlain (.int value) = true) :
    OperandReads sub n (.int value) := by
  obtain ⟨m, rfl, hm⟩ := exists_of_isPlain_int h
  intro level broken lead ls l tail hls _ _
  obtain ⟨row, column, rfl⟩ := exists_of_single hls
  refine ⟨.closed, .inl rfl, by decide, .bare ?_⟩
  rw [List.singleton_append, bareOperand_integer rfl]
  dsimp only [Token.integer]
  rw [integerExpr_integer hm]

theorem operandReads_literal {e : Expr} {word : String}
    (he : ∀ level broken lead, exprTokens level broken lead e = [.word lead word])
    (hword : wordLiteral? word = some e) (hobject : e.isObject = false) :
    OperandReads sub n e := by
  intro level broken lead ls l tail hls _ _
  rw [he] at hls
  obtain ⟨row, column, rfl⟩ := exists_of_single hls
  exact ⟨.closed, .inl hobject, by decide,
    .bare (bareOperand_literal (l := ⟨.word, lead, word, row, column⟩) rfl hword)⟩

theorem operandReads_array (hsub : ReadsBelow sub n) {items : List (Option Expr × Expr)}
    (hitems : arePlainItems items = true) : OperandReads sub n (.array items) :=
  fun _ _ _ _ _ _ hls hn _ =>
    ⟨.array, .inl rfl, by decide, .bare (bareOperand_array hsub hitems hls hn)⟩

theorem operandReads_classConst {className s : String} (hclass : NameForm className) :
    OperandReads sub n (.classConst className s) := by
  intro level broken lead ls l tail hls _ hl
  rw [exprTokens] at hls
  obtain ⟨lsc, lsd, rfl, hlsc, hlsd⟩ := List.map_eq_append_iff.1 hls
  obtain ⟨row, column, lsm, rfl, hlsm⟩ := exists_of_map_token hlsd
  obtain ⟨row', column', rfl⟩ := exists_of_single hlsm
  refine ⟨.value, .inl rfl, by decide, ?_⟩
  simp only [List.cons_append, List.append_assoc, List.nil_append]
  refine (ReadsOperand.bare (bareOperand_name _ sub hclass hlsc rfl rfl)).step (by simp)
    fun fuel => ?_
  rw [accesses_colon rfl rfl, colonTail_const lsc rfl rfl hl.notExtra hl.noBracket,
    sourceText_qualifiedTokens hclass hlsc]
  rfl

theorem operandReads_call (hsub : ReadsBelow sub n) {function : String}
    (hfunction : NameForm function) (hargs : arePlain args = true) :
    OperandReads sub n (.call function args) := by
  intro level broken lead ls l tail hls hn _
  rw [exprTokens] at hls
  obtain ⟨lsf, lsb, rfl, hlsf, hlsb⟩ := List.map_eq_append_iff.1 hls
  obtain ⟨left, lsa, close, rfl, hleft, hclose, hlsa⟩ := exists_of_brackets hlsb
  simp only [List.length_cons, List.length_append, List.length_nil] at hn
  refine ⟨.place, .inr rfl, by decide, ?_⟩
  simp only [List.cons_append, List.append_assoc, List.nil_append]
  refine (ReadsOperand.bare (bareOperand_name _ sub hfunction hlsf (isExtra_of_isSymbol hleft)
    (isSymbol_of_isSymbol hleft (by decide)))).step (by simp; omega) fun fuel => ?_
  rw [accesses_call rfl hleft lsf, arguments_argsTokens _ hsub hleft hclose hargs hlsa (by omega),
    sourceText_qualifiedTokens hfunction hlsf]
  rfl

theorem operandReads_staticCall (hsub : ReadsBelow sub n) {className method : String}
    (hclass : NameForm className) (hargs : arePlain args = true) :
    OperandReads sub n (.staticCall className method args) := by
  intro level broken lead ls l tail hls hn _
  rw [exprTokens] at hls
  obtain ⟨lsc, lsd, rfl, hlsc, hlsd⟩ := List.map_eq_append_iff.1 hls
  obtain ⟨row, column, lsm, rfl, hlsm⟩ := exists_of_map_token hlsd
  obtain ⟨row', column', lsb, rfl, hlsb⟩ := exists_of_map_token hlsm
  obtain ⟨left, lsa, close, rfl, hleft, hclose, hlsa⟩ := exists_of_brackets hlsb
  simp only [List.length_cons, List.length_append, List.length_nil] at hn
  refine ⟨.place, .inr rfl, by decide, ?_⟩
  simp only [List.cons_append, List.append_assoc, List.nil_append]
  refine (ReadsOperand.bare (bareOperand_name _ sub hclass hlsc rfl rfl)).step (by simp; omega)
    fun fuel => ?_
  rw [accesses_colon rfl rfl,
    colonTail_call hsub lsc rfl rfl hleft hclose hargs hlsa (by omega),
    sourceText_qualifiedTokens hclass hlsc]
  rfl

theorem operandReads_methodCall (hsub : ReadsBelow sub n) {object : Expr} {method : String}
    (hobject : object.isObject = true) (hreads : OperandReads sub n object)
    (hargs : arePlain args = true) : OperandReads sub n (.methodCall object method args) := by
  intro level broken lead ls l tail hls hn _
  refine ⟨.place, .inr rfl, by decide, ?_⟩
  rw [exprTokens] at hls
  split at hls
  all_goals
    obtain ⟨lso, lsl, rfl, hlso, hlsl⟩ := List.map_eq_append_iff.1 hls
    rw [List.length_append] at hn
    obtain ⟨row, column, lsm, rfl, hlsm⟩ := exists_of_map_token hlsl
    obtain ⟨form, hform, -, hread⟩ := hreads _ _ _ lso _ (lsm ++ l :: tail) hlso (by omega)
      (Leaves.of_symbol hobject (s := "->") (l := ⟨.symbol, _, "->", row, column⟩) rfl (by decide))
    have hplace : form = .place := hform.resolve_left (by simp [hobject])
    rw [List.append_assoc]
    rw [← List.cons_append] at hread
    exact ReadsOperand.link hsub hargs hlsl (by omega) (by rw [hplace]; rfl) hread

theorem operandReads_property {object : Expr} {s : String}
    (hobject : object.isObject = true) (hreads : OperandReads sub n object) :
    OperandReads sub n (.property object s) := by
  intro level broken lead ls l tail hls hn hl
  refine ⟨.place, .inr rfl, by decide, ?_⟩
  rw [exprTokens] at hls
  obtain ⟨lso, lsl, rfl, hlso, hlsl⟩ := List.map_eq_append_iff.1 hls
  obtain ⟨row, column, lsm, rfl, hlsm⟩ := exists_of_map_token hlsl
  obtain ⟨row', column', rfl⟩ := exists_of_single hlsm
  rw [List.length_append] at hn
  obtain ⟨form, hform, -, hread⟩ := hreads _ _ _ lso _ (_ :: l :: tail) hlso (by omega)
    (Leaves.of_symbol hobject (s := "->") (l := ⟨.symbol, "", "->", row, column⟩) rfl (by decide))
  have hplace : form = .place := hform.resolve_left (by simp [hobject])
  rw [List.append_assoc]
  refine hread.step (by simp) fun fuel => ?_
  rw [accesses_arrow (by rw [hplace]; rfl) rfl, arrowTail_property rfl hl.notExtra hl.noBracket]
  rfl

theorem operandReads_new (hsub : ReadsBelow sub n) {className : String}
    (hclass : NameForm className) (hargs : arePlain args = true) :
    OperandReads sub n (.new className args) := by
  intro level broken lead ls l tail hls hn _
  obtain ⟨row, column, lsn, rfl, hlsn⟩ := exists_of_map_token hls
  obtain ⟨lsc, lsb, rfl, hlsc, hlsb⟩ := List.map_eq_append_iff.1 hlsn
  obtain ⟨left, lsa, close, rfl, hleft, hclose, hlsa⟩ := exists_of_brackets hlsb
  simp only [List.length_cons, List.length_append, List.length_nil] at hn
  refine ⟨.closed, .inl rfl, by decide, .bare ?_⟩
  simp only [List.cons_append, List.append_assoc, List.nil_append]
  rw [bareOperand_word rfl]
  exact wordOperand_new hsub rfl rfl hclass hlsc hleft hclose hargs hlsa (by omega)

theorem operandReads_clone (hsub : ReadsBelow sub n) {e : Expr} (he : isPlain e = true)
    (hlevel : e.level = 21) : OperandReads sub n (.clone e) := by
  intro level broken lead ls l tail hls hn hl
  obtain ⟨row, column, lse, rfl, hlse⟩ := exists_of_map_token hls
  rw [List.length_cons] at hn
  refine ⟨.closed, .inl rfl, by decide, .bare ?_⟩
  rw [List.cons_append, bareOperand_word rfl]
  exact wordOperand_clone hsub rfl rfl he hlevel hlse (by omega) (hl.ends rfl)

/-- Every plain operand is read from its tokens. -/
theorem operandReads (hsub : ReadsBelow sub n) : ∀ e : Expr, isPlain e = true → e.level = 21 →
    OperandReads sub n e
  | .var _, he, _ => operandReads_var he
  | .name _, he, _ => operandReads_name (nameForm_of_isClassName he)
  | .classConst _ _, he, _ => by
    rw [isPlain, Bool.and_eq_true] at he
    exact operandReads_classConst (nameForm_of_isClassName he.1)
  | .text value, _, _ => operandReads_text value
  | .bool value, _, _ =>
    operandReads_literal (fun _ _ _ => rfl) (by cases value <;> rfl) rfl
  | .null, _, _ => operandReads_literal (fun _ _ _ => rfl) rfl rfl
  | .int _, he, _ => operandReads_int he
  | .array _, he, _ => operandReads_array hsub he
  | .call _ _, he, _ => by
    rw [isPlain, Bool.and_eq_true] at he
    exact operandReads_call hsub (nameForm_of_isQualified he.1) he.2
  | .methodCall object _ _, he, _ => by
    simp only [isPlain, Bool.and_eq_true] at he
    have hlevel : object.level = 21 := level_of_isObject he.1.1.1
    exact operandReads_methodCall hsub he.1.1.1 (operandReads hsub object he.1.1.2 hlevel) he.2
  | .staticCall _ _ _, he, _ => by
    simp only [isPlain, Bool.and_eq_true] at he
    exact operandReads_staticCall hsub (nameForm_of_isClassName he.1.1) he.2
  | .property object _, he, _ => by
    simp only [isPlain, Bool.and_eq_true] at he
    have hlevel : object.level = 21 := level_of_isObject he.1.1
    exact operandReads_property he.1.1 (operandReads hsub object he.1.2 hlevel)
  | .new _ _, he, _ => by
    rw [isPlain, Bool.and_eq_true] at he
    exact operandReads_new hsub (nameForm_of_isClassName he.1) he.2
  | .clone _, he, _ => by
    rw [isPlain, Bool.and_eq_true, beq_iff_eq] at he
    exact operandReads_clone hsub he.2 he.1
  | .binary _ op _, he, hlevel => by
    simp only [isPlain, Bool.and_eq_true] at he
    rcases mem_operators (Option.isSome_of_any he.1.1) with rfl | rfl | rfl | rfl <;>
      simp [Expr.level, plainOperators, List.lookup_cons] at hlevel
  | .float _, he, _ | .yield _, he, _ | .assign _ _, he, _ | .raw _, he, _ => by
    cases he

end Operands

/-! ## Operators -/

section Operators

variable {n : Nat}

/-- What may follow an operand ends it. -/
theorem operand_of_reads {e : Expr} {form : Form} {level : Nat} (hr : Ends level r)
    (hpattern : form ≠ .pattern) (h : ReadsOperand sub start e form (r :: tail)) :
    operand sub start start = some (e, r :: tail) := by
  obtain ⟨first, mid, k, hbare, hk, haccesses⟩ := h
  obtain ⟨fuel, hfuel⟩ : ∃ fuel, mid.length + 1 = fuel + 1 + k := by
    rw [List.length_cons] at hk
    exact ⟨mid.length - k, by omega⟩
  have hread : bounded (fun n => accesses sub start n first) mid = some ((e, form), r :: tail) := by
    rw [bounded_apply, hfuel, haccesses, accesses_ends hr]
  have hextra := hr.notExtra
  have hequal : r.isSymbol "=" = false := hr.noAccess _ (by decide)
  have hup : r.isSymbol "++" = false := hr.noAccess _ (by decide)
  have hdown : r.isSymbol "--" = false := hr.noAccess _ (by decide)
  have hcompound : (compoundAssignments.any fun s => r.isSymbol s) = false := by
    rw [List.any_eq_false]
    intro s hs
    rw [hr.noAccess s (List.mem_append_right _ hs)]
    decide
  rw [operand, bind_apply, hbare, Option.bind_some, bind_apply, hread, Option.bind_some]
  cases form with
  | place =>
    simp [placeTail, ahead_cons hextra, hequal, symbol?_cons_of_not hextra hup,
      symbol?_cons_of_not hextra hdown, hcompound]
  | array => simp [ahead_cons hextra, hequal]
  | pattern => exact absurd rfl hpattern
  | value => rfl
  | closed => rfl

theorem operator?_plain {op : String} {m : Nat} (h : plainOperators.lookup op = some m)
    (row column : Nat) :
    operator? ⟨(operatorToken op).kind, " ", op, row, column⟩ = some ⟨m, false⟩ := by
  rcases mem_operators (Option.isSome_of_eq_some h) with rfl | rfl | rfl | rfl
  all_goals
    cases h
    simp [operator?, operatorToken, symbolOperators, wordOperators, List.lookup_cons, Text.foldAscii]

theorem Ends.mono {a b : Nat} (h : Ends a r) (hab : a ≤ b) : Ends b r where
  notExtra := h.notExtra
  noAccess := h.noAccess
  noChoice hr := h.noChoice ⟨hr.1, Nat.le_trans hab hr.2⟩
  operator o ho := Nat.lt_of_lt_of_le (h.operator o ho) hab

theorem isSymbol_operatorToken {op : String} {m : Nat} (h : plainOperators.lookup op = some m)
    (row column : Nat) : ∀ s ∈ "?" :: accessSymbols,
      Lexeme.isSymbol s ⟨(operatorToken op).kind, " ", op, row, column⟩ = false := by
  have hsymbol : ∀ s ∈ "?" :: accessSymbols, (op == s) = false := by
    rcases mem_operators (Option.isSome_of_eq_some h) with rfl | rfl | rfl | rfl <;> decide
  intro s hs
  rw [Lexeme.isSymbol, hsymbol s hs, Bool.and_false]

/-- An operand ends in front of an operator that does not bind tighter. -/
theorem ends_operator {op : String} {m : Nat} (h : plainOperators.lookup op = some m)
    {bound : Nat} (hm : m < bound) (row column : Nat) :
    Ends bound ⟨(operatorToken op).kind, " ", op, row, column⟩ := by
  have hnot := isSymbol_operatorToken h row column
  refine ⟨?_, fun s hs => hnot s (List.mem_cons_of_mem _ hs), ?_, fun o ho => ?_⟩
  · rw [operatorToken]
    split <;> rfl
  · simp [hnot "?" List.mem_cons_self]
  · rw [operator?_plain h row column] at ho
    cases ho
    exact hm

/-- From the first operand on, a number of operations leads to `rest`. -/
def ReadsOperations (sub : Rules) (bound : Nat) (start : List Lexeme) (e : Expr)
    (rest : List Lexeme) : Prop :=
  ∃ first mid k, operand sub start start = some (first, mid) ∧ k + rest.length ≤ mid.length ∧
    ∀ fuel, operations sub bound start (fuel + k) first mid = operations sub bound start fuel e rest

theorem ReadsOperations.step {bound m : Nat} {left right : Expr} {op : Lexeme}
    (h : ReadsOperations sub bound start left (op :: (ls ++ rest)))
    (hop : operator? op = some ⟨m, false⟩) (hbound : bound ≤ m) (hchoice : op.isSymbol "?" = false)
    (hextra : op.isExtra = false)
    (hright : sub.expression (m + 1) (ls ++ rest) = some (right, rest)) :
    ReadsOperations sub bound start (.binary left op.text right) rest := by
  obtain ⟨first, mid, k, hoperand, hk, hoperations⟩ := h
  simp only [List.length_cons, List.length_append] at hk
  refine ⟨first, mid, k + 1, hoperand, by omega, fun fuel => ?_⟩
  rw [Nat.add_comm k, ← Nat.add_assoc, hoperations, operations]
  simp [peek_cons hextra, hchoice, hop, Nat.not_lt.2 hbound,
    lexeme_cons hextra (p := fun _ => true) rfl, hright]

theorem readsOperations_operand (hsub : ReadsBelow sub n) (bound : Nat) {e : Expr}
    (he : isPlain e = true) (hlevel : e.level = 21) {level : Nat} {broken : Bool} {lead : String}
    (hls : ls.map Lexeme.token = exprTokens level broken lead e) (hn : ls.length ≤ n + 1)
    {a : Nat} (hr : Ends a r) : ReadsOperations sub bound (ls ++ r :: tail) e (r :: tail) := by
  obtain ⟨form, -, hpattern, hread⟩ :=
    operandReads hsub e he hlevel level broken lead ls r tail hls hn (.of_ends hr e)
  exact ⟨e, r :: tail, 0, operand_of_reads hr hpattern hread, by omega, fun _ => rfl⟩

/-- The operators of a plain expression are read one after the other. -/
theorem readsOperations (hsub : ReadsBelow sub n) (bound : Nat) : ∀ (e : Expr) (level : Nat)
    (broken : Bool) (lead : String) (ls : List Lexeme) (r : Lexeme) (tail : List Lexeme),
    isPlain e = true → bound ≤ e.level → ls.map Lexeme.token = exprTokens level broken lead e →
      ls.length ≤ n + 1 → Ends (e.level + 1) r →
      ReadsOperations sub bound (ls ++ r :: tail) e (r :: tail)
  | .binary left op right, level, _, lead, ls, r, tail, he, hbound, hls, hn, hr => by
    rw [exprTokens] at hls
    obtain ⟨lsl, lso, rfl, hlsl, hlso⟩ := List.map_eq_append_iff.1 hls
    obtain ⟨row, column, lsr, rfl, hlsr⟩ := exists_of_map_token hlso
    simp only [List.length_append, List.length_cons] at hn
    simp only [isPlain, Bool.and_eq_true, Option.any_eq_true, decide_eq_true_eq] at he
    obtain ⟨⟨⟨m, hm, hleft, hright⟩, hplain⟩, hplain'⟩ := he
    have hlevel : (Expr.binary left op right).level = m := by rw [Expr.level, hm]; rfl
    rw [hlevel] at hbound hr
    have hends := ends_operator hm (Nat.lt_succ_of_le hleft) row column
    have hreads := readsOperations hsub bound left level false lead lsl _ (lsr ++ r :: tail) hplain
      (Nat.le_trans hbound hleft) hlsl (by omega) hends
    have hread := hsub right level false " " (m + 1) lsr r tail hplain' hright hlsr (by omega) hr
    rw [List.append_assoc]
    exact hreads.step (operator?_plain hm row column) hbound
      (isSymbol_operatorToken hm row column _ List.mem_cons_self) hends.notExtra hread
  | .var _, _, _, _, _, _, _, he, _, hls, hn, hr
  | .name _, _, _, _, _, _, _, he, _, hls, hn, hr
  | .classConst _ _, _, _, _, _, _, _, he, _, hls, hn, hr
  | .text _, _, _, _, _, _, _, he, _, hls, hn, hr
  | .bool _, _, _, _, _, _, _, he, _, hls, hn, hr
  | .null, _, _, _, _, _, _, he, _, hls, hn, hr
  | .array _, _, _, _, _, _, _, he, _, hls, hn, hr
  | .call _ _, _, _, _, _, _, _, he, _, hls, hn, hr
  | .methodCall _ _ _, _, _, _, _, _, _, he, _, hls, hn, hr
  | .staticCall _ _ _, _, _, _, _, _, _, he, _, hls, hn, hr
  | .property _ _, _, _, _, _, _, _, he, _, hls, hn, hr
  | .new _ _, _, _, _, _, _, _, he, _, hls, hn, hr
  | .clone _, _, _, _, _, _, _, he, _, hls, hn, hr
  | .int _, _, _, _, _, _, _, he, _, hls, hn, hr
  | .float _, _, _, _, _, _, _, he, _, hls, hn, hr
  | .yield _, _, _, _, _, _, _, he, _, hls, hn, hr
  | .assign _ _, _, _, _, _, _, _, he, _, hls, hn, hr
  | .raw _, _, _, _, _, _, _, he, _, hls, hn, hr =>
    readsOperations_operand hsub bound he rfl hls hn hr

/-- What ends an expression ends its operators. -/
theorem operations_ends {bound fuel : Nat} {e : Expr} (hr : Ends bound r) :
    operations sub bound start (fuel + 1) e (r :: tail) = some (e, r :: tail) := by
  have hchoice := hr.noChoice
  cases hop : operator? r with
  | none => simp [operations, peek_cons hr.notExtra, hchoice, hop]
  | some o =>
    have hlt := hr.operator o hop
    simp [operations, peek_cons hr.notExtra, hchoice, hop, hlt]

/-- An expression is what its first operand and the operations behind it lead to. -/
theorem expressionRule_of_reads {bound : Nat} {e : Expr} (hstart : significant start = start)
    (h : ReadsOperations sub bound start e (r :: tail)) (hr : Ends bound r) :
    expressionRule sub bound start = some (e, r :: tail) := by
  obtain ⟨first, mid, k, hoperand, hk, hoperations⟩ := h
  obtain ⟨fuel, hfuel⟩ : ∃ fuel, mid.length + 1 = fuel + 1 + k := by
    rw [List.length_cons] at hk
    exact ⟨mid.length - k, by omega⟩
  have hhere : here start = some (start, start) := by rw [here, hstart]
  rw [expressionRule, bind_apply, hhere, Option.bind_some, bind_apply, hoperand,
    Option.bind_some, bounded_apply, hfuel, hoperations, operations_ends hr]

theorem significant_exprTokens {e : Expr} (he : isPlain e = true) {level : Nat} {broken : Bool}
    {lead : String} (hls : ls.map Lexeme.token = exprTokens level broken lead e)
    (rest : List Lexeme) : significant (ls ++ rest) = ls ++ rest := by
  obtain ⟨l, ls', rfl, hl, -⟩ := exists_of_exprTokens he hls
  exact significant_cons (isExtra_of_startsOperand hl)

/-- The rules at a depth. -/
def rulesAt (n : Nat) : Rules := ⟨expressionAt n, statementAt n⟩

/-- A plain expression is read back from its tokens. -/
theorem expressionAt_exprTokens (n : Nat) : ReadsBelow (rulesAt n) n := by
  induction n with
  | zero =>
    intro e level broken lead bound ls r tail he _ hls hn _
    obtain ⟨l, ls', rfl, -⟩ := exists_of_exprTokens he hls
    simp at hn
  | succ n ih =>
    intro e level broken lead bound ls r tail he hbound hls hn hr
    have hreads := readsOperations ih bound e level broken lead ls r tail he hbound hls hn
      (hr.mono (by omega))
    exact expressionRule_of_reads (significant_exprTokens he hls (r :: tail)) hreads hr

end Operators

end DomainScaffold.Php.Grammar
