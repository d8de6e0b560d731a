import DomainScaffold.Php.Build
import DomainScaffold.Proofs.Php.Expressions

/-!
# Reading statements

The statements of generated code, how they are spelled, and that they are read back: expressions,
assignments, a yield, and returns, of which two kinds are known by their text only.

Results:
* `written_statementTokens`: a printed statement is put together from its tokens.
* `separated_statementTokens`: each of its tokens is scanned as such.
* `statementAt_statementTokens`: a statement is read back from its tokens.
-/

namespace DomainScaffold.Php

open Scan

/-! ## Returns that are known by their text -/

/-- The text of a value that is turned into a string. -/
def castText : String := "(string) $this->value"

/-- The tokens of this text. -/
def castTokens : List Token :=
  [.sym " " "(", .word "" "string", .sym "" ")", .var " " "this", .sym "" "->", .word "" "value"]

/-- What stands in front of the class when a document that was found is turned into an object. -/
def foundLead : String := "$document === null ? null : "

/-- What stands behind that class. -/
def foundTail : String := "::fromArray($document)"

/-- The text of a document that is turned into an object of a class if there is one. -/
def foundText (className : String) : String := foundLead ++ className ++ foundTail

/-- The tokens of this text. -/
def foundTokens (className : String) : List Token :=
  [.var " " "document", .sym " " "===", .word " " "null", .sym " " "?", .word " " "null",
    .sym " " ":", .word " " className, .sym "" "::", .word "" "fromArray", .sym "" "(",
    .var "" "document", .sym "" ")"]

/-- The class in such a text. -/
def foundClass? (text : String) : Option String :=
  (Text.afterLead? foundLead text).bind (Text.beforeTail? foundTail)

theorem foundClass?_eq_some_iff {text className : String} :
    foundClass? text = some className ↔ text = foundText className := by
  rw [foundClass?, foundText, Option.bind_eq_some_iff, String.append_assoc]
  constructor
  · rintro ⟨rest, hlead, htail⟩
    rw [Text.afterLead?_eq_some_iff.1 hlead, Text.beforeTail?_eq_some_iff.1 htail]
  · exact fun h => ⟨_, Text.afterLead?_eq_some_iff.2 h, Text.beforeTail?_eq_some_iff.2 rfl⟩

/-- The tokens of one of the two texts that returns are known by. -/
def rawTokens (text : String) : List Token :=
  match foundClass? text with
  | some className => foundTokens className
  | none => castTokens

/-! ## Statements -/

/-- Whether an expression starts with a variable. -/
def startsWithVariable : Expr → Bool
  | .var _ => true
  | .methodCall object _ _ => startsWithVariable object
  | .property object _ => startsWithVariable object
  | .binary left _ _ => startsWithVariable left
  | _ => false

/-- The name that an expression starts with. -/
def leadingName : Expr → Option String
  | .name s | .classConst s _ | .call s _ | .staticCall s _ _ => some s
  | .methodCall object _ _ | .property object _ => leadingName object
  | .binary left _ _ => leadingName left
  | _ => none

/-- Whether an expression can be a statement: the word of enumerations, which is no reserved word,
    only starts declarations there. -/
def startsStatement (e : Expr) : Bool :=
  (leadingName e).all fun s => (Text.splitOn '\\' s).head?.all fun w => Text.foldAscii w != "enum"

/-- Whether an expression is an array. -/
def isArray : Expr → Bool
  | .array _ => true
  | _ => false

/-- The tokens of a statement on a line of its own. -/
def statementTokens (level : Nat) : StatementKind → List Token
  | .expression (.assign target value) =>
    exprTokens level false (newline level) target ++
      .sym " " "=" :: (exprTokens level false " " value ++ [.sym "" ";"])
  | .expression (.yield (some value)) =>
    .word (newline level) "yield" :: (exprTokens level false " " value ++ [.sym "" ";"])
  | .expression e => exprTokens level false (newline level) e ++ [.sym "" ";"]
  | .ret (some (.raw text)) => .word (newline level) "return" :: (rawTokens text ++ [.sym "" ";"])
  | .ret (some e) =>
    .word (newline level) "return" :: (exprTokens level false " " e ++ [.sym "" ";"])
  | .ret none | .other => []

/-- The forms that a plain statement has. -/
inductive PlainKind : StatementKind → Prop where
  | assign {target value : Expr} : target.isObject = true → startsWithVariable target = true →
      isPlain target = true → isPlain value = true → PlainKind (.expression (.assign target value))
  | yield {items : List (Option Expr × Expr)} : isPlain (.array items) = true →
      PlainKind (.expression (.yield (some (.array items))))
  | expression {e : Expr} : startsStatement e = true → isPlain e = true →
      PlainKind (.expression e)
  | cast : PlainKind (.ret (some (.raw castText)))
  | found {className : String} : isFreeName className = true →
      PlainKind (.ret (some (.raw (foundText className))))
  | ret {e : Expr} : isPlain e = true → PlainKind (.ret (some e))

/-- What starts with a variable starts with no name. -/
theorem startsStatement_of_startsWithVariable {e : Expr} (h : startsWithVariable e = true) :
    startsStatement e = true := by
  have hname : leadingName e = none := by
    fun_induction startsWithVariable e with
    | case1 _ => rfl
    | case2 object _ _ ih => exact ih h
    | case3 object _ ih => exact ih h
    | case4 left _ _ ih => exact ih h
    | case5 => cases h
  rw [startsStatement, hname]
  rfl

/-! ## Spelling -/

theorem statementTokens_expression (level : Nat) {e : Expr} (h : isPlain e = true) :
    statementTokens level (.expression e) =
      exprTokens level false (newline level) e ++ [.sym "" ";"] := by
  cases e with
  | assign _ _ => cases h
  | yield _ => cases h
  | _ => rfl

theorem statementTokens_ret (level : Nat) {e : Expr} (h : isPlain e = true) :
    statementTokens level (.ret (some e)) =
      .word (newline level) "return" :: (exprTokens level false " " e ++ [.sym "" ";"]) := by
  cases e with
  | raw _ => cases h
  | _ => rfl

theorem statementTokens_raw (level : Nat) (text : String) :
    statementTokens level (.ret (some (.raw text))) =
      .word (newline level) "return" :: (rawTokens text ++ [.sym "" ";"]) := rfl

theorem rawTokens_castText : rawTokens castText = castTokens := by
  have hnone : foundClass? castText = none := by decide
  rw [rawTokens, hnone]

theorem rawTokens_foundText (className : String) :
    rawTokens (foundText className) = foundTokens className := by
  rw [rawTokens, foundClass?_eq_some_iff.2 rfl]

theorem written_castTokens : written castTokens = " " ++ castText := by decide

theorem written_foundTokens (className : String) :
    written (foundTokens className) = " " ++ foundText className := by
  rw [foundTokens, foundText, foundLead, foundTail]
  simp [Token.sym, Token.word, Token.var, ← String.toList_inj]

theorem written_line (level : Nat) (e : Expr) (h : isPlain e = true) (lead : String) :
    written (exprTokens level false lead e ++ [.sym "" ";"]) =
      lead ++ (Printer.exprText level e ++ ";") := by
  simp [written_exprTokens level false lead e h, Token.sym, Printer.exprText, String.append_assoc]

theorem written_return (level : Nat) {ts : List Token} {text : String}
    (h : written ts = " " ++ text) :
    written (.word (newline level) "return" :: (ts ++ [.sym "" ";"])) =
      newline level ++ ("return " ++ text ++ ";") := by
  simp [h, Token.word, Token.sym, ← String.toList_inj]

/-- A printed statement is put together from its tokens. -/
theorem written_statementTokens (level : Nat) {k : StatementKind} (h : PlainKind k) :
    written (statementTokens level k) = "\n" ++ Printer.statementFields level k := by
  cases h with
  | @assign target value hobject _ htarget hvalue =>
    simp [statementTokens, written_exprTokens _ _ _ _ htarget, written_exprTokens _ _ _ _ hvalue,
      Printer.statementFields, Printer.exprText, Printer.exprAt, newline, Token.sym,
      ← String.toList_inj]
  | @yield items hitems =>
    simp [statementTokens, written_exprTokens _ _ _ _ hitems, Printer.statementFields,
      Printer.exprText, Printer.exprAt, newline, Token.sym, Token.word, ← String.toList_inj]
  | @expression e _ he =>
    rw [statementTokens_expression level he, written_line level e he]
    simp [newline, Printer.statementFields, String.append_assoc]
  | cast =>
    rw [statementTokens_raw, rawTokens_castText, written_return level written_castTokens]
    simp [newline, Printer.statementFields, Printer.exprText, Printer.exprAt, String.append_assoc]
  | @found className _ =>
    rw [statementTokens_raw, rawTokens_foundText,
      written_return level (written_foundTokens className)]
    simp [newline, Printer.statementFields, Printer.exprText, Printer.exprAt, String.append_assoc]
  | @ret e he =>
    have hwritten := written_exprTokens level false " " e he
    rw [statementTokens_ret level he, written_return level hwritten]
    simp [newline, Printer.statementFields, Printer.exprText, String.append_assoc]

theorem separated_castTokens (ts : List Token) (next : Option Char) :
    Separated castTokens (firstChar (.sym "" ";" :: ts) next) :=
  ⟨fits_plainSymbol isLead_space (by decide) _, fits_word isLead_empty (by decide) rfl,
    fits_plainSymbol isLead_empty (by decide) _, fits_variable isLead_space (by decide) rfl,
    fits_plainSymbol isLead_empty (by decide) _, fits_word isLead_empty (by decide) rfl, trivial⟩

theorem separated_foundTokens {className : String} (h : isFreeName className = true)
    (ts : List Token) (next : Option Char) :
    Separated (foundTokens className) (firstChar (.sym "" ";" :: ts) next) :=
  ⟨fits_variable isLead_space (by decide) (endsName_space rfl),
    fits_plainSymbol isLead_space (by decide) _,
    fits_word isLead_space (by decide) (endsName_space rfl),
    fits_symbol isLead_space (endsSymbol_space (by decide) rfl),
    fits_word isLead_space (by decide) (endsName_space rfl),
    fits_symbol isLead_space (endsSymbol_space (by decide) rfl),
    fits_word isLead_space (isName_of_isFreeName h) rfl,
    fits_plainSymbol isLead_empty (by decide) _,
    fits_word isLead_empty (by decide) rfl, fits_plainSymbol isLead_empty (by decide) _,
    fits_variable isLead_empty (by decide) rfl, fits_plainSymbol isLead_empty (by decide) _, trivial⟩

theorem separated_line (level : Nat) {lead : String} (hlead : IsLead lead) {e : Expr}
    (h : isPlain e = true) (next : Option Char) :
    Separated (exprTokens level false lead e ++ [.sym "" ";"]) next :=
  separated_append.2 ⟨separated_exprTokens level false hlead e h _ rfl,
    fits_plainSymbol isLead_empty (by decide) _, trivial⟩

theorem endsName_exprTokens {e : Expr} (h : isPlain e = true) (level : Nat) (ts : List Token)
    (next : Option Char) :
    endsName (firstChar (exprTokens level false " " e ++ ts) next) = true := by
  rw [firstChar_exprTokens h]
  rfl

/-- Each token of a printed statement is scanned as such. -/
theorem separated_statementTokens (level : Nat) {k : StatementKind} (h : PlainKind k)
    (next : Option Char) : Separated (statementTokens level k) next := by
  have hlead := isLead_newline level
  cases h with
  | @assign target value _ _ htarget hvalue =>
    refine separated_append.2 ⟨separated_exprTokens level false hlead target htarget _
      (endsName_space rfl), fits_symbol isLead_space ?_,
      separated_line level isLead_space hvalue next⟩
    rw [firstChar_exprTokens hvalue]
    rfl
  | @yield items hitems =>
    exact ⟨fits_word hlead (by decide) (endsName_exprTokens hitems level _ _),
      separated_line level isLead_space hitems next⟩
  | @expression e _ he =>
    rw [statementTokens_expression level he]
    exact separated_line level hlead he next
  | cast =>
    rw [statementTokens_raw, rawTokens_castText]
    exact ⟨fits_word hlead (by decide) (endsName_space rfl),
      separated_append.2 ⟨separated_castTokens [] next, fits_plainSymbol isLead_empty (by decide) _,
        trivial⟩⟩
  | @found className hclass =>
    rw [statementTokens_raw, rawTokens_foundText]
    exact ⟨fits_word hlead (by decide) (endsName_space rfl),
      separated_append.2 ⟨separated_foundTokens hclass [] next,
        fits_plainSymbol isLead_empty (by decide) _, trivial⟩⟩
  | @ret e he =>
    rw [statementTokens_ret level he]
    exact ⟨fits_word hlead (by decide) (endsName_exprTokens he level _ _),
      separated_line level isLead_space he next⟩

/-! ## Reading -/

namespace Grammar

variable {l l' r : Lexeme} {ls rest tail : List Lexeme} {sub : Rules} {start : List Lexeme}

/-- How a statement is read back: as it was, or, if it is kept as text, as some text. -/
inductive ReadAs : StatementKind → StatementKind → Prop where
  | same (k : StatementKind) : ReadAs k k
  | yield (value : Option Expr) (text : String) :
      ReadAs (.expression (.yield value)) (.expression (.raw text))
  | raw (text text' : String) : ReadAs (.ret (some (.raw text))) (.ret (some (.raw text')))

theorem statementEnd_cons (h : l.isSymbol ";" = true) :
    statementEnd (l :: ls) = some ((), ls) := by
  simp [statementEnd, isExtra_of_isSymbol h, symbol_cons h]

theorem atStatementEnd_cons (h : l.isExtra = false) (hs : l.isSymbol ";" = false) :
    atStatementEnd (l :: ls) = some (false, l :: ls) := by
  simp [atStatementEnd, statementEnd, h, symbol_cons_of_not h hs]

theorem isWord_of_text {w : String} (hk : l.kind = .word) (ht : Text.foldAscii l.text = w) :
    l.isWord w = true := by
  simp [Lexeme.isWord, hk, ht]

variable (ls) in
/-- An expression statement that is read as a given expression. -/
theorem expressionStatement_of_reads {e : Expr}
    (h : sub.expression 1 (ls ++ r :: rest) = some (e, r :: rest)) (hr : r.isSymbol ";" = true) :
    expressionStatement sub (ls ++ r :: rest) = some (.expression e, rest) := by
  simp [expressionStatement, Rules.anyExpression, h, statementEnd_cons hr]

/-- The first lexeme of an expression that starts with a variable. -/
theorem exists_of_startsWithVariable {level : Nat} {lead : String} : ∀ {e : Expr} {broken : Bool},
    startsWithVariable e = true → ∃ s ts,
      exprTokens level broken lead e = .var lead s :: ts
  | .var s, _, _ => ⟨s, [], rfl⟩
  | .methodCall object _ _, _, h => by
    rw [exprTokens]
    split
    all_goals
      obtain ⟨s, ts, hts⟩ := exists_of_startsWithVariable (e := object) h
      exact ⟨s, _, by rw [hts]; rfl⟩
  | .property object _, _, h => by
    obtain ⟨s, ts, hts⟩ := exists_of_startsWithVariable (e := object) h
    exact ⟨s, _, by rw [exprTokens, hts]; rfl⟩
  | .binary left _ _, _, h => by
    obtain ⟨s, ts, hts⟩ := exists_of_startsWithVariable (e := left) h
    exact ⟨s, _, by rw [exprTokens, hts]; rfl⟩

/-! ### Words at the start -/

/-- The words that start a statement of another form than an expression. -/
def statementWords : List String :=
  ["if", "switch", "while", "do", "for", "foreach", "try", "declare", "break", "continue", "echo",
   "goto", "global", "unset", "return", "use", "namespace", "const", "static", "exit", "class",
   "function", "interface", "trait", "enum"] ++ classModifiers

theorem not_mem_statementWords {s : String} (h : isClassWord s = true)
    (henum : Text.foldAscii s ≠ "enum") : Text.foldAscii s ∉ statementWords := by
  rw [isClassWord, Bool.or_eq_true, beq_iff_eq] at h
  rcases h with h | rfl
  · rw [isOpenName, Bool.and_eq_true, Bool.not_eq_true', ← Bool.not_eq_true,
      List.contains_iff_mem] at h
    have hall : ∀ w ∈ statementWords, w = "enum" ∨ w ∈ reservedWords := by decide
    exact fun hs => (hall _ hs).elim henum h.2
  · decide

/-- What starts with a name starts with no word of a statement, unless with that of
    enumerations. -/
theorem head_name_statement {text : String} (h : NameForm text) (lead : String) (us : List Token)
    (hs : (Text.splitOn '\\' text).head?.all (fun w => Text.foldAscii w != "enum") = true) :
    ∀ t ∈ (qualifiedTokens lead text ++ us).head?,
      t.kind = .word → Text.foldAscii t.text ∉ statementWords := by
  intro t ht hk
  cases h with
  | @relative s names hword hnames =>
    rw [splitOn_nameOf (List.cons_ne_nil _ _) hnames, List.head?_cons, Option.all_some,
      bne_iff_ne] at hs
    rw [qualifiedTokens_relative lead hnames] at ht
    cases ht
    exact not_mem_statementWords hword hs
  | full hnames =>
    rw [qualifiedTokens_full lead hnames] at ht
    cases ht
    cases hk

/-- The first word of an expression that can be a statement. -/
theorem head_exprTokens_statement (level : Nat) (lead : String) : ∀ (e : Expr) (broken : Bool),
    isPlain e = true → startsStatement e = true →
      ∀ t ∈ (exprTokens level broken lead e).head?,
        t.kind = .word → Text.foldAscii t.text ∉ statementWords
  | .name s, broken, he, hs => by
    rw [exprTokens, ← List.append_nil (qualifiedTokens lead s)]
    exact head_name_statement (nameForm_of_isClassName he) lead [] hs
  | .classConst className s, broken, he, hs => by
    rw [isPlain, Bool.and_eq_true] at he
    exact head_name_statement (nameForm_of_isClassName he.1) lead _ hs
  | .call function args, broken, he, hs => by
    rw [isPlain, Bool.and_eq_true] at he
    exact head_name_statement (nameForm_of_isQualified he.1) lead _ hs
  | .staticCall className method args, broken, he, hs => by
    simp only [isPlain, Bool.and_eq_true] at he
    exact head_name_statement (nameForm_of_isClassName he.1.1) lead _ hs
  | .methodCall object method args, broken, he, hs => by
    simp only [isPlain, Bool.and_eq_true] at he
    have hobject := head_exprTokens_statement level lead object
      (broken || 2 ≤ Printer.chainLength object) he.1.1.2 hs
    obtain ⟨t, ts, htokens, -⟩ := head_exprTokens level
      (broken || 2 ≤ Printer.chainLength object) lead object he.1.1.2
    rw [htokens] at hobject
    rw [exprTokens, htokens]
    split <;> exact hobject
  | .property object s, broken, he, hs => by
    simp only [isPlain, Bool.and_eq_true] at he
    have hobject := head_exprTokens_statement level lead object false he.1.2 hs
    obtain ⟨t, ts, htokens, -⟩ := head_exprTokens level false lead object he.1.2
    rw [htokens] at hobject
    rw [exprTokens, htokens]
    exact hobject
  | .binary left op right, broken, he, hs => by
    simp only [isPlain, Bool.and_eq_true] at he
    have hleft := head_exprTokens_statement level lead left false he.1.2 hs
    obtain ⟨t, ts, htokens, -⟩ := head_exprTokens level false lead left he.1.2
    rw [htokens] at hleft
    rw [exprTokens, htokens]
    exact hleft
  | .var _, _, _, _ | .text _, _, _, _ | .int _, _, _, _ | .array _, _, _, _ => by
    rintro t ⟨⟩ hk
    cases hk
  | .null, _, _, _ | .new _ _, _, _, _ | .clone _, _, _, _ => by
    rintro t ⟨⟩ -
    dsimp only [Token.word]
    decide
  | .bool value, _, _, _ => by
    rintro t ⟨⟩ -
    cases value <;> dsimp only [Token.word] <;> decide
  | .float _, _, he, _ | .yield _, _, he, _ | .assign _ _, _, he, _ | .raw _, _, he, _ => by
    cases he

/-- A statement that starts with another word is an expression. -/
theorem statementRule_word (hl : l.kind = .word) (hw : Text.foldAscii l.text ∉ statementWords)
    (hl' : l'.isExtra = false) (hcolon : l'.isSymbol ":" = false) :
    statementRule sub (l :: l' :: ls) = expressionStatement sub (l :: l' :: ls) := by
  have hextra : l.isExtra = false := by simp [Lexeme.isExtra, hl]
  have hfold : ∀ w ∈ statementWords, (Text.foldAscii l.text == w) = false := by
    intro w hmem
    rw [beq_eq_false_iff_ne]
    rintro rfl
    exact hw hmem
  have hword : ∀ w ∈ statementWords, l.isWord w = false := fun w hmem => by
    rw [isWord_of_kind hl, hfold w hmem]
  simp only [statementWords, classModifiers, List.cons_append, List.nil_append,
    List.forall_mem_cons] at hfold hword
  have hnone : wordStatement? sub l = none := by
    simp [wordStatement?, List.lookup_cons, hfold]
  have hmodifiers : isOneOf classModifiers l = false := by simp [isOneOf, classModifiers, hword]
  have hclass : aheadClass (l :: l' :: ls) = some (false, l :: l' :: ls) := by
    simp [aheadClass, modifiers_none hextra hmodifiers, ahead_cons hextra, hword]
  have hlike : aheadClassLike (l :: l' :: ls) = some (false, l :: l' :: ls) := by
    simp [aheadClassLike, ahead_cons hextra, aheadSecond_cons hextra hl', isOneOf, hword]
  have hfunction : aheadFunction (l :: l' :: ls) = some (false, l :: l' :: ls) := by
    simp [aheadFunction, ahead_cons hextra, aheadSecond_cons hextra hl', aheadThird, hword]
  simp [statementRule, peek_cons hextra, hl, startingWithWord, aheadSecond_cons hextra hl', hcolon,
    hnone, word?_cons_of_not hextra, hword, hclass, hlike, hfunction, isOneOf]

/-- A statement that starts with no word is an expression. -/
theorem statementRule_operand (hl : startsOperand l.token = true) (hk : l.kind ≠ .word) :
    statementRule sub (l :: ls) = expressionStatement sub (l :: ls) := by
  have hbrace := isSymbol_of_startsOperand hl (by decide : "\x7b" ∉ operandSymbols)
  have hsemi := isSymbol_of_startsOperand hl (by decide : ";" ∉ operandSymbols)
  have hgroup := isSymbol_of_startsOperand hl (by decide : "#[" ∉ operandSymbols)
  simp [statementRule, peek_cons (isExtra_of_startsOperand hl), hk, hbrace, hsemi, hgroup]

/-! ### Assignments -/

/-- The symbols of accesses. -/
theorem accesses_stops {fuel : Nat} {e : Expr} {form : Form} (hextra : r.isExtra = false)
    (h : ∀ s ∈ ["->", "?->", "::", "(", "["], r.isSymbol s = false) :
    accesses sub start (fuel + 1) (e, form) (r :: tail) = some ((e, form), r :: tail) := by
  simp only [List.forall_mem_cons] at h
  cases hform : form.isOpen with
  | false => simp [accesses, hform]
  | true => simp [accesses, hform, symbol?_cons_of_not hextra, ahead_cons hextra, h]

variable (tail) in
/-- The place in front of an equals sign is assigned what stands behind it. -/
theorem operand_assign {n : Nat} (hsub : ReadsBelow sub n) {target value : Expr}
    (hobject : target.isObject = true) (htarget : isPlain target = true)
    (hvalue : isPlain value = true) {level : Nat} {lead lead' : String} {lst lsv : List Lexeme}
    {eq : Lexeme} (heq : eq.isSymbol "=" = true)
    (hlst : lst.map Lexeme.token = exprTokens level false lead target)
    (hlsv : lsv.map Lexeme.token = exprTokens level false lead' value)
    (hn : lst.length ≤ n + 1) (hn' : lsv.length ≤ n) (hr : Ends 5 r) :
    operand sub (lst ++ eq :: (lsv ++ r :: tail)) (lst ++ eq :: (lsv ++ r :: tail)) =
      some (.assign target value, r :: tail) := by
  have hextra := isExtra_of_isSymbol heq
  obtain ⟨form, hform, -, first, mid, k, hbare, hk, haccesses⟩ :=
    operandReads hsub target htarget (level_of_isObject hobject) level false lead lst eq
      (lsv ++ r :: tail) hlst hn (Leaves.of_symbol hobject heq (by decide))
  obtain rfl : form = .place := hform.resolve_left (by simp [hobject])
  obtain ⟨fuel, hfuel⟩ : ∃ fuel, mid.length + 1 = fuel + 1 + k := by
    rw [List.length_cons] at hk
    exact ⟨mid.length - k, by omega⟩
  have hstop : ∀ s ∈ ["->", "?->", "::", "(", "["], eq.isSymbol s = false := fun s hs =>
    isSymbol_of_isSymbol heq fun h => by
      subst h
      revert hs
      decide
  have hplace : accesses sub (lst ++ eq :: (lsv ++ r :: tail)) (fuel + 1) (target, .place)
      (eq :: (lsv ++ r :: tail)) = some ((target, .place), eq :: (lsv ++ r :: tail)) :=
    accesses_stops hextra hstop
  have hlevel : 5 ≤ value.level := by
    cases value with
    | binary _ op _ =>
      simp only [isPlain, Bool.and_eq_true] at hvalue
      rcases mem_operators (Option.isSome_of_any hvalue.1.1) with rfl | rfl | rfl | rfl <;>
        simp [Expr.level, plainOperators, List.lookup_cons]
    | _ => exact Nat.le_add_left 5 16
  have hread := hsub value level false lead' 5 lsv r tail hvalue hlevel hlsv hn' hr
  have hsign : symbol? "&" (lsv ++ r :: tail) = some (false, lsv ++ r :: tail) := by
    obtain ⟨l, ls', rfl, hl, -⟩ := exists_of_exprTokens hvalue hlsv
    exact symbol?_cons_of_not (isExtra_of_startsOperand hl)
      (isSymbol_of_startsOperand hl (by decide))
  rw [operand, bind_apply, hbare, Option.bind_some, bind_apply, bounded_apply, hfuel, haccesses,
    hplace, Option.bind_some]
  simp [placeTail, ahead_cons hextra, heq, assignment, symbol_cons heq, hsign, assignedLevel, hread]

/-- An assignment as an expression of its own. -/
theorem expressionAt_assign {n : Nat} {target value : Expr} (hobject : target.isObject = true)
    (htarget : isPlain target = true) (hvalue : isPlain value = true) {level : Nat}
    {lead lead' : String} {lst lsv : List Lexeme} {eq : Lexeme} (heq : eq.isSymbol "=" = true)
    (hlst : lst.map Lexeme.token = exprTokens level false lead target)
    (hlsv : lsv.map Lexeme.token = exprTokens level false lead' value)
    (hn : lst.length ≤ n + 1) (hn' : lsv.length ≤ n) (hr : r.isSymbol ";" = true) :
    expressionAt (n + 1) 1 (lst ++ eq :: (lsv ++ r :: tail)) =
      some (.assign target value, r :: tail) := by
  have hoperand := operand_assign tail (expressionAt_exprTokens n) hobject htarget hvalue
    heq hlst hlsv hn hn' (Ends.of_closer (by decide) hr 5)
  exact expressionRule_of_reads (significant_exprTokens htarget hlst _)
    ⟨_, r :: tail, 0, hoperand, by omega, fun _ => rfl⟩ (Ends.of_closer (by decide) hr 1)

/-! ### Kept texts -/

/-- An operand behind which nothing may follow. -/
theorem expressionRule_closed {e : Expr} (hstart : significant start = start)
    (h : bareOperand sub start start = some ((e, .closed), r :: tail)) (hr : Ends 1 r) :
    expressionRule sub 1 start = some (e, r :: tail) := by
  refine expressionRule_of_reads hstart ⟨e, r :: tail, 0, ?_, by omega, fun _ => rfl⟩ hr
  exact operand_of_reads hr (by decide) (.bare h)

theorem rawFrom_apply (start ls : List Lexeme) :
    rawFrom start ls = some (.raw (sourceText (consumed start ls)), ls) := rfl

/-- A yielded array is kept as text. -/
theorem expressionAt_yield {n : Nat} {items : List (Option Expr × Expr)}
    (hitems : isPlain (.array items) = true) {level : Nat} {lead : String} (hl : l.kind = .word)
    (ht : l.text = "yield") (hls : ls.map Lexeme.token = exprTokens level false lead (.array items))
    (hn : ls.length ≤ n) (hr : r.isSymbol ";" = true) :
    ∃ text, expressionAt (n + 1) 1 (l :: (ls ++ r :: tail)) = some (.raw text, r :: tail) := by
  have hextra : l.isExtra = false := by simp [Lexeme.isExtra, hl]
  have hnone : wordLiteral? l.text = none := by
    rw [ht]
    decide
  have hnew : l.isWord "new" = false := by simp [Lexeme.isWord, ht, Text.foldAscii]
  have hclone : l.isWord "clone" = false := by simp [Lexeme.isWord, ht, Text.foldAscii]
  have hyield : l.isWord "yield" = true := isWord_of_text hl (by rw [ht]; decide)
  have hends := Ends.of_closer (by decide) hr 1
  have hread := expressionAt_exprTokens n (.array items) level false lead 1 ls r tail hitems
    (one_le_level hitems) hls hn hends
  have hbracket : ∃ b ls', ls = b :: ls' ∧ b.isSymbol "[" = true := by
    rw [exprTokens] at hls
    obtain ⟨row, column, ls', rfl, -⟩ := exists_of_map_token hls
    exact ⟨_, ls', rfl, rfl⟩
  obtain ⟨b, ls', rfl, hb⟩ := hbracket
  have hextra' := isExtra_of_isSymbol hb
  have hfrom : b.isWord "from" = false := by
    simp only [Lexeme.isSymbol, Bool.and_eq_true, beq_iff_eq] at hb
    simp [Lexeme.isWord, hb]
  have hcloses : closesExpression b = false := by
    rw [closesExpression, List.any_eq_false]
    intro s hs
    rw [Bool.not_eq_true]
    refine isSymbol_of_isSymbol hb ?_
    rintro rfl
    revert hs
    decide
  have hsemi : b.isSymbol ";" = false := isSymbol_of_isSymbol hb (by decide)
  have harrow : r.isSymbol "=>" = false := isSymbol_of_isSymbol hr (by decide)
  rw [List.cons_append] at hread ⊢
  have hbare : bareOperand (rulesAt n) (l :: b :: (ls' ++ r :: tail))
      (l :: b :: (ls' ++ r :: tail)) = some ((.raw (sourceText
        (consumed (l :: b :: (ls' ++ r :: tail)) (r :: tail))), .closed), r :: tail) := by
    rw [bareOperand_word hl]
    simp [wordOperand, hnone, hnew, word?_cons_of_not hextra hclone, word?_cons hyield, yieldTail,
      extras_cons hextra', word?_cons_of_not hextra' hfrom, ahead_cons hextra', hcloses,
      atStatementEnd_cons hextra' hsemi, Rules.anyExpression, hread,
      symbol?_cons_of_not (isExtra_of_isSymbol hr) harrow, rawFrom_apply]
  exact ⟨_, expressionRule_closed (significant_cons hextra) hbare hends⟩

theorem bareOperand_cast {left type right : Lexeme} (hleft : left.isSymbol "(" = true)
    (hk : type.kind = .word) (htype : isOneOf castTypes type = true)
    (hright : right.isSymbol ")" = true) {e : Expr}
    (hread : sub.expression 21 ls = some (e, rest)) :
    bareOperand sub start (left :: type :: right :: ls) =
      some ((.raw (sourceText (consumed start rest)), .closed), rest) := by
  have hextra := isExtra_of_isSymbol hleft
  have hextra' : type.isExtra = false := by simp [Lexeme.isExtra, hk]
  have hsymbol : left.kind = .symbol := by
    simp only [Lexeme.isSymbol, Bool.and_eq_true, beq_iff_eq] at hleft
    exact hleft.1
  have hnot : ∀ s ∈ ["!", "-", "+", "~", "@", "++", "--"], left.isSymbol s = false := by
    intro s hs
    refine isSymbol_of_isSymbol hleft ?_
    rintro rfl
    revert hs
    decide
  simp only [List.forall_mem_cons] at hnot
  simp [bareOperand, peek_cons hextra, hsymbol, symbolOperand, hnot, aheadCast, ahead_cons hextra,
    hleft, aheadSecond_cons hextra hextra', htype, aheadThird, significant_cons hextra,
    significant_cons hextra', significant_cons (isExtra_of_isSymbol hright), hright,
    symbol_cons hleft, anyWord_cons hk, symbol_cons hright, operandLevel, hread, rawFrom_apply]

/-- A cast is kept as text. -/
theorem expressionAt_cast {n : Nat} (hls : ls.map Lexeme.token = castTokens)
    (hn : ls.length ≤ n) (hr : r.isSymbol ";" = true) :
    ∃ text, expressionAt (n + 1) 1 (ls ++ r :: tail) = some (.raw text, r :: tail) := by
  obtain ⟨row, column, ls₁, rfl, hls₁⟩ := exists_of_map_token hls
  obtain ⟨row', column', ls₂, rfl, hls₂⟩ := exists_of_map_token hls₁
  obtain ⟨row'', column'', ls₃, rfl, hls₃⟩ := exists_of_map_token hls₂
  simp only [List.length_cons] at hn
  have hread := expressionAt_exprTokens n (.ofThis "value") 0 false " " 21 ls₃ r tail rfl
    (Nat.le_refl 21) hls₃ (by omega) (Ends.of_closer (by decide) hr 21)
  have hstart : significant (⟨.symbol, " ", "(", row, column⟩ ::
      ⟨.word, "", "string", row', column'⟩ :: ⟨.symbol, "", ")", row'', column''⟩ ::
        (ls₃ ++ r :: tail)) = _ := significant_cons rfl
  have htype : isOneOf castTypes ⟨.word, "", "string", row', column'⟩ = true := by
    simp [isOneOf, castTypes, Lexeme.isWord, Text.foldAscii]
  exact ⟨_, expressionRule_closed hstart (bareOperand_cast rfl rfl htype rfl hread)
    (Ends.of_closer (by decide) hr 1)⟩

/-- What binds tighter than a choice ends in front of it. -/
theorem Ends.of_choice {level : Nat} (hr : r.isSymbol "?" = true) (h : conditionalLevel < level) :
    Ends level r := by
  have hextra := isExtra_of_isSymbol hr
  refine ⟨hextra, fun s hs => ?_, fun hc => Nat.not_le.2 h hc.2, fun o ho => ?_⟩
  · refine isSymbol_of_isSymbol hr ?_
    rintro rfl
    revert hs
    decide
  · simp only [Lexeme.isSymbol, Bool.and_eq_true, beq_iff_eq] at hr
    simp [operator?, hr, symbolOperators, List.lookup_cons] at ho

variable (sub start) in
/-- A choice between two values is kept as text. -/
theorem operations_choice (fuel : Nat) {e : Expr} {mark colon : Lexeme} {first second : Expr}
    (hmark : mark.isSymbol "?" = true) (hcolon : colon.isSymbol ":" = true)
    {ls' : List Lexeme} (hfirst : sub.expression 1 (ls ++ colon :: (ls' ++ r :: tail)) =
      some (first, colon :: (ls' ++ r :: tail)))
    (hnot : symbol? ":" (ls ++ colon :: (ls' ++ r :: tail)) =
      some (false, ls ++ colon :: (ls' ++ r :: tail)))
    (hsecond : sub.expression 6 (ls' ++ r :: tail) = some (second, r :: tail)) (hr : Ends 1 r) :
    ∃ text, operations sub 1 start (fuel + 2) e (mark :: (ls ++ colon :: (ls' ++ r :: tail))) =
      some (.raw text, r :: tail) := by
  refine ⟨sourceText (consumed start (r :: tail)), ?_⟩
  rw [operations]
  simp [peek_cons (isExtra_of_isSymbol hmark), hmark, conditionalLevel, symbol_cons hmark, hnot,
    Rules.anyExpression, hfirst, symbol_cons hcolon, hsecond, rawFrom_apply, operations_ends hr]

theorem foundTokens_eq {className : String} (h : isName className = true) :
    foundTokens className =
      exprTokens 0 false " " (.binary (.var "document") "===" .null) ++ .sym " " "?" ::
        (exprTokens 0 false " " .null ++ .sym " " ":" ::
          exprTokens 0 false " " (.staticCall className "fromArray" [.var "document"])) := by
  have hstatic : exprTokens 0 false " " (.staticCall className "fromArray" [.var "document"]) =
      .word " " className :: .sym "" "::" :: .word "" "fromArray" :: .sym "" "(" ::
        [.var "" "document", .sym "" ")"] := by
    rw [exprTokens, qualifiedTokens_word " " h]
    rfl
  rw [hstatic]
  rfl

/-- A choice between nothing and an object that is made from a document is kept as text. -/
theorem expressionAt_found {n : Nat} {className : String} (hclass : isFreeName className = true)
    (hls : ls.map Lexeme.token = foundTokens className) (hn : ls.length ≤ n)
    (hr : r.isSymbol ";" = true) :
    ∃ text, expressionAt (n + 1) 1 (ls ++ r :: tail) = some (.raw text, r :: tail) := by
  rw [foundTokens_eq (isName_of_isFreeName hclass)] at hls
  obtain ⟨lsc, ls₁, rfl, hlsc, hls₁⟩ := List.map_eq_append_iff.1 hls
  obtain ⟨row, column, ls₂, rfl, hls₂⟩ := exists_of_map_token hls₁
  obtain ⟨lsn, ls₃, rfl, hlsn, hls₃⟩ := List.map_eq_append_iff.1 hls₂
  obtain ⟨row', column', lsf, rfl, hlsf⟩ := exists_of_map_token hls₃
  simp only [List.length_append, List.length_cons] at hn
  have hends := Ends.of_closer (by decide) hr 1
  generalize hmark : (⟨(Token.sym " " "?").kind, (Token.sym " " "?").lead,
    (Token.sym " " "?").text, row, column⟩ : Lexeme) = mark
  generalize hcolon : (⟨(Token.sym " " ":").kind, (Token.sym " " ":").lead,
    (Token.sym " " ":").text, row', column'⟩ : Lexeme) = colon
  have hm : mark.isSymbol "?" = true := by rw [← hmark]; rfl
  have hc : colon.isSymbol ":" = true := by rw [← hcolon]; rfl
  have hstatic : isPlain (.staticCall className "fromArray" [.var "document"]) = true := by
    have hname := isClassName_of_isQualified
      (isQualified_of_isOpenName (isOpenName_of_isFreeName hclass))
    rw [isPlain, hname]
    decide
  have hfirst := expressionAt_exprTokens n .null 0 false " " 1 lsn colon (lsf ++ r :: tail) rfl
    (by decide) hlsn (by omega) (Ends.of_closer (by decide) hc 1)
  have hsecond := expressionAt_exprTokens n _ 0 false " " 6 lsf r tail hstatic
    (by simp [Expr.level]) hlsf (by omega) (Ends.of_closer (by decide) hr 6)
  have hnot : symbol? ":" (lsn ++ colon :: (lsf ++ r :: tail)) =
      some (false, lsn ++ colon :: (lsf ++ r :: tail)) := by
    obtain ⟨l, ls', rfl, hl, -⟩ := exists_of_exprTokens (e := .null) rfl hlsn
    exact symbol?_cons_of_not (isExtra_of_startsOperand hl)
      (isSymbol_of_startsOperand hl (by decide))
  have hmarkEnds : Ends 13 mark := Ends.of_choice hm (by decide)
  obtain ⟨first, mid, k, hoperand, hk, hoperations⟩ := readsOperations
    (expressionAt_exprTokens n) 1 (.binary (.var "document") "===" .null) 0 false " " lsc mark
    (lsn ++ colon :: (lsf ++ r :: tail)) rfl (by decide) hlsc (by omega) hmarkEnds
  have hchoice := fun fuel =>
    operations_choice (rulesAt n) (lsc ++ mark :: (lsn ++ colon :: (lsf ++ r :: tail))) fuel
    (e := .binary (.var "document") "===" .null) hm hc hfirst hnot hsecond hends
  obtain ⟨fuel, hfuel⟩ : ∃ fuel, mid.length + 1 = fuel + 2 + k := by
    simp only [List.length_cons, List.length_append] at hk
    exact ⟨mid.length - 1 - k, by omega⟩
  obtain ⟨text, htext⟩ := hchoice fuel
  refine ⟨text, ?_⟩
  simp only [List.append_assoc, List.cons_append]
  have hhere : here (lsc ++ mark :: (lsn ++ colon :: (lsf ++ r :: tail))) =
      some (lsc ++ mark :: (lsn ++ colon :: (lsf ++ r :: tail)),
        lsc ++ mark :: (lsn ++ colon :: (lsf ++ r :: tail))) := by
    rw [here, significant_exprTokens (e := .binary (.var "document") "===" .null) rfl hlsc]
  show expressionRule (rulesAt n) 1 _ = _
  rw [expressionRule, bind_apply, hhere, Option.bind_some, bind_apply, hoperand,
    Option.bind_some, bounded_apply, hfuel, hoperations, htext]

/-! ### Statements -/

/-- A value is returned as it is read. -/
theorem statementRule_return {e : Expr} (hl : l.kind = .word) (ht : l.text = "return")
    (hl' : l'.isExtra = false) (hcolon : l'.isSymbol ":" = false) (hend : l'.isSymbol ";" = false)
    (hread : sub.expression 1 (l' :: (ls ++ r :: rest)) = some (e, r :: rest))
    (hr : r.isSymbol ";" = true) :
    statementRule sub (l :: l' :: (ls ++ r :: rest)) = some (.ret (some e), rest) := by
  have hextra : l.isExtra = false := by simp [Lexeme.isExtra, hl]
  have hnone : wordStatement? sub l = none := by
    simp [wordStatement?, ht, List.lookup_cons, Text.foldAscii]
  have hreturn : l.isWord "return" = true := isWord_of_text hl (by rw [ht]; decide)
  simp [statementRule, peek_cons hextra, hl, startingWithWord, aheadSecond_cons hextra hl', hcolon,
    hnone, word?_cons hreturn, returnTail, extras_cons hl', atStatementEnd_cons hl' hend,
    Rules.anyExpression, hread, statementEnd_cons hr, firstOf]

/-- The lexemes in front of a semicolon. -/
theorem exists_of_semicolon {ts : List Token} (h : ls.map Lexeme.token = ts ++ [.sym "" ";"]) :
    ∃ lse r, ls = lse ++ [r] ∧ lse.map Lexeme.token = ts ∧ r.isSymbol ";" = true := by
  obtain ⟨lse, lsr, rfl, hlse, hlsr⟩ := List.map_eq_append_iff.1 h
  obtain ⟨row, column, rfl⟩ := exists_of_single hlsr
  exact ⟨lse, _, rfl, hlse, rfl⟩

/-- An expression statement whose first lexeme is known. -/
theorem statementAt_operand {n : Nat} {t : Token} {ts : List Token} {e : Expr}
    (hls : ls.map Lexeme.token = t :: ts) (ht : startsOperand t = true)
    (hword : t.kind = .word →
      ts.head?.all followsWord = true ∧ Text.foldAscii t.text ∉ statementWords)
    (hread : expressionAt (n + 1) 1 (ls ++ r :: rest) = some (e, r :: rest))
    (hr : r.isSymbol ";" = true) :
    statementAt (n + 2) (ls ++ r :: rest) = some (.expression e, rest) := by
  have hstatement : expressionStatement (rulesAt (n + 1)) (ls ++ r :: rest) =
      some (.expression e, rest) := expressionStatement_of_reads _ hread hr
  obtain ⟨l, ls', rfl, rfl, rfl⟩ := List.map_eq_cons_iff.1 hls
  by_cases hk : l.kind = .word
  · obtain ⟨hsecond, hnot⟩ := hword hk
    cases ls' with
    | nil =>
      exact (statementRule_word hk hnot (isExtra_of_isSymbol hr)
        (isSymbol_of_isSymbol hr (by decide))).trans hstatement
    | cons l' ls' =>
      obtain ⟨hextra, hcolon⟩ := isSymbol_of_followsWord hsecond
      exact (statementRule_word hk hnot hextra hcolon).trans hstatement
  · exact (statementRule_operand ht hk).trans hstatement

/-- A return of a value whose first lexeme is known. -/
theorem statementAt_return {n : Nat} {t : Token} {ts : List Token} {e : Expr}
    (hl : l.kind = .word) (hreturn : l.text = "return") (hls : ls.map Lexeme.token = t :: ts)
    (ht : startsOperand t = true ∨ t.text = "(" ∧ t.kind = .symbol)
    (hread : expressionAt (n + 1) 1 (ls ++ r :: rest) = some (e, r :: rest))
    (hr : r.isSymbol ";" = true) :
    statementAt (n + 2) (l :: (ls ++ r :: rest)) = some (.ret (some e), rest) := by
  obtain ⟨l', ls', rfl, rfl, -⟩ := List.map_eq_cons_iff.1 hls
  have hextra : l'.isExtra = false := by
    rcases ht with ht | ht
    · exact isExtra_of_startsOperand ht
    · have hk : l'.kind = .symbol := ht.2
      simp [Lexeme.isExtra, hk]
  have hnot : ∀ s ∈ [":", ";"], l'.isSymbol s = false := by
    intro s hs
    rcases ht with ht | ht
    · have hall : ∀ s ∈ [":", ";"], s ∉ operandSymbols := by decide
      exact isSymbol_of_startsOperand ht (hall s hs)
    · have hsymbol : l'.isSymbol "(" = true := by
        simp only [Lexeme.isSymbol, Bool.and_eq_true, beq_iff_eq]
        exact ⟨ht.2, ht.1⟩
      refine isSymbol_of_isSymbol hsymbol ?_
      rintro rfl
      revert hs
      decide
  exact statementRule_return hl hreturn hextra (hnot _ (by decide)) (hnot _ (by decide)) hread hr

/-- A statement is read back from its tokens. -/
theorem statementAt_statementTokens {n level : Nat} {k : StatementKind} (h : PlainKind k)
    (hls : ls.map Lexeme.token = statementTokens level k) (hn : ls.length ≤ n) :
    ∃ c, statementAt (n + 2) (ls ++ rest) = some (c, rest) ∧ ReadAs k c.statementKind := by
  cases h with
  | @assign target value hobject hstarts htarget hvalue =>
    obtain ⟨lst, ls₁, rfl, hlst, hls₁⟩ := List.map_eq_append_iff.1 hls
    obtain ⟨eq, ls₂, rfl, heq, hls₂⟩ := exists_of_sym hls₁
    obtain ⟨lsv, r, rfl, hlsv, hr⟩ := exists_of_semicolon hls₂
    simp only [List.length_append, List.length_cons] at hn
    obtain ⟨s, ts, hts⟩ := exists_of_startsWithVariable hstarts
    have hread : expressionAt (n + 1) 1 (lst ++ eq :: (lsv ++ r :: rest)) =
        some (.assign target value, r :: rest) :=
      expressionAt_assign hobject htarget hvalue heq hlst hlsv (by omega) (by omega) hr
    rw [hts] at hlst
    have hstart : (lst ++ eq :: lsv).map Lexeme.token =
        .var (newline level) s :: (ts ++ (eq :: lsv).map Lexeme.token) := by
      rw [List.map_append, hlst, List.cons_append]
    have hassoc : lst ++ eq :: (lsv ++ r :: rest) = (lst ++ eq :: lsv) ++ r :: rest := by simp
    rw [hassoc] at hread
    refine ⟨.expression (.assign target value), ?_, .same _⟩
    simpa using statementAt_operand hstart rfl (fun h => by cases h) hread hr
  | @yield items hitems =>
    obtain ⟨l, ls₁, rfl, hl, ht, hls₁⟩ := exists_of_word hls
    obtain ⟨lse, r, rfl, hlse, hr⟩ := exists_of_semicolon hls₁
    simp only [List.length_append, List.length_cons] at hn
    obtain ⟨text, hread⟩ : ∃ text, expressionAt (n + 1) 1 (l :: (lse ++ r :: rest)) =
        some (.raw text, r :: rest) := expressionAt_yield hitems hl ht hlse (by omega) hr
    refine ⟨.expression (.raw text), ?_, .yield _ text⟩
    have hstart : (l :: lse).map Lexeme.token = l.token :: lse.map Lexeme.token := rfl
    rw [hlse, exprTokens] at hstart
    have hnot : Text.foldAscii l.token.text ∉ statementWords := by
      dsimp only [Lexeme.token]
      rw [ht]
      decide
    simpa using statementAt_operand hstart (by simp [startsOperand, Lexeme.token, hl])
      (fun _ => ⟨rfl, hnot⟩) hread hr
  | @expression e hstarts he =>
    rw [statementTokens_expression level he] at hls
    obtain ⟨lse, r, rfl, hlse, hr⟩ := exists_of_semicolon hls
    rw [List.length_append] at hn
    obtain ⟨t, ts, htokens, ht, hsecond⟩ := head_exprTokens level false (newline level) e he
    have hword := head_exprTokens_statement level (newline level) e false he hstarts t
      (by rw [htokens]; rfl)
    have hread := expressionAt_exprTokens (n + 1) e level false (newline level) 1 lse r rest he
      (one_le_level he) hlse (by omega) (Ends.of_closer (by decide) hr 1)
    refine ⟨.expression e, ?_, .same _⟩
    rw [List.append_assoc, List.singleton_append]
    rw [htokens] at hlse
    exact statementAt_operand hlse ht (fun hk => ⟨hsecond hk, hword hk⟩) hread hr
  | cast =>
    rw [statementTokens_raw, rawTokens_castText] at hls
    obtain ⟨l, ls₁, rfl, hl, ht, hls₁⟩ := exists_of_word hls
    obtain ⟨lse, r, rfl, hlse, hr⟩ := exists_of_semicolon hls₁
    simp only [List.length_append, List.length_cons] at hn
    obtain ⟨text, hread⟩ : ∃ text, expressionAt (n + 1) 1 (lse ++ r :: rest) =
        some (.raw text, r :: rest) := expressionAt_cast hlse (by omega) hr
    refine ⟨.ret (some (.raw text)), ?_, .raw _ text⟩
    rw [List.cons_append, List.append_assoc, List.singleton_append]
    exact statementAt_return hl ht hlse (.inr ⟨rfl, rfl⟩) hread hr
  | @found className hclass =>
    rw [statementTokens_raw, rawTokens_foundText] at hls
    obtain ⟨l, ls₁, rfl, hl, ht, hls₁⟩ := exists_of_word hls
    obtain ⟨lse, r, rfl, hlse, hr⟩ := exists_of_semicolon hls₁
    simp only [List.length_append, List.length_cons] at hn
    obtain ⟨text, hread⟩ : ∃ text, expressionAt (n + 1) 1 (lse ++ r :: rest) =
        some (.raw text, r :: rest) := expressionAt_found hclass hlse (by omega) hr
    refine ⟨.ret (some (.raw text)), ?_, .raw _ text⟩
    rw [List.cons_append, List.append_assoc, List.singleton_append]
    exact statementAt_return hl ht hlse (.inl rfl) hread hr
  | @ret e he =>
    rw [statementTokens_ret level he] at hls
    obtain ⟨l, ls₁, rfl, hl, ht, hls₁⟩ := exists_of_word hls
    obtain ⟨lse, r, rfl, hlse, hr⟩ := exists_of_semicolon hls₁
    simp only [List.length_append, List.length_cons] at hn
    have hread := expressionAt_exprTokens (n + 1) e level false " " 1 lse r rest he
      (one_le_level he) hlse (by omega) (Ends.of_closer (by decide) hr 1)
    obtain ⟨t, ts, htokens, hstarts, -⟩ := head_exprTokens level false " " e he
    rw [htokens] at hlse
    refine ⟨.ret (some e), ?_, .same _⟩
    rw [List.cons_append, List.append_assoc, List.singleton_append]
    exact statementAt_return hl ht hlse (.inl hstarts) hread hr

end Grammar

end DomainScaffold.Php
