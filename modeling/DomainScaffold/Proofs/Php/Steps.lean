import DomainScaffold.Php.Grammar.Statements
import DomainScaffold.Proofs.Php.Written

/-!
# Single steps of the rules

What the rules do at a lexeme that is neither comment nor interlude: looking ahead, taking a symbol
or a word, and keeping the text of what was taken.

Results:
* `exists_of_map_token`: a lexeme is its token at a place.
* `qualifiedName_cons`: a name without namespaces is read as it is.
* `textFrom_append`: the text from a place on is that of the lexemes taken.
-/

namespace DomainScaffold.Php.Grammar

variable {α β : Type} {l l' : Lexeme} {ls rest : List Lexeme}

/-! ## Parsers -/

@[simp] theorem bind_apply (p : Parse α) (f : α → Parse β) (ls : List Lexeme) :
    (p >>= f) ls = (p ls).bind fun x => f x.1 x.2 := rfl

/-- A first step that is known is taken; as a rewriting from outside in it leaves the branches
    that are not gone alone. -/
theorem bind_of_eq_some {p : Parse α} {a : α} (h : p ls = some (a, rest)) (f : α → Parse β) :
    (p >>= f) ls = f a rest := by
  rw [bind_apply, h]
  rfl

@[simp] theorem pure_apply (a : α) (ls : List Lexeme) :
    (pure a : Parse α) ls = some (a, ls) := rfl

@[simp] theorem map_apply (f : α → β) (p : Parse α) (ls : List Lexeme) :
    (f <$> p) ls = (p ls).map fun x => (f x.1, x.2) := by
  show (p ls).bind (fun x => some (f x.1, x.2)) = _
  cases p ls <;> rfl

@[simp] theorem failure_apply (ls : List Lexeme) : (failure : Parse α) ls = none := rfl

@[simp] theorem discard_apply (p : Parse α) (ls : List Lexeme) :
    (discard p : Parse Unit) ls = (p ls).map fun x => ((), x.2) := by
  show (p ls).bind (fun x => some (PUnit.unit, x.2)) = _
  cases p ls <;> rfl

@[simp] theorem seqRight_apply (p : Parse α) (q : Parse β) (ls : List Lexeme) :
    (p *> q) ls = (p ls).bind fun x => q x.2 := rfl

@[simp] theorem bounded_apply (f : Nat → Parse α) (ls : List Lexeme) :
    bounded f ls = f (ls.length + 1) ls := rfl

/-! ## Lexemes and their tokens -/

/-- A lexeme is its token at a place. -/
theorem exists_of_map_token {t : Token} {ts : List Token} (h : ls.map Lexeme.token = t :: ts) :
    ∃ row column rest,
      ls = ⟨t.kind, t.lead, t.text, row, column⟩ :: rest ∧ rest.map Lexeme.token = ts := by
  obtain ⟨l, rest, rfl, rfl, hrest⟩ := List.map_eq_cons_iff.1 h
  exact ⟨l.row, l.column, rest, rfl, hrest⟩

/-- The lexeme of a symbol. -/
theorem exists_of_sym {lead s : String} {ts : List Token}
    (h : ls.map Lexeme.token = .sym lead s :: ts) :
    ∃ l rest, ls = l :: rest ∧ l.isSymbol s = true ∧ rest.map Lexeme.token = ts := by
  obtain ⟨row, column, rest, rfl, hrest⟩ := exists_of_map_token h
  exact ⟨_, rest, rfl, by simp [Lexeme.isSymbol, Token.sym], hrest⟩

/-- The lexeme of a word. -/
theorem exists_of_word {lead s : String} {ts : List Token}
    (h : ls.map Lexeme.token = .word lead s :: ts) :
    ∃ l rest, ls = l :: rest ∧ l.kind = .word ∧ l.text = s ∧ rest.map Lexeme.token = ts := by
  obtain ⟨row, column, rest, rfl, hrest⟩ := exists_of_map_token h
  exact ⟨_, rest, rfl, rfl, rfl, hrest⟩

/-- The lexeme of a variable. -/
theorem exists_of_var {lead s : String} {ts : List Token}
    (h : ls.map Lexeme.token = .var lead s :: ts) :
    ∃ l rest, ls = l :: rest ∧ l.kind = .variable ∧ l.text = "$" ++ s ∧
      rest.map Lexeme.token = ts := by
  obtain ⟨row, column, rest, rfl, hrest⟩ := exists_of_map_token h
  exact ⟨_, rest, rfl, rfl, rfl, hrest⟩

theorem exists_of_sym_single {lead s : String} (h : ls.map Lexeme.token = [.sym lead s]) :
    ∃ l, ls = [l] ∧ l.isSymbol s = true := by
  obtain ⟨l, rest, rfl, hl, hrest⟩ := exists_of_sym h
  rw [List.map_eq_nil_iff] at hrest
  exact ⟨l, by rw [hrest], hl⟩

theorem exists_of_single {t : Token} (h : ls.map Lexeme.token = [t]) :
    ∃ row column, ls = [⟨t.kind, t.lead, t.text, row, column⟩] := by
  obtain ⟨row, column, ls, rfl, hnil⟩ := exists_of_map_token h
  rw [List.map_eq_nil_iff] at hnil
  subst hnil
  exact ⟨row, column, rfl⟩

theorem written_map_token (ls : List Lexeme) : written (ls.map Lexeme.token) = fullText ls := by
  rw [written, fullText, List.map_map]
  rfl

/-! ## Looking ahead -/

theorem significant_cons (h : l.isExtra = false) : significant (l :: ls) = l :: ls := by
  simp [significant, h]

theorem extras_cons (h : l.isExtra = false) : extras (l :: ls) = some ([], l :: ls) := by
  simp [extras, h]

theorem here_cons (h : l.isExtra = false) : here (l :: ls) = some (l :: ls, l :: ls) := by
  simp [here, significant_cons h]

theorem peek_cons (h : l.isExtra = false) : peek (l :: ls) = some (some l, l :: ls) := by
  simp [peek, significant_cons h]

theorem ahead_cons (h : l.isExtra = false) (p : Lexeme → Bool) :
    ahead p (l :: ls) = some (p l, l :: ls) := by
  simp [ahead, significant_cons h]

theorem aheadSecond_cons (h : l.isExtra = false) (h' : l'.isExtra = false) (p : Lexeme → Bool) :
    aheadSecond p (l :: l' :: ls) = some (p l', l :: l' :: ls) := by
  simp [aheadSecond, significant_cons h, significant_cons h']

/-! ## Taking lexemes -/

theorem lexeme_cons (h : l.isExtra = false) {p : Lexeme → Bool} (hp : p l = true) :
    lexeme p (l :: ls) = some (l, ls) := by
  simp [lexeme, significant_cons h, hp]

theorem lexeme_cons_of_not (h : l.isExtra = false) {p : Lexeme → Bool} (hp : p l = false) :
    lexeme p (l :: ls) = none := by
  simp [lexeme, significant_cons h, hp]

theorem isExtra_of_isSymbol {s : String} (h : l.isSymbol s = true) : l.isExtra = false := by
  simp only [Lexeme.isSymbol, Bool.and_eq_true, beq_iff_eq] at h
  simp [Lexeme.isExtra, h.1]

theorem isExtra_of_isWord {s : String} (h : l.isWord s = true) : l.isExtra = false := by
  simp only [Lexeme.isWord, Bool.and_eq_true, beq_iff_eq] at h
  simp [Lexeme.isExtra, h.1]

theorem symbol_cons {s : String} (h : l.isSymbol s = true) :
    symbol s (l :: ls) = some ((), ls) := by
  simp [symbol, lexeme_cons (isExtra_of_isSymbol h) h]

theorem symbol_cons_of_not {s : String} (h : l.isExtra = false) (hs : l.isSymbol s = false) :
    symbol s (l :: ls) = none := by
  simp [symbol, lexeme_cons_of_not h hs]

theorem word_cons {s : String} (h : l.isWord s = true) : word s (l :: ls) = some ((), ls) := by
  simp [word, lexeme_cons (isExtra_of_isWord h) h]

theorem symbol?_cons {s : String} (h : l.isSymbol s = true) :
    symbol? s (l :: ls) = some (true, ls) := by
  simp [symbol?, ahead_cons (isExtra_of_isSymbol h), h, symbol_cons h]

theorem symbol?_cons_of_not {s : String} (h : l.isExtra = false) (hs : l.isSymbol s = false) :
    symbol? s (l :: ls) = some (false, l :: ls) := by
  simp [symbol?, ahead_cons h, hs]

theorem word?_cons {s : String} (h : l.isWord s = true) :
    word? s (l :: ls) = some (true, ls) := by
  simp [word?, ahead_cons (isExtra_of_isWord h), h, word_cons h]

theorem word?_cons_of_not {s : String} (h : l.isExtra = false) (hs : l.isWord s = false) :
    word? s (l :: ls) = some (false, l :: ls) := by
  simp [word?, ahead_cons h, hs]

theorem anyWord_cons (h : l.kind = .word) : anyWord (l :: ls) = some (l.text, ls) := by
  have hextra : l.isExtra = false := by simp [Lexeme.isExtra, h]
  simp [anyWord, lexeme_cons hextra (p := (·.kind == .word)) (by simp [h])]

theorem isExtra_of_kind (hk : l.kind = .word ∨ l.kind = .variable) : l.isExtra = false := by
  rcases hk with hk | hk <;> simp [Lexeme.isExtra, hk]

theorem isWord_of_kind (hk : l.kind = .word) (w : String) :
    l.isWord w = (Text.foldAscii l.text == w) := by
  simp [Lexeme.isWord, hk]

theorem isWord_of_isWord {s t : String} (h : l.isWord s = true) (hst : s ≠ t) :
    l.isWord t = false := by
  simp only [Lexeme.isWord, Bool.and_eq_true, beq_iff_eq] at h
  simp [Lexeme.isWord, h, hst]

theorem kind_of_isOneOf {words : List String} (h : isOneOf words l = true) : l.kind = .word := by
  obtain ⟨w, -, hw⟩ := List.any_eq_true.1 h
  simp only [Lexeme.isWord, Bool.and_eq_true, beq_iff_eq] at hw
  exact hw.1

/-! ## Text -/

theorem textFrom_append (start rest : List Lexeme) :
    textFrom (start ++ rest) rest = some (sourceText start, rest) := by
  simp [textFrom, consumed]

/-- A name without namespaces is read as it is. -/
theorem qualifiedName_cons (h : l.kind = .word) (h' : l'.isExtra = false)
    (hs : l'.isSymbol "\\" = false) :
    qualifiedName (l :: l' :: ls) = some (l.text, l' :: ls) := by
  have hextra : l.isExtra = false := by simp [Lexeme.isExtra, h]
  have hsymbol : l.isSymbol "\\" = false := by simp [Lexeme.isSymbol, h]
  have htext := textFrom_append [l] (l' :: ls)
  simp only [List.singleton_append] at htext
  simp [qualifiedName, textOf, here_cons hextra, symbol?_cons_of_not hextra hsymbol,
    anyWord_cons h, segments, ahead_cons h', hs, htext, aheadSecond, sourceText, fullText]

/-! ## Modifiers -/

/-- There are no modifiers in front of a lexeme that is none. -/
theorem modifiers_none {words : List String} (h : l.isExtra = false)
    (hw : isOneOf words l = false) : modifiers words (l :: ls) = some ([], l :: ls) := by
  simp [modifiers, manyWhile, ahead_cons h, hw]

/-- A modifier without a note is the word itself. -/
theorem modifier_cons {words : List String} (h : isOneOf words l = true)
    (h' : l'.isExtra = false) (hopen : l'.isSymbol "(" = false) :
    modifier words (l :: l' :: ls) = some (l.text, l' :: ls) := by
  have hextra := isExtra_of_kind (.inl (kind_of_isOneOf h))
  have htext := textFrom_append [l] (l' :: ls)
  rw [List.singleton_append] at htext
  simp [modifier, textOf, here_cons hextra, lexeme_cons hextra h, ahead_cons h', hopen,
    aheadSecond, htext, sourceText, fullText]

/-- Modifiers are read up to a lexeme that is none. -/
theorem manyWhile_modifiers {words : List String} {ms : List Lexeme}
    (hms : ∀ m ∈ ms, isOneOf words m = true) (h : l.isExtra = false)
    (hopen : l.isSymbol "(" = false) (hw : isOneOf words l = false) {fuel : Nat}
    (hfuel : ms.length < fuel) :
    manyWhile (isOneOf words) (modifier words) fuel (ms ++ l :: ls) =
      some (ms.map Lexeme.text, l :: ls) := by
  induction ms generalizing fuel with
  | nil =>
    obtain ⟨fuel, rfl⟩ : ∃ k, fuel = k + 1 := ⟨fuel - 1, by omega⟩
    simp [manyWhile, ahead_cons h, hw]
  | cons m ms ih =>
    obtain ⟨fuel, rfl⟩ : ∃ k, fuel = k + 1 := ⟨fuel - 1, by omega⟩
    rw [List.length_cons, Nat.succ_lt_succ_iff] at hfuel
    rw [List.forall_mem_cons] at hms
    have hextra := isExtra_of_kind (.inl (kind_of_isOneOf hms.1))
    have hmodifier : modifier words (m :: (ms ++ l :: ls)) = some (m.text, ms ++ l :: ls) := by
      cases ms with
      | nil => exact modifier_cons hms.1 h hopen
      | cons m' ms =>
        have hk := kind_of_isOneOf (hms.2 m' List.mem_cons_self)
        exact modifier_cons hms.1 (isExtra_of_kind (.inl hk)) (by simp [Lexeme.isSymbol, hk])
    rw [List.cons_append]
    simp [manyWhile, ahead_cons hextra, hms.1, hmodifier, ih hms.2 hfuel]

variable (ls) in
theorem modifiers_words (words : List String) (ms : List Lexeme)
    (hms : ∀ m ∈ ms, isOneOf words m = true) (h : l.isExtra = false)
    (hopen : l.isSymbol "(" = false) (hw : isOneOf words l = false) :
    modifiers words (ms ++ l :: ls) = some (ms.map Lexeme.text, l :: ls) := by
  rw [modifiers, bounded_apply, manyWhile_modifiers hms h hopen hw]
  rw [List.length_append]
  omega

end DomainScaffold.Php.Grammar
