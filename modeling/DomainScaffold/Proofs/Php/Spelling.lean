import DomainScaffold.Php.Printer
import DomainScaffold.Proofs.Php.Numbers
import DomainScaffold.Proofs.Php.QualifiedNames

/-!
# How expressions are spelled

The tokens that a printed expression is made of, for the expressions of generated code: variables,
names, constants, strings, whole numbers, arrays, calls, accesses, copies and operators.

Results:
* `written_exprTokens`: the printed expression is put together from its tokens.
* `separated_exprTokens`: each of its tokens is scanned as such.
-/

namespace DomainScaffold.Php

open Scan Verbatim

/-! ## Plain expressions -/

/-- The operators of generated code with their levels. -/
def plainOperators : List (String × Nat) := [(".", 14), ("===", 12), ("&&", 8), ("instanceof", 20)]

/-- The token of an operator. -/
def operatorToken (op : String) : Token :=
  ⟨" ", if op = "instanceof" then .word else .symbol, op⟩

/-- Whether members of an expression can be accessed as it is written. -/
def Expr.isObject : Expr → Bool
  | .var _ | .call _ _ | .methodCall _ _ _ | .staticCall _ _ _ | .property _ _ => true
  | _ => false

/-- The level that operators around an expression may have; operands have the highest one. -/
def Expr.level : Expr → Nat
  | .binary _ op _ => (plainOperators.lookup op).getD 0
  | _ => 21

/-- Whether a text names a class of an import or the file: an identifier, or the class itself. -/
def isClassRef (s : String) : Bool := isFreeName s || s == "self"

mutual

/-- Whether an expression is of a form that is read back as it was written. -/
def isPlain : Expr → Bool
  | .var s => isName s
  | .name s => isClassName s
  | .classConst className s => isClassName className && isName s
  | .text _ | .bool _ | .null => true
  | .int value => 0 ≤ value && value.toNat < Nat.pow 2 63
  | .array items => arePlainItems items
  | .call function args => isQualified function && arePlain args
  | .methodCall object method args =>
    object.isObject && isPlain object && isName method && arePlain args
  | .staticCall className method args =>
    isClassName className && isName method && arePlain args
  | .property object s => object.isObject && isPlain object && isName s
  | .new className args => isClassName className && arePlain args
  | .clone value => value.level == 21 && isPlain value
  | .binary left op right =>
    (plainOperators.lookup op).any (fun n => n ≤ left.level && n < right.level) &&
      isPlain left && isPlain right
  | .float _ | .yield _ | .assign _ _ | .raw _ => false

/-- Whether expressions are plain. -/
def arePlain : List Expr → Bool
  | [] => true
  | e :: es => isPlain e && arePlain es

/-- Whether array items are plain. -/
def arePlainItems : List (Option Expr × Expr) → Bool
  | [] => true
  | (none, e) :: items => isPlain e && arePlainItems items
  | (some key, e) :: items => isPlain key && isPlain e && arePlainItems items

end

theorem isClassName_of_isClassRef {s : String} (h : isClassRef s = true) :
    isClassName s = true := by
  rw [isClassRef, Bool.or_eq_true] at h
  rw [isClassName, Bool.or_eq_true]
  exact h.imp_left fun h => isQualified_of_isOpenName (isOpenName_of_isFreeName h)

theorem isClassName_of_isQualified {s : String} (h : isQualified s = true) :
    isClassName s = true := by
  rw [isClassName, h, Bool.true_or]

theorem exists_of_isPlain_int {value : Int} (h : isPlain (.int value) = true) :
    ∃ n : Nat, value = n ∧ n < Nat.pow 2 63 := by
  simp only [isPlain, Bool.and_eq_true, decide_eq_true_eq] at h
  exact ⟨value.toNat, by omega, by omega⟩

/-! ## The tokens of expressions -/

/-- A comma, unless nothing follows it. -/
def commaBefore (rest : List α) : List Token := if rest.isEmpty then [] else [.sym "" ","]

mutual

/-- The tokens of a plain expression, the first of them behind `lead`. -/
def exprTokens (level : Nat) (broken : Bool) (lead : String) : Expr → List Token
  | .var s => [.var lead s]
  | .name s => qualifiedTokens lead s
  | .classConst className s => qualifiedTokens lead className ++ [.sym "" "::", .word "" s]
  | .text value => [.quoted lead value]
  | .bool value => [.word lead (if value then "true" else "false")]
  | .null => [.word lead "null"]
  | .int value => [.integer lead value]
  | .array items =>
    .sym lead "[" ::
      if items.isEmpty then [.sym "" "]"]
      else if items.all fun item => item.1.isNone then
        valuesTokens level "" items ++ [.sym "" "]"]
      else entriesTokens (level + 1) items ++ [.sym (newline level) "]"]
  | .call function args =>
    qualifiedTokens lead function ++
      .sym "" "(" :: (argsTokens level "" args ++ [.sym "" ")"])
  | .methodCall object method args =>
    if (broken || 2 ≤ Printer.chainLength object) && 0 < Printer.chainLength object then
      exprTokens level (broken || 2 ≤ Printer.chainLength object) lead object ++
        .sym (newline (level + 1)) "->" :: .word "" method ::
        .sym "" "(" :: (argsTokens (level + 1) "" args ++ [.sym "" ")"])
    else
      exprTokens level (broken || 2 ≤ Printer.chainLength object) lead object ++
        .sym "" "->" :: .word "" method :: .sym "" "(" ::
        (argsTokens level "" args ++ [.sym "" ")"])
  | .staticCall className method args =>
    qualifiedTokens lead className ++ .sym "" "::" :: .word "" method :: .sym "" "(" ::
      (argsTokens level "" args ++ [.sym "" ")"])
  | .property object s => exprTokens level false lead object ++ [.sym "" "->", .word "" s]
  | .new className args =>
    .word lead "new" :: (qualifiedTokens " " className ++
      .sym "" "(" :: (argsTokens level "" args ++ [.sym "" ")"]))
  | .clone value => .word lead "clone" :: exprTokens level false " " value
  | .binary left op right =>
    exprTokens level false lead left ++ operatorToken op :: exprTokens level false " " right
  | .float _ | .yield _ | .assign _ _ | .raw _ => []

/-- The tokens of arguments with their commas, the first of them behind `lead`. -/
def argsTokens (level : Nat) (lead : String) : List Expr → List Token
  | [] => []
  | arg :: args =>
    exprTokens level false lead arg ++ (commaBefore args ++ argsTokens level " " args)

/-- The tokens of the values of array items with their commas. -/
def valuesTokens (level : Nat) (lead : String) : List (Option Expr × Expr) → List Token
  | [] => []
  | (_, value) :: items =>
    exprTokens level false lead value ++ (commaBefore items ++ valuesTokens level " " items)

/-- The tokens of array items with a comma behind each. -/
def entriesTokens (level : Nat) : List (Option Expr × Expr) → List Token
  | [] => []
  | (none, value) :: items =>
    exprTokens level false (newline level) value ++ .sym "" "," :: entriesTokens level items
  | (some key, value) :: items =>
    exprTokens level false (newline level) key ++ .sym " " "=>" ::
      (exprTokens level false " " value ++ .sym "" "," :: entriesTokens level items)

end

/-! ## Printing -/

theorem commas_cons (a : String) (rest : List String) :
    Printer.commas (a :: rest) =
      a ++ (if rest.isEmpty then "" else ", " ++ Printer.commas rest) := by
  cases rest with
  | nil => simp [Printer.commas]
  | cons b rest => simp [Printer.commas, String.append_assoc]

theorem isEmpty_argsAt (level : Nat) (args : List Expr) :
    (Printer.argsAt level args).isEmpty = args.isEmpty := by
  cases args <;> rfl

theorem isEmpty_valuesAt (level : Nat) (items : List (Option Expr × Expr)) :
    (Printer.valuesAt level items).isEmpty = items.isEmpty := by
  cases items <;> rfl

attribute [local simp] String.append_assoc Token.sym Token.word Token.var Token.quoted
  Token.integer in
mutual

/-- A printed expression is put together from its tokens. -/
theorem written_exprTokens (level : Nat) (broken : Bool) (lead : String) : ∀ e : Expr,
    isPlain e = true →
      written (exprTokens level broken lead e) = lead ++ Printer.exprAt level broken e
  | .var s, _ => by simp [exprTokens, Printer.exprAt]
  | .name s, h => by
    simp [exprTokens, Printer.exprAt, written_qualifiedTokens lead (nameForm_of_isClassName h)]
  | .classConst className s, h => by
    simp only [isPlain, Bool.and_eq_true] at h
    simp [exprTokens, Printer.exprAt, written_qualifiedTokens lead (nameForm_of_isClassName h.1)]
  | .text value, _ => by simp [exprTokens, Printer.exprAt]
  | .int value, _ => by simp [exprTokens, Printer.exprAt]
  | .bool value, _ => by simp [exprTokens, Printer.exprAt]
  | .null, _ => by simp [exprTokens, Printer.exprAt]
  | .array items, h => by
    rw [isPlain] at h
    rw [exprTokens, Printer.exprAt]
    split
    · simp
    · split
      · simp [written_valuesTokens level "" items h]
      · have hentries := written_entriesTokens (level + 1) items h
        calc written (.sym lead "[" :: (entriesTokens (level + 1) items ++ [.sym (newline level) "]"]))
            = lead ++ "[" ++ (written (entriesTokens (level + 1) items) ++ "\n") ++
                indent level ++ "]" := by simp [newline]
          _ = lead ++ ("[\n" ++ Printer.entriesAt (level + 1) items ++ indent level ++ "]") := by
            rw [hentries]
            simp [← String.toList_inj]
  | .call function args, h => by
    simp only [isPlain, Bool.and_eq_true] at h
    simp [exprTokens, Printer.exprAt, written_argsTokens level "" args h.2,
      written_qualifiedTokens lead (nameForm_of_isQualified h.1)]
  | .methodCall object method args, h => by
    simp only [isPlain, Bool.and_eq_true] at h
    rw [exprTokens, Printer.exprAt]
    split
    · simp [newline, written_exprTokens level _ lead object h.1.1.2,
        written_argsTokens (level + 1) "" args h.2]
    · simp [written_exprTokens level _ lead object h.1.1.2,
        written_argsTokens level "" args h.2]
  | .staticCall className method args, h => by
    simp only [isPlain, Bool.and_eq_true] at h
    simp [exprTokens, Printer.exprAt, written_argsTokens level "" args h.2,
      written_qualifiedTokens lead (nameForm_of_isClassName h.1.1)]
  | .property object s, h => by
    simp only [isPlain, Bool.and_eq_true] at h
    simp [exprTokens, Printer.exprAt, written_exprTokens level false lead object h.1.2]
  | .new className args, h => by
    simp only [isPlain, Bool.and_eq_true] at h
    simp [exprTokens, Printer.exprAt, written_argsTokens level "" args h.2,
      written_qualifiedTokens " " (nameForm_of_isClassName h.1), ← String.toList_inj]
  | .clone value, h => by
    simp only [isPlain, Bool.and_eq_true] at h
    simp [exprTokens, Printer.exprAt, written_exprTokens level false " " value h.2,
      ← String.toList_inj]
  | .binary left op right, h => by
    simp only [isPlain, Bool.and_eq_true] at h
    simp [exprTokens, Printer.exprAt, operatorToken,
      written_exprTokens level false lead left h.1.2,
      written_exprTokens level false " " right h.2]
  | .float _, h | .yield _, h | .assign _ _, h | .raw _, h => by cases h

theorem written_argsTokens (level : Nat) (lead : String) : ∀ args : List Expr,
    arePlain args = true → written (argsTokens level lead args) =
      (if args.isEmpty then "" else lead) ++ Printer.commas (Printer.argsAt level args)
  | [], _ => rfl
  | arg :: args, h => by
    simp only [arePlain, Bool.and_eq_true] at h
    rw [argsTokens, Printer.argsAt, commas_cons, isEmpty_argsAt]
    cases args with
    | nil => simp [commaBefore, argsTokens, written_exprTokens level false lead arg h.1]
    | cons next args =>
      simp [commaBefore, written_exprTokens level false lead arg h.1,
        written_argsTokens level " " (next :: args) h.2, ← String.toList_inj]

theorem written_valuesTokens (level : Nat) (lead : String) :
    ∀ items : List (Option Expr × Expr), arePlainItems items = true →
      written (valuesTokens level lead items) =
        (if items.isEmpty then "" else lead) ++ Printer.commas (Printer.valuesAt level items)
  | [], _ => rfl
  | (key, value) :: items, h => by
    have h : isPlain value = true ∧ arePlainItems items = true := by
      cases key <;> simp only [arePlainItems, Bool.and_eq_true] at h
      · exact h
      · exact ⟨h.1.2, h.2⟩
    rw [valuesTokens, Printer.valuesAt, commas_cons, isEmpty_valuesAt]
    cases items with
    | nil => simp [commaBefore, valuesTokens, written_exprTokens level false lead value h.1]
    | cons next items =>
      simp [commaBefore, written_exprTokens level false lead value h.1,
        written_valuesTokens level " " (next :: items) h.2, ← String.toList_inj]

theorem written_entriesTokens (level : Nat) : ∀ items : List (Option Expr × Expr),
    arePlainItems items = true →
      written (entriesTokens level items) ++ "\n" = "\n" ++ Printer.entriesAt level items
  | [], _ => rfl
  | (none, value) :: items, h => by
    simp only [arePlainItems, Bool.and_eq_true] at h
    have hitems := written_entriesTokens level items h.2
    simp [entriesTokens, Printer.entriesAt, newline,
      written_exprTokens level false _ value h.1, hitems, ← String.toList_inj]
  | (some key, value) :: items, h => by
    simp only [arePlainItems, Bool.and_eq_true] at h
    have hitems := written_entriesTokens level items h.2
    simp [entriesTokens, Printer.entriesAt, newline, written_exprTokens level false _ key h.1.1,
      written_exprTokens level false _ value h.1.2, hitems, ← String.toList_inj]

end

/-! ## Scanning -/

theorem isIdentifier_of_isClassRef {s : String} (h : isClassRef s = true) :
    isIdentifier s = true := by
  rw [isClassRef, Bool.or_eq_true, beq_iff_eq] at h
  rcases h with h | rfl
  · exact isIdentifier_of_isFreeName h
  · decide

/-- An expression behind a space starts with this space. -/
theorem firstChar_exprTokens {e : Expr} (h : isPlain e = true) (level : Nat) (broken : Bool)
    (ts : List Token) (next : Option Char) :
    firstChar (exprTokens level broken " " e ++ ts) next = some ' ' :=
  firstChar_written (written_exprTokens level broken " " e h) ts next

theorem mem_operators {op : String} (h : (plainOperators.lookup op).isSome = true) :
    op = "." ∨ op = "===" ∨ op = "&&" ∨ op = "instanceof" := by
  obtain ⟨p, hp, hop⟩ := List.lookup_isSome_iff.1 h
  rw [eq_of_beq hop]
  have hmem : p.1 ∈ [".", "===", "&&", "instanceof"] := List.mem_map_of_mem hp
  simpa using hmem

theorem fits_operatorToken {op : String} (h : (plainOperators.lookup op).isSome = true) :
    (operatorToken op).Fits (some ' ') := by
  rcases mem_operators h with rfl | rfl | rfl | rfl
  · exact fits_symbol isLead_space (by decide)
  · exact fits_symbol isLead_space (by decide)
  · exact fits_symbol isLead_space (by decide)
  · exact fits_word isLead_space (by decide) (by decide)

mutual

/-- Each token of a plain expression is scanned as such. -/
theorem separated_exprTokens (level : Nat) (broken : Bool) {lead : String} (hlead : IsLead lead) :
    ∀ e : Expr, isPlain e = true → ∀ next : Option Char, endsName next = true →
      Separated (exprTokens level broken lead e) next
  | .var s, h, next, hnext => ⟨fits_variable hlead h hnext, trivial⟩
  | .name s, h, next, hnext => separated_qualifiedTokens hlead (nameForm_of_isClassName h) hnext
  | .classConst className s, h, next, hnext => by
    simp only [isPlain, Bool.and_eq_true] at h
    exact separated_append.2 ⟨separated_qualifiedTokens hlead (nameForm_of_isClassName h.1) rfl,
      fits_plainSymbol isLead_empty (by decide) _, fits_word isLead_empty h.2 hnext, trivial⟩
  | .text value, h, next, hnext => ⟨fits_quote hlead value _, trivial⟩
  | .bool value, h, next, hnext =>
    ⟨fits_word hlead (by cases value <;> decide) hnext, trivial⟩
  | .null, h, next, hnext => ⟨fits_word hlead (by decide) hnext, trivial⟩
  | .int value, h, next, hnext => by
    obtain ⟨n, rfl, -⟩ := exists_of_isPlain_int h
    exact ⟨fits_integer hlead n hnext, trivial⟩
  | .array items, h, next, hnext => by
    rw [isPlain] at h
    rw [exprTokens]
    refine ⟨fits_plainSymbol hlead (by decide) _, ?_⟩
    split
    · exact ⟨fits_plainSymbol isLead_empty (by decide) _, trivial⟩
    · split
      · rw [separated_append]
        exact ⟨separated_valuesTokens level isLead_empty items h _ rfl,
          fits_plainSymbol isLead_empty (by decide) _, trivial⟩
      · rw [separated_append]
        exact ⟨separated_entriesTokens (level + 1) items h _,
          fits_plainSymbol (isLead_newline level) (by decide) _, trivial⟩
  | .call function args, h, next, hnext => by
    simp only [isPlain, Bool.and_eq_true] at h
    refine separated_append.2
      ⟨separated_qualifiedTokens hlead (nameForm_of_isQualified h.1) rfl,
        fits_plainSymbol isLead_empty (by decide) _, separated_append.2 ⟨?_, ?_⟩⟩
    · exact separated_argsTokens level isLead_empty args h.2 _ rfl
    · exact ⟨fits_plainSymbol isLead_empty (by decide) _, trivial⟩
  | .methodCall object method args, h, next, hnext => by
    simp only [isPlain, Bool.and_eq_true] at h
    obtain ⟨⟨⟨-, hobject⟩, hmethod⟩, hargs⟩ := h
    rw [exprTokens]
    split
    · refine separated_append.2 ⟨?_, ?_⟩
      · exact separated_exprTokens level _ hlead object hobject _ (by rw [firstChar_newline]; rfl)
      · refine ⟨fits_plainSymbol (isLead_newline _) (by decide) _,
          fits_word isLead_empty hmethod rfl, fits_plainSymbol isLead_empty (by decide) _, ?_⟩
        exact separated_append.2 ⟨separated_argsTokens _ isLead_empty args hargs _ rfl,
          fits_plainSymbol isLead_empty (by decide) _, trivial⟩
    · refine separated_append.2 ⟨?_, ?_⟩
      · exact separated_exprTokens level _ hlead object hobject _ rfl
      · refine ⟨fits_plainSymbol isLead_empty (by decide) _,
          fits_word isLead_empty hmethod rfl, fits_plainSymbol isLead_empty (by decide) _, ?_⟩
        exact separated_append.2 ⟨separated_argsTokens _ isLead_empty args hargs _ rfl,
          fits_plainSymbol isLead_empty (by decide) _, trivial⟩
  | .staticCall className method args, h, next, hnext => by
    simp only [isPlain, Bool.and_eq_true] at h
    refine separated_append.2
      ⟨separated_qualifiedTokens hlead (nameForm_of_isClassName h.1.1) rfl,
        fits_plainSymbol isLead_empty (by decide) _, fits_word isLead_empty h.1.2 rfl,
        fits_plainSymbol isLead_empty (by decide) _, separated_append.2 ⟨?_, ?_⟩⟩
    · exact separated_argsTokens level isLead_empty args h.2 _ rfl
    · exact ⟨fits_plainSymbol isLead_empty (by decide) _, trivial⟩
  | .property object s, h, next, hnext => by
    simp only [isPlain, Bool.and_eq_true] at h
    exact separated_append.2 ⟨separated_exprTokens level false hlead object h.1.2 _ rfl,
      fits_plainSymbol isLead_empty (by decide) _, fits_word isLead_empty h.2 hnext, trivial⟩
  | .new className args, h, next, hnext => by
    simp only [isPlain, Bool.and_eq_true] at h
    have hclass := nameForm_of_isClassName h.1
    refine ⟨fits_word hlead (by decide) ?_, separated_append.2
      ⟨separated_qualifiedTokens isLead_space hclass rfl,
        fits_plainSymbol isLead_empty (by decide) _, separated_append.2 ⟨?_, ?_⟩⟩⟩
    · rw [firstChar_written (written_qualifiedTokens " " hclass)]
      rfl
    · exact separated_argsTokens level isLead_empty args h.2 _ rfl
    · exact ⟨fits_plainSymbol isLead_empty (by decide) _, trivial⟩
  | .clone value, h, next, hnext => by
    simp only [isPlain, Bool.and_eq_true] at h
    have hfirst := firstChar_exprTokens h.2 level false [] next
    rw [List.append_nil] at hfirst
    refine ⟨fits_word hlead (by decide) ?_,
      separated_exprTokens level false isLead_space value h.2 _ hnext⟩
    rw [hfirst]
    rfl
  | .binary left op right, h, next, hnext => by
    simp only [isPlain, Bool.and_eq_true] at h
    have hop : (plainOperators.lookup op).isSome = true := Option.isSome_of_any h.1.1
    have hfirst := firstChar_exprTokens h.2 level false [] next
    rw [List.append_nil] at hfirst
    refine separated_append.2 ⟨?_, ?_, ?_⟩
    · exact separated_exprTokens level false hlead left h.1.2 _ (endsName_space rfl)
    · rw [hfirst]
      exact fits_operatorToken hop
    · exact separated_exprTokens level false isLead_space right h.2 _ hnext
  | .float _, h, _, _ | .yield _, h, _, _ | .assign _ _, h, _, _
  | .raw _, h, _, _ => by cases h

theorem separated_argsTokens (level : Nat) {lead : String} (hlead : IsLead lead) :
    ∀ args : List Expr, arePlain args = true → ∀ next : Option Char, endsName next = true →
      Separated (argsTokens level lead args) next
  | [], _, _, _ => trivial
  | arg :: args, h, next, hnext => by
    simp only [arePlain, Bool.and_eq_true] at h
    rw [argsTokens, separated_append, separated_append]
    cases args with
    | nil => exact ⟨separated_exprTokens level false hlead arg h.1 _ hnext, trivial, trivial⟩
    | cons _ args =>
      exact ⟨separated_exprTokens level false hlead arg h.1 _ rfl,
        ⟨fits_plainSymbol isLead_empty (by decide) _, trivial⟩,
        separated_argsTokens level isLead_space _ h.2 _ hnext⟩

theorem separated_valuesTokens (level : Nat) {lead : String} (hlead : IsLead lead) :
    ∀ items : List (Option Expr × Expr), arePlainItems items = true →
      ∀ next : Option Char, endsName next = true → Separated (valuesTokens level lead items) next
  | [], _, _, _ => trivial
  | (key, value) :: items, h, next, hnext => by
    have h : isPlain value = true ∧ arePlainItems items = true := by
      cases key <;> simp only [arePlainItems, Bool.and_eq_true] at h
      · exact h
      · exact ⟨h.1.2, h.2⟩
    rw [valuesTokens, separated_append, separated_append]
    cases items with
    | nil => exact ⟨separated_exprTokens level false hlead value h.1 _ hnext, trivial, trivial⟩
    | cons _ items =>
      exact ⟨separated_exprTokens level false hlead value h.1 _ rfl,
        ⟨fits_plainSymbol isLead_empty (by decide) _, trivial⟩,
        separated_valuesTokens level isLead_space _ h.2 _ hnext⟩

theorem separated_entriesTokens (level : Nat) : ∀ items : List (Option Expr × Expr),
    arePlainItems items = true → ∀ next : Option Char, Separated (entriesTokens level items) next
  | [], _, _ => trivial
  | (none, value) :: items, h, next => by
    simp only [arePlainItems, Bool.and_eq_true] at h
    exact separated_append.2
      ⟨separated_exprTokens level false (isLead_newline level) value h.1 _ rfl,
        fits_plainSymbol isLead_empty (by decide) _, separated_entriesTokens level items h.2 next⟩
  | (some key, value) :: items, h, next => by
    simp only [arePlainItems, Bool.and_eq_true] at h
    exact separated_append.2
      ⟨separated_exprTokens level false (isLead_newline level) key h.1.1 _ rfl,
        fits_plainSymbol isLead_space (by decide) _, separated_append.2
          ⟨separated_exprTokens level false isLead_space value h.1.2 _ rfl,
            fits_plainSymbol isLead_empty (by decide) _,
            separated_entriesTokens level items h.2 next⟩⟩

end

end DomainScaffold.Php
