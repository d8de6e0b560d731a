import DomainScaffold.Php.Grammar.Expressions
import DomainScaffold.Proofs.Php.Names

/-!
# Whole numbers

The digits of a whole number are scanned as one number, without a fraction or an exponent and in no
other base than ten, and are read back as the number if it has at most 63 bits.

Results:
* `fits_integer`: whole numbers are scanned up to their last digit.
* `integerExpr_integer`: a whole number is read back from its digits.
-/

namespace DomainScaffold.Php

open Scan

/-! ## Digits -/

theorem isNamePart_of_isDigit {c : Char} (h : c.isDigit = true) : isNamePart c = true := by
  rw [isNamePart, h, Bool.or_true]

theorem groupedLength_of_endsName {p : Char → Bool} (hp : ∀ c, p c = true → isNamePart c = true)
    {rest : List Char} (h : endsName rest.head? = true) (inGroup : Bool) :
    groupedLength p inGroup rest = 0 := by
  cases rest with
  | nil => rfl
  | cons c rest =>
    have hc : isNamePart c = false := isNamePart_of_endsName h
    have hnot : p c = false := by
      rw [Bool.eq_false_iff]
      intro hpc
      rw [hp c hpc] at hc
      cases hc
    unfold groupedLength
    split
    · rfl
    · rename_i heq
      obtain ⟨rfl, -⟩ := List.cons.inj heq
      exact absurd hc (by decide)
    · rename_i heq
      cases heq
      rw [hnot]
      rfl

theorem groupedLength_digits {ds rest : List Char} (hds : ∀ d ∈ ds, d.isDigit = true)
    (h : endsName rest.head? = true) (inGroup : Bool) :
    groupedLength Char.isDigit inGroup (ds ++ rest) = ds.length := by
  induction ds generalizing inGroup with
  | nil => exact groupedLength_of_endsName (fun _ => isNamePart_of_isDigit) h inGroup
  | cons d ds ih =>
    rw [List.forall_mem_cons] at hds
    rw [List.cons_append]
    unfold groupedLength
    split
    · rename_i heq
      cases heq
    · rename_i heq
      obtain ⟨rfl, -⟩ := List.cons.inj heq
      exact absurd hds.1 (by decide)
    · rename_i heq
      obtain ⟨rfl, rfl⟩ := List.cons.inj heq
      rw [if_pos hds.1, ih hds.2, List.length_cons, Nat.add_comm]

/-- A number does not start with a zero unless it is zero. -/
theorem toDigits_cases (n : Nat) :
    Nat.toDigits 10 n = ['0'] ∨ ∃ d ds, Nat.toDigits 10 n = d :: ds ∧ d ≠ '0' := by
  induction n using Nat.strongRecOn with
  | ind n ih =>
    rw [Nat.toDigits_eq_if (by decide)]
    split
    · rename_i hn
      by_cases hzero : n = 0
      · exact .inl (by rw [hzero]; rfl)
      · refine .inr ⟨_, [], rfl, fun h => hzero ?_⟩
        have hvalue := Nat.toNat_digitChar_of_lt_ten hn
        rw [h] at hvalue
        change 48 = 48 + n at hvalue
        omega
    · rename_i hn
      obtain h | ⟨d, ds, h, hd⟩ := ih (n / 10) (by omega)
      · have hvalue := congrArg (Nat.ofDigitChars 10 · 0) h
        simp only [Nat.ofDigitChars_toDigits (b := 10) (by decide) (by decide)] at hvalue
        change n / 10 = 0 at hvalue
        omega
      · exact .inr ⟨d, ds ++ [(n % 10).digitChar], by rw [h]; rfl, hd⟩

theorem isDigit_toDigits (n : Nat) : ∀ d ∈ Nat.toDigits 10 n, d.isDigit = true :=
  fun _ => Nat.isDigit_of_mem_toDigits (by decide) (by decide)

theorem fractionLength_of_endsName {rest : List Char} (h : endsName rest.head? = true) :
    fractionLength rest = 0 := by
  cases rest with
  | nil => rfl
  | cons c rest =>
    unfold fractionLength
    split
    · rename_i heq
      cases heq
      cases h
    · rfl

theorem exponentLength_of_endsName {rest : List Char} (h : endsName rest.head? = true) :
    exponentLength rest = 0 := by
  cases rest with
  | nil => rfl
  | cons c rest =>
    have hc : isNamePart c = false := isNamePart_of_endsName h
    have hletter : ¬((c == 'e' || c == 'E') = true) := by
      simp only [Bool.or_eq_true, beq_iff_eq]
      rintro (rfl | rfl) <;> exact absurd hc (by decide)
    unfold exponentLength
    exact if_neg hletter

theorem isDigit_of_isOctal {c : Char} (h : isOctal c = true) : c.isDigit = true := by
  simp only [isOctal, Bool.and_eq_true, decide_eq_true_eq] at h
  have hbound : c.val ≤ '9'.val := Nat.le_trans h.2 (by decide)
  simp only [Char.isDigit, Bool.and_eq_true, decide_eq_true_eq]
  exact ⟨h.1, hbound⟩

/-- Behind a zero that ends in front of a character stands no number of another base. -/
theorem integerLength_zero {rest : List Char} (h : endsName rest.head? = true) :
    integerLength ('0' :: rest) = 1 := by
  cases rest with
  | nil => rfl
  | cons c rest =>
    have hc : isNamePart c = false := isNamePart_of_endsName h
    have hne : ∀ d : Char, isNamePart d = true → (c == d) = false := by
      intro d hd
      rw [beq_eq_false_iff_ne]
      rintro rfl
      rw [hc] at hd
      cases hd
    have hoctal : groupedLength isOctal true (c :: rest) = 0 :=
      groupedLength_of_endsName (fun d hd => isNamePart_of_isDigit (isDigit_of_isOctal hd)) h true
    simp only [integerLength, hne _ (by decide : isNamePart 'x' = true),
      hne _ (by decide : isNamePart 'X' = true), hne _ (by decide : isNamePart 'b' = true),
      hne _ (by decide : isNamePart 'B' = true), hne _ (by decide : isNamePart 'o' = true),
      hne _ (by decide : isNamePart 'O' = true), hoctal, Bool.or_self, Bool.false_eq_true,
      if_false]

/-- The digits of a number are scanned as a whole number. -/
theorem number_digits (n : Nat) {rest : List Char} (h : endsName rest.head? = true) :
    number (Nat.toDigits 10 n ++ rest) = (.integer, (Nat.toDigits 10 n).length) := by
  have hlength : digitsLength (Nat.toDigits 10 n ++ rest) = (Nat.toDigits 10 n).length :=
    groupedLength_digits (isDigit_toDigits n) h false
  have hdecimal : decimalLength (Nat.toDigits 10 n ++ rest) = (Nat.toDigits 10 n).length := by
    simp only [decimalLength, hlength, List.drop_left, fractionLength_of_endsName h, Nat.add_zero,
      exponentLength_of_endsName h]
  have hinteger : integerLength (Nat.toDigits 10 n ++ rest) = (Nat.toDigits 10 n).length := by
    obtain hzero | ⟨d, ds, hds, hd⟩ := toDigits_cases n
    · rw [hzero]
      exact integerLength_zero h
    · rw [hds] at hlength ⊢
      rw [List.cons_append] at hlength ⊢
      unfold integerLength
      split
      · rename_i heq
        exact absurd (List.cons.inj heq).1 hd
      · exact hlength
  rw [number, hdecimal, hinteger]
  simp

theorem isNameStart_of_isDigit {c : Char} (h : c.isDigit = true) : isNameStart c = false := by
  have hrange : 48 ≤ c.toNat ∧ c.toNat ≤ 57 := Char.isDigit_iff_toNat.1 h
  rw [Bool.eq_false_iff]
  intro hstart
  simp only [isNameStart, Bool.or_eq_true, Bool.and_eq_true, beq_iff_eq, decide_eq_true_eq]
    at hstart
  rcases hstart with (rfl | halpha) | hlarge
  · revert hrange
    decide
  · have hletter := toNat_of_isAlpha halpha
    omega
  · omega

/-! ## Scanning -/

/-- Nothing that the scanner looks for before numbers starts with a digit. -/
theorem lexeme?_of_isDigit {c : Char} {cs : List Char} (h : c.isDigit = true) :
    lexeme? (c :: cs) = some (number (c :: cs)) := by
  have hne : ∀ d : Char, d.isDigit = false → c ≠ d := by
    rintro d hd rfl
    rw [h] at hd
    cases hd
  unfold lexeme?
  split
  case h_9 =>
    rename_i heq
    cases heq
    simp [isNameStart_of_isDigit h, h]
  case h_1 heq => cases heq
  all_goals
    rename_i heq
    exact absurd (List.cons.inj heq).1 (hne _ (by decide))

/-- The digits of a whole number. -/
theorem toList_integer (n : Nat) : (Decimal.integer n).toList = Nat.toDigits 10 n := by
  simp [Decimal.integer]

/-- A whole number is scanned up to its last digit. -/
theorem fits_integer {lead : String} (hlead : ∀ c ∈ lead.toList, isSpace c = true) (n : Nat)
    {next : Option Char} (hnext : endsName next = true) :
    Token.Fits ⟨lead, .integer, Decimal.integer n⟩ next := by
  obtain ⟨d, ds, hds⟩ := List.exists_cons_of_ne_nil (Nat.toDigits_ne_nil (n := n) (b := 10))
  have hd : d.isDigit = true := isDigit_toDigits n d (by rw [hds]; exact List.mem_cons_self)
  have hspace : isSpace d = false := by
    have hrange : 48 ≤ d.toNat ∧ d.toNat ≤ 57 := Char.isDigit_iff_toNat.1 hd
    simp only [isSpace, Bool.or_eq_false_iff, Bool.and_eq_false_iff, decide_eq_false_iff_not,
      beq_eq_false_iff_ne]
    omega
  refine ⟨hlead, ⟨d, ds, by rw [← hds, toList_integer], hspace⟩, fun rest hrest => ?_⟩
  subst hrest
  have hnumber := number_digits n hnext
  dsimp only
  rw [toList_integer]
  rw [hds, List.cons_append] at hnumber ⊢
  rw [lexeme?_of_isDigit hd, hnumber]

/-! ## Reading -/

theorem value_toDigits (n : Nat) : Decimal.value (Nat.toDigits 10 n) = n := by
  have hvalue := Nat.ofDigitChars_toDigits (b := 10) (n := n) (by decide) (by decide)
  simp only [Nat.ofDigitChars, Nat.mul_comm 10] at hvalue
  exact hvalue

/-- A whole number of 63 bits is read back from its digits. -/
theorem integerExpr_integer {n : Nat} (h : n < Nat.pow 2 63) :
    Grammar.integerExpr (Decimal.integer n) = .int n := by
  have hdigits : (Nat.toDigits 10 n).all Char.isDigit = true :=
    List.all_eq_true.2 (isDigit_toDigits n)
  simp [Grammar.integerExpr, toList_integer, value_toDigits, hdigits, h]

end DomainScaffold.Php
