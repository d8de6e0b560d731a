import DomainScaffold.Php.Lexeme.Scan
import DomainScaffold.Php.Quoted
import DomainScaffold.Proofs.Text.Pieces
import Mathlib.Algebra.Ring.Parity

/-!
# The end of a single-quoted string

A quotation mark ends a single-quoted string unless a backslash escapes it, which is the case if an
odd number of backslashes stands directly in front of it. Quoting keeps the numbers in front of the
marks of the value odd, and the one in front of its own mark at the end even.

Results:
* `quotedLength_eq_some_iff`: which quotation mark ends a string.
* `quotedBody_quoteChars`: what is quoted holds no mark that ends it.
* `lexeme?_quote`: a quoted value is read up to its end, whatever stands behind it.
* `quote_eq_replaceAll`: quoting doubles the backslashes and then escapes the quotation marks.
* `quote_delimited`: a quoted value is read back, and its literal ends with its last character.
-/

namespace DomainScaffold.Php

open Text Scan

variable {c : Char} {cs body : List Char} {n : Nat}

/-! ## Backslashes at the end -/

/-- The number of backslashes at the end of a text. -/
def backslashesAtEnd (cs : List Char) : Nat := (cs.reverse.takeWhile (· == '\\')).length

theorem backslashesAtEnd_concat (cs : List Char) (d : Char) :
    backslashesAtEnd (cs ++ [d]) = if d = '\\' then backslashesAtEnd cs + 1 else 0 := by
  by_cases hd : d = '\\' <;> simp [backslashesAtEnd, hd]

theorem backslashesAtEnd_cons (hc : c ≠ '\\') (cs : List Char) :
    backslashesAtEnd (c :: cs) = backslashesAtEnd cs := by
  induction cs using List.reverseRecOn with
  | nil => simp [backslashesAtEnd, hc]
  | append_singleton cs d ih =>
    rw [← List.cons_append, backslashesAtEnd_concat, backslashesAtEnd_concat, ih]

/-- A backslash with the character behind it leaves the parity as it is. -/
theorem even_backslashesAtEnd_cons_cons (c : Char) (cs : List Char) :
    Even (backslashesAtEnd ('\\' :: c :: cs)) ↔ Even (backslashesAtEnd cs) := by
  induction cs using List.reverseRecOn with
  | nil => by_cases hc : c = '\\' <;> simp [backslashesAtEnd, hc]
  | append_singleton cs d ih =>
    rw [← List.cons_append, ← List.cons_append, backslashesAtEnd_concat, backslashesAtEnd_concat]
    split
    · rw [Nat.even_add_one, Nat.even_add_one, ih]
    · rfl

/-! ## The inside of a string -/

/-- A text without a quotation mark that would end a string, and that does not escape a mark
    behind it. -/
structure QuotedBody (body : List Char) : Prop where
  inside : ∀ before after, body = before ++ '\'' :: after → Odd (backslashesAtEnd before)
  atEnd : Even (backslashesAtEnd body)

namespace QuotedBody

theorem nil : QuotedBody [] where
  inside before after h := by simp at h
  atEnd := by simp [backslashesAtEnd]

theorem not_quote : ¬ QuotedBody ('\'' :: body) := fun h => by
  have hodd := h.inside [] body rfl
  simp [backslashesAtEnd] at hodd

theorem not_backslash : ¬ QuotedBody ['\\'] := fun h => by
  have heven := h.atEnd
  simp [backslashesAtEnd] at heven

theorem cons_iff (hbackslash : c ≠ '\\') (hquote : c ≠ '\'') :
    QuotedBody (c :: body) ↔ QuotedBody body := by
  constructor
  · intro h
    refine ⟨fun before after hbody => ?_, ?_⟩
    · rw [← backslashesAtEnd_cons hbackslash]
      exact h.inside (c :: before) after (congrArg _ hbody)
    · rw [← backslashesAtEnd_cons hbackslash]
      exact h.atEnd
  · intro h
    refine ⟨fun before after hbody => ?_, ?_⟩
    · cases before with
      | nil => exact absurd (List.cons.inj hbody).1 hquote
      | cons d before =>
        obtain ⟨rfl, htail⟩ := List.cons.inj hbody
        rw [backslashesAtEnd_cons hbackslash]
        exact h.inside before after htail
    · rw [backslashesAtEnd_cons hbackslash]
      exact h.atEnd

theorem escape_iff : QuotedBody ('\\' :: c :: body) ↔ QuotedBody body := by
  constructor
  · intro h
    refine ⟨fun before after hbody => ?_, (even_backslashesAtEnd_cons_cons c body).1 h.atEnd⟩
    have hodd := h.inside ('\\' :: c :: before) after (by rw [hbody]; rfl)
    rwa [← Nat.not_even_iff_odd, even_backslashesAtEnd_cons_cons, Nat.not_even_iff_odd] at hodd
  · intro h
    refine ⟨fun before after hbody => ?_, (even_backslashesAtEnd_cons_cons c body).2 h.atEnd⟩
    match before, hbody with
    | [], hbody => exact absurd (List.cons.inj hbody).1 (by decide)
    | [d], hbody =>
      obtain ⟨rfl, -⟩ := List.cons.inj hbody
      exact odd_one
    | d :: e :: before, hbody =>
      simp only [List.cons_append, List.cons.injEq] at hbody
      obtain ⟨rfl, rfl, hbody⟩ := hbody
      rw [← Nat.not_even_iff_odd, even_backslashesAtEnd_cons_cons, Nat.not_even_iff_odd]
      exact h.inside before after hbody

end QuotedBody

/-- What is quoted holds no quotation mark that would end it. -/
theorem quotedBody_quoteChars (cs : List Char) : QuotedBody (quoteChars cs) := by
  induction cs with
  | nil => exact .nil
  | cons c cs ih =>
    rw [quoteChars, List.flatMap_cons, ← quoteChars, quoteChar]
    split
    · exact QuotedBody.escape_iff.2 ih
    · rename_i hc
      rw [not_or] at hc
      exact (QuotedBody.cons_iff hc.1 hc.2).2 ih

/-! ## Reading a string -/

theorem quotedLength_append (h : QuotedBody body) (rest : List Char) :
    quotedLength (body ++ '\'' :: rest) = some (body.length + 1) := by
  induction body using quotedLength.induct with
  | case1 => rfl
  | case2 body => exact absurd h QuotedBody.not_quote
  | case3 c body ih =>
    rw [List.cons_append, List.cons_append, quotedLength, ih (QuotedBody.escape_iff.1 h)]
    exact congrArg some (Nat.add_comm 2 (body.length + 1))
  | case4 c body hquote hpair ih =>
    have hbackslash : c ≠ '\\' := by
      rintro rfl
      cases body with
      | nil => exact QuotedBody.not_backslash h
      | cons d body => exact hpair d body rfl rfl
    rw [List.cons_append, quotedLength, ih ((QuotedBody.cons_iff hbackslash hquote).1 h)]
    · exact congrArg some (Nat.add_comm 1 (body.length + 1))
    · exact hquote
    · exact fun _ _ hc => absurd hc hbackslash

theorem exists_quotedBody (h : quotedLength cs = some n) :
    ∃ body rest, cs = body ++ '\'' :: rest ∧ QuotedBody body ∧ n = body.length + 1 := by
  fun_induction quotedLength cs generalizing n with
  | case1 => cases h
  | case2 rest =>
    cases h
    exact ⟨[], rest, rfl, .nil, rfl⟩
  | case3 c cs ih =>
    obtain ⟨m, hm, rfl⟩ := Option.map_eq_some_iff.1 h
    obtain ⟨body, rest, rfl, hbody, rfl⟩ := ih hm
    exact ⟨'\\' :: c :: body, rest, rfl, QuotedBody.escape_iff.2 hbody, Nat.add_comm ..⟩
  | case4 c cs hquote hpair ih =>
    obtain ⟨m, hm, rfl⟩ := Option.map_eq_some_iff.1 h
    obtain ⟨body, rest, rfl, hbody, rfl⟩ := ih hm
    have hbackslash : c ≠ '\\' := by
      rintro rfl
      obtain ⟨d, ds, hcons⟩ := List.exists_cons_of_ne_nil
        (List.append_ne_nil_of_right_ne_nil body (List.cons_ne_nil '\'' rest))
      exact hpair d ds rfl hcons
    exact ⟨c :: body, rest, rfl, (QuotedBody.cons_iff hbackslash hquote).2 hbody, Nat.add_comm ..⟩

/-- A string ends at the first quotation mark behind an even number of backslashes. -/
theorem quotedLength_eq_some_iff : quotedLength cs = some n ↔
    ∃ body rest, cs = body ++ '\'' :: rest ∧ QuotedBody body ∧ n = body.length + 1 := by
  refine ⟨exists_quotedBody, ?_⟩
  rintro ⟨body, rest, rfl, hbody, rfl⟩
  exact quotedLength_append hbody rest

theorem toList_quote (s : String) : (quote s).toList = '\'' :: quoteChars s.toList ++ ['\''] :=
  String.toList_ofList

/-- A quoted value is read up to its end, whatever stands behind it. -/
theorem lexeme?_quote (s : String) (rest : List Char) :
    lexeme? ((quote s).toList ++ rest) = some (.quoted, (quote s).toList.length) := by
  have hscan : lexeme? ('\'' :: (quoteChars s.toList ++ '\'' :: rest)) =
      (quotedLength (quoteChars s.toList ++ '\'' :: rest)).map fun n => (.quoted, 1 + n) := rfl
  rw [toList_quote, List.append_assoc, List.cons_append, List.singleton_append, hscan,
    quotedLength_append (quotedBody_quoteChars s.toList)]
  simp [Nat.add_comm]

/-! ## Quoting -/

/-- The backslashes are doubled, and then the quotation marks are escaped. -/
theorem quote_eq_replaceAll (s : String) :
    quote s = "'" ++ replaceAll "'" "\\'" (replaceAll "\\" "\\\\" s) ++ "'" := by
  have hchar : ∀ c, (if c = '\\' then ['\\', '\\'] else [c]).flatMap
      (fun d => if d = '\'' then ['\\', '\''] else [d]) = quoteChar c := fun c => by
    by_cases hbackslash : c = '\\'
    · simp [quoteChar, hbackslash]
    · by_cases hquote : c = '\'' <;> simp [quoteChar, hbackslash, hquote]
  have hescaped : "\\'".toList = ['\\', '\''] := rfl
  have hdoubled : "\\\\".toList = ['\\', '\\'] := rfl
  rw [← String.toList_inj, toList_quote, String.toList_append, String.toList_append,
    toList_replaceAll_char (c := '\'') rfl, toList_replaceAll_char (c := '\\') rfl, hescaped,
    hdoubled, List.flatMap_assoc]
  simp only [hchar]
  rfl

/-- A quoted value is read back, and its literal ends with its last character: a quotation mark
    inside of it stands behind an odd number of backslashes, the one at its end behind an even
    number. -/
theorem quote_delimited (s : String) :
    quote s = "'" ++ replaceAll "'" "\\'" (replaceAll "\\" "\\\\" s) ++ "'" ∧
      unquote? (quote s) = some s ∧
      (∀ before after, (quote s).toList = before ++ '\'' :: after → before ≠ [] → after ≠ [] →
        Odd (backslashesAtEnd before)) ∧
      (∃ before, (quote s).toList = before ++ ['\''] ∧ before ≠ [] ∧
        Even (backslashesAtEnd before)) ∧
      ∀ rest, lexeme? ((quote s).toList ++ rest) = some (.quoted, (quote s).toList.length) := by
  have hbody := quotedBody_quoteChars s.toList
  refine ⟨quote_eq_replaceAll s, unquote?_quote s, fun before after h hbefore hafter => ?_,
    ⟨'\'' :: quoteChars s.toList, toList_quote s, List.cons_ne_nil _ _, ?_⟩, lexeme?_quote s⟩
  · obtain ⟨b, before, rfl⟩ := List.exists_cons_of_ne_nil hbefore
    rw [toList_quote, List.cons_append, List.cons_append, List.cons.injEq] at h
    obtain ⟨rfl, h⟩ := h
    obtain ⟨middle, last, rfl⟩ := List.eq_nil_or_concat' after |>.resolve_left hafter
    rw [← List.cons_append, ← List.append_assoc] at h
    rw [backslashesAtEnd_cons (by decide)]
    exact hbody.inside before middle (List.append_inj_left' h rfl)
  · rw [backslashesAtEnd_cons (by decide)]
    exact hbody.atEnd

end DomainScaffold.Php
