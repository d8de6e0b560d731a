import DomainScaffold.Php.Lexeme.Scan

/-!
# Tokens

A token is a lexeme without its place: the white space in front, the kind and the text. A text that
is put together from tokens is scanned into exactly these tokens if each of them ends where the
scanner, which takes the longest form that fits, ends it too.

Results:
* `code_charsOf`: code is scanned into the tokens that it is put together from.
* `file_charsOf`: so is a file behind its opening tag.
-/

namespace DomainScaffold.Php

open Scan

/-- A lexeme without its place. -/
structure Token where
  /-- The white space in front. -/
  lead : String
  kind : LexemeKind
  text : String
  deriving DecidableEq, Repr

/-- The token of a lexeme. -/
def Lexeme.token (l : Lexeme) : Token := ⟨l.lead, l.kind, l.text⟩

/-- The characters of a token with the white space in front. -/
def Token.chars (t : Token) : List Char := t.lead.toList ++ t.text.toList

/-- The characters of tokens. -/
def charsOf (ts : List Token) : List Char := ts.flatMap Token.chars

@[simp] theorem charsOf_nil : charsOf [] = [] := rfl

@[simp] theorem charsOf_cons (t : Token) (ts : List Token) :
    charsOf (t :: ts) = t.lead.toList ++ t.text.toList ++ charsOf ts := rfl

@[simp] theorem charsOf_append (ts us : List Token) :
    charsOf (ts ++ us) = charsOf ts ++ charsOf us := List.flatMap_append

/-! ## Tokens that end where the scanner ends them -/

/-- Whether a token is scanned as such when it is followed by a character, or by nothing. -/
structure Token.Fits (t : Token) (next : Option Char) : Prop where
  lead : ∀ c ∈ t.lead.toList, isSpace c = true
  starts : ∃ c cs, t.text.toList = c :: cs ∧ isSpace c = false
  scanned : ∀ rest : List Char, rest.head? = next →
    lexeme? (t.text.toList ++ rest) = some (t.kind, t.text.toList.length)

/-- The first character of tokens, or else what follows them. -/
def firstChar (ts : List Token) (next : Option Char) : Option Char := (charsOf ts).head?.or next

/-- Whether every token is scanned as such in front of the next one. -/
def Separated : List Token → Option Char → Prop
  | [], _ => True
  | t :: ts, next => t.Fits (firstChar ts next) ∧ Separated ts next

theorem firstChar_append (ts us : List Token) (next : Option Char) :
    firstChar (ts ++ us) next = firstChar ts (firstChar us next) := by
  unfold firstChar
  rw [charsOf_append, List.head?_append, Option.or_assoc]

theorem separated_append {ts us : List Token} {next : Option Char} :
    Separated (ts ++ us) next ↔ Separated ts (firstChar us next) ∧ Separated us next := by
  induction ts with
  | nil => simp [Separated]
  | cons t ts ih => simp only [List.cons_append, Separated, ih, firstChar_append, and_assoc]

theorem head?_charsOf_append (ts : List Token) (rest : List Char) :
    (charsOf ts ++ rest).head? = firstChar ts rest.head? := List.head?_append

/-! ## Scanning -/

theorem takeWhile_lead {p : Char → Bool} {lead : List Char} (hlead : ∀ c ∈ lead, p c = true)
    (body : List Char) (hbody : ∃ c cs, body = c :: cs ∧ p c = false) :
    (lead ++ body).takeWhile p = lead ∧ (lead ++ body).dropWhile p = body := by
  obtain ⟨c, cs, rfl, hc⟩ := hbody
  rw [List.takeWhile_append_of_pos hlead, List.dropWhile_append_of_pos hlead]
  simp [hc]

theorem code_succ {fuel : Nat} {p : Scan.Place} {t : Token} {rest : List Char}
    (h : t.Fits rest.head?) :
    code (fuel + 1) p (t.chars ++ rest) =
      (code fuel ((p.after t.lead.toList).after t.text.toList) rest).map
        (⟨t.kind, t.lead, t.text, (p.after t.lead.toList).row, (p.after t.lead.toList).column⟩ ::
          ·) := by
  obtain ⟨c, cs, htext, hc⟩ := h.starts
  have hscan := h.scanned rest rfl
  have hsplit := takeWhile_lead h.lead (t.text.toList ++ rest)
    ⟨c, cs ++ rest, by rw [htext, List.cons_append], hc⟩
  rw [Token.chars, List.append_assoc, code, hsplit.1, hsplit.2]
  rw [htext] at hscan ⊢
  rw [List.cons_append]
  rw [List.cons_append] at hscan
  simp only [hscan, List.length_cons, Nat.add_eq_zero_iff, Nat.one_ne_zero, and_false, if_false]
  rw [← List.cons_append, ← List.length_cons (a := c), List.take_left, List.drop_left, ← htext,
    String.ofList_toList, String.ofList_toList]

/-- Code is scanned into the tokens that it is put together from. -/
theorem code_charsOf {ts : List Token} {blanks : List Char} (hb : ∀ c ∈ blanks, isSpace c = true)
    (h : Separated ts blanks.head?) {fuel : Nat} (hf : ts.length < fuel) (p : Scan.Place) :
    ∃ ls, code fuel p (charsOf ts ++ blanks) = some ls ∧ ls.map Lexeme.token = ts := by
  induction ts generalizing fuel p with
  | nil =>
    refine ⟨[], ?_, rfl⟩
    obtain ⟨fuel, rfl⟩ := Nat.exists_eq_add_of_lt hf
    have hdrop : (blanks ++ []).dropWhile isSpace = [] := List.dropWhile_append_of_pos hb
    rw [List.append_nil] at hdrop
    simp [code, hdrop]
  | cons t ts ih =>
    obtain ⟨fuel, rfl⟩ : ∃ n, fuel = n + 1 := ⟨fuel - 1, by rw [List.length_cons] at hf; omega⟩
    rw [List.length_cons] at hf
    obtain ⟨hfits, hrest⟩ := h
    rw [← head?_charsOf_append] at hfits
    obtain ⟨ls, hls, rfl⟩ := ih hrest (Nat.lt_of_succ_lt_succ hf)
      ((p.after t.lead.toList).after t.text.toList)
    have hsplit : charsOf (t :: ls.map Lexeme.token) ++ blanks =
        t.chars ++ (charsOf (ls.map Lexeme.token) ++ blanks) := List.append_assoc _ _ _
    refine ⟨⟨t.kind, t.lead, t.text, (p.after t.lead.toList).row,
      (p.after t.lead.toList).column⟩ :: ls, ?_, rfl⟩
    rw [hsplit, code_succ hfits, hls]
    rfl

theorem length_le_charsOf {ts : List Token} {next : Option Char} (h : Separated ts next) :
    ts.length ≤ (charsOf ts).length := by
  induction ts with
  | nil => exact Nat.le_refl 0
  | cons t ts ih =>
    obtain ⟨c, cs, htext, -⟩ := h.1.starts
    have hrest := ih h.2
    simp only [charsOf_cons, List.length_append, List.length_cons, htext]
    omega

/-- A file is scanned into its opening tag and the tokens behind it. -/
theorem file_charsOf {ts : List Token} {blanks : List Char}
    (hb : ∀ c ∈ blanks, isSpace c = true) (h : Separated ts blanks.head?) :
    ∃ tag ls, Scan.file ("<?php".toList ++ (charsOf ts ++ blanks)) = some (tag :: ls) ∧
      tag.kind = .openTag ∧ ls.map Lexeme.token = ts := by
  have hlength := length_le_charsOf h
  have hf : ts.length < ("<?php".toList ++ (charsOf ts ++ blanks)).length := by
    have htag : "<?php".toList.length = 5 := rfl
    simp only [List.length_append, htag]
    omega
  obtain ⟨ls, hls, htokens⟩ := code_charsOf hb h hf ((Scan.Place.mk 0 0).after "<?php".toList)
  refine ⟨⟨.openTag, "", "<?php", 0, 0⟩, ls, ?_, rfl, htokens⟩
  generalize charsOf ts ++ blanks = cs at hls
  have htag : "<?php".toList = ['<', '?', 'p', 'h', 'p'] := rfl
  rw [htag] at hls ⊢
  have hlead : ('<' :: '?' :: 'p' :: 'h' :: 'p' :: cs).takeWhile isSpace = [] := rfl
  have hbody : ('<' :: '?' :: 'p' :: 'h' :: 'p' :: cs).dropWhile isSpace =
      '<' :: '?' :: 'p' :: 'h' :: 'p' :: cs := rfl
  have hlen : tagLength ('<' :: '?' :: 'p' :: 'h' :: 'p' :: cs) = 5 := rfl
  simp only [Scan.file, List.cons_append, List.nil_append, hlead, hbody, tagStart, List.take_zero,
    List.drop_zero, hlen, if_true]
  exact congrArg (Option.map (⟨.openTag, "", "<?php", 0, 0⟩ :: ·)) hls

end DomainScaffold.Php
