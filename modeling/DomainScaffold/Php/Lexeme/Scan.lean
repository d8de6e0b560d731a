import DomainScaffold.Php.Lexeme
import DomainScaffold.Php.Lexeme.Strings

/-!
# Scanning lexemes

The lexemes of a file. At each place the longest form that fits is taken; a place where none fits
makes the file no PHP file.

Results:
* `fullText_code`: the lexemes of code hold its whole text, up to white space at its end.
-/

namespace DomainScaffold.Php

namespace Scan

/-! ## One lexeme -/

/-- The symbols, longer ones before those they start with. -/
def symbols : List (List Char) :=
  ["<=>", "**=", "...", "<<=", ">>=", "===", "!==", "??=", "?->", "++", "--", "->", "=>", "::",
   "==", "!=", "<>", "<=", ">=", "&&", "||", "??", ".=", "+=", "-=", "*=", "/=", "%=", "&=", "|=",
   "^=", "<<", ">>", "**", "#[", "+", "-", "*", "/", "%", "=", "<", ">", "!", ".", ",", ";", ":",
   "?", "(", ")", "[", "]", "\x7b", "\x7d", "&", "|", "^", "~", "@", "\\", "$"].map String.toList

/-- The symbol that a text starts with. -/
def symbol? (cs : List Char) : Option (LexemeKind × Nat) :=
  (symbols.find? fun s => s.isPrefixOf cs).map fun s => (.symbol, s.length)

/-- The number that a text starts with. -/
def number (cs : List Char) : LexemeKind × Nat :=
  let n := integerLength cs
  let d := decimalLength cs
  if d > n && d > digitsLength cs then (.float, d) else (.integer, n)

/-- The word or prefixed string that a text starts with. -/
def word? (cs : List Char) : Option (LexemeKind × Nat) :=
  match cs with
  | 'b' :: '\'' :: rest | 'B' :: '\'' :: rest =>
    (quotedLength rest).map fun n => (.template, n + 2)
  | 'b' :: '"' :: rest | 'B' :: '"' :: rest =>
    (templateLength [.text '"'] rest).map fun n => (.template, n + 2)
  | _ => some (.word, nameLength cs)

/-- The comment behind a number sign, unless the sign starts an attribute. -/
def hash? (cs : List Char) : Option (LexemeKind × Nat) :=
  match cs with
  | '[' :: _ => some (.symbol, 2)
  | [] | '?' :: _ | '\r' :: _ | '\n' :: _ => some (.comment, 1)
  | _ :: rest => some (.comment, 2 + lineLength rest)

/-- The kind and length of the lexeme that a text starts with. -/
def lexeme? (cs : List Char) : Option (LexemeKind × Nat) :=
  match cs with
  | [] => none
  | '/' :: '/' :: rest => some (.comment, 2 + lineLength rest)
  | '/' :: '*' :: rest => (blockLength rest).map fun n => (.comment, 2 + n)
  | '#' :: rest => hash? rest
  | '?' :: '>' :: _ => some (.interlude, interludeLength cs)
  | '\'' :: rest => (quotedLength rest).map fun n => (.quoted, 1 + n)
  | '"' :: rest => (templateLength [.text '"'] rest).map fun n => (.template, 1 + n)
  | '`' :: rest => (templateLength [.text '`'] rest).map fun n => (.template, 1 + n)
  | c :: rest =>
    if isNameStart c then word? cs
    else if c.isDigit || (c == '.' && rest.head?.any Char.isDigit) then some (number cs)
    else if c == '$' && rest.head?.any isNameStart then some (.variable, 1 + nameLength rest)
    else
      match hereLabel? cs with
      | some (label, n) =>
        (hereLength label true (cs.drop n)).map fun m => (.template, n + m)
      | none => symbol? cs

/-! ## All lexemes -/

/-- A place in a file: the row and the number of bytes before it in its row. -/
structure Place where
  row : Nat
  column : Nat

/-- The place behind some text. -/
def Place.after (p : Place) (cs : List Char) : Place :=
  cs.foldl (fun p c => if c == '\n' then ⟨p.row + 1, 0⟩ else ⟨p.row, p.column + c.utf8Size⟩) p

/-- The lexemes of code, at most `fuel` of them. -/
def code : Nat → Place → List Char → Option (List Lexeme)
  | 0, _, cs => if cs.all isSpace then some [] else none
  | fuel + 1, p, cs =>
    let lead := cs.takeWhile isSpace
    match cs.dropWhile isSpace with
    | [] => some []
    | body@(_ :: _) =>
      match lexeme? body with
      | none => none
      | some (kind, n) =>
        if n = 0 then none
        else
          let p := p.after lead
          (code fuel (p.after (body.take n)) (body.drop n)).map
            (⟨kind, String.ofList lead, String.ofList (body.take n), p.row, p.column⟩ :: ·)

theorem fullText_code {fuel : Nat} {p : Place} {cs : List Char} {ls : List Lexeme}
    (h : code fuel p cs = some ls) :
    ∃ blanks : List Char, blanks.all isSpace = true ∧ (fullText ls).toList ++ blanks = cs := by
  induction fuel generalizing p cs ls with
  | zero =>
    by_cases hc : cs.all isSpace = true
    · rw [code, if_pos hc] at h
      cases h
      exact ⟨cs, hc, by simp [fullText]⟩
    · rw [code, if_neg hc] at h
      cases h
  | succ fuel ih =>
    have split := List.takeWhile_append_dropWhile (p := isSpace) (l := cs)
    unfold code at h
    generalize hb : cs.dropWhile isSpace = body at h split
    cases body with
    | nil =>
      cases h
      refine ⟨cs, ?_, by simp [fullText]⟩
      rw [← split, List.append_nil]
      exact List.all_takeWhile
    | cons c rest =>
      cases hl : lexeme? (c :: rest) with
      | none => simp [hl] at h
      | some found =>
        obtain ⟨kind, n⟩ := found
        simp only [hl] at h
        split at h
        · cases h
        · obtain ⟨rest', hr, rfl⟩ := Option.map_eq_some_iff.1 h
          obtain ⟨blanks, hb', he⟩ := ih hr
          refine ⟨blanks, hb', ?_⟩
          refine Eq.trans ?_ split
          have hbody : (c :: rest).take n ++ ((fullText rest').toList ++ blanks) = c :: rest := by
            rw [he, List.take_append_drop]
          refine Eq.trans ?_ (congrArg (cs.takeWhile isSpace ++ ·) hbody)
          simp [fullText, Lexeme.fullText, List.append_assoc]

/-- The lexemes of a file that starts outside code. -/
def file (cs : List Char) : Option (List Lexeme) :=
  let lead := cs.takeWhile isSpace
  let body := cs.dropWhile isSpace
  let start := (Place.mk 0 0).after lead
  match tagStart body with
  | none =>
    let n := pageTail body
    some [⟨.page, String.ofList lead, String.ofList (body.take n), start.row, start.column⟩]
  | some n =>
    let page := body.take n
    let tag := (body.drop n).take (tagLength (body.drop n))
    let atTag := start.after page
    let tagLead := if n = 0 then lead else []
    let head := if n = 0 then []
      else [⟨.page, String.ofList lead, String.ofList page, start.row, start.column⟩]
    (code cs.length (atTag.after tag) (body.drop (n + tag.length))).map
      (head ++ ⟨.openTag, String.ofList tagLead, String.ofList tag, atTag.row, atTag.column⟩ :: ·)

end Scan

/-- The lexemes of a file, or nothing if some place of it starts no lexeme. -/
def lexemes? (source : String) : Option (List Lexeme) := Scan.file source.toList

end DomainScaffold.Php
