import DomainScaffold.Decimal.Integer
import DomainScaffold.Php.Verbatim
import DomainScaffold.Proofs.Php.Names

/-!
# Texts that are put together from tokens

The tokens of generated code with the white space in front of them, and what the first character of
tokens tells about those in front of them.

Results:
* `toList_written`: the text of tokens is made of their characters.
* `fits_plainSymbol`: a symbol that no other one goes on from ends in front of any character.
-/

namespace DomainScaffold.Php

open Scan Verbatim

/-! ## Tokens -/

namespace Token

/-- A symbol. -/
def sym (lead text : String) : Token := ⟨lead, .symbol, text⟩

/-- A word. -/
def word (lead text : String) : Token := ⟨lead, .word, text⟩

/-- A variable, by its name without the sign. -/
def var (lead name : String) : Token := ⟨lead, .variable, "$" ++ name⟩

/-- A whole number. -/
def integer (lead : String) (value : Int) : Token := ⟨lead, .integer, Decimal.integer value⟩

/-- A quoted string, by its value. -/
def quoted (lead value : String) : Token := ⟨lead, .quoted, quote value⟩

end Token

/-- The text that tokens make up. -/
def written (ts : List Token) : String := String.join (ts.map fun t => t.lead ++ t.text)

@[simp] theorem written_nil : written [] = "" := rfl

@[simp] theorem written_cons (t : Token) (ts : List Token) :
    written (t :: ts) = t.lead ++ t.text ++ written ts := String.join_cons

@[simp] theorem written_append (ts us : List Token) :
    written (ts ++ us) = written ts ++ written us := by
  rw [written, List.map_append, String.join_append, ← written, ← written]

theorem toList_written (ts : List Token) : (written ts).toList = charsOf ts := by
  induction ts with
  | nil => rfl
  | cons t ts ih => simp [ih]

/-- The line break and the indent in front of a token that starts a line. -/
def newline (level : Nat) : String := "\n" ++ indent level

/-- Whether a text is white space between tokens. -/
def IsLead (lead : String) : Prop := ∀ c ∈ lead.toList, isSpace c = true

theorem isLead_empty : IsLead "" := by
  intro c hc
  cases hc

theorem isLead_space : IsLead " " := by
  intro c hc
  cases List.mem_singleton.1 hc
  rfl

theorem isLead_newline (level : Nat) : IsLead (newline level) := by
  intro c hc
  simp only [newline, indent, Text.repeated, String.toList_append, String.toList_ofList,
    List.mem_append, List.mem_replicate] at hc
  rcases hc with hc | hc
  · cases List.mem_singleton.1 hc
    rfl
  · rw [hc.2]
    rfl

theorem firstChar_newline (level : Nat) (s : String) (ts : List Token) (next : Option Char) :
    firstChar (.sym (newline level) s :: ts) next = some '\n' := by
  simp [firstChar, newline, Token.sym]

theorem firstChar_space {t : Token} (h : t.lead = " ") (ts : List Token) (next : Option Char) :
    firstChar (t :: ts) next = some ' ' := by
  simp [firstChar, h]

/-- Tokens whose text starts with a space start with this space. -/
theorem firstChar_written {ts : List Token} {text : String} (h : written ts = " " ++ text)
    (us : List Token) (next : Option Char) : firstChar (ts ++ us) next = some ' ' := by
  rw [firstChar, charsOf_append, ← toList_written, h, String.toList_append]
  rfl

theorem endsName_space {t : Token} (h : t.lead = " ") {ts : List Token} {next : Option Char} :
    endsName (firstChar (t :: ts) next) = true := by
  rw [firstChar_space h]
  rfl

theorem endsSymbol_space {s : String} (hs : s ∈ openSymbols) {t : Token} (h : t.lead = " ")
    {ts : List Token} {next : Option Char} : endsSymbol s (firstChar (t :: ts) next) = true := by
  rw [firstChar_space h]
  simp [endsSymbol, hs]

theorem fits_plainSymbol {lead s : String} (hlead : IsLead lead) (hs : s ∈ plainSymbols)
    (next : Option Char) : (Token.sym lead s).Fits next :=
  fits_symbol hlead (by simp [endsSymbol, hs])

end DomainScaffold.Php
