/-!
# Single-quoted strings

In a single-quoted string a backslash stands in front of a backslash or quote that belongs to the
value. When one is read, a backslash in front of any other character stands for itself.

Results:
* `unquoteChars_quoteChars`, `unquote?_quote`: reading gives back what was written.
* `quoteChars_append`: quoting works character by character.
-/

namespace DomainScaffold.Php

/-- A character inside a single-quoted string. -/
def quoteChar (c : Char) : List Char :=
  if c = '\\' ∨ c = '\'' then ['\\', c] else [c]

/-- The inside of a single-quoted string. -/
def quoteChars (cs : List Char) : List Char := cs.flatMap quoteChar

/-- A single-quoted string. -/
def quote (s : String) : String := String.ofList ('\'' :: quoteChars s.toList ++ ['\''])

theorem quoteChars_append (as bs : List Char) :
    quoteChars (as ++ bs) = quoteChars as ++ quoteChars bs := by
  simp [quoteChars]

/-- The value of the inside of a single-quoted string. -/
def unquoteChars : List Char → List Char
  | [] => []
  | '\\' :: '\\' :: cs => '\\' :: unquoteChars cs
  | '\\' :: '\'' :: cs => '\'' :: unquoteChars cs
  | c :: cs => c :: unquoteChars cs

/-- The value of a single-quoted string. -/
def unquote? (literal : String) : Option String :=
  match literal.toList with
  | '\'' :: cs =>
    if cs.getLast? = some '\'' then some (String.ofList (unquoteChars cs.dropLast)) else none
  | _ => none

theorem unquoteChars_quoteChars (cs : List Char) : unquoteChars (quoteChars cs) = cs := by
  induction cs with
  | nil => rfl
  | cons c cs ih =>
    simp only [quoteChars, List.flatMap_cons] at ih ⊢
    by_cases hb : c = '\\'
    · subst hb
      simp [quoteChar, unquoteChars, ih]
    · by_cases hq : c = '\''
      · subst hq
        simp [quoteChar, unquoteChars, ih]
      · simp only [quoteChar, hb, hq, or_self, if_false, List.singleton_append]
        rw [unquoteChars, ih]
        · intro cs' h
          exact absurd h hb
        · intro cs' h
          exact absurd h hb

theorem unquote?_quote (s : String) : unquote? (quote s) = some s := by
  simp [unquote?, quote, unquoteChars_quoteChars]

end DomainScaffold.Php
