import DomainScaffold.Decimal.Integer
import DomainScaffold.Decimal.Shortest
import DomainScaffold.Json.Value

/-!
# JSON text

The two ways a JSON value is written: compact, without any space, and laid out, with an indent of
two spaces per level and empty lists and objects on one line.

Results:
* `escape_of_plain`: a character that needs no escape is written as it is.
-/

namespace DomainScaffold.Json

/-! ## Leaves -/

/-- A character inside a string. -/
def escape (c : Char) : List Char :=
  if c = '"' then ['\\', '"']
  else if c = '\\' then ['\\', '\\']
  else if c = '\x08' then ['\\', 'b']
  else if c = '\x0c' then ['\\', 'f']
  else if c = '\n' then ['\\', 'n']
  else if c = '\r' then ['\\', 'r']
  else if c = '\t' then ['\\', 't']
  else if c.toNat < 32 then
    ['\\', 'u', '0', '0', (c.toNat / 16).digitChar, (c.toNat % 16).digitChar]
  else [c]

theorem escape_of_plain {c : Char} (hq : c ≠ '"') (hb : c ≠ '\\') (hc : 32 ≤ c.toNat) :
    escape c = [c] := by
  have h1 : c ≠ '\x08' := by rintro rfl; exact absurd hc (by decide)
  have h2 : c ≠ '\x0c' := by rintro rfl; exact absurd hc (by decide)
  have h3 : c ≠ '\n' := by rintro rfl; exact absurd hc (by decide)
  have h4 : c ≠ '\r' := by rintro rfl; exact absurd hc (by decide)
  have h5 : c ≠ '\t' := by rintro rfl; exact absurd hc (by decide)
  have h6 : ¬ c.toNat < 32 := by omega
  simp [escape, hq, hb, h1, h2, h3, h4, h5, h6]

/-- A string with its quotes. -/
def stringChars (s : String) : List Char := '"' :: s.toList.flatMap escape ++ ['"']

/-- Magnitudes from `10 ^ (-5)` to below `10 ^ 16` are positional, the others have a signed
    exponent. -/
def realLayout : Decimal.Layout := ⟨-4, 16, ['e', '+'], ['e', '-']⟩

/-- A number that is no integer; what is not finite has no JSON form but `null`. -/
def realChars (x : Binary64) : List Char :=
  if x.isFinite then realLayout.render x else "null".toList

/-- An integer. -/
def intChars (i : Int) : List Char := (Decimal.integer i).toList

/-! ## Compact text -/

mutual

/-- The compact characters of a value. -/
def compactChars : Json → List Char
  | .null => "null".toList
  | .bool true => "true".toList
  | .bool false => "false".toList
  | .int i => intChars i
  | .real x => realChars x
  | .text s => stringChars s
  | .list items => '[' :: compactItems items ++ [']']
  | .object fields => '\x7b' :: compactFields fields ++ ['\x7d']

/-- The compact characters of list items between commas. -/
def compactItems : List Json → List Char
  | [] => []
  | [v] => compactChars v
  | v :: w :: rest => compactChars v ++ ',' :: compactItems (w :: rest)

/-- The compact characters of object fields between commas. -/
def compactFields : List (String × Json) → List Char
  | [] => []
  | [(k, v)] => stringChars k ++ ':' :: compactChars v
  | (k, v) :: f :: rest =>
    stringChars k ++ ':' :: compactChars v ++ ',' :: compactFields (f :: rest)

end

/-- A value without spaces. -/
def compact (v : Json) : String := String.ofList (compactChars v)

/-! ## Laid out text -/

/-- A line break and the indent of a level. -/
def newLine (level : Nat) : List Char := '\n' :: List.replicate (2 * level) ' '

mutual

/-- The laid out characters of a value whose own line is indented by `level`. -/
def prettyChars (level : Nat) : Json → List Char
  | .list [] => ['[', ']']
  | .list (v :: rest) => '[' :: prettyItems (level + 1) (v :: rest) ++ newLine level ++ [']']
  | .object [] => ['\x7b', '\x7d']
  | .object (f :: rest) =>
    '\x7b' :: prettyFields (level + 1) (f :: rest) ++ newLine level ++ ['\x7d']
  | .null => "null".toList
  | .bool true => "true".toList
  | .bool false => "false".toList
  | .int i => intChars i
  | .real x => realChars x
  | .text s => stringChars s

/-- List items, each on a line of its own. -/
def prettyItems (level : Nat) : List Json → List Char
  | [] => []
  | [v] => newLine level ++ prettyChars level v
  | v :: w :: rest => newLine level ++ prettyChars level v ++ ',' :: prettyItems level (w :: rest)

/-- Object fields, each on a line of its own. -/
def prettyFields (level : Nat) : List (String × Json) → List Char
  | [] => []
  | [(k, v)] => newLine level ++ stringChars k ++ ':' :: ' ' :: prettyChars level v
  | (k, v) :: f :: rest =>
    newLine level ++ stringChars k ++ ':' :: ' ' :: prettyChars level v ++
      ',' :: prettyFields level (f :: rest)

end

/-- A value laid out over lines. -/
def pretty (v : Json) : String := String.ofList (prettyChars 0 v)

end DomainScaffold.Json
