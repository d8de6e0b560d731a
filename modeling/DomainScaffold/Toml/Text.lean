import DomainScaffold.Json.Reader

/-!
# Texts and keys in TOML

A text is basic, with escapes, or literal, without; each may stand on one line or on several. A key
is a bare word or a text on one line, or several of these with dots between them. Every function
takes the characters from some point on and gives back those behind what it read.

Results:
* `readLiteral_quote`, `readBasic_quote`: a quote ends a text on one line.
-/

namespace DomainScaffold.Toml

/-! ## Characters -/

/-- Whether a character may stand between the parts of a line. -/
def isSpace (c : Char) : Bool := c == ' ' || c == '\t'

/-- The characters without white space in front. -/
def skipSpace (cs : List Char) : List Char := cs.dropWhile isSpace

/-- Whether a character may stand in a comment or a text: a tab or no control character. -/
def isPlain (c : Char) : Bool := c == '\t' || (' ' ≤ c && c != '\x7f')

/-- What follows a line break, if one comes first. -/
def afterBreak? : List Char → Option (List Char)
  | '\n' :: cs => some cs
  | '\r' :: '\n' :: cs => some cs
  | _ => none

/-- The characters without a line break in front. -/
def dropBreak (cs : List Char) : List Char := (afterBreak? cs).getD cs

/-- The characters without a comment in front. -/
def skipComment : List Char → List Char
  | '#' :: cs => cs.dropWhile isPlain
  | cs => cs

/-- What follows the end of a line that may have a comment. -/
def afterLine? (cs : List Char) : Option (List Char) :=
  match skipComment (skipSpace cs) with
  | [] => some []
  | cs => afterBreak? cs

/-- What was read, with a character in front of its text. -/
def withFirst (c : Char) : Option (List Char × List Char) → Option (List Char × List Char) :=
  Option.map fun r => (c :: r.1, r.2)

/-! ## Escapes -/

/-- The character of an escape that is one letter. -/
def letterEscape? : Char → Option Char
  | 'b' => some '\x08'
  | 't' => some '\t'
  | 'n' => some '\n'
  | 'f' => some '\x0c'
  | 'r' => some '\r'
  | '"' => some '"'
  | '\\' => some '\\'
  | _ => none

/-- The value of hexadecimal digits. -/
def hexNumber? (ds : List Char) : Option Nat :=
  ds.foldlM (fun n d => (Json.hexValue? d).map fun k => n * 16 + k) 0

/-- The character with a code, unless it is half of a pair. -/
def scalar? (n : Nat) : Option Char := if n.isValidChar then some (Char.ofNat n) else none

/-- The character with a code of `count` digits. -/
def codeEscape? (count : Nat) (cs : List Char) : Option (Char × List Char) :=
  if cs.length < count then none
  else ((hexNumber? (cs.take count)).bind scalar?).map fun c => (c, cs.drop count)

/-- The character of an escape behind its backslash. -/
def escape? : List Char → Option (Char × List Char)
  | 'u' :: cs => codeEscape? 4 cs
  | 'U' :: cs => codeEscape? 8 cs
  | c :: cs => (letterEscape? c).map fun e => (e, cs)
  | [] => none

/-! ## Texts on one line -/

/-- A literal text behind its opening quote. -/
def readLiteral : List Char → Option (List Char × List Char)
  | [] => none
  | '\'' :: cs => some ([], cs)
  | c :: cs => if isPlain c then withFirst c (readLiteral cs) else none

/-- A basic text behind its opening quote. -/
def readBasic : (fuel : Nat) → List Char → Option (List Char × List Char)
  | 0, _ => none
  | _ + 1, [] => none
  | _ + 1, '"' :: cs => some ([], cs)
  | fuel + 1, '\\' :: cs => (escape? cs).bind fun (c, cs) => withFirst c (readBasic fuel cs)
  | fuel + 1, c :: cs => if isPlain c then withFirst c (readBasic fuel cs) else none

theorem readLiteral_quote (cs : List Char) : readLiteral ('\'' :: cs) = some ([], cs) := rfl

theorem readBasic_quote (fuel : Nat) (cs : List Char) :
    readBasic (fuel + 1) ('"' :: cs) = some ([], cs) := rfl

/-! ## Texts on several lines -/

/-- The end of a text on several lines: three quotes, with at most two more that belong to the
    text. -/
def closing? (quote : Char) (cs : List Char) : Option (List Char × List Char) :=
  let count := (cs.takeWhile (· == quote)).length
  if count < 3 then none
  else
    let inner := min (count - 3) 2
    some (List.replicate inner quote, cs.drop (inner + 3))

/-- A literal text on several lines. -/
def readLongLiteral : (fuel : Nat) → List Char → Option (List Char × List Char)
  | 0, _ => none
  | fuel + 1, cs =>
    match closing? '\'' cs, afterBreak? cs, cs with
    | some done, _, _ => some done
    | none, some cs, _ => withFirst '\n' (readLongLiteral fuel cs)
    | none, none, c :: cs => if isPlain c then withFirst c (readLongLiteral fuel cs) else none
    | none, none, [] => none

/-- The characters behind a backslash that hides the line break and all blank space after it. -/
def skipHidden : (fuel : Nat) → List Char → List Char
  | 0, cs => cs
  | fuel + 1, cs =>
    match afterBreak? (skipSpace cs) with
    | some cs => skipHidden fuel cs
    | none => skipSpace cs

/-- What follows a hidden line break behind its backslash. -/
def afterHidden? (cs : List Char) : Option (List Char) :=
  (afterBreak? (skipSpace cs)).map fun rest => skipHidden rest.length rest

/-- A basic text on several lines. -/
def readLongBasic : (fuel : Nat) → List Char → Option (List Char × List Char)
  | 0, _ => none
  | fuel + 1, cs =>
    match closing? '"' cs, afterBreak? cs, cs with
    | some done, _, _ => some done
    | none, some cs, _ => withFirst '\n' (readLongBasic fuel cs)
    | none, none, '\\' :: cs =>
      match afterHidden? cs with
      | some cs => readLongBasic fuel cs
      | none => (escape? cs).bind fun (c, cs) => withFirst c (readLongBasic fuel cs)
    | none, none, c :: cs => if isPlain c then withFirst c (readLongBasic fuel cs) else none
    | none, none, [] => none

/-- A text of any form. -/
def readText : List Char → Option (List Char × List Char)
  | '"' :: '"' :: '"' :: cs => readLongBasic (cs.length + 1) (dropBreak cs)
  | '\'' :: '\'' :: '\'' :: cs => readLongLiteral (cs.length + 1) (dropBreak cs)
  | '"' :: cs => readBasic (cs.length + 1) cs
  | '\'' :: cs => readLiteral cs
  | _ => none

/-! ## Keys -/

/-- Whether a character may stand in a bare key. -/
def isBare (c : Char) : Bool := c.isAlphanum || c == '_' || c == '-'

/-- One part of a key. -/
def readKeyPart : List Char → Option (String × List Char)
  | '"' :: cs => (readBasic (cs.length + 1) cs).map fun r => (String.ofList r.1, r.2)
  | '\'' :: cs => (readLiteral cs).map fun r => (String.ofList r.1, r.2)
  | cs =>
    let word := cs.takeWhile isBare
    if word.isEmpty then none else some (String.ofList word, cs.dropWhile isBare)

/-- The number of parts that no key reaches, and of levels that no value reaches. -/
def limit : Nat := 80

/-- The parts of a key, with white space around each. -/
def readKeyParts : (fuel : Nat) → List Char → Option (List String × List Char)
  | 0, _ => none
  | fuel + 1, cs => do
    let (part, cs) ← readKeyPart (skipSpace cs)
    match skipSpace cs with
    | '.' :: cs =>
      let (parts, cs) ← readKeyParts fuel cs
      return (part :: parts, cs)
    | cs => return ([part], cs)

/-- A key: the parts in front of the last one, and the last one. -/
def readKey (cs : List Char) : Option ((List String × String) × List Char) := do
  let (parts, cs) ← readKeyParts (limit - 1) cs
  let last ← parts.getLast?
  return ((parts.dropLast, last), cs)

end DomainScaffold.Toml
