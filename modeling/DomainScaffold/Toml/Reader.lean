import DomainScaffold.Text.Split
import DomainScaffold.Toml.Number
import DomainScaffold.Toml.Table

/-!
# Reading TOML

A document is a list of lines: keys with values, and headers of tables and of lists of tables.

Results:
* `parse?_blank`: a blank document is an empty table.
-/

namespace DomainScaffold.Toml

/-! ## Values -/

/-- The characters without white space, line breaks and comments in front. -/
def skipBlank : (fuel : Nat) → List Char → List Char
  | 0, cs => cs
  | fuel + 1, cs =>
    match afterBreak? (skipComment (skipSpace cs)) with
    | some cs => skipBlank fuel cs
    | none => skipSpace cs

/-- The characters behind all blank space. -/
def behindBlank (cs : List Char) : List Char := skipBlank (cs.length + 1) cs

/-- A value that is a word, a text, a date or a number. -/
def readSimple : List Char → Option (Json × List Char)
  | 't' :: 'r' :: 'u' :: 'e' :: cs => some (.bool true, cs)
  | 'f' :: 'a' :: 'l' :: 's' :: 'e' :: cs => some (.bool false, cs)
  | '"' :: cs => (readText ('"' :: cs)).map fun r => (.text (String.ofList r.1), r.2)
  | '\'' :: cs => (readText ('\'' :: cs)).map fun r => (.text (String.ofList r.1), r.2)
  | cs => readScalar cs

mutual

/-- A value, with at most `depth` values around one another. -/
def readValue : (fuel depth : Nat) → List Char → Option (Json × List Char)
  | 0, _, _ => none
  | _ + 1, 0, '[' :: _ => none
  | _ + 1, 0, '\x7b' :: _ => none
  | fuel + 1, depth + 1, '[' :: cs =>
    (readElements fuel depth (behindBlank cs)).map fun r => (.list r.1, r.2)
  | fuel + 1, depth + 1, '\x7b' :: cs =>
    match skipSpace cs with
    | '\x7d' :: cs => some (.object [], cs)
    | cs => (readPairs fuel depth [] cs).map fun r => (.object (entriesToJson r.1), r.2)
  | _ + 1, _, cs => readSimple cs

/-- The elements of a list up to its end. -/
def readElements : (fuel depth : Nat) → List Char → Option (List Json × List Char)
  | 0, _, _ => none
  | _ + 1, _, ']' :: cs => some ([], cs)
  | fuel + 1, depth, cs => do
    let (v, cs) ← readValue fuel depth cs
    match behindBlank cs with
    | ']' :: cs => return ([v], cs)
    | ',' :: cs =>
      let (vs, cs) ← readElements fuel depth (behindBlank cs)
      return (v :: vs, cs)
    | _ => none

/-- The keys and values of a table on one line up to its end. -/
def readPairs : (fuel depth : Nat) → Entries → List Char → Option (Entries × List Char)
  | 0, _, _, _ => none
  | fuel + 1, depth, entries, cs => do
    let ((path, key), cs) ← readKey cs
    let (v, cs) ← readValue fuel depth (skipSpace (← after? '=' cs))
    let entries ← addKey path key v .header entries
    match skipSpace cs with
    | '\x7d' :: cs => return (entries, cs)
    | ',' :: cs => readPairs fuel depth entries cs
    | _ => none

end

/-! ## Lines -/

/-- A document so far. -/
structure Document where
  /-- The parts of the last header. -/
  header : List String
  root : Entries

/-- The document behind a header, which ends with `close`. -/
def readHeader (doc : Document) (close : List Char)
    (change : List String → String → Entries → Option Entries) (cs : List Char) :
    Option (Document × List Char) := do
  let ((path, key), cs) ← readKey cs
  let rest ← afterLine? (← Text.dropLead close cs)
  let root ← change path key doc.root
  return (⟨path ++ [key], root⟩, rest)

/-- The document behind a key with its value. -/
def readEntry (doc : Document) (cs : List Char) : Option (Document × List Char) := do
  let ((path, key), cs) ← readKey cs
  let cs ← after? '=' cs
  let (v, cs) ← readValue (2 * cs.length + 2) (limit - 1) (skipSpace cs)
  let rest ← afterLine? cs
  let root ← addBelow doc.header path key v doc.root
  return ({ doc with root := root }, rest)

/-- The document behind a line. -/
def readLine (doc : Document) (cs : List Char) : Option (Document × List Char) :=
  match cs with
  | '[' :: '[' :: cs => readHeader doc [']', ']'] appendTable cs
  | '[' :: cs => readHeader doc [']'] openTable cs
  | cs => readEntry doc cs

/-- Whether nothing but a comment and a line break comes first. -/
def isIdle : List Char → Bool
  | '#' :: _ => true
  | cs => (afterBreak? cs).isSome

/-- The tables behind all lines. -/
def readLines : (fuel : Nat) → Document → List Char → Option Entries
  | 0, _, _ => none
  | fuel + 1, doc, cs =>
    match skipSpace cs with
    | [] => some doc.root
    | cs =>
      if isIdle cs then (afterLine? cs).bind (readLines fuel doc)
      else (readLine doc cs).bind fun (doc, cs) => readLines fuel doc cs

/-- The characters without a mark of the byte order in front. -/
def dropMark : List Char → List Char
  | '\ufeff' :: cs => cs
  | cs => cs

/-- The table of a document. -/
def parse? (source : String) : Option Json :=
  let cs := dropMark source.toList
  (readLines (cs.length + 1) ⟨[], []⟩ cs).map fun entries => .object (entriesToJson entries)

theorem parse?_blank : parse? "" = some (.object []) := rfl

end DomainScaffold.Toml
