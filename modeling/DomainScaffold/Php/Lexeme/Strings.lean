import DomainScaffold.Text.Split

/-!
# Extent of names, comments and literals

For each form of lexeme, how many characters of a text it takes from the start of the text.

Results:
* `lineLength_le`: a comment ends with its text at the latest.
-/

namespace DomainScaffold.Php.Scan

/-! ## Names -/

/-- Whether a character counts as white space between lexemes. -/
def isSpace (c : Char) : Bool :=
  let n := c.toNat
  (9 ≤ n && n ≤ 13) || n == 32 || n == 0xA0 || n == 0x200B || n == 0x2060 || n == 0xFEFF

/-- Whether a name may start with a character. -/
def isNameStart (c : Char) : Bool :=
  let n := c.toNat
  c == '_' || c.isAlpha || (0x80 ≤ n && n ≤ 0xFFFF && !isSpace c)

/-- Whether a character may stand inside a name. -/
def isNamePart (c : Char) : Bool := isNameStart c || c.isDigit

/-- The length of the name that a text starts with. -/
def nameLength : List Char → Nat
  | [] => 0
  | c :: cs => if isNameStart c then 1 + (cs.takeWhile isNamePart).length else 0

/-! ## Comments -/

/-- The length of the rest of a comment that ends with its line or at a closing tag. A question mark
    at the end of the line takes the line break with it. -/
def lineLength : List Char → Nat
  | [] => 0
  | '\n' :: _ => 0
  | '\r' :: _ => 0
  | '?' :: cs =>
    match cs with
    | [] => 0
    | '>' :: _ => 0
    | '\n' :: _ => 2
    | '\r' :: '\n' :: _ => 3
    | '\r' :: _ => 0
    | _ :: cs => 2 + lineLength cs
  | _ :: cs => 1 + lineLength cs

theorem lineLength_le (cs : List Char) : lineLength cs ≤ cs.length := by
  fun_induction lineLength cs <;> simp at * <;> omega

/-- The length of the rest of a comment up to its closing mark. -/
def blockLength : List Char → Option Nat
  | [] => none
  | '*' :: '/' :: _ => some 2
  | _ :: cs => (blockLength cs).map (1 + ·)

/-! ## Text outside code -/

/-- The number of characters before an opening tag. -/
def tagStart : List Char → Option Nat
  | [] => none
  | '<' :: '?' :: _ => some 0
  | _ :: cs => (tagStart cs).map (1 + ·)

/-- The length of the opening tag at the start of a text. -/
def tagLength (cs : List Char) : Nat :=
  if (cs.drop 2).take 3 |>.map Char.toLower |> (· == ['p', 'h', 'p']) then 5
  else if (cs.drop 2).head? == some '=' then 3
  else 2

/-- The length of the text outside code at the end of a file. White space alone is no text, nor is
    white space behind an angle bracket. -/
def pageTail (cs : List Char) : Nat :=
  match cs.reverse.dropWhile isSpace with
  | [] => 0
  | '<' :: before => before.length + 1
  | _ => cs.length

/-- The length of a closing tag with all up to the end of the next opening tag. -/
def interludeLength (cs : List Char) : Nat :=
  match tagStart (cs.drop 2) with
  | some n => 2 + n + tagLength (cs.drop (2 + n))
  | none => 2 + pageTail (cs.drop 2)

/-! ## Numbers -/

/-- The length of groups of digits between single underscores; `inGroup` is set behind a digit. -/
def groupedLength (isDigit : Char → Bool) (inGroup : Bool) : List Char → Nat
  | [] => 0
  | '_' :: c :: cs =>
    if inGroup && isDigit c then 2 + groupedLength isDigit true cs else 0
  | c :: cs => if isDigit c then 1 + groupedLength isDigit true cs else 0

/-- The length of decimal digits. -/
def digitsLength (cs : List Char) : Nat := groupedLength Char.isDigit false cs

/-- Whether a character is an octal digit. -/
def isOctal (c : Char) : Bool := '0' ≤ c && c ≤ '7'

/-- Whether a character is a hexadecimal digit. -/
def isHex (c : Char) : Bool :=
  c.isDigit || ('a' ≤ c && c ≤ 'f') || ('A' ≤ c && c ≤ 'F')

/-- The length of an integer in front of which no digit is missing. -/
def integerLength : List Char → Nat
  | '0' :: c :: cs =>
    if c == 'x' || c == 'X' then 2 + groupedLength isHex false cs
    else if c == 'b' || c == 'B' then 2 + groupedLength (fun d => d == '0' || d == '1') false cs
    else if c == 'o' || c == 'O' then 2 + groupedLength isOctal false cs
    else 1 + groupedLength isOctal true (c :: cs)
  | cs => digitsLength cs

/-- The length of a fraction with its point, or zero. -/
def fractionLength : List Char → Nat
  | '.' :: cs => 1 + digitsLength cs
  | _ => 0

/-- The length of an exponent with its letter and sign, or zero. -/
def exponentLength : List Char → Nat
  | e :: cs =>
    if e == 'e' || e == 'E' then
      let sign := match cs with
        | '+' :: _ | '-' :: _ => 1
        | _ => 0
      let n := digitsLength (cs.drop sign)
      if n == 0 then 0 else 1 + sign + n
    else 0
  | [] => 0

/-- The length of the digits, fraction and exponent that a text starts with. -/
def decimalLength (cs : List Char) : Nat :=
  let whole := digitsLength cs
  let fraction := fractionLength (cs.drop whole)
  whole + fraction + exponentLength (cs.drop (whole + fraction))

/-! ## Strings -/

/-- The length of the rest of a single-quoted string. -/
def quotedLength : List Char → Option Nat
  | [] => none
  | '\'' :: _ => some 1
  | '\\' :: _ :: cs => (quotedLength cs).map (2 + ·)
  | _ :: cs => (quotedLength cs).map (1 + ·)

/-- What the scan of a string with interpolation is inside of. -/
inductive Layer where
  /-- Text up to a quotation mark. -/
  | text (close : Char)
  /-- A single-quoted string inside code. -/
  | quoted
  /-- Code up to a closing brace. -/
  | code

/-- The length of the rest of a string with interpolation. -/
def templateLength : List Layer → List Char → Option Nat
  | [], _ => some 0
  | _ :: _, [] => none
  | .text close :: outer, c :: cs =>
    if c == close then (templateLength outer cs).map (1 + ·)
    else
      match c, cs with
      | '\\', _ :: cs => (templateLength (.text close :: outer) cs).map (2 + ·)
      | '{', '$' :: cs => (templateLength (.code :: .text close :: outer) cs).map (2 + ·)
      | '$', '{' :: cs => (templateLength (.code :: .text close :: outer) cs).map (2 + ·)
      | _, cs => (templateLength (.text close :: outer) cs).map (1 + ·)
  | .quoted :: outer, c :: cs =>
    match c, cs with
    | '\'', cs => (templateLength outer cs).map (1 + ·)
    | '\\', _ :: cs => (templateLength (.quoted :: outer) cs).map (2 + ·)
    | _, cs => (templateLength (.quoted :: outer) cs).map (1 + ·)
  | .code :: outer, c :: cs =>
    let inside := match c with
      | '\x7b' => .code :: .code :: outer
      | '\x7d' => outer
      | '\'' => .quoted :: .code :: outer
      | '"' | '`' => .text c :: .code :: outer
      | _ => .code :: outer
    (templateLength inside cs).map (1 + ·)
termination_by _ cs => cs.length

/-- The label of a here document with the length of its first line, or nothing if the text does not
    start one. -/
def hereLabel? (cs : List Char) : Option (List Char × Nat) :=
  if cs.take 3 == ['<', '<', '<'] then
    let blanks := ((cs.drop 3).takeWhile fun c => c == ' ' || c == '\t').length
    let mark := match cs.drop (3 + blanks) with
      | '"' :: _ => some '"'
      | '\'' :: _ => some '\''
      | _ => none
    let start := 3 + blanks + mark.toList.length
    let label := (cs.drop start).take (nameLength (cs.drop start))
    let stop := start + label.length
    match mark, cs.drop stop with
    | none, '\n' :: _ => if label.isEmpty then none else some (label, stop + 1)
    | some m, c :: '\n' :: _ => if c == m && !label.isEmpty then some (label, stop + 2) else none
    | _, _ => none
  else none

/-- The length of the closing label if a line starts with it. -/
def labelLength? (label cs : List Char) : Option Nat :=
  let blanks := (cs.takeWhile fun c => c == ' ' || c == '\t').length
  let line := cs.drop blanks
  if label.isPrefixOf line && !((line.drop label.length).head?.any isNamePart) then
    some (blanks + label.length)
  else none

/-- The length of the lines of a here document up to its closing label. -/
def hereLength (label : List Char) (lineStart : Bool) : List Char → Option Nat
  | [] => none
  | c :: cs =>
    match if lineStart then labelLength? label (c :: cs) else none with
    | some n => some n
    | none => (hereLength label (c == '\n') cs).map (1 + ·)

end DomainScaffold.Php.Scan
