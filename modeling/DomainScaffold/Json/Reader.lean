import DomainScaffold.Json.Value

/-!
# Reading JSON text

A recursive descent over the characters. Every function returns the value and the characters
behind it. Lists and objects nest at most 127 levels deep. `parseFields?` keeps repeated keys of
an object as they stand; in the result of `parse?` a repeated key keeps its first place and takes
the last value.

A number without fraction and exponent is an integer if it fits 64 bits. Any other number is the
integer of its leading digits, as far as they fit 64 bits, rounded to binary64 and then scaled by
a power of ten that is itself rounded.

Results:
* `absorb_append`: digits are split, none is lost.
-/

namespace DomainScaffold.Json

/-! ## Blanks -/

/-- The white space of JSON. -/
def isSpace (c : Char) : Bool := c == ' ' || c == '\n' || c == '\t' || c == '\r'

/-- The characters behind white space. -/
def skipSpace (cs : List Char) : List Char := cs.dropWhile isSpace

/-! ## Numbers -/

/-- The largest unsigned integer of 64 bits. -/
def maxWord : Nat := Nat.pow 2 64 - 1

/-- Appends digits to an integer as long as it fits 64 bits; with the integer come the number of
    digits taken and the digits left. -/
def absorb (n taken : Nat) : List Char → Nat × Nat × List Char
  | [] => (n, taken, [])
  | d :: ds =>
    let next := n * 10 + (d.toNat - 48)
    if maxWord < next then (n, taken, d :: ds) else absorb next (taken + 1) ds

theorem absorb_append (ds : List Char) (n taken : Nat) :
    (absorb n taken ds).2.1 + (absorb n taken ds).2.2.length = taken + ds.length := by
  induction ds generalizing n taken with
  | nil => simp [absorb]
  | cons d ds ih =>
    simp only [absorb]
    split
    · rfl
    · rw [ih]; simp; omega

/-- A number divided by a power of ten, in steps of `10 ^ 308`. -/
def scaleDown (x : Binary64) (k : Nat) : Binary64 :=
  if _h : k ≤ 308 then x.div (Binary64.powerOfTen k)
  else if x.code = 0 then x
  else scaleDown (x.div (Binary64.powerOfTen 308)) (k - 308)
termination_by k
decreasing_by omega

/-- The magnitude `n · 10 ^ e`; `none` if it is too large. -/
def scale? (n : Nat) (e : Int) : Option Binary64 :=
  let x := Binary64.ofRatio false n 1
  if e < 0 then some (scaleDown x e.natAbs)
  else if e ≤ 308 then
    let y := x.mul (Binary64.powerOfTen e.natAbs)
    if y.isFinite then some y else none
  else if n = 0 then some x else none

/-- The value of the digits of an exponent, which stops growing above 31 bits. -/
def exponentValue (ds : List Char) : Nat :=
  ds.foldl (fun n d => if Nat.pow 2 31 ≤ n then n else n * 10 + (d.toNat - 48)) 0

/-- A number with the given integer digits, fraction digits and exponent, if any. -/
def decimal? (negative : Bool) (whole : List Char) (fraction : Option (List Char))
    (exponent : Option (Bool × List Char)) : Option Binary64 := do
  let (n, _, left) := absorb 0 0 whole
  let (n, taken, _) := absorb n 0 (fraction.getD [])
  let e : Int := (left.length : Int) - taken
  let x ← match exponent with
    | none => scale? n e
    | some (below, ds) =>
      let k := exponentValue ds
      if Nat.pow 2 31 ≤ k then
        if n = 0 ∨ below then some (Binary64.ofRatio false 0 1) else none
      else scale? n (if below then e - k else e + k)
  return { x with negative := negative }

/-- A number without fraction and exponent. -/
def integer? (negative : Bool) (whole : List Char) : Option Json :=
  match absorb 0 0 whole with
  | (n, _, []) =>
    if !negative then some (.int n)
    else if n = 0 ∨ Nat.pow 2 63 < n then some (.real { Binary64.ofInt n with negative := true })
    else some (.int (-(n : Int)))
  | (_, _, _ :: _) => (decimal? negative whole none none).map .real

/-- The digits of an exponent behind its letter, with whether it is negative. -/
def readExponent (cs : List Char) : Option ((Bool × List Char) × List Char) :=
  let (below, cs) := match cs with
    | '+' :: cs => (false, cs)
    | '-' :: cs => (true, cs)
    | cs => (false, cs)
  let ds := cs.takeWhile Char.isDigit
  if ds.isEmpty then none else some ((below, ds), cs.dropWhile Char.isDigit)

/-- A number behind its sign. -/
def readMagnitude (negative : Bool) (cs : List Char) : Option (Json × List Char) := do
  let whole := cs.takeWhile Char.isDigit
  let cs := cs.dropWhile Char.isDigit
  if whole.isEmpty || (whole.head? == some '0' && 1 < whole.length) then none
  let (fraction, cs) ← match cs with
    | '.' :: cs =>
      let ds := cs.takeWhile Char.isDigit
      if ds.isEmpty then none else some (some ds, cs.dropWhile Char.isDigit)
    | cs => some (none, cs)
  let (exponent, cs) ← match cs with
    | c :: cs =>
      if c = 'e' ∨ c = 'E' then (readExponent cs).map fun r => (some r.1, r.2)
      else some (none, c :: cs)
    | [] => some (none, [])
  match fraction, exponent with
  | none, none => return (← integer? negative whole, cs)
  | _, _ => return (.real (← decimal? negative whole fraction exponent), cs)

/-- A number. -/
def readNumber : List Char → Option (Json × List Char)
  | '-' :: cs => readMagnitude true cs
  | cs => readMagnitude false cs

/-! ## Strings -/

/-- The value of a hexadecimal digit. -/
def hexValue? (c : Char) : Option Nat :=
  if c.isDigit then some (c.toNat - 48)
  else if 'a' ≤ c ∧ c ≤ 'f' then some (c.toNat - 87)
  else if 'A' ≤ c ∧ c ≤ 'F' then some (c.toNat - 55)
  else none

/-- The value of four hexadecimal digits. -/
def readHex4 : List Char → Option (Nat × List Char)
  | a :: b :: c :: d :: cs => do
    return (((← hexValue? a) * 16 + (← hexValue? b)) * 256 +
      (← hexValue? c) * 16 + (← hexValue? d), cs)
  | _ => none

/-- The character of an escape behind `\u`; a surrogate must be followed by its partner. -/
def readUnicode (cs : List Char) : Option (Char × List Char) := do
  let (n, cs) ← readHex4 cs
  if 0xDC00 ≤ n ∧ n < 0xE000 then none
  else if 0xD800 ≤ n ∧ n < 0xDC00 then
    match cs with
    | '\\' :: 'u' :: cs =>
      let (m, cs) ← readHex4 cs
      if 0xDC00 ≤ m ∧ m < 0xE000 then
        some (Char.ofNat (0x10000 + (n - 0xD800) * 0x400 + (m - 0xDC00)), cs)
      else none
    | _ => none
  else some (Char.ofNat n, cs)

/-- The character that a letter behind a backslash stands for. -/
def simpleEscape? (c : Char) : Option Char :=
  match c with
  | '"' => some '"'
  | '\\' => some '\\'
  | '/' => some '/'
  | 'b' => some '\x08'
  | 'f' => some '\x0c'
  | 'n' => some '\n'
  | 'r' => some '\r'
  | 't' => some '\t'
  | _ => none

/-- The characters of a string up to its closing quote, after `done`, which is given backwards. -/
def readChars : (fuel : Nat) → (done : List Char) → List Char → Option (String × List Char)
  | 0, _, _ => none
  | _ + 1, _, [] => none
  | fuel + 1, done, c :: cs =>
    if c = '"' then some (String.ofList done.reverse, cs)
    else if c = '\\' then
      match cs with
      | 'u' :: cs => do
        let (d, cs) ← readUnicode cs
        readChars fuel (d :: done) cs
      | e :: cs => do readChars fuel ((← simpleEscape? e) :: done) cs
      | [] => none
    else if c.toNat < 32 then none
    else readChars fuel (c :: done) cs

/-- A string behind its opening quote. -/
def readString (cs : List Char) : Option (String × List Char) := readChars (cs.length + 1) [] cs

/-! ## Values -/

/-- A word such as `true` with the value it stands for. -/
def readWord : List Char → Option (Json × List Char)
  | 'n' :: 'u' :: 'l' :: 'l' :: cs => some (.null, cs)
  | 't' :: 'r' :: 'u' :: 'e' :: cs => some (.bool true, cs)
  | 'f' :: 'a' :: 'l' :: 's' :: 'e' :: cs => some (.bool false, cs)
  | _ => none

mutual

/-- A value behind white space; `depth` levels may still be opened. -/
def readValue : (fuel depth : Nat) → List Char → Option (Json × List Char)
  | 0, _, _ => none
  | fuel + 1, depth, cs =>
    match skipSpace cs with
    | '[' :: cs =>
      match depth with
      | 0 => none
      | depth + 1 =>
        match skipSpace cs with
        | ']' :: cs => some (.list [], cs)
        | cs => (readItems fuel depth cs).map fun r => (.list r.1, r.2)
    | '\x7b' :: cs =>
      match depth with
      | 0 => none
      | depth + 1 =>
        match skipSpace cs with
        | '\x7d' :: cs => some (.object [], cs)
        | cs => (readFields fuel depth cs).map fun r => (.object r.1, r.2)
    | '"' :: cs => (readString cs).map fun r => (.text r.1, r.2)
    | c :: cs => if c.isDigit || c == '-' then readNumber (c :: cs) else readWord (c :: cs)
    | [] => none

/-- The items of a list up to its closing bracket; there is at least one. -/
def readItems : (fuel depth : Nat) → List Char → Option (List Json × List Char)
  | 0, _, _ => none
  | fuel + 1, depth, cs => do
    let (v, cs) ← readValue fuel depth cs
    match skipSpace cs with
    | ',' :: cs => (readItems fuel depth cs).map fun r => (v :: r.1, r.2)
    | ']' :: cs => some ([v], cs)
    | _ => none

/-- The fields of an object up to its closing brace; there is at least one. -/
def readFields : (fuel depth : Nat) → List Char → Option (List (String × Json) × List Char)
  | 0, _, _ => none
  | fuel + 1, depth, cs => do
    match skipSpace cs with
    | '"' :: cs =>
      let (k, cs) ← readString cs
      match skipSpace cs with
      | ':' :: cs =>
        let (v, cs) ← readValue fuel depth cs
        match skipSpace cs with
        | ',' :: cs => (readFields fuel depth cs).map fun r => ((k, v) :: r.1, r.2)
        | '\x7d' :: cs => some ([(k, v)], cs)
        | _ => none
      | _ => none
    | _ => none

end

/-- The number of levels that lists and objects may nest. -/
def maxDepth : Nat := 127

/-- The value of a JSON text with repeated keys; `none` if the text is no JSON. -/
def parseFields? (s : String) : Option Json :=
  match readValue (2 * s.length + 2) maxDepth s.toList with
  | some (v, rest) => if (skipSpace rest).isEmpty then some v else none
  | none => none

mutual

/-- The value with every repeated key in its first place and with its last value. -/
def distinct : Json → Json
  | .list items => .list (distinctItems items)
  | .object fields => .object (Fields.ofPairs (distinctFields fields))
  | v => v

/-- The items without repeated keys. -/
def distinctItems : List Json → List Json
  | [] => []
  | v :: rest => distinct v :: distinctItems rest

/-- The fields with values without repeated keys. -/
def distinctFields : List (String × Json) → List (String × Json)
  | [] => []
  | (k, v) :: rest => (k, distinct v) :: distinctFields rest

end

/-- The value of a JSON text; `none` if the text is no JSON. -/
def parse? (s : String) : Option Json := (parseFields? s).map distinct

end DomainScaffold.Json
