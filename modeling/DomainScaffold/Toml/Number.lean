import DomainScaffold.Toml.Text

/-!
# Numbers and dates in TOML

Integers have 64 bits and may be written in four bases; other numbers have a fraction or an
exponent, or are infinite or no number. Single underscores may stand between digits. Dates and times
are checked against the calendar and are only known by their text.

Results:
* `daysIn_pos`: every month has days.
-/

namespace DomainScaffold.Toml

/-! ## Digits -/

/-- Digits, each behind at most one underscore; an underscore must be followed by a digit. -/
def moreDigits (p : Char → Bool) : List Char → Option (List Char × List Char)
  | [] => some ([], [])
  | ['_'] => none
  | '_' :: c :: cs => if p c then withFirst c (moreDigits p cs) else none
  | c :: cs => if p c then withFirst c (moreDigits p cs) else some ([], c :: cs)

/-- At least one digit, with single underscores between digits. -/
def digits (p : Char → Bool) : List Char → Option (List Char × List Char)
  | c :: cs => if p c then withFirst c (moreDigits p cs) else none
  | [] => none

/-- The digits of a whole number, which has no zeros in front. -/
def wholeDigits : List Char → Option (List Char × List Char)
  | '0' :: cs => some (['0'], cs)
  | cs => digits Char.isDigit cs

/-- The sign in front of a number: whether it is negative, and the rest. -/
def signed : List Char → Bool × List Char
  | '-' :: cs => (true, cs)
  | '+' :: cs => (false, cs)
  | cs => (false, cs)

/-! ## Integers -/

/-- An integer, if it fits 64 bits. -/
def word? (i : Int) : Option Json :=
  if -0x8000000000000000 ≤ i ∧ i < 0x8000000000000000 then some (.int i) else none

/-- The digits of a base, by the letter that stands for it. -/
def baseDigit? : Char → Option (Nat × (Char → Bool))
  | 'x' => some (16, fun c => (Json.hexValue? c).isSome)
  | 'o' => some (8, fun c => '0' ≤ c && c ≤ '7')
  | 'b' => some (2, fun c => c == '0' || c == '1')
  | _ => none

/-- The value of digits in a base. -/
def valueIn (base : Nat) (ds : List Char) : Nat :=
  ds.foldl (fun n d => n * base + (Json.hexValue? d).getD 0) 0

/-- An integer with ten as its base. -/
def readDecimal (cs : List Char) : Option (Json × List Char) := do
  let (negative, cs) := signed cs
  let (ds, cs) ← wholeDigits cs
  let n : Int := valueIn 10 ds
  return (← word? (if negative then -n else n), cs)

/-- An integer in any base. -/
def readInteger (cs : List Char) : Option (Json × List Char) :=
  match cs with
  | '0' :: c :: rest =>
    match baseDigit? c with
    | some (base, p) => do
      let (ds, rest) ← digits p rest
      return (← word? (valueIn base ds), rest)
    | none => readDecimal cs
  | cs => readDecimal cs

/-! ## Other numbers -/

/-- The number with the given digits, shifted by a power of ten; a positive one must be finite. -/
def scaled? (negative : Bool) (ds : List Char) (shift : Int) : Option Json :=
  let n := valueIn 10 ds
  let size : Int := ds.length + shift
  let x :=
    if n = 0 ∨ size < -400 then Binary64.ofRatio negative 0 1
    else if 400 < shift then ⟨negative, Binary64.infinityCode⟩
    else if shift < 0 then Binary64.ofRatio negative n (Nat.pow 10 shift.natAbs)
    else Binary64.ofRatio negative (n * Nat.pow 10 shift.natAbs) 1
  if x.isFinite || negative then some (.real x) else none

/-- What a part of a number may be: absent, wrong, or there. -/
abbrev Part (α : Type) := Option (Option α × List Char)

/-- The digits behind a point. -/
def readFraction : List Char → Part (List Char)
  | '.' :: cs => (digits Char.isDigit cs).map fun r => (some r.1, r.2)
  | cs => some (none, cs)

/-- The value of an exponent. -/
def readExponent : List Char → Part Int
  | c :: cs =>
    if c = 'e' ∨ c = 'E' then
      let (negative, cs) := signed cs
      (digits Char.isDigit cs).map fun r =>
        let n : Int := valueIn 10 r.1
        (some (if negative then -n else n), r.2)
    else some (none, c :: cs)
  | [] => some (none, [])

/-- The word of a number that is not finite. -/
def readSpecial (negative : Bool) : List Char → Option (Json × List Char)
  | 'i' :: 'n' :: 'f' :: cs => some (.real ⟨negative, Binary64.infinityCode⟩, cs)
  | 'n' :: 'a' :: 'n' :: cs => some (.real ⟨negative, Binary64.infinityCode + 1⟩, cs)
  | _ => none

/-- A number of any form. -/
def readNumber (cs : List Char) : Option (Json × List Char) :=
  let (negative, body) := signed cs
  match readSpecial negative body with
  | some done => some done
  | none => do
    let (whole, rest) ← wholeDigits body
    let (fraction, rest) ← readFraction rest
    let (exponent, rest) ← readExponent rest
    match fraction, exponent with
    | none, none => readInteger cs
    | _, _ =>
      let fraction := fraction.getD []
      return (← scaled? negative (whole ++ fraction) (exponent.getD 0 - fraction.length), rest)

/-! ## Dates -/

/-- Exactly `count` digits and their value. -/
def fixedDigits (count : Nat) (cs : List Char) : Option ((String × Nat) × List Char) :=
  let ds := cs.take count
  if ds.length = count && ds.all Char.isDigit then
    some ((String.ofList ds, valueIn 10 ds), cs.drop count)
  else none

/-- Exactly two digits with a value in a range. -/
def twoDigits (low high : Nat) (cs : List Char) : Option (String × List Char) :=
  (fixedDigits 2 cs).bind fun ((s, n), cs) => if low ≤ n && n ≤ high then some (s, cs) else none

/-- What follows a character, if it comes first. -/
def after? (c : Char) : List Char → Option (List Char)
  | d :: cs => if d = c then some cs else none
  | [] => none

/-- Whether a year has a leap day. -/
def isLeap (year : Nat) : Bool := year % 4 = 0 && (year % 100 != 0 || year % 400 = 0)

/-- The number of days in a month. -/
def daysIn (year month : Nat) : Nat :=
  if month = 2 then if isLeap year then 29 else 28
  else if month = 4 ∨ month = 6 ∨ month = 9 ∨ month = 11 then 30
  else 31

theorem daysIn_pos (year month : Nat) : 0 < daysIn year month := by
  unfold daysIn
  split
  · split <;> omega
  · split <;> omega

/-- A date. -/
def readDate (cs : List Char) : Option (String × List Char) := do
  let ((year, y), cs) ← fixedDigits 4 cs
  let ((month, m), cs) ← fixedDigits 2 (← after? '-' cs)
  if m = 0 ∨ 12 < m then none
  let (day, cs) ← twoDigits 1 (daysIn y m) (← after? '-' cs)
  return (year ++ "-" ++ month ++ "-" ++ day, cs)

/-- The fraction of a second, at most nine digits long, without zeros at its end. -/
def fractionText (ds : List Char) : String :=
  match ((ds.take 9).reverse.dropWhile (· == '0')).reverse with
  | [] => ""
  | ds => "." ++ String.ofList ds

/-- A time of day. -/
def readTime (cs : List Char) : Option (String × List Char) := do
  let (hour, cs) ← twoDigits 0 23 cs
  let (minute, cs) ← twoDigits 0 59 (← after? ':' cs)
  let (second, cs) ← twoDigits 0 60 (← after? ':' cs)
  let text := hour ++ ":" ++ minute ++ ":" ++ second
  match cs with
  | '.' :: cs =>
    let ds := cs.takeWhile Char.isDigit
    if ds.isEmpty then none else return (text ++ fractionText ds, cs.dropWhile Char.isDigit)
  | cs => return (text, cs)

/-- The distance from universal time, behind its sign. -/
def readDistance (sign : String) (cs : List Char) : Option (String × List Char) := do
  let (hour, cs) ← twoDigits 0 23 cs
  let (minute, cs) ← twoDigits 0 59 (← after? ':' cs)
  let text := hour ++ ":" ++ minute
  return ((if text = "00:00" then "+" else sign) ++ text, cs)

/-- The zone of a time, if it has one. -/
def readZone : List Char → Option (String × List Char)
  | 'Z' :: cs => some ("Z", cs)
  | 'z' :: cs => some ("Z", cs)
  | '+' :: cs => readDistance "+" cs
  | '-' :: cs => readDistance "-" cs
  | cs => some ("", cs)

/-- What follows the mark in front of the time of a date. -/
def afterMark? : List Char → Option (List Char)
  | 'T' :: cs => some cs
  | 't' :: cs => some cs
  | ' ' :: c :: cs => if c.isDigit then some (c :: cs) else none
  | _ => none

/-- Whether a date comes first. -/
def isDate (cs : List Char) : Bool :=
  (fixedDigits 4 cs).any fun r => (after? '-' r.2).isSome

/-- Whether a time comes first. -/
def isTime (cs : List Char) : Bool :=
  (fixedDigits 2 cs).any fun r => (after? ':' r.2).isSome

/-- A date with or without a time, or a time. -/
def readMoment (cs : List Char) : Option (String × List Char) :=
  if isDate cs then do
    let (date, cs) ← readDate cs
    match afterMark? cs with
    | none => return (date, cs)
    | some cs =>
      let (time, cs) ← readTime cs
      let (zone, cs) ← readZone cs
      return (date ++ "T" ++ time ++ zone, cs)
  else readTime cs

/-- The key under which a date gives its text where a table is expected. -/
def momentKey : String := "$__toml_private_datetime"

/-- A date or a number. -/
def readScalar (cs : List Char) : Option (Json × List Char) :=
  if isDate cs || isTime cs then
    (readMoment cs).map fun r => (.object [(momentKey, .text r.1)], r.2)
  else readNumber cs

end DomainScaffold.Toml
