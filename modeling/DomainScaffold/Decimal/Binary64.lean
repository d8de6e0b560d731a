/-!
# Binary floating-point numbers of 64 bits

A number of the format binary64 is kept as its sign and the 63 bits below it, so that equality is
decidable and all arithmetic happens exactly in `Nat`. The value of a finite number is
`significand · 2 ^ exponent / 2 ^ 1074`.

Results:
* `roundDiv_exact`: rounding an exact quotient changes nothing.
* `ofScaled_zero`: zero is represented by the code zero.
-/

namespace DomainScaffold

/-- A number of the format binary64: its sign, and its other bits as a number. -/
structure Binary64 where
  negative : Bool
  code : Nat
  deriving DecidableEq, Repr

namespace Binary64

/-! ## Fields -/

/-- The code of infinity; larger codes are not numbers. -/
def infinityCode : Nat := 2047 * Nat.pow 2 52

/-- Whether a number is neither infinite nor an invalid result. -/
def isFinite (x : Binary64) : Bool := x.code < infinityCode

/-- The integer significand. -/
def significand (x : Binary64) : Nat :=
  if x.code < Nat.pow 2 52 then x.code else Nat.pow 2 52 + x.code % Nat.pow 2 52

/-- The exponent of two above the smallest one. -/
def exponent (x : Binary64) : Nat := x.code / Nat.pow 2 52 - 1

/-- The magnitude as a multiple of `2 ^ (-1074)`. -/
def scaled (x : Binary64) : Nat := x.significand * Nat.pow 2 x.exponent

/-! ## Rounding -/

/-- The integer nearest to `num / den`; a half goes to the even neighbour. -/
def roundDiv (num den : Nat) : Nat :=
  let q := num / den
  let r := num % den
  if 2 * r < den then q
  else if den < 2 * r then q + 1
  else if q % 2 = 0 then q else q + 1

theorem roundDiv_exact {n den : Nat} (h : 0 < den) : roundDiv (n * den) den = n := by
  simp [roundDiv, Nat.mul_div_cancel _ h, h]

/-- The number nearest to `num / den` multiples of `2 ^ (-1074)`. -/
def ofScaled (negative : Bool) (num den : Nat) : Binary64 :=
  let q := num / den
  let e := if q < Nat.pow 2 53 then 0 else q.log2 - 52
  let code := e * Nat.pow 2 52 + roundDiv num (den * Nat.pow 2 e)
  ⟨negative, if code < infinityCode then code else infinityCode⟩

theorem ofScaled_zero (negative : Bool) {den : Nat} (h : 0 < den) :
    ofScaled negative 0 den = ⟨negative, 0⟩ := by
  simp [ofScaled, roundDiv, infinityCode, h]

/-- The number nearest to `num / den`. -/
def ofRatio (negative : Bool) (num den : Nat) : Binary64 :=
  ofScaled negative (num * Nat.pow 2 1074) den

/-- The number nearest to an integer. -/
def ofInt (i : Int) : Binary64 := ofRatio (i < 0) i.natAbs 1

/-- The number nearest to a power of ten. -/
def powerOfTen (k : Nat) : Binary64 := ofRatio false (Nat.pow 10 k) 1

/-! ## Arithmetic -/

/-- The product of two finite numbers, rounded. -/
def mul (x y : Binary64) : Binary64 :=
  ofScaled (x.negative != y.negative) (x.scaled * y.scaled) (Nat.pow 2 1074)

/-- The quotient of a finite number and a finite number other than zero, rounded. -/
def div (x y : Binary64) : Binary64 :=
  ofScaled (x.negative != y.negative) (x.scaled * Nat.pow 2 1074) y.scaled

end Binary64

end DomainScaffold
