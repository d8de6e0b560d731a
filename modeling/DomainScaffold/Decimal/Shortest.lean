import DomainScaffold.Decimal.Binary64

/-!
# Shortest decimals

The fewest decimal digits that read back as a given number, and of those the nearest ones. The
reals that round to a number form an interval, with its ends if the significand is even. For
1, 2, … digits the two neighbours of the number on that decimal grid are tested; the first grid
with a hit wins, of two hits the nearer, and a tie goes to the even digit.

Results:
* `candidate?_mem`: a chosen decimal lies in the interval of the number.
-/

namespace DomainScaffold.Decimal

/-! ## The interval of a number -/

/-- The lower and upper end of the reals that round to `x`, in quarters of `2 ^ (-1074)`. -/
def bounds (x : Binary64) : Nat × Nat :=
  let below := if x.significand = Nat.pow 2 52 ∧ 0 < x.exponent then 1 else 2
  let step := Nat.pow 2 x.exponent
  ((4 * x.significand - below) * step, (4 * x.significand + 2) * step)

/-- Whether `n / den` quarters of `2 ^ (-1074)` round to `x`. -/
def readsBack (x : Binary64) (n den : Nat) : Bool :=
  let (lo, hi) := bounds x
  if x.significand % 2 = 0 then lo * den ≤ n && n ≤ hi * den else lo * den < n && n < hi * den

/-! ## The grid of a digit count -/

/-- The least `k ≤ fuel` with `den ≤ num * 10 ^ k`, or `fuel`. -/
def leadingZeros (num den : Nat) : (fuel : Nat) → Nat → Nat
  | 0, k => k
  | fuel + 1, k => if den ≤ num * Nat.pow 10 k then k else leadingZeros num den fuel (k + 1)

/-- The exponent `k` with `10 ^ (k - 1) ≤ x < 10 ^ k` for a finite number other than zero. -/
def magnitude (x : Binary64) : Int :=
  let whole := x.scaled / Nat.pow 2 1074
  if 0 < whole then (Nat.toDigits 10 whole).length
  else 1 - (leadingZeros x.scaled (Nat.pow 2 1074) 400 1 : Int)

/-- `10 ^ p` as a fraction. -/
def tenPower (p : Int) : Nat × Nat :=
  if p < 0 then (1, Nat.pow 10 p.natAbs) else (Nat.pow 10 p.natAbs, 1)

/-- The nearer of the two multiples of `10 ^ p` around `x` that reads back as `x`, divided by
    `10 ^ p`, if one does. -/
def candidate? (x : Binary64) (p : Int) : Option Nat :=
  let (num, den) := tenPower p
  let top := x.scaled * den
  let unit := Nat.pow 2 1074 * num
  let low := top / unit
  let hit := fun d => readsBack x (4 * (d * unit)) den
  match hit low, hit (low + 1) with
  | true, true =>
    let r := 2 * (top % unit)
    some (if r < unit then low else if unit < r then low + 1
      else if low % 2 = 0 then low else low + 1)
  | true, false => some low
  | false, true => some (low + 1)
  | false, false => none

theorem candidate?_mem {x : Binary64} {p : Int} {d : Nat} (h : candidate? x p = some d) :
    readsBack x (4 * (d * (Nat.pow 2 1074 * (tenPower p).1))) (tenPower p).2 = true := by
  unfold candidate? at h
  simp only at h
  split at h
  · rename_i h1 h2
    simp only [Option.some.injEq] at h
    split at h
    · exact h ▸ h1
    · split at h
      · exact h ▸ h2
      · split at h
        · exact h ▸ h1
        · exact h ▸ h2
  · rename_i h1 _
    simp only [Option.some.injEq] at h
    exact h ▸ h1
  · rename_i _ h2
    simp only [Option.some.injEq] at h
    exact h ▸ h2
  · exact absurd h (by simp)

/-- The first grid from `n` digits on with a decimal that reads back, as digits and exponent. -/
def search (x : Binary64) (k : Int) : (fuel n : Nat) → Nat × Int
  | 0, _ => (0, 0)
  | fuel + 1, n =>
    match candidate? x (k - n) with
    | some d => (d, k - n)
    | none => search x k fuel (n + 1)

/-- The digits without zeros at the end, with the exponent that makes up for them. -/
def withoutTrailingZeros : (fuel : Nat) → Nat × Int → Nat × Int
  | 0, r => r
  | fuel + 1, (d, p) =>
    if 0 < d ∧ d % 10 = 0 then withoutTrailingZeros fuel (d / 10, p + 1) else (d, p)

/-- The shortest decimal `d · 10 ^ p` that reads back as the magnitude of a finite number. -/
def shortest (x : Binary64) : Nat × Int :=
  if x.code = 0 then (0, 0) else withoutTrailingZeros 20 (search x (magnitude x) 20 1)

/-! ## Layout -/

/-- How a decimal is laid out: the magnitudes written positionally and the exponent's mark. -/
structure Layout where
  /-- The least magnitude written positionally. -/
  least : Int
  /-- The greatest magnitude written positionally. -/
  greatest : Int
  /-- What stands before the digits of a positive exponent. -/
  positiveMark : List Char
  /-- What stands before the digits of a negative exponent. -/
  negativeMark : List Char

/-- The digits with a point behind the first. -/
def pointed : List Char → List Char
  | [] => []
  | [d] => [d]
  | d :: ds => d :: '.' :: ds

/-- The text of a finite number. -/
def Layout.render (l : Layout) (x : Binary64) : List Char :=
  let (d, p) := shortest x
  let ds := Nat.toDigits 10 d
  let k : Int := ds.length + p
  let sign := if x.negative then ['-'] else []
  let body :=
    if d = 0 then ['0', '.', '0']
    else if k < l.least ∨ l.greatest < k then
      let e := k - 1
      pointed ds ++ (if e < 0 then l.negativeMark else l.positiveMark) ++
        Nat.toDigits 10 e.natAbs
    else if k ≤ 0 then ['0', '.'] ++ List.replicate k.natAbs '0' ++ ds
    else if 0 ≤ p then ds ++ List.replicate p.natAbs '0' ++ ['.', '0']
    else ds.take k.toNat ++ '.' :: ds.drop k.toNat
  sign ++ body

end DomainScaffold.Decimal
