/-!
# Decimal integers

The digits of an integer with a minus sign if it is negative, and the reading of digits.

Results:
* `value_append`: digits are read from the left.
-/

namespace DomainScaffold.Decimal

/-- The decimal text of an integer. -/
def integer (i : Int) : String :=
  let digits := Nat.toDigits 10 i.natAbs
  String.ofList (if i < 0 then '-' :: digits else digits)

/-- The value of decimal digits. -/
def value (ds : List Char) : Nat := ds.foldl (fun n d => n * 10 + (d.toNat - 48)) 0

theorem foldl_value (ds : List Char) (n : Nat) :
    ds.foldl (fun n d => n * 10 + (d.toNat - 48)) n = n * Nat.pow 10 ds.length + value ds := by
  induction ds generalizing n with
  | nil => simp [value]
  | cons d ds ih =>
    have hpower : Nat.pow 10 (d :: ds).length = 10 * Nat.pow 10 ds.length := Nat.mul_comm _ _
    simp only [List.foldl_cons, value]
    rw [ih, ih (0 * 10 + (d.toNat - 48)), hpower, Nat.add_mul, Nat.mul_assoc, Nat.zero_mul,
      Nat.zero_add, Nat.add_assoc]

theorem value_append (as bs : List Char) :
    value (as ++ bs) = value as * Nat.pow 10 bs.length + value bs := by
  unfold value
  rw [List.foldl_append, foldl_value]
  rfl

end DomainScaffold.Decimal
