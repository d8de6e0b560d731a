/-!
# Ranges of code points

Character classes beyond ASCII are tables of ranges of code points. A range may step over every
second code point, because the two cases of a letter often alternate.

Results:
* `inRanges_eq_true_iff`: membership in a table of plain ranges.
* `inStrides_eq_true_iff`: membership in a table of stepped ranges.
-/

namespace DomainScaffold.Text

/-! ## Plain ranges -/

/-- Whether the code point `n` lies in one of the closed ranges. -/
def inRanges (table : List (Nat × Nat)) (n : Nat) : Bool :=
  table.any fun r => r.1 ≤ n && n ≤ r.2

theorem inRanges_eq_true_iff {table : List (Nat × Nat)} {n : Nat} :
    inRanges table n = true ↔ ∃ r ∈ table, r.1 ≤ n ∧ n ≤ r.2 := by
  simp [inRanges]

/-! ## Stepped ranges -/

/-- Whether `n` is one of `first, first + step, …` up to `last`. -/
def inStride (r : Nat × Nat × Nat) (n : Nat) : Bool :=
  r.1 ≤ n && n ≤ r.2.1 && (n - r.1) % r.2.2 == 0

/-- Whether the code point `n` lies in one of the stepped ranges. -/
def inStrides (table : List (Nat × Nat × Nat)) (n : Nat) : Bool :=
  table.any fun r => inStride r n

theorem inStrides_eq_true_iff {table : List (Nat × Nat × Nat)} {n : Nat} :
    inStrides table n = true ↔
      ∃ r ∈ table, (r.1 ≤ n ∧ n ≤ r.2.1) ∧ (n - r.1) % r.2.2 = 0 := by
  simp [inStrides, inStride]

end DomainScaffold.Text
