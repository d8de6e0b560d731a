import DomainScaffold.Merge.Apply
import DomainScaffold.Proofs.Php.LineBreaks

/-!
# Comments of files that are merged into

Results:
* `firstTrailing_lost`: of two comments behind a member on its line the first one is lost.
-/

namespace DomainScaffold.Merge

open Php

/-- A class with two comments behind its property. -/
def withTwoTrailing : String := "<?php\nclass A \x7b\n    public $x; /* b */ /* c */\n\x7d\n"

/-- A constant for the class. -/
def constantSet : ChangeSet :=
  ⟨"", ⟨"A", [], none⟩, [.constant ⟨some .pub, [("N", .int 1)]⟩]⟩

/-- The first of two comments behind a member is not in the file that a constant is merged into. -/
theorem firstTrailing_lost (path : String) :
    (∃ ls l, lexemes? withTwoTrailing = some ls ∧ l ∈ ls ∧ l.kind = .comment ∧ l.text = "/* b */") ∧
    ∃ t, SourceTree.ofText withTwoTrailing path = .ok t ∧
      (merge ⟨.preserve, false⟩ t constantSet).applied = true ∧
      Text.occurs "/* b */" (Printer.file (merge ⟨.preserve, false⟩ t constantSet).tree) = false := by
  constructor
  · have hthere : (lexemes? withTwoTrailing).any
        (List.any · fun l => l.kind == .comment && l.text == "/* b */") = true := by decide +kernel
    cases hls : lexemes? withTwoTrailing with
    | none =>
      rw [hls] at hthere
      cases hthere
    | some ls =>
      rw [hls, Option.any_some, List.any_eq_true] at hthere
      obtain ⟨l, hl, h⟩ := hthere
      simp only [Bool.and_eq_true, beq_iff_eq] at h
      exact ⟨ls, l, rfl, hl, h⟩
  · refine ⟨⟨false, [], none, [], [.classItem ⟨[], [], "A", none, [],
      [⟨.property ⟨some .pub, false, false, none, [("x", none)]⟩, some ⟨"public $x;", false⟩,
        some "/* c */"⟩]⟩]⟩, ?_, by decide +kernel, by decide +kernel⟩
    exact ofText_eq_ok (by decide +kernel) (by decide +kernel) (by decide +kernel) path

end DomainScaffold.Merge
