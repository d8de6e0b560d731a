import DomainScaffold.Proofs.Php.LineBreaks

/-!
# Printing what was read

Results:
* `closingTag_not_stable`: text behind the last closing tag grows by a line break each time the file
  is read and printed.
-/

namespace DomainScaffold.Php

/-- A file with text behind its code. -/
def withClosingTag : String := "<?php echo 1; ?>\nhtml\n"

/-- Text behind the last closing tag is not printed as it was read. -/
theorem closingTag_not_stable (path : String) :
    ∃ t t', SourceTree.ofText withClosingTag path = .ok t ∧
      SourceTree.ofText (Printer.file t) path = .ok t' ∧ Printer.file t' ≠ Printer.file t := by
  let tree (tail : Verbatim) : SourceTree :=
    ⟨false, [], none, [], [.other none ⟨"echo 1;", false⟩, .other none tail]⟩
  have hprint : Printer.file (tree ⟨"?>\nhtml\n", true⟩) = "<?php\n\necho 1;\n\n?>\nhtml\n\n" := by
    decide +kernel
  have hgrown : Printer.file (tree ⟨"?>\nhtml\n\n", false⟩) ≠
      "<?php\n\necho 1;\n\n?>\nhtml\n\n" := by decide +kernel
  refine ⟨tree ⟨"?>\nhtml\n", true⟩, tree ⟨"?>\nhtml\n\n", false⟩,
    ofText_eq_ok (by decide +kernel) (by decide +kernel) (by decide +kernel) path, ?_, ?_⟩
  · rw [hprint]
    exact ofText_eq_ok (by decide +kernel) (by decide +kernel) (by decide +kernel) path
  · rwa [hprint]

end DomainScaffold.Php
