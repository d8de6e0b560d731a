import DomainScaffold.Proofs.Php.LineBreaks

/-!
# Expressions that are written from their fields

Results:
* `dots_lost`: a function that is taken as a value becomes a call of it.
-/

namespace DomainScaffold.Php

/-- A file that returns a function. -/
def withFunctionValue : String := "<?php\nreturn f(...);\n"

/-- A function that is taken as a value is read and printed as a call without arguments. -/
theorem dots_lost :
    ((lexemes? withFunctionValue).bind SourceTree.fileParts?).map (List.map Grammar.Part.statementKind) =
        some [.ret (some (.call "f" []))] ∧
      Printer.expr (.call "f" []) = "f()" := by decide +kernel

end DomainScaffold.Php
