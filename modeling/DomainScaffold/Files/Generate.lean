import DomainScaffold.Files.Access
import DomainScaffold.Report

/-!
# Generating into directories

A run over a directory reads every planned file below it, and writes those that changed back.

Results:
* `writeAll_nil`: without files nothing is written.
-/

namespace DomainScaffold

variable {m : Type → Type} [Monad m]

/-- The report of a run over the files below `root`. -/
def Blueprint.generateBelow (files : FileAccess m) (root : Path) (b : Blueprint) : m Report := do
  let (plan, errors) := b.plan
  let sources ← plan.mapM fun f => do
    let source ← files.read (root.join f.path)
    return (f, source)
  return .ofSources b.settings.merging errors sources

/-- Writes files below `root` up to the first failure; gives back their number. -/
def writeAll (files : FileAccess m) (root : Path) : List GeneratedFile → FileAction m Nat
  | [] => return 0
  | f :: rest => do
    files.write (root.join f.path) f.text
    let n ← writeAll files root rest
    return n + 1

theorem writeAll_nil (files : FileAccess m) (root : Path) :
    writeAll files root [] = pure 0 := rfl

end DomainScaffold
