import DomainScaffold.Report

/-!
# Projects

A project holds texts under paths. Paths with the same components name one file. Generating into a
project reads its files and puts the changed ones back.

Results:
* `read_put_self`, `read_put_of_not_same`: what is read after a write.
-/

namespace DomainScaffold

/-- The files of a project. -/
structure Project where
  files : List (Path × String)
  deriving Repr

namespace Project

/-- A project without files. -/
def empty : Project := ⟨[]⟩

/-- The text of a file. -/
def text? (p : Project) (path : Path) : Option String :=
  (p.files.find? fun f => f.1.same path).map Prod.snd

/-- The project without a file. -/
def remove (p : Project) (path : Path) : Project := ⟨p.files.filter fun f => !f.1.same path⟩

/-- The project with a file in place of one of the same path. -/
def put (p : Project) (path : Path) (text : String) : Project :=
  ⟨(path, text) :: (p.remove path).files⟩

/-- The project with the text of a file changed, if it exists. -/
def edit (p : Project) (path : Path) (f : String → String) : Project :=
  match p.text? path with
  | none => p
  | some text => p.put path (f text)

/-- The project with generated files. -/
def putAll (p : Project) (files : List GeneratedFile) : Project :=
  files.foldl (fun p f => p.put f.path f.text) p

theorem read_put_self (p : Project) (path : Path) (text : String) :
    (p.put path text).text? path = some text := by
  simp [put, text?, Path.same_refl]

theorem read_put_of_not_same (p : Project) {path other : Path} (h : path.same other = false)
    (text : String) : (p.put path text).text? other = p.text? other := by
  simp only [put, text?, remove, List.find?_cons, h]
  congr 1
  induction p.files with
  | nil => rfl
  | cons f files ih =>
    by_cases hf : f.1.same path = true
    · have ho : f.1.same other = false := by
        cases ho : f.1.same other with
        | false => rfl
        | true =>
          rw [Path.same_comm] at hf
          rw [Path.same_trans hf ho] at h
          exact absurd h (by simp)
      simp [hf, ho, ih]
    · simp only [List.filter_cons, hf, Bool.not_false, if_true, List.find?_cons, ih]

end Project

/-- The report of a run over a project. -/
def Blueprint.generateInto (b : Blueprint) (p : Project) : Report :=
  b.generate fun path => .ok (p.text? path)

end DomainScaffold
