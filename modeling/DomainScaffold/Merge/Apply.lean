import DomainScaffold.Merge.Edit

/-!
# Merging

A change set is made part of a file in passes: strict types, namespace, imports, class, and then
the changes inside the class by kind. A file of another namespace or class is not touched at all;
a single change that cannot be made is reported and left out.

Results:
* `merge_rejected`: a change set that is not applied leaves the file as it is.
-/

namespace DomainScaffold.Merge

open Php

/-- What merging made of a file. -/
structure MergeOutcome where
  tree : SourceTree
  /-- The changes that could not be made, or the reason why none was. -/
  issues : List GenerationError
  /-- Whether the file is one that the changes are for. -/
  applied : Bool
  /-- Whether anything was added or replaced. -/
  modified : Bool
  deriving DecidableEq, Repr

/-- How change sets are merged. -/
structure MergeRules where
  policy : MergePolicy
  strictTypes : Bool
  deriving DecidableEq, Repr

/-! ## Single changes -/

/-- The file with strict types if the rules ask for them. -/
def ensureStrictTypes (rules : MergeRules) (t : SourceTree) : Edited SourceTree :=
  if rules.strictTypes && !t.strictTypes then .replaced { t with strictTypes := true } else .kept t

/-- The file with a namespace; only a file without declarations gets a new one. -/
def ensureNamespace (name : String) (t : SourceTree) : Outcome (Edited SourceTree) :=
  let expected := Text.trimBoth '\\' name
  match t.namespaceName with
  | some found =>
    if Text.sameIgnoringCase found expected then .ok (.kept t)
    else .error (.namespaceMismatch expected found)
  | none =>
    if expected.isEmpty then .ok (.kept t)
    else if t.items.isEmpty then .ok (.replaced { t with namespaceName := some expected })
    else .error (.namespaceMismatch expected "")

/-- The file with an import, unless the name belongs to the namespace of the class. -/
def ensureImport (set : ChangeSet) (i : Import) (t : SourceTree) : Outcome (Edited SourceTree) :=
  let isOwn := i.kind == .classLike && i.rename.isNone &&
    Text.sameIgnoringCase i.namespaceName (Text.trimBoth '\\' set.namespaceName)
  if isOwn || hasImport t.imports i then .ok (.kept t)
  else
    match conflictingImport? t.imports i with
    | some existing => .error (.importConflict set.target.name i.name existing.name)
    | none => .ok (.replaced { t with imports := t.imports ++ [i] })

/-- The file with a class; only a file without declarations gets a new one. -/
def ensureClass (target : ClassTarget) (t : SourceTree) : Outcome (Edited SourceTree) :=
  if (t.classNamed? target.name).isSome then .ok (.kept t)
  else
    match t.declaredName? with
    | some found => .error (.classMismatch target.name found)
    | none =>
      let c := { ClassDecl.named target.name with
        modifiers := target.modifiers, parent := target.parent }
      .ok (.replaced { t with items := t.items ++ [.classItem c] })

/-- Whether an item is the class with a name. -/
def isClassNamed (name : String) (i : Item) : Bool :=
  i.class?.any fun c => Text.sameIgnoringCase c.name name

/-- The file with a class edited. -/
def editClass (name : String) (f : ClassDecl → Outcome (Edited ClassDecl)) (t : SourceTree) :
    Outcome (Edited SourceTree) :=
  match t.items.findIdx? (isClassNamed name) with
  | none => .error (.classMismatch name "")
  | some i =>
    match (t.items[i]?).bind Item.class? with
    | none => .error (.classMismatch name "")
    | some c => do
      let edited ← f c
      return edited.map fun c => { t with items := t.items.set i (.classItem c) }

/-- The file with a change made. -/
def applyChange (policy : MergePolicy) (set : ChangeSet) (change : Change) (t : SourceTree) :
    Outcome (Edited SourceTree) :=
  let inClass (f : ClassDecl → Outcome (Edited ClassDecl)) := editClass set.target.name f t
  match change with
  | .importName i => ensureImport set i t
  | .interface name => inClass fun c => .ok (ensureInterface name c)
  | .traitUse name => inClass fun c => .ok (ensureTrait name c)
  | .constant decl => inClass fun c => .ok (ensureConstants policy decl c)
  | .property decl => inClass fun c => .ok (ensureProperties policy decl c)
  | .method decl => inClass fun c => .ok (ensureMethod policy decl c)
  | .methodGroup decls => inClass fun c => .ok (ensureMethodGroup decls c)
  | .statements method ss => inClass (injectStatements method ss)
  | .mapEntry method key value => inClass (injectMapEntry method key value)

/-! ## Change sets -/

/-- A file with all changes made that can be made, and what was wrong with the others. -/
def applyChanges (policy : MergePolicy) (set : ChangeSet) :
    List Change → SourceTree → Edited SourceTree × List GenerationError
  | [], t => (.kept t, [])
  | change :: changes, t =>
    match applyChange policy set change t with
    | .error e =>
      let (rest, issues) := applyChanges policy set changes t
      (rest, e :: issues)
    | .ok first =>
      let (rest, issues) := applyChanges policy set changes first.value
      (⟨rest.value, first.changed || rest.changed⟩, issues)

/-- A file that changes are not for. -/
def rejected (t : SourceTree) (issues : List GenerationError) : MergeOutcome :=
  ⟨t, issues, false, false⟩

/-- A file with a change set merged into it. -/
def merge (rules : MergeRules) (t : SourceTree) (set : ChangeSet) : MergeOutcome :=
  let strict := ensureStrictTypes rules t
  match ensureNamespace set.namespaceName strict.value with
  | .error e => rejected t [e]
  | .ok spaced =>
    let (imported, importIssues) :=
      applyChanges rules.policy set (ofPass set.changes .imports) spaced.value
    match ensureClass set.target imported.value with
    | .error e => rejected t (importIssues ++ [e])
    | .ok declared =>
      let (done, issues) := applyChanges rules.policy set (ordered set.changes) declared.value
      ⟨done.value, importIssues ++ issues, true,
        strict.changed || spaced.changed || imported.changed || declared.changed || done.changed⟩

theorem merge_rejected {rules : MergeRules} {t : SourceTree} {set : ChangeSet}
    (h : (merge rules t set).applied = false) :
    (merge rules t set).tree = t ∧ (merge rules t set).modified = false := by
  unfold merge at h ⊢
  dsimp only at h ⊢
  split
  · exact ⟨rfl, rfl⟩
  · rename_i spaced hs
    rw [hs] at h
    dsimp only at h
    split
    · exact ⟨rfl, rfl⟩
    · rename_i declared hd
      rw [hd] at h
      cases h

/-- A file with change sets merged into it one after the other. -/
def mergeAll (rules : MergeRules) (t : SourceTree) : List ChangeSet → MergeOutcome
  | [] => ⟨t, [], true, false⟩
  | set :: sets =>
    let first := merge rules t set
    let rest := mergeAll rules first.tree sets
    ⟨rest.tree, first.issues ++ rest.issues, first.applied && rest.applied,
      first.modified || rest.modified⟩

end DomainScaffold.Merge
