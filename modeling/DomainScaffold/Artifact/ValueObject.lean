import DomainScaffold.Artifact.Record
import DomainScaffold.Schema.Mention

/-!
# Value objects

A document with an object schema becomes a record class, one with a scalar schema a class around a
single value. Objects inside the schema get classes of their own next to it, each name once.

Results:
* `wellNamed_expand`, `wellNamed_expansion`: no two classes of a schema share a name.
-/

namespace DomainScaffold

open Php Merge Schema Naming

/-! ## Single values -/

/-- The type of a single value, as a hint and as part of a method name. -/
def scalarNames? (t : SchemaType) : Option (String × String) :=
  match t.shape with
  | .text _ => some ("string", "String")
  | .integer _ => some ("int", "Int")
  | .number _ => some ("float", "Float")
  | .boolean => some ("bool", "Bool")
  | _ => none

/-- The value inside the class. -/
def innerValue : Expr := .ofThis "value"

/-- The value as a text. -/
def valueText (hint : String) : Expr :=
  if hint = "string" then innerValue else .raw "(string) $this->value"

/-- Whether another object holds the same value. -/
def sameValue : Expr :=
  .binary (.binary (.var "other") "instanceof" (.name "self")) "&&"
    (.binary innerValue "===" (.property (.var "other") "value"))

/-- The changes of a class around a single value. -/
def scalarChanges (hint suffix : String) : List Change :=
  [.property (.privateOne (some hint) "value" none),
    .method (.publicStatic ("from" ++ suffix) [.typed hint "value"] (some "self")
      [.ofReturn (.new "self" [.var "value"])]),
    .method (.privateOne "__construct" [.typed hint "value"] none
      [.ofExpr (.assign innerValue (.var "value"))]),
    .method (.publicOne ("to" ++ suffix) [] (some hint) [.ofReturn innerValue]),
    .method (.publicOne "equals" [.untyped "other"] (some "bool") [.ofReturn sameValue]),
    .method (.publicOne "__toString" [] (some "string") [.ofReturn (valueText hint)])]

/-! ## Expansion -/

/-- A class with its changes. -/
abbrev PlacedClass := ClassLocation × List Change

/-- The classes found so far, and the names that are taken. -/
structure Expansion where
  /-- Names without case. -/
  taken : List String
  classes : List PlacedClass

/-- No classes. -/
def Expansion.empty : Expansion := ⟨[], []⟩

/-- Whether a class name is taken. -/
def Expansion.has (s : Expansion) (className : String) : Bool :=
  s.taken.contains (Text.foldAscii className)

/-- The expansion with a name taken and the classes under it. -/
def Expansion.add (s : Expansion) (className : String) (classes : List PlacedClass) : Expansion :=
  ⟨Text.foldAscii className :: s.taken, s.classes ++ classes⟩

/-- The names of the classes found, without case. -/
def Expansion.names (s : Expansion) : List String :=
  s.classes.map fun c => Text.foldAscii c.1.className

/-- Whether the names of the classes are distinct, and taken. -/
def Expansion.WellNamed (s : Expansion) : Prop := s.names.Nodup ∧ ∀ n ∈ s.names, n ∈ s.taken

namespace Blueprint

variable (b : Blueprint)

/-- The classes that a resolved type has at a place, and the nested classes that it asks for. A list
    stays a plain array; its items get a class if they are objects. -/
def classesFor (e : Element) (types : TypeSet) (l : ClassLocation) (t : SchemaType) :
    Outcome (List PlacedClass × List NestedClass) :=
  match scalarNames? t, t.shape with
  | some (hint, suffix), _ => .ok ([(l, scalarChanges hint suffix)], [])
  | none, .object properties required _ =>
    (b.planProperties e types properties required .classes).map fun plans =>
      ([(l, recordChanges (plans.map Prod.fst))], plans.flatMap Prod.snd)
  | none, .array none => .ok ([], [])
  | none, .array (some items) =>
    (b.resolve types items).map fun t =>
      ([], if t.properties?.isSome then [⟨l.className ++ "Item", items⟩] else [])
  | none, _ => .error (e.shapeError "ObjectType, ArrayType or a scalar type" t.kindName)

/-- The expansion of a type at a place, at most `depth` classes deep. A name that is taken is not
    given again. -/
def expand (e : Element) (types : TypeSet) :
    (depth : Nat) → ClassLocation → SchemaType → Expansion → Outcome Expansion
  | 0, _, _, s => .ok s
  | depth + 1, l, t, s =>
    if s.has l.className then .ok s
    else do
      let resolved ← b.resolve types t
      let (classes, nested) ← b.classesFor e types l resolved
      nested.foldlM
        (fun s n => expand e types depth (l.sibling n.className) n.type s)
        (s.add l.className classes)

/-- The names that classes of a schema can have. -/
def classNames (types : TypeSet) (root : String) : List String :=
  [root, root ++ "Item"] ++
    (types.mentions b.graph.definitions).flatMap fun name => [pascal name, pascal name ++ "Item"]

/-- The classes of a schema; an expansion is never deeper than there are names for classes. -/
def expansion (e : Element) (types : TypeSet) (l : ClassLocation) : Outcome Expansion :=
  b.expand e types (b.classNames types l.className).length l types.root .empty

/-! ## Distinct names -/

theorem classes_classesFor {e : Element} {types : TypeSet} {l : ClassLocation} {t : SchemaType}
    {classes : List PlacedClass} {nested : List NestedClass}
    (h : b.classesFor e types l t = .ok (classes, nested)) :
    classes = [] ∨ ∃ changes, classes = [(l, changes)] := by
  unfold classesFor at h
  split at h
  · cases h; exact .inr ⟨_, rfl⟩
  · obtain ⟨plans, _, hp⟩ := Outcome.map_eq_ok h
    cases hp; exact .inr ⟨_, rfl⟩
  · cases h; exact .inl rfl
  · obtain ⟨t, _, ht⟩ := Outcome.map_eq_ok h
    cases ht; exact .inl rfl
  · cases h

theorem wellNamed_add {s : Expansion} (hs : s.WellNamed) {l : ClassLocation}
    (hl : s.has l.className = false) {classes : List PlacedClass}
    (hc : classes = [] ∨ ∃ changes, classes = [(l, changes)]) :
    (s.add l.className classes).WellNamed := by
  obtain ⟨hd, ht⟩ := hs
  have hn : Text.foldAscii l.className ∉ s.names := fun hm => by
    simp [Expansion.has, ht _ hm] at hl
  rcases hc with rfl | ⟨changes, rfl⟩
  · exact ⟨by simpa [Expansion.add, Expansion.names] using hd, fun n hm => by
      simp only [Expansion.add, Expansion.names, List.append_nil] at hm
      exact List.mem_cons_of_mem _ (ht n hm)⟩
  · refine ⟨?_, fun n hm => ?_⟩
    · simp only [Expansion.names, Expansion.add, List.map_append, List.map_cons, List.map_nil]
      rw [List.nodup_append]
      exact ⟨hd, by simp, fun a ha c hc => by
        rw [List.mem_singleton] at hc
        rintro rfl
        exact hn (hc ▸ ha)⟩
    · simp only [Expansion.names, Expansion.add, List.map_append, List.mem_append, List.map_cons,
        List.map_nil, List.mem_singleton] at hm
      rcases hm with hm | rfl
      · exact List.mem_cons_of_mem _ (ht n hm)
      · exact List.mem_cons_self

theorem wellNamed_expand {e : Element} {types : TypeSet} {depth : Nat} {l : ClassLocation}
    {t : SchemaType} {s s' : Expansion} (hs : s.WellNamed)
    (h : b.expand e types depth l t s = .ok s') : s'.WellNamed := by
  induction depth generalizing l t s s' with
  | zero => cases h; exact hs
  | succ depth ih =>
    unfold expand at h
    split at h
    · cases h; exact hs
    · rename_i hl
      cases hr : b.resolve types t with
      | error err => simp [hr, bind, Except.bind] at h
      | ok resolved =>
        cases hc : b.classesFor e types l resolved with
        | error err => simp [hr, hc, bind, Except.bind] at h
        | ok found =>
          obtain ⟨classes, nested⟩ := found
          simp only [hr, hc, bind, Except.bind] at h
          have hw := wellNamed_add hs (by simpa using hl) (b.classes_classesFor hc)
          generalize s.add l.className classes = start at hw h
          clear hc
          induction nested generalizing start with
          | nil => cases h; exact hw
          | cons n nested ihn =>
            rw [List.foldlM_cons] at h
            cases hx : b.expand e types depth (l.sibling n.className) n.type start with
            | error err => simp [hx, bind, Except.bind] at h
            | ok next =>
              simp only [hx, bind, Except.bind] at h
              exact ihn next (ih hw hx) h

theorem wellNamed_expansion {e : Element} {types : TypeSet} {l : ClassLocation} {s : Expansion}
    (h : b.expansion e types l = .ok s) : s.WellNamed :=
  b.wellNamed_expand ⟨by simp [Expansion.names, Expansion.empty],
    by simp [Expansion.names, Expansion.empty]⟩ h

/-! ## Artifacts -/

/-- The name under which a class of a document is reported. -/
def valueObjectName (document className : String) : String :=
  if className = document then document else document ++ "\\" ++ className

/-- The classes of a document. The state of an aggregate is represented by its state class. -/
def valueObjects (document : Element) : Outcome (List Artifact) :=
  if document.is .document then
    match document.types with
    | none => .ok []
    | some types =>
      if document.isAggregateState then .ok []
      else do
        let location ← b.locate document
        let expansion ← b.expansion document types location
        return expansion.classes.map fun (l, changes) =>
          .ofClass (valueObjectName location.className l.className) l changes
  else .error (document.shapeError "Document" document.kind.name)

end Blueprint

end DomainScaffold
