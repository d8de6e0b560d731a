import DomainScaffold.Error
import DomainScaffold.Merge.Change
import DomainScaffold.Merge.Presence

/-!
# Edits of a class

For each kind of change, the class with the change made. What is there already is kept, or replaced
where the policy says so.

Results:
* `injected_nil`: no statements change nothing.
* `foldl_append`: edits in a row.
-/

namespace DomainScaffold.Merge

open Php

/-- What happens to constants, properties and methods that exist already. -/
inductive MergePolicy where
  /-- They stay as they are. -/
  | preserve
  /-- They are replaced. -/
  | replace
  deriving DecidableEq, Repr

/-! ## Results of edits -/

/-- What an edit makes of something, and whether it changed anything. -/
structure Edited (α : Type) where
  value : α
  changed : Bool
  deriving DecidableEq, Repr

namespace Edited

/-- Nothing was changed. -/
def kept (a : α) : Edited α := ⟨a, false⟩

/-- Something was changed. -/
def replaced (a : α) : Edited α := ⟨a, true⟩

/-- The result inside something larger. -/
def map (f : α → β) (e : Edited α) : Edited β := ⟨f e.value, e.changed⟩

/-- Edits in a row. -/
def foldl (f : β → α → Edited α) (a : α) : List β → Edited α
  | [] => kept a
  | b :: bs =>
    let first := f b a
    let rest := foldl f first.value bs
    ⟨rest.value, first.changed || rest.changed⟩

theorem foldl_append (f : β → α → Edited α) (a : α) (bs cs : List β) :
    foldl f a (bs ++ cs) =
      ⟨(foldl f (foldl f a bs).value cs).value,
        (foldl f a bs).changed || (foldl f (foldl f a bs).value cs).changed⟩ := by
  induction bs generalizing a with
  | nil => simp [foldl, kept]
  | cons b bs ih => simp [foldl, ih, Bool.or_assoc]

end Edited

/-! ## Members -/

/-- The class with other members. -/
def withMembers (c : ClassDecl) (ms : List Member) : ClassDecl := { c with members := ms }

/-- The class with a new member behind the last one that satisfies the first of some conditions
    that any satisfies, or at the front. -/
def insertAfter (conditions : List (Member → Bool)) (kind : MemberKind) (c : ClassDecl) :
    ClassDecl :=
  let place := (conditions.findSome? fun p => positionAfter? p c.members).getD 0
  withMembers c (c.members.insertIdx place (.ofKind kind))

/-- The class with a member edited; it is written from its fields from then on. -/
def setKind (i : Nat) (kind : MemberKind) (c : ClassDecl) : ClassDecl :=
  withMembers c (c.members.modify i fun m => { m.touched with kind })

/-- The class with an interface. -/
def ensureInterface (name : String) (c : ClassDecl) : Edited ClassDecl :=
  if implements c name then .kept c
  else .replaced { c with interfaces := c.interfaces ++ [name] }

/-- The class with a trait. -/
def ensureTrait (name : String) (c : ClassDecl) : Edited ClassDecl :=
  if usesTrait c name then .kept c
  else .replaced (insertAfter [isTraitUse] (.traitUse [name]) c)

/-- The class with the value of a constant replaced. -/
def replaceConstant (place : Nat × Nat) (value : Expr) (c : ClassDecl) : Edited ClassDecl :=
  match (c.members[place.1]?).map Member.kind with
  | some (.constant d) =>
    if (d.entries[place.2]?).map Prod.snd = some value then .kept c
    else
      let entries := d.entries.modify place.2 fun e => (e.1, value)
      .replaced (setKind place.1 (.constant { d with entries }) c)
  | _ => .kept c

/-- The class with one of the constants of a declaration. -/
def ensureConstantEntry (policy : MergePolicy) (decl : ConstantDecl) (entry : String × Expr)
    (c : ClassDecl) : Edited ClassDecl :=
  match constantPlace? c entry.1, policy with
  | some place, .replace => replaceConstant place entry.2 c
  | some _, .preserve => .kept c
  | none, _ =>
    .replaced (insertAfter [isConstant, isTraitUse] (.constant { decl with entries := [entry] }) c)

/-- The class with constants. -/
def ensureConstants (policy : MergePolicy) (decl : ConstantDecl) (c : ClassDecl) :
    Edited ClassDecl :=
  .foldl (ensureConstantEntry policy decl) c decl.entries

/-- The class with a property replaced: its declaration if it declares nothing else, or only its
    default. -/
def replaceProperty (place : Nat × Nat) (decl : PropertyDecl) (entry : String × Option Expr)
    (c : ClassDecl) : Edited ClassDecl :=
  match (c.members[place.1]?).map Member.kind with
  | some (.property d) =>
    let new : PropertyDecl :=
      if d.entries.length = 1 then { decl with entries := [entry] }
      else { d with entries := d.entries.set place.2 entry }
    if d = new then .kept c else .replaced (setKind place.1 (.property new) c)
  | _ => .kept c

/-- The class with one of the properties of a declaration. -/
def ensurePropertyEntry (policy : MergePolicy) (decl : PropertyDecl)
    (entry : String × Option Expr) (c : ClassDecl) : Edited ClassDecl :=
  match propertyPlace? c entry.1, policy with
  | some place, .replace => replaceProperty place decl entry c
  | some _, .preserve => .kept c
  | none, _ =>
    .replaced (insertAfter [isProperty, isConstant, isTraitUse]
      (.property { decl with entries := [entry] }) c)

/-- The class with properties. -/
def ensureProperties (policy : MergePolicy) (decl : PropertyDecl) (c : ClassDecl) :
    Edited ClassDecl :=
  .foldl (ensurePropertyEntry policy decl) c decl.entries

/-! ## Methods -/

/-- The class with methods behind all members. -/
def appendMethods (ds : List MethodDecl) (c : ClassDecl) : ClassDecl :=
  withMembers c (c.members ++ ds.map fun d => .ofKind (.method d))

/-- The class with a method. -/
def ensureMethod (policy : MergePolicy) (d : MethodDecl) (c : ClassDecl) : Edited ClassDecl :=
  match methodPlace? c d.name, policy with
  | some i, .replace =>
    if (c.members[i]?).map Member.kind = some (.method d) then .kept c
    else .replaced (setKind i (.method d) c)
  | some _, .preserve => .kept c
  | none, _ => .replaced (appendMethods [d] c)

/-- The class with all methods of a group, unless it has one of them. -/
def ensureMethodGroup (ds : List MethodDecl) (c : ClassDecl) : Edited ClassDecl :=
  if ds.any fun d => (methodPlace? c d.name).isSome then .kept c
  else ⟨appendMethods ds c, !ds.isEmpty⟩

/-- The class with the body of a method edited, or the given error if the method has none. -/
def editBody (method : String) (noBody : GenerationError)
    (f : List Statement → Outcome (Edited (List Statement))) (c : ClassDecl) :
    Outcome (Edited ClassDecl) := do
  match methodPlace? c method with
  | none => .error (.methodNotFound c.name method)
  | some i =>
    match (c.members[i]?).bind Member.method? with
    | some d@{ body := some body, .. } =>
      let edited ← f body
      if edited.changed then
        return .replaced (setKind i (.method { d with body := some edited.value }) c)
      else return .kept c
    | _ => .error noBody

/-- A body with a statement at its end unless it is there. -/
def injected (s : Statement) (body : List Statement) : Edited (List Statement) :=
  if isPresent body s then .kept body else .replaced (body ++ [s])

/-- The class with statements in a method. -/
def injectStatements (method : String) (ss : List Statement) (c : ClassDecl) :
    Outcome (Edited ClassDecl) :=
  editBody method (.methodNotFound c.name method) (fun body => .ok (.foldl injected body ss)) c

theorem injected_nil (body : List Statement) : Edited.foldl injected body [] = .kept body := rfl

/-- Whether a statement is a return. -/
def isReturn (s : Statement) : Bool :=
  match s.kind with
  | .ret _ => true
  | _ => false

/-- The items of an array with an entry at their end, unless one has its key. -/
def withEntry (key value : Expr) (items : List (Option Expr × Expr)) :
    Edited (List (Option Expr × Expr)) :=
  if items.any fun item => item.1.map Printer.expr == some (Printer.expr key) then .kept items
  else .replaced (items ++ [(some key, value)])

/-- A body with an entry in the array of its last return; a body without a return gets one. -/
def injectEntry (noMap : GenerationError) (key value : Expr) (body : List Statement) :
    Outcome (Edited (List Statement)) :=
  match body.reverse.findIdx? isReturn with
  | none => .ok (.replaced (body ++ [.ofReturn (.array [(some key, value)])]))
  | some back =>
    let i := body.length - 1 - back
    match (body[i]?).map Statement.kind with
    | some (.ret (some (.array items))) =>
      .ok ((withEntry key value items).map fun items =>
        body.modify i fun s => { s with kind := .ret (some (.array items)), verbatim := none })
    | _ => .error noMap

/-- The class with an entry in the array that a method returns. -/
def injectMapEntry (method : String) (key value : Expr) (c : ClassDecl) :
    Outcome (Edited ClassDecl) :=
  let noMap := .classMapNotFound c.name method
  editBody method noMap (injectEntry noMap key value) c

end DomainScaffold.Merge
