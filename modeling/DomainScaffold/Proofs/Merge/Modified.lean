import Mathlib.Algebra.GroupWithZero.Nat
import DomainScaffold.Proofs.Merge.Steps

/-!
# When a merge says that it changed something

A merge reports whether it changed the file, and a file is only written again if one did. Without
replacing, each step makes the file larger, so no later step undoes an earlier one and the report is
exact. A merge that replaces may end where it began although it took steps, but it never leaves a
change unreported.

Results:
* `FileStep.extent_lt`: a step that does not replace makes a file larger.
* `mergeAll_modified`: when merges report that they changed nothing.
-/

namespace DomainScaffold.Merge

open Php

/-! ## How much a file holds -/

/-- How many entries the array has that a statement returns. -/
def entryCount (s : Statement) : Nat :=
  match s.kind with
  | .ret (some (.array items)) => items.length
  | _ => 0

/-- How much a body holds: its statements and the entries of the arrays that they return. -/
def bodyExtent (body : List Statement) : Nat := (body.map fun s => 1 + entryCount s).sum

/-- How much a member holds: itself and what is in its body. -/
def memberExtent (m : Member) : Nat := 1 + ((bodyOf? m.kind).map bodyExtent).getD 0

/-- How much a class holds: its interfaces and its members. -/
def classExtent (c : ClassDecl) : Nat := c.interfaces.length + (c.members.map memberExtent).sum

/-- How much an item holds: itself and what is in its class. -/
def itemExtent (i : Item) : Nat := 1 + (i.class?.map classExtent).getD 0

/-- How much a file holds. -/
def fileExtent (t : SourceTree) : Nat :=
  t.strictTypes.toNat + t.namespaceName.isSome.toNat + t.imports.length +
    (t.items.map itemExtent).sum

/-! ## Each step adds something -/

theorem BodyStep.extent_lt {body body' : List Statement} (h : BodyStep body body') :
    bodyExtent body < bodyExtent body' := by
  cases h with
  | appended hne =>
    obtain ⟨s, ss, rfl⟩ := List.exists_cons_of_ne_nil hne
    simp only [bodyExtent, List.map_append, List.map_cons, List.sum_append, List.sum_cons]
    omega
  | entry hk =>
    simp only [bodyExtent, List.map_append, List.map_cons, List.sum_append, List.sum_cons,
      entryCount, hk, List.length_append, List.length_singleton]
    omega

/-- A sum over a list when one element is another one. -/
theorem sum_map_set {α : Type} (size : α → Nat) {l : List α} {i : Nat} {a : α} (h : l[i]? = some a)
    (b : α) : ((l.set i b).map size).sum + size a = (l.map size).sum + size b := by
  induction l generalizing i with
  | nil => cases h
  | cons c l ih =>
    cases i with
    | zero =>
      cases h
      simp only [List.set_cons_zero, List.map_cons, List.sum_cons]
      omega
    | succ i =>
      have := ih (i := i) h
      simp only [List.set_cons_succ, List.map_cons, List.sum_cons]
      omega

theorem classExtent_setKind {c : ClassDecl} {i : Nat} {m : Member} (h : c.members[i]? = some m)
    (kind : MemberKind) :
    classExtent (setKind i kind c) + memberExtent m =
      classExtent c + memberExtent { m.touched with kind } := by
  obtain ⟨hlt, rfl⟩ := List.getElem?_eq_some_iff.1 h
  have hset : (setKind i kind c).members =
      c.members.set i { c.members[i].touched with kind } := by
    rw [setKind, withMembers, List.modify_eq_take_cons_drop hlt,
      List.set_eq_take_append_cons_drop, if_pos hlt]
  have hsum := sum_map_set memberExtent h { c.members[i].touched with kind }
  rw [← hset] at hsum
  simp only [classExtent, setKind, withMembers] at hsum ⊢
  omega

theorem ClassStep.extent_lt {c d : ClassDecl} (h : ClassStep .preserve c d) :
    classExtent c < classExtent d := by
  cases h with
  | interface name => simp [classExtent]
  | inserted conditions kind =>
    have hsum := ((List.perm_insertIdx (Member.ofKind kind) c.members
      (placeAfter_le conditions c.members)).map memberExtent).sum_nat
    simp only [List.map_cons, List.sum_cons, memberExtent] at hsum
    simp only [classExtent, insertAfter, withMembers, placeAfter] at hsum ⊢
    omega
  | methods hne =>
    obtain ⟨d, ds, rfl⟩ := List.exists_cons_of_ne_nil hne
    simp only [classExtent, appendMethods, withMembers, List.map_append, List.map_cons,
      List.sum_append, List.sum_cons, memberExtent]
    omega
  | rewritten _ hp _ => cases hp
  | @body i m d body body' hm hk hb hbody =>
    have hsum := classExtent_setKind hm (.method { d with body := some body' })
    have hlt := hbody.extent_lt
    simp only [memberExtent, hk, bodyOf?, hb, Option.map_some, Option.getD_some] at hsum
    omega

/-- A step that does not replace makes a file larger. -/
theorem FileStep.extent_lt {t u : SourceTree} (h : FileStep .preserve t u) :
    fileExtent t < fileExtent u := by
  cases h with
  | strictTypes hs => simp [fileExtent, hs]
  | namespaceName hn => simp [fileExtent, hn]
  | imported i => simp [fileExtent, withImports]
  | declared c =>
    simp only [fileExtent, List.map_append, List.map_cons, List.sum_append, List.sum_cons, itemExtent]
    omega
  | @edited i c d hc hstep =>
    have hlt := hstep.extent_lt
    have hsum := sum_map_set itemExtent hc (.classItem d)
    simp only [itemExtent, Item.class?, Option.map_some, Option.getD_some] at hsum
    simp only [fileExtent, withClass]
    omega

/-! ## What a merge reports -/

/-- Merges that keep what is there report that they changed nothing exactly if they end with the
    file that they began with. Merges that replace report so only then. -/
theorem mergeAll_modified (strictTypes : Bool) (t : SourceTree) (sets : List ChangeSet) :
    ((mergeAll ⟨.preserve, strictTypes⟩ t sets).modified = false ↔
      (mergeAll ⟨.preserve, strictTypes⟩ t sets).tree = t) ∧
    ((mergeAll ⟨.replace, strictTypes⟩ t sets).modified = false →
      (mergeAll ⟨.replace, strictTypes⟩ t sets).tree = t) :=
  ⟨(steps_mergeAll ⟨.preserve, strictTypes⟩ t sets).unchanged_iff fileExtent
    fun _ _ => FileStep.extent_lt,
    (steps_mergeAll ⟨.replace, strictTypes⟩ t sets).value_of_unchanged⟩

end DomainScaffold.Merge
