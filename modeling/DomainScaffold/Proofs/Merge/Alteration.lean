import DomainScaffold.Proofs.Merge.Steps
import DomainScaffold.Proofs.Php.Reading

/-!
# What a merge that changes something leaves behind

Whatever a step changes can be seen in the file behind it: the file has grown, or a member has lost
the text that it was read from. No later step undoes either, so a merge that changes a file as it
was read ends in another file.

Results:
* `ClassStep.progress`: what a step in a class leaves behind.
* `FileStep.progress`, `progress_mergeAll`: the same for files and for whole merges.
* `mergeAll_tree_ne`: files as they were read are not left as they are by merges that change them.
-/

namespace DomainScaffold.Merge

open Php

/-! ## Progress -/

section Progress

variable {α : Type} {size : α → Nat} {Marked : α → Prop} {Step : α → α → Prop}

/-- An edit that makes nothing smaller and takes no mark away, and makes something larger or leaves
    a mark if it changes anything. -/
structure Progress (size : α → Nat) (Marked : α → Prop) (a : α) (e : Edited α) : Prop where
  le : size a ≤ size e.value
  marked : Marked a → Marked e.value
  changed : e.changed = true → size a < size e.value ∨ Marked e.value

namespace Progress

theorem kept (a : α) : Progress size Marked a (.kept a) := ⟨Nat.le_refl _, id, fun h => by cases h⟩

/-- An edit that leaves a mark. -/
theorem of_marked {a : α} {e : Edited α} (hle : size a ≤ size e.value) (h : Marked e.value) :
    Progress size Marked a e :=
  ⟨hle, fun _ => h, fun _ => .inr h⟩

/-- An edit that makes something larger. -/
theorem of_lt {a : α} {e : Edited α} (hlt : size a < size e.value)
    (h : Marked a → Marked e.value) : Progress size Marked a e :=
  ⟨Nat.le_of_lt hlt, h, fun _ => .inl hlt⟩

/-- Two edits one after the other. -/
theorem andThen {a : α} {e f : Edited α} (he : Progress size Marked a e)
    (hf : Progress size Marked e.value f) :
    Progress size Marked a ⟨f.value, e.changed || f.changed⟩ where
  le := Nat.le_trans he.le hf.le
  marked h := hf.marked (he.marked h)
  changed h := by
    rcases Bool.or_eq_true_iff.1 h with h | h
    · exact (he.changed h).imp (fun hlt => Nat.lt_of_lt_of_le hlt hf.le) hf.marked
    · exact (hf.changed h).imp_left (Nat.lt_of_le_of_lt he.le)

/-- Steps in a row make progress if each step does. -/
theorem of_steps (hstep : ∀ a b, Step a b → Progress size Marked a (.replaced b)) {a : α}
    {e : Edited α} (h : Steps Step a e) : Progress size Marked a e := by
  induction h with
  | kept => exact kept _
  | step h => exact hstep _ _ h
  | andThen _ _ ih₁ ih₂ => exact ih₁.andThen ih₂

end Progress

end Progress

/-! ## Steps in a class -/

/-- Whether some member of a class does not have the text that it was read from. -/
def Rewritten (c : ClassDecl) : Prop := ∃ m ∈ c.members, m.verbatim = none

/-- How many interfaces a class has. -/
def interfaceCount (c : ClassDecl) : Nat := c.interfaces.length

/-- The progress of an edit of a class. -/
abbrev ClassProgress : ClassDecl → Edited ClassDecl → Prop := Progress interfaceCount Rewritten

theorem rewritten_setKind {c : ClassDecl} {i : Nat} {m : Member} (h : c.members[i]? = some m)
    (kind : MemberKind) : Rewritten (setKind i kind c) :=
  ⟨{ m.touched with kind }, List.mem_of_getElem? (i := i) (by simp [setKind, withMembers, h]), rfl⟩

/-- What a step in a class leaves behind: an interface more, or a member without a text. -/
theorem ClassStep.progress {policy : MergePolicy} {c d : ClassDecl} (h : ClassStep policy c d) :
    ClassProgress c (.replaced d) := by
  cases h with
  | interface name => exact .of_lt (by simp [interfaceCount, Edited.replaced]) id
  | inserted conditions kind =>
    refine .of_marked (Nat.le_refl _) ⟨.ofKind kind, ?_, rfl⟩
    exact (List.mem_insertIdx (placeAfter_le conditions c.members)).2 (.inl rfl)
  | methods hne =>
    obtain ⟨d, ds, rfl⟩ := List.exists_cons_of_ne_nil hne
    refine .of_marked (Nat.le_refl _) ⟨.ofKind (.method d), ?_, rfl⟩
    simp [Edited.replaced, appendMethods, withMembers]
  | rewritten kind _ hm => exact .of_marked (Nat.le_refl _) (rewritten_setKind hm kind)
  | body hm _ _ _ => exact .of_marked (Nat.le_refl _) (rewritten_setKind hm _)

/-! ## Steps in a file -/

/-- How much a file has that merges add and that is not a member of a class. -/
def treeSize (t : SourceTree) : Nat :=
  t.strictTypes.toNat + t.namespaceName.isSome.toNat + t.imports.length + t.items.length +
    (t.classes.flatMap ClassDecl.interfaces).length

/-- Whether some class of a file has a member without the text that it was read from. -/
def HasRewritten (t : SourceTree) : Prop := ∃ c ∈ t.classes, Rewritten c

/-- The progress of an edit of a file. -/
abbrev TreeProgress : SourceTree → Edited SourceTree → Prop := Progress treeSize HasRewritten

section File

variable {t u : SourceTree}

/-- An edit of a class is one of the file that it is in. -/
theorem progress_withClass {i : Nat} {c d : ClassDecl} (hc : t.items[i]? = some (.classItem c))
    (hd : ClassProgress c (.replaced d)) : TreeProgress t (.replaced (withClass t i d)) := by
  have hlt : i < t.items.length := (List.getElem?_eq_some_iff.1 hc).1
  have hitems := eq_take_append_cons_drop hc
  have hset : (withClass t i d).items =
      t.items.take i ++ .classItem d :: t.items.drop (i + 1) := by
    rw [withClass, List.set_eq_take_append_cons_drop, if_pos hlt]
  generalize t.items.take i = before at hitems hset
  generalize t.items.drop (i + 1) = after at hitems hset
  have hsize : treeSize (withClass t i d) + interfaceCount c =
      treeSize t + interfaceCount d := by
    simp only [treeSize, SourceTree.classes, hset, hitems, List.filterMap_append,
      List.filterMap_cons, Item.class?, List.flatMap_append, List.flatMap_cons, List.length_append,
      List.length_cons, interfaceCount]
    simp only [withClass]
    omega
  have hedited : Rewritten d → HasRewritten (withClass t i d) := fun h =>
    ⟨d, by simp [SourceTree.classes, hset, Item.class?], h⟩
  refine ⟨?_, ?_, fun h => ?_⟩
  · have hle : interfaceCount c ≤ interfaceCount d := hd.le
    simp only [Edited.replaced]
    omega
  · rintro ⟨b, hb, hm⟩
    simp only [SourceTree.classes, hitems, List.filterMap_append, List.mem_append,
      List.filterMap_cons, Item.class?, List.mem_cons] at hb
    rcases hb with hb | rfl | hb
    · exact ⟨b, by simp [Edited.replaced, SourceTree.classes, hset, hb], hm⟩
    · exact hedited (hd.marked hm)
    · exact ⟨b, by simp [Edited.replaced, SourceTree.classes, hset, Item.class?, hb], hm⟩
  · refine (hd.changed h).imp (fun hlt => ?_) hedited
    simp only [Edited.replaced] at hlt ⊢
    omega

theorem FileStep.progress {policy : MergePolicy} (h : FileStep policy t u) :
    TreeProgress t (.replaced u) := by
  cases h with
  | strictTypes hs =>
    refine .of_lt ?_ id
    simp only [Edited.replaced, treeSize, SourceTree.classes, hs, Bool.toNat_false, Bool.toNat_true]
    omega
  | namespaceName hn =>
    refine .of_lt ?_ id
    simp only [Edited.replaced, treeSize, SourceTree.classes, hn, Option.isSome_none,
      Option.isSome_some, Bool.toNat_false, Bool.toNat_true]
    omega
  | imported i =>
    refine .of_lt ?_ id
    simp only [Edited.replaced, treeSize, SourceTree.classes, withImports, List.length_append,
      List.length_singleton]
    omega
  | declared c =>
    refine .of_lt ?_ ?_
    · simp only [Edited.replaced, treeSize, SourceTree.classes, List.length_append,
        List.length_singleton, List.filterMap_append, List.flatMap_append]
      omega
    · rintro ⟨b, hb, hm⟩
      refine ⟨b, ?_, hm⟩
      rw [SourceTree.classes, Edited.replaced, List.filterMap_append]
      exact List.mem_append_left _ hb
  | edited hc hstep => exact progress_withClass hc hstep.progress

/-! ## Merges -/

/-- Whatever merges change can be seen in the file behind them. -/
theorem progress_mergeAll (rules : MergeRules) (t : SourceTree) (sets : List ChangeSet) :
    TreeProgress t ⟨(mergeAll rules t sets).tree, (mergeAll rules t sets).modified⟩ :=
  .of_steps (fun _ _ => FileStep.progress) (steps_mergeAll rules t sets)

/-- A file as it was read is not left as it is by merges that change something. -/
theorem mergeAll_tree_ne {rules : MergeRules} {sets : List ChangeSet} (ht : t.HasTexts)
    (h : (mergeAll rules t sets).modified = true) : (mergeAll rules t sets).tree ≠ t := by
  intro heq
  rcases (progress_mergeAll rules t sets).changed h with hlt | ⟨c, hc, m, hm, hv⟩
  · rw [heq] at hlt
    exact Nat.lt_irrefl _ hlt
  · rw [heq] at hc
    have := ht c hc m hm
    rw [hv] at this
    cases this

end File

end DomainScaffold.Merge
