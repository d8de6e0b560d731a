import DomainScaffold.Proofs.Merge.Run

/-!
# The steps of a merge

However a merge ends, it is a row of single steps, and it says that it changed something exactly if
there was a step. This module says what one step can do to a body, to a class and to a file. A
theorem about merges that is kept by each of these steps needs no look at the edits themselves.

Results:
* `steps_editOf`: what a change makes of a class.
* `steps_merge`, `steps_mergeAll`: whole merges.
-/

namespace DomainScaffold.Merge

open Php

/-! ## Rows of steps -/

section Steps

variable {α β : Type} {Step : α → α → Prop} {Step' : β → β → Prop}

/-- What a row of steps makes of something, and whether there was a step. -/
inductive Steps (Step : α → α → Prop) : α → Edited α → Prop where
  | kept {a} : Steps Step a (.kept a)
  | step {a b} : Step a b → Steps Step a (.replaced b)
  | andThen {a} {e f : Edited α} : Steps Step a e → Steps Step e.value f →
      Steps Step a ⟨f.value, e.changed || f.changed⟩

namespace Steps

theorem value_of_unchanged {a : α} {e : Edited α} (h : Steps Step a e) (hc : e.changed = false) :
    e.value = a := by
  induction h with
  | kept => rfl
  | step _ => cases hc
  | andThen _ _ ih₁ ih₂ =>
    obtain ⟨h₁, h₂⟩ := Bool.or_eq_false_iff.1 hc
    rw [ih₂ h₂, ih₁ h₁]

/-- Steps in something are steps in something larger. -/
theorem map {emb : α → β} (hstep : ∀ a b, Step a b → Step' (emb a) (emb b)) {a : α}
    {e : Edited α} (h : Steps Step a e) : Steps Step' (emb a) (e.map emb) := by
  induction h with
  | kept => exact .kept
  | step h => exact .step (hstep _ _ h)
  | andThen _ _ ih₁ ih₂ => exact .andThen ih₁ ih₂

theorem foldl {f : β → α → Edited α} (h : ∀ b a, Steps Step a (f b a)) (bs : List β) (a : α) :
    Steps Step a (.foldl f a bs) := by
  induction bs generalizing a with
  | nil => exact .kept
  | cons b bs ih => exact .andThen (h b a) (ih (f b a).value)

theorem makeAll {f : Change → α → Outcome (Edited α)}
    (h : ∀ ch a e, f ch a = .ok e → Steps Step a e) (changes : List Change) (a : α) :
    Steps Step a (makeAll f changes a).1 := by
  induction changes generalizing a with
  | nil => exact .kept
  | cons ch changes ih =>
    cases hf : f ch a with
    | error e =>
      rw [makeAll_cons_error hf]
      exact ih a
    | ok e =>
      rw [makeAll_cons_ok hf]
      exact .andThen (h ch a e hf) (ih e.value)

/-- If each step makes something larger, steps in a row do unless there is none. -/
theorem size_le_of_lt (size : α → Nat) (hstep : ∀ a b, Step a b → size a < size b) {a : α}
    {e : Edited α} (h : Steps Step a e) :
    size a ≤ size e.value ∧ (e.changed = true → size a < size e.value) := by
  induction h with
  | kept => exact ⟨Nat.le_refl _, fun h => by cases h⟩
  | step h => exact ⟨Nat.le_of_lt (hstep _ _ h), fun _ => hstep _ _ h⟩
  | andThen _ _ ih₁ ih₂ =>
    refine ⟨Nat.le_trans ih₁.1 ih₂.1, fun hc => ?_⟩
    rcases Bool.or_eq_true_iff.1 hc with hc | hc
    · exact Nat.lt_of_lt_of_le (ih₁.2 hc) ih₂.1
    · exact Nat.lt_of_le_of_lt ih₁.1 (ih₂.2 hc)

/-- If each step makes something larger, steps in a row say that they changed nothing exactly if
    they did not. -/
theorem unchanged_iff (size : α → Nat) (hstep : ∀ a b, Step a b → size a < size b) {a : α}
    {e : Edited α} (h : Steps Step a e) : e.changed = false ↔ e.value = a := by
  refine ⟨h.value_of_unchanged, fun hv => ?_⟩
  by_contra hc
  have hlt := (h.size_le_of_lt size hstep).2 (by simpa using hc)
  rw [hv] at hlt
  exact Nat.lt_irrefl _ hlt

end Steps

end Steps

/-! ## Steps in a body -/

/-- A step in a body: statements are added at the end, or an entry at the end of an array that is
    returned. -/
inductive BodyStep : List Statement → List Statement → Prop where
  | appended {body added} : added ≠ [] → BodyStep body (body ++ added)
  | entry {before s after items entry} : s.kind = .ret (some (.array items)) →
      BodyStep (before ++ s :: after) (before ++
        { s with kind := .ret (some (.array (items ++ [entry]))), verbatim := none } :: after)

theorem bodyStep_foldl_injected {body ss : List Statement}
    (h : (Edited.foldl injected body ss).changed = true) :
    BodyStep body (Edited.foldl injected body ss).value := by
  obtain ⟨added, hv, -, hc⟩ := foldl_injected body ss
  rw [hv]
  exact .appended (hc.1 h)

theorem bodyStep_injectEntry {noMap : GenerationError} {key value : Expr} {body : List Statement}
    {e : Edited (List Statement)} (h : injectEntry noMap key value body = .ok e)
    (hc : e.changed = true) : BodyStep body e.value := by
  have step := entryStep noMap key value body
  rw [h] at step
  cases step with
  | opened _ => exact .appended (by simp)
  | added hk _ _ => exact .entry hk
  | there _ _ => cases hc

/-! ## Steps in a class -/

/-- A step in a class. Only under the policy that replaces is a member ever rewritten that is there
    already, save for what is added to its body. -/
inductive ClassStep (policy : MergePolicy) (c : ClassDecl) : ClassDecl → Prop where
  | interface (name : String) :
      ClassStep policy c { c with interfaces := c.interfaces ++ [name] }
  | inserted (conditions : List (Member → Bool)) (kind : MemberKind) :
      ClassStep policy c (insertAfter conditions kind c)
  | methods {ds : List MethodDecl} : ds ≠ [] → ClassStep policy c (appendMethods ds c)
  | rewritten {i : Nat} {m : Member} (kind : MemberKind) : policy = .replace →
      c.members[i]? = some m → ClassStep policy c (setKind i kind c)
  | body {i : Nat} {m : Member} {d : MethodDecl} {body body' : List Statement} :
      c.members[i]? = some m → m.kind = .method d → d.body = some body → BodyStep body body' →
      ClassStep policy c (setKind i (.method { d with body := some body' }) c)

section Class

variable (policy : MergePolicy) (c : ClassDecl)

theorem steps_ensureInterface (name : String) :
    Steps (ClassStep policy) c (ensureInterface name c) := by
  unfold ensureInterface
  split
  · exact .kept
  · exact .step (.interface name)

theorem steps_ensureTrait (name : String) : Steps (ClassStep policy) c (ensureTrait name c) := by
  unfold ensureTrait
  split
  · exact .kept
  · exact .step (.inserted _ _)

theorem steps_ensureConstantEntry (decl : ConstantDecl) (entry : String × Expr) :
    Steps (ClassStep policy) c (ensureConstantEntry policy decl entry c) := by
  unfold ensureConstantEntry
  split
  · unfold replaceConstant
    split
    · rename_i hm
      obtain ⟨m, hm, -⟩ := Option.map_eq_some_iff.1 hm
      split
      · exact .kept
      · exact .step (.rewritten _ rfl hm)
    · exact .kept
  · exact .kept
  · exact .step (.inserted _ _)

theorem steps_ensurePropertyEntry (decl : PropertyDecl) (entry : String × Option Expr) :
    Steps (ClassStep policy) c (ensurePropertyEntry policy decl entry c) := by
  unfold ensurePropertyEntry
  split
  · unfold replaceProperty
    split
    · rename_i hm
      obtain ⟨m, hm, -⟩ := Option.map_eq_some_iff.1 hm
      extract_lets new
      split
      · exact .kept
      · exact .step (.rewritten _ rfl hm)
    · exact .kept
  · exact .kept
  · exact .step (.inserted _ _)

theorem steps_ensureMethod (d : MethodDecl) :
    Steps (ClassStep policy) c (ensureMethod policy d c) := by
  unfold ensureMethod
  split
  · rename_i i hi
    obtain ⟨hlt, -⟩ := List.findIdx?_eq_some_iff_getElem.1 hi
    split
    · exact .kept
    · exact .step (.rewritten _ rfl (List.getElem?_eq_getElem hlt))
  · exact .kept
  · exact .step (.methods (by simp))

theorem steps_ensureMethodGroup (ds : List MethodDecl) :
    Steps (ClassStep policy) c (ensureMethodGroup ds c) := by
  unfold ensureMethodGroup
  split
  · exact .kept
  · cases ds with
    | nil =>
      have hsame : appendMethods [] c = c := by simp [appendMethods, withMembers]
      rw [hsame]
      exact .kept
    | cons d ds => exact .step (.methods (by simp))

theorem kind_of_method? {m : Member} {d : MethodDecl} (h : m.method? = some d) :
    m.kind = .method d := by
  unfold Member.method? at h
  split at h
  · rename_i e hk
    cases h
    exact hk
  · cases h

theorem steps_editBody {method : String} {noBody : GenerationError}
    {f : List Statement → Outcome (Edited (List Statement))}
    (hf : ∀ body e, f body = .ok e → e.changed = true → BodyStep body e.value)
    {e : Edited ClassDecl} (h : editBody method noBody f c = .ok e) :
    Steps (ClassStep policy) c e := by
  unfold editBody at h
  split at h
  · cases h
  · split at h
    · rename_i d body hd
      obtain ⟨m, hm, hmd⟩ := Option.bind_eq_some_iff.1 hd
      cases hfb : f body with
      | error e =>
        rw [hfb] at h
        cases h
      | ok edited =>
        simp only [hfb, bind, Except.bind] at h
        split at h
        · rename_i hc
          cases h
          exact .step (.body hm (kind_of_method? hmd) rfl (hf body edited hfb hc))
        · cases h
          exact .kept
    · cases h

/-- What a change makes of a class is a row of steps. -/
theorem steps_editOf (ch : Change) {e : Edited ClassDecl} (h : editOf policy ch c = .ok e) :
    Steps (ClassStep policy) c e := by
  cases ch with
  | importName i => cases h; exact .kept
  | interface name => cases h; exact steps_ensureInterface policy c name
  | traitUse name => cases h; exact steps_ensureTrait policy c name
  | constant decl =>
    cases h
    exact .foldl (fun entry d => steps_ensureConstantEntry policy d decl entry) decl.entries c
  | property decl =>
    cases h
    exact .foldl (fun entry d => steps_ensurePropertyEntry policy d decl entry) decl.entries c
  | method d => cases h; exact steps_ensureMethod policy c d
  | methodGroup ds => cases h; exact steps_ensureMethodGroup policy c ds
  | statements method ss =>
    refine steps_editBody policy c (fun body e he hc => ?_) h
    cases he
    exact bodyStep_foldl_injected hc
  | mapEntry method key value =>
    exact steps_editBody policy c (fun body e he hc => bodyStep_injectEntry he hc) h

end Class

/-! ## Steps in a file -/

/-- A step in a file. -/
inductive FileStep (policy : MergePolicy) (t : SourceTree) : SourceTree → Prop where
  | strictTypes : t.strictTypes = false → FileStep policy t { t with strictTypes := true }
  | namespaceName {name : String} : t.namespaceName = none →
      FileStep policy t { t with namespaceName := some name }
  | imported (i : Import) : FileStep policy t (withImports t (t.imports ++ [i]))
  | declared (c : ClassDecl) : FileStep policy t { t with items := t.items ++ [.classItem c] }
  | edited {i : Nat} {c d : ClassDecl} : t.items[i]? = some (.classItem c) →
      ClassStep policy c d → FileStep policy t (withClass t i d)

section File

variable (policy : MergePolicy) (set : ChangeSet) {t : SourceTree}

theorem steps_ensureStrictTypes (rules : MergeRules) (t : SourceTree) :
    Steps (FileStep policy) t (ensureStrictTypes rules t) := by
  unfold ensureStrictTypes
  split
  · rename_i h
    exact .step (.strictTypes (by simpa using (Bool.and_eq_true_iff.1 h).2))
  · exact .kept

theorem steps_ensureNamespace {name : String} {e : Edited SourceTree}
    (h : ensureNamespace name t = .ok e) : Steps (FileStep policy) t e := by
  unfold ensureNamespace at h
  dsimp only at h
  split at h
  · split at h
    · cases h
      exact .kept
    · cases h
  · rename_i hn
    split at h
    · cases h
      exact .kept
    · split at h
      · cases h
        exact .step (.namespaceName hn)
      · cases h

theorem steps_ensureImport {i : Import} {e : Edited SourceTree}
    (h : ensureImport set i t = .ok e) : Steps (FileStep policy) t e := by
  simp only [ensureImport] at h
  split at h
  · cases h
    exact .kept
  · split at h
    · cases h
    · cases h
      exact .step (.imported i)

theorem steps_ensureClass {target : ClassTarget} {e : Edited SourceTree}
    (h : ensureClass target t = .ok e) : Steps (FileStep policy) t e := by
  unfold ensureClass at h
  split at h
  · cases h
    exact .kept
  · split at h
    · cases h
    · cases h
      exact .step (.declared _)

/-- Steps in the class of a file are steps in the file. -/
theorem steps_withClass {i : Nat} {c : ClassDecl} {e : Edited ClassDecl}
    (hc : t.items[i]? = some (.classItem c)) (he : Steps (ClassStep policy) c e) :
    Steps (FileStep policy) t (e.map (withClass t i)) := by
  have hlt : i < t.items.length := (List.getElem?_eq_some_iff.1 hc).1
  have hself : withClass t i c = t := by
    rw [withClass, ← (List.getElem?_eq_some_iff.1 hc).2, List.set_getElem_self]
  have hmap : Steps (FileStep policy) (withClass t i c) (e.map (withClass t i)) := by
    refine he.map fun a b hab => ?_
    rw [← withClass_withClass t i a b]
    exact .edited (by simp [withClass, hlt]) hab
  rwa [hself] at hmap

theorem steps_applyChange {ch : Change} {e : Edited SourceTree}
    (h : applyChange policy set ch t = .ok e) : Steps (FileStep policy) t e := by
  by_cases hp : ch.pass = .imports
  · cases ch with
    | importName i => exact steps_ensureImport policy set h
    | _ => cases hp
  · rw [applyChange_inClass hp] at h
    cases hi : t.items.findIdx? (isClassNamed set.target.name) with
    | none =>
      rw [editClass, hi] at h
      cases h
    | some i =>
      obtain ⟨c, hc⟩ := isTarget_of_findIdx? hi
      rw [editClass_of_target hc] at h
      cases he : editOf policy ch c with
      | error e =>
        rw [he] at h
        cases h
      | ok edited =>
        rw [he] at h
        cases h
        exact steps_withClass policy hc.2 (steps_editOf policy c ch he)

theorem steps_applyChanges (changes : List Change) (t : SourceTree) :
    Steps (FileStep policy) t (applyChanges policy set changes t).1 := by
  rw [applyChanges_eq]
  exact .makeAll (fun _ _ _ => steps_applyChange policy set) changes t

/-- A merge is a row of steps; one that is not applied has none. -/
theorem steps_merge (rules : MergeRules) (t : SourceTree) (set : ChangeSet) :
    Steps (FileStep rules.policy) t ⟨(merge rules t set).tree, (merge rules t set).modified⟩ := by
  have hstrict := steps_ensureStrictTypes rules.policy rules t
  unfold merge
  dsimp only
  split
  · exact .kept
  · rename_i spaced hn
    have hspaced := hstrict.andThen (steps_ensureNamespace rules.policy hn)
    have himported := hspaced.andThen
      (steps_applyChanges rules.policy set (ofPass set.changes .imports) spaced.value)
    split
    · exact .kept
    · rename_i declared hd
      have hdeclared := himported.andThen (steps_ensureClass rules.policy hd)
      exact hdeclared.andThen
        (steps_applyChanges rules.policy set (ordered set.changes) declared.value)

theorem steps_mergeAll (rules : MergeRules) (t : SourceTree) (sets : List ChangeSet) :
    Steps (FileStep rules.policy) t
      ⟨(mergeAll rules t sets).tree, (mergeAll rules t sets).modified⟩ := by
  induction sets generalizing t with
  | nil => exact .kept
  | cons set sets ih => exact .andThen (steps_merge rules t set) (ih (merge rules t set).tree)

end File

end DomainScaffold.Merge
