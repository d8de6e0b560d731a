import DomainScaffold.Proofs.Merge.Failures
import DomainScaffold.Proofs.Merge.Frame
import DomainScaffold.Proofs.Merge.Idempotence

/-!
# What imported names mean

Generated code refers to a class by the local name of its import. In the file that a merge leaves,
that name is the class if nothing else claims it: no other import, and no declaration of the file.
A merge looks for the former only, and not if the class is in the namespace of the change set; so
a name can mean another class although the merge leaves no issue.

Results:
* `filter_makeAll_importInto`: the imports that claim a name after a run.
* `mem_failing_iff`: which changes of a run fail.
* `merge_importName`: when an import leaves an issue, and when its name means the imported class.
* `merge_importName_shadowed`: an import without an issue whose name means another class.
-/

namespace DomainScaffold.Merge

open Php

/-! ## Classes and their names -/

/-- The full name of a class that is declared in a namespace. -/
def fullNameIn (space name : String) : String :=
  if space = "" then name else space ++ "\\" ++ name

/-- Whether a name that a file of a namespace declares claims the local name of an import only if
    it is the imported class itself. -/
def Respects (space : String) (i : Import) (name : String) : Prop :=
  Text.sameIgnoringCase name i.localName = true →
    Text.sameIgnoringCase (fullNameIn space name) i.name = true

/-- Whether a file can refer to an imported class by its local name, as far as nothing else claims
    that: the class is imported or lies in the namespace of the file. -/
def Reachable (t : SourceTree) (i : Import) : Prop :=
  hasImport t.imports i = true ∨
    i.rename = none ∧ Text.sameIgnoringCase i.namespaceName (t.namespaceName.getD "") = true

/-- The local name of an import denotes the imported class in a file. -/
structure Denotes (t : SourceTree) (i : Import) : Prop where
  reachable : Reachable t i
  imports : ∀ j ∈ t.imports, sameLocalName j i = true → Text.sameIgnoringCase j.name i.name = true
  declared : ∀ name ∈ t.items.filterMap Item.declares?, Respects (t.namespaceName.getD "") i name

theorem sameIgnoringCase_trans {a b c : String} (h₁ : Text.sameIgnoringCase a b = true)
    (h₂ : Text.sameIgnoringCase b c = true) : Text.sameIgnoringCase a c = true := by
  rw [Text.sameIgnoringCase_iff] at h₁ h₂ ⊢
  exact h₁.trans h₂

theorem sameIgnoringCase_fullNameIn {space space' name name' : String}
    (hspace : Text.sameIgnoringCase space space' = true)
    (hname : Text.sameIgnoringCase name name' = true) :
    Text.sameIgnoringCase (fullNameIn space name) (fullNameIn space' name') = true := by
  rw [Text.sameIgnoringCase_iff] at hspace hname
  have hempty : space = "" ↔ space' = "" := by
    rw [← String.toList_eq_nil_iff, ← String.toList_eq_nil_iff, ← List.map_eq_nil_iff, hspace,
      List.map_eq_nil_iff]
  unfold fullNameIn
  by_cases h : space = ""
  · rw [if_pos h, if_pos (hempty.1 h)]
    exact Text.sameIgnoringCase_iff.2 hname
  · rw [if_neg h, if_neg (mt hempty.2 h), Text.sameIgnoringCase_iff]
    simp only [String.toList_append, List.map_append, hspace, hname]

/-- The spelling of a name and of the namespace does not matter. -/
theorem Respects.congr {space space' name name' : String} {i : Import}
    (hspace : Text.sameIgnoringCase space space' = true)
    (hname : Text.sameIgnoringCase name name' = true) (h : Respects space i name) :
    Respects space' i name' := fun hlocal => by
  have hfull := h (sameIgnoringCase_trans hname hlocal)
  refine sameIgnoringCase_trans ?_ hfull
  rw [Text.sameIgnoringCase_comm]
  exact sameIgnoringCase_fullNameIn hspace hname

/-! ## Imports with a local name -/

/-- The import that a change asks for, unless it is of the namespace of the class. -/
def foreignImport? (set : ChangeSet) : Change → Option Import
  | .importName i => if isOwnImport set i then none else some i
  | _ => none

/-- The imports that claim the local name of an import when others have been added: those that do
    so already, or else the first new one. -/
def claimants (is js : List Import) (i : Import) : List Import :=
  match is.filter (sameLocalName · i) with
  | [] => (js.find? (sameLocalName · i)).toList
  | found => found

section Claimants

variable {is js : List Import} {i j : Import}

theorem claimants_of_filter_nil (h : is.filter (sameLocalName · i) = []) :
    claimants is js i = (js.find? (sameLocalName · i)).toList := by
  rw [claimants, h]

theorem claimants_of_filter_ne_nil (h : is.filter (sameLocalName · i) ≠ []) :
    claimants is js i = is.filter (sameLocalName · i) := by
  unfold claimants
  split
  · exact absurd ‹_› h
  · rfl

/-- A new import whose name is taken does not matter. -/
theorem claimants_cons_of_taken {x : Import} (hx : x ∈ is) (h : sameLocalName x j = true) :
    claimants is (j :: js) i = claimants is js i := by
  by_cases hnil : is.filter (sameLocalName · i) = []
  · have hji : sameLocalName j i = false := by
      by_contra hji
      rw [Bool.not_eq_false] at hji
      have hmem : x ∈ is.filter (sameLocalName · i) :=
        List.mem_filter.2 ⟨hx, sameLocalName_trans h hji⟩
      rw [hnil] at hmem
      cases hmem
    rw [claimants_of_filter_nil hnil, claimants_of_filter_nil hnil,
      List.find?_cons_of_neg (by simp [hji])]
  · rw [claimants_of_filter_ne_nil hnil, claimants_of_filter_ne_nil hnil]

/-- A new import whose name is free is one of the imports from then on. -/
theorem claimants_append_of_free (h : ∀ x ∈ is, sameLocalName x j = false) :
    claimants (is ++ [j]) js i = claimants is (j :: js) i := by
  cases hji : sameLocalName j i with
  | true =>
    have hnil : is.filter (sameLocalName · i) = [] := by
      refine List.filter_eq_nil_iff.2 fun x hx hxi => ?_
      have hxj := sameLocalName_trans hxi (sameLocalName_symm hji)
      rw [h x hx] at hxj
      cases hxj
    rw [claimants_of_filter_ne_nil (by simp [hji]), claimants_of_filter_nil hnil,
      List.filter_append, hnil, List.find?_cons_of_pos (p := (sameLocalName · i)) hji]
    simp [hji]
  | false =>
    have hsame : (is ++ [j]).filter (sameLocalName · i) = is.filter (sameLocalName · i) := by
      simp [List.filter_append, hji]
    by_cases hnil : is.filter (sameLocalName · i) = []
    · rw [claimants_of_filter_nil (hsame.trans hnil), claimants_of_filter_nil hnil,
        List.find?_cons_of_neg (by simp [hji])]
    · rw [claimants_of_filter_ne_nil (by rwa [hsame]), claimants_of_filter_ne_nil hnil, hsame]

end Claimants

/-- The imports that claim a name do not change when a change has its turn. -/
theorem claimants_importInto (set : ChangeSet) (ch : Change) (is js : List Import) (i : Import) :
    claimants (valueOr is (importInto set ch is)) js i =
      claimants is ((foreignImport? set ch).toList ++ js) i := by
  cases ch with
  | importName j =>
    cases hown : isOwnImport set j with
    | true =>
      rw [importInto, if_pos (by rw [hown, Bool.true_or]), foreignImport?, if_pos hown]
      rfl
    | false =>
      rw [foreignImport?, if_neg (by simp [hown])]
      have step := importStep set j is
      generalize importInto set (.importName j) is = o at step ⊢
      cases step with
      | needless h =>
        rw [hown, Bool.false_or, hasImport, List.any_eq_true] at h
        obtain ⟨x, hx, hxj⟩ := h
        exact (claimants_cons_of_taken hx (Bool.and_eq_true_iff.1 hxj).1).symm
      | taken _ hx =>
        have hother := List.find?_some hx
        rw [Bool.and_eq_true] at hother
        exact (claimants_cons_of_taken (List.mem_of_find?_eq_some hx) hother.1).symm
      | added hfree => exact claimants_append_of_free hfree
  | _ => rfl

/-- The imports that claim a name after a run. -/
theorem filter_makeAll_importInto (set : ChangeSet) (changes : List Change) (is : List Import)
    (i : Import) :
    (makeAll (importInto set) changes is).1.value.filter (sameLocalName · i) =
      claimants is (changes.filterMap (foreignImport? set)) i := by
  rw [makeAll_value]
  induction changes generalizing is with
  | nil =>
    by_cases hnil : is.filter (sameLocalName · i) = []
    · rw [List.filterMap_nil, claimants_of_filter_nil hnil]
      exact hnil
    · rw [claimants_of_filter_ne_nil hnil, List.foldl_nil]
  | cons ch changes ih =>
    rw [List.foldl_cons, ih, claimants_importInto]
    cases h : foreignImport? set ch with
    | none => rw [List.filterMap_cons_none h]; rfl
    | some j => rw [List.filterMap_cons_some h]; rfl

/-! ## Imports that fail -/

/-- If every change is settled once it has had its turn and stays so, a change fails exactly if it
    cannot be made in the end. -/
theorem mem_failing_iff {α : Type} {f : Change → α → Outcome (Edited α)}
    (hself : ∀ ch a, Settled f ch (issue? (f ch a)) (valueOr a (f ch a)))
    (hstays : ∀ ch d issue a, Settled f ch issue a → Settled f ch issue (valueOr a (f d a)))
    {changes : List (Change × Nat)} (hnodup : (changes.map Prod.snd).Nodup) {ch : Change} {n : Nat}
    (hmem : (ch, n) ∈ changes) (a : α) (e : GenerationError) :
    (n, e) ∈ failing f changes a ↔
      f ch (makeAll f (changes.map Prod.fst) a).1.value = .error e := by
  induction changes generalizing a with
  | nil => cases hmem
  | cons d changes ih =>
    obtain ⟨d, m⟩ := d
    rw [List.map_cons, List.nodup_cons] at hnodup
    have hvalue : (makeAll f (((d, m) :: changes).map Prod.fst) a).1.value =
        (makeAll f (changes.map Prod.fst) (valueOr a (f d a))).1.value := by
      simp only [makeAll_value, List.map_cons, List.foldl_cons]
    have hfirst : (n, e) ∈ failing f ((d, m) :: changes) a ↔
        n = m ∧ f d a = .error e ∨ (n, e) ∈ failing f changes (valueOr a (f d a)) := by
      cases h : f d a with
      | error e' => simp [failing_cons_error h, valueOr, eq_comm]
      | ok first => simp [failing_cons_ok h, valueOr]
    rw [hfirst, hvalue]
    rcases List.mem_cons.1 hmem with heq | hmem
    · cases heq
      have hlater : (n, e) ∉ failing f changes (valueOr a (f ch a)) := fun hin =>
        hnodup.1 (failing_subset changes _ (List.mem_map_of_mem (f := Prod.fst) hin))
      have hsettled : Settled f ch (issue? (f ch a))
          (makeAll f (changes.map Prod.fst) (valueOr a (f ch a))).1.value :=
        settled_run (fun c _ b => hstays ch c _ b) (hself ch a)
      rw [or_iff_left hlater, and_iff_right rfl]
      cases h : f ch a with
      | error e' =>
        rw [h] at hsettled
        rw [show f ch _ = .error e' from hsettled]
      | ok first =>
        rw [h] at hsettled
        rw [show f ch _ = .ok (.kept _) from hsettled]
        simp
    · have hne : n ≠ m := fun heq => hnodup.1 (List.mem_map.2 ⟨(ch, n), hmem, heq⟩)
      rw [or_iff_right fun h => hne h.1, ih hnodup.2 hmem]

theorem failing_imports (policy : MergePolicy) (set : ChangeSet) {changes : List (Change × Nat)}
    (h : ∀ ch ∈ changes, ch.1.pass = .imports) (t : SourceTree) :
    failing (applyChange policy set) changes t = failing (importInto set) changes t.imports := by
  induction changes generalizing t with
  | nil => rfl
  | cons ch changes ih =>
    obtain ⟨ch, n⟩ := ch
    have ih := ih fun d hd => h d (List.mem_cons_of_mem _ hd)
    have hpass := h (ch, n) (by simp)
    cases ch with
    | importName i =>
      have hchange := applyChange_importName policy set i t
      cases hi : importInto set (.importName i) t.imports with
      | error e =>
        rw [hi] at hchange
        rw [failing_cons_error hi, failing_cons_error hchange, ih]
      | ok first =>
        rw [hi] at hchange
        rw [failing_cons_ok hi, failing_cons_ok hchange, ih]
        rfl
    | _ => cases hpass

/-! ## Merges -/

/-- The imports that claim the local name of an import in the file that a merge leaves: those of the
    file, or else the first of the set that is not of the namespace of the class. -/
def finalClaimants (t : SourceTree) (set : ChangeSet) (i : Import) : List Import :=
  claimants t.imports (set.changes.filterMap (foreignImport? set)) i

theorem declares_withClass {name : String} {t : SourceTree} {k : Nat} {c d : ClassDecl}
    (h : IsTarget name t k c) (hd : d.name = c.name) :
    (withClass t k d).items.filterMap Item.declares? = t.items.filterMap Item.declares? := by
  obtain ⟨before, after, hitems, hlen, -⟩ := h.items_eq
  simp [withClass, hitems, ← hlen, Item.declares?, hd]

/-- Whether neither the class that changes are for nor another one that a file declares claims the
    local name of an import without being the imported class. -/
def DeclaredRespects (t : SourceTree) (set : ChangeSet) (i : Import) : Prop :=
  ∀ name ∈ set.target.name :: t.items.filterMap Item.declares?,
    Respects (Text.trimBoth '\\' set.namespaceName) i name

section Merge

variable {rules : MergeRules} {t : SourceTree} {set : ChangeSet} {i : Import} {n : Nat}

theorem claimants_ne_nil (is : List Import) {js : List Import} (h : i ∈ js) : claimants is js i ≠ [] := by
  by_cases hnil : is.filter (sameLocalName · i) = []
  · have hsome : (js.find? (sameLocalName · i)).isSome = true :=
      List.find?_isSome.2 ⟨i, h, by simp [sameLocalName, Text.sameIgnoringCase_refl]⟩
    obtain ⟨j, hj⟩ := Option.isSome_iff_exists.1 hsome
    rw [claimants_of_filter_nil hnil, hj]
    simp
  · rwa [claimants_of_filter_ne_nil hnil]

/-- An import that is not of the namespace of the class leaves its name claimed. -/
theorem exists_claimant (t : SourceTree) (hmem : .importName i ∈ set.changes)
    (hown : isOwnImport set i = false) : ∃ j, j ∈ finalClaimants t set i := by
  have hforeign : i ∈ set.changes.filterMap (foreignImport? set) :=
    List.mem_filterMap.2 ⟨_, hmem, if_neg (by simp [hown])⟩
  exact List.exists_mem_of_ne_nil _ (claimants_ne_nil t.imports hforeign)

/-- The imports of the merged file that claim a local name. -/
theorem mem_importRun_iff {j : Import} :
    j ∈ (importRun set t.imports).1.value ∧ sameLocalName j i = true ↔
      j ∈ finalClaimants t set i := by
  have hforeign : (ofPass set.changes .imports).filterMap (foreignImport? set) =
      set.changes.filterMap (foreignImport? set) := by
    rw [ofPass, List.filterMap_filter]
    congr 1
    funext ch
    cases ch <;> rfl
  rw [finalClaimants, ← hforeign, ← filter_makeAll_importInto, List.mem_filter]
  rfl

theorem hasImport_importRun :
    hasImport (importRun set t.imports).1.value i = true ↔
      ∃ j ∈ finalClaimants t set i, Text.sameIgnoringCase j.name i.name = true := by
  simp only [hasImport, List.any_eq_true, Bool.and_eq_true, ← mem_importRun_iff, and_assoc]

/-- An import cannot be made in the end exactly if only other classes claim its name. -/
theorem importInto_importRun (hmem : .importName i ∈ set.changes) :
    (∃ existing, importInto set (.importName i) (importRun set t.imports).1.value =
        .error (.importConflict set.target.name i.name existing)) ↔
      isOwnImport set i = false ∧
        ∀ j ∈ finalClaimants t set i, Text.sameIgnoringCase j.name i.name = false := by
  have hnone : hasImport (importRun set t.imports).1.value i = false ↔
      ∀ j ∈ finalClaimants t set i, Text.sameIgnoringCase j.name i.name = false := by
    rw [← Bool.not_eq_true, hasImport_importRun]
    simp
  have step := importStep set i (importRun set t.imports).1.value
  generalize importInto set (.importName i) (importRun set t.imports).1.value = o at step ⊢
  cases step with
  | needless h =>
    refine iff_of_false (by rintro ⟨_, h⟩; cases h) ?_
    rintro ⟨hown, hother⟩
    rw [hown, hnone.2 hother] at h
    cases h
  | taken h _ =>
    rw [Bool.or_eq_false_iff] at h
    exact iff_of_true ⟨_, rfl⟩ ⟨h.1, hnone.1 h.2⟩
  | added hfree =>
    refine iff_of_false (by rintro ⟨_, h⟩; cases h) ?_
    rintro ⟨hown, -⟩
    obtain ⟨j, hj⟩ := exists_claimant t hmem hown
    obtain ⟨hjmem, hlocal⟩ := mem_importRun_iff.2 hj
    rw [hfree j hjmem] at hlocal
    cases hlocal

/-- An import of an applied merge fails exactly if it cannot be made in the end. -/
theorem mem_failures_iff (h : (merge rules t set).applied = true)
    (hmem : (.importName i, n) ∈ set.changes.zipIdx) (e : GenerationError) :
    (n, e) ∈ failures rules t set ↔
      importInto set (.importName i) (importRun set t.imports).1.value = .error e := by
  obtain ⟨spaced, declared, hn, hd⟩ := exists_of_applied h
  have himports : spaced.value.imports = t.imports := by
    obtain ⟨found, hv, -⟩ := ensureNamespace_ok hn
    rw [hv, value_ensureStrictTypes]
  have hplaces := nodup_places set.changes
  rw [List.map_append, List.nodup_append] at hplaces
  obtain ⟨hnodup, -, hdisjoint⟩ := hplaces
  have hplaced : (.importName i, n) ∈ placedOfPass set.changes.zipIdx .imports :=
    List.mem_filter.2 ⟨hmem, rfl⟩
  have hlater : (n, e) ∉
      failing (applyChange rules.policy set) (placedOrdered set.changes.zipIdx) declared.value :=
    fun hin => hdisjoint n (List.mem_map_of_mem (f := Prod.snd) hplaced) n
      (failing_subset _ _ (List.mem_map_of_mem (f := Prod.fst) hin)) rfl
  rw [failures_eq hn hd, List.mem_append, or_iff_left hlater,
    failing_imports rules.policy set (fun ch hch => by simpa using (List.mem_filter.1 hch).2),
    himports, mem_failing_iff (fun ch => settled_import_self set ch)
      (fun ch d issue is => settled_import_stays set ch d issue is) hnodup hplaced,
    map_fst_placedOfPass, List.zipIdx_map_fst]
  rfl

theorem sameIgnoringCase_of_fits {name : String} {found : Option String}
    (h : NamespaceFits name found) :
    Text.sameIgnoringCase (found.getD "") (Text.trimBoth '\\' name) = true := by
  cases found with
  | some found => exact h
  | none =>
    have hempty : Text.trimBoth '\\' name = "" := by simpa [NamespaceFits] using h
    rw [hempty]
    exact Text.sameIgnoringCase_refl _

/-- What the file declares in the end is, but for the spelling, what it declared and the class of
    the change set. -/
theorem forall_declares_iff {p : SourceTree} {k : Nat} {c : ClassDecl}
    (h : Prepared rules set t p k c) :
    (∀ name ∈ p.items.filterMap Item.declares?, Respects (p.namespaceName.getD "") i name) ↔
      DeclaredRespects t set i := by
  have hspace := sameIgnoringCase_of_fits h.fits
  have hspace' := hspace
  rw [Text.sameIgnoringCase_comm] at hspace'
  have hname := h.target.sameName
  have hclass : c.name ∈ p.items.filterMap Item.declares? :=
    List.mem_filterMap.2 ⟨_, List.mem_of_getElem? h.target.2, rfl⟩
  have hold : ∀ name ∈ t.items.filterMap Item.declares?,
      name ∈ p.items.filterMap Item.declares? := by
    rcases h.items with heq | ⟨-, -, heq⟩
    · rw [heq]
      exact fun _ => id
    · rw [heq, List.filterMap_append]
      exact fun _ => List.mem_append_left _
  have hnew : ∀ name ∈ p.items.filterMap Item.declares?,
      name = c.name ∨ name ∈ t.items.filterMap Item.declares? := by
    rcases h.items with heq | ⟨-, -, heq⟩
    · rw [heq]
      exact fun _ => .inr
    · rw [heq, List.filterMap_append]
      intro name hmem
      exact (List.mem_append.1 hmem).symm.imp_left fun hmem => by
        simpa [Item.declares?] using hmem
  constructor
  · intro hp name hmem
    rcases List.mem_cons.1 hmem with rfl | hmem
    · exact (hp c.name hclass).congr hspace hname
    · exact (hp name (hold name hmem)).congr hspace (Text.sameIgnoringCase_refl name)
  · intro ht name hmem
    rcases hnew name hmem with rfl | hmem
    · rw [Text.sameIgnoringCase_comm] at hname
      exact (ht _ (by simp)).congr hspace' hname
    · exact (ht name (List.mem_cons_of_mem _ hmem)).congr hspace' (Text.sameIgnoringCase_refl name)

/-- What the file that a merge leaves declares and imports. -/
theorem exists_prepared (h : (merge rules t set).applied = true) :
    ∃ p k c, Prepared rules set t p k c ∧
      (merge rules t set).tree.imports = (importRun set t.imports).1.value ∧
      (merge rules t set).tree.namespaceName = p.namespaceName ∧
      (merge rules t set).tree.items.filterMap Item.declares? =
        p.items.filterMap Item.declares? := by
  obtain ⟨p, k, c, prepared, htree, -⟩ := merge_applied h
  have htarget : IsTarget set.target.name
      (withImports p (importRun set t.imports).1.value) k c := prepared.target
  refine ⟨p, k, c, prepared, by rw [htree]; rfl, by rw [htree]; rfl, ?_⟩
  rw [htree, declares_withClass htarget (classRun_name rules.policy set c)]
  rfl

theorem reachable_merge (h : (merge rules t set).applied = true)
    (hi : isOwnImport set i = true ∨
      ∃ j ∈ finalClaimants t set i, Text.sameIgnoringCase j.name i.name = true) :
    Reachable (merge rules t set).tree i := by
  obtain ⟨p, k, c, prepared, himports, hspace, -⟩ := exists_prepared h
  rcases hi with hown | hhas
  · simp only [isOwnImport, Bool.and_eq_true, Option.isNone_iff_eq_none] at hown
    refine .inr ⟨hown.1.2, sameIgnoringCase_trans hown.2 ?_⟩
    rw [hspace, Text.sameIgnoringCase_comm]
    exact sameIgnoringCase_of_fits prepared.fits
  · exact .inl (by rw [himports, hasImport_importRun]; exact hhas)

/-- A local name is the imported class exactly if no other class claims it, be it imported or
    declared. -/
theorem denotes_merge_iff (h : (merge rules t set).applied = true)
    (hmem : .importName i ∈ set.changes) :
    Denotes (merge rules t set).tree i ↔
      (∀ j ∈ finalClaimants t set i, Text.sameIgnoringCase j.name i.name = true) ∧
        DeclaredRespects t set i := by
  obtain ⟨p, k, c, prepared, himports, hspace, hdeclares⟩ := exists_prepared h
  constructor
  · intro hdenotes
    refine ⟨fun j hj => ?_, (forall_declares_iff prepared).1 ?_⟩
    · obtain ⟨hjmem, hlocal⟩ := mem_importRun_iff.2 hj
      exact hdenotes.imports j (himports ▸ hjmem) hlocal
    · rw [← hdeclares, ← hspace]
      exact hdenotes.declared
  · rintro ⟨hsame, hdeclared⟩
    refine ⟨reachable_merge h ?_, fun j hjmem hlocal => ?_, ?_⟩
    · cases hown : isOwnImport set i with
      | true => exact .inl rfl
      | false =>
        obtain ⟨j, hj⟩ := exists_claimant t hmem hown
        exact .inr ⟨j, hj, hsame j hj⟩
    · exact hsame j (mem_importRun_iff.1 ⟨himports ▸ hjmem, hlocal⟩)
    · rw [hdeclares, hspace]
      exact (forall_declares_iff prepared).2 hdeclared

/-- What becomes of an import at a place of a change set. -/
structure ImportOutcome (rules : MergeRules) (t : SourceTree) (set : ChangeSet) (i : Import)
    (n : Nat) : Prop where
  /-- It leaves an issue exactly if it is not of the namespace of the class and only other classes
      claim its local name. -/
  issue : (∃ existing,
      (n, .importConflict set.target.name i.name existing) ∈ failures rules t set) ↔
    isOwnImport set i = false ∧
      ∀ j ∈ finalClaimants t set i, Text.sameIgnoringCase j.name i.name = false
  /-- Without an issue the file imports the class or has its namespace. -/
  reachable : (∃ existing,
      (n, .importConflict set.target.name i.name existing) ∈ failures rules t set) ∨
    Reachable (merge rules t set).tree i
  /-- Its local name is the class exactly if no other class claims it. -/
  denotes : Denotes (merge rules t set).tree i ↔
    (∀ j ∈ finalClaimants t set i, Text.sameIgnoringCase j.name i.name = true) ∧
      DeclaredRespects t set i

/-- What becomes of an import of a merge that is applied; the issues are those of the merge. -/
theorem merge_importName (h : (merge rules t set).applied = true)
    (hmem : (.importName i, n) ∈ set.changes.zipIdx) :
    (failures rules t set).map Prod.snd = (merge rules t set).issues ∧
      ImportOutcome rules t set i n := by
  have hchange : .importName i ∈ set.changes := by
    have := List.mem_map_of_mem (f := Prod.fst) hmem
    rwa [List.zipIdx_map_fst] at this
  have hissue : (∃ existing,
      (n, .importConflict set.target.name i.name existing) ∈ failures rules t set) ↔
      isOwnImport set i = false ∧
        ∀ j ∈ finalClaimants t set i, Text.sameIgnoringCase j.name i.name = false := by
    rw [← importInto_importRun hchange]
    exact exists_congr fun existing => mem_failures_iff h hmem _
  refine ⟨map_snd_failures h, hissue, ?_, denotes_merge_iff h hchange⟩
  rw [hissue, or_iff_not_imp_left]
  intro hmade
  refine reachable_merge h ?_
  cases hown : isOwnImport set i with
  | true => exact .inl rfl
  | false => exact .inr (by simpa [hown] using hmade)

end Merge

/-- A file that imports another `Message`. -/
def shadowedFile : SourceTree :=
  { SourceTree.empty with
    namespaceName := some "App"
    imports := [.ofClass "Other\\Message"]
    items := [.classItem (.named "Foo")] }

/-- An import of the namespace of the class. -/
def shadowedSet : ChangeSet :=
  ⟨"App", .finalClass "Foo", [.importName (.ofClass "App\\Message")]⟩

theorem merge_importName_shadowedSet :
    (merge ⟨.preserve, false⟩ shadowedFile shadowedSet).applied = true ∧
      (.importName (.ofClass "App\\Message"), 0) ∈ shadowedSet.changes.zipIdx ∧
      (failures ⟨.preserve, false⟩ shadowedFile shadowedSet).map Prod.snd =
        (merge ⟨.preserve, false⟩ shadowedFile shadowedSet).issues ∧
      ImportOutcome ⟨.preserve, false⟩ shadowedFile shadowedSet (.ofClass "App\\Message") 0 :=
  have h : (merge ⟨.preserve, false⟩ shadowedFile shadowedSet).applied = true := by decide
  have hmem : (.importName (.ofClass "App\\Message"), 0) ∈ shadowedSet.changes.zipIdx := by decide
  ⟨h, hmem, merge_importName h hmem⟩

/-- An import that leaves no issue although its local name is another class. -/
theorem merge_importName_shadowed :
    (merge ⟨.preserve, false⟩ shadowedFile shadowedSet).applied = true ∧
      (merge ⟨.preserve, false⟩ shadowedFile shadowedSet).issues = [] ∧
      .importName (.ofClass "App\\Message") ∈ shadowedSet.changes ∧
      ¬ Denotes (merge ⟨.preserve, false⟩ shadowedFile shadowedSet).tree
        (.ofClass "App\\Message") := by
  refine ⟨by decide, by decide, by decide, fun h => ?_⟩
  have hother := h.imports (.ofClass "Other\\Message") (by decide) (by decide +kernel)
  exact absurd hother (by decide +kernel)

end DomainScaffold.Merge
