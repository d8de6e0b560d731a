import DomainScaffold.Proofs.Merge.Distinct
import DomainScaffold.Proofs.Merge.Replacement
import DomainScaffold.Proofs.Php.LineBreaks

/-!
# Promoted parameters

A class declares a property by a property declaration or by a parameter of its constructor. Edits
look for a property among the declarations only, so a change for a promoted parameter declares it a
second time.

Results:
* `count_propertyNames_apply`: an edit declares a property that no declaration has, and once.
* `promotedIn_apply`: an edit under the policy that preserves leaves the promoted parameters.
* `merge_declaredOnce_iff`: when a merge keeps that each property is declared once.
* `promoted_declaredTwice`: a promoted parameter that a merge declares a second time.
-/

namespace DomainScaffold.Merge

open Php

/-! ## Properties of a class -/

/-- The properties that the parameters of a method declare. Only a constructor declares any. -/
def promotedBy (d : MethodDecl) : List String :=
  if Text.sameIgnoringCase d.name "__construct" then
    (d.params.filter fun p => p.promotion.isSome).map Param.name
  else []

/-- The properties that a member declares by parameters. -/
def promotedOf : MemberKind → List String
  | .method d => promotedBy d
  | _ => []

/-- The properties that members declare by parameters. -/
def promotedIn (ms : List Member) : List String := ms.flatMap fun m => promotedOf m.kind

/-- The properties of a class, as often as they are declared: by property declarations and by
    parameters of the constructor. -/
def declaredProperties (c : ClassDecl) : List String := c.propertyNames ++ promotedIn c.members

/-- The properties that a change is for. -/
def propertiesNamed : Change → List String
  | .property decl => decl.entries.map Prod.fst
  | _ => []

/-- A change that adds no method with promoted parameters to a class: its methods have none, or they
    are not added because the class has them. -/
def AddsNoPromotion (ms : List Member) : Change → Prop
  | .method d => promotedBy d = [] ∨ ms.any (Slot.method d.name).inMember = true
  | .methodGroup ds => (∀ d ∈ ds, promotedBy d = []) ∨
      ds.any (fun d => ms.any (Slot.method d.name).inMember) = true
  | _ => True

instance (ms : List Member) : DecidablePred (AddsNoPromotion ms)
  | .method _ | .methodGroup _ => inferInstanceAs (Decidable (_ ∨ _))
  | .importName _ | .interface _ | .traitUse _ | .constant _ | .property _ | .statements ..
  | .mapEntry .. => inferInstanceAs (Decidable True)

theorem AddsNoPromotion.mono {ms ns : List Member} {ch : Change} (h : AddsNoPromotion ms ch)
    (hany : ∀ s : Slot, ms.any s.inMember = true → ns.any s.inMember = true) :
    AddsNoPromotion ns ch := by
  cases ch with
  | method d => exact h.imp_right (hany (.method d.name))
  | methodGroup ds =>
    refine h.imp_right fun hd => ?_
    obtain ⟨d, hd, hin⟩ := List.any_eq_true.1 hd
    exact List.any_eq_true.2 ⟨d, hd, hany (.method d.name) hin⟩
  | _ => trivial

/-! ## Property declarations -/

/-- The names of the properties that members declare. -/
def propertiesIn (ms : List Member) : List String := declaredNames .asWritten .property ms

theorem propertiesIn_append (ms ns : List Member) :
    propertiesIn (ms ++ ns) = propertiesIn ms ++ propertiesIn ns := by
  simp only [propertiesIn, declaredNames, outlines, List.map_append, List.flatMap_append]

/-- The properties that an edit is for. -/
def editProperties : MemberEdit → List String
  | .declare u => namesOf .asWritten .property u.slot.outline
  | _ => []

theorem flatMap_editProperties (className : String) (policy : MergePolicy) (ch : Change) :
    (memberEdits className policy ch).flatMap editProperties = propertiesNamed ch := by
  cases ch with
  | property decl =>
    rw [memberEdits, List.flatMap_map, propertiesNamed,
      ← List.flatMap_singleton' (decl.entries.map _), List.flatMap_map]
    rfl
  | constant decl => simp [memberEdits, propertiesNamed, List.flatMap_map, editProperties,
      Upsert.ofConstant, Slot.outline, namesOf]
  | _ => rfl

theorem outline_fresh {policy : MergePolicy} {u : Upsert} (hu : Declaring policy u) :
    outlineOf u.fresh = u.slot.outline := by
  cases hu <;> rfl

theorem propertiesIn_of_outlines {ms ns : List Member} (h : outlines ns = outlines ms) :
    propertiesIn ns = propertiesIn ms := by
  rw [propertiesIn, declaredNames, h]
  rfl

/-- A property that an edit finds is declared. -/
theorem mem_propertiesIn {s : Slot} {ms : List Member} (h : ms.any s.inMember = true)
    {name : String} (hname : name ∈ namesOf .asWritten .property s.outline) :
    name ∈ propertiesIn ms := by
  cases s with
  | property n =>
    obtain rfl := List.mem_singleton.1 hname
    rw [Slot.any_inMember] at h
    obtain ⟨o, ho, hfits⟩ := List.any_eq_true.1 h
    refine List.mem_flatMap.2 ⟨o, ho, ?_⟩
    cases o with
    | properties names => exact List.contains_iff_mem.1 hfits
    | _ => cases hfits
  | _ => cases hname

theorem count_propertiesIn_declare {policy : MergePolicy} {u : Upsert} (hu : Declaring policy u)
    (ms : List Member) (name : String) :
    (propertiesIn (u.apply ms)).count name =
      max ((propertiesIn ms).count name)
        (if name ∈ namesOf .asWritten .property u.slot.outline then 1 else 0) := by
  by_cases hany : ms.any u.slot.inMember = true
  · rw [propertiesIn_of_outlines (Upsert.outlines_apply_of_any hany)]
    split
    · rename_i hname
      have := List.count_pos_iff.2 (mem_propertiesIn hany hname)
      omega
    · rw [Nat.max_zero]
  · rw [Bool.not_eq_true] at hany
    have hperm : (propertiesIn (u.apply ms)).Perm
        (namesOf .asWritten .property u.slot.outline ++ propertiesIn ms) := by
      rw [Upsert.apply_of_not_any hany, ← outline_fresh hu]
      exact ((List.perm_insertIdx _ _ (u.place_le ms)).map _).flatMap_right _
    rw [hperm.count_eq, List.count_append]
    split
    · rename_i hname
      -- The name is not declared, or the edit would have found it.
      have hnone : name ∉ propertiesIn ms := fun hmem => by
        obtain ⟨o, ho, hmem⟩ := List.mem_flatMap.1 hmem
        rw [Slot.any_inMember, List.any_eq_false] at hany
        exact Slot.disjoint_names (Bool.not_eq_true _ ▸ hany o ho) .property hname hmem
      rw [List.count_eq_one_of_mem (u.slot.nodup_names .asWritten .property) hname,
        List.count_eq_zero_of_not_mem hnone]
      rfl
    · rename_i hname
      rw [List.count_eq_zero_of_not_mem hname, Nat.zero_add, Nat.max_zero]

/-- An edit declares its property if no declaration does, and leaves all others as they are. -/
theorem count_propertiesIn_apply {className : String} {policy : MergePolicy} {ch : Change}
    {e : MemberEdit} (he : e ∈ memberEdits className policy ch) (ms : List Member) (name : String) :
    (propertiesIn (e.apply ms)).count name =
      max ((propertiesIn ms).count name) (if name ∈ editProperties e then 1 else 0) := by
  cases e with
  | declare u => exact count_propertiesIn_declare (declaring_of_mem he) ms name
  | group ds =>
    have hnone : propertiesIn (ds.map fun d => .ofKind (.method d)) = [] := by
      simp [propertiesIn, declaredNames, outlines, Member.ofKind, outlineOf, namesOf,
        List.flatMap_map]
    rw [MemberEdit.apply]
    split
    · simp [editProperties]
    · rw [propertiesIn_append, hnone, List.append_nil]
      simp [editProperties]
  | body method f =>
    have hout : outlines ((MemberEdit.body method f).apply ms) = outlines ms :=
      map_editFirst (fun m _ => by rw [kind_rewrite, outline_bodyWritten]) ms
    rw [propertiesIn_of_outlines hout]
    simp [editProperties]

/-- Edits in a row declare the properties that they are for and that no declaration has, once. -/
theorem count_propertiesIn_makeEdits {es : List MemberEdit}
    (h : ∀ e ∈ es, ∀ ms name, (propertiesIn (e.apply ms)).count name =
      max ((propertiesIn ms).count name) (if name ∈ editProperties e then 1 else 0))
    (ms : List Member) (name : String) :
    (propertiesIn (makeEdits es ms)).count name =
      max ((propertiesIn ms).count name) (if name ∈ es.flatMap editProperties then 1 else 0) := by
  induction es generalizing ms with
  | nil => simp [makeEdits]
  | cons e es ih =>
    have hrest := ih (fun e he => h e (List.mem_cons_of_mem _ he)) (e.apply ms)
    rw [h e (by simp)] at hrest
    refine hrest.trans ?_
    by_cases he : name ∈ editProperties e <;> by_cases hes : name ∈ es.flatMap editProperties <;>
      simp [he, hes, List.flatMap_cons, Nat.max_assoc]

/-! ## Parameters -/

theorem promotedIn_editFirst {p : Member → Bool} {f : MemberKind → MemberKind}
    (hf : ∀ k, promotedOf (f k) = promotedOf k) (ms : List Member) :
    promotedIn (editFirst p (rewrite f) ms) = promotedIn ms := by
  have hmap : (editFirst p (rewrite f) ms).map (fun m => promotedOf m.kind) =
      ms.map fun m => promotedOf m.kind :=
    map_editFirst (fun m _ => by rw [kind_rewrite, hf]) ms
  rw [promotedIn, promotedIn, List.flatMap_def, List.flatMap_def, hmap]

/-- An edit that adds no method with promoted parameters leaves the promoted parameters as they
    are. -/
theorem promotedIn_apply {className : String} {ch : Change} {e : MemberEdit}
    (he : e ∈ memberEdits className .preserve ch) {ms : List Member} (hch : AddsNoPromotion ms ch) :
    (promotedIn (e.apply ms)).Perm (promotedIn ms) := by
  have declare {u : Upsert} (hwrite : u.write = id)
      (hfresh : promotedOf u.fresh = [] ∨ ms.any u.slot.inMember = true) :
      (promotedIn (u.apply ms)).Perm (promotedIn ms) := by
    by_cases hany : ms.any u.slot.inMember = true
    · rw [Upsert.apply_of_any hany, promotedIn_editFirst fun k => by rw [hwrite, id]]
    · have hnone := hfresh.resolve_right hany
      rw [Upsert.apply_of_not_any (by simpa using hany)]
      have hperm : (promotedIn (ms.insertIdx (u.place ms) (.ofKind u.fresh))).Perm
          (promotedOf u.fresh ++ promotedIn ms) :=
        (List.perm_insertIdx _ _ (u.place_le ms)).flatMap_right _
      rwa [hnone, List.nil_append] at hperm
  cases ch with
  | importName _ | interface _ => cases he
  | traitUse name =>
    obtain rfl := List.mem_singleton.1 he
    exact declare rfl (.inl rfl)
  | constant decl =>
    obtain ⟨entry, -, rfl⟩ := List.mem_map.1 he
    exact declare rfl (.inl rfl)
  | property decl =>
    obtain ⟨entry, -, rfl⟩ := List.mem_map.1 he
    exact declare rfl (.inl rfl)
  | method d =>
    obtain rfl := List.mem_singleton.1 he
    exact declare rfl hch
  | methodGroup ds =>
    obtain rfl := List.mem_singleton.1 he
    rw [MemberEdit.apply]
    split
    · exact .refl _
    · rename_i hfree
      have hnone := hch.resolve_right hfree
      have hds : (ds.map fun d => Member.ofKind (.method d)).flatMap
          (fun m => promotedOf m.kind) = [] := by
        rw [List.flatMap_map]
        exact List.flatMap_eq_nil_iff.2 hnone
      rw [promotedIn, List.flatMap_append, hds, List.append_nil, ← promotedIn]
  | statements method ss =>
    obtain rfl := List.mem_singleton.1 he
    exact .of_eq (promotedIn_editFirst (fun k => by cases k <;> rfl) ms)
  | mapEntry method key value =>
    obtain rfl := List.mem_singleton.1 he
    exact .of_eq (promotedIn_editFirst (fun k => by cases k <;> rfl) ms)

theorem promotedIn_makeEdits {className : String} {es : List MemberEdit} {ms : List Member}
    (h : ∀ e ∈ es, ∃ ch, e ∈ memberEdits className .preserve ch ∧ AddsNoPromotion ms ch) :
    (promotedIn (makeEdits es ms)).Perm (promotedIn ms) := by
  induction es generalizing ms with
  | nil => exact .refl _
  | cons e es ih =>
    obtain ⟨ch, he, hch⟩ := h e (by simp)
    refine (ih fun e' he' => ?_).trans (promotedIn_apply he hch)
    -- What the class has it still has, so what was not added before is not added now.
    obtain ⟨ch', he', hch'⟩ := h e' (List.mem_cons_of_mem _ he')
    exact ⟨ch', he', hch'.mono fun s hs => any_apply e hs⟩

/-! ## Merges -/

section Merge

variable {t : SourceTree} {set : ChangeSet} {strictTypes : Bool}

theorem mem_propertiesNamed_ordered {changes : List Change} {name : String} :
    name ∈ (ordered changes).flatMap propertiesNamed ↔
      ∃ ch ∈ changes, name ∈ propertiesNamed ch := by
  rw [List.mem_flatMap]
  refine ⟨fun ⟨ch, hch, hname⟩ => ⟨ch, mem_of_mem_ordered hch, hname⟩,
    fun ⟨ch, hch, hname⟩ => ⟨ch, mem_ordered_of_pass hch fun himports => ?_, hname⟩⟩
  cases ch <;> cases himports
  cases hname

/-- How often changes leave a property declared in a class. -/
theorem count_declaredProperties_classRun (c : ClassDecl)
    (hnone : ∀ ch ∈ set.changes, AddsNoPromotion c.members ch) (name : String) :
    (declaredProperties (classRun .preserve set c).1.value).count name =
      max (c.propertyNames.count name)
        (if ∃ ch ∈ set.changes, name ∈ propertiesNamed ch then 1 else 0) +
      (promotedIn c.members).count name := by
  have hmem {e : MemberEdit}
      (he : e ∈ (ordered set.changes).flatMap (memberEdits c.name .preserve)) :
      ∃ ch ∈ set.changes, e ∈ memberEdits c.name .preserve ch := by
    obtain ⟨ch, hch, he⟩ := List.mem_flatMap.1 he
    exact ⟨ch, mem_of_mem_ordered hch, he⟩
  have hprops := count_propertiesIn_makeEdits (fun e he ms name => by
    obtain ⟨ch, -, he⟩ := hmem he
    exact count_propertiesIn_apply he ms name) c.members name
  have hpromoted := promotedIn_makeEdits fun e he => by
    obtain ⟨ch, hch, he⟩ := hmem he
    exact ⟨ch, he, hnone ch hch⟩
  rw [List.flatMap_assoc] at hprops
  simp only [flatMap_editProperties, mem_propertiesNamed_ordered] at hprops
  rw [declaredProperties, List.count_append, classRun, makeAll_editOf_value,
    propertyNames_eq .asWritten, propertyNames_eq .asWritten]
  exact congrArg₂ (· + ·) hprops (hpromoted.count_eq name)

/-- A merge under the policy that preserves declares the properties that it is for. Each property of
    the class is still declared once exactly if none of those is a promoted parameter. -/
theorem merge_declaredOnce_iff (h : (merge ⟨.preserve, strictTypes⟩ t set).applied = true)
    (honce : (declaredProperties (classBefore t set.target)).Nodup)
    (hnone : ∀ ch ∈ set.changes, AddsNoPromotion (classBefore t set.target).members ch) :
    ∃ d, (merge ⟨.preserve, strictTypes⟩ t set).tree.classNamed? set.target.name = some d ∧
      (∀ name, name ∈ declaredProperties d ↔ name ∈ declaredProperties (classBefore t set.target) ∨
        ∃ ch ∈ set.changes, name ∈ propertiesNamed ch) ∧
      ((declaredProperties d).Nodup ↔ ∀ ch ∈ set.changes, ∀ name ∈ propertiesNamed ch,
        name ∉ promotedIn (classBefore t set.target).members) := by
  refine ⟨_, merge_classNamed? h, fun name => ?_, ?_⟩
  · have hcount := count_declaredProperties_classRun _ hnone name
    rw [← List.count_pos_iff, hcount, ← List.count_pos_iff (a := name), declaredProperties,
      List.count_append]
    split
    · rename_i hnamed
      simp only [hnamed, or_true, iff_true]
      omega
    · rename_i hnamed
      simp only [hnamed, or_false, Nat.max_zero]
  · rw [List.nodup_iff_count_le_one]
    simp only [count_declaredProperties_classRun _ hnone]
    rw [List.nodup_iff_count_le_one] at honce
    simp only [declaredProperties, List.count_append] at honce
    constructor
    · intro hle ch hch name hname hpromoted
      have hle := hle name
      rw [if_pos ⟨ch, hch, hname⟩] at hle
      have := List.count_pos_iff.2 hpromoted
      omega
    · intro hfree name
      have honce := honce name
      split
      · rename_i hnamed
        obtain ⟨ch, hch, hname⟩ := hnamed
        rw [List.count_eq_zero_of_not_mem (hfree ch hch name hname)]
        omega
      · rwa [Nat.max_zero]

end Merge

/-- A class whose constructor declares a property. -/
def promotedText : String :=
  "<?php\nclass A \x7b\n    public function __construct(private string $name)\n" ++
    "    \x7b\n    \x7d\n\x7d\n"

/-- The file that the text is read as. -/
def promotedFile : SourceTree :=
  { SourceTree.empty with
    items := [.classItem { ClassDecl.named "A" with
      members := [⟨.method ⟨[], some .pub, false, false, false, false, "__construct",
          [⟨[], some "private", some "string", false, false, "name", none⟩], none, some []⟩,
        some ⟨"public function __construct(private string $name)\n\x7b\n\x7d", false⟩, none⟩] }] }

/-- A private property for the class. -/
def privateSet (name : String) : ChangeSet :=
  ⟨"", ⟨"A", [], none⟩,
    [.property ⟨some .priv, false, false, some "string", [(name, none)]⟩]⟩

theorem merge_declaredOnce_iff_privateSet :
    (merge ⟨.preserve, false⟩ promotedFile (privateSet "id")).applied = true ∧
      (declaredProperties (classBefore promotedFile (privateSet "id").target)).Nodup ∧
      (∀ ch ∈ (privateSet "id").changes,
        AddsNoPromotion (classBefore promotedFile (privateSet "id").target).members ch) ∧
      ∃ d, (merge ⟨.preserve, false⟩ promotedFile (privateSet "id")).tree.classNamed? "A" = some d ∧
        "id" ∈ declaredProperties d ∧ (declaredProperties d).Nodup := by
  have h : (merge ⟨.preserve, false⟩ promotedFile (privateSet "id")).applied = true := by
    decide +kernel
  have honce : (declaredProperties (classBefore promotedFile (privateSet "id").target)).Nodup := by
    decide +kernel
  have hnone : ∀ ch ∈ (privateSet "id").changes,
      AddsNoPromotion (classBefore promotedFile (privateSet "id").target).members ch := by
    decide +kernel
  obtain ⟨d, hd, hmem, hiff⟩ := merge_declaredOnce_iff h honce hnone
  refine ⟨h, honce, hnone, d, hd, (hmem "id").2 (.inr ?_), hiff.2 ?_⟩ <;> decide +kernel

/-- A property that is declared once is declared twice after a merge that reports nothing, although
    the merge is for a property with this name only once and adds no method. -/
theorem promoted_declaredTwice :
    SourceTree.ofText promotedText "src/A.php" = .ok promotedFile ∧
      (merge ⟨.preserve, false⟩ promotedFile (privateSet "name")).applied = true ∧
      (merge ⟨.preserve, false⟩ promotedFile (privateSet "name")).issues = [] ∧
      (promotedFile.classNamed? "A").map declaredProperties = some ["name"] ∧
      (privateSet "name").changes.flatMap propertiesNamed = ["name"] ∧
      (∀ ch ∈ (privateSet "name").changes,
        AddsNoPromotion (classBefore promotedFile (privateSet "name").target).members ch) ∧
      ((merge ⟨.preserve, false⟩ promotedFile (privateSet "name")).tree.classNamed? "A").map
        declaredProperties = some ["name", "name"] := by
  refine ⟨ofText_eq_ok (by decide +kernel) (by decide +kernel) (by decide +kernel) "src/A.php",
    ?_, ?_, ?_, ?_, ?_, ?_⟩ <;> decide +kernel

end DomainScaffold.Merge
