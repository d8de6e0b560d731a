import Mathlib.Data.List.Nodup
import Mathlib.Tactic.MkIffOfInductiveProp
import DomainScaffold.Proofs.Merge.Idempotence

/-!
# Nothing twice

A file in which nothing is declared twice stays such a file, whatever is merged into it. Each kind
of thing has its own notion of being the same: local names of imports, names of members, short
names of interfaces and traits, what a call is known by, and the printed key of an entry.

Results:
* `MembersDistinct.cons`: a member may be added if no other one has its name.
* `membersDistinct_apply`: what an edit of the members keeps.
* `treeDistinct_merge`: what a merge keeps.
* `mergeAll_distinct`: what merges in a row keep.
-/

namespace DomainScaffold.Merge

open Php Text

/-! ## Files without duplicates -/

/-- How the short names of interfaces and traits are told apart. -/
inductive Spelling where
  | asWritten
  | anyCase
  deriving DecidableEq, Repr

/-- What is compared of the name of an interface or trait. -/
def Spelling.key (s : Spelling) (name : String) : String :=
  match s with
  | .asWritten => shortName name
  | .anyCase => foldAscii (shortName name)

theorem Spelling.sameClassName_of_key_eq {s : Spelling} {a b : String} (h : s.key a = s.key b) :
    sameClassName a b = true := by
  cases s with
  | asWritten =>
    rw [sameClassName, show shortName a = shortName b from h]
    exact sameIgnoringCase_refl _
  | anyCase => exact beq_iff_eq.2 h

/-- The items of the array that a body returns last. -/
def returnedItems (body : List Statement) : List (Option Expr × Expr) :=
  match lastReturn? body with
  | some (.ret (some (.array items))) => items
  | _ => []

/-- The keys of array items as they are printed. -/
def printedKeys (items : List (Option Expr × Expr)) : List String :=
  items.filterMap fun item => item.1.map Printer.expr

/-- A body that does not make a call twice and does not return a key twice. -/
@[mk_iff]
structure BodyDistinct (body : List Statement) : Prop where
  identities : (body.filterMap statementIdentity?).Nodup
  keys : (printedKeys (returnedItems body)).Nodup

/-- A method whose body is such a body. -/
def MethodDistinct (d : MethodDecl) : Prop := ∀ body ∈ d.body, BodyDistinct body

instance (body : List Statement) : Decidable (BodyDistinct body) :=
  decidable_of_iff _ (bodyDistinct_iff body).symm

instance (d : MethodDecl) : Decidable (MethodDistinct d) :=
  inferInstanceAs (Decidable (∀ body ∈ d.body, BodyDistinct body))

/-- A class that declares nothing twice. -/
@[mk_iff classDistinct_iff_fields]
structure ClassDistinct (s : Spelling) (c : ClassDecl) : Prop where
  methods : (c.methods.map fun d => foldAscii d.name).Nodup
  constants : c.constantNames.Nodup
  properties : c.propertyNames.Nodup
  interfaces : (c.interfaces.map s.key).Nodup
  traits : (c.traitNames.map s.key).Nodup
  bodies : ∀ d ∈ c.methods, MethodDistinct d

instance (s : Spelling) (c : ClassDecl) : Decidable (ClassDistinct s c) :=
  decidable_of_iff _ (classDistinct_iff_fields s c).symm

/-- A file that declares at most one class-like, imports no local name twice and has a class that
    declares nothing twice. -/
@[mk_iff]
structure TreeDistinct (s : Spelling) (t : SourceTree) : Prop where
  declares : (t.items.filterMap Item.declares?).length ≤ 1
  imports : (t.imports.map fun i => (i.kind, foldAscii i.localName)).Nodup
  classes : ∀ c ∈ t.classes, ClassDistinct s c

instance (s : Spelling) (t : SourceTree) : Decidable (TreeDistinct s t) :=
  decidable_of_iff _ (treeDistinct_iff s t).symm

/-- A change whose methods have bodies without duplicates and, in a group, different names, and
    whose statements are known by a call. -/
def BringsDistinct : Change → Prop
  | .method d => MethodDistinct d
  | .methodGroup ds => (ds.map fun d => foldAscii d.name).Nodup ∧ ∀ d ∈ ds, MethodDistinct d
  | .statements _ ss => ∀ s ∈ ss, Registers s
  | _ => True

instance : DecidablePred BringsDistinct
  | .method d => inferInstanceAs (Decidable (MethodDistinct d))
  | .methodGroup _ => inferInstanceAs (Decidable (_ ∧ _))
  | .statements _ ss => inferInstanceAs (Decidable (∀ s ∈ ss, Registers s))
  | .importName _ | .interface _ | .traitUse _ | .constant _ | .property _ | .mapEntry .. =>
    inferInstanceAs (Decidable True)

/-! ## Bodies -/

theorem returnedItems_of_last {before after : List Statement} {s : Statement}
    {items : List (Option Expr × Expr)} (hs : s.kind = .ret (some (.array items)))
    (ha : NoReturn after) : returnedItems (before ++ s :: after) = items := by
  rw [returnedItems, lastReturn?_of_last (by simp [isReturn, hs]) ha, hs]

theorem bodyDistinct_injected {s : Statement} (hs : Registers s) {body : List Statement}
    (h : BodyDistinct body) : BodyDistinct (injected s body).value := by
  by_cases hp : isPresent body s = true
  · rwa [injected_of_present hp]
  · rw [Bool.not_eq_true] at hp
    rw [injected_of_not_present hp]
    obtain ⟨i, hi⟩ := Option.isSome_iff_exists.1 hs
    rw [isPresent_of_identity hi, List.any_eq_false] at hp
    have hreturn : NoReturn [s] := fun t ht => by
      rw [List.mem_singleton.1 ht, not_isReturn_of_registers hs]
    constructor
    · have hnew : i ∉ body.filterMap statementIdentity? := fun hmem => by
        obtain ⟨t, ht, hti⟩ := List.mem_filterMap.1 hmem
        exact hp t ht (by simp [hti])
      rw [Edited.replaced, List.filterMap_append, List.filterMap_cons_some hi, List.filterMap_nil]
      refine List.nodup_append.2 ⟨h.identities, by simp, fun a ha b hb => ?_⟩
      rintro rfl
      exact hnew (List.mem_singleton.1 hb ▸ ha)
    · rw [Edited.replaced, returnedItems, lastReturn?_append hreturn]
      exact h.keys

theorem bodyDistinct_foldl_injected {ss : List Statement} (hss : ∀ s ∈ ss, Registers s)
    {body : List Statement} (h : BodyDistinct body) :
    BodyDistinct (Edited.foldl injected body ss).value := by
  induction ss generalizing body with
  | nil => exact h
  | cons s ss ih =>
    exact ih (fun t ht => hss t (List.mem_cons_of_mem _ ht))
      (bodyDistinct_injected (hss s (by simp)) h)

theorem bodyDistinct_injectEntry (noMap : GenerationError) (key value : Expr)
    {body : List Statement} (h : BodyDistinct body) :
    BodyDistinct (afterEdit body (injectEntry noMap key value body)) := by
  have step := entryStep noMap key value body
  generalize injectEntry noMap key value body = o at step
  cases step with
  | opened _ =>
    constructor
    · have hnone : statementIdentity? (.ofReturn (.array [(some key, value)])) = none := rfl
      simpa [afterEdit, Edited.replaced, List.filterMap_append, hnone] using h.identities
    · rw [afterEdit, Edited.replaced, if_pos rfl, returnedItems_of_last rfl fun _ ht => by cases ht]
      simp [printedKeys]
  | @added before s after items hs ha hk =>
    constructor
    · have hnone : statementIdentity? s = none := by rw [statementIdentity?, hs]
      have := h.identities
      rw [List.filterMap_append, List.filterMap_cons_none hnone] at this
      rw [afterEdit, Edited.replaced, if_pos rfl, List.filterMap_append,
        List.filterMap_cons_none rfl]
      exact this
    · have hkeys := h.keys
      rw [returnedItems_of_last hs ha] at hkeys
      rw [afterEdit, Edited.replaced, if_pos rfl, returnedItems_of_last rfl ha, printedKeys,
        List.filterMap_append, ← printedKeys]
      refine List.nodup_append.2 ⟨hkeys, by simp, fun a hmem b hb => ?_⟩
      rintro rfl
      obtain ⟨item, hitem, hprint⟩ := List.mem_filterMap.1 hmem
      obtain rfl : a = Printer.expr key := by simpa using hb
      exact List.any_eq_false.1 hk item hitem (by simp [hprint])
  | there _ _ => exact h
  | refused _ => exact h

/-! ## Names of members -/

/-- The kinds of names that members declare. -/
inductive NameKind where
  | trait
  | constant
  | property
  | method

/-- The names of a kind among declared ones. -/
def namesOf (s : Spelling) : NameKind → Outline → List String
  | .trait, .traits names => names.map s.key
  | .constant, .constants names => names
  | .property, .properties names => names
  | .method, .method name => [name]
  | _, _ => []

/-- The names of a kind that members declare. -/
def declaredNames (s : Spelling) (kind : NameKind) (ms : List Member) : List String :=
  (outlines ms).flatMap (namesOf s kind)

/-- What a member declares that only declares one name. -/
def Slot.outline : Slot → Outline
  | .trait name => .traits [name]
  | .constant name => .constants [name]
  | .property name => .properties [name]
  | .method name => .method (foldAscii name)

theorem Slot.nodup_names (s : Spelling) (kind : NameKind) (slot : Slot) :
    (namesOf s kind slot.outline).Nodup := by
  cases slot <;> cases kind <;> simp [Slot.outline, namesOf]

/-- A name that does not fit what is declared is none of the declared names. -/
theorem Slot.disjoint_names {s : Spelling} {slot : Slot} {o : Outline} (h : slot.fits o = false)
    (kind : NameKind) : (namesOf s kind slot.outline).Disjoint (namesOf s kind o) := by
  intro n hslot ho
  cases slot with
  | trait name =>
    cases kind <;> cases o <;> simp [Slot.outline, namesOf] at hslot ho
    obtain ⟨t, ht, hkey⟩ := ho
    rw [hslot] at hkey
    exact List.any_eq_false.1 h t ht (Spelling.sameClassName_of_key_eq hkey)
  | constant name =>
    cases kind <;> cases o <;> simp [Slot.outline, namesOf] at hslot ho
    subst hslot
    simp [Slot.fits, ho] at h
  | property name =>
    cases kind <;> cases o <;> simp [Slot.outline, namesOf] at hslot ho
    subst hslot
    simp [Slot.fits, ho] at h
  | method name =>
    cases kind <;> cases o <;> simp [Slot.outline, namesOf] at hslot ho
    simp [Slot.fits, ← ho, hslot] at h

/-- What a member is, with a body without duplicates if it has one. -/
def KindDistinct (k : MemberKind) : Prop := ∀ body ∈ bodyOf? k, BodyDistinct body

/-- Members that declare no name twice and have bodies without duplicates. -/
structure MembersDistinct (s : Spelling) (ms : List Member) : Prop where
  names : ∀ kind, (declaredNames s kind ms).Nodup
  bodies : ∀ m ∈ ms, KindDistinct m.kind

section Names

variable {s : Spelling} {ms : List Member}

theorem methodNames_eq (s : Spelling) (c : ClassDecl) :
    (c.methods.map fun d => foldAscii d.name) = declaredNames s .method c.members := by
  rw [ClassDecl.methods, declaredNames, outlines, List.flatMap_map, List.map_filterMap,
    List.filterMap_eq_flatMap_toList]
  refine List.flatMap_congr fun m _ => ?_
  unfold Member.method?
  cases m.kind <;> rfl

theorem constantNames_eq (s : Spelling) (c : ClassDecl) :
    c.constantNames = declaredNames s .constant c.members := by
  rw [ClassDecl.constantNames, declaredNames, outlines, List.flatMap_map]
  refine List.flatMap_congr fun m _ => ?_
  unfold Member.constants
  cases m.kind <;> rfl

theorem propertyNames_eq (s : Spelling) (c : ClassDecl) :
    c.propertyNames = declaredNames s .property c.members := by
  rw [ClassDecl.propertyNames, declaredNames, outlines, List.flatMap_map]
  refine List.flatMap_congr fun m _ => ?_
  unfold Member.properties
  cases m.kind <;> rfl

theorem traitNames_eq (s : Spelling) (c : ClassDecl) :
    c.traitNames.map s.key = declaredNames s .trait c.members := by
  rw [ClassDecl.traitNames, declaredNames, outlines, List.flatMap_map, List.map_flatMap]
  refine List.flatMap_congr fun m _ => ?_
  unfold Member.traits
  cases m.kind <;> rfl

theorem bodies_iff {c : ClassDecl} :
    (∀ d ∈ c.methods, MethodDistinct d) ↔ ∀ m ∈ c.members, KindDistinct m.kind := by
  simp only [ClassDecl.methods, List.mem_filterMap, Member.method?]
  constructor
  · intro h m hm body hbody
    obtain ⟨d, hd, hb⟩ := kind_of_bodyOf? hbody
    exact h d ⟨m, hm, by rw [hd]⟩ body hb
  · rintro h d ⟨m, hm, hd⟩ body hbody
    refine h m hm body ?_
    cases hk : m.kind with
    | method e =>
      rw [hk, Option.some.injEq] at hd
      subst hd
      exact hbody
    | _ => rw [hk] at hd; cases hd

/-- A class declares nothing twice if neither its interfaces nor its members do. -/
theorem classDistinct_iff {c : ClassDecl} :
    ClassDistinct s c ↔ (c.interfaces.map s.key).Nodup ∧ MembersDistinct s c.members := by
  constructor
  · rintro ⟨hm, hc, hp, hi, ht, hb⟩
    refine ⟨hi, fun kind => ?_, bodies_iff.1 hb⟩
    cases kind with
    | trait => rwa [← traitNames_eq]
    | constant => rwa [← constantNames_eq]
    | property => rwa [← propertyNames_eq]
    | method => rwa [← methodNames_eq]
  · rintro ⟨hi, hn, hb⟩
    exact {
      methods := methodNames_eq s c ▸ hn .method
      constants := constantNames_eq s c ▸ hn .constant
      properties := propertyNames_eq s c ▸ hn .property
      interfaces := hi
      traits := traitNames_eq s c ▸ hn .trait
      bodies := bodies_iff.2 hb }

theorem MembersDistinct.perm {ns : List Member} (h : MembersDistinct s ms) (hp : ns.Perm ms) :
    MembersDistinct s ns where
  names kind := (List.Perm.nodup_iff ((hp.map _).flatMap_right _)).2 (h.names kind)
  bodies m hm := h.bodies m (hp.subset hm)

/-- A member may be added if no other one has its name. -/
theorem MembersDistinct.cons (h : MembersDistinct s ms) {slot : Slot} {k : MemberKind}
    (hk : outlineOf k = slot.outline) (hfree : ms.any slot.inMember = false)
    (hbody : KindDistinct k) : MembersDistinct s (.ofKind k :: ms) where
  names kind := by
    rw [declaredNames, outlines, List.map_cons, List.flatMap_cons, ← outlines]
    refine List.nodup_append.2 ⟨?_, h.names kind, fun a ha b hb => ?_⟩
    · exact hk ▸ slot.nodup_names s kind
    · rintro rfl
      obtain ⟨o, ho, hb⟩ := List.mem_flatMap.1 hb
      rw [Slot.any_inMember, List.any_eq_false] at hfree
      have ha : a ∈ namesOf s kind slot.outline := hk ▸ ha
      exact Slot.disjoint_names (Bool.not_eq_true _ ▸ hfree o ho) kind ha hb
  bodies m hm := by
    rcases List.mem_cons.1 hm with rfl | hm
    · exact hbody
    · exact h.bodies m hm

/-- Members may be rewritten in place if they keep their names. -/
theorem MembersDistinct.editFirst (h : MembersDistinct s ms) {p : Member → Bool}
    {f : MemberKind → MemberKind} (hout : ∀ m, p m = true → outlineOf (f m.kind) = outlineOf m.kind)
    (hf : ∀ k, KindDistinct k → KindDistinct (f k)) :
    MembersDistinct s (editFirst p (rewrite f) ms) where
  names kind := by
    have : outlines (Merge.editFirst p (rewrite f) ms) = outlines ms :=
      map_editFirst (fun m hm => by rw [kind_rewrite, hout m hm]) ms
    rw [declaredNames, this]
    exact h.names kind
  bodies m hm := by
    rcases mem_editFirst hm with hm | ⟨n, hn, -, rfl⟩
    · exact h.bodies m hm
    · rw [kind_rewrite]
      exact hf _ (h.bodies n hn)

end Names

/-! ## Edits of the members -/

/-- A declaring edit that declares its name only and leaves bodies without duplicates. -/
structure Orderly (u : Upsert) : Prop where
  outline : outlineOf u.fresh = u.slot.outline
  fresh : KindDistinct u.fresh
  write : ∀ k, KindDistinct k → KindDistinct (u.write k)

theorem kindDistinct_of_bodyless {k : MemberKind} (h : bodyOf? k = none) : KindDistinct k :=
  fun body hbody => by rw [h] at hbody; cases hbody

theorem kindDistinct_congr {k k' : MemberKind} (h : bodyOf? k' = bodyOf? k) :
    KindDistinct k → KindDistinct k' := fun hk body hbody => hk body (h ▸ hbody)

theorem orderly_ofTrait (name : String) : Orderly (.ofTrait name) :=
  ⟨rfl, kindDistinct_of_bodyless rfl, fun _ => id⟩

theorem orderly_ofConstant (policy : MergePolicy) (decl : ConstantDecl) (entry : String × Expr) :
    Orderly (.ofConstant policy decl entry) where
  outline := rfl
  fresh := kindDistinct_of_bodyless rfl
  write k := kindDistinct_congr (by cases policy <;> cases k <;> rfl)

theorem orderly_ofProperty (policy : MergePolicy) (decl : PropertyDecl)
    (entry : String × Option Expr) : Orderly (.ofProperty policy decl entry) where
  outline := rfl
  fresh := kindDistinct_of_bodyless rfl
  write k := kindDistinct_congr (by cases policy <;> cases k <;> rfl)

theorem orderly_ofMethod (policy : MergePolicy) {d : MethodDecl} (hd : MethodDistinct d) :
    Orderly (.ofMethod policy d) where
  outline := rfl
  fresh := hd
  write k hk := by
    cases policy with
    | preserve => exact hk
    | replace =>
      cases k with
      | method _ => exact hd
      | _ => exact hk

section Edits

variable {s : Spelling} {ms : List Member}

theorem membersDistinct_declare {u : Upsert} (hu : Orderly u) (h : MembersDistinct s ms) :
    MembersDistinct s (u.apply ms) := by
  by_cases hany : ms.any u.slot.inMember = true
  · rw [Upsert.apply_of_any hany]
    exact h.editFirst (fun m hm => u.outline_write _ hm) hu.write
  · rw [Bool.not_eq_true] at hany
    rw [Upsert.apply_of_not_any hany]
    exact (h.cons hu.outline hany hu.fresh).perm (List.perm_insertIdx _ _ (u.place_le ms))

theorem membersDistinct_append {ds : List MethodDecl}
    (hnames : (ds.map fun d => foldAscii d.name).Nodup) (hbodies : ∀ d ∈ ds, MethodDistinct d)
    (hfree : ∀ d ∈ ds, ms.any (Slot.method d.name).inMember = false)
    (h : MembersDistinct s ms) :
    MembersDistinct s (ms ++ ds.map fun d => .ofKind (.method d)) := by
  induction ds with
  | nil => simpa using h
  | cons d ds ih =>
    rw [List.map_cons, List.nodup_cons] at hnames
    have hrest := ih hnames.2 (fun e he => hbodies e (List.mem_cons_of_mem _ he))
      fun e he => hfree e (List.mem_cons_of_mem _ he)
    have hd : (ms ++ ds.map fun d => Member.ofKind (.method d)).any (Slot.method d.name).inMember =
        false := by
      rw [List.any_append, hfree d (by simp), Bool.false_or, List.any_eq_false]
      intro m hm hfit
      obtain ⟨e, he, rfl⟩ := List.mem_map.1 hm
      exact hnames.1 (List.mem_map.2 ⟨e, he, by
        simpa [Slot.inMember, Member.ofKind, outlineOf, Slot.fits] using hfit⟩)
    have hcons : MembersDistinct s
        (.ofKind (.method d) :: (ms ++ ds.map fun d => .ofKind (.method d))) :=
      hrest.cons rfl hd (hbodies d (by simp))
    exact hcons.perm List.perm_middle

/-- An edit for a change that brings no duplicates makes none. -/
theorem membersDistinct_apply {className : String} {policy : MergePolicy} {ch : Change}
    (hch : BringsDistinct ch) {e : MemberEdit} (he : e ∈ memberEdits className policy ch)
    (h : MembersDistinct s ms) : MembersDistinct s (e.apply ms) := by
  have body {method : String} {f : List Statement → List Statement}
      (hf : ∀ b, BodyDistinct b → BodyDistinct (f b)) :
      MembersDistinct s ((MemberEdit.body method f).apply ms) :=
    h.editFirst (fun m _ => outline_bodyWritten f m.kind) fun k hk b hb => by
      rw [bodyOf?_bodyWritten] at hb
      obtain ⟨b', hb', rfl⟩ := Option.map_eq_some_iff.1 hb
      exact hf b' (hk b' hb')
  cases ch with
  | importName _ | interface _ => cases he
  | traitUse name =>
    obtain rfl := List.mem_singleton.1 he
    exact membersDistinct_declare (orderly_ofTrait name) h
  | constant decl =>
    obtain ⟨entry, -, rfl⟩ := List.mem_map.1 he
    exact membersDistinct_declare (orderly_ofConstant policy decl entry) h
  | property decl =>
    obtain ⟨entry, -, rfl⟩ := List.mem_map.1 he
    exact membersDistinct_declare (orderly_ofProperty policy decl entry) h
  | method d =>
    obtain rfl := List.mem_singleton.1 he
    exact membersDistinct_declare (orderly_ofMethod policy hch) h
  | methodGroup ds =>
    obtain rfl := List.mem_singleton.1 he
    rw [MemberEdit.apply]
    split
    · exact h
    · rename_i hfree
      rw [Bool.not_eq_true, List.any_eq_false] at hfree
      exact membersDistinct_append hch.1 hch.2 (fun d hd => by simpa using hfree d hd) h
  | statements method ss =>
    obtain rfl := List.mem_singleton.1 he
    exact body fun b hb => afterEdit_foldl_injected b ss ▸ bodyDistinct_foldl_injected hch hb
  | mapEntry method key value =>
    obtain rfl := List.mem_singleton.1 he
    exact body fun b => bodyDistinct_injectEntry _ key value

theorem membersDistinct_makeEdits {es : List MemberEdit}
    (hes : ∀ e ∈ es, ∀ ms, MembersDistinct s ms → MembersDistinct s (e.apply ms))
    (h : MembersDistinct s ms) : MembersDistinct s (makeEdits es ms) := by
  induction es generalizing ms with
  | nil => exact h
  | cons e es ih =>
    exact ih (fun e' he' => hes e' (List.mem_cons_of_mem _ he')) (hes e (by simp) ms h)

end Edits

/-! ## Merges -/

section Merges

variable {s : Spelling} {rules : MergeRules} {set : ChangeSet} {t : SourceTree}

theorem nodup_interfacesAfter (ch : Change) {is : List String} (h : (is.map s.key).Nodup) :
    ((interfacesAfter ch is).map s.key).Nodup := by
  cases ch with
  | interface name =>
    rw [interfacesAfter]
    split
    · exact h
    · rename_i hnew
      rw [Bool.not_eq_true, List.any_eq_false] at hnew
      rw [List.map_append, List.map_singleton]
      refine List.nodup_append.2 ⟨h, by simp, fun a ha b hb => ?_⟩
      rintro rfl
      obtain ⟨i, hi, hkey⟩ := List.mem_map.1 ha
      rw [List.mem_singleton.1 hb] at hkey
      exact hnew i hi (Spelling.sameClassName_of_key_eq hkey)
  | _ => exact h

/-- A change that brings no duplicates makes none in a class. -/
theorem classDistinct_editOf (policy : MergePolicy) {ch : Change} (hch : BringsDistinct ch)
    {c : ClassDecl} (h : ClassDistinct s c) :
    ClassDistinct s (valueOr c (editOf policy ch c)) := by
  rw [classDistinct_iff] at h ⊢
  rw [editOf_value]
  exact ⟨nodup_interfacesAfter ch h.1,
    membersDistinct_makeEdits (fun e he ms => membersDistinct_apply hch he) h.2⟩

theorem nodup_importInto (set : ChangeSet) (ch : Change) {is : List Import}
    (h : (is.map fun i => (i.kind, foldAscii i.localName)).Nodup) :
    ((valueOr is (importInto set ch is)).map fun i => (i.kind, foldAscii i.localName)).Nodup := by
  cases ch with
  | importName i =>
    have step := importStep set i is
    generalize importInto set (.importName i) is = o at step
    cases step with
    | needless _ => exact h
    | taken _ _ => exact h
    | added hfree =>
      rw [valueOr, Edited.replaced, List.map_append, List.map_singleton]
      refine List.nodup_append.2 ⟨h, by simp, fun a ha b hb => ?_⟩
      rintro rfl
      obtain ⟨x, hx, heq⟩ := List.mem_map.1 ha
      rw [List.mem_singleton.1 hb, Prod.mk.injEq] at heq
      have := hfree x hx
      simp [sameLocalName, sameIgnoringCase, heq] at this
  | _ => exact h

/-- A file may get another class in the place of one with the same name. -/
theorem TreeDistinct.withClass (h : TreeDistinct s t) {name : String} {i : Nat} {c d : ClassDecl}
    (hc : IsTarget name t i c) (hname : d.name = c.name) (hd : ClassDistinct s d) :
    TreeDistinct s (withClass t i d) where
  declares := by
    have hmap : (Merge.withClass t i d).items.map Item.declares? = t.items.map Item.declares? := by
      obtain ⟨hlt, hget⟩ := List.getElem?_eq_some_iff.1 hc.2
      have hlt' : i < (t.items.map Item.declares?).length := by simpa using hlt
      have hi : (t.items.map Item.declares?)[i] = some d.name := by
        simp [hget, hname, Item.declares?]
      rw [Merge.withClass, List.map_set, Item.declares?, ← hi, List.set_getElem_self]
    have hdeclares : (Merge.withClass t i d).items.filterMap Item.declares? =
        t.items.filterMap Item.declares? := by
      simpa [List.filterMap_map] using congrArg (List.filterMap id) hmap
    rw [hdeclares]
    exact h.declares
  imports := h.imports
  classes e he := by
    obtain ⟨item, hitem, hclass⟩ := List.mem_filterMap.1 he
    rcases List.mem_or_eq_of_mem_set hitem with hmem | rfl
    · exact h.classes e (List.mem_filterMap.2 ⟨item, hmem, hclass⟩)
    · cases hclass
      exact hd

/-- A change that brings no duplicates makes none in a file. -/
theorem treeDistinct_applyChange (policy : MergePolicy) {ch : Change} (hch : BringsDistinct ch)
    (h : TreeDistinct s t) : TreeDistinct s (valueOr t (applyChange policy set ch t)) := by
  by_cases hp : ch.pass = .imports
  · cases ch with
    | importName i =>
      have himports := nodup_importInto set (.importName i) h.imports
      rw [applyChange_importName]
      cases hi : importInto set (.importName i) t.imports with
      | error e => exact h
      | ok e =>
        rw [hi] at himports
        exact ⟨h.declares, himports, h.classes⟩
    | _ => cases hp
  · rw [applyChange_inClass hp]
    rcases valueOr_editClass set.target.name (editOf policy ch) t with heq | ⟨i, c, hc, heq⟩
    · rwa [heq]
    · rw [heq]
      have hclass : ClassDistinct s c :=
        h.classes c (List.mem_filterMap.2 ⟨_, List.mem_of_getElem? hc.2, rfl⟩)
      exact h.withClass hc (by rw [editOf_value]) (classDistinct_editOf policy hch hclass)

theorem treeDistinct_ensureClass (target : ClassTarget) (h : TreeDistinct s t) :
    TreeDistinct s (valueOr t (ensureClass target t)) := by
  cases ho : ensureClass target t with
  | error e => exact h
  | ok e =>
    rw [valueOr]
    rcases ensureClass_ok ho with ⟨hv, -⟩ | ⟨hnone, hv⟩
    · rwa [hv]
    · rw [SourceTree.declaredName?, List.findSome?_eq_none_iff] at hnone
      have hdeclares : t.items.filterMap Item.declares? = [] :=
        List.filterMap_eq_nil_iff.2 hnone
      rw [hv]
      refine ⟨by simp [List.filterMap_append, hdeclares, Item.declares?], h.imports, fun c hc => ?_⟩
      obtain ⟨item, hitem, hclass⟩ := List.mem_filterMap.1 hc
      rcases List.mem_append.1 hitem with hmem | hnew
      · exact h.classes c (List.mem_filterMap.2 ⟨item, hmem, hclass⟩)
      · rw [List.mem_singleton.1 hnew] at hclass
        cases hclass
        exact classDistinct_iff.2 ⟨List.nodup_nil, ⟨fun _ => List.nodup_nil, fun m hm => by cases hm⟩⟩

/-- A merge makes no duplicates. -/
theorem treeDistinct_merge (hset : ∀ ch ∈ set.changes, BringsDistinct ch) (h : TreeDistinct s t) :
    TreeDistinct s (merge rules t set).tree := by
  refine merge_induction (fun t ht => ?_) (fun t ht => ?_)
    (fun t ht => treeDistinct_ensureClass set.target ht)
    (fun ch hch t ht => treeDistinct_applyChange rules.policy (hset ch hch) ht) h
  · rw [value_ensureStrictTypes]
    exact ⟨ht.declares, ht.imports, ht.classes⟩
  · cases ho : ensureNamespace set.namespaceName t with
    | error e => exact ht
    | ok e =>
      obtain ⟨found, hv, -, -⟩ := ensureNamespace_ok ho
      rw [valueOr, hv]
      exact ⟨ht.declares, ht.imports, ht.classes⟩

/-- Merges in a row into a file without duplicates make none. -/
theorem mergeAll_distinct {sets : List ChangeSet}
    (hsets : ∀ set ∈ sets, ∀ ch ∈ set.changes, BringsDistinct ch) (h : TreeDistinct s t) :
    TreeDistinct s (mergeAll rules t sets).tree := by
  induction sets generalizing t with
  | nil => exact h
  | cons set sets ih =>
    exact ih (fun set' h' => hsets set' (List.mem_cons_of_mem _ h'))
      (treeDistinct_merge (hsets set (by simp)) h)

end Merges

/-- A file with a class that has one of everything. -/
def eventFile : SourceTree :=
  { SourceTree.empty with
    imports := [.ofClass "Acme\\Description"]
    items := [.classItem { ClassDecl.named "Event" with
      interfaces := ["Description"]
      members := [.ofKind (.traitUse ["Lists"]),
        .ofKind (.method ⟨[], some .pub, true, false, false, false, "classMap", [], some "array",
          some [.ofReturn (.array [(some (.text "a"), .text "A")])]⟩)] }] }

/-- Everything that the class has, spelled in another way, and a group of methods. -/
def againSet : ChangeSet :=
  ⟨"", .finalClass "event",
    [.importName (.ofClass "Acme\\description"), .interface "\\Other\\description",
      .traitUse "LISTS", .mapEntry "classmap" (.text "a") (.text "B"),
      .mapEntry "classmap" (.text "b") (.text "B"),
      .methodGroup [⟨[], some .pub, true, false, false, false, "names", [], some "array", some []⟩]]⟩

theorem mergeAll_distinct_eventFile :
    TreeDistinct .anyCase eventFile ∧
      (∀ set ∈ [againSet, againSet], ∀ ch ∈ set.changes, BringsDistinct ch) ∧
      TreeDistinct .anyCase (mergeAll ⟨.replace, true⟩ eventFile [againSet, againSet]).tree :=
  have ht : TreeDistinct .anyCase eventFile := by decide
  have hs : ∀ set ∈ [againSet, againSet], ∀ ch ∈ set.changes, BringsDistinct ch := by decide
  ⟨ht, hs, mergeAll_distinct hs ht⟩

end DomainScaffold.Merge
