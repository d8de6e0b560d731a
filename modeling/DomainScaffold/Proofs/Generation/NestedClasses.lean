import Mathlib.Data.List.Nodup
import DomainScaffold.Proofs.Generation.DocumentClasses
import DomainScaffold.Proofs.Generation.Expansion

/-!
# Classes of nested objects

The nodes of a schema are its root and all that a node asks for. Every class of a document belongs to
a node, but not every node has a class: the first node with a name takes it, whatever another one
with that name is, and a list takes its name without a class.

Results:
* `done_of_expands`: with a node, all that it asks for is expanded.
* `nested_classes`: every class belongs to a node, and which nodes have classes of their own.
* `nestedTags_lacking`: a list takes the name of a nested object.
-/

namespace DomainScaffold.Blueprint

open Merge Schema Naming

variable (b : Blueprint)

/-! ## Nodes -/

/-- The nodes of a schema: the root at the place of the document, and all that a node asks for. -/
inductive IsNode (types : TypeSet) (l : ClassLocation) : PlacedType → Prop
  | root : IsNode types l (l, types.root)
  | nested {p : PlacedType} {u : SchemaType} {n : NestedClass} (h : IsNode types l p)
      (hu : b.resolve types p.2 = .ok u) (hn : b.Asks types p.1 u n) :
      IsNode types l (p.1.sibling n.className, n.type)

/-- Whether a node is an object. -/
def IsObject (types : TypeSet) (p : PlacedType) : Prop :=
  ∃ u, b.resolve types p.2 = .ok u ∧ u.properties?.isSome = true

/-- The changes of the class that belongs to a type: the record of its properties, or the class
    around a single value. -/
inductive OwnChanges (e : Element) (types : TypeSet) (t : SchemaType) : List Change → Prop
  | scalar {u : SchemaType} {hint suffix : String} (hu : b.resolve types t = .ok u)
      (h : scalarNames? u = some (hint, suffix)) : OwnChanges e types t (scalarChanges hint suffix)
  | record {u : SchemaType} {properties : List (String × SchemaType)} {required : List String}
      {additional : Bool} {plans : List (PropertyPlan × List NestedClass)}
      (hu : b.resolve types t = .ok u) (h : u.shape = .object properties required additional)
      (hplans : b.planProperties e types properties required .classes = .ok plans) :
      OwnChanges e types t (recordChanges (plans.map Prod.fst))

/-- One of the artifacts is the class of a node. -/
def HasClass (e : Element) (types : TypeSet) (group : List Artifact) (p : PlacedType) : Prop :=
  ∃ changes, b.OwnChanges e types p.2 changes ∧
    ∃ a ∈ group, a.changeSet? = some (p.1.changeSet changes)

/-- Whether the classes of two nodes have one name but for case. -/
def SameName (p q : PlacedType) : Prop :=
  Text.foldAscii p.1.className = Text.foldAscii q.1.className

variable {b} {e : Element} {types : TypeSet} {l : ClassLocation} {t u v : SchemaType}
  {n : NestedClass} {nested : List NestedClass} {classes : List PlacedClass} {p q : PlacedType}
  {changes : List Change}

theorem OwnChanges.eq {changes' : List Change} (h : b.OwnChanges e types t changes)
    (h' : b.OwnChanges e types t changes') : changes = changes' := by
  cases h with
  | scalar hu hs =>
    cases h' with
    | scalar hu' hs' =>
      obtain rfl := Except.ok.inj (hu.symm.trans hu')
      cases hs.symm.trans hs'
      rfl
    | record hu' hshape =>
      obtain rfl := Except.ok.inj (hu.symm.trans hu')
      simp [scalarNames?, hshape] at hs
  | record hu hshape hplans =>
    cases h' with
    | scalar hu' hs' =>
      obtain rfl := Except.ok.inj (hu.symm.trans hu')
      simp [scalarNames?, hshape] at hs'
    | record hu' hshape' hplans' =>
      obtain rfl := Except.ok.inj (hu.symm.trans hu')
      cases hshape.symm.trans hshape'
      cases hplans.symm.trans hplans'
      rfl

/-- The class that a node finds belongs to it. -/
theorem own_of_mem_found (h : b.found e types l t = .ok (classes, nested)) {c : PlacedClass}
    (hc : c ∈ classes) : c.1 = l ∧ b.OwnChanges e types t c.2 := by
  obtain ⟨u, hu, h⟩ := Outcome.bind_eq_ok h
  unfold classesFor at h
  split at h
  · rename_i hscalar
    cases h
    cases List.mem_singleton.1 hc
    exact ⟨rfl, .scalar hu hscalar⟩
  · rename_i properties required additional _ hshape
    obtain ⟨plans, hplans, hp⟩ := Outcome.map_eq_ok h
    cases hp
    cases List.mem_singleton.1 hc
    exact ⟨rfl, .record hu hshape hplans⟩
  · cases h
    cases hc
  · obtain ⟨t, -, ht⟩ := Outcome.map_eq_ok h
    cases ht
    cases hc
  · cases h

/-- An object finds its class. -/
theorem exists_own_of_found (h : b.found e types p.1 p.2 = .ok (classes, nested))
    (hobject : b.IsObject types p) :
    ∃ changes, (p.1, changes) ∈ classes ∧ b.OwnChanges e types p.2 changes := by
  obtain ⟨u, hu, hclasses⟩ := Outcome.bind_eq_ok h
  obtain ⟨u', hu', hobject⟩ := hobject
  obtain rfl := Except.ok.inj (hu.symm.trans hu')
  obtain ⟨changes, hmem⟩ := classesFor_eq_ok hclasses (by simp [hobject])
  exact ⟨changes, hmem, (own_of_mem_found h hmem).2⟩

theorem IsNode.namespaceName_eq (h : b.IsNode types l p) : p.1.namespaceName = l.namespaceName := by
  induction h with
  | root => rfl
  | nested _ _ _ ih => exact ih

/-- Below the root there are only nodes if the root asks for some. -/
theorem IsNode.eq_root_or_asks (h : b.IsNode types l p) :
    p = (l, types.root) ∨ ∃ u n, b.resolve types types.root = .ok u ∧ b.Asks types l u n := by
  induction h with
  | root => exact .inl rfl
  | nested _ hu hn ih =>
    rcases ih with rfl | hasks
    · exact .inr ⟨_, _, hu, hn⟩
    · exact .inr hasks

theorem not_asks_of_scalar {hint suffix : String} (h : scalarNames? u = some (hint, suffix)) :
    ¬b.Asks types l u n := by
  obtain ⟨info, shape⟩ := u
  intro hn
  cases hn with
  | property hu =>
    cases shape <;> cases hu
    cases h
  | item hu =>
    cases hu
    cases h

/-- A node below the root is an object. -/
theorem IsNode.eq_root_or_isObject (h : b.IsNode types l p) :
    p = (l, types.root) ∨ b.IsObject types p := by
  cases h with
  | root => exact .inl rfl
  | nested _ _ hn => exact .inr hn.resolve_eq_ok

/-! ## What an expansion leaves behind -/

section Expansion

variable {ps : List PlacedType} {s s' : Expansion} {o : Outcome Expansion} {name : String}

variable (b) in
/-- Under a name a node was expanded: its class is there, and so are the names of all that it asks
    for. -/
def Done (e : Element) (types : TypeSet) (l : ClassLocation) (s : Expansion) (name : String) :
    Prop :=
  ∃ p classes nested, b.IsNode types l p ∧ Text.foldAscii p.1.className = name ∧
    b.found e types p.1 p.2 = .ok (classes, nested) ∧ classes ⊆ s.classes ∧
    ∀ n ∈ nested, s.has n.className = true

theorem Done.mono (h : b.Done e types l s name) (htaken : s.taken ⊆ s'.taken)
    (hclasses : s.classes ⊆ s'.classes) : b.Done e types l s' name := by
  obtain ⟨p, classes, nested, hp, hname, hfound, hsub, hnested⟩ := h
  refine ⟨p, classes, nested, hp, hname, hfound, List.Subset.trans hsub hclasses, fun n hn => ?_⟩
  exact has_iff.2 (htaken (has_iff.1 (hnested n hn)))

theorem isNode_placed {p : PlacedType} (hp : b.IsNode types l p)
    (hfound : b.found e types p.1 p.2 = .ok (classes, nested)) :
    ∀ q ∈ placed p.1 nested, b.IsNode types l q := by
  intro q hq
  obtain ⟨n, hn, rfl⟩ := List.mem_map.1 hq
  obtain ⟨u, hu, hclasses⟩ := Outcome.bind_eq_ok hfound
  exact .nested hp hu ((nested_classesFor_iff hclasses).1 hn)

theorem Expands.has_of_mem (h : b.Expands e types ps s o) (ho : o = .ok s') :
    ∀ p ∈ ps, s'.has p.1.className = true := by
  induction h generalizing s' with
  | nil => simp
  | taken htaken hrest ih =>
    exact List.forall_mem_cons.2
      ⟨has_iff.2 ((hrest.subset ho).1 (has_iff.1 htaken)), ih ho⟩
  | failed => cases ho
  | stuck => cases ho
  | found _ _ hnested hrest _ ihrest =>
    have hself := (hnested.subset rfl).1 (has_iff.1 (has_add_iff.2 (.inl rfl)))
    exact List.forall_mem_cons.2 ⟨has_iff.2 ((hrest.subset ho).1 hself), ihrest ho⟩

/-- Every class that an expansion adds belongs to a node. -/
theorem own_of_expands (h : b.Expands e types ps s o) (ho : o = .ok s')
    (hps : ∀ p ∈ ps, b.IsNode types l p) :
    ∀ c ∈ s'.classes, c ∈ s.classes ∨
      ∃ p, b.IsNode types l p ∧ c.1 = p.1 ∧ b.OwnChanges e types p.2 c.2 := by
  induction h generalizing s' with
  | nil =>
    cases ho
    exact fun c hc => .inl hc
  | taken _ _ ih => exact ih ho (List.forall_mem_cons.1 hps).2
  | failed => cases ho
  | stuck => cases ho
  | found _ hfound _ _ ih ihrest =>
    obtain ⟨hp, hrest⟩ := List.forall_mem_cons.1 hps
    intro c hc
    rcases ihrest ho hrest c hc with hc | hnode
    · rcases ih rfl (isNode_placed hp hfound) c hc with hc | hnode
      · rcases List.mem_append.1 hc with hc | hc
        · exact .inl hc
        · exact .inr ⟨_, hp, own_of_mem_found hfound hc⟩
      · exact .inr hnode
    · exact .inr hnode

/-- Whatever name an expansion takes, a node was expanded under it. -/
theorem done_of_expands (h : b.Expands e types ps s o) (ho : o = .ok s')
    (hps : ∀ p ∈ ps, b.IsNode types l p) :
    ∀ name ∈ s'.taken, name ∈ s.taken ∨ b.Done e types l s' name := by
  induction h generalizing s' with
  | nil =>
    cases ho
    exact fun name hname => .inl hname
  | taken _ _ ih => exact ih ho (List.forall_mem_cons.1 hps).2
  | failed => cases ho
  | stuck => cases ho
  | @found place t rest s next classes nested o _ hfound hnested hrest ih ihrest =>
    obtain ⟨hp, hps⟩ := List.forall_mem_cons.1 hps
    obtain ⟨htaken, hclasses⟩ := hrest.subset ho
    intro name hname
    rcases ihrest ho hps name hname with hname | hdone
    · rcases ih rfl (isNode_placed hp hfound) name hname with hname | hdone
      · rcases List.mem_cons.1 hname with rfl | hname
        · -- The name of the node itself: all that it asks for was expanded behind it.
          have hself : classes ⊆ next.classes :=
            List.Subset.trans (List.subset_append_right _ _) (hnested.subset rfl).2
          have hasked : ∀ n ∈ nested, next.has n.className = true := fun n hn =>
            hnested.has_of_mem rfl (place.sibling n.className, n.type) (List.mem_map.2 ⟨n, hn, rfl⟩)
          have hall : b.Done e types l next (Text.foldAscii place.className) :=
            ⟨(place, t), classes, nested, hp, rfl, hfound, hself, hasked⟩
          exact .inr (hall.mono htaken hclasses)
        · exact .inl hname
      · exact .inr (hdone.mono htaken hclasses)
    · exact .inr hdone

end Expansion

/-! ## Nodes with classes of their own -/

/-- Nodes whose names agree but for case have one name and one shape. -/
def NamesTell (b : Blueprint) (types : TypeSet) (l : ClassLocation) : Prop :=
  ∀ p q, b.IsNode types l p → b.IsNode types l q → SameName p q →
    p.1.className = q.1.className ∧
      (b.resolve types p.2).map SchemaType.shape = (b.resolve types q.2).map SchemaType.shape

theorem Asks.congr {l' : ClassLocation} (h : b.Asks types l u n) (hname : l.className = l'.className)
    (hshape : u.shape = v.shape) : b.Asks types l' v n := by
  cases h with
  | property hu hp hn =>
    refine .property ?_ hp hn
    rw [SchemaType.properties?, ← hshape]
    exact hu
  | item hu ht hobject => exact hname ▸ .item (hshape ▸ hu) ht hobject

theorem OwnChanges.congr {t' : SchemaType} (h : b.OwnChanges e types t changes)
    (hshape : (b.resolve types t).map SchemaType.shape = (b.resolve types t').map SchemaType.shape) :
    b.OwnChanges e types t' changes := by
  cases h with
  | scalar hu hscalar =>
    rw [hu] at hshape
    obtain ⟨v, hv, hvshape⟩ := Outcome.map_eq_ok hshape.symm
    refine .scalar hv ?_
    rw [scalarNames?, hvshape]
    exact hscalar
  | record hu h hplans =>
    rw [hu] at hshape
    obtain ⟨v, hv, hvshape⟩ := Outcome.map_eq_ok hshape.symm
    exact .record hv (hvshape.trans h) hplans

section Classes

variable {s : Expansion} {document : Element} {group : List Artifact}

/-- Every taken name is that of a node that is done. -/
theorem done_of_has (h : b.Expands e types [(l, types.root)] .empty (.ok s)) {name : String}
    (hname : s.has name = true) : b.Done e types l s (Text.foldAscii name) :=
  (done_of_expands h rfl (List.forall_mem_singleton.2 .root) _ (has_iff.1 hname)).resolve_left
    (by simp [Expansion.empty])

/-- Every class is that of a node. -/
theorem exists_isNode_of_mem (h : b.Expands e types [(l, types.root)] .empty (.ok s))
    {c : ClassLocation × List Change} (hc : c ∈ s.classes) :
    ∃ p, b.IsNode types l p ∧ c.1 = p.1 ∧ b.OwnChanges e types p.2 c.2 :=
  (own_of_expands h rfl (List.forall_mem_singleton.2 .root) c hc).resolve_left
    (by simp [Expansion.empty])

/-- Where names tell nodes apart, the name of every node is taken. The induction is on the way from
    the root to the node: the node that was expanded under a name asks for the same as any other. -/
theorem has_of_isNode (h : b.Expands e types [(l, types.root)] .empty (.ok s))
    (hnames : b.NamesTell types l) (hp : b.IsNode types l p) : s.has p.1.className = true := by
  induction hp with
  | root => exact h.has_of_mem rfl _ (List.mem_singleton_self _)
  | @nested p u n hp hu hn ih =>
    obtain ⟨q, classes, nested, hq, hname, hfound, -, hnested⟩ := done_of_has h ih
    obtain ⟨v, hv, hclasses⟩ := Outcome.bind_eq_ok hfound
    obtain ⟨heq, hshape⟩ := hnames p q hp hq hname.symm
    rw [hu, hv] at hshape
    exact hnested n ((nested_classesFor_iff hclasses).2 (hn.congr heq (Except.ok.inj hshape)))

/-- The class of a node in an expansion is its class among the artifacts. -/
theorem hasClass_of_mem (hp : b.IsNode types l p) (hq : b.IsNode types l q)
    (hname : p.1.className = q.1.className) (hown : b.OwnChanges e types p.2 changes)
    (hmem : (q.1, changes) ∈ s.classes) :
    b.HasClass e types
      (s.classes.map fun c => .ofClass (valueObjectName l.className c.1.className) c.1 c.2) p := by
  refine ⟨changes, hown, _, List.mem_map_of_mem hmem, ?_⟩
  rw [Artifact.changeSet?_ofClass, ClassLocation.changeSet, ClassLocation.changeSet, hname,
    hp.namespaceName_eq, hq.namespaceName_eq]

/-- Where names tell nodes apart, every object has a class of its own. -/
theorem hasClass_of_namesTell (h : b.Expands e types [(l, types.root)] .empty (.ok s))
    (hnames : b.NamesTell types l) (hp : b.IsNode types l p) (hobject : b.IsObject types p) :
    b.HasClass e types
      (s.classes.map fun c => .ofClass (valueObjectName l.className c.1.className) c.1 c.2) p := by
  obtain ⟨q, classes, nested, hq, hname, hfound, hclasses, -⟩ :=
    done_of_has h (has_of_isNode h hnames hp)
  obtain ⟨heq, hshape⟩ := hnames p q hp hq hname.symm
  have hobject' : b.IsObject types q := by
    obtain ⟨u, hu, hobject⟩ := hobject
    rw [hu] at hshape
    obtain ⟨v, hv, hvshape⟩ := Outcome.map_eq_ok hshape.symm
    refine ⟨v, hv, ?_⟩
    rw [SchemaType.properties?, hvshape]
    exact hobject
  obtain ⟨changes, hmem, hown⟩ := exists_own_of_found hfound hobject'
  exact hasClass_of_mem hp hq heq (hown.congr hshape.symm) (hclasses hmem)

/-- The class of a node with the name of an object belongs to an object: no objects are below a single
    value. -/
theorem isObject_of_own (hp : b.IsNode types l p) (hobject : b.IsObject types p)
    (hq : b.IsNode types l q) (hown : b.OwnChanges e types q.2 changes) : b.IsObject types q := by
  cases hown with
  | record hu hshape => exact ⟨_, hu, isSome_properties?_iff.2 ⟨_, _, _, hshape⟩⟩
  | @scalar v _ _ hv hscalar =>
    rcases hq.eq_root_or_isObject with rfl | hobject'
    · rcases hp.eq_root_or_asks with rfl | ⟨u, n, hu, hn⟩
      · exact hobject
      · obtain rfl := Except.ok.inj (hu.symm.trans hv)
        exact absurd hn (not_asks_of_scalar hscalar)
    · exact hobject'

/-- Where no two classes share a name, nodes with one name but for case that both have a class have
    the same one. -/
theorem eq_of_hasClass
    (hnodup : (group.map fun a => a.className?.map Text.foldAscii).Nodup)
    (hp : b.HasClass e types group p) (hq : b.HasClass e types group q) (hname : SameName p q) :
    p.1.className = q.1.className ∧
      ∀ changes, b.OwnChanges e types p.2 changes → b.OwnChanges e types q.2 changes := by
  obtain ⟨changes, hchanges, a, ha, hset⟩ := hp
  obtain ⟨changes', hchanges', a', ha', hset'⟩ := hq
  obtain rfl : a = a' := by
    refine List.inj_on_of_nodup_map hnodup ha ha' ?_
    rw [Artifact.className?, Artifact.className?, hset, hset']
    exact congrArg some hname
  rw [hset, Option.some.injEq, ClassLocation.changeSet, ClassLocation.changeSet,
    ChangeSet.mk.injEq] at hset'
  obtain ⟨-, htarget, rfl⟩ := hset'
  exact ⟨congrArg ClassTarget.name htarget, fun other hother => hother.eq hchanges ▸ hchanges'⟩

/-- The classes of a document: each belongs to a node. Every object has a class of its own exactly if
    some class has its name and no object with that name but for case has another name or another
    record; so it is where nodes with one name are of one shape. -/
theorem nested_classes {types : TypeSet} (htypes : document.types = some types)
    (hstate : document.isAggregateState = false) (hl : b.locate document = .ok l)
    (hgroup : b.valueObjects document = .ok group) :
    (∀ a ∈ group, ∃ p changes, b.IsNode types l p ∧ b.OwnChanges document types p.2 changes ∧
      a.changeSet? = some (p.1.changeSet changes)) ∧
    ((∀ p, b.IsNode types l p → b.IsObject types p → b.HasClass document types group p) ↔
      (∀ p, b.IsNode types l p → b.IsObject types p →
        ∃ a ∈ group, a.className?.map Text.foldAscii = some (Text.foldAscii p.1.className)) ∧
      ∀ p q, b.IsNode types l p → b.IsNode types l q → b.IsObject types p → b.IsObject types q →
        SameName p q → p.1.className = q.1.className ∧
          ∀ changes, b.OwnChanges document types p.2 changes →
            b.OwnChanges document types q.2 changes) ∧
    (b.NamesTell types l →
      ∀ p, b.IsNode types l p → b.IsObject types p → b.HasClass document types group p) := by
  have hnodup := nodup_valueObjects hgroup
  rcases b.valueObjects_eq_ok hgroup with ⟨-, hnone⟩ | ⟨types', l', s, htypes', hl', hs, rfl⟩
  · simp [htypes, hstate] at hnone
  obtain rfl := Option.some.inj (htypes.symm.trans htypes')
  obtain rfl := Except.ok.inj (hl.symm.trans hl')
  have hends : b.Expands document types [(l, types.root)] .empty (.ok s) :=
    hs ▸ expands_expansion l
  refine ⟨fun a ha => ?_, ⟨fun hall => ⟨fun p hp hobject => ?_, fun p q hp hq hp' hq' hname => ?_⟩,
    fun htold p hp hobject => ?_⟩, fun hnames p hp hobject =>
      hasClass_of_namesTell hends hnames hp hobject⟩
  · obtain ⟨c, hc, rfl⟩ := List.mem_map.1 ha
    obtain ⟨p, hp, heq, hchanges⟩ := exists_isNode_of_mem hends hc
    exact ⟨p, c.2, hp, hchanges, heq ▸ rfl⟩
  · obtain ⟨changes, -, a, ha, hset⟩ := hall p hp hobject
    exact ⟨a, ha, by rw [Artifact.className?, hset]; rfl⟩
  · exact eq_of_hasClass hnodup (hall p hp hp') (hall q hq hq') hname
  · obtain ⟨hsome, hsame⟩ := htold
    obtain ⟨a, ha, hclass⟩ := hsome p hp hobject
    obtain ⟨c, hc, rfl⟩ := List.mem_map.1 ha
    obtain ⟨q, hq, heq, hchanges⟩ := exists_isNode_of_mem hends hc
    have hname : SameName q p := by
      rw [SameName, ← heq]
      exact Option.some.inj hclass
    obtain ⟨heqName, hrecord⟩ :=
      hsame q p hq hp (isObject_of_own hp hobject hq hchanges) hobject hname
    refine hasClass_of_mem hp hq heqName.symm (hrecord _ hchanges) ?_
    rw [← heq]
    exact hc

end Classes

/-! ### An object in an object -/

/-- The schema of a text. -/
def textSchema : Json := .object [("type", .text "string")]

/-- The type of a text with a name. -/
def textNamed (name : String) : SchemaType :=
  .node { Info.plain with name := some name } (.text ⟨none, none, [], none, none⟩)

/-- A document with an address. -/
def order : Blueprint :=
  oneDocument "Order" (objectSchema [("address", objectSchema [("street", textSchema)])])

/-- The type of the address. -/
def orderAddress : SchemaType :=
  .node { Info.plain with name := some "address" } (.object [("street", textNamed "street")] [] true)

/-- The types of the document. -/
def orderTypes : TypeSet := ⟨.node .plain (.object [("address", orderAddress)] [] true), []⟩

theorem isNode_order {l : ClassLocation} {p : PlacedType} (h : order.IsNode orderTypes l p) :
    p = (l, orderTypes.root) ∨ p = (l.sibling "Address", orderAddress) := by
  induction h with
  | root => exact .inl rfl
  | nested _ hu hn ih =>
    rcases ih with rfl | rfl
    · cases (resolve_of_object (b := order) (t := orderTypes.root) rfl).symm.trans hu
      cases hn with
      | property hproperties hp hn =>
        cases hproperties
        cases List.mem_singleton.1 hp
        cases hn
        exact .inr (congrArg (fun name => (l.sibling name, orderAddress)) (by decide))
      | item hshape => cases hshape
    · cases (resolve_of_object (b := order) (t := orderAddress) rfl).symm.trans hu
      cases hn with
      | property hproperties hp hn =>
        cases hproperties
        cases List.mem_singleton.1 hp
        cases hn with
        | object ht => cases ht
      | item hshape => cases hshape

theorem namesTell_order {l : ClassLocation} (hl : l.className = "Order") :
    order.NamesTell orderTypes l := by
  intro p q hp hq hname
  have hne : Text.foldAscii "Order" ≠ Text.foldAscii "Address" := by decide
  rcases isNode_order hp with rfl | rfl <;> rcases isNode_order hq with rfl | rfl
  · exact ⟨rfl, rfl⟩
  · exact absurd (hl ▸ hname) hne
  · exact absurd (hl ▸ hname.symm) hne
  · exact ⟨rfl, rfl⟩

theorem nested_classes_order :
    ∃ document ∈ order.graph.ofKind .document, ∃ l group, document.types = some orderTypes ∧
      document.isAggregateState = false ∧ order.locate document = .ok l ∧
      order.valueObjects document = .ok group ∧
      ∀ p, order.IsNode orderTypes l p → order.IsObject orderTypes p →
        order.HasClass document orderTypes group p := by
  have htypes : (order.graph.ofKind .document).map Element.types = [some orderTypes] := by
    with_unfolding_all rfl
  have hclasses : ∀ document ∈ order.graph.ofKind .document, document.isAggregateState = false ∧
      (order.locate document).toOption.map ClassLocation.className = some "Order" ∧
      (order.valueObjects document).toOption.isSome = true := by decide +kernel
  obtain ⟨document, hdocument, htypes⟩ := List.map_eq_singleton_iff.1 htypes
  rw [hdocument, List.forall_mem_singleton] at hclasses
  obtain ⟨hstate, hlocate, hgroup⟩ := hclasses
  obtain ⟨l, hl, hname⟩ := Option.map_eq_some_iff.1 hlocate
  obtain ⟨group, hgroup⟩ := Option.isSome_iff_exists.1 hgroup
  rw [Outcome.toOption_eq_some_iff] at hl hgroup
  refine ⟨document, hdocument ▸ List.mem_singleton_self _, l, group, htypes, hstate, hl, hgroup, ?_⟩
  exact (nested_classes htypes hstate hl hgroup).2.2 (namesTell_order hname)

/-! ### A list that takes the name of an object -/

/-- A list of objects that hold an object under the key of the list. -/
def nestedTags : Blueprint :=
  oneDocument "Tags" (.object [("type", .text "array"),
    ("items", objectSchema [("tags", objectSchema [("label", textSchema)])])])

/-- The type of the object in an item. -/
def innerTags : SchemaType :=
  .node { Info.plain with name := some "tags" } (.object [("label", textNamed "label")] [] true)

/-- The type of an item. -/
def tagsItem : SchemaType := .node .plain (.object [("tags", innerTags)] [] true)

/-- The types of the list. -/
def tagsTypes : TypeSet := ⟨.node .plain (.array (some tagsItem)), []⟩

/-- The object in the items is a node of its own, but the list has taken its name: the only class is
    that of the items. -/
theorem nestedTags_lacking :
    ∃ document ∈ nestedTags.graph.ofKind .document, ∃ l group p,
      document.types = some tagsTypes ∧ nestedTags.locate document = .ok l ∧
      nestedTags.valueObjects document = .ok group ∧
      group.map Artifact.className? = [some "TagsItem"] ∧
      nestedTags.IsNode tagsTypes l p ∧ nestedTags.IsObject tagsTypes p ∧
      p.1.className = "Tags" ∧ ¬nestedTags.HasClass document tagsTypes group p := by
  have htypes : (nestedTags.graph.ofKind .document).map Element.types = [some tagsTypes] := by
    with_unfolding_all rfl
  have hclasses : ∀ document ∈ nestedTags.graph.ofKind .document,
      (nestedTags.locate document).toOption.isSome = true ∧
      (nestedTags.valueObjects document).toOption.map (List.map Artifact.className?) =
        some [some "TagsItem"] := by decide +kernel
  obtain ⟨document, hdocument, htypes⟩ := List.map_eq_singleton_iff.1 htypes
  rw [hdocument, List.forall_mem_singleton] at hclasses
  obtain ⟨hl, hgroup⟩ := hclasses
  obtain ⟨l, hl⟩ := Option.isSome_iff_exists.1 hl
  obtain ⟨group, hgroup, hnames⟩ := Option.map_eq_some_iff.1 hgroup
  rw [Outcome.toOption_eq_some_iff] at hl hgroup
  have hitem : nestedTags.IsNode tagsTypes l (l.sibling (l.className ++ "Item"), tagsItem) :=
    .nested .root (resolve_of_not_reference (t := tagsTypes.root) nofun)
      (.item rfl (resolve_of_object rfl) rfl)
  have hinner := hitem.nested (resolve_of_object rfl)
    (.property (p := ("tags", innerTags)) rfl (List.mem_singleton_self _) (.object rfl))
  have hname : pascal "tags" = "Tags" := by decide
  refine ⟨document, hdocument ▸ List.mem_singleton_self _, l, group, _, htypes, hl, hgroup, hnames,
    hinner, ⟨_, resolve_of_object rfl, rfl⟩, hname, ?_⟩
  rintro ⟨changes, -, a, ha, hset⟩
  have hmem : a.className? ∈ group.map Artifact.className? := List.mem_map_of_mem ha
  rw [hnames, Artifact.className?, hset, List.mem_singleton] at hmem
  exact absurd (hname.symm.trans (Option.some.inj hmem)) (by decide)

end DomainScaffold.Blueprint
