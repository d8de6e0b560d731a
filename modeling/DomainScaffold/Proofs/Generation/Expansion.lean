import DomainScaffold.Graph.Reader
import DomainScaffold.Proofs.Generation.Origins

/-!
# Expansion of schemas

The classes of a document are found by going through its schema: a node that is an object gets a
class, and what its properties ask for is expanded next to it, unless the name is taken. Definitions
may refer to themselves, so the nodes of a schema are no finite tree; but every node is named after a
part of the schema, and no name is expanded twice.

Results:
* `nested_classesFor_iff`: which nodes a node asks for.
* `known_nested`: every node below the root is named after a part of the schema.
* `expands_expand`: an expansion with enough depth ends as the one without a bound.
* `expands_iff`: every expansion ends, and no two of its classes share a name.
-/

namespace DomainScaffold

open Merge Schema Naming

/-- The name of the class that an artifact changes. -/
def Artifact.className? (a : Artifact) : Option String := a.changeSet?.map (·.target.name)

namespace Blueprint

/-! ## Nodes that a node asks for -/

/-- A node of a schema, at the place of its class. -/
abbrev PlacedType := ClassLocation × SchemaType

/-- The nested nodes next to a place. -/
def placed (l : ClassLocation) (nested : List NestedClass) : List PlacedType :=
  nested.map fun n => (l.sibling n.className, n.type)

variable (b : Blueprint)

/-- What a property of an object asks for: an object as it stands, an object among the definitions
    of the schema that it refers to, and both as the items of a list. -/
inductive AskedBy (types : TypeSet) (key : String) : SchemaType → NestedClass → Prop
  | object {t : SchemaType} (ht : t.properties?.isSome = true) :
      AskedBy types key t ⟨pascal key, t⟩
  | definition {info : Info} {target pointer : String} {kept : Option SchemaType} {u : SchemaType}
      (hlocal : Fields.has target types.localTypes = true)
      (hu : b.resolve types (.node info (.reference target pointer kept)) = .ok u)
      (hobject : u.properties?.isSome = true) :
      AskedBy types key (.node info (.reference target pointer kept)) ⟨pascal target, u⟩
  | items {info : Info} {t : SchemaType} (ht : t.properties?.isSome = true) :
      AskedBy types key (.node info (.array (some t))) ⟨pascal key ++ "Item", t⟩
  | itemDefinition {info itemInfo : Info} {target pointer : String} {kept : Option SchemaType}
      {u : SchemaType} (hlocal : Fields.has target types.localTypes = true)
      (hu : b.resolve types (.node itemInfo (.reference target pointer kept)) = .ok u)
      (hobject : u.properties?.isSome = true) :
      AskedBy types key
        (.node info (.array (some (.node itemInfo (.reference target pointer kept)))))
        ⟨pascal target, u⟩

/-- What a node asks for: what its properties do, or its items if it is a list of objects. -/
inductive Asks (types : TypeSet) (l : ClassLocation) (u : SchemaType) : NestedClass → Prop
  | property {properties : List (String × SchemaType)} {p : String × SchemaType} {n : NestedClass}
      (hu : u.properties? = some properties) (hp : p ∈ properties)
      (h : b.AskedBy types p.1 p.2 n) : Asks types l u n
  | item {items t : SchemaType} (hu : u.shape = .array (some items))
      (ht : b.resolve types items = .ok t) (hobject : t.properties?.isSome = true) :
      Asks types l u ⟨l.className ++ "Item", items⟩

variable {b} {e : Element} {types : TypeSet} {l : ClassLocation} {t u : SchemaType}
  {n : NestedClass} {nested : List NestedClass} {classes : List PlacedClass}

theorem isSome_properties?_iff :
    t.properties?.isSome = true ↔ ∃ properties required additional,
      t.shape = .object properties required additional := by
  obtain ⟨info, shape⟩ := t
  cases shape <;> simp [SchemaType.properties?]

/-- What is no reference stands for itself. -/
theorem resolve_of_not_reference
    (h : ∀ target pointer kept, t.shape ≠ .reference target pointer kept) :
    b.resolve types t = .ok t := by
  rw [resolve, TypeSet.resolve, maxLinks, resolveIn_of_not_reference _ _ h]

theorem resolve_of_object (ht : t.properties?.isSome = true) : b.resolve types t = .ok t := by
  obtain ⟨properties, required, additional, hshape⟩ := isSome_properties?_iff.1 ht
  refine resolve_of_not_reference fun target pointer kept h => ?_
  cases hshape.symm.trans h

theorem mem_itemClasses_iff {key : String} {info : Info} {items : Option SchemaType}
    (h : b.itemClasses types key items = .ok nested) :
    n ∈ nested ↔ b.AskedBy types key (.node info (.array items)) n := by
  unfold itemClasses at h
  split at h
  case h_1 =>
    cases h
    refine iff_of_false List.not_mem_nil fun hn => ?_
    cases hn with
    | object ht => cases ht
  case h_2 items =>
    obtain ⟨itemInfo, shape⟩ := items
    cases shape with
    | object properties required additional =>
      cases h
      rw [List.mem_singleton]
      refine ⟨fun hn => hn ▸ .items rfl, fun hn => ?_⟩
      cases hn with
      | object ht => cases ht
      | items => rfl
    | reference target pointer kept =>
      dsimp only [SchemaType.shape_node] at h
      split at h
      · rename_i hlocal
        obtain ⟨u, hu, rfl⟩ := Outcome.map_eq_ok h
        refine ⟨fun hn => ?_, fun hn => ?_⟩
        · split at hn
          · rename_i hobject
            exact List.mem_singleton.1 hn ▸ .itemDefinition hlocal hu hobject
          · cases hn
        · cases hn with
          | object ht => cases ht
          | items ht => cases ht
          | itemDefinition _ hu' hobject =>
            obtain rfl := Except.ok.inj (hu.symm.trans hu')
            rw [if_pos hobject]
            exact List.mem_singleton_self _
      · rename_i hlocal
        cases h
        refine iff_of_false List.not_mem_nil fun hn => ?_
        cases hn with
        | object ht => cases ht
        | items ht => cases ht
        | itemDefinition hlocal' => exact absurd hlocal' hlocal
    | text | integer | number | boolean | null | array | mixed =>
      cases h
      refine iff_of_false List.not_mem_nil fun hn => ?_
      cases hn with
      | object ht => cases ht
      | items ht => cases ht

theorem nested_propertyType_iff {key : String} {type : PropertyType}
    (hu : b.resolve types t = .ok u) (h : b.propertyType types .classes key t u = .ok type) :
    n ∈ type.nested ↔ b.AskedBy types key t n := by
  obtain ⟨info, shape⟩ := t
  cases shape with
  | object properties required additional =>
    cases h
    rw [List.mem_singleton]
    refine ⟨fun hn => hn ▸ .object rfl, fun hn => ?_⟩
    cases hn
    rfl
  | array items =>
    obtain ⟨nested, hnested, rfl⟩ := Outcome.map_eq_ok h
    exact mem_itemClasses_iff hnested
  | reference target pointer kept =>
    unfold propertyType at h
    dsimp only [SchemaType.shape_node] at h
    split at h
    · rename_i hlocal
      have hiff : b.AskedBy types key (.node info (.reference target pointer kept)) n ↔
          u.properties?.isSome = true ∧ n = ⟨pascal target, u⟩ := by
        refine ⟨fun hn => ?_, fun ⟨hobject, hn⟩ => hn ▸ .definition hlocal hu hobject⟩
        cases hn with
        | object ht => cases ht
        | definition _ hu' hobject =>
          obtain rfl := Except.ok.inj (hu.symm.trans hu')
          exact ⟨hobject, rfl⟩
      rw [hiff]
      split at h
      · rename_i hobject
        cases h
        simp_all
      · rename_i hobject
        cases h
        simp_all [PropertyType.plain]
    · rename_i hlocal
      have hnone : ¬b.AskedBy types key (.node info (.reference target pointer kept)) n := by
        intro hn
        cases hn with
        | object ht => cases ht
        | definition hlocal' => exact hlocal hlocal'
      split at h
      · cases h
        exact ⟨nofun, fun hn => absurd hn hnone⟩
      · obtain ⟨l, -, rfl⟩ := Outcome.map_eq_ok h
        exact ⟨nofun, fun hn => absurd hn hnone⟩
  | text | integer | number | boolean | null | mixed =>
    cases h
    refine ⟨nofun, fun hn => ?_⟩
    cases hn with
    | object ht => cases ht

theorem nested_planProperty_iff {required : List String} {p : String × SchemaType}
    {plan : PropertyPlan × List NestedClass}
    (h : b.planProperty e types required .classes p = .ok plan) :
    n ∈ plan.2 ↔ b.AskedBy types p.1 p.2 n := by
  obtain ⟨u, hu, h⟩ := Outcome.bind_eq_ok h
  obtain ⟨type, htype, h⟩ := Outcome.bind_eq_ok h
  cases h
  refine nested_propertyType_iff ?_ htype
  cases hr : b.resolve types p.2 with
  | error err =>
    rw [hr] at hu
    cases hu
  | ok u' =>
    rw [hr] at hu
    cases hu
    rfl

/-- The classes that a resolved type asks for are those of the nodes that it asks for. -/
theorem nested_classesFor_iff (h : b.classesFor e types l u = .ok (classes, nested)) :
    n ∈ nested ↔ b.Asks types l u n := by
  obtain ⟨info, shape⟩ := u
  cases shape with
  | object properties required additional =>
    obtain ⟨plans, hplans, hp⟩ := Outcome.map_eq_ok h
    cases hp
    rw [List.mem_flatMap]
    refine ⟨fun ⟨plan, hplan, hn⟩ => ?_, fun hn => ?_⟩
    · obtain ⟨p, hp, heq⟩ := Outcome.exists_of_mem_mapM hplans hplan
      exact .property rfl hp ((nested_planProperty_iff heq).1 hn)
    · cases hn with
      | property hu hp hn =>
        cases hu
        obtain ⟨plan, hplan, heq⟩ := Outcome.exists_of_mapM hplans hp
        exact ⟨plan, hplan, (nested_planProperty_iff heq).2 hn⟩
      | item hu => cases hu
  | array items =>
    cases items with
    | none =>
      cases h
      refine ⟨nofun, fun hn => ?_⟩
      cases hn with
      | property hu => cases hu
      | item hu => cases hu
    | some items =>
      obtain ⟨t, ht, hp⟩ := Outcome.map_eq_ok h
      cases hp
      refine ⟨fun hn => ?_, fun hn => ?_⟩
      · split at hn
        · rename_i hobject
          exact List.mem_singleton.1 hn ▸ .item rfl ht hobject
        · cases hn
      · cases hn with
        | property hu => cases hu
        | item hu ht' hobject =>
          cases hu
          obtain rfl := Except.ok.inj (ht.symm.trans ht')
          rw [if_pos hobject]
          exact List.mem_singleton_self _
  | text | integer | number | boolean =>
    cases h
    refine ⟨nofun, fun hn => ?_⟩
    cases hn with
    | property hu => cases hu
    | item hu => cases hu
  | null | reference | mixed => cases h

/-- A nested node is an object. -/
theorem AskedBy.object_type {key : String} (h : b.AskedBy types key t n) :
    n.type.properties?.isSome = true := by
  cases h with
  | object ht => exact ht
  | definition _ _ hobject => exact hobject
  | items ht => exact ht
  | itemDefinition _ _ hobject => exact hobject

/-- What a node asks for stands for an object. -/
theorem Asks.resolve_eq_ok (h : b.Asks types l u n) :
    ∃ v, b.resolve types n.type = .ok v ∧ v.properties?.isSome = true := by
  cases h with
  | property _ _ h => exact ⟨n.type, resolve_of_object h.object_type, h.object_type⟩
  | item _ ht hobject => exact ⟨_, ht, hobject⟩

/-! ## Names of nodes -/

theorem mentions_withInfo (i : Info) (t : SchemaType) : (t.withInfo i).mentions = t.mentions := by
  obtain ⟨info, shape⟩ := t
  rfl

theorem mentions_of_find? {name : String} {d : SchemaType}
    (h : lookup? types b.graph.definitions name = some d) :
    d.mentions ⊆ types.mentions b.graph.definitions := by
  intro m hm
  rw [lookup?, Option.or_eq_some_iff] at h
  simp only [TypeSet.mentions, List.mem_append, List.mem_flatMap]
  rcases h with h | ⟨-, h⟩
  · exact .inl (.inr ⟨(name, d), Fields.mem_of_find? h, hm⟩)
  · obtain ⟨⟨schema, t⟩, hfind, rfl⟩ := Option.map_eq_some_iff.1 h
    exact .inr ⟨_, Fields.mem_of_find? hfind, hm⟩

/-- What a type stands for mentions nothing new. -/
theorem mentions_resolve (ht : t.mentions ⊆ types.mentions b.graph.definitions)
    (h : b.resolve types t = .ok u) : u.mentions ⊆ types.mentions b.graph.definitions := by
  rw [resolve, TypeSet.resolve] at h
  generalize maxLinks = links at h
  induction links generalizing t with
  | zero => cases h
  | succ links ih =>
    obtain ⟨info, shape⟩ := t
    cases shape
    case reference target pointer kept =>
      simp only [resolveIn] at h
      split at h
      · cases h
      · rename_i d hd
        refine ih ?_ h
        rcases Option.or_eq_some_iff.1 hd with rfl | ⟨-, hd⟩
        · exact fun m hm => ht (by simp [SchemaType.mentions, SchemaType.mentionsOfShape,
            SchemaType.mentionsOfOption, hm])
        · obtain ⟨d', hd', rfl⟩ := Option.map_eq_some_iff.1 hd
          rw [inPlaceOf, mentions_withInfo]
          exact mentions_of_find? hd'
    all_goals
      cases h
      exact ht

/-- A name among those of classes that a schema can have. -/
theorem mem_classNames_of_mem {root name : String}
    (h : name ∈ types.mentions b.graph.definitions) :
    pascal name ∈ b.classNames types root ∧ pascal name ++ "Item" ∈ b.classNames types root := by
  simp only [classNames, List.mem_append, List.mem_flatMap]
  exact ⟨.inr ⟨name, h, by simp⟩, .inr ⟨name, h, by simp⟩⟩

/-- A nested node is named after a part of the schema, and mentions nothing new. -/
theorem AskedBy.known {key : String} (root : String) (h : b.AskedBy types key t n)
    (hkey : key ∈ types.mentions b.graph.definitions)
    (ht : t.mentions ⊆ types.mentions b.graph.definitions) :
    n.className ∈ b.classNames types root ∧
      n.type.mentions ⊆ types.mentions b.graph.definitions := by
  cases h with
  | object _ => exact ⟨(mem_classNames_of_mem hkey).1, ht⟩
  | definition _ hu _ =>
    exact ⟨(mem_classNames_of_mem (ht List.mem_cons_self)).1, mentions_resolve ht hu⟩
  | items _ => exact ⟨(mem_classNames_of_mem hkey).2, ht⟩
  | @itemDefinition info itemInfo target pointer kept u _ hu _ =>
    have hitem : (SchemaType.node itemInfo (.reference target pointer kept)).mentions ⊆
        types.mentions b.graph.definitions := ht
    exact ⟨(mem_classNames_of_mem (hitem List.mem_cons_self)).1, mentions_resolve hitem hu⟩

variable (b) in
/-- A node with the root of a schema or below it: its class has a name of the schema, and it mentions
    nothing else; below the root it is an object. -/
structure Known (types : TypeSet) (root : String) (p : PlacedType) : Prop where
  name : p.1.className ∈ b.classNames types root
  mentions : p.2.mentions ⊆ types.mentions b.graph.definitions
  object : p.1.className = root ∨
    ∃ v, b.resolve types p.2 = .ok v ∧ v.properties?.isSome = true

theorem known_root (l : ClassLocation) : b.Known types l.className (l, types.root) where
  name := by simp [classNames]
  mentions m hm := by simp [TypeSet.mentions, hm]
  object := .inl rfl

/-- What a known node asks for is known. A list that asks for a class of its items is the root, so no
    name grows longer than by one word. -/
theorem known_nested {root : String} (h : b.Known types root (l, t))
    (hu : b.resolve types t = .ok u) (hn : b.Asks types l u n) :
    b.Known types root (l.sibling n.className, n.type) := by
  have hmentions := mentions_resolve h.mentions hu
  cases hn with
  | property hproperties hp hn =>
    obtain ⟨info, shape⟩ := u
    cases shape <;> cases hproperties
    obtain ⟨hname, hwithin⟩ := hn.known root (hmentions (SchemaType.key_mem_mentions hp))
      fun m hm => hmentions (SchemaType.mem_mentions_of_property hp hm)
    exact ⟨hname, hwithin, .inr ⟨_, resolve_of_object hn.object_type, hn.object_type⟩⟩
  | item hshape ht hobject =>
    obtain ⟨info, shape⟩ := u
    cases hshape
    refine ⟨?_, hmentions, .inr ⟨_, ht, hobject⟩⟩
    rcases h.object with hroot | ⟨v, hv, hobject'⟩
    · show l.className ++ "Item" ∈ _
      rw [show l.className = root from hroot]
      simp [classNames]
    · obtain rfl := Except.ok.inj (hu.symm.trans hv)
      cases hobject'

/-! ## Expansion without a bound -/

variable (b) in
/-- What a node finds: its class, and the nodes that it asks for. -/
def found (e : Element) (types : TypeSet) (l : ClassLocation) (t : SchemaType) :
    Outcome (List PlacedClass × List NestedClass) :=
  b.resolve types t >>= b.classesFor e types l

variable (b) in
/-- How the expansion of nodes in a row ends. A node whose name is taken is left out; any other one
    is followed by the nodes that it asks for, however deep these are. -/
inductive Expands (e : Element) (types : TypeSet) :
    List PlacedType → Expansion → Outcome Expansion → Prop
  | nil {s : Expansion} : Expands e types [] s (.ok s)
  | taken {l : ClassLocation} {t : SchemaType} {rest : List PlacedType} {s : Expansion}
      {o : Outcome Expansion} (h : s.has l.className = true) (hrest : Expands e types rest s o) :
      Expands e types ((l, t) :: rest) s o
  | failed {l : ClassLocation} {t : SchemaType} {rest : List PlacedType} {s : Expansion}
      {err : GenerationError} (h : s.has l.className = false)
      (hfound : b.found e types l t = .error err) : Expands e types ((l, t) :: rest) s (.error err)
  | stuck {l : ClassLocation} {t : SchemaType} {rest : List PlacedType} {s : Expansion}
      {classes : List PlacedClass} {nested : List NestedClass} {err : GenerationError}
      (h : s.has l.className = false) (hfound : b.found e types l t = .ok (classes, nested))
      (hnested : Expands e types (placed l nested) (s.add l.className classes) (.error err)) :
      Expands e types ((l, t) :: rest) s (.error err)
  | found {l : ClassLocation} {t : SchemaType} {rest : List PlacedType} {s s' : Expansion}
      {classes : List PlacedClass} {nested : List NestedClass} {o : Outcome Expansion}
      (h : s.has l.className = false) (hfound : b.found e types l t = .ok (classes, nested))
      (hnested : Expands e types (placed l nested) (s.add l.className classes) (.ok s'))
      (hrest : Expands e types rest s' o) : Expands e types ((l, t) :: rest) s o

section Expands

variable {p : PlacedType} {ps rest : List PlacedType} {s s' : Expansion} {o o' : Outcome Expansion}
  {err : GenerationError}

theorem Expands.det (h : b.Expands e types ps s o) (h' : b.Expands e types ps s o') : o = o' := by
  induction h generalizing o' with
  | nil =>
    cases h'
    rfl
  | taken htaken _ ih =>
    cases h' with
    | taken _ hrest => exact ih hrest
    | failed hfree => cases htaken.symm.trans hfree
    | stuck hfree => cases htaken.symm.trans hfree
    | found hfree => cases htaken.symm.trans hfree
  | failed hfree hfound =>
    cases h' with
    | taken htaken => cases htaken.symm.trans hfree
    | failed _ hfound' => exact congrArg _ (Except.error.inj (hfound.symm.trans hfound'))
    | stuck _ hfound' => cases hfound.symm.trans hfound'
    | found _ hfound' => cases hfound.symm.trans hfound'
  | stuck hfree hfound _ ih =>
    cases h' with
    | taken htaken => cases htaken.symm.trans hfree
    | failed _ hfound' => cases hfound.symm.trans hfound'
    | stuck _ hfound' hnested =>
      cases hfound.symm.trans hfound'
      exact ih hnested
    | found _ hfound' hnested =>
      cases hfound.symm.trans hfound'
      cases ih hnested
  | found hfree hfound _ _ ih ihrest =>
    cases h' with
    | taken htaken => cases htaken.symm.trans hfree
    | failed _ hfound' => cases hfound.symm.trans hfound'
    | stuck _ hfound' hnested =>
      cases hfound.symm.trans hfound'
      cases ih hnested
    | found _ hfound' hnested hrest =>
      cases hfound.symm.trans hfound'
      cases ih hnested
      exact ihrest hrest

theorem Expands.cons_error (h : b.Expands e types [p] s (.error err)) :
    b.Expands e types (p :: rest) s (.error err) := by
  cases h with
  | taken _ hrest => cases hrest
  | failed hfree hfound => exact .failed hfree hfound
  | stuck hfree hfound hnested => exact .stuck hfree hfound hnested
  | found _ _ _ hrest => cases hrest

theorem Expands.cons_ok (h : b.Expands e types [p] s (.ok s'))
    (hrest : b.Expands e types rest s' o) :
    b.Expands e types (p :: rest) s o := by
  cases h with
  | taken htaken h =>
    cases h
    exact .taken htaken hrest
  | found hfree hfound hnested h =>
    cases h
    exact .found hfree hfound hnested hrest

/-- No name becomes free again, and no class is lost. -/
theorem Expands.subset (h : b.Expands e types ps s o) (ho : o = .ok s') :
    s.taken ⊆ s'.taken ∧ s.classes ⊆ s'.classes := by
  induction h generalizing s' with
  | nil =>
    cases ho
    exact ⟨fun _ hn => hn, fun _ hc => hc⟩
  | taken _ _ ih => exact ih ho
  | failed => cases ho
  | stuck => cases ho
  | found _ _ _ _ ih ihrest =>
    obtain ⟨htaken, hclasses⟩ := ih rfl
    obtain ⟨htaken', hclasses'⟩ := ihrest ho
    exact ⟨fun _ hn => htaken' (htaken (List.mem_cons_of_mem _ hn)),
      fun _ hc => hclasses' (hclasses (List.mem_append_left _ hc))⟩

theorem has_iff {name : String} : s.has name = true ↔ Text.foldAscii name ∈ s.taken := by
  rw [Expansion.has, List.contains_iff_mem]

theorem has_add_iff {name : String} : (s.add l.className classes).has name = true ↔
    Text.foldAscii name = Text.foldAscii l.className ∨ s.has name = true := by
  rw [has_iff, has_iff, Expansion.add, List.mem_cons]

/-! ### The depth that is enough -/

variable (b) in
/-- The number of names of a schema that are free. -/
def free (types : TypeSet) (root : String) (s : Expansion) : Nat :=
  (b.classNames types root).countP fun name => !s.has name

theorem free_le_of_subset {root : String} (h : s.taken ⊆ s'.taken) :
    b.free types root s' ≤ b.free types root s := by
  refine List.countP_mono_left fun name _ hname => ?_
  rw [Bool.not_eq_true', Bool.eq_false_iff, Ne, has_iff] at hname ⊢
  exact fun hmem => hname (h hmem)

theorem free_add_lt {root : String} (hname : l.className ∈ b.classNames types root)
    (hfree : s.has l.className = false) :
    b.free types root (s.add l.className classes) < b.free types root s := by
  obtain ⟨before, after, hsplit⟩ := List.append_of_mem hname
  have hmono : ∀ names : List String,
      names.countP (fun name => !(s.add l.className classes).has name) ≤
        names.countP fun name => !s.has name := fun names => by
    refine List.countP_mono_left fun name _ hname => ?_
    rw [Bool.not_eq_true', Bool.eq_false_iff] at hname ⊢
    exact fun hmem => hname (has_add_iff.2 (.inr hmem))
  have htaken : (s.add l.className classes).has l.className = true := has_add_iff.2 (.inl rfl)
  rw [free, free, hsplit, List.countP_append, List.countP_append, List.countP_cons, List.countP_cons,
    htaken, hfree]
  have := hmono before
  have := hmono after
  simp only [Bool.not_true, Bool.not_false, Bool.false_eq_true, if_false, if_true]
  omega

theorem expand_of_free {depth : Nat} (hfree : s.has l.className = false) :
    b.expand e types (depth + 1) l t s = b.found e types l t >>= fun f =>
      f.2.foldlM (fun s n => b.expand e types depth (l.sibling n.className) n.type s)
        (s.add l.className f.1) := by
  rw [expand, if_neg (ne_true_of_eq_false hfree), found, bind_assoc]

/-- Nodes in a row, if each of them ends with the depth that is left. -/
theorem expands_foldlM {root : String} {depth : Nat}
    (h : ∀ n ∈ nested, ∀ s, b.free types root s ≤ depth →
      b.Expands e types [(l.sibling n.className, n.type)] s
        (b.expand e types depth (l.sibling n.className) n.type s))
    (hdepth : b.free types root s ≤ depth) :
    b.Expands e types (placed l nested) s
      (nested.foldlM (fun s n => b.expand e types depth (l.sibling n.className) n.type s) s) := by
  induction nested generalizing s with
  | nil => exact .nil
  | cons n nested ih =>
    rw [List.forall_mem_cons] at h
    have hn := h.1 s hdepth
    rw [List.foldlM_cons]
    cases hnext : b.expand e types depth (l.sibling n.className) n.type s with
    | error err =>
      rw [hnext] at hn
      exact hn.cons_error
    | ok s' =>
      rw [hnext] at hn
      exact hn.cons_ok (ih h.2 (Nat.le_trans (free_le_of_subset (hn.subset rfl).1) hdepth))

/-- An expansion that may be as deep as there are free names ends as the one without a bound. The
    induction is on the depth: a node takes a name before it is followed by the nodes that it asks
    for. -/
theorem expands_expand {root : String} {depth : Nat} (hp : b.Known types root (l, t))
    (hdepth : b.free types root s ≤ depth) :
    b.Expands e types [(l, t)] s (b.expand e types depth l t s) := by
  induction depth generalizing l t s with
  | zero =>
    refine .taken ?_ .nil
    have hnone := List.countP_eq_zero.1 (Nat.le_zero.1 hdepth) l.className hp.name
    simpa using hnone
  | succ depth ih =>
    cases hfree : s.has l.className with
    | true =>
      rw [expand, if_pos hfree]
      exact .taken hfree .nil
    | false =>
      rw [expand_of_free hfree]
      cases hfound : b.found e types l t with
      | error err => exact .failed hfree hfound
      | ok f =>
        obtain ⟨classes, nested⟩ := f
        obtain ⟨u, hu, hclasses⟩ := Outcome.bind_eq_ok hfound
        have hrow := expands_foldlM (e := e) (s := s.add l.className classes)
          (fun n hn s hs => ih (known_nested hp hu ((nested_classesFor_iff hclasses).1 hn)) hs)
          (Nat.le_of_lt_succ (Nat.lt_of_lt_of_le (free_add_lt hp.name hfree) hdepth))
        show b.Expands e types [(l, t)] s (nested.foldlM _ (s.add l.className classes))
        cases hend : nested.foldlM
            (fun s n => b.expand e types depth (l.sibling n.className) n.type s)
            (s.add l.className classes) with
        | error err =>
          rw [hend] at hrow
          exact .stuck hfree hfound hrow
        | ok s' =>
          rw [hend] at hrow
          exact .found hfree hfound hrow .nil

theorem expands_expansion (l : ClassLocation) :
    b.Expands e types [(l, types.root)] .empty (b.expansion e types l) :=
  expands_expand (known_root l) List.countP_le_length

end Expands

theorem nodup_valueObjects {group : List Artifact} (h : b.valueObjects e = .ok group) :
    (group.map fun a => a.className?.map Text.foldAscii).Nodup := by
  rcases b.valueObjects_eq_ok h with ⟨rfl, -⟩ | ⟨types, l, s, -, -, hs, rfl⟩
  · exact List.nodup_nil
  · have hnames : s.names.Nodup := (b.wellNamed_expansion hs).1
    rw [Expansion.names, List.Nodup, List.pairwise_map] at hnames
    rw [List.map_map, List.Nodup, List.pairwise_map]
    exact hnames.imp fun hne heq => hne (Option.some.inj heq)

/-- The expansion of every schema ends, in the one way that `expansion` gives; and no two artifacts
    of a document have the name of one class, with or without case. -/
theorem expands_iff (b : Blueprint) (e : Element) (types : TypeSet) (l : ClassLocation) :
    (∀ o, b.Expands e types [(l, types.root)] .empty o ↔ o = b.expansion e types l) ∧
    ∀ group, b.valueObjects e = .ok group →
      (group.map fun a => a.className?.map Text.foldAscii).Nodup := by
  exact ⟨fun o => ⟨fun h => h.det (expands_expansion l), fun h => h ▸ expands_expansion l⟩,
    fun _ => nodup_valueObjects⟩

/-- A project with one document. -/
def oneDocument (name : String) (schema : Json) : Blueprint :=
  ⟨.standard (Naming.Autoload.empty.insert "Acme" ⟨"src"⟩),
    (DomainGraph.ofNodes [⟨"document", name, "document", some (.object [("schema", schema)]), [], [],
      none⟩]).toOption.getD ⟨[], [], .empty⟩⟩

/-- The schema of an object with properties. -/
def objectSchema (properties : Fields Json) : Json :=
  .object [("type", .text "object"), ("properties", .object properties)]

/-- A document whose definition refers to itself and to the document. -/
def grove : Blueprint :=
  let ref (target : String) : Json := .object [("$ref", .text ("#/definitions/" ++ target))]
  let tree := objectSchema
    [("left", ref "Tree"), ("place", objectSchema [("grove", ref "Grove"), ("tree", ref "Tree")])]
  oneDocument "Grove" (.object [("type", .text "object"),
    ("properties", .object [("oldest", ref "Tree")]), ("definitions", .object [("Tree", tree)])])

theorem expands_iff_grove :
    ∃ document ∈ grove.graph.ofKind .document, ∃ types l s group, document.types = some types ∧
      grove.Expands document types [(l, types.root)] .empty (.ok s) ∧
      grove.valueObjects document = .ok group ∧
      group.map Artifact.className? = [some "Grove", some "Tree", some "Place"] ∧
      (group.map fun a => a.className?.map Text.foldAscii).Nodup := by
  have hnames : ∃ document ∈ grove.graph.ofKind .document,
      (grove.valueObjects document).toOption.map (List.map Artifact.className?) =
        some [some "Grove", some "Tree", some "Place"] := by decide +kernel
  obtain ⟨document, hdocument, hnames⟩ := hnames
  obtain ⟨group, hgroup, hnames⟩ := Option.map_eq_some_iff.1 hnames
  rw [Outcome.toOption_eq_some_iff] at hgroup
  rcases grove.valueObjects_eq_ok hgroup with ⟨rfl, -⟩ | ⟨types, l, s, htypes, -, hs, -⟩
  · cases hnames
  · obtain ⟨hends, hnodup⟩ := expands_iff grove document types l
    exact ⟨document, hdocument, types, l, s, group, htypes, (hends _).2 hs.symm, hgroup, hnames,
      hnodup group hgroup⟩

end Blueprint

end DomainScaffold
