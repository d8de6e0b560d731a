import Mathlib.Data.List.Perm.Subperm
import DomainScaffold.Proofs.Generation.NestedClasses
import DomainScaffold.Proofs.Merge.Contents

/-!
# Fields of records

Every property of an object schema gives its record a constant with the key, a field and a method
that reads it, each under a name that is made of the key. Where two keys get one name, one of them
loses what the name is for, and nothing reports it.

Results:
* `IsRecord.exists_plans`: what a record class is made of.
* `exists_isRecord_of_valueObjects`: documents with object schemas have records.
* `hasConstant_iff`, `length_propertyNames_iff`, `length_getters_iff`: what the class of a record has.
* `record_fields`: when a record has everything for its keys.
* `userName_lost`: a key that loses all three to another one.
-/

namespace DomainScaffold.Blueprint

open Php Merge Schema Naming

/-! ## Record classes -/

/-- How record classes come about, with the keys of the schema and the methods that they have beside
    those for the keys. -/
inductive IsRecord (b : Blueprint) : Artifact → List String → List MethodDecl → Prop
  | message {e : Element} {types : TypeSet} {properties : List (String × SchemaType)}
      {required : List String} {additional : Bool} {a : Artifact} (htypes : e.types = some types)
      (hroot : types.root.shape = .object properties required additional)
      (h : b.message e = .ok a) : IsRecord b a (properties.map Prod.fst) []
  | state {c : AggregateConnection} {aggregate : Element} {events : List Element} {types : TypeSet}
      {properties : List (String × SchemaType)} {required : List String} {additional : Bool}
      {a : Artifact} (hstyle : b.settings.stateStyle = .immutableRecord)
      (haggregate : b.element c.aggregate = .ok aggregate)
      (hevents : c.events.mapM b.element = .ok events)
      (htypes : (b.stateSource c aggregate).types = some types)
      (hroot : types.root.shape = .object properties required additional)
      (h : b.state c = .ok a) : IsRecord b a (properties.map Prod.fst) (events.map b.wither)
  | request {document : Element} {types : TypeSet} {properties : List (String × SchemaType)}
      {required : List String} {additional : Bool} {a : Artifact} {group : List Artifact}
      (htypes : document.queryTypes = some types)
      (hroot : types.root.shape = .object properties required additional)
      (h : b.query document = .ok (a :: group)) : IsRecord b a (properties.map Prod.fst) []
  | valueObject {document : Element} {types : TypeSet} {l : ClassLocation} {p : PlacedType}
      {u : SchemaType} {properties : List (String × SchemaType)} {required : List String}
      {additional : Bool} {changes : List Change} {a : Artifact} {group : List Artifact}
      (htypes : document.types = some types) (hl : b.locate document = .ok l)
      (h : b.valueObjects document = .ok group) (hp : b.IsNode types l p)
      (hu : b.resolve types p.2 = .ok u) (hshape : u.shape = .object properties required additional)
      (hown : b.OwnChanges document types p.2 changes) (ha : a ∈ group)
      (hset : a.changeSet? = some (p.1.changeSet changes)) :
      IsRecord b a (properties.map Prod.fst) []

variable {b : Blueprint} {e : Element} {types : TypeSet} {required : List String}
  {nesting : Nesting} {properties : List (String × SchemaType)}

/-- Plans name constants and fields after their keys. -/
theorem names_planProperties {plans : List (PropertyPlan × List NestedClass)}
    (h : b.planProperties e types properties required nesting = .ok plans)
    {plan : PropertyPlan × List NestedClass} (hplan : plan ∈ plans) :
    plan.1.constant = b.naming.name .constantName plan.1.key ∧
      plan.1.property = b.naming.name .propertyName plan.1.key := by
  obtain ⟨p, -, hp⟩ := Outcome.exists_of_mem_mapM h hplan
  obtain ⟨_, -, hp⟩ := Outcome.bind_eq_ok hp
  obtain ⟨_, -, hp⟩ := Outcome.bind_eq_ok hp
  cases hp
  exact ⟨rfl, rfl⟩

/-- What the plans of a record have to do with its keys. -/
structure PlansFor (b : Blueprint) (keys : List String) (plans : List PropertyPlan) : Prop where
  keys : plans.map PropertyPlan.key = keys
  constant : ∀ p ∈ plans, p.constant = b.naming.name .constantName p.key
  property : ∀ p ∈ plans, p.property = b.naming.name .propertyName p.key

theorem plansFor_of_planProperties {plans : List (PropertyPlan × List NestedClass)}
    (h : b.planProperties e types properties required nesting = .ok plans) :
    b.PlansFor (properties.map Prod.fst) (plans.map Prod.fst) where
  keys := by
    rw [List.map_map]
    exact b.keys_planProperties h
  constant := List.forall_mem_map.2 fun _ hplan => (names_planProperties h hplan).1
  property := List.forall_mem_map.2 fun _ hplan => (names_planProperties h hplan).2

theorem exists_plans_of_rootRecord {additional : Bool} {changes : List Change}
    (hroot : types.root.shape = .object properties required additional)
    (h : b.rootRecord e types = .ok changes) :
    ∃ plans, changes = recordChanges plans ∧ b.PlansFor (properties.map Prod.fst) plans := by
  simp only [rootRecord, hroot] at h
  obtain ⟨plans, hplans, rfl⟩ := Outcome.map_eq_ok h
  exact ⟨plans.map Prod.fst, rfl, plansFor_of_planProperties hplans⟩

/-- What a record class is made of. -/
theorem IsRecord.exists_plans {a : Artifact} {keys : List String} {others : List MethodDecl}
    (h : b.IsRecord a keys others) :
    ∃ l plans, a.changeSet? = some (ClassLocation.changeSet l
      (recordChanges plans ++ others.map .method)) ∧ b.PlansFor keys plans := by
  cases h with
  | message htypes hroot h =>
    unfold Blueprint.message at h
    split at h
    · obtain ⟨l, -, h⟩ := Outcome.bind_eq_ok h
      rw [htypes] at h
      obtain ⟨changes, hchanges, h⟩ := Outcome.bind_eq_ok h
      cases h
      obtain ⟨plans, rfl, hplans⟩ := exists_plans_of_rootRecord hroot hchanges
      exact ⟨l, plans, by simp, hplans⟩
    · cases h
  | state hstyle haggregate hevents htypes hroot h =>
    obtain ⟨aggregate', haggregate', h⟩ := Outcome.bind_eq_ok h
    obtain rfl := Except.ok.inj (haggregate.symm.trans haggregate')
    obtain ⟨l, -, h⟩ := Outcome.bind_eq_ok h
    obtain ⟨data, hdata, h⟩ := Outcome.bind_eq_ok h
    obtain ⟨events', hevents', h⟩ := Outcome.bind_eq_ok h
    obtain rfl := Except.ok.inj (hevents.symm.trans hevents')
    cases h
    simp only [stateData, hstyle, htypes] at hdata
    obtain ⟨plans, rfl, hplans⟩ := exists_plans_of_rootRecord hroot hdata
    refine ⟨l, plans, ?_, hplans⟩
    rw [Artifact.changeSet?_ofClass, List.map_map]
    rfl
  | request htypes hroot h =>
    unfold query at h
    split at h
    · rw [htypes] at h
      obtain ⟨request, hrequest, h⟩ := Outcome.bind_eq_ok h
      obtain ⟨resolver, -, h⟩ := Outcome.bind_eq_ok h
      obtain ⟨resolvers, -, h⟩ := Outcome.bind_eq_ok h
      obtain ⟨description, -, h⟩ := Outcome.bind_eq_ok h
      cases h
      obtain ⟨l, changes, rfl, hchanges⟩ := b.request_eq_ok hrequest
      obtain ⟨plans, rfl, hplans⟩ := exists_plans_of_rootRecord hroot hchanges
      exact ⟨l, plans, by simp, hplans⟩
    · cases h
  | valueObject htypes hl h hp hu hshape hown ha hset =>
    cases hown with
    | scalar hu' hscalar =>
      obtain rfl := Except.ok.inj (hu.symm.trans hu')
      simp [scalarNames?, hshape] at hscalar
    | record hu' hshape' hplans =>
      obtain rfl := Except.ok.inj (hu.symm.trans hu')
      cases hshape.symm.trans hshape'
      exact ⟨_, _, by simpa using hset, plansFor_of_planProperties hplans⟩

/-- A document with an object schema gets a record unless a state represents it. -/
theorem exists_isRecord_of_valueObjects {document : Element} {l : ClassLocation} {u : SchemaType}
    {additional : Bool} {group : List Artifact} (htypes : document.types = some types)
    (hstate : document.isAggregateState = false) (hl : b.locate document = .ok l)
    (hu : b.resolve types types.root = .ok u)
    (hshape : u.shape = .object properties required additional)
    (h : b.valueObjects document = .ok group) :
    ∃ a ∈ group, b.IsRecord a (properties.map Prod.fst) [] := by
  rcases b.valueObjects_eq_ok h with ⟨-, hnone | htrue⟩ | ⟨types', l', s, htypes', hl', hs, hgroup⟩
  · rw [htypes] at hnone
    cases hnone
  · rw [hstate] at htrue
    cases htrue
  · obtain rfl := Option.some.inj (htypes.symm.trans htypes')
    obtain rfl := Except.ok.inj (hl.symm.trans hl')
    obtain ⟨u', classes, nested, hu', hclasses, hsub⟩ := classes_subset_expansion hs
    have hfound : b.found document types l types.root = .ok (classes, nested) := by
      rw [found, hu']
      exact hclasses
    have hobject : b.IsObject types (l, types.root) :=
      ⟨u, hu, by simp [SchemaType.properties?, hshape]⟩
    obtain ⟨changes, hmem, hown⟩ := exists_own_of_found (p := (l, types.root)) hfound hobject
    refine ⟨_, hgroup ▸ List.mem_map_of_mem (hsub hmem), ?_⟩
    exact .valueObject htypes hl h .root hu hshape hown
      (hgroup ▸ List.mem_map_of_mem (hsub hmem)) rfl

/-- The methods beside those for the keys make copies for events. -/
theorem IsRecord.eq_wither {a : Artifact} {keys : List String} {others : List MethodDecl}
    (h : b.IsRecord a keys others) : ∀ d ∈ others, ∃ event, d = b.wither event := by
  cases h with
  | @state _ _ events =>
    exact List.forall_mem_map.2 fun event _ => ⟨event, rfl⟩
  | _ => exact fun _ hd => absurd hd List.not_mem_nil

/-! ## The class of a record -/

/-- Whether a class has a constant with a value. -/
def HasConstant (c : ClassDecl) (value : Expr) : Prop :=
  ∃ name, (name, value) ∈ c.members.flatMap Member.constants

/-- Whether a method returns the property that it is named for. -/
def isGetter (d : MethodDecl) : Bool := d.body == some [.ofReturn (.ofThis d.name)]

/-- The methods of a class that return the properties that they are named for. -/
def getters (c : ClassDecl) : List MethodDecl := c.methods.filter isGetter

/-- A list without duplicates out of another one is as long exactly if that has no duplicates and is
    covered. -/
theorem length_eq_iff_of_subset {α : Type} {as bs : List α} (has : as.Nodup) (hsub : as ⊆ bs) :
    as.length = bs.length ↔ bs.Nodup ∧ bs ⊆ as := by
  constructor
  · intro hlength
    have hperm := (List.subperm_of_subset has hsub).perm_of_length_le (Nat.le_of_eq hlength.symm)
    exact ⟨hperm.nodup_iff.1 has, hperm.symm.subset⟩
  · rintro ⟨hbs, hcover⟩
    exact Nat.le_antisymm (List.subperm_of_subset has hsub).length_le
      (List.subperm_of_subset hbs hcover).length_le

section Record

variable {plans : List PropertyPlan} {others : List MethodDecl} {p : PropertyPlan}

/-- The changes of a record with methods beside those for its keys. -/
def recordWith (plans : List PropertyPlan) (others : List MethodDecl) : List Change :=
  recordChanges plans ++ others.map .method

theorem constant_mem_recordWith {decl : ConstantDecl} :
    .constant decl ∈ recordWith plans others ↔
      ∃ p ∈ plans, decl = .publicOne p.constant (.text p.key) := by
  simp [recordWith, recordChanges, recordBase, recordMembers, PropertyPlan.fields,
    Framework.imported]

theorem property_mem_recordWith {decl : PropertyDecl} :
    .property decl ∈ recordWith plans others ↔
      ∃ p ∈ plans, decl = .privateOne p.hint p.property none := by
  simp [recordWith, recordChanges, recordBase, recordMembers, PropertyPlan.fields,
    Framework.imported]

theorem declaredMethods_recordWith :
    declaredMethods (recordWith plans others) = plans.map PropertyPlan.getter ++ others := by
  have hfields : declaredMethods (plans.flatMap PropertyPlan.fields) = [] :=
    List.filterMap_eq_nil_iff.2 <| List.forall_mem_flatMap.2 fun p _ => by
      cases hneeds : p.needs <;>
        simp [PropertyPlan.fields, hneeds, methodOfChange?, Framework.imported]
  have hgetters : plans.map (fun p => .method p.getter) =
      (plans.map PropertyPlan.getter).map Change.method := by rw [List.map_map]; rfl
  rw [recordWith, recordChanges, recordMembers, declaredMethods_append, declaredMethods_append,
    declaredMethods_append, hfields, hgetters, declaredMethods_map_method, declaredMethods_map_method]
  rfl

theorem forall_recordWith {P : Change → Prop} (hbase : ∀ ch ∈ recordBase, P ch)
    (hneeds : ∀ n, P (Framework.imported n))
    (hconstant : ∀ name value, P (.constant (.publicOne name value)))
    (hproperty : ∀ hint name, P (.property (.privateOne hint name none)))
    (hgetter : ∀ p : PropertyPlan, P (.method p.getter)) (hothers : ∀ d ∈ others, P (.method d)) :
    ∀ ch ∈ recordWith plans others, P ch := by
  have hfields : ∀ p : PropertyPlan, ∀ ch ∈ p.fields, P ch := fun p => by
    cases hp : p.needs <;> simp [PropertyPlan.fields, hp, hneeds, hconstant, hproperty]
  simp only [recordWith, recordChanges, recordMembers, List.forall_mem_append,
    List.forall_mem_flatMap, List.forall_mem_map]
  exact ⟨⟨hbase, fun p _ => hfields p, fun p _ => hgetter p⟩, hothers⟩

theorem declaresEach_recordWith : ∀ ch ∈ recordWith plans others, DeclaresEach ch :=
  forall_recordWith (by simp [recordBase, DeclaresEach, Framework.imported]) (fun _ => trivial)
    (fun _ _ => trivial) (fun _ _ => trivial) (fun _ => trivial) fun _ _ => trivial

theorem bringsDistinct_recordWith (hothers : ∀ d ∈ others, MethodDistinct d) :
    ∀ ch ∈ recordWith plans others, BringsDistinct ch := by
  refine forall_recordWith (by simp [recordBase, BringsDistinct, Framework.imported])
    (fun _ => trivial) (fun _ _ => trivial) (fun _ _ => trivial) (fun p body hbody => ?_) hothers
  cases hbody
  exact ⟨List.nodup_nil, List.nodup_nil⟩

variable {policy : MergePolicy} {c : ClassDecl} {keys : List String}

/-! ### Constants -/

theorem mem_constants (h : Contents policy (recordWith plans others) c) {name : String}
    {value : Expr} (hmem : (name, value) ∈ c.members.flatMap Member.constants) :
    ∃ p ∈ plans, name = p.constant ∧ value = .text p.key := by
  obtain ⟨⟨kind, _, _⟩, hm, hmem⟩ := List.mem_flatMap.1 hmem
  have hsaid := h.said _ hm
  cases hsaid with
  | constant hdecl hentry hd =>
    obtain ⟨p, hp, rfl⟩ := constant_mem_recordWith.1 hdecl
    obtain rfl := List.mem_singleton.1 hentry
    have heq : (name, value) = (p.constant, .text p.key) := by
      simpa [Member.constants, hd] using hmem
    cases heq
    exact ⟨p, hp, rfl, rfl⟩
  | _ => cases hmem

theorem exists_constant (h : Contents policy (recordWith plans others) c) (hp : p ∈ plans) :
    ∃ value, (p.constant, value) ∈ c.members.flatMap Member.constants := by
  have hslot := h.has _ (constant_mem_recordWith.2 ⟨p, hp, rfl⟩) (.constant p.constant)
    (by simp [replacedSlots, ConstantDecl.publicOne])
  obtain ⟨m, hm, hfits⟩ := List.any_eq_true.1 hslot
  rw [← constantNames_contains_eq, List.contains_iff_mem, List.mem_map] at hfits
  obtain ⟨entry, hentry, hname⟩ := hfits
  exact ⟨entry.2, List.mem_flatMap.2 ⟨m, hm, hname ▸ hentry⟩⟩

/-- There is a constant for every key exactly if no two keys get one name. -/
theorem hasConstant_iff (hplans : b.PlansFor keys plans)
    (h : Contents policy (recordWith plans others) c) :
    (∀ key ∈ keys, HasConstant c (.text key)) ↔ ∀ key ∈ keys, ∀ key' ∈ keys,
      b.naming.name .constantName key = b.naming.name .constantName key' → key = key' := by
  have hdistinct : ((c.members.flatMap Member.constants).map Prod.fst).Nodup := by
    rw [List.map_flatMap]
    exact h.distinct.constants
  constructor
  · intro hall key hkey key' hkey' hname
    obtain ⟨name, hmem⟩ := hall key hkey
    obtain ⟨name', hmem'⟩ := hall key' hkey'
    obtain ⟨p, hp, rfl, hvalue⟩ := mem_constants h hmem
    obtain ⟨p', hp', rfl, hvalue'⟩ := mem_constants h hmem'
    cases hvalue
    cases hvalue'
    rw [← hplans.constant p hp, ← hplans.constant p' hp'] at hname
    have heq := List.inj_on_of_nodup_map hdistinct hmem hmem' hname
    simpa using congrArg Prod.snd heq
  · intro hinj key hkey
    obtain ⟨p, hp, rfl⟩ := List.mem_map.1 (hplans.keys ▸ hkey)
    obtain ⟨value, hmem⟩ := exists_constant h hp
    obtain ⟨q, hq, hname, rfl⟩ := mem_constants h hmem
    rw [hplans.constant p hp, hplans.constant q hq] at hname
    have heq := hinj p.key hkey q.key (hplans.keys ▸ List.mem_map_of_mem hq) hname
    exact ⟨p.constant, heq ▸ hmem⟩

/-! ### Fields -/

theorem mem_propertyNames_iff (h : Contents policy (recordWith plans others) c) {name : String} :
    name ∈ c.propertyNames ↔ name ∈ plans.map PropertyPlan.property := by
  constructor
  · intro hmem
    obtain ⟨⟨kind, _, _⟩, hm, hmem⟩ := List.mem_flatMap.1 hmem
    have hsaid := h.said _ hm
    cases hsaid with
    | property hdecl hentry hd =>
      obtain ⟨p, hp, rfl⟩ := property_mem_recordWith.1 hdecl
      obtain rfl := List.mem_singleton.1 hentry
      obtain rfl : name = p.property := by simpa [Member.properties, hd] using hmem
      exact List.mem_map_of_mem hp
    | _ => cases hmem
  · intro hmem
    obtain ⟨p, hp, rfl⟩ := List.mem_map.1 hmem
    have hslot := h.has _ (property_mem_recordWith.2 ⟨p, hp, rfl⟩) (.property p.property)
      (by simp [replacedSlots, PropertyDecl.privateOne])
    obtain ⟨m, hm, hfits⟩ := List.any_eq_true.1 hslot
    rw [← propertyNames_contains_eq, List.contains_iff_mem] at hfits
    exact List.mem_flatMap.2 ⟨m, hm, hfits⟩

theorem PlansFor.map_property (hplans : b.PlansFor keys plans) :
    plans.map PropertyPlan.property = keys.map (b.naming.name .propertyName) := by
  rw [← hplans.keys, List.map_map]
  exact List.map_congr_left hplans.property

/-- There is a field for every key exactly if no two keys get one name. -/
theorem length_propertyNames_iff (hplans : b.PlansFor keys plans)
    (h : Contents policy (recordWith plans others) c) :
    c.propertyNames.length = keys.length ↔ (keys.map (b.naming.name .propertyName)).Nodup := by
  have hsub : c.propertyNames ⊆ plans.map PropertyPlan.property :=
    fun _ hn => (mem_propertyNames_iff h).1 hn
  have hiff := length_eq_iff_of_subset h.distinct.properties hsub
  rw [hplans.map_property, List.length_map] at hiff
  rw [hiff, and_iff_left_iff_imp, ← hplans.map_property]
  exact fun _ _ hn => (mem_propertyNames_iff h).2 hn

/-! ### Methods -/

theorem isGetter_getter (p : PropertyPlan) : isGetter p.getter = true := beq_self_eq_true _

theorem mem_of_mem_getters (h : Contents policy (recordWith plans others) c)
    (hothers : ∀ d ∈ others, isGetter d = false) {d : MethodDecl} (hd : d ∈ getters c) :
    d ∈ plans.map PropertyPlan.getter := by
  obtain ⟨hd, hgetter⟩ := List.mem_filter.1 hd
  have hmem := h.mem_declaredMethods hd
  rw [declaredMethods_recordWith, List.mem_append] at hmem
  refine hmem.resolve_right fun hd => ?_
  rw [hothers d hd] at hgetter
  cases hgetter

/-- The names of the getters are those of the fields; under the policy that replaces they give way to
    those of other methods. -/
theorem mem_names_getters_iff (h : Contents policy (recordWith plans others) c)
    (hothers : ∀ d ∈ others, isGetter d = false) {name : String} :
    name ∈ (getters c).map (fun d => Text.foldAscii d.name) ↔
      name ∈ plans.map (fun p => Text.foldAscii p.property) ∧
        (policy = .replace → ∀ d ∈ others, Text.foldAscii d.name ≠ name) := by
  constructor
  · intro hname
    obtain ⟨d, hd, rfl⟩ := List.mem_map.1 hname
    obtain ⟨p, hp, rfl⟩ := List.mem_map.1 (mem_of_mem_getters h hothers hd)
    refine ⟨List.mem_map_of_mem hp, ?_⟩
    rintro rfl w hw hsame
    have hmethod := h.method?_of_mem (List.mem_filter.1 hd).1
    rw [h.method?, declaredMethods_recordWith, chosen_replace_append hw (beq_iff_eq.2 hsame)]
      at hmethod
    have hfalse := hothers _ (mem_of_chosen hmethod).1
    rw [isGetter_getter] at hfalse
    cases hfalse
  · rintro ⟨hname, hfree⟩
    obtain ⟨p, hp, rfl⟩ := List.mem_map.1 hname
    have hsame : Text.sameIgnoringCase p.getter.name p.property = true :=
      Text.sameIgnoringCase_refl p.property
    obtain ⟨g, hg⟩ := exists_chosen policy (List.mem_map_of_mem hp) hsame
    have hchosen : chosen policy p.property (plans.map PropertyPlan.getter ++ others) = some g := by
      cases policy with
      | preserve => exact chosen_preserve_append hg
      | replace =>
        rw [chosen_append_of_forall fun d hd => beq_eq_false_iff_ne.2 (hfree rfl d hd), hg]
    rw [← declaredMethods_recordWith, ← h.method?] at hchosen
    obtain ⟨hmem, hsame⟩ := mem_of_chosen hg
    obtain ⟨q, -, rfl⟩ := List.mem_map.1 hmem
    refine List.mem_map.2 ⟨q.getter, List.mem_filter.2 ⟨?_, isGetter_getter q⟩, beq_iff_eq.1 hsame⟩
    exact List.mem_of_find?_eq_some hchosen

/-- A key as the name of its getter is compared. -/
def getterName (b : Blueprint) (key : String) : String :=
  Text.foldAscii (b.naming.name .propertyName key)

theorem PlansFor.map_getterName (hplans : b.PlansFor keys plans) :
    plans.map (fun p => Text.foldAscii p.property) = keys.map b.getterName := by
  rw [← hplans.keys, List.map_map]
  exact List.map_congr_left fun p hp => congrArg Text.foldAscii (hplans.property p hp)

/-- There is a getter for every key exactly if no two keys get one name but for case, and no other
    method replaces one. -/
theorem length_getters_iff (hplans : b.PlansFor keys plans)
    (h : Contents policy (recordWith plans others) c) (hothers : ∀ d ∈ others, isGetter d = false) :
    (getters c).length = keys.length ↔ (keys.map b.getterName).Nodup ∧
      (policy = .replace → ∀ d ∈ others, ∀ key ∈ keys, Text.foldAscii d.name ≠ b.getterName key) := by
  have hmem : ∀ name, name ∈ (getters c).map (fun d => Text.foldAscii d.name) ↔
      name ∈ keys.map b.getterName ∧
        (policy = .replace → ∀ d ∈ others, Text.foldAscii d.name ≠ name) := fun name => by
    rw [mem_names_getters_iff h hothers, hplans.map_getterName]
  have hdistinct : ((getters c).map fun d => Text.foldAscii d.name).Nodup :=
    h.distinct.methods.sublist (List.filter_sublist.map _)
  have hiff := length_eq_iff_of_subset hdistinct fun name hname => ((hmem name).1 hname).1
  rw [List.length_map, List.length_map] at hiff
  rw [hiff]
  refine and_congr_right fun _ => ⟨fun hsub hpolicy d hd key hkey => ?_, fun hfree name hname => ?_⟩
  · exact ((hmem _).1 (hsub (List.mem_map_of_mem hkey))).2 hpolicy d hd
  · refine (hmem name).2 ⟨hname, fun hpolicy d hd => ?_⟩
    obtain ⟨key, hkey, rfl⟩ := List.mem_map.1 hname
    exact hfree hpolicy d hd key hkey

end Record

/-! ## Records -/

theorem isGetter_wither (event : Element) : isGetter (b.wither event) = false := by
  simp [isGetter, wither, MethodDecl.publicOne, MethodDecl.plain]

theorem methodDistinct_wither (event : Element) : MethodDistinct (b.wither event) := by
  intro body hbody
  cases hbody
  exact ⟨List.nodup_nil, List.nodup_nil⟩

/-- What the class of a record has for the keys of its schema. -/
structure FieldsOf (b : Blueprint) (policy : MergePolicy) (keys : List String)
    (others : List MethodDecl) (c : ClassDecl) : Prop where
  /-- Every key is the value of a constant exactly if no two keys get one name for theirs. -/
  constants : (∀ key ∈ keys, HasConstant c (.text key)) ↔ ∀ key ∈ keys, ∀ key' ∈ keys,
    b.naming.name .constantName key = b.naming.name .constantName key' → key = key'
  /-- There are as many fields as keys exactly if no two keys get one name for theirs. -/
  fields : c.propertyNames.length = keys.length ↔
    (keys.map (b.naming.name .propertyName)).Nodup
  /-- There are as many getters as keys exactly if these names also differ in more than case, and
      none is replaced by another method. -/
  getters : (getters c).length = keys.length ↔ (keys.map b.getterName).Nodup ∧
    (policy = .replace → ∀ d ∈ others, ∀ key ∈ keys, Text.foldAscii d.name ≠ b.getterName key)

/-- Merged into an empty file, a record reports nothing but conflicts of imports, whatever its class
    lacks. -/
theorem record_fields {a : Artifact} {keys : List String} {others : List MethodDecl}
    (h : b.IsRecord a keys others) (rules : MergeRules) :
    ∃ set c, a.changeSet? = some set ∧
      (merge rules .empty set).tree.classNamed? set.target.name = some c ∧
      b.FieldsOf rules.policy keys others c ∧
      ∀ issue ∈ (merge rules .empty set).issues, ∃ i existing, .importName i ∈ set.changes ∧
        issue = .importConflict set.target.name i.name existing := by
  obtain ⟨l, plans, hset, hplans⟩ := h.exists_plans
  have hgetters : ∀ d ∈ others, isGetter d = false := fun d hd => by
    obtain ⟨event, rfl⟩ := h.eq_wither d hd
    exact isGetter_wither event
  have hdistinct : ∀ d ∈ others, MethodDistinct d := fun d hd => by
    obtain ⟨event, rfl⟩ := h.eq_wither d hd
    exact methodDistinct_wither event
  have heach : ∀ ch ∈ recordWith plans others, DeclaresEach ch := declaresEach_recordWith
  obtain ⟨c, hclass, hc⟩ := contents_merge rules (l.changeSet (recordWith plans others)) heach
    (bringsDistinct_recordWith hdistinct)
  exact ⟨_, c, hset, hclass, ⟨hasConstant_iff hplans hc, length_propertyNames_iff hplans hc,
    length_getters_iff hplans hc hgetters⟩, fun _ => conflict_of_mem_issues heach⟩

/-! ### Two keys -/

/-- A document with texts under some keys. -/
def userWith (keys : List String) : Blueprint :=
  oneDocument "User" (objectSchema (keys.map fun key => (key, textSchema)))

/-- The types of the document. -/
def userTypes (keys : List String) : TypeSet :=
  ⟨.node .plain (.object (keys.map fun key => (key, textNamed key)) [] true), []⟩

theorem exists_isRecord_userWith (keys : List String)
    (htypes : ((userWith keys).graph.ofKind .document).map Element.types = [some (userTypes keys)])
    (hclasses : ∀ document ∈ (userWith keys).graph.ofKind .document,
      document.isAggregateState = false ∧
      ((userWith keys).locate document).toOption.isSome = true ∧
      ((userWith keys).valueObjects document).toOption.isSome = true) :
    ∃ document ∈ (userWith keys).graph.ofKind .document, ∃ group a,
      (userWith keys).valueObjects document = .ok group ∧ a ∈ group ∧
      (userWith keys).IsRecord a keys [] := by
  obtain ⟨document, hdocument, htypes⟩ := List.map_eq_singleton_iff.1 htypes
  rw [hdocument, List.forall_mem_singleton] at hclasses
  obtain ⟨hstate, hl, hgroup⟩ := hclasses
  obtain ⟨l, hl⟩ := Option.isSome_iff_exists.1 hl
  obtain ⟨group, hgroup⟩ := Option.isSome_iff_exists.1 hgroup
  rw [Outcome.toOption_eq_some_iff] at hl hgroup
  obtain ⟨a, ha, hrecord⟩ := exists_isRecord_of_valueObjects htypes hstate hl
    (resolve_of_object rfl) rfl hgroup
  refine ⟨document, hdocument ▸ List.mem_singleton_self _, group, a, hgroup, ha, ?_⟩
  rwa [List.map_map, Function.comp_def, List.map_id'] at hrecord

theorem record_fields_names :
    ∃ a set c, (userWith ["first_name", "lastName"]).IsRecord a ["first_name", "lastName"] [] ∧
      a.changeSet? = some set ∧
      (merge ⟨.preserve, true⟩ .empty set).tree.classNamed? set.target.name = some c ∧
      (∀ key ∈ ["first_name", "lastName"], HasConstant c (.text key)) ∧
      c.propertyNames.length = 2 ∧ (getters c).length = 2 := by
  obtain ⟨_, -, _, a, -, -, hrecord⟩ := exists_isRecord_userWith
    ["first_name", "lastName"] (by with_unfolding_all rfl) (by decide +kernel)
  obtain ⟨set, c, hset, hclass, hfields, -⟩ := record_fields hrecord ⟨.preserve, true⟩
  exact ⟨a, set, c, hrecord, hset, hclass, hfields.constants.2 (by decide),
    hfields.fields.2 (by decide), hfields.getters.2 ⟨by decide, nofun⟩⟩

/-- What is reported when a class is made, and the constants, fields and getters that it has. -/
structure MadeClass where
  issues : List GenerationError
  constants : List (String × Expr)
  fields : List String
  getters : List String
  deriving DecidableEq

/-- The class that an artifact makes of an empty file. -/
def madeOf? (a : Artifact) : Option MadeClass := do
  let set ← a.changeSet?
  let made := merge ⟨.preserve, true⟩ .empty set
  let c ← made.tree.classNamed? set.target.name
  return ⟨made.issues, c.members.flatMap Member.constants, c.propertyNames,
    (getters c).map MethodDecl.name⟩

/-- Two keys that differ in how they separate words get the same names: the second one loses its
    constant, its field and its getter, and nothing is reported. -/
theorem userName_lost :
    ∃ a set c, (userWith ["user_name", "userName"]).IsRecord a ["user_name", "userName"] [] ∧
      (userWith ["user_name", "userName"]).naming = Naming.conventional ∧
      a.changeSet? = some set ∧
      (merge ⟨.preserve, true⟩ .empty set).tree.classNamed? set.target.name = some c ∧
      (merge ⟨.preserve, true⟩ .empty set).issues = [] ∧ ¬HasConstant c (.text "userName") ∧
      c.propertyNames.length = 1 ∧ (getters c).length = 1 := by
  obtain ⟨document, hdocument, group, a, hgroup, ha, hrecord⟩ := exists_isRecord_userWith
    ["user_name", "userName"] (by with_unfolding_all rfl) (by decide +kernel)
  have hmade : ∀ document ∈ (userWith ["user_name", "userName"]).graph.ofKind .document,
      ((userWith ["user_name", "userName"]).valueObjects document).toOption.map (List.map madeOf?) =
        some [some ⟨[], [("USER_NAME", .text "user_name")], ["userName"], ["userName"]⟩] := by
    decide +kernel
  have hgroupMade := hmade document hdocument
  rw [hgroup] at hgroupMade
  obtain ⟨a', rfl, ha'⟩ := List.map_eq_singleton_iff.1 (Option.some.inj hgroupMade)
  obtain rfl := List.mem_singleton.1 ha
  obtain ⟨set, hset, ha⟩ := Option.bind_eq_some_iff.1 ha'
  obtain ⟨c, hclass, hc⟩ := Option.bind_eq_some_iff.1 ha
  obtain ⟨hissues, hconstants, hfields, hgetters⟩ := MadeClass.mk.inj (Option.some.inj hc)
  refine ⟨a, set, c, hrecord, rfl, hset, hclass, hissues, ?_, congrArg List.length hfields, ?_⟩
  · rintro ⟨name, hmem⟩
    rw [hconstants] at hmem
    exact absurd hmem (by simp)
  · simpa using congrArg List.length hgetters

end DomainScaffold.Blueprint
