import DomainScaffold.Project
import DomainScaffold.Proofs.Files.Below
import DomainScaffold.Proofs.Generation.Collisions
import DomainScaffold.Proofs.Generation.HandWritten
import DomainScaffold.Proofs.Generation.Origins
import DomainScaffold.Proofs.Naming.Letters
import DomainScaffold.Proofs.Naming.Paths

/-!
# Files inside the project

With conventional names and directories inside the project, every generated file is inside, but for
two texts that a document brings along unchanged: a namespace that is an absolute path, and the name
of a query.

Results:
* `artifacts_isInside_iff`: when every artifact is for a file inside the project.
* `generate_isContained_iff`: when every file of every report is inside, and what writing it keeps.
* `documentQueriedAs_not_isContained`: a query whose name leads out of the project.
-/

namespace DomainScaffold

open Naming Schema

/-! ## Settings and reports -/

/-- The directories of a layout. -/
def Layout.dirs (l : Layout) : List Path :=
  [l.modelDir, l.apiDir, l.valueObjectDir, l.queryDir, l.resolverDir, l.finderDir, l.schemaDir] ++
    l.commandDir.toList ++ l.eventDir.toList

/-- Settings with conventional names whose directories are all inside the project. -/
structure Settings.IsContained (s : Settings) : Prop where
  conventional : s.naming.filter = Naming.conventional.filter
  layout : ∀ dir ∈ s.layout.dirs, dir.isInside = true
  autoload : ∀ e ∈ s.autoload.entries, e.2.isInside = true

/-- A report whose files are all inside the project. -/
def Report.IsContained (r : Report) : Prop :=
  ∀ entry ∈ r.files, entry.2.path.isInside = true

/-! ## Names -/

theorem not_slash_of_plain {s : String} (h : s.toList.all isPathPlain = true) : '/' ∉ s.toList :=
  fun hmem => absurd (List.all_eq_true.1 h '/' hmem) (by decide)

theorem isInside_of_plain {s : String} (h : s.toList.all isPathPlain = true) :
    (Path.mk s).isInside = true := by
  refine Path.isInside_of_name (not_slash_of_plain h) fun hdots => ?_
  rw [hdots] at h
  exact absurd h (by decide)

theorem isInside_phpFile {name : String} (h : name.toList.all isPathPlain = true) :
    (Path.mk (name ++ ".php")).isInside = true :=
  Path.isInside_of_fileName (not_slash_of_plain h) (by decide) (by decide)

theorem isInside_jsonFile {name : String} (h : name.toList.all isPathPlain = true) :
    (Path.mk (name ++ ".json")).isInside = true :=
  Path.isInside_of_fileName (not_slash_of_plain h) (by decide) (by decide)

theorem plain_append {s t : String} (hs : s.toList.all isPathPlain = true)
    (ht : t.toList.all isPathPlain = true) : (s ++ t).toList.all isPathPlain = true := by
  rw [String.toList_append, List.all_append, hs, ht, Bool.and_self]

namespace Blueprint

/-- Whether what a document brings along unchanged leads inside: the directory of its classes, if it
    has any, and the name of its query. -/
structure DocumentInside (b : Blueprint) (d : Element) : Prop where
  classes : ∀ l group, b.locate d = .ok l → b.valueObjects d = .ok group → group ≠ [] →
    l.path.isAbsolute = false
  query : ∀ schema name, d.querySchema = some schema → d.queryName = some name →
    (Path.mk (name ++ ".json")).isInside = true

section Contained

variable {b : Blueprint} {e : Element} {l : ClassLocation} {dir : Path} {name : String}

theorem isInside_fileIn (hdir : dir.isInside = true) (hname : name.toList.all isPathPlain = true) :
    (fileIn dir name).isInside = true := by
  rw [fileIn, Path.isInside_join hdir]
  exact isInside_phpFile hname

theorem isAbsolute_fileIn (hname : name.toList.all isPathPlain = true) :
    (fileIn dir name).isAbsolute = dir.isAbsolute :=
  Path.isAbsolute_join
    (Path.isInside_iff.1 (isInside_phpFile hname)).1

theorem isInside_locateIn (hdir : dir.isInside = true)
    (hname : name.toList.all isPathPlain = true) (h : b.locateIn dir name = .ok l) :
    l.path.isInside = true := by
  obtain ⟨space, -, rfl⟩ := b.locateIn_eq_ok_iff.1 h
  exact isInside_fileIn hdir hname

variable (hb : b.settings.IsContained)

include hb

theorem isInside_dir (hdir : dir ∈ b.layout.dirs) : dir.isInside = true := hb.layout dir hdir

theorem name_eq (role : Role) (label : String) :
    b.naming.name role label = Naming.conventional.name role label := by
  rw [Strategies.name, Strategies.name, naming, hb.conventional]

theorem className_plain (label : String) :
    (b.naming.name .className label).toList.all isPathPlain = true := by
  rw [name_eq hb]
  exact pascal_plain label

theorem isInside_aggregateDir (aggregate : Element) :
    (b.aggregateDir aggregate).isInside = true := by
  rw [aggregateDir, Path.isInside_join (isInside_dir hb (by simp [Layout.dirs]))]
  exact isInside_of_plain (className_plain hb _)

/-- Messages go to a directory of the layout, or to a folder in one or in that of an aggregate. -/
theorem isInside_messageDir {given : Option Path} {folder : String}
    (hgiven : ∀ g, given = some g → g ∈ b.layout.dirs)
    (hfolder : folder.toList.all isPathPlain = true)
    (h : b.messageDir e given folder = .ok dir) : dir.isInside = true := by
  have hinside := isInside_of_plain hfolder
  unfold messageDir at h
  split at h
  · split at h
    · cases h
      rwa [Path.isInside_join (isInside_aggregateDir hb _)]
    · cases h
  · cases h
    cases given with
    | some g => exact isInside_dir hb (hgiven g rfl)
    | none => rwa [Option.getD_none, Path.isInside_join (isInside_dir hb (by simp [Layout.dirs]))]

/-- The directory of anything but a document is inside. -/
theorem isInside_dirOf (hkind : e.kind ≠ .document) (h : b.dirOf e = .ok dir) :
    dir.isInside = true := by
  unfold dirOf at h
  split at h
  · cases h
    exact isInside_aggregateDir hb e
  · exact isInside_messageDir hb (fun g hg => by simp [Layout.dirs, hg]) (by decide) h
  · exact isInside_messageDir hb (fun g hg => by simp [Layout.dirs, hg]) (by decide) h
  · rename_i hdocument
    exact absurd hdocument hkind
  · cases h

theorem isInside_locate (hkind : e.kind ≠ .document) (h : b.locate e = .ok l) :
    l.path.isInside = true := by
  obtain ⟨dir, space, hdir, -, rfl⟩ := (b.locate_eq_ok_iff).1 h
  exact isInside_fileIn (isInside_dirOf hb hkind hdir) (className_plain hb _)

/-- A class with a namespace is inside unless its file is an absolute path. -/
theorem isInside_locate_of_relative (h : b.locate e = .ok l)
    (hrelative : l.path.isAbsolute = false) : l.path.isInside = true := by
  obtain ⟨dir, space, hdir, hspace, rfl⟩ := (b.locate_eq_ok_iff).1 h
  have hdirRelative : dir.isAbsolute = false :=
    (isAbsolute_fileIn (className_plain hb _)).symm.trans hrelative
  exact isInside_fileIn (Autoload.isInside_of_namespaceForDir hb.autoload hdirRelative hspace)
    (className_plain hb _)

/-! ### Value objects -/

/-- A class that is inside whenever another one is, and relative exactly if that is. -/
def Beside (l l' : ClassLocation) : Prop :=
  l'.path.isAbsolute = l.path.isAbsolute ∧ (l.path.isInside = true → l'.path.isInside = true)

omit hb in
theorem beside_sibling {l' : ClassLocation} (h : Beside l l')
    (hname : name.toList.all isPathPlain = true) : Beside l (l'.sibling name) := by
  have hfile := isInside_phpFile hname
  refine ⟨?_, fun hl => Path.isInside_beside (h.2 hl) hfile⟩
  rw [ClassLocation.sibling, Path.isAbsolute_join (Path.isInside_iff.1 hfile).1,
    Path.isAbsolute_parent, h.1]

omit hb in
theorem itemClasses_plain {types : TypeSet} {key : String} {items : Option SchemaType}
    {nested : List NestedClass} (h : b.itemClasses types key items = .ok nested) :
    ∀ n ∈ nested, n.className.toList.all isPathPlain = true := by
  unfold itemClasses at h
  split at h
  · cases h
    simp
  · split at h
    · cases h
      exact List.forall_mem_singleton.2 (plain_append (pascal_plain key) (by decide))
    · split at h
      · obtain ⟨t, -, rfl⟩ := Outcome.map_eq_ok h
        split
        · exact List.forall_mem_singleton.2 (pascal_plain _)
        · simp
      · cases h
        simp
    · cases h
      simp

omit hb in
theorem propertyType_plain {types : TypeSet} {nesting : Nesting} {key : String}
    {t resolved : SchemaType} {type : PropertyType}
    (h : b.propertyType types nesting key t resolved = .ok type) :
    ∀ n ∈ type.nested, n.className.toList.all isPathPlain = true := by
  unfold propertyType at h
  split at h
  · split at h
    · split at h
      · cases h
        exact List.forall_mem_singleton.2 (pascal_plain _)
      · cases h
        simp [PropertyType.plain]
    · split at h
      · cases h
        simp [PropertyType.plain]
      · obtain ⟨l, -, rfl⟩ := Outcome.map_eq_ok h
        simp
  · cases h
    exact List.forall_mem_singleton.2 (pascal_plain _)
  · obtain ⟨nested, hnested, rfl⟩ := Outcome.map_eq_ok h
    exact itemClasses_plain hnested
  · cases h
    simp [PropertyType.plain]

omit hb in
theorem planProperties_plain {types : TypeSet} {properties : List (String × SchemaType)}
    {required : List String} {nesting : Nesting} {plans : List (PropertyPlan × List NestedClass)}
    (h : b.planProperties e types properties required nesting = .ok plans) :
    ∀ n ∈ plans.flatMap Prod.snd, n.className.toList.all isPathPlain = true := by
  intro n hn
  obtain ⟨plan, hplan, hn⟩ := List.mem_flatMap.1 hn
  obtain ⟨p, -, hp⟩ := Outcome.exists_of_mem_mapM h hplan
  obtain ⟨resolved, -, hp⟩ := Outcome.bind_eq_ok hp
  obtain ⟨type, htype, hp⟩ := Outcome.bind_eq_ok hp
  cases hp
  exact propertyType_plain htype n hn

omit hb in
/-- The nested classes that a type asks for have plain names. -/
theorem nested_plain {types : TypeSet} {t : SchemaType} {classes : List PlacedClass}
    {nested : List NestedClass} (hl : l.className.toList.all isPathPlain = true)
    (h : b.classesFor e types l t = .ok (classes, nested)) :
    ∀ n ∈ nested, n.className.toList.all isPathPlain = true := by
  unfold classesFor at h
  split at h
  · cases h
    simp
  · obtain ⟨plans, hplans, hp⟩ := Outcome.map_eq_ok h
    cases hp
    exact planProperties_plain hplans
  · cases h
    simp
  · obtain ⟨t, -, ht⟩ := Outcome.map_eq_ok h
    cases ht
    split
    · exact List.forall_mem_singleton.2 (plain_append hl (by decide))
    · simp
  · cases h

omit hb in
theorem beside_expand {types : TypeSet} {depth : Nat} {l' : ClassLocation} {t : SchemaType}
    {s s' : Expansion} (hl : Beside l l') (hname : l'.className.toList.all isPathPlain = true)
    (hs : ∀ c ∈ s.classes, Beside l c.1) (h : b.expand e types depth l' t s = .ok s') :
    ∀ c ∈ s'.classes, Beside l c.1 := by
  induction depth generalizing l' t s s' with
  | zero =>
    cases h
    exact hs
  | succ depth ih =>
    unfold expand at h
    split at h
    · cases h
      exact hs
    · obtain ⟨resolved, -, h⟩ := Outcome.bind_eq_ok h
      obtain ⟨⟨classes, nested⟩, hclasses, h⟩ := Outcome.bind_eq_ok h
      refine Outcome.foldlM_induction (P := fun s => ∀ c ∈ s.classes, Beside l c.1)
        (fun n hn s s' hs hn' => ?_) ?_ h
      · have hplain := nested_plain hname hclasses n hn
        exact ih (beside_sibling hl hplain) hplain hs hn'
      · refine List.forall_mem_append.2 ⟨hs, ?_⟩
        rcases b.classes_classesFor hclasses with rfl | ⟨changes, rfl⟩
        · simp
        · exact List.forall_mem_singleton.2 hl

/-- The classes of a document are all inside, and absolute if the one that it asks for is. -/
theorem valueObjects_beside {document : Element} {group : List Artifact}
    (hl : b.locate document = .ok l) (h : b.valueObjects document = .ok group) :
    ∀ a ∈ group, a.path.isAbsolute = l.path.isAbsolute ∧
      (l.path.isInside = true → a.path.isInside = true) := by
  rcases b.valueObjects_eq_ok h with ⟨rfl, -⟩ | ⟨types, l', s, -, hl', hs, rfl⟩
  · simp
  · obtain rfl : l = l' := Except.ok.inj (hl.symm.trans hl')
    intro a ha
    obtain ⟨c, hc, rfl⟩ := List.mem_map.1 ha
    have hname : l.className.toList.all isPathPlain = true := by
      rw [b.locate_className hl]
      exact className_plain hb _
    exact beside_expand (l := l) ⟨rfl, id⟩ hname (by simp [Expansion.empty]) hs c hc

/-! ### Attempts -/

theorem isInside_apiClass {className : String} (hname : className.toList.all isPathPlain = true)
    (h : b.apiClass className = .ok l) : l.path.isInside = true :=
  isInside_locateIn (isInside_dir hb (by simp [Layout.dirs])) hname h

omit hb in
theorem api_plain (api : Framework.ApiClass) : api.name.toList.all isPathPlain = true := by
  cases api <;> decide

theorem isInside_of_aggregateAttempts {aggregate : Element} {group : List Artifact}
    (h : .ok group ∈ b.aggregateAttempts aggregate) : ∀ a ∈ group, a.path.isInside = true := by
  unfold aggregateAttempts at h
  split at h
  · simp at h
  · rename_i c hc
    obtain ⟨⟨element, helement, hkind⟩, hid, -⟩ := DomainGraph.aggregateConnection_eq_ok hc
    simp only [List.mem_cons, List.not_mem_nil, or_false] at h
    rcases h with h | h | h
    · obtain ⟨a, ha, rfl⟩ := Outcome.map_eq_ok h.symm
      obtain ⟨element', l, -, -, -, helement', hl, -, -, rfl⟩ := b.behaviour_eq_ok ha
      obtain rfl : element = element' :=
        Option.some.inj (helement.symm.trans (hid ▸ helement'))
      have hdocument : element.kind ≠ .document := fun hdocument => by
        rw [Element.is, hdocument] at hkind
        exact absurd hkind (by decide)
      exact List.forall_mem_singleton.2 (isInside_locate hb hdocument hl)
    · obtain ⟨a, ha, rfl⟩ := Outcome.map_eq_ok h.symm
      obtain ⟨element', l, -, -, -, hl, -, rfl⟩ := b.state_eq_ok ha
      have hname : (b.naming.name .stateClassName element'.name).toList.all isPathPlain = true := by
        rw [name_eq hb]
        exact plain_append (pascal_plain _) (by decide)
      exact List.forall_mem_singleton.2
        (isInside_locateIn (isInside_aggregateDir hb element') hname hl)
    · obtain ⟨a, ha, rfl⟩ := Outcome.map_eq_ok h.symm
      obtain ⟨element', -, ha⟩ := Outcome.bind_eq_ok ha
      obtain ⟨l, hl, ha⟩ := Outcome.bind_eq_ok ha
      obtain ⟨behaviour, -, ha⟩ := Outcome.bind_eq_ok ha
      obtain ⟨chains, -, ha⟩ := Outcome.bind_eq_ok ha
      cases ha
      exact List.forall_mem_singleton.2 (isInside_apiClass hb (api_plain .aggregate) hl)

theorem isInside_schemaArtifact (name : String) (schema : Json) :
    (b.schemaArtifact name schema).path.isInside = (Path.mk (name ++ ".json")).isInside :=
  Path.isInside_join (isInside_dir hb (by simp [Layout.dirs]))

theorem isInside_of_messageAttempts {group : List Artifact}
    (hkind : e.kind = .command ∨ e.kind = .event) (h : .ok group ∈ b.messageAttempts e) :
    ∀ a ∈ group, a.path.isInside = true := by
  have hdocument : e.kind ≠ .document := by
    rcases hkind with hkind | hkind <;> rw [hkind] <;> decide
  simp only [messageAttempts, List.mem_cons, List.not_mem_nil, or_false] at h
  rcases h with h | h | h
  · obtain ⟨a, ha, rfl⟩ := Outcome.map_eq_ok h.symm
    unfold message at ha
    split at ha
    · obtain ⟨l, hl, ha⟩ := Outcome.bind_eq_ok ha
      have hpath : a.path = l.path := by
        cases htypes : e.types with
        | none =>
          rw [htypes] at ha
          cases ha
          rfl
        | some types =>
          rw [htypes] at ha
          obtain ⟨changes, -, ha⟩ := Outcome.bind_eq_ok ha
          cases ha
          rfl
      exact List.forall_mem_singleton.2 (hpath ▸ isInside_locate hb hdocument hl)
    · cases ha
  · obtain ⟨a, ha, rfl⟩ := Outcome.map_eq_ok h.symm
    unfold messageDescription at ha
    split at ha
    · cases ha
    · obtain ⟨l, hl, ha⟩ := Outcome.bind_eq_ok ha
      obtain ⟨record, -, ha⟩ := Outcome.bind_eq_ok ha
      cases ha
      exact List.forall_mem_singleton.2 (isInside_apiClass hb (api_plain _) hl)
  · cases h
    have hname : (b.constantValue e).toList.all isPathPlain = true := by
      rw [constantValue, name_eq hb]
      exact pascal_plain e.name
    intro a ha
    have hschema : ∃ schema, a = b.schemaArtifact (b.constantValue e) schema := by
      unfold schemaArtifacts at ha
      rcases hkind with hkind | hkind <;> rw [hkind] at ha <;>
        obtain ⟨schema, -, rfl⟩ := Option.map_eq_some_iff.1 (Option.mem_toList.1 ha) <;>
        exact ⟨schema, rfl⟩
    obtain ⟨schema, rfl⟩ := hschema
    rw [isInside_schemaArtifact hb]
    exact isInside_jsonFile hname

theorem isInside_of_resolvers {message : String} {d : Element} {group : List Artifact}
    (hl : l.path.isInside = true) (h : b.resolvers message l d = .ok group) :
    ∀ a ∈ group, a.path.isInside = true := by
  unfold resolvers at h
  split at h
  · rename_i aggregate haggregate
    obtain ⟨state, -, h⟩ := Outcome.bind_eq_ok h
    obtain ⟨finder, hfinder, h⟩ := Outcome.bind_eq_ok h
    cases h
    have hname : (b.className aggregate ++ "Finder").toList.all isPathPlain = true :=
      plain_append (className_plain hb _) (by decide)
    exact List.forall_mem_cons.2 ⟨hl, List.forall_mem_singleton.2
      (isInside_locateIn (isInside_dir hb (by simp [Layout.dirs])) hname hfinder)⟩
  · cases h
    exact List.forall_mem_singleton.2 hl

theorem isInside_of_query {d : Element} {group : List Artifact} (h : b.query d = .ok group) :
    ∀ a ∈ group, a.path.isInside = true := by
  unfold query at h
  split at h
  · split at h
    · cases h
      simp
    · obtain ⟨request, hrequest, h⟩ := Outcome.bind_eq_ok h
      obtain ⟨resolver, hresolver, h⟩ := Outcome.bind_eq_ok h
      obtain ⟨resolvers, hresolvers, h⟩ := Outcome.bind_eq_ok h
      obtain ⟨description, hdescription, h⟩ := Outcome.bind_eq_ok h
      cases h
      refine List.forall_mem_cons.2 ⟨?_, List.forall_mem_append.2
        ⟨?_, List.forall_mem_singleton.2 ?_⟩⟩
      · obtain ⟨l, hl, hrequest⟩ := Outcome.bind_eq_ok hrequest
        obtain ⟨changes, -, hrequest⟩ := Outcome.bind_eq_ok hrequest
        cases hrequest
        exact isInside_locateIn (isInside_dir hb (by simp [Layout.dirs])) (className_plain hb _) hl
      · have hname : (b.className d ++ "Resolver").toList.all isPathPlain = true :=
          plain_append (className_plain hb _) (by decide)
        exact isInside_of_resolvers hb
          (isInside_locateIn (isInside_dir hb (by simp [Layout.dirs])) hname hresolver) hresolvers
      · obtain ⟨l, hl, rfl⟩ := Outcome.map_eq_ok hdescription
        exact isInside_apiClass hb (api_plain .query) hl
  · cases h

/-- Of the schema files of a document one is named by its class, and one by its query. -/
theorem isInside_of_documentSchemas {d : Element} (hkind : d.kind = .document)
    (hquery : ∀ schema name, d.querySchema = some schema → d.queryName = some name →
      (Path.mk (name ++ ".json")).isInside = true) :
    ∀ a ∈ b.schemaArtifacts d, a.path.isInside = true := by
  rw [schemaArtifacts, hkind]
  refine List.forall_mem_append.2 ⟨fun a ha => ?_, fun a ha => ?_⟩
  · obtain ⟨schema, -, rfl⟩ := Option.map_eq_some_iff.1 (Option.mem_toList.1 ha)
    rw [isInside_schemaArtifact hb]
    exact isInside_jsonFile (className_plain hb _)
  · obtain ⟨schema, hschema, rfl⟩ := Option.map_eq_some_iff.1 (Option.mem_toList.1 ha)
    rw [isInside_schemaArtifact hb, queryNameOf]
    cases hname : d.queryName with
    | some name => exact hquery schema name hschema hname
    | none =>
      rw [Option.getD_none, name_eq hb]
      exact isInside_jsonFile (plain_append (by decide) (pascal_plain _))

theorem isInside_of_documentAttempts {d : Element} (hkind : d.kind = .document)
    (hd : b.DocumentInside d) {group : List Artifact} (h : .ok group ∈ b.documentAttempts d) :
    ∀ a ∈ group, a.path.isInside = true := by
  simp only [documentAttempts, List.mem_cons, List.not_mem_nil, or_false] at h
  rcases h with h | h | h
  · intro a ha
    rcases b.valueObjects_eq_ok h.symm with ⟨rfl, -⟩ | ⟨types, l, s, -, hl, -, -⟩
    · cases ha
    · have hrelative := hd.classes l group hl h.symm (List.ne_nil_of_mem ha)
      exact (valueObjects_beside hb hl h.symm a ha).2 (isInside_locate_of_relative hb hl hrelative)
  · exact isInside_of_query hb h.symm
  · cases h
    exact isInside_of_documentSchemas hb hkind hd.query

end Contained

/-- Every artifact is for a file inside the project exactly if what documents bring along unchanged
    leads inside. -/
theorem artifacts_isInside_iff {b : Blueprint} (hb : b.settings.IsContained) :
    (∀ a ∈ b.artifacts, a.path.isInside = true) ↔
      ∀ d ∈ b.graph.ofKind .document, b.DocumentInside d := by
  have hkind : ∀ {kind : ElementKind} {e : Element}, e ∈ b.graph.ofKind kind → e.kind = kind :=
    fun he => by simpa [Element.is] using (List.mem_filter.1 he).2
  constructor
  · intro hall d hd
    refine ⟨fun l group hl hgroup hne => ?_, fun schema name hschema hname => ?_⟩
    · obtain ⟨a, ha⟩ := List.exists_mem_of_ne_nil group hne
      have hattempt : .ok group ∈ b.attempts :=
        mem_attempts_of_document hd (by simp [documentAttempts, hgroup])
      have hmem : a ∈ b.artifacts := b.mem_artifacts_iff.2 ⟨group, hattempt, ha⟩
      rw [← (valueObjects_beside hb hl hgroup a ha).1]
      exact (Path.isInside_iff.1 (hall a hmem)).1
    · have hmem : b.schemaArtifact name schema ∈ b.artifacts := by
        refine schemaArtifacts_subset (b.mem_elements_of_mem_ofKind hd) _ ?_
        rw [schemaArtifacts, hkind hd]
        refine List.mem_append_right _ (Option.mem_toList.2 ?_)
        rw [hschema, queryNameOf, hname]
        rfl
      rw [← isInside_schemaArtifact hb name schema]
      exact hall _ hmem
  · intro hdocuments a ha
    obtain ⟨group, hgroup, ha⟩ := b.mem_artifacts_iff.1 ha
    simp only [attempts, List.mem_append, List.mem_flatMap] at hgroup
    rcases hgroup with (⟨aggregate, -, h⟩ | ⟨e, he, h⟩) | ⟨d, hd, h⟩
    · exact isInside_of_aggregateAttempts hb h a ha
    · exact isInside_of_messageAttempts hb (he.imp hkind hkind) h a ha
    · exact isInside_of_documentAttempts hb (hkind hd) (hdocuments d hd) h a ha

/-! ## Reports -/

/-- A planned file is for the path of an artifact, and every artifact for that of a planned file. -/
theorem plan_isInside_iff (b : Blueprint) :
    (∀ f ∈ b.plan.1, f.path.isInside = true) ↔ ∀ a ∈ b.artifacts, a.path.isInside = true := by
  constructor
  · intro hall a ha
    obtain ⟨first, hfirst⟩ : ∃ first, FilePlan.firstFor b.artifacts a.path = some first :=
      Option.isSome_iff_exists.1 (List.find?_isSome.2 ⟨a, ha, Path.same_refl _⟩)
    have hplanned : FilePlan.firstFor b.plan.1.firsts a.path = some first :=
      (FilePlan.firstFor_addAll [] b.artifacts a.path).trans hfirst
    obtain ⟨f, hf, rfl⟩ := List.mem_map.1 (List.mem_of_find?_eq_some hplanned)
    have hsame : f.first.path.same a.path = true :=
      List.find?_some (p := fun f : Artifact => f.path.same a.path) hplanned
    exact (Path.isInside_of_same hsame).symm.trans (hall f hf)
  · intro hall f hf
    exact hall f.first (FilePlan.firsts_addAll_subset [] b.artifacts (List.mem_map_of_mem hf))

theorem render_missing (rules : Merge.MergeRules) (f : PlannedFile) :
    ∃ g issues, f.render rules (.ok none) = .ok ⟨g, issues⟩ := by
  unfold PlannedFile.render PlannedFile.newText
  cases f.content with
  | verbatim text => exact ⟨_, _, rfl⟩
  | code first others => exact ⟨_, _, rfl⟩

/-- The report of a run that can only look for one planned file, and does not find it, has that
    file. -/
theorem mem_files_of_onlyMissing {b : Blueprint} {f : PlannedFile} (hf : f ∈ b.plan.1)
    {read : Path → Outcome (Option String)} (hread : read f.path = .ok none)
    {e : GenerationError} (hothers : ∀ path, path ≠ f.path → read path = .error e) :
    ∃ entry ∈ (b.generate read).files, entry.2.path = f.path := by
  obtain ⟨g, issues, hrender⟩ := render_missing b.settings.merging f
  have accounts := accounts_generate b read
  obtain ⟨key, -, found, hfound, hpath⟩ := accounts.named (f, read f.path)
    (List.mem_map_of_mem hf) g issues (by rw [hread]; exact hrender)
  have hmem := Fields.mem_of_find? hfound
  obtain ⟨s, hs, issues', hrendered⟩ := accounts.rendered _ _ hmem
  obtain ⟨f', -, rfl⟩ := List.mem_map.1 hs
  have hpath' : f'.path = f.path := by
    by_contra hne
    dsimp only at hrendered
    rw [hothers _ hne, render_existing_unreadable] at hrendered
    cases hrendered
  exact ⟨_, hmem, (path_render hrendered).trans hpath'⟩

/-- All reports are contained exactly if all planned files are. -/
theorem isContained_generate_iff (b : Blueprint) :
    (∀ read, (b.generate read).IsContained) ↔ ∀ f ∈ b.plan.1, f.path.isInside = true := by
  constructor
  · intro hall f hf
    let read : Path → Outcome (Option String) := fun path =>
      if path = f.path then .ok none else .error (.graphDocument "")
    obtain ⟨entry, hentry, hpath⟩ := mem_files_of_onlyMissing hf (if_pos rfl)
      fun path hne => if_neg hne
    rw [← hpath]
    exact hall read entry hentry
  · intro hplan read entry hentry
    obtain ⟨s, hs, issues, hrender⟩ := (accounts_generate b read).rendered _ _ hentry
    obtain ⟨f, hf, rfl⟩ := List.mem_map.1 hs
    rw [path_render hrender]
    exact hplan f hf

/-- Under settings that are contained all reports are, exactly if what documents bring along
    unchanged leads inside. Writing files of a contained report below a directory keeps the texts of
    all files elsewhere. -/
theorem generate_isContained_iff {b : Blueprint} (hb : b.settings.IsContained) :
    ((∀ read, (b.generate read).IsContained) ↔
        ∀ d ∈ b.graph.ofKind .document, b.DocumentInside d) ∧
      ∀ read, (b.generate read).IsContained →
        ∀ files : List GeneratedFile, files ⊆ (b.generate read).files.map Prod.snd →
        ∀ (t : FileTree) (root : Path) (other : Place),
          (∀ base, t.placeOf root = .ok base → ¬ base <+: other) →
          ((writeAll FileTree.access root files).run t).2.textAt? other = t.textAt? other := by
  refine ⟨?_, fun read hcontained files hfiles t root other hother => ?_⟩
  · rw [isContained_generate_iff, plan_isInside_iff, artifacts_isInside_iff hb]
  · refine FileTree.textAt?_writeAll (fun f hf => ?_) hother
    obtain ⟨entry, hentry, rfl⟩ := List.mem_map.1 (hfiles hf)
    exact hcontained entry hentry

/-! ## Names of queries -/

/-- A document with a class, and a query with a name. -/
def queriedAs (name : String) : Element :=
  ⟨"1", "Building", .document, some { Metadata.plain with
    types := some ⟨.node .plain (.object [] [] true), []⟩
    query := some (.object [("type", .text "object")])
    queryTypes := some ⟨.node .plain (.object [] [] true), []⟩
    queryName := some name }, none⟩

/-- A project with such a document. -/
def documentQueriedAs (name : String) : Blueprint :=
  ⟨.standard (Naming.Autoload.empty.insert "Acme" ⟨"src"⟩), ⟨[queriedAs name], [], .empty⟩⟩

theorem isContained_documentQueriedAs (name : String) :
    (documentQueriedAs name).settings.IsContained := by
  have hstandard : (Settings.standard (Naming.Autoload.empty.insert "Acme" ⟨"src"⟩)).IsContained :=
    ⟨rfl, by decide, by decide⟩
  exact hstandard

theorem generate_isContained_documentQueriedAs :
    (documentQueriedAs "Building").settings.IsContained ∧
      ∀ read, ((documentQueriedAs "Building").generate read).IsContained := by
  have hsettings := isContained_documentQueriedAs "Building"
  have hrelative : ((documentQueriedAs "Building").locate (queriedAs "Building")).map
      (fun l => l.path.isAbsolute) = .ok false := by decide +kernel
  refine ⟨hsettings, (generate_isContained_iff hsettings).1.2 fun d hd => ?_⟩
  obtain rfl : d = queriedAs "Building" := List.mem_singleton.1 hd
  refine ⟨fun l group hl _ _ => ?_, fun schema name _ hname => ?_⟩
  · rw [hl] at hrelative
    exact Except.ok.inj hrelative
  · obtain rfl : "Building" = name := Option.some.inj hname
    decide

/-- A query whose name has parent steps leads out of the project. -/
theorem documentQueriedAs_not_isContained :
    (documentQueriedAs "../../../../../evil").settings.IsContained ∧
      ¬ ((documentQueriedAs "../../../../../evil").generateInto .empty).IsContained := by
  refine ⟨isContained_documentQueriedAs _, fun hcontained => ?_⟩
  have hout : ((documentQueriedAs "../../../../../evil").generateInto .empty).files.all
      (fun entry => entry.2.path.isInside) = false := by decide +kernel
  rw [List.all_eq_true.2 hcontained] at hout
  cases hout

end Blueprint

end DomainScaffold
