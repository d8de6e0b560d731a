import DomainScaffold.Blueprint
import DomainScaffold.Proofs.Naming.PlainPaths

/-!
# Namespaces and their directories

A directory takes its namespace from the deepest mapped directory around it, a namespace its
directory from the longest mapped namespace that leads it. The two lookups undo each other exactly
where both choose the same entry: a longer mapped namespace takes the namespace away from the
directory that it was made from.

Results:
* `longest?_spec`, `deepest?_spec`: which entries the lookups choose.
* `namespaceForDir_spec`, `namespaceDir_of_longest?`: what they make of the entry.
* `namespaceDir_namespaceForDir_iff`: when the directory of a namespace is the one it comes from,
  and with it the file of a class.
-/

namespace DomainScaffold.Naming.Autoload

open DomainScaffold.Path

variable {m : Autoload} {dir : Path} {lead space : String} {ds bs rest : List (List Char)}

/-! ## Maps of plain directories -/

/-- The map of namespaces and their directories that are put in one after the other. -/
def ofMappings (mappings : List (String × Path)) : Autoload :=
  mappings.foldl (fun m e => m.insert e.1 e.2) empty

/-- Whether a namespace is empty or has one separator at its end and none at its start. -/
def IsLead (lead : String) : Prop :=
  lead = "" ∨ ∃ cs, lead.toList = cs ++ ['\\'] ∧ cs ≠ [] ∧ cs.head? ≠ some '\\' ∧
    cs.getLast? ≠ some '\\'

theorem isLead_normalizeNamespace (name : String) : IsLead (normalizeNamespace name) := by
  have htrimmed : (Text.trimBoth '\\' name).toList =
      (name.toList.dropWhile (· == '\\')).rdropWhile (· == '\\') := by
    rw [Text.trimBoth, Text.trimLeft, Text.trimRight_eq, String.toList_ofList]
  rw [normalizeNamespace]
  by_cases hempty : (Text.trimBoth '\\' name).isEmpty = true
  · exact .inl (if_pos hempty)
  · rw [if_neg hempty]
    refine .inr ⟨(Text.trimBoth '\\' name).toList, String.toList_append, ?_, ?_, ?_⟩
    · rwa [Ne, String.toList_eq_nil_iff, ← String.isEmpty_iff]
    · rw [htrimmed]
      intro hhead
      obtain ⟨tail, htail⟩ :=
        List.rdropWhile_prefix (· == '\\') (name.toList.dropWhile (· == '\\'))
      have hnot := List.head?_dropWhile_not (· == '\\') name.toList
      rw [← htail, List.head?_append, hhead, Option.some_or] at hnot
      exact absurd hnot (by decide)
    · rw [htrimmed]
      intro hlast
      obtain ⟨front, hfront⟩ := List.getLast?_eq_some_iff.1 hlast
      have hnot := List.rdropWhile_last_not (· == '\\') (name.toList.dropWhile (· == '\\'))
        (by simp [hfront])
      simp [hfront] at hnot

/-- A map of plain directories that has a namespace at most once. -/
structure IsPlain (m : Autoload) : Prop where
  lead : ∀ e ∈ m.entries, IsLead e.1
  dir : ∀ e ∈ m.entries,
    ∃ names : List (List Char), (∀ cs ∈ names, IsSegment cs) ∧ e.2 = ofNames names
  unique : ∀ e ∈ m.entries, ∀ e' ∈ m.entries, e.1 = e'.1 → e = e'

theorem isPlain_insert (hm : m.IsPlain) (name : String) (hdir : dir.isPlain = true) :
    (m.insert name dir).IsPlain := by
  obtain ⟨names, hnames, hcomponents⟩ := exists_of_isPlain hdir
  have hmem : ∀ e ∈ (m.insert name dir).entries, e ∈ m.entries ∧ e.1 ≠ normalizeNamespace name ∨
      e = (normalizeNamespace name, ofNames names) := fun e he => by
    rw [insert, normalized_eq hnames hcomponents] at he
    simpa using he
  refine ⟨fun e he => ?_, fun e he => ?_, fun e he e' he' hlead => ?_⟩
  · rcases hmem e he with ⟨he, -⟩ | he
    · exact hm.lead e he
    · rw [he]
      dsimp only
      exact isLead_normalizeNamespace name
  · rcases hmem e he with ⟨he, -⟩ | he
    · exact hm.dir e he
    · exact ⟨names, hnames, by rw [he]⟩
  · rcases hmem e he with ⟨he, hne⟩ | he <;> rcases hmem e' he' with ⟨he', hne'⟩ | he'
    · exact hm.unique e he e' he' hlead
    · exact absurd (hlead.trans (by rw [he'])) hne
    · exact absurd (hlead.symm.trans (by rw [he])) hne'
    · exact he.trans he'.symm

theorem isPlain_ofMappings {mappings : List (String × Path)}
    (h : ∀ e ∈ mappings, e.2.isPlain = true) : (ofMappings mappings).IsPlain :=
  List.foldlRecOn (motive := IsPlain) mappings _ ⟨nofun, nofun, nofun⟩
    fun _ hm e he => isPlain_insert hm e.1 (h e he)

/-! ## Choosing an entry -/

theorem lastMax?_eq_none {α : Type} {measure : α → Nat} {xs : List α}
    (h : lastMax? measure xs = none) : xs = [] := by
  rcases List.eq_nil_or_concat xs with rfl | ⟨init, x, rfl⟩
  · rfl
  · rw [List.concat_eq_append, lastMax?, List.foldl_append] at h
    simp only [List.foldl_cons, List.foldl_nil] at h
    split at h
    · cases h
    · split at h <;> cases h

theorem le_of_lastMax? {α : Type} {measure : α → Nat} {xs : List α} {x : α}
    (h : lastMax? measure xs = some x) : ∀ y ∈ xs, measure y ≤ measure x := by
  induction xs using List.reverseRecOn generalizing x with
  | nil => cases h
  | append_singleton xs y ih =>
    rw [List.forall_mem_append, List.forall_mem_singleton]
    rw [lastMax?, List.foldl_append] at h
    simp only [List.foldl_cons, List.foldl_nil] at h
    split at h
    · rename_i hnone
      rw [lastMax?_eq_none hnone, ← Option.some.inj h]
      exact ⟨nofun, le_rfl⟩
    · rename_i b hbest
      have hxs := ih hbest
      split at h
      · rename_i hlt
        rw [← Option.some.inj h]
        exact ⟨hxs, hlt.le⟩
      · rename_i hle
        rw [← Option.some.inj h]
        exact ⟨fun z hz => (hxs z hz).trans (not_lt.1 hle), le_rfl⟩

/-- A namespace with a separator at its end, as it is looked up. -/
def qualified (space : String) : String := Text.trimBoth '\\' space ++ "\\"

theorem startsWith_iff {s : String} :
    Text.startsWith lead s = true ↔ ∃ after, s.toList = lead.toList ++ after := by
  rw [Text.startsWith, Option.isSome_iff_exists]
  simp only [Text.dropLead_eq_some_iff]

/-- The entry of a namespace is the longest that leads it. -/
theorem longest?_spec {e : String × Path} (h : m.longest? space = some e) :
    e ∈ m.entries ∧ (∃ after, (qualified space).toList = e.1.toList ++ after) ∧
      ∀ e' ∈ m.entries, (∃ after, (qualified space).toList = e'.1.toList ++ after) →
        e'.1.utf8ByteSize ≤ e.1.utf8ByteSize := by
  obtain ⟨he, hstart⟩ := List.mem_filter.1 (mem_of_lastMax? h)
  refine ⟨he, startsWith_iff.1 hstart, fun e' he' hafter => ?_⟩
  exact le_of_lastMax? h e' (List.mem_filter.2 ⟨he', startsWith_iff.2 hafter⟩)

/-- The entry of the deepest mapped directory around `dir`. -/
def deepest? (m : Autoload) (dir : Path) : Option (String × Path) :=
  (lastMax? (fun e => e.2.1.components.length) (m.around dir.normalized)).map fun e => (e.1, e.2.1)

/-- The mapped directories around a directory are those whose names lead its own. -/
theorem mem_around_iff (hm : m.IsPlain) (hds : ∀ cs ∈ ds, IsSegment cs) {base inner : Path} :
    (lead, base, inner) ∈ m.around (ofNames ds) ↔
      ∃ bs rest, (lead, base) ∈ m.entries ∧ base = ofNames bs ∧ ds = bs ++ rest ∧
        inner = ofNames rest := by
  rw [around, List.mem_filterMap]
  constructor
  · rintro ⟨⟨lead', base'⟩, he, h⟩
    dsimp only at h
    split at h
    · cases h
    · rename_i inner' hinner
      split at h
      · cases h
      · rename_i hparent
        rw [List.contains_iff_mem] at hparent
        obtain ⟨rfl, hparts⟩ := Prod.mk.inj (Option.some.inj h)
        obtain ⟨rfl, rfl⟩ := Prod.mk.inj hparts
        obtain ⟨bs, hbs, hbase⟩ := hm.dir _ he
        dsimp only at hbase
        subst hbase
        obtain ⟨rest, hrest, hinnerNames⟩ := (relativeTo?_ofNames_iff hds hbs).1 ⟨hinner, hparent⟩
        exact ⟨bs, rest, he, rfl, hrest, hinnerNames⟩
  · rintro ⟨bs, rest, he, rfl, rfl, rfl⟩
    obtain ⟨hrel, hparent⟩ :=
      (relativeTo?_ofNames_iff hds (List.forall_mem_append.1 hds).1).2 ⟨rest, rfl, rfl⟩
    refine ⟨(lead, ofNames bs), he, ?_⟩
    dsimp only
    rw [hrel]
    dsimp only
    rw [if_neg (by simpa using hparent)]

/-! ## The namespace of a directory -/

theorem ends_names (hnil : rest ≠ []) (hrest : ∀ cs ∈ rest, IsSegment cs) :
    List.intercalate ['\\'] rest ≠ [] ∧ (List.intercalate ['\\'] rest).head? ≠ some '\\' ∧
      (List.intercalate ['\\'] rest).getLast? ≠ some '\\' :=
  Text.ends_intercalate hnil fun cs hcs => ⟨(hrest cs hcs).ne_nil, (hrest cs hcs).not_backslash⟩

theorem apply_directoryToNamespace (s : String) :
    (conventional.filter .directoryToNamespace).apply s = Text.replaceAll "/" "\\" s := rfl

theorem apply_namespaceToDirectory (s : String) :
    (conventional.filter .namespaceToDirectory).apply s = Text.replaceAll "\\" "/" s := rfl

/-- The namespace of the directory with the given names inside the one of an entry. -/
def spaceOf (lead : String) (rest : List (List Char)) : String :=
  if rest = [] then Text.trimRight '\\' lead
  else lead ++ String.ofList (List.intercalate ['\\'] rest)

/-- No namespace of a directory has a separator at its start or end. -/
theorem ends_spaceOf (hlead : IsLead lead)
    (hrest : ∀ cs ∈ rest, IsSegment cs) :
    (spaceOf lead rest).toList.head? ≠ some '\\' ∧
      (spaceOf lead rest).toList.getLast? ≠ some '\\' := by
  rw [spaceOf]
  by_cases hnil : rest = []
  · rw [if_pos hnil]
    rcases hlead with rfl | ⟨cs, hcs, -, hhead, hlast⟩
    · exact ⟨nofun, nofun⟩
    · obtain rfl : lead = String.ofList (cs ++ ['\\']) := by rw [← hcs, String.ofList_toList]
      rw [Text.trimRight_concat hlast, String.toList_ofList]
      exact ⟨hhead, hlast⟩
  · obtain ⟨hne, hhead, hlast⟩ := ends_names hnil hrest
    rw [if_neg hnil, String.toList_append, String.toList_ofList,
      List.getLast?_append_of_ne_nil _ hne]
    refine ⟨?_, hlast⟩
    rcases hlead with rfl | ⟨cs, hcs, hcsne, hcshead, -⟩
    · exact hhead
    · rwa [hcs, List.append_assoc, List.head?_append_of_ne_nil _ hcsne]

/-- What follows the entry in the namespace of a directory, with a separator at its end. -/
theorem qualified_spaceOf (hlead : IsLead lead)
    (hrest : ∀ cs ∈ rest, IsSegment cs) :
    ∃ after, (qualified (spaceOf lead rest)).toList = lead.toList ++ after ∧
      (after = rest.flatMap (· ++ ['\\']) ∨ rest = [] ∧ lead = "" ∧ after = ['\\']) := by
  obtain ⟨hhead, hlast⟩ := ends_spaceOf hlead hrest
  rw [qualified, Text.trimBoth_eq_self hhead hlast, String.toList_append, spaceOf]
  by_cases hnil : rest = []
  · subst hnil
    rw [if_pos rfl]
    rcases hlead with rfl | ⟨cs, hcs, -, -, hcslast⟩
    · exact ⟨['\\'], rfl, .inr ⟨rfl, rfl, rfl⟩⟩
    · refine ⟨[], ?_, .inl rfl⟩
      obtain rfl : lead = String.ofList (cs ++ ['\\']) := by rw [← hcs, String.ofList_toList]
      rw [Text.trimRight_concat hcslast, String.toList_ofList, List.append_nil]
      exact hcs.symm
  · refine ⟨_, ?_, .inl rfl⟩
    rw [if_neg hnil, String.toList_append, String.toList_ofList, List.append_assoc,
      ← Text.intercalate_concat hnil]
    rfl

/-- A directory is named by the deepest mapped directory around it. -/
theorem namespaceForDir_spec (hm : m.IsPlain) (hds : ∀ cs ∈ ds, IsSegment cs)
    (hdir : dir.normalized = ofNames ds)
    (h : m.namespaceForDir dir (conventional.filter .directoryToNamespace) = .ok space) :
    ∃ lead bs rest, m.deepest? dir = some (lead, ofNames bs) ∧ (lead, ofNames bs) ∈ m.entries ∧
      ds = bs ++ rest ∧ space = spaceOf lead rest ∧
      ∀ lead' bs' rest', (lead', ofNames bs') ∈ m.entries → ds = bs' ++ rest' →
        bs'.length ≤ bs.length := by
  rw [namespaceForDir, hdir] at h
  dsimp only at h
  split at h
  · cases h
  · rename_i lead base inner hmax
    obtain ⟨bs, rest, he, rfl, rfl, rfl⟩ := (mem_around_iff hm hds).1 (mem_of_lastMax? hmax)
    obtain ⟨hbs, hrest⟩ := List.forall_mem_append.1 hds
    refine ⟨lead, bs, rest, by rw [deepest?, hdir, hmax, Option.map_some], he, rfl, ?_, ?_⟩
    · have hempty : (ofNames rest).slashed.isEmpty = true ↔ rest = [] := by
        rw [slashed_ofNames hrest, String.isEmpty_iff, text_ofNames_eq_nil_iff hrest]
      rw [← Except.ok.inj h, spaceOf]
      by_cases hnil : rest = []
      · rw [if_pos (hempty.2 hnil), if_pos hnil]
      · rw [if_neg (mt hempty.1 hnil), if_neg hnil, slashed_ofNames hrest,
          apply_directoryToNamespace, ofNames,
          Text.replaceAll_intercalate (c := '/') (d := '\\') rfl rfl
            fun cs hcs => (hrest cs hcs).not_slash]
    · intro lead' bs' rest' he' heq
      have haround := (mem_around_iff hm hds).2 ⟨bs', rest', he', rfl, heq, rfl⟩
      have hle := le_of_lastMax? hmax _ haround
      have hbs' : ∀ cs ∈ bs', IsSegment cs := (List.forall_mem_append.1 (heq ▸ hds)).1
      dsimp only at hle
      rwa [components_ofNames hbs, components_ofNames hbs', List.length_map, List.length_map] at hle

/-! ## The directory of a namespace -/

/-- The directory below an entry that leads a namespace. -/
theorem namespaceDir_of_longest? (hbs : ∀ cs ∈ bs, IsSegment cs)
    (hrest : ∀ cs ∈ rest, IsSegment cs) (htrim : Text.trimBoth '\\' space = space)
    (h : m.longest? space = some (lead, ofNames bs)) {after : List Char}
    (hafter : (qualified space).toList = lead.toList ++ after)
    (hnames : Text.trimRight '\\' (String.ofList after) =
      String.ofList (List.intercalate ['\\'] rest)) :
    m.namespaceDir space (conventional.filter .namespaceToDirectory) =
      .ok (ofNames (bs ++ rest)) := by
  have hdrop : Text.afterLead? lead (space ++ "\\") = some (String.ofList after) := by
    rw [Text.afterLead?, ← htrim, ← qualified, Text.dropLead_eq_some_iff.2 hafter, Option.map_some]
  rw [namespaceDir, htrim, h]
  dsimp only
  rw [hdrop, Option.getD_some, hnames]
  by_cases hnil : rest = []
  · subst hnil
    rw [List.append_nil, List.intercalate_nil, String.ofList_nil, if_pos (String.isEmpty_iff.2 rfl)]
  · have hne : (String.ofList (List.intercalate ['\\'] rest)).isEmpty = false := by
      rw [Bool.eq_false_iff, Ne, String.isEmpty_iff, ← String.toList_eq_nil_iff,
        String.toList_ofList]
      exact (ends_names hnil hrest).1
    rw [hne, if_neg Bool.false_ne_true, ← join_ofNames hbs hrest hnil, apply_namespaceToDirectory,
      Text.replaceAll_intercalate (c := '\\') (d := '/') rfl rfl
        fun cs hcs => (hrest cs hcs).not_backslash]
    rfl

/-- A longer entry that leads the namespace of a directory leads further into it. -/
theorem exists_of_longer {lead' : String} {after after' : List Char}
    (hlead' : IsLead lead') (hrest : ∀ cs ∈ rest, IsSegment cs)
    (hafter : after = rest.flatMap (· ++ ['\\']) ∨ rest = [] ∧ lead = "" ∧ after = ['\\'])
    (heq : lead.toList ++ after = lead'.toList ++ after')
    (hsize : lead.utf8ByteSize ≤ lead'.utf8ByteSize) (hne : lead' ≠ lead) :
    ∃ front inner, front ≠ [] ∧ rest = front ++ inner ∧ after' = inner.flatMap (· ++ ['\\']) := by
  -- of two leads of one text the longer one starts with the other
  have hextra : ∃ extra, lead'.toList = lead.toList ++ extra ∧ after = extra ++ after' := by
    rcases List.append_eq_append_iff.1 heq with h | ⟨extra, hlead, -⟩
    · exact h
    · have hbytes := congrArg (fun cs => (String.ofList cs).utf8ByteSize) hlead
      simp only [String.ofList_toList, String.ofList_append, String.utf8ByteSize_append] at hbytes
      have hzero : (String.ofList extra).utf8ByteSize = 0 := by omega
      rw [String.utf8ByteSize_eq_zero_iff, ← String.toList_eq_nil_iff, String.toList_ofList] at hzero
      rw [hzero, List.append_nil, String.toList_inj] at hlead
      exact absurd hlead.symm hne
  obtain ⟨extra, hlead, rfl⟩ := hextra
  have hextraNe : extra ≠ [] := by
    rintro rfl
    rw [List.append_nil, String.toList_inj] at hlead
    exact hne hlead
  rcases hlead' with rfl | ⟨cs, hcs, hcsne, -⟩
  · exact absurd (List.append_eq_nil_iff.1 hlead.symm).2 hextraNe
  · obtain ⟨init, last, rfl⟩ := (List.eq_nil_or_concat extra).resolve_left hextraNe
    rw [List.concat_eq_append] at hlead hafter
    rw [hcs, ← List.append_assoc] at hlead
    obtain ⟨hinit, hlast⟩ := List.append_inj' hlead rfl
    obtain rfl := (List.singleton_inj.1 hlast).symm
    rcases hafter with hafter | ⟨-, rfl, hafter⟩
    · rw [List.append_assoc] at hafter
      exact Text.exists_of_flatMap_eq (fun cs hcs => (hrest cs hcs).not_backslash) hafter.symm
    · cases init with
      | nil => exact absurd hinit hcsne
      | cons c init => simp at hafter

/-- The directory of the namespace of a directory, by the entries that the lookups choose. -/
theorem namespaceDir_eq_iff (hm : m.IsPlain) (hdir : dir.isPlain = true)
    (h : m.namespaceForDir dir (conventional.filter .directoryToNamespace) = .ok space) :
    m.namespaceDir space (conventional.filter .namespaceToDirectory) = .ok dir.normalized ↔
      m.longest? space = m.deepest? dir := by
  obtain ⟨ds, hds, hcomponents⟩ := exists_of_isPlain hdir
  have hnormalized := normalized_eq hds hcomponents
  obtain ⟨lead, bs, rest, hdeepest, he, rfl, rfl, hmax⟩ := namespaceForDir_spec hm hds hnormalized h
  obtain ⟨hbs, hrest⟩ := List.forall_mem_append.1 hds
  have hsegments : ∀ names : List (List Char), (∀ cs ∈ names, IsSegment cs) →
      ∀ cs ∈ names, cs ≠ [] ∧ '\\' ∉ cs := fun names hnames cs hcs =>
    ⟨(hnames cs hcs).ne_nil, (hnames cs hcs).not_backslash⟩
  obtain ⟨hhead, hlast⟩ := ends_spaceOf (hm.lead _ he) hrest
  have htrim := Text.trimBoth_eq_self hhead hlast
  obtain ⟨after, hafter, hcases⟩ := qualified_spaceOf (hm.lead _ he) hrest
  rw [hdeepest, hnormalized]
  constructor
  · intro hresult
    cases hlongest : m.longest? (spaceOf lead rest) with
    | none =>
      rw [namespaceDir, htrim, hlongest] at hresult
      cases hresult
    | some e =>
      obtain ⟨he', ⟨after', hafter'⟩, hlongestMax⟩ := longest?_spec hlongest
      obtain ⟨lead', base'⟩ := e
      dsimp only at hafter' hlongestMax
      by_cases hlead : lead' = lead
      · exact congrArg some (hm.unique _ he' _ he hlead)
      · obtain ⟨bs', hbs', hbase⟩ := hm.dir _ he'
        obtain rfl : base' = ofNames bs' := hbase
        obtain ⟨front, inner, hfront, rfl, rfl⟩ := exists_of_longer (hm.lead _ he') hrest hcases
          (hafter.symm.trans hafter') (hlongestMax _ he ⟨after, hafter⟩) hlead
        obtain ⟨hfrontNames, hinner⟩ := List.forall_mem_append.1 hrest
        have hresult' := namespaceDir_of_longest? hbs' hinner htrim hlongest hafter'
          (Text.trimRight_flatMap (hsegments inner hinner))
        have hnames := ofNames_injective (List.forall_mem_append.2 ⟨hbs', hinner⟩) hds
          (Except.ok.inj (hresult'.symm.trans hresult))
        rw [← List.append_assoc, List.append_cancel_right_eq] at hnames
        -- the entry is deeper than the deepest one around the directory
        have hle := hmax lead' bs' inner he' (by rw [hnames, List.append_assoc])
        rw [hnames, List.length_append] at hle
        have := List.length_pos_of_ne_nil hfront
        omega
  · intro hlongest
    refine namespaceDir_of_longest? hbs hrest htrim hlongest hafter ?_
    rcases hcases with rfl | ⟨rfl, -, rfl⟩
    · exact Text.trimRight_flatMap (hsegments rest hrest)
    · have hend : ([] : List Char).getLast? ≠ some '\\' := nofun
      have hempty := Text.trimRight_concat hend
      rwa [List.nil_append] at hempty

/-! ## The file of a class -/

/-- The file of a class is looked up in the directory of its namespace. -/
theorem classPath_fullName {l : ClassLocation} {toDirectory : Filter}
    (hhead : l.namespaceName.toList.head? ≠ some '\\')
    (hname : l.className ≠ "") (hseparator : '\\' ∉ l.className.toList)
    (h : m.namespaceDir l.namespaceName toDirectory = .ok dir) :
    m.classPath l.fullName toDirectory = .ok (Blueprint.fileIn dir l.className) := by
  have hclass : l.className.toList ≠ [] := mt String.toList_eq_nil_iff.1 hname
  have hlast : l.className.toList.getLast? ≠ some '\\' := fun hlast =>
    hseparator (List.mem_of_getLast? hlast)
  rw [ClassLocation.fullName]
  by_cases hempty : l.namespaceName.isEmpty = true
  · have hclassHead : l.className.toList.head? ≠ some '\\' := fun hhead =>
      hseparator (List.mem_of_mem_head? hhead)
    rw [if_pos hempty, classPath, Text.trimBoth_eq_self hclassHead hlast,
      Text.cutLast?_eq_none hseparator, Option.getD_none]
    rw [String.isEmpty_iff.1 hempty] at h
    simp only [h]
    rfl
  · have hchars : (l.namespaceName ++ "\\" ++ l.className).toList =
        l.namespaceName.toList ++ '\\' :: l.className.toList := by
      rw [String.toList_append, String.toList_append, List.append_assoc]
      rfl
    have hspace : l.namespaceName.toList ≠ [] := by
      rwa [Ne, String.toList_eq_nil_iff, ← String.isEmpty_iff]
    have htrim : Text.trimBoth '\\' (l.namespaceName ++ "\\" ++ l.className) =
        l.namespaceName ++ "\\" ++ l.className := by
      refine Text.trimBoth_eq_self ?_ ?_
      · rwa [hchars, List.head?_append_of_ne_nil _ hspace]
      · rwa [String.toList_append, List.getLast?_append_of_ne_nil _ hclass]
    have hcut : Text.cutLast? '\\' (l.namespaceName ++ "\\" ++ l.className) =
        some (l.namespaceName, l.className) := by
      rw [← String.ofList_toList (s := l.namespaceName ++ "\\" ++ l.className), hchars,
        Text.cutLast?_append hseparator, String.ofList_toList, String.ofList_toList]
    rw [if_neg hempty, classPath, htrim, hcut, Option.getD_some]
    simp only [h]
    rfl

/-- A directory is the one of its own namespace exactly if the longest mapped namespace that leads
    it belongs to the deepest mapped directory around it; then the classes of the directory are
    found in their files. -/
theorem namespaceDir_namespaceForDir_iff {mappings : List (String × Path)}
    (hmappings : ∀ e ∈ mappings, e.2.isPlain = true) (hdir : dir.isPlain = true)
    (h : (ofMappings mappings).namespaceForDir dir (conventional.filter .directoryToNamespace) =
      .ok space) :
    ((ofMappings mappings).namespaceDir space (conventional.filter .namespaceToDirectory) =
        .ok dir.normalized ↔
      (ofMappings mappings).longest? space = (ofMappings mappings).deepest? dir) ∧
    ((ofMappings mappings).longest? space = (ofMappings mappings).deepest? dir →
      ∀ (b : Blueprint) (name : String) (l : ClassLocation),
        b.settings.autoload = ofMappings mappings →
        b.naming.filter .directoryToNamespace = conventional.filter .directoryToNamespace →
        b.locateIn dir name = .ok l → name ≠ "" → '\\' ∉ name.toList →
        ∃ path, (ofMappings mappings).classPath l.fullName
            (conventional.filter .namespaceToDirectory) = .ok path ∧ path.same l.path = true) := by
  have hm := isPlain_ofMappings hmappings
  have hiff := namespaceDir_eq_iff hm hdir h
  refine ⟨hiff, fun hchoice b name l hautoload hfilter hl hname hseparator => ?_⟩
  obtain ⟨ds, hds, hcomponents⟩ := exists_of_isPlain hdir
  obtain ⟨space', hspace', rfl⟩ := b.locateIn_eq_ok_iff.1 hl
  rw [hautoload, hfilter, h] at hspace'
  obtain rfl := Except.ok.inj hspace'
  obtain ⟨lead, bs, rest, -, he, rfl, rfl, -⟩ :=
    namespaceForDir_spec hm hds (normalized_eq hds hcomponents) h
  have hhead := (ends_spaceOf (hm.lead _ he) (List.forall_mem_append.1 hds).2).1
  exact ⟨_, classPath_fullName hhead hname hseparator (hiff.2 hchoice),
    same_join_normalized hdir ⟨name ++ ".php"⟩⟩

/-! ### A longer namespace elsewhere -/

/-- An application and its tests. -/
def testedApplication : List (String × Path) := [("App", ⟨"src"⟩), ("App\\Tests", ⟨"tests"⟩)]

/-- An application with a part of its namespace in another directory. -/
def splitApplication : List (String × Path) := [("App", ⟨"src"⟩), ("App\\Foo", ⟨"lib"⟩)]

/-- A project without elements. -/
def projectOf (mappings : List (String × Path)) : Blueprint :=
  ⟨.standard (ofMappings mappings), ⟨[], [], .empty⟩⟩

/-- A class of the application. -/
def testedOrder : ClassLocation := ⟨"App\\Domain", "Order", ⟨"src/Domain/Order.php"⟩⟩

theorem namespaceDir_namespaceForDir_testedApplication :
    (ofMappings testedApplication).namespaceDir "App\\Domain"
        (conventional.filter .namespaceToDirectory) = .ok (Path.mk "src/Domain").normalized ∧
      ∃ path, (ofMappings testedApplication).classPath testedOrder.fullName
          (conventional.filter .namespaceToDirectory) = .ok path ∧
        path.same testedOrder.path = true := by
  have hmappings : ∀ e ∈ testedApplication, e.2.isPlain = true := by decide +kernel
  have hdir : (Path.mk "src/Domain").isPlain = true := by decide +kernel
  have h : (ofMappings testedApplication).namespaceForDir ⟨"src/Domain"⟩
      (conventional.filter .directoryToNamespace) = .ok "App\\Domain" := by decide +kernel
  have hchoice : (ofMappings testedApplication).longest? "App\\Domain" =
      (ofMappings testedApplication).deepest? ⟨"src/Domain"⟩ := by decide +kernel
  have hl : (projectOf testedApplication).locateIn ⟨"src/Domain"⟩ "Order" = .ok testedOrder := by
    decide +kernel
  obtain ⟨hiff, hclass⟩ := namespaceDir_namespaceForDir_iff hmappings hdir h
  exact ⟨hiff.2 hchoice,
    hclass hchoice (projectOf testedApplication) "Order" testedOrder rfl rfl hl (by decide)
      (by decide)⟩

/-- The namespace of a directory leads to another one. -/
theorem splitApplication_namespaceDir :
    (∀ e ∈ splitApplication, e.2.isPlain = true) ∧ (Path.mk "src/Foo").isPlain = true ∧
    (ofMappings splitApplication).namespaceForDir ⟨"src/Foo"⟩
      (conventional.filter .directoryToNamespace) = .ok "App\\Foo" ∧
    (ofMappings splitApplication).namespaceDir "App\\Foo"
      (conventional.filter .namespaceToDirectory) ≠ .ok (Path.mk "src/Foo").normalized := by
  have hdir : (ofMappings splitApplication).namespaceDir "App\\Foo"
      (conventional.filter .namespaceToDirectory) = .ok ⟨"lib"⟩ := by decide +kernel
  refine ⟨by decide +kernel, by decide +kernel, by decide +kernel, ?_⟩
  rw [hdir]
  decide +kernel

end DomainScaffold.Naming.Autoload
