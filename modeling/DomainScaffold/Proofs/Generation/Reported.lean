import DomainScaffold.Graph.Reader
import DomainScaffold.Proofs.Fields
import DomainScaffold.Proofs.Generation.HandWritten
import DomainScaffold.Proofs.Text.Pieces

/-!
# What is reported

A report names its files. A planned file goes by its own name, or by its name and path if the name
is taken. The second key is not looked up: a file that is reported under it replaces one that has it
already.

Results:
* `nodup_keysOf_iff`: when no key is given twice.
* `ofSources_eq`: entries and errors of a report.
* `filesAt_of_isReplaced`, `filesAt_of_not_isReplaced`: whether a rendered file has its entry.
* `reportsAll_generate_iff`: all planned files are reported exactly if no key is given twice.
-/

namespace DomainScaffold

open Merge

/-! ## Keys -/

namespace PlannedFile

/-- The name of a planned file with its path. -/
def longName (f : PlannedFile) : String := f.name ++ " (" ++ f.path.text ++ ")"

/-- The key of a planned file where others are taken. -/
def keyAmong (taken : List String) (f : PlannedFile) : String :=
  if f.name ∈ taken then f.longName else f.name

theorem keyAmong_mem_iff {taken : List String} {f : PlannedFile} :
    f.keyAmong taken ∈ taken ↔ f.name ∈ taken ∧ f.longName ∈ taken := by
  unfold keyAmong
  by_cases h : f.name ∈ taken <;> simp [h]

theorem bracket_mem_longName (f : PlannedFile) : '(' ∈ f.longName.toList := by
  simp [longName]

/-- The first bracket stands behind a name without brackets. -/
theorem cutFirst?_longName {f : PlannedFile} (hf : '(' ∉ f.name.toList) :
    Text.cutFirst? '(' f.longName = some (f.name ++ " ", f.path.text ++ ")") := by
  have hlong : f.longName =
      String.ofList ((f.name ++ " ").toList ++ '(' :: (f.path.text ++ ")").toList) := by
    rw [← String.toList_inj]
    simp [longName]
  rw [hlong, Text.cutFirst?_append (by simpa using hf), String.ofList_toList, String.ofList_toList]

theorem longName_inj {f f' : PlannedFile} (hf : '(' ∉ f.name.toList) (hf' : '(' ∉ f'.name.toList)
    (h : f.longName = f'.longName) : f.path = f'.path := by
  have hcut := cutFirst?_longName hf
  rw [h, cutFirst?_longName hf', Option.some.injEq, Prod.mk.injEq] at hcut
  have hpath := congrArg String.toList hcut.2.symm
  rw [String.toList_append, String.toList_append] at hpath
  exact congrArg Path.mk (String.toList_inj.1 (List.append_cancel_right hpath))

end PlannedFile

namespace Report

/-- A planned file and what it was rendered to. -/
abbrev Rendering := PlannedFile × GeneratedFile

/-- Rendered files under their keys, where others are taken. -/
def entriesFrom (taken : List String) : List Rendering → List (String × GeneratedFile)
  | [] => []
  | (f, g) :: rest => (f.keyAmong taken, g) :: entriesFrom (taken ++ [f.keyAmong taken]) rest

/-- The keys of rendered files. -/
def keysOf (rs : List Rendering) : List String := (entriesFrom [] rs).map Prod.fst

/-- Whether no file is given a key that another one has. -/
def NoClash (rs : List Rendering) : Prop :=
  ∀ before f g after, rs = before ++ (f, g) :: after →
    f.name ∈ keysOf before → f.longName ∉ keysOf before

/-- Whether a later file, whose name is taken, is given the key of a file. -/
def IsReplaced (rs : List Rendering) (f : PlannedFile) : Prop :=
  ∃ before g between f' g' after, rs = before ++ (f, g) :: (between ++ (f', g') :: after) ∧
    f'.name ∈ keysOf (before ++ (f, g) :: between) ∧ f'.longName = f.keyAmong (keysOf before)

variable {rs before after : List Rendering} {f : PlannedFile} {g : GeneratedFile}
  {taken : List String} {key : String}

theorem IsReplaced.exists_mem (h : IsReplaced rs f) : ∃ g, (f, g) ∈ rs := by
  obtain ⟨before, g, between, f', g', after, rfl, -⟩ := h
  exact ⟨g, by simp⟩

theorem entriesFrom_append (taken : List String) (xs ys : List Rendering) :
    entriesFrom taken (xs ++ ys) =
      entriesFrom taken xs ++ entriesFrom (taken ++ (entriesFrom taken xs).map Prod.fst) ys := by
  induction xs generalizing taken with
  | nil => simp [entriesFrom]
  | cons x xs ih => simp [entriesFrom, ih]

theorem keysOf_concat (rs : List Rendering) (r : Rendering) :
    keysOf (rs ++ [r]) = keysOf rs ++ [r.1.keyAmong (keysOf rs)] := by
  simp [keysOf, entriesFrom_append, entriesFrom]

/-- Distinct names are the keys. -/
theorem keysOf_of_nodup (h : (rs.map fun r => r.1.name).Nodup) :
    keysOf rs = rs.map fun r => r.1.name := by
  induction rs using List.reverseRecOn with
  | nil => rfl
  | append_singleton rs r ih =>
    rw [List.map_append, List.nodup_append] at h
    have hnew : r.1.name ∉ rs.map fun r => r.1.name := fun hmem =>
      h.2.2 _ hmem _ List.mem_cons_self rfl
    rw [keysOf_concat, ih h.1, PlannedFile.keyAmong, if_neg hnew, List.map_append,
      List.map_singleton]

theorem map_snd_entriesFrom (taken : List String) (rs : List Rendering) :
    (entriesFrom taken rs).map Prod.snd = rs.map Prod.snd := by
  induction rs generalizing taken with
  | nil => rfl
  | cons r rs ih => rw [entriesFrom, List.map_cons, List.map_cons, ih]

/-- Every key is that of a file among the files before it. -/
theorem mem_keys_iff : key ∈ (entriesFrom taken rs).map Prod.fst ↔
    ∃ before f g after, rs = before ++ (f, g) :: after ∧
      key = f.keyAmong (taken ++ (entriesFrom taken before).map Prod.fst) := by
  constructor
  · intro h
    induction rs generalizing taken with
    | nil => cases h
    | cons r rs ih =>
      rw [entriesFrom, List.map_cons, List.mem_cons] at h
      rcases h with rfl | h
      · exact ⟨[], r.1, r.2, rs, rfl, by rw [entriesFrom, List.map_nil, List.append_nil]⟩
      · obtain ⟨before, f, g, after, rfl, rfl⟩ := ih h
        exact ⟨r :: before, f, g, after, rfl, by simp [entriesFrom]⟩
  · rintro ⟨before, f, g, after, rfl, rfl⟩
    simp [entriesFrom_append, entriesFrom]

theorem keysOf_append_cons (before after : List Rendering) (f : PlannedFile) (g : GeneratedFile) :
    keysOf (before ++ (f, g) :: after) = keysOf before ++ f.keyAmong (keysOf before) ::
      (entriesFrom (keysOf before ++ [f.keyAmong (keysOf before)]) after).map Prod.fst := by
  simp [keysOf, entriesFrom_append, entriesFrom]

/-- No key is given twice exactly if no file is given a key that another one has. -/
theorem nodup_keysOf_iff : (keysOf rs).Nodup ↔ NoClash rs := by
  constructor
  · rintro hnodup before f g after rfl hname hlong
    rw [keysOf_append_cons, List.nodup_append] at hnodup
    have hkey : f.keyAmong (keysOf before) ∈ keysOf before :=
      PlannedFile.keyAmong_mem_iff.2 ⟨hname, hlong⟩
    exact hnodup.2.2 _ hkey _ List.mem_cons_self rfl
  · intro h
    induction rs using List.reverseRecOn with
    | nil => exact .nil
    | append_singleton rs r ih =>
      have hrs : NoClash rs := by
        rintro before f g after rfl
        exact h before f g (after ++ [r]) (by simp)
      rw [keysOf_concat, List.nodup_append]
      refine ⟨ih hrs, List.nodup_singleton _, fun key hkey last hlast => ?_⟩
      rw [List.mem_singleton] at hlast
      rintro rfl
      rw [hlast, PlannedFile.keyAmong_mem_iff] at hkey
      exact h rs r.1 r.2 [] rfl hkey.1 hkey.2

/-- A key that is taken is given again to a file with a taken name that goes by the key. -/
theorem mem_keys_of_taken_iff (h : key ∈ taken) : key ∈ (entriesFrom taken rs).map Prod.fst ↔
    ∃ before f g after, rs = before ++ (f, g) :: after ∧
      f.name ∈ taken ++ (entriesFrom taken before).map Prod.fst ∧ f.longName = key := by
  rw [mem_keys_iff]
  constructor
  · rintro ⟨before, f, g, after, rfl, rfl⟩
    refine ⟨before, f, g, after, rfl, ?_⟩
    unfold PlannedFile.keyAmong at h ⊢
    split at h
    · rename_i hname
      exact ⟨hname, by rw [if_pos hname]⟩
    · rename_i hname
      exact absurd (List.mem_append_left _ h) hname
  · rintro ⟨before, f, g, after, rfl, hname, rfl⟩
    exact ⟨before, f, g, after, rfl, by rw [PlannedFile.keyAmong, if_pos hname]⟩

/-- Whether a file is replaced, at its place among the others. -/
theorem mem_later_iff : f.keyAmong (keysOf before) ∈
      (entriesFrom (keysOf before ++ [f.keyAmong (keysOf before)]) after).map Prod.fst ↔
    ∃ between f' g' rest, after = between ++ (f', g') :: rest ∧
      f'.name ∈ keysOf (before ++ (f, g) :: between) ∧
      f'.longName = f.keyAmong (keysOf before) := by
  rw [mem_keys_of_taken_iff (List.mem_append_right _ List.mem_cons_self)]
  simp only [keysOf_append_cons, List.append_assoc, List.singleton_append]

/-! ## Entries of a report -/

section Sources

variable {rules : MergeRules} {sources : List (PlannedFile × Outcome (Option String))}

/-- The planned files that were rendered. -/
def renderings (rules : MergeRules) (sources : List (PlannedFile × Outcome (Option String))) :
    List Rendering :=
  sources.filterMap fun s => (s.1.render rules s.2).toOption.map fun r => (s.1, r.file)

/-- What is wrong with a planned file. -/
def troubles (rules : MergeRules) (s : PlannedFile × Outcome (Option String)) :
    List GenerationError :=
  match s.1.render rules s.2 with
  | .ok r => r.issues
  | .error e => [e]

theorem keyFor_ofPairs (entries : List (String × GeneratedFile)) (f : PlannedFile) :
    keyFor (Fields.ofPairs entries) f = f.keyAmong (entries.map Prod.fst) := by
  have hhas : Fields.has f.name (Fields.ofPairs entries) = true ↔
      f.name ∈ entries.map Prod.fst := by
    rw [Fields.has_iff, Fields.keys_ofPairs, List.mem_eraseDups]
  simp only [keyFor, hhas]
  rfl

theorem renderings_append (first last : List (PlannedFile × Outcome (Option String))) :
    renderings rules (first ++ last) = renderings rules first ++ renderings rules last :=
  List.filterMap_append

/-- A report has the entries of the rendered files, written one after the other. -/
theorem ofSources_eq (rules : MergeRules) (errors : List GenerationError)
    (sources : List (PlannedFile × Outcome (Option String))) :
    ofSources rules errors sources =
      ⟨Fields.ofPairs (entriesFrom [] (renderings rules sources)),
        errors ++ sources.flatMap (troubles rules)⟩ := by
  induction sources using List.reverseRecOn with
  | nil => simp [ofSources, renderings, entriesFrom, Fields.ofPairs]
  | append_singleton sources s ih =>
    have hconcat : ofSources rules errors (sources ++ [s]) =
        (ofSources rules errors sources).add s.1 (s.1.render rules s.2) := by
      rw [ofSources, List.foldl_append]
      rfl
    rw [hconcat, ih, renderings_append, List.flatMap_append]
    unfold add
    cases hrender : s.1.render rules s.2 with
    | error e => simp [renderings, troubles, hrender, Except.toOption]
    | ok r =>
      rw [keyFor_ofPairs, entriesFrom_append, List.nil_append]
      simp [renderings, troubles, hrender, Except.toOption, entriesFrom, Fields.ofPairs_concat]

theorem mem_renderings_iff : (f, g) ∈ renderings rules sources ↔
    ∃ s ∈ sources, s.1 = f ∧ ∃ issues, s.1.render rules s.2 = .ok ⟨g, issues⟩ := by
  rw [renderings, List.mem_filterMap]
  refine exists_congr fun s => and_congr_right fun _ => ?_
  cases s.1.render rules s.2 with
  | error e => simp [Except.toOption]
  | ok r =>
    obtain ⟨file, issues⟩ := r
    simp [Except.toOption]

theorem path_of_mem_renderings (h : (f, g) ∈ renderings rules sources) : g.path = f.path := by
  obtain ⟨s, -, rfl, issues, hrender⟩ := mem_renderings_iff.1 h
  exact path_render hrender

/-- The planned files that were rendered keep their order. -/
theorem sublist_renderings (rules : MergeRules)
    (sources : List (PlannedFile × Outcome (Option String))) :
    ((renderings rules sources).map Prod.fst).Sublist (sources.map Prod.fst) := by
  induction sources with
  | nil => exact .slnil
  | cons s sources ih =>
    have hone : ((renderings rules [s]).map Prod.fst).Sublist [s.1] := by
      cases hrender : s.1.render rules s.2 <;> simp [renderings, hrender, Except.toOption]
    rw [← List.singleton_append, renderings_append, List.map_append, List.map_append]
    exact hone.append ih

theorem pairwise_renderings
    (hpaths : sources.Pairwise fun s u => s.1.path.same u.1.path = false) :
    (renderings rules sources).Pairwise fun r u => r.1.path.same u.1.path = false :=
  List.pairwise_map.1 (List.Pairwise.sublist (R := fun f h => f.path.same h.path = false)
    (sublist_renderings rules sources) (List.pairwise_map.2 hpaths))

/-- Rendered files have distinct paths if the planned ones do. -/
theorem pairwise_entries (rules : MergeRules)
    (hpaths : sources.Pairwise fun s u => s.1.path.same u.1.path = false) :
    (entriesFrom [] (renderings rules sources)).Pairwise fun p q =>
      p.2.path.same q.2.path = false := by
  rw [← List.pairwise_map (R := fun g h : GeneratedFile => g.path.same h.path = false),
    map_snd_entriesFrom, List.pairwise_map]
  refine (pairwise_renderings hpaths).imp_of_mem fun hr hu hsame => ?_
  rwa [path_of_mem_renderings hr, path_of_mem_renderings hu]

end Sources

/-- Of entries with distinct paths no two are for one file. -/
theorem same_path_eq {entries : List (String × GeneratedFile)}
    (hpaths : entries.Pairwise fun p q => p.2.path.same q.2.path = false)
    {p q : String × GeneratedFile} (hp : p ∈ entries) (hq : q ∈ entries) :
    p.2.path.same q.2.path = (p == q) := by
  have : Std.Symm fun p q : String × GeneratedFile => p.2.path.same q.2.path = false :=
    ⟨fun p q h => by rwa [Path.same_comm]⟩
  by_cases heq : p = q
  · rw [heq, Path.same_refl, beq_self_eq_true]
  · rw [hpaths.forall hp hq heq, beq_false_of_ne heq]

/-- A file is found at its path unless its key is written again. -/
theorem filesAt_ofPairs {first last : List (String × GeneratedFile)}
    (hpaths : (first ++ (key, g) :: last).Pairwise fun p q => p.2.path.same q.2.path = false)
    (errors : List GenerationError) :
    (⟨Fields.ofPairs (first ++ (key, g) :: last), errors⟩ : Report).filesAt g.path =
      if key ∈ last.map Prod.fst then [] else [g] := by
  have hentry : (key, g) ∈ first ++ (key, g) :: last := by simp
  have hat : ∀ p ∈ Fields.ofPairs (first ++ (key, g) :: last),
      p.2.path.same g.path = (p == (key, g)) := fun p hp =>
    same_path_eq (q := (key, g)) hpaths (Fields.mem_of_mem_ofPairs hp) hentry
  have hnodup : (Fields.ofPairs (first ++ (key, g) :: last)).Nodup :=
    List.Nodup.of_map Prod.fst (Fields.DistinctKeys.ofPairs _)
  have hnot : (key, g) ∉ last := by
    intro hmem
    have hdiffers := (List.pairwise_cons.1 (List.pairwise_append.1 hpaths).2.1).1 _ hmem
    rw [Path.same_refl] at hdiffers
    cases hdiffers
  have hkept := Fields.mem_ofPairs_iff first hnot
  generalize Fields.ofPairs (first ++ (key, g) :: last) = files at hat hnodup hkept ⊢
  have hfilter : files.filter ((fun h : GeneratedFile => h.path.same g.path) ∘ Prod.snd) =
      files.filter (· == (key, g)) := List.filter_congr hat
  rw [filesAt, List.filter_map, hfilter, List.filter_beq]
  by_cases hkey : key ∈ last.map Prod.fst
  · rw [if_pos hkey, List.count_eq_zero_of_not_mem (fun h => hkept.1 h hkey)]
    rfl
  · rw [if_neg hkey, List.count_eq_one_of_mem hnodup (hkept.2 hkey)]
    rfl

/-! ## Rendered files in a report -/

section Rendered

variable {rules : MergeRules} {sources : List (PlannedFile × Outcome (Option String))}
  {errors : List GenerationError}

/-- The entry of a rendered file is found at its path unless a later file is given its key. -/
theorem filesAt_ofSources (hpaths : sources.Pairwise fun s u => s.1.path.same u.1.path = false)
    (hrs : renderings rules sources = before ++ (f, g) :: after)
    (errors : List GenerationError) :
    (ofSources rules errors sources).filesAt g.path =
      if f.keyAmong (keysOf before) ∈
          (entriesFrom (keysOf before ++ [f.keyAmong (keysOf before)]) after).map Prod.fst then []
      else [g] := by
  have hentries := pairwise_entries rules hpaths
  rw [ofSources_eq]
  rw [hrs, entriesFrom_append, List.nil_append] at hentries ⊢
  exact filesAt_ofPairs hentries _

theorem filesAt_of_isReplaced (hpaths : sources.Pairwise fun s u => s.1.path.same u.1.path = false)
    (h : IsReplaced (renderings rules sources) f) :
    (ofSources rules errors sources).filesAt f.path = [] := by
  obtain ⟨before, g, between, f', g', after, hrs, hname, hlong⟩ := h
  have hmem : (f, g) ∈ renderings rules sources := by simp [hrs]
  have hlater := mem_later_iff.2 ⟨between, f', g', after, rfl, hname, hlong⟩
  have hfiles := filesAt_ofSources hpaths hrs errors
  rwa [if_pos hlater, path_of_mem_renderings hmem] at hfiles

theorem filesAt_of_not_isReplaced
    (hpaths : sources.Pairwise fun s u => s.1.path.same u.1.path = false)
    (h : ¬ IsReplaced (renderings rules sources) f) (hmem : (f, g) ∈ renderings rules sources) :
    (ofSources rules errors sources).filesAt f.path = [g] := by
  obtain ⟨before, after, hrs⟩ := List.append_of_mem hmem
  have hlater : f.keyAmong (keysOf before) ∉
      (entriesFrom (keysOf before ++ [f.keyAmong (keysOf before)]) after).map Prod.fst := by
    intro hlater
    obtain ⟨between, f', g', rest, rfl, hname, hlong⟩ := mem_later_iff.1 hlater
    exact h ⟨before, g, between, f', g', rest, hrs, hname, hlong⟩
  have hfiles := filesAt_ofSources hpaths hrs errors
  rwa [if_neg hlater, path_of_mem_renderings hmem] at hfiles

theorem noClash_iff_not_isReplaced : NoClash rs ↔ ∀ f, ¬ IsReplaced rs f := by
  constructor
  · rintro h f ⟨before, g, between, f', g', after, rfl, hname, hlong⟩
    refine h (before ++ (f, g) :: between) f' g' after (by simp) hname ?_
    rw [hlong, keysOf_append_cons]
    simp
  · rintro h before f g after rfl hname hlong
    obtain ⟨first, f', g', between, rfl, hkey⟩ := mem_keys_iff.1 hlong
    rw [List.nil_append] at hkey
    exact h f' ⟨first, g', between, f, g, after, by simp, hname, hkey⟩

theorem noClash_of_nodup (h : (rs.map fun r => r.1.name).Nodup) : NoClash rs :=
  nodup_keysOf_iff.1 (keysOf_of_nodup h ▸ h)

/-- Names without brackets do not clash. -/
theorem noClash_of_names (hpaths : rs.Pairwise fun r u => r.1.path.same u.1.path = false)
    (hnames : ∀ r ∈ rs, '(' ∉ r.1.name.toList) : NoClash rs := by
  rintro before f g after rfl - hlong
  obtain ⟨first, f', g', between, rfl, hkey⟩ := mem_keys_iff.1 hlong
  have hname : '(' ∉ f.name.toList := hnames (f, g) (by simp)
  have hname' : '(' ∉ f'.name.toList := hnames (f', g') (by simp)
  have hdiffers : f'.path.same f.path = false := by
    rw [List.pairwise_append] at hpaths
    exact hpaths.2.2 (f', g') (by simp) (f, g) List.mem_cons_self
  unfold PlannedFile.keyAmong at hkey
  split at hkey
  · rw [PlannedFile.longName_inj hname hname' hkey, Path.same_refl] at hdiffers
    cases hdiffers
  · rw [← hkey] at hname'
    exact hname' f.bracket_mem_longName

end Rendered

end Report

/-! ## Reports of a run -/

namespace Blueprint

open Report

variable (b : Blueprint) (read : Path → Outcome (Option String))

/-- The planned files that a run renders. -/
def renderings : List Rendering :=
  Report.renderings b.settings.merging (b.plan.1.map fun f => (f, read f.path))

/-- Whether a run reports every planned file: those that could not be rendered with their error, and
    the others with one entry each, none of which replaces another. -/
structure ReportsAll : Prop where
  reported : ∀ f ∈ b.plan.1,
    (∃ e, f.render b.settings.merging (read f.path) = .error e ∧ e ∈ (b.generate read).errors) ∨
    ∃ g issues, f.render b.settings.merging (read f.path) = .ok ⟨g, issues⟩ ∧
      (b.generate read).filesAt f.path = [g]
  kept : (b.generate read).files.map Prod.snd = (b.renderings read).map Prod.snd

variable {b read} {f : PlannedFile} {g : GeneratedFile} {issues : List GenerationError}

theorem pairwise_sources : (b.plan.1.map fun f => (f, read f.path)).Pairwise fun s u =>
    s.1.path.same u.1.path = false :=
  List.pairwise_map.2 (List.pairwise_map.1 b.wellFormed_plan.distinct)

theorem mem_renderings (hf : f ∈ b.plan.1)
    (hrender : f.render b.settings.merging (read f.path) = .ok ⟨g, issues⟩) :
    (f, g) ∈ b.renderings read :=
  mem_renderings_iff.2 ⟨_, List.mem_map_of_mem hf, rfl, issues, hrender⟩

/-- What is wrong with a planned file is reported. -/
theorem mem_errors_generate (hf : f ∈ b.plan.1) {e : GenerationError}
    (he : e ∈ troubles b.settings.merging (f, read f.path)) : e ∈ (b.generate read).errors := by
  have hgenerate : (b.generate read).errors = b.plan.2 ++
      (b.plan.1.map fun f => (f, read f.path)).flatMap (troubles b.settings.merging) :=
    congrArg Report.errors (ofSources_eq _ _ _)
  rw [hgenerate, List.mem_append]
  exact .inr (List.mem_flatMap.2 ⟨_, List.mem_map_of_mem hf, he⟩)

theorem failed_generate (hf : f ∈ b.plan.1) {e : GenerationError}
    (hrender : f.render b.settings.merging (read f.path) = .error e) :
    e ∈ (b.generate read).errors ∧ (b.generate read).filesAt f.path = [] := by
  refine ⟨mem_errors_generate hf (by simp [troubles, hrender]), ?_⟩
  refine List.eq_nil_iff_forall_not_mem.2 fun g hg => ?_
  obtain ⟨issues, h⟩ := render_of_mem_filesAt hf hg
  rw [hrender] at h
  cases h

/-- A rendered file has its entry, unless a later file is given its key. -/
theorem rendered_generate (hf : f ∈ b.plan.1)
    (hrender : f.render b.settings.merging (read f.path) = .ok ⟨g, issues⟩) :
    (∀ i ∈ issues, i ∈ (b.generate read).errors) ∧
      (¬ IsReplaced (b.renderings read) f → (b.generate read).filesAt f.path = [g]) ∧
      (IsReplaced (b.renderings read) f → (b.generate read).filesAt f.path = []) :=
  ⟨fun i hi => mem_errors_generate hf (by simpa [troubles, hrender] using hi),
    fun h => filesAt_of_not_isReplaced pairwise_sources h (mem_renderings hf hrender),
    filesAt_of_isReplaced pairwise_sources⟩

theorem reportsAll_iff_noClash : b.ReportsAll read ↔ NoClash (b.renderings read) := by
  constructor
  · intro h
    refine noClash_iff_not_isReplaced.2 fun f hreplaced => ?_
    obtain ⟨g, hmem⟩ := hreplaced.exists_mem
    obtain ⟨s, hs, rfl, issues, hrender⟩ := mem_renderings_iff.1 hmem
    obtain ⟨f, hf, rfl⟩ := List.mem_map.1 hs
    have hnone := (rendered_generate hf hrender).2.2 hreplaced
    obtain ⟨e, herror, -⟩ | ⟨g', issues', -, hat⟩ := h.reported f hf
    · rw [hrender] at herror
      cases herror
    · rw [hnone] at hat
      cases hat
  · intro h
    refine ⟨fun f hf => ?_, ?_⟩
    · cases hrender : f.render b.settings.merging (read f.path) with
      | error e => exact .inl ⟨e, rfl, (failed_generate hf hrender).1⟩
      | ok r =>
        have hat := (rendered_generate hf hrender).2.1 (noClash_iff_not_isReplaced.1 h f)
        exact .inr ⟨r.file, r.issues, rfl, hat⟩
    · have hfiles : (b.generate read).files =
          Fields.ofPairs (entriesFrom [] (b.renderings read)) :=
        congrArg Report.files (ofSources_eq _ _ _)
      rw [hfiles, Fields.ofPairs_of_distinct (nodup_keysOf_iff.2 h), map_snd_entriesFrom]

theorem reportsAll_of_nodup (h : (b.plan.1.map PlannedFile.name).Nodup) : b.ReportsAll read := by
  refine reportsAll_iff_noClash.2 (noClash_of_nodup ?_)
  have hsub := (sublist_renderings b.settings.merging
    (b.plan.1.map fun f => (f, read f.path))).map PlannedFile.name
  simp only [List.map_map] at hsub
  exact h.sublist hsub

theorem reportsAll_of_names (h : ∀ f ∈ b.plan.1, '(' ∉ f.name.toList) : b.ReportsAll read := by
  refine reportsAll_iff_noClash.2 (noClash_of_names (pairwise_renderings pairwise_sources) ?_)
  intro r hr
  obtain ⟨s, hs, hr, -⟩ := mem_renderings_iff.1 hr
  obtain ⟨f, hf, rfl⟩ := List.mem_map.1 hs
  rw [← hr]
  exact h f hf

/-- A run reports every planned file exactly if no rendered file finds both its name and its name
    with its path among the keys of earlier ones. Otherwise the file that has that key is lost. -/
theorem reportsAll_generate_iff (b : Blueprint) (read : Path → Outcome (Option String)) :
    (b.ReportsAll read ↔ NoClash (b.renderings read)) ∧
    ((b.plan.1.map PlannedFile.name).Nodup → b.ReportsAll read) ∧
    ((∀ f ∈ b.plan.1, '(' ∉ f.name.toList) → b.ReportsAll read) ∧
    ∀ f ∈ b.plan.1,
      (∀ e, f.render b.settings.merging (read f.path) = .error e →
        e ∈ (b.generate read).errors ∧ (b.generate read).filesAt f.path = []) ∧
      ∀ g issues, f.render b.settings.merging (read f.path) = .ok ⟨g, issues⟩ →
        (∀ i ∈ issues, i ∈ (b.generate read).errors) ∧
        (¬ IsReplaced (b.renderings read) f → (b.generate read).filesAt f.path = [g]) ∧
        (IsReplaced (b.renderings read) f → (b.generate read).filesAt f.path = []) :=
  ⟨reportsAll_iff_noClash, reportsAll_of_nodup, reportsAll_of_names, fun _ hf =>
    ⟨fun _ => failed_generate hf, fun _ _ => rendered_generate hf⟩⟩

/-- A document with a class for its items and a query, and one with a schema file. The query is
    called like the class, with the path of the file behind it. -/
def clashingNodes : List DomainGraph.Node :=
  let items : Json := .object [("type", .text "array"),
    ("items", .object [("type", .text "object")])]
  [⟨"schema", "Schema", "document", some (.object [("schema", items),
      ("query", .object [("type", .text "object")]),
      ("queryName", .text "SchemaItem (src/Domain/Api/_schema/SchemaItem.json)")]), [], [], none⟩,
    ⟨"item", "Schema Item", "document",
      some (.object [("schema", .object [("type", .text "array")])]), [], [], none⟩]

/-- A project in which a class is reported under the key of a schema file. -/
def clashing : Blueprint :=
  ⟨.standard (Naming.Autoload.empty.insert "Acme" ⟨"src"⟩),
    (DomainGraph.ofNodes clashingNodes).toOption.getD ⟨[], [], .empty⟩⟩

/-- In an empty project the schema file of the query is lost. -/
theorem clashing_not_reportsAll : (DomainGraph.ofNodes clashingNodes).toOption.isSome = true ∧
    ¬ clashing.ReportsAll fun _ => .ok none := by
  refine ⟨by decide +kernel, fun h => ?_⟩
  have hkeys : ¬ (keysOf (clashing.renderings fun _ => .ok none)).Nodup := by decide +kernel
  exact hkeys (nodup_keysOf_iff.2 (reportsAll_iff_noClash.1 h))

end Blueprint

end DomainScaffold
