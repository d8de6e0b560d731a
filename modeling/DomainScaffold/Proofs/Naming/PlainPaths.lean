import DomainScaffold.Proofs.Naming.Paths

/-!
# Paths of plain names

A path is plain if it is relative and its steps are names without dots and separators. Put together
anew it is the text of its names, and the names of a directory inside another one start with the
names of that.

Results:
* `components_join`: the steps of a joined path.
* `normalized_eq`: a plain path put together anew.
* `relativeTo?_ofNames_iff`: when a plain path is inside another one.
* `same_join_normalized`: a file below a plain directory, and below the one put together anew.
-/

namespace DomainScaffold.Path

/-! ## Steps of a joined path -/

variable {p q : Path} {names ps qs bs ds : List (List Char)}

/-- The steps of a path by its pieces: behind the start only they count. -/
theorem components_eq (p : Path) :
    p.components = (if p.isAbsolute then [.root]
      else if p.pieces.head? = some ['.'] then [.current] else []) ++
        p.pieces.filterMap Component.ofPiece? := by
  unfold components componentsOf
  rw [isAbsolute_eq, pieces]
  dsimp only
  split
  · rename_i htext
    rw [htext]
    simp
  · rename_i htext
    rw [htext]
    rfl
  · rename_i cs htext
    rw [htext]
    have hpieces : Text.splitAt (· == '/') ('.' :: '/' :: cs) =
        ['.'] :: Text.splitAt (· == '/') cs := by simp [Text.splitAt]
    rw [hpieces]
    simp
  · rename_i hroot hdot hcurrent
    have habsolute : (p.text.toList.head? == some '/') = false := by
      rw [beq_eq_false_iff_ne]
      intro h
      obtain ⟨cs, hcs⟩ := List.head?_eq_some_iff.1 h
      exact hroot _ hcs
    have hhead : (Text.splitAt (· == '/') p.text.toList).head? ≠ some ['.'] := by
      intro h
      obtain ⟨ps, hps⟩ := List.head?_eq_some_iff.1 h
      have htext := Text.intercalate_splitAt '/' p.text.toList
      rw [hps] at htext
      cases ps with
      | nil => exact hdot (by simpa using htext.symm)
      | cons q ps =>
        rw [List.intercalate_cons_cons] at htext
        exact hcurrent _ htext.symm
    rw [habsolute, if_neg Bool.false_ne_true, if_neg hhead, List.nil_append]

/-- The steps of a path joined to one that is not empty. -/
theorem components_join (hq : q.isAbsolute = false) (hp : p.text ≠ "") :
    (p.join q).components = p.components ++ q.pieces.filterMap Component.ofPiece? := by
  rw [components_eq, components_eq, isAbsolute_join hq, List.append_assoc]
  rcases toList_join (p := p) hq with ⟨-, hnil⟩ | ⟨base, hjoin, hbase⟩
  · exact absurd (String.toList_eq_nil_iff.1 hnil) hp
  · have hpieces : (p.join q).pieces = Text.splitAt (· == '/') base ++ q.pieces := by
      rw [pieces, hjoin, Text.splitAt_append_cons (by rfl)]
      rfl
    have hhead (ps : List (List Char)) : (Text.splitAt (· == '/') base ++ ps).head? =
        (Text.splitAt (· == '/') base).head? :=
      List.head?_append_of_ne_nil _ (Text.splitAt_ne_nil _ base)
    have hp : p.pieces = Text.splitAt (· == '/') base ∨
        p.pieces = Text.splitAt (· == '/') base ++ [[]] := by
      rcases hbase with ⟨htext, -⟩ | htext
      · exact .inl (by rw [pieces, htext])
      · exact .inr (by rw [pieces, htext, Text.splitAt_append_cons (by rfl)]; rfl)
    rw [hpieces, hhead, List.filterMap_append]
    rcases hp with hp | hp
    · rw [hp]
    · rw [hp, hhead, List.filterMap_append]
      simp [Component.ofPiece?]

/-! ## Plain names -/

/-- Whether a step is a name without separator of namespaces. -/
def Component.isPlain : Component → Bool
  | .name s => !s.toList.contains '\\'
  | _ => false

/-- Whether a path is relative and all its steps are plain. -/
def isPlain (p : Path) : Bool := p.components.all Component.isPlain

/-- The characters of a step and of a part of a namespace alike. -/
structure IsSegment (cs : List Char) : Prop where
  ne_nil : cs ≠ []
  ne_current : cs ≠ ['.']
  ne_parent : cs ≠ ['.', '.']
  not_slash : '/' ∉ cs
  not_backslash : '\\' ∉ cs

/-- The step of a name. -/
def step (cs : List Char) : Component := .name (String.ofList cs)

/-- The path of names. -/
def ofNames (names : List (List Char)) : Path := ⟨String.ofList (List.intercalate ['/'] names)⟩

theorem ofPiece?_of_isSegment {cs : List Char} (h : IsSegment cs) :
    Component.ofPiece? cs = some (step cs) := by
  unfold Component.ofPiece?
  split
  · exact absurd rfl h.ne_nil
  · exact absurd rfl h.ne_current
  · exact absurd rfl h.ne_parent
  · rfl

theorem isSegment_of_mem_components {c : Component} (hc : c ∈ p.components)
    (hplain : c.isPlain = true) : IsSegment c.text.toList ∧ step c.text.toList = c := by
  cases c with
  | root | current | parent => cases hplain
  | name s =>
    have hmem : .name s ∈ p.pieces.filterMap Component.ofPiece? := by
      rw [components_eq] at hc
      refine (List.mem_append.1 hc).resolve_left fun hstart => ?_
      split at hstart
      · simp at hstart
      · split at hstart <;> simp at hstart
    obtain ⟨piece, hpiece, hof⟩ := List.mem_filterMap.1 hmem
    obtain rfl : s.toList = piece := text_of_ofPiece? hof
    have hne : ∀ piece, s.toList = piece → Component.ofPiece? piece ≠ none ∧
        Component.ofPiece? piece ≠ some .parent := by
      rintro piece rfl
      rw [hof]
      exact ⟨nofun, nofun⟩
    refine ⟨⟨fun h => (hne _ h).1 rfl, fun h => (hne _ h).1 rfl, fun h => (hne _ h).2 rfl,
      not_slash_mem_of_mem_pieces hpiece, ?_⟩, congrArg Component.name String.ofList_toList⟩
    simpa [Component.isPlain, Component.text] using hplain

/-- The names of a plain path. -/
theorem exists_of_isPlain (h : p.isPlain = true) :
    ∃ names : List (List Char), (∀ cs ∈ names, IsSegment cs) ∧ p.components = names.map step := by
  have hstep : ∀ c ∈ p.components, IsSegment c.text.toList ∧ step c.text.toList = c :=
    fun c hc => isSegment_of_mem_components hc (List.all_eq_true.1 h c hc)
  refine ⟨p.components.map fun c => c.text.toList, fun cs hcs => ?_, ?_⟩
  · obtain ⟨c, hc, rfl⟩ := List.mem_map.1 hcs
    exact (hstep c hc).1
  · rw [List.map_map]
    refine ((List.map_congr_left fun c hc => ?_).trans (List.map_id _)).symm
    exact (hstep c hc).2

theorem pieces_ofNames (h : ∀ cs ∈ names, IsSegment cs) (hne : names ≠ []) :
    (ofNames names).pieces = names := by
  have hslash : ∀ cs ∈ names, '/' ∉ cs := fun cs hcs => (h cs hcs).not_slash
  rw [pieces, ofNames, String.toList_ofList, Text.splitAt_intercalate hne hslash]

theorem isAbsolute_ofNames (h : ∀ cs ∈ names, IsSegment cs) :
    (ofNames names).isAbsolute = false := by
  by_cases hne : names = []
  · subst hne
    rfl
  · rcases pieces_cases (ofNames names) with ⟨-, hp⟩ | ⟨ps, -, -, hp⟩ | ⟨c, cs, ps, hp, -⟩
    · rw [pieces_ofNames h hne] at hp
      exact absurd rfl (h [] (hp ▸ List.mem_cons_self)).ne_nil
    · rw [pieces_ofNames h hne] at hp
      exact absurd rfl (h [] (hp ▸ List.mem_cons_self)).ne_nil
    · exact hp

theorem components_ofNames (h : ∀ cs ∈ names, IsSegment cs) :
    (ofNames names).components = names.map step := by
  by_cases hne : names = []
  · subst hne
    rfl
  · have hhead : names.head? ≠ some ['.'] := fun heq =>
      (h ['.'] (List.mem_of_mem_head? heq)).ne_current rfl
    rw [components_eq, isAbsolute_ofNames h, pieces_ofNames h hne, if_neg Bool.false_ne_true,
      if_neg hhead, List.nil_append]
    refine (List.filterMap_congr fun cs hcs => ofPiece?_of_isSegment (h cs hcs)).trans ?_
    rw [List.filterMap_eq_map']

theorem step_injective : Function.Injective step := fun _ _ h =>
  String.ofList_injective (Component.name.inj h)

theorem ofNames_injective (hps : ∀ cs ∈ ps, IsSegment cs) (hqs : ∀ cs ∈ qs, IsSegment cs)
    (h : ofNames ps = ofNames qs) : ps = qs :=
  List.map_injective_iff.2 step_injective
    (by rw [← components_ofNames hps, h, components_ofNames hqs])

/-! ## Putting names together -/

theorem text_ofNames_eq_nil_iff (h : ∀ cs ∈ names, IsSegment cs) :
    (ofNames names).text = "" ↔ names = [] := by
  constructor
  · intro htext
    by_contra hne
    refine (Text.ends_intercalate hne fun cs hcs => ⟨(h cs hcs).ne_nil, (h cs hcs).not_slash⟩).1 ?_
    rw [← String.toList_ofList (l := List.intercalate ['/'] names)]
    exact String.toList_eq_nil_iff.2 htext
  · rintro rfl
    rfl

theorem join_ofNames (hps : ∀ cs ∈ ps, IsSegment cs) (hqs : ∀ cs ∈ qs, IsSegment cs)
    (hne : qs ≠ []) : (ofNames ps).join (ofNames qs) = ofNames (ps ++ qs) := by
  suffices htext : ((ofNames ps).join (ofNames qs)).text.toList =
      (ofNames (ps ++ qs)).text.toList by
    have := String.toList_inj.1 htext
    cases hjoin : (ofNames ps).join (ofNames qs)
    rw [hjoin] at this
    exact congrArg Path.mk this
  have hchars (names : List (List Char)) :
      (ofNames names).text.toList = List.intercalate ['/'] names := String.toList_ofList
  by_cases hnil : ps = []
  · subst hnil
    rcases toList_join (p := ofNames []) (isAbsolute_ofNames hqs) with ⟨h, -⟩ | ⟨base, -, h | h⟩
    · exact h
    · exact absurd h.1.symm h.2
    · exact absurd h (by simp [ofNames])
  · rw [hchars, Text.intercalate_append hnil hne]
    rcases toList_join (p := ofNames ps) (isAbsolute_ofNames hqs) with ⟨-, h⟩ | ⟨base, h, hbase⟩
    · exact absurd ((text_ofNames_eq_nil_iff hps).1 (String.toList_eq_nil_iff.1 h)) hnil
    · rw [h, hchars]
      rcases hbase with ⟨hbase, -⟩ | hbase
      · rw [← hbase, hchars]
      · -- no path of names ends with a slash
        refine absurd ?_ (Text.ends_intercalate hnil fun cs hcs =>
          ⟨(hps cs hcs).ne_nil, (hps cs hcs).not_slash⟩).2.2
        rw [← hchars, hbase, List.getLast?_concat]

theorem ofComponents_names (h : ∀ cs ∈ names, IsSegment cs) :
    ofComponents (names.map step) = ofNames names := by
  have hfold : ∀ qs ps : List (List Char), (∀ cs ∈ ps, IsSegment cs) → (∀ cs ∈ qs, IsSegment cs) →
      (qs.map step).foldl (fun p c => p.join ⟨c.text⟩) (ofNames ps) = ofNames (ps ++ qs) := by
    intro qs
    induction qs with
    | nil => simp
    | cons q qs ih =>
      intro ps hps hqs
      obtain ⟨hq, hqs⟩ := List.forall_mem_cons.1 hqs
      have hsingle : (⟨(step q).text⟩ : Path) = ofNames [q] := by
        rw [ofNames, List.intercalate_singleton]
        rfl
      have hpq : ∀ cs ∈ ps ++ [q], IsSegment cs :=
        List.forall_mem_append.2 ⟨hps, List.forall_mem_singleton.2 hq⟩
      rw [List.map_cons, List.foldl_cons, hsingle,
        join_ofNames hps (List.forall_mem_singleton.2 hq) (by simp), ih _ hpq hqs,
        List.append_assoc, List.singleton_append]
  exact hfold names [] nofun h

/-- A plain path put together anew is the path of its names. -/
theorem normalized_eq (h : ∀ cs ∈ names, IsSegment cs) (hp : p.components = names.map step) :
    p.normalized = ofNames names := by
  have hkept : (names.map step).filter (· != .current) = names.map step :=
    List.filter_eq_self.2 fun c hc => by
      obtain ⟨cs, -, rfl⟩ := List.mem_map.1 hc
      rfl
  rw [normalized, hp, hkept, ofComponents_names h]

theorem slashed_ofNames (h : ∀ cs ∈ names, IsSegment cs) :
    (ofNames names).slashed = (ofNames names).text := by
  rw [slashed, components_ofNames h, List.filterMap_map]
  change String.intercalate "/" (names.filterMap fun cs => some (String.ofList cs)) = _
  rw [List.filterMap_eq_map', ← String.toList_inj, String.toList_intercalate,
    Text.map_toList_ofList]
  exact String.toList_ofList.symm

/-- A file below a plain directory, and below the directory put together anew. -/
theorem same_join_normalized (hp : p.isPlain = true) (q : Path) :
    (p.normalized.join q).same (p.join q) = true := by
  obtain ⟨names, hnames, hcomponents⟩ := exists_of_isPlain hp
  rw [normalized_eq hnames hcomponents]
  cases hq : q.isAbsolute with
  | true => rw [join_absolute hq, join_absolute hq, same_refl]
  | false =>
    by_cases htext : p.text = ""
    · obtain rfl : names = [] := by
        have : p.components = [] := by rw [components, htext]; rfl
        simpa [this] using hcomponents.symm
      obtain rfl : p = ofNames [] := by
        cases p
        exact congrArg Path.mk htext
      exact same_refl _
    · have hne : names ≠ [] := by
        rintro rfl
        rcases pieces_cases p with ⟨h, -⟩ | ⟨ps, h, -⟩ | ⟨c, cs, ps, habsolute, h⟩
        · exact htext (String.toList_eq_nil_iff.1 h)
        · rw [components_eq, h] at hcomponents
          cases hcomponents
        · rw [components_eq, habsolute, h] at hcomponents
          by_cases hdot : c :: cs = ['.']
          · simp [hdot] at hcomponents
          · simp only [List.map_nil, List.append_eq_nil_iff, List.filterMap_eq_nil_iff] at hcomponents
            have hnone := hcomponents.2 _ List.mem_cons_self
            unfold Component.ofPiece? at hnone
            split at hnone <;> simp_all
      rw [same_iff, components_join hq htext, hcomponents,
        components_join hq (mt (text_ofNames_eq_nil_iff hnames).1 hne), components_ofNames hnames]

/-! ## Names inside a directory -/

theorem stepsFrom_eq_some_iff (steps : List Component) {ts bs : List Component} (hts : .parent ∉ ts)
    (hbs : .parent ∉ bs) (hcurrent : .current ∉ bs) :
    stepsFrom true ts bs = some steps ∧ .parent ∉ steps ↔ ts = bs ++ steps := by
  induction bs generalizing ts with
  | nil =>
    have hall : stepsFrom true ts [] = some ts := by cases ts <;> rfl
    rw [hall, Option.some_inj, List.nil_append]
    exact ⟨And.left, fun h => ⟨h, h ▸ hts⟩⟩
  | cons b bs ih =>
    rw [List.mem_cons, not_or] at hbs hcurrent
    cases ts with
    | nil =>
      refine ⟨fun ⟨h, hsteps⟩ => absurd ?_ hsteps, nofun⟩
      obtain ⟨inner, -, rfl⟩ := Option.map_eq_some_iff.1 h
      exact List.mem_cons_self
    | cons t ts =>
      rw [List.mem_cons, not_or] at hts
      by_cases htb : t = b
      · subst htb
        rw [stepsFrom, if_pos (by simp), ih hts.2 hbs.2 hcurrent.2, List.cons_append,
          List.cons_inj_right]
      · rw [stepsFrom, if_neg (by simp [htb]), if_neg (Ne.symm hcurrent.1), if_neg (Ne.symm hbs.1)]
        refine ⟨fun ⟨h, hsteps⟩ => absurd ?_ hsteps, fun h => absurd (List.cons.inj h).1 htb⟩
        obtain rfl := Option.some.inj h
        exact List.mem_cons_self

theorem not_mem_map_step (names : List (List Char)) {c : Component} (h : ∀ s, c ≠ .name s) :
    c ∉ names.map step := by
  intro hc
  obtain ⟨cs, -, rfl⟩ := List.mem_map.1 hc
  exact h _ rfl

/-- A directory is inside another one exactly if the names of that lead its own. -/
theorem relativeTo?_ofNames_iff (hds : ∀ cs ∈ ds, IsSegment cs) (hbs : ∀ cs ∈ bs, IsSegment cs) :
    (ofNames ds).relativeTo? (ofNames bs) = some q ∧ .parent ∉ q.components ↔
      ∃ rest, ds = bs ++ rest ∧ q = ofNames rest := by
  have hslash : ∀ steps, stepsFrom true (ds.map step) (bs.map step) = some steps →
      ∀ c ∈ steps, '/' ∉ c.text.toList := fun steps hsteps c hc => by
    rcases mem_of_mem_stepsFrom hsteps hc with rfl | hc
    · decide
    · obtain ⟨cs, hcs, rfl⟩ := List.mem_map.1 hc
      simpa [step, Component.text] using (hds cs hcs).not_slash
  have hiff := fun steps => stepsFrom_eq_some_iff steps
    (not_mem_map_step ds (c := .parent) nofun)
    (not_mem_map_step bs (c := .parent) nofun)
    (not_mem_map_step bs (c := .current) nofun)
  rw [relativeTo?, isAbsolute_ofNames hds, isAbsolute_ofNames hbs, if_neg (by decide),
    components_ofNames hds, components_ofNames hbs]
  constructor
  · rintro ⟨h, hparent⟩
    obtain ⟨steps, hsteps, rfl⟩ := Option.map_eq_some_iff.1 h
    have hnone : .parent ∉ steps := fun hmem =>
      hparent (parent_mem_ofComponents (hslash steps hsteps) hmem)
    obtain ⟨front, rest, rfl, hfront, rfl⟩ :=
      List.map_eq_append_iff.1 ((hiff steps).1 ⟨hsteps, hnone⟩)
    obtain rfl := List.map_injective_iff.2 step_injective hfront
    exact ⟨rest, rfl, ofComponents_names (List.forall_mem_append.1 hds).2⟩
  · rintro ⟨rest, rfl, rfl⟩
    have hrest := (List.forall_mem_append.1 hds).2
    have hsteps := ((hiff (rest.map step)).2 List.map_append).1
    refine ⟨Option.map_eq_some_iff.2 ⟨_, hsteps, ofComponents_names hrest⟩, ?_⟩
    rw [components_ofNames hrest]
    exact not_mem_map_step _ nofun

end DomainScaffold.Path
