import DomainScaffold.Naming.Autoload
import DomainScaffold.Proofs.Php.Imports

/-!
# Paths inside a project

A path stays inside the directory that it is seen from if it is relative and has no parent step.
What is joined of such paths, their parents and the files next to them stay inside, too.

Results:
* `isInside_iff`: what that says of the pieces between slashes.
* `isInside_join`, `isInside_parent`: joined paths and parents.
-/

namespace DomainScaffold.Path

/-! ## Pieces -/

/-- The pieces of a path between slashes. -/
def pieces (p : Path) : List (List Char) := Text.splitAt (· == '/') p.text.toList

/-- Whether a path is relative and has no parent step. -/
def isInside (p : Path) : Bool := !p.isAbsolute && !p.components.contains .parent

variable {p q : Path} {piece : List Char} {s : String}

theorem ofPiece?_eq_parent_iff : Component.ofPiece? piece = some .parent ↔ piece = ['.', '.'] := by
  unfold Component.ofPiece?
  split <;> simp_all

theorem parent_mem_components_iff : .parent ∈ p.components ↔ ['.', '.'] ∈ p.pieces := by
  have hsteps : .parent ∈ p.pieces.filterMap Component.ofPiece? ↔ ['.', '.'] ∈ p.pieces := by
    simp [List.mem_filterMap, ofPiece?_eq_parent_iff]
  rw [← hsteps]
  unfold components componentsOf pieces
  dsimp only
  split
  · rw [List.mem_cons, or_iff_right nofun]
  · rename_i hdot
    rw [hdot]
    decide
  · rw [List.mem_cons, or_iff_right nofun]
  · rfl

theorem isInside_iff : p.isInside = true ↔ p.isAbsolute = false ∧ ['.', '.'] ∉ p.pieces := by
  rw [isInside, Bool.and_eq_true, Bool.not_eq_true', Bool.not_eq_true', ← parent_mem_components_iff]
  simp

/-! ## Joined paths -/

theorem isAbsolute_eq (p : Path) : p.isAbsolute = (p.text.toList.head? == some '/') := by
  unfold isAbsolute
  split
  · rename_i htext
    rw [htext]
    rfl
  · rename_i htext
    cases htoList : p.text.toList with
    | nil => rfl
    | cons c cs =>
      have hc : c ≠ '/' := fun hc => htext cs (hc ▸ htoList)
      simp [hc]

/-- The characters of a joined path: the base, a slash unless the base needs none, and the rest. -/
theorem toList_join (hq : q.isAbsolute = false) :
    (p.join q).text.toList = q.text.toList ∧ p.text.toList = [] ∨
      ∃ base, (p.join q).text.toList = base ++ '/' :: q.text.toList ∧
        (p.text.toList = base ∧ base ≠ [] ∨ p.text.toList = base ++ ['/']) := by
  rw [join, hq, if_neg Bool.false_ne_true]
  by_cases hempty : p.text.toList = []
  · refine .inl ⟨?_, hempty⟩
    have hisEmpty : p.text.isEmpty = true := by
      rw [String.isEmpty_iff, ← String.toList_eq_nil_iff, hempty]
    rw [hisEmpty, Bool.true_or, if_pos rfl, String.toList_append, hempty, List.nil_append]
  · have hisEmpty : p.text.isEmpty = false := by
      rwa [Bool.eq_false_iff, Ne, String.isEmpty_iff, ← String.toList_eq_nil_iff]
    rw [hisEmpty, Bool.false_or]
    cases hlast : p.text.toList.getLast? == some '/' with
    | true =>
      obtain ⟨base, hbase⟩ := List.getLast?_eq_some_iff.1 (eq_of_beq hlast)
      refine .inr ⟨base, ?_, .inr hbase⟩
      rw [if_pos rfl, String.toList_append, hbase, List.append_assoc]
      rfl
    | false =>
      refine .inr ⟨p.text.toList, ?_, .inl ⟨rfl, hempty⟩⟩
      rw [if_neg Bool.false_ne_true, String.toList_append, String.toList_append, List.append_assoc]
      rfl

/-- What stands between slashes in a joined path. -/
theorem mem_pieces_join (hq : q.isAbsolute = false) (hpiece : piece ≠ []) :
    piece ∈ (p.join q).pieces ↔ piece ∈ p.pieces ∨ piece ∈ q.pieces := by
  unfold pieces
  rcases toList_join (p := p) hq with ⟨hjoin, hp⟩ | ⟨base, hjoin, ⟨hp, -⟩ | hp⟩
  · rw [hjoin, hp]
    simp [Text.splitAt, hpiece]
  · rw [hjoin, hp, Text.splitAt_append_cons (by rfl), List.mem_append]
  · rw [hjoin, hp, Text.splitAt_append_cons (by rfl), Text.splitAt_append_cons (by rfl), List.mem_append,
      List.mem_append]
    simp [Text.splitAt, hpiece]

theorem isAbsolute_join (hq : q.isAbsolute = false) : (p.join q).isAbsolute = p.isAbsolute := by
  rcases toList_join (p := p) hq with ⟨hjoin, hp⟩ | ⟨base, hjoin, ⟨hp, hbase⟩ | hp⟩
  · rw [isAbsolute_eq, hjoin, ← isAbsolute_eq, hq, isAbsolute_eq, hp]
    rfl
  · rw [isAbsolute_eq, isAbsolute_eq, hjoin, hp]
    cases base with
    | nil => exact absurd rfl hbase
    | cons c base => rfl
  · rw [isAbsolute_eq, isAbsolute_eq, hjoin, hp]
    cases base <;> rfl

/-- A path joined to one inside stays inside exactly if it is inside itself. -/
theorem isInside_join (hp : p.isInside = true) : (p.join q).isInside = q.isInside := by
  obtain ⟨habsolute, hpieces⟩ := isInside_iff.1 hp
  cases hq : q.isAbsolute with
  | true =>
    rw [join_absolute hq]
  | false =>
    rw [Bool.eq_iff_iff, isInside_iff, isInside_iff, isAbsolute_join hq, habsolute, hq,
      mem_pieces_join hq (by simp)]
    simp [hpieces]

/-! ## Names -/

theorem pieces_of_name (h : '/' ∉ s.toList) : (Path.mk s).pieces = [s.toList] :=
  Text.splitAt_of_not_mem h

theorem isAbsolute_of_name (h : '/' ∉ s.toList) : (Path.mk s).isAbsolute = false := by
  rw [isAbsolute_eq]
  cases htoList : s.toList with
  | nil => rfl
  | cons c cs =>
    have hc : '/' ≠ c := fun hc => h (by rw [htoList, hc]; exact List.mem_cons_self)
    simp [hc.symm]

/-- A name without slash leads down, unless it is the parent step. -/
theorem isInside_of_name (h : '/' ∉ s.toList) (hdots : s.toList ≠ ['.', '.']) :
    (Path.mk s).isInside = true := by
  rw [isInside_iff, pieces_of_name h, List.mem_singleton]
  exact ⟨isAbsolute_of_name h, Ne.symm hdots⟩

/-- A file name without slash leads down: with its ending it is not the parent step. -/
theorem isInside_of_fileName {ending : String} (h : '/' ∉ s.toList)
    (hending : '/' ∉ ending.toList) (hlength : 2 < ending.toList.length) :
    (Path.mk (s ++ ending)).isInside = true := by
  refine isInside_of_name ?_ fun hdots => ?_
  · rw [String.toList_append, List.mem_append, not_or]
    exact ⟨h, hending⟩
  · have htotal := congrArg List.length hdots
    rw [String.toList_append, List.length_append] at htotal
    simp only [List.length_cons, List.length_nil] at htotal
    omega

/-! ## Parents -/

theorem dropIdle_subset (ps : List (List Char)) : dropIdle ps ⊆ ps := by
  intro piece hpiece
  rw [dropIdle, List.mem_reverse] at hpiece
  exact List.mem_reverse.1 ((List.dropWhile_sublist _).subset hpiece)

theorem dropStep_subset (ps : List (List Char)) : dropStep ps ⊆ ps := fun _ hpiece =>
  dropIdle_subset ps (List.dropLast_subset _ (dropIdle_subset _ hpiece))

/-- The two forms that a path can have, by the pieces between slashes. -/
theorem pieces_cases (p : Path) :
    (p.text.toList = [] ∧ p.pieces = [[]]) ∨
      (∃ ps, p.isAbsolute = true ∧ ps ≠ [] ∧ p.pieces = [] :: ps) ∨
      ∃ c cs ps, p.isAbsolute = false ∧ p.pieces = (c :: cs) :: ps := by
  rw [isAbsolute_eq, pieces]
  cases htext : p.text.toList with
  | nil => exact .inl ⟨rfl, rfl⟩
  | cons c cs =>
    right
    by_cases hc : c = '/'
    · subst hc
      exact .inl ⟨_, rfl, Text.splitAt_ne_nil _ cs, by rw [Text.splitAt]; rfl⟩
    · refine .inr ?_
      cases hcs : Text.splitAt (· == '/') cs with
      | nil => exact absurd hcs (Text.splitAt_ne_nil _ cs)
      | cons piece ps =>
        exact ⟨c, piece, ps, by simp [hc], by rw [Text.splitAt, hcs]; simp [hc]⟩

theorem not_slash_mem_of_mem_pieces (h : piece ∈ p.pieces) : '/' ∉ piece := fun hmem => by
  simpa using Text.not_mem_of_mem_splitAt h '/' hmem

/-- The characters of a parent. -/
theorem toList_parent (p : Path) :
    p.isAbsolute = false ∧ p.parent.text.toList = [] ∨
      (∃ ps, p.isAbsolute = true ∧ ps ⊆ p.pieces ∧
        p.parent.text.toList = '/' :: List.intercalate ['/'] ps) ∨
      ∃ c cs ps, p.isAbsolute = false ∧ (c :: cs) :: ps ⊆ p.pieces ∧
        p.parent.text.toList = List.intercalate ['/'] ((c :: cs) :: ps) := by
  rcases pieces_cases p with ⟨htext, hp⟩ | ⟨ps, habsolute, hne, hp⟩ | ⟨c, cs, ps, habsolute, hp⟩
  · refine .inl ⟨by rw [isAbsolute_eq, htext]; rfl, ?_⟩
    rw [pieces] at hp
    rw [parent, hp]
    rfl
  · refine .inr (.inl ⟨dropStep ps, habsolute, ?_, ?_⟩)
    · rw [hp]
      exact List.Subset.trans (dropStep_subset ps) (List.subset_cons_self _ _)
    · rw [pieces] at hp
      rw [parent, hp]
      cases ps with
      | nil => exact absurd rfl hne
      | cons next ps =>
        simp only [String.toList_append, String.toList_ofList]
        rfl
  · rw [parent, ← pieces, hp]
    dsimp only
    split
    · exact .inl ⟨habsolute, rfl⟩
    · exact .inr (.inr ⟨c, cs, dropStep ps, habsolute,
        List.cons_subset_cons _ (dropStep_subset ps), String.toList_ofList⟩)

theorem isAbsolute_parent (p : Path) : p.parent.isAbsolute = p.isAbsolute := by
  rcases toList_parent p with ⟨habsolute, h⟩ | ⟨ps, habsolute, -, h⟩ | ⟨c, cs, ps, habsolute, hps, h⟩
  · rw [habsolute, isAbsolute_eq, h]
    rfl
  · rw [habsolute, isAbsolute_eq, h]
    rfl
  · have hc : c ≠ '/' := fun hc =>
      not_slash_mem_of_mem_pieces (hps List.mem_cons_self) (hc ▸ List.mem_cons_self)
    rw [habsolute, isAbsolute_eq, h]
    cases ps <;> simp [hc]

theorem pieces_parent_subset (p : Path) : p.parent.pieces ⊆ [] :: p.pieces := by
  have hjoined : ∀ ps, ps ⊆ p.pieces →
      Text.splitAt (· == '/') (List.intercalate ['/'] ps) ⊆ [] :: p.pieces := fun ps hps => by
    by_cases hne : ps = []
    · subst hne
      simp [Text.splitAt]
    · rw [Text.splitAt_intercalate hne fun piece hpiece => not_slash_mem_of_mem_pieces (hps hpiece)]
      exact List.Subset.trans hps (List.subset_cons_self _ _)
  rw [pieces]
  rcases toList_parent p with ⟨-, h⟩ | ⟨ps, -, hps, h⟩ | ⟨c, cs, ps, -, hps, h⟩
  · rw [h]
    simp [Text.splitAt]
  · rw [h, Text.splitAt, if_pos (beq_self_eq_true '/')]
    exact List.cons_subset.2 ⟨List.mem_cons_self, hjoined ps hps⟩
  · rw [h]
    exact hjoined _ hps

/-- A file next to another one is inside, if that is. -/
theorem isInside_beside (hp : p.isInside = true) (hq : q.isInside = true) :
    (p.parent.join q).isInside = true := by
  obtain ⟨habsolute, hpieces⟩ := isInside_iff.1 hp
  rw [isInside_join, hq]
  refine isInside_iff.2 ⟨(isAbsolute_parent p).trans habsolute, fun hmem => hpieces ?_⟩
  exact (List.mem_cons.1 (pieces_parent_subset p hmem)).resolve_left (by simp)

/-! ## Steps -/

section Steps

variable {c : Component} {cs ts bs steps : List Component} {base : Path} {start : Bool}

theorem text_of_ofPiece? (h : Component.ofPiece? piece = some c) : c.text.toList = piece := by
  unfold Component.ofPiece? at h
  split at h <;> cases h
  · rfl
  · exact String.toList_ofList

/-- No step of a relative path has a slash. -/
theorem not_slash_mem_of_mem_components (hp : p.isAbsolute = false) (hc : c ∈ p.components) :
    '/' ∉ c.text.toList := by
  have hstep : c ∈ p.pieces.filterMap Component.ofPiece? → '/' ∉ c.text.toList := fun hc => by
    obtain ⟨piece, hpiece, hof⟩ := List.mem_filterMap.1 hc
    rw [text_of_ofPiece? hof]
    exact not_slash_mem_of_mem_pieces hpiece
  have hcurrent : '/' ∉ (Component.text .current).toList := by decide
  unfold components componentsOf at hc
  dsimp only at hc
  split at hc
  · rename_i htext
    rw [isAbsolute_eq, htext] at hp
    cases hp
  · obtain rfl := List.mem_singleton.1 hc
    exact hcurrent
  · rcases List.mem_cons.1 hc with rfl | hc
    · exact hcurrent
    · exact hstep hc
  · exact hstep hc

/-- Steps without slashes that are joined to a path. -/
theorem foldl_join (h : ∀ c ∈ cs, '/' ∉ c.text.toList) (p : Path) :
    (cs.foldl (fun p c => p.join ⟨c.text⟩) p).isAbsolute = p.isAbsolute ∧
      ∀ piece, piece ≠ [] → (piece ∈ (cs.foldl (fun p c => p.join ⟨c.text⟩) p).pieces ↔
        piece ∈ p.pieces ∨ ∃ c ∈ cs, c.text.toList = piece) := by
  induction cs generalizing p with
  | nil => simp
  | cons c cs ih =>
    obtain ⟨hc, hcs⟩ := List.forall_mem_cons.1 h
    obtain ⟨habsolute, hpieces⟩ := ih hcs (p.join ⟨c.text⟩)
    have hrelative : (Path.mk c.text).isAbsolute = false := isAbsolute_of_name hc
    refine ⟨habsolute.trans (isAbsolute_join hrelative), fun piece hpiece => ?_⟩
    rw [List.foldl_cons, hpieces piece hpiece, mem_pieces_join hrelative hpiece, pieces_of_name hc,
      List.mem_singleton, or_assoc, eq_comm (a := piece)]
    simp only [List.mem_cons, exists_eq_or_imp]

theorem isAbsolute_ofComponents (h : ∀ c ∈ cs, '/' ∉ c.text.toList) :
    (ofComponents cs).isAbsolute = false := (foldl_join h ⟨""⟩).1

theorem parent_mem_ofComponents (h : ∀ c ∈ cs, '/' ∉ c.text.toList) (hparent : .parent ∈ cs) :
    .parent ∈ (ofComponents cs).components :=
  parent_mem_components_iff.2
    (((foldl_join h ⟨""⟩).2 _ (by simp)).2 (.inr ⟨.parent, hparent, rfl⟩))

theorem isAbsolute_normalized (hp : p.isAbsolute = false) : p.normalized.isAbsolute = false :=
  isAbsolute_ofComponents fun _ hc =>
    not_slash_mem_of_mem_components hp (List.mem_filter.1 hc).1

theorem parent_mem_normalized (hp : p.isAbsolute = false) (hparent : .parent ∈ p.components) :
    .parent ∈ p.normalized.components :=
  parent_mem_ofComponents
    (fun _ hc => not_slash_mem_of_mem_components hp (List.mem_filter.1 hc).1)
    (List.mem_filter.2 ⟨hparent, by decide⟩)

theorem mem_of_mem_stepsFrom (h : stepsFrom start ts bs = some steps) (hc : c ∈ steps) :
    c = .parent ∨ c ∈ ts := by
  fun_induction stepsFrom start ts bs generalizing steps with
  | case1 | case2 =>
    cases h
    exact .inr hc
  | case3 start b bs ih =>
    obtain ⟨inner, hinner, rfl⟩ := Option.map_eq_some_iff.1 h
    exact (List.mem_cons.1 hc).elim .inl fun hc => ih hinner hc
  | case4 start t ts b bs hsame ih => exact (ih h hc).imp_right (List.mem_cons_of_mem _)
  | case5 start t ts bs hsame ih =>
    obtain ⟨inner, hinner, rfl⟩ := Option.map_eq_some_iff.1 h
    rcases List.mem_cons.1 hc with rfl | hc
    · exact .inr List.mem_cons_self
    · exact (ih hinner hc).imp_right (List.mem_cons_of_mem _)
  | case6 => cases h
  | case7 =>
    cases h
    simp only [List.cons_append, List.mem_cons, List.mem_append, List.mem_map] at hc ⊢
    rcases hc with hc | ⟨-, -, hc⟩ | hc
    · exact .inl hc
    · exact .inl hc.symm
    · exact .inr hc

/-- Parent steps of the target stay if the base has none. -/
theorem parent_mem_stepsFrom (h : stepsFrom start ts bs = some steps) (hbs : .parent ∉ bs)
    (hts : .parent ∈ ts) : .parent ∈ steps := by
  fun_induction stepsFrom start ts bs generalizing steps with
  | case1 | case2 =>
    cases h
    exact hts
  | case3 => cases hts
  | case4 start t ts b bs hsame ih =>
    rw [List.mem_cons, not_or] at hbs
    obtain rfl : t = b := of_decide_eq_true (Bool.and_eq_true_iff.1 hsame).2
    exact ih h hbs.2 ((List.mem_cons.1 hts).resolve_left hbs.1)
  | case5 start t ts bs hsame ih =>
    obtain ⟨inner, hinner, rfl⟩ := Option.map_eq_some_iff.1 h
    rw [List.mem_cons, not_or] at hbs
    rcases List.mem_cons.1 hts with rfl | hts
    · exact List.mem_cons_self
    · exact List.mem_cons_of_mem _ (ih hinner hbs.2 hts)
  | case6 => cases h
  | case7 =>
    cases h
    exact List.mem_append_left _ List.mem_cons_self

/-- A relative path with a parent step has one as seen from every relative base without. -/
theorem parent_mem_relativeTo? (hp : p.isAbsolute = false) (hbase : base.isAbsolute = false)
    (hnone : .parent ∉ base.components) (hparent : .parent ∈ p.components)
    (h : p.relativeTo? base = some q) : .parent ∈ q.components := by
  rw [relativeTo?, hp, hbase, if_neg (by decide)] at h
  obtain ⟨steps, hsteps, rfl⟩ := Option.map_eq_some_iff.1 h
  refine parent_mem_ofComponents (fun c hc => ?_) (parent_mem_stepsFrom hsteps hnone hparent)
  rcases mem_of_mem_stepsFrom hsteps hc with rfl | hc
  · decide
  · exact not_slash_mem_of_mem_components hp hc

theorem root_mem_components_iff : .root ∈ p.components ↔ p.isAbsolute = true := by
  constructor
  · intro hroot
    by_contra habsolute
    exact not_slash_mem_of_mem_components (Bool.not_eq_true _ ▸ habsolute) hroot (by decide)
  · intro habsolute
    unfold isAbsolute at habsolute
    split at habsolute
    · rename_i cs htext
      rw [components, htext]
      exact List.mem_cons_self
    · cases habsolute

theorem isInside_of_same (h : p.same q = true) : p.isInside = q.isInside := by
  have habsolute : p.isAbsolute = q.isAbsolute := by
    rw [Bool.eq_iff_iff, ← root_mem_components_iff, ← root_mem_components_iff, same_iff.1 h]
  rw [isInside, isInside, habsolute, same_iff.1 h]

end Steps

end DomainScaffold.Path

namespace DomainScaffold.Naming

/-! ## Mapped directories -/

namespace Autoload

variable {m : Autoload} {dir : Path} {toNamespace : Filter} {space : String}

theorem mem_of_lastMax? {α : Type} {measure : α → Nat} {xs : List α} {x : α}
    (h : lastMax? measure xs = some x) : x ∈ xs := by
  refine List.foldlRecOn (motive := fun best => ∀ y, best = some y → y ∈ xs) xs _ ?_
    (fun best hbest z hz y hy => ?_) x h
  · intro y hy
    cases hy
  · split at hy
    · cases hy
      exact hz
    · split at hy
      · exact hbest y hy
      · cases hy
        exact hz

/-- A relative directory has a namespace only if it is inside: no mapped directory is around one
    with a parent step. -/
theorem isInside_of_namespaceForDir (hm : ∀ e ∈ m.entries, e.2.isInside = true)
    (hdir : dir.isAbsolute = false) (h : m.namespaceForDir dir toNamespace = .ok space) :
    dir.isInside = true := by
  rw [Path.isInside, hdir, Bool.not_false, Bool.true_and, Bool.not_eq_true', Bool.eq_false_iff]
  intro hparent
  have hmem := Path.parent_mem_normalized hdir (List.contains_iff_mem.1 hparent)
  rw [namespaceForDir] at h
  dsimp only at h
  split at h
  · cases h
  · rename_i lead base inner hmax
    obtain ⟨⟨lead', base'⟩, he, haround⟩ := List.mem_filterMap.1 (mem_of_lastMax? hmax)
    dsimp only at haround
    split at haround
    · cases haround
    · rename_i inner' hinner
      split at haround
      · cases haround
      · rename_i hnone
        obtain ⟨hrelative, hbase⟩ := Path.isInside_iff.1 (hm _ he)
        rw [← Path.parent_mem_components_iff] at hbase
        exact hnone (List.contains_iff_mem.2 (Path.parent_mem_relativeTo?
          (Path.isAbsolute_normalized hdir) hrelative hbase hmem hinner))

end Autoload

end DomainScaffold.Naming
