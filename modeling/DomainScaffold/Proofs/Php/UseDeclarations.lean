import DomainScaffold.Proofs.Php.UseGrammar

/-!
# Reading use declarations

Which declarations are read as the imports that they stand for. A declaration is split at commas
and braces, and its clauses at blanks, so a keyword in capitals, a kind of a single clause or a
comment is taken for a word of a clause, and a clause with too many words is left out.

Results:
* `importsOfText_text`: what a declaration is read as, in any form.
* `importsOfText_text_iff`: when it is read as its imports.
* `imports_lost`: declarations that are read as no imports.
-/

namespace DomainScaffold.Php

open Scan Text

/-! ## Words that are left in front of the names -/

/-- A text that no word goes on in. -/
def EndsRun (s : String) : Prop := ∀ c ∈ s.toList.head?, isNamePart c = false

theorem endsRun_of_head? {s : String} {c : Char} (h : s.toList.head? = some c)
    (hc : isNamePart c = false) : EndsRun s := fun d hd => by
  rw [h] at hd
  cases hd
  exact hc

theorem EndsRun.append {s t : String} (hs : EndsRun s) (ht : EndsRun t) : EndsRun (s ++ t) := by
  rw [EndsRun, String.toList_append]
  cases hcs : s.toList with
  | nil => exact ht
  | cons c cs => exact fun d hd => hs d (by rwa [hcs])

theorem Gap.endsRun (g : Gap) : EndsRun g.text := fun _ hc =>
  g.not_isNamePart (List.mem_of_mem_head? hc)

theorem Space.endsRun_append (g : Space) (s : String) : EndsRun (g.text ++ s) := by
  cases hcs : g.text.toList with
  | nil => exact absurd (String.toList_eq_nil_iff.1 hcs) g.ne_empty
  | cons c cs =>
    intro d hd
    rw [String.toList_append, hcs] at hd
    cases hd
    exact g.not_isNamePart (hcs ▸ List.mem_cons_self)

theorem endsRun_trimEnd {s : String} (hs : EndsRun s) : EndsRun (trimEnd s) := by
  obtain ⟨g, -, hg⟩ := exists_trimEnd s
  intro c hc
  refine hs c ?_
  rw [hg, String.toList_append, List.head?_append, Option.mem_def.1 hc]
  rfl

/-- A text starts with one run of characters of names only. -/
theorem run_unique {w w' s s' : String} (hw : ∀ c ∈ w.toList, isNamePart c = true)
    (hw' : ∀ c ∈ w'.toList, isNamePart c = true) (hs : EndsRun s) (hs' : EndsRun s')
    (h : w ++ s = w' ++ s') : w = w' ∧ s = s' := by
  have run {w s : String} (hw : ∀ c ∈ w.toList, isNamePart c = true) (hs : EndsRun s) :
      (w ++ s).toList.takeWhile isNamePart = w.toList := by
    rw [String.toList_append, List.takeWhile_append_of_pos hw]
    cases hcs : s.toList with
    | nil => simp
    | cons c cs =>
      rw [List.takeWhile_cons_of_neg (by simp [hs c (by simp [hcs])]), List.append_nil]
  have hword : w = w' := by
    rw [← String.toList_inj, ← run hw hs, ← run hw' hs', h]
  subst hword
  exact ⟨rfl, by simpa [← String.toList_inj] using h⟩

/-- A body whose first word is not recognised as saying what is imported. -/
theorem importKindOf_run {w s : String} (hw : ∀ c ∈ w.toList, isNamePart c = true)
    (hs : EndsRun s) (h : ∀ what : Importable, w = what.word → s.toList.head? ≠ some ' ') :
    importKindOf (w ++ s) = (.classLike, w ++ s) := by
  have none (what : Importable) : afterLead? (what.word ++ " ") (w ++ s) = none := by
    rw [Option.eq_none_iff_forall_ne_some]
    intro r hr
    have htext := Text.afterLead?_eq_some_iff.1 hr
    rw [String.append_assoc] at htext
    have hword : ∀ c ∈ what.word.toList, isNamePart c = true := by
      cases what <;> exact List.all_eq_true.1 (by decide)
    have hspace : EndsRun (" " ++ r) :=
      endsRun_of_head? (by rw [String.toList_append]; rfl) (by decide)
    obtain ⟨hwhat, hrest⟩ := run_unique hw hword hs hspace htext
    refine h what hwhat ?_
    rw [hrest, String.toList_append]
    rfl
  have hfunction : afterLead? "function " (w ++ s) = Option.none := none .function
  have hconst : afterLead? "const " (w ++ s) = Option.none := none .constant
  simp only [importKindOf, hfunction, hconst]

/-- A word in front of the names. -/
structure Lead where
  word : String
  gap : Space
  isRun : IsRun word

/-- The text with words in front. -/
def withLeads (ls : List Lead) (s : String) : String :=
  ls.foldr (fun l s => l.word ++ (l.gap.text ++ s)) s

theorem withLeads_append (ls : List Lead) (s t : String) :
    withLeads ls (s ++ t) = withLeads ls s ++ t := by
  induction ls with
  | nil => rfl
  | cons l ls ih => simp only [withLeads, List.foldr_cons, String.append_assoc] at ih ⊢; rw [ih]

theorem words_withLeads (ls : List Lead) (s : String) :
    words (withLeads ls s) = ls.map Lead.word ++ words s := by
  induction ls with
  | nil => rfl
  | cons l ls ih =>
    rw [withLeads, List.foldr_cons, words_word_gap l.isRun.isWord l.gap.isGap l.gap.ne_empty,
      ← withLeads, ih]
    rfl

theorem chars_withLeads {ls : List Lead} {s : String} {c : Char}
    (hc : c ∈ (withLeads ls s).toList) : c ∈ s.toList ∨ c ∉ [';', ',', '\x7b', '\x7d'] := by
  induction ls with
  | nil => exact .inl hc
  | cons l ls ih =>
    simp only [withLeads, List.foldr_cons, String.toList_append, List.mem_append] at hc
    rcases hc with hc | hc | hc
    · exact .inr (unmarked_of_isNamePart l.isRun.chars c hc)
    · exact .inr (l.gap.unmarked c hc)
    · exact ih hc

theorem hasWord_withLeads (ls : List Lead) {s : String} (hs : HasWord s) :
    HasWord (withLeads ls s) := by
  induction ls with
  | nil => exact hs
  | cons l ls ih => exact (ih.append_left l.gap.text).append_left l.word

/-- The keywords for what is imported have different lengths. -/
theorem Importable.eq_of_length {what other : Importable}
    (h : what.word.toList.length = other.word.toList.length) : what = other := by
  cases what <;> cases other <;> first | rfl | exact absurd h (by decide)

theorem KindWord.isPlain_of {k : KindWord} {what : Importable} (hwhat : k.keyword.text = what.word)
    (hgap : k.gap.text.toList.head? = some ' ') : k.IsPlain := by
  have hlength := k.keyword.length
  rw [hwhat] at hlength
  exact ⟨Importable.eq_of_length hlength ▸ hwhat, hgap⟩

/-- The lead that a keyword for what is imported is. -/
def KindWord.lead (k : KindWord) : Lead := ⟨k.keyword.text, k.gap, k.isRun⟩

/-- Pieces between commas of which the first one has words in front. -/
theorem withLeads_intercalate (ls : List Lead) (p : String) (ps : List String) :
    withLeads ls (String.intercalate "," (p :: ps)) =
      String.intercalate "," (withLeads ls p :: ps) := by
  cases ps with
  | nil => rw [String.intercalate_singleton, String.intercalate_singleton]
  | cons q ps =>
    rw [String.intercalate_cons_cons, String.intercalate_cons_cons, String.append_assoc,
      String.append_assoc, withLeads_append]

theorem pieceWords_intercalate {ps : List String} (hne : ps ≠ []) (h : ∀ p ∈ ps, Unmarked p) :
    pieceWords (String.intercalate "," ps) = ps.map words := by
  have hsplit : splitAt (· == ',') (String.intercalate "," ps).toList = ps.map String.toList := by
    rw [String.toList_intercalate]
    refine splitAt_intercalate (by simpa using hne) fun piece hpiece => ?_
    obtain ⟨p, hp, rfl⟩ := List.mem_map.1 hpiece
    exact fun hc => h p hp ',' hc (by simp)
  rw [pieceWords, splitOn, hsplit, List.map_map, List.map_map]
  exact List.map_congr_left fun p _ => by simp

namespace UseDeclaration

variable (d : UseDeclaration)

/-- The keywords of a declaration. -/
def leads : List Lead :=
  ⟨d.keyword.text, d.gap, d.keyword.isRun (by decide) (by decide)⟩ ::
    d.kind.toList.map KindWord.lead

/-- The keywords that are not recognised. -/
def unread : List Lead :=
  if d.keyword.text = "use" then (d.kind.toList.filter fun k => ¬ k.IsPlain).map KindWord.lead
  else d.leads

/-- What the imports are read to be of. -/
def readKind : ImportKind := if d.unread.isEmpty then d.kindOf else .classLike

theorem keyword_body : d.keyword.text ++ d.body = withLeads d.leads d.names := by
  rw [leads, body]
  cases d.kind with
  | none => simp [withLeads, textOf]
  | some k => simp [withLeads, textOf, KindWord.text, KindWord.lead, String.append_assoc]

/-- The names start with one, behind blanks. -/
theorem exists_names : ∃ (g : Gap) (n : UseName) (more : String),
    d.names = g.text ++ (n.text ++ more) ∧ EndsRun more := by
  have hlist : ∃ tail, String.intercalate "," d.pieces = d.first.text ++ tail ∧ EndsRun tail := by
    rw [pieces, clauses, List.map_cons, List.cons_append]
    cases d.rest.map UseClause.text ++ ((d.group.bind UseGroup.comma).map Gap.text).toList with
    | nil => exact ⟨"", by simp [String.intercalate_singleton], fun _ h => by cases h⟩
    | cons p ps =>
      refine ⟨"," ++ String.intercalate "," (p :: ps), ?_,
        endsRun_of_head? (by rw [String.toList_append]; rfl) (by decide)⟩
      rw [String.intercalate_cons_cons, String.append_assoc]
  cases hgroup : d.group with
  | none =>
    obtain ⟨tail, htail, hends⟩ := hlist
    have hkind : d.first.kind = none := by
      simpa using d.no_kinds (.inr (by rw [hgroup]; rfl)) d.first List.mem_cons_self
    have hrename : EndsRun (textOf Renaming.text d.first.rename) := by
      cases d.first.rename with
      | none => exact fun _ h => by cases h
      | some r => exact r.before.endsRun_append _
    refine ⟨d.first.before, d.first.name,
      textOf Renaming.text d.first.rename ++ (d.first.after.text ++ tail), ?_,
      hrename.append (d.first.after.endsRun.append hends)⟩
    rw [names, hgroup]
    dsimp only
    rw [htail, UseClause.text, hkind]
    simp [textOf, String.append_assoc]
  | some g =>
    refine ⟨⟨"", by simp⟩, g.name, g.before.text ++ ("\\" ++ (g.after.text ++
      ("\x7b" ++ (String.intercalate "," d.pieces ++ ("\x7d" ++ g.behind.text))))), ?_,
      g.before.endsRun.append (endsRun_of_head? (by rw [String.toList_append]; rfl) (by decide))⟩
    simp [names, hgroup, UseGroup.text, String.append_assoc]

theorem hasWord_names : HasWord d.names := by
  obtain ⟨g, n, more, heq, -⟩ := d.exists_names
  rw [heq]
  exact (n.isWord.hasWord.append_right more).append_left g.text

theorem unmarked_of_mem_pieces {p : String} (hp : p ∈ d.pieces) : Unmarked p := by
  rcases List.mem_append.1 hp with hp | hp
  · obtain ⟨c, -, rfl⟩ := List.mem_map.1 hp
    exact c.unmarked
  · obtain ⟨g, -, rfl⟩ := Option.map_eq_some_iff.1 (Option.mem_toList.1 hp)
    exact g.unmarked

/-- Between the clauses there is no other sign than a comma. -/
theorem chars_list {c : Char} (hc : c ∈ (String.intercalate "," d.pieces).toList) :
    c = ',' ∨ c ∉ [';', ',', '\x7b', '\x7d'] := by
  rcases mem_intercalate hc with hc | ⟨p, hp, hc⟩
  · exact .inl (List.mem_singleton.1 hc)
  · exact .inr (d.unmarked_of_mem_pieces hp c hc)

/-- No semicolon stands in front of the end of a declaration. -/
theorem not_semicolon {c : Char} (hc : c ∈ (d.keyword.text ++ d.body).toList) : c ≠ ';' := by
  have hlist : ∀ c ∈ (String.intercalate "," d.pieces).toList, c ≠ ';' := by
    rintro c hc rfl
    simpa using d.chars_list hc
  have hmark {s : String} (hs : Unmarked s) : ∀ c ∈ s.toList, c ≠ ';' := by
    rintro c hc rfl
    exact hs ';' hc (by simp)
  have hnames : ∀ c ∈ d.names.toList, c ≠ ';' := by
    intro c hc
    rw [names] at hc
    split at hc
    · exact hlist c hc
    · rename_i g _
      simp only [String.toList_append, List.mem_append] at hc
      rcases hc with hc | hc | hc | hc | hc
      · exact hmark g.unmarked c hc
      · rw [List.mem_singleton.1 hc]; decide
      · exact hlist c hc
      · rw [List.mem_singleton.1 hc]; decide
      · exact hmark g.behind.unmarked c hc
  rw [keyword_body] at hc
  rcases chars_withLeads hc with hc | hc
  · exact hnames c hc
  · rintro rfl
    exact hc (by simp)

/-- Names without a keyword in front are those of classes. -/
theorem importKindOf_names : importKindOf (trim d.names) = (.classLike, trim d.names) := by
  obtain ⟨g, n, more, hnames, hmore⟩ := d.exists_names
  rw [hnames, trim_gap_append g.isGap, trim_word_append n.isWord]
  have hends := endsRun_trimEnd hmore
  cases hled : n.isLed with
  | true =>
    have htext : n.text ++ trimEnd more = "" ++ ("\\" ++ (n.path ++ trimEnd more)) := by
      rw [UseName.text, hled, if_pos rfl, String.append_assoc, String.empty_append]
    have hhead : ("\\" ++ (n.path ++ trimEnd more)).toList.head? = some '\\' := by
      rw [String.toList_append]
      rfl
    rw [htext]
    refine importKindOf_run (fun _ h => by cases h) (endsRun_of_head? hhead (by decide))
      fun what _ => ?_
    rw [hhead]
    decide
  | false =>
    obtain ⟨s, hs, tail, hpath, htail⟩ := exists_segment n.path
    have htext : n.text ++ trimEnd more = s ++ (tail ++ trimEnd more) := by
      rw [UseName.text, hled, if_neg Bool.false_ne_true, String.empty_append, hpath,
        String.append_assoc]
    have hrun := fun c hc => (isIdentifier_chars (n.identifiers s hs) (c := c) hc).1
    rw [htext]
    rcases htail with htail | ⟨cs, htail⟩
    · obtain rfl := String.toList_eq_nil_iff.1 htail
      rw [String.append_empty] at hpath
      rw [String.empty_append]
      refine importKindOf_run hrun hends fun what hwhat => ?_
      have hfree := n.free hled what
      rw [hpath, hwhat, sameIgnoringCase_refl] at hfree
      cases hfree
    · have hhead : (tail ++ trimEnd more).toList.head? = some '\\' := by
        rw [String.toList_append, htail]
        rfl
      refine importKindOf_run hrun (endsRun_of_head? hhead (by decide)) fun what _ => ?_
      rw [hhead]
      decide

/-- Words in front of the names of which the first one is not recognised. -/
theorem importKindOf_withLeads (l : Lead) (ls : List Lead)
    (h : ∀ what : Importable, l.word = what.word → l.gap.text.toList.head? ≠ some ' ') :
    importKindOf (trim (withLeads (l :: ls) d.names)) =
      (.classLike, trim (withLeads (l :: ls) d.names)) := by
  have htrim : trim (withLeads (l :: ls) d.names) =
      l.word ++ (l.gap.text ++ trimEnd (withLeads ls d.names)) := by
    rw [← trimEnd_append (hasWord_withLeads ls d.hasWord_names), ← trim_word_append l.isRun.isWord]
    rfl
  rw [htrim]
  refine importKindOf_run l.isRun.chars (l.gap.endsRun_append _) fun what hwhat => ?_
  have hhead := h what hwhat
  rw [String.toList_append]
  cases hcs : l.gap.text.toList with
  | nil => exact absurd (String.toList_eq_nil_iff.1 hcs) l.gap.ne_empty
  | cons c cs => simpa [hcs] using hhead

/-- A keyword that is recognised. -/
theorem importKindOf_plain (what : Importable) (rest : String) :
    importKindOf (what.word ++ (" " ++ rest)) = (what.kind, trim rest) := by
  have hself (word : String) : afterLead? (word ++ " ") (word ++ (" " ++ rest)) = some rest :=
    Text.afterLead?_eq_some_iff.2 (by rw [String.append_assoc])
  cases what with
  | function =>
    have hfunction : afterLead? "function " ("function" ++ (" " ++ rest)) = some rest :=
      hself "function"
    simp only [Importable.word, Importable.kind, importKindOf, hfunction]
  | constant =>
    have hfunction : afterLead? "function " ("const" ++ (" " ++ rest)) = none := by
      rw [Option.eq_none_iff_forall_ne_some]
      intro r hr
      have htext := congrArg (String.toList · |>.head?) (Text.afterLead?_eq_some_iff.1 hr)
      have hhead : ("const" ++ (" " ++ rest)).toList.head? = some 'c' := by
        rw [String.toList_append]
        rfl
      have hhead' : ("function " ++ r).toList.head? = some 'f' := by
        rw [String.toList_append]
        rfl
      rw [hhead, hhead'] at htext
      cases htext
    have hconst : afterLead? "const " ("const" ++ (" " ++ rest)) = some rest := hself "const"
    simp only [Importable.word, Importable.kind, importKindOf, hfunction, hconst]

/-- What the keywords of a declaration are read as. -/
theorem importKindOf_body :
    importKindOf (trim (if d.keyword.text = "use" then d.body else d.keyword.text ++ d.body)) =
      (d.readKind, trim (withLeads d.unread d.names)) := by
  by_cases huse : d.keyword.text = "use"
  · rw [if_pos huse, body, trim_gap_append d.gap.isGap, readKind, unread, if_pos huse]
    cases hkind : d.kind with
    | none =>
      rw [textOf, Option.map_none, Option.getD_none, String.empty_append, d.importKindOf_names,
        kindOf, hkind]
      rfl
    | some k =>
      rw [textOf, Option.map_some, Option.getD_some, KindWord.text, String.append_assoc]
      by_cases hplain : k.IsPlain
      · obtain ⟨cs, hcs⟩ := List.head?_eq_some_iff.1 hplain.gap
        have hgap : k.gap.text = " " ++ String.ofList cs := by
          rw [← String.toList_inj, hcs]
          simp
        have hgap' : IsGap (String.ofList cs) := fun c hc => k.gap.isGap c (by
          rw [hcs]
          exact List.mem_cons_of_mem _ (by rwa [String.toList_ofList] at hc))
        have hrest := d.hasWord_names.append_left (String.ofList cs)
        rw [trim_word_append k.isRun.isWord, hplain.keyword, hgap, String.append_assoc,
          trimEnd_append hrest, importKindOf_plain, trim_trimEnd, trim_gap_append hgap', kindOf,
          hkind]
        simp [hplain, withLeads]
      · have hrun := d.importKindOf_withLeads k.lead [] fun what hwhat hspace =>
          hplain (k.isPlain_of hwhat hspace)
        simpa [hplain, withLeads, KindWord.lead] using hrun
  · have hleads : d.unread = d.leads := if_neg huse
    have hkind : d.readKind = .classLike := by
      rw [readKind, hleads]
      rfl
    rw [if_neg huse, keyword_body, hkind, hleads]
    refine d.importKindOf_withLeads _ _ fun what hwhat => ?_
    have hlength := d.keyword.length
    change d.keyword.text = what.word at hwhat
    rw [hwhat] at hlength
    cases what <;> exact absurd hlength (by decide)

/-- The end of a declaration is not read, and its first keyword only if it is in lower case. -/
theorem exists_clean : ∃ s g, IsGap g ∧ d.body = s ++ g ∧
    trimRight ';' (trim d.text) = d.keyword.text ++ s := by
  have hword := (d.keyword.isRun (by decide) (by decide)).isWord
  rw [text]
  split
  · refine ⟨d.body, "", by decide, by rw [String.append_empty], ?_⟩
    rw [String.append_assoc, trim_word_append hword,
      trimEnd_append_word (by decide), ← String.append_assoc]
    exact trimRight_append fun c hc => d.not_semicolon hc
  · obtain ⟨g, hg, hbody⟩ := exists_trimEnd d.body
    refine ⟨trimEnd d.body, g, hg, hbody, ?_⟩
    rw [String.append_empty, trim_word_append hword]
    refine trimRight_of_getLast? fun hlast => ?_
    refine d.not_semicolon (c := ';') ?_ rfl
    rw [hbody, ← String.append_assoc, String.toList_append]
    exact List.mem_append_left _ (List.mem_of_getLast? hlast)

theorem afterLead?_keyword (s : String) :
    (afterLead? "use" (d.keyword.text ++ s)).getD (d.keyword.text ++ s) =
      if d.keyword.text = "use" then s else d.keyword.text ++ s := by
  split
  · rename_i huse
    have hsome : afterLead? "use" (d.keyword.text ++ s) = some s :=
      Text.afterLead?_eq_some_iff.2 (congrArg (· ++ s) huse)
    rw [hsome, Option.getD_some]
  · rename_i huse
    have hnone : afterLead? "use" (d.keyword.text ++ s) = none := by
      rw [Option.eq_none_iff_forall_ne_some]
      intro r hr
      have htext := congrArg String.toList (Text.afterLead?_eq_some_iff.1 hr)
      rw [String.toList_append, String.toList_append] at htext
      exact huse (String.toList_inj.1 (List.append_inj htext d.keyword.length).1)
    rw [hnone, Option.getD_none]

/-- What the keywords of the text of a declaration are read as. -/
theorem importKindOf_text :
    importKindOf (trim ((afterLead? "use" (trimRight ';' (trim d.text))).getD
      (trimRight ';' (trim d.text)))) = (d.readKind, trim (withLeads d.unread d.names)) := by
  obtain ⟨s, g, hg, hbody, hclean⟩ := d.exists_clean
  have htrim : trim (if d.keyword.text = "use" then s else d.keyword.text ++ s) =
      trim (if d.keyword.text = "use" then d.body else d.keyword.text ++ d.body) := by
    rw [hbody]
    split
    · rw [trim_append_gap hg]
    · rw [← String.append_assoc, trim_append_gap hg]
  rw [hclean, d.afterLead?_keyword, htrim, d.importKindOf_body]

end UseDeclaration

/-! ## Groups -/

/-- What the common start of a group is read as, with words in front. -/
def UseGroup.readStart (g : UseGroup) (ls : List Lead) : String :=
  if ls.isEmpty then g.name.path ++ g.before.text else withLeads ls (g.name.text ++ g.before.text)

/-- The common start of a group is read as it is only with no words in front and nothing between it
    and the separator. -/
theorem UseGroup.readStart_eq_iff (g : UseGroup) {ls : List Lead} :
    g.readStart ls = g.name.path ↔ ls = [] ∧ g.before.text = "" := by
  rw [readStart]
  cases ls with
  | nil => simp
  | cons l ls =>
    simp only [List.isEmpty_cons, Bool.false_eq_true, if_false, List.cons_ne_nil, false_and,
      iff_false]
    intro heq
    -- A name has no blanks, and there are some behind the first word.
    obtain ⟨c, hc⟩ := List.exists_mem_of_ne_nil _ (String.toList_eq_nil_iff.not.2 l.gap.ne_empty)
    have hpath : c ∈ g.name.path.toList := by
      rw [← heq, withLeads, List.foldr_cons]
      simp [hc]
    exact absurd (l.gap.isGap c hc) (by simp [g.name.isWord_path.chars c hpath])

/-- Words in front of a name start with a word. -/
theorem exists_word (ls : List Lead) (n : UseName) (s : String) : ∃ w rest, IsWord w ∧
    withLeads ls (n.text ++ s) = w ++ rest ∧ (ls ≠ [] → w.toList.head? ≠ some '\\') := by
  cases ls with
  | nil => exact ⟨n.text, s, n.isWord, rfl, fun h => absurd rfl h⟩
  | cons l ls =>
    refine ⟨l.word, _, l.isRun.isWord, rfl, fun _ hhead => ?_⟩
    have := l.isRun.chars _ (List.mem_of_mem_head? hhead)
    revert this
    decide

theorem trimBoth_withLeads (g : UseGroup) (ls : List Lead) :
    trimBoth '\\' (trim (withLeads ls g.text)) = g.readStart ls := by
  have htext : withLeads ls g.text =
      withLeads ls (g.name.text ++ g.before.text) ++ "\\" ++ g.after.text := by
    rw [UseGroup.text, ← String.append_assoc, withLeads_append, String.append_assoc]
  obtain ⟨w, rest, hw, hstart, hhead⟩ := exists_word ls g.name g.before.text
  have htrim : trim (withLeads ls g.text) =
      withLeads ls (g.name.text ++ g.before.text) ++ "\\" := by
    rw [htext, trim_append_gap g.after.isGap, hstart, String.append_assoc, trim_word_append hw,
      trimEnd_append_word (by decide)]
  have hright {s : String} (hs : s.toList.getLast? ≠ some '\\') :
      trimRight '\\' (s ++ "\\") = s := by
    have hconcat := trimRight_concat hs
    rwa [String.ofList_append, String.ofList_toList] at hconcat
  rw [htrim, trimBoth, UseGroup.readStart]
  cases ls with
  | nil =>
    have hlast := g.name.getLast?_append_gap "" g.before
    rw [String.empty_append] at hlast
    rw [withLeads, List.foldr_nil, String.append_assoc, g.name.trimLeft_append,
      ← String.append_assoc, hright hlast, List.isEmpty_nil, if_pos rfl]
  | cons l ls =>
    rw [trimLeft_of_head?, hright, List.isEmpty_cons, if_neg Bool.false_ne_true]
    · rw [UseName.text, String.append_assoc, withLeads_append]
      exact g.name.getLast?_append_gap _ g.before
    · rw [hstart, String.append_assoc, String.toList_append]
      obtain ⟨c, cs, hcs⟩ := List.exists_cons_of_ne_nil hw.ne_nil
      have hne := hhead (by simp)
      rw [hcs] at hne
      rwa [hcs]

/-- The common start of a group and its clauses are told apart at the braces. -/
theorem importGroup?_withLeads {g : UseGroup} {ls : List Lead} {list : String}
    (hopen : '\x7b' ∉ (withLeads ls g.text).toList) :
    importGroup? (trim (withLeads ls
      (g.text ++ ("\x7b" ++ (list ++ ("\x7d" ++ g.behind.text)))))) =
        some (g.readStart ls ++ "\\", list) := by
  obtain ⟨w, rest, hw, hstart, -⟩ := exists_word ls g.name (g.before.text ++ ("\\" ++ g.after.text))
  have htrim : trim (withLeads ls (g.text ++ ("\x7b" ++ (list ++ ("\x7d" ++ g.behind.text))))) =
      String.ofList ((withLeads ls g.text).toList ++ '\x7b' :: (list ++ "\x7d").toList) := by
    have hword : withLeads ls g.text = w ++ rest := hstart
    rw [withLeads_append, hword]
    simp only [← String.append_assoc]
    rw [trim_append_gap g.behind.isGap]
    simp only [String.append_assoc]
    rw [trim_word_append hw]
    simp only [← String.append_assoc]
    rw [trimEnd_append_word (by decide), ← String.toList_inj]
    simp
  have hlast : cutLast? '\x7d' (list ++ "\x7d") = some (list, "") := by
    have hcut : cutLast? '\x7d' (String.ofList (list.toList ++ '\x7d' :: [])) =
        some (String.ofList list.toList, String.ofList []) := cutLast?_append (by simp)
    rwa [String.ofList_append, String.ofList_toList] at hcut
  rw [htrim, importGroup?, cutFirst?_append hopen]
  simp only [String.ofList_toList, hlast, Option.bind_eq_bind, Option.bind_some,
    trimBoth_withLeads]
  rfl

theorem importGroup?_eq_none {s : String} (h : '\x7b' ∉ s.toList) :
    importGroup? (trim s) = none := by
  obtain ⟨g, k, -, -, hs⟩ := exists_trim s
  have htrim : '\x7b' ∉ (trim s).toList := fun hc => h (by rw [hs]; simp [hc])
  have hdrop : (trim s).toList.dropWhile (· != '\x7b') = [] :=
    List.dropWhile_eq_nil_iff.2 fun c hc => bne_iff_ne.2 fun heq => htrim (heq ▸ hc)
  rw [importGroup?, cutFirst?, hdrop]
  rfl

/-! ## Clauses -/

/-- The import that the words of a clause are read as. -/
def importOfWords? (kind : ImportKind) (start : String) (ws : List String) : Option Import :=
  match ws with
  | [name] => some ⟨start ++ trimLeft '\\' name, none, kind⟩
  | [name, link, rename] =>
    if sameIgnoringCase link "as" then some ⟨start ++ trimLeft '\\' name, some rename, kind⟩
    else none
  | _ => none

theorem filterMap_importOfClause? (kind : ImportKind) (start clauses : String) :
    (splitOn ',' clauses).filterMap (importOfClause? kind start) =
      (pieceWords clauses).filterMap (importOfWords? kind start) := by
  rw [pieceWords, List.filterMap_map]
  rfl

/-- What a clause is read as with words in front. -/
def UseClause.read? (kind : ImportKind) (start : String) (front : List String) (c : UseClause) :
    Option Import :=
  importOfWords? kind start (front ++ words c.text)

/-- A keyword for what is imported is not the one in front of a new name. -/
theorem KindWord.not_link (k : KindWord) : sameIgnoringCase k.keyword.text "as" = false :=
  k.keyword.not_same (by cases k.what <;> decide)

/-- Words in front of a name that are no part of it. -/
theorem importOfWords?_append {front : List String} (hne : front ≠ [])
    (hfront : ∀ w ∈ front, sameIgnoringCase w "as" = false) (kind : ImportKind)
    (start name : String) (r : Option Renaming) :
    importOfWords? kind start (front ++ name :: (r.map Renaming.words).getD []) = none := by
  match front, hfront with
  | [_], _ => cases r <;> rfl
  | [_, link], hfront =>
    have hlink : sameIgnoringCase link "as" = false := hfront link (by simp)
    cases r with
    | none => simp [importOfWords?, hlink]
    | some r => rfl
  | _ :: _ :: _ :: front, _ => cases front <;> rfl

/-- A clause is read without its kind and with nothing in front only. -/
theorem UseClause.read?_eq (kind : ImportKind) (start : String) {front : List String}
    (hfront : ∀ w ∈ front, sameIgnoringCase w "as" = false) (c : UseClause) :
    c.read? kind start front = if front = [] ∧ c.kind = none then some (c.import start kind)
      else none := by
  rw [read?, c.words_text, ← List.append_assoc]
  split
  · rename_i h
    obtain ⟨rfl, hkind⟩ := h
    rw [hkind, UseClause.import, hkind]
    cases c.rename with
    | none => simp [importOfWords?, c.name.trimLeft_text]
    | some r => simp [importOfWords?, c.name.trimLeft_text, Renaming.words, r.link.fits]
  · rename_i h
    refine importOfWords?_append (fun hnil => h ?_) (fun w hw => ?_) kind start _ _
    · obtain ⟨hfront, hkind⟩ := List.append_eq_nil_iff.1 hnil
      refine ⟨hfront, ?_⟩
      simpa using hkind
    · rcases List.mem_append.1 hw with hw | hw
      · exact hfront w hw
      · obtain ⟨k, -, rfl⟩ := List.mem_map.1 hw
        exact k.not_link

namespace UseDeclaration

variable (d : UseDeclaration)

/-- The words in front of the first clause. -/
def front : List String := if d.group.isNone then d.unread.map Lead.word else []

/-- What the common start of the names is read as. -/
def readStart : String := textOf (fun g => g.readStart d.unread ++ "\\") d.group

/-- What a declaration is read as. -/
theorem importsOfText_text : importsOfText d.text =
    (d.first.read? d.readKind d.readStart d.front ::
      d.rest.map (UseClause.read? d.readKind d.readStart [])).filterMap id := by
  have hopen {ls : List Lead} {s : String} (hs : '\x7b' ∉ s.toList) :
      '\x7b' ∉ (withLeads ls s).toList := fun hc =>
    (chars_withLeads hc).elim hs fun h => h (by simp)
  have hlist : '\x7b' ∉ (String.intercalate "," d.pieces).toList := fun hc => by
    simpa using d.chars_list hc
  simp only [importsOfText, importKindOf_text, filterMap_importOfClause?]
  cases hgroup : d.group with
  | none =>
    have hpieces : d.pieces = d.first.text :: d.rest.map UseClause.text := by
      simp [pieces, clauses, hgroup]
    have hnames : d.names = String.intercalate "," d.pieces := by rw [names, hgroup]
    rw [hnames, importGroup?_eq_none (hopen hlist), Option.getD_none, pieceWords_trim, hpieces,
      withLeads_intercalate, pieceWords_intercalate (by simp), readStart, front, hgroup]
    · simp [words_withLeads, UseClause.read?, textOf, List.filterMap_cons, List.filterMap_map,
        Function.comp_def]
    · rw [List.forall_mem_cons]
      exact ⟨fun c hc => (chars_withLeads hc).elim (d.first.unmarked c) id, fun p hp =>
        d.unmarked_of_mem_pieces (hpieces ▸ List.mem_cons_of_mem _ hp)⟩
  | some g =>
    have hnames : d.names = g.text ++
        ("\x7b" ++ (String.intercalate "," d.pieces ++ ("\x7d" ++ g.behind.text))) := by
      rw [names, hgroup]
    rw [hnames, importGroup?_withLeads (hopen fun hc => g.unmarked _ hc (by simp)),
      Option.getD_some, pieceWords_intercalate (by simp [pieces, clauses])
        fun p hp => d.unmarked_of_mem_pieces hp]
    have hcomma (kind : ImportKind) (start : String) :
        ((((d.group.bind UseGroup.comma).map Gap.text).toList).map words).filterMap
          (importOfWords? kind start) = [] := by
      cases d.group.bind UseGroup.comma with
      | none => rfl
      | some gap => simp [words_gap gap.isGap, importOfWords?]
    rw [pieces, List.map_append, List.filterMap_append, hcomma, List.append_nil, readStart, front,
      hgroup]
    simp [clauses, UseClause.read?, textOf, List.filterMap_cons, List.filterMap_map,
      Function.comp_def]

/-- No keyword is the one in front of a new name. -/
theorem not_link {l : Lead} (hl : l ∈ d.unread) : sameIgnoringCase l.word "as" = false := by
  have hkind {ks : List KindWord} (h : l ∈ ks.map KindWord.lead) :
      sameIgnoringCase l.word "as" = false := by
    obtain ⟨k, -, rfl⟩ := List.mem_map.1 h
    exact k.not_link
  rw [unread] at hl
  split at hl
  · exact hkind hl
  · rcases List.mem_cons.1 hl with rfl | hl
    · exact d.keyword.not_same (by decide)
    · exact hkind hl

theorem unread_eq_nil_iff :
    d.unread = [] ↔ d.keyword.text = "use" ∧ ∀ k ∈ d.kind, k.IsPlain := by
  rw [unread]
  split
  · rename_i huse
    cases d.kind <;> simp [huse]
  · rename_i huse
    simp [leads, huse]

/-- As many readings as imports give these imports exactly if each of them gives its own. -/
theorem filterMap_id_eq_iff {α : Type} {os : List (Option α)} {as : List α}
    (h : os.length = as.length) : os.filterMap id = as ↔ os = as.map some := by
  refine ⟨fun heq => ?_, fun heq => by rw [heq, List.filterMap_map]; simp⟩
  induction os generalizing as with
  | nil => rw [← heq]; rfl
  | cons o os ih =>
    cases as with
    | nil => cases h
    | cons a as =>
      rw [List.length_cons, List.length_cons, Nat.add_right_cancel_iff] at h
      cases o with
      | none =>
        -- One import less is read than there are readings left.
        have hle := List.length_filterMap_le id os
        rw [show os.filterMap id = a :: as from heq, List.length_cons] at hle
        omega
      | some b =>
        obtain ⟨rfl, hrest⟩ := List.cons.inj heq
        rw [ih h hrest]
        rfl

/-- The imports of a declaration are read one by one. -/
theorem importsOfText_text_iff_forall : importsOfText d.text = d.imports ↔
    (d.front = [] ∧ ∀ c ∈ d.clauses, c.kind = none) ∧
      ∀ c ∈ d.clauses, c.import d.readStart d.readKind = c.import d.start d.kindOf := by
  have hfront : ∀ w ∈ d.front, sameIgnoringCase w "as" = false := by
    intro w hw
    rw [front] at hw
    split at hw
    · obtain ⟨l, hl, rfl⟩ := List.mem_map.1 hw
      exact d.not_link hl
    · cases hw
  have some_iff {p : Prop} [Decidable p] {i j : Import} :
      (if p then some i else none) = some j ↔ p ∧ i = j := by
    split <;> simp [*]
  have hnone : ∀ w ∈ ([] : List String), sameIgnoringCase w "as" = false := fun _ h => by cases h
  rw [importsOfText_text, imports, clauses, List.map_cons, filterMap_id_eq_iff (by simp),
    List.map_cons, List.cons.injEq, List.map_map, List.map_inj_left,
    UseClause.read?_eq _ _ hfront, some_iff, List.forall_mem_cons, List.forall_mem_cons]
  simp only [UseClause.read?_eq _ _ hnone, some_iff, Function.comp_apply]
  constructor
  · rintro ⟨⟨⟨hempty, hkind⟩, hfirst⟩, hrest⟩
    exact ⟨⟨hempty, hkind, fun c hc => (hrest c hc).1.2⟩, hfirst, fun c hc => (hrest c hc).2⟩
  · rintro ⟨⟨hempty, hkind, hkinds⟩, hfirst, hrest⟩
    exact ⟨⟨⟨hempty, hkind⟩, hfirst⟩, fun c hc => ⟨⟨trivial, hkinds c hc⟩, hrest c hc⟩⟩

/-- A declaration is read as its imports exactly if it is one that is recognised. -/
theorem importsOfText_text_iff : importsOfText d.text = d.imports ↔ d.IsPlain := by
  rw [importsOfText_text_iff_forall]
  constructor
  · rintro ⟨⟨hfront, hkinds⟩, hsame⟩
    have hname : d.readStart = d.start := by
      have hfirst := congrArg Import.name (hsame d.first List.mem_cons_self)
      simpa [UseClause.import, ← String.toList_inj] using hfirst
    have hnames : d.unread = [] ∧ ∀ g ∈ d.group, g.before.text = "" := by
      rw [front] at hfront
      rw [readStart, start] at hname
      cases hgroup : d.group with
      | none => simpa [hgroup] using hfront
      | some g =>
        rw [hgroup] at hname
        simpa using g.readStart_eq_iff.1 (by simpa [textOf, ← String.toList_inj] using hname)
    obtain ⟨huse, hkind⟩ := d.unread_eq_nil_iff.1 hnames.1
    exact ⟨huse, hkind, hkinds, hnames.2⟩
  · rintro ⟨huse, hkind, hkinds, hgroup⟩
    have hunread := d.unread_eq_nil_iff.2 ⟨huse, hkind⟩
    have hfront : d.front = [] := by rw [front, hunread, List.map_nil, ite_self]
    have hread : d.readKind = d.kindOf := by rw [readKind, hunread]; rfl
    have hstart : d.readStart = d.start := by
      rw [readStart, start, hunread]
      cases hg : d.group with
      | none => rfl
      | some g =>
        rw [textOf, textOf, Option.map_some, Option.map_some,
          g.readStart_eq_iff.2 ⟨rfl, hgroup g hg⟩]
    exact ⟨⟨hfront, hkinds⟩, fun c _ => by rw [hread, hstart]⟩

end UseDeclaration

/-- The keyword for functions. -/
def functionWord : KindWord := ⟨.function, ⟨"function", by decide⟩, ⟨⟨" ", by simp⟩, by decide⟩⟩

/-- A group whose only name is that of a function, which its clause says or the declaration. -/
def helperDeclaration (byClause : Bool) : UseDeclaration where
  keyword := ⟨"use", by decide⟩
  gap := ⟨⟨" ", by simp⟩, by decide⟩
  kind := if byClause then none else some functionWord
  group := some
    { name := ⟨false, "App", by decide, fun _ what => by cases what <;> decide⟩
      before := ⟨"", by simp⟩
      after := ⟨"", by simp⟩
      comma := none
      behind := ⟨"", by simp⟩ }
  first :=
    { before := ⟨"", by simp⟩
      kind := if byClause then some functionWord else none
      name := ⟨false, "helper", by decide, fun _ what => by cases what <;> decide⟩
      rename := none
      after := ⟨"", by simp⟩ }
  rest := []
  isClosed := true
  no_kinds := by cases byClause <;> simp
  not_led := by simp

example : (helperDeclaration false).text = "use function App\\\x7bhelper\x7d;" ∧
    importsOfText (helperDeclaration false).text = (helperDeclaration false).imports := by
  decide +kernel

/-- A clause with a kind of its own, one with a comment behind its name, and a declaration with its
    keyword in capitals are all left out. -/
theorem imports_lost :
    ((helperDeclaration true).text = "use App\\\x7bfunction helper\x7d;" ∧
      (helperDeclaration true).imports = [⟨"App\\helper", none, .function⟩] ∧
      importsOfText (helperDeclaration true).text = []) ∧
    importsOfText "use App\\Foo /* by hand */;" = [] ∧ importsOfText "USE App\\Foo;" = [] := by
  decide +kernel

end DomainScaffold.Php
