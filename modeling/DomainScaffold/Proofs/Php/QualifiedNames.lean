import DomainScaffold.Proofs.Php.Steps
import DomainScaffold.Proofs.Text.Pieces

/-!
# Names with namespaces

How names are spelled that are made of segments, and that they are read back as they were: names of
namespaces and imports, and those of functions, constants and classes, which may start with a
separator.

Results:
* `nameOf_splitOn`: a name is made up of its segments.
* `qualifiedName_nameTokens`, `qualifiedName_qualifiedTokens`: a name is read up to its last
  segment.
-/

namespace DomainScaffold.Php

open Scan

variable {text lead : String} {names : List String} {next : Option Char}

/-! ## Segments -/

/-- The tokens of the segments behind the first one of a name. -/
def segmentTokens (names : List String) : List Token :=
  names.flatMap fun s => [.sym "" "\\", .word "" s]

/-- The tokens of a name with its segments. -/
def nameTokens (lead : String) : List String → List Token
  | [] => []
  | s :: names => .word lead s :: segmentTokens names

/-- The name with the given segments. -/
def nameOf (names : List String) : String := String.intercalate "\\" names

theorem nameOf_cons (s : String) (names : List String) :
    nameOf (s :: names) = s ++ String.join (names.map ("\\" ++ ·)) := by
  induction names generalizing s with
  | nil => simp [nameOf]
  | cons t names ih =>
    have hcons : nameOf (s :: t :: names) = s ++ ("\\" ++ nameOf (t :: names)) := by
      simp [nameOf, String.append_assoc]
    rw [hcons, ih]
    simp [String.append_assoc]

theorem written_segmentTokens (names : List String) :
    written (segmentTokens names) = String.join (names.map ("\\" ++ ·)) := by
  induction names with
  | nil => rfl
  | cons s names ih =>
    rw [segmentTokens, List.flatMap_cons, written_append, ← segmentTokens, ih]
    simp [Token.sym, Token.word, String.append_assoc]

theorem written_nameTokens (lead : String) (h : names ≠ []) :
    written (nameTokens lead names) = lead ++ nameOf names := by
  cases names with
  | nil => exact absurd rfl h
  | cons s names =>
    rw [nameTokens, written_cons, written_segmentTokens, nameOf_cons]
    simp [Token.word, String.append_assoc]

theorem separated_segmentTokens (h : ∀ s ∈ names, isName s = true)
    (hnext : endsName next = true) :
    Separated (segmentTokens names) next ∧
      endsName (firstChar (segmentTokens names) next) = true := by
  induction names with
  | nil => exact ⟨trivial, hnext⟩
  | cons s names ih =>
    rw [List.forall_mem_cons] at h
    obtain ⟨hrest, hfirst⟩ := ih h.2
    exact ⟨⟨fits_plainSymbol isLead_empty (by decide) _, fits_word isLead_empty h.1 hfirst, hrest⟩,
      rfl⟩

theorem separated_nameTokens (hlead : IsLead lead) (h : ∀ s ∈ names, isName s = true)
    (hnext : endsName next = true) : Separated (nameTokens lead names) next := by
  cases names with
  | nil => trivial
  | cons s names =>
    rw [List.forall_mem_cons] at h
    obtain ⟨hrest, hfirst⟩ := separated_segmentTokens h.2 hnext
    exact ⟨fits_word hlead h.1 hfirst, hrest⟩

theorem splitOn_ne_nil (sep : Char) (s : String) : Text.splitOn sep s ≠ [] := by
  rw [Text.splitOn, Ne, List.map_eq_nil_iff]
  exact Text.splitAt_ne_nil _ _

/-- A name is made up of its segments. -/
theorem nameOf_splitOn (name : String) : nameOf (Text.splitOn '\\' name) = name := by
  rw [← String.toList_inj, nameOf, String.toList_intercalate, Text.splitOn, List.map_map]
  have hid : (String.toList ∘ String.ofList) = id := funext fun cs => String.toList_ofList
  rw [hid, List.map_id]
  exact Text.intercalate_splitAt '\\' name.toList

/-- No name holds the separator. -/
theorem splitOn_nameOf (hne : names ≠ []) (h : ∀ s ∈ names, isName s = true) :
    Text.splitOn '\\' (nameOf names) = names := by
  have hpieces : ∀ piece ∈ names.map String.toList, '\\' ∉ piece := by
    intro piece hpiece hmem
    obtain ⟨s, hs, rfl⟩ := List.mem_map.1 hpiece
    exact absurd (isNamePart_of_isName (h s hs) _ hmem) (by decide)
  have hsplit := Text.splitAt_intercalate (mt List.map_eq_nil_iff.1 hne) hpieces
  have htext : (nameOf names).toList = List.intercalate ['\\'] (names.map String.toList) := by
    rw [nameOf, String.toList_intercalate]
    rfl
  rw [Text.splitOn, htext, hsplit, Text.map_ofList_toList]

/-! ## Names of functions, constants and classes -/

/-- Whether a text is a name whose segments are no reserved words; a full one starts with a
    separator. -/
def isQualified (text : String) : Bool :=
  match Text.splitOn '\\' text with
  | "" :: s :: names => (s :: names).all isOpenName
  | names => names.all isOpenName

/-- Whether a text names a class, or is the word for the class itself. -/
def isClassName (text : String) : Bool := isQualified text || text == "self"

/-- The tokens of a name that may start with a separator. -/
def qualifiedTokens (lead text : String) : List Token :=
  match Text.splitOn '\\' text with
  | "" :: s :: names => .sym lead "\\" :: nameTokens "" (s :: names)
  | names => nameTokens lead names

/-- Whether a word may start the name of a class. -/
def isClassWord (s : String) : Bool := isOpenName s || s == "self"

/-- The forms that the name of a class has. -/
inductive NameForm : String → Prop where
  | relative {s : String} {names : List String} : isClassWord s = true →
      (∀ t ∈ s :: names, isName t = true) → NameForm (nameOf (s :: names))
  | full {s : String} {names : List String} : (∀ t ∈ s :: names, isName t = true) →
      NameForm ("\\" ++ nameOf (s :: names))

theorem nameForm_of_isQualified (h : isQualified text = true) : NameForm text := by
  have htext := nameOf_splitOn text
  rw [isQualified] at h
  split at h
  · rename_i s names hsplit
    rw [hsplit] at htext
    have hfull : nameOf ("" :: s :: names) = "\\" ++ nameOf (s :: names) := by
      rw [nameOf_cons "", nameOf_cons]
      simp [String.append_assoc]
    rw [← htext, hfull]
    exact .full fun t ht => isName_of_isOpenName (List.all_eq_true.1 h t ht)
  · obtain ⟨s, names, hsplit⟩ := List.exists_cons_of_ne_nil (splitOn_ne_nil '\\' text)
    rw [hsplit] at htext h
    rw [← htext]
    have hopen := List.all_eq_true.1 h
    exact .relative (by rw [isClassWord, hopen s List.mem_cons_self, Bool.true_or])
      fun t ht => isName_of_isOpenName (hopen t ht)

theorem nameForm_of_isClassName (h : isClassName text = true) : NameForm text := by
  rw [isClassName, Bool.or_eq_true, beq_iff_eq] at h
  rcases h with h | rfl
  · exact nameForm_of_isQualified h
  · have hnames : ∀ t ∈ ["self"], isName t = true := by decide
    exact .relative (by decide) hnames

theorem isQualified_of_isOpenName (h : isOpenName text = true) : isQualified text = true := by
  have hsplit : Text.splitOn '\\' text = [text] := by
    have hname : ∀ s ∈ [text], isName s = true :=
      List.forall_mem_singleton.2 (isName_of_isOpenName h)
    have := splitOn_nameOf (List.cons_ne_nil _ _) hname
    rwa [nameOf, String.intercalate_singleton] at this
  rw [isQualified, hsplit]
  split
  · rename_i heq
    cases heq
  · simpa using h

theorem qualifiedTokens_relative (lead : String) {s : String}
    (h : ∀ t ∈ s :: names, isName t = true) :
    qualifiedTokens lead (nameOf (s :: names)) = nameTokens lead (s :: names) := by
  rw [qualifiedTokens, splitOn_nameOf (List.cons_ne_nil _ _) h]
  split
  · rename_i heq
    rw [(List.cons.inj heq).1] at h
    exact absurd (h _ List.mem_cons_self) (by decide)
  · rfl

theorem qualifiedTokens_full (lead : String) {s : String}
    (h : ∀ t ∈ s :: names, isName t = true) :
    qualifiedTokens lead ("\\" ++ nameOf (s :: names)) =
      .sym lead "\\" :: nameTokens "" (s :: names) := by
  have hsplit : Text.splitOn '\\' ("\\" ++ nameOf (s :: names)) = "" :: s :: names := by
    have hinner := splitOn_nameOf (List.cons_ne_nil _ _) h
    rw [Text.splitOn] at hinner
    have hchars : ("\\" ++ nameOf (s :: names)).toList =
        '\\' :: (nameOf (s :: names)).toList := by
      rw [String.toList_append]
      rfl
    rw [Text.splitOn, hchars, Text.splitAt, if_pos (by rfl), List.map_cons, hinner]
  rw [qualifiedTokens, hsplit]
  rfl

theorem written_qualifiedTokens (lead : String) (h : NameForm text) :
    written (qualifiedTokens lead text) = lead ++ text := by
  cases h with
  | relative _ hnames =>
    rw [qualifiedTokens_relative lead hnames, written_nameTokens lead (List.cons_ne_nil _ _)]
  | full hnames =>
    rw [qualifiedTokens_full lead hnames, written_cons, written_nameTokens "" (List.cons_ne_nil _ _)]
    simp [Token.sym, String.append_assoc]

theorem separated_qualifiedTokens (hlead : IsLead lead) (h : NameForm text)
    (hnext : endsName next = true) : Separated (qualifiedTokens lead text) next := by
  cases h with
  | relative _ hnames =>
    rw [qualifiedTokens_relative lead hnames]
    exact separated_nameTokens hlead hnames hnext
  | full hnames =>
    rw [qualifiedTokens_full lead hnames]
    exact ⟨fits_plainSymbol hlead (by decide) _, separated_nameTokens isLead_empty hnames hnext⟩

/-- A single word as a name. -/
theorem qualifiedTokens_word (lead : String) (h : isName text = true) :
    qualifiedTokens lead text = [.word lead text] := by
  have hnames : ∀ t ∈ [text], isName t = true := List.forall_mem_singleton.2 h
  have hword := qualifiedTokens_relative lead hnames
  rwa [nameOf, String.intercalate_singleton] at hword

/-! ## Reading -/

namespace Grammar

variable {r : Lexeme} {ls rest : List Lexeme}

/-- The segments of a name behind the first are read as far as they go. -/
theorem segments_segmentTokens (hr : r.isExtra = false) (hs : r.isSymbol "\\" = false)
    (hls : ls.map Lexeme.token = segmentTokens names) {fuel : Nat} (hfuel : names.length < fuel) :
    segments fuel (ls ++ r :: rest) = some ((), r :: rest) := by
  induction names generalizing ls fuel with
  | nil =>
    obtain ⟨fuel, rfl⟩ := Nat.exists_eq_add_of_lt hfuel
    rw [segmentTokens, List.flatMap_nil, List.map_eq_nil_iff] at hls
    subst hls
    simp [segments, ahead_cons hr, hs, aheadSecond]
  | cons name names ih =>
    obtain ⟨fuel, rfl⟩ : ∃ k, fuel = k + 1 := ⟨fuel - 1, by omega⟩
    rw [List.length_cons, Nat.succ_lt_succ_iff] at hfuel
    obtain ⟨mark, ls₁, rfl, hmark, hls₁⟩ := exists_of_sym hls
    obtain ⟨word, ls₂, rfl, hword, -, hls₂⟩ := exists_of_word hls₁
    have hextra := isExtra_of_isSymbol hmark
    have hextra' := isExtra_of_kind (.inl hword)
    simp [segments, ahead_cons hextra, hmark, aheadSecond_cons hextra hextra', hword,
      symbol_cons hmark, anyWord_cons hword, ih hls₂ hfuel]

theorem length_segmentTokens (names : List String) :
    (segmentTokens names).length = 2 * names.length := by
  induction names with
  | nil => rfl
  | cons name names ih =>
    rw [segmentTokens, List.flatMap_cons, List.length_append, ← segmentTokens, ih, List.length_cons]
    simp only [List.length_cons, List.length_nil]
    omega

variable (rest) in
/-- The first word of a name and the segments behind it are taken. -/
theorem words_nameTokens (hnames : names ≠ [])
    (hls : ls.map Lexeme.token = nameTokens lead names) (hr : r.isExtra = false)
    (hs : r.isSymbol "\\" = false) :
    (do discard anyWord; bounded segments : Parse Unit) (ls ++ r :: rest) =
      some ((), r :: rest) := by
  obtain ⟨name, names, rfl⟩ := List.exists_cons_of_ne_nil hnames
  rw [nameTokens] at hls
  obtain ⟨l, ls', rfl, hl, -, hls'⟩ := exists_of_word hls
  have hlength := length_segmentTokens names
  rw [← hls', List.length_map] at hlength
  have hread : segments ((ls' ++ r :: rest).length + 1) (ls' ++ r :: rest) =
      some ((), r :: rest) :=
    segments_segmentTokens hr hs hls' (by rw [List.length_append]; omega)
  simp only [List.cons_append, bind_apply, discard_apply, anyWord_cons hl, Option.map_some,
    Option.bind_some, bounded_apply, hread]

/-- The text of lexemes is that of their tokens without the white space in front. -/
theorem sourceText_of_written {t : Token} {ts : List Token}
    (hls : ls.map Lexeme.token = t :: ts) (h : written (t :: ts) = t.lead ++ text) :
    sourceText ls = text := by
  obtain ⟨l, ls', rfl, rfl, rfl⟩ := List.map_eq_cons_iff.1 hls
  rw [written_cons, written_map_token, String.append_assoc, String.append_right_inj] at h
  exact h

variable (rest) in
/-- A name is read up to its last segment. -/
theorem qualifiedName_nameTokens (hnames : names ≠ [])
    (hls : ls.map Lexeme.token = nameTokens lead names) (hr : r.isExtra = false)
    (hs : r.isSymbol "\\" = false) :
    qualifiedName (ls ++ r :: rest) = some (nameOf names, r :: rest) := by
  have hwords := words_nameTokens rest hnames hls hr hs
  have hwritten := written_nameTokens lead hnames
  obtain ⟨name, names, rfl⟩ := List.exists_cons_of_ne_nil hnames
  have htext := sourceText_of_written hls hwritten
  obtain ⟨l, ls', rfl, hl, -, -⟩ := exists_of_word hls
  have hextra := isExtra_of_kind (.inl hl)
  have hsymbol : l.isSymbol "\\" = false := by simp [Lexeme.isSymbol, hl]
  have hfrom := textFrom_append (l :: ls') (r :: rest)
  rw [htext] at hfrom
  rw [List.cons_append] at hfrom hwords ⊢
  rw [qualifiedName, textOf, bind_of_eq_some (here_cons hextra), bind_apply, discard_apply,
    bind_of_eq_some (by rw [discard_apply, symbol?_cons_of_not hextra hsymbol]; rfl), hwords]
  exact hfrom

theorem sourceText_qualifiedTokens (h : NameForm text)
    (hls : ls.map Lexeme.token = qualifiedTokens lead text) : sourceText ls = text := by
  have hwritten := written_qualifiedTokens lead h
  cases h with
  | relative _ hnames =>
    rw [qualifiedTokens_relative lead hnames] at hls hwritten
    exact sourceText_of_written hls hwritten
  | full hnames =>
    rw [qualifiedTokens_full lead hnames] at hls hwritten
    exact sourceText_of_written hls hwritten

variable (rest) in
/-- A name that may start with a separator is read up to its last segment. -/
theorem qualifiedName_qualifiedTokens (h : NameForm text)
    (hls : ls.map Lexeme.token = qualifiedTokens lead text) (hr : r.isExtra = false)
    (hs : r.isSymbol "\\" = false) :
    qualifiedName (ls ++ r :: rest) = some (text, r :: rest) := by
  have htext := sourceText_qualifiedTokens h hls
  cases h with
  | relative _ hnames =>
    rw [qualifiedTokens_relative lead hnames] at hls
    exact qualifiedName_nameTokens rest (List.cons_ne_nil _ _) hls hr hs
  | full hnames =>
    rw [qualifiedTokens_full lead hnames] at hls
    obtain ⟨l, ls', rfl, hl, hls'⟩ := exists_of_sym hls
    have hwords := words_nameTokens rest (List.cons_ne_nil _ _) hls' hr hs
    have hfrom := textFrom_append (l :: ls') (r :: rest)
    rw [htext] at hfrom
    rw [List.cons_append] at hfrom ⊢
    rw [qualifiedName, textOf, bind_of_eq_some (here_cons (isExtra_of_isSymbol hl)), bind_apply,
      discard_apply, bind_of_eq_some (by rw [discard_apply, symbol?_cons hl]; rfl), hwords]
    exact hfrom

/-- How the lexemes of the name of a class start: with a word that is no keyword, or with a
    separator and a word. -/
theorem exists_of_qualifiedTokens (h : NameForm text)
    (hls : ls.map Lexeme.token = qualifiedTokens lead text) :
    (∃ l ls', ls = l :: ls' ∧ l.kind = .word ∧ isClassWord l.text = true ∧
      ∀ l' ∈ ls'.head?, l'.isSymbol "\\" = true) ∨
    ∃ l l' ls', ls = l :: l' :: ls' ∧ l.isSymbol "\\" = true ∧ l'.kind = .word := by
  cases h with
  | @relative s names hword hnames =>
    rw [qualifiedTokens_relative lead hnames] at hls
    obtain ⟨l, ls', rfl, hl, rfl, hls'⟩ := exists_of_word hls
    refine .inl ⟨l, ls', rfl, hl, hword, fun l' hl' => ?_⟩
    cases names with
    | nil =>
      rw [segmentTokens, List.flatMap_nil, List.map_eq_nil_iff] at hls'
      rw [hls'] at hl'
      cases hl'
    | cons t names =>
      obtain ⟨mark, ls'', rfl, hmark, -⟩ := exists_of_sym hls'
      cases hl'
      exact hmark
  | full hnames =>
    rw [qualifiedTokens_full lead hnames] at hls
    obtain ⟨l, ls', rfl, hl, hls'⟩ := exists_of_sym hls
    obtain ⟨l', ls'', rfl, hl', -⟩ := exists_of_word hls'
    exact .inr ⟨l, l', ls'', rfl, hl, hl'⟩

end Grammar

end DomainScaffold.Php
