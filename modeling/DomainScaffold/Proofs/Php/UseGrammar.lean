import DomainScaffold.Proofs.Php.Imports

/-!
# The grammar of use declarations

What a declaration may import: keywords in any letter case, blanks between all tokens, groups, and
kinds of single clauses of a group. Comments between the tokens are left out.

Results:
* `UseName.trimLeft_text`: a name is read without the separator in front.
* `UseClause.unmarked`: clauses have no signs that declarations are split at.
* `UseClause.words_text`: the words of a clause.
-/

namespace DomainScaffold.Php

open Scan Text

/-! ## Tokens -/

/-- White space between tokens. -/
structure Gap where
  text : String
  blank : ∀ c ∈ text.toList, c ∈ [' ', '\t', '\n', '\r']

/-- White space that keeps two words apart. -/
structure Space extends Gap where
  ne_empty : text ≠ ""

/-- A keyword in any letter case. -/
structure Keyword (word : String) where
  text : String
  fits : sameIgnoringCase text word = true

/-- What else than a class a declaration may import. -/
inductive Importable where
  | function
  | constant

def Importable.word : Importable → String
  | .function => "function"
  | .constant => "const"

def Importable.kind : Importable → ImportKind
  | .function => .function
  | .constant => .constant

/-- The keyword for what is imported. -/
structure KindWord where
  what : Importable
  keyword : Keyword what.word
  gap : Space

/-- A name with its namespace. A name without a separator in front is not the keyword for what is
    imported. -/
structure UseName where
  isLed : Bool
  path : String
  identifiers : ∀ s ∈ splitOn '\\' path, isIdentifier s = true
  free : isLed = false → ∀ what : Importable, sameIgnoringCase path what.word = false

/-- A new name. -/
structure Renaming where
  before : Space
  link : Keyword "as"
  after : Space
  name : String
  identifier : isIdentifier name = true

/-- What stands between two commas. -/
structure UseClause where
  before : Gap
  kind : Option KindWord
  name : UseName
  rename : Option Renaming
  after : Gap

/-- What is around the braces of a group: the common start of its names, the blanks around the
    separator behind it, a comma behind the last clause, and the blanks behind the group. -/
structure UseGroup where
  name : UseName
  before : Gap
  after : Gap
  comma : Option Gap
  behind : Gap

/-- A declaration. Only clauses of a group have a kind, and only if the declaration has none; names
    in a group have no separator in front. It ends with a semicolon or at a closing tag. -/
structure UseDeclaration where
  keyword : Keyword "use"
  gap : Space
  kind : Option KindWord
  group : Option UseGroup
  first : UseClause
  rest : List UseClause
  isClosed : Bool
  no_kinds : kind.isSome = true ∨ group.isNone = true →
    ∀ c ∈ first :: rest, c.kind.isNone = true
  not_led : group.isSome = true → ∀ c ∈ first :: rest, c.name.isLed = false

/-! ## Texts and imports -/

/-- The text of something that may be left out. -/
def textOf {α : Type} (f : α → String) (o : Option α) : String := (o.map f).getD ""

def KindWord.text (k : KindWord) : String := k.keyword.text ++ k.gap.text

def UseName.text (n : UseName) : String := (if n.isLed then "\\" else "") ++ n.path

def Renaming.text (r : Renaming) : String :=
  r.before.text ++ (r.link.text ++ (r.after.text ++ r.name))

def UseClause.text (c : UseClause) : String :=
  c.before.text ++ (textOf KindWord.text c.kind ++
    (c.name.text ++ (textOf Renaming.text c.rename ++ c.after.text)))

/-- The text in front of the opening brace. -/
def UseGroup.text (g : UseGroup) : String :=
  g.name.text ++ (g.before.text ++ ("\\" ++ g.after.text))

namespace UseDeclaration

variable (d : UseDeclaration)

def clauses : List UseClause := d.first :: d.rest

/-- The texts between commas, of which the last one may be blank. -/
def pieces : List String :=
  d.clauses.map UseClause.text ++ ((d.group.bind UseGroup.comma).map Gap.text).toList

/-- The text behind the keywords. -/
def names : String :=
  match d.group with
  | none => String.intercalate "," d.pieces
  | some g => g.text ++ ("\x7b" ++ (String.intercalate "," d.pieces ++ ("\x7d" ++ g.behind.text)))

/-- The text behind the first keyword. -/
def body : String := d.gap.text ++ (textOf KindWord.text d.kind ++ d.names)

/-- The text of a declaration. -/
def text : String := d.keyword.text ++ d.body ++ (if d.isClosed then ";" else "")

/-- The common start of the names. -/
def start : String := textOf (fun g => g.name.path ++ "\\") d.group

/-- What a declaration imports if its clauses do not say. -/
def kindOf : ImportKind := (d.kind.map fun k => k.what.kind).getD .classLike

end UseDeclaration

/-- The import that a clause stands for. -/
def UseClause.import (start : String) (kind : ImportKind) (c : UseClause) : Import :=
  ⟨start ++ c.name.path, c.rename.map Renaming.name, (c.kind.map fun k => k.what.kind).getD kind⟩

/-- The imports that a declaration stands for. -/
def UseDeclaration.imports (d : UseDeclaration) : List Import :=
  d.clauses.map (UseClause.import d.start d.kindOf)

/-- A keyword for what is imported as it is recognised: in lower case, with a space behind. -/
structure KindWord.IsPlain (k : KindWord) : Prop where
  keyword : k.keyword.text = k.what.word
  gap : k.gap.text.toList.head? = some ' '

instance (k : KindWord) : Decidable k.IsPlain :=
  decidable_of_iff (_ ∧ _) ⟨fun h => ⟨h.1, h.2⟩, fun h => ⟨h.1, h.2⟩⟩

/-- A declaration as it is recognised: with the keywords as they are, no kinds of single clauses and
    nothing between the common start of a group and the separator behind it. -/
structure UseDeclaration.IsPlain (d : UseDeclaration) : Prop where
  keyword : d.keyword.text = "use"
  kind : ∀ k ∈ d.kind, k.IsPlain
  clauses : ∀ c ∈ d.clauses, c.kind = none
  group : ∀ g ∈ d.group, g.before.text = ""

/-! ## Characters of tokens -/

/-- A text without the signs that declarations are split at. -/
def Unmarked (s : String) : Prop := ∀ c ∈ s.toList, c ∉ [';', ',', '\x7b', '\x7d']

theorem Unmarked.append {s t : String} (hs : Unmarked s) (ht : Unmarked t) : Unmarked (s ++ t) :=
  fun c hc => by
    rw [String.toList_append, List.mem_append] at hc
    exact hc.elim (hs c) (ht c)

theorem unmarked_empty : Unmarked "" := fun _ h => by cases h

theorem unmarked_separator : Unmarked "\\" := by simp [Unmarked]

theorem unmarked_of_isNamePart {s : String} (h : ∀ c ∈ s.toList, isNamePart c = true) :
    Unmarked s := fun c hc hmem => by
  have hall : [';', ',', '\x7b', '\x7d'].all (fun c => !isNamePart c) = true := by decide
  simpa [h c hc] using List.all_eq_true.1 hall c hmem

theorem unmarked_textOf {α : Type} {f : α → String} (h : ∀ a, Unmarked (f a)) (o : Option α) :
    Unmarked (textOf f o) := by
  cases o with
  | none => exact unmarked_empty
  | some a => exact h a

namespace Gap

variable (g : Gap)

theorem isGap : IsGap g.text := fun c hc => by
  have hall : [' ', '\t', '\n', '\r'].all isBlank = true := by decide
  exact List.all_eq_true.1 hall c (g.blank c hc)

theorem not_isNamePart {c : Char} (hc : c ∈ g.text.toList) : isNamePart c = false := by
  have hall : [' ', '\t', '\n', '\r'].all (fun c => !isNamePart c) = true := by decide
  simpa using List.all_eq_true.1 hall c (g.blank c hc)

theorem not_mem {c : Char} (h : c ∉ [' ', '\t', '\n', '\r']) : c ∉ g.text.toList :=
  fun hc => h (g.blank c hc)

theorem unmarked : Unmarked g.text := fun c hc hmem => by
  have hall : [';', ',', '\x7b', '\x7d'].all (fun c => !isBlank c) = true := by decide
  simpa [g.isGap c hc] using List.all_eq_true.1 hall c hmem

end Gap

theorem isAlpha_of_toLower {c : Char} (h : c.toLower.isAlpha = true) : c.isAlpha = true := by
  by_cases hc : c.isUpper = true
  · exact Bool.or_eq_true_iff.2 (.inl hc)
  · have hself : c.toLower = c := dif_neg fun hle => hc (decide_eq_true hle)
    rwa [hself] at h

/-- A keyword in any letter case consists of letters. -/
theorem Keyword.isAlpha {word : String} (k : Keyword word)
    (hword : word.toList.all (fun c => c.toLower.isAlpha) = true) {c : Char}
    (hc : c ∈ k.text.toList) : c.isAlpha = true := by
  have hmem : c.toLower ∈ word.toList.map Char.toLower := by
    rw [← sameIgnoringCase_iff.1 k.fits]
    exact List.mem_map_of_mem hc
  obtain ⟨d, hd, heq⟩ := List.mem_map.1 hmem
  exact isAlpha_of_toLower (heq ▸ List.all_eq_true.1 hword d hd)

theorem Keyword.length {word : String} (k : Keyword word) :
    k.text.toList.length = word.toList.length := by
  simpa using congrArg List.length (sameIgnoringCase_iff.1 k.fits)

/-- A keyword is no other one of another length. -/
theorem Keyword.not_same {word other : String} (k : Keyword word)
    (h : word.toList.length ≠ other.toList.length) : sameIgnoringCase k.text other = false := by
  rw [Bool.eq_false_iff]
  intro hsame
  have hlength : k.text.toList.length = other.toList.length := by
    simpa using congrArg List.length (sameIgnoringCase_iff.1 hsame)
  exact h (k.length.symm.trans hlength)

theorem isNamePart_of_isAlpha {c : Char} (h : c.isAlpha = true) : isNamePart c = true := by
  rw [isNamePart, isNameStart, h]
  simp

theorem not_isBlank_of_isAlpha {c : Char} (h : c.isAlpha = true) : isBlank c = false := by
  have hrange := toNat_of_isAlpha h
  have hall : blankRanges.all (fun r => r.2 < 65 || 122 < r.1) = true := by decide
  rw [Bool.eq_false_iff]
  intro hblank
  obtain ⟨r, hr, hle⟩ := inRanges_eq_true_iff.1 hblank
  have hout := List.all_eq_true.1 hall r hr
  simp only [Bool.or_eq_true, decide_eq_true_eq] at hout
  omega

/-- A word of the grammar: a text without blanks of characters of names. -/
structure IsRun (s : String) : Prop where
  isWord : IsWord s
  chars : ∀ c ∈ s.toList, isNamePart c = true

theorem Keyword.isRun {word : String} (k : Keyword word) (hne : word ≠ "")
    (hword : word.toList.all (fun c => c.toLower.isAlpha) = true) : IsRun k.text where
  isWord := {
    ne_nil := fun h => by
      have hlength := k.length
      rw [h, List.length_nil] at hlength
      exact hne (String.toList_eq_nil_iff.1 (List.length_eq_zero_iff.1 hlength.symm))
    chars := fun _ hc => not_isBlank_of_isAlpha (k.isAlpha hword hc) }
  chars _ hc := isNamePart_of_isAlpha (k.isAlpha hword hc)

theorem Importable.isRun {what : Importable} (k : Keyword what.word) : IsRun k.text := by
  cases what <;> exact k.isRun (by decide) (by decide)

namespace UseName

variable (n : UseName)

theorem chars {c : Char} (hc : c ∈ n.path.toList) :
    c = '\\' ∨ isNamePart c = true ∧ isBlank c = false :=
  chars_nameOf n.identifiers (by rwa [nameOf_splitOn])

/-- A name starts and ends with a part of a name. -/
theorem ends : n.path.toList ≠ [] ∧ n.path.toList.head? ≠ some '\\' ∧
    n.path.toList.getLast? ≠ some '\\' := by
  have hends := ends_intercalate (splitAt_ne_nil (· == '\\') n.path.toList) fun piece hpiece => by
    have hid := n.identifiers (String.ofList piece) (List.mem_map_of_mem hpiece)
    refine ⟨?_, fun hmem => ?_⟩
    · have hne := (isWord_of_isIdentifier hid).ne_nil
      rwa [String.toList_ofList] at hne
    · exact absurd (not_mem_of_mem_splitAt hpiece '\\' hmem) (by decide)
  rwa [intercalate_splitAt] at hends

theorem isWord_path : IsWord n.path where
  ne_nil := n.ends.1
  chars c hc := by
    rcases n.chars hc with rfl | hc
    · decide
    · exact hc.2

theorem isWord : IsWord n.text := by
  rw [text]
  split
  · exact IsWord.append (by decide) n.isWord_path.chars
  · rw [String.empty_append]
    exact n.isWord_path

theorem unmarked : Unmarked n.text := by
  refine Unmarked.append ?_ fun c hc => ?_
  · split
    · exact unmarked_separator
    · exact unmarked_empty
  · rcases n.chars hc with rfl | hc
    · decide
    · have hpart : ∀ d ∈ (String.singleton c).toList, isNamePart d = true := by simpa using hc.1
      exact unmarked_of_isNamePart hpart c (by simp)

/-- The separator in front of a name is not read. -/
theorem trimLeft_append (s : String) : trimLeft '\\' (n.text ++ s) = n.path ++ s := by
  have hhead : (n.path ++ s).toList.head? ≠ some '\\' := by
    obtain ⟨c, cs, hcs⟩ := List.exists_cons_of_ne_nil n.ends.1
    have hc := n.ends.2.1
    rw [hcs] at hc
    rwa [String.toList_append, hcs]
  have hled : trimLeft '\\' (n.text ++ s) = trimLeft '\\' (n.path ++ s) := by
    rw [text, String.append_assoc, trimLeft, String.toList_append]
    split
    · rw [List.dropWhile_append_of_pos (by simp), trimLeft]
    · rfl
  rw [hled, trimLeft_of_head? hhead]

theorem trimLeft_text : trimLeft '\\' n.text = n.path := by
  simpa using n.trimLeft_append ""

/-- A name with blanks behind does not end with a separator. -/
theorem getLast?_append_gap (s : String) (g : Gap) :
    (s ++ (n.path ++ g.text)).toList.getLast? ≠ some '\\' := by
  rw [String.toList_append, String.toList_append, List.getLast?_append, List.getLast?_append]
  cases hlast : g.text.toList.getLast? with
  | none =>
    cases hpath : n.path.toList.getLast? with
    | none => exact absurd (List.getLast?_eq_none_iff.1 hpath) n.ends.1
    | some c =>
      have hc := n.ends.2.2
      rwa [hpath] at hc
  | some c =>
    rintro heq
    cases heq
    exact g.not_mem (by decide) (List.mem_of_getLast? hlast)

end UseName

/-! ## Words of clauses -/

/-- The words of a new name. -/
def Renaming.words (r : Renaming) : List String := [r.link.text, r.name]

theorem Renaming.link_isRun (r : Renaming) : IsRun r.link.text :=
  r.link.isRun (by decide) (by decide)

theorem Renaming.unmarked (r : Renaming) : Unmarked r.text :=
  r.before.unmarked.append <| (unmarked_of_isNamePart r.link_isRun.chars).append <|
    r.after.unmarked.append <| unmarked_of_isNamePart fun _ hc =>
      (isIdentifier_chars r.identifier hc).1

theorem KindWord.isRun (k : KindWord) : IsRun k.keyword.text := Importable.isRun k.keyword

theorem KindWord.unmarked (k : KindWord) : Unmarked k.text :=
  (unmarked_of_isNamePart k.isRun.chars).append k.gap.unmarked

namespace UseClause

variable (c : UseClause)

theorem unmarked : Unmarked c.text :=
  c.before.unmarked.append <| (unmarked_textOf KindWord.unmarked c.kind).append <|
    c.name.unmarked.append <| (unmarked_textOf Renaming.unmarked c.rename).append c.after.unmarked

/-- The words of a clause. -/
theorem words_text : words c.text = c.kind.toList.map (fun k => k.keyword.text) ++
    c.name.text :: (c.rename.map Renaming.words).getD [] := by
  have hname : words (c.name.text ++ (textOf Renaming.text c.rename ++ c.after.text)) =
      c.name.text :: (c.rename.map Renaming.words).getD [] := by
    cases c.rename with
    | none =>
      rw [textOf, Option.map_none, Option.getD_none, String.empty_append,
        words_append_gap c.after.isGap, words_word c.name.isWord]
      rfl
    | some r =>
      rw [textOf, Option.map_some, Option.getD_some, Renaming.text]
      simp only [String.append_assoc]
      rw [words_word_gap c.name.isWord r.before.isGap r.before.ne_empty,
        words_word_gap r.link_isRun.isWord r.after.isGap r.after.ne_empty,
        words_append_gap c.after.isGap, words_word (isWord_of_isIdentifier r.identifier)]
      rfl
  rw [text, words_gap_append c.before.isGap]
  cases c.kind with
  | none => rw [textOf, Option.map_none, Option.getD_none, String.empty_append, hname]; rfl
  | some k =>
    rw [textOf, Option.map_some, Option.getD_some, KindWord.text, String.append_assoc,
      words_word_gap k.isRun.isWord k.gap.isGap k.gap.ne_empty, hname]
    rfl

end UseClause

theorem UseGroup.unmarked (g : UseGroup) : Unmarked g.text :=
  g.name.unmarked.append <| g.before.unmarked.append <|
    unmarked_separator.append g.after.unmarked

end DomainScaffold.Php
