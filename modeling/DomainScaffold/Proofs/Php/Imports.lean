import Mathlib.Data.List.TakeWhile
import DomainScaffold.Php.ImportText
import DomainScaffold.Proofs.Php.Types
import DomainScaffold.Proofs.Text.Words

/-!
# Reading imports

Names with their namespaces as texts, how generated imports are spelled, and that a declaration
with one import is read back as that import.

Results:
* `importsOfText_importLine`: the text of an import is read as that import.
-/

namespace DomainScaffold.Php

open Scan

/-! ## Paths -/

/-- Whether a text is a name of free names. -/
def isPath (name : String) : Bool := (Text.splitOn '\\' name).all isFreeName

/-- The tokens of a name. -/
def pathTokens (lead name : String) : List Token := nameTokens lead (Text.splitOn '\\' name)

theorem isName_splitOn {name : String} (h : isPath name = true) :
    ∀ s ∈ Text.splitOn '\\' name, isName s = true := fun s hs =>
  isName_of_isFreeName (List.all_eq_true.1 h s hs)

theorem written_pathTokens (lead name : String) : written (pathTokens lead name) = lead ++ name := by
  rw [pathTokens, written_nameTokens lead (splitOn_ne_nil _ _), nameOf_splitOn]

theorem isIdentifier_chars {s : String} (h : isIdentifier s = true) {c : Char}
    (hc : c ∈ s.toList) : isNamePart c = true ∧ Text.isBlank c = false := by
  obtain ⟨d, cs, htext, hd, hcs, hblank⟩ := isIdentifier_iff.1 h
  refine ⟨?_, hblank c hc⟩
  rw [htext] at hc
  rcases List.mem_cons.1 hc with rfl | hc
  · exact isNamePart_of_isNameStart hd
  · exact hcs c hc

theorem chars_nameOf {segments : List String} (h : ∀ s ∈ segments, isIdentifier s = true)
    {c : Char} (hc : c ∈ (nameOf segments).toList) :
    c = '\\' ∨ isNamePart c = true ∧ Text.isBlank c = false := by
  rcases Text.mem_intercalate hc with hc | ⟨s, hs, hc⟩
  · exact .inl (List.mem_singleton.1 hc)
  · exact .inr (isIdentifier_chars (h s hs) hc)

/-- The characters of a path are those of names and the separator. -/
theorem chars_path {name : String} (h : isPath name = true) {c : Char} (hc : c ∈ name.toList) :
    c = '\\' ∨ isNamePart c = true ∧ Text.isBlank c = false := by
  rw [← nameOf_splitOn name] at hc
  exact chars_nameOf (fun s hs => isIdentifier_of_isFreeName (List.all_eq_true.1 h s hs)) hc

/-- A name starts with its first segment, behind which a separator stands if it goes on. -/
theorem exists_segment (name : String) :
    ∃ s ∈ Text.splitOn '\\' name, ∃ tail, name = s ++ tail ∧
      (tail.toList = [] ∨ ∃ cs, tail.toList = '\\' :: cs) := by
  have hsegments := nameOf_splitOn name
  obtain ⟨s, segments, hsplit⟩ := List.exists_cons_of_ne_nil (splitOn_ne_nil '\\' name)
  rw [hsplit] at hsegments
  refine ⟨s, hsplit ▸ List.mem_cons_self, String.join (segments.map ("\\" ++ ·)), ?_, ?_⟩
  · rw [← hsegments, nameOf_cons]
  · cases segments with
    | nil => exact .inl rfl
    | cons t segments =>
      refine .inr ⟨t.toList ++ (String.join (segments.map ("\\" ++ ·))).toList, ?_⟩
      rw [List.map_cons, String.join_cons, String.toList_append, String.toList_append]
      rfl

/-- A path starts with a free name, behind which a separator stands if it goes on. -/
theorem exists_of_isPath {name : String} (h : isPath name = true) :
    ∃ s tail, isFreeName s = true ∧ name = s ++ tail ∧
      (tail.toList = [] ∨ ∃ cs, tail.toList = '\\' :: cs) := by
  obtain ⟨s, hs, tail, hname, htail⟩ := exists_segment name
  exact ⟨s, tail, List.all_eq_true.1 h s hs, hname, htail⟩

/-- There is no separator at the start of a path. -/
theorem trimLeft_path {name : String} (h : isPath name = true) :
    Text.trimLeft '\\' name = name := by
  obtain ⟨s, tail, hs, rfl, -⟩ := exists_of_isPath h
  obtain ⟨c, cs, hcs, hc, -, -⟩ := isIdentifier_iff.1 (isIdentifier_of_isFreeName hs)
  have hne : (c == '\\') = false := by
    rw [beq_eq_false_iff_ne]
    rintro rfl
    revert hc
    decide
  rw [Text.trimLeft, String.toList_append, hcs, List.cons_append, List.dropWhile_cons, hne,
    if_neg Bool.false_ne_true, ← List.cons_append, ← hcs, ← String.toList_append,
    String.ofList_toList]

/-! ## Plain imports -/

/-- An import of generated code. -/
structure PlainImport (i : Import) : Prop where
  kind : i.kind = .classLike
  name : isPath i.name = true
  rename : ∀ r ∈ i.rename, isFreeName r = true

/-- The tokens of an import. -/
def importTokens (lead : String) (i : Import) : List Token :=
  .word lead "use" :: (pathTokens " " i.name ++
    ((match i.rename with
      | none => []
      | some rename => [.word " " "as", .word " " rename]) ++ [.sym "" ";"]))

theorem written_importTokens (lead : String) {i : Import} (h : PlainImport i) :
    written (importTokens lead i) = lead ++ Printer.importLine i := by
  cases hrename : i.rename <;>
    simp [importTokens, Printer.importLine, written_pathTokens, h.kind, hrename, Token.word,
      Token.sym, Printer.optionally, ← String.toList_inj]

theorem separated_importTokens {lead : String} (hlead : IsLead lead) {i : Import}
    (h : PlainImport i) (next : Option Char) : Separated (importTokens lead i) next := by
  have hpath := isName_splitOn h.name
  have hend : Separated [.sym "" ";"] next := ⟨fits_plainSymbol isLead_empty (by decide) _, trivial⟩
  have hfirst : ∀ ts next, firstChar (pathTokens " " i.name ++ ts) next = some ' ' := by
    intro ts next
    rw [pathTokens]
    obtain ⟨s, segments, hsplit⟩ := List.exists_cons_of_ne_nil (splitOn_ne_nil '\\' i.name)
    rw [hsplit]
    exact firstChar_space rfl _ _
  refine ⟨fits_word hlead (by decide) (by rw [hfirst]; rfl), separated_append.2 ⟨?_, ?_⟩⟩
  · refine separated_nameTokens isLead_space hpath ?_
    cases i.rename
    · rfl
    · exact endsName_space rfl
  · cases hrename : i.rename with
    | none => exact hend
    | some rename =>
      exact ⟨fits_word isLead_space (by decide) (endsName_space rfl), fits_word isLead_space
        (isName_of_isFreeName (h.rename rename hrename)) rfl, hend⟩

/-! ## Imports from their text -/

/-- A text without blanks at its ends is not trimmed. -/
theorem trim_eq {s : String} {c d : Char} {cs ds : List Char} (hs : s.toList = c :: cs)
    (hs' : s.toList = ds ++ [d]) (hc : Text.isBlank c = false) (hd : Text.isBlank d = false) :
    Text.trim s = s := by
  have hstart : s.toList.dropWhile Text.isBlank = s.toList := by
    rw [hs, List.dropWhile_cons, hc]
    rfl
  have hend : s.toList.reverse.dropWhile Text.isBlank = s.toList.reverse := by
    rw [hs', List.reverse_append, List.reverse_singleton, List.singleton_append,
      List.dropWhile_cons, hd]
    rfl
  rw [Text.trim, Text.trimBlank, hstart, hend, List.reverse_reverse, String.ofList_toList]

/-- The text behind the keyword of an import. -/
def importBody (i : Import) : String := i.name ++ Printer.optionally (" as " ++ ·) i.rename

theorem isWord_of_isIdentifier {name : String} (h : isIdentifier name = true) :
    Text.IsWord name where
  ne_nil := by
    obtain ⟨c, cs, hcs, -⟩ := isIdentifier_iff.1 h
    simp [hcs]
  chars _ hc := (isIdentifier_chars h hc).2

theorem isWord_of_isPath {name : String} (h : isPath name = true) : Text.IsWord name where
  ne_nil := by
    obtain ⟨s, tail, hs, rfl, -⟩ := exists_of_isPath h
    have hne := (isWord_of_isIdentifier (isIdentifier_of_isFreeName hs)).ne_nil
    simp [hne]
  chars c hc := by
    rcases chars_path h hc with rfl | hc
    · decide
    · exact hc.2

theorem importBody_of_some {i : Import} {rename : String} (h : i.rename = some rename) :
    importBody i = i.name ++ (" " ++ ("as" ++ (" " ++ rename))) := by
  rw [importBody, h, ← String.toList_inj]
  simp [Printer.optionally]

theorem words_importBody {i : Import} (h : PlainImport i) :
    Text.words (importBody i) = i.name :: (match i.rename with
      | none => []
      | some rename => ["as", rename]) := by
  have hname := isWord_of_isPath h.name
  have hspace : Text.IsGap " " := by decide
  cases hrename : i.rename with
  | none => rw [importBody, hrename, Printer.optionally, String.append_empty, Text.words_word hname]
  | some rename =>
    have hword := isWord_of_isIdentifier (isIdentifier_of_isFreeName (h.rename rename hrename))
    rw [importBody_of_some hrename, Text.words_word_gap hname hspace (by decide),
      Text.words_word_gap (by decide) hspace (by decide), Text.words_word hword]

/-- The characters of the text of an import: those of names, separators and spaces. -/
theorem chars_importBody {i : Import} (h : PlainImport i) {c : Char}
    (hc : c ∈ (importBody i).toList) : c = '\\' ∨ c = ' ' ∨ isNamePart c = true := by
  rw [importBody, String.toList_append, List.mem_append] at hc
  rcases hc with hc | hc
  · exact (chars_path h.name hc).imp_right fun hc => .inr hc.1
  · cases hrename : i.rename with
    | none =>
      rw [hrename] at hc
      cases hc
    | some rename =>
      rw [hrename] at hc
      rw [Printer.optionally, String.toList_append, List.mem_append] at hc
      rcases hc with hc | hc
      · have hall : " as ".toList.all (fun c => c == ' ' || isNamePart c) = true := by decide
        have hc := List.all_eq_true.1 hall c hc
        rw [Bool.or_eq_true, beq_iff_eq] at hc
        exact .inr hc
      · have hid := isIdentifier_of_isFreeName (h.rename rename hrename)
        exact .inr (.inr (isIdentifier_chars hid hc).1)

/-- The text of an import is not trimmed. -/
theorem trim_importBody {i : Import} (h : PlainImport i) :
    Text.trim (importBody i) = importBody i := by
  have hname := isWord_of_isPath h.name
  cases hrename : i.rename with
  | none =>
    rw [importBody, hrename, Printer.optionally, Text.trim_word_append hname,
      Text.trimEnd_gap (by decide)]
  | some rename =>
    have hword := isWord_of_isIdentifier (isIdentifier_of_isFreeName (h.rename rename hrename))
    rw [importBody_of_some hrename, Text.trim_word_append hname]
    simp only [← String.append_assoc, Text.trimEnd_append_word hword]

/-- No text of an import starts with the keyword of a function or constant. -/
theorem afterLead?_importBody {i : Import} (h : PlainImport i) (keyword : String)
    (hkeyword : isFreeName keyword = false) (hchars : keyword.toList.all isNamePart = true) :
    Text.afterLead? (keyword ++ " ") (importBody i) = none := by
  rw [Option.eq_none_iff_forall_ne_some]
  intro rest hrest
  have htext := Text.afterLead?_eq_some_iff.1 hrest
  obtain ⟨s, tail, hs, hname, htail⟩ := exists_of_isPath h.name
  have hfirst : (importBody i).toList.takeWhile isNamePart = s.toList := by
    rw [importBody, hname, String.toList_append, String.toList_append, List.append_assoc,
      List.takeWhile_append_of_pos
        fun c hc => (isIdentifier_chars (isIdentifier_of_isFreeName hs) hc).1]
    have hnone : (tail.toList ++ (Printer.optionally (" as " ++ ·) i.rename).toList).takeWhile
        isNamePart = [] := by
      rcases htail with htail | ⟨cs, htail⟩
      · rw [htail]
        cases i.rename
        · rfl
        · rw [Printer.optionally, String.toList_append]
          rfl
      · rw [htail]
        rfl
    rw [hnone, List.append_nil]
  have hsecond : (keyword ++ " " ++ rest).toList.takeWhile isNamePart = keyword.toList := by
    rw [String.toList_append, String.toList_append, List.append_assoc,
      List.takeWhile_append_of_pos (List.all_eq_true.1 hchars)]
    have hnone : (" ".toList ++ rest.toList).takeWhile isNamePart = [] := rfl
    rw [hnone, List.append_nil]
  rw [htext, hsecond, String.toList_inj] at hfirst
  rw [hfirst, hs] at hkeyword
  cases hkeyword

theorem trimRight_append {c : Char} {s : String} (h : ∀ d ∈ s.toList, d ≠ c) :
    Text.trimRight c (s ++ String.singleton c) = s := by
  have hend : s.toList.reverse.dropWhile (· == c) = s.toList.reverse := by
    cases hreverse : s.toList.reverse with
    | nil => rfl
    | cons d ds =>
      have hd : d ∈ s.toList := by
        rw [← List.mem_reverse, hreverse]
        exact List.mem_cons_self
      rw [List.dropWhile_cons, beq_eq_false_iff_ne.2 (h d hd)]
      rfl
  rw [Text.trimRight, String.toList_append, List.reverse_append]
  simp [hend]

/-- The text of an import is read as that import. -/
theorem importsOfText_importLine {i : Import} (h : PlainImport i) :
    importsOfText (Printer.importLine i) = [i] := by
  have hkind := h.kind
  have hwords := words_importBody h
  have hchars : ∀ c ∈ (importBody i).toList, c ≠ ';' ∧ c ≠ ',' ∧ c ≠ '\x7b' := by
    intro c hc
    rcases chars_importBody h hc with rfl | rfl | hc
    · decide
    · decide
    · refine ⟨?_, ?_, ?_⟩ <;> (rintro rfl; revert hc; decide)
  have hline : Printer.importLine i = "use " ++ importBody i ++ String.singleton ';' := by
    simp [Printer.importLine, hkind, importBody, ← String.toList_inj]
  have htrim : Text.trim (Printer.importLine i) = Printer.importLine i := by
    have hstart : (Printer.importLine i).toList =
        'u' :: (('s' :: 'e' :: ' ' :: (importBody i).toList) ++ [';']) := by
      rw [hline]
      simp
    have hend : (Printer.importLine i).toList =
        ("use ".toList ++ (importBody i).toList) ++ [';'] := by
      rw [hline]
      simp
    exact trim_eq hstart hend (by decide) (by decide)
  have hclean : Text.trimRight ';' (Text.trim (Printer.importLine i)) = "use " ++ importBody i := by
    rw [htrim, hline]
    refine trimRight_append fun d hd => ?_
    rw [String.toList_append, List.mem_append] at hd
    rcases hd with hd | hd
    · have hall : "use ".toList.all (· != ';') = true := by decide
      exact bne_iff_ne.1 (List.all_eq_true.1 hall d hd)
    · exact (hchars d hd).1
  have hbody : Text.trim ((Text.afterLead? "use" ("use " ++ importBody i)).getD
      ("use " ++ importBody i)) = importBody i := by
    have hafter : Text.afterLead? "use" ("use " ++ importBody i) = some (" " ++ importBody i) := by
      rw [Text.afterLead?_eq_some_iff]
      simp [← String.toList_inj]
    rw [hafter, Option.getD_some]
    have hspace : Text.trim (" " ++ importBody i) = Text.trim (importBody i) := by
      rw [Text.trim, String.toList_append]
      rfl
    rw [hspace, trim_importBody h]
  have hfunction : Text.afterLead? "function " (importBody i) = none :=
    afterLead?_importBody h "function" (by decide) (by decide)
  have hconst : Text.afterLead? "const " (importBody i) = none :=
    afterLead?_importBody h "const" (by decide) (by decide)
  have hgroup : importGroup? (importBody i) = none := by
    have hdrop : (importBody i).toList.dropWhile (· != '\x7b') = [] :=
      List.dropWhile_eq_nil_iff.2 fun c hc => bne_iff_ne.2 (hchars c hc).2.2
    simp [importGroup?, Text.cutFirst?, hdrop]
  have hsplit : Text.splitOn ',' (importBody i) = [importBody i] := by
    rw [Text.splitOn, Text.splitAt_eq_singleton fun c hc => beq_eq_false_iff_ne.2 (hchars c hc).2.1]
    simp
  have hleft := trimLeft_path h.name
  have hclause : importOfClause? .classLike "" (importBody i) = some i := by
    obtain ⟨name, rename, kind⟩ := i
    cases hkind
    have has : Text.sameIgnoringCase "as" "as" = true := by decide
    cases rename <;> simp_all [importOfClause?]
  simp only [importsOfText, hclean, hbody, importKindOf, hfunction, hconst, hgroup,
    Option.getD_none, hsplit, List.filterMap_cons, hclause, List.filterMap_nil]

end DomainScaffold.Php
