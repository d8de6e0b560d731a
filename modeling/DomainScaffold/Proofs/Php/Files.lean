import Mathlib.Data.List.TakeDrop
import DomainScaffold.Php.Reader
import DomainScaffold.Proofs.Php.Classes
import DomainScaffold.Proofs.Php.Imports

/-!
# Reading files

How generated files are spelled, and that they are read back: the directive, the namespace and the
imports as they were, and the class as it is read back.

Results:
* `written_fileTokens`: a printed file is put together from its tokens.
* `treeOf_fileTokens`: a file is read back from its tokens.
-/

namespace DomainScaffold.Php

open Scan Verbatim

/-! ## Plain files -/

/-- A file of generated code: one class, and no text of its own. -/
structure PlainTree (t : SourceTree) : Prop where
  header : t.header = []
  namespaceName : ∀ n ∈ t.namespaceName, isPath n = true
  imports : ∀ i ∈ t.imports, PlainImport i
  items : ∃ c, t.items = [.classItem c] ∧ PlainClass c

/-- A section of a file. -/
inductive Section where
  | strictTypes
  | namespaceName (name : String)
  | importOne (i : Import)
  | classOne (c : ClassDecl)

/-- The sections that are plain. -/
inductive PlainSection : Section → Prop where
  | strictTypes : PlainSection .strictTypes
  | namespaceName {name : String} : isPath name = true → PlainSection (.namespaceName name)
  | importOne {i : Import} : PlainImport i → PlainSection (.importOne i)
  | classOne {c : ClassDecl} : PlainClass c → PlainSection (.classOne c)

/-- The imports of a file, each with the white space in front of it. -/
def importSections : List Import → List (String × Section)
  | [] => []
  | i :: is => ("\n\n", .importOne i) :: is.map fun i => ("\n", .importOne i)

/-- The sections of a file, each with the white space in front of it. -/
def fileSections (t : SourceTree) : List (String × Section) :=
  (if t.strictTypes then [("\n\n", .strictTypes)] else []) ++
    (t.namespaceName.map fun n => ("\n\n", .namespaceName n)).toList ++
    importSections t.imports ++ t.classes.map fun c => ("\n\n", .classOne c)

/-! ## Spelling -/

/-- The tokens of the directive for strict types. -/
def strictTokens (lead : String) : List Token :=
  [.word lead "declare", .sym "" "(", .word "" "strict_types", .sym "" "=", ⟨"", .integer, "1"⟩,
    .sym "" ")", .sym "" ";"]

/-- The tokens of a section. -/
def sectionTokens (s : String × Section) : List Token :=
  match s.2 with
  | .strictTypes => strictTokens s.1
  | .namespaceName name => .word s.1 "namespace" :: (pathTokens " " name ++ [.sym "" ";"])
  | .importOne i => importTokens s.1 i
  | .classOne c => classTokens s.1 c

/-- A section as it is printed. -/
def sectionText : Section → String
  | .strictTypes => "declare(strict_types=1);"
  | .namespaceName name => "namespace " ++ name ++ ";"
  | .importOne i => Printer.importLine i
  | .classOne c => Printer.classDecl c

/-- The tokens of a file behind its opening tag. -/
def fileTokens (t : SourceTree) : List Token := (fileSections t).flatMap sectionTokens

theorem written_sectionTokens {s : Section} (h : PlainSection s) (lead : String) :
    written (sectionTokens (lead, s)) = lead ++ sectionText s := by
  cases h with
  | strictTypes =>
    simp [sectionTokens, strictTokens, sectionText, Token.word, Token.sym, ← String.toList_inj]
  | namespaceName _ =>
    simp [sectionTokens, sectionText, written_pathTokens, Token.word, Token.sym,
      ← String.toList_inj]
  | importOne h => exact written_importTokens lead h
  | classOne h => exact written_classTokens h lead

theorem PlainTree.eq {t : SourceTree} (h : PlainTree t) :
    ∃ c, t = ⟨t.strictTypes, [], t.namespaceName, t.imports, [.classItem c]⟩ ∧ PlainClass c := by
  obtain ⟨hheader, -, -, c, hitems, hc⟩ := h
  refine ⟨c, ?_, hc⟩
  cases t
  simp_all

/-- The sections of a file are plain and stand behind white space. -/
theorem plain_fileSections {t : SourceTree} (h : PlainTree t) :
    ∀ s ∈ fileSections t, IsLead s.1 ∧ PlainSection s.2 := by
  have hlead : IsLead "\n\n" := isLead_append isLead_newlines isLead_newlines
  intro s hs
  simp only [fileSections, List.mem_append] at hs
  rcases hs with ((hs | hs) | hs) | hs
  · split at hs
    · cases List.mem_singleton.1 hs
      exact ⟨hlead, .strictTypes⟩
    · cases hs
  · cases hname : t.namespaceName with
    | none =>
      rw [hname] at hs
      cases hs
    | some n =>
      rw [hname] at hs
      cases List.mem_singleton.1 hs
      exact ⟨hlead, .namespaceName (h.namespaceName n hname)⟩
  · have himports := h.imports
    cases his : t.imports with
    | nil =>
      rw [his] at hs
      cases hs
    | cons i is =>
      rw [his, List.forall_mem_cons] at himports
      rw [his, importSections, List.mem_cons, List.mem_map] at hs
      rcases hs with rfl | ⟨j, hj, rfl⟩
      · exact ⟨hlead, .importOne himports.1⟩
      · exact ⟨isLead_newlines, .importOne (himports.2 j hj)⟩
  · obtain ⟨c, hc, rfl⟩ := List.mem_map.1 hs
    obtain ⟨c', hitems, hplain⟩ := h.items
    rw [SourceTree.classes, hitems] at hc
    cases List.mem_singleton.1 hc
    exact ⟨hlead, .classOne hplain⟩

/-- Sections are written one behind the other. -/
theorem written_sections {ss : List (String × Section)}
    (h : ∀ s ∈ ss, IsLead s.1 ∧ PlainSection s.2) :
    written (ss.flatMap sectionTokens) = String.join (ss.map fun s => s.1 ++ sectionText s.2) := by
  induction ss with
  | nil => rfl
  | cons s ss ih =>
    rw [List.forall_mem_cons] at h
    rw [List.flatMap_cons, written_append, ih h.2, List.map_cons, String.join_cons]
    exact congrArg (· ++ _) (written_sectionTokens h.1.2 s.1)

/-- Texts behind line breaks are those texts with the line breaks between them. -/
theorem join_lines (sep s : String) (ss : List String) :
    String.join ((s :: ss).map (sep ++ ·)) = sep ++ String.intercalate sep (s :: ss) := by
  induction ss generalizing s with
  | nil => simp
  | cons s' ss ih =>
    rw [List.map_cons, String.join_cons, ih s', String.intercalate_cons_cons]
    simp [String.append_assoc]

theorem join_importSections (is : List Import) :
    String.join ((importSections is).map fun s => s.1 ++ sectionText s.2) =
      String.join ((if is.isEmpty then [] else [Text.unlines (is.map Printer.importLine)]).map
        ("\n\n" ++ ·)) := by
  cases is with
  | nil => rfl
  | cons i is =>
    have hlines := join_lines "\n" (Printer.importLine i) (is.map Printer.importLine)
    have hmap : (is.map fun i => ("\n", Section.importOne i)).map (fun s => s.1 ++ sectionText s.2) =
        (is.map Printer.importLine).map ("\n" ++ ·) := by
      rw [List.map_map, List.map_map]
      rfl
    calc String.join ((importSections (i :: is)).map fun s => s.1 ++ sectionText s.2)
        = "\n" ++ String.join ((Printer.importLine i :: is.map Printer.importLine).map
            ("\n" ++ ·)) := by
          rw [importSections, List.map_cons, hmap]
          simp [sectionText, ← String.toList_inj]
      _ = _ := by
          rw [hlines]
          simp [Text.unlines, ← String.toList_inj]

/-- A printed file is put together from its tokens. -/
theorem written_fileTokens {t : SourceTree} (h : PlainTree t) :
    Printer.file t = "<?php" ++ written (fileTokens t) ++ "\n" := by
  obtain ⟨c, ht, hc⟩ := h.eq
  have hsections : String.join ((Printer.sections t).map ("\n\n" ++ ·)) ++
      ("\n\n" ++ Printer.classDecl c) = written (fileTokens t) := by
    rw [fileTokens, written_sections (plain_fileSections h), fileSections, List.map_append,
      List.map_append, List.map_append, String.join_append, String.join_append, String.join_append,
      join_importSections, Printer.sections, h.header]
    have hclasses : t.classes = [c] := by
      rw [ht]
      rfl
    cases t.strictTypes <;> cases t.namespaceName <;>
      simp [hclasses, sectionText, ← String.toList_inj]
  have hitems : t.items = [.classItem c] := by rw [ht]
  rw [← hsections, Printer.file, hitems]
  cases hhead : Printer.sections t with
  | nil => simp [Printer.itemsFrom, Printer.item, ← String.toList_inj]
  | cons s ss =>
    rw [join_lines]
    simp [Printer.itemsFrom, Printer.item, ← String.toList_inj]

/-- Each token of a section is scanned as such. -/
theorem separated_sectionTokens {s : Section} (h : PlainSection s) {lead : String}
    (hlead : IsLead lead) (next : Option Char) : Separated (sectionTokens (lead, s)) next := by
  cases h with
  | strictTypes =>
    exact ⟨fits_word hlead (by decide) rfl, fits_plainSymbol isLead_empty (by decide) _,
      fits_word isLead_empty (by decide) rfl, fits_symbol isLead_empty rfl,
      fits_integer isLead_empty 1 rfl, fits_plainSymbol isLead_empty (by decide) _,
      fits_plainSymbol isLead_empty (by decide) _, trivial⟩
  | @namespaceName name hname =>
    refine ⟨fits_word hlead (by decide) ?_, separated_append.2
      ⟨separated_nameTokens isLead_space (isName_splitOn hname) rfl,
        fits_plainSymbol isLead_empty (by decide) _, trivial⟩⟩
    rw [pathTokens]
    obtain ⟨s, segments, hsplit⟩ := List.exists_cons_of_ne_nil (splitOn_ne_nil '\\' name)
    rw [hsplit]
    exact endsName_space rfl
  | importOne h => exact separated_importTokens hlead h next
  | classOne h => exact separated_classTokens h hlead next

/-- Each token of a file is scanned as such. -/
theorem separated_fileTokens {t : SourceTree} (h : PlainTree t) (next : Option Char) :
    Separated (fileTokens t) next := by
  have hall : ∀ {ss : List (String × Section)}, (∀ s ∈ ss, IsLead s.1 ∧ PlainSection s.2) →
      Separated (ss.flatMap sectionTokens) next := by
    intro ss h
    induction ss with
    | nil => trivial
    | cons s ss ih =>
      rw [List.forall_mem_cons] at h
      exact separated_append.2 ⟨separated_sectionTokens h.1.2 h.1.1 _, ih h.2⟩
  exact hall (plain_fileSections h)

/-! ## Reading -/

namespace Grammar

variable {l r : Lexeme} {ls rest : List Lexeme} {sub : Rules}

/-! ### Sections -/

/-- What is read of a section. -/
def SectionReadAs (s : Section) (c : Construct) : Prop :=
  match s with
  | .strictTypes => c = .declareDirective
  | .namespaceName name => c = .namespaceDecl (some name) false
  | .importOne _ => c = .importDecl
  | .classOne decl => ∃ decl', c = .classDecl decl' ∧ ClassReadAs decl decl'

/-- The number of the directive is read as an expression. -/
theorem expressionAt_one {n : Nat} (hl : l.kind = .integer) (hr : r.isSymbol ")" = true) :
    ∃ e, expressionAt (n + 1) operandLevel (l :: r :: rest) = some (e, r :: rest) := by
  have hextra : l.isExtra = false := by simp [Lexeme.isExtra, hl]
  have hbare : bareOperand (rulesAt n) (l :: r :: rest) (l :: r :: rest) =
      some ((integerExpr l.text, .closed), r :: rest) := by
    simp [bareOperand, peek_cons hextra, hl, lexeme_cons hextra]
  have hends : Ends operandLevel r := Ends.of_closer (by decide) hr operandLevel
  refine ⟨integerExpr l.text, ?_⟩
  show expressionRule (rulesAt n) operandLevel _ = _
  exact expressionRule_of_reads (significant_cons hextra)
    ⟨_, r :: rest, 0, operand_of_reads hends (by decide) (.bare hbare), by omega, fun _ => rfl⟩
    hends

/-- The directive for strict types is read. -/
theorem statementAt_strictTokens {n : Nat} {lead : String}
    (hls : ls.map Lexeme.token = strictTokens lead) :
    statementAt (n + 3) (ls ++ rest) = some (.declareDirective, rest) := by
  obtain ⟨l, ls₁, rfl, hl, htext, hls₁⟩ := exists_of_word hls
  obtain ⟨left, ls₂, rfl, hleft, hls₂⟩ := exists_of_sym hls₁
  obtain ⟨name, ls₃, rfl, hname, -, hls₃⟩ := exists_of_word hls₂
  obtain ⟨sign, ls₄, rfl, hsign, hls₄⟩ := exists_of_sym hls₃
  obtain ⟨one, ls₅, rfl, htoken, hls₅⟩ := List.map_eq_cons_iff.1 hls₄
  obtain ⟨right, ls₆, rfl, hright, hls₆⟩ := exists_of_sym hls₅
  obtain ⟨r, rfl, hr⟩ := exists_of_sym_single hls₆
  have hextra := isExtra_of_kind (.inl hl)
  have hextra' := isExtra_of_isSymbol hr
  have hfold : Text.foldAscii "declare" = "declare" := by decide
  have hlabel : left.isSymbol ":" = false := isSymbol_of_isSymbol hleft (by decide)
  have hcolon : r.isSymbol ":" = false := isSymbol_of_isSymbol hr (by decide)
  have hblock : r.isSymbol "\x7b" = false := isSymbol_of_isSymbol hr (by decide)
  have hword : r.kind ≠ .word := by
    simp only [Lexeme.isSymbol, Bool.and_eq_true, beq_iff_eq] at hr
    simp [hr]
  have hdeclare : l.isWord "declare" = true := by
    rw [isWord_of_kind hl, htext]
    decide
  obtain ⟨e, hone⟩ : ∃ e, (rulesAt (n + 2)).expression operandLevel (one :: right :: r :: rest) =
      some (e, right :: r :: rest) := expressionAt_one (congrArg Token.kind htoken) hright
  have hbody : (rulesAt (n + 2)).statement (r :: rest) = some (.other, rest) := by
    show statementRule (rulesAt (n + 1)) _ = _
    simp [statementRule, peek_cons hextra', hword, hblock, hr, symbol_cons hr]
  have htail : wordStatement? (rulesAt (n + 2)) l = some (declareTail (rulesAt (n + 2))) := by
    rw [wordStatement?, htext, hfold]
    rfl
  have hread : declareTail (rulesAt (n + 2))
      (left :: name :: sign :: one :: right :: r :: rest) =
        some ((), rest) := by
    simp [declareTail, symbol_cons hleft, anyWord_cons hname, symbol_cons hsign, hone,
      symbol_cons hright, body, symbol?_cons_of_not hextra' hcolon, hbody]
  show statementRule (rulesAt (n + 2)) _ = _
  simp [statementRule, peek_cons hextra, hl, startingWithWord,
    aheadSecond_cons hextra (isExtra_of_isSymbol hleft), hlabel, htail, anyWord_cons hl, hread,
    hdeclare]

/-- A path starts with a word. -/
theorem exists_of_pathTokens {lead name : String} (h : isPath name = true)
    (hls : ls.map Lexeme.token = pathTokens lead name) :
    ∃ l ls', ls = l :: ls' ∧ l.kind = .word ∧ isFreeName l.text = true := by
  rw [pathTokens] at hls
  obtain ⟨s, segments, hsplit⟩ := List.exists_cons_of_ne_nil (splitOn_ne_nil '\\' name)
  rw [hsplit] at hls
  obtain ⟨l, ls', rfl, hl, rfl, -⟩ := exists_of_word hls
  refine ⟨l, ls', rfl, hl, List.all_eq_true.1 h _ ?_⟩
  rw [hsplit]
  exact List.mem_cons_self

variable (rest) in
theorem qualifiedName_pathTokens {lead name : String}
    (hls : ls.map Lexeme.token = pathTokens lead name) (hr : r.isExtra = false)
    (hs : r.isSymbol "\\" = false) :
    qualifiedName (ls ++ r :: rest) = some (name, r :: rest) := by
  have hread := qualifiedName_nameTokens rest (splitOn_ne_nil '\\' name) hls hr hs
  rwa [nameOf_splitOn] at hread

/-- A free name is no reserved word. -/
theorem isWord_of_isFreeName {w : String} (hk : l.kind = .word) (h : isFreeName l.text = true)
    (hw : w ∈ reservedWords) : l.isWord w = false := by
  rw [isWord_of_kind hk, beq_eq_false_iff_ne]
  rintro rfl
  rw [isFreeName, Bool.and_eq_true, Bool.not_eq_true'] at h
  simp [hw] at h

/-- A namespace is read. -/
theorem statementAt_namespaceTokens {n : Nat} {lead name : String} (h : isPath name = true)
    (hls : ls.map Lexeme.token = sectionTokens (lead, .namespaceName name)) :
    statementAt (n + 1) (ls ++ rest) = some (.namespaceDecl (some name) false, rest) := by
  obtain ⟨l, ls₁, rfl, hl, htext, hls₁⟩ := exists_of_word hls
  obtain ⟨lsn, r, rfl, hlsn, hr⟩ := exists_of_semicolon hls₁
  obtain ⟨first, others, rfl, hfirst, hfree⟩ := exists_of_pathTokens h hlsn
  have hextra := isExtra_of_kind (.inl hl)
  have hextra' := isExtra_of_isSymbol hr
  have hfirstExtra := isExtra_of_kind (.inl hfirst)
  have hfold : Text.foldAscii "namespace" = "namespace" := by decide
  have hlabel : first.isSymbol ":" = false := by simp [Lexeme.isSymbol, hfirst]
  have hbrace : first.isSymbol "\x7b" = false := by simp [Lexeme.isSymbol, hfirst]
  have hblock : r.isSymbol "\x7b" = false := isSymbol_of_isSymbol hr (by decide)
  have hword : ∀ w, l.isWord w = ("namespace" == w) := fun w => by
    rw [isWord_of_kind hl, htext, hfold]
  have hname : qualifiedName (first :: (others ++ r :: rest)) = some (name, r :: rest) := by
    rw [← List.cons_append]
    exact qualifiedName_pathTokens _ hlsn hextra' (isSymbol_of_isSymbol hr (by decide))
  have htail : wordStatement? (rulesAt n) l = none := by
    rw [wordStatement?, htext, hfold]
    rfl
  have hread : namespaceDecl (rulesAt n) (l :: first :: (others ++ r :: rest)) =
      some (.namespaceDecl (some name) false, rest) := by
    simp [namespaceDecl, word_cons (hword "namespace"), ahead_cons hfirstExtra, hbrace, hname,
      ahead_cons hextra', hblock, statementEnd_cons hr]
  have hor : ∀ q : Parse Construct, (namespaceDecl (rulesAt n) <|> q)
      (l :: first :: (others ++ r :: rest)) = some (.namespaceDecl (some name) false, rest) := by
    intro q
    show (namespaceDecl (rulesAt n) _).orElse _ = _
    rw [hread]
    rfl
  show statementRule (rulesAt n) _ = _
  simp [statementRule, peek_cons hextra, hl, startingWithWord,
    aheadSecond_cons hextra hfirstExtra, hlabel, htail, word?_cons_of_not hextra, hword, hor]

/-- An import is read. -/
theorem statementAt_importTokens {n : Nat} {lead : String} {i : Import} (h : PlainImport i)
    (hls : ls.map Lexeme.token = importTokens lead i) :
    statementAt (n + 1) (ls ++ rest) = some (.importDecl, rest) := by
  obtain ⟨l, ls₁, rfl, hl, htext, hls₁⟩ := exists_of_word hls
  obtain ⟨lsn, ls₂, rfl, hlsn, hls₂⟩ := List.map_eq_append_iff.1 hls₁
  obtain ⟨lsr, r, rfl, hlsr, hr⟩ := exists_of_semicolon hls₂
  obtain ⟨first, others, rfl, hfirst, hfree⟩ := exists_of_pathTokens h.name hlsn
  have hextra := isExtra_of_kind (.inl hl)
  have hextra' := isExtra_of_isSymbol hr
  have hfirstExtra := isExtra_of_kind (.inl hfirst)
  have hfold : Text.foldAscii "use" = "use" := by decide
  have hlabel : first.isSymbol ":" = false := by simp [Lexeme.isSymbol, hfirst]
  have hword : ∀ w, l.isWord w = ("use" == w) := fun w => by rw [isWord_of_kind hl, htext, hfold]
  have hkeyword : isOneOf ["function", "const"] first = false := by
    simp [isOneOf, isWord_of_isFreeName hfirst hfree (w := "function") (by decide),
      isWord_of_isFreeName hfirst hfree (w := "const") (by decide)]
  have hsecond : ∀ ms, importClause (first :: (others ++ ms)) = (do
      discard qualifiedName
      if ← word? "as" then discard anyWord) (first :: (others ++ ms)) := by
    intro ms
    have hahead : ∀ p, ∃ b, aheadSecond p (first :: (others ++ ms)) =
        some (b, first :: (others ++ ms)) := fun p => ⟨_, rfl⟩
    obtain ⟨b, hb⟩ := hahead startsName
    obtain ⟨b', hb'⟩ := hahead fun l => l.isWord "as" || l.isSymbol "\\"
    simp [importClause, ahead_cons hfirstExtra, hkeyword, hb, hb']
  have hclause : importClause (first :: (others ++ (lsr ++ r :: rest))) = some ((), r :: rest) := by
    rw [hsecond]
    cases hrename : i.rename with
    | none =>
      rw [hrename, List.map_eq_nil_iff] at hlsr
      subst hlsr
      have hname := qualifiedName_pathTokens rest hlsn hextra'
        (isSymbol_of_isSymbol hr (by decide))
      have has : r.isWord "as" = false := by
        simp only [Lexeme.isSymbol, Bool.and_eq_true, beq_iff_eq] at hr
        simp [Lexeme.isWord, hr]
      rw [List.cons_append] at hname
      simp [hname, word?_cons_of_not hextra' has]
    | some rename =>
      rw [hrename] at hlsr
      obtain ⟨as, ls₃, rfl, has, hasText, hls₃⟩ := exists_of_word hlsr
      obtain ⟨l', ls₄, rfl, hl', -, hnil⟩ := exists_of_word hls₃
      rw [List.map_eq_nil_iff] at hnil
      subst hnil
      have hname := qualifiedName_pathTokens (l' :: r :: rest) hlsn
        (isExtra_of_kind (.inl has)) (by simp [Lexeme.isSymbol, has])
      have hasWord : as.isWord "as" = true := by
        rw [isWord_of_kind has, hasText]
        decide
      rw [List.cons_append] at hname
      simp [hname, word?_cons hasWord, anyWord_cons hl']
  have hgroup : r.isSymbol "\\" = false := isSymbol_of_isSymbol hr (by decide)
  have hcomma : r.isSymbol "," = false := isSymbol_of_isSymbol hr (by decide)
  have hread : importDecl (l :: first :: (others ++ (lsr ++ r :: rest))) =
      some (.importDecl, rest) := by
    rw [importDecl, bind_apply, word_cons (hword "use"), Option.bind_some, bind_apply,
      discard_apply, commas_single rest (a := ()) (r := r) ?_ hextra' hcomma]
    · simp [statementEnd_cons hr]
    · simp [hclause, symbol?_cons_of_not hextra' hgroup]
  have htail : wordStatement? (rulesAt n) l = none := by
    rw [wordStatement?, htext, hfold]
    rfl
  show statementRule (rulesAt n) _ = _
  simp [statementRule, peek_cons hextra, hl, startingWithWord,
    aheadSecond_cons hextra hfirstExtra, hlabel, htail, word?_cons_of_not hextra, hword, hread]

/-- A section starts with a word. -/
theorem head_sectionTokens (s : String × Section) :
    ∃ t ts, sectionTokens s = t :: ts ∧ startsOperand t = true := by
  obtain ⟨lead, s⟩ := s
  cases s <;> exact ⟨_, _, rfl, rfl⟩

/-- A section is read, whatever stands behind it. -/
theorem anyStatement_sectionTokens {s : String × Section} (h : PlainSection s.2)
    (hls : ls.map Lexeme.token = sectionTokens s) :
    ∃ c, anyStatement (ls ++ rest) = some (c, rest) ∧ SectionReadAs s.2 c := by
  obtain ⟨lead, s⟩ := s
  have hne : 0 < ls.length := by
    obtain ⟨t, ts, htokens, -⟩ := head_sectionTokens (lead, s)
    have hlength := congrArg List.length (hls.trans htokens)
    rw [List.length_map, List.length_cons] at hlength
    omega
  -- The bound on the depth is above what any section needs.
  obtain ⟨n, hn, hbound⟩ : ∃ n, 2 * (ls ++ rest).length + 2 = n + 3 ∧ ls.length ≤ n :=
    ⟨2 * (ls ++ rest).length - 1, by rw [List.length_append]; omega,
      by rw [List.length_append]; omega⟩
  show ∃ c, statementAt (2 * (ls ++ rest).length + 2) (ls ++ rest) = some (c, rest) ∧ _
  rw [hn]
  cases h with
  | strictTypes => exact ⟨_, statementAt_strictTokens hls, rfl⟩
  | namespaceName h => exact ⟨_, statementAt_namespaceTokens h hls, rfl⟩
  | importOne h => exact ⟨_, statementAt_importTokens h hls, rfl⟩
  | classOne h =>
    obtain ⟨c', hread, hc⟩ := statementAt_classTokens h hls hbound
    exact ⟨_, hread, c', rfl, hc⟩

/-! ### Trees -/

/-- The tree with one more section. -/
def withSection (t : SourceTree) : Section → SourceTree
  | .strictTypes => { t with strictTypes := true }
  | .namespaceName name => { t with namespaceName := some name }
  | .importOne i => { t with imports := t.imports ++ [i] }
  | .classOne c => t.withItem (.classItem c)

/-- The text of a section from its tokens. -/
theorem sourceText_sectionTokens {s : String × Section} (h : PlainSection s.2)
    (hls : ls.map Lexeme.token = sectionTokens s) : sourceText ls = sectionText s.2 := by
  obtain ⟨lead, s⟩ := s
  obtain ⟨t, ts, htokens, -⟩ := head_sectionTokens (lead, s)
  have hlead : ∀ lead', ∃ t', sectionTokens (lead', s) = t' :: ts ∧ t'.lead = lead' ∧
      t'.text = t.text := by
    intro lead'
    have hts := htokens
    cases s <;> (obtain ⟨rfl, rfl⟩ := List.cons.inj hts; exact ⟨_, rfl, rfl, rfl⟩)
  obtain ⟨t', htokens', hempty, htext⟩ := hlead ""
  have hwritten := written_sectionTokens h ""
  rw [htokens', written_cons, hempty, htext] at hwritten
  obtain ⟨l, ls', rfl, rfl, hrest⟩ := List.map_eq_cons_iff.1 (hls.trans htokens)
  rw [sourceText, ← written_map_token, hrest]
  simpa [Lexeme.token] using hwritten

/-- A part that is read of a section other than the class adds the section. -/
theorem withPart?_section {s : String × Section} (h : PlainSection s.2)
    (hs : ∀ c, s.2 ≠ .classOne c) {c : Construct} (hls : ls.map Lexeme.token = sectionTokens s)
    (hc : SectionReadAs s.2 c) (t : SourceTree) :
    t.withPart? (.node ls c) = some (withSection t s.2) := by
  have htext := sourceText_sectionTokens h hls
  obtain ⟨lead, s⟩ := s
  cases h with
  | strictTypes =>
    obtain rfl : c = .declareDirective := hc
    have hoccurs : Text.occurs "strict_types" (sectionText .strictTypes) = true := by decide
    simp only [SourceTree.withPart?, htext, hoccurs, if_true, withSection]
  | @namespaceName name h =>
    obtain rfl : c = .namespaceDecl (some name) false := hc
    simp only [SourceTree.withPart?, Option.map_some, trimLeft_path h, withSection]
  | @importOne i h =>
    obtain rfl : c = .importDecl := hc
    have himports : importsOfText (sectionText (.importOne i)) = [i] := importsOfText_importLine h
    simp only [SourceTree.withPart?, htext, himports, withSection]
  | classOne _ => exact absurd rfl (hs _)

/-- Sections other than the class are added one after the other. -/
theorem foldlM_withPart? {ss : List (String × Section)} (h : ∀ s ∈ ss, PlainSection s.2)
    (hs : ∀ s ∈ ss, ∀ c, s.2 ≠ .classOne c) {parts : List (Part Construct)}
    (hparts : PartsOf sectionTokens (fun s c => SectionReadAs s.2 c) ss parts) (t : SourceTree) :
    parts.foldlM SourceTree.withPart? t =
      some (ss.foldl (fun t s => withSection t s.2) t) := by
  induction hparts generalizing t with
  | nil => rfl
  | cons hp hps ih =>
    obtain ⟨ls, c, rfl, hls, hc⟩ := hp
    rw [List.forall_mem_cons] at h hs
    rw [List.foldlM_cons, withPart?_section h.1 hs.1 hls hc]
    exact ih h.2 hs.2 _

/-- The sections of a file in front of its class. -/
def headSections (t : SourceTree) : List (String × Section) :=
  (if t.strictTypes then [("\n\n", .strictTypes)] else []) ++
    (t.namespaceName.map fun n => ("\n\n", .namespaceName n)).toList ++ importSections t.imports

theorem map_importSections (is : List Import) :
    (importSections is).map Prod.snd = is.map .importOne := by
  cases is <;> simp [importSections]

theorem ne_classOne_of_mem {t : SourceTree} {s : String × Section} (h : s ∈ headSections t)
    (c : ClassDecl) : s.2 ≠ .classOne c := by
  rintro hs
  simp only [headSections, List.mem_append, Option.mem_toList, Option.map_eq_some_iff] at h
  rcases h with (h | ⟨n, -, rfl⟩) | h
  · split at h
    · rw [List.mem_singleton.1 h] at hs
      cases hs
    · cases h
  · cases hs
  · have hmem := List.mem_map_of_mem (f := Prod.snd) h
    rw [map_importSections, hs] at hmem
    obtain ⟨i, -, hi⟩ := List.mem_map.1 hmem
    cases hi

theorem foldl_imports {ss : List (String × Section)} {is : List Import}
    (h : ss.map Prod.snd = is.map .importOne) (t : SourceTree) :
    ss.foldl (fun t s => withSection t s.2) t = { t with imports := t.imports ++ is } := by
  induction is generalizing ss t with
  | nil =>
    rw [List.map_nil, List.map_eq_nil_iff] at h
    simp [h]
  | cons i is ih =>
    obtain ⟨s, ss, rfl, hs, hss⟩ := List.map_eq_cons_iff.1 h
    rw [List.foldl_cons, ih hss, hs]
    simp [withSection]

theorem foldl_headSections (t : SourceTree) :
    (headSections t).foldl (fun t s => withSection t s.2) .empty =
      ⟨t.strictTypes, [], t.namespaceName, t.imports, []⟩ := by
  rw [headSections, List.foldl_append, List.foldl_append,
    foldl_imports (map_importSections t.imports)]
  cases t.strictTypes <;> cases t.namespaceName <;> rfl

/-- How a file is read back: with the same head, and its class as that is read back. -/
def TreeReadAs (t t' : SourceTree) : Prop :=
  ∃ c c', t.items = [.classItem c] ∧ t' = { t with items := [.classItem c'] } ∧ ClassReadAs c c'

/-- A file is read back from its tokens. -/
theorem treeOf_fileTokens {t : SourceTree} (h : PlainTree t) {tag : Lexeme}
    (htag : tag.kind = .openTag) (hls : ls.map Lexeme.token = fileTokens t) :
    ∃ parts t', SourceTree.fileParts? (tag :: ls) = some parts ∧
      parts.foldlM SourceTree.withPart? .empty = some t' ∧ TreeReadAs t t' := by
  obtain ⟨c, ht, hc⟩ := h.eq
  have hplain := plain_fileSections h
  have hlength : (fileSections t).length ≤ ((fileSections t).flatMap sectionTokens).length :=
    length_flatMap_ge fun s _ => head_sectionTokens s
  rw [← fileTokens, ← hls, List.length_map] at hlength
  obtain ⟨parts, hparts, hsections⟩ : ∃ parts,
      partsUntil Option.isNone anyStatement (ls.length + 1) ls = some (parts, []) ∧
        PartsOf sectionTokens (fun s c => SectionReadAs s.2 c) (fileSections t) parts := by
    have hread : ∃ parts,
        partsUntil Option.isNone anyStatement (ls.length + 1) (ls ++ []) = some (parts, []) ∧
          PartsOf sectionTokens (fun s c => SectionReadAs s.2 c) (fileSections t) parts :=
      partsUntil_tokens (fun s _ => head_sectionTokens s)
        (fun s hs _ _ hls _ => anyStatement_sectionTokens (hplain s hs).2 hls) (fun _ _ => rfl)
        (fun _ => rfl) hls (Nat.le_refl _) (Nat.lt_succ_of_le hlength)
    rwa [List.append_nil] at hread
  have hpage : (tag.kind == LexemeKind.page) = false := by rw [htag]; rfl
  have hopen : (tag.kind == LexemeKind.openTag) = true := by rw [htag]; rfl
  have hcode : ls.dropWhile (fun l => l.kind == LexemeKind.openTag) = ls := by
    cases ls with
    | nil => rfl
    | cons l ls =>
      have hfirst : l.kind = .word := by
        rw [fileTokens] at hls
        cases hsecs : fileSections t with
        | nil => rw [hsecs] at hls; cases hls
        | cons s ss =>
          rw [hsecs, List.flatMap_cons] at hls
          obtain ⟨lead, s⟩ := s
          cases s <;> exact congrArg Token.kind (List.cons.inj hls).1
      rw [List.dropWhile_cons, hfirst]
      rfl
  have hfile : SourceTree.fileParts? (tag :: ls) = some parts := by
    have hspan : (tag :: ls).span (fun l => l.kind == LexemeKind.page) = ([], tag :: ls) := by
      rw [List.span_eq_takeWhile_dropWhile, List.takeWhile_cons, List.dropWhile_cons, hpage]
      rfl
    simp only [SourceTree.fileParts?, hspan, List.dropWhile_cons, hopen, if_true, hcode, hparts,
      Option.map_some, List.map_nil, List.nil_append]
  -- The class is the last section.
  have hsplit : fileSections t = headSections t ++ [("\n\n", .classOne c)] := by
    have hclasses : t.classes = [c] := by
      rw [ht]
      rfl
    rw [fileSections, hclasses]
    rfl
  rw [hsplit] at hsections hplain
  have hflip := hsections.flip
  have hhead := (List.forall₂_take_append _ _ _ hflip).flip
  have hlast := (List.forall₂_drop_append _ _ _ hflip).flip
  obtain ⟨p, last, ⟨lsc, construct, rfl, -, c', rfl, hread⟩, hnil, hdrop⟩ :=
    List.forall₂_cons_left_iff.1 hlast
  rw [List.forall₂_nil_left_iff.1 hnil] at hdrop
  refine ⟨parts, { t with items := [.classItem c'] }, hfile, ?_, c, c', by rw [ht], rfl, hread⟩
  have hfold := foldlM_withPart? (fun s hs => (hplain s (List.mem_append_left _ hs)).2)
    (fun s hs c => ne_classOne_of_mem hs c) hhead .empty
  rw [foldl_headSections] at hfold
  rw [← List.take_append_drop (headSections t).length parts, hdrop, List.foldlM_append, hfold, ht]
  rfl

end Grammar

end DomainScaffold.Php
