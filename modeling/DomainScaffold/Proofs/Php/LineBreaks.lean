import DomainScaffold.Proofs.Php.Files

/-!
# Line breaks in strings

A file is read with every line break of two characters as one. In generated code such line breaks
only stand in strings, so a printed tree is read as the print of the tree whose strings have their
line breaks joined.

Results:
* `joinedBreaks_file`: joining the line breaks of a printed file joins those of its strings.
* `PlainTree.joined`: the tree with joined strings is plain again.
* `ofText_file`: a printed file is read back, with the line breaks of its strings joined.
-/

namespace DomainScaffold.Php

open Verbatim

/-! ## Joining line breaks -/

/-- Characters with every line break of two characters as one. -/
def joinBreaks : List Char → List Char
  | [] => []
  | '\r' :: '\n' :: cs => '\n' :: joinBreaks cs
  | c :: cs => c :: joinBreaks cs

/-- A text with every line break of two characters as one. -/
def joinedBreaks (s : String) : String := Text.replaceAll "\r\n" "\n" s

theorem joinBreaks_break (cs : List Char) :
    joinBreaks ('\r' :: '\n' :: cs) = '\n' :: joinBreaks cs := by
  rw [joinBreaks]

theorem joinBreaks_cons {c : Char} {cs : List Char} (h : c = '\r' → cs.head? ≠ some '\n') :
    joinBreaks (c :: cs) = c :: joinBreaks cs := by
  rw [joinBreaks]
  rintro cs' rfl rfl
  exact h rfl rfl

theorem replaceFrom_eq_joinBreaks (cs : List Char) :
    Text.replaceFrom ['\r', '\n'] ['\n'] 0 cs = joinBreaks cs := by
  induction cs using joinBreaks.induct with
  | case1 => rfl
  | case2 cs ih =>
    rw [joinBreaks, ← ih]
    rfl
  | case3 c cs hbreak ih =>
    have hstart : ['\r', '\n'].isPrefixOf (c :: cs) = false := by
      rw [Bool.eq_false_iff, ne_eq, List.isPrefixOf_iff_prefix]
      rintro ⟨rest, hrest⟩
      obtain ⟨rfl, hcs⟩ := List.cons.inj hrest
      exact hbreak rest rfl hcs.symm
    rw [joinBreaks, Text.replaceFrom, ih]
    · simp [hstart]
    · exact hbreak

theorem toList_joinedBreaks (s : String) : (joinedBreaks s).toList = joinBreaks s.toList := by
  rw [joinedBreaks, Text.replaceAll, String.toList_ofList]
  exact replaceFrom_eq_joinBreaks s.toList

theorem joinBreaks_append {as bs : List Char}
    (h : as.getLast? = some '\r' → bs.head? ≠ some '\n') :
    joinBreaks (as ++ bs) = joinBreaks as ++ joinBreaks bs := by
  induction as using joinBreaks.induct with
  | case1 => rfl
  | case2 cs ih =>
    have hlast : cs.getLast? = some '\r' → bs.head? ≠ some '\n' := fun hcs =>
      h (by rw [List.getLast?_cons, List.getLast?_cons, hcs]; rfl)
    simp only [List.cons_append, joinBreaks_break, ih hlast]
  | case3 c cs hbreak ih =>
    have hcons : joinBreaks (c :: (cs ++ bs)) = c :: joinBreaks (cs ++ bs) := by
      refine joinBreaks_cons ?_
      rintro rfl
      cases cs with
      | nil => exact h rfl
      | cons d cs =>
        rintro ⟨rfl⟩
        exact hbreak cs rfl rfl
    have hlast : cs.getLast? = some '\r' → bs.head? ≠ some '\n' := fun hcs =>
      h (by rw [List.getLast?_cons, hcs]; rfl)
    rw [List.cons_append, hcons, ih hlast, joinBreaks, List.cons_append]
    exact hbreak

theorem joinBreaks_of_not_infix {cs : List Char} (h : ¬['\r', '\n'] <:+: cs) :
    joinBreaks cs = cs := by
  induction cs using joinBreaks.induct with
  | case1 => rfl
  | case2 cs => exact absurd ⟨[], cs, rfl⟩ h
  | case3 c cs hbreak ih =>
    have hrest : ¬['\r', '\n'] <:+: cs := fun hcs => h (hcs.trans (List.suffix_cons c cs).isInfix)
    rw [joinBreaks, ih hrest]
    exact hbreak

theorem joinedBreaks_of_not_infix {s : String} (h : ¬['\r', '\n'] <:+: s.toList) :
    joinedBreaks s = s := by
  rw [← String.toList_inj, toList_joinedBreaks, joinBreaks_of_not_infix h]

theorem joinBreaks_eq_self {cs : List Char} (h : ∀ c ∈ cs, c ≠ '\r') : joinBreaks cs = cs :=
  joinBreaks_of_not_infix fun hbreak => h _ (hbreak.subset List.mem_cons_self) rfl

/-- Line breaks are joined inside quotation marks as they are outside of them. -/
theorem joinBreaks_quoteChars (cs : List Char) :
    joinBreaks (quoteChars cs) = quoteChars (joinBreaks cs) := by
  have hcons : ∀ c cs, quoteChars (c :: cs) = quoteChar c ++ quoteChars cs := fun _ _ => rfl
  induction cs using joinBreaks.induct with
  | case1 => rfl
  | case2 cs ih =>
    have hbreak : ∀ cs, quoteChars ('\r' :: '\n' :: cs) = '\r' :: '\n' :: quoteChars cs :=
      fun _ => rfl
    rw [hbreak, joinBreaks_break, joinBreaks_break, ih]
    rfl
  | case3 c cs hbreak ih =>
    rw [joinBreaks, hcons, hcons, ← ih]
    · by_cases hc : c = '\\' ∨ c = '\''
      · rw [quoteChar, if_pos hc]
        have hreturn : c ≠ '\r' := by
          rintro rfl
          revert hc
          decide
        have hslash : '\\' ≠ '\r' := by decide
        rw [List.cons_append, List.singleton_append, joinBreaks_cons fun h => absurd h hslash,
          joinBreaks_cons fun h => absurd h hreturn]
        rfl
      · rw [quoteChar, if_neg hc, List.singleton_append, List.singleton_append]
        refine joinBreaks_cons ?_
        rintro rfl
        -- What stands behind the character is the quoted start of what stood there before.
        cases cs with
        | nil =>
          intro hd
          cases hd
        | cons d cs =>
          intro hd
          have hnot : d ≠ '\n' := fun h => hbreak cs rfl (by rw [h])
          rw [hcons, quoteChar] at hd
          split at hd
          · cases hd
          · exact hnot (Option.some.inj hd)
    · exact hbreak

/-! ## Texts that are read as others -/

/-- A text is read as another one, whatever text stands behind it. -/
def Becomes (s s' : String) : Prop :=
  joinBreaks s.toList = s'.toList ∧ s.toList.getLast? ≠ some '\r'

namespace Becomes

theorem append {a a' b b' : String} (ha : Becomes a a') (hb : Becomes b b') :
    Becomes (a ++ b) (a' ++ b') := by
  refine ⟨?_, ?_⟩
  · rw [String.toList_append, String.toList_append, joinBreaks_append fun h => absurd h ha.2,
      ha.1, hb.1]
  · rw [String.toList_append, List.getLast?_append]
    have hlast := hb.2
    cases h : b.toList.getLast? with
    | none => exact ha.2
    | some c => rwa [h] at hlast

theorem self {s : String} (h : ∀ c ∈ s.toList, c ≠ '\r') : Becomes s s :=
  ⟨joinBreaks_eq_self h, fun hlast => h _ (List.mem_of_getLast? hlast) rfl⟩

theorem literal {s : String} (h : s.toList.all (· != '\r') = true) : Becomes s s :=
  .self fun c hc => bne_iff_ne.1 (List.all_eq_true.1 h c hc)

theorem empty : Becomes "" "" := .literal (by decide)

theorem name {s : String} (h : isName s = true) : Becomes s s := by
  refine .self fun c hc => ?_
  rintro rfl
  exact absurd (isNamePart_of_isName h _ hc) (by decide)

theorem identifier {s : String} (h : isIdentifier s = true) : Becomes s s :=
  .name (isName_of_isIdentifier h)

theorem integer (n : Nat) : Becomes (Decimal.integer n) (Decimal.integer n) := by
  refine .self fun c hc => ?_
  rw [toList_integer] at hc
  rintro rfl
  exact absurd (isDigit_toDigits n _ hc) (by decide)

theorem path {s : String} (h : isPath s = true) : Becomes s s := by
  refine .self fun c hc => ?_
  rintro rfl
  rcases chars_path h hc with h | ⟨h, -⟩
  · cases h
  · revert h
    decide

theorem freeName {s : String} (h : isFreeName s = true) : Becomes s s :=
  .identifier (isIdentifier_of_isFreeName h)

theorem typeHint {s : String} (h : TypeHint s) : Becomes s s := by
  cases h with
  | name _ hname => exact .identifier (isIdentifier_of_isTypeName hname)
  | orNull hname =>
    exact (Becomes.literal (by decide)).append (.identifier (isIdentifier_of_isTypeName hname))

theorem indent (level : Nat) : Becomes (Verbatim.indent level) (Verbatim.indent level) := by
  refine .self fun c hc => ?_
  rw [Verbatim.indent, Text.repeated, String.toList_ofList] at hc
  rw [List.eq_of_mem_replicate hc]
  decide

theorem quote (value : String) : Becomes (Php.quote value) (Php.quote (joinedBreaks value)) := by
  have htext : ∀ v, (Php.quote v).toList = '\'' :: (quoteChars v.toList ++ ['\'']) := toList_quote
  have hquote : '\'' ≠ '\r' := by decide
  refine ⟨?_, ?_⟩
  · rw [htext, htext, joinBreaks_cons fun h => absurd h hquote, joinBreaks_append fun _ => by simp,
      joinBreaks_quoteChars, toList_joinedBreaks]
    rfl
  · rw [htext, ← List.cons_append, List.getLast?_append]
    simp

theorem intercalate {sep : String} (hsep : Becomes sep sep) {as bs : List String}
    (h : List.Forall₂ Becomes as bs) :
    Becomes (String.intercalate sep as) (String.intercalate sep bs) := by
  induction h with
  | nil => exact .empty
  | @cons a b as bs hab hrest ih =>
    cases hrest with
    | nil => simpa using hab
    | cons hab' hrest =>
      rw [String.intercalate_cons_cons, String.intercalate_cons_cons]
      exact (hab.append hsep).append ih

theorem nameForm {s : String} (h : NameForm s) : Becomes s s := by
  have hnames : ∀ {names : List String}, (∀ t ∈ names, isName t = true) →
      Becomes (nameOf names) (nameOf names) := fun h =>
    intercalate (.literal (by decide)) (List.forall₂_same.2 fun t ht => .name (h t ht))
  cases h with
  | relative _ h => exact hnames h
  | full h => exact (Becomes.literal (by decide)).append (hnames h)

theorem className {s : String} (h : isClassName s = true) : Becomes s s :=
  .nameForm (nameForm_of_isClassName h)

theorem commas {as bs : List String} (h : List.Forall₂ Becomes as bs) :
    Becomes (Printer.commas as) (Printer.commas bs) :=
  intercalate (.literal (by decide)) h

theorem join {as bs : List String} (h : List.Forall₂ Becomes as bs) :
    Becomes (String.join as) (String.join bs) := by
  induction h with
  | nil => exact .empty
  | cons hab hrest ih =>
    rw [String.join_cons, String.join_cons]
    exact hab.append ih

end Becomes

/-! ## Trees with joined strings -/

mutual

/-- An expression with the line breaks of its strings joined. -/
def Expr.joined : Expr → Expr
  | .text value => .text (joinedBreaks value)
  | .array items => .array (joinedItems items)
  | .call function args => .call function (joinedArgs args)
  | .methodCall object method args => .methodCall object.joined method (joinedArgs args)
  | .staticCall className method args => .staticCall className method (joinedArgs args)
  | .property object name => .property object.joined name
  | .new className args => .new className (joinedArgs args)
  | .clone value => .clone value.joined
  | .yield (some value) => .yield (some value.joined)
  | .assign target value => .assign target.joined value.joined
  | .binary left op right => .binary left.joined op right.joined
  | e => e

/-- Expressions with the line breaks of their strings joined. -/
def joinedArgs : List Expr → List Expr
  | [] => []
  | e :: es => e.joined :: joinedArgs es

/-- Array items with the line breaks of their strings joined. -/
def joinedItems : List (Option Expr × Expr) → List (Option Expr × Expr)
  | [] => []
  | (none, e) :: items => (none, e.joined) :: joinedItems items
  | (some key, e) :: items => (some key.joined, e.joined) :: joinedItems items

end

/-- A statement with the line breaks of its strings joined. -/
def StatementKind.joined : StatementKind → StatementKind
  | .expression value => .expression value.joined
  | .ret value => .ret (value.map Expr.joined)
  | .other => .other

/-- A statement that is not read from a file, with the line breaks of its strings joined. -/
def Statement.joined (s : Statement) : Statement := { s with kind := s.kind.joined }

/-- A member with the line breaks of its strings joined; the defaults of parameters are left as they
    are. -/
def MemberKind.joined : MemberKind → MemberKind
  | .constant d => .constant { d with entries := d.entries.map fun e => (e.1, e.2.joined) }
  | .property d =>
    .property { d with entries := d.entries.map fun e => (e.1, e.2.map Expr.joined) }
  | .method d => .method { d with body := d.body.map (List.map Statement.joined) }
  | k => k

/-- A member that is not read from a file, with the line breaks of its strings joined. -/
def Member.joined (m : Member) : Member := { m with kind := m.kind.joined }

/-- A class with the line breaks of its strings joined. -/
def ClassDecl.joined (c : ClassDecl) : ClassDecl := { c with members := c.members.map Member.joined }

/-- A file with the line breaks of its strings joined. -/
def SourceTree.joined (t : SourceTree) : SourceTree :=
  { t with items := t.items.map fun
      | .classItem c => .classItem c.joined
      | item => item }

/-! ### Plain trees -/

@[simp] theorem Expr.isObject_joined (e : Expr) : e.joined.isObject = e.isObject := by
  cases e with
  | yield value => cases value <;> rfl
  | _ => rfl

@[simp] theorem Expr.level_joined (e : Expr) : e.joined.level = e.level := by
  cases e with
  | yield value => cases value <;> rfl
  | _ => rfl

@[simp] theorem Expr.chainLength_joined (e : Expr) :
    Printer.chainLength e.joined = Printer.chainLength e := by
  fun_induction Printer.chainLength e with
  | case1 object method args ih => rw [joined, Printer.chainLength, ih]
  | case2 e hnot =>
    cases e with
    | methodCall object method args => exact absurd rfl (hnot object method args)
    | yield value => cases value <;> rfl
    | _ => rfl

@[simp] theorem isEmpty_joinedItems (items : List (Option Expr × Expr)) :
    (joinedItems items).isEmpty = items.isEmpty := by
  rcases items with _ | ⟨⟨_ | key, e⟩, items⟩ <;> rfl

@[simp] theorem all_isNone_joinedItems (items : List (Option Expr × Expr)) :
    ((joinedItems items).all fun item => item.1.isNone) = items.all fun item => item.1.isNone := by
  induction items with
  | nil => rfl
  | cons item items ih =>
    rcases item with ⟨_ | key, e⟩ <;> simp [joinedItems, ih]

mutual

theorem isPlain_joined : ∀ e : Expr, isPlain e.joined = isPlain e
  | .array items => by simp [Expr.joined, isPlain, arePlainItems_joined items]
  | .call _ args => by simp [Expr.joined, isPlain, arePlain_joined args]
  | .methodCall object _ args => by
    simp [Expr.joined, isPlain, isPlain_joined object, arePlain_joined args]
  | .staticCall _ _ args => by simp [Expr.joined, isPlain, arePlain_joined args]
  | .property object _ => by simp [Expr.joined, isPlain, isPlain_joined object]
  | .new _ args => by simp [Expr.joined, isPlain, arePlain_joined args]
  | .clone value => by simp [Expr.joined, isPlain, isPlain_joined value]
  | .binary left _ right => by
    simp [Expr.joined, isPlain, isPlain_joined left, isPlain_joined right]
  | .yield none | .yield (some _) => rfl
  | .var _ | .name _ | .classConst _ _ | .text _ | .int _ | .float _ | .bool _ | .null
  | .assign _ _ | .raw _ => rfl

theorem arePlain_joined : ∀ es : List Expr, arePlain (joinedArgs es) = arePlain es
  | [] => rfl
  | e :: es => by simp [joinedArgs, arePlain, isPlain_joined e, arePlain_joined es]

theorem arePlainItems_joined :
    ∀ items : List (Option Expr × Expr), arePlainItems (joinedItems items) = arePlainItems items
  | [] => rfl
  | (none, e) :: items => by
    simp [joinedItems, arePlainItems, isPlain_joined e, arePlainItems_joined items]
  | (some key, e) :: items => by
    simp [joinedItems, arePlainItems, isPlain_joined key, isPlain_joined e,
      arePlainItems_joined items]

end

theorem startsWithVariable_joined (e : Expr) :
    startsWithVariable e.joined = startsWithVariable e := by
  fun_induction startsWithVariable e with
  | case1 _ => rfl
  | case2 object _ _ ih => rw [Expr.joined, startsWithVariable, ih]
  | case3 object _ ih => rw [Expr.joined, startsWithVariable, ih]
  | case4 left _ _ ih => rw [Expr.joined, startsWithVariable, ih]
  | case5 e hvar hcall hproperty hbinary =>
    cases e with
    | var name => exact absurd rfl (hvar name)
    | methodCall object method args => exact absurd rfl (hcall object method args)
    | property object name => exact absurd rfl (hproperty object name)
    | binary left op right => exact absurd rfl (hbinary left op right)
    | yield value => cases value <;> rfl
    | _ => rfl

@[simp] theorem leadingName_joined (e : Expr) : leadingName e.joined = leadingName e := by
  induction e using leadingName.induct with
  | case5 object _ _ ih | case6 object _ ih | case7 object _ _ ih =>
    rw [Expr.joined, leadingName, leadingName, ih]
  | case8 e =>
    cases e with
    | yield value => cases value <;> rfl
    | methodCall | property | binary => simp_all
    | _ => rfl
  | _ => rfl

theorem startsStatement_joined (e : Expr) : startsStatement e.joined = startsStatement e := by
  rw [startsStatement, startsStatement, leadingName_joined]

theorem PlainKind.joined {k : StatementKind} (h : PlainKind k) : PlainKind k.joined := by
  cases h with
  | assign hobject hstarts htarget hvalue =>
    exact .assign (by rwa [Expr.isObject_joined]) (by rwa [startsWithVariable_joined])
      (by rwa [isPlain_joined]) (by rwa [isPlain_joined])
  | @yield items hitems => exact .yield ((isPlain_joined (.array items)).trans hitems)
  | expression hstarts he =>
    exact .expression (by rwa [startsStatement_joined]) (by rwa [isPlain_joined])
  | cast => exact .cast
  | found hclass => exact .found hclass
  | ret he => exact .ret (by rwa [isPlain_joined])

theorem PlainStatement.joined {s : Statement} (h : PlainStatement s) : PlainStatement s.joined :=
  ⟨by rw [Statement.joined, h.eq_ofKind]; rfl, h.kind.joined⟩

theorem PlainMemberKind.joined {k : MemberKind} (h : PlainMemberKind k) :
    PlainMemberKind k.joined := by
  cases h with
  | traitUse hname => exact .traitUse hname
  | constant hname hvalue => exact .constant hname (by rwa [isPlain_joined])
  | property hhint hname hpreset =>
    refine .property hhint hname fun joined hjoined => ?_
    obtain ⟨e, he, rfl⟩ := Option.map_eq_some_iff.1 hjoined
    rw [isPlain_joined]
    exact hpreset e he
  | method hname hparams hreturn hbody =>
    refine .method hname hparams hreturn fun joined hjoined => ?_
    obtain ⟨s, hs, rfl⟩ := List.mem_map.1 hjoined
    exact (hbody s hs).joined

theorem PlainMember.joined {m : Member} (h : PlainMember m) : PlainMember m.joined :=
  ⟨by rw [Member.joined, h.eq_ofKind]; rfl, h.kind.joined⟩

theorem PlainClass.joined {c : ClassDecl} (h : PlainClass c) : PlainClass c.joined where
  attributes := h.attributes
  modifiers := h.modifiers
  parent := h.parent
  name := h.name
  interfaces := h.interfaces
  members joined hjoined := by
    obtain ⟨m, hm, rfl⟩ := List.mem_map.1 hjoined
    exact (h.members m hm).joined

theorem PlainTree.joined {t : SourceTree} (h : PlainTree t) : PlainTree t.joined where
  header := h.header
  namespaceName := h.namespaceName
  imports := h.imports
  items := by
    obtain ⟨c, hitems, hc⟩ := h.items
    exact ⟨c.joined, by rw [SourceTree.joined, hitems]; rfl, hc.joined⟩

/-! ## Printing -/

mutual

/-- A printed expression is read as the print of the expression with joined strings. -/
theorem becomes_exprAt (level : Nat) (broken : Bool) : ∀ e : Expr, isPlain e = true →
    Becomes (Printer.exprAt level broken e) (Printer.exprAt level broken e.joined)
  | .var s, h => (Becomes.literal (by decide)).append (.name h)
  | .name _, h => .className h
  | .classConst _ _, h => by
    rw [isPlain, Bool.and_eq_true] at h
    exact ((Becomes.className h.1).append (.literal (by decide))).append (.name h.2)
  | .text value, _ => .quote value
  | .int value, h => by
    obtain ⟨n, rfl, -⟩ := exists_of_isPlain_int h
    exact .integer n
  | .bool true, _ => .literal (s := "true") (by decide)
  | .bool false, _ => .literal (s := "false") (by decide)
  | .null, _ => .literal (s := "null") (by decide)
  | .array items, h => by
    rw [isPlain] at h
    rw [Expr.joined, Printer.exprAt, Printer.exprAt, isEmpty_joinedItems, all_isNone_joinedItems]
    split
    · exact .literal (by decide)
    · split
      · exact ((Becomes.literal (by decide)).append (.commas (becomes_valuesAt level items h))).append
          (.literal (by decide))
      · exact (((Becomes.literal (by decide)).append (becomes_entriesAt (level + 1) items h)).append
          (.indent level)).append (.literal (by decide))
  | .call _ args, h => by
    rw [isPlain, Bool.and_eq_true] at h
    exact (((Becomes.nameForm (nameForm_of_isQualified h.1)).append (.literal (by decide))).append
      (.commas (becomes_argsAt level args h.2))).append (.literal (by decide))
  | .methodCall object _ args, h => by
    simp only [isPlain, Bool.and_eq_true] at h
    obtain ⟨⟨⟨-, hobject⟩, hmethod⟩, hargs⟩ := h
    have hlink := ((Becomes.literal (s := "->") (by decide)).append (.name hmethod)).append
      (.literal (s := "(") (by decide))
    rw [Expr.joined, Printer.exprAt, Printer.exprAt, Expr.chainLength_joined]
    split
    · exact ((((((becomes_exprAt level _ object hobject).append (.literal (by decide))).append
        (.indent (level + 1))).append hlink).append
          (.commas (becomes_argsAt (level + 1) args hargs))).append (.literal (by decide)))
    · exact (((becomes_exprAt level _ object hobject).append hlink).append
        (.commas (becomes_argsAt level args hargs))).append (.literal (by decide))
  | .staticCall _ _ args, h => by
    simp only [isPlain, Bool.and_eq_true] at h
    exact (((((Becomes.className h.1.1).append (.literal (by decide))).append
      (.name h.1.2)).append (.literal (by decide))).append
        (.commas (becomes_argsAt level args h.2))).append (.literal (by decide))
  | .property object _, h => by
    simp only [isPlain, Bool.and_eq_true] at h
    exact ((becomes_exprAt level false object h.1.2).append (.literal (by decide))).append
      (.name h.2)
  | .new _ args, h => by
    rw [isPlain, Bool.and_eq_true] at h
    exact ((((Becomes.literal (by decide)).append (.className h.1)).append
      (.literal (by decide))).append (.commas (becomes_argsAt level args h.2))).append
        (.literal (by decide))
  | .clone value, h => by
    rw [isPlain, Bool.and_eq_true] at h
    exact (Becomes.literal (by decide)).append (becomes_exprAt level false value h.2)
  | .binary left op right, h => by
    simp only [isPlain, Bool.and_eq_true] at h
    obtain ⟨⟨hop, hleft⟩, hright⟩ := h
    have hoperator : Becomes op op := by
      obtain ⟨n, hn, -⟩ := (Option.any_eq_true _ _).1 hop
      rcases mem_operators (by rw [hn]; rfl) with rfl | rfl | rfl | rfl
      all_goals exact .literal (by decide)
    exact ((((becomes_exprAt level false left hleft).append (.literal (by decide))).append
      hoperator).append (.literal (by decide))).append (becomes_exprAt level false right hright)
  | .float _, h | .yield _, h | .assign _ _, h | .raw _, h => by cases h

theorem becomes_argsAt (level : Nat) : ∀ args : List Expr, arePlain args = true →
    List.Forall₂ Becomes (Printer.argsAt level args) (Printer.argsAt level (joinedArgs args))
  | [], _ => .nil
  | arg :: args, h => by
    rw [arePlain, Bool.and_eq_true] at h
    exact .cons (becomes_exprAt level false arg h.1) (becomes_argsAt level args h.2)

theorem becomes_valuesAt (level : Nat) :
    ∀ items : List (Option Expr × Expr), arePlainItems items = true →
      List.Forall₂ Becomes (Printer.valuesAt level items)
        (Printer.valuesAt level (joinedItems items))
  | [], _ => .nil
  | (none, value) :: items, h => by
    simp only [arePlainItems, Bool.and_eq_true] at h
    exact .cons (becomes_exprAt level false value h.1) (becomes_valuesAt level items h.2)
  | (some _, value) :: items, h => by
    simp only [arePlainItems, Bool.and_eq_true] at h
    exact .cons (becomes_exprAt level false value h.1.2) (becomes_valuesAt level items h.2)

theorem becomes_entriesAt (level : Nat) :
    ∀ items : List (Option Expr × Expr), arePlainItems items = true →
      Becomes (Printer.entriesAt level items) (Printer.entriesAt level (joinedItems items))
  | [], _ => .empty
  | (none, value) :: items, h => by
    simp only [arePlainItems, Bool.and_eq_true] at h
    exact (((Becomes.indent level).append (becomes_exprAt level false value h.1)).append
      (.literal (by decide))).append (becomes_entriesAt level items h.2)
  | (some key, value) :: items, h => by
    simp only [arePlainItems, Bool.and_eq_true] at h
    exact (((((Becomes.indent level).append (becomes_exprAt level false key h.1.1)).append
      (.literal (by decide))).append (becomes_exprAt level false value h.1.2)).append
        (.literal (by decide))).append (becomes_entriesAt level items h.2)

end

/-- A printed statement is read as the print of the statement with joined strings. -/
theorem becomes_statementLine (level : Nat) {s : Statement} (h : PlainStatement s) :
    Becomes (Printer.statementLine level s) (Printer.statementLine level s.joined) := by
  have hline : ∀ k, Printer.statementLine level (.ofKind k) =
      Printer.statementFields level k ++ "\n" := by
    simp [Printer.statementLine, Printer.statement, Statement.ofKind, Printer.trailingText,
      Printer.optionally]
  have hexpression : ∀ {e : Expr}, PlainKind (.expression e) →
      Becomes (Printer.exprText level e) (Printer.exprText level e.joined) := by
    intro e he
    cases he with
    | assign _ _ htarget hvalue =>
      exact ((becomes_exprAt level false _ htarget).append (.literal (by decide))).append
        (becomes_exprAt level false _ hvalue)
    | yield hitems =>
      exact (Becomes.literal (by decide)).append (becomes_exprAt level false _ hitems)
    | expression _ he => exact becomes_exprAt level false e he
  have hret : ∀ {e : Expr}, PlainKind (.ret (some e)) →
      Becomes (Printer.exprText level e) (Printer.exprText level e.joined) := by
    intro e he
    cases he with
    | cast => exact .literal (s := castText) (by decide)
    | found hclass =>
      exact ((Becomes.literal (s := foundLead) (by decide)).append (.freeName hclass)).append
        (.literal (s := foundTail) (by decide))
    | ret he => exact becomes_exprAt level false e he
  have hs : s.joined = .ofKind s.kind.joined := by
    rw [Statement.joined, h.eq_ofKind]
    rfl
  rw [hs, hline]
  rw [h.eq_ofKind, hline]
  have hkind := h.kind
  refine Becomes.append ?_ (.literal (by decide))
  show Becomes (Printer.statementFields level s.kind) _
  cases hk : s.kind with
  | other => rw [hk] at hkind; cases hkind
  | expression e =>
    rw [hk] at hkind
    exact ((Becomes.indent level).append (hexpression hkind)).append (.literal (by decide))
  | ret value =>
    rw [hk] at hkind
    cases value with
    | none => cases hkind
    | some e =>
      exact (((Becomes.indent level).append (.literal (by decide))).append (hret hkind)).append
        (.literal (by decide))

theorem becomes_param (level : Nat) {p : Param} (h : PlainParam p) :
    Becomes (Printer.param level p) (Printer.param level p) := by
  cases h with
  | @untyped name hname =>
    have hparam : Printer.param level (.untyped name) = "$" ++ name := by
      simp [Printer.param, Param.untyped, Printer.optionally, Printer.flagged]
    rw [hparam]
    exact (Becomes.literal (by decide)).append (.identifier hname)
  | @typed hint name hhint hname =>
    have hparam : Printer.param level (.typed hint name) = hint ++ " " ++ "$" ++ name := by
      simp [Printer.param, Param.typed, Param.untyped, Printer.optionally, Printer.flagged,
        Printer.spaced]
    rw [hparam]
    exact (((Becomes.typeHint hhint).append (.literal (by decide))).append
      (.literal (by decide))).append (.identifier hname)

/-- A printed member is read as the print of the member with joined strings. -/
theorem becomes_memberFields {k : MemberKind} (h : PlainMemberKind k) :
    Becomes (Printer.memberFields 1 k) (Printer.memberFields 1 k.joined) := by
  cases h with
  | @traitUse name hname =>
    have htrait : Printer.memberFields 1 (.traitUse [name]) = indent 1 ++ "use " ++ name ++ ";" := by
      simp [Printer.memberFields, Printer.commas]
    rw [MemberKind.joined, htrait]
    · exact (((Becomes.indent 1).append (.literal (by decide))).append (.freeName hname)).append
        (.literal (by decide))
    all_goals simp
  | @constant name value hname hvalue =>
    have hconstant : ∀ value, Printer.memberFields 1 (.constant (.publicOne name value)) =
        indent 1 ++ "public const " ++ name ++ " = " ++ Printer.exprAt 1 false value ++ ";" := by
      intro value
      simp [Printer.memberFields, Printer.constantDecl, ConstantDecl.publicOne, Printer.commas,
        Printer.visibilityText, Printer.optionally, Printer.spaced, Visibility.word,
        Printer.exprText, ← String.toList_inj]
    rw [hconstant]
    refine Eq.subst (motive := Becomes _) (hconstant value.joined).symm ?_
    exact (((((Becomes.indent 1).append (.literal (by decide))).append (.identifier hname)).append
      (.literal (by decide))).append (becomes_exprAt 1 false value hvalue)).append
        (.literal (by decide))
  | @property hint name preset hhint hname hpreset =>
    have hproperty : ∀ preset, Printer.memberFields 1 (.property (.privateOne hint name preset)) =
        indent 1 ++ "private " ++ Printer.optionally Printer.spaced hint ++ "$" ++ name ++
          Printer.optionally (" = " ++ ·) (preset.map (Printer.exprAt 1 false)) ++ ";" := by
      intro preset
      cases hint <;> cases preset <;>
        simp [Printer.memberFields, Printer.propertyDecl, PropertyDecl.privateOne, Printer.commas,
          Printer.propertyWords, Printer.propertyEntry, Printer.optionally, Printer.spaced,
          Visibility.word, Printer.exprText, ← String.toList_inj]
    rw [hproperty]
    refine Eq.subst (motive := Becomes _) (hproperty (preset.map Expr.joined)).symm ?_
    refine ((((((Becomes.indent 1).append (.literal (by decide))).append ?_).append
      (.literal (by decide))).append (.identifier hname)).append ?_).append (.literal (by decide))
    · cases hint with
      | none => exact .empty
      | some s => exact (Becomes.typeHint (hhint s rfl)).append (.literal (by decide))
    · cases preset with
      | none => exact .empty
      | some e =>
        exact (Becomes.literal (by decide)).append (becomes_exprAt 1 false e (hpreset e rfl))
  | @method visibility isStatic name params returnType body hname hparams hreturn hbody =>
    have hmethod : ∀ body, Printer.memberFields 1
        (.method (.plain visibility isStatic name params returnType body)) =
        indent 1 ++ visibility.word ++ " " ++ Printer.flagged isStatic "static " ++ "function " ++
          name ++ "(" ++ Printer.commas (params.map (Printer.param 1)) ++ ")" ++
          Printer.optionally (": " ++ ·) returnType ++ "\n" ++ indent 1 ++ "\x7b\n" ++
          String.join (body.map (Printer.statementLine 2)) ++ indent 1 ++ "\x7d" := by
      intro body
      simp [Printer.memberFields, Printer.methodDecl, Printer.methodHead, MethodDecl.plain,
        Printer.visibilityText, Printer.optionally, Printer.spaced, ← String.toList_inj]
      cases isStatic <;> simp [Printer.flagged]
    rw [hmethod]
    refine Eq.subst (motive := Becomes _) (hmethod (body.map Statement.joined)).symm ?_
    have hword : Becomes visibility.word visibility.word := by
      cases visibility <;> exact .literal (by decide)
    have hstatic : Becomes (Printer.flagged isStatic "static ")
        (Printer.flagged isStatic "static ") := by
      cases isStatic
      · exact .empty
      · exact .literal (s := "static ") (by decide)
    have hparameters : List.Forall₂ Becomes (params.map (Printer.param 1))
        (params.map (Printer.param 1)) := by
      rw [List.forall₂_map_left_iff, List.forall₂_map_right_iff, List.forall₂_same]
      exact fun p hp => becomes_param 1 (hparams p hp)
    have htype : Becomes (Printer.optionally (": " ++ ·) returnType)
        (Printer.optionally (": " ++ ·) returnType) := by
      cases returnType with
      | none => exact .empty
      | some s => exact (Becomes.literal (by decide)).append (.typeHint (hreturn s rfl))
    have hlines : List.Forall₂ Becomes (body.map (Printer.statementLine 2))
        ((body.map Statement.joined).map (Printer.statementLine 2)) := by
      rw [List.map_map, List.forall₂_map_left_iff, List.forall₂_map_right_iff, List.forall₂_same]
      exact fun s hs => becomes_statementLine 2 (hbody s hs)
    have hhead := (((Becomes.indent 1).append hword).append (.literal (s := " ") (by decide))).append
      hstatic
    have hname := ((hhead.append (.literal (s := "function ") (by decide))).append
      (.identifier hname)).append (.literal (s := "(") (by decide))
    have hsignature := ((hname.append (.commas hparameters)).append
      (.literal (s := ")") (by decide))).append htype
    exact ((((((hsignature.append (.literal (by decide))).append (.indent 1)).append
      (.literal (by decide))).append (.join hlines)).append (.indent 1)).append
        (.literal (by decide)))

theorem becomes_member {m : Member} (h : PlainMember m) :
    Becomes (Printer.member 1 m) (Printer.member 1 m.joined) := by
  rw [member_plain h, member_plain h.joined]
  exact becomes_memberFields h.kind

theorem separated_joined (k l : MemberKind) :
    Printer.separated k.joined l.joined = Printer.separated k l := by
  cases k <;> cases l <;> rfl

theorem becomes_membersAfter {ms : List Member} (h : ∀ m ∈ ms, PlainMember m)
    (before : MemberKind) :
    Becomes (Printer.membersAfter before ms)
      (Printer.membersAfter before.joined (ms.map Member.joined)) := by
  induction ms generalizing before with
  | nil => exact .empty
  | cons m ms ih =>
    rw [List.forall_mem_cons] at h
    rw [List.map_cons, Printer.membersAfter, Printer.membersAfter]
    have hsame : Printer.separated before.joined m.joined.kind = Printer.separated before m.kind :=
      separated_joined before m.kind
    rw [hsame]
    refine (((?_ : Becomes _ _).append (becomes_member h.1)).append (.literal (by decide))).append
      (ih h.2 m.kind)
    cases Printer.separated before m.kind
    · exact .empty
    · exact .literal (s := "\n") (by decide)

theorem becomes_members {ms : List Member} (h : ∀ m ∈ ms, PlainMember m) :
    Becomes (Printer.members ms) (Printer.members (ms.map Member.joined)) := by
  cases ms with
  | nil => exact .empty
  | cons m ms =>
    rw [List.forall_mem_cons] at h
    exact ((becomes_member h.1).append (.literal (by decide))).append
      (becomes_membersAfter h.2 m.kind)

theorem becomes_classDecl {c : ClassDecl} (h : PlainClass c) :
    Becomes (Printer.classDecl c) (Printer.classDecl c.joined) := by
  have hclass : ∀ {c}, PlainClass c → Printer.classDecl c =
      "final class " ++ c.name ++
        (if c.interfaces.isEmpty then "" else " implements " ++ Printer.commas c.interfaces) ++
        "\n\x7b\n" ++ Printer.members c.members ++ "\x7d" := by
    intro c h
    simp [Printer.classDecl, Printer.classHead, h.attributes, h.modifiers, h.parent,
      Printer.optionally, Printer.spaced]
  have hinterfaces : Becomes
      (if c.interfaces.isEmpty then "" else " implements " ++ Printer.commas c.interfaces)
      (if c.interfaces.isEmpty then "" else " implements " ++ Printer.commas c.interfaces) := by
    split
    · exact .empty
    · refine (Becomes.literal (by decide)).append (.commas ?_)
      exact List.forall₂_same.2 fun i hi => .freeName (h.interfaces i hi)
  rw [hclass h, hclass h.joined]
  exact (((((Becomes.literal (by decide)).append (.freeName h.name)).append hinterfaces).append
    (.literal (by decide))).append (becomes_members h.members)).append (.literal (by decide))

theorem becomes_importLine {i : Import} (h : PlainImport i) :
    Becomes (Printer.importLine i) (Printer.importLine i) := by
  rw [Printer.importLine, h.kind]
  refine ((((Becomes.literal (by decide)).append .empty).append (.path h.name)).append ?_).append
    (.literal (by decide))
  cases hrename : i.rename with
  | none => exact .empty
  | some rename =>
    exact (Becomes.literal (by decide)).append (.freeName (h.rename rename hrename))

/-- A printed file is read as the print of the file with joined strings. -/
theorem becomes_file {t : SourceTree} (h : PlainTree t) :
    Becomes (Printer.file t) (Printer.file t.joined) := by
  obtain ⟨c, ht, hc⟩ := h.eq
  have hitems : ∀ c, Printer.itemsFrom false [.classItem c] =
      "\n" ++ Printer.classDecl c ++ "\n" := by
    simp [Printer.itemsFrom, Printer.item]
  have hsections : List.Forall₂ Becomes (Printer.sections t) (Printer.sections t) := by
    refine List.forall₂_same.2 fun s hs => ?_
    simp only [Printer.sections, h.header, List.isEmpty_nil, if_true, List.nil_append,
      List.mem_append] at hs
    rcases hs with (hs | hs) | hs
    · split at hs
      · rw [List.mem_singleton.1 hs]
        exact .literal (by decide)
      · cases hs
    · rw [Option.mem_toList, Option.map_eq_some_iff] at hs
      obtain ⟨n, hn, rfl⟩ := hs
      exact ((Becomes.literal (by decide)).append (.path (h.namespaceName n hn))).append
        (.literal (by decide))
    · split at hs
      · cases hs
      · rw [List.mem_singleton.1 hs]
        refine Becomes.intercalate (.literal (by decide)) ?_
        rw [List.forall₂_map_left_iff, List.forall₂_map_right_iff, List.forall₂_same]
        exact fun i hi => becomes_importLine (h.imports i hi)
  have hjoined : t.joined = { t with items := [.classItem c.joined] } := by rw [ht]; rfl
  have htitems : t.items = [.classItem c] := by rw [ht]
  have hsame : Printer.sections t.joined = Printer.sections t := by rw [hjoined]; rfl
  have hjoinedItems : t.joined.items = [.classItem c.joined] := by rw [hjoined]
  rw [Printer.file, Printer.file, hsame, htitems, hjoinedItems, hitems, hitems]
  refine ((Becomes.literal (by decide)).append ?_).append
    (((Becomes.literal (by decide)).append (becomes_classDecl hc)).append (.literal (by decide)))
  split
  · exact .empty
  · exact ((Becomes.literal (by decide)).append
      (.intercalate (.literal (by decide)) hsections)).append (.literal (by decide))

/-- Joining the line breaks of a printed file joins those of its strings. -/
theorem joinedBreaks_file {t : SourceTree} (h : PlainTree t) :
    joinedBreaks (Printer.file t) = Printer.file t.joined := by
  rw [← String.toList_inj, toList_joinedBreaks]
  exact (becomes_file h).1

/-! ## Reading -/

theorem isEmpty_trim_of_cons {s : String} {c : Char} {cs : List Char} (hs : s.toList = c :: cs)
    (hc : Text.isBlank c = false) : (Text.trim s).isEmpty = false := by
  rw [Bool.eq_false_iff, ne_eq, String.isEmpty_iff, ← String.toList_inj, Text.trim,
    String.toList_ofList, Text.trimBlank, hs, List.dropWhile_cons, hc]
  simp only [Bool.false_eq_true, if_false]
  intro hnil
  rw [String.toList_empty, List.reverse_eq_nil_iff, List.dropWhile_eq_nil_iff] at hnil
  rw [hnil c (by simp)] at hc
  cases hc

/-- How a text without carriage returns is read that starts with its tag. -/
theorem ofText_of_tag {source : String} (htag : source.toList.head? = some '<')
    (hreturns : source.toList.all (· != '\r') = true) (path : String) :
    SourceTree.ofText source path =
      match (lexemes? source).bind SourceTree.fileParts? with
      | none => .error (.invalidSyntax path)
      | some parts =>
        match parts.foldlM SourceTree.withPart? .empty with
        | none => .error (.unsupportedFile path)
        | some t => .ok t := by
  have hbreaks : Text.replaceAll "\r\n" "\n" source = source := by
    rw [← String.toList_inj]
    exact (toList_joinedBreaks source).trans
      (joinBreaks_eq_self fun c hc => by simpa using List.all_eq_true.1 hreturns c hc)
  obtain ⟨cs, hchars⟩ := List.head?_eq_some_iff.1 htag
  have hfull := isEmpty_trim_of_cons hchars (by decide)
  cases hparts : (lexemes? source).bind SourceTree.fileParts? with
  | none => simp [SourceTree.ofText, hbreaks, hfull, hparts]
  | some parts =>
    cases hfold : parts.foldlM SourceTree.withPart? .empty <;>
      simp [SourceTree.ofText, hbreaks, hfull, hparts, hfold]

theorem ofText_eq_ok {source : String} {t : SourceTree} (htag : source.toList.head? = some '<')
    (hreturns : source.toList.all (· != '\r') = true)
    (hread : ((lexemes? source).bind SourceTree.fileParts?).bind
      (List.foldlM SourceTree.withPart? .empty) = some t) (path : String) :
    SourceTree.ofText source path = .ok t := by
  obtain ⟨parts, hparts, hfold⟩ := Option.bind_eq_some_iff.1 hread
  rw [ofText_of_tag htag hreturns, hparts]
  simp only [hfold]

/-- A printed file is read back, with the line breaks of its strings joined. -/
theorem ofText_file {t : SourceTree} (h : PlainTree t) (path : String) :
    ∃ t', SourceTree.ofText (Printer.file t) path = .ok t' ∧ Grammar.TreeReadAs t.joined t' := by
  have hjoined := h.joined
  have hsource : Printer.file t.joined = "<?php" ++ written (fileTokens t.joined) ++ "\n" :=
    written_fileTokens hjoined
  have hchars : (Printer.file t.joined).toList =
      "<?php".toList ++ (charsOf (fileTokens t.joined) ++ ['\n']) := by
    rw [hsource, String.toList_append, String.toList_append, toList_written, List.append_assoc]
    rfl
  have hblank : ∀ c ∈ ['\n'], Scan.isSpace c = true := List.forall_mem_singleton.2 (by decide)
  obtain ⟨tag, ls, hscan, htag, hls⟩ := file_charsOf hblank
    (separated_fileTokens hjoined (some '\n'))
  obtain ⟨parts, t', hparts, hfold, hread⟩ := Grammar.treeOf_fileTokens hjoined htag hls
  have hlexemes : lexemes? (Printer.file t.joined) = some (tag :: ls) := by
    rw [lexemes?, hchars]
    exact hscan
  have hfull : (Text.trim (Printer.file t.joined)).isEmpty = false :=
    isEmpty_trim_of_cons (hchars.trans rfl) (by decide)
  refine ⟨t', ?_, hread⟩
  have hbreaks : Text.replaceAll "\r\n" "\n" (Printer.file t) = Printer.file t.joined :=
    joinedBreaks_file h
  simp only [SourceTree.ofText, hbreaks, hfull, hlexemes, Option.bind_some, hparts, hfold,
    Bool.false_eq_true, if_false]

end DomainScaffold.Php
