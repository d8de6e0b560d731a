import DomainScaffold.Php.Printer
import DomainScaffold.Proofs.Php.Reindentation

/-!
# Indentation

What is printed depends on its depth in the spaces at the start of its lines only, and every line
that is broken shows something. So the text of one depth, captured as verbatim text, is written at
another depth as if it were printed there.

Results:
* `Layered.append`, `Layered.shift`, `layered_commas`: texts of that kind are put together.
* `Layered.write_ofSource`: such a text is moved to another depth by capturing it.
* `layered_exprAt`, `exists_layered_member`: expressions and members are printed as such texts.
* `write_ofSource_member`: a member printed from its fields agrees with its captured text.
-/

namespace DomainScaffold.Php

open Text Verbatim

variable {f g : Nat → String} {a b k : Nat} {s t w : String}

/-! ## Visible ends -/

/-- Whether the last line of a text shows something. -/
def EndsVisibly (s : String) : Prop :=
  ∃ before c line, s.toList = before ++ c :: line ∧ isBlank c = false ∧ '\n' ∉ line

/-- Whether the last line of a text shows something at every depth. -/
def Visible (f : Nat → String) : Prop := ∀ level, EndsVisibly (f level)

theorem EndsVisibly.append_left (s : String) (h : EndsVisibly t) : EndsVisibly (s ++ t) := by
  obtain ⟨before, c, line, ht, hc, hline⟩ := h
  exact ⟨s.toList ++ before, c, line, by rw [String.toList_append, ht, List.append_assoc], hc, hline⟩

theorem EndsVisibly.append_right (h : EndsVisibly s) (ht : '\n' ∉ t.toList) :
    EndsVisibly (s ++ t) := by
  obtain ⟨before, c, line, hs, hc, hline⟩ := h
  refine ⟨before, c, line ++ t.toList, ?_, hc, ?_⟩
  · rw [String.toList_append, hs, List.append_assoc, List.cons_append]
  · rw [List.mem_append, not_or]
    exact ⟨hline, ht⟩

theorem endsVisibly_of_mem {c : Char} (hs : '\n' ∉ s.toList) (hmem : c ∈ s.toList)
    (hc : isBlank c = false) : EndsVisibly s := by
  obtain ⟨before, line, hsplit⟩ := List.append_of_mem hmem
  refine ⟨before, c, line, hsplit, hc, fun hline => hs ?_⟩
  rw [hsplit]
  exact List.mem_append_right _ (List.mem_cons_of_mem _ hline)

theorem exists_visible_of_endsVisibly (h : EndsVisibly (s ++ "\n" ++ t)) :
    ∃ c ∈ t.toList, isBlank c = false := by
  obtain ⟨before, c, line, heq, hc, hline⟩ := h
  have hbreak : isBlank '\n' = true := by decide
  have hchars : s.toList ++ '\n' :: t.toList = before ++ c :: line := by
    rw [← heq, String.toList_append, String.toList_append, List.append_assoc]
    rfl
  rcases List.append_eq_append_iff.1 hchars with ⟨as, -, has⟩ | ⟨as, -, has⟩
  · cases as with
    | nil =>
      obtain ⟨rfl, -⟩ := List.cons.inj has
      rw [hbreak] at hc
      cases hc
    | cons d as =>
      obtain ⟨-, htail⟩ := List.cons.inj has
      exact ⟨c, htail ▸ List.mem_append_right _ List.mem_cons_self, hc⟩
  · cases as with
    | nil =>
      obtain ⟨rfl, -⟩ := List.cons.inj has
      rw [hbreak] at hc
      cases hc
    | cons d as =>
      obtain ⟨-, rfl⟩ := List.cons.inj has
      exact absurd (List.mem_append_right _ List.mem_cons_self) hline

/-! ## Layered texts -/

/-- A text that depends on its depth only in the spaces at the start of the lines behind its first.
    A line is only broken where it shows something. -/
inductive Layered : (Nat → String) → Prop
  | empty : Layered fun _ => ""
  | text {f : Nat → String} {s : String} :
    Layered f → '\n' ∉ s.toList → Layered fun level => f level ++ s
  | line {f : Nat → String} (k : Nat) :
    Layered f → Visible f → Layered fun level => f level ++ "\n" ++ indent (level + k)
  /-- A line behind an empty one. -/
  | gap {f : Nat → String} (k : Nat) :
    Layered f → Visible f → Layered fun level => f level ++ "\n" ++ "" ++ "\n" ++ indent (level + k)

namespace Layered

theorem congr (h : Layered f) (heq : ∀ level, g level = f level) : Layered g := by
  rwa [funext heq]

theorem ofText (h : '\n' ∉ s.toList) : Layered fun _ => s :=
  (empty.text h).congr fun _ => (String.empty_append).symm

theorem append (hf : Layered f) (hg : Layered g) : Layered fun level => f level ++ g level := by
  have hvisible : ∀ {g : Nat → String}, Visible g → Visible fun level => f level ++ g level :=
    fun hg level => (hg level).append_left _
  induction hg with
  | empty => exact hf.congr fun _ => String.append_empty
  | text _ hs ih => exact (ih.text hs).congr fun _ => String.append_assoc.symm
  | line k _ hv ih =>
    exact (ih.line k (hvisible hv)).congr fun _ => by simp only [String.append_assoc]
  | gap k _ hv ih =>
    exact (ih.gap k (hvisible hv)).congr fun _ => by simp only [String.append_assoc]

theorem shift (h : Layered f) : Layered fun level => f (level + 1) := by
  induction h with
  | empty => exact empty
  | text _ hs ih => exact ih.text hs
  | line k _ hv ih =>
    exact (ih.line (k + 1) fun level => hv (level + 1)).congr fun level => by
      rw [← Nat.add_assoc, Nat.add_right_comm]
  | gap k _ hv ih =>
    exact (ih.gap (k + 1) fun level => hv (level + 1)).congr fun level => by
      rw [← Nat.add_assoc, Nat.add_right_comm]

end Layered

/-! ## Moved lines -/

/-- Whether a line is moved by capturing it at one depth and writing it at another. -/
def Moved (a b : Nat) (l l' : String) : Prop :=
  movable (4 * a) l = true ∧ indentLine b (moveLeft (4 * a) l) = l'

theorem moved_empty (a b : Nat) : Moved a b "" "" := ⟨rfl, rfl⟩

theorem moved_indent {c : Char} (hmem : c ∈ w.toList) (hc : isBlank c = false) :
    Moved a b (indent (a + k) ++ w) (indent (b + k) ++ w) := by
  have hchars : (indent (a + k) ++ w).toList =
      List.replicate (4 * a) ' ' ++ (List.replicate (4 * k) ' ' ++ w.toList) := by
    rw [String.toList_append, toList_indent, Nat.mul_add, List.replicate_add, List.append_assoc]
  have hvisible : isBlankLine (indent (a + k) ++ w) = false := by
    rw [isBlankLine, Bool.eq_false_iff, Ne, List.all_eq_true]
    intro hall
    have hblank := hall c (by rw [String.toList_append]; exact List.mem_append_right _ hmem)
    rw [hblank] at hc
    cases hc
  have hspaces : ∀ x ∈ List.replicate (4 * a) ' ', (x == ' ' || x == '\t') = true := fun x hx => by
    rw [List.eq_of_mem_replicate hx]
    rfl
  have hmoved : moveLeft (4 * a) (indent (a + k) ++ w) =
      String.ofList (List.replicate (4 * k) ' ' ++ w.toList) := by
    rw [moveLeft, hvisible, if_neg Bool.false_ne_true, hchars, List.drop_left' (by simp)]
  constructor
  · rw [movable, hvisible, Bool.false_or, decide_eq_true_eq, indentOf, hchars,
      List.takeWhile_append_of_pos hspaces, List.length_append, List.length_replicate]
    exact Nat.le_add_right _ _
  · have hne : (String.ofList (List.replicate (4 * k) ' ' ++ w.toList)).isEmpty = false := by
      rw [Bool.eq_false_iff, Ne, String.isEmpty_iff, ← String.toList_eq_nil_iff,
        String.toList_ofList]
      exact List.append_ne_nil_of_right_ne_nil _ (List.ne_nil_of_mem hmem)
    rw [hmoved, indentLine, hne, if_neg Bool.false_ne_true, ← String.toList_inj,
      String.toList_append, String.toList_append, String.toList_ofList, toList_indent,
      toList_indent, Nat.mul_add, List.replicate_add, List.append_assoc]

/-- A text whose lines behind the first are moved is captured and written as the moved one. -/
theorem write_ofSource_of_moved {first : String} {rest rest' : List String}
    (hs : lines s = first :: rest) (ht : lines t = first :: rest')
    (h : List.Forall₂ (Moved a b) rest rest') :
    (ofSource s (4 * a)).write b = indent b ++ t := by
  have hmovable : rest.all (movable (4 * a)) = true := by
    rw [List.all_eq_true]
    clear hs ht
    induction h with
    | nil => exact nofun
    | cons hmoved _ ih => exact List.forall_mem_cons.2 ⟨hmoved.1, ih⟩
  have hrest : rest.map (indentLine b ∘ moveLeft (4 * a)) = rest' := by
    clear hs ht hmovable
    induction h with
    | nil => rfl
    | cons hmoved _ ih => rw [List.map_cons, ih, Function.comp_apply, hmoved.2]
  rw [write_ofSource_eq hs, if_pos hmovable, hrest, ← append_unlines, ← ht, unlines_lines]

/-! ## Layered texts at two depths -/

/-- The texts of two depths: one and the same line, or the same first line, lines that are moved,
    and a last line that goes on behind its indent. -/
inductive Aligned (a b : Nat) (s t : String) : Prop
  | single : s = t → '\n' ∉ s.toList → Aligned a b s t
  | many {first : String} {rest rest' : List String} {k : Nat} {w : String} :
    lines s = first :: rest ++ [indent (a + k) ++ w] →
    lines t = first :: rest' ++ [indent (b + k) ++ w] →
    List.Forall₂ (Moved a b) rest rest' → '\n' ∉ w.toList → Aligned a b s t

theorem lines_indent (level : Nat) : lines (indent level) = [indent level ++ ""] := by
  rw [lines_eq_singleton (not_break_mem_indent level), String.append_empty]

/-- The last line of a text that ends visibly is moved. -/
theorem moved_last {init : List String} (hs : lines s = init ++ [indent (a + k) ++ w])
    (hne : init ≠ []) (hv : EndsVisibly s) :
    Moved a b (indent (a + k) ++ w) (indent (b + k) ++ w) := by
  rw [← unlines_lines s, hs, unlines_concat hne] at hv
  obtain ⟨c, hmem, hc⟩ := exists_visible_of_endsVisibly hv
  refine moved_indent ?_ hc
  rw [String.toList_append, List.mem_append, toList_indent] at hmem
  refine hmem.resolve_left fun hspace => ?_
  rw [List.eq_of_mem_replicate hspace] at hc
  exact absurd hc (by decide)

theorem Aligned.text (h : Aligned a b s t) (hw : '\n' ∉ w.toList) :
    Aligned a b (s ++ w) (t ++ w) := by
  cases h with
  | single heq hbreak =>
    refine .single (heq ▸ rfl) ?_
    rw [String.toList_append, List.mem_append, not_or]
    exact ⟨hbreak, hw⟩
  | many ha hb hrest hlast =>
    have hs := lines_append ha hw
    have ht := lines_append hb hw
    rw [String.append_assoc] at hs ht
    refine .many hs ht hrest ?_
    rw [String.toList_append, List.mem_append, not_or]
    exact ⟨hlast, hw⟩

/-- Behind a visible end the lines of both texts are complete. -/
theorem Aligned.exists_lines (h : Aligned a b s t) (hs : EndsVisibly s) :
    ∃ first rest rest', lines s = first :: rest ∧ lines t = first :: rest' ∧
      List.Forall₂ (Moved a b) rest rest' := by
  cases h with
  | single heq hbreak =>
    subst heq
    exact ⟨s, [], [], lines_eq_singleton hbreak, lines_eq_singleton hbreak, .nil⟩
  | many ha hb hrest =>
    exact ⟨_, _, _, ha, hb,
      List.rel_append hrest (.cons (moved_last ha (by simp) hs) .nil)⟩

theorem Aligned.line (h : Aligned a b s t) (hs : EndsVisibly s) (k : Nat) :
    Aligned a b (s ++ "\n" ++ indent (a + k)) (t ++ "\n" ++ indent (b + k)) := by
  obtain ⟨first, rest, rest', ha, hb, hrest⟩ := h.exists_lines hs
  have ha' : lines (s ++ "\n" ++ indent (a + k)) = first :: rest ++ [indent (a + k) ++ ""] := by
    rw [lines_append_break, ha, lines_indent]
  have hb' : lines (t ++ "\n" ++ indent (b + k)) = first :: rest' ++ [indent (b + k) ++ ""] := by
    rw [lines_append_break, hb, lines_indent]
  exact .many ha' hb' hrest (by simp)

theorem Aligned.gap (h : Aligned a b s t) (hs : EndsVisibly s) (k : Nat) :
    Aligned a b (s ++ "\n" ++ "" ++ "\n" ++ indent (a + k))
      (t ++ "\n" ++ "" ++ "\n" ++ indent (b + k)) := by
  obtain ⟨first, rest, rest', ha, hb, hrest⟩ := h.exists_lines hs
  have hempty : lines "" = [""] := lines_eq_singleton (by simp)
  have ha' : lines (s ++ "\n" ++ "" ++ "\n" ++ indent (a + k)) =
      first :: (rest ++ [""]) ++ [indent (a + k) ++ ""] := by
    rw [lines_append_break, lines_append_break, ha, hempty, lines_indent]
    rfl
  have hb' : lines (t ++ "\n" ++ "" ++ "\n" ++ indent (b + k)) =
      first :: (rest' ++ [""]) ++ [indent (b + k) ++ ""] := by
    rw [lines_append_break, lines_append_break, hb, hempty, lines_indent]
    rfl
  exact .many ha' hb' (List.rel_append hrest (.cons (moved_empty a b) .nil)) (by simp)

theorem Layered.aligned (h : Layered f) (a b : Nat) : Aligned a b (f a) (f b) := by
  induction h with
  | empty => exact .single rfl (by simp)
  | text _ hs ih => exact ih.text hs
  | line k _ hv ih => exact ih.line (hv a) k
  | gap k _ hv ih => exact ih.gap (hv a) k

/-- A layered text that is captured at one depth is written at another one as the text of that. -/
theorem Layered.write_ofSource (h : Layered f) (hv : Visible f) (a b : Nat) :
    (ofSource (f a) (4 * a)).write b = indent b ++ f b := by
  obtain ⟨first, rest, rest', ha, hb, hrest⟩ := (h.aligned a b).exists_lines (hv a)
  exact write_ofSource_of_moved ha hb hrest

/-! ## The texts in a tree -/

mutual

/-- The texts that an expression is made of. -/
def Expr.leaves : Expr → List String
  | .var s | .name s | .text s | .float s | .raw s => [s]
  | .classConst className s => [className, s]
  | .int _ | .bool _ | .null => []
  | .array items => leavesOfItems items
  | .call function args => function :: leavesOfArgs args
  | .methodCall object method args => method :: (object.leaves ++ leavesOfArgs args)
  | .staticCall className method args => className :: method :: leavesOfArgs args
  | .property object s => s :: object.leaves
  | .new className args => className :: leavesOfArgs args
  | .clone value => value.leaves
  | .yield value => leavesOfOption value
  | .assign target value => target.leaves ++ value.leaves
  | .binary left op right => op :: (left.leaves ++ right.leaves)

/-- The texts of arguments. -/
def leavesOfArgs : List Expr → List String
  | [] => []
  | e :: es => e.leaves ++ leavesOfArgs es

/-- The texts of an expression that may be absent. -/
def leavesOfOption : Option Expr → List String
  | none => []
  | some e => e.leaves

/-- The texts of array items. -/
def leavesOfItems : List (Option Expr × Expr) → List String
  | [] => []
  | (key, e) :: items => leavesOfOption key ++ e.leaves ++ leavesOfItems items

end

/-- The texts of a statement. -/
def Statement.leaves (s : Statement) : List String := leavesOfOption s.expression?

/-- The texts of a parameter. -/
def Param.leaves (p : Param) : List String :=
  p.attributes ++ p.promotion.toList ++ p.typeHint.toList ++ [p.name] ++ leavesOfOption p.preset

/-- The texts of a method. -/
def MethodDecl.leaves (d : MethodDecl) : List String :=
  d.attributes ++ [d.name] ++ d.params.flatMap Param.leaves ++ d.returnType.toList ++
    (d.body.getD []).flatMap Statement.leaves

/-- The texts of a member. -/
def MemberKind.leaves : MemberKind → List String
  | .traitUse names => names
  | .constant d => d.entries.flatMap fun e => e.1 :: e.2.leaves
  | .property d => d.typeHint.toList ++ d.entries.flatMap fun e => e.1 :: leavesOfOption e.2
  | .method d => d.leaves
  | .comment | .other => []

/-- Whether no text has a line break. -/
def OneLine (ss : List String) : Prop := ∀ s ∈ ss, '\n' ∉ s.toList

@[simp]
theorem oneLine_nil : OneLine [] := nofun

@[simp]
theorem oneLine_cons {s : String} {ss : List String} :
    OneLine (s :: ss) ↔ '\n' ∉ s.toList ∧ OneLine ss := List.forall_mem_cons

@[simp]
theorem oneLine_append {ss ts : List String} : OneLine (ss ++ ts) ↔ OneLine ss ∧ OneLine ts :=
  List.forall_mem_append

theorem OneLine.of_flatMap {α : Type} {h : α → List String} {xs : List α}
    (hxs : OneLine (xs.flatMap h)) {x : α} (hx : x ∈ xs) : OneLine (h x) := fun s hs =>
  hxs s (List.mem_flatMap.2 ⟨x, hx, hs⟩)

/-! ## Expressions -/

section Printing

open Printer

theorem not_break_mem_quote (hs : '\n' ∉ s.toList) : '\n' ∉ (quote s).toList := by
  rw [quote, String.toList_ofList, List.mem_append, List.mem_cons, quoteChars]
  rintro ((hquote | hmem) | hquote)
  · exact absurd hquote (by decide)
  · obtain ⟨c, hc, hmem⟩ := List.mem_flatMap.1 hmem
    rw [quoteChar] at hmem
    split at hmem
    · rename_i hescaped
      rcases List.mem_cons.1 hmem with hbreak | hmem
      · exact absurd hbreak (by decide)
      · exact hs (List.mem_singleton.1 hmem ▸ hc)
    · exact hs (List.mem_singleton.1 hmem ▸ hc)
  · exact absurd (List.mem_singleton.1 hquote) (by decide)

theorem not_break_mem_integer (i : Int) : '\n' ∉ (Decimal.integer i).toList := by
  have hdigits : '\n' ∉ Nat.toDigits 10 i.natAbs := fun hmem =>
    absurd (Nat.isDigit_of_mem_toDigits (by decide) (by decide) hmem) (by decide)
  rw [Decimal.integer, String.toList_ofList]
  split
  · rw [List.mem_cons, not_or]
    exact ⟨by decide, hdigits⟩
  · exact hdigits

theorem argsAt_eq (level : Nat) (args : List Expr) :
    argsAt level args = args.map (exprAt level false) := by
  induction args with
  | nil => rfl
  | cons arg args ih => rw [argsAt, ih, List.map_cons]

theorem valuesAt_eq (level : Nat) (items : List (Option Expr × Expr)) :
    valuesAt level items = items.map fun item => exprAt level false item.2 := by
  induction items with
  | nil => rfl
  | cons item items ih => rw [valuesAt, ih, List.map_cons]

/-- Layered texts between commas. -/
theorem layered_commas {α : Type} {h : Nat → α → String} (xs : List α)
    (hxs : ∀ x ∈ xs, Layered fun level => h level x) :
    Layered fun level => commas (xs.map (h level)) := by
  induction xs with
  | nil => exact .empty
  | cons x xs ih =>
    obtain ⟨hx, hxs⟩ := List.forall_mem_cons.1 hxs
    cases xs with
    | nil => exact hx.congr fun level => String.intercalate_singleton
    | cons y xs =>
      refine ((hx.text (s := ", ") (by decide)).append (ih hxs)).congr fun level => ?_
      rw [List.map_cons, List.map_cons, commas, String.intercalate_cons_cons]
      rfl

theorem visible_append (f : Nat → String) (h : EndsVisibly s) :
    Visible fun level => f level ++ s := fun _ => h.append_left _

theorem endsVisibly_paren : EndsVisibly ")" := ⟨[], ')', [], rfl, by decide, nofun⟩

theorem endsVisibly_bracket : EndsVisibly "[" := ⟨[], '[', [], rfl, by decide, nofun⟩

theorem endsVisibly_comma : EndsVisibly "," := ⟨[], ',', [], rfl, by decide, nofun⟩

theorem endsVisibly_semicolon : EndsVisibly ";" := ⟨[], ';', [], rfl, by decide, nofun⟩

/-- A chain ends with the bracket of its last call. -/
theorem endsVisibly_of_chainLength {e : Expr} (h : 0 < chainLength e) (level : Nat)
    (broken : Bool) : EndsVisibly (exprAt level broken e) := by
  cases e with
  | methodCall object method args =>
    rw [exprAt]
    split <;> exact endsVisibly_paren.append_left _
  | _ => exact absurd h (Nat.lt_irrefl 0)

mutual

theorem layered_exprAt : ∀ (e : Expr) (broken : Bool), OneLine e.leaves →
    Layered fun level => exprAt level broken e
  | .var s, broken, h => by
    simp only [Expr.leaves, oneLine_cons] at h
    exact ((Layered.ofText (s := "$") (by decide)).text h.1).congr fun _ => by rw [exprAt]
  | .name s, broken, h | .float s, broken, h | .raw s, broken, h => by
    simp only [Expr.leaves, oneLine_cons] at h
    exact (Layered.ofText h.1).congr fun _ => by rw [exprAt]
  | .text s, broken, h => by
    simp only [Expr.leaves, oneLine_cons] at h
    exact (Layered.ofText (not_break_mem_quote h.1)).congr fun _ => by rw [exprAt]
  | .classConst className s, broken, h => by
    simp only [Expr.leaves, oneLine_cons] at h
    exact (((Layered.ofText h.1).text (s := "::") (by decide)).text h.2.1).congr fun _ => by
      rw [exprAt]
  | .int i, broken, _ =>
    (Layered.ofText (not_break_mem_integer i)).congr fun _ => by rw [exprAt]
  | .bool true, broken, _ =>
    (Layered.ofText (s := "true") (by decide)).congr fun _ => by rw [exprAt, if_pos rfl]
  | .bool false, broken, _ =>
    (Layered.ofText (s := "false") (by decide)).congr fun _ => by
      rw [exprAt, if_neg Bool.false_ne_true]
  | .null, broken, _ => (Layered.ofText (s := "null") (by decide)).congr fun _ => by rw [exprAt]
  | .array items, broken, h => by
    rw [Expr.leaves] at h
    by_cases hempty : items.isEmpty = true
    · exact (Layered.ofText (s := "[]") (by decide)).congr fun _ => by rw [exprAt, if_pos hempty]
    · by_cases hlist : (items.all fun item => item.1.isNone) = true
      · have hvalues := layered_commas items
          (h := fun level (item : Option Expr × Expr) => exprAt level false item.2)
          (layered_values items h)
        exact (((Layered.ofText (s := "[") (by decide)).append hvalues).text (s := "]")
          (by decide)).congr fun level => by
            rw [exprAt, if_neg hempty, if_pos hlist, valuesAt_eq]
      · have hbreak : "[\n" = "[" ++ "\n" := rfl
        exact ((layered_entries items h (Layered.ofText (by decide))
          fun _ => endsVisibly_bracket).text (s := "]")
          (by decide)).congr fun level => by
            rw [exprAt, if_neg hempty, if_neg hlist, hbreak]
  | .call function args, broken, h => by
    simp only [Expr.leaves, oneLine_cons] at h
    exact ((((Layered.ofText h.1).text (s := "(") (by decide)).append
      (layered_commas args (layered_args args h.2))).text (s := ")") (by decide)).congr fun level => by
        rw [exprAt, argsAt_eq]
  | .methodCall object method args, broken, h => by
    simp only [Expr.leaves, oneLine_cons, oneLine_append] at h
    obtain ⟨hmethod, hobject, hargs⟩ := h
    have hcommas := layered_commas args (layered_args args hargs)
    have hlink : '\n' ∉ ("->" ++ method ++ "(").toList := by
      simp only [String.toList_append, List.mem_append, not_or]
      exact ⟨⟨by decide, hmethod⟩, by decide⟩
    have hlayered := layered_exprAt object (broken || 2 ≤ chainLength object) hobject
    by_cases hlong : ((broken || decide (2 ≤ chainLength object)) &&
        decide (0 < chainLength object)) = true
    · have hchain : 0 < chainLength object := of_decide_eq_true (Bool.and_eq_true_iff.1 hlong).2
      have hvisible : Visible fun level => exprAt level (broken || 2 ≤ chainLength object) object :=
        fun level => endsVisibly_of_chainLength hchain level _
      exact ((((hlayered.line 1 hvisible).text hlink).append hcommas.shift).text (s := ")")
        (by decide)).congr fun level => by
          rw [exprAt, argsAt_eq, argsAt_eq]
          exact if_pos hlong
    · exact (((hlayered.text hlink).append hcommas).text (s := ")") (by decide)).congr
        fun level => by
          rw [exprAt, argsAt_eq, argsAt_eq]
          exact if_neg hlong
  | .staticCall className method args, broken, h => by
    simp only [Expr.leaves, oneLine_cons] at h
    exact ((((((Layered.ofText h.1).text (s := "::") (by decide)).text h.2.1).text (s := "(")
      (by decide)).append (layered_commas args (layered_args args h.2.2))).text (s := ")")
        (by decide)).congr fun level => by rw [exprAt, argsAt_eq]
  | .property object s, broken, h => by
    simp only [Expr.leaves, oneLine_cons] at h
    exact (((layered_exprAt object false h.2).text (s := "->") (by decide)).text h.1).congr
      fun level => by rw [exprAt]
  | .new className args, broken, h => by
    simp only [Expr.leaves, oneLine_cons] at h
    exact (((((Layered.ofText (s := "new ") (by decide)).text h.1).text (s := "(")
      (by decide)).append (layered_commas args (layered_args args h.2))).text (s := ")")
        (by decide)).congr fun level => by rw [exprAt, argsAt_eq]
  | .clone value, broken, h =>
    ((Layered.ofText (s := "clone ") (by decide)).append
      (layered_exprAt value false h)).congr fun level => by rw [exprAt]
  | .yield none, broken, _ =>
    (Layered.ofText (s := "yield") (by decide)).congr fun level => by rw [exprAt]
  | .yield (some value), broken, h =>
    ((Layered.ofText (s := "yield ") (by decide)).append
      (layered_exprAt value false h)).congr fun level => by rw [exprAt]
  | .assign target value, broken, h => by
    simp only [Expr.leaves, oneLine_append] at h
    exact (((layered_exprAt target false h.1).text (s := " = ") (by decide)).append
      (layered_exprAt value false h.2)).congr fun level => by rw [exprAt]
  | .binary left op right, broken, h => by
    simp only [Expr.leaves, oneLine_cons, oneLine_append] at h
    exact (((((layered_exprAt left false h.2.1).text (s := " ") (by decide)).text h.1).text
      (s := " ") (by decide)).append (layered_exprAt right false h.2.2)).congr
        fun level => by rw [exprAt]

theorem layered_args : ∀ args : List Expr, OneLine (leavesOfArgs args) →
    ∀ arg ∈ args, Layered fun level => exprAt level false arg
  | [], _ => nofun
  | arg :: args, h => by
    rw [leavesOfArgs, oneLine_append] at h
    exact List.forall_mem_cons.2 ⟨layered_exprAt arg false h.1, layered_args args h.2⟩

theorem layered_values : ∀ items : List (Option Expr × Expr), OneLine (leavesOfItems items) →
    ∀ item ∈ items, Layered fun level => exprAt level false item.2
  | [], _ => nofun
  | (key, value) :: items, h => by
    simp only [leavesOfItems, oneLine_append] at h
    exact List.forall_mem_cons.2 ⟨layered_exprAt value false h.1.2, layered_values items h.2⟩

/-- Array items behind a visible end, each on a line of its own one deeper. -/
theorem layered_entries : ∀ items : List (Option Expr × Expr), OneLine (leavesOfItems items) →
    ∀ {f : Nat → String}, Layered f → Visible f →
      Layered fun level => f level ++ "\n" ++ entriesAt (level + 1) items ++ indent level
  | [], _, f, hf, hv => (hf.line 0 hv).congr fun level => by
    rw [entriesAt, String.append_empty, Nat.add_zero]
  | (none, value) :: items, h, f, hf, hv => by
    simp only [leavesOfItems, oneLine_append] at h
    have hbreak : ",\n" = "," ++ "\n" := rfl
    have hline := ((hf.line 1 hv).append (layered_exprAt value false h.1.2).shift).text (s := ",")
      (by decide)
    exact (layered_entries items h.2 hline (visible_append _ endsVisibly_comma)).congr
      fun level => by simp only [entriesAt, hbreak, String.append_assoc]
  | (some key, value) :: items, h, f, hf, hv => by
    simp only [leavesOfItems, leavesOfOption, oneLine_append] at h
    have hbreak : ",\n" = "," ++ "\n" := rfl
    have hkey := ((hf.line 1 hv).append (layered_exprAt key false h.1.1).shift).text (s := " => ")
      (by decide)
    have hline := (hkey.append (layered_exprAt value false h.1.2).shift).text (s := ",")
      (by decide)
    exact (layered_entries items h.2 hline (visible_append _ endsVisibly_comma)).congr
      fun level => by simp only [entriesAt, hbreak, String.append_assoc]

end

/-! ## Statements -/

/-- Whether a statement is printed from its fields. -/
def Statement.isStructural (s : Statement) : Bool :=
  s.kind != .other && s.verbatim.isNone && s.trailing.isNone

theorem exists_layered_statement {s : Statement} (hs : s.isStructural = true)
    (h : OneLine s.leaves) :
    ∃ f, Layered f ∧ Visible f ∧ ∀ level, Printer.statement level s = indent level ++ f level := by
  obtain ⟨kind, verbatim, trailing, blankBefore⟩ := s
  simp only [Statement.isStructural, Bool.and_eq_true, Option.isNone_iff_eq_none, bne_iff_ne] at hs
  obtain ⟨⟨hkind, rfl⟩, rfl⟩ := hs
  have hprinted (level : Nat) : Printer.statement level ⟨kind, none, none, blankBefore⟩ =
      statementFields level kind := String.append_empty
  have hfields : ∀ {f : Nat → String}, Layered f →
      (∀ level, statementFields level kind = indent level ++ (f level ++ ";")) →
      ∃ f, Layered f ∧ Visible f ∧
        ∀ level, Printer.statement level ⟨kind, none, none, blankBefore⟩ = indent level ++ f level :=
    fun hf hprint => ⟨_, hf.text (s := ";") (by decide), visible_append _ endsVisibly_semicolon,
      fun level => (hprinted level).trans (hprint level)⟩
  cases kind with
  | expression value =>
    exact hfields (layered_exprAt value false h) fun level => String.append_assoc
  | ret value =>
    cases value with
    | none =>
      exact hfields (Layered.ofText (s := "return") (by decide)) fun level => rfl
    | some value =>
      exact hfields ((Layered.ofText (s := "return ") (by decide)).append
        (layered_exprAt value false h)) fun level => by
          simp only [statementFields, exprText, String.append_assoc]
  | other => exact absurd rfl hkind

/-- Statements behind a visible end, one deeper. -/
theorem layered_body {body : List Statement} (hbody : ∀ s ∈ body, s.isStructural = true)
    (h : OneLine (body.flatMap Statement.leaves)) (hf : Layered f) (hv : Visible f) :
    Layered fun level =>
      f level ++ "\n" ++ String.join (body.map (statementLine (level + 1))) ++ indent level := by
  induction body generalizing f with
  | nil =>
    refine (hf.line 0 hv).congr fun level => ?_
    rw [List.map_nil, String.join_nil, String.append_empty, Nat.add_zero]
  | cons s body ih =>
    obtain ⟨hs, hbody⟩ := List.forall_mem_cons.1 hbody
    rw [List.flatMap_cons, oneLine_append] at h
    obtain ⟨g, hg, hgv, hprint⟩ := exists_layered_statement hs h.1
    have hshift : Visible fun level => g (level + 1) := fun level => hgv (level + 1)
    have hvisible : ∀ f' : Nat → String, Visible fun level => f' level ++ g (level + 1) :=
      fun f' level => (hshift level).append_left _
    cases hblank : s.blankBefore with
    | true =>
      refine (ih hbody h.2 ((hf.gap 1 hv).append hg.shift) (hvisible _)).congr fun level => ?_
      rw [List.map_cons, String.join_cons, statementLine, hblank, if_pos rfl, hprint]
      simp only [String.append_assoc, String.empty_append]
    | false =>
      refine (ih hbody h.2 ((hf.line 1 hv).append hg.shift) (hvisible _)).congr fun level => ?_
      rw [List.map_cons, String.join_cons, statementLine, hblank, if_neg Bool.false_ne_true, hprint]
      simp only [String.append_assoc, String.empty_append]

/-! ## Members -/

theorem not_break_mem_append :
    '\n' ∉ (s ++ t).toList ↔ '\n' ∉ s.toList ∧ '\n' ∉ t.toList := by
  rw [String.toList_append, List.mem_append, not_or]

theorem not_break_mem_join {ss : List String} (h : OneLine ss) : '\n' ∉ (String.join ss).toList := by
  induction ss with
  | nil => simp
  | cons s ss ih =>
    rw [oneLine_cons] at h
    rw [String.join_cons, not_break_mem_append]
    exact ⟨h.1, ih h.2⟩

theorem not_break_mem_intercalate {sep : String} {ss : List String} (hsep : '\n' ∉ sep.toList)
    (h : OneLine ss) : '\n' ∉ (String.intercalate sep ss).toList := by
  induction ss with
  | nil => simp
  | cons s ss ih =>
    rw [oneLine_cons] at h
    cases ss with
    | nil => rw [String.intercalate_singleton]; exact h.1
    | cons t ss =>
      rw [String.intercalate_cons_cons, not_break_mem_append, not_break_mem_append]
      exact ⟨⟨h.1, hsep⟩, ih h.2⟩

theorem not_break_mem_optionally {h : String → String} {o : Option String}
    (ho : ∀ s ∈ o, '\n' ∉ (h s).toList) : '\n' ∉ (optionally h o).toList := by
  cases o with
  | none => simp [optionally]
  | some s => exact ho s rfl

theorem not_break_mem_spaced (hs : '\n' ∉ s.toList) : '\n' ∉ (spaced s).toList :=
  not_break_mem_append.2 ⟨hs, by decide⟩

theorem not_break_mem_flagged (flag : Bool) (hs : '\n' ∉ s.toList) :
    '\n' ∉ (flagged flag s).toList := by
  cases flag with
  | true => exact hs
  | false => simp [flagged]

theorem not_break_mem_word (v : Visibility) : '\n' ∉ v.word.toList := by cases v <;> decide

theorem not_break_mem_visibilityText (v : Option Visibility) :
    '\n' ∉ (visibilityText v).toList := by
  refine not_break_mem_optionally fun s hs => ?_
  obtain ⟨v, -, rfl⟩ := Option.map_eq_some_iff.1 hs
  exact not_break_mem_spaced (not_break_mem_word v)

theorem OneLine.of_toList {o : Option String} (h : OneLine o.toList) :
    ∀ s ∈ o, '\n' ∉ s.toList := fun s hs => h s (Option.mem_toList.2 hs)

theorem layered_constantDecl {d : ConstantDecl}
    (h : OneLine (d.entries.flatMap fun e => e.1 :: e.2.leaves)) :
    Layered fun level => constantDecl level d := by
  have hwords : '\n' ∉ (visibilityText d.visibility ++ "const ").toList :=
    not_break_mem_append.2 ⟨not_break_mem_visibilityText _, by decide⟩
  have hentries := layered_commas d.entries
    (h := fun level e => e.1 ++ " = " ++ exprText level e.2) fun e he => by
      have hleaves := h.of_flatMap he
      rw [oneLine_cons] at hleaves
      exact ((Layered.ofText hleaves.1).text (s := " = ") (by decide)).append
        (layered_exprAt e.2 false hleaves.2)
  exact (((Layered.ofText hwords).append hentries).text (s := ";") (by decide)).congr
    fun level => by rw [constantDecl]

theorem layered_preset {preset : Option Expr} (h : OneLine (leavesOfOption preset)) :
    Layered fun level => optionally (" = " ++ ·) (preset.map (exprText level)) := by
  cases preset with
  | none => exact .empty
  | some e => exact (Layered.ofText (s := " = ") (by decide)).append (layered_exprAt e false h)

theorem layered_propertyDecl {d : PropertyDecl}
    (h : OneLine (d.typeHint.toList ++ d.entries.flatMap fun e => e.1 :: leavesOfOption e.2)) :
    Layered fun level => propertyDecl level d := by
  rw [oneLine_append] at h
  have hwords : OneLine (propertyWords d) := by
    rw [propertyWords, oneLine_append, oneLine_append, oneLine_append]
    refine ⟨⟨⟨?_, ?_⟩, ?_⟩, h.1⟩
    · cases d.visibility with
      | some v => exact oneLine_cons.2 ⟨not_break_mem_word v, oneLine_nil⟩
      | none => dsimp only; split <;> simp
    · split <;> simp
    · split <;> simp
  have hhead : '\n' ∉ (String.intercalate " " (propertyWords d) ++ " ").toList :=
    not_break_mem_append.2 ⟨not_break_mem_intercalate (by decide) hwords, by decide⟩
  have hentries := layered_commas d.entries (h := propertyEntry) fun e he => by
    have hleaves := h.2.of_flatMap he
    rw [oneLine_cons] at hleaves
    exact ((Layered.ofText (s := "$") (by decide)).text hleaves.1).append
      (layered_preset hleaves.2)
  exact (((Layered.ofText hhead).append hentries).text (s := ";") (by decide)).congr
    fun level => by rw [propertyDecl]

theorem layered_param {p : Param} (h : OneLine p.leaves) : Layered fun level => param level p := by
  simp only [Param.leaves, oneLine_append, oneLine_cons] at h
  obtain ⟨⟨⟨⟨hattributes, hpromotion⟩, htypeHint⟩, hname, -⟩, hpreset⟩ := h
  have hspaced : OneLine (p.attributes.map spaced) := fun s hs => by
    obtain ⟨a, ha, rfl⟩ := List.mem_map.1 hs
    exact not_break_mem_spaced (hattributes a ha)
  refine Layered.append (Layered.ofText ?_) (layered_preset hpreset)
  simp only [not_break_mem_append]
  exact ⟨⟨⟨⟨⟨⟨not_break_mem_join hspaced,
    not_break_mem_optionally fun s hs => not_break_mem_spaced (hpromotion.of_toList s hs)⟩,
    not_break_mem_optionally fun s hs => not_break_mem_spaced (htypeHint.of_toList s hs)⟩,
    not_break_mem_flagged _ (by decide)⟩, not_break_mem_flagged _ (by decide)⟩, by decide⟩, hname⟩

/-- The head of a method, which ends with a bracket or a return type. -/
theorem layered_methodHead {d : MethodDecl} (h : OneLine d.leaves) :
    Layered (fun level => methodHead level d) ∧ Visible fun level => methodHead level d := by
  simp only [MethodDecl.leaves, oneLine_append, oneLine_cons] at h
  obtain ⟨⟨⟨⟨-, hname, -⟩, hparams⟩, hreturn⟩, -⟩ := h
  have hwords : '\n' ∉ (flagged d.isFinal "final " ++ flagged d.isAbstract "abstract " ++
      visibilityText d.visibility ++ flagged d.isStatic "static " ++ "function " ++
      flagged d.byReference "&" ++ d.name ++ "(").toList := by
    simp only [not_break_mem_append]
    exact ⟨⟨⟨⟨⟨⟨⟨not_break_mem_flagged _ (by decide), not_break_mem_flagged _ (by decide)⟩,
      not_break_mem_visibilityText _⟩, not_break_mem_flagged _ (by decide)⟩, by decide⟩,
      not_break_mem_flagged _ (by decide)⟩, hname⟩, by decide⟩
  have hhint : '\n' ∉ (optionally (": " ++ ·) d.returnType).toList :=
    not_break_mem_optionally fun s hs =>
      not_break_mem_append.2 ⟨by decide, hreturn.of_toList s hs⟩
  have hlist := layered_commas d.params (h := param) fun p hp =>
    layered_param (hparams.of_flatMap hp)
  refine ⟨((((Layered.ofText hwords).append hlist).text (s := ")") (by decide)).text hhint).congr
    fun level => by rw [methodHead], fun level => ?_⟩
  exact (endsVisibly_paren.append_left _).append_right hhint

/-- The attributes of a method in front of it, each on a line of its own. -/
theorem exists_layered_attributes {attributes : List String} (h : OneLine attributes)
    (hblank : ∀ a ∈ attributes, isBlankLine a = false) (hg : Layered g) (hv : Visible g) :
    ∃ f, Layered f ∧ Visible f ∧ ∀ level,
      String.join (attributes.map fun a => indent level ++ a ++ "\n") ++ indent level ++ g level =
        indent level ++ f level := by
  induction attributes with
  | nil =>
    refine ⟨g, hg, hv, fun level => ?_⟩
    rw [List.map_nil, String.join_nil, String.empty_append]
  | cons a attributes ih =>
    rw [oneLine_cons] at h
    obtain ⟨ha, hblank⟩ := List.forall_mem_cons.1 hblank
    obtain ⟨f, hf, hfv, hprint⟩ := ih h.2 hblank
    have hvisible : EndsVisibly a := by
      rw [isBlankLine, List.all_eq_false] at ha
      obtain ⟨c, hmem, hc⟩ := ha
      exact endsVisibly_of_mem h.1 hmem (Bool.not_eq_true _ ▸ hc)
    refine ⟨_, ((Layered.ofText h.1).line 0 fun _ => hvisible).append hf,
      fun level => (hfv level).append_left _, fun level => ?_⟩
    rw [List.map_cons, String.join_cons, Nat.add_zero]
    simp only [String.append_assoc] at hprint ⊢
    rw [hprint]

/-- A method without text of its own: no attribute is blank, and its statements are printed from
    their fields. -/
def MethodDecl.isStructural (d : MethodDecl) : Bool :=
  (d.attributes.all fun a => !isBlankLine a) && (d.body.getD []).all Statement.isStructural

theorem exists_layered_methodDecl {d : MethodDecl} (hd : d.isStructural = true)
    (h : OneLine d.leaves) :
    ∃ f, Layered f ∧ Visible f ∧ ∀ level, methodDecl level d = indent level ++ f level := by
  obtain ⟨hhead, hheadVisible⟩ := layered_methodHead h
  simp only [MethodDecl.leaves, oneLine_append] at h
  obtain ⟨⟨⟨⟨hattributes, -⟩, -⟩, -⟩, hbody⟩ := h
  rw [MethodDecl.isStructural, Bool.and_eq_true, List.all_eq_true, List.all_eq_true] at hd
  have hblank : ∀ a ∈ d.attributes, isBlankLine a = false := fun a ha => by
    simpa using hd.1 a ha
  cases hcases : d.body with
  | none =>
    obtain ⟨f, hf, hv, hprint⟩ := exists_layered_attributes hattributes hblank
      (hhead.text (s := ";") (by decide)) (visible_append _ endsVisibly_semicolon)
    refine ⟨f, hf, hv, fun level => ?_⟩
    rw [← hprint level, methodDecl, hcases]
    simp only [String.append_assoc]
  | some body =>
    rw [hcases, Option.getD_some] at hbody hd
    have hopen := (hhead.line 0 hheadVisible).text (s := "\x7b") (by decide)
    have hopenVisible : EndsVisibly "\x7b" := ⟨[], '\x7b', [], rfl, by decide, nofun⟩
    have hcloseVisible : EndsVisibly "\x7d" := ⟨[], '\x7d', [], rfl, by decide, nofun⟩
    have hlayered := layered_body hd.2 hbody hopen (visible_append _ hopenVisible)
    obtain ⟨f, hf, hv, hprint⟩ := exists_layered_attributes hattributes hblank
      (hlayered.text (s := "\x7d") (by decide)) (visible_append _ hcloseVisible)
    have hbreak : "\x7b\n" = "\x7b" ++ "\n" := rfl
    refine ⟨f, hf, hv, fun level => ?_⟩
    rw [← hprint level, methodDecl, hcases, hbreak]
    simp only [String.append_assoc, Nat.add_zero]

/-- A member without text of its own. -/
def Member.isStructural (m : Member) : Bool :=
  m.verbatim.isNone && m.trailing.isNone &&
    match m.kind with
    | .traitUse _ | .constant _ | .property _ => true
    | .method d => d.isStructural
    | .comment | .other => false

/-- A member without text of its own is a layered text behind its indent. -/
theorem exists_layered_member {m : Member} (hm : m.isStructural = true)
    (h : OneLine m.kind.leaves) :
    ∃ f, Layered f ∧ Visible f ∧ ∀ level, member level m = indent level ++ f level := by
  obtain ⟨kind, verbatim, trailing⟩ := m
  simp only [Member.isStructural, Bool.and_eq_true, Option.isNone_iff_eq_none] at hm
  obtain ⟨⟨rfl, rfl⟩, hkind⟩ := hm
  have hprinted (level : Nat) : member level ⟨kind, none, none⟩ = memberFields level kind :=
    String.append_empty
  simp only [hprinted]
  cases kind with
  | traitUse names =>
    have hnames : '\n' ∉ (commas names).toList := not_break_mem_intercalate (by decide) h
    refine ⟨_, ((Layered.ofText (s := "use ") (by decide)).text hnames).text (s := ";") (by decide),
      visible_append _ endsVisibly_semicolon, fun level => ?_⟩
    simp only [memberFields, String.append_assoc]
  | constant d =>
    refine ⟨_, layered_constantDecl h, fun level => ?_, fun level => rfl⟩
    exact endsVisibly_semicolon.append_left _
  | property d =>
    refine ⟨_, layered_propertyDecl h, fun level => ?_, fun level => rfl⟩
    exact endsVisibly_semicolon.append_left _
  | method d => exact exists_layered_methodDecl hkind h
  | comment | other => cases hkind

/-- A member without text of its own, whose texts have no line break, is printed at every depth as
    its text of another depth is written there after it was captured. -/
theorem write_ofSource_member {m : Member} (hm : m.isStructural = true)
    (h : OneLine m.kind.leaves) (level level' : Nat) :
    ∃ text, member level m = indent level ++ text ∧
      (ofSource text (4 * level)).write level' = member level' m := by
  obtain ⟨f, hf, hv, hprint⟩ := exists_layered_member hm h
  exact ⟨f level, hprint level, (hf.write_ofSource hv level level').trans (hprint level').symm⟩

/-- A method with an attribute, a broken chain, an empty line and a keyed array. -/
def registration : Member :=
  .ofKind (.method ⟨["#[Override]"], some .pub, true, false, false, false, "describe",
    [⟨[], none, some "Engine", false, false, "engine", none⟩], some "array", some
    [.ofExpr (.methodCall (.methodCall (.methodCall (.var "engine") "process" [.text "Add"])
        "with" [.classConst "Aggregate" "Order"]) "orElse" []),
      ⟨.ret (some (.array [(some (.text "name"), .array [(some (.int 1), .null)])])), none, none,
        true⟩]⟩)

theorem write_ofSource_member_registration :
    ∃ text, member 1 registration = indent 1 ++ text ∧
      (ofSource text 4).write 3 = member 3 registration :=
  write_ofSource_member (by decide +kernel) (by unfold OneLine; decide +kernel) 1 3

end Printing

end DomainScaffold.Php
