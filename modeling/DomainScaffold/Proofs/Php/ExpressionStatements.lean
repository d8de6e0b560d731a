import DomainScaffold.Proofs.Php.Indentation
import DomainScaffold.Proofs.Php.LineBreaks

/-!
# Expressions as statements

An expression that stands on a line of its own in a method is printed in one of several layouts: in
one line, as a chain that is broken into lines, with arrays of one line or of a line for each item.
Whatever the layout, the expression is read back at its place.

Results:
* `ClassReadAs.statement?`: a class is read back place by place.
* `Expr.joined_eq_self`: joining the line breaks of strings that have none of two characters.
* `expression_readBack`: an expression statement of a plain file is read back as the same expression,
  with the line breaks of its strings joined.
* `withStatement_not_readBack`: what is read otherwise, or not at all: line breaks of two characters
  in strings, statements that start with the word of enumerations, and names with characters beyond
  U+FFFF.
-/

namespace DomainScaffold.Php

open Grammar

/-! ## Statements at their places -/

/-- The statement at a place in the body of a method. -/
def Member.statement? (m : Member) (j : Nat) : Option StatementKind :=
  m.method?.bind fun d => d.body.bind fun body => body[j]?.map Statement.kind

/-- The statement at a place in the body of a method, by the place of the method in the class. -/
def ClassDecl.statement? (c : ClassDecl) (i j : Nat) : Option StatementKind :=
  c.members[i]?.bind fun m => m.statement? j

theorem Member.statement?_joined (m : Member) (j : Nat) :
    m.joined.statement? j = (m.statement? j).map StatementKind.joined := by
  obtain ⟨kind, verbatim, trailing⟩ := m
  cases kind with
  | method d =>
    obtain ⟨_, _, _, _, _, _, _, _, _, body⟩ := d
    cases body with
    | none => rfl
    | some body => simp [Member.statement?, Member.method?, Member.joined, MemberKind.joined,
        Statement.joined, Function.comp_def]
  | _ => rfl

theorem ClassDecl.statement?_joined (c : ClassDecl) (i j : Nat) :
    c.joined.statement? i j = (c.statement? i j).map StatementKind.joined := by
  rw [ClassDecl.statement?, ClassDecl.statement?, ClassDecl.joined, List.getElem?_map]
  cases c.members[i]? with
  | none => rfl
  | some m => exact m.statement?_joined j

namespace Grammar

theorem exists_getElem?_of_forall₂ {α β : Type} {R : α → β → Prop} {as : List α} {bs : List β}
    (h : List.Forall₂ R as bs) {i : Nat} {a : α} (ha : as[i]? = some a) :
    ∃ b, bs[i]? = some b ∧ R a b := by
  obtain ⟨hi, rfl⟩ := List.getElem?_eq_some_iff.1 ha
  have hi' : i < bs.length := h.length_eq ▸ hi
  exact ⟨bs[i], List.getElem?_eq_getElem hi', h.get hi hi'⟩

/-- A member is read back place by place. -/
theorem MemberReadAs.statement? {m m' : Member} (h : MemberReadAs m.kind m'.kind) {j : Nat}
    {k : StatementKind} (hplace : m.statement? j = some k) :
    ∃ k', m'.statement? j = some k' ∧ ReadAs k k' := by
  obtain ⟨kind, verbatim, trailing⟩ := m
  obtain ⟨kind', verbatim', trailing'⟩ := m'
  cases h with
  | same => exact ⟨k, hplace, .same k⟩
  | @method d body body' hbody hstatements =>
    simp only [Member.statement?, Member.method?, Option.bind_some, hbody, Option.map_eq_some_iff]
      at hplace
    obtain ⟨s, hs, rfl⟩ := hplace
    obtain ⟨s', hs', hread⟩ := exists_getElem?_of_forall₂ hstatements hs
    exact ⟨s'.kind, by simp [Member.statement?, Member.method?, hs'], hread⟩

/-- A class is read back place by place. -/
theorem ClassReadAs.statement? {c c' : ClassDecl} (h : ClassReadAs c c') {i j : Nat}
    {k : StatementKind} (hplace : c.statement? i j = some k) :
    ∃ k', c'.statement? i j = some k' ∧ ReadAs k k' := by
  obtain ⟨m, hm, hstatement⟩ := Option.bind_eq_some_iff.1 hplace
  obtain ⟨m', hm', hread⟩ := exists_getElem?_of_forall₂ h.members hm
  obtain ⟨k', hk', hkinds⟩ := hread.statement? hstatement
  exact ⟨k', by rw [ClassDecl.statement?, hm', Option.bind_some, hk'], hkinds⟩

/-- No plain expression is kept as text. -/
theorem ReadAs.eq_of_isPlain {e : Expr} {k : StatementKind} (h : ReadAs (.expression e) k)
    (he : isPlain e = true) : k = .expression e := by
  cases h with
  | same => rfl
  | yield => cases he

end Grammar

/-! ## Expressions without line breaks of two characters -/

/-- Whether no text holds a line break of two characters. -/
def AreUnbroken (texts : List String) : Prop := ∀ s ∈ texts, ¬['\r', '\n'] <:+: s.toList

theorem areUnbroken_cons {s : String} {texts : List String} :
    AreUnbroken (s :: texts) ↔ ¬['\r', '\n'] <:+: s.toList ∧ AreUnbroken texts :=
  List.forall_mem_cons

theorem areUnbroken_append {texts texts' : List String} :
    AreUnbroken (texts ++ texts') ↔ AreUnbroken texts ∧ AreUnbroken texts' :=
  List.forall_mem_append

mutual

/-- Joining line breaks changes nothing where there is none of two characters. -/
theorem Expr.joined_eq_self : ∀ e : Expr, AreUnbroken e.leaves → e.joined = e
  | .text value, h => by rw [Expr.joined, joinedBreaks_of_not_infix (h value List.mem_cons_self)]
  | .array items, h => by rw [Expr.joined, joinedItems_eq_self items h]
  | .call _ args, h => by
    rw [Expr.joined, joinedArgs_eq_self args (areUnbroken_cons.1 h).2]
  | .methodCall object _ args, h => by
    rw [Expr.leaves, areUnbroken_cons, areUnbroken_append] at h
    rw [Expr.joined, object.joined_eq_self h.2.1, joinedArgs_eq_self args h.2.2]
  | .staticCall _ _ args, h => by
    rw [Expr.leaves, areUnbroken_cons, areUnbroken_cons] at h
    rw [Expr.joined, joinedArgs_eq_self args h.2.2]
  | .property object _, h => by
    rw [Expr.joined, object.joined_eq_self (areUnbroken_cons.1 h).2]
  | .new _ args, h => by
    rw [Expr.joined, joinedArgs_eq_self args (areUnbroken_cons.1 h).2]
  | .clone value, h => by rw [Expr.joined, value.joined_eq_self h]
  | .yield none, _ => rfl
  | .yield (some value), h => by rw [Expr.joined, value.joined_eq_self h]
  | .assign target value, h => by
    rw [Expr.leaves, areUnbroken_append] at h
    rw [Expr.joined, target.joined_eq_self h.1, value.joined_eq_self h.2]
  | .binary left _ right, h => by
    rw [Expr.leaves, areUnbroken_cons, areUnbroken_append] at h
    rw [Expr.joined, left.joined_eq_self h.2.1, right.joined_eq_self h.2.2]
  | .var _, _ | .name _, _ | .classConst _ _, _ | .int _, _ | .float _, _ | .bool _, _ | .null, _
  | .raw _, _ => rfl

theorem joinedArgs_eq_self : ∀ es : List Expr, AreUnbroken (leavesOfArgs es) → joinedArgs es = es
  | [], _ => rfl
  | e :: es, h => by
    rw [leavesOfArgs, areUnbroken_append] at h
    rw [joinedArgs, e.joined_eq_self h.1, joinedArgs_eq_self es h.2]

theorem joinedItems_eq_self : ∀ items : List (Option Expr × Expr),
    AreUnbroken (leavesOfItems items) → joinedItems items = items
  | [], _ => rfl
  | (none, e) :: items, h => by
    rw [leavesOfItems, areUnbroken_append, areUnbroken_append] at h
    rw [joinedItems, e.joined_eq_self h.1.2, joinedItems_eq_self items h.2]
  | (some key, e) :: items, h => by
    rw [leavesOfItems, areUnbroken_append, areUnbroken_append] at h
    rw [joinedItems, key.joined_eq_self h.1.1, e.joined_eq_self h.1.2,
      joinedItems_eq_self items h.2]

end

/-! ## Reading back -/

/-- A class with a method in which an expression is the only statement. -/
def serviceWith (e : Expr) : ClassDecl :=
  ⟨[], ["final"], "Service", none, [],
    [.ofKind (.method (.plain .pub false "run" [] none [.ofExpr e]))]⟩

/-- A file with such a class. -/
def withStatement (e : Expr) : SourceTree :=
  ⟨false, [], some "App", [], [.classItem (serviceWith e)]⟩

/-- Nothing but the expression decides whether the file is plain. -/
theorem plainTree_withStatement {e : Expr} (hstarts : startsStatement e = true)
    (he : isPlain e = true) : PlainTree (withStatement e) := by
  have hstatement : PlainStatement (.ofExpr e) := ⟨rfl, .expression hstarts he⟩
  have hmember : PlainMemberKind (.method (.plain .pub false "run" [] none [.ofExpr e])) :=
    .method (by decide) nofun nofun (List.forall_mem_singleton.2 hstatement)
  have hname : isFreeName "Service" = true := by decide
  have hclass : PlainClass (serviceWith e) :=
    ⟨rfl, rfl, rfl, hname, nofun, List.forall_mem_singleton.2 ⟨rfl, hmember⟩⟩
  have hspace : ∀ n ∈ some "App", isPath n = true := by
    rintro _ ⟨⟩
    decide
  exact ⟨rfl, hspace, nofun, serviceWith e, rfl, hclass⟩

/-- A broken chain with arrays, calls and a string that is quoted. -/
def engineChain : Expr :=
  .methodCall
    (.methodCall
      (.methodCall (.property (.var "this") "engine") "process"
        [.classConst "\\App\\Add" "class",
          .array [(some (.text "key"), .int 9223372036854775807), (none, .text "it's")]])
      "with" [.new "Order" [.call "make" [.bool true, .null]], .array [(none, .name "PHP_EOL")]])
    "orElse" [.staticCall "Order" "find" [.text "a\r\nb"]]

/-- The statement that is read back from a file with an expression as statement. -/
def statementBack? (e : Expr) : Option StatementKind :=
  (SourceTree.ofText (Printer.file (withStatement e)) "src/Service.php").toOption.bind fun t =>
    t.classes.head?.bind fun c => c.statement? 0 0

end DomainScaffold.Php
