import DomainScaffold.Proofs.Php.Members

/-!
# Reading classes

How generated classes are spelled, and that they are read back: the head as it was, and each member
as it is read back.

Results:
* `written_classTokens`: a printed class is put together from its tokens.
* `separated_classTokens`: each of its tokens is scanned as such.
* `statementAt_classTokens`: a class is read back from its tokens.
-/

namespace DomainScaffold.Php

open Scan Verbatim

/-! ## Plain classes -/

/-- A class of generated code. -/
structure PlainClass (c : ClassDecl) : Prop where
  attributes : c.attributes = []
  modifiers : c.modifiers = ["final"]
  parent : c.parent = none
  name : isFreeName c.name = true
  interfaces : ∀ i ∈ c.interfaces, isFreeName i = true
  members : ∀ m ∈ c.members, PlainMember m

theorem PlainClass.eq {c : ClassDecl} (h : PlainClass c) :
    c = ⟨[], ["final"], c.name, none, c.interfaces, c.members⟩ := by
  obtain ⟨hattributes, hmodifiers, hparent, -, -, -⟩ := h
  cases c
  simp_all

/-! ## Spelling -/

/-- The tokens of names between commas. -/
def namesTokens : List String → List Token
  | [] => []
  | name :: names => .word " " name :: (commaBefore names ++ namesTokens names)

/-- The tokens of the interfaces of a class. -/
def interfacesTokens (names : List String) : List Token :=
  if names.isEmpty then [] else .word " " "implements" :: namesTokens names

/-- The kinds of members, each with the white space in front of it, behind a member of kind
    `before`. -/
def leadsAfter (before : MemberKind) : List Member → List (String × MemberKind)
  | [] => []
  | m :: ms =>
    ((if Printer.separated before m.kind then "\n" else "") ++ newline 1, m.kind) ::
      leadsAfter m.kind ms

/-- The kinds of the members of a class, each with the white space in front of it. -/
def leads : List Member → List (String × MemberKind)
  | [] => []
  | m :: ms => (newline 1, m.kind) :: leadsAfter m.kind ms

/-- The tokens of a member with its white space. -/
def leadTokens (m : String × MemberKind) : List Token := memberTokens m.1 m.2

/-- The tokens of members. -/
def membersTokens (ms : List (String × MemberKind)) : List Token := ms.flatMap leadTokens

/-- The tokens of a class. -/
def classTokens (lead : String) (c : ClassDecl) : List Token :=
  .word lead "final" :: .word " " "class" :: .word " " c.name ::
    (interfacesTokens c.interfaces ++ .sym "\n" "\x7b" ::
      (membersTokens (leads c.members) ++ [.sym "\n" "\x7d"]))

theorem written_namesTokens {names : List String} (h : names ≠ []) :
    written (namesTokens names) = " " ++ Printer.commas names := by
  induction names with
  | nil => exact absurd rfl h
  | cons name names ih =>
    rw [namesTokens, commas_cons]
    cases names with
    | nil => simp [namesTokens, commaBefore, Token.word]
    | cons name' names =>
      rw [written_cons, written_append, ih (List.cons_ne_nil _ _)]
      simp [commaBefore, Token.word, Token.sym, ← String.toList_inj]

theorem written_interfacesTokens (names : List String) :
    written (interfacesTokens names) =
      if names.isEmpty then "" else " implements " ++ Printer.commas names := by
  cases names with
  | nil => rfl
  | cons name names =>
    simp [interfacesTokens, written_namesTokens, Token.word, ← String.toList_inj]

theorem member_plain {m : Member} (h : PlainMember m) :
    Printer.member 1 m = Printer.memberFields 1 m.kind := by
  rw [h.eq_ofKind]
  simp [Printer.member, Member.ofKind, Printer.trailingText, Printer.optionally]

theorem written_memberTokens_newline {m : Member} (h : PlainMember m) (before : String) :
    written (memberTokens (before ++ newline 1) m.kind) =
      before ++ "\n" ++ Printer.member 1 m := by
  rw [newline, ← String.append_assoc, written_memberTokens h.kind, member_plain h]

theorem written_leadsAfter {ms : List Member} (h : ∀ m ∈ ms, PlainMember m)
    (before : MemberKind) :
    written (membersTokens (leadsAfter before ms)) ++ "\n" =
      "\n" ++ Printer.membersAfter before ms := by
  induction ms generalizing before with
  | nil => simp [leadsAfter, membersTokens, Printer.membersAfter]
  | cons m ms ih =>
    rw [List.forall_mem_cons] at h
    have hothers := ih h.2 m.kind
    rw [leadsAfter, membersTokens, List.flatMap_cons, written_append, ← membersTokens,
      leadTokens, String.append_assoc, hothers, written_memberTokens_newline h.1,
        Printer.membersAfter]
    cases Printer.separated before m.kind <;> simp [← String.toList_inj]

theorem written_leads {ms : List Member} (h : ∀ m ∈ ms, PlainMember m) :
    written (membersTokens (leads ms)) ++ "\n" = "\n" ++ Printer.members ms := by
  cases ms with
  | nil => simp [leads, membersTokens, Printer.members]
  | cons m ms =>
    rw [List.forall_mem_cons] at h
    have hothers := written_leadsAfter h.2 m.kind
    have hfirst := written_memberTokens_newline h.1 ""
    rw [String.empty_append, String.empty_append] at hfirst
    rw [leads, membersTokens, List.flatMap_cons, written_append, ← membersTokens,
      leadTokens, String.append_assoc, hothers, hfirst, Printer.members]
    simp [← String.toList_inj]

/-- A printed class is put together from its tokens. -/
theorem written_classTokens {c : ClassDecl} (h : PlainClass c) (lead : String) :
    written (classTokens lead c) = lead ++ Printer.classDecl c := by
  have hmembers := written_leads h.members
  calc written (classTokens lead c)
      = lead ++ "final class " ++ c.name ++ written (interfacesTokens c.interfaces) ++ "\n\x7b" ++
          (written (membersTokens (leads c.members)) ++ "\n") ++ "\x7d" := by
        simp [classTokens, Token.word, Token.sym, ← String.toList_inj]
    _ = _ := by
        rw [hmembers, written_interfacesTokens]
        simp [Printer.classDecl, Printer.classHead, h.attributes, h.modifiers, h.parent,
          Printer.optionally, Printer.spaced, ← String.toList_inj]

theorem separated_namesTokens {names : List String} (h : ∀ s ∈ names, isFreeName s = true)
    {next : Option Char} (hnext : endsName next = true) : Separated (namesTokens names) next := by
  induction names with
  | nil => trivial
  | cons name names ih =>
    rw [List.forall_mem_cons] at h
    have hname := isName_of_isFreeName h.1
    cases names with
    | nil => exact ⟨fits_word isLead_space hname hnext, trivial⟩
    | cons name' names =>
      exact ⟨fits_word isLead_space hname rfl, fits_plainSymbol isLead_empty (by decide) _, ih h.2⟩

theorem isLead_append {a b : String} (ha : IsLead a) (hb : IsLead b) : IsLead (a ++ b) := by
  intro c hc
  rw [String.toList_append, List.mem_append] at hc
  exact hc.elim (ha c) (hb c)

theorem isLead_newlines : IsLead "\n" := by
  intro c hc
  cases List.mem_singleton.1 hc
  rfl

theorem leadsAfter_spec {ms : List Member} (h : ∀ m ∈ ms, PlainMember m) (before : MemberKind) :
    ∀ p ∈ leadsAfter before ms, IsLead p.1 ∧ PlainMemberKind p.2 := by
  induction ms generalizing before with
  | nil => exact fun _ hp => absurd hp List.not_mem_nil
  | cons m ms ih =>
    rw [List.forall_mem_cons] at h
    refine List.forall_mem_cons.2 ⟨⟨isLead_append ?_ (isLead_newline 1), h.1.kind⟩, ih h.2 _⟩
    cases Printer.separated before m.kind
    · exact isLead_empty
    · exact isLead_newlines

theorem leads_spec {ms : List Member} (h : ∀ m ∈ ms, PlainMember m) :
    ∀ p ∈ leads ms, IsLead p.1 ∧ PlainMemberKind p.2 := by
  cases ms with
  | nil => exact fun _ hp => absurd hp List.not_mem_nil
  | cons m ms =>
    rw [List.forall_mem_cons] at h
    exact List.forall_mem_cons.2 ⟨⟨isLead_newline 1, h.1.kind⟩, leadsAfter_spec h.2 _⟩

theorem separated_membersTokens {ms : List (String × MemberKind)}
    (h : ∀ p ∈ ms, IsLead p.1 ∧ PlainMemberKind p.2) (next : Option Char) :
    Separated (membersTokens ms) next := by
  induction ms with
  | nil => trivial
  | cons m ms ih =>
    rw [List.forall_mem_cons] at h
    exact separated_append.2 ⟨separated_memberTokens h.1.2 h.1.1 _, ih h.2⟩

/-- Each token of a class is scanned as such. -/
theorem separated_classTokens {c : ClassDecl} (h : PlainClass c) {lead : String}
    (hlead : IsLead lead) (next : Option Char) : Separated (classTokens lead c) next := by
  have hbody : Separated (.sym "\n" "\x7b" :: (membersTokens (leads c.members) ++
      [.sym "\n" "\x7d"])) next :=
    ⟨fits_plainSymbol isLead_newlines (by decide) _, separated_append.2
      ⟨separated_membersTokens (leads_spec h.members) _,
        fits_plainSymbol isLead_newlines (by decide) _, trivial⟩⟩
  have hname := isName_of_isFreeName h.name
  refine ⟨fits_word hlead (by decide) (endsName_space rfl),
    fits_word isLead_space (by decide) (endsName_space rfl), ?_⟩
  rw [interfacesTokens]
  cases hinterfaces : c.interfaces with
  | nil => exact ⟨fits_word isLead_space hname rfl, hbody⟩
  | cons i is =>
    refine ⟨fits_word isLead_space hname (endsName_space rfl),
      fits_word isLead_space (by decide) (endsName_space rfl), separated_append.2 ⟨?_, hbody⟩⟩
    rw [← hinterfaces]
    exact separated_namesTokens h.interfaces rfl

/-! ## Reading -/

namespace Grammar

variable {l r : Lexeme} {ls rest : List Lexeme} {sub : Rules}

/-- The names behind a keyword are read up to the brace behind them. -/
theorem namesWithComments_namesTokens {names : List String} (hne : names ≠ [])
    (hls : ls.map Lexeme.token = namesTokens names) (hr : r.isSymbol "\x7b" = true) {fuel : Nat}
    (hfuel : names.length ≤ fuel) :
    namesWithComments fuel (ls ++ r :: rest) = some (names, r :: rest) := by
  induction names generalizing ls fuel with
  | nil => exact absurd rfl hne
  | cons name names ih =>
    obtain ⟨fuel, rfl⟩ : ∃ k, fuel = k + 1 := ⟨fuel - 1, by rw [List.length_cons] at hfuel; omega⟩
    rw [List.length_cons, Nat.succ_le_succ_iff] at hfuel
    obtain ⟨l, ls', rfl, hl, rfl, hls'⟩ := exists_of_word hls
    have hextra := isExtra_of_kind (.inl hl)
    rcases exists_of_commaBefore hls' with ⟨rfl, hnil⟩ | ⟨comma, ls₁, hnames, rfl, hcomma, hls₁⟩
    · rw [namesTokens, List.map_eq_nil_iff] at hnil
      subst hnil
      have hextra' := isExtra_of_isSymbol hr
      have hname : qualifiedName (l :: r :: rest) = some (l.text, r :: rest) :=
        qualifiedName_cons hl hextra' (isSymbol_of_isSymbol hr (by decide))
      have hcomma : r.isSymbol "," = false := isSymbol_of_isSymbol hr (by decide)
      simp [namesWithComments, extras_cons hextra, hname, extras_cons hextra',
        symbol?_cons_of_not hextra' hcomma]
    · have hextra' := isExtra_of_isSymbol hcomma
      have hname : qualifiedName (l :: comma :: (ls₁ ++ r :: rest)) =
          some (l.text, comma :: (ls₁ ++ r :: rest)) :=
        qualifiedName_cons hl hextra' (isSymbol_of_isSymbol hcomma (by decide))
      simp [namesWithComments, extras_cons hextra, hname, extras_cons hextra', symbol?_cons hcomma,
        ih hnames hls₁ hfuel]

theorem length_namesTokens_ge (names : List String) :
    names.length ≤ (namesTokens names).length := by
  induction names with
  | nil => exact Nat.le_refl 0
  | cons name names ih =>
    simp only [namesTokens, List.length_cons, List.length_append]
    omega

/-- The interfaces of a class are read up to the brace behind them. -/
theorem namesBehind_interfacesTokens {names : List String}
    (hls : ls.map Lexeme.token = interfacesTokens names) (hr : r.isSymbol "\x7b" = true) :
    namesBehind "implements" (ls ++ r :: rest) = some (names, r :: rest) := by
  have hextra := isExtra_of_isSymbol hr
  cases names with
  | nil =>
    rw [interfacesTokens, List.isEmpty_nil, if_pos rfl, List.map_eq_nil_iff] at hls
    subst hls
    have hword : r.isWord "implements" = false := by
      simp only [Lexeme.isSymbol, Bool.and_eq_true, beq_iff_eq] at hr
      simp [Lexeme.isWord, hr]
    simp [namesBehind, word?_cons_of_not hextra hword]
  | cons name names =>
    obtain ⟨keyword, lsn, rfl, hkeyword, htext, hlsn⟩ := exists_of_word hls
    have hword : keyword.isWord "implements" = true := by
      rw [isWord_of_kind hkeyword, htext]
      decide
    have hlength := length_namesTokens_ge (name :: names)
    rw [← hlsn, List.length_map] at hlength
    have hread : namesWithComments ((lsn ++ r :: rest).length + 1) (lsn ++ r :: rest) =
        some (name :: names, r :: rest) :=
      namesWithComments_namesTokens (List.cons_ne_nil _ _) hlsn hr
        (by rw [List.length_append]; omega)
    rw [namesBehind, List.cons_append, bind_apply, word?_cons hword, Option.bind_some, if_pos rfl,
      bounded_apply, hread]

/-- A member starts with a word. -/
theorem head_memberTokens {k : MemberKind} (h : PlainMemberKind k) (lead : String) :
    ∃ t ts, memberTokens lead k = t :: ts ∧ startsOperand t = true := by
  cases h <;> exact ⟨_, _, rfl, rfl⟩

/-- What is read of members are their kinds. -/
theorem kinds_membersOf {ms : List (String × MemberKind)} {parts : List (Part MemberKind)}
    (h : PartsOf leadTokens (fun m k => MemberReadAs m.2 k) ms parts) :
    List.Forall₂ (fun m m' => MemberReadAs m.2 m'.kind) ms (membersOf parts) := by
  have hafter : ∀ (last : Nat) (before : Member) {ms : List (String × MemberKind)}
      {parts : List (Part MemberKind)}, PartsOf leadTokens (fun m k => MemberReadAs m.2 k) ms parts →
      ∃ ms', membersAfter last before parts = before :: ms' ∧
        List.Forall₂ (fun m m' => MemberReadAs m.2 m'.kind) ms ms' := by
    intro last before ms parts h
    induction h generalizing last before with
    | nil => exact ⟨[], rfl, .nil⟩
    | cons hp hps ih =>
      obtain ⟨ls, k, rfl, -, hk⟩ := hp
      obtain ⟨ms', hms', hothers⟩ := ih (Part.node ls k).endRow
        (membersAfter.memberOf (.node ls k))
      refine ⟨membersAfter.memberOf (.node ls k) :: ms', ?_, .cons hk hothers⟩
      simp only [membersAfter, Part.comment?, hms']
  cases h with
  | nil => exact .nil
  | cons hp hps =>
    obtain ⟨ls, k, rfl, -, hk⟩ := hp
    obtain ⟨ms', hms', hothers⟩ := hafter (Part.node ls k).endRow
      (membersAfter.memberOf (.node ls k)) hps
    rw [membersOf, hms']
    exact .cons hk hothers

/-- The kinds of members with the white space in front of them are those of the members. -/
theorem forall₂_leads {ms ms' : List Member}
    (h : List.Forall₂ (fun m m' => MemberReadAs m.2 m'.kind) (leads ms) ms') :
    List.Forall₂ (fun m m' => MemberReadAs m.kind m'.kind) ms ms' := by
  have hafter : ∀ (before : MemberKind) {ms ms' : List Member},
      List.Forall₂ (fun m m' => MemberReadAs m.2 m'.kind) (leadsAfter before ms) ms' →
      List.Forall₂ (fun m m' => MemberReadAs m.kind m'.kind) ms ms' := by
    intro before ms
    induction ms generalizing before with
    | nil =>
      intro ms' h
      cases h
      exact .nil
    | cons m ms ih =>
      intro ms' h
      cases h with
      | cons hm hms => exact .cons hm (ih _ hms)
  cases ms with
  | nil =>
    cases h
    exact .nil
  | cons m ms =>
    cases h with
    | cons hm hms => exact .cons hm (hafter _ hms)

/-- How a class is read back: with the same head, and each member as it is read back. -/
structure ClassReadAs (c c' : ClassDecl) : Prop where
  head : c' = { c with members := c'.members }
  members : List.Forall₂ (fun m m' => MemberReadAs m.kind m'.kind) c.members c'.members

variable (rest) in
/-- The body of a class is read back. -/
theorem classBody_membersTokens (n : Nat) {ms : List Member} (h : ∀ m ∈ ms, PlainMember m)
    (hls : ls.map Lexeme.token =
      .sym "\n" "\x7b" :: (membersTokens (leads ms) ++ [.sym "\n" "\x7d"])) (hn : ls.length ≤ n) :
    ∃ ms', classBody (rulesAt (n + 2)) (ls ++ rest) = some (ms', rest) ∧
      List.Forall₂ (fun m m' => MemberReadAs m.kind m'.kind) ms ms' := by
  obtain ⟨l, ls₁, rfl, hl, hls₁⟩ := exists_of_sym hls
  obtain ⟨lsm, lsr, rfl, hlsm, hlsr⟩ := List.map_eq_append_iff.1 hls₁
  obtain ⟨r, rfl, hr⟩ := exists_of_sym_single hlsr
  simp only [List.length_cons, List.length_append] at hn
  have hplain := leads_spec h
  obtain ⟨parts, hparts, hkinds⟩ : ∃ parts, bounded (partsUntil closesBlock
      (member (rulesAt (n + 2)))) (lsm ++ r :: rest) = some (parts, r :: rest) ∧
        PartsOf leadTokens (fun m k => MemberReadAs m.2 k) (leads ms) parts :=
    partsUntil_brace (fun m hm => head_memberTokens (hplain m hm).2 m.1)
      (fun m hm _ _ hls hn => member_memberTokens (hplain m hm).2 hls hn) hr hlsm (by omega)
  refine ⟨membersOf parts, ?_, forall₂_leads (kinds_membersOf hkinds)⟩
  have hshape : l :: (lsm ++ [r]) ++ rest = l :: (lsm ++ r :: rest) := by simp
  rw [hshape, classBody, bind_apply, symbol_cons hl, Option.bind_some, bind_apply, hparts]
  simp [symbol_cons hr]

variable (rest) in
/-- A class is read back behind its attributes. -/
theorem classDecl_classTokens {n : Nat} {c : ClassDecl} (h : PlainClass c) {lead : String}
    (hls : ls.map Lexeme.token = classTokens lead c) (hn : ls.length ≤ n) :
    ∃ c', classDecl (rulesAt (n + 2)) [] (ls ++ rest) = some (c', rest) ∧ ClassReadAs c c' := by
  obtain ⟨final, ls₁, rfl, hfinal, hfinalText, hls₁⟩ := exists_of_word hls
  obtain ⟨keyword, ls₂, rfl, hkeyword, htext, hls₂⟩ := exists_of_word hls₁
  obtain ⟨l, ls₃, rfl, hl, hname, hls₃⟩ := exists_of_word hls₂
  obtain ⟨lsi, lsb, rfl, hlsi, hlsb⟩ := List.map_eq_append_iff.1 hls₃
  obtain ⟨brace, lsb', hbrace, hsymbol, -⟩ := exists_of_sym hlsb
  have hmodifiers : modifiers classModifiers
      (final :: keyword :: l :: (lsi ++ (lsb ++ rest))) =
        some (["final"], keyword :: l :: (lsi ++ (lsb ++ rest))) := by
    have hread := modifiers_words (l :: (lsi ++ (lsb ++ rest))) classModifiers [final] (l := keyword)
      (List.forall_mem_singleton.2 (by
        simp only [isOneOf, isWord_of_kind hfinal, hfinalText]
        decide))
      (isExtra_of_kind (.inl hkeyword)) (by simp [Lexeme.isSymbol, hkeyword]) (by
        simp only [isOneOf, isWord_of_kind hkeyword, htext]
        decide)
    simpa [hfinalText] using hread
  have hclass : keyword.isWord "class" = true := by
    rw [isWord_of_kind hkeyword, htext]
    decide
  have hextends : namesBehind "extends" (lsi ++ (lsb ++ rest)) =
      some ([], lsi ++ (lsb ++ rest)) := by
    have hnot : ∃ next others, lsi ++ (lsb ++ rest) = next :: others ∧ next.isExtra = false ∧
        next.isWord "extends" = false := by
      rw [interfacesTokens] at hlsi
      split at hlsi
      · rw [List.map_eq_nil_iff] at hlsi
        have hkind := hsymbol
        simp only [Lexeme.isSymbol, Bool.and_eq_true, beq_iff_eq] at hkind
        rw [hlsi, hbrace]
        exact ⟨brace, _, rfl, isExtra_of_isSymbol hsymbol, by simp [Lexeme.isWord, hkind]⟩
      · obtain ⟨next, others, rfl, hnext, hnextText, -⟩ := exists_of_word hlsi
        refine ⟨next, _, rfl, isExtra_of_kind (.inl hnext), ?_⟩
        rw [isWord_of_kind hnext, hnextText]
        decide
    obtain ⟨next, others, hnext, hextra, hword⟩ := hnot
    simp [hnext, namesBehind, word?_cons_of_not hextra hword]
  have hinterfaces : namesBehind "implements" (lsi ++ (lsb ++ rest)) =
      some (c.interfaces, lsb ++ rest) := by
    rw [hbrace]
    exact namesBehind_interfacesTokens hlsi hsymbol
  obtain ⟨ms', hbody, hmembers⟩ := classBody_membersTokens rest n h.members hlsb
    (by
      simp only [List.length_cons, List.length_append] at hn
      omega)
  refine ⟨⟨[], ["final"], c.name, none, c.interfaces, ms'⟩, ?_, ?_, hmembers⟩
  · have hfold : Text.foldAscii "final" = "final" := by decide
    simp [classDecl, hmodifiers, word_cons hclass, anyWord_cons hl, hname, classTail, hextends,
      hinterfaces, hbody, hfold]
  · rw [h.eq]

/-- A class is read back. -/
theorem statementAt_classTokens {n : Nat} {c : ClassDecl} (h : PlainClass c) {lead : String}
    (hls : ls.map Lexeme.token = classTokens lead c) (hn : ls.length ≤ n) :
    ∃ c', statementAt (n + 3) (ls ++ rest) = some (.classDecl c', rest) ∧ ClassReadAs c c' := by
  obtain ⟨c', hread, hmembers⟩ := classDecl_classTokens rest h hls hn
  obtain ⟨final, ls₁, rfl, hfinal, hfinalText, hls₁⟩ := exists_of_word hls
  obtain ⟨keyword, ls₂, rfl, hkeyword, htext, hls₂⟩ := exists_of_word hls₁
  have hextra := isExtra_of_kind (.inl hfinal)
  have hextra' := isExtra_of_kind (.inl hkeyword)
  have hfold : Text.foldAscii "final" = "final" := by decide
  have hword : ∀ w, w ≠ "final" → final.isWord w = false := fun w hw => by
    rw [isWord_of_kind hfinal, hfinalText, hfold, beq_eq_false_iff_ne]
    exact hw.symm
  have hlabel : keyword.isSymbol ":" = false := by simp [Lexeme.isSymbol, hkeyword]
  have hgroup : final.isSymbol "#[" = false := by simp [Lexeme.isSymbol, hfinal]
  have hmodifiers := modifiers_words (ls₂ ++ rest) classModifiers [final] (l := keyword)
    (List.forall_mem_singleton.2 (by
      simp only [isOneOf, isWord_of_kind hfinal, hfinalText]
      decide))
    hextra' (by simp [Lexeme.isSymbol, hkeyword]) (by
      simp only [isOneOf, isWord_of_kind hkeyword, htext]
      decide)
  have hahead : aheadClass (final :: keyword :: (ls₂ ++ rest)) =
      some (true, final :: keyword :: (ls₂ ++ rest)) := by
    have hclass : keyword.isWord "class" = true := by
      rw [isWord_of_kind hkeyword, htext]
      decide
    rw [List.singleton_append] at hmodifiers
    simp [aheadClass, hmodifiers, ahead_cons hextra', hclass]
  refine ⟨c', ?_, hmembers⟩
  have hdeclaration : declaration (rulesAt (n + 2)) (final :: keyword :: (ls₂ ++ rest)) =
      some (.classDecl c', rest) := by
    rw [List.cons_append, List.cons_append] at hread
    simp [declaration, attributes, ahead_cons hextra, hgroup, hahead, hread]
  have hlike : aheadClassLike (final :: keyword :: (ls₂ ++ rest)) =
      some (false, final :: keyword :: (ls₂ ++ rest)) := by
    simp [aheadClassLike, ahead_cons hextra, aheadSecond_cons hextra hextra', isOneOf, hword]
  have hfunction : aheadFunction (final :: keyword :: (ls₂ ++ rest)) =
      some (false, final :: keyword :: (ls₂ ++ rest)) := by
    simp [aheadFunction, ahead_cons hextra, aheadSecond_cons hextra hextra', aheadThird, hword]
  have htail : wordStatement? (rulesAt (n + 2)) final = none := by
    rw [wordStatement?, hfinalText, hfold]
    rfl
  show statementRule (rulesAt (n + 2)) _ = _
  simp [statementRule, peek_cons hextra, hfinal, startingWithWord,
    aheadSecond_cons hextra hextra', hlabel, htail, word?_cons_of_not hextra, hword, hahead,
    hlike, hfunction, hdeclaration]

end Grammar

end DomainScaffold.Php
