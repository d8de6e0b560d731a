import DomainScaffold.Proofs.Schema.History

/-!
# Chains of references

What a reference stands for is found link by link: the definition that it names may be a reference
again. Of such a chain only its end and what is carried along count: the type behind it has the name
and the flag `required` of the first link, it is nullable if some link is, and the name of the last
definition stands in for a missing title.

Results:
* `resolveIn_leads`: what is found along a chain is `standsIn` of its end.
* `goes_on_or_ends`: there is a chain with any number of links, or one that ends.
* `resolve_links`: which type a reference stands for, and why it stands for none.
-/

namespace DomainScaffold.Schema

open SchemaType

/-! ## Links -/

/-- A reference of which nothing was resolved. -/
structure Link where
  info : Info
  target : String
  pointer : String

/-- The node of a link. -/
def Link.node (l : Link) : SchemaType := .node l.info (.reference l.target l.pointer none)

/-- Whether a type is a reference. -/
def IsReference (t : SchemaType) : Prop :=
  ∃ target pointer kept, t.shape = .reference target pointer kept

/-- From a type, the look-up leads along links to another one. -/
inductive Leads (find : String → Option SchemaType) (t : SchemaType) :
    List Link → SchemaType → Prop where
  | here : Leads find t [] t
  | follow {links : List Link} {l : Link} {u : SchemaType} (h : Leads find t links l.node)
      (hu : find l.target = some u) : Leads find t (links ++ [l]) u

/-- The type behind links, in the place of the one that they start from. -/
def standsIn (t : SchemaType) (links : List Link) (u : SchemaType) : SchemaType :=
  u.withInfo { u.info with
    name := t.info.name
    required := t.info.required
    nullable := links.any (·.info.nullable) || u.info.nullable
    title := u.info.title.or (links.getLast?.map Link.target) }

/-! ## Following a chain -/

section Chains

variable {find : String → Option SchemaType} {links rest before cycle : List Link} {l : Link}
  {t u v : SchemaType} {n : Nat}

/-- What a look-up finds was just read: nothing is kept in it, and it has no name. -/
def JustRead (find : String → Option SchemaType) : Prop :=
  ∀ name d, find name = some d → d.bare = d ∧ d.info.name = none

theorem Leads.trans (h : Leads find t links u) (hrest : Leads find u rest v) :
    Leads find t (links ++ rest) v := by
  induction hrest with
  | here =>
    rw [List.append_nil]
    exact h
  | follow _ hu ih =>
    rw [← List.append_assoc]
    exact .follow ih hu

/-- A chain has shorter ones with any number of links. -/
theorem Leads.exists_length (h : Leads find t links u) (hn : n ≤ links.length) :
    ∃ links u, Leads find t links u ∧ links.length = n := by
  induction h with
  | here => exact ⟨[], t, .here, (Nat.le_zero.1 hn).symm⟩
  | @follow links l u h hu ih =>
    rcases Nat.lt_or_eq_of_le hn with hlt | heq
    · rw [List.length_append, List.length_singleton] at hlt
      exact ih (Nat.le_of_lt_succ hlt)
    · exact ⟨links ++ [l], u, .follow h hu, heq.symm⟩

/-- A cycle can be passed any number of times. -/
theorem Leads.exists_length_of_cycle (h : Leads find t before u) (hcycle : Leads find u cycle u)
    (hne : cycle ≠ []) (n : Nat) : ∃ links u, Leads find t links u ∧ links.length = n := by
  suffices hlong : ∃ links, Leads find t links u ∧ n ≤ links.length by
    obtain ⟨links, hlinks, hn⟩ := hlong
    exact hlinks.exists_length hn
  induction n with
  | zero => exact ⟨before, h, Nat.zero_le _⟩
  | succ n ih =>
    obtain ⟨links, hlinks, hn⟩ := ih
    refine ⟨links ++ cycle, hlinks.trans hcycle, ?_⟩
    have := List.length_pos_iff.2 hne
    rw [List.length_append]
    omega

theorem Leads.bare (hfind : JustRead find) (ht : t.bare = t) (h : Leads find t links u) :
    u.bare = u := by
  cases h with
  | here => exact ht
  | follow _ hu => exact (hfind _ _ hu).1

/-- A reference of which nothing was resolved is a link. -/
theorem exists_link (ht : t.bare = t) (href : IsReference t) : ∃ l : Link, t = l.node := by
  obtain ⟨info, shape⟩ := t
  obtain ⟨target, pointer, kept, rfl⟩ := href
  obtain rfl : kept = none := child?_resolved_of_bare ht
  exact ⟨⟨info, target, pointer⟩, rfl⟩

/-- There is a chain with as many links as one likes, or one that ends before: with a type that is
    no reference, or with a reference to no definition. -/
theorem goes_on_or_ends (hfind : JustRead find) (ht : t.bare = t) (n : Nat) :
    (∃ links u, Leads find t links u ∧ links.length = n) ∨
    (∃ links u, Leads find t links u ∧ links.length < n ∧ ¬IsReference u) ∨
    ∃ (links : List Link) (l : Link),
      Leads find t links l.node ∧ links.length < n ∧ find l.target = none := by
  induction n with
  | zero => exact .inl ⟨[], t, .here, rfl⟩
  | succ n ih =>
    rcases ih with ⟨links, u, h, hn⟩ | ⟨links, u, h, hn, hu⟩ | ⟨links, l, h, hn, hl⟩
    · by_cases href : IsReference u
      · obtain ⟨l, rfl⟩ := exists_link (h.bare hfind ht) href
        cases hl : find l.target with
        | none => exact .inr (.inr ⟨links, l, h, by omega, hl⟩)
        | some v =>
          refine .inl ⟨links ++ [l], v, .follow h hl, ?_⟩
          rw [List.length_append, List.length_singleton, hn]
      · exact .inr (.inl ⟨links, u, h, by omega, href⟩)
    · exact .inr (.inl ⟨links, u, h, by omega, hu⟩)
    · exact .inr (.inr ⟨links, l, h, by omega, hl⟩)

/-! ## What is carried along -/

theorem standsIn_nil (t : SchemaType) : standsIn t [] t = t := by
  obtain ⟨info, shape⟩ := t
  rw [standsIn, List.any_nil, Bool.false_or, List.getLast?_nil, Option.map_none, Option.or_none]
  rfl

theorem standsIn_append (hu : u.info.name = none) :
    standsIn t (links ++ [l]) u = inPlaceOf (standsIn t links l.node).info l.target u := by
  simp only [standsIn, inPlaceOf, withInfo, info_node, hu, Option.or_none, List.any_append,
    List.any_cons, List.any_nil, Bool.or_false, List.getLast?_concat, Option.map_some, Link.node,
    Bool.or_comm u.info.nullable]

/-- What is found along a chain is its end, in the place of its start. -/
theorem resolveIn_leads (hfind : JustRead find) (h : Leads find t links u) (n : Nat) :
    (resolveIn find (n + links.length) t).2 = (resolveIn find n (standsIn t links u)).2 := by
  induction h generalizing n with
  | here => rw [List.length_nil, Nat.add_zero, standsIn_nil]
  | @follow links l u h hu ih =>
    have hlink : standsIn t links l.node =
        .node (standsIn t links l.node).info (.reference l.target l.pointer none) := rfl
    rw [List.length_append, List.length_singleton, Nat.add_comm links.length, ← Nat.add_assoc, ih,
      hlink, resolveIn_reference, hu, Option.none_or, Option.map_some,
      standsIn_append (hfind _ _ hu).2]

theorem resolveIn_of_long (hfind : JustRead find) (h : Leads find t links u) :
    (resolveIn find links.length t).2 = .error (.invalidSchema "reference chain too deep") := by
  have hleads := resolveIn_leads hfind h 0
  rw [Nat.zero_add] at hleads
  exact hleads

theorem resolveIn_of_end (hfind : JustRead find) (h : Leads find t links u)
    (hn : links.length < n) (hu : ¬IsReference u) :
    (resolveIn find n t).2 = .ok (standsIn t links u) := by
  obtain ⟨k, rfl⟩ := Nat.exists_eq_add_of_lt hn
  rw [Nat.add_assoc, Nat.add_comm, resolveIn_leads hfind h, resolveIn_of_not_reference]
  exact fun target pointer kept hshape => hu ⟨target, pointer, kept, hshape⟩

theorem resolveIn_of_unknown (hfind : JustRead find) (h : Leads find t links l.node)
    (hn : links.length < n) (hl : find l.target = none) :
    (resolveIn find n t).2 = .error (.unknownReference l.pointer) := by
  obtain ⟨k, rfl⟩ := Nat.exists_eq_add_of_lt hn
  have hlink : standsIn t links l.node =
      .node (standsIn t links l.node).info (.reference l.target l.pointer none) := rfl
  rw [Nat.add_assoc, Nat.add_comm, resolveIn_leads hfind h, hlink, resolveIn_reference, hl]
  rfl

/-- Every type is followed to the end of a chain, unless that is too long. -/
theorem resolveIn_ends (hfind : JustRead find) (ht : t.bare = t) (n : Nat) :
    (resolveIn find n t).2 = .error (.invalidSchema "reference chain too deep") ∨
    (∃ links u, (resolveIn find n t).2 = .ok (standsIn t links u) ∧ Leads find t links u ∧
      ¬IsReference u ∧ links.length < n) ∨
    ∃ (links : List Link) (l : Link),
      (resolveIn find n t).2 = .error (.unknownReference l.pointer) ∧
      Leads find t links l.node ∧ find l.target = none ∧ links.length < n := by
  rcases goes_on_or_ends hfind ht n with ⟨links, u, h, rfl⟩ | ⟨links, u, h, hn, hu⟩ |
    ⟨links, l, h, hn, hl⟩
  · exact .inl (resolveIn_of_long hfind h)
  · exact .inr (.inl ⟨links, u, resolveIn_of_end hfind h hn hu, h, hu, hn⟩)
  · exact .inr (.inr ⟨links, l, resolveIn_of_unknown hfind h hn hl, h, hl, hn⟩)

end Chains

/-! ## Registries -/

section Registries

variable {start r : Registry} {p q : Position} {links : List Link} {t u c : SchemaType} {n : Nat}

theorem justRead_of_schema {schema : Json} {schemas : List (String × Json)}
    (htypes : TypeSet.ofSchema schema = .ok start.types)
    (hshared : Definitions.ofSchemas schemas = .ok start.shared) : JustRead start.find? := by
  intro name d hd
  rw [← Registry.tree?_place] at hd
  obtain ⟨s, hs⟩ := exists_typeOf htypes hshared hd
  exact ⟨bare_typeOf hs, (root_of_typeOf hs).1⟩

theorem bare_of_typeAt? (hfresh : start.Fresh) (hp : start.typeAt? p = some t) : t.bare = t := by
  obtain ⟨origin, moves⟩ := p
  obtain ⟨d, hd, hbelow⟩ := Option.bind_eq_some_iff.1 hp
  have hbare : d.bare = d := hfresh origin d hd
  clear hp hd
  induction moves generalizing d with
  | nil => exact Option.some.inj hbelow ▸ hbare
  | cons move moves ih =>
    obtain ⟨e, he, hbelow⟩ := Option.bind_eq_some_iff.1 hbelow
    exact ih e hbelow (bare_of_child? hbare he)

/-- Of the definitions, at most the one at a position keeps what it was resolved to. -/
def KeepsAtMost (start : Registry) (p : Position) (r : Registry) : Prop :=
  ∀ name d, r.tree? (start.place name).origin = some d → child? .resolved d ≠ none →
    start.place name = p

theorem keepsAtMost_replaceAt (h : KeepsAtMost start p r) (hq : r.typeAt? q = some c)
    (hmoves : q.moves = [] → q = p) (new : SchemaType) :
    KeepsAtMost start p (r.replaceAt q new) := by
  intro name d hd hne
  obtain ⟨tree, htree, -⟩ := Option.bind_eq_some_iff.1 hq
  rw [Registry.tree?_replaceAt htree] at hd
  split at hd
  · rename_i horigin
    obtain rfl := Option.some.inj hd
    obtain ⟨origin, moves⟩ := q
    cases moves with
    | nil => exact (congrArg (Position.mk · []) horigin).trans (hmoves rfl)
    | cons move moves =>
      exact h name tree (horigin ▸ htree) fun hnone => hne (child?_resolved_replaceBelow hnone)
  · exact h name d hd hne

theorem resolveLinks_of_not_reference (hq : r.typeAt? q = some c) (hc : ¬IsReference c) :
    r.resolveLinks (n + 1) q = (r, .ok q) := by
  obtain ⟨info, shape⟩ := c
  rw [Registry.resolveLinks, hq]
  cases shape with
  | reference => exact absurd ⟨_, _, _, rfl⟩ hc
  | _ => rfl

/-- A call on a chain that does not come back to its start finds what stands in its place when
    nothing is kept: the only definition that the call itself changes is the one it started from.
    The induction is on the links that may be followed. -/
theorem resolveLinks_of_acyclic (hfresh : start.Fresh) (hfind : JustRead start.find?)
    (hp : start.typeAt? p = some t) (hback : ∀ links, Leads start.find? t links t → links = [])
    (hr : Sound false start r)
    (hkeeps : KeepsAtMost start p r) (hq : r.typeAt? q = some c) (hmoves : q.moves = [] → q = p)
    (hlead : Leads start.find? t links u) (hc : c.bare = standsIn t links u)
    (hnone : child? .resolved c = none) :
    ((r.resolveLinks n q).2.map fun q' =>
        ((r.resolveLinks n q).1.typeAt? q').map SchemaType.bare) =
      (resolveIn start.find? n (standsIn t links u)).2.map some := by
  induction n generalizing r q c links u with
  | zero => rfl
  | succ n ih =>
    obtain ⟨i, shape⟩ := c
    by_cases href : IsReference (.node i shape)
    case neg =>
      have hin : resolveIn start.find? (n + 1) (standsIn t links u) =
          (standsIn t links u, .ok (standsIn t links u)) :=
        resolveIn_of_not_reference _ _ fun target pointer kept h => by
          rw [← hc, SchemaType.bare, shape_node] at h
          cases shape <;> first | exact href ⟨_, _, _, rfl⟩ | cases h
      rw [resolveLinks_of_not_reference hq href, hin, Except.map, Except.map, hq, Option.map_some,
        hc]
    case pos =>
      obtain ⟨target, pointer, kept, rfl⟩ := href
      obtain rfl : kept = none := hnone
      -- The end of the chain so far is a link itself.
      obtain ⟨j, shape'⟩ := u
      have hstands : standsIn t links (.node j shape') =
          .node i (.reference target pointer none) := hc.symm
      obtain rfl : shape' = .reference target pointer none := (node.inj hstands).2
      rw [Registry.resolveLinks, hq, hstands, resolveIn_reference, Option.none_or]
      dsimp only
      rw [Option.none_or]
      cases hd' : lookup? r.types r.shared target with
      | none =>
        have hd : start.find? target = none := by
          rw [← map_bare_find? hr, Registry.find?, hd', Option.map_none]
        rw [hd]
        rfl
      | some d' =>
        have hplace : r.tree? (start.place target).origin = some d' := by
          rw [← place_eq hr, Registry.tree?_place, Registry.find?, hd']
        have hd : start.find? target = some d'.bare := by
          rw [← map_bare_find? hr, Registry.find?, hd', Option.map_some]
        have hlead' : Leads start.find? t (links ++ [⟨j, target, pointer⟩]) d'.bare :=
          .follow hlead hd
        have hnone' : child? .resolved d' = none := Classical.byContradiction fun hne => by
          obtain rfl := hkeeps target d' hplace hne
          rw [Registry.typeAt?, Registry.tree?_place, hd] at hp
          obtain rfl : d'.bare = t := Option.some.inj hp
          exact List.append_ne_nil_of_right_ne_nil _ (List.cons_ne_nil _ _) (hback _ hlead')
        obtain ⟨hfits, hkeepsOnly⟩ := fits_of_link (k := inPlaceOf i target d') hfresh hr hq
          (by rw [Registry.find?, hd', Option.none_or, Option.map_some])
        rw [hd, Option.map_some, Option.map_some]
        have hinfo : (standsIn t links (.node j (.reference target pointer none))).info = i :=
          (node.inj hstands).1
        have hnext : (inPlaceOf i target d').bare =
            standsIn t (links ++ [⟨j, target, pointer⟩]) d'.bare := by
          rw [standsIn_append (hfind _ _ hd).2, bare_inPlaceOf, Link.node, hinfo]
        rw [← bare_inPlaceOf, hnext]
        exact ih (sound_replaceAt hr hq hfits hkeepsOnly fun h => absurd h Bool.false_ne_true)
          (keepsAtMost_replaceAt hkeeps hq hmoves _) (Registry.typeAt?_below hq rfl)
          (fun h => absurd h (List.append_ne_nil_of_right_ne_nil _ (List.cons_ne_nil _ _)))
          hlead' hnext hnone'

/-- The first call finds what stands in its place when nothing is kept. -/
theorem answerAt_of_ok (hfresh : start.Fresh) (hfind : JustRead start.find?)
    (hp : start.typeAt? p = some t) (hback : ∀ links, Leads start.find? t links t → links = []) :
    (start.answerAt p).map (Option.map SchemaType.bare) = (start.resolve t).map some := by
  have hbare : t.bare = t := bare_of_typeAt? hfresh hp
  have hkeeps : KeepsAtMost start p start := fun name d hd hne =>
    absurd (child?_resolved_of_bare (hfresh _ d hd)) hne
  have hanswer := resolveLinks_of_acyclic (n := maxLinks) hfresh hfind hp hback
    (sound_refl hfresh) hkeeps hp (fun _ => rfl) .here (hbare.trans (standsIn_nil t).symm)
    (child?_resolved_of_bare hbare)
  rw [standsIn_nil] at hanswer
  refine Eq.trans ?_ hanswer
  rw [Registry.answerAt, Registry.resolveAt]
  cases (start.resolveLinks maxLinks p).2 <;> rfl

/-- Where nothing is found, a call says why as if nothing was kept. -/
theorem answerAt_of_error (hfresh : start.Fresh) (hp : start.typeAt? p = some t)
    {e : GenerationError} (h : start.resolve t = .error e) :
    (start.answerAt p).map (Option.map SchemaType.bare) = .error e := by
  have hanswer : ((start.after []).answerAt p).map (Option.map (seen false)) =
      (start.resolve t.bare).map fun u => some (seen false u) :=
    answerAt_after hfresh (fun h => nomatch h) hp
  change (start.answerAt p).map (Option.map (seen false)) = _ at hanswer
  rw [bare_of_typeAt? hfresh hp, h] at hanswer
  cases hans : start.answerAt p with
  | error e' =>
    rw [hans] at hanswer
    cases hanswer
    rfl
  | ok u =>
    rw [hans] at hanswer
    cases hanswer

/-- What resolving gives back where nothing was resolved before. A type is found exactly behind at
    most 31 references, and has the name and the flag `required` of the first one; it is nullable if
    a link or the type itself is, and the last name stands in for its title. A definition that is
    missing is reported if it is one of the first 32 on the way, and everything else is too deep, a
    cycle in particular. A call that keeps what it finds gives the same. -/
theorem resolve_links {schema : Json} {schemas : List (String × Json)} {r : Registry}
    (htypes : TypeSet.ofSchema schema = .ok r.types)
    (hshared : Definitions.ofSchemas schemas = .ok r.shared) {p : Position} {t : SchemaType}
    (hp : r.typeAt? p = some t) :
    (∀ a, r.resolve t = .ok a ↔
      ∃ links u, Leads r.find? t links u ∧ ¬IsReference u ∧ links.length ≤ 31 ∧
        a = standsIn t links u) ∧
    (∀ pointer, r.resolve t = .error (.unknownReference pointer) ↔
      ∃ (links : List Link) (l : Link), Leads r.find? t links l.node ∧ r.find? l.target = none ∧
        links.length ≤ 31 ∧ l.pointer = pointer) ∧
    ((∀ a, r.resolve t ≠ .ok a) → (∀ pointer, r.resolve t ≠ .error (.unknownReference pointer)) →
      r.resolve t = .error (.invalidSchema "reference chain too deep")) ∧
    (∀ before cycle u, Leads r.find? t before u → Leads r.find? u cycle u → cycle ≠ [] →
      r.resolve t = .error (.invalidSchema "reference chain too deep")) ∧
    (r.answerAt p).map (Option.map SchemaType.bare) = (r.resolve t).map some := by
  have hfresh : r.Fresh := fresh_of_schema htypes hshared
  have hfind : JustRead r.find? := justRead_of_schema htypes hshared
  have hbare : t.bare = t := bare_of_typeAt? hfresh hp
  have hcycle : ∀ before cycle u, Leads r.find? t before u → Leads r.find? u cycle u → cycle ≠ [] →
      r.resolve t = .error (.invalidSchema "reference chain too deep") := by
    intro before cycle u hbefore hcycle hne
    obtain ⟨links, v, hlinks, hlength⟩ := hbefore.exists_length_of_cycle hcycle hne maxLinks
    have hlong := resolveIn_of_long hfind hlinks
    rw [hlength] at hlong
    exact hlong
  have hends := resolveIn_ends hfind hbare maxLinks
  refine ⟨fun a => ⟨fun h => ?_, ?_⟩, fun pointer => ⟨fun h => ?_, ?_⟩, fun hok hunknown => ?_,
    hcycle, ?_⟩
  · rcases hends with hdeep | ⟨links, u, hok, hlinks, hu, hlength⟩ | ⟨links, l, hunknown, -⟩
    · cases h.symm.trans hdeep
    · exact ⟨links, u, hlinks, hu, Nat.le_of_lt_succ hlength, Except.ok.inj (h.symm.trans hok)⟩
    · cases h.symm.trans hunknown
  · rintro ⟨links, u, hlinks, hu, hlength, rfl⟩
    exact resolveIn_of_end hfind hlinks (Nat.lt_succ_of_le hlength) hu
  · rcases hends with hdeep | ⟨links, u, hok, -⟩ | ⟨links, l, hunknown, hlinks, hl, hlength⟩
    · cases h.symm.trans hdeep
    · cases h.symm.trans hok
    · refine ⟨links, l, hlinks, hl, Nat.le_of_lt_succ hlength, ?_⟩
      exact (GenerationError.unknownReference.inj (Except.error.inj (h.symm.trans hunknown))).symm
  · rintro ⟨links, l, hlinks, hl, hlength, rfl⟩
    exact resolveIn_of_unknown hfind hlinks (Nat.lt_succ_of_le hlength) hl
  · rcases hends with hdeep | ⟨links, u, h, -⟩ | ⟨links, l, h, -⟩
    · exact hdeep
    · exact absurd h (hok _)
    · exact absurd h (hunknown _)
  · cases h : r.resolve t with
    | error e => exact answerAt_of_error hfresh hp h
    | ok a =>
      rw [← h]
      refine answerAt_of_ok hfresh hfind hp fun links hlinks =>
        Classical.byContradiction fun hne => ?_
      rw [hcycle [] links t .here hlinks hne] at h
      cases h

/-- The property refers to a title, which refers to a text. -/
theorem resolve_links_titled :
    TypeSet.ofSchema titledSchema = .ok titled.types ∧
    Definitions.ofSchemas [] = .ok titled.shared ∧
    titled.typeAt? ⟨.root, [.property "name"]⟩ =
      some (.node ⟨some "name", none, none, true, false⟩
        (.reference "Title" "#/definitions/Title" none)) ∧
    titled.resolve (.node ⟨some "name", none, none, true, false⟩
        (.reference "Title" "#/definitions/Title" none)) =
      .ok (.node ⟨some "name", some "Text", none, true, false⟩
        (.text ⟨none, none, [], none, none⟩)) := by
  have hshared : Definitions.ofSchemas [] = .ok titled.shared := rfl
  refine ⟨ofSchema_titledSchema, hshared, rfl, ?_⟩
  refine ((resolve_links ofSchema_titledSchema hshared
    (p := ⟨.root, [.property "name"]⟩) rfl).1 _).2 ?_
  have htitle : Leads titled.find? _ [] (Link.node ⟨⟨some "name", none, none, true, false⟩, "Title",
      "#/definitions/Title"⟩) := .here
  have htext : Leads titled.find? _ _ (Link.node ⟨.plain, "Text", "#/definitions/Text"⟩) :=
    .follow htitle rfl
  refine ⟨_, .node .plain (.text ⟨none, none, [], none, none⟩), .follow htext rfl, ?_, by decide,
    rfl⟩
  rintro ⟨target, pointer, kept, hshape⟩
  cases hshape

end Registries

end DomainScaffold.Schema
