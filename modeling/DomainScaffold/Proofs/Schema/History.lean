import DomainScaffold.Proofs.Fields
import DomainScaffold.Proofs.Schema.Kept
import DomainScaffold.Proofs.Schema.Reading

/-!
# Answers after a history

The types of a schema are resolved one after the other, and every call keeps what it finds on the
references that it follows. What a later call gives back is compared with what it gives back when
nothing was resolved before. A definition that is itself a reference keeps what it was resolved to
with its own name and flags; when another reference finds it afterwards, these stand in the place of
those of the reference.

Results:
* `bare_typeOf`, `fresh_of_schema`: nothing is kept on the references of what was just read.
* `resolveLinks_sound`, `sound_after`: what every call keeps, and what it gives back.
* `answers_after`: answers never differ in more than name and flags; they do not differ at all
  unless a definition that is itself a reference was resolved, and do differ once that happened.
* `titled_property_changes`: a required property that is not required any more.
-/

namespace DomainScaffold.Schema

open SchemaType

/-! ## Schemas of which nothing was resolved -/

section Unresolved

theorem bareProperties_eq_self_iff {ps : List (String × SchemaType)} :
    bareProperties ps = ps ↔ ∀ p ∈ ps, p.2.bare = p.2 := by
  induction ps with
  | nil => simp [bareProperties]
  | cons p ps ih =>
    obtain ⟨key, t⟩ := p
    rw [bareProperties, List.cons.injEq, Prod.mk.injEq, List.forall_mem_cons, ih]
    simp only [true_and]

theorem bareShape_of_leaf {shape : Shape SchemaType} (h : IsLeaf shape) : bareShape shape = shape := by
  cases shape with
  | array items =>
    cases items with
    | none => rfl
    | some u => cases h
  | object => cases h
  | reference => cases h
  | _ => rfl

/-- Nothing is kept on the references of the type of a schema. -/
theorem bare_typeOf {schema : Json} {t : SchemaType} (h : typeOf schema = .ok t) : t.bare = t := by
  refine typeOf_induction (P := fun _ t => t.bare = t) ?choice ?plain h
  case choice =>
    intro fields variant nullable t _ _ ih
    rw [asChoice, bare_withInfo, ih]
  case plain =>
    intro fields t hsole h ihprops ihitems
    obtain ⟨nullable, shape, rfl, hshape⟩ := typeOf_plain hsole h
    cases hshape with
    | object hps =>
      rw [bare, bareShape, bareProperties_eq_self_iff.2 fun p hp => ?_]
      obtain ⟨s, u, hs, hu, heq⟩ := exists_of_mem_propertyTypes hps (Fields.mem_of_mem_ofPairs hp)
      rw [heq, asProperty, bare_withInfo, ihprops _ s u hs hu]
    | array hitem hu => rw [bare, bareShape, bareOption, ihitems _ _ hitem hu]
    | reference => rfl
    | leaf hleaf => rw [bare, bareShape_of_leaf hleaf]

end Unresolved

/-! ## What is seen of a type -/

/-- What a node carries; without name and flags unless they are to be seen. -/
def Info.seen (flags : Bool) (i : Info) : Info :=
  if flags then i else { i with name := none, required := false, nullable := false }

/-- A type with nothing kept on its references; without its own name and flags unless they are to
    be seen. -/
def seen (flags : Bool) (t : SchemaType) : SchemaType := t.bare.withInfo (t.info.seen flags)

section Seen

variable {flags : Bool} {i j : Info} {t u d e : SchemaType}

theorem seen_eq_iff : seen flags t = seen flags u ↔
    t.info.seen flags = u.info.seen flags ∧ bareShape t.shape = bareShape u.shape := by
  simp only [seen, withInfo, node.injEq, shape_bare]

theorem seen_congr (h : t.bare = u.bare) : seen flags t = seen flags u := by
  obtain ⟨hinfo, hshape⟩ := bare_eq_iff.1 h
  exact seen_eq_iff.2 ⟨congrArg _ hinfo, hshape⟩

theorem seen_true (t : SchemaType) : seen true t = t.bare := by
  obtain ⟨info, shape⟩ := t
  rw [seen, Info.seen, if_pos rfl, withInfo, bare, info_node, shape_node]

theorem info_eq_of_seen (h : seen flags t = seen flags u) (hflags : flags = true) :
    t.info = u.info := by
  subst hflags
  rw [seen_true, seen_true] at h
  exact (bare_eq_iff.1 h).1

/-- Only the name and the flags of a reference are seen of a definition in its place. -/
theorem seen_inPlaceOf (hinfo : flags = true → i = j) (hbare : d.bare = e.bare) (target : String) :
    seen flags (inPlaceOf i target d) = seen flags (inPlaceOf j target e) := by
  obtain ⟨hde, hshape⟩ := bare_eq_iff.1 hbare
  refine seen_eq_iff.2 ⟨?_, hshape⟩
  rw [inPlaceOf, inPlaceOf, withInfo, withInfo, info_node, info_node, hde]
  cases flags with
  | false => rfl
  | true => rw [hinfo rfl]

theorem bare_inPlaceOf (i : Info) (target : String) (d : SchemaType) :
    (inPlaceOf i target d).bare = inPlaceOf i target d.bare := by
  rw [inPlaceOf, inPlaceOf, bare_withInfo, info_bare]

end Seen

/-! ## Registries -/

namespace Registry

/-- What a name stands for. -/
def find? (r : Registry) (name : String) : Option SchemaType := lookup? r.types r.shared name

/-- The position of what a name stands for. -/
def place (r : Registry) (name : String) : Position :=
  ⟨if (r.tree? (.localType name)).isSome then .localType name else .shared name, []⟩

/-- Nothing is kept on any reference. -/
def Fresh (r : Registry) : Prop := ∀ origin t, r.tree? origin = some t → t.bare = t

/-- The registry after calls in a row. -/
def after (r : Registry) (calls : List Position) : Registry :=
  calls.foldl (fun r p => (r.resolveAt p).1) r

/-- What a call at a position gives back. -/
def answerAt (r : Registry) (p : Position) : Outcome (Option SchemaType) :=
  (r.resolveAt p).2.map (r.resolveAt p).1.typeAt?

/-- Whether a name stands for a definition that is itself a reference. -/
def IsAlias (r : Registry) (name : String) : Prop :=
  ∃ info target pointer kept, r.find? name = some (.node info (.reference target pointer kept))

/-- The type that `t` stands for. -/
def resolve (r : Registry) (t : SchemaType) : Outcome SchemaType := r.types.resolve r.shared t

variable {r : Registry} {origin other : Origin} {p : Position} {t new c : SchemaType}

theorem tree?_place (r : Registry) (name : String) :
    r.tree? (r.place name).origin = r.find? name := by
  rw [place, find?, lookup?]
  cases hlocal : r.tree? (.localType name) with
  | some d =>
    rw [tree?] at hlocal
    simp only [Option.isSome_some, if_true, tree?, hlocal, Option.some_or]
  | none =>
    rw [tree?] at hlocal
    simp only [Option.isSome_none, Bool.false_eq_true, if_false, tree?, hlocal, Option.none_or]

theorem find?_update (d : Definitions) (name key : String) (f : SchemaType → SchemaType) :
    (d.update name f).find? key =
      if key = name then (d.find? key).map f else d.find? key := by
  obtain ⟨entries⟩ := d
  simp only [Definitions.find?, Definitions.update]
  induction entries with
  | nil => split <;> rfl
  | cons e entries ih =>
    obtain ⟨k, v⟩ := e
    rw [List.map_cons]
    by_cases hk : k = key
    · subst hk
      by_cases hname : k = name
      · simp only [hname, if_true, Fields.find?, Option.map_some]
      · simp only [hname, if_false, Fields.find?, if_true, Option.map_some]
    · by_cases hname : k = name
      · simp only [hname, if_true, Fields.find?, if_neg (hname ▸ hk), ih]
      · simp only [hname, if_false, Fields.find?, if_neg hk, ih]

theorem tree?_withTree (h : r.tree? origin = some t) (new : SchemaType) (other : Origin) :
    (r.withTree new origin).tree? other = if other = origin then some new else r.tree? other := by
  cases origin with
  | root => cases other <;> rfl
  | localType name =>
    cases other with
    | localType key =>
      by_cases hkey : key = name
      · subst hkey
        rw [if_pos rfl]
        exact Fields.find?_insert_self key new _
      · rw [if_neg fun h => hkey (Origin.localType.inj h)]
        exact Fields.find?_insert_of_ne hkey new _
    | root | shared _ => rfl
  | shared name =>
    cases other with
    | shared key =>
      rw [tree?] at h
      rw [tree?, withTree, find?_update]
      by_cases hkey : key = name
      · rw [if_pos hkey, if_pos (hkey ▸ rfl), hkey, h, Option.map_some]
      · rw [if_neg hkey, if_neg fun h => hkey (Origin.shared.inj h), tree?]
    | root | localType _ => rfl

theorem tree?_replaceAt (h : r.tree? p.origin = some t) (new : SchemaType) (other : Origin) :
    (r.replaceAt p new).tree? other =
      if other = p.origin then some (replaceBelow new p.moves t) else r.tree? other := by
  rw [replaceAt, h]
  exact tree?_withTree h _ other

/-- What a reference keeps is found behind it. -/
theorem typeAt?_below (h : r.typeAt? p = some c) (hnew : child? .resolved new = some t) :
    (r.replaceAt p new).typeAt? (p.below .resolved) = some t := by
  obtain ⟨u, hu, hc⟩ := Option.bind_eq_some_iff.1 h
  rw [typeAt?, Position.below, tree?_replaceAt hu, if_pos rfl, Option.bind_some, below?_append,
    below?_replaceBelow hc, Option.bind_some, below?, hnew]
  rfl

end Registry

/-! ## What every call keeps -/

/-- What a reference may keep: a definition in its place, as far as it is seen. -/
def Fits (flags : Bool) (start : Registry) (info : Info) (target : String) (k : SchemaType) : Prop :=
  ∃ d, start.find? target = some d ∧ seen flags k = seen flags (inPlaceOf info target d)

/-- How a registry differs from the one that it comes from: references keep what they stand for.
    Where name and flags are to be seen, no definition is itself a reference that keeps a type. -/
structure Sound (flags : Bool) (start r : Registry) : Prop where
  bare : ∀ origin, (r.tree? origin).map SchemaType.bare = start.tree? origin
  kept : ∀ origin t, r.tree? origin = some t → KeepsOnly (Fits flags start) t
  aliases : flags = true →
    ∀ name d, r.tree? (start.place name).origin = some d → child? .resolved d = none

section Sound

variable {flags : Bool} {start r : Registry} {p : Position} {info : Info} {target pointer : String}
  {kept : Option SchemaType} {t d k m : SchemaType} {calls : List Position}

theorem map_bare_find? (hr : Sound flags start r) (name : String) :
    (r.find? name).map SchemaType.bare = start.find? name := by
  rw [Registry.find?, lookup?, Option.map_or]
  exact congr (congrArg Option.or (hr.bare (.localType name))) (hr.bare (.shared name))

theorem place_eq (hr : Sound flags start r) (name : String) : r.place name = start.place name := by
  rw [Registry.place, Registry.place, ← hr.bare (.localType name), Option.isSome_map]

theorem sound_refl (hfresh : start.Fresh) : Sound flags start start where
  bare origin := by
    cases h : start.tree? origin with
    | none => rfl
    | some t => rw [Option.map_some, hfresh origin t h]
  kept origin t h := keepsOnly_of_bare (hfresh origin t h)
  aliases _ name d h := child?_resolved_of_bare (hfresh _ d h)

theorem sound_replaceAt (hr : Sound flags start r)
    (hp : r.typeAt? p = some (.node info (.reference target pointer kept)))
    (hfits : Fits flags start info target t) (ht : KeepsOnly (Fits flags start) t)
    (halias : flags = true → ∀ name, start.place name ≠ p) :
    Sound flags start (r.replaceAt p (.node info (.reference target pointer (some t)))) := by
  obtain ⟨u, hu, hc⟩ := Option.bind_eq_some_iff.1 hp
  have hbare : SchemaType.bare (.node info (.reference target pointer (some t))) =
      SchemaType.bare (.node info (.reference target pointer kept)) := by
    rw [SchemaType.bare, SchemaType.bare, bareShape, bareShape]
  have htree := Registry.tree?_replaceAt hu (.node info (.reference target pointer (some t)))
  refine ⟨fun origin => ?_, fun origin v hv => ?_, fun hflags name d hd => ?_⟩
  · rw [htree]
    split
    · rename_i horigin
      rw [Option.map_some, bare_replaceBelow hc hbare, horigin, ← hr.bare, hu, Option.map_some]
    · exact hr.bare origin
  · rw [htree] at hv
    split at hv
    · obtain rfl := Option.some.inj hv
      refine keepsOnly_replaceBelow (fun i tgt k k' hk ⟨d, hd, hseen⟩ => ?_) (hr.kept _ u hu) hc
        (keepsOnly_keeping hfits ht) hbare
      exact ⟨d, hd, (seen_congr hk).trans hseen⟩
    · exact hr.kept origin v hv
  · rw [htree] at hd
    split at hd
    · rename_i horigin
      obtain rfl := Option.some.inj hd
      have hnone := hr.aliases hflags name u (horigin ▸ hu)
      obtain ⟨origin, moves⟩ := p
      cases moves with
      | nil => exact absurd (congrArg (Position.mk · []) horigin) (halias hflags name)
      | cons move moves => exact child?_resolved_replaceBelow hnone
    · exact hr.aliases hflags name d hd

/-- What is found behind a reference, kept or not, is a definition in its place. -/
theorem fits_of_link (hfresh : start.Fresh) (hr : Sound flags start r)
    (hp : r.typeAt? p = some (.node info (.reference target pointer kept)))
    (hk : kept.or ((r.find? target).map (inPlaceOf info target)) = some k) :
    Fits flags start info target k ∧ KeepsOnly (Fits flags start) k := by
  obtain ⟨u, hu, hc⟩ := Option.bind_eq_some_iff.1 hp
  have hkeeps := (hr.kept _ u hu).below hc
  cases kept with
  | some k' =>
    obtain rfl := Option.some.inj hk
    have hbelow : below? [.resolved] (.node info (.reference target pointer (some k'))) = some k' :=
      rfl
    exact ⟨hkeeps [] _ _ _ k' rfl, hkeeps.below hbelow⟩
  | none =>
    obtain ⟨d, hd, rfl⟩ := Option.map_eq_some_iff.1 hk
    have hstart : start.find? target = some d.bare := by
      rw [← map_bare_find? hr, hd, Option.map_some]
    have hplace : r.tree? (start.place target).origin = some d := by
      rw [← place_eq hr, Registry.tree?_place, hd]
    have hbare : d.bare.bare = d.bare := hfresh _ _ (by rw [Registry.tree?_place, hstart])
    refine ⟨⟨d.bare, hstart, seen_inPlaceOf (fun _ => rfl) hbare.symm target⟩,
      keepsOnly_withInfo (hr.kept _ d hplace) fun target' pointer' k' hshape => ?_⟩
    -- A definition that is itself a reference only keeps something where flags are not seen.
    obtain ⟨i, shape⟩ := d
    cases hshape
    cases flags with
    | true => cases hr.aliases rfl target _ hplace
    | false =>
      obtain ⟨e, he, hseen⟩ := hr.kept _ _ hplace [] _ _ _ k' rfl
      exact ⟨e, he, hseen.trans (seen_inPlaceOf (fun h : false = true => nomatch h) rfl target')⟩

theorem find?_eq_none_of_link (hr : Sound flags start r)
    (h : kept.or ((r.find? target).map (inPlaceOf info target)) = none) :
    start.find? target = none := by
  rw [Option.or_eq_none_iff, Option.map_eq_none_iff] at h
  rw [← map_bare_find? hr, h.2, Option.map_none]

theorem resolveIn_reference (find : String → Option SchemaType) (links : Nat) :
    (resolveIn find (links + 1) (.node info (.reference target pointer kept))).2 =
      match kept.or ((find target).map (inPlaceOf info target)) with
      | none => .error (.unknownReference pointer)
      | some t => (resolveIn find links t).2 := by
  rw [resolveIn]
  cases kept.or ((find target).map (inPlaceOf info target)) <;> rfl

theorem isAlias_of_typeAt? (hr : Sound flags start r) {name : String}
    (h : r.typeAt? (start.place name) = some (.node info (.reference target pointer kept))) :
    start.IsAlias name := by
  obtain ⟨u, hu, hc⟩ := Option.bind_eq_some_iff.1 h
  obtain rfl : u = _ := Option.some.inj hc
  refine ⟨info, target, pointer, none, ?_⟩
  rw [← Registry.tree?_place, ← hr.bare, hu, Option.map_some, SchemaType.bare, bareShape]

/-- A call that follows references keeps a registry sound, and gives back what is seen when nothing
    was kept. The induction is on the links that may be followed. -/
theorem resolveLinks_sound (hfresh : start.Fresh) (links : Nat) (hr : Sound flags start r)
    (hp : r.typeAt? p = some t) (hm : m.bare = m) (hseen : seen flags t = seen flags m)
    (halias : flags = true → ∀ name, start.IsAlias name → start.place name ≠ p) :
    Sound flags start (r.resolveLinks links p).1 ∧
      (r.resolveLinks links p).2.map
          (fun q => ((r.resolveLinks links p).1.typeAt? q).map (seen flags)) =
        (resolveIn start.find? links m).2.map fun u => some (seen flags u) := by
  induction links generalizing r p t m with
  | zero => exact ⟨hr, rfl⟩
  | succ links ih =>
    obtain ⟨i, shape⟩ := t
    obtain ⟨j, shape'⟩ := m
    obtain ⟨-, hshape⟩ := seen_eq_iff.1 hseen
    rw [shape_node, shape_node] at hshape
    by_cases href : ∃ target pointer kept, shape = .reference target pointer kept
    case neg =>
      have hlinks : r.resolveLinks (links + 1) p = (r, .ok p) := by
        rw [Registry.resolveLinks, hp]
        cases shape <;> first | rfl | exact absurd ⟨_, _, _, rfl⟩ href
      have hin : resolveIn start.find? (links + 1) (.node j shape') =
          (.node j shape', .ok (.node j shape')) :=
        resolveIn_of_not_reference _ _ fun target pointer kept h => by
          rw [shape_node] at h
          subst h
          cases shape <;> first | exact href ⟨_, _, _, rfl⟩ | cases hshape
      rw [hlinks, hin]
      refine ⟨hr, ?_⟩
      rw [Except.map, Except.map, hp, Option.map_some, hseen]
    case pos =>
      obtain ⟨target, pointer, kept, rfl⟩ := href
      obtain rfl : shape' = .reference target pointer none := by
        cases shape' <;> cases hshape
        rw [SchemaType.bare, bareShape, SchemaType.node.injEq] at hm
        exact hm.2.symm
      rw [Registry.resolveLinks, hp, resolveIn_reference, Option.none_or]
      dsimp only
      cases hlink : kept.or ((lookup? r.types r.shared target).map (inPlaceOf i target)) with
      | none =>
        rw [find?_eq_none_of_link hr hlink, Option.map_none]
        exact ⟨hr, rfl⟩
      | some k =>
        obtain ⟨⟨d, hd, hk⟩, hkeeps⟩ := fits_of_link hfresh hr hp hlink
        rw [hd, Option.map_some]
        have hdbare : d.bare = d := hfresh _ _ ((Registry.tree?_place _ _).trans hd)
        refine ih (sound_replaceAt hr hp ⟨d, hd, hk⟩ hkeeps fun hflags name hname => ?_)
          (Registry.typeAt?_below hp rfl) (by rw [bare_inPlaceOf, hdbare])
          (hk.trans (seen_inPlaceOf (fun hflags => info_eq_of_seen hseen hflags) rfl target))
          fun _ name _ hname => ?_
        · exact halias hflags name (isAlias_of_typeAt? hr (hname ▸ hp)) hname
        · have hmoves : [] = p.moves ++ [Move.resolved] := congrArg Position.moves hname
          exact List.append_ne_nil_of_right_ne_nil _ (List.cons_ne_nil _ _) hmoves.symm

/-- Calls in a row keep a registry sound. -/
theorem sound_after (hfresh : start.Fresh)
    (halias : flags = true → ∀ name, start.IsAlias name → start.place name ∉ calls)
    (hr : Sound flags start r) : Sound flags start (r.after calls) := by
  induction calls generalizing r with
  | nil => exact hr
  | cons p calls ih =>
    refine ih (fun hflags name hname => List.not_mem_of_not_mem_cons (halias hflags name hname)) ?_
    cases hp : r.typeAt? p with
    | none =>
      have hlinks : r.resolveAt p = (r, .ok p) := by
        rw [Registry.resolveAt, maxLinks, Registry.resolveLinks, hp]
      show Sound flags start (r.resolveAt p).1
      rw [hlinks]
      exact hr
    | some t =>
      have hseen : seen flags t = seen flags t.bare := seen_congr (bare_bare t).symm
      refine (resolveLinks_sound hfresh maxLinks hr hp (bare_bare t) hseen ?_).1
      exact fun hflags name hname heq => halias hflags name hname (heq ▸ List.mem_cons_self)

/-- What is seen of the answer to a call is what is seen of it when nothing was resolved before. -/
theorem answerAt_after (hfresh : start.Fresh)
    (halias : flags = true → ∀ name, start.IsAlias name → start.place name ∉ p :: calls)
    (hp : (start.after calls).typeAt? p = some t) :
    ((start.after calls).answerAt p).map (Option.map (seen flags)) =
      (start.resolve t.bare).map fun u => some (seen flags u) := by
  have hr : Sound flags start (start.after calls) :=
    sound_after hfresh (fun hflags name hname hmem =>
      halias hflags name hname (List.mem_cons_of_mem _ hmem)) (sound_refl hfresh)
  have hanswer := (resolveLinks_sound hfresh maxLinks hr hp (bare_bare t)
    (seen_congr (bare_bare t).symm) fun hflags name hname heq =>
      halias hflags name hname (heq ▸ List.mem_cons_self)).2
  refine Eq.trans ?_ hanswer
  rw [Registry.answerAt, Registry.resolveAt]
  cases ((start.after calls).resolveLinks maxLinks p).2 <;> rfl

end Sound


/-! ## Definitions that are references -/

namespace Registry

/-- Whether every reference to a name stands for a type. -/
def Stands (r : Registry) (name : String) : Prop :=
  ∀ info pointer, ∃ u, r.resolve (.node info (.reference name pointer none)) = .ok u

/-- Whether the tree of an origin is a reference that keeps what it was resolved to. -/
def Keeps (r : Registry) (origin : Origin) : Prop :=
  ∃ d, r.tree? origin = some d ∧ child? .resolved d ≠ none

end Registry

section Aliases

variable {r start : Registry} {p : Position} {origin : Origin} {info : Info}
  {name target pointer : String} {kept : Option SchemaType} {t d k m u : SchemaType}
  {calls : List Position} {links : Nat}

theorem keeps_replaceAt (h : r.Keeps origin)
    (hp : r.typeAt? p = some (.node info (.reference target pointer kept))) :
    (r.replaceAt p (.node info (.reference target pointer (some t)))).Keeps origin := by
  obtain ⟨d, hd, hk⟩ := h
  obtain ⟨u, hu, hc⟩ := Option.bind_eq_some_iff.1 hp
  have htree := Registry.tree?_replaceAt hu (.node info (.reference target pointer (some t))) origin
  split at htree
  · rename_i horigin
    obtain rfl : u = d := Option.some.inj (hu.symm.trans (horigin ▸ hd))
    exact ⟨_, htree, child?_resolved_replaceBelow_ne hk nofun⟩
  · exact ⟨d, htree.trans hd, hk⟩

theorem keeps_resolveLinks (h : r.Keeps origin) : (r.resolveLinks links p).1.Keeps origin := by
  induction links generalizing r p with
  | zero => exact h
  | succ links ih =>
    rw [Registry.resolveLinks]
    split
    · rename_i info target pointer kept hp
      split
      · exact h
      · exact ih (keeps_replaceAt h hp)
    · exact h

/-- What was kept once stays kept. -/
theorem keeps_after (h : r.Keeps origin) : (r.after calls).Keeps origin := by
  induction calls generalizing r with
  | nil => exact h
  | cons p calls ih => exact ih (keeps_resolveLinks h)

/-- A call on a reference keeps what it stands for. -/
theorem keeps_resolveAt (hd : r.tree? origin = some (.node info (.reference target pointer kept)))
    (htarget : r.find? target ≠ none) : (r.resolveAt ⟨origin, []⟩).1.Keeps origin := by
  have hp : r.typeAt? ⟨origin, []⟩ = some (.node info (.reference target pointer kept)) := by
    rw [Registry.typeAt?, hd]
    rfl
  rw [Registry.resolveAt, maxLinks, Registry.resolveLinks, hp]
  dsimp only
  cases hlink : kept.or ((lookup? r.types r.shared target).map (inPlaceOf info target)) with
  | none => exact absurd (Option.map_eq_none_iff.1 (Option.or_eq_none_iff.1 hlink).2) htarget
  | some t =>
    have htree := Registry.tree?_replaceAt (p := ⟨origin, []⟩) hd
      (.node info (.reference target pointer (some t))) origin
    rw [if_pos rfl, replaceBelow] at htree
    exact keeps_resolveLinks ⟨_, htree, Option.some_ne_none t⟩

/-- Behind a reference to a definition that keeps a type, nothing of the reference is seen. -/
theorem resolve_of_kept {d : SchemaType} (hd : r.find? name = some d)
    (hk : child? .resolved d ≠ none) (i j : Info) (pointer : String) :
    r.resolve (.node i (.reference name pointer none)) =
      r.resolve (.node j (.reference name pointer none)) := by
  obtain ⟨info, shape⟩ := d
  cases shape <;> try exact absurd rfl hk
  rename_i target pointer' kept
  obtain ⟨k, rfl⟩ := Option.ne_none_iff_exists'.1 hk
  -- Both references lead to the type that the definition keeps.
  have hanswer : ∀ i, r.resolve (.node i (.reference name pointer none)) =
      (resolveIn r.find? 30 k).2 := fun i => by
    rw [Registry.find?] at hd
    rw [Registry.resolve, TypeSet.resolve, maxLinks, resolveIn_reference, hd, Option.none_or,
      Option.map_some]
    exact resolveIn_reference r.find? 30
  rw [hanswer, hanswer]

theorem required_of_resolveIn {find : String → Option SchemaType}
    (hfind : ∀ name d, find name = some d → d.bare = d) (hm : m.bare = m)
    (h : (resolveIn find links m).2 = .ok u) : u.info.required = m.info.required := by
  induction links generalizing m with
  | zero => cases h
  | succ links ih =>
    obtain ⟨i, shape⟩ := m
    cases shape
    case reference target pointer kept =>
      obtain rfl : kept = none := child?_resolved_of_bare hm
      rw [resolveIn_reference, Option.none_or] at h
      cases hd : find target with
      | none =>
        rw [hd] at h
        cases h
      | some d =>
        rw [hd, Option.map_some] at h
        exact ih (m := inPlaceOf i target d) (by rw [bare_inPlaceOf, hfind target d hd]) h
    all_goals
      cases h
      rfl

/-- A definition that is a reference names a definition, if references to it stand for a type. -/
theorem find?_ne_none_of_stands (hfresh : start.Fresh)
    (hd : start.find? name = some (.node info (.reference target pointer kept)))
    (hstands : start.Stands name) : start.find? target ≠ none := by
  intro hnone
  obtain ⟨u, hu⟩ := hstands .plain ""
  obtain rfl : kept = none :=
    child?_resolved_of_bare (hfresh _ _ ((Registry.tree?_place start name).trans hd))
  have hfail : start.resolve (.node .plain (.reference name "" none)) =
      .error (.unknownReference pointer) := by
    rw [Registry.find?] at hd hnone
    rw [Registry.resolve, TypeSet.resolve, maxLinks, resolveIn_reference, hd, Option.none_or,
      Option.map_some]
    refine (resolveIn_reference _ 30).trans ?_
    rw [hnone]
    rfl
  rw [hfail] at hu
  cases hu

theorem keeps_of_mem (hfresh : start.Fresh) (halias : start.IsAlias name)
    (hstands : start.Stands name) (hmem : start.place name ∈ calls) :
    (start.after calls).Keeps (start.place name).origin := by
  obtain ⟨info, target, pointer, kept, hd⟩ := halias
  obtain ⟨before, rest, rfl⟩ := List.append_of_mem hmem
  rw [Registry.after, List.foldl_append, List.foldl_cons]
  refine keeps_after ?_
  have hr : Sound false start (start.after before) :=
    sound_after hfresh (fun h => nomatch h) (sound_refl hfresh)
  have htree := hr.bare (start.place name).origin
  rw [Registry.tree?_place, hd] at htree
  obtain ⟨⟨i, shape⟩, hu, hbare⟩ := Option.map_eq_some_iff.1 htree
  rw [SchemaType.bare, SchemaType.node.injEq] at hbare
  obtain ⟨rfl, hshape⟩ := hbare
  cases shape <;> cases hshape
  refine keeps_resolveAt hu fun hnone => find?_ne_none_of_stands hfresh hd hstands ?_
  exact (map_bare_find? hr target).symm.trans (congrArg (Option.map SchemaType.bare) hnone)

/-- Once a definition that is a reference was resolved, some reference to it stands for another type
    than before: one that is required stands for the same type as one that is not. -/
theorem exists_resolve_ne (hfresh : start.Fresh) (halias : start.IsAlias name)
    (hstands : start.Stands name) (hmem : start.place name ∈ calls) :
    ∃ info, ((start.after calls).resolve (.node info (.reference name "" none))).map
        SchemaType.info ≠
      (start.resolve (.node info (.reference name "" none))).map SchemaType.info := by
  obtain ⟨d, hd, hk⟩ := keeps_of_mem hfresh halias hstands hmem
  have hr : Sound false start (start.after calls) :=
    sound_after hfresh (fun h => nomatch h) (sound_refl hfresh)
  rw [← place_eq hr, Registry.tree?_place] at hd
  have hfind : ∀ name d, start.find? name = some d → d.bare = d := fun name d h =>
    hfresh _ d ((Registry.tree?_place start name).trans h)
  have hrequired : ∀ i : Info, ∃ u, start.resolve (.node i (.reference name "" none)) = .ok u ∧
      u.info.required = i.required := fun i => by
    obtain ⟨u, hu⟩ := hstands i ""
    exact ⟨u, hu, required_of_resolveIn hfind (by rw [SchemaType.bare, bareShape]) hu⟩
  by_cases hsame : ((start.after calls).resolve
      (.node { Info.plain with required := true } (.reference name "" none))).map SchemaType.info =
    (start.resolve (.node { Info.plain with required := true } (.reference name "" none))).map
      SchemaType.info
  · refine ⟨Info.plain, fun hplain => ?_⟩
    obtain ⟨u, hu, hurequired⟩ := hrequired { Info.plain with required := true }
    obtain ⟨v, hv, hvrequired⟩ := hrequired Info.plain
    rw [resolve_of_kept hd hk Info.plain { Info.plain with required := true } "", hsame, hu, hv]
      at hplain
    rw [Except.ok.inj hplain, hvrequired] at hurequired
    cases hurequired
  · exact ⟨_, hsame⟩

end Aliases

/-! ## Registries of schemas -/

/-- The definitions of schemas, read one after the other. -/
def Definitions.ofSchemas (schemas : List (String × Json)) : Outcome Definitions :=
  schemas.foldlM (fun d s => d.insert s.1 s.2) .empty

theorem exists_typeOf_of_insert {d d' : Definitions} {name : String} {schema : Json}
    (hd : ∀ key t, d.find? key = some t → ∃ s, typeOf s = .ok t) (h : d.insert name schema = .ok d') :
    ∀ key t, d'.find? key = some t → ∃ s, typeOf s = .ok t := by
  rw [Definitions.insert] at h
  split at h
  · cases h
    exact hd
  · obtain ⟨u, hu, rfl⟩ := Outcome.map_eq_ok h
    intro key t ht
    rw [Definitions.find?] at ht
    by_cases hkey : key = name
    · subst hkey
      rw [Fields.find?_insert_self, Option.map_some] at ht
      exact Option.some.inj ht ▸ ⟨schema, hu⟩
    · rw [Fields.find?_insert_of_ne hkey] at ht
      exact hd key t ht

section Read

variable {schema : Json} {schemas : List (String × Json)} {types : TypeSet} {shared : Definitions}

/-- Every tree of a registry is the type of a schema. -/
theorem exists_typeOf (htypes : TypeSet.ofSchema schema = .ok types)
    (hshared : Definitions.ofSchemas schemas = .ok shared) {origin : Origin} {t : SchemaType}
    (ht : Registry.tree? ⟨types, shared⟩ origin = some t) : ∃ s, typeOf s = .ok t := by
  rw [TypeSet.ofSchema] at htypes
  obtain ⟨root, hroot, htypes⟩ := Outcome.bind_eq_ok htypes
  obtain ⟨own, hown, htypes⟩ := Outcome.bind_eq_ok htypes
  cases htypes
  cases origin with
  | root =>
    cases ht
    exact ⟨schema, hroot⟩
  | localType name =>
    have hmem := Fields.mem_of_mem_ofPairs (Fields.mem_of_find? ht)
    obtain ⟨s, -, hs⟩ := Outcome.exists_of_mem_mapM hown hmem
    obtain ⟨u, hu, heq⟩ := Outcome.map_eq_ok hs
    cases heq
    exact ⟨s.2, hu⟩
  | shared name =>
    exact Outcome.foldlM_induction
      (P := fun d => ∀ key t, d.find? key = some t → ∃ s, typeOf s = .ok t)
      (fun _ _ _ _ hd h => exists_typeOf_of_insert hd h) nofun hshared name t ht

/-- Nothing is kept before the first call. -/
theorem fresh_of_schema (htypes : TypeSet.ofSchema schema = .ok types)
    (hshared : Definitions.ofSchemas schemas = .ok shared) : Registry.Fresh ⟨types, shared⟩ := by
  intro origin t ht
  obtain ⟨s, hs⟩ := exists_typeOf htypes hshared ht
  exact bare_typeOf hs

end Read

/-! ## Answers -/

/-- Answers after any calls: they never differ from the ones before in more than name and flags.
    They do not differ at all unless a definition that is itself a reference was resolved. Once that
    happened, some reference to it stands for another type than before. -/
theorem answers_after {schema : Json} {schemas : List (String × Json)} {start : Registry}
    (htypes : TypeSet.ofSchema schema = .ok start.types)
    (hshared : Definitions.ofSchemas schemas = .ok start.shared) (calls : List Position) :
    (∀ p t, (start.after calls).typeAt? p = some t →
      ((start.after calls).answerAt p).map (Option.map (seen false)) =
        (start.resolve t.bare).map fun u => some (seen false u)) ∧
    (∀ p t, (start.after calls).typeAt? p = some t →
      (∀ name, start.IsAlias name → start.place name ∉ p :: calls) →
      ((start.after calls).answerAt p).map (Option.map SchemaType.bare) =
        (start.resolve t.bare).map fun u => some u.bare) ∧
    ∀ name, start.IsAlias name → start.Stands name → start.place name ∈ calls →
      ∃ info, ((start.after calls).resolve (.node info (.reference name "" none))).map
          SchemaType.info ≠
        (start.resolve (.node info (.reference name "" none))).map SchemaType.info := by
  have hfresh : start.Fresh := fresh_of_schema htypes hshared
  refine ⟨fun p t hp => answerAt_after hfresh (fun h => nomatch h) hp, fun p t hp halias => ?_,
    fun name halias hstands hmem => exists_resolve_ne hfresh halias hstands hmem⟩
  have hanswer : ((start.after calls).answerAt p).map (Option.map (seen true)) =
      (start.resolve t.bare).map fun u => some (seen true u) :=
    answerAt_after hfresh (fun _ => halias) hp
  simp only [funext seen_true, seen_true] at hanswer
  exact hanswer

/-- A property refers to a title, and a title is a text. -/
def titledSchema : Json :=
  .object [("type", .text "object"),
    ("properties", .object [("name", .object [("$ref", .text "#/definitions/Title")])]),
    ("required", .list [.text "name"]),
    ("definitions", .object [
      ("Title", .object [("$ref", .text "#/definitions/Text")]),
      ("Text", .object [("type", .text "string")])])]

/-- What `titledSchema` is read as. -/
def titled : Registry where
  types := {
    root := .node .plain (.object
      [("name", .node { Info.plain with name := some "name", required := true }
        (.reference "Title" "#/definitions/Title" none))] ["name"] true)
    localTypes := [
      ("Title", .node .plain (.reference "Text" "#/definitions/Text" none)),
      ("Text", .node .plain (.text ⟨none, none, [], none, none⟩))] }
  shared := .empty

theorem ofSchema_titledSchema : TypeSet.ofSchema titledSchema = .ok titled.types := by
  with_unfolding_all rfl

/-- Resolving the title changes what some reference to it stands for. -/
theorem answers_after_titled :
    TypeSet.ofSchema titledSchema = .ok titled.types ∧
    Definitions.ofSchemas [] = .ok titled.shared ∧ titled.IsAlias "Title" ∧
    titled.Stands "Title" ∧
    ∃ info, ((titled.after [titled.place "Title"]).resolve
          (.node info (.reference "Title" "" none))).map SchemaType.info ≠
        (titled.resolve (.node info (.reference "Title" "" none))).map SchemaType.info := by
  have hshared : Definitions.ofSchemas [] = .ok titled.shared := rfl
  have halias : titled.IsAlias "Title" := ⟨_, _, _, _, rfl⟩
  have hstands : titled.Stands "Title" := fun _ _ => ⟨_, rfl⟩
  exact ⟨ofSchema_titledSchema, hshared, halias, hstands,
    (answers_after ofSchema_titledSchema hshared [titled.place "Title"]).2.2 "Title" halias hstands
      List.mem_cons_self⟩

/-- The property is required; once the title was resolved, it is neither required nor named. -/
theorem titled_property_changes :
    TypeSet.ofSchema titledSchema = .ok titled.types ∧
    (titled.answerAt ⟨.root, [.property "name"]⟩).map (Option.map info) =
      .ok (some ⟨some "name", some "Text", none, true, false⟩) ∧
    ((titled.after [⟨.localType "Title", []⟩]).answerAt ⟨.root, [.property "name"]⟩).map
        (Option.map info) =
      .ok (some ⟨none, some "Text", none, false, false⟩) := by
  refine ⟨ofSchema_titledSchema, ?_, ?_⟩
  · rfl
  · rfl

end DomainScaffold.Schema
