import DomainScaffold.Schema.Position

/-!
# What is kept on references

Resolving a reference keeps the type that it stands for on the reference. Everything else about a
type is what is left when nothing is kept; a node that is replaced by one which only keeps more
changes nothing of it.

Results:
* `bare_replaceBelow`: what is left of a type in which a node keeps more.
* `keepsOnly_replaceBelow`, `keepsOnly_withInfo`: what the references in a type keep after a node was
  replaced, and in the place of a reference.
-/

namespace DomainScaffold

open Schema

/-! ## Bare types -/

namespace SchemaType

mutual

/-- The type with nothing kept on its references. -/
def bare : SchemaType → SchemaType
  | .node info shape => .node info (bareShape shape)

/-- The shape with nothing kept on its references. -/
def bareShape : Shape SchemaType → Shape SchemaType
  | .object properties required additional =>
    .object (bareProperties properties) required additional
  | .array items => .array (bareOption items)
  | .reference target pointer _ => .reference target pointer none
  | .text rules => .text rules
  | .integer rules => .integer rules
  | .number rules => .number rules
  | .boolean => .boolean
  | .null => .null
  | .mixed => .mixed

/-- Properties with nothing kept on their references. -/
def bareProperties : List (String × SchemaType) → List (String × SchemaType)
  | [] => []
  | (key, t) :: rest => (key, bare t) :: bareProperties rest

/-- A type that may be absent, with nothing kept on its references. -/
def bareOption : Option SchemaType → Option SchemaType
  | none => none
  | some t => some (bare t)

end

@[simp] theorem info_bare (t : SchemaType) : t.bare.info = t.info := by
  obtain ⟨info, shape⟩ := t
  rw [bare, info_node, info_node]

@[simp] theorem shape_bare (t : SchemaType) : t.bare.shape = bareShape t.shape := by
  obtain ⟨info, shape⟩ := t
  rw [bare, shape_node, shape_node]

theorem bare_withInfo (info : Info) (t : SchemaType) :
    (t.withInfo info).bare = t.bare.withInfo info := by
  rw [withInfo, withInfo, bare, shape_bare]

mutual

@[simp] theorem bare_bare : ∀ t : SchemaType, t.bare.bare = t.bare
  | .node info shape => by rw [bare, bare, bareShape_bareShape shape]

theorem bareShape_bareShape : ∀ s : Shape SchemaType, bareShape (bareShape s) = bareShape s
  | .object properties required additional => by
    rw [bareShape, bareShape, bareProperties_bareProperties properties]
  | .array items => by rw [bareShape, bareShape, bareOption_bareOption items]
  | .reference .. | .text _ | .integer _ | .number _ | .boolean | .null | .mixed => rfl

theorem bareProperties_bareProperties :
    ∀ ps : List (String × SchemaType), bareProperties (bareProperties ps) = bareProperties ps
  | [] => rfl
  | (key, t) :: rest => by
    rw [bareProperties, bareProperties, bare_bare t, bareProperties_bareProperties rest]

theorem bareOption_bareOption :
    ∀ o : Option SchemaType, bareOption (bareOption o) = bareOption o
  | none => rfl
  | some t => by rw [bareOption, bareOption, bare_bare t]

end

theorem bare_eq_iff {t u : SchemaType} :
    t.bare = u.bare ↔ t.info = u.info ∧ bareShape t.shape = bareShape u.shape := by
  obtain ⟨i, s⟩ := t
  obtain ⟨j, s'⟩ := u
  simp only [bare, node.injEq, info_node, shape_node]

theorem find?_bareProperties (name : String) (ps : List (String × SchemaType)) :
    Fields.find? name (bareProperties ps) = (Fields.find? name ps).map bare := by
  induction ps with
  | nil => rfl
  | cons p ps ih =>
    obtain ⟨key, t⟩ := p
    rw [bareProperties, Fields.find?, Fields.find?]
    split
    · rfl
    · exact ih

theorem bareProperties_insert {name : String} {ps : List (String × SchemaType)}
    {c new : SchemaType} (h : Fields.find? name ps = some c) (hnew : new.bare = c.bare) :
    bareProperties (Fields.insert name new ps) = bareProperties ps := by
  induction ps with
  | nil => cases h
  | cons p ps ih =>
    obtain ⟨key, t⟩ := p
    rw [Fields.find?] at h
    rw [Fields.insert]
    split at h
    · rename_i hkey
      obtain rfl := Option.some.inj h
      rw [if_pos hkey, bareProperties, bareProperties, hnew, hkey]
    · rename_i hkey
      rw [if_neg hkey, bareProperties, bareProperties, ih h]

end SchemaType

/-! ## Replaced nodes -/

namespace Schema

open SchemaType

section Moves

variable {move other : Move} {moves rest : List Move} {t c new : SchemaType}

theorem bare_withChild (h : child? move t = some c) (hnew : new.bare = c.bare) :
    (withChild move new t).bare = t.bare := by
  obtain ⟨info, shape⟩ := t
  cases move with
  | property name =>
    cases shape <;> simp only [child?, shape_node, reduceCtorEq] at h
    simp only [withChild, shape_node, info_node, bare, bareShape, bareProperties_insert h hnew]
  | items =>
    cases shape <;> simp only [child?, shape_node, reduceCtorEq] at h
    subst h
    simp only [withChild, shape_node, info_node, bare, bareShape, bareOption, hnew]
  | resolved =>
    cases shape <;> simp only [child?, shape_node, reduceCtorEq] at h
    simp only [withChild, shape_node, info_node, bare, bareShape]

/-- A node that differs only in what is kept changes nothing else of the type around it. -/
theorem bare_replaceBelow (h : below? moves t = some c) (hnew : new.bare = c.bare) :
    (replaceBelow new moves t).bare = t.bare := by
  induction moves generalizing t with
  | nil =>
    obtain rfl := Option.some.inj h
    exact hnew
  | cons move moves ih =>
    obtain ⟨d, hd, hc⟩ := Option.bind_eq_some_iff.1 h
    rw [replaceBelow, hd]
    exact bare_withChild hd (ih hc)

theorem child?_withChild_of_ne (h : child? move t = some c) (hne : other ≠ move) :
    child? other (withChild move new t) = child? other t := by
  obtain ⟨info, shape⟩ := t
  cases move with
  | property name =>
    cases shape <;> simp only [child?, shape_node, reduceCtorEq] at h
    cases other with
    | property name' =>
      exact Fields.find?_insert_of_ne (fun heq => hne (congrArg Move.property heq)) new _
    | items | resolved => rfl
  | items =>
    cases shape <;> simp only [child?, shape_node, reduceCtorEq] at h
    cases other with
    | items => exact absurd rfl hne
    | property _ | resolved => rfl
  | resolved =>
    cases shape <;> simp only [child?, shape_node, reduceCtorEq] at h
    cases other with
    | resolved => exact absurd rfl hne
    | property _ | items => rfl

/-- A node further down that is replaced does not make the root keep anything. -/
theorem child?_resolved_replaceBelow (h : child? .resolved t = none) :
    child? .resolved (replaceBelow new (move :: moves) t) = none := by
  rw [replaceBelow]
  split
  · exact h
  · rename_i d hd
    rw [child?_withChild_of_ne hd fun hmove => by rw [← hmove, h] at hd; cases hd]
    exact h

/-- A root that keeps a type still does when a node is replaced by one that does. -/
theorem child?_resolved_replaceBelow_ne (h : child? .resolved t ≠ none)
    (hnew : child? .resolved new ≠ none) : child? .resolved (replaceBelow new moves t) ≠ none := by
  cases moves with
  | nil => exact hnew
  | cons move moves =>
    rw [replaceBelow]
    split
    · exact h
    · rename_i d hd
      by_cases hmove : move = .resolved
      · subst hmove
        rw [child?_withChild hd]
        exact Option.some_ne_none _
      · rw [child?_withChild_of_ne hd (Ne.symm hmove)]
        exact h

theorem below?_append (moves rest : List Move) (t : SchemaType) :
    below? (moves ++ rest) t = (below? moves t).bind (below? rest) := by
  induction moves generalizing t with
  | nil => rfl
  | cons move moves ih =>
    rw [List.cons_append, below?, below?, Option.bind_assoc]
    exact Option.bind_congr fun d _ => ih d

end Moves

/-! ## Kept types -/

/-- Whether all that is kept on references in a type is of one sort, by what the reference carries
    and its target. -/
def KeepsOnly (P : Info → String → SchemaType → Prop) (t : SchemaType) : Prop :=
  ∀ moves info target pointer k,
    below? moves t = some (.node info (.reference target pointer (some k))) → P info target k

section KeepsOnly

variable {P : Info → String → SchemaType → Prop} {info : Info} {target pointer : String}
  {move : Move} {moves : List Move} {t c new k : SchemaType}

theorem KeepsOnly.below (h : KeepsOnly P t) (hc : below? moves t = some c) : KeepsOnly P c := by
  intro rest info target pointer k hk
  refine h (moves ++ rest) info target pointer k ?_
  rw [below?_append, hc]
  exact hk

theorem bare_of_child? (hbare : t.bare = t) (hc : child? move t = some c) : c.bare = c := by
  obtain ⟨i, shape⟩ := t
  rw [bare, node.injEq] at hbare
  cases move <;> cases shape <;> simp only [child?, shape_node, reduceCtorEq] at hc <;>
    rw [bareShape] at hbare
  case property.object properties _ _ =>
    have hfind := find?_bareProperties ‹String› properties
    rw [(Shape.object.inj hbare.2).1, hc, Option.map_some, Option.some.injEq] at hfind
    exact hfind.symm
  case items.array =>
    rw [hc, bareOption, Shape.array.injEq, Option.some.injEq] at hbare
    exact hbare.2
  case resolved.reference =>
    rw [hc, Shape.reference.injEq] at hbare
    cases hbare.2.2.2

theorem child?_resolved_of_bare (hbare : t.bare = t) : child? .resolved t = none := by
  obtain ⟨i, shape⟩ := t
  cases shape <;> first | rfl | skip
  rw [bare, bareShape, node.injEq, Shape.reference.injEq] at hbare
  exact hbare.2.2.2.symm

theorem keepsOnly_of_bare (hbare : t.bare = t) : KeepsOnly P t := by
  intro moves info target pointer k hbelow
  induction moves generalizing t with
  | nil =>
    cases hbelow
    cases child?_resolved_of_bare hbare
  | cons move moves ih =>
    obtain ⟨d, hd, hbelow⟩ := Option.bind_eq_some_iff.1 hbelow
    exact ih (bare_of_child? hbare hd) hbelow

theorem keepsOnly_keeping (hk : P info target k) (h : KeepsOnly P k) :
    KeepsOnly P (.node info (.reference target pointer (some k))) := by
  intro moves info' target' pointer' k' hbelow
  cases moves with
  | nil =>
    cases hbelow
    exact hk
  | cons move moves =>
    cases move with
    | resolved => exact h moves info' target' pointer' k' hbelow
    | property _ | items => cases hbelow

theorem keepsOnly_withInfo (h : KeepsOnly P t)
    (hroot : ∀ target pointer k, t.shape = .reference target pointer (some k) → P info target k) :
    KeepsOnly P (t.withInfo info) := by
  intro moves info' target' pointer' k' hbelow
  cases moves with
  | nil =>
    rw [below?, withInfo, Option.some.injEq, node.injEq] at hbelow
    obtain ⟨rfl, hshape⟩ := hbelow
    exact hroot target' pointer' k' hshape
  | cons move moves => exact h (move :: moves) info' target' pointer' k' hbelow

/-- A node that differs only in what is kept, and keeps only what is asked for. -/
theorem keepsOnly_replaceBelow
    (hP : ∀ info target k k', SchemaType.bare k' = k.bare → P info target k → P info target k')
    (h : KeepsOnly P t) (hc : below? moves t = some c) (hnew : KeepsOnly P new)
    (hbare : new.bare = c.bare) : KeepsOnly P (replaceBelow new moves t) := by
  induction moves generalizing t with
  | nil => exact hnew
  | cons move moves ih =>
    obtain ⟨d, hd, hdc⟩ := Option.bind_eq_some_iff.1 hc
    rw [replaceBelow, hd]
    have hdbelow : below? [move] t = some d := by rw [below?, hd]; rfl
    intro moves' info target pointer k hbelow
    cases moves' with
    | nil =>
      -- The root only changes what it keeps, if it is a reference.
      obtain ⟨i, shape⟩ := t
      cases move with
      | resolved =>
        cases shape <;> simp only [child?, shape_node, reduceCtorEq] at hd
        subst hd
        cases hbelow
        exact hP _ _ d _ (bare_replaceBelow hdc hbare) (h [] _ _ _ d rfl)
      | property _ | items =>
        cases shape <;> simp only [child?, shape_node, reduceCtorEq] at hd
        cases hbelow
    | cons move' moves' =>
      by_cases hmove : move' = move
      · subst hmove
        rw [below?, child?_withChild hd] at hbelow
        exact ih (h.below hdbelow) hdc moves' info target pointer k hbelow
      · rw [below?, child?_withChild_of_ne hd hmove] at hbelow
        exact h (move' :: moves') info target pointer k hbelow

end KeepsOnly

end Schema

end DomainScaffold
