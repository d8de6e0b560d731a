import DomainScaffold.Proofs.Graph.Ownership
import DomainScaffold.Proofs.Occurrences

/-!
# Connections of aggregates

What the connection of an aggregate says is decided by the edges at the aggregate and at the
commands next to it. Every command next to the aggregate is listed once, with the events that its
own edges lead to, or with those of the aggregate if there are none; there is no connection if some
command is left without events.

Results:
* `firstOccurrences_commandsOf`, `firstOccurrences_targetsOfKind`: commands and events in the order
  of the edges.
* `isConnection_connectionOf`, `IsConnection.eq`: the edges determine a connection.
* `IsConnection.nodup`: no command or event is listed twice.
* `aggregateConnection_iff`: what the connection of an aggregate is, and when there is none.
-/

namespace DomainScaffold.DomainGraph

variable (g : DomainGraph)

/-! ## Edges -/

/-- The ends of the edges from an element, in the order of the edges. -/
def targets (id : String) : List String := (g.edges.filter fun e => e.1 == id).map Prod.snd

/-- The starts of the edges to an element, in the order of the edges. -/
def sources (id : String) : List String := (g.edges.filter fun e => e.2 == id).map Prod.fst

/-- The other ends of all edges at an element, those of edges from it first. -/
def ends (id : String) : List String := g.targets id ++ g.sources id

/-- Whether an edge joins two elements, in either direction. -/
def Adjacent (a b : String) : Prop := (a, b) ∈ g.edges ∨ (b, a) ∈ g.edges

/-- Whether an id is that of an element of a kind. -/
def HasKind (id : String) (kind : ElementKind) : Prop :=
  ∃ e, g.element? id = some e ∧ e.is kind = true

/-- Whether some edge from an element leads to an event. -/
def HasEvents (id : String) : Prop := ∃ t, (id, t) ∈ g.edges ∧ g.HasKind t .event

/-- Whether an id is that of a document with the state of an aggregate. -/
def IsState (id : String) : Prop := ∃ e, g.element? id = some e ∧ e.isAggregateState = true

variable {g} {a id t : String} {c : AggregateConnection} {kind : ElementKind}

theorem mem_targets_iff : t ∈ g.targets id ↔ (id, t) ∈ g.edges := by
  simp [targets]

theorem mem_sources_iff : t ∈ g.sources id ↔ (t, id) ∈ g.edges := by
  simp [sources]

theorem mem_ends_iff : t ∈ g.ends id ↔ g.Adjacent id t := by
  rw [ends, List.mem_append, mem_targets_iff, mem_sources_iff, Adjacent]

theorem hasKind_iff : ((g.element? id).any fun e => e.is kind) = true ↔ g.HasKind id kind :=
  Option.any_eq_true _ _

theorem isState_iff : (g.element? id).any Element.isAggregateState = true ↔ g.IsState id :=
  Option.any_eq_true _ _

theorem neighbourIds_eq (id : String) : g.neighbourIds id = (g.ends id).eraseDups :=
  eraseDups_append_eraseDups (g.targets id) (g.sources id)

/-! ## Neighbours -/

/-- Elements are filtered by id. -/
theorem map_id_filter_filterMap (p : Element → Bool) (ids : List String) :
    ((ids.filterMap g.element?).filter p).map Element.id =
      ids.filter fun id => (g.element? id).any p := by
  induction ids with
  | nil => rfl
  | cons id ids ih =>
    cases he : g.element? id with
    | none => rw [List.filterMap_cons_none he, ih, List.filter_cons_of_neg (by simp [he])]
    | some e =>
      obtain ⟨-, rfl⟩ := mem_of_element? he
      rw [List.filterMap_cons_some he]
      by_cases hp : p e = true
      · rw [List.filter_cons_of_pos hp, List.filter_cons_of_pos (by simp [he, hp]), List.map_cons,
          ih]
      · rw [List.filter_cons_of_neg hp, List.filter_cons_of_neg (by simp [he, hp]), ih]

/-- The commands next to an element. -/
theorem firstOccurrences_commandsOf (a : String) :
    FirstOccurrences (g.ends a) (g.HasKind · .command) ((g.commandsOf a).map Element.id) := by
  rw [commandsOf, neighbours, map_id_filter_filterMap, neighbourIds_eq]
  exact firstOccurrences_filter_eraseDups fun _ => hasKind_iff

theorem firstOccurrences_targetsOfKind (id : String) (kind : ElementKind) :
    FirstOccurrences (g.targets id) (g.HasKind · kind) (g.targetsOfKind id kind) :=
  firstOccurrences_filter_eraseDups fun _ => hasKind_iff

theorem targetsOfKind_eq_nil_iff : g.targetsOfKind id .event = [] ↔ ¬ g.HasEvents id := by
  rw [List.eq_nil_iff_forall_not_mem, HasEvents, not_exists]
  exact forall_congr' fun t => not_congr mem_targetsOfKind_iff

/-- The first neighbour with some property. -/
theorem map_id_find?_neighbours (p : Element → Bool) (a : String) :
    ((g.neighbours a).find? p).map Element.id =
      (g.ends a).find? fun id => (g.element? id).any p := by
  rw [← find?_eraseDups, ← neighbourIds_eq, neighbours, ← List.head?_filter, ← List.head?_filter,
    ← map_id_filter_filterMap, List.head?_map]

theorem find?_neighbours_eq_some_iff {p : Element → Bool} {e : Element} :
    (g.neighbours a).find? p = some e ↔
      g.element? e.id = some e ∧
        ((g.ends a).find? fun id => (g.element? id).any p) = some e.id := by
  rw [← map_id_find?_neighbours, Option.map_eq_some_iff]
  constructor
  · intro h
    exact ⟨(mem_neighbours_iff.1 (List.mem_of_find?_eq_some h)).2, e, h, rfl⟩
  · rintro ⟨he, found, hfound, hid⟩
    have hsome := (mem_neighbours_iff.1 (List.mem_of_find?_eq_some hfound)).2
    rw [hid, he, Option.some.injEq] at hsome
    rw [hsome, hfound]

/-! ## Connections -/

/-- What the edges say of the connection of an aggregate. -/
structure IsConnection (g : DomainGraph) (a : String) (c : AggregateConnection) : Prop where
  aggregate : c.aggregate = a
  isAggregate : g.HasKind a .aggregate
  /-- The commands next to the aggregate, each once. -/
  commands : FirstOccurrences (g.ends a) (g.HasKind · .command) (c.commands.map Prod.fst)
  /-- A command records its own events if it has some, and those of the aggregate otherwise. -/
  own : ∀ p ∈ c.commands, g.HasEvents p.1 →
    FirstOccurrences (g.targets p.1) (g.HasKind · .event) p.2
  left : ∀ p ∈ c.commands, ¬ g.HasEvents p.1 →
    FirstOccurrences (g.targets a) (g.HasKind · .event) p.2
  ne_nil : ∀ p ∈ c.commands, p.2 ≠ []
  /-- All that is recorded, once. -/
  events : FirstOccurrences (c.commands.flatMap Prod.snd) (fun _ => True) c.events
  /-- The first neighbour with the state of an aggregate. -/
  state : ∀ d, c.stateDocument = some d ↔ IsFirst (g.ends a) g.IsState d

/-- Whether an element is a command that an aggregate leaves without events. -/
def IsUnheard (g : DomainGraph) (a id : String) : Prop :=
  g.HasKind id .command ∧ ¬ g.HasEvents id ∧ ¬ g.HasEvents a

theorem recordedBy_of_hasEvents (h : g.HasEvents id) :
    g.recordedBy a id = g.targetsOfKind id .event := by
  have hne : g.targetsOfKind id .event ≠ [] := fun hnil => targetsOfKind_eq_nil_iff.1 hnil h
  rw [recordedBy, List.isEmpty_eq_false_iff.2 hne, if_neg Bool.false_ne_true]

theorem recordedBy_of_not_hasEvents (h : ¬ g.HasEvents id) :
    g.recordedBy a id = g.targetsOfKind a .event := by
  rw [recordedBy, targetsOfKind_eq_nil_iff.2 h, List.isEmpty_nil, if_pos rfl]

theorem recordedBy_eq_nil_iff : g.recordedBy a id = [] ↔ ¬ g.HasEvents id ∧ ¬ g.HasEvents a := by
  by_cases h : g.HasEvents id
  · rw [recordedBy_of_hasEvents h, targetsOfKind_eq_nil_iff]
    exact ⟨fun hnot => absurd h hnot, fun hnot => hnot.1⟩
  · rw [recordedBy_of_not_hasEvents h, targetsOfKind_eq_nil_iff, and_iff_right h]

/-- The commands, events and state of an aggregate, whether or not a command is left without
    events. -/
def connectionOf (g : DomainGraph) (a : String) : AggregateConnection :=
  let recorded := (g.commandsOf a).map fun c => (c.id, g.recordedBy a c.id)
  ⟨a, recorded, (recorded.flatMap Prod.snd).eraseDups, (g.stateOf a).map Element.id⟩

theorem map_fst_connectionOf (a : String) :
    (g.connectionOf a).commands.map Prod.fst = (g.commandsOf a).map Element.id := by
  rw [connectionOf, List.map_map]
  rfl

theorem aggregateConnection_of_not_aggregate (h : ¬ g.HasKind a .aggregate) :
    g.aggregateConnection a = .error (.aggregateNotFound a a) := by
  have hnone : ((g.element? a).filter fun e => e.is .aggregate) = none := by
    rw [Option.filter_eq_none_iff]
    exact fun e he hkind => h ⟨e, he, hkind⟩
  rw [aggregateConnection, hnone]

theorem aggregateConnection_of_aggregate {e : Element} (he : g.element? a = some e)
    (hkind : e.is .aggregate = true) :
    g.aggregateConnection a =
      match (g.commandsOf a).find? fun c => (g.recordedBy a c.id).isEmpty with
      | some c => .error (.commandWithoutEvent c.name c.id e.name)
      | none => .ok (g.connectionOf a) := by
  rw [aggregateConnection, he, Option.filter_some, if_pos hkind]
  rfl

theorem stateDocument_connectionOf_iff {d : String} :
    (g.connectionOf a).stateDocument = some d ↔ IsFirst (g.ends a) g.IsState d := by
  rw [connectionOf, stateOf, map_id_find?_neighbours]
  exact find?_eq_some_iff_isFirst fun _ => isState_iff

/-- Which command is found without events. -/
theorem find?_commandsOf_eq_some_iff {command : Element} :
    ((g.commandsOf a).find? fun c => (g.recordedBy a c.id).isEmpty) = some command ↔
      g.element? command.id = some command ∧ IsFirst (g.ends a) (g.IsUnheard a) command.id := by
  rw [commandsOf, List.find?_filter, find?_neighbours_eq_some_iff]
  refine and_congr_right fun _ => find?_eq_some_iff_isFirst fun id => ?_
  rw [Option.any_eq_true, IsUnheard, ← recordedBy_eq_nil_iff]
  constructor
  · rintro ⟨e, he, hunheard⟩
    obtain ⟨-, rfl⟩ := mem_of_element? he
    obtain ⟨hkind, hnil⟩ := of_decide_eq_true hunheard
    exact ⟨⟨e, he, hkind⟩, List.isEmpty_iff.1 hnil⟩
  · rintro ⟨⟨e, he, hkind⟩, hnil⟩
    obtain ⟨-, rfl⟩ := mem_of_element? he
    exact ⟨e, he, decide_eq_true ⟨hkind, List.isEmpty_iff.2 hnil⟩⟩

theorem isConnection_connectionOf (ha : g.HasKind a .aggregate)
    (h : ∀ c ∈ g.commandsOf a, g.recordedBy a c.id ≠ []) : g.IsConnection a (g.connectionOf a) where
  aggregate := rfl
  isAggregate := ha
  commands := by
    rw [map_fst_connectionOf]
    exact firstOccurrences_commandsOf a
  own := by
    intro p hp hevents
    obtain ⟨c, -, rfl⟩ := List.mem_map.1 hp
    rw [recordedBy_of_hasEvents hevents]
    exact firstOccurrences_targetsOfKind _ _
  left := by
    intro p hp hevents
    obtain ⟨c, -, rfl⟩ := List.mem_map.1 hp
    rw [recordedBy_of_not_hasEvents hevents]
    exact firstOccurrences_targetsOfKind _ _
  ne_nil := by
    intro p hp
    obtain ⟨c, hc, rfl⟩ := List.mem_map.1 hp
    exact h c hc
  events := firstOccurrences_eraseDups _
  state := fun _ => stateDocument_connectionOf_iff

theorem IsConnection.nodup (h : g.IsConnection a c) :
    (c.commands.map Prod.fst).Nodup ∧ c.events.Nodup := ⟨h.commands.nodup, h.events.nodup⟩

/-- The edges leave no choice. -/
theorem IsConnection.eq (h : g.IsConnection a c) : c = g.connectionOf a := by
  obtain ⟨aggregate, commands, events, state⟩ := c
  obtain ⟨rfl, -, hcommands, hown, hleft, -, hevents, hstate⟩ := h
  dsimp only at *
  have hfst : commands.map Prod.fst = (g.commandsOf aggregate).map Element.id :=
    hcommands.unique (firstOccurrences_commandsOf aggregate)
  have hsnd : ∀ p ∈ commands, p = (p.1, g.recordedBy aggregate p.1) := by
    intro p hp
    by_cases hevents : g.HasEvents p.1
    · rw [recordedBy_of_hasEvents hevents]
      exact Prod.ext rfl ((hown p hp hevents).unique (firstOccurrences_targetsOfKind _ _))
    · rw [recordedBy_of_not_hasEvents hevents]
      exact Prod.ext rfl ((hleft p hp hevents).unique (firstOccurrences_targetsOfKind _ _))
  -- A command occurs once and its events are those of its id, so the ids determine the pairs.
  have hall : commands = (g.connectionOf aggregate).commands := by
    calc commands = commands.map fun p => (p.1, g.recordedBy aggregate p.1) :=
          (List.map_id' commands).symm.trans (List.map_congr_left hsnd)
      _ = (commands.map Prod.fst).map fun id => (id, g.recordedBy aggregate id) := by
          rw [List.map_map]
          rfl
      _ = (g.connectionOf aggregate).commands := by
          rw [hfst, List.map_map]
          rfl
  rw [hall] at hevents
  have hstates : state = (g.connectionOf aggregate).stateDocument := Option.ext fun d =>
    (hstate d).trans stateDocument_connectionOf_iff.symm
  rw [hall, hevents.unique (firstOccurrences_eraseDups _), hstates]
  rfl

theorem aggregateConnection_eq_ok_iff : g.aggregateConnection a = .ok c ↔ g.IsConnection a c := by
  constructor
  · intro h
    obtain ⟨⟨e, he, hkind⟩, -⟩ := aggregateConnection_eq_ok h
    rw [aggregateConnection_of_aggregate he hkind] at h
    split at h
    · cases h
    · rename_i hnone
      cases h
      refine isConnection_connectionOf ⟨e, he, hkind⟩ fun c hc hnil => ?_
      exact List.find?_eq_none.1 hnone c hc (List.isEmpty_iff.2 hnil)
  · intro h
    obtain ⟨e, he, hkind⟩ := h.isAggregate
    have hnone : ((g.commandsOf a).find? fun c => (g.recordedBy a c.id).isEmpty) = none := by
      refine List.find?_eq_none.2 fun c hc hnil => ?_
      have hmem : (c.id, g.recordedBy a c.id) ∈ (g.connectionOf a).commands :=
        List.mem_map_of_mem hc
      rw [← h.eq] at hmem
      exact h.ne_nil _ hmem (List.isEmpty_iff.1 hnil)
    rw [aggregateConnection_of_aggregate he hkind, hnone, h.eq]

theorem aggregateConnection_eq_error_iff {e : GenerationError} :
    g.aggregateConnection a = .error e ↔
      (¬ g.HasKind a .aggregate ∧ e = .aggregateNotFound a a) ∨
      ∃ aggregate command, g.element? a = some aggregate ∧ aggregate.is .aggregate = true ∧
        g.element? command.id = some command ∧
        IsFirst (g.ends a) (g.IsUnheard a) command.id ∧
        e = .commandWithoutEvent command.name command.id aggregate.name := by
  constructor
  · intro h
    by_cases ha : g.HasKind a .aggregate
    · obtain ⟨aggregate, haggregate, hkind⟩ := ha
      rw [aggregateConnection_of_aggregate haggregate hkind] at h
      split at h
      · rename_i command hfound
        cases h
        obtain ⟨hcommand, hfirst⟩ := find?_commandsOf_eq_some_iff.1 hfound
        exact .inr ⟨aggregate, command, haggregate, hkind, hcommand, hfirst, rfl⟩
      · cases h
    · rw [aggregateConnection_of_not_aggregate ha] at h
      cases h
      exact .inl ⟨ha, rfl⟩
  · rintro (⟨ha, rfl⟩ | ⟨aggregate, command, haggregate, hkind, hcommand, hfirst, rfl⟩)
    · exact aggregateConnection_of_not_aggregate ha
    · rw [aggregateConnection_of_aggregate haggregate hkind,
        find?_commandsOf_eq_some_iff.2 ⟨hcommand, hfirst⟩]

theorem exists_error_iff : (∃ e, g.aggregateConnection a = .error e) ↔
    ¬ g.HasKind a .aggregate ∨ ∃ id, g.Adjacent a id ∧ g.IsUnheard a id := by
  have hfirst : (∃ id, g.Adjacent a id ∧ g.IsUnheard a id) ↔
      ∃ id, IsFirst (g.ends a) (g.IsUnheard a) id := by
    rw [exists_isFirst_iff]
    exact exists_congr fun id => and_congr_left fun _ => mem_ends_iff.symm
  rw [hfirst]
  constructor
  · rintro ⟨e, he⟩
    obtain ⟨ha, -⟩ | ⟨-, command, -, -, -, hunheard, -⟩ := aggregateConnection_eq_error_iff.1 he
    · exact .inl ha
    · exact .inr ⟨command.id, hunheard⟩
  · intro h
    by_cases ha : g.HasKind a .aggregate
    · obtain ⟨id, hunheard⟩ := h.resolve_left (not_not_intro ha)
      obtain ⟨aggregate, haggregate, hkind⟩ := ha
      -- What is left without events is a command, so an element.
      obtain ⟨command, hcommand, -⟩ := hunheard.holds.1
      obtain ⟨-, rfl⟩ := mem_of_element? hcommand
      exact ⟨_, aggregateConnection_eq_error_iff.2
        (.inr ⟨aggregate, command, haggregate, hkind, hcommand, hunheard, rfl⟩)⟩
    · exact ⟨_, aggregateConnection_of_not_aggregate ha⟩

/-- The connection of an aggregate is what its edges say. There is none exactly if the id is not
    that of an aggregate, or if neither a command next to the aggregate nor the aggregate has an edge
    to an event; the first such command is reported. -/
theorem aggregateConnection_iff (g : DomainGraph) (a : String) :
    (∀ c, g.aggregateConnection a = .ok c ↔ g.IsConnection a c) ∧
    ((∃ e, g.aggregateConnection a = .error e) ↔
      ¬ g.HasKind a .aggregate ∨ ∃ id, g.Adjacent a id ∧ g.IsUnheard a id) ∧
    ∀ e, g.aggregateConnection a = .error e ↔
      (¬ g.HasKind a .aggregate ∧ e = .aggregateNotFound a a) ∨
      ∃ aggregate command, g.element? a = some aggregate ∧ aggregate.is .aggregate = true ∧
        g.element? command.id = some command ∧
        IsFirst (g.ends a) (g.IsUnheard a) command.id ∧
        e = .commandWithoutEvent command.name command.id aggregate.name :=
  ⟨fun _ => aggregateConnection_eq_ok_iff, exists_error_iff,
    fun _ => aggregateConnection_eq_error_iff⟩

end DomainScaffold.DomainGraph
