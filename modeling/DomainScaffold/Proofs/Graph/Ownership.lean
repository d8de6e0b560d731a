import DomainScaffold.Proofs.Graph.Aggregates

/-!
# Ownership and recording

Who owns a command or an event is looked up at its neighbours; which events an aggregate records
follows the edges from it and its commands. For commands the two views agree. An event that an
aggregate stands next to belongs to the first such aggregate, whichever way the edge goes and
whether or not that aggregate records it.

Results:
* `mem_recordedBy_iff`, `records_iff`: recording in terms of edges.
* `mem_commands_of_nearestAggregate`: an aggregate handles the commands that it is nearest to.
* `owner_records_iff`: when the owner of an event is an aggregate that records it.
-/

namespace DomainScaffold.DomainGraph

variable {g : DomainGraph}

/-! ## Neighbours -/

theorem mem_neighbours_iff {id : String} {e : Element} :
    e ∈ g.neighbours id ↔ e.id ∈ g.neighbourIds id ∧ g.element? e.id = some e := by
  rw [neighbours, List.mem_filterMap]
  constructor
  · rintro ⟨n, hn, he⟩
    obtain ⟨-, rfl⟩ := mem_of_element? he
    exact ⟨hn, he⟩
  · rintro ⟨hn, he⟩
    exact ⟨e.id, hn, he⟩

theorem mem_commandsOf_iff {a : String} {c : Element} :
    c ∈ g.commandsOf a ↔
      c.id ∈ g.neighbourIds a ∧ g.element? c.id = some c ∧ c.is .command = true := by
  rw [commandsOf, List.mem_filter, mem_neighbours_iff, and_assoc]

theorem mem_targetsOfKind_iff {id t : String} {kind : ElementKind} :
    t ∈ g.targetsOfKind id kind ↔
      (id, t) ∈ g.edges ∧ ∃ e, g.element? t = some e ∧ e.is kind = true := by
  rw [targetsOfKind, List.mem_filter, mem_outgoing_iff, Option.any_eq_true]

theorem mem_neighbourIds_of_edge {a b : String} (h : (a, b) ∈ g.edges) : a ∈ g.neighbourIds b := by
  rw [neighbourIds, List.mem_eraseDups, List.mem_append]
  exact .inr (g.mem_incoming_iff.2 h)

theorem isSome_nearestAggregate {id : String} {a : Element} (h : a.id ∈ g.neighbourIds id)
    (ha : g.element? a.id = some a) (hkind : a.is .aggregate = true) :
    (g.nearestAggregate id).isSome = true :=
  List.find?_isSome.2 ⟨a, mem_neighbours_iff.2 ⟨h, ha⟩, hkind⟩

/-! ## Recording -/

/-- Whether a command without events of its own stands next to an aggregate. -/
def LeavesEvents (g : DomainGraph) (aggregate : String) : Prop :=
  ∃ c ∈ g.commandsOf aggregate, g.targetsOfKind c.id .event = []

/-- Whether an aggregate hands out an event: by an edge from one of its commands, or by an edge of
    its own that a command without events leaves to it. -/
def Emits (g : DomainGraph) (aggregate event : String) : Prop :=
  (∃ c ∈ g.commandsOf aggregate, (c.id, event) ∈ g.edges) ∨
    (aggregate, event) ∈ g.edges ∧ g.LeavesEvents aggregate

/-- Whether the connection of an aggregate records an event. -/
def Records (g : DomainGraph) (aggregate event : String) : Prop :=
  ∃ c, g.aggregateConnection aggregate = .ok c ∧ event ∈ c.events

theorem mem_recordedBy_iff {a c t : String} :
    t ∈ g.recordedBy a c ↔ (∃ e, g.element? t = some e ∧ e.is .event = true) ∧
      ((c, t) ∈ g.edges ∨ (a, t) ∈ g.edges ∧ g.targetsOfKind c .event = []) := by
  unfold recordedBy
  dsimp only
  cases hown : g.targetsOfKind c .event with
  | nil =>
    -- No edge of the command leads to an event.
    have hnone : ∀ e, g.element? t = some e → e.is .event = true → (c, t) ∉ g.edges := by
      intro e he hkind hedge
      have hmem := mem_targetsOfKind_iff.2 ⟨hedge, e, he, hkind⟩
      rw [hown] at hmem
      cases hmem
    rw [List.isEmpty_nil, if_pos rfl, mem_targetsOfKind_iff]
    constructor
    · rintro ⟨hedge, he⟩
      exact ⟨he, .inr ⟨hedge, rfl⟩⟩
    · rintro ⟨⟨e, he, hkind⟩, hedge | ⟨hedge, -⟩⟩
      · exact absurd hedge (hnone e he hkind)
      · exact ⟨hedge, e, he, hkind⟩
  | cons own others =>
    rw [List.isEmpty_cons, if_neg Bool.false_ne_true, ← hown, mem_targetsOfKind_iff, hown, and_comm]
    simp

theorem mem_events_iff {id t : String} {c : AggregateConnection}
    (h : g.aggregateConnection id = .ok c) :
    t ∈ c.events ↔ ∃ x ∈ g.commandsOf id, t ∈ g.recordedBy id x.id := by
  obtain ⟨-, -, hcommands, -, hevents⟩ := aggregateConnection_eq_ok h
  rw [hevents, List.mem_eraseDups, hcommands, List.flatMap_map, List.mem_flatMap]

/-- What an aggregate with a connection records are the events that it hands out. -/
theorem records_iff {id t : String} {c : AggregateConnection}
    (h : g.aggregateConnection id = .ok c) :
    g.Records id t ↔
      (∃ e, g.element? t = some e ∧ e.is .event = true) ∧ g.Emits id t := by
  have hrecords : g.Records id t ↔ t ∈ c.events := by
    constructor
    · rintro ⟨c', hc', ht⟩
      obtain rfl := Except.ok.inj (h.symm.trans hc')
      exact ht
    · exact fun ht => ⟨c, h, ht⟩
  rw [hrecords, mem_events_iff h]
  constructor
  · rintro ⟨x, hx, ht⟩
    obtain ⟨he, hedge | ⟨hedge, hnone⟩⟩ := mem_recordedBy_iff.1 ht
    · exact ⟨he, .inl ⟨x, hx, hedge⟩⟩
    · exact ⟨he, .inr ⟨hedge, x, hx, hnone⟩⟩
  · rintro ⟨he, ⟨x, hx, hedge⟩ | ⟨hedge, x, hx, hnone⟩⟩
    · exact ⟨x, hx, mem_recordedBy_iff.2 ⟨he, .inl hedge⟩⟩
    · exact ⟨x, hx, mem_recordedBy_iff.2 ⟨he, .inr ⟨hedge, hnone⟩⟩⟩

/-! ## Owners -/

/-- Every aggregate of a graph has one of the connections of the graph. -/
theorem exists_connection {cs : List AggregateConnection} (h : g.aggregateConnections = .ok cs)
    {a : Element} (ha : g.element? a.id = some a) (hkind : a.is .aggregate = true) :
    ∃ c, g.aggregateConnection a.id = .ok c := by
  obtain ⟨c, -, hc⟩ := Outcome.exists_of_mapM h (mem_ofKind_of_element? ha hkind)
  exact ⟨c, hc⟩

/-- A command is a neighbour of the aggregate that is nearest to it. -/
theorem mem_commandsOf_of_nearestAggregate {a c : Element}
    (hc : g.element? c.id = some c) (hkind : c.is .command = true)
    (h : g.nearestAggregate c.id = some a) : c ∈ g.commandsOf a.id := by
  obtain ⟨hnext, -⟩ := mem_neighbours_iff.1 (List.mem_of_find?_eq_some h)
  exact mem_commandsOf_iff.2 ⟨g.mem_neighbourIds_comm.1 hnext, hc, hkind⟩

/-- An aggregate handles the commands that it is nearest to. -/
theorem mem_commands_of_nearestAggregate {a c : Element} {connection : AggregateConnection}
    (hconnection : g.aggregateConnection a.id = .ok connection)
    (hc : g.element? c.id = some c) (hkind : c.is .command = true)
    (h : g.nearestAggregate c.id = some a) : c.id ∈ connection.commands.map Prod.fst := by
  rw [(aggregateConnection_eq_ok hconnection).2.2.1, List.map_map]
  exact List.mem_map_of_mem (f := Element.id) (mem_commandsOf_of_nearestAggregate hc hkind h)

/-- The owner of a command is the aggregate that is nearest to it. -/
theorem aggregateFor_command {c : Element} (hc : g.element? c.id = some c)
    (hkind : c.is .command = true) : g.aggregateFor c.id = g.nearestAggregate c.id := by
  have hkind : c.kind = .command := by simpa [Element.is] using hkind
  simp [aggregateFor, hc, hkind]

/-- The commands that lead to an element, in order. -/
def commandsInto (g : DomainGraph) (id : String) : List Element :=
  ((g.incoming id).filterMap g.element?).filter fun s => s.is .command

theorem mem_commandsInto_iff {id : String} {c : Element} :
    c ∈ g.commandsInto id ↔
      (c.id, id) ∈ g.edges ∧ g.element? c.id = some c ∧ c.is .command = true := by
  rw [commandsInto, List.mem_filter, List.mem_filterMap, ← and_assoc]
  refine and_congr_left fun _ => ⟨?_, ?_⟩
  · rintro ⟨n, hn, he⟩
    obtain ⟨-, rfl⟩ := mem_of_element? he
    exact ⟨g.mem_incoming_iff.1 hn, he⟩
  · rintro ⟨hedge, he⟩
    exact ⟨c.id, g.mem_incoming_iff.2 hedge, he⟩

/-- The owner of an event is the aggregate that is nearest to it, or else to a command that leads to
    it. -/
theorem aggregateFor_event {e : Element} (he : g.element? e.id = some e)
    (hkind : e.is .event = true) :
    g.aggregateFor e.id = (g.nearestAggregate e.id).or
      ((g.commandsInto e.id).findSome? fun c => g.nearestAggregate c.id) := by
  have hkind : e.kind = .event := by simpa [Element.is] using hkind
  simp [aggregateFor, he, hkind, commandsInto]

/-- An event that no aggregate stands next to, but that one records, belongs to an aggregate that
    one of its commands leads to the event. -/
theorem exists_owner_of_command {a t : String} {e : Element} (he : g.element? t = some e)
    (hkind : e.is .event = true) (ha : ∃ x, g.element? a = some x ∧ x.is .aggregate = true)
    (hnone : g.nearestAggregate t = none) (h : g.Emits a t) :
    ∃ owner, g.aggregateFor t = some owner ∧ g.Emits owner.id t := by
  obtain ⟨-, rfl⟩ := mem_of_element? he
  obtain ⟨x, hx, hxkind⟩ := ha
  obtain ⟨-, rfl⟩ := mem_of_element? hx
  rcases h with ⟨c, hc, hedge⟩ | ⟨hedge, -⟩
  · obtain ⟨hnext, hc, hckind⟩ := mem_commandsOf_iff.1 hc
    -- The command leads to some aggregate, so the search over all commands ends with one.
    have hnear := isSome_nearestAggregate (g.mem_neighbourIds_comm.1 hnext) hx hxkind
    have hfound : ((g.commandsInto e.id).findSome? fun c => g.nearestAggregate c.id).isSome =
        true := by
      rw [List.findSome?_isSome_iff]
      exact ⟨c, mem_commandsInto_iff.2 ⟨hedge, hc, hckind⟩, hnear⟩
    obtain ⟨owner, howner⟩ := Option.isSome_iff_exists.1 hfound
    obtain ⟨c', hc', howner'⟩ := List.exists_of_findSome?_eq_some howner
    obtain ⟨hedge', hc', hckind'⟩ := mem_commandsInto_iff.1 hc'
    refine ⟨owner, ?_, .inl ⟨c', mem_commandsOf_of_nearestAggregate hc' hckind' howner', hedge'⟩⟩
    rw [aggregateFor_event he hkind, hnone, Option.none_or, howner]
  · have hnear := isSome_nearestAggregate (mem_neighbourIds_of_edge hedge) hx hxkind
    rw [hnone] at hnear
    cases hnear

/-- The owner of a command handles it. A recorded event has an owner, which records it unless the
    first aggregate next to the event does not hand it out. -/
theorem owner_records_iff {cs : List AggregateConnection} (h : g.aggregateConnections = .ok cs) :
    (∀ c a, g.element? c.id = some c → c.is .command = true → g.aggregateFor c.id = some a →
      ∃ connection, g.aggregateConnection a.id = .ok connection ∧
        c.id ∈ connection.commands.map Prod.fst) ∧
    ∀ t, (∃ a, g.Records a t) → ∃ owner, g.aggregateFor t = some owner ∧
      owner.is .aggregate = true ∧
      (g.Records owner.id t ↔ ∀ a, g.nearestAggregate t = some a → g.Emits a.id t) := by
  constructor
  · intro c a hc hkind howner
    obtain ⟨ha, hakind⟩ := aggregateFor_eq_some howner
    obtain ⟨connection, hconnection⟩ := exists_connection h ha hakind
    rw [aggregateFor_command hc hkind] at howner
    exact ⟨connection, hconnection, mem_commands_of_nearestAggregate hconnection hc hkind howner⟩
  · rintro t ⟨a, hrecords⟩
    obtain ⟨c, hc, -⟩ := id hrecords
    obtain ⟨⟨e, he, hkind⟩, hemits⟩ := (records_iff hc).1 hrecords
    have ha := (aggregateConnection_eq_ok hc).1
    obtain ⟨owner, howner, hemitted⟩ : ∃ owner, g.aggregateFor t = some owner ∧
        (g.Emits owner.id t ↔ ∀ a, g.nearestAggregate t = some a → g.Emits a.id t) := by
      cases hnear : g.nearestAggregate t with
      | none =>
        obtain ⟨owner, howner, hemits⟩ := exists_owner_of_command he hkind ha hnear hemits
        exact ⟨owner, howner, by simpa using hemits⟩
      | some near =>
        obtain ⟨-, rfl⟩ := mem_of_element? he
        refine ⟨near, ?_, by simp⟩
        rw [aggregateFor_event he hkind, hnear, Option.some_or]
    obtain ⟨hfound, hownerKind⟩ := aggregateFor_eq_some howner
    obtain ⟨connection, hconnection⟩ := exists_connection h hfound hownerKind
    refine ⟨owner, howner, hownerKind, ?_⟩
    rw [records_iff hconnection, ← hemitted]
    exact and_iff_right ⟨e, he, hkind⟩

/-! ### An event that another aggregate takes -/

/-- A placed order is recorded by the order, and taken by the stock. -/
def takenEvent : DomainGraph :=
  ⟨[⟨"order", "Order", .aggregate, none, none⟩, ⟨"stock", "Stock", .aggregate, none, none⟩,
      ⟨"place", "Place Order", .command, none, none⟩,
      ⟨"placed", "Order Placed", .event, none, none⟩],
    [("place", "order"), ("place", "placed"), ("placed", "stock")], .empty⟩

/-- The connections of its aggregates. -/
def takenEventConnections : List AggregateConnection :=
  [⟨"order", [("place", ["placed"])], ["placed"], none⟩, ⟨"stock", [], [], none⟩]

theorem owner_records_iff_takenEvent :
    takenEvent.aggregateConnections = .ok takenEventConnections ∧
    (∃ connection, takenEvent.aggregateConnection "order" = .ok connection ∧
      "place" ∈ connection.commands.map Prod.fst) ∧
    ∃ owner, takenEvent.aggregateFor "placed" = some owner ∧ owner.is .aggregate = true ∧
      (takenEvent.Records owner.id "placed" ↔
        ∀ a, takenEvent.nearestAggregate "placed" = some a → takenEvent.Emits a.id "placed") := by
  have h : takenEvent.aggregateConnections = .ok takenEventConnections := rfl
  have horder : takenEvent.aggregateConnection "order" =
      .ok ⟨"order", [("place", ["placed"])], ["placed"], none⟩ := rfl
  exact ⟨h, (owner_records_iff h).1 ⟨"place", "Place Order", .command, none, none⟩
    ⟨"order", "Order", .aggregate, none, none⟩ rfl rfl rfl,
    (owner_records_iff h).2 "placed" ⟨"order", _, horder, by decide⟩⟩

/-- The event belongs to the aggregate that takes it, which does not record it. -/
theorem takenEvent_owner_not_records :
    takenEvent.aggregateConnections = .ok takenEventConnections ∧
    takenEvent.Records "order" "placed" ∧
    (takenEvent.aggregateFor "placed").map Element.id = some "stock" ∧
    ¬ takenEvent.Records "stock" "placed" := by
  have horder : takenEvent.aggregateConnection "order" =
      .ok ⟨"order", [("place", ["placed"])], ["placed"], none⟩ := rfl
  have hstock : takenEvent.aggregateConnection "stock" = .ok ⟨"stock", [], [], none⟩ := rfl
  refine ⟨rfl, ⟨_, horder, by decide⟩, rfl, ?_⟩
  rintro ⟨c, hc, hplaced⟩
  obtain rfl := Except.ok.inj (hstock.symm.trans hc)
  cases hplaced

end DomainScaffold.DomainGraph
