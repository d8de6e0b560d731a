import DomainScaffold.Graph.Basic

/-!
# Aggregates and what belongs to them

The elements that a connection names are there: its aggregate, its commands and what they record are
elements of the graph and of the right kinds.

Results:
* `aggregateConnection_eq_ok`: what a connection of an aggregate consists of.
* `exists_of_mem_recordedBy`, `mem_commandsOf`: commands and events of a connection are elements.
* `aggregateFor_eq_some`: what an element belongs to is an aggregate.
-/

namespace DomainScaffold.DomainGraph

variable {g : DomainGraph}

/-! ## Elements -/

theorem mem_of_element? {id : String} {e : Element} (h : g.element? id = some e) :
    e ∈ g.elements ∧ e.id = id :=
  ⟨List.mem_of_find?_eq_some h, by simpa using List.find?_some h⟩

theorem mem_ofKind_of_element? {id : String} {e : Element} {kind : ElementKind}
    (h : g.element? id = some e) (hkind : e.is kind = true) : e ∈ g.ofKind kind :=
  List.mem_filter.2 ⟨(mem_of_element? h).1, hkind⟩

/-- A neighbour is the element that is found under its id. -/
theorem element?_of_mem_neighbours {id : String} {e : Element} (h : e ∈ g.neighbours id) :
    g.element? e.id = some e := by
  obtain ⟨n, -, hn⟩ := List.mem_filterMap.1 h
  rwa [(mem_of_element? hn).2]

/-! ## Connections -/

theorem mem_commandsOf {a : String} {c : Element} (h : c ∈ g.commandsOf a) :
    g.element? c.id = some c ∧ c.is .command = true := by
  obtain ⟨hc, hkind⟩ := List.mem_filter.1 h
  exact ⟨element?_of_mem_neighbours hc, hkind⟩

theorem exists_of_mem_targetsOfKind {id t : String} {kind : ElementKind}
    (h : t ∈ g.targetsOfKind id kind) : ∃ e, g.element? t = some e ∧ e.is kind = true := by
  obtain ⟨-, h⟩ := List.mem_filter.1 h
  exact (Option.any_eq_true _ _).1 h

theorem exists_of_mem_recordedBy {a c t : String} (h : t ∈ g.recordedBy a c) :
    ∃ e, g.element? t = some e ∧ e.is .event = true := by
  unfold recordedBy at h
  dsimp only at h
  split at h <;> exact exists_of_mem_targetsOfKind h

/-- What a connection of an aggregate consists of. -/
theorem aggregateConnection_eq_ok {id : String} {c : AggregateConnection}
    (h : g.aggregateConnection id = .ok c) :
    (∃ aggregate, g.element? id = some aggregate ∧ aggregate.is .aggregate = true) ∧
      c.aggregate = id ∧
      c.commands = (g.commandsOf id).map (fun x => (x.id, g.recordedBy id x.id)) ∧
      (∀ p ∈ c.commands, p.2 ≠ []) ∧ c.events = (c.commands.flatMap Prod.snd).eraseDups := by
  unfold aggregateConnection at h
  split at h
  · cases h
  · rename_i aggregate haggregate
    dsimp only at h
    split at h
    · cases h
    · rename_i hnone
      cases h
      obtain ⟨haggregate, hkind⟩ := Option.filter_eq_some_iff.1 haggregate
      refine ⟨⟨aggregate, haggregate, hkind⟩, rfl, rfl, fun p hp => ?_, rfl⟩
      obtain ⟨x, hx, rfl⟩ := List.mem_map.1 hp
      simpa using List.find?_eq_none.1 hnone x hx

/-- A command of a connection is a command of the graph, and records events of the graph. -/
theorem exists_of_mem_commands {id : String} {c : AggregateConnection}
    (h : g.aggregateConnection id = .ok c) {p : String × List String} (hp : p ∈ c.commands) :
    (∃ command, g.element? p.1 = some command ∧ command.is .command = true) ∧
      ∀ t ∈ p.2, ∃ event, g.element? t = some event ∧ event.is .event = true := by
  rw [(aggregateConnection_eq_ok h).2.2.1] at hp
  obtain ⟨command, hcommand, rfl⟩ := List.mem_map.1 hp
  exact ⟨⟨command, mem_commandsOf hcommand⟩, fun t ht => exists_of_mem_recordedBy ht⟩

/-! ## Owners -/

theorem nearestAggregate_eq_some {id : String} {a : Element} (h : g.nearestAggregate id = some a) :
    g.element? a.id = some a ∧ a.is .aggregate = true :=
  ⟨element?_of_mem_neighbours (List.mem_of_find?_eq_some h), by
    simpa using List.find?_some h⟩

/-- What an element belongs to is an aggregate of the graph. -/
theorem aggregateFor_eq_some {id : String} {a : Element} (h : g.aggregateFor id = some a) :
    g.element? a.id = some a ∧ a.is .aggregate = true := by
  unfold aggregateFor at h
  split at h
  · cases h
  · rename_i e he
    split at h
    · rename_i hkind
      cases h
      exact ⟨by rwa [(mem_of_element? he).2], by simp [Element.is, hkind]⟩
    · exact nearestAggregate_eq_some h
    · rcases Option.or_eq_some_iff.1 h with h | ⟨-, h⟩
      · exact nearestAggregate_eq_some h
      · obtain ⟨c, -, hc⟩ := List.exists_of_findSome?_eq_some h
        exact nearestAggregate_eq_some hc
    · split at h
      · exact nearestAggregate_eq_some h
      · cases h
    · cases h

end DomainScaffold.DomainGraph
