import DomainScaffold.Graph.Reader
import DomainScaffold.Proofs.Fields
import DomainScaffold.Proofs.Graph.Ownership

/-!
# Construction of graphs

The neighbours of an element are read off the edges. They may also be collected edge by edge, in two
tables that have a row for each element: an edge adds its end to the row of its start, and its start
to the row of its end. Both ways fail alike and give the same neighbours.

Results:
* `rows_link`, `rows_place`: what the tables hold behind one more edge or element.
* `build_eq`: what they hold behind all of them, or the error.
* `ofParts_eq_ok_iff`, `exists_ofNodes_iff`: when there is a graph.
* `mem_edges_declare_iff`, `sameGraph_declare`: an edge may be written at either end.
* `ofParts_faithful`: a graph has its elements and edges, and fails without distinct ids or known
  ends.
-/

namespace DomainScaffold

/-! ## Tables -/

/-- For each element the ends of the edges from it, and the starts of those to it. -/
structure Adjacency where
  outgoing : Fields (List String)
  incoming : Fields (List String)

namespace Adjacency

/-- The ids with another one behind them, unless it is among them. -/
def addOnce (id : String) (ids : List String) : List String :=
  if ids.contains id then ids else ids ++ [id]

/-- The table with an id in the row of another one, if there is such a row. -/
def extend (row id : String) (table : Fields (List String)) : Fields (List String) :=
  match Fields.find? row table with
  | none => table
  | some ids => Fields.insert row (addOnce id ids) table

/-- The tables with empty rows for an element. -/
def place (t : Adjacency) (e : Element) : Outcome Adjacency :=
  if Fields.has e.id t.outgoing then .error (.duplicateElement e.id)
  else .ok ⟨Fields.insert e.id [] t.outgoing, Fields.insert e.id [] t.incoming⟩

/-- The tables with an edge. -/
def link (t : Adjacency) (e : String × String) : Outcome Adjacency :=
  match [e.1, e.2].find? fun id => !Fields.has id t.outgoing with
  | some id => .error (.unknownElement id)
  | none => .ok ⟨extend e.1 e.2 t.outgoing, extend e.2 e.1 t.incoming⟩

/-- The tables for elements and edges, collected one after the other. -/
def build (elements : List Element) (edges : List (String × String)) : Outcome Adjacency := do
  let placed ← elements.foldlM place ⟨[], []⟩
  edges.foldlM link placed

/-- The edges at one element. -/
def connection? (t : Adjacency) (id : String) : Option Connection := do
  let sources ← Fields.find? id t.incoming
  let targets ← Fields.find? id t.outgoing
  return ⟨id, sources, targets⟩

theorem find?_extend (row id other : String) (table : Fields (List String)) :
    Fields.find? other (extend row id table) =
      (Fields.find? other table).map fun ids => if other = row then addOnce id ids else ids := by
  unfold extend
  split
  · rename_i hrow
    by_cases h : other = row
    · rw [h, hrow]
      rfl
    · simp [h]
  · rename_i ids hrow
    by_cases h : other = row
    · rw [h, Fields.find?_insert_self, hrow, Option.map_some, if_pos rfl]
    · rw [Fields.find?_insert_of_ne h]
      simp [h]

end Adjacency

namespace DomainGraph

open Adjacency Schema

variable {elements : List Element} {edges done : List (String × String)} {t : Adjacency}
  {id a b : String} {g : DomainGraph}

/-! ## What is reported -/

/-- The first id that stands among those before it. -/
def IsFirstRepeated (ids : List String) (id : String) : Prop :=
  ∃ before after, ids = before ++ id :: after ∧ id ∈ before ∧ before.Nodup

/-- The id that is reported is the first one that was seen, or stands among those before it. -/
theorem firstRepeated?_seen_iff {seen : List String} :
    firstRepeated? seen elements = some id ↔
      ∃ before after, elements.map Element.id = before ++ id :: after ∧
        (id ∈ seen ∨ id ∈ before) ∧ before.Nodup ∧ ∀ x ∈ before, x ∉ seen := by
  induction elements generalizing seen with
  | nil => simp [firstRepeated?]
  | cons e es ih =>
    rw [firstRepeated?, List.map_cons]
    by_cases he : e.id ∈ seen
    · rw [if_pos (List.contains_iff_mem.2 he)]
      constructor
      · rintro ⟨⟩
        exact ⟨[], es.map Element.id, rfl, .inl he, .nil, fun x hx => by cases hx⟩
      · rintro ⟨_ | ⟨x, before⟩, after, hes, -, -, hbefore⟩
        · rw [(List.cons.inj hes).1]
        · rw [(List.cons.inj hes).1] at he
          exact absurd he (hbefore x List.mem_cons_self)
    · rw [if_neg (by simpa using he), ih]
      constructor
      · rintro ⟨before, after, hes, hseen, hnodup, hbefore⟩
        simp only [List.mem_cons, not_or] at hseen hbefore
        refine ⟨e.id :: before, after, by rw [hes, List.cons_append], ?_, ?_, ?_⟩
        · rw [List.mem_cons]
          tauto
        · exact List.nodup_cons.2 ⟨fun hmem => (hbefore e.id hmem).1 rfl, hnodup⟩
        · exact List.forall_mem_cons.2 ⟨he, fun x hx => (hbefore x hx).2⟩
      · rintro ⟨_ | ⟨x, before⟩, after, hes, hseen, hnodup, hbefore⟩
        · rw [(List.cons.inj hes).1] at he
          exact absurd (hseen.resolve_right List.not_mem_nil) he
        · rw [List.cons_append, List.cons.injEq] at hes
          obtain ⟨rfl, hes⟩ := hes
          rw [List.nodup_cons] at hnodup
          rw [List.mem_cons] at hseen
          rw [List.forall_mem_cons] at hbefore
          refine ⟨before, after, hes, ?_, hnodup.2, fun y hy => ?_⟩
          · rw [List.mem_cons]
            tauto
          · rw [List.mem_cons, not_or]
            exact ⟨fun hy' => hnodup.1 (hy' ▸ hy), hbefore.2 y hy⟩

theorem firstRepeated?_eq_some_iff :
    firstRepeated? [] elements = some id ↔ IsFirstRepeated (elements.map Element.id) id := by
  rw [firstRepeated?_seen_iff, IsFirstRepeated]
  simp only [List.not_mem_nil, false_or, not_false_eq_true, implies_true, and_true]

theorem firstRepeated?_seen_eq_none_iff {seen : List String} :
    firstRepeated? seen elements = none ↔
      (elements.map Element.id).Nodup ∧ ∀ id ∈ elements.map Element.id, id ∉ seen := by
  induction elements generalizing seen with
  | nil => simp [firstRepeated?]
  | cons e es ih =>
    rw [firstRepeated?, List.map_cons, List.nodup_cons, List.forall_mem_cons]
    by_cases he : e.id ∈ seen
    · simp [he]
    · rw [if_neg (by simpa using he), ih]
      simp only [List.mem_cons, not_or]
      constructor
      · rintro ⟨hnodup, hes⟩
        exact ⟨⟨fun hmem => (hes e.id hmem).1 rfl, hnodup⟩, he, fun x hx => (hes x hx).2⟩
      · rintro ⟨⟨hid, hnodup⟩, -, hes⟩
        exact ⟨hnodup, fun x hx => ⟨fun heq => hid (heq ▸ hx), hes x hx⟩⟩

theorem firstRepeated?_eq_none_iff :
    firstRepeated? [] elements = none ↔ (elements.map Element.id).Nodup := by
  rw [firstRepeated?_seen_eq_none_iff]
  simp only [List.not_mem_nil, not_false_eq_true, implies_true, and_true]

/-- The ends of edges, each edge's start first. -/
def endsOf (edges : List (String × String)) : List String := edges.flatMap fun e => [e.1, e.2]

/-- Whether edges lead from elements to elements. -/
def Known (elements : List Element) (edges : List (String × String)) : Prop :=
  ∀ id ∈ endsOf edges, id ∈ elements.map Element.id

/-- Whether an id is that of one of the elements. -/
theorem any_id_iff : (elements.any fun e => e.id == id) = true ↔ id ∈ elements.map Element.id := by
  simp [List.any_eq_true]

theorem firstUnknown?_eq_some_iff : firstUnknown? elements edges = some id ↔
    IsFirst (endsOf edges) (fun id => id ∉ elements.map Element.id) id := by
  refine find?_eq_some_iff_isFirst fun id => ?_
  rw [Bool.not_eq_true', ← Bool.not_eq_true, any_id_iff]

theorem firstUnknown?_eq_none_iff : firstUnknown? elements edges = none ↔ Known elements edges := by
  rw [firstUnknown?, List.find?_eq_none]
  simp only [Bool.not_eq_true', Bool.not_eq_false, any_id_iff]
  rfl

theorem known_iff : Known elements edges ↔
    ∀ a b, (a, b) ∈ edges → a ∈ elements.map Element.id ∧ b ∈ elements.map Element.id := by
  simp only [Known, endsOf, List.mem_flatMap, List.mem_cons, List.not_mem_nil, or_false]
  constructor
  · intro h a b hab
    exact ⟨h a ⟨(a, b), hab, .inl rfl⟩, h b ⟨(a, b), hab, .inr rfl⟩⟩
  · rintro h id ⟨e, he, rfl | rfl⟩
    · exact (h e.1 e.2 he).1
    · exact (h e.1 e.2 he).2

/-! ## Rows of the tables -/

/-- The other ends of the edges that have `id` as the end they are filed under, each once. -/
def rowOf (filed other : String × String → String) (edges : List (String × String))
    (id : String) : List String :=
  ((edges.filter fun e => filed e == id).map other).eraseDups

/-- Whether a table has a row for each element, with what its edges lead to. -/
def IsTable (filed other : String × String → String) (elements : List Element)
    (edges : List (String × String)) (table : Fields (List String)) : Prop :=
  ∀ id, Fields.find? id table =
    if id ∈ elements.map Element.id then some (rowOf filed other edges id) else none

/-- Whether tables have the neighbours that edges give to elements. -/
structure Rows (elements : List Element) (edges : List (String × String)) (t : Adjacency) :
    Prop where
  outgoing : IsTable Prod.fst Prod.snd elements edges t.outgoing
  incoming : IsTable Prod.snd Prod.fst elements edges t.incoming

section Table

variable {filed other : String × String → String} {table : Fields (List String)}

theorem IsTable.has_iff (h : IsTable filed other elements done table) :
    Fields.has id table = true ↔ id ∈ elements.map Element.id := by
  rw [Fields.has, h]
  split <;> simp [*]

/-- One more edge adds its other end to the row of the end it is filed under. -/
theorem rowOf_concat (done : List (String × String)) (e : String × String) (id : String) :
    rowOf filed other (done ++ [e]) id =
      if id = filed e then addOnce (other e) (rowOf filed other done id)
      else rowOf filed other done id := by
  rw [rowOf, List.filter_append, List.map_append]
  by_cases h : id = filed e
  · rw [if_pos h, h]
    simp only [List.filter_cons, List.filter_nil, beq_self_eq_true, if_true, List.map_singleton,
      eraseDups_concat, addOnce, rowOf, List.contains_iff_mem, List.mem_eraseDups]
  · have hother : (filed e == id) = false := by simpa using Ne.symm h
    simp only [List.filter_cons, List.filter_nil, hother, Bool.false_eq_true, if_false,
      List.map_nil, List.append_nil, if_neg h, rowOf]

theorem isTable_extend (h : IsTable filed other elements done table) (e : String × String) :
    IsTable filed other elements (done ++ [e]) (extend (filed e) (other e) table) := by
  intro id
  rw [find?_extend, h, rowOf_concat]
  by_cases hid : id ∈ elements.map Element.id
  · rw [if_pos hid, if_pos hid, Option.map_some]
  · rw [if_neg hid, if_neg hid, Option.map_none]

theorem isTable_insert {seen : List Element} (h : IsTable filed other seen [] table)
    (e : Element) : IsTable filed other (seen ++ [e]) [] (Fields.insert e.id [] table) := by
  intro id
  simp only [List.map_append, List.mem_append, List.map_singleton, List.mem_singleton]
  by_cases hid : id = e.id
  · rw [hid, Fields.find?_insert_self, if_pos (.inr rfl)]
    rfl
  · rw [Fields.find?_insert_of_ne hid, h]
    simp only [hid, or_false]

end Table

/-- An edge is added to one row of either table. -/
theorem rows_link (h : Rows elements done t) (e : String × String) :
    Rows elements (done ++ [e]) ⟨extend e.1 e.2 t.outgoing, extend e.2 e.1 t.incoming⟩ :=
  ⟨isTable_extend h.outgoing e, isTable_extend h.incoming e⟩

/-- An element with a new id gets an empty row in either table. -/
theorem rows_place {seen : List Element} (h : Rows seen [] t) (e : Element) :
    Rows (seen ++ [e]) []
      ⟨Fields.insert e.id [] t.outgoing, Fields.insert e.id [] t.incoming⟩ :=
  ⟨isTable_insert h.outgoing e, isTable_insert h.incoming e⟩

/-- Edges are added up to the first one that has an unknown end. -/
theorem foldlM_link (h : Rows elements done t) (edges : List (String × String)) :
    match firstUnknown? elements edges with
    | some id => edges.foldlM link t = .error (.unknownElement id)
    | none => ∃ t', edges.foldlM link t = .ok t' ∧ Rows elements (done ++ edges) t' := by
  induction edges generalizing done t with
  | nil => exact ⟨t, rfl, by rwa [List.append_nil]⟩
  | cons e edges ih =>
    have hknown : (fun id => !Fields.has id t.outgoing) =
        fun id => !elements.any fun e => e.id == id := by
      funext id
      rw [Bool.eq_iff_iff.2 (h.outgoing.has_iff.trans any_id_iff.symm)]
    have hfirst : firstUnknown? elements (e :: edges) =
        ([e.1, e.2].find? fun id => !Fields.has id t.outgoing).or
          (firstUnknown? elements edges) := by
      rw [hknown, firstUnknown?, List.flatMap_cons, List.find?_append]
      rfl
    rw [hfirst, List.foldlM_cons, link]
    cases [e.1, e.2].find? fun id => !Fields.has id t.outgoing with
    | some id => rfl
    | none =>
      have hnext := ih (rows_link h e)
      rw [List.append_assoc, List.singleton_append] at hnext
      exact hnext

/-- Elements get empty rows, up to the first one whose id has a row. -/
theorem foldlM_place {seen : List Element} {ids : List String} (h : Rows seen [] t)
    (hids : ∀ id, id ∈ ids ↔ id ∈ seen.map Element.id) (elements : List Element) :
    match firstRepeated? ids elements with
    | some id => elements.foldlM place t = .error (.duplicateElement id)
    | none => ∃ t', elements.foldlM place t = .ok t' ∧ Rows (seen ++ elements) [] t' := by
  induction elements generalizing seen ids t with
  | nil => exact ⟨t, rfl, by rwa [List.append_nil]⟩
  | cons e es ih =>
    have hhas : Fields.has e.id t.outgoing = ids.contains e.id := by
      rw [Bool.eq_iff_iff, h.outgoing.has_iff, List.contains_iff_mem, hids]
    rw [firstRepeated?, List.foldlM_cons, place, hhas]
    cases ids.contains e.id with
    | true => rfl
    | false =>
      have hids' : ∀ id, id ∈ e.id :: ids ↔ id ∈ (seen ++ [e]).map Element.id := by
        intro id
        simp [hids, or_comm]
      have hnext := ih (rows_place h e) hids'
      rw [List.append_assoc, List.singleton_append] at hnext
      exact hnext

/-- The tables fail as the graph does, else they have the neighbours that the edges give. -/
theorem build_eq (elements : List Element) (edges : List (String × String)) :
    match firstRepeated? [] elements, firstUnknown? elements edges with
    | some id, _ => build elements edges = .error (.duplicateElement id)
    | none, some id => build elements edges = .error (.unknownElement id)
    | none, none => ∃ t, build elements edges = .ok t ∧ Rows elements edges t := by
  have hempty : Rows [] [] ⟨[], []⟩ := ⟨fun _ => rfl, fun _ => rfl⟩
  have hnone : ∀ id, id ∈ ([] : List String) ↔ id ∈ ([] : List Element).map Element.id :=
    fun _ => Iff.rfl
  have hplace := foldlM_place hempty hnone elements
  unfold build
  cases hrepeated : firstRepeated? [] elements with
  | some id =>
    rw [hrepeated] at hplace
    rw [hplace]
    rfl
  | none =>
    rw [hrepeated] at hplace
    obtain ⟨placed, hplaced, hrows⟩ := hplace
    rw [List.nil_append] at hrows
    have hlink := foldlM_link hrows edges
    rw [hplaced]
    cases hunknown : firstUnknown? elements edges with
    | some id =>
      rw [hunknown] at hlink
      exact hlink
    | none =>
      rw [hunknown] at hlink
      exact hlink

/-! ## Graphs of elements and edges -/

theorem ofParts_eq_ok_iff : ofParts elements edges = .ok g ↔
    (elements.map Element.id).Nodup ∧ Known elements edges ∧ g.elements = elements ∧
      g.edges = edges ∧ elements.foldlM register Definitions.empty = .ok g.definitions := by
  rw [← firstRepeated?_eq_none_iff, ← firstUnknown?_eq_none_iff, ofParts]
  constructor
  · intro h
    split at h
    · cases h
    · cases h
    · rename_i hrepeated hunknown
      obtain ⟨d, hd, rfl⟩ := Outcome.map_eq_ok h
      exact ⟨hrepeated, hunknown, rfl, rfl, hd⟩
  · rintro ⟨hrepeated, hunknown, rfl, rfl, hd⟩
    rw [hrepeated, hunknown, hd]
    rfl

/-- Whether a graph has elements in their order, and edges as neighbours in both directions. -/
structure IsGraphOf (elements : List Element) (edges : List (String × String))
    (g : DomainGraph) : Prop where
  kept : g.elements = elements
  found : ∀ e ∈ elements, g.element? e.id = some e
  leads_iff : ∀ a b, b ∈ g.outgoing a ↔ (a, b) ∈ edges
  mirrored : ∀ a b, b ∈ g.outgoing a ↔ a ∈ g.incoming b
  nodup : ∀ id, (g.outgoing id).Nodup ∧ (g.incoming id).Nodup
  symmetric : ∀ x ∈ elements, ∀ y ∈ elements, y ∈ g.neighbours x.id ↔ x ∈ g.neighbours y.id
  tables : ∃ t, build elements edges = .ok t ∧ ∀ id, t.connection? id = g.connection? id

/-- An element is found by its id, which no other has. -/
theorem find?_id_of_mem {e : Element} (h : (elements.map Element.id).Nodup) (he : e ∈ elements) :
    (elements.find? fun x => x.id == e.id) = some e := by
  obtain ⟨before, after, rfl⟩ := List.append_of_mem he
  rw [List.map_append, List.nodup_append] at h
  rw [List.find?_eq_some_iff_append]
  refine ⟨beq_self_eq_true _, before, after, rfl, fun x hx => ?_⟩
  have hne : x.id ≠ e.id :=
    h.2.2 _ (List.mem_map_of_mem hx) _ (List.mem_map_of_mem List.mem_cons_self)
  simpa using hne

/-- The tables have the connections of the graph. -/
theorem Rows.connection?_eq (h : Rows g.elements g.edges t) (id : String) :
    t.connection? id = g.connection? id := by
  unfold Adjacency.connection? DomainGraph.connection?
  rw [h.outgoing, h.incoming]
  by_cases hid : id ∈ g.elements.map Element.id
  · have hsome : (g.element? id).isSome = true := by
      rw [element?, List.find?_isSome]
      simpa using hid
    obtain ⟨e, he⟩ := Option.isSome_iff_exists.1 hsome
    rw [if_pos hid, if_pos hid, he]
    rfl
  · have hnone : g.element? id = none := by
      rw [element?, List.find?_eq_none]
      simpa using hid
    rw [if_neg hid, hnone]
    rfl

theorem isGraphOf_ofParts (h : ofParts elements edges = .ok g) : IsGraphOf elements edges g := by
  obtain ⟨hnodup, hknown, rfl, rfl, -⟩ := ofParts_eq_ok_iff.1 h
  have hfound : ∀ e ∈ g.elements, g.element? e.id = some e := fun e he => find?_id_of_mem hnodup he
  have htables := build_eq g.elements g.edges
  rw [firstRepeated?_eq_none_iff.2 hnodup, firstUnknown?_eq_none_iff.2 hknown] at htables
  obtain ⟨t, hbuild, hrows⟩ := htables
  exact {
    kept := rfl
    found := hfound
    leads_iff := fun a b => g.mem_outgoing_iff
    mirrored := fun a b => g.mem_outgoing_iff.trans g.mem_incoming_iff.symm
    nodup := fun id => ⟨nodup_eraseDups _, nodup_eraseDups _⟩
    symmetric := by
      intro x hx y hy
      simp only [mem_neighbours_iff, hfound x hx, hfound y hy, and_true]
      exact g.mem_neighbourIds_comm
    tables := ⟨t, hbuild, hrows.connection?_eq⟩ }

/-! ## Graphs of documents -/

theorem ofNodes_eq_ok_iff {nodes : List Node} : ofNodes nodes = .ok g ↔
    nodes.mapM Node.element = .ok g.elements ∧
      ofParts g.elements (nodes.flatMap Node.edges) = .ok g := by
  constructor
  · intro h
    obtain ⟨elements, helements, hparts⟩ := Outcome.bind_eq_ok h
    obtain rfl := (ofParts_eq_ok_iff.1 hparts).2.2.1
    exact ⟨helements, hparts⟩
  · rintro ⟨helements, hparts⟩
    rw [ofNodes, helements]
    exact hparts

/-- Metadata of an element says nothing, or was read from fields. -/
theorem Node.metadata_of_element {n : Node} {e : Element} {m : Metadata} (h : n.element = .ok e)
    (hm : e.metadata = some m) :
    m = Metadata.plain ∨ ∃ fields, Metadata.ofFields fields = .ok m := by
  unfold Node.element at h
  split at h
  · cases h
  · cases hraw : n.metadata with
    | none =>
      rw [hraw] at h
      cases h
      cases hm
    | some raw =>
      rw [hraw] at h
      obtain ⟨metadata, hmetadata, h⟩ := Outcome.bind_eq_ok h
      obtain ⟨m', hjson, rfl⟩ := Outcome.map_eq_ok hmetadata
      cases h
      cases hm
      unfold Metadata.ofJson at hjson
      split at hjson
      · cases hjson
      · cases hjson
        exact .inl rfl
      · rename_i fields _
        cases hfields : Metadata.ofFields fields with
        | error e =>
          rw [hfields] at hjson
          cases hjson
        | ok m' =>
          rw [hfields] at hjson
          cases hjson
          exact .inr ⟨fields, hfields⟩

/-- The schema of an element that was read can be read as a type. -/
theorem exists_typeOf_of_element {n : Node} {e : Element} {schema : Json} (h : n.element = .ok e)
    (hschema : e.schema = some schema) : ∃ type, typeOf schema = .ok type := by
  obtain ⟨m, hm, hs⟩ := Option.bind_eq_some_iff.1 hschema
  obtain rfl | ⟨fields, hfields⟩ := Node.metadata_of_element h hm
  · cases hs
  · obtain ⟨schema', -, hfields⟩ := Outcome.bind_eq_ok hfields
    obtain ⟨query, -, hfields⟩ := Outcome.bind_eq_ok hfields
    obtain ⟨types, htypes, hfields⟩ := Outcome.bind_eq_ok hfields
    obtain ⟨queryTypes, -, hfields⟩ := Outcome.bind_eq_ok hfields
    cases hfields
    obtain rfl : schema' = some schema := hs
    obtain ⟨set, hset, -⟩ := Outcome.map_eq_ok htypes
    obtain ⟨type, htype, -⟩ := Outcome.bind_eq_ok hset
    exact ⟨type, htype⟩

theorem exists_register {n : Node} {e : Element} (h : n.element = .ok e) (d : Definitions) :
    ∃ d', register d e = .ok d' := by
  unfold register
  split
  · rename_i schema _ hschema
    obtain ⟨type, htype⟩ := exists_typeOf_of_element h hschema
    unfold Definitions.insert
    split
    · exact ⟨d, rfl⟩
    · rw [htype]
      exact ⟨_, rfl⟩
  · exact ⟨d, rfl⟩

theorem exists_foldlM_register (h : ∀ e ∈ elements, ∃ n : Node, n.element = .ok e)
    (d : Definitions) : ∃ d', elements.foldlM register d = .ok d' := by
  induction elements generalizing d with
  | nil => exact ⟨d, rfl⟩
  | cons e es ih =>
    obtain ⟨n, hn⟩ := h e List.mem_cons_self
    obtain ⟨d', hd'⟩ := exists_register hn d
    rw [List.foldlM_cons, hd']
    exact ih (fun e he => h e (List.mem_cons_of_mem _ he)) d'

/-- A document with elements has a graph if their ids are distinct and the ends of edges known. -/
theorem exists_ofNodes_iff {nodes : List Node} : (∃ g, ofNodes nodes = .ok g) ↔
    ∃ elements, nodes.mapM Node.element = .ok elements ∧ (elements.map Element.id).Nodup ∧
      Known elements (nodes.flatMap Node.edges) := by
  constructor
  · rintro ⟨g, h⟩
    obtain ⟨helements, hparts⟩ := ofNodes_eq_ok_iff.1 h
    obtain ⟨hnodup, hknown, -⟩ := ofParts_eq_ok_iff.1 hparts
    exact ⟨g.elements, helements, hnodup, hknown⟩
  · rintro ⟨elements, helements, hnodup, hknown⟩
    obtain ⟨d, hd⟩ := exists_foldlM_register
      (fun e he => (Outcome.exists_of_mem_mapM helements he).imp fun n hn => hn.2) Definitions.empty
    exact ⟨⟨elements, nodes.flatMap Node.edges, d⟩,
      ofNodes_eq_ok_iff.2 ⟨helements, ofParts_eq_ok_iff.2 ⟨hnodup, hknown, rfl, rfl, hd⟩⟩⟩

/-! ## Ends at which edges are written -/

/-- Whether an edge is written at a node that is one of its ends. -/
def Node.Declares (n : Node) (a b : String) : Prop :=
  (n.id = b ∧ a ∈ n.sources) ∨ (n.id = a ∧ b ∈ n.targets)

/-- The node with an edge among its targets or its sources, if it is that end of the edge. -/
def Node.declare (atStart atEnd : Bool) (a b : String) (n : Node) : Node :=
  { n with
    targets := if atStart && n.id == a then n.targets ++ [b] else n.targets
    sources := if atEnd && n.id == b then n.sources ++ [a] else n.sources }

/-- Whether two graphs have the same elements, definitions and neighbours. -/
structure SameGraph (g g' : DomainGraph) : Prop where
  elements : g'.elements = g.elements
  definitions : g'.definitions = g.definitions
  outgoing : ∀ a b, b ∈ g'.outgoing a ↔ b ∈ g.outgoing a
  incoming : ∀ a b, a ∈ g'.incoming b ↔ a ∈ g.incoming b

theorem Node.declares_declare {atStart atEnd : Bool} {n : Node} {x y : String} :
    (n.declare atStart atEnd a b).Declares x y ↔ n.Declares x y ∨ (x = a ∧ y = b ∧
      ((atStart = true ∧ n.id = a) ∨ (atEnd = true ∧ n.id = b))) := by
  have hsources : x ∈ (n.declare atStart atEnd a b).sources ↔
      x ∈ n.sources ∨ (atEnd = true ∧ n.id = b ∧ x = a) := by
    unfold Node.declare
    cases atEnd <;> by_cases hb : n.id = b <;> simp [hb]
  have htargets : y ∈ (n.declare atStart atEnd a b).targets ↔
      y ∈ n.targets ∨ (atStart = true ∧ n.id = a ∧ y = b) := by
    unfold Node.declare
    cases atStart <;> by_cases ha : n.id = a <;> simp [ha]
  rw [Node.Declares, hsources, htargets, Node.Declares]
  show (n.id = y ∧ _) ∨ (n.id = x ∧ _) ↔ _
  grind

/-- An edge that is written at either end, or at both, is added to the edges of a document. -/
theorem mem_edges_declare_iff {nodes : List Node} {atStart atEnd : Bool} {x y : String}
    (ha : a ∈ nodes.map Node.id) (hb : b ∈ nodes.map Node.id) (hat : (atStart || atEnd) = true) :
    (x, y) ∈ (nodes.map (Node.declare atStart atEnd a b)).flatMap Node.edges ↔
      (x, y) ∈ nodes.flatMap Node.edges ∨ (x = a ∧ y = b) := by
  rw [mem_edges_iff, mem_edges_iff]
  constructor
  · rintro ⟨m, hm, h⟩
    obtain ⟨n, hn, rfl⟩ := List.mem_map.1 hm
    rcases Node.declares_declare.1 h with h | ⟨hx, hy, -⟩
    · exact .inl ⟨n, hn, h⟩
    · exact .inr ⟨hx, hy⟩
  · rintro (⟨n, hn, h⟩ | ⟨rfl, rfl⟩)
    · exact ⟨_, List.mem_map_of_mem hn, Node.declares_declare.2 (.inl h)⟩
    · obtain ⟨start, hstart, hstartId⟩ := List.mem_map.1 ha
      obtain ⟨finish, hfinish, hfinishId⟩ := List.mem_map.1 hb
      rcases Bool.or_eq_true_iff.1 hat with h | h
      · exact ⟨_, List.mem_map_of_mem hstart,
          Node.declares_declare.2 (.inr ⟨rfl, rfl, .inl ⟨h, hstartId⟩⟩)⟩
      · exact ⟨_, List.mem_map_of_mem hfinish,
          Node.declares_declare.2 (.inr ⟨rfl, rfl, .inr ⟨h, hfinishId⟩⟩)⟩

/-- Documents with the same elements and edges have the same graph, or none. -/
theorem exists_sameGraph {nodes nodes' : List Node}
    (hread : nodes'.mapM Node.element = nodes.mapM Node.element)
    (hedges : ∀ a b, (a, b) ∈ nodes'.flatMap Node.edges ↔ (a, b) ∈ nodes.flatMap Node.edges)
    (h : ofNodes nodes = .ok g) : ∃ g', ofNodes nodes' = .ok g' ∧ SameGraph g g' := by
  obtain ⟨helements, hparts⟩ := ofNodes_eq_ok_iff.1 h
  obtain ⟨hnodup, hknown, -, hlisted, hd⟩ := ofParts_eq_ok_iff.1 hparts
  have hknown' : Known g.elements (nodes'.flatMap Node.edges) :=
    known_iff.2 fun a b hab => known_iff.1 hknown a b ((hedges a b).1 hab)
  refine ⟨⟨g.elements, nodes'.flatMap Node.edges, g.definitions⟩, ?_, rfl, rfl, fun a b => ?_,
    fun a b => ?_⟩
  · exact ofNodes_eq_ok_iff.2
      ⟨hread.trans helements, ofParts_eq_ok_iff.2 ⟨hnodup, hknown', rfl, rfl, hd⟩⟩
  · rw [mem_outgoing_iff, mem_outgoing_iff, hlisted, hedges]
  · rw [mem_incoming_iff, mem_incoming_iff, hlisted, hedges]

/-- It does not count at which end an edge is written, nor whether it is written at both. -/
theorem sameGraph_declare {nodes : List Node} {atStart atEnd atStart' atEnd' : Bool}
    (ha : a ∈ nodes.map Node.id) (hb : b ∈ nodes.map Node.id) (hat : (atStart || atEnd) = true)
    (hat' : (atStart' || atEnd') = true)
    (h : ofNodes (nodes.map (Node.declare atStart atEnd a b)) = .ok g) :
    b ∈ g.outgoing a ∧
      ∃ g', ofNodes (nodes.map (Node.declare atStart' atEnd' a b)) = .ok g' ∧ SameGraph g g' := by
  constructor
  · rw [mem_outgoing_iff, (ofParts_eq_ok_iff.1 (ofNodes_eq_ok_iff.1 h).2).2.2.2.1]
    exact (mem_edges_declare_iff ha hb hat).2 (.inr ⟨rfl, rfl⟩)
  · refine exists_sameGraph ?_ (fun x y => ?_) h
    · rw [List.mapM_map, List.mapM_map]
      rfl
    · rw [mem_edges_declare_iff ha hb hat', mem_edges_declare_iff ha hb hat]

/-! ## Faithfulness -/

theorem ofParts_of_repeated (h : ¬ (elements.map Element.id).Nodup) :
    ∃ id, IsFirstRepeated (elements.map Element.id) id ∧
      ofParts elements edges = .error (.duplicateElement id) ∧
      build elements edges = .error (.duplicateElement id) := by
  have hbuild := build_eq elements edges
  cases hrepeated : firstRepeated? [] elements with
  | none => exact absurd (firstRepeated?_eq_none_iff.1 hrepeated) h
  | some id =>
    rw [hrepeated] at hbuild
    refine ⟨id, firstRepeated?_eq_some_iff.1 hrepeated, ?_, hbuild⟩
    rw [ofParts, hrepeated]

theorem ofParts_of_unknown (hnodup : (elements.map Element.id).Nodup)
    (h : ¬ Known elements edges) :
    ∃ id, IsFirst (endsOf edges) (fun id => id ∉ elements.map Element.id) id ∧
      ofParts elements edges = .error (.unknownElement id) ∧
      build elements edges = .error (.unknownElement id) := by
  have hbuild := build_eq elements edges
  have hrepeated := firstRepeated?_eq_none_iff.2 hnodup
  cases hunknown : firstUnknown? elements edges with
  | none => exact absurd (firstUnknown?_eq_none_iff.1 hunknown) h
  | some id =>
    rw [hrepeated, hunknown] at hbuild
    refine ⟨id, firstUnknown?_eq_some_iff.1 hunknown, ?_, hbuild⟩
    rw [ofParts, hrepeated, hunknown]

/-- Repeated ids and unknown ends are reported; a graph has its elements in order, and neighbours
    that are its edges in both directions. The edges of a document may be written at either end. -/
theorem ofParts_faithful (elements : List Element) (edges : List (String × String)) :
    (¬ (elements.map Element.id).Nodup →
      ∃ id, IsFirstRepeated (elements.map Element.id) id ∧
        ofParts elements edges = .error (.duplicateElement id) ∧
        build elements edges = .error (.duplicateElement id)) ∧
    ((elements.map Element.id).Nodup → ¬ Known elements edges →
      ∃ id, IsFirst (endsOf edges) (fun id => id ∉ elements.map Element.id) id ∧
        ofParts elements edges = .error (.unknownElement id) ∧
        build elements edges = .error (.unknownElement id)) ∧
    (∀ g, ofParts elements edges = .ok g → IsGraphOf elements edges g) ∧
    (∀ nodes, ((∃ g, ofNodes nodes = .ok g) ↔
        ∃ elements, nodes.mapM Node.element = .ok elements ∧
          (elements.map Element.id).Nodup ∧ Known elements (nodes.flatMap Node.edges)) ∧
      ∀ g, ofNodes nodes = .ok g →
        nodes.mapM Node.element = .ok g.elements ∧
        IsGraphOf g.elements (nodes.flatMap Node.edges) g ∧
        ∀ a b, b ∈ g.outgoing a ↔ ∃ n ∈ nodes, n.Declares a b) ∧
    ∀ (nodes : List Node) (a b : String), a ∈ nodes.map Node.id → b ∈ nodes.map Node.id →
      ∀ atStart atEnd atStart' atEnd' : Bool,
        (atStart || atEnd) = true → (atStart' || atEnd') = true →
        ∀ g, ofNodes (nodes.map (Node.declare atStart atEnd a b)) = .ok g →
          b ∈ g.outgoing a ∧
            ∃ g', ofNodes (nodes.map (Node.declare atStart' atEnd' a b)) = .ok g' ∧
              SameGraph g g' := by
  refine ⟨ofParts_of_repeated, ofParts_of_unknown, fun g => isGraphOf_ofParts, fun nodes =>
    ⟨exists_ofNodes_iff, fun g h => ?_⟩, ?_⟩
  · obtain ⟨helements, hparts⟩ := ofNodes_eq_ok_iff.1 h
    have hgraph := isGraphOf_ofParts hparts
    exact ⟨helements, hgraph, fun a b => (hgraph.leads_iff a b).trans mem_edges_iff⟩
  · intro nodes a b ha hb atStart atEnd atStart' atEnd' hat hat' g h
    exact sameGraph_declare ha hb hat hat' h

/-- A command and an event without edges. -/
def unlinkedNodes : List Node :=
  [⟨"order", "Order", "command", none, [], [], none⟩,
    ⟨"ordered", "Ordered", "event", none, [], [], none⟩]

theorem ofParts_faithful_unlinkedNodes : ∃ g g',
    ofNodes (unlinkedNodes.map (Node.declare true false "order" "ordered")) = .ok g ∧
    ofNodes (unlinkedNodes.map (Node.declare false true "order" "ordered")) = .ok g' ∧
    "ordered" ∈ g.outgoing "order" ∧ SameGraph g g' := by
  have hread : (ofNodes (unlinkedNodes.map
      (Node.declare true false "order" "ordered"))).toOption.isSome = true := by
    decide +kernel
  cases h : ofNodes (unlinkedNodes.map (Node.declare true false "order" "ordered")) with
  | error e =>
    rw [h] at hread
    cases hread
  | ok g =>
    obtain ⟨hleads, g', hg', hsame⟩ := (ofParts_faithful [] []).2.2.2.2 unlinkedNodes "order"
      "ordered" (by decide) (by decide) true false false true rfl rfl g h
    exact ⟨g, g', rfl, hg', hleads, hsame⟩

end DomainGraph

end DomainScaffold
