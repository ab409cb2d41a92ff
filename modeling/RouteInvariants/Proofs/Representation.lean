import RouteInvariants.Proofs.Protocols

/-!
What topologies represent. Predecessor lists are refused exactly where a node lists a predecessor
that is not declared or lists one twice (`ofEntries_eq_error_iff`). The topology of any others
answers all queries in agreement with the lists (`Represents`), whether a query reads the node list,
the predecessors, the edge list, the edge count or the graph that is built up edge by edge.

The graph is followed while it grows: what one more node and one more edge do to the nodes and to
the successors of a node.
-/

namespace RouteInvariants

/-! ### Dictionaries that are written -/

namespace Entries

variable {κ α : Type} [DecidableEq κ]

theorem get?_insert (es : List (κ × α)) (key : κ) (value : α) (k : κ) :
    get? (insert es key value) k = if key = k then some value else get? es k := by
  induction es with
  | nil => rw [insert, get?_cons]
  | cons e es ih =>
    rw [insert]
    split
    · rename_i h
      rw [get?_cons, get?_cons, h]
      split <;> rfl
    · rename_i h
      rw [get?_cons, get?_cons, ih]
      by_cases he : e.1 = k
      · rw [if_pos he, if_pos he, if_neg fun hk => h (he.trans hk.symm)]
      · rw [if_neg he, if_neg he]

theorem mem_of_mem_insert {es : List (κ × α)} {key : κ} {value : α} {e : κ × α}
    (he : e ∈ insert es key value) : e ∈ es ∨ e = (key, value) := by
  induction es with
  | nil => exact .inr (List.mem_singleton.1 he)
  | cons d es ih =>
    rw [insert] at he
    split at he
    · rcases List.mem_cons.1 he with he | he
      · exact .inr he
      · exact .inl (List.mem_cons_of_mem _ he)
    · rcases List.mem_cons.1 he with rfl | he
      · exact .inl List.mem_cons_self
      · exact (ih he).imp_left (List.mem_cons_of_mem _)

theorem get?_eq_none {es : List (κ × α)} {k : κ} (h : k ∉ keys es) : get? es k = none := by
  cases hk : get? es k with
  | none => rfl
  | some a => exact absurd (List.mem_map_of_mem (mem_of_get? hk)) h

/-- Dictionaries with the same keys in the same order and the same values are the same. -/
theorem eq_of_get?_eq {es fs : List (κ × α)} (hnodup : (keys es).Nodup) (hkeys : keys es = keys fs)
    (h : ∀ k ∈ keys es, get? es k = get? fs k) : es = fs := by
  induction es generalizing fs with
  | nil =>
    cases fs with
    | nil => rfl
    | cons f fs => cases hkeys
  | cons e es ih =>
    cases fs with
    | nil => cases hkeys
    | cons f fs =>
      obtain ⟨hhead, htail⟩ := List.cons.inj hkeys
      obtain ⟨hfresh, hnodup⟩ := List.nodup_cons.1 hnodup
      have hvalue : e.2 = f.2 := by
        have hget := h e.1 List.mem_cons_self
        rw [get?_cons, get?_cons, if_pos rfl, if_pos hhead.symm] at hget
        exact Option.some.inj hget
      have hrest : es = fs := ih hnodup htail fun k hk => by
        have hne : e.1 ≠ k := fun he => hfresh (he ▸ hk)
        have hget := h k (List.mem_cons_of_mem _ hk)
        rwa [get?_cons, get?_cons, if_neg hne, if_neg fun he => hne (hhead.trans he)] at hget
      rw [hrest, Prod.ext hhead hvalue]

end Entries

/-! ### Growing graphs -/

namespace Digraph

variable {g : Digraph} {e : Edge} {n m : String}

theorem addNode_of_mem (h : m ∈ g.nodes) : g.addNode m = g := if_pos h

theorem nodes_addNode_of_not_mem (h : m ∉ g.nodes) : (g.addNode m).nodes = g.nodes ++ [m] := by
  rw [show g.addNode m = ⟨Entries.insert g.successors m []⟩ from if_neg h]
  exact (Entries.keys_insert _ _ _).trans (if_neg h)

/-- A new node has no successors. -/
theorem successorsOf_addNode (g : Digraph) (m n : String) :
    (g.addNode m).successorsOf n = g.successorsOf n := by
  unfold addNode successorsOf
  split
  · rfl
  · rename_i h
    rw [Entries.get?_insert]
    split
    · rename_i hm
      rw [← hm, Entries.get?_eq_none h]
      rfl
    · rfl

theorem successorsOf_addEdge (g : Digraph) (e : Edge) (n : String) :
    (g.addEdge e).successorsOf n =
      if e.source = n ∧ e.target ∉ g.successorsOf n then g.successorsOf n ++ [e.target]
      else g.successorsOf n := by
  unfold addEdge
  simp only [successorsOf_addNode]
  by_cases hmem : e.target ∈ g.successorsOf e.source
  · rw [if_pos hmem, successorsOf_addNode, successorsOf_addNode, if_neg]
    rintro ⟨rfl, hnot⟩
    exact hnot hmem
  · rw [if_neg hmem, successorsOf, Entries.get?_insert]
    by_cases hn : e.source = n
    · subst hn
      rw [if_pos rfl, if_pos ⟨rfl, hmem⟩, Option.getD_some]
    · rw [if_neg hn, if_neg fun h => hn h.1]
      exact (successorsOf_addNode _ _ _).trans (successorsOf_addNode _ _ _)

theorem hasEdge_iff : g.hasEdge e = true ↔ e.target ∈ g.successorsOf e.source :=
  List.contains_iff_mem

theorem hasEdge_addEdge {d : Edge} :
    (g.addEdge d).hasEdge e = true ↔ g.hasEdge e = true ∨ e = d := by
  rw [hasEdge_iff, hasEdge_iff, successorsOf_addEdge]
  obtain ⟨p, n⟩ := e
  obtain ⟨q, m⟩ := d
  simp only [Edge.mk.injEq]
  split
  · rename_i h
    obtain ⟨rfl, -⟩ := h
    rw [List.mem_append, List.mem_singleton]
    simp only [true_and]
  · rename_i h
    refine ⟨.inl, ?_⟩
    rintro (hn | ⟨rfl, rfl⟩)
    · exact hn
    · by_contra hnot
      exact h ⟨rfl, hnot⟩

/-- No node stands twice, and none has a successor twice. -/
structure WellFormed (g : Digraph) : Prop where
  nodup_nodes : g.nodes.Nodup
  nodup_successors : ∀ n, (g.successorsOf n).Nodup

theorem WellFormed.addNode (h : g.WellFormed) (m : String) : (g.addNode m).WellFormed := by
  refine ⟨?_, fun n => by rw [successorsOf_addNode]; exact h.nodup_successors n⟩
  unfold Digraph.addNode
  split
  · exact h.nodup_nodes
  · exact Entries.nodup_keys_insert h.nodup_nodes m []

theorem WellFormed.addEdge (h : g.WellFormed) (e : Edge) : (g.addEdge e).WellFormed := by
  have hends := (h.addNode e.source).addNode e.target
  constructor
  · unfold Digraph.addEdge
    dsimp only
    split
    · exact hends.nodup_nodes
    · exact Entries.nodup_keys_insert hends.nodup_nodes _ _
  · intro n
    rw [successorsOf_addEdge]
    split
    · rename_i hnew
      rw [← List.concat_eq_append]
      exact (h.nodup_successors n).concat hnew.2
    · exact h.nodup_successors n

/-- Edges between nodes that are there add no node. -/
theorem nodes_addEdge (hs : e.source ∈ g.nodes) (ht : e.target ∈ g.nodes) :
    (g.addEdge e).nodes = g.nodes := by
  unfold addEdge
  rw [addNode_of_mem hs, addNode_of_mem ht]
  dsimp only
  split
  · rfl
  · exact (Entries.keys_insert _ _ _).trans (if_pos hs)

theorem wellFormed_foldl_addEdge (edges : List Edge) (h : g.WellFormed) :
    (edges.foldl addEdge g).WellFormed := by
  induction edges generalizing g with
  | nil => exact h
  | cons e edges ih => exact ih (h.addEdge e)

theorem hasEdge_foldl_addEdge (edges : List Edge) :
    (edges.foldl addEdge g).hasEdge e = true ↔ g.hasEdge e = true ∨ e ∈ edges := by
  induction edges generalizing g with
  | nil => simp
  | cons d edges ih => rw [List.foldl_cons, ih, hasEdge_addEdge, List.mem_cons, or_assoc]

theorem nodes_foldl_addEdge {edges : List Edge}
    (h : ∀ e ∈ edges, e.source ∈ g.nodes ∧ e.target ∈ g.nodes) :
    (edges.foldl addEdge g).nodes = g.nodes := by
  induction edges generalizing g with
  | nil => rfl
  | cons e edges ih =>
    obtain ⟨he, hrest⟩ := List.forall_mem_cons.1 h
    have hnodes := nodes_addEdge he.1 he.2
    rw [List.foldl_cons, ih (by rwa [hnodes]), hnodes]

theorem wellFormed_foldl_addNode (ns : List String) (h : g.WellFormed) :
    (ns.foldl addNode g).WellFormed := by
  induction ns generalizing g with
  | nil => exact h
  | cons n ns ih => exact ih (h.addNode n)

theorem successorsOf_foldl_addNode (ns : List String) :
    (ns.foldl addNode g).successorsOf n = g.successorsOf n := by
  induction ns generalizing g with
  | nil => rfl
  | cons m ns ih => rw [List.foldl_cons, ih, successorsOf_addNode]

theorem nodes_foldl_addNode {ns : List String} (h : (g.nodes ++ ns).Nodup) :
    (ns.foldl addNode g).nodes = g.nodes ++ ns := by
  induction ns generalizing g with
  | nil => rw [List.append_nil]; rfl
  | cons n ns ih =>
    have hfresh : n ∉ g.nodes := fun hn =>
      (List.nodup_append.1 h).2.2 n hn n List.mem_cons_self rfl
    have hnodes := nodes_addNode_of_not_mem hfresh
    have hassoc : g.nodes ++ [n] ++ ns = g.nodes ++ n :: ns := by simp
    rw [List.foldl_cons, ih (by rwa [hnodes, hassoc]), hnodes, hassoc]

theorem wellFormed_build (ns : List String) (edges : List Edge) : (build ns edges).WellFormed :=
  wellFormed_foldl_addEdge edges
    (wellFormed_foldl_addNode ns ⟨List.nodup_nil, fun _ => List.nodup_nil⟩)

/-- The graph has the edges that it is built from. -/
theorem hasEdge_build {ns : List String} {edges : List Edge} :
    (build ns edges).hasEdge e = true ↔ e ∈ edges := by
  rw [build, hasEdge_foldl_addEdge, hasEdge_iff, successorsOf_foldl_addNode]
  exact or_iff_right List.not_mem_nil

/-- The graph has the nodes that it is built from, if these are the ends of the edges. -/
theorem nodes_build {ns : List String} (hns : ns.Nodup) {edges : List Edge}
    (h : ∀ e ∈ edges, e.source ∈ ns ∧ e.target ∈ ns) : (build ns edges).nodes = ns := by
  have hstart : (ns.foldl addNode ⟨[]⟩).nodes = ns := nodes_foldl_addNode hns
  rw [build, nodes_foldl_addEdge (by rwa [hstart]), hstart]

theorem WellFormed.mem_edges_iff (h : g.WellFormed) : e ∈ g.edges ↔ g.hasEdge e = true := by
  rw [hasEdge_iff, edges, List.mem_flatMap, successorsOf]
  constructor
  · rintro ⟨d, hd, he⟩
    obtain ⟨n, hn, rfl⟩ := List.mem_map.1 he
    rwa [Entries.get?_of_mem h.nodup_nodes hd]
  · intro he
    cases hget : Entries.get? g.successors e.source with
    | none =>
      rw [hget] at he
      cases he
    | some ns =>
      rw [hget] at he
      exact ⟨_, Entries.mem_of_get? hget, List.mem_map_of_mem he⟩

theorem WellFormed.nodup_edges (h : g.WellFormed) : g.edges.Nodup := by
  have hnodes : g.successors.Pairwise fun d e => d.1 ≠ e.1 := List.pairwise_map.1 h.nodup_nodes
  refine nodup_flatMap_of_key Prod.fst Edge.source hnodes (fun d hd => ?_) fun d e he => ?_
  · have hnodup := h.nodup_successors d.1
    rw [successorsOf, Entries.get?_of_mem h.nodup_nodes hd] at hnodup
    exact hnodup.map fun n m he => (Edge.mk.inj he).2
  · obtain ⟨n, -, rfl⟩ := List.mem_map.1 he
    rfl

end Digraph

/-! ### Queries -/

namespace Topology

variable {t u : Topology} {n p : String} {e : Edge}

theorem predecessors_of_mem {d : String × List String} (hd : d ∈ t.entries) :
    t.predecessors d.1 = d.2 := by
  rw [predecessors, Entries.get?_of_mem t.nodup_nodes hd, Option.getD_some]

theorem mem_edges_iff : ⟨p, n⟩ ∈ t.edges ↔ p ∈ t.predecessors n := by
  refine ⟨fun h => ?_, mem_edges_of_mem_predecessors⟩
  obtain ⟨d, hd, he⟩ := List.mem_flatMap.1 h
  obtain ⟨q, hq, hqn⟩ := List.mem_map.1 he
  cases hqn
  rwa [predecessors_of_mem hd]

theorem hasEdge_iff_mem_edges : t.hasEdge e = true ↔ e ∈ t.edges := Digraph.hasEdge_build

theorem hasEdge_iff : t.hasEdge ⟨p, n⟩ = true ↔ p ∈ t.predecessors n :=
  hasEdge_iff_mem_edges.trans mem_edges_iff

/-- The predecessors, counted node by node, are as many as the edges. -/
theorem foldl_length_eq (es : List (String × List String)) (k : Nat) :
    es.foldl (fun count e => count + e.2.length) k =
      k + (es.flatMap fun e => e.2.map fun p => (⟨p, e.1⟩ : Edge)).length := by
  induction es generalizing k with
  | nil => rfl
  | cons e es ih =>
    rw [List.foldl_cons, ih, List.flatMap_cons, List.length_append, List.length_map, Nat.add_assoc]

theorem length_edges (t : Topology) : t.edges.length = t.edgeCount := by
  rw [edgeCount, foldl_length_eq, Nat.zero_add, edges]

theorem nodes_graph (t : Topology) : t.graph.nodes = t.nodes :=
  Digraph.nodes_build t.nodup_nodes fun _ he => mem_nodes_of_mem_edges he

theorem edges_graph_perm (t : Topology) : t.graph.edges.Perm t.edges := by
  have hgraph : t.graph.WellFormed := Digraph.wellFormed_build t.nodes t.edges
  refine (List.perm_ext_iff_of_nodup hgraph.nodup_edges t.nodup_edges).2 fun e => ?_
  exact hgraph.mem_edges_iff.trans hasEdge_iff_mem_edges

theorem eq_of_entries_eq (h : t.entries = u.entries) : t = u := by
  cases t
  cases u
  cases h
  rfl

/-- Topologies that compare equal are the same. -/
theorem beq_iff : (t == u) = true ↔ t = u := by
  show (t.nodes == u.nodes && Entries.sameValues t.entries u.entries) = true ↔ t = u
  simp only [Entries.sameValues, Bool.and_eq_true, beq_iff_eq, decide_eq_true_eq, List.all_eq_true]
  constructor
  · rintro ⟨hnodes, -, hvalues⟩
    refine eq_of_entries_eq (Entries.eq_of_get?_eq t.nodup_nodes hnodes fun k hk => ?_)
    obtain ⟨d, hd, rfl⟩ := List.mem_map.1 hk
    rw [Entries.get?_of_mem t.nodup_nodes hd, hvalues d hd]
  · rintro rfl
    exact ⟨rfl, rfl, fun d hd => Entries.get?_of_mem t.nodup_nodes hd⟩

/-! ### Declarations -/

theorem predecessorFault?_eq_some {names : List String} {d : String × List String}
    {fault : TopologyError} (h : predecessorFault? names d = some fault) :
    (∃ p ∈ d.2, p ∉ names ∧ fault = .undeclaredPredecessor d.1 p) ∨
      ¬ d.2.Nodup ∧ fault = .repeatedPredecessor d.1 d.2 := by
  unfold predecessorFault? at h
  split at h
  · rename_i p hp
    cases h
    refine .inl ⟨p, List.mem_of_find?_eq_some hp, fun hmem => ?_, rfl⟩
    have hnot := List.find?_some hp
    rw [List.contains_iff_mem.2 hmem] at hnot
    cases hnot
  · split at h
    · cases h
    · rename_i hnodup
      cases h
      exact .inr ⟨hnodup, rfl⟩

/-- A topology holds the predecessors that were declared, if they pass. -/
theorem ofEntries_cases (declarations : List (String × List String)) :
    (∃ t, ofEntries declarations = .ok t ∧ t.entries = Entries.ofList declarations ∧
      ∀ d ∈ Entries.ofList declarations,
        predecessorFault? (Entries.keys (Entries.ofList declarations)) d = none) ∨
    ∃ fault, ofEntries declarations = .error fault ∧ ∃ d ∈ Entries.ofList declarations,
      predecessorFault? (Entries.keys (Entries.ofList declarations)) d = some fault := by
  unfold ofEntries
  dsimp only
  split
  · rename_i fault h
    obtain ⟨d, hd, hfault⟩ := List.exists_of_findSome?_eq_some h
    exact .inr ⟨fault, rfl, d, hd, hfault⟩
  · rename_i h
    exact .inl ⟨_, rfl, rfl, List.findSome?_eq_none_iff.1 h⟩

theorem entries_of_ofEntries {declarations : List (String × List String)}
    (h : ofEntries declarations = .ok t) : t.entries = Entries.ofList declarations := by
  rcases ofEntries_cases declarations with ⟨u, hu, hentries, -⟩ | ⟨fault, hfault, -⟩
  · rw [h] at hu
    cases hu
    exact hentries
  · rw [h] at hfault
    cases hfault

/-- Predecessors are refused where one of them is not declared or stands twice. -/
theorem ofEntries_eq_error_iff (declarations : List (String × List String)) :
    (∃ fault, ofEntries declarations = .error fault) ↔ ∃ d ∈ Entries.ofList declarations,
      (∃ p ∈ d.2, p ∉ Entries.keys (Entries.ofList declarations)) ∨ ¬ d.2.Nodup := by
  rcases ofEntries_cases declarations with ⟨t, ht, -, hnone⟩ | ⟨fault, hfault, d, hd, hsome⟩
  · refine iff_of_false ?_ ?_
    · rintro ⟨fault, hfault⟩
      rw [ht] at hfault
      cases hfault
    · rintro ⟨d, hd, ⟨p, hp, hnot⟩ | hdup⟩
      · exact hnot ((predecessorFault?_eq_none (hnone d hd)).1 p hp)
      · exact hdup (predecessorFault?_eq_none (hnone d hd)).2
  · refine iff_of_true ⟨fault, hfault⟩ ⟨d, hd, ?_⟩
    rcases predecessorFault?_eq_some hsome with ⟨p, hp, hnot, -⟩ | ⟨hdup, -⟩
    · exact .inl ⟨p, hp, hnot⟩
    · exact .inr hdup

/-- The error says what is wrong with the predecessors of one of the nodes. -/
theorem fault_of_ofEntries {declarations : List (String × List String)} {fault : TopologyError}
    (h : ofEntries declarations = .error fault) : ∃ d ∈ Entries.ofList declarations,
      (∃ p ∈ d.2, p ∉ Entries.keys (Entries.ofList declarations) ∧
        fault = .undeclaredPredecessor d.1 p) ∨
      ¬ d.2.Nodup ∧ fault = .repeatedPredecessor d.1 d.2 := by
  rcases ofEntries_cases declarations with ⟨t, ht, -⟩ | ⟨fault', hfault', d, hd, hsome⟩
  · rw [ht] at h
    cases h
  · rw [hfault'] at h
    cases h
    exact ⟨d, hd, predecessorFault?_eq_some hsome⟩

/-- All queries of a topology agree with the declared predecessors, and with each other. -/
structure Represents (t : Topology) (declared : List (String × List String)) : Prop where
  nodes : t.nodes = Entries.keys declared
  neighbors : ∀ d ∈ declared, t.neighbors d.1 = .ok d.2
  neighbors_unknown : ∀ n ∉ t.nodes, t.neighbors n = .error (.unknownNode n)
  hasEdge_iff_neighbors : ∀ p n, t.hasEdge ⟨p, n⟩ = true ↔
    n ∈ t.nodes ∧ ∃ ps, t.neighbors n = .ok ps ∧ p ∈ ps
  hasEdge_iff_edges : ∀ p n, t.hasEdge ⟨p, n⟩ = true ↔ ⟨p, n⟩ ∈ t.edges
  nodup_edges : t.edges.Nodup
  length_edges : t.edges.length = t.edgeCount
  nodes_graph : t.graph.nodes = t.nodes
  edges_graph : t.graph.edges.Perm t.edges
  mapEdges : ∀ {α : Type} (f : Edge → α), Entries.keys (t.mapEdges f) = t.edges ∧
    ∀ e ∈ t.edges, Entries.get? (t.mapEdges f) e = some (f e)
  filterEdges : ∀ q : Edge → Bool, (t.filterEdges q).Sublist t.edges ∧
    ∀ e, (t.filterEdges q).count e = if t.hasEdge e = true ∧ q e = true then 1 else 0
  foldEdges : ∀ {α : Type} (f : α → Edge → α) (init : α), t.foldEdges f init =
    declared.foldl (fun acc d => d.2.foldl (fun acc p => f acc ⟨p, d.1⟩) acc) init
  beq_iff : ∀ u, (t == u) = true ↔ t = u
  hash_eq : ∀ u, (t == u) = true → hash t = hash u

theorem neighbors_eq_error (hn : n ∉ t.nodes) : t.neighbors n = .error (.unknownNode n) :=
  if_neg fun h => hn (List.contains_iff_mem.1 h)

theorem count_filterEdges (t : Topology) (q : Edge → Bool) (e : Edge) :
    (t.filterEdges q).count e = if t.hasEdge e = true ∧ q e = true then 1 else 0 := by
  have hnodup : (t.filterEdges q).Nodup := t.nodup_edges.filter q
  have hmem : e ∈ t.filterEdges q ↔ t.hasEdge e = true ∧ q e = true := by
    rw [hasEdge_iff_mem_edges]
    exact List.mem_filter
  by_cases he : e ∈ t.filterEdges q
  · rw [if_pos (hmem.1 he), List.count_eq_one_of_mem hnodup he]
  · rw [if_neg fun h => he (hmem.2 h), List.count_eq_zero_of_not_mem he]

theorem foldEdges_eq {α : Type} (t : Topology) (f : α → Edge → α) (init : α) : t.foldEdges f init =
    t.entries.foldl (fun acc d => d.2.foldl (fun acc p => f acc ⟨p, d.1⟩) acc) init := by
  simp only [foldEdges, edges, List.foldl_flatMap, List.foldl_map]

theorem represents_entries (t : Topology) : t.Represents t.entries where
  nodes := rfl
  neighbors d hd := by
    rw [neighbors_eq (List.mem_map_of_mem hd), predecessors_of_mem hd]
  neighbors_unknown _ hn := neighbors_eq_error hn
  hasEdge_iff_neighbors p n := by
    rw [hasEdge_iff]
    constructor
    · intro hp
      have hn := (mem_nodes_of_mem_edges (mem_edges_iff.2 hp)).2
      exact ⟨hn, _, neighbors_eq hn, hp⟩
    · rintro ⟨hn, ps, hps, hp⟩
      rw [neighbors_eq hn] at hps
      cases hps
      exact hp
  hasEdge_iff_edges _ _ := hasEdge_iff_mem_edges
  nodup_edges := t.nodup_edges
  length_edges := t.length_edges
  nodes_graph := t.nodes_graph
  edges_graph := t.edges_graph_perm
  mapEdges f := ⟨keys_mapEdges f, fun _ he => get?_mapEdges f he⟩
  filterEdges q := ⟨List.filter_sublist, t.count_filterEdges q⟩
  foldEdges f init := t.foldEdges_eq f init
  beq_iff _ := Topology.beq_iff
  hash_eq u h := by rw [Topology.beq_iff.1 h]

/-- Topologies represent what is declared. Declarations are refused exactly where a node lists a
predecessor that is not declared or lists one twice, and the error says so about one such node. The
topology of any other declarations has the nodes in the order of their declaration, and its queries
agree with the declared predecessors and with each other, whichever representation they read.
Topologies that compare equal are hashed alike and answer all queries alike. -/
theorem ofEntries_represents (declarations : List (String × List String)) :
    let declared := Entries.ofList declarations
    ((∃ fault, ofEntries declarations = .error fault) ↔
      ∃ d ∈ declared, (∃ p ∈ d.2, p ∉ Entries.keys declared) ∨ ¬ d.2.Nodup) ∧
    (∀ fault, ofEntries declarations = .error fault → ∃ d ∈ declared,
      (∃ p ∈ d.2, p ∉ Entries.keys declared ∧ fault = .undeclaredPredecessor d.1 p) ∨
        ¬ d.2.Nodup ∧ fault = .repeatedPredecessor d.1 d.2) ∧
    ∀ t, ofEntries declarations = .ok t → t.Represents declared := by
  intro declared
  refine ⟨ofEntries_eq_error_iff declarations, fun _ => fault_of_ofEntries, fun t ht => ?_⟩
  show t.Represents (Entries.ofList declarations)
  rw [← entries_of_ofEntries ht]
  exact t.represents_entries

/-- A topology with a self loop and a cycle. -/
theorem ofEntries_represents_loops : ∃ t, ofEntries [("A", ["A", "B"]), ("B", ["A"])] = .ok t ∧
    t.Represents [("A", ["A", "B"]), ("B", ["A"])] ∧ t.edgeCount = 3 :=
  ⟨_, rfl, (ofEntries_represents [("A", ["A", "B"]), ("B", ["A"])]).2.2 _ rfl, rfl⟩

end Topology

end RouteInvariants
