import RouteInvariants.Datum.Literal

/-!
Topologies. A topology maps every node to the list of its predecessors: the nodes whose transferred
routes it merges. Nodes and predecessors keep the order in which they were declared.
-/

namespace RouteInvariants

/-- A directed edge, from a predecessor to a node. -/
structure Edge where
  source : String
  target : String
deriving DecidableEq, Inhabited

def Edge.toDatum (e : Edge) : Datum := .tuple [.text e.source, .text e.target]

inductive TopologyError where
  | undeclaredPredecessor (node pred : String)
  | repeatedPredecessor (node : String) (preds : List String)
  | unknownNode (node : String)
  | noPath (source target : String)
  | negativeSize (size : Int)
  | frozen
deriving DecidableEq, Inhabited

def nameList (names : List String) : String :=
  (Datum.list (names.map Datum.text)).literal

def TopologyError.message : TopologyError → String
  | undeclaredPredecessor node pred =>
    "node " ++ Text.quoted node ++ " lists undeclared predecessor " ++ Text.quoted pred
  | repeatedPredecessor node preds =>
    "node " ++ Text.quoted node ++ " lists a predecessor more than once: " ++ nameList preds
  | unknownNode node => "unknown node " ++ Text.quoted node
  | noPath source target =>
    "no path from " ++ Text.quoted source ++ " to " ++ Text.quoted target
  | negativeSize size => "Negative number of nodes not valid: " ++ toString size
  | frozen => "Frozen graph can't be modified"

/-! ### Keys of an ordered dictionary -/

namespace Entries

variable {κ α : Type} [DecidableEq κ]

theorem keys_insert (entries : List (κ × α)) (key : κ) (value : α) :
    keys (insert entries key value) =
      if key ∈ keys entries then keys entries else keys entries ++ [key] := by
  induction entries with
  | nil => rfl
  | cons e rest ih =>
    by_cases h : e.1 = key
    · simp [insert, keys, h]
    · have h' : ¬ key = e.1 := fun he => h he.symm
      simp only [keys] at ih
      simp only [insert, keys, h, if_false, List.map_cons, ih, List.mem_cons, h', false_or]
      split <;> rename_i hk <;> simp [hk]

theorem nodup_keys_insert {entries : List (κ × α)} (h : (keys entries).Nodup)
    (key : κ) (value : α) : (keys (insert entries key value)).Nodup := by
  rw [keys_insert]
  split
  · exact h
  · rename_i hk
    exact List.nodup_append.2 ⟨h, by simp, fun a ha b hb => by
      rintro rfl
      simp only [List.mem_singleton] at hb
      exact hk (hb ▸ ha)⟩

theorem nodup_keys_foldl (es : List (κ × α)) :
    ∀ acc : List (κ × α), (keys acc).Nodup →
      (keys (es.foldl (fun acc e => insert acc e.1 e.2) acc)).Nodup := by
  induction es with
  | nil => exact fun acc h => h
  | cons e rest ih => exact fun acc h => ih _ (nodup_keys_insert h e.1 e.2)

theorem nodup_keys_ofList (es : List (κ × α)) : (keys (ofList es)).Nodup :=
  nodup_keys_foldl es [] (by simp [keys])

theorem mem_insert {entries : List (κ × α)} {key : κ} {value : α} {e : κ × α}
    (h : e ∈ insert entries key value) : e = (key, value) ∨ e ∈ entries := by
  induction entries with
  | nil => exact .inl (by simpa [insert] using h)
  | cons d rest ih =>
    unfold insert at h
    split at h
    · rcases List.mem_cons.1 h with h | h
      · exact .inl h
      · exact .inr (List.mem_cons_of_mem _ h)
    · rcases List.mem_cons.1 h with h | h
      · exact .inr (h ▸ List.mem_cons_self)
      · rcases ih h with h | h
        · exact .inl h
        · exact .inr (List.mem_cons_of_mem _ h)

theorem mem_foldl_insert (es : List (κ × α)) :
    ∀ {acc : List (κ × α)} {e : κ × α},
      e ∈ es.foldl (fun acc e => insert acc e.1 e.2) acc → e ∈ acc ∨ e ∈ es := by
  induction es with
  | nil => exact fun h => .inl h
  | cons d rest ih =>
    intro acc e h
    rcases ih h with h | h
    · rcases mem_insert h with h | h
      · exact .inr (h ▸ List.mem_cons_self)
      · exact .inl h
    · exact .inr (List.mem_cons_of_mem _ h)

/-- An ordered dictionary holds only what was written into it. -/
theorem mem_of_mem_ofList {es : List (κ × α)} {e : κ × α} (h : e ∈ ofList es) : e ∈ es := by
  rcases mem_foldl_insert es h with h | h
  · cases h
  · exact h

end Entries

/-! ### Directed graphs -/

/-- A directed graph: every node with its successors, in the order in which they were added. -/
structure Digraph where
  successors : List (String × List String)
deriving DecidableEq, Inhabited

namespace Digraph

variable (g : Digraph)

def addNode (node : String) : Digraph :=
  if node ∈ Entries.keys g.successors then g else ⟨Entries.insert g.successors node []⟩

def successorsOf (node : String) : List String := (Entries.get? g.successors node).getD []

/-- Adds an edge after its ends; an edge that is there already stays as it is. -/
def addEdge (e : Edge) : Digraph :=
  let h := (g.addNode e.source).addNode e.target
  if e.target ∈ h.successorsOf e.source then h
  else ⟨Entries.insert h.successors e.source (h.successorsOf e.source ++ [e.target])⟩

/-- The graph that has the nodes, and the edges with their ends. -/
def build (nodes : List String) (edges : List Edge) : Digraph :=
  edges.foldl addEdge (nodes.foldl addNode ⟨[]⟩)

def nodes : List String := Entries.keys g.successors

def hasEdge (e : Edge) : Bool := (g.successorsOf e.source).contains e.target

/-- All edges, node by node, each node's in successor order. -/
def edges : List Edge := g.successors.flatMap fun e => e.2.map fun n => ⟨e.1, n⟩

end Digraph

/-! ### The type -/

/-- The first thing wrong with a node's predecessors, if anything is. -/
def predecessorFault? (names : List String) (e : String × List String) : Option TopologyError :=
  match e.2.find? (fun p => !names.contains p) with
  | some p => some (.undeclaredPredecessor e.1 p)
  | none => if e.2.Nodup then none else some (.repeatedPredecessor e.1 e.2)

theorem predecessorFault?_eq_none {names : List String} {e : String × List String}
    (h : predecessorFault? names e = none) : (∀ p ∈ e.2, p ∈ names) ∧ e.2.Nodup := by
  unfold predecessorFault? at h
  split at h
  · cases h
  · rename_i hf
    refine ⟨fun p hp => ?_, ?_⟩
    · simpa using List.find?_eq_none.1 hf p hp
    · by_cases hn : e.2.Nodup
      · exact hn
      · simp [hn] at h

/-- A topology: every predecessor is a node, and neither nodes nor a node's predecessors repeat. -/
structure Topology where
  entries : List (String × List String)
  nodup_nodes : (Entries.keys entries).Nodup
  declared : ∀ e ∈ entries, ∀ p ∈ e.2, p ∈ Entries.keys entries
  nodup_predecessors : ∀ e ∈ entries, e.2.Nodup

namespace Topology

/-- Builds a topology from predecessor lists. A node listed twice keeps its first position and its
last list. -/
def ofEntries (declarations : List (String × List String)) : Except TopologyError Topology :=
  let es := Entries.ofList declarations
  match h : es.findSome? (predecessorFault? (Entries.keys es)) with
  | some e => .error e
  | none => .ok
    { entries := es
      nodup_nodes := Entries.nodup_keys_ofList declarations
      declared := fun e he => (predecessorFault?_eq_none (List.findSome?_eq_none_iff.1 h e he)).1
      nodup_predecessors := fun e he =>
        (predecessorFault?_eq_none (List.findSome?_eq_none_iff.1 h e he)).2 }

instance : Inhabited Topology := ⟨⟨[], by simp [Entries.keys], by simp, by simp⟩⟩

variable (t : Topology)

def nodes : List String := Entries.keys t.entries

/-- Topologies are compared by their nodes, in order, and by the predecessors of each node. -/
instance : BEq Topology :=
  ⟨fun t u => t.nodes == u.nodes && Entries.sameValues t.entries u.entries⟩

instance : Hashable Topology := ⟨fun t => hash t.entries⟩

/-- The predecessors of a node; a name that is no node has none. -/
def predecessors (node : String) : List String := (Entries.get? t.entries node).getD []

def hasNode (node : String) : Bool := t.nodes.contains node

def neighbors (node : String) : Except TopologyError (List String) :=
  if t.hasNode node then .ok (t.predecessors node) else .error (.unknownNode node)

/-- All edges, node by node, each node's in predecessor order. -/
def edges : List Edge := t.entries.flatMap fun e => e.2.map fun p => ⟨p, e.1⟩

/-- The topology as a graph that is built up from its nodes and edges. -/
def graph : Digraph := .build t.nodes t.edges

def hasEdge (e : Edge) : Bool := t.graph.hasEdge e

def nodeCount : Nat := t.nodes.length

/-- The number of edges: all predecessors of all nodes. -/
def edgeCount : Nat := t.entries.foldl (fun count e => count + e.2.length) 0

/-- A topology cannot be changed once built. -/
def addNode (_t : Topology) (_node : String) : Except TopologyError Topology := .error .frozen

def mapNodes {α : Type} (f : String → α) : List (String × α) := t.nodes.map fun n => (n, f n)

def foldNodes {α : Type} (f : α → String → α) (init : α) : α := t.nodes.foldl f init

def mapEdges {α : Type} (f : Edge → α) : List (Edge × α) := t.edges.map fun e => (e, f e)

def foldEdges {α : Type} (f : α → Edge → α) (init : α) : α := t.edges.foldl f init

/-- The edges of the graph by source, and by target where the sources are the same. -/
def sortedEdges : List Edge :=
  t.graph.edges.mergeSort fun a b =>
    if a.source = b.source then decide (a.target ≤ b.target) else decide (a.source ≤ b.source)

def filterEdges (p : Edge → Bool) : List Edge := t.edges.filter p

def describe : String :=
  "Topology(nodes=" ++ toString t.nodeCount ++ ", edges=" ++ toString t.edgeCount ++ ")"

end Topology

end RouteInvariants
