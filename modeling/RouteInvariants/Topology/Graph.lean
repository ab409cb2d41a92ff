import RouteInvariants.Topology.Basic

/-!
Labelled graphs as a source of topologies. Nodes are in order of first appearance and repeated edges
count once. An undirected graph stands for the directed graph with both directions of each edge.
-/

namespace RouteInvariants

/-- A node label: a number and the text of that number are different labels of one name. -/
inductive Label where
  | number (n : Int)
  | text (s : String)
deriving DecidableEq, Inhabited

def Label.name : Label → String
  | number n => toString n
  | text s => s

/-- The elements in order of first appearance. -/
def firstOccurrences {α : Type} [DecidableEq α] (xs : List α) : List α :=
  xs.foldl (fun acc x => if x ∈ acc then acc else acc ++ [x]) []

structure Graph where
  directed : Bool
  declared : List Label
  links : List (Label × Label)
deriving Inhabited

namespace Graph

variable (g : Graph)

def labels : List Label :=
  firstOccurrences (g.declared ++ g.links.flatMap fun l => [l.1, l.2])

/-- The neighbours of `u`, in the order in which they were attached to it. -/
def attached (u : Label) : List Label :=
  firstOccurrences (g.links.flatMap fun l =>
    if l.1 = u then [l.2] else if l.2 = u then [l.1] else [])

/-- The directed edges in the order in which they were added. -/
def arcs : List (Label × Label) :=
  if g.directed then firstOccurrences g.links
  else g.labels.flatMap fun u => (g.attached u).map fun v => (u, v)

def predecessors (v : Label) : List Label :=
  (g.arcs.filter fun a => a.2 = v).map Prod.fst

/-- The topology over the names of the labels: labels of one name are one node. -/
def toTopology : Except TopologyError Topology :=
  let blank := Entries.ofList (g.labels.map fun v => (v.name, ([] : List String)))
  Topology.ofEntries <| g.labels.foldl (fun acc v =>
    Entries.insert acc v.name
      (((Entries.get? acc v.name).getD []) ++ (g.predecessors v).map Label.name)) blank

end Graph

end RouteInvariants
