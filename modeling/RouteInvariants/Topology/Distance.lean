import RouteInvariants.Topology.Basic

/-!
Hop distances. The ball of radius `k` around a node holds the nodes that a route can reach from it
in at most `k` hops; the distance is the least radius whose ball holds the target.
-/

namespace RouteInvariants.Topology

variable (t : Topology)

/-- The nodes of `reached`, and those with a predecessor in it. -/
def widen (reached : List String) : List String :=
  t.nodes.filter fun n => reached.contains n || (t.predecessors n).any reached.contains

def ball (source : String) : Nat → List String
  | 0 => [source]
  | k + 1 => t.widen (ball source k)

/-- The number of rounds, at most `fuel`, after which `target` is reached. -/
def hopsFrom (target : String) : Nat → List String → Option Nat
  | 0, reached => if reached.contains target then some 0 else none
  | fuel + 1, reached =>
    if reached.contains target then some 0
    else (hopsFrom target fuel (t.widen reached)).map (· + 1)

/-- The hop distance, if there is a path at all: a shortest path visits no node twice. -/
def distance? (source target : String) : Option Nat :=
  t.hopsFrom target t.nodeCount [source]

/-- The number of hops a route needs from `source` to `target`. -/
def distance (source target : String) : Except TopologyError Nat :=
  if !t.hasNode source then .error (.unknownNode source)
  else if !t.hasNode target then .error (.unknownNode target)
  else match t.distance? source target with
    | some d => .ok d
    | none => .error (.noPath source target)

end RouteInvariants.Topology
