import RouteInvariants.Network.Basic

/-!
Networks for common protocols. Both originate a route at a destination, which is a node or a symbolic
value over the node names, and keep originating it.
-/

namespace RouteInvariants

/-- A destination; a symbolic one is either among the declared symbolic values or still has to be. -/
inductive Destination where
  | node (name : String)
  | declared (s : Symbolic)
  | added (s : Symbolic)
deriving Inhabited

namespace Destination

/-- The initial route of every node: `route` at the destination and nothing elsewhere. -/
def originate (d : Destination) (t : Topology) (element : Ty) (route : Expr) :
    Except DefinitionError (List (String × Expr)) :=
  let empty : Expr := .absent (.option element)
  let symbolic (s : Symbolic) := t.mapNodes fun n =>
    Expr.ite (.compare .eq s.expr (.text n)) route empty
  match d with
  | node name =>
    if t.hasNode name then .ok (t.mapNodes fun n => if n = name then route else empty)
    else .error (.unknownDestination name)
  | declared s => .ok (symbolic s)
  | added s => .ok (symbolic s)

def symbolics (d : Destination) (ss : List Symbolic) : List Symbolic :=
  match d with
  | added s => s :: ss
  | _ => ss

end Destination

/-- Hop counts: the destination holds zero, every edge adds one, the smaller count wins. -/
def shortestPathNetwork (t : Topology) (d : Destination) (ss : List Symbolic) :
    Except Failure Network := do
  let initial ← (d.originate t .int (.present (.int 0))).mapError Failure.definition
  Network.define t (t.mapEdges fun _ => .omap (.incr 1)) .minOption initial (d.symbolics ss)
    (some (.option .int)) .persistent

/-- Reachability: a node holds the unit once it has heard of the destination. -/
def reachabilityNetwork (t : Topology) (d : Destination) (ss : List Symbolic) :
    Except Failure Network := do
  let initial ← (d.originate t .unit (.present .unit)).mapError Failure.definition
  Network.define t (t.mapEdges fun _ => .identity) .preferSome initial (d.symbolics ss)
    (some (.option .unit)) .persistent

end RouteInvariants
