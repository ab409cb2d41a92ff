import RouteInvariants.Network.Basic

/-!
Networks with failing edges. Each of a bounded number of failures is a symbolic value that is absent
or names an edge of the topology, and a failed edge drops every route sent over it. As the failures
are symbolic, one proof covers all of their combinations.
-/

namespace RouteInvariants

def failureTy : Ty := .option .edge

/-- The value of a failure of the edge. -/
def failureOf (e : Edge) : Expr := .present (.edge e)

/-- The `i`-th failure: absent, or one of the edges. -/
def failureSymbolic (edges : List Edge) (i : Nat) : Symbolic :=
  { name := "failed-edge-" ++ toString i
    ty := failureTy
    restriction := some ⟨.disj (Expr.isNone (.arg 0)
      :: edges.map fun e => .compare .eq (.arg 0) (failureOf e))⟩ }

def failureSymbolics (edges : List Edge) (count : Nat) : List Symbolic :=
  (List.range count).map (failureSymbolic edges)

/-- One of the failures names the edge. -/
def failedBy (failures : List Symbolic) (e : Edge) : Expr :=
  .disj (failures.map fun s => .compare .eq s.expr (failureOf e))

/-- The transfer function of an edge that may be down. -/
def dropIfFailed (ty : Ty) (failures : List Symbolic) (e : Edge) (f : Transfer) : Transfer :=
  ⟨.ite (failedBy failures e) (.absent ty) (f.apply (.arg 0))⟩

namespace Network

variable (net : Network)

/-- The network in which up to `bound` edges may be down. -/
def withFailures (bound : Int) : Except DefinitionError Network :=
  let edges := net.topology.edges
  if bound < 0 || (net.topology.edgeCount : Int) < bound then
    .error (.failureBound net.topology.edgeCount bound)
  else if !net.routeTy.isOption then .error (.failureSort net.routeTy)
  else
    let failures := failureSymbolics edges bound.toNat
    build net.topology
      (net.topology.mapEdges fun e => dropIfFailed net.routeTy failures e (net.transferOf e))
      net.merge net.initial (net.symbolics ++ failures) (some net.routeTy) net.origination
      (net.failureBounds ++ [bound.toNat])

/-- Whether an edge is down, for a network whose edges may be. -/
def isFailed? (e : Edge) : Option Expr :=
  net.failureBounds.getLast?.map fun k => failedBy (failureSymbolics net.topology.edges k) e

end Network

end RouteInvariants
