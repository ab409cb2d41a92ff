import RouteInvariants.Route.Functions
import RouteInvariants.Topology.Distance

/-!
Temporal invariants, by which nodes are annotated: conditions on a route and on the time at which a
node holds it. Witness times may
be numbers or expressions, so they can depend on symbolic values.
-/

namespace RouteInvariants

/-- Argument 0 is the route and argument 1 the time. -/
structure Invariant where
  body : Expr
deriving Inhabited

namespace Invariant

def apply (a : Invariant) (route time : Expr) : Expr := .call2 a.body route time

/-- Holds of every route at every time. -/
def any : Invariant := ⟨.bool true⟩

def globally (p : Predicate) : Invariant := ⟨p.apply (.arg 0)⟩

/-- `p` from time `witness` on, anything before. -/
def eventually (witness : Operand) (p : Predicate) : Invariant :=
  ⟨.or (.compareTo .lt (.arg 1) witness) (p.apply (.arg 0))⟩

/-- `before` strictly before `witness`, `after` from then on. -/
def until_ (witness : Operand) (before after : Predicate) : Invariant :=
  ⟨.or (.and (.compareTo .lt (.arg 1) witness) (before.apply (.arg 0)))
    (.and (.compareTo .ge (.arg 1) witness) (after.apply (.arg 0)))⟩

def intersect (as : List Invariant) : Invariant :=
  ⟨.conj (as.map fun a => a.apply (.arg 0) (.arg 1))⟩

def never (p : Predicate) : Invariant := ⟨.not (p.apply (.arg 0))⟩

/-- The route is always exactly `value`. -/
def equals (value : Operand) : Invariant :=
  ⟨.compare .eq (.arg 0) (.liftedLike (.arg 0) value)⟩

end Invariant

inductive DistanceError where
  | topology (e : TopologyError)
  | noWitness (distance : Nat) (node : String)
deriving DecidableEq, Inhabited

def DistanceError.message : DistanceError → String
  | topology e => e.message
  | noWitness d node =>
    "no witness time for distance " ++ toString d ++ " (node " ++ Text.quoted node ++ ")"

/-- Annotates each node with "eventually `p`", where the witness time is the one listed for its hop
distance from the destination. -/
def eventuallyByDistance (t : Topology) (destination : String) (p : Predicate)
    (times : List Operand) : Except DistanceError (List (String × Invariant)) :=
  t.nodes.mapM fun node =>
    match t.distance destination node with
    | .error e => .error (.topology e)
    | .ok d => match times[d]? with
      | some w => .ok (node, Invariant.eventually w p)
      | none => .error (.noWitness d node)

end RouteInvariants
