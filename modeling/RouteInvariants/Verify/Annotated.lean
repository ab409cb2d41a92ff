import RouteInvariants.Merge.Laws
import RouteInvariants.Network.Basic
import RouteInvariants.Verify.Obligation

/-!
Annotated networks and their verification. Every node has an invariant over its route and the time.
Invariants are proved node by node: they hold of the initial routes (base), an update of routes that
satisfy them a step earlier satisfies them again (inductive), and they imply the node's property
(safety). The monolithic check asks for a stable state of the whole network that violates a property.
-/

namespace RouteInvariants

/-- A network with an invariant, a property over time and a property of stable states per node. -/
structure AnnotatedNetwork where
  network : Network
  annotations : List (String × Invariant)
  modularProperties : List (String × Invariant)
  monolithicProperties : List (String × Predicate)

namespace AnnotatedNetwork

def checkNodes {α : Type} (net : Network) (part : Part) (given : List (String × α)) :
    Except DefinitionError Unit :=
  checkKeys part Datum.text net.topology.nodes given

def build (network : Network) (annotations modular : List (String × Invariant))
    (monolithic : List (String × Predicate)) : Except DefinitionError AnnotatedNetwork := do
  checkNodes network .annotations annotations
  checkNodes network .modularProperties modular
  checkNodes network .monolithicProperties monolithic
  return ⟨network, annotations, modular, monolithic⟩

/-- Properties from what holds once routes are stable and what holds always. -/
def ofStableSafety (network : Network) (annotations : List (String × Invariant))
    (stable safety : List (String × Predicate)) (converge : Operand) :
    Except DefinitionError AnnotatedNetwork := do
  checkNodes network .stableProperties stable
  checkNodes network .safetyProperties safety
  let of (given : List (String × Predicate)) (n : String) : Predicate :=
    (Entries.get? given n).getD default
  let modular := network.topology.mapNodes fun n =>
    Invariant.intersect [.eventually converge (of stable n), .globally (of safety n)]
  let monolithic := network.topology.mapNodes fun n => Predicate.all [of stable n, of safety n]
  build network annotations modular monolithic

variable (a : AnnotatedNetwork)

def annotationOf (node : String) : Invariant := (Entries.get? a.annotations node).getD default

def modularOf (node : String) : Invariant := (Entries.get? a.modularProperties node).getD default

def monolithicOf (node : String) : Predicate :=
  (Entries.get? a.monolithicProperties node).getD default

/-! ### Obligations -/

def time : Typed := ⟨.var .time, .int⟩

def routeOf (node : String) : Typed := a.network.unknownRoute "route" node

/-- A Boolean part of a query. -/
def condition (r : Except SortError Typed) : Except Failure Term :=
  (r.bind (Typed.castTo .bool)).mapError Failure.sort

/-- The restrictions of the symbolic values, assumptions, and the negated claim. -/
def query (assumptions : List Term) (claim : Term) : Except Failure Term := do
  let scope ← condition a.network.constraints
  return .conj (scope :: assumptions ++ [.not claim])

def implies (x y : Term) : Term := .or (.not x) y

def symbolicValues (m : Model) : Named :=
  a.network.symbolics.map fun s => (s.name, m.observe ⟨.var s.unknown, s.ty⟩)

/-- The initial route of a node satisfies its invariant at time zero. -/
def baseObligation (node : String) : Except Failure Obligation := do
  let route := a.routeOf node
  let same ← condition (Typed.equal route (a.network.initialOf node))
  let claim ← condition ((a.annotationOf node).applyTo route ⟨.int 0, .int⟩)
  return {
    node := some node
    kind := .base
    query := ← a.query [] (implies same claim)
    witness := fun m => ⟨a.symbolicValues m, .text node, .base (m.observe route)⟩ }

/-- Routes of predecessors that satisfy their invariants at `time - 1` are updated to a route that
satisfies the node's invariant at `time`. -/
def inductiveObligation (node : String) : Except Failure Obligation := do
  let routes := a.network.unknownRoutes "route"
  let preds ← (a.network.topology.neighbors node).mapError Failure.topology
  let next ← a.network.update node routes
  let earlier : Typed := ⟨.sub time.term (.int 1), .int⟩
  let assumed ← preds.mapM fun p => condition ((a.annotationOf p).applyTo (a.routeOf p) earlier)
  let claim ← condition ((a.annotationOf node).applyTo next time)
  let positive : Term := .not (.le time.term (.int 0))
  return {
    node := some node
    kind := .step
    query := ← a.query [] (implies (.conj (positive :: assumed)) claim)
    witness := fun m => ⟨a.symbolicValues m, .text node,
      .step (m.observe next) (preds.map fun p => (p, m.observe (a.routeOf p))) (.int m.time)⟩ }

/-- The invariant of a node implies its property at every time. -/
def safetyObligation (node : String) : Except Failure Obligation := do
  let route := a.routeOf node
  let invariant ← condition ((a.annotationOf node).applyTo route time)
  let property ← condition ((a.modularOf node).applyTo route time)
  return {
    node := some node
    kind := .safety
    query := ← a.query [.le (.int 0) time.term] (implies invariant property)
    witness := fun m => ⟨a.symbolicValues m, .text node, .safety (m.observe route) (.int m.time)⟩ }

/-- Every stable state satisfies every property. -/
def monolithicObligation : Except Failure Obligation := do
  let nodes := a.network.topology.nodes
  let routes := a.network.unknownRoutes "route"
  let stable ← nodes.mapM fun n => do
    condition (Typed.equal (a.routeOf n) (← a.network.update n routes))
  let claims ← nodes.mapM fun n => condition ((a.monolithicOf n).applyTo (a.routeOf n))
  return {
    node := none
    kind := .monolithic
    query := ← a.query stable (.conj claims)
    witness := fun m => ⟨a.symbolicValues m, .null,
      .monolithic (nodes.map fun n => (n, m.observe (a.routeOf n)))⟩ }

/-! ### Checks -/

/-- All nodes, or the one that is named. -/
def nodesOf (node : Option String) : Except Failure (List String) :=
  match node with
  | none => .ok a.network.topology.nodes
  | some n =>
    if a.network.topology.hasNode n then .ok [n] else .error (.definition (.unknownNode n))

section Checks

variable (oracle : Oracle) (arrival : Arrival) (settings : CheckSettings)

def dischargeAll (obligation : String → Except Failure Obligation) (node : Option String) :
    Run Failure (Option State) := do
  let nodes ← Obligation.fetch (a.nodesOf node)
  let os ← Obligation.fetch (nodes.mapM obligation)
  Obligation.discharge oracle arrival settings os

def checkBase (node : Option String) : Run Failure (Option State) :=
  dischargeAll a oracle arrival settings a.baseObligation node

def checkInductive (node : Option String) : Run Failure (Option State) :=
  dischargeAll a oracle arrival settings a.inductiveObligation node

def checkSafety (node : Option String) : Run Failure (Option State) :=
  dischargeAll a oracle arrival settings a.safetyObligation node

/-- The phases of the modular check, in order. -/
def phases : List (CheckKind × Run Failure (Option State)) :=
  [(.base, checkBase a oracle arrival settings none),
    (.step, checkInductive a oracle arrival settings none),
    (.safety, checkSafety a oracle arrival settings none)]

/-- Runs the phases up to the first one that finds a counterexample. -/
def runPhases : List (CheckKind × Run Failure (Option State)) → Run Failure (Option State)
  | [] => do
    Run.journal fun j => j.success "All the modular checks passed!"
    return none
  | (kind, check) :: rest => do
    match ← Run.timed (kind.title ++ " checks") kind.display check with
    | some s =>
      Run.journal fun j =>
        j.error (kind.title ++ " check failed at " ++ s.node.display)
      return some s
    | none => runPhases rest

/-- The modular check: the laws of the merge if asked for, then the three phases. -/
def checkAnnotations : Run Failure (Option State) := do
  if settings.checkMergeLaws then
    Run.timed "Merge law fuzzing" "timing"
      (Obligation.fetch (a.network.merge.checkLaws a.network.routeTy settings.mergeLawExamples))
  runPhases (phases a oracle arrival settings)

/-- The three checks of each node, up to its first counterexample. -/
def checkPerNode : Run Failure (List (String × Option State)) := do
  let chains ← Obligation.fetch (a.network.topology.nodes.mapM fun n => do
    return (n, [← a.baseObligation n, ← a.inductiveObligation n, ← a.safetyObligation n]))
  Obligation.dischargeChains oracle arrival settings chains

def checkMonolithic : Run Failure (Option State) := do
  let found ← Run.timed "Monolithic check" "monolithic" (do
    let o ← Obligation.fetch a.monolithicObligation
    Obligation.discharge oracle arrival settings [o])
  match found with
  | none => Run.journal fun j => j.success "The monolithic checks passed!"
  | some _ => Run.journal fun j => j.error "Monolithic check failed"
  return found

end Checks

def describe : String := "AnnotatedNetwork(" ++ a.network.describe ++ ")"

end AnnotatedNetwork

end RouteInvariants
