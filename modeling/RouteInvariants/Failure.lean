import RouteInvariants.Route.Invariant

/-!
What can go wrong: definitions that do not fit their topology, queries that the oracle cannot decide,
merges that break a law. A counterexample is an answer and not a failure.
-/

namespace RouteInvariants

/-- The parts of a definition that are given node by node or edge by edge. -/
inductive Part where
  | transferFunctions | initialValues | annotations | modularProperties | monolithicProperties
  | stableProperties | safetyProperties
deriving DecidableEq, Inhabited

def Part.display : Part → String
  | transferFunctions => "transfer functions"
  | initialValues => "initial values"
  | annotations => "annotations"
  | modularProperties => "modular properties"
  | monolithicProperties => "monolithic properties"
  | stableProperties => "stable properties"
  | safetyProperties => "safety properties"

inductive DefinitionError where
  | keys (part : Part) (missing extra : List Datum)
  | repeatedSymbolics (names : List String)
  | emptyNetwork
  | initialSorts (ty : Ty) (nodes : List String)
  | failureBound (edgeCount : Nat) (bound : Int)
  | failureSort (ty : Ty)
  | unknownDestination (name : String)
  | unknownNode (name : String)
deriving Inhabited

/-- A message followed by the keys that are missing or not expected, if any. -/
def withKeys (message : String) (missing extra : Datum) : String :=
  let part (name : String) (keys : Datum) : List String :=
    if keys.truthy then [name ++ ": " ++ keys.display] else []
  let details := part "missing" missing ++ part "unexpected" extra
  if details.isEmpty then message else message ++ " (" ++ "; ".intercalate details ++ ")"

def DefinitionError.message : DefinitionError → String
  | keys part missing extra =>
    withKeys (part.display ++ " do not match the topology") (.list missing) (.list extra)
  | repeatedSymbolics names => "symbolic values declared more than once: " ++ nameList names
  | emptyNetwork => "cannot infer the route sort of an empty network"
  | initialSorts ty nodes => "initial routes are not of sort " ++ ty.display ++ ": " ++ nameList nodes
  | failureBound edgeCount bound =>
    "max_failures must lie in [0, " ++ toString edgeCount ++ "], got " ++ toString bound
  | failureSort ty => "failed edges drop routes, which needs an option sort, got " ++ ty.display
  | unknownDestination name =>
    "destination " ++ Text.quoted name ++ " is not a node of the topology"
  | unknownNode name => "unknown node " ++ Text.quoted name

/-- The oracle gave no verdict; where it was asked by a check, on which one and at which node. -/
structure SolverError where
  reason : String
  node : Option String
  check : Option String
deriving DecidableEq, Inhabited

def SolverError.message (e : SolverError) : String :=
  let check := match e.check with
    | some c => " during " ++ c ++ " check"
    | none => ""
  let node := match e.node with
    | some n => " at node " ++ n
    | none => ""
  "solver returned unknown" ++ check ++ node ++ ": " ++ e.reason

inductive MergeLaw where
  | idempotent | commutative | associative
deriving DecidableEq, Inhabited

def MergeLaw.display : MergeLaw → String
  | idempotent => "idempotent"
  | commutative => "commutative"
  | associative => "associative"

/-- Names that stand for nothing, whether they are texts or not. -/
inductive NameError where
  | origination (name : Datum)
  | checkKind (name : Datum)
  | mode (name : Datum)
deriving Inhabited

def NameError.message : NameError → String
  | origination name => name.literal ++ " is not a valid Origination"
  | checkKind name => name.literal ++ " is not a valid SmtCheck"
  | mode name => "unknown verification mode " ++ name.literal
      ++ "; expected one of ('modular', 'monolithic')"

/-- Sorts of which no sample values can be built. -/
inductive SampleError where
  | unsupported (ty : Ty)
  | infinite (ty : Ty)
deriving DecidableEq, Inhabited

def SampleError.message : SampleError → String
  | unsupported ty => "no route strategy for sort " ++ ty.display
  | infinite ty => "cannot build a finite value of sort " ++ ty.display

inductive Failure where
  | topology (e : TopologyError)
  | distance (e : DistanceError)
  | definition (e : DefinitionError)
  | sort (e : SortError)
  | missingRoute (node : String)
  | solver (e : SolverError)
  | law (law : MergeLaw)
  | sample (e : SampleError)
  /-- A search for examples is to try less than one. -/
  | noExamples
  | name (e : NameError)
  | assertion (message : String)
deriving Inhabited

end RouteInvariants
