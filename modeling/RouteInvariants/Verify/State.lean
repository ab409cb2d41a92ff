import RouteInvariants.Datum.Json
import RouteInvariants.Failure

/-!
Counterexamples. A state says which check failed, at which node, and with which routes, time and
symbolic values.
-/

namespace RouteInvariants

/-- The proof obligation that a counterexample refutes. -/
inductive CheckKind where
  | base | step | safety | monolithic
deriving DecidableEq, Inhabited

namespace CheckKind

def display : CheckKind → String
  | base => "base"
  | step => "inductive"
  | safety => "safety"
  | monolithic => "monolithic"

def title : CheckKind → String
  | base => "Base"
  | step => "Inductive"
  | safety => "Safety"
  | monolithic => "Monolithic"

def ofName (name : Datum) : Except NameError CheckKind :=
  match [base, step, safety, monolithic].find? fun k => name == .text k.display with
  | some k => .ok k
  | none => .error (.checkKind name)

end CheckKind

/-- The fields of a state that depend on the check. -/
inductive StateDetail where
  | base (route : Datum)
  | step (route : Datum) (neighbors : Named) (time : Datum)
  | safety (route time : Datum)
  | monolithic (routes : Named)
deriving Inhabited

/-- A counterexample. The node is null where the check is not about a single one. -/
structure State where
  symbolics : Named
  node : Datum
  detail : StateDetail
deriving Inhabited

namespace State

def kind (s : State) : CheckKind :=
  match s.detail with
  | .base _ => .base
  | .step _ _ _ => .step
  | .safety _ _ => .safety
  | .monolithic _ => .monolithic

/-- The fields in order, after the symbolic values. -/
def fields (s : State) : Named :=
  match s.detail with
  | .base route => [("node", s.node), ("route", route)]
  | .step route neighbors time =>
    [("node", s.node), ("route", route), ("neighbor_routes", .dict neighbors), ("time", time)]
  | .safety route time => [("node", s.node), ("route", route), ("time", time)]
  | .monolithic routes => [("routes", .dict routes)]

/-- The state with the given fields, of which there must be none missing and none too many. -/
def ofFields? (kind : CheckKind) (given : Named) : Option State := do
  let get (name : String) : Option Datum := Entries.get? given name
  let symbolics := (← get "symbolics").entries
  let s : State ← match kind with
    | .base => do pure ⟨symbolics, ← get "node", .base (← get "route")⟩
    | .step => do
      let neighbors := (← get "neighbor_routes").entries
      pure ⟨symbolics, ← get "node", .step (← get "route") neighbors (← get "time")⟩
    | .safety => do pure ⟨symbolics, ← get "node", .safety (← get "route") (← get "time")⟩
    | .monolithic => do pure ⟨symbolics, .null, .monolithic (← get "routes").entries⟩
  if given.length = s.fields.length + 1 then some s else none

def entries (s : State) : Named :=
  ("kind", .text s.kind.display) :: ("symbolics", .dict s.symbolics) :: s.fields

def toDatum (s : State) : Datum := .dict s.entries

def json (s : State) (indent : Option String) : String := s.toDatum.json indent

/-- The state as a constructor call. -/
def literal (s : State) : String :=
  let args := (("symbolics", Datum.dict s.symbolics) :: s.fields).map fun f =>
    f.1 ++ "=" ++ f.2.literal
  s.kind.title ++ "State(" ++ ", ".intercalate args ++ ")"

/-- The lines on the fields; the routes of neighbours are those of one time unit earlier, so the time
has to be a number if there are any. -/
def lines? (s : State) : Option (List String) :=
  match s.detail with
  | .base route => some ["initial route: " ++ route.literal]
  | .step route neighbors time => do
    let earlier ← neighbors.mapM fun n => do
      let before ← time.predecessor?
      some ("neighbor " ++ n.1 ++ " route at time " ++ before.display ++ ": " ++ n.2.literal)
    some (("time: " ++ time.display) :: earlier
      ++ ["merged route at " ++ s.node.display ++ ": " ++ route.literal])
  | .safety route time => some ["time: " ++ time.display, "route: " ++ route.literal]
  | .monolithic routes => some (routes.map fun r => r.1 ++ " route: " ++ r.2.literal)

/-- The line on the check and the node. -/
def headLine (s : State) : String :=
  let place := match s.node with
    | .null => ""
    | n => " at node " ++ n.display
  s.kind.title ++ " check failed" ++ place ++ "."

/-- The lines on the symbolic values, if there are any. -/
def symbolicLines (s : State) : List String :=
  if s.symbolics.isEmpty then []
  else "symbolics:" :: s.symbolics.map fun x => "  " ++ x.1 ++ " = " ++ x.2.literal

/-- The report of a counterexample, line by line. -/
def format? (s : State) : Option String := do
  some ("\n".intercalate (s.headLine :: (← s.lines?) ++ s.symbolicLines))

/-- Of two results the first counterexample is kept. -/
def firstOf (current candidate : Option State) : Option State :=
  match current with
  | some s => some s
  | none => candidate

end State

end RouteInvariants
