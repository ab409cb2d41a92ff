import RouteInvariants.Failure

/-!
Errors as their catcher sees them: the text and the fields of an error that was built from arbitrary
arguments.
-/

namespace RouteInvariants

inductive ErrorKind where
  | general | topology | settings | definition | solver | law
deriving DecidableEq, Inhabited

/-- The kinds by name; all other names are those of general errors. -/
def ErrorKind.named : List (String × ErrorKind) :=
  [("TopologyError", topology), ("ConfigError", settings), ("NetworkDefinitionError", definition),
    ("SolverError", solver), ("MergeLawViolation", law)]

/-- The parameters of a kind, with the values of those that may be left out; a kind without a list
takes any number of unnamed arguments. -/
def ErrorKind.parameters? : ErrorKind → Option (List (String × Option Datum))
  | definition => some [("message", none), ("missing", some .null), ("extra", some .null)]
  | solver => some [("reason", none), ("node", some .null), ("check", some .null)]
  | law => some [("law", none), ("left", none), ("right", none)]
  | _ => none

/-- Gives each parameter its argument, first those without a name, then by name. -/
def bindArguments : List (String × Option Datum) → List Datum → Named → Option Named
  | [], [], [] => some []
  | [], _, _ => none
  | p :: ps, x :: xs, named =>
    if (Entries.get? named p.1).isSome then none
    else (bindArguments ps xs named).map ((p.1, x) :: ·)
  | p :: ps, [], named => do
    let x ← (Entries.get? named p.1).or p.2
    (bindArguments ps [] (named.filter fun e => e.1 != p.1)).map ((p.1, x) :: ·)

structure Diagnostic where
  kind : ErrorKind
  arguments : List Datum
deriving Inhabited

namespace Diagnostic

def build? (kind : ErrorKind) (given : List Datum) (named : Named) : Option Diagnostic :=
  match kind.parameters? with
  | some ps => (bindArguments ps given named).map fun bound => ⟨kind, bound.map Prod.snd⟩
  | none => if named.isEmpty then some ⟨kind, given⟩ else none

/-- Keys that were not given are no keys. -/
def keysOf (d : Datum) : Datum := if d.truthy then d else .list []

def text (d : Diagnostic) : String :=
  match d.kind, d.arguments with
  | .definition, [message, missing, extra] => withKeys message.display missing extra
  | .solver, [reason, node, check] =>
    let shown : Datum → Option String
      | .null => none
      | x => some x.display
    (SolverError.mk reason.display (shown node) (shown check)).message
  | .law, [law, left, right] =>
    "merge is not " ++ law.display ++ ": " ++ left.display ++ " != " ++ right.display
  | _, [] => ""
  | _, [x] => x.display
  | _, xs => (Datum.tuple xs).literal

/-- The fields in the order of their names. -/
def fields (d : Diagnostic) : Named :=
  match d.kind, d.arguments with
  | .definition, [_, missing, extra] => [("extra", keysOf extra), ("missing", keysOf missing)]
  | .solver, [reason, node, check] => [("check", check), ("node", node), ("reason", reason)]
  | .law, [law, left, right] => [("law", law), ("left", left), ("right", right)]
  | _, _ => []

end Diagnostic

end RouteInvariants
