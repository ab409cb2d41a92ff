import RouteInvariants.Route.Formula
import RouteInvariants.Solver.Oracle
import RouteInvariants.Verify.Session
import RouteInvariants.Verify.State

/-!
Proof obligations and their discharge. An obligation is a query that refutes a check when it has a
solution. With one worker obligations are solved in the order given; a pool solves them all and takes
the results as they arrive. Either way the first counterexample is kept.
-/

namespace RouteInvariants

structure Obligation where
  node : Option String
  kind : CheckKind
  query : Term
  witness : Model → State

def Obligation.describe (o : Obligation) : String :=
  match o.node with
  | none => o.kind.display ++ " check"
  | some n => o.kind.display ++ " check at " ++ n

/-- How checks are run. -/
structure CheckSettings where
  workers : Int
  printFormulas : Bool
  checkMergeLaws : Bool
  mergeLawExamples : Int
deriving DecidableEq, Inhabited

/-- The order in which the results of a pool arrive: any order of the list. -/
structure Arrival where
  arrange : {α : Type} → List α → List α
  perm : ∀ {α : Type} (l : List α), (arrange l).Perm l

/-- Results arrive in the order in which the work was given out. -/
def Arrival.inOrder : Arrival := ⟨fun l => l, fun l => List.Perm.refl l⟩

namespace Obligation

/-- Asks the oracle; an unknown answer is an error that names the check. -/
def ask (oracle : Oracle) (o : Obligation) : Run Failure (Option Model) := do
  let s ← get
  set { s with asked := s.asked + 1 }
  match oracle s.asked o.query with
  | .unsat => return none
  | .sat m => return some m
  | .unknown reason => throw (.solver ⟨reason, o.node, some o.kind.display⟩)

/-- Logs the verdict and builds the counterexample. -/
def conclude (o : Obligation) (result : Option Model) : Run Failure (Option State) := do
  match result with
  | none =>
    Run.verbose (o.describe ++ ": passed") o.kind.display
    return none
  | some m =>
    Run.verbose (o.describe ++ ": counterexample found") o.kind.display
    return some (o.witness m)

def logFormulas (settings : CheckSettings) (os : List Obligation) : Run Failure Unit :=
  if settings.printFormulas then
    os.forM fun o => Run.journal fun j =>
      j.log .normal (o.describe ++ ": " ++ o.query.formula) "formula" []
  else pure ()

/-- Solves the obligations one after the other. -/
def inTurn (oracle : Oracle) (os : List Obligation) : Run Failure (Option State) :=
  os.foldlM (fun found o => do
    let r ← o.ask oracle
    return State.firstOf found (← o.conclude r)) none

/-- A task of the pool runs to its end, and its error waits until the result is fetched. -/
def attempt {α : Type} (task : Run Failure α) : Run Failure (Except Failure α) :=
  ExceptT.lift task.run

def fetch {α : Type} (r : Except Failure α) : Run Failure α :=
  match r with
  | .ok a => pure a
  | .error e => throw e

/-- Solves the obligations in a pool. -/
def pooled (oracle : Oracle) (arrival : Arrival) (os : List Obligation) :
    Run Failure (Option State) := do
  let results ← os.mapM fun o => do return (o, ← attempt (o.ask oracle))
  (arrival.arrange results).foldlM (fun found r => do
    let m ← fetch r.2
    return State.firstOf found (← r.1.conclude m)) none

/-- Solves all obligations and returns the first counterexample, if there is one. -/
def discharge (oracle : Oracle) (arrival : Arrival) (settings : CheckSettings)
    (os : List Obligation) : Run Failure (Option State) := do
  logFormulas settings os
  if settings.workers ≤ 1 || os.length ≤ 1 then inTurn oracle os
  else pooled oracle arrival os

/-! ### Chains -/

/-- Solves a chain up to its first counterexample; the last obligation asked is returned with its
answer. -/
def solveChain (oracle : Oracle) : List Obligation → Run Failure (Option (Obligation × Option Model))
  | [] => return none
  | o :: os => do
    let r ← o.ask oracle
    if r.isSome || os.isEmpty then return some (o, r) else solveChain oracle os

def concludeChain (outcome : Option (Obligation × Option Model)) : Run Failure (Option State) :=
  match outcome with
  | none => pure none
  | some (o, r) => o.conclude r

/-- Solves chains that are independent of each other, each up to its first counterexample. -/
def dischargeChains (oracle : Oracle) (arrival : Arrival) (settings : CheckSettings)
    (chains : List (String × List Obligation)) : Run Failure (List (String × Option State)) := do
  logFormulas settings (chains.flatMap Prod.snd)
  if settings.workers ≤ 1 || chains.length ≤ 1 then
    chains.mapM fun c => do
      let outcome ← solveChain oracle c.2
      return (c.1, ← concludeChain outcome)
  else
    let results ← chains.mapM fun c => do return (c.1, ← attempt (solveChain oracle c.2))
    let arrived ← (arrival.arrange results).mapM fun r => do
      return (r.1, ← concludeChain (← fetch r.2))
    return chains.map fun c => (c.1, (Entries.get? arrived c.1).getD none)

end Obligation

end RouteInvariants
