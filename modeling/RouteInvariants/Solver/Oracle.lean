import RouteInvariants.Route.Elaborate
import RouteInvariants.Solver.Query

/-!
Oracles answer queries. A satisfied query comes with a model, which tells what it can say about the
value of any term: the oracle of this library reports the value that a term has in all solutions with
the least time, and a star for one that is left open.
-/

namespace RouteInvariants

/-- What is known about the solutions of a query. -/
structure Model where
  observe : Typed → Datum
  time : Int

/-- The model that one assignment is. -/
def Model.ofAssignment (σ : Assignment) : Model where
  observe x := (x.term.eval σ []).toDatum x.ty
  time := match σ.value .time with
    | .int t => t
    | _ => 0

inductive Answer where
  | unsat
  | sat (m : Model)
  | unknown (reason : String)

/-- An oracle answers a query; it is also told how many queries it was asked before. -/
abbrev Oracle := Nat → Term → Answer

/-- What all solutions of a query agree on. -/
inductive Observation where
  | noSolution
  | value (d : Datum)
deriving Inhabited

namespace Solver

/-- A value that is not the same in all solutions is shown as a star. -/
def open_ : Datum := .text "*"

def observeIn (cs : List Facts) (x : Typed) : Datum :=
  match forced? cs x.term with
  | some v => v.toDatum x.ty
  | none => open_

def modelOf (q : Term) (cs : List Facts) : Model :=
  let first := earliest q cs
  { observe := observeIn first
    time := (leastTime? first).getD 0 }

/-- The decision procedure of this library as an oracle. -/
def oracle : Oracle := fun _ q =>
  let cs := cubes q
  if cs.isEmpty then .unsat else .sat (modelOf q cs)

/-- What the solutions in the cubes agree on. -/
def observation (cs : List Facts) (x : Typed) : Observation :=
  if cs.isEmpty then .noSolution else .value (observeIn cs x)

end Solver

namespace Oracle

/-- The oracle that gives up after `count` queries. -/
def limited (o : Oracle) (count : Nat) (reason : String) : Oracle := fun asked q =>
  if asked < count then o asked q else .unknown reason

end Oracle

/-- How an oracle with a time limit is described. -/
def oracleText (timeout : Datum) : String := "Oracle(timeout_ms=" ++ timeout.literal ++ ")"

end RouteInvariants
