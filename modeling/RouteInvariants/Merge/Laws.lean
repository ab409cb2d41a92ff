import RouteInvariants.Merge.Strategy
import RouteInvariants.Route.Functions
import RouteInvariants.Solver.Query

/-!
The laws that a merge is meant to obey: idempotence, commutativity and associativity. They are tested
on small values of the route sort, simple ones first; a law fails where its two sides do not simplify
to one value. What small values do not show is asked of the solver, as far as it knows all values.
-/

namespace RouteInvariants

/-- How deep recursive constructors are nested in sample routes. -/
def sampleDepth : Int := 3

namespace Merge

variable (m : Merge)

/-- The two sides of a law over argument 0, 1 and 2 of one sort, as an equation. -/
def law (kind : MergeLaw) (a b c : Expr) : Expr :=
  match kind with
  | .idempotent => .compare .eq (m.apply a a) a
  | .commutative => .compare .eq (m.apply a b) (m.apply b a)
  | .associative => .compare .eq (m.apply (m.apply a b) c) (m.apply a (m.apply b c))

/-- Whether an equation between constants simplifies to true. -/
def holdsOn (t : Term) (values : List Value) : Bool :=
  t.unfold Facts.decide [] (values.map fun v => .leaf (.const v)) == .leaf .tt

def laws : List MergeLaw := [.idempotent, .commutative, .associative]

/-- The laws as equations over three arguments of sort `ty`. -/
def equations (ty : Ty) : Except SortError (List (MergeLaw × Term)) :=
  laws.mapM fun l => do
    return (l, (← (m.law l (.arg 0) (.arg 1) (.arg 2)).elaborate [ty, ty, ty]).term)

/-- The first law that fails on the given values. -/
def brokenOn? (es : List (MergeLaw × Term)) (values : List Value) : Option MergeLaw :=
  (es.find? fun e => !holdsOn e.2 values).map Prod.fst

/-- The first law that fails on some of the values. -/
def brokenAmong? (es : List (MergeLaw × Term)) (values : List Value) : Option MergeLaw :=
  values.findSome? fun a => values.findSome? fun b => values.findSome? fun c =>
    brokenOn? es [a, b, c]

/-- The first law that fails on values that may be drawn, found by solving for them. -/
def brokenBySolving? (es : List (MergeLaw × Term)) (ty : Ty) (strategy : Strategy) :
    Option MergeLaw := do
  if ty.hasRecursion then none
  let unknowns := ["first", "second", "third"].map fun n => Term.var (.route n ty)
  let drawn ← unknowns.mapM fun x => strategy.drawn? ty x
  let violates (e : MergeLaw × Term) : Bool :=
    !(Solver.cubesOf unknowns (.and (.conj drawn) (.not e.2))).isEmpty
  (es.find? violates).map Prod.fst

/-- Fails with a law that the merge breaks, if it breaks one. A search through a single example looks
at the simplest one only. -/
def checkLaws (ty : Ty) (examples : Int) : Except Failure Unit := do
  let strategy ← (Strategy.ofTy sampleDepth ty).mapError Failure.sample
  if examples < 1 then throw .noExamples
  let es ← (m.equations ty).mapError Failure.sort
  let values := if examples = 1 then strategy.samples.take 1 else strategy.samples
  let broken := (brokenAmong? es values).or
    (if examples = 1 then none else brokenBySolving? es ty strategy)
  match broken with
  | some l => throw (.law l)
  | none => return ()

end Merge

end RouteInvariants
