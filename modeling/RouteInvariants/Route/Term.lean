import RouteInvariants.Route.Value

/-!
Terms: the core language of routes, in which every operation is applied at sorts that fit. A term has
free variables, and positional arguments that `call` binds. Its meaning is given by `eval`, under an
assignment of values to the variables.
-/

namespace RouteInvariants

/-- What a query leaves open: declared symbolic values, routes of nodes, and the time. -/
inductive Variable where
  | symbolic (name : String) (ty : Ty)
  | route (name : String) (ty : Ty)
  | time
deriving DecidableEq, Inhabited

def Variable.ty : Variable → Ty
  | symbolic _ t => t
  | route _ t => t
  | time => .int

def Variable.name : Variable → String
  | symbolic n _ => n
  | route n _ => n
  | time => "time"

/-- `con` and `app` build a value of a data sort, argument by argument; `isCon i` tests for
constructor `i`; `field owner i j` reads field `j` of constructor `i` of the sort `owner`. -/
inductive Term where
  | const (v : Value)
  | var (x : Variable)
  | arg (i : Nat)
  | call (body a : Term)
  | call2 (body a b : Term)
  | ite (c a b : Term)
  | not (a : Term)
  | and (a b : Term)
  | or (a b : Term)
  | eq (a b : Term)
  | le (a b : Term)
  | add (a b : Term)
  | sub (a b : Term)
  | toReal (a : Term)
  | con (index : Nat)
  | app (f a : Term)
  | isCon (index : Nat) (a : Term)
  | field (owner : Ty) (index place : Nat) (a : Term)
deriving DecidableEq, Inhabited

/-- Values for the variables, and for reading a field of a constructor that the value does not
have: such a field is some value that depends on nothing else. -/
structure Assignment where
  value : Variable → Value
  absent : Ty → Nat → Nat → Value → Value

namespace Term

def bool (b : Bool) : Term := const (.bool b)

def int (n : Int) : Term := const (.int n)

def tt : Term := bool true

def ff : Term := bool false

/-- The meaning of a term. Only the branch that a condition selects is evaluated. -/
def eval (σ : Assignment) (args : List Value) : Term → Value
  | const v => v
  | var x => σ.value x
  | arg i => args[i]?.getD default
  | call body a => body.eval σ [a.eval σ args]
  | call2 body a b => body.eval σ [a.eval σ args, b.eval σ args]
  | ite c a b => if (c.eval σ args).isTrue then a.eval σ args else b.eval σ args
  | not a => .bool (!(a.eval σ args).isTrue)
  | and a b => .bool ((a.eval σ args).isTrue && (b.eval σ args).isTrue)
  | or a b => .bool ((a.eval σ args).isTrue || (b.eval σ args).isTrue)
  | eq a b => .bool (decide (a.eval σ args = b.eval σ args))
  | le a b => .bool ((a.eval σ args).le (b.eval σ args))
  | add a b => (a.eval σ args).add (b.eval σ args)
  | sub a b => (a.eval σ args).sub (b.eval σ args)
  | toReal a => (a.eval σ args).toReal
  | con i => .con i
  | app f a => .app (f.eval σ args) (a.eval σ args)
  | isCon i a => .bool (decide ((a.eval σ args).head? = some i))
  | field owner i j a =>
    let v := a.eval σ args
    if v.head? = some i then v.args[j]?.getD default else σ.absent owner i j v

/-- Whether a closed Boolean term holds under an assignment. -/
def holds (σ : Assignment) (t : Term) : Prop := t.eval σ [] = .bool true

def conj : List Term → Term
  | [] => tt
  | [t] => t
  | t :: ts => and t (conj ts)

def disj : List Term → Term
  | [] => ff
  | [t] => t
  | t :: ts => or t (disj ts)

/-- Reads a constructed term as a constructor and its arguments. -/
def spine? : Term → Option (Nat × List Term)
  | const v => v.head?.map fun i => (i, v.args.map const)
  | con i => some (i, [])
  | app f a => f.spine?.map fun s => (s.1, s.2 ++ [a])
  | _ => none

end Term

end RouteInvariants
