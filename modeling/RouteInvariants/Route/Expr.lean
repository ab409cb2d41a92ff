import RouteInvariants.Topology.Basic
import RouteInvariants.Route.SortError
import RouteInvariants.Route.Term

/-!
Expressions: the language in which networks are written. An expression says what to compute and not
at which sorts: constants are plain data, and operations take the sorts that their operands turn out
to have. `Expr.elaborate` (in another module) gives an expression its term, or says why it has none.
-/

namespace RouteInvariants

inductive Comparison where
  | eq | ne | le | lt | ge | gt
deriving DecidableEq, Inhabited

/-- The comparisons by name. -/
def Comparison.named : List (String × Comparison) :=
  [("eq", eq), ("ne", ne), ("le", le), ("lt", lt), ("ge", ge), ("gt", gt)]

/-- `symbolic` is a symbolic value; the other unknowns of a query do not occur in expressions. `arg i`
is the `i`-th argument of the enclosing `call`. `lift` turns plain data into a constant,
at the hinted sort if there is a choice, and `liftLike` takes the hint from another expression.
`make` builds a value of a given sort and `makeLike` one of another expression's sort. `boolean` is a
Boolean term even if the expression is a plain truth value, and `asTerm` is the expression with a
plain truth value made Boolean. `undefined` has no term. -/
inductive Expr where
  | const (v : Value) (ty : Ty)
  | lift (d : Datum) (hint : Option Ty)
  | liftLike (d : Datum) (like : Expr)
  | symbolic (name : String) (ty : Ty)
  | arg (i : Nat)
  | call (body a : Expr)
  | call2 (body a b : Expr)
  | present (e : Expr)
  | make (ty : Ty) (index : Nat) (args : List Expr)
  | makeLike (like : Expr) (index : Nat) (args : List Expr)
  | isCon (index : Nat) (e : Expr)
  | field (index place : Nat) (e : Expr)
  | ite (c a b : Expr)
  | add (a b : Expr)
  | sub (a b : Expr)
  | addInt (a : Expr) (k : Int)
  | compare (op : Comparison) (a b : Expr)
  | compareWith (op : Comparison) (a : Expr) (d : Datum)
  | not (a : Expr)
  | and (a b : Expr)
  | or (a b : Expr)
  | xor (a b : Expr)
  | implies (a b : Expr)
  | boolean (a : Expr)
  | asTerm (a : Expr)
  | undefined (e : SortError)
deriving Inhabited

/-- A second operand: plain data that adapts to the first one's sort, or an expression. -/
inductive Operand where
  | datum (d : Datum)
  | expr (e : Expr)
deriving Inhabited

namespace Expr

def bool (b : Bool) : Expr := const (.bool b) .bool

def int (n : Int) : Expr := const (.int n) .int

def bits (width : Nat) (n : Int) : Expr := const (.bitsOfInt width n) (.bits width)

def text (s : String) : Expr := const (.ofString s) .text

def unit : Expr := const (.con 0) .unit

def edge (e : Edge) : Expr := const (.edge e.source e.target) .edge

/-- The absent value of an option sort, or of the option over another sort. -/
def absent (t : Ty) : Expr := make (if t.isOption then t else .option t) 0 []

def conj : List Expr → Expr
  | [] => bool true
  | [e] => boolean e
  | e :: es => and e (conj es)

def disj : List Expr → Expr
  | [] => bool false
  | [e] => boolean e
  | e :: es => or e (disj es)

/-- The expression made from a part, where the part may be in error. -/
def orUndefined {α : Type} (r : Except SortError α) (make : α → Expr) : Expr :=
  match r with
  | .ok a => make a
  | .error e => undefined e

def compareTo (op : Comparison) (a : Expr) : Operand → Expr
  | .datum d => compareWith op a d
  | .expr e => compare op a e

def lifted (hint : Option Ty) : Operand → Expr
  | .datum d => lift d hint
  | .expr e => asTerm e

/-- The operand as a value of the sort of `a`. -/
def liftedLike (a : Expr) : Operand → Expr
  | .datum d => liftLike d a
  | .expr e => asTerm e

end Expr

end RouteInvariants
