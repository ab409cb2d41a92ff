import RouteInvariants.Route.Functions

/-!
Symbolic values: named unknowns, each with a predicate that restricts its legal values. The
conjunction of the restrictions scopes every query about a network.
-/

namespace RouteInvariants

structure Symbolic where
  name : String
  ty : Ty
  restriction : Option Predicate
deriving Inhabited

namespace Symbolic

def unknown (s : Symbolic) : Variable := .symbolic s.name s.ty

def expr (s : Symbolic) : Expr := .symbolic s.name s.ty

/-- The restriction of the value itself. -/
def constraint (s : Symbolic) : Expr :=
  match s.restriction with
  | some p => p.apply s.expr
  | none => .bool true

/-- The equation of the value with an operand. -/
def assigned (s : Symbolic) (o : Operand) : Expr := .compareTo .eq s.expr o

def equalsValue (s : Symbolic) (o : Operand) : Expr :=
  .compare .eq s.expr (.lifted (some s.ty) o)

def differsFromValue (s : Symbolic) (o : Operand) : Expr :=
  .compare .ne s.expr (.lifted (some s.ty) o)

def describe (s : Symbolic) : String :=
  "SymbolicValue(" ++ Text.quoted s.name ++ ", " ++ s.ty.display ++ ")"

/-- A time that is not negative and, if told so, strictly after another one. -/
def time (name : String) (after : Option Symbolic) : Symbolic :=
  let positive : Expr := .compareWith .ge (.arg 0) (.int 0)
  { name
    ty := .int
    restriction := some (match after with
      | none => ⟨positive⟩
      | some s => ⟨.and positive (.compare .gt (.arg 0) s.expr)⟩) }

/-- Times numbered from `start`, each strictly after the one before. -/
def timesAfter (stem : String) : Nat → Nat → Option Symbolic → List Symbolic
  | 0, _, _ => []
  | count + 1, start, last =>
    let t := time (stem ++ "-" ++ toString start) last
    t :: timesAfter stem count (start + 1) (some t)

/-- `count` times in increasing order. -/
def ascendingTimes (count : Nat) (stem : String) : List Symbolic := timesAfter stem count 0 none

/-- A text that is the name of one of the nodes. -/
def destination (t : Topology) (name : String) : Symbolic :=
  { name
    ty := .text
    restriction := some ⟨.disj (t.nodes.map fun n => .compare .eq (.arg 0) (.text n))⟩ }

/-- The conjunction of all restrictions. -/
def constraints (ss : List Symbolic) : Expr := .conj (ss.map constraint)

end Symbolic

end RouteInvariants
