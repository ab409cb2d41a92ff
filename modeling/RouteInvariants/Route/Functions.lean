import RouteInvariants.Route.Elaborate

/-!
Functions on routes: transfers along an edge, predicates, and merges of two routes. Each is an
expression over positional arguments, so it applies at whatever sort it is given.
-/

namespace RouteInvariants

/-- A function of one route. -/
structure Transfer where
  body : Expr
deriving Inhabited

/-- A condition on one route. -/
structure Predicate where
  body : Expr
deriving Inhabited

/-- A function of two routes. -/
structure Merge where
  body : Expr
deriving Inhabited

def Transfer.apply (f : Transfer) (e : Expr) : Expr := .call f.body e

def Predicate.apply (p : Predicate) (e : Expr) : Expr := .call p.body e

def Merge.apply (m : Merge) (a b : Expr) : Expr := .call2 m.body a b

/-! ### Parts of a route -/

namespace Expr

/-- Options are told apart by constructor index, whatever the constructors are called. -/
def isSome (e : Expr) : Expr := isCon 1 e

def isNone (e : Expr) : Expr := isCon 0 e

def payload (e : Expr) : Expr := field 1 0 e

end Expr

open RouteInvariants.Expr (isSome isNone payload)

/-! ### Transfers -/

namespace Transfer

def identity : Transfer := ⟨.arg 0⟩

def getValue : Transfer := ⟨payload (.arg 0)⟩

def incr (k : Int) : Transfer := ⟨.addInt (.arg 0) k⟩

/-- Applies `f` under an option. -/
def omap (f : Transfer) : Transfer :=
  ⟨.ite (isSome (.arg 0)) (.makeLike (.arg 0) 1 [f.apply (payload (.arg 0))]) (.arg 0)⟩

def const (e : Expr) : Transfer := ⟨e⟩

/-- The first function is applied first. -/
def compose (fs : List Transfer) : Transfer :=
  ⟨fs.foldl (fun e f => f.apply e) (.arg 0)⟩

def ite (p : Predicate) (f g : Transfer) : Transfer :=
  ⟨.ite (p.apply (.arg 0)) (f.apply (.arg 0)) (g.apply (.arg 0))⟩

def field (index place : Nat) : Transfer := ⟨.field index place (.arg 0)⟩

/-- Builds a value of the argument's sort, each field computed from the whole argument. -/
def build (index : Nat) (fs : List Transfer) : Transfer :=
  ⟨.makeLike (.arg 0) index (fs.map fun f => f.apply (.arg 0))⟩

/-- The transfers that have a name of their own in descriptions. -/
def named : List (String × Transfer) :=
  [("identity", identity), ("get_value", getValue), ("incr", incr 1)]

end Transfer

/-! ### Predicates -/

namespace Predicate

def isSome : Predicate := ⟨Expr.isSome (.arg 0)⟩

def isNone : Predicate := ⟨Expr.isNone (.arg 0)⟩

def always : Predicate := ⟨.bool true⟩

/-- `p` holds of the payload, if there is one. -/
def ifSome (p : Predicate) : Predicate :=
  ⟨.implies (Expr.isSome (.arg 0)) (p.apply (payload (.arg 0)))⟩

/-- There is a payload and `p` holds of it. -/
def hasValue (p : Predicate) : Predicate :=
  ⟨.and (Expr.isSome (.arg 0)) (p.apply (payload (.arg 0)))⟩

def negate (p : Predicate) : Predicate := ⟨.not (p.apply (.arg 0))⟩

def all (ps : List Predicate) : Predicate := ⟨.conj (ps.map fun p => p.apply (.arg 0))⟩

def any (ps : List Predicate) : Predicate := ⟨.disj (ps.map fun p => p.apply (.arg 0))⟩

def compare (op : Comparison) (o : Operand) : Predicate := ⟨.compareTo op (.arg 0) o⟩

def on (f : Transfer) (p : Predicate) : Predicate := ⟨p.apply (f.apply (.arg 0))⟩

def whenever (c : Expr) (p : Predicate) : Predicate := ⟨.implies c (p.apply (.arg 0))⟩

def ofBool (c : Expr) : Predicate := ⟨c⟩

/-- The predicates that have a name of their own in descriptions. -/
def named : List (String × Predicate) :=
  [("is_some", isSome), ("is_none", isNone), ("true", always)]

end Predicate

/-! ### Merges -/

namespace Merge

/-- The route with the smaller payload; an absent route loses to any other. -/
def minOption : Merge :=
  ⟨.ite (isNone (.arg 0)) (.arg 1)
    (.ite (isNone (.arg 1)) (.arg 0)
      (.ite (.compare .le (payload (.arg 0)) (payload (.arg 1))) (.arg 0) (.arg 1)))⟩

/-- The first route, unless it is absent. -/
def preferSome : Merge := ⟨.ite (isSome (.arg 0)) (.arg 0) (.arg 1)⟩

def first : Merge := ⟨.arg 0⟩

def second : Merge := ⟨.arg 1⟩

def min : Merge := ⟨.ite (.compare .le (.arg 0) (.arg 1)) (.arg 0) (.arg 1)⟩

def max : Merge := ⟨.ite (.compare .ge (.arg 0) (.arg 1)) (.arg 0) (.arg 1)⟩

def sum : Merge := ⟨.add (.arg 0) (.arg 1)⟩

def sub : Merge := ⟨.sub (.arg 0) (.arg 1)⟩

def and : Merge := ⟨.and (.arg 0) (.arg 1)⟩

def or : Merge := ⟨.or (.arg 0) (.arg 1)⟩

def xor : Merge := ⟨.xor (.arg 0) (.arg 1)⟩

/-- The route with the smaller rank, the first one on a tie. -/
def better (rank : Transfer) : Merge :=
  ⟨.ite (.compare .le (rank.apply (.arg 0)) (rank.apply (.arg 1))) (.arg 0) (.arg 1)⟩

/-- The first route if `p` holds of it. -/
def prefer (p : Predicate) : Merge := ⟨.ite (p.apply (.arg 0)) (.arg 0) (.arg 1)⟩

def const (e : Expr) : Merge := ⟨e⟩

/-- The second route where it is listed as the winner against the first. -/
def beats (pairs : List (Operand × Operand)) : Merge :=
  let wins := pairs.map fun p =>
    Expr.and (.compareTo .eq (.arg 0) p.2) (.compareTo .eq (.arg 1) p.1)
  ⟨.ite (.disj wins) (.arg 1) (.arg 0)⟩

/-- The merges that have a name of their own in descriptions. -/
def named : List (String × Merge) :=
  [("min_option", minOption), ("prefer_some", preferSome), ("first", first), ("second", second),
    ("min", min), ("max", max), ("sum", sum), ("sub", sub), ("and", and), ("or", or), ("xor", xor)]

end Merge

end RouteInvariants
