import RouteInvariants.Route.Term

/-!
Decision trees: a term split by Boolean atoms into cases, each with a term of its own. On the way to
a case the atoms taken so far are facts, and a theory says which further atoms they decide.
-/

namespace RouteInvariants

/-- Atoms with the truth values assumed for them. -/
abbrev Facts := List (Term × Bool)

/-- Decides an atom from facts, where it can. -/
abbrev Theory := Facts → Term → Option Bool

inductive Tree where
  | leaf (t : Term)
  | node (atom : Term) (yes no : Tree)
deriving DecidableEq, Inhabited

namespace Tree

/-- A case split, unless both cases are the same. -/
def join (atom : Term) (yes no : Tree) : Tree := if yes = no then yes else node atom yes no

/-- Splits by an atom that the facts do not decide. -/
def branch (T : Theory) (F : Facts) (atom : Term) (yes no : Facts → Tree) : Tree :=
  match T F atom with
  | some true => yes F
  | some false => no F
  | none => join atom (yes ((atom, true) :: F)) (no ((atom, false) :: F))

/-- Splits by a Boolean term, which may be a constant. -/
def test (T : Theory) (F : Facts) (c : Term) (yes no : Facts → Tree) : Tree :=
  if c = .tt then yes F else if c = .ff then no F else branch T F c yes no

/-- Continues each case of a tree; the cases that the facts exclude are dropped. -/
def bind (T : Theory) (k : Facts → Term → Tree) : Facts → Tree → Tree
  | F, leaf t => k F t
  | F, node a y n => branch T F a (fun G => bind T k G y) (fun G => bind T k G n)

/-- The tree without the cases that the facts exclude. -/
def prune (T : Theory) (F : Facts) (t : Tree) : Tree := bind T (fun _ t => leaf t) F t

def bool (b : Bool) : Tree := leaf (.bool b)

/-- The truth of an atom. -/
def ofAtom (T : Theory) (F : Facts) (atom : Term) : Tree :=
  test T F atom (fun _ => bool true) (fun _ => bool false)

/-- The conjunction of conditions, each decided under the facts that the ones before left. -/
def all (T : Theory) : List (Facts → Tree) → Facts → Tree
  | [], _ => bool true
  | c :: cs, F => bind T (fun G t => test T G t (fun H => all T cs H) (fun _ => bool false)) F (c F)

/-- The tree as nested conditionals. -/
def toTerm : Tree → Term
  | leaf t => t
  | node a y n => .ite a y.toTerm n.toTerm

/-- The facts of every case whose term is true. -/
def cubes : Facts → Tree → List Facts
  | F, leaf t => if t = .tt then [F] else []
  | F, node a y n => cubes ((a, true) :: F) y ++ cubes ((a, false) :: F) n

/-- All cases with their facts. -/
def cases : Facts → Tree → List (Facts × Term)
  | F, leaf t => [(F, t)]
  | F, node a y n => cases ((a, true) :: F) y ++ cases ((a, false) :: F) n

end Tree

end RouteInvariants
