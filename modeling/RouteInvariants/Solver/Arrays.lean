import RouteInvariants.Solver.Classes

/-!
Equations of arrays. Nothing is known of an array but which others it equals, so equations are decided
by classes. Where a sort has fewer arrays than there are classes, some of them have to share one.
-/

namespace RouteInvariants.Arrays

/-- The sort of the arrays that an atom compares. -/
def sort? : Term → Option Ty
  | .eq a b => match (Term.add a b).sort? with
    | some (.array i e) => some (.array i e)
    | _ => none
  | _ => none

def members : Term → List Term
  | .eq a b => [a, b]
  | _ => []

/-- The classes of the arrays that facts mention. -/
def classes (F : Facts) : Classes :=
  F.foldl (fun cs f => match f with
    | (.eq a b, true) => cs.merge a b
    | _ => cs) ((F.flatMap fun f => members f.1).eraseDups.map ([·]))

/-- Whether the classes can have one of `count` arrays each, such that two that differ do not share
one; `given` are the arrays that other classes have. -/
def separable (F : Facts) (count : Nat) : Classes → List (Nat × List Term) → Bool
  | [], _ => true
  | c :: cs, given => (List.range (min count (given.length + 1))).any fun k =>
    given.all (fun g => g.1 != k || !Classes.apart F g.2 c)
      && separable F count cs ((k, c) :: given)

/-- Whether facts about arrays of sort `t` can all be true. -/
def consistent (t : Ty) (F : Facts) : Bool :=
  let cs := classes F
  cs.all (fun c => !Classes.apart F c c) && separable F (t.countUpTo cs.length) cs []

/-- Decides an equation between arrays of sort `t` from others. -/
def decide? (F : Facts) (t : Ty) (atom : Term) : Option Bool :=
  let G := F.filter fun f => decide (sort? f.1 = some t)
  if !consistent t ((atom, true) :: G) then some false
  else if !consistent t ((atom, false) :: G) then some true
  else none

end RouteInvariants.Arrays
