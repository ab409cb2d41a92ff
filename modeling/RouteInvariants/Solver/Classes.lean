import RouteInvariants.Decision.Unfold

/-!
Equality classes. Sorts such as texts have as many values as one likes, so equalities between
unknowns and constants are decided by their classes alone: two unknowns are equal when they are in
one class, and different when the classes hold different constants or are stated to differ.
-/

namespace RouteInvariants

abbrev Classes := List (List Term)

namespace Classes

def find (cs : Classes) (t : Term) : List Term := (cs.find? fun c => c.contains t).getD [t]

def merge (cs : Classes) (a b : Term) : Classes :=
  let x := cs.find a
  let y := cs.find b
  if x.contains b then x :: cs.filter (· != x)
  else (x ++ y) :: cs.filter fun c => c != x && c != y

/-- The classes of the equalities among the facts. -/
def ofFacts (F : Facts) : Classes :=
  F.foldl (fun cs f => match f with
    | (.eq a b, true) => cs.merge a b
    | _ => cs) []

def constant? (c : List Term) : Option Value :=
  c.findSome? fun t => match t with
    | .const v => some v
    | _ => none

/-- Whether the facts say that members of the two classes differ. -/
def apart (F : Facts) (x y : List Term) : Bool :=
  F.any fun f => match f with
    | (.eq a b, false) => (x.contains a && y.contains b) || (x.contains b && y.contains a)
    | _ => false

def decide? (F : Facts) (a b : Term) : Option Bool :=
  let cs := ofFacts F
  let x := cs.find a
  let y := cs.find b
  if x.contains b then some true
  else if (match constant? x, constant? y with
    | some v, some w => v != w
    | _, _ => false) then some false
  else if apart F x y then some false
  else none

/-- The one value that the facts leave for an unknown. -/
def forced? (F : Facts) (t : Term) : Option Value := constant? ((ofFacts F).find t)

end Classes

end RouteInvariants
