import RouteInvariants.Solver.Classes

/-!
Equations of recursive data. Equal values have equal constructors and equal fields, and no value is a
part of itself; so equations are decided by classes that are closed under fields.
-/

namespace RouteInvariants.Shapes

def isRecursive (t : Term) : Bool :=
  match t.sort? with
  | some (.data _ cs) => cs.recursive
  | _ => false

/-- Whether an atom is about recursive data. -/
def isAtom : Term → Bool
  | .eq a b => isRecursive a || isRecursive b
  | .isCon _ a => isRecursive a
  | _ => false

/-- A term and the terms from which it is read, one field after the other. -/
def chain : Term → List Term
  | .field owner i j a => .field owner i j a :: chain a
  | t => [t]

/-- The terms of recursive sorts that atoms about recursive data mention. -/
def members (F : Facts) : List Term :=
  ((F.flatMap fun f => match f.1 with
    | .eq a b => chain a ++ chain b
    | .isCon _ a => chain a
    | _ => []).filter isRecursive).eraseDups

/-- Whether two terms are the same field of members of one class. -/
def sameField (cs : Classes) : Term → Term → Bool
  | .field owner i j a, .field owner' i' j' b =>
    owner = owner' && i = i' && j = j' && (cs.find a).contains b
  | _, _ => false

/-- Merges the classes of equal fields; `fuel` bounds the merges. -/
def close (terms : List Term) : Nat → Classes → Classes
  | 0, cs => cs
  | fuel + 1, cs =>
    let pairs := terms.flatMap fun a => terms.map fun b => (a, b)
    match pairs.find? fun p => sameField cs p.1 p.2 && !(cs.find p.1).contains p.2 with
    | some p => close terms fuel (cs.merge p.1 p.2)
    | none => cs

/-- The classes of the equations among the facts. -/
def classes (terms : List Term) (F : Facts) : Classes :=
  close terms terms.length (F.foldl (fun cs f => match f with
    | (.eq a b, true) => cs.merge a b
    | _ => cs) (terms.map ([·])))

/-- The constructors that the facts leave for the members of a class. -/
def ctors (F : Facts) (c : List Term) : List Nat :=
  let count := ((c.head?.bind Term.sort?).map fun t => t.ctors.length).getD 0
  (List.range count).filter fun i => F.all fun f => match f with
    | (.isCon j a, truth) => !c.contains a || (i == j) == truth
    | _ => true

/-- The classes of the fields of a class, if its constructor is the one that they are read from. -/
def parts (terms : List Term) (cs : Classes) (F : Facts) (c : List Term) : List (List Term) :=
  terms.filterMap fun t => match t with
    | .field _ i _ a => if c.contains a && ctors F c == [i] then some (cs.find t) else none
    | _ => none

/-- Whether a class is among others or among their parts; `fuel` bounds the nesting. -/
def isWithin (terms : List Term) (cs : Classes) (F : Facts) (c : List Term) :
    Nat → List (List Term) → Bool
  | 0, _ => false
  | fuel + 1, others =>
    others.contains c
      || isWithin terms cs F c fuel (others.flatMap (parts terms cs F)).eraseDups

/-- Whether facts about recursive data can all be true. -/
def consistent (F : Facts) : Bool :=
  let terms := members F
  let cs := classes terms F
  cs.all (fun c => !(ctors F c).isEmpty
      && !isWithin terms cs F c (cs.length + 1) (parts terms cs F c))
    && F.all fun f => match f with
      | (.eq a b, false) => !(cs.find a).contains b
      | _ => true

/-- Decides an atom about recursive data from others. -/
def decide? (F : Facts) (atom : Term) : Option Bool :=
  let G := F.filter fun f => isAtom f.1
  if !consistent ((atom, true) :: G) then some false
  else if !consistent ((atom, false) :: G) then some true
  else none

end RouteInvariants.Shapes
