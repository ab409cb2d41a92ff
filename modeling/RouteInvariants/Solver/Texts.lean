import RouteInvariants.Solver.Classes
import RouteInvariants.Solver.Difference

/-!
Comparisons of texts. The empty text comes first, and right after a text comes the same text with the
least character at its end; between any other two texts there are as many as one likes. So a constant
is as good as a number, one more than that of its neighbour or much more, and the order of unknown
texts is decided like that of integers.
-/

namespace RouteInvariants.Texts

/-- Whether a term is an order comparison of texts. -/
def isOrder : Term → Bool
  | .le a b => (Term.add a b).sort? == some .text
  | _ => false

/-- Whether a term is a comparison of texts. -/
def isAtom : Term → Bool
  | .eq a b | .le a b => (Term.add a b).sort? == some .text
  | _ => false

def sides : Term → List Term
  | .eq a b | .le a b => [a, b]
  | _ => []

/-- The text right before a text, if there is one. -/
def predecessor? (cs : List CodePoint) : Option (List CodePoint) :=
  match cs.getLast? with
  | some c => if c.val = 0 then some cs.dropLast else none
  | none => none

/-- A text and the texts right before it, one after the other; `fuel` bounds how many. -/
def descent : Nat → List CodePoint → List Value
  | 0, cs => [.text cs]
  | fuel + 1, cs => .text cs :: ((predecessor? cs).map (descent fuel)).getD []

/-- The constants in the atoms, the texts right before them and the empty text, in order. -/
def constants (atoms : List Term) : List Value :=
  let found := atoms.flatMap fun a => (sides a).flatMap fun t => match t with
    | .const (.text cs) => descent cs.length cs
    | _ => []
  (Value.text [] :: found).eraseDups.mergeSort Value.le

/-- How many places a text is after another one; `room` stands for as many as one likes. -/
def gap (room : Nat) : Value → Value → Nat
  | .text a, .text b => if predecessor? b = some a then 1 else room
  | _, _ => room

/-- The constants with their places. -/
abbrev Places := List (Value × Nat)

/-- The places of constants in order, the first of them at `n`. -/
def placesFrom (room n : Nat) : List Value → Places
  | [] => []
  | [v] => [(v, n)]
  | v :: w :: rest => (v, n) :: placesFrom room (n + gap room v w) (w :: rest)

/-- The places of the constants in the atoms, with more room than a chain of unknowns can fill. -/
def places (atoms : List Term) : Places :=
  placesFrom (2 * atoms.length + 2) 0 (constants atoms)

/-- A text as an unknown and an offset from it. -/
def place (ps : Places) : Term → Option Term × Rat
  | .const v => (none, (Entries.get? ps v).getD 0)
  | t => (some t, 0)

/-- The bound for `a ≤ b` or, if strict, for `a < b`. -/
def below (ps : Places) (a b : Term) (strict : Bool) : Bound :=
  let (u, m) := place ps a
  let (w, n) := place ps b
  ⟨u, w, ⟨if strict then n - m - 1 else n - m, 0⟩⟩

def boundsOf (ps : Places) : Term × Bool → List Bound
  | (.le a b, true) => [below ps a b false]
  | (.le a b, false) => [below ps b a true]
  | (.eq a b, true) => [below ps a b false, below ps b a false]
  | _ => []

/-- Texts that differ and are ordered are strictly ordered. -/
def strengthen (ps : Places) (F : Facts) (bs : List Bound) : List Bound :=
  F.foldl (fun bs f => match f with
    | (.eq a b, false) =>
      if Bound.entails bs (below ps a b false) then below ps a b true :: bs
      else if Bound.entails bs (below ps b a false) then below ps b a true :: bs
      else bs
    | _ => bs) bs

/-- The bounds of all comparisons, and that no text comes before the empty one. -/
def bounds (ps : Places) (F : Facts) (atoms : List Term) : List Bound :=
  let unknowns := (atoms.flatMap sides).filter fun t => (place ps t).1.isSome
  let bs := F.flatMap (boundsOf ps) ++ unknowns.eraseDups.map fun u => ⟨none, some u, Limit.zero⟩
  F.foldl (fun bs f => if f.2 then bs else strengthen ps F bs) bs

/-- Whether the bounds make two texts equal. -/
def same (ps : Places) (bs : List Bound) (a b : Term) : Bool :=
  a = b || (Bound.entails bs (below ps a b false) && Bound.entails bs (below ps b a false))

/-- Whether the facts say of two texts that they differ. -/
def differ (ps : Places) (bs : List Bound) (F : Facts) (a b : Term) : Bool :=
  F.any fun f => match f with
    | (.eq x y, false) => (same ps bs a x && same ps bs b y) || (same ps bs a y && same ps bs b x)
    | _ => false

/-- Whether comparisons of texts can all be as the facts say. -/
def consistent (F : Facts) : Bool :=
  let atoms := F.map Prod.fst
  let ps := places atoms
  let bs := bounds ps F atoms
  Bound.feasible bs && F.all fun f => match f with
    | (.eq a b, false) => !same ps bs a b
    | _ => true

/-- Decides a comparison of texts from facts among which there may be order comparisons. -/
def decide? (F : Facts) (atom : Term) : Option Bool :=
  let atoms := atom :: F.map Prod.fst
  let ps := places atoms
  let bs := bounds ps F atoms
  let apart (a b : Term) : Bool := differ ps bs F a b
  match atom with
  | .eq a b =>
    if same ps bs a b then some true
    else if Bound.entails bs (below ps a b true) || Bound.entails bs (below ps b a true)
        || apart a b then some false
    else none
  | .le a b =>
    if Bound.entails bs (below ps a b false) then some true
    else if Bound.entails bs (below ps b a true)
        || (Bound.entails bs (below ps b a false) && apart a b) then some false
    else none
  | _ => none

/-- The one value that comparisons of texts leave for a text. -/
def forced? (F : Facts) (t : Term) : Option Value :=
  let atoms := F.map Prod.fst
  let ps := places atoms
  let bs := bounds ps F (.eq t t :: atoms)
  (ps.find? fun p => same ps bs t (.const p.1)).map Prod.fst

end RouteInvariants.Texts
