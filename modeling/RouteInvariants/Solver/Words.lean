import RouteInvariants.Solver.Numbers

/-!
Comparisons of bit-vectors, which are read as signed integers. A sum may leave the range of its
width and then wraps; how often it does is guessed, and each guess turns the comparisons into claims
about integers.
-/

namespace RouteInvariants.Words

/-- Whether a term is a comparison of bit-vectors. -/
def width? : Term → Option Nat
  | .eq a b | .le a b => match (Term.add a b).sort? with
    | some (.bits w) => some w
    | _ => none
  | _ => none

/-- How many vectors of a width there are. -/
def count (w : Nat) : Int := Nat.pow 2 w

def low (w : Nat) : Int := -(count w / 2)

def high (w : Nat) : Int := count w / 2 - 1

/-- The sum that a term would be if nothing wrapped. -/
def sum : Term → Linear
  | .const (.bits _ b) => ⟨[], b.toInt⟩
  | .add a b => (sum a).addScaled 1 (sum b)
  | .sub a b => (sum a).addScaled (-1) (sum b)
  | t => ⟨[(t, 1)], 0⟩

/-- The sides of comparisons. -/
def sides : Term → List Term
  | .eq a b | .le a b => [a, b]
  | _ => []

def unknowns (atom : Term) : List Term :=
  ((sides atom).flatMap fun t => (sum t).terms.map Prod.fst).eraseDups

def constantSum (n : Int) : Linear := ⟨[], n⟩

/-- That a sum lies in the range of its width. -/
def inRange (w : Nat) (s : Linear) : List Claim :=
  [Numbers.atLeast s (low w), Numbers.atMost s (high w)]

/-- The numbers of times that a sum of terms in range can wrap. -/
def wraps (w : Nat) (s : Linear) : List Int :=
  let extreme (f : Int → Int → Int) : Int := s.terms.foldl (fun n t =>
    n + f (t.2.floor * low w) (t.2.floor * high w)) s.constant.floor
  let first := -((high w - extreme min).fdiv (count w))
  let last := (extreme max - low w).fdiv (count w)
  (List.range (last - first + 1).toNat).map fun (i : Nat) => first + i

/-- The values of sums, once it is guessed how often each wraps. -/
abbrev Guess := List (Term × Linear)

def valueIn (g : Guess) (t : Term) : Linear := (Entries.get? g t).getD (sum t)

/-- Whether literals have a solution together with claims on the same unknowns. -/
def meets (g : Guess) : Facts → List Claim → Bool
  | [], cs => Numbers.satisfiable cs
  | (atom, truth) :: rest, cs =>
    let above (a b : Term) (strict : Bool) : Claim :=
      ⟨(valueIn g a).addScaled (-1) (valueIn g b), strict⟩
    match atom with
    | .le a b =>
      meets g rest ((if truth then above b a false else above a b true) :: cs)
    | .eq a b =>
      if truth then meets g rest (above a b false :: above b a false :: cs)
      else meets g rest (above a b true :: cs) || meets g rest (above b a true :: cs)
    | _ => meets g rest cs

/-- Guesses for the sums one after the other, as far as they are possible. -/
def search (w : Nat) (literals : Facts) : List Term → Guess → List Claim → Bool
  | [], g, cs => meets g literals cs
  | t :: ts, g, cs => (wraps w (sum t)).any fun k =>
    let value := (sum t).addScaled (-count w) (constantSum k)
    let cs := inRange w value ++ cs
    Numbers.satisfiable cs && search w literals ts ((t, value) :: g) cs

def satisfiable (w : Nat) (literals : Facts) : Bool :=
  let us := (literals.flatMap fun f => unknowns f.1).eraseDups
  let sums := ((literals.flatMap fun f => sides f.1).filter fun t => match t with
    | .add _ _ | .sub _ _ => true
    | _ => false).eraseDups
  search w literals sums [] (us.flatMap fun u => inRange w ⟨[(u, 1)], 0⟩)

/-- The comparisons of bit-vectors that share unknowns with `us`, directly or through others. -/
def around : Nat → List Term → Facts → Facts
  | 0, _, literals => literals
  | fuel + 1, us, literals =>
    let touching := literals.filter fun f => (unknowns f.1).any us.contains
    let more := (us ++ touching.flatMap fun f => unknowns f.1).eraseDups
    if more.length = us.length then touching else around fuel more literals

def bearing (F : Facts) (us : List Term) : Facts :=
  around F.length us (F.filter fun f => (width? f.1).isSome)

def decide? (F : Facts) (w : Nat) (atom : Term) : Option Bool :=
  let literals := bearing F (unknowns atom)
  if !satisfiable w ((atom, true) :: literals) then some false
  else if !satisfiable w ((atom, false) :: literals) then some true
  else none

def constant (w : Nat) (n : Int) : Term := .const (.bits w (BitVec.ofInt w n))

/-- The one value that the facts leave for a term. -/
def forced? (F : Facts) (w : Nat) (t : Term) : Option Value :=
  let literals := bearing F ((sum t).terms.map Prod.fst)
  let atMost (n : Int) := satisfiable w ((.le t (constant w n), true) :: literals)
  let least := Numbers.leastFrom atMost (w + 1) (low w) (high w)
  if satisfiable w ((.le t (constant w least), false) :: literals) then none
  else some (.bits w (BitVec.ofInt w least))

end RouteInvariants.Words
