import RouteInvariants.Solver.Difference
import RouteInvariants.Solver.Rows

/-!
Comparisons of numbers. Claims about differences are decided by chains of bounds; sums of several
unknowns need the elimination of variables. Real unknowns are eliminated first, which turns what is
left into rows over integers.
-/

namespace RouteInvariants

namespace Claim

def isReal (u : Term) : Bool := u.sort? == some .real

/-- The least common denominator of a sum. -/
def denominator (s : Linear) : Nat := s.terms.foldl (fun d t => Nat.lcm d t.2.den) s.constant.den

/-- The claim as a row over the unknowns in the given order, with integer coefficients. -/
def row (us : List Term) (c : Claim) : Row :=
  let whole (q : Rat) : Int := (q * denominator c.sum).num
  ⟨us.map fun u => whole (((c.sum.terms.find? fun t => t.1 = u).map Prod.snd).getD 0),
    whole c.sum.constant⟩

end Claim

/-- A row that is not negative or, if strict, positive. -/
structure Margin where
  row : Row
  strict : Bool
deriving DecidableEq, Inhabited

namespace Margin

/-- Eliminates a real variable. -/
def eliminate (k : Nat) (ms : List Margin) : List Margin :=
  let lower := ms.filter fun m => 0 < m.row.coeff k
  let upper := ms.filter fun m => m.row.coeff k < 0
  let sums := lower.flatMap fun l => upper.map fun u =>
    Margin.mk (Row.resolve k l.row u.row) (l.strict || u.strict)
  (ms.filter fun m => m.row.coeff k = 0) ++ sums

/-- Between integers a positive row is at least one. -/
def toRow (m : Margin) : Row := if m.strict then m.row.shift (-1) else m.row

end Margin

namespace Numbers

/-- Enough steps for the systems that checks give rise to. -/
def effort : Nat := 400

def unknowns (cs : List Claim) : List Term := (cs.flatMap Claim.unknowns).eraseDups

def margins (us : List Term) (cs : List Claim) : List Margin :=
  cs.map fun c => ⟨c.row us, c.strict⟩

/-- The positions of the unknowns that satisfy a condition. -/
def positions (us : List Term) (p : Term → Bool) : List Nat :=
  (us.zipIdx.filter fun u => p u.1).map Prod.snd

def satisfiable (cs : List Claim) : Bool :=
  let us := unknowns cs
  let ms := (positions us Claim.isReal).foldl (fun ms k => Margin.eliminate k ms) (margins us cs)
  System.satisfiable effort ⟨[], ms.map Margin.toRow⟩

def claims (F : Facts) : List Claim := F.filterMap Claim.ofLiteral?

/-- The claims that bear on the given unknowns, and their bounds if all of them have one. -/
def bearing (F : Facts) (us : List Term) : List Claim × Option (List Bound) :=
  let cs := Claim.around F.length us (claims F)
  (cs, cs.mapM Bound.ofClaim?)

/-- Whether facts that have a solution have none together with a claim. -/
def excludes (F : Facts) (c : Claim) : Bool :=
  let (cs, bounds) := bearing F c.unknowns.eraseDups
  match bounds, Bound.ofClaim? c with
  | some bs, some b => Bound.excludes bs b
  | _, _ => !satisfiable (c :: cs)

def decide? (F : Facts) (atom : Term) : Option Bool := do
  let yes ← Claim.ofLiteral? (atom, true)
  let no ← Claim.ofLiteral? (atom, false)
  if excludes F no then some true
  else if excludes F yes then some false
  else none

/-! ### Values -/

def atMost (sum : Linear) (n : Rat) : Claim := ⟨(Linear.mk [] n).addScaled (-1) sum, false⟩

def atLeast (sum : Linear) (n : Rat) : Claim := ⟨sum.addScaled 1 (Linear.mk [] (-n)), false⟩

/-- The least integer in a half-open interval from which on a condition holds, found by halving. -/
def leastFrom (p : Int → Bool) : Nat → Int → Int → Int
  | 0, _, high => high
  | fuel + 1, low, high =>
    if high ≤ low then high
    else
      let middle := (low + high).fdiv 2
      if p middle then leastFrom p fuel low middle else leastFrom p fuel (middle + 1) high

/-- The first power of two, from `2 ^ n` on, that satisfies a condition. -/
def reach (p : Int → Bool) : Nat → Nat → Int
  | 0, n => Nat.pow 2 n
  | fuel + 1, n => if p (Nat.pow 2 n) then Nat.pow 2 n else reach p fuel (n + 1)

/-- The values of a sum over the reals: the greatest lower and the least upper bound that the claims
imply, each with whether it is attained. -/
def range (cs : List Claim) (sum : Linear) : Option (Rat × Bool) × Option (Rat × Bool) :=
  let us := (unknowns cs ++ sum.terms.map Prod.fst).eraseDups
  let z := us.length
  let value : Row := Claim.row us ⟨sum, false⟩
  let unit : Row := ⟨List.replicate z 0 ++ [(Claim.denominator sum : Int)], 0⟩
  let tie := [Margin.mk (Row.combine 1 value (-1) unit) false,
    Margin.mk (Row.combine (-1) value 1 unit) false]
  let ms := (List.range z).foldl (fun ms k => Margin.eliminate k ms) (margins us cs ++ tie)
  let ends (p : Int → Bool) : List (Rat × Bool) := ms.filterMap fun m =>
    if p (m.row.coeff z) then some (-(m.row.constant : Rat) / m.row.coeff z, !m.strict) else none
  let pick (better : Rat → Rat → Bool) (xs : List (Rat × Bool)) : Option (Rat × Bool) :=
    xs.foldl (fun best x => match best with
      | none => some x
      | some b => some (if better x.1 b.1 || (x.1 = b.1 && !x.2) then x else b)) none
  (pick (fun a b => decide (b < a)) (ends (0 < ·)), pick (fun a b => decide (a < b)) (ends (· < 0)))

/-- The least value, within a distance of zero that leaves one, of an integer sum under claims that
have a solution. -/
def someInteger (cs : List Claim) (sum : Linear) : Int :=
  let within (n : Int) := satisfiable (atMost sum n :: atLeast sum (-n) :: cs)
  let radius := reach within effort 0
  leastFrom (fun n => satisfiable (atMost sum n :: atLeast sum (-radius) :: cs)) effort (-radius) radius

/-- The one value of an integer sum under claims that have a solution. -/
def onlyInteger? (cs : List Claim) (sum : Linear) : Option Rat :=
  let n := someInteger cs sum
  if satisfiable (atLeast sum (n + 1) :: cs) || satisfiable (atMost sum (n - 1) :: cs) then none
  else some n

/-- The claims together with a value for each of some integer unknowns. -/
def pinned : List Claim → List Term → List Claim
  | cs, [] => cs
  | cs, u :: us =>
    let sum : Linear := ⟨[(u, 1)], 0⟩
    let n := someInteger cs sum
    pinned (atMost sum n :: atLeast sum n :: cs) us

/-- The one value of a sum over the reals. -/
def single? (cs : List Claim) (sum : Linear) : Option Rat :=
  match range cs sum with
  | (some (a, true), some (b, true)) => if a = b then some a else none
  | _ => none

/-- The one value of a real sum under claims that have a solution. Integer unknowns may leave less
than the reals do: then the value in one solution is the only one if no solution is beside it. -/
def onlyReal? (cs : List Claim) (sum : Linear) : Option Rat :=
  match single? cs sum with
  | some v => some v
  | none =>
    let integers := (unknowns cs).filter fun u => !Claim.isReal u
    if integers.isEmpty then none
    else do
      let v ← single? (pinned cs integers) sum
      let above : Claim := { atLeast sum v with strict := true }
      let below : Claim := { atMost sum v with strict := true }
      if satisfiable (above :: cs) || satisfiable (below :: cs) then none else some v

/-- The one value that the facts leave for a number. -/
def forced? (F : Facts) (t : Term) : Option Rat :=
  let sum := Linear.ofTerm t
  let (cs, bounds) := bearing F (sum.terms.map Prod.fst)
  let only := fun _ : Unit =>
    if sum.terms.any fun u => Claim.isReal u.1 then onlyReal? cs sum else onlyInteger? cs sum
  match bounds with
  | some bs => if sum.terms.length ≤ 2 then Bound.forcedSum? bs sum else only ()
  | none => only ()

/-- The least value of an integer unknown, if it is bounded below. -/
def least? (F : Facts) (u : Term) : Option Int :=
  let sum : Linear := ⟨[(u, 1)], 0⟩
  let (cs, bounds) := bearing F [u]
  match bounds with
  | some bs => (Bound.least? bs u).map Rat.floor
  | none => (range cs sum).1.map fun b =>
    let low : Int := b.1.ceil
    let below (n : Int) := satisfiable (atMost sum (low + n) :: cs)
    low + leastFrom below effort 0 (reach below effort 0)

end Numbers

end RouteInvariants
