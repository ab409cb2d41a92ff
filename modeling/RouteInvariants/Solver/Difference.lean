import RouteInvariants.Solver.Linear

/-!
Difference constraints: bounds `u - w ≤ c` between two numeric unknowns, or between one and zero.
Bounds between integers are rounded to integers, a strict bound between reals carries an
infinitesimal. A set of bounds entails another one exactly when a chain of bounds adds up to it.
-/

namespace RouteInvariants

/-- The number `value + eps * ε` for an infinitesimal `ε`. -/
structure Limit where
  value : Rat
  eps : Int
deriving DecidableEq, Inhabited

namespace Limit

def zero : Limit := ⟨0, 0⟩

def add (a b : Limit) : Limit := ⟨a.value + b.value, a.eps + b.eps⟩

def lt (a b : Limit) : Bool :=
  decide (a.value < b.value) || (decide (a.value = b.value) && decide (a.eps < b.eps))

def le (a b : Limit) : Bool := !b.lt a

end Limit

/-- `upper - lower ≤ limit`, where a missing unknown counts as zero. -/
structure Bound where
  upper : Option Term
  lower : Option Term
  limit : Limit
deriving Inhabited

namespace Bound

def isInteger (u : Option Term) : Bool :=
  match u with
  | some t => t.sort? == some .int
  | none => true

/-- The bound with its limit tightened to an integer, if both sides are integers. Bounds that mix
integers and reals are left out. -/
def make? (upper lower : Option Term) (value : Rat) (strict : Bool) : Option Bound :=
  let mixed := upper.isSome && lower.isSome && (isInteger upper != isInteger lower)
  if mixed then none
  else if isInteger upper && isInteger lower then
    let whole := value.floor
    let limit := if strict && (whole : Rat) = value then whole - 1 else whole
    some ⟨upper, lower, ⟨limit, 0⟩⟩
  else some ⟨upper, lower, ⟨value, if strict then -1 else 0⟩⟩

/-- The bound that a claim amounts to, if it is about one unknown or the difference of two. -/
def ofClaim? (c : Claim) : Option Bound :=
  match c.sum.terms with
  | [(u, k)] =>
    if 0 < k then make? none (some u) (c.sum.constant / k) c.strict
    else make? (some u) none (-c.sum.constant / k) c.strict
  | [(u, k), (w, m)] =>
    if k + m ≠ 0 then none
    else if 0 < k then make? (some w) (some u) (c.sum.constant / k) c.strict
    else make? (some u) (some w) (c.sum.constant / m) c.strict
  | _ => none

/-! ### Chains of bounds -/

abbrev Distances := List (Option Term × Limit)

def distanceTo (d : Distances) (u : Option Term) : Option Limit :=
  (d.find? fun p => p.1 = u).map Prod.snd

def record (d : Distances) (u : Option Term) (c : Limit) : Distances :=
  match d with
  | [] => [(u, c)]
  | p :: rest => if p.1 = u then (u, c) :: rest else p :: record rest u c

/-- Uses each bound once to shorten distances; the flag tells whether one did. -/
def relax (bounds : List Bound) (d : Distances) : Distances × Bool :=
  bounds.foldl (fun acc b =>
    match distanceTo acc.1 b.lower with
    | none => acc
    | some c =>
      let c := c.add b.limit
      match distanceTo acc.1 b.upper with
      | some old => if c.lt old then (record acc.1 b.upper c, true) else acc
      | none => (record acc.1 b.upper c, true)) (d, false)

def settle (bounds : List Bound) : Nat → Distances → Distances
  | 0, d => d
  | fuel + 1, d =>
    let (e, changed) := relax bounds d
    if changed then settle bounds fuel e else e

/-- The least `c` for which the bounds entail `target - source ≤ c`, if they entail any. -/
def tightest? (bounds : List Bound) (source target : Option Term) : Option Limit :=
  distanceTo (settle bounds (bounds.length + 1) [(source, Limit.zero)]) target

/-- Whether the bounds have a solution: distances from a point before all unknowns come to rest. -/
def feasible (bounds : List Bound) : Bool :=
  let unknowns := (bounds.flatMap fun b => [b.upper, b.lower]).eraseDups
  let d := settle bounds (unknowns.length + 1) (unknowns.map (·, Limit.zero))
  !(relax bounds d).2

def entails (bounds : List Bound) (b : Bound) : Bool :=
  match tightest? bounds b.lower b.upper with
  | some c => c.le b.limit
  | none => false

/-- Whether bounds that have a solution have none together with another one. -/
def excludes (bounds : List Bound) (b : Bound) : Bool :=
  match tightest? bounds b.upper b.lower with
  | some c => (c.add b.limit).lt .zero
  | none => false

/-- The least value of an unknown. -/
def least? (bounds : List Bound) (u : Term) : Option Rat :=
  (tightest? bounds (some u) none).map fun c => -c.value

/-- The one value of `upper - lower` that the bounds allow, if they leave one. -/
def forcedDifference? (bounds : List Bound) (upper lower : Option Term) : Option Rat :=
  match tightest? bounds lower upper, tightest? bounds upper lower with
  | some c, some d => if c.eps = 0 && d.eps = 0 && c.value + d.value = 0 then some c.value else none
  | _, _ => none

/-- The one value of a sum that the bounds allow. -/
def forcedSum? (bounds : List Bound) (sum : Linear) : Option Rat :=
  match sum.terms with
  | [(u, k), (w, m)] =>
    if k + m = 0 then (forcedDifference? bounds (some u) (some w)).map fun v => k * v + sum.constant
    else eachForced sum
  | _ => eachForced sum
where
  eachForced (sum : Linear) : Option Rat :=
    sum.terms.foldl (fun acc p => do
      let s ← acc
      let v ← forcedDifference? bounds (some p.1) none
      some (s + p.2 * v)) (some sum.constant)

end Bound

end RouteInvariants
