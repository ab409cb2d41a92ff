/-!
Systems of linear constraints over integers, and whether they have a solution.

A variable is eliminated by adding each lower bound on it to each upper bound. Over the reals this
loses nothing. Over the integers it is exact when the coefficients on one side are one; otherwise
the sums with some room to spare (the dark shadow) ensure a solution, and a solution that they miss
lies close to a lower bound.
-/

namespace RouteInvariants

/-- The sum of `coeffs` times the variables, and a constant; coefficients beyond the end are zero. -/
structure Row where
  coeffs : List Int
  constant : Int
deriving DecidableEq, Inhabited

namespace Row

def coeff (r : Row) (k : Nat) : Int := r.coeffs.getD k 0

def addScaled (p q : Int) : List Int → List Int → List Int
  | [], bs => bs.map (q * ·)
  | as, [] => as.map (p * ·)
  | a :: as, b :: bs => (p * a + q * b) :: addScaled p q as bs

/-- `p` times one row and `q` times another. -/
def combine (p : Int) (a : Row) (q : Int) (b : Row) : Row :=
  ⟨addScaled p q a.coeffs b.coeffs, p * a.constant + q * b.constant⟩

def shift (r : Row) (n : Int) : Row := { r with constant := r.constant + n }

/-- The greatest common divisor of the coefficients; zero when there are none. -/
def divisor (r : Row) : Nat := r.coeffs.foldl (fun g c => Nat.gcd g c.natAbs) 0

/-- The coefficients divided by a divisor of them, without zeros at the end. -/
def reduced (r : Row) (g : Nat) : List Int :=
  ((r.coeffs.map (· / (g : Int))).reverse.dropWhile (· = 0)).reverse

/-- The row for `r ≥ 0` with its constant rounded, or no row when it always holds; none when it never
does. -/
def tighten? (r : Row) : Option (List Row) :=
  let g := r.divisor
  if g = 0 then (if 0 ≤ r.constant then some [] else none)
  else some [⟨r.reduced g, r.constant.fdiv g⟩]

/-- The row for `r = 0` divided by what its coefficients have in common. -/
def divide? (r : Row) : Option (List Row) :=
  let g := r.divisor
  if r.constant % (g : Int) ≠ 0 then none
  else some (if g = 0 then [] else [⟨r.reduced g, r.constant / g⟩])

/-- The sum of a lower and an upper bound on variable `k` in which it cancels. -/
def resolve (k : Nat) (lower upper : Row) : Row :=
  combine (-upper.coeff k) lower (lower.coeff k) upper

/-- Replaces variable `k` by what `e = 0` says it is, where `k` has coefficient one or minus one. -/
def substitute (k : Nat) (e r : Row) : Row := combine 1 r (-(r.coeff k * e.coeff k)) e

end Row

/-- Rows that are zero and rows that are not negative. -/
structure System where
  equations : List Row
  inequalities : List Row
deriving Inhabited

namespace System

/-- Keeps the tightest of the inequalities with the same coefficients. -/
def addRow (rows : List Row) (r : Row) : List Row :=
  match rows with
  | [] => [r]
  | s :: rest =>
    if s.coeffs = r.coeffs then (if r.constant < s.constant then r else s) :: rest
    else s :: addRow rest r

def opposite (r s : Row) : Bool := s.coeffs = r.coeffs.map (- ·)

/-- Two opposite inequalities without room between them are an equation. -/
def extract (rows : List Row) : List Row × List Row :=
  let pinned (r : Row) : Bool := rows.any fun s => opposite r s && r.constant + s.constant = 0
  (rows.filter fun r => pinned r && (r.coeffs.find? (· ≠ 0)).any (0 < ·),
    rows.filter fun r => !pinned r)

def contradictory (rows : List Row) : Bool :=
  rows.any fun r => rows.any fun s => opposite r s && decide (r.constant + s.constant < 0)

/-- Divides and tightens all rows; none when one of them shows that there is no solution. -/
def tidy? (s : System) : Option System := do
  let es ← s.equations.mapM Row.divide?
  let rows ← s.inequalities.mapM Row.tighten?
  let rows := rows.flatten.foldl addRow []
  if contradictory rows then none
  else
    let (more, rows) := extract rows
    some ⟨es.flatten ++ more, rows⟩

def width (s : System) : Nat :=
  (s.equations ++ s.inequalities).foldl (fun n r => max n r.coeffs.length) 0

def substitute (s : System) (k : Nat) (e : Row) : System :=
  ⟨s.equations.map (Row.substitute k e), s.inequalities.map (Row.substitute k e)⟩

/-! ### Equations -/

/-- The position of the coefficient nearest to zero that is not zero. -/
def smallest (r : Row) : Nat :=
  let candidates := (r.coeffs.zipIdx.filter fun p => p.1 ≠ 0).map fun p => (p.1.natAbs, p.2)
  (candidates.foldl (fun best p => match best with
    | some b => if p.1 < b.1 then some p else some b
    | none => some p) none).elim 0 Prod.snd

/-- The remainder of `a` by `m` that is nearest to zero. -/
def nearRemainder (a m : Int) : Int := a - m * (2 * a + m).fdiv (2 * m)

/-- An equation that follows from `e = 0` with a new variable at `fresh`, in which `k` has coefficient
one or minus one. -/
def refine (e : Row) (k fresh : Nat) : Row :=
  let m : Int := (e.coeff k).natAbs + 1
  let coeffs := (List.range fresh).map fun i => nearRemainder (e.coeff i) m
  ⟨coeffs ++ [-m], nearRemainder e.constant m⟩

/-! ### Inequalities -/

/-- The lower bounds on a variable, the upper bounds, and the other rows. -/
def split (rows : List Row) (k : Nat) : List Row × List Row × List Row :=
  (rows.filter fun r => 0 < r.coeff k, rows.filter fun r => r.coeff k < 0,
    rows.filter fun r => r.coeff k = 0)

/-- Whether eliminating the variable is exact over the integers. -/
def isExact (lower upper : List Row) (k : Nat) : Bool :=
  lower.all (·.coeff k = 1) || upper.all (·.coeff k = -1)

/-- The variable whose elimination is exact, if there is one, and makes the fewest rows. -/
def choose (rows : List Row) (width : Nat) : Nat :=
  let present := (List.range width).filter fun k => rows.any fun r => r.coeff k ≠ 0
  let cost (k : Nat) : Nat × Nat :=
    let (lower, upper, _) := split rows k
    (if isExact lower upper k then 0 else 1, lower.length * upper.length)
  let better (a b : Nat × Nat) : Bool := a.1 < b.1 || (a.1 == b.1 && a.2 < b.2)
  (present.foldl (fun best k => match best with
    | some (c, j) => if better (cost k) c then some (cost k, k) else some (c, j)
    | none => some (cost k, k)) none).elim 0 Prod.snd

/-- All sums of a lower and an upper bound; the dark ones leave room for an integer. -/
def shadow (dark : Bool) (lower upper : List Row) (k : Nat) : List Row :=
  lower.flatMap fun l => upper.map fun u =>
    let r := Row.resolve k l u
    if dark then r.shift (-((l.coeff k - 1) * (-u.coeff k - 1))) else r

/-- The equations that place the variable just above one of its lower bounds. -/
def splinters (lower upper : List Row) (k : Nat) : List Row :=
  let steepest := upper.foldl (fun b u => max b (-u.coeff k)) 1
  lower.flatMap fun l =>
    let a := l.coeff k
    let last := (a * steepest - a - steepest).fdiv steepest
    (List.range (last + 1).toNat).map fun i => l.shift (-(i : Int))

/-- Whether the system has a solution in integers; when `fuel` runs out it counts as having one. -/
def satisfiable : Nat → System → Bool
  | 0, _ => true
  | fuel + 1, s =>
    match s.tidy? with
    | none => false
    | some ⟨[], []⟩ => true
    | some ⟨[], rows⟩ =>
      let s : System := ⟨[], rows⟩
      let k := choose rows s.width
      let (lower, upper, rest) := split rows k
      let real := satisfiable fuel ⟨[], shadow false lower upper k ++ rest⟩
      if isExact lower upper k then real
      else real && (satisfiable fuel ⟨[], shadow true lower upper k ++ rest⟩
        || (splinters lower upper k).any fun e => satisfiable fuel ⟨[e], rows⟩)
    | some ⟨e :: es, rows⟩ =>
      let k := smallest e
      if (e.coeff k).natAbs = 1 then satisfiable fuel (System.substitute ⟨es, rows⟩ k e)
      else
        let s : System := ⟨e :: es, rows⟩
        satisfiable fuel (s.substitute k (refine e k s.width))

end System

end RouteInvariants
