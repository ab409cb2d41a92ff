/-!
Binary floating-point numbers of 53 significant bits. A finite number is `± significand * 2 ^ exponent`
with the significand below `2 ^ 53`, and at least `2 ^ 52` unless the exponent is the least one.
-/

namespace RouteInvariants

inductive Binary64 where
  | finite (negative : Bool) (significand : Nat) (exponent : Int)
  | infinite (negative : Bool)
  | nan
deriving DecidableEq, Inhabited

namespace Binary64

def leastExponent : Int := -1074

def zero : Binary64 := .finite false 0 leastExponent

/-- `2 ^ e` as a numerator and a denominator. -/
def twoPow (e : Int) : Nat × Nat :=
  if 0 ≤ e then (Nat.pow 2 e.toNat, 1) else (1, Nat.pow 2 (-e).toNat)

/-- The quotient rounded to the nearest number, a half to the even neighbour. -/
def roundDiv (num den : Nat) : Nat :=
  let q := num / den
  let r := num % den
  if 2 * r < den then q
  else if den < 2 * r then q + 1
  else if q % 2 = 0 then q else q + 1

/-- `num / den * 2 ^ (-e)` rounded to an integer. -/
def significandAt (num den : Nat) (e : Int) : Nat :=
  let p := twoPow e
  roundDiv (num * p.2) (den * p.1)

/-- The nearest number to `± num / den`. -/
def ofRatio (negative : Bool) (num den : Nat) : Binary64 :=
  if num = 0 || den = 0 then .finite negative 0 leastExponent
  else
    let guess : Int := max leastExponent ((Nat.log2 num : Int) - (Nat.log2 den : Int) - 53)
    let p := twoPow guess
    let e := if num * p.2 / (den * p.1) < Nat.pow 2 53 then guess else guess + 1
    let m := significandAt num den e
    let (m, e) := if m = Nat.pow 2 53 then (Nat.pow 2 52, e + 1) else (m, e)
    if 971 < e then .infinite negative else .finite negative m e

def ofRat (q : Rat) : Binary64 :=
  ofRatio (decide (q.num < 0)) q.num.natAbs q.den

def ofInt (n : Int) : Binary64 :=
  ofRatio (decide (n < 0)) n.natAbs 1

/-- `± digits * 10 ^ exp10`, rounded. Exponents far outside the range are cut first, since they
give zero or infinity whatever the digits are. -/
def ofDecimal (negative : Bool) (digits : Nat) (exp10 : Int) : Binary64 :=
  if digits = 0 then .finite negative 0 leastExponent
  else
    let size : Int := Nat.log2 digits
    if 400 < exp10 then .infinite negative
    else if exp10 * 3 + size < -1200 then .finite negative 0 leastExponent
    else if 0 ≤ exp10 then ofRatio negative (digits * Nat.pow 10 exp10.toNat) 1
    else ofRatio negative digits (Nat.pow 10 (-exp10).toNat)

/-- The exact value of a finite number. -/
def toRat? : Binary64 → Option Rat
  | .finite negative m e =>
    let p := twoPow e
    let v : Rat := mkRat (m * p.1) p.2
    some (if negative then -v else v)
  | _ => none

end Binary64

end RouteInvariants
