import RouteInvariants.Decimal.Binary64

/-!
The shortest decimal of a binary number: the fewest significant digits that read back as the same
number, and of those the nearest. A grid of `n` digits is tried for `n = 1, 2, …, 17`, each time at
the two grid points around the value.
-/

namespace RouteInvariants.Binary64

def digitCount (n : Nat) : Nat := (Nat.toDigits 10 n).length

/-- `num / den * 10 ^ k` rounded down. -/
def scaledFloor (num den : Nat) (k : Int) : Nat :=
  if 0 ≤ k then num * Nat.pow 10 k.toNat / den else num / (den * Nat.pow 10 (-k).toNat)

/-- The place `k` of the leading digit: `10 ^ (k - 1) ≤ num / den < 10 ^ k`. -/
def leadingPlace (num den : Nat) : Int :=
  if den ≤ num then digitCount (num / den)
  else
    let k : Int := 2 - (digitCount (den / num) : Int)
    if scaledFloor num den (1 - k) = 0 then k - 1 else k

/-- The `n` digit decimals next to the value that read back as `x`, nearest first. -/
def readBack (x : Binary64) (num den : Nat) (place : Int) (n : Nat) : List Nat :=
  let shift : Int := n - place
  let low := scaledFloor num den shift
  let up := if 0 ≤ shift then num * Nat.pow 10 shift.toNat else num
  let down := if 0 ≤ shift then den else den * Nat.pow 10 (-shift).toNat
  let lowFirst := decide (2 * (up - low * down) < down)
    || (decide (2 * (up - low * down) = down) && low % 2 == 0)
  let candidates := if lowFirst then [low, low + 1] else [low + 1, low]
  candidates.filter fun d => decide (0 < d) && decide (ofDecimal false d (-shift) = x)

def stripZeros : Nat → Nat → Nat
  | 0, d => d
  | fuel + 1, d => if d % 10 = 0 && 0 < d then stripZeros fuel (d / 10) else d

/-- Digits and place of a positive finite number: its value is near `0.digits * 10 ^ place`. -/
def shortest (x : Binary64) (num den : Nat) : Nat × Int :=
  let place := leadingPlace num den
  let found := (List.range 17).findSome? fun i =>
    (readBack x num den place (i + 1)).head?.map fun d => (d, i + 1)
  match found with
  | some (d, n) =>
    -- the upper neighbour of `9…9` has one digit more
    let place := if digitCount d = n then place else place + 1
    (stripZeros 20 d, place)
  | none => (0, place)

/-- Positional text of `0.digits * 10 ^ place`, always with a fraction. -/
def positional (digits : List Char) (place : Int) : List Char :=
  if place ≤ 0 then '0' :: '.' :: List.replicate (-place).toNat '0' ++ digits
  else
    let k := place.toNat
    if digits.length ≤ k then digits ++ List.replicate (k - digits.length) '0' ++ ['.', '0']
    else digits.take k ++ '.' :: digits.drop k

/-- Scientific text of `0.digits * 10 ^ place`; the exponent has a sign and two digits or more. -/
def scientific (digits : List Char) (place : Int) : List Char :=
  let e := place - 1
  let mark := if e < 0 then '-' else '+'
  let eDigits := Nat.toDigits 10 e.natAbs
  let eDigits := if eDigits.length < 2 then '0' :: eDigits else eDigits
  let head := match digits with
    | [] => []
    | [d] => [d]
    | d :: rest => d :: '.' :: rest
  head ++ 'e' :: mark :: eDigits

/-- The text of a number. Places from `-3` to `16` are written positionally. -/
def text : Binary64 → String
  | .nan => "nan"
  | .infinite negative => if negative then "-inf" else "inf"
  | .finite negative m e =>
    let body :=
      if m = 0 then ['0', '.', '0']
      else
        let p := twoPow e
        let (d, place) := shortest (.finite false m e) (m * p.1) p.2
        let ds := Nat.toDigits 10 d
        if -4 < place && place ≤ 16 then positional ds place else scientific ds place
    String.ofList (if negative then '-' :: body else body)

/-- The exact value with `places` digits after the point, a half going to the even neighbour. -/
def fixed (places : Nat) : Binary64 → String
  | .nan => "nan"
  | .infinite negative => if negative then "-inf" else "inf"
  | .finite negative m e =>
    let p := twoPow e
    let n := roundDiv (m * p.1 * Nat.pow 10 places) p.2
    let frac := Nat.toDigits 10 (n % Nat.pow 10 places)
    let frac := List.replicate (places - frac.length) '0' ++ frac
    let body := Nat.toDigits 10 (n / Nat.pow 10 places) ++ (if places = 0 then [] else '.' :: frac)
    String.ofList (if negative then '-' :: body else body)

end RouteInvariants.Binary64
