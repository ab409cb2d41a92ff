import RouteInvariants.Decimal.Shortest

/-!
Decimals with a given number of significant digits, rounded from the exact value with a half going to
the even neighbour. They are written with an exponent or, if it is small, by position.
-/

namespace RouteInvariants.Binary64

/-- A positive number rounded to `n` significant digits, as `0.digits * 10 ^ place`. -/
def significant (num den n : Nat) : List Char × Int :=
  let place := leadingPlace num den
  let shift : Int := n - place
  let d := if 0 ≤ shift then roundDiv (num * Nat.pow 10 shift.toNat) den
    else roundDiv num (den * Nat.pow 10 (-shift).toNat)
  if d = Nat.pow 10 n then (Nat.toDigits 10 (d / 10), place + 1) else (Nat.toDigits 10 d, place)

/-- The first digits of a finite number without its sign. -/
def leading (m : Nat) (e : Int) (n : Nat) : List Char × Int :=
  let p := twoPow e
  if m = 0 then (List.replicate n '0', 1) else significant (m * p.1) p.2 n

/-- Digits with a point after the first `k`; a point at the end is left out unless it is asked for. -/
def pointed (point : Bool) (digits : List Char) (k : Nat) : List Char :=
  let frac := digits.drop k
  digits.take k ++ if frac.isEmpty && !point then [] else '.' :: frac

def withSign (negative : Bool) (body : List Char) : String :=
  String.ofList (if negative then '-' :: body else body)

def exponentMark (e : Int) : List Char :=
  let digits := Nat.toDigits 10 e.natAbs
  'e' :: (if e < 0 then '-' else '+') :: if digits.length < 2 then '0' :: digits else digits

/-- One digit before the point, `places` after it, and an exponent. -/
def exponential (places : Nat) (point : Bool) : Binary64 → String
  | .finite negative m e =>
    let (digits, place) := leading m e (places + 1)
    withSign negative (pointed point digits 1 ++ exponentMark (place - 1))
  | x => x.text

def dropZeros (digits : List Char) : List Char := (digits.reverse.dropWhile (· = '0')).reverse

/-- At most `n` significant digits, with an exponent if it is below `-4` or not below `n`. Zeros at the
end are left out unless all digits are asked for. -/
def general (n : Nat) (full : Bool) : Binary64 → String
  | .finite negative m e =>
    let n := max n 1
    let (digits, place) := leading m e n
    let trim (ds : List Char) (least : Nat) : List Char :=
      if full then ds else ds.take least ++ dropZeros (ds.drop least)
    let body :=
      if place ≤ -4 || (n : Int) < place then
        pointed full (trim digits 1) 1 ++ exponentMark (place - 1)
      else if place ≤ 0 then
        pointed full (trim ('0' :: List.replicate (-place).toNat '0' ++ digits) 1) 1
      else pointed full (trim digits place.toNat) place.toNat
    withSign negative body
  | x => x.text

end RouteInvariants.Binary64
