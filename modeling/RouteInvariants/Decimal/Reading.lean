import RouteInvariants.Decimal.Binary64

/-!
Reading numbers from text: integers and decimals with an optional sign, single underscores between
digits, and the names of the infinities and of the undefined number.
-/

namespace RouteInvariants.Decimal

def isDigit (c : Char) : Bool := '0' ≤ c && c ≤ '9'

def digitValue (c : Char) : Nat := c.toNat - 48

/-- The value of a run of digits, where an underscore may stand between two of them. -/
def readDigits? (cs : List Char) : Option (List Char) :=
  let ok := cs.all (fun c => isDigit c || c = '_')
    && cs.head?.any isDigit && cs.getLast?.any isDigit
    && !(cs.zip cs.tail).any (fun p => p.1 = '_' && p.2 = '_')
  if ok then some (cs.filter isDigit) else none

def digitsToNat (cs : List Char) : Nat :=
  cs.foldl (fun n c => 10 * n + digitValue c) 0

def readNat? (cs : List Char) : Option Nat :=
  (readDigits? cs).map digitsToNat

/-- Splits a sign off; the Boolean says that it is a minus. -/
def splitSign : List Char → Bool × List Char
  | '-' :: cs => (true, cs)
  | '+' :: cs => (false, cs)
  | cs => (false, cs)

def readInt? (cs : List Char) : Option Int :=
  let (negative, body) := splitSign cs
  (readNat? body).map fun n => if negative then -(n : Int) else n

/-- A decimal `± digits * 10 ^ exponent`. -/
structure Scientific where
  negative : Bool
  digits : Nat
  exponent : Int
deriving DecidableEq, Inhabited

/-- Reads a part that may be empty. -/
def readPart? (cs : List Char) : Option (List Char) :=
  if cs.isEmpty then some [] else readDigits? cs

/-- Splits at the first character that satisfies `p` and drops it; `none` when there is none. -/
def splitAt? (p : Char → Bool) (cs : List Char) : Option (List Char × List Char) :=
  match cs.dropWhile (fun c => !p c) with
  | [] => none
  | _ :: rest => some (cs.takeWhile (fun c => !p c), rest)

/-- A mantissa with an optional point and an optional exponent; a digit must stand on one side of
the point. -/
def readScientific? (cs : List Char) : Option Scientific := do
  let (negative, body) := splitSign cs
  let (mantissa, exponent) ← match splitAt? (fun c => c = 'e' || c = 'E') body with
    | none => some (body, (0 : Int))
    | some (m, e) => (readInt? e).map fun n => (m, n)
  let (whole, frac) ← match splitAt? (· = '.') mantissa with
    | none => (readDigits? mantissa).map fun w => (w, [])
    | some (w, f) => do
      let w ← readPart? w
      let f ← readPart? f
      if w.isEmpty && f.isEmpty then none else some (w, f)
  some ⟨negative, digitsToNat (whole ++ frac), exponent - frac.length⟩

def Scientific.toBinary64 (s : Scientific) : Binary64 :=
  .ofDecimal s.negative s.digits s.exponent

/-- The exact value of a decimal whose exponent is moderate. -/
def Scientific.toRat (s : Scientific) : Rat :=
  let v : Rat :=
    if 0 ≤ s.exponent then (s.digits * Nat.pow 10 s.exponent.toNat : Nat)
    else mkRat s.digits (Nat.pow 10 (-s.exponent).toNat)
  if s.negative then -v else v

/-! ### Numerals

A numeral is read leniently: blanks in front are skipped, a minus may follow, and of the other
characters that a numeral may have only digits, the first slash or point and an exponent count. -/

def isNumeralChar (c : Char) : Bool := isDigit c || "/- \n.eE+".toList.contains c

/-- The value of the digits among the characters. -/
def digitsIn (cs : List Char) : Nat := digitsToNat (cs.filter isDigit)

/-- `num / den * 10 ^ exponent`, where the exponent is written after `e`. -/
def scaled? (num den : Nat) (exponent : List Char) : Option Rat :=
  if exponent.contains '/' then none
  else
    let factor := Nat.pow 10 (digitsIn exponent)
    if exponent.head? = some '-' then some (mkRat num (den * factor))
    else some (mkRat (num * factor) den)

def isExponentMark (c : Char) : Bool := c = 'e' || c = 'E'

/-- The value of a numeral without its sign. -/
def readMagnitude? (cs : List Char) : Option Rat :=
  let stop (c : Char) : Bool := c = '/' || c = '.' || isExponentMark c
  let whole := digitsIn (cs.takeWhile fun c => !stop c)
  match cs.dropWhile fun c => !stop c with
  | [] => some whole
  | '/' :: rest => let den := digitsIn rest; if den = 0 then none else some (mkRat whole den)
  | '.' :: rest =>
    let places := (rest.takeWhile fun c => !isExponentMark c).filter isDigit
    let den := Nat.pow 10 places.length
    scaled? (whole * den + digitsToNat places) den (rest.dropWhile fun c => !isExponentMark c).tail
  | _ :: rest => scaled? whole 1 rest

def readNumeral? (s : String) : Option Rat :=
  let cs := s.toList
  if !cs.all isNumeralChar then none
  else
    let body := cs.dropWhile (· = ' ')
    let value := readMagnitude? body
    if body.head? = some '-' then value.map (- ·) else value

/-- Reads a floating-point number, in words or in digits. -/
def readBinary64? (cs : List Char) : Option Binary64 :=
  let (negative, body) := splitSign cs
  let word := String.ofList (body.map Char.toLower)
  if word = "inf" || word = "infinity" then some (.infinite negative)
  else if word = "nan" then some .nan
  else (readScientific? cs).map Scientific.toBinary64

end RouteInvariants.Decimal
