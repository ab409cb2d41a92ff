import RouteInvariants.Datum.Basic
import RouteInvariants.Decimal.Reading

/-!
Numbers, dates and times of a settings file.
-/

namespace RouteInvariants.Toml

open Decimal (isDigit digitsToNat digitValue splitSign)

/-! ### Numbers -/

/-- The digits that continue a number; one underscore may stand before each. -/
def moreDigits (p : Char → Bool) : List Char → List Char × List Char
  | '_' :: c :: cs =>
    if p c then let r := moreDigits p cs; (c :: r.1, r.2) else ([], '_' :: c :: cs)
  | c :: cs => if p c then let r := moreDigits p cs; (c :: r.1, r.2) else ([], c :: cs)
  | [] => ([], [])

/-- A run of at least one digit. -/
def digits (p : Char → Bool) : List Char → Option (List Char × List Char)
  | c :: cs => if p c then let r := moreDigits p cs; some (c :: r.1, r.2) else none
  | [] => none

/-- A whole number without a leading zero. -/
def wholeDigits : List Char → Option (List Char × List Char)
  | '0' :: cs => some (['0'], cs)
  | cs => digits isDigit cs

def fraction : List Char → List Char × List Char
  | '.' :: cs => (digits isDigit cs).getD ([], '.' :: cs)
  | cs => ([], cs)

/-- The digits of an exponent and its sign; none when there is no exponent. -/
def exponent (cs : List Char) : Option (Bool × List Char) × List Char :=
  match cs with
  | c :: rest =>
    if c = 'e' || c = 'E' then
      let (negative, body) := splitSign rest
      match digits isDigit body with
      | some (ds, rest) => (some (negative, ds), rest)
      | none => (none, cs)
    else (none, cs)
  | [] => (none, [])

def decimal (cs : List Char) : Option (Datum × List Char) := do
  let (negative, body) := splitSign cs
  let (whole, rest) ← wholeDigits body
  let (part, rest) := fraction rest
  let (power, rest) := exponent rest
  if part.isEmpty && power.isNone then
    let n : Int := digitsToNat whole
    some (.int (if negative then -n else n), rest)
  else
    let e : Int := match power with
      | some (true, ds) => -(digitsToNat ds : Int)
      | some (false, ds) => digitsToNat ds
      | none => 0
    some (.float (.ofDecimal negative (digitsToNat (whole ++ part)) (e - part.length)), rest)

def baseValue (c : Char) : Nat :=
  if isDigit c then digitValue c else if c < 'a' then c.toNat - 55 else c.toNat - 87

def isHexDigit (c : Char) : Bool := isDigit c || ('a' ≤ c && c ≤ 'f') || ('A' ≤ c && c ≤ 'F')

def based (base : Nat) (p : Char → Bool) (cs : List Char) : Option (Datum × List Char) :=
  (digits p cs).map fun r => (.int (r.1.foldl (fun n c => base * n + baseValue c) 0 : Nat), r.2)

/-- A number in one of four bases, or with a fraction or an exponent. -/
def number (cs : List Char) : Option (Datum × List Char) :=
  match cs with
  | '0' :: 'x' :: rest => based 16 isHexDigit rest
  | '0' :: 'o' :: rest => based 8 (fun c => '0' ≤ c && c ≤ '7') rest
  | '0' :: 'b' :: rest => based 2 (fun c => c = '0' || c = '1') rest
  | _ =>
    let (negative, body) := splitSign cs
    match body with
    | 'i' :: 'n' :: 'f' :: rest => some (.float (.infinite negative), rest)
    | 'n' :: 'a' :: 'n' :: rest => some (.float .nan, rest)
    | _ => decimal cs

/-! ### Dates and times -/

/-- Two digits whose number lies between the bounds. -/
def pair (low high : Nat) (c d : Char) : Bool :=
  isDigit c && isDigit d && low ≤ digitsToNat [c, d] && digitsToNat [c, d] ≤ high

def daysIn (year month : Nat) : Nat :=
  if month = 2 then
    if year % 4 = 0 && (year % 100 ≠ 0 || year % 400 = 0) then 29 else 28
  else if month = 4 || month = 6 || month = 9 || month = 11 then 30
  else 31

def date : List Char → Option (List Char × List Char)
  | y₁ :: y₂ :: y₃ :: y₄ :: '-' :: m₁ :: m₂ :: '-' :: d₁ :: d₂ :: rest =>
    let year := digitsToNat [y₁, y₂, y₃, y₄]
    let month := digitsToNat [m₁, m₂]
    if [y₁, y₂, y₃, y₄].all isDigit && 1 ≤ year && pair 1 12 m₁ m₂
        && pair 1 (daysIn year month) d₁ d₂ then
      some ([y₁, y₂, y₃, y₄, '-', m₁, m₂, '-', d₁, d₂], rest)
    else none
  | _ => none

/-- Six places of a second's fraction, left out when they are all zero. -/
def micros : List Char → List Char × List Char
  | '.' :: cs =>
    let places := cs.takeWhile isDigit
    if places.isEmpty then ([], '.' :: cs)
    else
      let six := (places ++ List.replicate 6 '0').take 6
      (if six.all (· = '0') then [] else '.' :: six, cs.dropWhile isDigit)
  | cs => ([], cs)

def time : List Char → Option (List Char × List Char)
  | h₁ :: h₂ :: ':' :: m₁ :: m₂ :: ':' :: s₁ :: s₂ :: rest =>
    if pair 0 23 h₁ h₂ && pair 0 59 m₁ m₂ && pair 0 59 s₁ s₂ then
      let (places, rest) := micros rest
      some ([h₁, h₂, ':', m₁, m₂, ':', s₁, s₂] ++ places, rest)
    else none
  | _ => none

/-- The distance from universal time; no distance is written with a plus. -/
def zone (cs : List Char) : List Char × List Char :=
  match cs with
  | s :: h₁ :: h₂ :: ':' :: m₁ :: m₂ :: rest =>
    if (s = '+' || s = '-') && pair 0 23 h₁ h₂ && pair 0 59 m₁ m₂ then
      (if [h₁, h₂, m₁, m₂].all (· = '0') then "+00:00".toList
        else [s, h₁, h₂, ':', m₁, m₂], rest)
    else if s = 'Z' || s = 'z' then ("+00:00".toList, cs.tail)
    else ([], cs)
  | s :: rest => if s = 'Z' || s = 'z' then ("+00:00".toList, rest) else ([], cs)
  | [] => ([], [])

def calendar (cs : List Char) : Option (Datum × List Char) :=
  match date cs with
  | some (day, rest) =>
    let onlyDay := some (.calendar .date (.ofList day), rest)
    match rest with
    | sep :: after =>
      if sep = 'T' || sep = 't' || sep = ' ' then
        match time after with
        | some (clock, rest) =>
          let (offset, rest) := zone rest
          some (.calendar .dateTime (.ofList (day ++ ' ' :: clock ++ offset)), rest)
        | none => onlyDay
      else onlyDay
    | [] => onlyDay
  | none => (time cs).map fun r => (.calendar .time (.ofList r.1), r.2)

/-- A date or time comes before a number, because a number is a beginning of it. -/
def scalar (cs : List Char) : Option (Datum × List Char) :=
  (calendar cs).or (number cs)

end RouteInvariants.Toml
