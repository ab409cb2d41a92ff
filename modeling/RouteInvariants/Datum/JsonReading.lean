import RouteInvariants.Datum.Basic
import RouteInvariants.Decimal.Reading

/-!
Reading JSON text as plain data. A number with a point or an exponent is a floating-point number, as
are the names of the infinities and of the undefined number; of entries with the same key the last
one counts.
-/

namespace RouteInvariants.Datum.JsonReading

def isBlank (c : Char) : Bool := c = ' ' || c = '\t' || c = '\n' || c = '\r'

def skipBlanks (cs : List Char) : List Char := cs.dropWhile isBlank

def hexValue? (c : Char) : Option Nat :=
  if '0' ≤ c && c ≤ '9' then some (c.toNat - 48)
  else if 'a' ≤ c && c ≤ 'f' then some (c.toNat - 87)
  else if 'A' ≤ c && c ≤ 'F' then some (c.toNat - 55)
  else none

/-- Four hexadecimal digits and what follows them. -/
def readUnit? : List Char → Option (Nat × List Char)
  | a :: b :: c :: d :: rest => do
    let n ← [a, b, c, d].foldlM (fun n x => (hexValue? x).map (16 * n + ·)) 0
    some (n, rest)
  | _ => none

/-- The character of an escaped unit, together with the second half of a pair if it is the first. -/
def readEscaped? (cs : List Char) : Option (Char × List Char) := do
  let (high, rest) ← readUnit? cs
  match rest with
  | '\\' :: 'u' :: more =>
    match readUnit? more with
    | some (low, after) =>
      if 0xD800 ≤ high && high < 0xDC00 && 0xDC00 ≤ low && low < 0xE000 then
        some (Char.ofNat (0x10000 + (high - 0xD800) * 0x400 + (low - 0xDC00)), after)
      else some (Char.ofNat high, rest)
    | none => some (Char.ofNat high, rest)
  | _ => some (Char.ofNat high, rest)

def shortEscape? : Char → Option Char
  | '"' => some '"'
  | '\\' => some '\\'
  | '/' => some '/'
  | 'b' => some '\x08'
  | 'f' => some '\x0c'
  | 'n' => some '\n'
  | 'r' => some '\r'
  | 't' => some '\t'
  | _ => none

/-- The characters up to the closing quote, the first argument holding those before in reverse. -/
def readText? : Nat → List Char → List Char → Option (String × List Char)
  | 0, _, _ => none
  | fuel + 1, done, cs =>
    match cs with
    | '"' :: rest => some (String.ofList done.reverse, rest)
    | '\\' :: 'u' :: rest => do
      let (c, rest) ← readEscaped? rest
      readText? fuel (c :: done) rest
    | '\\' :: c :: rest => do readText? fuel ((← shortEscape? c) :: done) rest
    | c :: rest => readText? fuel (c :: done) rest
    | [] => none

def isWordChar (c : Char) : Bool := c.isAlphanum || c = '+' || c = '-' || c = '.'

/-- A name or a number. -/
def ofWord? (word : List Char) : Option Datum :=
  match String.ofList word with
  | "null" => some .null
  | "true" => some (.bool true)
  | "false" => some (.bool false)
  | "NaN" => some (.float .nan)
  | "Infinity" => some (.float (.infinite false))
  | "-Infinity" => some (.float (.infinite true))
  | _ =>
    if word.any fun c => c = '.' || c = 'e' || c = 'E' then
      (Decimal.readScientific? word).map fun s => .float s.toBinary64
    else (Decimal.readInt? word).map .int

mutual

/-- A value and what follows it; `fuel` is at least twice the number of characters. -/
def readValue? : Nat → List Char → Option (Datum × List Char)
  | 0, _ => none
  | fuel + 1, cs =>
    match skipBlanks cs with
    | '"' :: rest => (readText? fuel [] rest).map fun r => (.text r.1, r.2)
    | '[' :: rest => match skipBlanks rest with
      | ']' :: rest => some (.list [], rest)
      | _ => (readItems? fuel rest).map fun r => (.list r.1, r.2)
    | '\x7b' :: rest => match skipBlanks rest with
      | '\x7d' :: rest => some (.dict [], rest)
      | _ => (readEntries? fuel rest).map fun r => (.dict (Entries.ofList r.1), r.2)
    | cs => do
      let word := cs.takeWhile isWordChar
      some (← ofWord? word, cs.drop word.length)

/-- The items up to the closing bracket. -/
def readItems? : Nat → List Char → Option (List Datum × List Char)
  | 0, _ => none
  | fuel + 1, cs => do
    let (x, rest) ← readValue? fuel cs
    match skipBlanks rest with
    | ',' :: rest => do
      let (xs, rest) ← readItems? fuel rest
      some (x :: xs, rest)
    | ']' :: rest => some ([x], rest)
    | _ => none

/-- The entries up to the closing brace. -/
def readEntries? : Nat → List Char → Option (Named × List Char)
  | 0, _ => none
  | fuel + 1, cs => do
    match skipBlanks cs with
    | '"' :: rest =>
      let (key, rest) ← readText? fuel [] rest
      match skipBlanks rest with
      | ':' :: rest =>
        let (x, rest) ← readValue? fuel rest
        match skipBlanks rest with
        | ',' :: rest =>
          let (es, rest) ← readEntries? fuel rest
          some ((key, x) :: es, rest)
        | '\x7d' :: rest => some ([(key, x)], rest)
        | _ => none
      | _ => none
    | _ => none

end

end JsonReading

/-- The data that a JSON text is. -/
def ofJson? (s : String) : Option Datum := do
  let cs := s.toList
  let (d, rest) ← JsonReading.readValue? (2 * cs.length + 2) cs
  if (JsonReading.skipBlanks rest).isEmpty then some d else none

end RouteInvariants.Datum
