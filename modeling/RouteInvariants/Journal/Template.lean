import RouteInvariants.Datum.Literal
import RouteInvariants.Decimal.Rounded

/-!
Message templates. Two percent signs stand for one. A placeholder starts with a percent sign and ends
with the letter of a conversion; between them may stand the key of an entry, flags, a width and a
precision. A template takes its arguments in order, or the entries of a dictionary by key.
-/

namespace RouteInvariants

/-- Why a template cannot be filled. -/
inductive TemplateError where
  /-- An argument is missing, too many or of the wrong kind. -/
  | misfit
  | unknownConversion (c : Char) (index : Nat)
  | incomplete
  | incompleteKey
  | noKey (key : String)
  | noInteger (x : Binary64)
  | tooLarge
  | wideWidth
  | widePrecision
deriving DecidableEq, Inhabited

def TemplateError.message : TemplateError → String
  | misfit => "arguments do not fit the template"
  | unknownConversion c index =>
    let shown := if 31 ≤ c.toNat && c.toNat ≤ 126 then c else '?'
    "unsupported format character '" ++ shown.toString ++ "' (0x" ++ Text.hex c.toNat ++ ") at index "
      ++ toString index
  | incomplete => "incomplete format"
  | incompleteKey => "incomplete format key"
  | noKey key => Text.quoted key
  | noInteger .nan => "cannot convert float NaN to integer"
  | noInteger _ => "cannot convert float infinity to integer"
  | tooLarge => "number too large"
  | wideWidth => "width too big"
  | widePrecision => "precision too big"

/-- The arguments that are left, and the entries that can be taken by key. -/
structure Supply where
  left : List Datum
  entries : Option Named
deriving Inhabited

namespace Supply

/-- A single dictionary with entries serves by key, and also as the one argument. -/
def ofArgs : List Datum → Supply
  | [.dict (e :: es)] => ⟨[.dict (e :: es)], some (e :: es)⟩
  | args => ⟨args, none⟩

def take (s : Supply) : Except TemplateError (Datum × Supply) :=
  match s.left with
  | a :: rest => .ok (a, { s with left := rest })
  | [] => .error .misfit

/-- Chooses an entry as the one argument to take next. -/
def choose (s : Supply) (key : String) : Except TemplateError Supply :=
  match s.entries with
  | none => .error .misfit
  | some es => match Entries.get? es key with
    | some d => .ok { s with left := [d] }
    | none => .error (.noKey key)

/-- All arguments have been taken. -/
def isSpent (s : Supply) : Bool := s.left.isEmpty || s.entries.isSome

end Supply

structure Placeholder where
  left : Bool
  plus : Bool
  blank : Bool
  alternate : Bool
  zero : Bool
  width : Nat
  precision : Option Nat
deriving DecidableEq, Inhabited

namespace Placeholder

/-- A number or text within its width: the sign, what stands between sign and digits, and the rest. -/
def pad (p : Placeholder) (zero : Bool) (sign head body : List Char) : List Char :=
  let missing := p.width - (sign.length + head.length + body.length)
  if p.left then sign ++ head ++ body ++ List.replicate missing ' '
  else if zero then sign ++ head ++ List.replicate missing '0' ++ body
  else List.replicate missing ' ' ++ sign ++ head ++ body

def signOf (p : Placeholder) (negative : Bool) : List Char :=
  if negative then ['-'] else if p.plus then ['+'] else if p.blank then [' '] else []

def fillText (p : Placeholder) (s : String) : List Char :=
  let cs := s.toList
  p.pad false [] [] (match p.precision with
    | some n => cs.take n
    | none => cs)

def fillInteger (p : Placeholder) (base : Nat) (head : List Char) (n : Int) : List Char :=
  let digits := Nat.toDigits base n.natAbs
  let digits := List.replicate (p.precision.getD 0 - digits.length) '0' ++ digits
  p.pad p.zero (p.signOf (decide (n < 0))) (if p.alternate then head else []) digits

/-- A number whose text may start with a minus. -/
def fillNumber (p : Placeholder) (s : String) : List Char :=
  match s.toList with
  | '-' :: body => p.pad p.zero ['-'] [] body
  | body => p.pad p.zero (p.signOf false) [] body

end Placeholder

namespace Datum

/-- The integer that a datum is exactly. -/
def exactInteger? : Datum → Option Int
  | int n => some n
  | bool b => some (if b then 1 else 0)
  | _ => none

/-- The integer part of a number. -/
def integerPart : Datum → Except TemplateError Int
  | float x => match x.toRat? with
    | some q => .ok (Int.tdiv q.num q.den)
    | none => .error (.noInteger x)
  | d => match d.exactInteger? with
    | some n => .ok n
    | none => .error .misfit

def toBinary64 : Datum → Except TemplateError Binary64
  | float x => .ok x
  | d => match d.exactInteger? with
    | some n => match Binary64.ofInt n with
      | .infinite _ => .error .tooLarge
      | x => .ok x
    | none => .error .misfit

/-- The literal with every character beyond ASCII escaped. -/
def asciiLiteral (d : Datum) : String :=
  let escaped (c : Char) : List Char :=
    let n := c.toNat
    if n < 128 then [c]
    else if n < 0x100 then '\\' :: 'x' :: Text.hexDigits 2 n
    else if n < 0x10000 then '\\' :: 'u' :: Text.hexDigits 4 n
    else '\\' :: 'U' :: Text.hexDigits 8 n
  String.ofList (d.literal.toList.flatMap escaped)

/-- The character that a datum is, or is the code of. -/
def character : Datum → Except TemplateError Char
  | text s => match s.toList with
    | [c] => .ok c
    | _ => .error .misfit
  | d => match d.exactInteger? with
    | some n => if 0 ≤ n && n < 0x110000 then .ok (Char.ofNat n.toNat) else .error .tooLarge
    | none => .error .misfit

end Datum

namespace Placeholder

def upper (cs : List Char) : List Char := cs.map Char.toUpper

/-- The text of a datum by the letter of a conversion, which stands at `index`. -/
def fill (p : Placeholder) (letter : Char) (index : Nat) (d : Datum) :
    Except TemplateError (List Char) := do
  let places := p.precision.getD 6
  let whole (base : Nat) (head : String) : Except TemplateError (List Char) :=
    match d.exactInteger? with
    | some n => .ok (p.fillInteger base head.toList n)
    | none => .error .misfit
  match letter with
  | 's' => return p.fillText d.display
  | 'r' => return p.fillText d.literal
  | 'a' => return p.fillText d.asciiLiteral
  | 'd' | 'i' | 'u' => return p.fillInteger 10 [] (← d.integerPart)
  | 'o' => whole 8 "0o"
  | 'x' => whole 16 "0x"
  | 'X' => return upper (← whole 16 "0x")
  | 'e' => return p.fillNumber ((← d.toBinary64).exponential places p.alternate)
  | 'E' => return upper (p.fillNumber ((← d.toBinary64).exponential places p.alternate))
  | 'f' => return p.fillNumber (point (← d.toBinary64) places)
  | 'F' => return upper (p.fillNumber (point (← d.toBinary64) places))
  | 'g' => return p.fillNumber ((← d.toBinary64).general places p.alternate)
  | 'G' => return upper (p.fillNumber ((← d.toBinary64).general places p.alternate))
  | 'c' => return p.pad false [] [] [← d.character]
  | c => throw (.unknownConversion c index)
where
  point (x : Binary64) (places : Nat) : String :=
    match x with
    | .finite _ _ _ => x.fixed places ++ if p.alternate && places = 0 then "." else ""
    | x => x.text

end Placeholder

/-! ### Reading placeholders -/

namespace Template

/-- The characters up to the parenthesis that closes the key, and those after it. -/
def readKey? : Nat → List Char → Option (List Char × List Char)
  | _, [] => none
  | depth, c :: cs =>
    if c = ')' && depth = 0 then some ([], cs)
    else
      let depth := if c = '(' then depth + 1 else if c = ')' then depth - 1 else depth
      (readKey? depth cs).map fun r => (c :: r.1, r.2)

def readFlags (p : Placeholder) (cs : List Char) : Placeholder × List Char :=
  let flags := cs.takeWhile fun c => ['-', '+', ' ', '#', '0'].contains c
  ({ p with
      left := flags.contains '-', plus := flags.contains '+', blank := flags.contains ' '
      alternate := flags.contains '#', zero := flags.contains '0' },
    cs.drop flags.length)

/-- A number below `limit`, or a star that takes the next argument. -/
def readExtent (limit : Nat) (tooBig : TemplateError) (supply : Supply) (cs : List Char) :
    Except TemplateError (Option Int × List Char × Supply) :=
  match cs with
  | '*' :: rest => do
    let (d, supply) ← supply.take
    match d.exactInteger? with
    | some n => if n < -limit || limit ≤ n then .error .tooLarge else .ok (some n, rest, supply)
    | none => .error .misfit
  | cs =>
    let digits := cs.takeWhile Char.isDigit
    let n : Nat := digits.foldl (fun n c => 10 * n + (c.toNat - 48)) 0
    if limit ≤ n then .error tooBig
    else .ok (if digits.isEmpty then none else some n, cs.drop digits.length, supply)

/-- Widths are below this limit. -/
def widthLimit : Nat := Nat.pow 2 63

/-- Precisions are below this limit. -/
def precisionLimit : Nat := Nat.pow 2 31

/-- The placeholder after a percent sign: what it stands for, the rest of the template and of the
arguments. `size` is the length of the whole template. -/
def readPlaceholder (size : Nat) (supply : Supply) (cs : List Char) :
    Except TemplateError (List Char × List Char × Supply) := do
  let (supply, cs) ← match cs with
    | '(' :: rest =>
      if supply.entries.isNone then throw .misfit
      else match readKey? 0 rest with
        | some (key, rest) => pure (← supply.choose (String.ofList key), rest)
        | none => throw .incompleteKey
    | cs => pure (supply, cs)
  let (p, cs) := readFlags default cs
  let (width, cs, supply) ← readExtent widthLimit .wideWidth supply cs
  let width := width.getD 0
  let p := { p with left := p.left || width < 0, width := width.natAbs }
  let (precision, cs, supply) ← match cs with
    | '.' :: rest => do
      let (n, rest, supply) ← readExtent precisionLimit .widePrecision supply rest
      pure (some (n.getD 0).toNat, rest, supply)
    | cs => pure (none, cs, supply)
  let p := { p with precision }
  let cs := match cs with
    | c :: rest => if ['h', 'l', 'L'].contains c then rest else c :: rest
    | [] => []
  match cs with
  | [] => throw .incomplete
  | letter :: rest =>
    let (d, supply) ← supply.take
    return (← p.fill letter (size - cs.length) d, rest, supply)

/-- Fills a template; `fuel` is at least its length. -/
def fillFrom (size : Nat) : Nat → Supply → List Char → Except TemplateError (List Char)
  | 0, _, _ => .ok []
  | fuel + 1, supply, cs =>
    match cs with
    | [] => if supply.isSpent then .ok [] else .error .misfit
    | '%' :: '%' :: rest => do return '%' :: (← fillFrom size fuel supply rest)
    | '%' :: rest => do
      let (shown, rest, supply) ← readPlaceholder size supply rest
      return shown ++ (← fillFrom size fuel supply rest)
    | c :: rest => do return c :: (← fillFrom size fuel supply rest)

/-- The message of a template; without arguments it is taken as it is. -/
def fill (template : String) (args : List Datum) : Except TemplateError String := do
  if args.isEmpty then return template
  let cs := template.toList
  return String.ofList (← fillFrom cs.length (cs.length + 1) (.ofArgs args) cs)

end Template

end RouteInvariants
