import RouteInvariants.Text.Printable

/-!
Quoted text: a string between quotes, with escapes for what cannot be shown. Apostrophes are the
default quotes; a text that holds an apostrophe and no double quote takes double quotes.
-/

namespace RouteInvariants.Text

def hexDigit (n : Nat) : Char :=
  if n < 10 then Char.ofNat (48 + n) else Char.ofNat (87 + n)

/-- The lowest `width` hexadecimal digits of `n`, most significant first. -/
def hexDigits (width n : Nat) : List Char :=
  (List.range width).map fun i => hexDigit (n / Nat.pow 16 (width - 1 - i) % 16)

/-- `n` in hexadecimal without leading zeros. -/
def hex (n : Nat) : String :=
  String.ofList (hexDigits (if n = 0 then 1 else Nat.log2 n / 4 + 1) n)

/-- One character inside quotes `q`: the quote and the backslash are escaped, the three common
blanks have names, other hidden characters are written by code point. -/
def quoteChar (q c : Char) : List Char :=
  if c = q || c = '\\' then ['\\', c]
  else if c = '\n' then ['\\', 'n']
  else if c = '\r' then ['\\', 'r']
  else if c = '\t' then ['\\', 't']
  else if isPrintable c then [c]
  else if c.toNat < 0x100 then '\\' :: 'x' :: hexDigits 2 c.toNat
  else if c.toNat < 0x10000 then '\\' :: 'u' :: hexDigits 4 c.toNat
  else '\\' :: 'U' :: hexDigits 8 c.toNat

def quoteMark (cs : List Char) : Char :=
  if cs.contains '\'' && !cs.contains '"' then '"' else '\''

def quoted (s : String) : String :=
  let q := quoteMark s.toList
  String.ofList (q :: s.toList.flatMap (quoteChar q) ++ [q])

end RouteInvariants.Text
