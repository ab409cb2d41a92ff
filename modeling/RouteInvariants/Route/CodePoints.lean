import RouteInvariants.Text.Quoted

/-!
Texts as route values: sequences of code points below `0x30000`. The written form has escapes, a
backslash, `u` and a code point in hexadecimal, either in braces or as exactly four digits. A
backslash that starts no escape stands for itself.
-/

namespace RouteInvariants

abbrev CodePoint := Fin 0x30000

namespace CodePoint

def ofNat (n : Nat) : CodePoint := Fin.ofNat 0x30000 n

def hexValue? (c : Char) : Option Nat :=
  if '0' ≤ c && c ≤ '9' then some (c.toNat - 48)
  else if 'a' ≤ c && c ≤ 'f' then some (c.toNat - 87)
  else if 'A' ≤ c && c ≤ 'F' then some (c.toNat - 55)
  else none

def hexNumber? (cs : List Char) : Option Nat :=
  cs.foldl (fun acc c => acc.bind fun n => (hexValue? c).map fun d => 16 * n + d) (some 0)

/-- The escape at the start of the characters: its value and how many characters it takes. -/
def escape? : List Char → Option (Nat × Nat)
  | '\\' :: 'u' :: '\x7b' :: rest =>
    let digits := rest.takeWhile fun c => (hexValue? c).isSome
    if 1 ≤ digits.length && digits.length ≤ 5 && rest[digits.length]? == some '\x7d' then
      match hexNumber? digits with
      | some n => if n < 0x30000 then some (n, digits.length + 4) else none
      | none => none
    else none
  | '\\' :: 'u' :: a :: b :: c :: d :: _ => (hexNumber? [a, b, c, d]).map fun n => (n, 6)
  | _ => none

/-- Reads escapes; the first argument counts characters of an escape still to be skipped. -/
def decode : Nat → List Char → List CodePoint
  | _, [] => []
  | skip + 1, _ :: rest => decode skip rest
  | 0, c :: rest =>
    match escape? (c :: rest) with
    | some (n, length) => ofNat n :: decode (length - 1) rest
    | none => ofNat c.toNat :: decode 0 rest

def escaped (n : Nat) : List Char :=
  '\\' :: 'u' :: '\x7b' :: (Text.hex n).toList ++ ['\x7d']

/-- The code points of a text. Characters outside printable ASCII count as their own escapes, so
one beyond the range stays as the text of its escape. -/
def ofString (s : String) : List CodePoint :=
  decode 0 (s.toList.flatMap fun c =>
    if 32 ≤ c.toNat && c.toNat < 127 then [c] else escaped c.toNat)

/-- The written form: code points up to 255 as they are, except for zero and for a backslash that
would start an escape. -/
def encode : List CodePoint → List Char
  | [] => []
  | c :: rest =>
    let n := c.val
    let startsEscape := n = 92 && rest.head?.any fun d => d.val = 117
    if n = 0 || 255 < n || startsEscape then escaped n ++ encode rest
    else Char.ofNat n :: encode rest

def toText (cs : List CodePoint) : String := String.ofList (encode cs)

/-- Lexicographic order by code point. -/
def le : List CodePoint → List CodePoint → Bool
  | [], _ => true
  | _ :: _, [] => false
  | a :: as, b :: bs => if a = b then le as bs else decide (a.val < b.val)

end CodePoint

end RouteInvariants
