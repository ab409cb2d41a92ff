import RouteInvariants.Datum.Literal

/-!
JSON text of plain data. All characters beyond ASCII are escaped, in surrogate pairs where needed;
tuples are arrays; ratios and calendar data are written as their text. With a unit of indentation each
element has a line of its own, without one everything stands on one line.
-/

namespace RouteInvariants.Datum

def jsonUnit (n : Nat) : List Char := '\\' :: 'u' :: Text.hexDigits 4 n

def jsonChar (c : Char) : List Char :=
  let n := c.toNat
  if c = '"' then ['\\', '"']
  else if c = '\\' then ['\\', '\\']
  else if c = '\n' then ['\\', 'n']
  else if c = '\r' then ['\\', 'r']
  else if c = '\t' then ['\\', 't']
  else if n = 8 then ['\\', 'b']
  else if n = 12 then ['\\', 'f']
  else if 32 ≤ n && n < 127 then [c]
  else if n < 0x10000 then jsonUnit n
  else
    let m := n - 0x10000
    jsonUnit (0xD800 + m / 0x400) ++ jsonUnit (0xDC00 + m % 0x400)

def jsonText (s : String) : String :=
  String.ofList ('"' :: s.toList.flatMap jsonChar ++ ['"'])

def jsonFloat : Binary64 → String
  | .nan => "NaN"
  | .infinite negative => if negative then "-Infinity" else "Infinity"
  | x => x.text

/-- Joins the elements of an array or object whose own indentation is `depth`. -/
def jsonGroup (opening closing : String) (indent : Option String) (depth : Nat)
    (items : List String) : String :=
  if items.isEmpty then opening ++ closing
  else match indent with
    | none => opening ++ ", ".intercalate items ++ closing
    | some k =>
      let line (d : Nat) : String := "\n" ++ String.join (List.replicate d k)
      opening ++ line (depth + 1) ++ ("," ++ line (depth + 1)).intercalate items
        ++ line depth ++ closing

mutual

def jsonAt (indent : Option String) (depth : Nat) : Datum → String
  | null => "null"
  | bool b => if b then "true" else "false"
  | int n => toString n
  | float x => jsonFloat x
  | ratio q => jsonText (ratioText q)
  | text s => jsonText s
  | calendar _ written => jsonText written
  | tuple xs => jsonGroup "[" "]" indent depth (jsonItems indent (depth + 1) xs)
  | list xs => jsonGroup "[" "]" indent depth (jsonItems indent (depth + 1) xs)
  | dict es => jsonGroup "\x7b" "\x7d" indent depth (jsonEntries indent (depth + 1) es)

def jsonItems (indent : Option String) (depth : Nat) : List Datum → List String
  | [] => []
  | x :: xs => jsonAt indent depth x :: jsonItems indent depth xs

def jsonEntries (indent : Option String) (depth : Nat) : List (String × Datum) → List String
  | [] => []
  | (k, x) :: es =>
    (jsonText k ++ ": " ++ jsonAt indent depth x) :: jsonEntries indent depth es

end

def json (indent : Option String) (x : Datum) : String := jsonAt indent 0 x

end RouteInvariants.Datum
