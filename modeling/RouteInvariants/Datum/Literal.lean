import RouteInvariants.Datum.Basic
import RouteInvariants.Decimal.Shortest
import RouteInvariants.Text.Quoted

/-!
Literal text of plain data: the notation in which reports and error messages show a value. A tuple
of one element keeps a comma, texts are quoted.
-/

namespace RouteInvariants.Datum

def ratioText (q : Rat) : String :=
  if q.den = 1 then toString q.num else toString q.num ++ "/" ++ toString q.den

mutual

def literal : Datum → String
  | null => "None"
  | bool b => if b then "True" else "False"
  | int n => toString n
  | float x => x.text
  | ratio q => "Fraction(" ++ toString q.num ++ ", " ++ toString q.den ++ ")"
  | text s => Text.quoted s
  | tuple [x] => "(" ++ literal x ++ ",)"
  | tuple xs => "(" ++ ", ".intercalate (literals xs) ++ ")"
  | list xs => "[" ++ ", ".intercalate (literals xs) ++ "]"
  | dict es => "\x7b" ++ ", ".intercalate (entryLiterals es) ++ "\x7d"
  | calendar _ written => written

def literals : List Datum → List String
  | [] => []
  | x :: xs => literal x :: literals xs

def entryLiterals : List (String × Datum) → List String
  | [] => []
  | (k, x) :: es => (Text.quoted k ++ ": " ++ literal x) :: entryLiterals es

end

/-- The text of a datum shown on its own: a text as it is, a ratio as a fraction. -/
def display : Datum → String
  | text s => s
  | ratio q => ratioText q
  | x => x.literal

end RouteInvariants.Datum
