import RouteInvariants.Decimal.Reading
import RouteInvariants.Datum.Basic

/-!
Descriptions are plain data in which a dictionary stands for what its key says: `{"tuple": …}` is a
tuple and `{"option": …}` a sort. Here are the ways to look into a description, and the values that
are described with tags because plain data lack them.
-/

namespace RouteInvariants

namespace Datum

mutual

/-- How deep data are nested. -/
def depth : Datum → Nat
  | tuple xs => depths xs + 1
  | list xs => depths xs + 1
  | dict es => entryDepths es + 1
  | _ => 0

def depths : List Datum → Nat
  | [] => 0
  | x :: xs => max x.depth (depths xs)

def entryDepths : List (String × Datum) → Nat
  | [] => 0
  | e :: es => max e.2.depth (entryDepths es)

end

end Datum

namespace Description

def field? (d : Datum) (key : String) : Option Datum :=
  match d with
  | .dict es => Entries.get? es key
  | _ => none

/-- The first of the keys that a description has, with what stands under it. -/
def tagged (d : Datum) (keys : List String) : String × Datum :=
  (keys.findSome? fun k => (field? d k).map (k, ·)).getD ("", .null)

def items : Datum → List Datum
  | .list xs => xs
  | _ => []

def name : Datum → String
  | .text s => s
  | _ => ""

/-- An integer: a number, its decimal text, or such a text with a tag. -/
def integer? (d : Datum) : Option Int :=
  match d, field? d "int" with
  | .int n, _ => some n
  | .text s, _ | _, some (.text s) => Decimal.readInt? s.toList
  | _, _ => none

def integer (d : Datum) : Int := (integer? d).getD 0

/-- An index; a negative one is as good as one beyond all bounds. -/
def index (d : Datum) : Nat := if integer d < 0 then Nat.pow 2 32 else (integer d).toNat

/-- The value that a description with tags stands for; `fuel` bounds the nesting. -/
def valueWithin : Nat → Datum → Datum
  | 0, d => d
  | fuel + 1, d =>
    match d, tagged d ["int", "float", "frac", "tuple", "list", "dict"] with
    | .list xs, _ => .list (xs.map (valueWithin fuel))
    | _, ("int", _) => .int (integer d)
    | _, ("float", x) => (Decimal.readBinary64? (name x).toList).elim .null .float
    | _, ("frac", x) => (Decimal.readNumeral? (name x)).elim .null .ratio
    | _, ("tuple", xs) => .tuple ((items xs).map (valueWithin fuel))
    | _, ("list", xs) => xs
    | _, ("dict", es) => .dict (Entries.ofList ((items es).filterMap fun e => match e with
        | .list [k, x] => some (name k, valueWithin fuel x)
        | _ => none))
    | d, _ => d

/-- The value that a description with tags stands for. -/
def value (d : Datum) : Datum := valueWithin (d.depth + 1) d

/-- The dictionary that a list of pairs stands for. -/
def table (d : Datum) : Datum := value (.dict [("dict", d)])

end Description

end RouteInvariants
