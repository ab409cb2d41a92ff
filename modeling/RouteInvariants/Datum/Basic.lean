import RouteInvariants.Decimal.Binary64
import RouteInvariants.Text.Lines

/-!
Plain data: what a route value, a setting or a report field looks like to the reader of an answer.
Dictionaries keep the order in which their keys were first written.
-/

namespace RouteInvariants

/-- The calendar types that a settings file can hold. -/
inductive CalendarKind where
  | date | time | dateTime
deriving DecidableEq, Inhabited

inductive Datum where
  | null
  | bool (b : Bool)
  | int (n : Int)
  | float (x : Binary64)
  | ratio (q : Rat)
  | text (s : String)
  | tuple (xs : List Datum)
  | list (xs : List Datum)
  | dict (entries : List (String × Datum))
  | calendar (kind : CalendarKind) (written : Text.Line)
deriving Inhabited, BEq

namespace Datum

/-- The name of a datum's type in error messages. -/
def typeName : Datum → String
  | null => "NoneType"
  | bool _ => "bool"
  | int _ => "int"
  | float _ => "float"
  | ratio _ => "Fraction"
  | text _ => "str"
  | tuple _ => "tuple"
  | list _ => "list"
  | dict _ => "dict"
  | calendar .date _ => "date"
  | calendar .time _ => "time"
  | calendar .dateTime _ => "datetime"

/-- Whether a datum counts as true where a condition is asked for: empty and zero data do not. -/
def truthy : Datum → Bool
  | null => false
  | bool b => b
  | int n => n != 0
  | float (.finite _ m _) => m != 0
  | float _ => true
  | ratio q => q != 0
  | text s => !s.isEmpty
  | tuple xs => !xs.isEmpty
  | list xs => !xs.isEmpty
  | dict es => !es.isEmpty
  | calendar _ _ => true

/-- The entries of a dictionary; other data have none. -/
def entries : Datum → List (String × Datum)
  | dict es => es
  | _ => []

/-- A number less one. -/
def predecessor? : Datum → Option Datum
  | bool b => some (int (if b then 0 else -1))
  | int n => some (int (n - 1))
  | ratio q => some (ratio (q - 1))
  | float x => some (float (match x.toRat? with
    | some q => .ofRat (q - 1)
    | none => x))
  | _ => none

end Datum

abbrev Named := List (String × Datum)

/-! ### Association lists as ordered dictionaries -/

namespace Entries

variable {κ α : Type} [DecidableEq κ]

def keys (entries : List (κ × α)) : List κ := entries.map Prod.fst

def get? (entries : List (κ × α)) (key : κ) : Option α :=
  (entries.find? fun e => e.1 = key).map Prod.snd

/-- Writes a key: an existing one keeps its place, a new one goes to the end. -/
def insert : List (κ × α) → κ → α → List (κ × α)
  | [], key, value => [(key, value)]
  | e :: rest, key, value =>
    if e.1 = key then (key, value) :: rest else e :: insert rest key value

def ofList (entries : List (κ × α)) : List (κ × α) :=
  entries.foldl (fun acc e => insert acc e.1 e.2) []

/-- Two dictionaries with the same values under the same keys; the order of the keys may differ. -/
def sameValues [DecidableEq α] (es fs : List (κ × α)) : Bool :=
  es.length = fs.length && es.all fun e => get? fs e.1 = some e.2

end Entries

end RouteInvariants
