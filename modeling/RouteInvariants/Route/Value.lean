import RouteInvariants.Datum.Basic
import RouteInvariants.Route.CodePoints
import RouteInvariants.Route.Ty

/-!
Values of routes. A value of a data sort is a constructor, given by its index, applied to its
arguments one at a time. Arithmetic and order are those of the sort: integers are unbounded,
bit-vectors wrap and are ordered as signed numbers, texts are ordered by code point.
-/

namespace RouteInvariants

/-- The language has no operation on arrays, so an array is just a point, one of as many as there are
arrays of the sort. -/
inductive Value where
  | bool (b : Bool)
  | int (n : Int)
  | real (q : Rat)
  | text (cs : List CodePoint)
  | bits (width : Nat) (b : BitVec width)
  | con (index : Nat)
  | app (f a : Value)
  | array (point : Nat)
deriving DecidableEq, Inhabited

namespace Value

def isTrue (v : Value) : Bool := v == .bool true

def ofString (s : String) : Value := .text (CodePoint.ofString s)

def none : Value := .con 0

def some (v : Value) : Value := .app (.con 1) v

def edge (source target : String) : Value := .app (.app (.con 0) (ofString source)) (ofString target)

def bitsOfInt (width : Nat) (n : Int) : Value := .bits width (BitVec.ofInt width n)

/-- The constructor index of a value of a data sort. -/
def head? : Value → Option Nat
  | con i => Option.some i
  | app f _ => f.head?
  | _ => Option.none

/-- The arguments of the constructor. -/
def args : Value → List Value
  | app f a => f.args ++ [a]
  | _ => []

mutual

/-- Whether a value is of a sort: one of a data sort has all the arguments of its constructor. -/
def fits : Ty → Value → Bool
  | .bool, bool _ | .int, int _ | .real, real _ | .text, text _ => true
  | .bits w, bits v _ => w == v
  | .array i e, array p => decide (p < (Ty.array i e).countUpTo (p + 1))
  | t, con i => (t.ctor? i).any fun c => c.fields.isEmpty
  | t, app f a => match pending? t f with
    | Option.some [s] => fits s a
    | _ => false
  | _, _ => false
termination_by structural _ v => v

/-- The sorts of the arguments that a constructor of the sort is still to be applied to. -/
def pending? : Ty → Value → Option (List Ty)
  | t, con i => (t.ctor? i).map fun c => c.fields.map Prod.snd
  | t, app f a => match pending? t f with
    | Option.some (s :: rest) => if fits s a then Option.some rest else Option.none
    | _ => Option.none
  | _, _ => Option.none
termination_by structural _ v => v

end

def add : Value → Value → Value
  | int a, int b => int (a + b)
  | real a, real b => real (a + b)
  | bits w a, bits _ b => bits w (a + b.setWidth w)
  | text a, text b => text (a ++ b)
  | v, _ => v

def sub : Value → Value → Value
  | int a, int b => int (a - b)
  | real a, real b => real (a - b)
  | bits w a, bits _ b => bits w (a - b.setWidth w)
  | v, _ => v

def le : Value → Value → Bool
  | int a, int b => decide (a ≤ b)
  | real a, real b => decide (a ≤ b)
  | bits w a, bits _ b => a.sle (b.setWidth w)
  | text a, text b => CodePoint.le a b
  | _, _ => false

def toReal : Value → Value
  | int n => real n
  | v => v

/-! ### Plain data -/

/-- The datum of a constructor application. Absent values are null, a present value is shown as its
payload, a constructor without fields by its name, numbered fields make a tuple; other constructors
are a dictionary of their fields. -/
def ctorDatum (c : Ctor) (fields : List Datum) : Datum :=
  if fields.isEmpty then (if c.name = "none" then .null else .text c.name)
  else match c.name, fields with
    | "some", [v] => v
    | name, _ =>
      let names := c.fields.map Prod.fst
      if (names.take fields.length).all fun n => n.startsWith "project" then .tuple fields
      else .dict (Entries.ofList (("constructor", .text name) :: names.zip fields))

mutual

/-- The datum of a value of the given sort. -/
def toDatum (t : Ty) : Value → Datum
  | bool b => .bool b
  | int n => .int n
  | real q => .ratio q
  | text cs => .text (CodePoint.toText cs)
  | bits _ b => .int b.toNat
  | con i => ctorDatum ((t.ctor? i).getD default) []
  | app f a =>
    let i := f.head?.getD 0
    let last := ((t.field? i f.args.length).map Prod.snd).getD default
    ctorDatum ((t.ctor? i).getD default) (fieldData t f ++ [a.toDatum last])
  | array _ => .text "array"

/-- The data of the arguments of a constructor of sort `t`. -/
def fieldData (t : Ty) : Value → List Datum
  | app f a =>
    let sort := ((t.field? (f.head?.getD 0) f.args.length).map Prod.snd).getD default
    fieldData t f ++ [a.toDatum sort]
  | _ => []

end

end Value

end RouteInvariants
