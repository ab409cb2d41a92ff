/-!
Sorts of routes. Data sorts list their constructors, and a field is either of another sort or of the
sort being declared. Options, the unit, edges and tuples are data sorts. A plain truth value, which
comparing with nothing gives, has a sort of its own: it can be used where a Boolean is asked for, but
it is no route.
-/

namespace RouteInvariants

mutual

inductive Ty where
  | bool
  | int
  | real
  | text
  | bits (width : Nat)
  | array (index element : Ty)
  | data (name : String) (ctors : Ctors)
  | truth
deriving DecidableEq

/-- The constructors of a data sort, in order. -/
inductive Ctors where
  | nil
  | cons (name : String) (fields : Fields) (rest : Ctors)
deriving DecidableEq

/-- The fields of a constructor, in order; `self` is a field of the declared sort itself. -/
inductive Fields where
  | nil
  | self (name : String) (rest : Fields)
  | field (name : String) (ty : Ty) (rest : Fields)
deriving DecidableEq

end

instance : Inhabited Ty := ⟨.int⟩

/-- A constructor as it is used: the fields have their sorts. -/
structure Ctor where
  name : String
  fields : List (String × Ty)
deriving DecidableEq, Inhabited

def Fields.toList (owner : Ty) : Fields → List (String × Ty)
  | nil => []
  | self name rest => (name, owner) :: rest.toList owner
  | field name ty rest => (name, ty) :: rest.toList owner

def Ctors.toList (owner : Ty) : Ctors → List Ctor
  | nil => []
  | cons name fields rest => ⟨name, fields.toList owner⟩ :: rest.toList owner

/-- Whether a field is of the declared sort itself. -/
def Fields.hasSelf : Fields → Bool
  | nil => false
  | self _ _ => true
  | field _ _ rest => rest.hasSelf

def Ctors.recursive : Ctors → Bool
  | nil => false
  | cons _ fields rest => fields.hasSelf || rest.recursive

mutual

/-- Whether a recursive sort occurs in a sort. -/
def Ty.hasRecursion : Ty → Bool
  | .array i e => i.hasRecursion || e.hasRecursion
  | .data _ cs => cs.hasRecursion
  | _ => false

def Ctors.hasRecursion : Ctors → Bool
  | .nil => false
  | .cons _ fields rest => fields.hasRecursion || rest.hasRecursion

def Fields.hasRecursion : Fields → Bool
  | .nil => false
  | .self _ _ => true
  | .field _ ty rest => ty.hasRecursion || rest.hasRecursion

end

mutual

/-- The number of values of a sort, or `limit` where it has more. Of arrays there are as many as there
are ways to give each index an element. -/
def Ty.countUpTo (limit : Nat) : Ty → Nat
  | .bool => min limit 2
  | .bits w => if limit ≤ w then limit else min limit (Nat.pow 2 w)
  | .array i e =>
    let elements := e.countUpTo limit
    let indices := i.countUpTo limit
    if elements ≤ 1 then min limit 1
    else if limit ≤ indices then limit
    else min limit (Nat.pow elements indices)
  | .data _ cs => if cs.recursive then limit else cs.countUpTo limit
  | _ => limit

def Ctors.countUpTo (limit : Nat) : Ctors → Nat
  | .nil => 0
  | .cons _ fields rest => min limit (fields.countUpTo limit + rest.countUpTo limit)

def Fields.countUpTo (limit : Nat) : Fields → Nat
  | .nil => min limit 1
  | .self _ _ => limit
  | .field _ ty rest => min limit (ty.countUpTo limit * rest.countUpTo limit)

end

/-- Whether some constructor has no field of the declared sort itself. -/
def Ctors.grounded : Ctors → Bool
  | nil => false
  | cons _ fields rest => !fields.hasSelf || rest.grounded

mutual

/-- Whether a sort can be declared, and all sorts that occur in it: each has a value then. A plain
truth value is of no declared sort. -/
def Ty.isDeclared : Ty → Bool
  | .array i e => i.isDeclared && e.isDeclared
  | .data _ cs => cs.grounded && cs.isDeclared
  | .truth => false
  | _ => true

def Ctors.isDeclared : Ctors → Bool
  | .nil => true
  | .cons _ fields rest => fields.isDeclared && rest.isDeclared

def Fields.isDeclared : Fields → Bool
  | .nil => true
  | .self _ rest => rest.isDeclared
  | .field _ ty rest => ty.isDeclared && rest.isDeclared

end

namespace Ty

def isData : Ty → Bool
  | data _ _ => true
  | _ => false

/-- The constructors of a sort; only data sorts have any. -/
def ctors : Ty → List Ctor
  | data name cs => cs.toList (data name cs)
  | _ => []

def ctor? (t : Ty) (i : Nat) : Option Ctor := t.ctors[i]?

def field? (t : Ty) (i j : Nat) : Option (String × Ty) := (t.ctor? i).bind fun c => c.fields[j]?

/-! ### Names

The name of a sort is broken into lines where it does not fit into one. -/

/-- Columns of a line. -/
def lineWidth : Nat := 60

/-- Columns up to which broken lines are indented. -/
def indentLimit : Nat := 40

/-- The name of a sort in one line. -/
def inline : Ty → String
  | bool => "Bool"
  | int => "Int"
  | real => "Real"
  | text => "String"
  | bits w => "BitVec(" ++ toString w ++ ")"
  | array i e => "Array(" ++ i.inline ++ ", " ++ e.inline ++ ")"
  | data name _ => name
  | truth => "bool"

/-- The name of a sort from a column on, with broken lines indented, and the column after it. -/
def layout (indent column : Nat) : Ty → String × Nat
  | array i e =>
    let name := (array i e).inline
    if column + name.length ≤ lineWidth then (name, column + name.length)
    else
      let inner := min (indent + 6) indentLimit
      let (first, _) := i.layout inner (column + 6)
      let (second, column) := e.layout inner inner
      ("Array(" ++ first ++ ",\n" ++ "".pushn ' ' inner ++ second ++ ")", column + 1)
  | t => (t.inline, column + t.inline.length)

/-- The name of a sort in messages. -/
def display (t : Ty) : String := (t.layout 0 0).1

/-- Values that may be absent. -/
def option (element : Ty) : Ty :=
  data ("Option[" ++ element.display ++ "]")
    (.cons "none" .nil (.cons "some" (.field "value" element .nil) .nil))

def unit : Ty := data "Unit" (.cons "unit" .nil .nil)

def tupleFields (k : Nat) : List Ty → Fields
  | [] => .nil
  | t :: ts => .field ("project" ++ toString k) t (tupleFields (k + 1) ts)

/-- A sort with one constructor, of the sort's name, and numbered fields. -/
def tuple (name : String) (elements : List Ty) : Ty :=
  data name (.cons name (tupleFields 0 elements) .nil)

def edge : Ty := tuple "Edge" [text, text]

/-- The sorts that have a name of their own in descriptions. -/
def named : List (String × Ty) :=
  [("int", int), ("bool", bool), ("string", text), ("real", real), ("unit", unit), ("edge", edge)]

def isOption (t : Ty) : Bool := t.ctors.map Ctor.name == ["none", "some"]

/-- The sort of the first field of the second constructor. -/
def element? (t : Ty) : Option Ty := (t.field? 1 0).map Prod.snd

end Ty

end RouteInvariants
