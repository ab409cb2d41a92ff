import RouteInvariants.Route.SortError
import RouteInvariants.Route.Ty

/-!
Declaring sorts. A data sort needs a constructor that does not ask for a value of the sort itself, and
a bit-vector needs a bit. Constructors and fields become members of the sort, next to the members by
which they are looked up; one of the same name takes that member's place, and then looking up fails.
-/

namespace RouteInvariants

/-- A constructor as it is declared: its fields are of given sorts or of the declared sort itself. -/
structure CtorDeclaration where
  name : String
  fields : List (String × Option Ty)
deriving Inhabited

/-- What happens to the members of a sort while it is declared. -/
inductive MemberStep where
  | lookUp (member : String)
  | take (member : String) (isValue : Bool)
deriving DecidableEq, Inhabited

namespace CtorDeclaration

/-- The steps in which a constructor becomes a member, and its fields after it. A constructor without
fields is a value. -/
def steps (c : CtorDeclaration) : List MemberStep :=
  [.lookUp "constructor", .take c.name c.fields.isEmpty, .lookUp "recognizer"]
    ++ c.fields.flatMap fun f => [.lookUp "accessor", .lookUp "constructor", .take f.1 false]

def isRecursive (c : CtorDeclaration) : Bool := c.fields.any fun f => f.2.isNone

def toFields (fields : List (String × Option Ty)) : Fields :=
  fields.foldr (fun f rest => match f with
    | (name, none) => .self name rest
    | (name, some ty) => .field name ty rest) .nil

end CtorDeclaration

namespace MemberStep

/-- Looking up fails where something else took the member's place: a value cannot be applied, and a
function does not take an index. -/
def failure? (member : String) (done : List MemberStep) : Option SortError :=
  done.findSome? fun s => match s with
    | take m isValue =>
      if m = member then some (if isValue then .unsupported else .mismatch) else none
    | _ => none

/-- The first failure in a list of steps, `done` being the steps before it, the latest first. -/
def firstFailure? (done : List MemberStep) : List MemberStep → Option SortError
  | [] => none
  | s :: rest =>
    match s with
    | lookUp member =>
      match failure? member done with
      | some e => some e
      | none => firstFailure? done rest
    | take _ _ => firstFailure? (s :: done) rest

end MemberStep

namespace Ty

/-- The data sort with the given constructors. -/
def declare (name : String) (ctors : List CtorDeclaration) : Except SortError Ty :=
  if ctors.all CtorDeclaration.isRecursive then .error .mismatch
  else match MemberStep.firstFailure? [] (ctors.flatMap CtorDeclaration.steps) with
    | some e => .error e
    | none => .ok (data name (ctors.foldr (fun c rest =>
        .cons c.name (CtorDeclaration.toFields c.fields) rest) .nil))

def words (width : Nat) : Except SortError Ty :=
  if width = 0 then .error .mismatch else .ok (bits width)

/-- Why constructors of a declared sort cannot be looked up, if they cannot. -/
def lookUpError? (t : Ty) : Option SortError :=
  let taken := t.ctors.flatMap fun c =>
    MemberStep.take c.name c.fields.isEmpty :: c.fields.map fun f => .take f.1 false
  MemberStep.failure? "constructor" taken.reverse

end Ty

end RouteInvariants
