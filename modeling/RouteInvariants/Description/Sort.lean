import RouteInvariants.Description.Tagged
import RouteInvariants.Route.Declaration

/-!
Descriptions of sorts.
-/

namespace RouteInvariants.Description

/-- The sort that is described; `fuel` bounds the nesting. -/
def sortWithin : Nat → Datum → Except SortError Ty
  | 0, _ => .error .mismatch
  | fuel + 1, d => do
    if let some t := Entries.get? Ty.named (name d) then return t
    let field (f : Datum) : Except SortError (String × Option Ty) := match f with
      | .list [n, .text "self"] => return (name n, none)
      | .list [n, t] => return (name n, some (← sortWithin fuel t))
      | _ => throw .mismatch
    match tagged d ["option", "bv", "array", "tuple", "data"] with
    | ("option", t) => return .option (← sortWithin fuel t)
    | ("bv", n) => Ty.words (integer n).toNat
    | ("array", .list [i, e]) => return .array (← sortWithin fuel i) (← sortWithin fuel e)
    | ("tuple", .list [n, ts]) => return .tuple (name n) (← (items ts).mapM (sortWithin fuel))
    | ("data", .list [n, cs]) => Ty.declare (name n) (← (items cs).mapM fun c => match c with
        | .list [n, fs] => return CtorDeclaration.mk (name n) (← (items fs).mapM field)
        | _ => throw .mismatch)
    | _ => throw .mismatch

def sort (d : Datum) : Except SortError Ty := sortWithin (d.depth + 1) d

end RouteInvariants.Description
