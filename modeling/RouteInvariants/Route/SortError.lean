import RouteInvariants.Datum.Literal

/-!
Why an expression has no term, or a sort cannot be declared.
-/

namespace RouteInvariants

/-- An operation is not defined for its operands, a sort lacks what is asked of it, sorts do not fit,
a datum is no constant of any sort, a number is no integer, or a name refers to nothing. -/
inductive SortError where
  | unsupported
  | noMember
  | mismatch
  | cannotLift (d : Datum)
  | noInteger (x : Binary64)
  | unknownName (name : String)
deriving Inhabited

def SortError.message : SortError → String
  | unsupported => "operation not supported by its operands"
  | noMember => "the sort has no such member"
  | mismatch => "sort mismatch"
  | cannotLift d => "cannot lift " ++ d.typeName ++ " value " ++ d.literal ++ " into z3"
  | noInteger .nan => "cannot convert float NaN to integer"
  | noInteger _ => "cannot convert float infinity to integer"
  | unknownName name => Text.quoted name

end RouteInvariants
