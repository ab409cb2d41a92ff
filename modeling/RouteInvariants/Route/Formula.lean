import RouteInvariants.Route.Term

/-!
The text of a term, for logs: operators in front of their operands.
-/

namespace RouteInvariants

def Value.formula : Value → String
  | bool b => if b then "True" else "False"
  | int n => toString n
  | real q => toString q.num ++ "/" ++ toString q.den
  | text cs => "\"" ++ CodePoint.toText cs ++ "\""
  | bits _ b => toString b.toNat
  | con i => "con" ++ toString i
  | app f a => f.formula ++ "(" ++ a.formula ++ ")"
  | array _ => "array"

def Term.formula : Term → String
  | const v => v.formula
  | var x => x.name
  | arg i => "arg" ++ toString i
  | call body a => "Let(" ++ a.formula ++ ", " ++ body.formula ++ ")"
  | call2 body a b => "Let(" ++ a.formula ++ ", " ++ b.formula ++ ", " ++ body.formula ++ ")"
  | ite c a b => "If(" ++ c.formula ++ ", " ++ a.formula ++ ", " ++ b.formula ++ ")"
  | not a => "Not(" ++ a.formula ++ ")"
  | and a b => "And(" ++ a.formula ++ ", " ++ b.formula ++ ")"
  | or a b => "Or(" ++ a.formula ++ ", " ++ b.formula ++ ")"
  | eq a b => a.formula ++ " == " ++ b.formula
  | le a b => a.formula ++ " <= " ++ b.formula
  | add a b => a.formula ++ " + " ++ b.formula
  | sub a b => a.formula ++ " - " ++ b.formula
  | toReal a => "ToReal(" ++ a.formula ++ ")"
  | con i => "con" ++ toString i
  | app f a => f.formula ++ "(" ++ a.formula ++ ")"
  | isCon i a => "is" ++ toString i ++ "(" ++ a.formula ++ ")"
  | field owner i j a => ((owner.field? i j).map Prod.fst).getD "field" ++ "(" ++ a.formula ++ ")"

end RouteInvariants
