import RouteInvariants.Decision.Unfold

/-!
Simplification of terms: unfold into a decision tree with a small theory and read the tree back. The
theory knows the facts themselves, that a value has one constructor, and that two constants differ.
-/

namespace RouteInvariants

namespace Facts

def truth? (F : Facts) (atom : Term) : Option Bool :=
  (F.find? fun f => f.1 = atom).map Prod.snd

/-- Whether the unknown has constructor `i`, from the tests on it that are known. -/
def ctorTruth? (F : Facts) (i : Nat) (u : Term) : Option Bool :=
  let known := F.findSome? fun f => match f with
    | (.isCon j v, true) => if v = u then some j else none
    | _ => none
  match known with
  | some j => some (i == j)
  | none => match u.sort? with
    | none => none
    | some t =>
      let others := (List.range t.ctors.length).filter (· != i)
      if others.all fun j => truth? F (.isCon j u) == some false then some true else none

/-- Whether the unknown equals the constant, when it is known to equal a constant. -/
def constantTruth? (F : Facts) (u : Term) (v : Value) : Option Bool :=
  F.findSome? fun f => match f with
    | (.eq x (.const w), true) => if x = u then some (decide (v = w)) else none
    | _ => none

/-- The theory of constructors and constants. -/
def decide : Theory := fun F atom =>
  match truth? F atom with
  | some b => some b
  | none => match atom with
    | .isCon i u => ctorTruth? F i u
    | .eq u (.const v) => constantTruth? F u v
    | .eq u x => truth? F (.eq x u)
    | _ => none

end Facts

def Term.simplify (t : Term) : Term := (t.unfold Facts.decide [] []).toTerm

end RouteInvariants
