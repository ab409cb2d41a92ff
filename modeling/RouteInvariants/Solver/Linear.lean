import RouteInvariants.Decision.Unfold

/-!
Linear sums over unknown terms. A comparison of numbers says that such a sum is not negative, or
that it is positive.
-/

namespace RouteInvariants

/-- A sum of unknowns with coefficients, and a constant. -/
structure Linear where
  terms : List (Term × Rat)
  constant : Rat
deriving Inhabited

namespace Linear

def addTerm (u : Term) (k : Rat) : List (Term × Rat) → List (Term × Rat)
  | [] => [(u, k)]
  | (v, m) :: rest =>
    if v = u then (if m + k = 0 then rest else (v, m + k) :: rest) else (v, m) :: addTerm u k rest

def addScaled (a : Linear) (k : Rat) (b : Linear) : Linear :=
  ⟨b.terms.foldl (fun acc p => addTerm p.1 (k * p.2) acc) a.terms, a.constant + k * b.constant⟩

/-- The sum that a numeric term is, over its unknown parts. -/
def ofTerm : Term → Linear
  | .const (.int n) => ⟨[], n⟩
  | .const (.real q) => ⟨[], q⟩
  | .add a b => addScaled (ofTerm a) 1 (ofTerm b)
  | .sub a b => addScaled (ofTerm a) (-1) (ofTerm b)
  | .toReal a => ofTerm a
  | t => ⟨[(t, 1)], 0⟩

end Linear

/-- The statement that a sum is not negative or, if strict, that it is positive. -/
structure Claim where
  sum : Linear
  strict : Bool
deriving Inhabited

namespace Claim

def unknowns (c : Claim) : List Term := c.sum.terms.map Prod.fst

def isNumber (t : Term) : Bool :=
  match t.sort? with
  | some .int | some .real => true
  | _ => false

/-- The claim that a comparison of numbers, or its negation, makes. -/
def ofLiteral? : Term × Bool → Option Claim
  | (.le a b, truth) =>
    if isNumber (.add a b) then
      let x := Linear.ofTerm a
      let y := Linear.ofTerm b
      some (if truth then ⟨y.addScaled (-1) x, false⟩ else ⟨x.addScaled (-1) y, true⟩)
    else none
  | _ => none

/-- The claims that share unknowns with `us`, directly or through others; `fuel` bounds the steps. -/
def around : Nat → List Term → List Claim → List Claim
  | 0, _, cs => cs
  | fuel + 1, us, cs =>
    let touching := cs.filter fun c => c.unknowns.any us.contains
    let more := (us ++ touching.flatMap unknowns).eraseDups
    if more.length = us.length then touching else around fuel more cs

end Claim

end RouteInvariants
