import RouteInvariants.Decision.Simplify
import RouteInvariants.Solver.Arrays
import RouteInvariants.Solver.Joins
import RouteInvariants.Solver.Shapes
import RouteInvariants.Solver.Texts
import RouteInvariants.Solver.Words

/-!
Queries: closed Boolean terms. A query is unfolded under a theory that decides every supported atom,
so the cases in which it is true, its cubes, are exactly the ways to satisfy it. From the cubes come
the verdict, the values that all solutions share, and the least time of a solution.
-/

namespace RouteInvariants

namespace Solver

/-- Comparisons of texts: joined texts need the equations to be solved, an order needs places, and
else classes are enough. -/
def textTheory (F : Facts) (atom a b : Term) : Option Bool :=
  let G := F.filter fun f => Texts.isAtom f.1
  let atoms := atom :: G.map Prod.fst
  if atoms.any Joins.isComparison then Joins.decide? G atom
  else if atoms.any Texts.isOrder then Texts.decide? G atom
  else Classes.decide? G a b

/-- The one value that the facts leave for a text. -/
def forcedText? (F : Facts) (t : Term) : Option Value :=
  let G := F.filter fun f => Texts.isAtom f.1
  if Joins.isJoined t || G.any fun f => Joins.isComparison f.1 then Joins.forced? G t
  else if G.any fun f => Texts.isOrder f.1 then Texts.forced? G t
  else Classes.forced? G t

/-- The combined theory: constructors and constants, numbers, bit-vectors, texts, recursive data,
arrays, equality classes. -/
def theory : Theory := fun F atom =>
  match Facts.decide F atom with
  | some b => some b
  | none =>
    match atom, Words.width? atom with
    | _, some w => Words.decide? F w atom
    | .le a b, none => if Texts.isAtom atom then textTheory F atom a b else Numbers.decide? F atom
    | .eq a b, none =>
      if Texts.isAtom atom then textTheory F atom a b
      else if Shapes.isAtom atom then Shapes.decide? F atom
      else match Arrays.sort? atom with
        | some t => Arrays.decide? F t atom
        | none => Classes.decide? F a b
    | .isCon _ _, none => if Shapes.isAtom atom then Shapes.decide? F atom else none
    | _, none => none

/-! ### Facts that follow from others

A field that a value does not have is some value of its own, but the same for equal values. And an
equation between unknowns of a recursive sort says more as soon as the constructor of one of them is
known. -/

/-- The fields in a term that are read from values without them. -/
def absentFields : Term → List Term
  | .field owner i j a =>
    absentFields a ++ (match a.spine? with
      | some (k, _ :: _) => if k = i then [] else [.field owner i j a]
      | _ => [])
  | .add a b | .sub a b | .eq a b | .le a b | .app a b => absentFields a ++ absentFields b
  | .toReal a | .isCon _ a => absentFields a
  | _ => []

/-- That two absent fields agree if they are read from equal values. -/
def agreement? (u v : Term) : Option Term :=
  match u, v with
  | .field owner i j a, .field owner' i' j' b =>
    if owner = owner' && i = i' && j = j' && (a.spine?.map Prod.fst) = (b.spine?.map Prod.fst) then
      some (.or (.not (.eq a b)) (.eq u v))
    else none
  | _, _ => none

def agreements : List Term → List Term
  | [] => []
  | u :: us => us.filterMap (agreement? u) ++ agreements us

/-- What an equation of recursive data says once a constructor is known, or what an inequation says
once both are. -/
def consequence? (F : Facts) : Term × Bool → Option Term
  | (.eq a b, truth) =>
    match (Term.add a b).sort? with
    | some (.data name cs) => do
      let owner : Ty := .data name cs
      let known (i : Nat) (t : Term) : Bool := theory F (.isCon i t) == some true
      let p ← owner.ctors.zipIdx.find? fun p =>
        if truth then known p.2 a || known p.2 b else known p.2 a && known p.2 b
      let same : Term := .conj (.isCon p.2 a :: .isCon p.2 b
        :: (List.range p.1.fields.length).map fun j =>
          .eq (.field owner p.2 j a) (.field owner p.2 j b))
      some (if truth then same else .not same)
    | _ => none
  | _ => none

/-- A case split further until nothing follows from its facts that they do not say; `fuel` bounds the
rounds. -/
def refine (t : Term) : Nat → Facts → List Facts
  | 0, F => [F]
  | fuel + 1, F =>
    let absent := (absentFields t ++ F.flatMap fun f => absentFields f.1).eraseDups
    let more := agreements absent ++ F.filterMap (consequence? F)
    if more.isEmpty then [F]
    else (((Term.conj more).unfold theory F []).cubes F).flatMap fun G =>
      if G.length = F.length then [G] else refine t fuel G

def rounds : Nat := 50

/-- The conjuncts of a query, the last one first. What a check is about comes last in its query and
splits less than the restrictions before it. -/
def conjuncts : Term → List Term
  | .and a b => conjuncts b ++ conjuncts a
  | t => [t]

/-- The facts of the cases in which a query about the arguments `xs` is true. -/
def cubesOf (xs : List Term) (q : Term) : List Facts :=
  (((Term.ite (.conj (conjuncts q)) .tt .ff).unfold theory [] (xs.map .leaf)).cubes []).flatMap (refine .tt rounds)

/-- The facts of the cases in which a query is true. -/
def cubes (q : Term) : List Facts := cubesOf [] q

/-! ### Values shared by all solutions -/

/-- The one value that the facts leave for a case's term; `fuel` bounds the nesting of data. -/
def settled? (F : Facts) : Nat → Term → Option Value
  | 0, _ => none
  | fuel + 1, t =>
    match t, t.spine? with
    | .const v, _ => some v
    | _, some (i, xs) => do
      let vs ← xs.mapM (settled? F fuel)
      some (vs.foldl Value.app (.con i))
    | _, none =>
      match t.sort? with
      | some .bool => (theory F t).map Value.bool
      | some .int => (Numbers.forced? F t).map fun q => .int q.floor
      | some .real => (Numbers.forced? F t).map Value.real
      | some .text => forcedText? F t
      | some (.bits w) => Words.forced? F w t
      | some (.data name cs) => do
        let owner : Ty := .data name cs
        let p ← owner.ctors.zipIdx.find? fun p => theory F (.isCon p.2 t) == some true
        let vs ← (List.range p.1.fields.length).mapM fun j =>
          settled? F fuel (.field owner p.2 j t)
        some (vs.foldl Value.app (.con p.2))
      | _ => none

/-- The value of a term in every solution that satisfies the facts. -/
def valueUnder? (F : Facts) (t : Term) : Option Value :=
  let cases := ((t.unfold theory F []).cases F).flatMap fun c =>
    (refine c.2 rounds c.1).map fun G => (G, c.2)
  let values := cases.map fun c => settled? c.1 Tree.equalityDepth c.2
  match values with
  | some v :: rest => if rest.all (· == some v) then some v else none
  | _ => none

/-- The value of a term in every solution of the cubes. -/
def forced? (cs : List Facts) (t : Term) : Option Value :=
  match cs with
  | [] => none
  | F :: rest => do
    let v ← valueUnder? F t
    if rest.all fun G => valueUnder? G t == some v then some v else none

/-! ### Time -/

def leastTime? (cs : List Facts) : Option Int :=
  let times := cs.map fun F => Numbers.least? F (.var .time)
  times.foldl (fun acc t => match acc, t with
    | some a, some b => some (min a b)
    | none, t => t
    | a, none => a) none

/-- The cubes of the solutions with the least time, if time is bounded at all. -/
def earliest (q : Term) (cs : List Facts) : List Facts :=
  match leastTime? cs with
  | some t => cubes (.and (.eq (.var .time) (.int t)) q)
  | none => cs

end Solver

end RouteInvariants
