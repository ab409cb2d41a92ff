import RouteInvariants.Decision.Tree

/-!
Unfolding a term into a decision tree. Calls, conditionals and connectives disappear, constants are
folded, and conditions end up as atoms: Boolean unknowns, constructor tests, comparisons of numbers
and equalities of texts and bit-vectors. An unknown is a variable or a field of an unknown.
-/

namespace RouteInvariants

namespace Value

/-- The sort of a value that shows it. -/
def sort? : Value → Option Ty
  | bool _ => Option.some .bool
  | int _ => Option.some .int
  | real _ => Option.some .real
  | text _ => Option.some .text
  | bits w _ => Option.some (.bits w)
  | _ => Option.none

def negate : Value → Value
  | int n => int (-n)
  | real q => real (-q)
  | bits w b => bits w (-b)
  | v => v

def isNumber : Value → Bool
  | int _ | real _ | bits _ _ => true
  | _ => false

def isZero : Value → Bool
  | int n => n == 0
  | real q => q == 0
  | bits _ b => b.toNat == 0
  | _ => false

end Value

namespace Term

/-- The sort of a case's term, as far as the term shows it. -/
def sort? : Term → Option Ty
  | const v => v.sort?
  | var x => some x.ty
  | field owner i j _ => (owner.field? i j).map Prod.snd
  | add a b => match a.sort? with
    | some t => some t
    | none => b.sort?
  | sub a _ => a.sort?
  | toReal _ => some .real
  | eq _ _ | le _ _ | isCon _ _ | not _ | and _ _ | or _ _ => some .bool
  | _ => none

/-! ### Folding constants -/

/-- The parts of a joined text, without empty ones. -/
def pieces : Term → List Term
  | add a b => a.pieces ++ b.pieces
  | const (.text []) => []
  | t => [t]

/-- One more part at the end of a joined text; neighbouring constants are one part. -/
def append (t p : Term) : Term :=
  match t, p with
  | const v, const w => const (v.add w)
  | add u (const v), const w => add u (const (v.add w))
  | t, p => add t p

def joined : List Term → Term
  | [] => const (.text [])
  | p :: ps => ps.foldl append p

/-- The sum, with a constant number moved to the right and joined with one that is there; texts are
joined. -/
def plus (a b : Term) : Term :=
  if (add a b).sort? = some .text then joined (a.pieces ++ b.pieces)
  else match a, b with
  | const v, const w => const (v.add w)
  | const v, b => plusConst b v
  | a, const w => plusConst a w
  | a, b => add a b
where
  plusConst (a : Term) (w : Value) : Term :=
    match a with
    | add u (const v) =>
      let s := v.add w
      if s.isZero then u else add u (const s)
    | a => if w.isZero then a else add a (const w)

def minus (a b : Term) : Term :=
  match a, b with
  | const v, const w => const (v.sub w)
  | a, const w => if w.isNumber then plus a (const w.negate) else sub a (const w)
  | a, b => sub a b

def asReal (a : Term) : Term :=
  match a with
  | const v => const v.toReal
  | add u (const (.int n)) => plus (toReal u) (const (.real n))
  | a => toReal a

def apply (f a : Term) : Term :=
  match f, a with
  | const v, const w => const (.app v w)
  | con i, const w => const (.app (.con i) w)
  | f, a => app f a

/-- An unknown and a constant offset, or a constant alone. -/
def offset (zero : Value) : Term → Option Term × Value
  | const v => (none, v)
  | add u (const v) => (some u, v)
  | t => (some t, zero)

/-- The comparison of two numbers of one sort, with offsets gathered on one side. -/
def orderAtom (zero : Value) (a b : Term) : Term :=
  match offset zero a, offset zero b with
  | (none, v), (none, w) => bool (v.le w)
  | (some u, v), (none, w) => le u (const (w.sub v))
  | (none, v), (some u, w) => le (const (v.sub w)) u
  | (some u, v), (some x, w) =>
    if u = x then bool (v.le w) else le u (plus x (const (w.sub v)))

/-- The parts of a joined text, with each character on its own. -/
def letters (t : Term) : List Term :=
  t.pieces.flatMap fun p => match p with
    | const (.text cs) => cs.map fun c => const (.text [c])
    | p => [p]

/-- Two lists without what they have in common at the front. -/
def dropCommon : List Term → List Term → List Term × List Term
  | x :: xs, y :: ys => if x = y then dropCommon xs ys else (x :: xs, y :: ys)
  | xs, ys => (xs, ys)

/-- The comparison of two joined texts. What they have in common at the front does not matter, and
two characters after it decide. -/
def textOrderAtom (a b : Term) : Term :=
  match dropCommon a.letters b.letters with
  | ([], _) => tt
  | (const v :: _, const w :: _) => bool (v.le w)
  | (const _ :: _, []) => ff
  | (xs, ys) => le (joined xs) (joined ys)

/-- The atom for `a ≤ b`. -/
def leAtom (a b : Term) : Term :=
  match a, b with
  | const v, const w => bool (v.le w)
  | a, b =>
    if a = b then tt
    else match (add a b).sort? with
      | some .int => orderAtom (.int 0) a b
      | some .real => orderAtom (.real 0) a b
      | some .text => textOrderAtom a b
      | _ => le a b

/-- The atom for `a = b`; a constant stands on the right. -/
def eqAtom (a b : Term) : Term :=
  match a with
  | const _ => eq b a
  | _ => eq a b

end Term

namespace Tree

open Term

/-- Whether the unknown `u` is constructor `i` applied to `xs`, where `same` compares arguments. -/
def equalCon (T : Theory) (same : Facts → Term → Term → Tree) (F : Facts) (u : Term) (i : Nat)
    (xs : List Term) : Tree :=
  match u.sort? with
  | some owner =>
    branch T F (isCon i u)
      (fun F => all T (xs.zipIdx.map fun p G => same G p.1 (field owner i p.2 u)) F)
      (fun _ => bool false)
  | none => ofAtom T F (eqAtom u (xs.foldl app (con i)))

/-- Whether the unknowns `a` and `b` of sort `owner` have the same constructor and fields, the
constructors being tried in the order given. -/
def equalUnknowns (T : Theory) (same : Facts → Term → Term → Tree) (owner : Ty) (a b : Term) :
    List (Ctor × Nat) → Facts → Tree
  | [], _ => bool false
  | p :: ps, F =>
    branch T F (isCon p.2 a)
      (fun F => branch T F (isCon p.2 b)
        (fun F => all T ((List.range p.1.fields.length).map fun j G =>
          same G (field owner p.2 j a) (field owner p.2 j b)) F)
        (fun _ => bool false))
      (equalUnknowns T same owner a b ps)

/-- Whether `b` is a field of `a`, or a field of a field of it, and so on. -/
def isPartOf (a : Term) : Term → Bool
  | field _ _ _ b => a = b || isPartOf a b
  | _ => false

/-- The truth of `a = b`, constructor by constructor; `fuel` bounds the nesting of data. A value is
never a part of itself. -/
def equal (T : Theory) : Nat → Facts → Term → Term → Tree
  | 0, F, a, b => ofAtom T F (eqAtom a b)
  | fuel + 1, F, a, b =>
    if a = b then bool true
    else match a, b with
    | const _, const _ => bool false
    | a, b =>
      match a.spine?, b.spine? with
      | some (i, xs), some (j, ys) =>
        if i = j then all T ((xs.zip ys).map fun p G => equal T fuel G p.1 p.2) F
        else bool false
      | some (i, xs), none => equalCon T (equal T fuel) F b i xs
      | none, some (j, ys) => equalCon T (equal T fuel) F a j ys
      | none, none =>
        match (add a b).sort? with
        | some .bool =>
          test T F a (fun G => ofAtom T G b)
            (fun G => test T G b (fun _ => bool false) (fun _ => bool true))
        | some .int | some .real =>
          all T [fun G => ofAtom T G (leAtom a b), fun G => ofAtom T G (leAtom b a)] F
        | some (.data name cs) =>
          if isPartOf a b || isPartOf b a then bool false
          else if cs.recursive then ofAtom T F (eqAtom a b)
          else
            let owner : Ty := .data name cs
            equalUnknowns T (equal T fuel) owner a b owner.ctors.zipIdx F
        | _ => ofAtom T F (eqAtom a b)

/-- Constructor `k` of sort `owner` applied to the fields of the unknown `a`. -/
def expanded (owner : Ty) (k : Nat) (c : Ctor) (a : Term) : Term :=
  (List.range c.fields.length).foldl (fun f m => apply f (field owner k m a)) (const (.con k))

/-- Field `j` of constructor `i` of an unknown that has another constructor, case by case. The value
does not have the field, so it stays as a term over the constructor that the value has. -/
def missingField (T : Theory) (owner : Ty) (i j : Nat) (a : Term) : List (Ctor × Nat) → Facts → Tree
  | [], _ => leaf (field owner i j a)
  | p :: ps, F =>
    if p.2 = i then missingField T owner i j a ps F
    else branch T F (isCon p.2 a)
      (fun _ => leaf (field owner i j (expanded owner p.2 p.1 a)))
      (missingField T owner i j a ps)

/-- Field `j` of constructor `i`. -/
def select (T : Theory) (F : Facts) (owner : Ty) (i j : Nat) (a : Term) : Tree :=
  match a.spine? with
  | some (k, xs) => leaf (if k = i then xs[j]?.getD (field owner i j a) else field owner i j a)
  | none =>
    branch T F (isCon i a) (fun _ => leaf (field owner i j a))
      (missingField T owner i j a owner.ctors.zipIdx)

/-- Which constructor a term is. -/
def hasCtor (T : Theory) (F : Facts) (i : Nat) (a : Term) : Tree :=
  match a.spine? with
  | some (k, _) => bool (k == i)
  | none => ofAtom T F (isCon i a)

/-- Nesting of data up to which equalities are taken apart. -/
def equalityDepth : Nat := 100000

end Tree

open RouteInvariants.Tree in
/-- The decision tree of a term whose arguments have the trees `Γ`. -/
def Term.unfold (T : Theory) : Facts → List Tree → Term → Tree
  | _, _, const v => leaf (const v)
  | _, _, var x => leaf (var x)
  | F, Γ, arg i => prune T F (Γ[i]?.getD (leaf (arg i)))
  | F, Γ, call body a => unfold T F [unfold T F Γ a] body
  | F, Γ, call2 body a b => unfold T F [unfold T F Γ a, unfold T F Γ b] body
  | F, Γ, ite c a b =>
    bind T (fun G t => test T G t (fun H => unfold T H Γ a) (fun H => unfold T H Γ b)) F
      (unfold T F Γ c)
  | F, Γ, not a =>
    bind T (fun G t => test T G t (fun _ => Tree.bool false) (fun _ => Tree.bool true)) F
      (unfold T F Γ a)
  | F, Γ, and a b =>
    bind T (fun G t => test T G t (fun H => unfold T H Γ b) (fun _ => Tree.bool false)) F
      (unfold T F Γ a)
  | F, Γ, or a b =>
    bind T (fun G t => test T G t (fun _ => Tree.bool true) (fun H => unfold T H Γ b)) F
      (unfold T F Γ a)
  | F, Γ, eq a b =>
    bind T (fun G x => bind T (fun H y => equal T equalityDepth H x y) G (unfold T G Γ b)) F
      (unfold T F Γ a)
  | F, Γ, le a b =>
    bind T (fun G x => bind T (fun H y => ofAtom T H (leAtom x y)) G (unfold T G Γ b)) F
      (unfold T F Γ a)
  | F, Γ, add a b =>
    bind T (fun G x => bind T (fun _ y => leaf (plus x y)) G (unfold T G Γ b)) F (unfold T F Γ a)
  | F, Γ, sub a b =>
    bind T (fun G x => bind T (fun _ y => leaf (minus x y)) G (unfold T G Γ b)) F (unfold T F Γ a)
  | F, Γ, toReal a => bind T (fun _ x => leaf (asReal x)) F (unfold T F Γ a)
  | _, _, con i => leaf (const (.con i))
  | F, Γ, app f a =>
    bind T (fun G x => bind T (fun _ y => leaf (apply x y)) G (unfold T G Γ a)) F (unfold T F Γ f)
  | F, Γ, isCon i a => bind T (fun G x => hasCtor T G i x) F (unfold T F Γ a)
  | F, Γ, field owner i j a =>
    bind T (fun G x => select T G owner i j x) F (unfold T F Γ a)

end RouteInvariants
