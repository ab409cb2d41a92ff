import RouteInvariants.Decimal.Reading
import RouteInvariants.Decimal.Shortest
import RouteInvariants.Route.Declaration
import RouteInvariants.Route.Expr

/-!
Elaboration: an expression, in a context of argument sorts, becomes a term of a sort. Booleans count
as the integers 0 and 1 and integers as reals where the other operand asks for it; all other sorts
have to agree. A plain truth value takes the sort of a Boolean constant that it meets. Both branches
of a conditional are elaborated, whatever the condition is. A constant has to be of its sort, and
sorts have to be declared.
-/

namespace RouteInvariants

/-- A term together with its sort. -/
structure Typed where
  term : Term
  ty : Ty
deriving DecidableEq, Inhabited

namespace Typed

def ofBool (t : Term) : Typed := ⟨t, .bool⟩

/-! ### Numbers as other numbers -/

def boolToInt (t : Term) : Term := .ite t (.int 1) (.int 0)

/-- The term as one of the sort `target`, where booleans and integers may be widened. -/
def widen? (target : Ty) (a : Typed) : Option Term :=
  if a.ty = target then some a.term
  else match a.ty, target with
    | .bool, .int => some (boolToInt a.term)
    | .bool, .real => some (.toReal (boolToInt a.term))
    | .int, .real => some (.toReal a.term)
    | .truth, .bool => some a.term
    | .truth, .int => some (boolToInt a.term)
    | .truth, .bits w => some (.ite a.term (.const (.bitsOfInt w 1)) (.const (.bitsOfInt w 0)))
    | _, _ => none

/-- Two operands at a common sort. -/
def unify (a b : Typed) : Except SortError (Term × Term × Ty) :=
  match b.widen? a.ty with
  | some t => .ok (a.term, t, a.ty)
  | none => match a.widen? b.ty with
    | some t => .ok (t, b.term, b.ty)
    | none => .error .mismatch

/-- A constructor's argument at the sort of its field. -/
def castTo (target : Ty) (a : Typed) : Except SortError Term :=
  match a.widen? target with
  | some t => .ok t
  | none => match target, a.ty with
    | .int, .real => .error .mismatch
    | .int, _ => .error .noMember
    | .real, .truth => .error .mismatch
    | .real, _ => .error .noMember
    | _, _ => .error .mismatch

end Typed

/-! ### Plain data as constants -/

namespace Datum

/-- A floating-point number counts as the decimal in which it is written. -/
def decimalOf? (x : Binary64) : Option Rat :=
  match x with
  | .finite _ _ _ => Decimal.readNumeral? x.text
  | _ => none

def truncate (q : Rat) : Int := Int.tdiv q.num q.den

def whole? (q : Rat) : Option Int := if q.den = 1 then some q.num else none

/-- A datum as an integer, for an operand of integer or bit-vector sort. -/
def toInteger? : Datum → Option Int
  | bool b => some (if b then 1 else 0)
  | int n => some n
  | text s => (Decimal.readNumeral? s).bind whole?
  | _ => none

/-- A datum as a number, for an operand of real sort. -/
def toRational? : Datum → Option Rat
  | int n => some n
  | float x => decimalOf? x
  | text s => Decimal.readNumeral? s
  | _ => none

/-- The constant that a datum is when it meets an operand of the given sort. -/
def adapt (t : Ty) (d : Datum) : Except SortError Typed :=
  let orMismatch (v : Option Value) (t : Ty) : Except SortError Typed := match v with
    | some v => .ok ⟨.const v, t⟩
    | none => .error .mismatch
  match t, d with
  | .bool, bool b => .ok ⟨.const (.bool b), .bool⟩
  | .int, float x => orMismatch ((decimalOf? x).map .real) .real
  | .int, d => orMismatch (d.toInteger?.map .int) .int
  | .real, d => orMismatch (d.toRational?.map .real) .real
  | .bits w, float x => match x.toRat? with
    | some q => .ok ⟨.const (.bitsOfInt w (truncate q)), .bits w⟩
    | none => .error (.noInteger x)
  | .bits w, d => orMismatch (d.toInteger?.map (.bitsOfInt w)) (.bits w)
  | .text, text s => .ok ⟨.const (.ofString s), .text⟩
  | .truth, bool b => .ok ⟨.const (.bool b), .truth⟩
  | _, _ => .error .mismatch

/-- The constant that a datum is on its own; an integer is a bit-vector where one is hinted at. -/
def lift (hint : Option Ty) (d : Datum) : Except SortError Typed :=
  match d with
  | bool b => .ok ⟨.const (.bool b), .bool⟩
  | int n => match hint with
    | some (.bits w) => .ok ⟨.const (.bitsOfInt w n), .bits w⟩
    | _ => .ok ⟨.int n, .int⟩
  | text s => .ok ⟨.const (.ofString s), .text⟩
  | d => .error (.cannotLift d)

end Datum

/-! ### Operations -/

namespace Typed

/-- The term of a plain truth value is Boolean. -/
def boolean (a : Typed) : Typed := if a.ty = .truth then ofBool a.term else a

def ite (c a b : Typed) : Except SortError Typed := do
  let c ← castTo .bool c
  let (a, b, t) ← if a.ty = .truth && b.ty = .truth then unify a.boolean b.boolean else unify a b
  .ok ⟨.ite c a b, t⟩

/-- Sorts with an order. -/
def hasOrder : Ty → Bool
  | .int | .real | .bits _ | .text => true
  | _ => false

def isArithmetic : Ty → Bool
  | .int | .real => true
  | _ => false

def isBits : Ty → Bool
  | .bits _ => true
  | _ => false

def equal (a b : Typed) : Except SortError Typed := do
  let (a, b, _) ← unify a b
  .ok (ofBool (.eq a b))

/-- `a ≤ b`, or the converse, at the common sort. Where the first operand has no order the second
one decides. -/
def ordered (a b : Typed) (build : Term → Term → Term) : Except SortError Typed :=
  let plainText := (a.ty = .truth && b.ty = .text) || (a.ty = .text && b.ty = .truth)
  if plainText then .error .noMember
  else if hasOrder a.ty || hasOrder b.ty then do
    let (a, b, _) ← unify a b
    .ok (ofBool (build a b))
  else .error .unsupported

def orderTerm : Comparison → Term → Term → Term
  | .eq, a, b => .eq a b
  | .ne, a, b => .not (.eq a b)
  | .le, a, b => .le a b
  | .lt, a, b => .not (.le b a)
  | .ge, a, b => .le b a
  | .gt, a, b => .not (.le a b)

/-- Comparison of two plain truth values, as numbers; it gives another one. -/
def comparePlain (op : Comparison) (a b : Term) : Typed :=
  ⟨orderTerm op (boolToInt a) (boolToInt b), .truth⟩

def compare (op : Comparison) (a b : Typed) : Except SortError Typed :=
  if a.ty = .truth && b.ty = .truth then .ok (comparePlain op a.term b.term)
  else match op with
    | .eq => equal a b
    | .ne => do
      let e ← equal a b
      .ok (ofBool (.not e.term))
    | op => ordered a b (orderTerm op)

/-- Comparison of a plain truth value with plain data. -/
def comparePlainWith (op : Comparison) (a : Term) (d : Datum) : Except SortError Typed :=
  match op, d with
  | op, .bool b => .ok (comparePlain op a (.bool b))
  | op, .int n => .ok ⟨orderTerm op (boolToInt a) (.int n), .truth⟩
  | .eq, _ => .ok ⟨.ff, .truth⟩
  | .ne, _ => .ok ⟨.tt, .truth⟩
  | _, _ => .error .unsupported

/-- Comparison with plain data. Nothing equals null, and saying so gives a plain truth value. -/
def compareWith (op : Comparison) (a : Typed) (d : Datum) : Except SortError Typed :=
  if a.ty = .truth then comparePlainWith op a.term d
  else match op, d with
    | .eq, .null => .ok ⟨.ff, .truth⟩
    | .ne, .null => .ok ⟨.tt, .truth⟩
    | .eq, d => do compare .eq a (← d.adapt a.ty)
    | .ne, d => do compare .ne a (← d.adapt a.ty)
    | op, d =>
      if a.ty = .text then .error .noMember
      else if hasOrder a.ty then do compare op a (← d.adapt a.ty)
      else .error .unsupported

/-- Addition; booleans count as numbers and texts are concatenated. -/
def add (a b : Typed) : Except SortError Typed :=
  let a := if a.ty = .bool || (a.ty = .truth && b.ty = .bool) then ⟨boolToInt a.term, .int⟩ else a
  let arithmetic := fun t => hasOrder t || t = .bool
  if hasOrder a.ty then do
    let b := if b.ty = .bool && isArithmetic a.ty then ⟨boolToInt b.term, .int⟩ else b
    let (x, y, t) ← unify a b
    .ok ⟨.add x y, t⟩
  else if a.ty = .truth && (isBits b.ty || isArithmetic b.ty) then do
    let (x, y, t) ← unify a b
    .ok ⟨.add x y, t⟩
  else if arithmetic b.ty || (a.ty = .truth && b.ty = .truth) then .error .mismatch
  else .error .unsupported

def sub (a b : Typed) : Except SortError Typed :=
  let numeric := fun t => isArithmetic t || isBits t
  if numeric a.ty || numeric b.ty then do
    let (x, y, t) ← unify a b
    .ok ⟨.sub x y, t⟩
  else if a.ty = .truth && b.ty = .truth then .error .mismatch
  else .error .unsupported

def addInt (a : Typed) (k : Int) : Except SortError Typed :=
  match a.ty with
  | .bool => .ok ⟨.add (boolToInt a.term) (.int k), .int⟩
  | .int => .ok ⟨.add a.term (.int k), .int⟩
  | .real => .ok ⟨.add a.term (.const (.real k)), .real⟩
  | .bits w => .ok ⟨.add a.term (.const (.bitsOfInt w k)), .bits w⟩
  | .text | .truth => .error .mismatch
  | _ => .error .unsupported

def connective (build : Term → Term → Term) (a b : Typed) : Except SortError Typed := do
  .ok (ofBool (build (← castTo .bool a) (← castTo .bool b)))

/-- The constructor of a data sort, by index. -/
def ctorOf (t : Ty) (i : Nat) : Except SortError Ctor :=
  if t.isData then (match t.ctor? i with
    | some c => .ok c
    | none => .error .mismatch)
  else .error .noMember

def castAll : List Ty → List Typed → Except SortError (List Term)
  | t :: ts, a :: as => do
    let x ← castTo t a
    .ok (x :: (← castAll ts as))
  | _, _ => .ok []

def make (t : Ty) (i : Nat) (args : List Typed) : Except SortError Typed := do
  let c ← ctorOf t i
  if c.fields.length ≠ args.length then .error .mismatch
  else
    let xs ← castAll (c.fields.map Prod.snd) args
    .ok ⟨xs.foldl Term.app (.con i), t⟩

def isCon (i : Nat) (a : Typed) : Except SortError Typed := do
  let _ ← ctorOf a.ty i
  .ok (ofBool (.isCon i a.term))

def field (i j : Nat) (a : Typed) : Except SortError Typed := do
  let c ← ctorOf a.ty i
  match c.fields[j]? with
  | some f => .ok ⟨.field a.ty i j a.term, f.2⟩
  | none => .error .mismatch

def present (a : Typed) : Typed :=
  let a := a.boolean
  ⟨.app (.con 1) a.term, .option a.ty⟩

end Typed

/-! ### Expressions -/

namespace Expr

mutual

/-- The term of an expression whose arguments have the sorts `Γ`. -/
def elaborate (Γ : List Ty) : Expr → Except SortError Typed
  | const v t => if t.isDeclared && v.fits t then .ok ⟨.const v, t⟩ else .error .mismatch
  | lift d hint => d.lift hint
  | liftLike d like => do
    let e ← elaborate Γ like
    if e.ty = .truth then .error .noMember else d.lift (some e.ty)
  | symbolic name t => if t.isDeclared then .ok ⟨.var (.symbolic name t), t⟩ else .error .mismatch
  | arg i => match Γ[i]? with
    | some t => .ok ⟨.arg i, t⟩
    | none => .error .mismatch
  | call body a => do
    let a ← elaborate Γ a
    let b ← elaborate [a.ty] body
    .ok ⟨.call b.term a.term, b.ty⟩
  | call2 body a b => do
    let a ← elaborate Γ a
    let b ← elaborate Γ b
    let c ← elaborate [a.ty, b.ty] body
    .ok ⟨.call2 c.term a.term b.term, c.ty⟩
  | present e => do .ok (Typed.present (← elaborate Γ e))
  | make t i args => do
    match t.lookUpError? with
    | some e => throw e
    | none =>
      let _ ← Typed.ctorOf t i
      let xs ← elaborateAll Γ args
      if t.isDeclared then Typed.make t i xs else throw .mismatch
  | makeLike like i args => do
    let e ← elaborate Γ like
    let _ ← Typed.ctorOf e.ty i
    let xs ← elaborateAll Γ args
    Typed.make e.ty i xs
  | isCon i e => do Typed.isCon i (← elaborate Γ e)
  | field i j e => do Typed.field i j (← elaborate Γ e)
  | ite c a b => do
    let c ← elaborate Γ c
    let a ← elaborate Γ a
    let b ← elaborate Γ b
    Typed.ite c a b
  | add a b => do
    let a ← elaborate Γ a
    let b ← elaborate Γ b
    Typed.add a b
  | sub a b => do
    let a ← elaborate Γ a
    let b ← elaborate Γ b
    Typed.sub a b
  | addInt a k => do Typed.addInt (← elaborate Γ a) k
  | compare op a b => do
    let a ← elaborate Γ a
    let b ← elaborate Γ b
    Typed.compare op a b
  | compareWith op a d => do Typed.compareWith op (← elaborate Γ a) d
  | not a => do
    let a ← elaborate Γ a
    .ok (Typed.ofBool (.not (← Typed.castTo .bool a)))
  | and a b => do
    let a ← elaborate Γ a
    let b ← elaborate Γ b
    Typed.connective .and a b
  | or a b => do
    let a ← elaborate Γ a
    let b ← elaborate Γ b
    Typed.connective .or a b
  | xor a b => do
    let a ← elaborate Γ a
    let b ← elaborate Γ b
    Typed.connective (fun x y => .not (.eq x y)) a b
  | implies a b => do
    let a ← elaborate Γ a
    let b ← elaborate Γ b
    Typed.connective (fun x y => .or (.not x) y) a b
  | boolean a => do
    let a ← elaborate Γ a
    .ok (Typed.ofBool (← Typed.castTo .bool a))
  | asTerm a => do .ok (← elaborate Γ a).boolean
  | undefined e => .error e

def elaborateAll (Γ : List Ty) : List Expr → Except SortError (List Typed)
  | [] => .ok []
  | e :: es => do
    let x ← elaborate Γ e
    .ok (x :: (← elaborateAll Γ es))

end

end Expr

end RouteInvariants
