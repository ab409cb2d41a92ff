import RouteInvariants.Decision.Simplify
import RouteInvariants.Route.Elaborate

/-!
Closed expressions: those without variables come down to a value. The one thing that may stay open is
a field that the value does not have; it is shown as the field's name applied to the value. A plain
truth value is no expression to evaluate, and it has no sort.
-/

namespace RouteInvariants

namespace Value

mutual

/-- The text of a value in a term. -/
def written (t : Ty) : Value → String
  | bool b => if b then "True" else "False"
  | int n => toString n
  | real q => Datum.ratioText q
  | text cs => "\"" ++ CodePoint.toText cs ++ "\""
  | bits _ b => toString b.toNat
  | con i => ((t.ctor? i).getD default).name
  | app f a =>
    let i := f.head?.getD 0
    let last := ((t.field? i f.args.length).map Prod.snd).getD default
    ((t.ctor? i).getD default).name ++ "(" ++ ", ".intercalate (writtenFields t f ++ [a.written last])
      ++ ")"
  | array _ => "*"

def writtenFields (t : Ty) : Value → List String
  | app f a =>
    let sort := ((t.field? (f.head?.getD 0) f.args.length).map Prod.snd).getD default
    writtenFields t f ++ [a.written sort]
  | _ => []

end

end Value

namespace Term

mutual

/-- The text of a term of sort `t` that is not a value. -/
def written (t : Ty) : Term → String
  | const v => v.written t
  | field owner i j a =>
    ((owner.field? i j).map Prod.fst).getD "*" ++ "(" ++ a.written owner ++ ")"
  | app f a =>
    let s := (f.spine?).getD (0, [])
    let last := ((t.field? s.1 s.2.length).map Prod.snd).getD default
    ((t.ctor? s.1).getD default).name ++ "(" ++ ", ".intercalate (writtenFields t f ++ [a.written last])
      ++ ")"
  | _ => "*"

def writtenFields (t : Ty) : Term → List String
  | app f a =>
    let s := (f.spine?).getD (0, [])
    let sort := ((t.field? s.1 s.2.length).map Prod.snd).getD default
    writtenFields t f ++ [a.written sort]
  | const v => v.writtenFields t
  | _ => []

end

mutual

/-- The datum of a simplified term of sort `t`. -/
def shown (t : Ty) : Term → Datum
  | const v => v.toDatum t
  | field owner i j a => .text ((field owner i j a).written t)
  | app f a =>
    let s := (f.spine?).getD (0, [])
    let last := ((t.field? s.1 s.2.length).map Prod.snd).getD default
    Value.ctorDatum ((t.ctor? s.1).getD default) (shownFields t f ++ [shown last a])
  | con i => Value.ctorDatum ((t.ctor? i).getD default) []
  | _ => .text "*"

def shownFields (t : Ty) : Term → List Datum
  | app f a =>
    let s := (f.spine?).getD (0, [])
    let sort := ((t.field? s.1 s.2.length).map Prod.snd).getD default
    shownFields t f ++ [shown sort a]
  | const v => v.fieldData t
  | _ => []

end

end Term

/-- The datum of a closed expression. -/
def Expr.evaluate (e : Expr) : Except SortError Datum := do
  let x ← e.elaborate []
  if x.ty = .truth then throw .mismatch
  match x.term.unfold Facts.decide [] [] with
  | .leaf t => .ok (t.shown x.ty)
  | .node _ _ _ => .ok (.text "*")

/-- The sort of an expression without arguments. -/
def Expr.sort (e : Expr) : Except SortError Ty := do
  let x ← e.elaborate []
  if x.ty = .truth then throw .noMember
  return x.ty

end RouteInvariants
