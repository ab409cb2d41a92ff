import RouteInvariants.Description.Sort
import RouteInvariants.Route.Invariant
import RouteInvariants.Route.Symbolic

/-!
Descriptions of expressions, and of the functions and invariants made of them. What is wrong with a
part of a description shows when the expression is elaborated, in the order in which its parts are.
Only the constants of an invariant have to be in order from the start.
-/

namespace RouteInvariants.Description

/-- What names in a description refer to. -/
structure Scope where
  symbolics : List Symbolic
  failed : Edge → Option Expr

def Scope.of (symbolics : List Symbolic) : Scope := ⟨symbolics, fun _ => none⟩

/-- The symbolic value of a name; of several the last one. -/
def Scope.symbolic (env : Scope) (d : Datum) : Except SortError Symbolic :=
  match env.symbolics.reverse.find? fun s => s.name == name d with
  | some s => .ok s
  | none => .error (.unknownName (name d))

def comparison? (d : Datum) : Option (Comparison × Datum) :=
  Comparison.named.findSome? fun c => (field? d c.1).map (c.2, ·)

def edge : Datum → Edge
  | .list [p, n] => ⟨name p, name n⟩
  | _ => default

/-- An expression that may be given a sort. -/
def hinted (d : Datum) (make : Option Ty → Expr) : Expr :=
  match field? d "sort" with
  | none | some .null => make none
  | some t => .orUndefined (sort t) fun t => make (some t)

/-- The function of a name. -/
def byName {α : Type} (named : List (String × α)) (make : Expr → α) (d : Datum) : α :=
  (Entries.get? named (name d)).getD (make (.undefined .mismatch))

/-- An operand whose expression has a term. -/
def settled : Operand → Except SortError Operand
  | .expr e => do
    let _ ← e.elaborate []
    return .expr e
  | o => return o

section

variable (env : Scope)

mutual

/-- A constant or an expression; as below, `fuel` bounds the nesting. -/
def operandWithin : Nat → Datum → Operand
  | 0, _ => .expr (.undefined .mismatch)
  | fuel + 1, d => match d, tagged d ["int", "float", "list"] with
    | .dict _, ("", _) => .expr (compoundWithin fuel d)
    | _, _ => .datum (value d)

def exprWithin : Nat → Datum → Expr
  | 0, _ => .undefined .mismatch
  | fuel + 1, d => match operandWithin fuel d with
    | .datum x => .lift x none
    | .expr e => e

/-- An expression that is no constant. -/
def compoundWithin : Nat → Datum → Expr
  | 0, _ => .undefined .mismatch
  | fuel + 1, d =>
    match tagged d ["lift", "some", "none", "unit", "edge", "bv", "real", "con", "sym", "ite", "add",
        "apply", "merge", "bool"] with
    | ("lift", x) => hinted d fun t => .lifted t (operandWithin fuel x)
    | ("some", x) => hinted d fun t => .present (.lifted t (operandWithin fuel x))
    | ("none", t) => .orUndefined (sort t) .absent
    | ("unit", _) => .unit
    | ("edge", e) => .edge (edge e)
    | ("bv", .list [x, w]) =>
      .orUndefined (Ty.words (integer w).toNat) fun _ => .bits (integer w).toNat (integer x)
    | ("real", x) => match Decimal.readNumeral? (value x).display with
      | some q => .const (.real q) .real
      | none => .undefined .mismatch
    | ("con", .list [t, i, xs]) =>
      .orUndefined (sort t) fun t => .make t (index i) ((items xs).map (exprWithin fuel))
    | ("sym", n) => .orUndefined (env.symbolic n) Symbolic.expr
    | ("ite", .list [c, a, b]) =>
      .ite (conditionWithin fuel c) (exprWithin fuel a) (exprWithin fuel b)
    | ("add", .list [a, b]) => .add (exprWithin fuel a) (exprWithin fuel b)
    | ("apply", .list [f, a]) => (transferWithin fuel f).apply (exprWithin fuel a)
    | ("merge", .list [m, a, b]) => (mergeWithin fuel m).apply (exprWithin fuel a) (exprWithin fuel b)
    | ("bool", c) => conditionWithin fuel c
    | _ => .undefined .mismatch

def conditionWithin : Nat → Datum → Expr
  | 0, _ => .undefined .mismatch
  | fuel + 1, d =>
    match d, comparison? d with
    | .bool b, _ => .bool b
    | _, some (op, .list [a, b]) => .compareTo op (exprWithin fuel a) (operandWithin fuel b)
    | _, _ => match tagged d ["and", "or", "not", "implies", "holds", "ann", "failed", "equals_value",
        "does_not_equal_value", "constraint", "constraints"] with
      | ("and", cs) => .conj ((items cs).map (conditionWithin fuel))
      | ("or", cs) => .disj ((items cs).map (conditionWithin fuel))
      | ("not", c) => .not (conditionWithin fuel c)
      | ("implies", .list [a, b]) => .implies (conditionWithin fuel a) (conditionWithin fuel b)
      | ("holds", .list [p, e]) => (predicateWithin fuel p).apply (exprWithin fuel e)
      | ("ann", .list [a, r, t]) =>
        .orUndefined (invariantWithin fuel a) fun a => a.apply (exprWithin fuel r) (exprWithin fuel t)
      | ("failed", e) => (env.failed (edge e)).getD (.undefined .noMember)
      | ("equals_value", .list [n, x]) =>
        .orUndefined (env.symbolic n) fun s => s.equalsValue (operandWithin fuel x)
      | ("does_not_equal_value", .list [n, x]) =>
        .orUndefined (env.symbolic n) fun s => s.differsFromValue (operandWithin fuel x)
      | ("constraint", n) => .orUndefined (env.symbolic n) Symbolic.constraint
      | ("constraints", ns) => .orUndefined ((items ns).mapM env.symbolic) Symbolic.constraints
      | _ => .undefined .mismatch

def transferWithin : Nat → Datum → Transfer
  | 0, _ => ⟨.undefined .mismatch⟩
  | fuel + 1, d =>
    match tagged d ["incr", "omap", "const", "compose", "ite", "field", "build"] with
    | ("incr", k) => .incr (integer k)
    | ("omap", f) => .omap (transferWithin fuel f)
    | ("const", e) => .const (exprWithin fuel e)
    | ("compose", fs) => .compose ((items fs).map (transferWithin fuel))
    | ("ite", .list [c, f, g]) =>
      .ite (predicateWithin fuel c) (transferWithin fuel f) (transferWithin fuel g)
    | ("field", .list [i, k]) => .field (index i) (index k)
    | ("build", .list [i, fs]) => .build (index i) ((items fs).map (transferWithin fuel))
    | _ => byName Transfer.named Transfer.mk d

def predicateWithin : Nat → Datum → Predicate
  | 0, _ => ⟨.undefined .mismatch⟩
  | fuel + 1, d =>
    match comparison? d with
    | some (op, x) => .compare op (operandWithin fuel x)
    | none => match tagged d ["if_some", "has_value", "not", "and", "or", "on", "when", "bool"] with
      | ("if_some", p) => .ifSome (predicateWithin fuel p)
      | ("has_value", p) => .hasValue (predicateWithin fuel p)
      | ("not", p) => .negate (predicateWithin fuel p)
      | ("and", ps) => .all ((items ps).map (predicateWithin fuel))
      | ("or", ps) => .any ((items ps).map (predicateWithin fuel))
      | ("on", .list [f, p]) => .on (transferWithin fuel f) (predicateWithin fuel p)
      | ("when", .list [c, p]) => .whenever (conditionWithin fuel c) (predicateWithin fuel p)
      | ("bool", c) => .ofBool (conditionWithin fuel c)
      | _ => byName Predicate.named Predicate.mk d

def mergeWithin : Nat → Datum → Merge
  | 0, _ => ⟨.undefined .mismatch⟩
  | fuel + 1, d =>
    match tagged d ["better", "prefer", "const", "beats"] with
    | ("better", f) => .better (transferWithin fuel f)
    | ("prefer", p) => .prefer (predicateWithin fuel p)
    | ("const", e) => .const (exprWithin fuel e)
    | ("beats", ps) => .beats ((items ps).filterMap fun p => match p with
      | .list [a, b] => some (operandWithin fuel a, operandWithin fuel b)
      | _ => none)
    | _ => byName Merge.named Merge.mk d

def invariantWithin : Nat → Datum → Except SortError Invariant
  | 0, _ => .error .mismatch
  | fuel + 1, d => do
    match d, tagged d ["globally", "finally", "until", "intersect", "never", "equals"] with
    | .text "any", _ => return .any
    | _, ("globally", p) => return .globally (predicateWithin fuel p)
    | _, ("finally", .list [w, p]) =>
      return .eventually (← settled (operandWithin fuel w)) (predicateWithin fuel p)
    | _, ("until", .list [w, b, a]) =>
      return .until_ (← settled (operandWithin fuel w)) (predicateWithin fuel b)
        (predicateWithin fuel a)
    | _, ("intersect", as) => return .intersect (← (items as).mapM (invariantWithin fuel))
    | _, ("never", p) => return .never (predicateWithin fuel p)
    | _, ("equals", x) => return .equals (← settled (operandWithin fuel x))
    | _, _ => throw .mismatch

end

/-- Enough for a description in which each level is read in a few steps. -/
def enough (d : Datum) : Nat := 4 * (d.depth + 1)

def operand (d : Datum) : Operand := operandWithin env (enough d) d

def expr (d : Datum) : Expr := exprWithin env (enough d) d

def condition (d : Datum) : Expr := conditionWithin env (enough d) d

def transfer (d : Datum) : Transfer := transferWithin env (enough d) d

def predicate (d : Datum) : Predicate := predicateWithin env (enough d) d

def merge (d : Datum) : Merge := mergeWithin env (enough d) d

def invariant (d : Datum) : Except SortError Invariant := invariantWithin env (enough d) d

end

end RouteInvariants.Description
