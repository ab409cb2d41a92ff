import RouteInvariants.Proofs.Substitution

/-!
An interpreter for the language of routes. It works on values with their sorts: every operation is
carried out where it stands, and no terms are built (`Expr.compute`). Elaboration and evaluation come
to the same: the value of an expression's term is what the interpreter computes, and where there is no
term the interpreter ends with the same error (`compute_eq`).
-/

namespace RouteInvariants

/-- A value together with its sort. -/
structure SortedValue where
  value : Value
  ty : Ty
deriving DecidableEq, Inhabited

/-- What a term stands for. -/
def Typed.valueAt (σ : Assignment) (args : List Value) (x : Typed) : SortedValue :=
  ⟨x.term.eval σ args, x.ty⟩

/-- The value of a constant. -/
def Typed.constant (x : Typed) : SortedValue :=
  ⟨match x.term with
    | .const v => v
    | _ => default, x.ty⟩

/-! ### Operations on values -/

namespace SortedValue

def ofBool (b : Bool) : SortedValue := ⟨.bool b, .bool⟩

/-- The number that a truth value counts as. -/
def number (v : Value) : Value := if v.isTrue then .int 1 else .int 0

/-- The value as one of the sort `target`, where booleans and integers may be widened. -/
def widen? (target : Ty) (a : SortedValue) : Option Value :=
  if a.ty = target then some a.value
  else match a.ty, target with
    | .bool, .int => some (number a.value)
    | .bool, .real => some (number a.value).toReal
    | .int, .real => some a.value.toReal
    | .truth, .bool => some a.value
    | .truth, .int => some (number a.value)
    | .truth, .bits w => some (if a.value.isTrue then .bitsOfInt w 1 else .bitsOfInt w 0)
    | _, _ => none

/-- Two operands at a common sort. -/
def unify (a b : SortedValue) : Except SortError (Value × Value × Ty) :=
  match b.widen? a.ty with
  | some v => .ok (a.value, v, a.ty)
  | none => match a.widen? b.ty with
    | some v => .ok (v, b.value, b.ty)
    | none => .error .mismatch

def castTo (target : Ty) (a : SortedValue) : Except SortError Value :=
  match a.widen? target with
  | some v => .ok v
  | none => match target, a.ty with
    | .int, .real => .error .mismatch
    | .int, _ => .error .noMember
    | .real, .truth => .error .mismatch
    | .real, _ => .error .noMember
    | _, _ => .error .mismatch

def boolean (a : SortedValue) : SortedValue := if a.ty = .truth then ⟨a.value, .bool⟩ else a

/-- A conditional: the branches meet at a common sort, and one of them is chosen. -/
def ite (c a b : SortedValue) : Except SortError SortedValue := do
  let c ← castTo .bool c
  let (v, w, t) ← if a.ty = .truth && b.ty = .truth then unify a.boolean b.boolean else unify a b
  .ok ⟨if c.isTrue then v else w, t⟩

def equal (a b : SortedValue) : Except SortError SortedValue := do
  let (v, w, _) ← unify a b
  .ok (ofBool (decide (v = w)))

def holds : Comparison → Value → Value → Bool
  | .eq, v, w => decide (v = w)
  | .ne, v, w => !decide (v = w)
  | .le, v, w => v.le w
  | .lt, v, w => !w.le v
  | .ge, v, w => w.le v
  | .gt, v, w => !v.le w

def ordered (op : Comparison) (a b : SortedValue) : Except SortError SortedValue :=
  let plainText := (a.ty = .truth && b.ty = .text) || (a.ty = .text && b.ty = .truth)
  if plainText then .error .noMember
  else if Typed.hasOrder a.ty || Typed.hasOrder b.ty then do
    let (v, w, _) ← unify a b
    .ok (ofBool (holds op v w))
  else .error .unsupported

/-- Comparison of two plain truth values, as numbers. -/
def comparePlain (op : Comparison) (v w : Value) : SortedValue :=
  ⟨.bool (holds op (number v) (number w)), .truth⟩

def compare (op : Comparison) (a b : SortedValue) : Except SortError SortedValue :=
  if a.ty = .truth && b.ty = .truth then .ok (comparePlain op a.value b.value)
  else match op with
    | .eq => equal a b
    | .ne => do
      let e ← equal a b
      .ok (ofBool (!e.value.isTrue))
    | op => ordered op a b

def comparePlainWith (op : Comparison) (v : Value) (d : Datum) : Except SortError SortedValue :=
  match op, d with
  | op, .bool b => .ok (comparePlain op v (.bool b))
  | op, .int n => .ok ⟨.bool (holds op (number v) (.int n)), .truth⟩
  | .eq, _ => .ok ⟨.bool false, .truth⟩
  | .ne, _ => .ok ⟨.bool true, .truth⟩
  | _, _ => .error .unsupported

def compareWith (op : Comparison) (a : SortedValue) (d : Datum) : Except SortError SortedValue :=
  if a.ty = .truth then comparePlainWith op a.value d
  else match op, d with
    | .eq, .null => .ok ⟨.bool false, .truth⟩
    | .ne, .null => .ok ⟨.bool true, .truth⟩
    | .eq, d => do compare .eq a (← d.adapt a.ty).constant
    | .ne, d => do compare .ne a (← d.adapt a.ty).constant
    | op, d =>
      if a.ty = .text then .error .noMember
      else if Typed.hasOrder a.ty then do compare op a (← d.adapt a.ty).constant
      else .error .unsupported

def add (a b : SortedValue) : Except SortError SortedValue :=
  let a := if a.ty = .bool || (a.ty = .truth && b.ty = .bool) then ⟨number a.value, .int⟩
    else a
  let arithmetic := fun t => Typed.hasOrder t || t = .bool
  if Typed.hasOrder a.ty then do
    let b := if b.ty = .bool && Typed.isArithmetic a.ty then ⟨number b.value, .int⟩ else b
    let (v, w, t) ← unify a b
    .ok ⟨v.add w, t⟩
  else if a.ty = .truth && (Typed.isBits b.ty || Typed.isArithmetic b.ty) then do
    let (v, w, t) ← unify a b
    .ok ⟨v.add w, t⟩
  else if arithmetic b.ty || (a.ty = .truth && b.ty = .truth) then .error .mismatch
  else .error .unsupported

def sub (a b : SortedValue) : Except SortError SortedValue :=
  let numeric := fun t => Typed.isArithmetic t || Typed.isBits t
  if numeric a.ty || numeric b.ty then do
    let (v, w, t) ← unify a b
    .ok ⟨v.sub w, t⟩
  else if a.ty = .truth && b.ty = .truth then .error .mismatch
  else .error .unsupported

def addInt (a : SortedValue) (k : Int) : Except SortError SortedValue :=
  match a.ty with
  | .bool => .ok ⟨(number a.value).add (.int k), .int⟩
  | .int => .ok ⟨a.value.add (.int k), .int⟩
  | .real => .ok ⟨a.value.add (.real k), .real⟩
  | .bits w => .ok ⟨a.value.add (.bitsOfInt w k), .bits w⟩
  | .text | .truth => .error .mismatch
  | _ => .error .unsupported

def connective (f : Value → Value → Bool) (a b : SortedValue) : Except SortError SortedValue := do
  .ok (ofBool (f (← castTo .bool a) (← castTo .bool b)))

def castAll : List Ty → List SortedValue → Except SortError (List Value)
  | t :: ts, a :: as => do
    let v ← castTo t a
    .ok (v :: (← castAll ts as))
  | _, _ => .ok []

def make (t : Ty) (i : Nat) (args : List SortedValue) : Except SortError SortedValue := do
  let c ← Typed.ctorOf t i
  if c.fields.length ≠ args.length then .error .mismatch
  else
    let vs ← castAll (c.fields.map Prod.snd) args
    .ok ⟨vs.foldl Value.app (.con i), t⟩

def isCon (i : Nat) (a : SortedValue) : Except SortError SortedValue := do
  let _ ← Typed.ctorOf a.ty i
  .ok (ofBool (decide (a.value.head? = some i)))

/-- The field of a constructor; `absent` says what it holds if the value has another one. -/
def field (absent : Ty → Nat → Nat → Value → Value) (i j : Nat) (a : SortedValue) :
    Except SortError SortedValue := do
  let c ← Typed.ctorOf a.ty i
  match c.fields[j]? with
  | some f =>
    .ok ⟨if a.value.head? = some i then a.value.args[j]?.getD default else absent a.ty i j a.value,
      f.2⟩
  | none => .error .mismatch

def present (a : SortedValue) : SortedValue :=
  let a := a.boolean
  ⟨.app (.con 1) a.value, .option a.ty⟩

end SortedValue

/-! ### The interpreter -/

namespace Expr

mutual

/-- The value of an expression, from those of its arguments and of the symbolic values. -/
def compute (σ : Assignment) (args : List SortedValue) : Expr → Except SortError SortedValue
  | const v t => if t.isDeclared && v.fits t then .ok ⟨v, t⟩ else .error .mismatch
  | lift d hint => Typed.constant <$> d.lift hint
  | liftLike d like => do
    let a ← compute σ args like
    if a.ty = .truth then .error .noMember else Typed.constant <$> d.lift (some a.ty)
  | symbolic name t =>
    if t.isDeclared then .ok ⟨σ.value (.symbolic name t), t⟩ else .error .mismatch
  | arg i => match args[i]? with
    | some a => .ok a
    | none => .error .mismatch
  | call body a => do
    let a ← compute σ args a
    compute σ [a] body
  | call2 body a b => do
    let a ← compute σ args a
    let b ← compute σ args b
    compute σ [a, b] body
  | present e => do .ok (SortedValue.present (← compute σ args e))
  | make t i es => do
    match t.lookUpError? with
    | some e => throw e
    | none =>
      let _ ← Typed.ctorOf t i
      let as ← computeAll σ args es
      if t.isDeclared then SortedValue.make t i as else throw .mismatch
  | makeLike like i es => do
    let a ← compute σ args like
    let _ ← Typed.ctorOf a.ty i
    let as ← computeAll σ args es
    SortedValue.make a.ty i as
  | isCon i e => do SortedValue.isCon i (← compute σ args e)
  | field i j e => do SortedValue.field σ.absent i j (← compute σ args e)
  | ite c a b => do
    let c ← compute σ args c
    let a ← compute σ args a
    let b ← compute σ args b
    SortedValue.ite c a b
  | add a b => do
    let a ← compute σ args a
    let b ← compute σ args b
    SortedValue.add a b
  | sub a b => do
    let a ← compute σ args a
    let b ← compute σ args b
    SortedValue.sub a b
  | addInt a k => do SortedValue.addInt (← compute σ args a) k
  | compare op a b => do
    let a ← compute σ args a
    let b ← compute σ args b
    SortedValue.compare op a b
  | compareWith op a d => do SortedValue.compareWith op (← compute σ args a) d
  | not a => do
    let a ← compute σ args a
    .ok (SortedValue.ofBool (!(← SortedValue.castTo .bool a).isTrue))
  | and a b => do
    let a ← compute σ args a
    let b ← compute σ args b
    SortedValue.connective (fun v w => v.isTrue && w.isTrue) a b
  | or a b => do
    let a ← compute σ args a
    let b ← compute σ args b
    SortedValue.connective (fun v w => v.isTrue || w.isTrue) a b
  | xor a b => do
    let a ← compute σ args a
    let b ← compute σ args b
    SortedValue.connective (fun v w => !decide (v = w)) a b
  | implies a b => do
    let a ← compute σ args a
    let b ← compute σ args b
    SortedValue.connective (fun v w => !v.isTrue || w.isTrue) a b
  | boolean a => do
    let a ← compute σ args a
    .ok ⟨← SortedValue.castTo .bool a, .bool⟩
  | asTerm a => do .ok (← compute σ args a).boolean
  | undefined e => .error e

def computeAll (σ : Assignment) (args : List SortedValue) :
    List Expr → Except SortError (List SortedValue)
  | [] => .ok []
  | e :: es => do
    let a ← compute σ args e
    .ok (a :: (← computeAll σ args es))

end

end Expr

/-! ### Operations at the values of terms -/

namespace Typed

variable (σ : Assignment) (args : List Value) (a b c : Typed)

theorem ty_valueAt : (a.valueAt σ args).ty = a.ty := rfl

theorem value_valueAt : (a.valueAt σ args).value = a.term.eval σ args := rfl

theorem ofBool_valueAt (t : Term) : (ofBool t).valueAt σ args = ⟨t.eval σ args, .bool⟩ := rfl

theorem eval_boolToInt (t : Term) :
    (boolToInt t).eval σ args = SortedValue.number (t.eval σ args) := rfl

theorem boolean_valueAt : (a.valueAt σ args).boolean = a.boolean.valueAt σ args := by
  unfold boolean SortedValue.boolean
  rw [ty_valueAt]
  split <;> rfl

theorem widen?_valueAt (target : Ty) :
    (a.valueAt σ args).widen? target = (a.widen? target).map (Term.eval σ args) := by
  obtain ⟨t, ty⟩ := a
  unfold widen? SortedValue.widen?
  rw [ty_valueAt, value_valueAt]
  split
  · rfl
  · cases ty <;> cases target <;> rfl

theorem castTo_valueAt (target : Ty) :
    SortedValue.castTo target (a.valueAt σ args) = Term.eval σ args <$> castTo target a := by
  unfold castTo SortedValue.castTo
  rw [widen?_valueAt, ty_valueAt]
  cases a.widen? target with
  | some t => rfl
  | none =>
    cases target with
    | int | real => cases a.ty <;> rfl
    | _ => rfl

theorem unify_valueAt : SortedValue.unify (a.valueAt σ args) (b.valueAt σ args) =
    (fun r => (r.1.eval σ args, r.2.1.eval σ args, r.2.2)) <$> unify a b := by
  unfold unify SortedValue.unify
  rw [widen?_valueAt, widen?_valueAt, ty_valueAt, ty_valueAt]
  cases b.widen? a.ty with
  | some t => rfl
  | none => cases a.widen? b.ty <;> rfl

theorem ite_valueAt :
    SortedValue.ite (c.valueAt σ args) (a.valueAt σ args) (b.valueAt σ args) =
      valueAt σ args <$> ite c a b := by
  unfold ite SortedValue.ite
  rw [ty_valueAt, ty_valueAt, boolean_valueAt, boolean_valueAt]
  split
  all_goals
    simp only [castTo_valueAt, unify_valueAt, map_bind, bind_map_left]
    rfl

theorem equal_valueAt :
    SortedValue.equal (a.valueAt σ args) (b.valueAt σ args) = valueAt σ args <$> equal a b := by
  unfold equal SortedValue.equal
  simp only [unify_valueAt, map_bind, bind_map_left]
  rfl

theorem eval_orderTerm (op : Comparison) (s t : Term) : (orderTerm op s t).eval σ args =
    .bool (SortedValue.holds op (s.eval σ args) (t.eval σ args)) := by
  cases op with
  | eq | le | ge => rfl
  | ne | lt | gt => simp only [orderTerm, Term.eval, Expr.isTrue_bool, SortedValue.holds]

theorem ordered_valueAt (op : Comparison) :
    SortedValue.ordered op (a.valueAt σ args) (b.valueAt σ args) =
      valueAt σ args <$> ordered a b (orderTerm op) := by
  unfold ordered SortedValue.ordered
  rw [ty_valueAt, ty_valueAt]
  dsimp only
  split
  · rfl
  · split
    · simp only [unify_valueAt, map_bind, bind_map_left, map_ok, ofBool_valueAt, eval_orderTerm]
      rfl
    · rfl

theorem comparePlain_valueAt (op : Comparison) (s t : Term) :
    SortedValue.comparePlain op (s.eval σ args) (t.eval σ args) =
      (comparePlain op s t).valueAt σ args := by
  simp only [comparePlain, SortedValue.comparePlain, valueAt, eval_orderTerm, eval_boolToInt]

theorem compare_valueAt (op : Comparison) :
    SortedValue.compare op (a.valueAt σ args) (b.valueAt σ args) =
      valueAt σ args <$> compare op a b := by
  unfold compare SortedValue.compare
  rw [ty_valueAt, ty_valueAt]
  split
  · rw [map_ok, ← comparePlain_valueAt, value_valueAt, value_valueAt]
  · cases op with
    | eq => exact equal_valueAt σ args a b
    | ne =>
      simp only [equal_valueAt, map_bind, bind_map_left]
      rfl
    | _ => exact ordered_valueAt σ args a b _

theorem comparePlainWith_valueAt (op : Comparison) (t : Term) (d : Datum) :
    SortedValue.comparePlainWith op (t.eval σ args) d =
      valueAt σ args <$> comparePlainWith op t d := by
  unfold comparePlainWith SortedValue.comparePlainWith
  cases d with
  | bool b => rw [map_ok, ← comparePlain_valueAt]; rfl
  | int n => simp only [map_ok, valueAt, eval_orderTerm, eval_boolToInt]; rfl
  | _ => cases op <;> rfl

/-- The constants that data are have their values everywhere. -/
theorem constant_adapt (t : Ty) (d : Datum) :
    constant <$> d.adapt t = valueAt σ args <$> d.adapt t := by
  unfold Datum.adapt
  dsimp only
  split
  · rfl
  · split <;> rfl
  · split <;> rfl
  · split <;> rfl
  · split <;> rfl
  · split <;> rfl
  · rfl
  · rfl
  · rfl

theorem constant_lift (hint : Option Ty) (d : Datum) :
    constant <$> d.lift hint = valueAt σ args <$> d.lift hint := by
  unfold Datum.lift
  split
  · rfl
  · split <;> rfl
  · rfl
  · rfl

theorem compareWith_valueAt (op : Comparison) (d : Datum) :
    SortedValue.compareWith op (a.valueAt σ args) d = valueAt σ args <$> compareWith op a d := by
  have hadapted (op : Comparison) :
      (d.adapt a.ty >>= fun b => SortedValue.compare op (a.valueAt σ args) b.constant) =
        valueAt σ args <$> (d.adapt a.ty >>= fun b => compare op a b) := by
    rw [← bind_map_left constant (d.adapt a.ty), constant_adapt σ args, bind_map_left, map_bind]
    simp only [compare_valueAt]
  unfold compareWith SortedValue.compareWith
  rw [ty_valueAt, value_valueAt]
  split
  · exact comparePlainWith_valueAt σ args op a.term d
  · cases op with
    | eq =>
      cases d with
      | null => rfl
      | _ => exact hadapted .eq
    | ne =>
      cases d with
      | null => rfl
      | _ => exact hadapted .ne
    | _ =>
      dsimp only
      split
      · rfl
      · split
        · exact hadapted _
        · rfl

theorem add_valueAt :
    SortedValue.add (a.valueAt σ args) (b.valueAt σ args) = valueAt σ args <$> add a b := by
  -- the operands that meet are the given ones, or their integers
  have hasInt (a : Typed) (p : Prop) [Decidable p] :
      (if p then (⟨SortedValue.number (a.valueAt σ args).value, .int⟩ : SortedValue)
        else a.valueAt σ args) =
        (if p then ⟨boolToInt a.term, .int⟩ else a).valueAt σ args := by
    split <;> rfl
  unfold add SortedValue.add
  dsimp only
  rw [ty_valueAt, ty_valueAt, hasInt, hasInt, ty_valueAt]
  generalize (if (a.ty = .bool || (a.ty = .truth && b.ty = .bool)) then
    (⟨boolToInt a.term, .int⟩ : Typed) else a) = a'
  split
  · simp only [unify_valueAt, map_bind, bind_map_left]
    rfl
  · split
    · simp only [unify_valueAt, map_bind, bind_map_left]
      rfl
    · split <;> rfl

theorem sub_valueAt :
    SortedValue.sub (a.valueAt σ args) (b.valueAt σ args) = valueAt σ args <$> sub a b := by
  unfold sub SortedValue.sub
  rw [ty_valueAt, ty_valueAt]
  dsimp only
  split
  · simp only [unify_valueAt, map_bind, bind_map_left]
    rfl
  · split <;> rfl

theorem addInt_valueAt (k : Int) :
    SortedValue.addInt (a.valueAt σ args) k = valueAt σ args <$> addInt a k := by
  obtain ⟨t, ty⟩ := a
  cases ty <;> rfl

theorem connective_valueAt (build : Term → Term → Term) (f : Value → Value → Bool)
    (hbuild : ∀ s t, (build s t).eval σ args = .bool (f (s.eval σ args) (t.eval σ args))) :
    SortedValue.connective f (a.valueAt σ args) (b.valueAt σ args) =
      valueAt σ args <$> connective build a b := by
  unfold connective SortedValue.connective
  simp only [castTo_valueAt, map_bind, bind_map_left, map_ok, ofBool_valueAt, hbuild]
  rfl

theorem castAll_valueAt : ∀ (ts : List Ty) (xs : List Typed),
    SortedValue.castAll ts (xs.map (valueAt σ args)) =
      List.map (Term.eval σ args) <$> castAll ts xs
  | t :: ts, x :: xs => by
    simp only [List.map_cons, castAll, SortedValue.castAll, castTo_valueAt,
      castAll_valueAt ts xs, map_bind, bind_map_left]
    rfl
  | [], _ => rfl
  | _ :: _, [] => rfl

theorem make_valueAt (t : Ty) (i : Nat) (xs : List Typed) :
    SortedValue.make t i (xs.map (valueAt σ args)) = valueAt σ args <$> make t i xs := by
  unfold make SortedValue.make
  rw [map_bind]
  refine bind_congr fun c => ?_
  rw [List.length_map]
  split
  · rfl
  · simp only [castAll_valueAt, map_bind, bind_map_left, map_ok, valueAt, Term.eval_foldl_app]
    rfl

theorem isCon_valueAt (i : Nat) :
    SortedValue.isCon i (a.valueAt σ args) = valueAt σ args <$> isCon i a := by
  unfold isCon SortedValue.isCon
  rw [map_bind]
  rfl

theorem field_valueAt (i j : Nat) :
    SortedValue.field σ.absent i j (a.valueAt σ args) = valueAt σ args <$> field i j a := by
  unfold field SortedValue.field
  rw [map_bind]
  refine bind_congr fun c => ?_
  cases c.fields[j]? <;> rfl

theorem present_valueAt : (a.valueAt σ args).present = (present a).valueAt σ args := by
  unfold present SortedValue.present
  rw [boolean_valueAt]
  rfl

end Typed

/-! ### Expressions -/

namespace Expr

open SortedValue (value ty)

mutual

/-- The interpreter computes the value of an expression's term, or ends with the error that there is
in place of the term. -/
theorem compute_eq (σ : Assignment) : ∀ (args : List SortedValue) (e : Expr),
    e.compute σ args = Typed.valueAt σ (args.map value) <$> e.elaborate (args.map ty)
  | args, .const v t => by
    simp only [compute, elaborate]
    split <;> rfl
  | args, .lift d hint => Typed.constant_lift σ _ hint d
  | args, .liftLike d like => by
    simp only [compute, elaborate, compute_eq σ args like, map_bind, bind_map_left]
    refine bind_congr fun x => ?_
    rw [Typed.ty_valueAt]
    split
    · rfl
    · exact Typed.constant_lift σ _ _ d
  | args, .symbolic name t => by
    simp only [compute, elaborate]
    split <;> rfl
  | args, .arg i => by
    simp only [compute, elaborate, List.getElem?_map]
    cases h : args[i]? with
    | none => rfl
    | some a =>
      simp only [Option.map_some, map_ok, Typed.valueAt, Term.eval, List.getElem?_map, h,
        Option.getD_some]
  | args, .call body a => by
    simp only [compute, elaborate, compute_eq σ args a, map_bind, bind_map_left]
    refine bind_congr fun x => ?_
    -- the body has the values of the arguments in place of the caller's ones
    rw [compute_eq σ [x.valueAt σ _] body, ← bind_pure_comp]
    rfl
  | args, .call2 body a b => by
    simp only [compute, elaborate, compute_eq σ args a, compute_eq σ args b, map_bind,
      bind_map_left]
    refine bind_congr fun x => bind_congr fun y => ?_
    rw [compute_eq σ [x.valueAt σ _, y.valueAt σ _] body, ← bind_pure_comp]
    rfl
  | args, .present e => by
    simp only [compute, elaborate, compute_eq σ args e, map_bind, bind_map_left,
      Typed.present_valueAt, map_ok]
  | args, .make t i es => by
    simp only [compute, elaborate, computeAll_eq σ args es]
    cases t.lookUpError? with
    | some e => rfl
    | none =>
      simp only [map_bind, bind_map_left]
      refine bind_congr fun c => bind_congr fun xs => ?_
      by_cases hd : t.isDeclared = true
      · rw [if_pos hd, if_pos hd]
        exact Typed.make_valueAt σ _ t i xs
      · rw [if_neg hd, if_neg hd]
        rfl
  | args, .makeLike like i es => by
    simp only [compute, elaborate, compute_eq σ args like, computeAll_eq σ args es, map_bind,
      bind_map_left, Typed.ty_valueAt, Typed.make_valueAt]
  | args, .isCon i e => by
    simp only [compute, elaborate, compute_eq σ args e, map_bind, bind_map_left,
      Typed.isCon_valueAt]
  | args, .field i j e => by
    simp only [compute, elaborate, compute_eq σ args e, map_bind, bind_map_left,
      Typed.field_valueAt]
  | args, .ite c a b => by
    simp only [compute, elaborate, compute_eq σ args c, compute_eq σ args a, compute_eq σ args b,
      map_bind, bind_map_left, Typed.ite_valueAt]
  | args, .add a b => by
    simp only [compute, elaborate, compute_eq σ args a, compute_eq σ args b, map_bind,
      bind_map_left, Typed.add_valueAt]
  | args, .sub a b => by
    simp only [compute, elaborate, compute_eq σ args a, compute_eq σ args b, map_bind,
      bind_map_left, Typed.sub_valueAt]
  | args, .addInt a k => by
    simp only [compute, elaborate, compute_eq σ args a, map_bind, bind_map_left,
      Typed.addInt_valueAt]
  | args, .compare op a b => by
    simp only [compute, elaborate, compute_eq σ args a, compute_eq σ args b, map_bind,
      bind_map_left, Typed.compare_valueAt]
  | args, .compareWith op a d => by
    simp only [compute, elaborate, compute_eq σ args a, map_bind, bind_map_left,
      Typed.compareWith_valueAt]
  | args, .not a => by
    simp only [compute, elaborate, compute_eq σ args a, map_bind, bind_map_left,
      Typed.castTo_valueAt]
    rfl
  | args, .and a b => by
    simp only [compute, elaborate, compute_eq σ args a, compute_eq σ args b, map_bind,
      bind_map_left]
    exact bind_congr fun x => bind_congr fun y =>
      Typed.connective_valueAt σ _ x y .and _ fun s t => rfl
  | args, .or a b => by
    simp only [compute, elaborate, compute_eq σ args a, compute_eq σ args b, map_bind,
      bind_map_left]
    exact bind_congr fun x => bind_congr fun y =>
      Typed.connective_valueAt σ _ x y .or _ fun s t => rfl
  | args, .xor a b => by
    simp only [compute, elaborate, compute_eq σ args a, compute_eq σ args b, map_bind,
      bind_map_left]
    exact bind_congr fun x => bind_congr fun y =>
      Typed.connective_valueAt σ _ x y (fun x y => .not (.eq x y)) _ fun s t => by
        simp only [Term.eval, isTrue_bool]
  | args, .implies a b => by
    simp only [compute, elaborate, compute_eq σ args a, compute_eq σ args b, map_bind,
      bind_map_left]
    exact bind_congr fun x => bind_congr fun y =>
      Typed.connective_valueAt σ _ x y (fun x y => .or (.not x) y) _ fun s t => by
        simp only [Term.eval, isTrue_bool]
  | args, .boolean a => by
    simp only [compute, elaborate, compute_eq σ args a, map_bind, bind_map_left,
      Typed.castTo_valueAt]
    rfl
  | args, .asTerm a => by
    simp only [compute, elaborate, compute_eq σ args a, map_bind, bind_map_left,
      Typed.boolean_valueAt, map_ok]
  | args, .undefined e => rfl

theorem computeAll_eq (σ : Assignment) : ∀ (args : List SortedValue) (es : List Expr),
    computeAll σ args es =
      List.map (Typed.valueAt σ (args.map value)) <$> elaborateAll (args.map ty) es
  | _, [] => rfl
  | args, e :: es => by
    simp only [computeAll, elaborateAll, compute_eq σ args e, computeAll_eq σ args es, map_bind,
      bind_map_left]
    rfl

end

end Expr

end RouteInvariants
