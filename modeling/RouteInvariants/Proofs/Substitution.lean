import RouteInvariants.Proofs.Scenarios

/-!
Values in place of symbolic ones. A substitution gives values to some variables; an expression in
which they are put in place of the symbolic values is elaborated to the term in which they are
(`elaborate_substitute`), and that term has the value that the original one has where the variables
are assigned these values (`eval_substitute`). So conditions and functions on routes mean the same
after a substitution as under the assignment (`sameResult_substitute`).
-/

namespace RouteInvariants

/-- Values for some variables. -/
abbrev Substitution := Variable → Option Value

namespace Substitution

/-- The values are of the sorts of their variables. -/
def IsSorted (θ : Substitution) : Prop := ∀ x v, θ x = some v → v.fits x.ty = true

/-- One value for one variable. -/
def single (x : Variable) (v : Value) : Substitution := fun y => if y = x then some v else none

theorem isSorted_single {x : Variable} {v : Value} (h : v.fits x.ty = true) :
    (single x v).IsSorted := by
  intro y w hw
  obtain ⟨rfl, hvw⟩ := Option.ite_none_right_eq_some.1 hw
  exact Option.some.inj hvw ▸ h

end Substitution

/-! ### Terms -/

namespace Term

/-- The term with values in place of variables. -/
def substitute (θ : Substitution) : Term → Term
  | var x => match θ x with
    | some v => const v
    | none => var x
  | call body a => call (body.substitute θ) (a.substitute θ)
  | call2 body a b => call2 (body.substitute θ) (a.substitute θ) (b.substitute θ)
  | ite c a b => ite (c.substitute θ) (a.substitute θ) (b.substitute θ)
  | not a => not (a.substitute θ)
  | and a b => and (a.substitute θ) (b.substitute θ)
  | or a b => or (a.substitute θ) (b.substitute θ)
  | eq a b => eq (a.substitute θ) (b.substitute θ)
  | le a b => le (a.substitute θ) (b.substitute θ)
  | add a b => add (a.substitute θ) (b.substitute θ)
  | sub a b => sub (a.substitute θ) (b.substitute θ)
  | toReal a => toReal (a.substitute θ)
  | app f a => app (f.substitute θ) (a.substitute θ)
  | isCon i a => isCon i (a.substitute θ)
  | field owner i j a => field owner i j (a.substitute θ)
  | const v => const v
  | arg i => arg i
  | con i => con i

variable {θ : Substitution} {σ : Assignment}

/-- A term has the value that it had under the values that were put in. -/
theorem eval_substitute (t : Term) (args : List Value) :
    (t.substitute θ).eval σ args = t.eval (σ.override θ) args := by
  induction t generalizing args with
  | var x =>
    simp only [substitute, eval, Assignment.override]
    cases θ x <;> rfl
  | const | arg | con => rfl
  | call body a ihb iha => rw [substitute, eval, eval, iha, ihb]
  | call2 body a b ihc iha ihb => rw [substitute, eval, eval, iha, ihb, ihc]
  | ite c a b ihc iha ihb => rw [substitute, eval, eval, ihc, iha, ihb]
  | not a iha | toReal a iha | isCon i a iha => rw [substitute, eval, eval, iha]
  | and a b iha ihb | or a b iha ihb | eq a b iha ihb | le a b iha ihb | add a b iha ihb
  | sub a b iha ihb | app a b iha ihb => rw [substitute, eval, eval, iha, ihb]
  | field owner i j a iha =>
    simp only [substitute, eval, iha]
    rfl

/-- A term stays as it is if no value is given for its variables. -/
theorem HasTy.substitute_eq {Γ : List Ty} {t : Term} {rest : List Ty} {ty : Ty}
    (h : HasTy (fun x => θ x = none) Γ t rest ty) : t.substitute θ = t := by
  induction h with
  | const | arg | con => rfl
  | var hx => simp only [substitute, hx]
  | call _ _ iha ihb => rw [substitute, iha, ihb]
  | call2 _ _ _ iha ihb ihc => rw [substitute, iha, ihb, ihc]
  | ite _ _ _ ihc iha ihb => rw [substitute, ihc, iha, ihb]
  | not _ iha | toReal _ iha => rw [substitute, iha]
  | and _ _ iha ihb | or _ _ iha ihb | eq _ _ iha ihb | app _ _ iha ihb =>
    rw [substitute, iha, ihb]
  | le _ _ _ iha ihb | add _ _ _ iha ihb | sub _ _ _ iha ihb => rw [substitute, iha, ihb]
  | isCon _ _ iha | field _ _ iha => rw [substitute, iha]

end Term

/-! ### Operations of elaboration -/

section Maps

variable {ε α β : Type}

theorem map_ok (f : α → β) (a : α) : f <$> (.ok a : Except ε α) = .ok (f a) := rfl

theorem map_eq_ok {f : α → β} {r : Except ε α} {b : β} :
    f <$> r = .ok b ↔ ∃ a, r = .ok a ∧ f a = b := by
  cases r with
  | error e => exact ⟨fun h => (nomatch h), fun ⟨_, h, _⟩ => (nomatch h)⟩
  | ok a => simp

end Maps

namespace Typed

def substitute (θ : Substitution) (x : Typed) : Typed := ⟨x.term.substitute θ, x.ty⟩

variable (θ : Substitution) (a b c : Typed)

theorem ty_substitute : (a.substitute θ).ty = a.ty := rfl

theorem term_substitute : (a.substitute θ).term = a.term.substitute θ := rfl

theorem ofBool_substitute (t : Term) : (ofBool t).substitute θ = ofBool (t.substitute θ) := rfl

/-- Constants stay as they are. -/
theorem map_substitute_eq {r : Except SortError Typed}
    (h : ∀ {x}, r = .ok x → x.WellTyped (fun x => θ x = none) []) : substitute θ <$> r = r := by
  cases r with
  | error e => rfl
  | ok x =>
    rw [map_ok, substitute, Term.HasTy.substitute_eq (h rfl)]

theorem boolean_substitute : (a.substitute θ).boolean = a.boolean.substitute θ := by
  unfold boolean
  rw [ty_substitute]
  split <;> rfl

theorem widen?_substitute (target : Ty) :
    (a.substitute θ).widen? target = (a.widen? target).map (Term.substitute θ) := by
  unfold widen?
  rw [ty_substitute]
  split
  · rfl
  · split <;> rfl

theorem castTo_substitute (target : Ty) :
    castTo target (a.substitute θ) = Term.substitute θ <$> castTo target a := by
  unfold castTo
  rw [widen?_substitute, ty_substitute]
  cases a.widen? target with
  | some t => rfl
  | none =>
    dsimp only [Option.map]
    split <;> rfl

theorem unify_substitute : unify (a.substitute θ) (b.substitute θ) =
    (fun r => (r.1.substitute θ, r.2.1.substitute θ, r.2.2)) <$> unify a b := by
  unfold unify
  rw [widen?_substitute, widen?_substitute, ty_substitute, ty_substitute]
  cases b.widen? a.ty with
  | some t => rfl
  | none => cases a.widen? b.ty <;> rfl

theorem ite_substitute : ite (c.substitute θ) (a.substitute θ) (b.substitute θ) =
    substitute θ <$> ite c a b := by
  unfold ite
  rw [ty_substitute, ty_substitute, boolean_substitute, boolean_substitute]
  split
  all_goals
    simp only [castTo_substitute, unify_substitute, map_bind, bind_map_left]
    rfl

theorem equal_substitute : equal (a.substitute θ) (b.substitute θ) = substitute θ <$> equal a b := by
  unfold equal
  simp only [unify_substitute, map_bind, bind_map_left]
  rfl

theorem orderTerm_substitute (op : Comparison) (s t : Term) :
    (orderTerm op s t).substitute θ = orderTerm op (s.substitute θ) (t.substitute θ) := by
  cases op <;> rfl

theorem comparePlain_substitute (op : Comparison) (s t : Term) :
    (comparePlain op s t).substitute θ = comparePlain op (s.substitute θ) (t.substitute θ) := by
  rw [comparePlain, substitute, orderTerm_substitute]
  rfl

theorem compare_substitute (op : Comparison) :
    compare op (a.substitute θ) (b.substitute θ) = substitute θ <$> compare op a b := by
  unfold compare
  rw [ty_substitute, ty_substitute]
  split
  · rw [map_ok, comparePlain_substitute, term_substitute, term_substitute]
  · have hordered : ordered (a.substitute θ) (b.substitute θ) (orderTerm op) =
        substitute θ <$> ordered a b (orderTerm op) := by
      unfold ordered
      rw [ty_substitute, ty_substitute]
      dsimp only
      split
      · rfl
      · split
        · simp only [unify_substitute, map_bind, bind_map_left, map_ok, ofBool_substitute,
            orderTerm_substitute]
        · rfl
    cases op with
    | eq => exact equal_substitute θ a b
    | ne =>
      simp only [equal_substitute, map_bind, bind_map_left]
      rfl
    | _ => exact hordered

theorem comparePlainWith_substitute (op : Comparison) (t : Term) (d : Datum) :
    comparePlainWith op (t.substitute θ) d = substitute θ <$> comparePlainWith op t d := by
  unfold comparePlainWith
  split
  · rw [map_ok, comparePlain_substitute]
    rfl
  · rw [map_ok, substitute, orderTerm_substitute]
    rfl
  · rfl
  · rfl
  · rfl

theorem compareWith_substitute (op : Comparison) (d : Datum) :
    compareWith op (a.substitute θ) d = substitute θ <$> compareWith op a d := by
  have hadapted (op : Comparison) : (d.adapt a.ty >>= fun b => compare op (a.substitute θ) b) =
      substitute θ <$> (d.adapt a.ty >>= fun b => compare op a b) := by
    rw [← map_substitute_eq θ (r := d.adapt a.ty) wellTyped_of_adapt, bind_map_left,
      map_substitute_eq θ wellTyped_of_adapt]
    simp only [map_bind, compare_substitute]
  unfold compareWith
  rw [ty_substitute]
  split
  · exact comparePlainWith_substitute θ op a.term d
  · split
    · rfl
    · rfl
    · exact hadapted .eq
    · exact hadapted .ne
    · split
      · rfl
      · split
        · exact hadapted _
        · rfl

theorem add_substitute : add (a.substitute θ) (b.substitute θ) = substitute θ <$> add a b := by
  -- the operands that meet are the given ones, or their integers
  have hasInt (a : Typed) (p : Prop) [Decidable p] :
      (if p then (⟨boolToInt (a.substitute θ).term, .int⟩ : Typed) else a.substitute θ) =
        (if p then ⟨boolToInt a.term, .int⟩ else a).substitute θ := by
    split <;> rfl
  unfold add
  dsimp only
  rw [ty_substitute, ty_substitute, hasInt, hasInt, ty_substitute]
  generalize (if (a.ty = .bool || (a.ty = .truth && b.ty = .bool)) then
    (⟨boolToInt a.term, .int⟩ : Typed) else a) = a'
  split
  · simp only [unify_substitute, map_bind, bind_map_left]
    rfl
  · split
    · simp only [unify_substitute, map_bind, bind_map_left]
      rfl
    · split <;> rfl

theorem sub_substitute : sub (a.substitute θ) (b.substitute θ) = substitute θ <$> sub a b := by
  unfold sub
  rw [ty_substitute, ty_substitute]
  dsimp only
  split
  · simp only [unify_substitute, map_bind, bind_map_left]
    rfl
  · split <;> rfl

theorem addInt_substitute (k : Int) : addInt (a.substitute θ) k = substitute θ <$> addInt a k := by
  unfold addInt
  rw [ty_substitute]
  split <;> rfl

theorem connective_substitute (build : Term → Term → Term)
    (hbuild : ∀ s t, (build s t).substitute θ = build (s.substitute θ) (t.substitute θ)) :
    connective build (a.substitute θ) (b.substitute θ) = substitute θ <$> connective build a b := by
  unfold connective
  simp only [castTo_substitute, map_bind, bind_map_left, map_ok, ofBool_substitute, hbuild]

theorem castAll_substitute : ∀ (ts : List Ty) (xs : List Typed),
    castAll ts (xs.map (substitute θ)) = List.map (Term.substitute θ) <$> castAll ts xs
  | t :: ts, x :: xs => by
    simp only [List.map_cons, castAll, castTo_substitute, castAll_substitute ts xs, map_bind,
      bind_map_left]
    rfl
  | [], _ => rfl
  | _ :: _, [] => rfl

theorem foldl_app_substitute (t : Term) (ts : List Term) :
    (ts.foldl Term.app t).substitute θ =
      (ts.map (Term.substitute θ)).foldl Term.app (t.substitute θ) := by
  induction ts generalizing t with
  | nil => rfl
  | cons s ts ih => rw [List.foldl_cons, ih, List.map_cons, List.foldl_cons, Term.substitute]

theorem make_substitute (t : Ty) (i : Nat) (xs : List Typed) :
    make t i (xs.map (substitute θ)) = substitute θ <$> make t i xs := by
  unfold make
  rw [map_bind]
  refine bind_congr fun c => ?_
  rw [List.length_map]
  split
  · rfl
  · simp only [castAll_substitute, map_bind, bind_map_left, map_ok, substitute,
      foldl_app_substitute]
    rfl

theorem isCon_substitute (i : Nat) : isCon i (a.substitute θ) = substitute θ <$> isCon i a := by
  unfold isCon
  rw [map_bind]
  rfl

theorem field_substitute (i j : Nat) :
    field i j (a.substitute θ) = substitute θ <$> field i j a := by
  unfold field
  rw [map_bind]
  refine bind_congr fun c => ?_
  cases c.fields[j]? <;> rfl

theorem present_substitute : present (a.substitute θ) = (present a).substitute θ := by
  unfold present
  rw [boolean_substitute]
  rfl

end Typed

/-! ### Expressions -/

namespace Expr

mutual

/-- The expression with values in place of symbolic ones. -/
def substitute (θ : Substitution) : Expr → Expr
  | symbolic name ty => match θ (.symbolic name ty) with
    | some v => const v ty
    | none => symbolic name ty
  | liftLike d like => liftLike d (like.substitute θ)
  | call body a => call (body.substitute θ) (a.substitute θ)
  | call2 body a b => call2 (body.substitute θ) (a.substitute θ) (b.substitute θ)
  | present e => present (e.substitute θ)
  | make ty i args => make ty i (substituteAll θ args)
  | makeLike like i args => makeLike (like.substitute θ) i (substituteAll θ args)
  | isCon i e => isCon i (e.substitute θ)
  | field i j e => field i j (e.substitute θ)
  | ite c a b => ite (c.substitute θ) (a.substitute θ) (b.substitute θ)
  | add a b => add (a.substitute θ) (b.substitute θ)
  | sub a b => sub (a.substitute θ) (b.substitute θ)
  | addInt a k => addInt (a.substitute θ) k
  | compare op a b => compare op (a.substitute θ) (b.substitute θ)
  | compareWith op a d => compareWith op (a.substitute θ) d
  | not a => not (a.substitute θ)
  | and a b => and (a.substitute θ) (b.substitute θ)
  | or a b => or (a.substitute θ) (b.substitute θ)
  | xor a b => xor (a.substitute θ) (b.substitute θ)
  | implies a b => implies (a.substitute θ) (b.substitute θ)
  | boolean a => boolean (a.substitute θ)
  | asTerm a => asTerm (a.substitute θ)
  | const v ty => const v ty
  | lift d hint => lift d hint
  | arg i => arg i
  | undefined e => undefined e

def substituteAll (θ : Substitution) : List Expr → List Expr
  | [] => []
  | e :: es => e.substitute θ :: substituteAll θ es

end

mutual

/-- The term of an expression with values in place of symbolic ones has them in place of its
variables. -/
theorem elaborate_substitute {θ : Substitution} (hθ : θ.IsSorted) : ∀ (Γ : List Ty) (e : Expr),
    (e.substitute θ).elaborate Γ = Typed.substitute θ <$> e.elaborate Γ
  | Γ, .symbolic name ty => by
    simp only [substitute, elaborate]
    cases hv : θ (.symbolic name ty) with
    | none =>
      simp only [elaborate]
      split
      · simp only [map_ok, Typed.substitute, Term.substitute, hv]
      · rfl
    | some v =>
      have hfits : v.fits ty = true := hθ _ v hv
      simp only [elaborate, hfits, Bool.and_true]
      split
      · simp only [map_ok, Typed.substitute, Term.substitute, hv]
      · rfl
  | Γ, .liftLike d like => by
    simp only [substitute, elaborate, elaborate_substitute hθ Γ like, map_bind, bind_map_left]
    refine bind_congr fun x => ?_
    rw [Typed.ty_substitute]
    split
    · rfl
    · exact (Typed.map_substitute_eq θ Typed.wellTyped_of_lift).symm
  | Γ, .call body a => by
    simp only [substitute, elaborate, elaborate_substitute hθ Γ a, map_bind, bind_map_left,
      Typed.ty_substitute]
    refine bind_congr fun x => ?_
    rw [elaborate_substitute hθ [x.ty] body, bind_map_left]
    rfl
  | Γ, .call2 body a b => by
    simp only [substitute, elaborate, elaborate_substitute hθ Γ a, elaborate_substitute hθ Γ b,
      map_bind, bind_map_left, Typed.ty_substitute]
    refine bind_congr fun x => bind_congr fun y => ?_
    rw [elaborate_substitute hθ [x.ty, y.ty] body, bind_map_left]
    rfl
  | Γ, .present e => by
    simp only [substitute, elaborate, elaborate_substitute hθ Γ e, map_bind, bind_map_left,
      Typed.present_substitute, map_ok]
  | Γ, .make ty i args => by
    simp only [substitute, elaborate, elaborateAll_substitute hθ Γ args]
    split
    · rfl
    · simp only [map_bind, bind_map_left]
      refine bind_congr fun c => bind_congr fun xs => ?_
      split
      · exact Typed.make_substitute θ ty i xs
      · rfl
  | Γ, .makeLike like i args => by
    simp only [substitute, elaborate, elaborate_substitute hθ Γ like,
      elaborateAll_substitute hθ Γ args, map_bind, bind_map_left, Typed.ty_substitute,
      Typed.make_substitute]
  | Γ, .isCon i e => by
    simp only [substitute, elaborate, elaborate_substitute hθ Γ e, map_bind, bind_map_left,
      Typed.isCon_substitute]
  | Γ, .field i j e => by
    simp only [substitute, elaborate, elaborate_substitute hθ Γ e, map_bind, bind_map_left,
      Typed.field_substitute]
  | Γ, .ite c a b => by
    simp only [substitute, elaborate, elaborate_substitute hθ Γ c, elaborate_substitute hθ Γ a,
      elaborate_substitute hθ Γ b, map_bind, bind_map_left, Typed.ite_substitute]
  | Γ, .add a b => by
    simp only [substitute, elaborate, elaborate_substitute hθ Γ a, elaborate_substitute hθ Γ b,
      map_bind, bind_map_left, Typed.add_substitute]
  | Γ, .sub a b => by
    simp only [substitute, elaborate, elaborate_substitute hθ Γ a, elaborate_substitute hθ Γ b,
      map_bind, bind_map_left, Typed.sub_substitute]
  | Γ, .addInt a k => by
    simp only [substitute, elaborate, elaborate_substitute hθ Γ a, map_bind, bind_map_left,
      Typed.addInt_substitute]
  | Γ, .compare op a b => by
    simp only [substitute, elaborate, elaborate_substitute hθ Γ a, elaborate_substitute hθ Γ b,
      map_bind, bind_map_left, Typed.compare_substitute]
  | Γ, .compareWith op a d => by
    simp only [substitute, elaborate, elaborate_substitute hθ Γ a, map_bind, bind_map_left,
      Typed.compareWith_substitute]
  | Γ, .not a => by
    simp only [substitute, elaborate, elaborate_substitute hθ Γ a, map_bind, bind_map_left,
      Typed.castTo_substitute]
    rfl
  | Γ, .and a b => by
    simp only [substitute, elaborate, elaborate_substitute hθ Γ a, elaborate_substitute hθ Γ b,
      map_bind, bind_map_left, Typed.connective_substitute θ _ _ .and fun _ _ => rfl]
  | Γ, .or a b => by
    simp only [substitute, elaborate, elaborate_substitute hθ Γ a, elaborate_substitute hθ Γ b,
      map_bind, bind_map_left, Typed.connective_substitute θ _ _ .or fun _ _ => rfl]
  | Γ, .xor a b => by
    simp only [substitute, elaborate, elaborate_substitute hθ Γ a, elaborate_substitute hθ Γ b,
      map_bind, bind_map_left,
      Typed.connective_substitute θ _ _ (fun x y => .not (.eq x y)) fun _ _ => rfl]
  | Γ, .implies a b => by
    simp only [substitute, elaborate, elaborate_substitute hθ Γ a, elaborate_substitute hθ Γ b,
      map_bind, bind_map_left,
      Typed.connective_substitute θ _ _ (fun x y => .or (.not x) y) fun _ _ => rfl]
  | Γ, .boolean a => by
    simp only [substitute, elaborate, elaborate_substitute hθ Γ a, map_bind, bind_map_left,
      Typed.castTo_substitute]
    rfl
  | Γ, .asTerm a => by
    simp only [substitute, elaborate, elaborate_substitute hθ Γ a, map_bind, bind_map_left,
      Typed.boolean_substitute, map_ok]
  | Γ, .const v ty => by
    simp only [substitute, elaborate]
    split <;> rfl
  | Γ, .lift d hint => (Typed.map_substitute_eq θ Typed.wellTyped_of_lift).symm
  | Γ, .arg i => by
    simp only [substitute, elaborate]
    cases Γ[i]? <;> rfl
  | Γ, .undefined e => rfl

theorem elaborateAll_substitute {θ : Substitution} (hθ : θ.IsSorted) :
    ∀ (Γ : List Ty) (es : List Expr), elaborateAll Γ (substituteAll θ es) =
      List.map (Typed.substitute θ) <$> elaborateAll Γ es
  | _, [] => rfl
  | Γ, e :: es => by
    simp only [substituteAll, elaborateAll, elaborate_substitute hθ Γ e,
      elaborateAll_substitute hθ Γ es, map_bind, bind_map_left]
    rfl

end

end Expr

/-! ### Conditions and functions on routes -/

open Typed (Matches)

/-- Two computations that go on differently after a common part. -/
theorem sameResult_map {α : Type} {σ τ : Assignment} {f g : α → Typed} {r : Except SortError α}
    (h : ∀ a, r = .ok a → Matches σ τ (f a) (g a)) : SameResult σ τ (f <$> r) (g <$> r) where
  right hu := by
    obtain ⟨a, ha, rfl⟩ := map_eq_ok.1 hu
    exact ⟨g a, map_eq_ok.2 ⟨a, ha, rfl⟩, h a ha⟩
  left hw := by
    obtain ⟨a, ha, rfl⟩ := map_eq_ok.1 hw
    exact ⟨f a, map_eq_ok.2 ⟨a, ha, rfl⟩, h a ha⟩

section SameResult

variable {θ : Substitution} (hθ : θ.IsSorted) {σ : Assignment} {x y x' y' : Typed}
include hθ

/-- What an expression means under the assignment, it means with the values in place. -/
theorem sameResult_substitute (e : Expr) :
    SameResult (σ.override θ) σ (e.elaborate []) ((e.substitute θ).elaborate []) := by
  have helaborate := Expr.elaborate_substitute hθ [] e
  have hmap : SameResult (σ.override θ) σ (id <$> e.elaborate [])
      (Typed.substitute θ <$> e.elaborate []) := sameResult_map fun u hu =>
    ⟨Typed.IsDefined.isClosed ⟨e, hu⟩, Typed.IsDefined.isClosed ⟨e.substitute θ, by
      rw [helaborate, hu, map_ok]⟩, rfl, (Term.eval_substitute u.term []).symm⟩
  rwa [id_map, ← helaborate] at hmap

/-- So does a function of a route. -/
theorem sameResult_appliedTo_substitute (body : Expr) (hxy : Matches (σ.override θ) σ x y) :
    SameResult (σ.override θ) σ (body.appliedTo x) ((body.substitute θ).appliedTo y) := by
  have happlied : (body.substitute θ).appliedTo y =
      (fun b => ⟨.call (b.term.substitute θ) y.term, b.ty⟩) <$> body.elaborate [x.ty] := by
    rw [Expr.appliedTo, Expr.elaborate_substitute hθ, ← hxy.ty, bind_map_left]
    rfl
  rw [happlied]
  refine sameResult_map (f := fun b : Typed => ⟨.call b.term x.term, b.ty⟩) fun b hb => ?_
  refine ⟨Expr.isClosed_of_appliedTo hxy.left (bind_eq_ok.2 ⟨b, hb, rfl⟩),
    Expr.isClosed_of_appliedTo hxy.right (happlied.trans (map_eq_ok.2 ⟨b, hb, rfl⟩)), rfl, ?_⟩
  simp only [Term.eval, hxy.eval, Term.eval_substitute]

theorem sameResult_appliedTo₂_substitute (body : Expr) (hxy : Matches (σ.override θ) σ x y)
    (hxy' : Matches (σ.override θ) σ x' y') :
    SameResult (σ.override θ) σ (body.appliedTo₂ x x') ((body.substitute θ).appliedTo₂ y y') := by
  have happlied : (body.substitute θ).appliedTo₂ y y' =
      (fun b => ⟨.call2 (b.term.substitute θ) y.term y'.term, b.ty⟩) <$>
        body.elaborate [x.ty, x'.ty] := by
    rw [Expr.appliedTo₂, Expr.elaborate_substitute hθ, ← hxy.ty, ← hxy'.ty, bind_map_left]
    rfl
  rw [happlied]
  refine sameResult_map (f := fun b : Typed => ⟨.call2 b.term x.term x'.term, b.ty⟩) fun b hb => ?_
  refine ⟨Expr.isClosed_of_appliedTo₂ hxy.left hxy'.left (bind_eq_ok.2 ⟨b, hb, rfl⟩),
    Expr.isClosed_of_appliedTo₂ hxy.right hxy'.right
      (happlied.trans (map_eq_ok.2 ⟨b, hb, rfl⟩)), rfl, ?_⟩
  simp only [Term.eval, hxy.eval, hxy'.eval, Term.eval_substitute]

end SameResult

/-! ### Parts of a network -/

def Predicate.substitute (θ : Substitution) (p : Predicate) : Predicate := ⟨p.body.substitute θ⟩

def Invariant.substitute (θ : Substitution) (inv : Invariant) : Invariant :=
  ⟨inv.body.substitute θ⟩

/-- The symbolic value with values of other ones in its restriction. -/
def Symbolic.substitute (θ : Substitution) (s : Symbolic) : Symbolic :=
  { s with restriction := s.restriction.map (Predicate.substitute θ) }

section Restrictions

variable {θ : Substitution}

theorem Symbolic.constraint_substitute {s : Symbolic} (hs : θ s.unknown = none) :
    (s.substitute θ).constraint = s.constraint.substitute θ := by
  have hexpr : s.expr.substitute θ = s.expr := by
    have hs : θ (.symbolic s.name s.ty) = none := hs
    simp only [Symbolic.expr, Expr.substitute, hs]
  unfold Symbolic.constraint Symbolic.substitute
  cases s.restriction with
  | none => rfl
  | some p =>
    simp only [Option.map_some, Predicate.apply, Expr.substitute, hexpr]
    rfl

theorem Expr.conj_substitute (es : List Expr) :
    (Expr.conj es).substitute θ = .conj (es.map (Expr.substitute θ)) := by
  fun_induction Expr.conj es with
  | case1 => rfl
  | case2 e => rfl
  | case3 e es hne ih =>
    cases es with
    | nil => exact absurd rfl hne
    | cons e' es => simp only [Expr.substitute, ih, List.map_cons, Expr.conj]

theorem Symbolic.constraints_substitute {ss : List Symbolic} (hss : ∀ s ∈ ss, θ s.unknown = none) :
    Symbolic.constraints (ss.map (Symbolic.substitute θ)) =
      (Symbolic.constraints ss).substitute θ := by
  rw [Symbolic.constraints, Symbolic.constraints, Expr.conj_substitute, List.map_map, List.map_map]
  exact congrArg Expr.conj (List.map_congr_left fun s hs => constraint_substitute (hss s hs))

end Restrictions

end RouteInvariants
