import RouteInvariants.Proofs.Results
import RouteInvariants.Proofs.Typing

/-!
What an expression is elaborated to is of the sort that it is said to have (`elaborate_wellTyped`).
A plain truth value is a Boolean term. The proof has one lemma for each operation of elaboration,
and follows the expression.
-/

namespace RouteInvariants

/-- The sort of the terms that are said to be of a sort. -/
def Ty.termTy : Ty → Ty
  | .truth => .bool
  | t => t

def Variable.IsSymbolic : Variable → Prop
  | .symbolic _ _ => True
  | _ => False

theorem Ty.termTy_eq_of_ne {t : Ty} (h : t ≠ .truth) : t.termTy = t := by
  cases t with
  | truth => exact absurd rfl h
  | _ => rfl

theorem Ty.ne_truth_of_isDeclared {t : Ty} (h : t.isDeclared = true) : t ≠ .truth := by
  rintro rfl
  cases h

theorem Ty.ne_truth_of_isData {t : Ty} (h : t.isData = true) : t ≠ .truth := by
  rintro rfl
  cases h

theorem Ty.ne_truth_of_hasOrder {t : Ty} (h : Typed.hasOrder t = true) : t ≠ .truth := by
  rintro rfl
  cases h

namespace Typed

/-- The term is of the sort that it is said to have. -/
def WellTyped (X : Variable → Prop) (Γ : List Ty) (x : Typed) : Prop :=
  x.term.HasTy X Γ [] x.ty.termTy

variable {X : Variable → Prop} {Γ : List Ty} {a b c x : Typed} {s t u : Term} {ty target : Ty}

theorem hasTy_const {v : Value} (hd : ty.isDeclared = true) (hv : v.fits ty = true) :
    Term.HasTy X Γ (.const v) [] ty :=
  .const hd (Value.awaits_nil.2 hv)

theorem hasTy_bool (b : Bool) : Term.HasTy X Γ (.bool b) [] .bool := hasTy_const rfl rfl

theorem hasTy_int (n : Int) : Term.HasTy X Γ (.int n) [] .int := hasTy_const rfl rfl

theorem hasTy_bitsOfInt (w : Nat) (n : Int) :
    Term.HasTy X Γ (.const (.bitsOfInt w n)) [] (.bits w) :=
  hasTy_const rfl (by simp [Value.bitsOfInt, Value.fits])

theorem hasTy_boolToInt (h : Term.HasTy X Γ t [] .bool) : Term.HasTy X Γ (boolToInt t) [] .int :=
  .ite h (hasTy_int 1) (hasTy_int 0)

/-! ### Numbers as other numbers -/

theorem hasTy_of_widen? (ha : a.WellTyped X Γ) (h : a.widen? target = some t) :
    Term.HasTy X Γ t [] target.termTy := by
  unfold widen? at h
  unfold WellTyped at ha
  split at h
  · rename_i he
    cases h
    exact he ▸ ha
  · split at h
    all_goals cases h
    all_goals rename_i he _; rw [he] at ha
    · exact hasTy_boolToInt ha
    · exact .toReal (hasTy_boolToInt ha)
    · exact .toReal ha
    · exact ha
    · exact hasTy_boolToInt ha
    · exact .ite ha (hasTy_bitsOfInt _ 1) (hasTy_bitsOfInt _ 0)

theorem hasOrder_of_widen? (h : a.widen? target = some t) (ho : hasOrder a.ty = true) :
    hasOrder target = true := by
  unfold widen? at h
  split at h
  · rename_i he
    exact he ▸ ho
  · split at h <;> simp_all [hasOrder]

theorem hasTy_of_unify (ha : a.WellTyped X Γ) (hb : b.WellTyped X Γ)
    (h : unify a b = .ok (s, t, ty)) :
    Term.HasTy X Γ s [] ty.termTy ∧ Term.HasTy X Γ t [] ty.termTy := by
  unfold unify at h
  split at h
  · rename_i hw
    cases h
    exact ⟨ha, hasTy_of_widen? hb hw⟩
  · split at h
    · rename_i hw
      cases h
      exact ⟨hasTy_of_widen? ha hw, hb⟩
    · cases h

theorem hasOrder_of_unify (h : unify a b = .ok (s, t, ty))
    (ho : hasOrder a.ty = true ∨ hasOrder b.ty = true) : hasOrder ty = true := by
  unfold unify at h
  split at h
  · rename_i hw
    cases h
    exact ho.elim id (hasOrder_of_widen? hw)
  · split at h
    · rename_i hw
      cases h
      exact ho.elim (hasOrder_of_widen? hw) id
    · cases h

theorem hasTy_of_castTo (ha : a.WellTyped X Γ) (h : castTo target a = .ok t) :
    Term.HasTy X Γ t [] target.termTy := by
  unfold castTo at h
  split at h
  · rename_i hw
    cases h
    exact hasTy_of_widen? ha hw
  · split at h <;> cases h

theorem WellTyped.boolean (ha : a.WellTyped X Γ) : a.boolean.WellTyped X Γ := by
  unfold Typed.boolean
  split
  · rename_i ht
    unfold WellTyped at ha
    rw [ht] at ha
    exact ha
  · exact ha

theorem boolean_ty : a.boolean.ty = a.ty.termTy := by
  unfold boolean
  split
  · rename_i ht
    rw [ht]
    rfl
  · rename_i ht
    exact (Ty.termTy_eq_of_ne ht).symm

/-! ### Plain data -/

theorem wellTyped_of_option {v : Option Value} (hd : ty.isDeclared = true)
    (hv : ∀ w, v = some w → w.fits ty = true)
    (h : (match v with
      | some v => Except.ok (Typed.mk (.const v) ty)
      | none => .error SortError.mismatch) = .ok x) : x.WellTyped X Γ := by
  split at h
  · cases h
    unfold WellTyped
    rw [Ty.termTy_eq_of_ne (Ty.ne_truth_of_isDeclared hd)]
    exact hasTy_const hd (hv _ rfl)
  · cases h

theorem wellTyped_of_adapt {d : Datum} (h : d.adapt ty = .ok x) : x.WellTyped X Γ := by
  unfold Datum.adapt at h
  split at h
  · cases h
    exact hasTy_bool _
  · exact wellTyped_of_option rfl (by simp +contextual [Value.fits]) h
  · exact wellTyped_of_option rfl (by simp +contextual [Value.fits]) h
  · exact wellTyped_of_option rfl (by simp +contextual [Value.fits]) h
  · split at h
    · cases h
      exact hasTy_bitsOfInt _ _
    · cases h
  · exact wellTyped_of_option rfl (by simp +contextual [Value.bitsOfInt, Value.fits]) h
  · cases h
    exact hasTy_const rfl rfl
  · cases h
    exact hasTy_bool _
  · cases h

theorem wellTyped_of_lift {d : Datum} {hint : Option Ty} (h : d.lift hint = .ok x) :
    x.WellTyped X Γ := by
  unfold Datum.lift at h
  split at h
  · cases h
    exact hasTy_bool _
  · split at h
    · cases h
      exact hasTy_bitsOfInt _ _
    · cases h
      exact hasTy_int _
  · cases h
    exact hasTy_const rfl rfl
  · cases h

/-! ### Operations -/

theorem wellTyped_of_ite (hc : c.WellTyped X Γ) (ha : a.WellTyped X Γ) (hb : b.WellTyped X Γ)
    (h : ite c a b = .ok x) : x.WellTyped X Γ := by
  unfold ite at h
  obtain ⟨c', hc', h⟩ := bind_eq_ok.1 h
  dsimp only at h
  split at h
  · obtain ⟨⟨s, t, ty⟩, hab, h⟩ := bind_eq_ok.1 h
    cases h
    obtain ⟨hs, ht⟩ := hasTy_of_unify ha.boolean hb.boolean hab
    exact .ite (hasTy_of_castTo hc hc') hs ht
  · obtain ⟨⟨s, t, ty⟩, hab, h⟩ := bind_eq_ok.1 h
    cases h
    obtain ⟨hs, ht⟩ := hasTy_of_unify ha hb hab
    exact .ite (hasTy_of_castTo hc hc') hs ht

theorem wellTyped_of_equal (ha : a.WellTyped X Γ) (hb : b.WellTyped X Γ)
    (h : equal a b = .ok x) : x.WellTyped X Γ ∧ x.ty = .bool := by
  unfold equal at h
  obtain ⟨⟨s, t, ty⟩, hab, h⟩ := bind_eq_ok.1 h
  cases h
  obtain ⟨hs, ht⟩ := hasTy_of_unify ha hb hab
  exact ⟨.eq hs ht, rfl⟩

/-- Two operands of which one has an order are at a common sort with an order. -/
theorem hasTy_of_unify_ordered (ha : a.WellTyped X Γ) (hb : b.WellTyped X Γ)
    (ho : hasOrder a.ty = true ∨ hasOrder b.ty = true) (hab : unify a b = .ok (s, t, ty)) :
    ty.termTy = ty ∧ hasOrder ty = true ∧ Term.HasTy X Γ s [] ty ∧ Term.HasTy X Γ t [] ty := by
  obtain ⟨hs, ht⟩ := hasTy_of_unify ha hb hab
  have hty := hasOrder_of_unify hab ho
  have he := Ty.termTy_eq_of_ne (Ty.ne_truth_of_hasOrder hty)
  rw [he] at hs ht
  exact ⟨he, hty, hs, ht⟩

theorem hasOrder_of_isNumeric (h : (isArithmetic ty || isBits ty) = true) : hasOrder ty = true := by
  cases ty <;> first | rfl | cases h

theorem hasTy_orderTerm (op : Comparison) (ho : hasOrder ty = true)
    (hs : Term.HasTy X Γ s [] ty) (ht : Term.HasTy X Γ t [] ty) :
    Term.HasTy X Γ (orderTerm op s t) [] .bool := by
  cases op with
  | eq => exact .eq hs ht
  | ne => exact .not (.eq hs ht)
  | le => exact .le ho hs ht
  | lt => exact .not (.le ho ht hs)
  | ge => exact .le ho ht hs
  | gt => exact .not (.le ho hs ht)

theorem wellTyped_of_ordered {op : Comparison} (ha : a.WellTyped X Γ) (hb : b.WellTyped X Γ)
    (h : ordered a b (orderTerm op) = .ok x) : x.WellTyped X Γ := by
  unfold ordered at h
  dsimp only at h
  split at h
  · cases h
  · split at h
    · rename_i ho
      obtain ⟨⟨s, t, ty⟩, hab, h⟩ := bind_eq_ok.1 h
      cases h
      obtain ⟨-, hty, hs, ht⟩ := hasTy_of_unify_ordered ha hb (by simpa using ho) hab
      exact hasTy_orderTerm op hty hs ht
    · cases h

theorem wellTyped_comparePlain (op : Comparison) (hs : Term.HasTy X Γ s [] .bool)
    (ht : Term.HasTy X Γ t [] .bool) : (comparePlain op s t).WellTyped X Γ :=
  hasTy_orderTerm op rfl (hasTy_boolToInt hs) (hasTy_boolToInt ht)

theorem wellTyped_of_compare {op : Comparison} (ha : a.WellTyped X Γ) (hb : b.WellTyped X Γ)
    (h : compare op a b = .ok x) : x.WellTyped X Γ := by
  unfold compare at h
  split at h
  · rename_i hp
    simp only [Bool.and_eq_true, decide_eq_true_eq] at hp
    unfold WellTyped at ha hb
    rw [hp.1] at ha
    rw [hp.2] at hb
    cases h
    exact wellTyped_comparePlain op ha hb
  · split at h
    · exact (wellTyped_of_equal ha hb h).1
    · obtain ⟨e, he, h⟩ := bind_eq_ok.1 h
      cases h
      obtain ⟨hw, hty⟩ := wellTyped_of_equal ha hb he
      unfold WellTyped at hw
      rw [hty] at hw
      exact .not hw
    · exact wellTyped_of_ordered ha hb h

theorem wellTyped_of_comparePlainWith {op : Comparison} {d : Datum}
    (hs : Term.HasTy X Γ s [] .bool) (h : comparePlainWith op s d = .ok x) : x.WellTyped X Γ := by
  unfold comparePlainWith at h
  split at h
  · cases h
    exact wellTyped_comparePlain op hs (hasTy_bool _)
  · cases h
    exact hasTy_orderTerm op rfl (hasTy_boolToInt hs) (hasTy_int _)
  · cases h
    exact hasTy_bool false
  · cases h
    exact hasTy_bool true
  · cases h

theorem wellTyped_of_compareWith {op : Comparison} {d : Datum} (ha : a.WellTyped X Γ)
    (h : compareWith op a d = .ok x) : x.WellTyped X Γ := by
  have adapted : ∀ {op : Comparison}, (d.adapt a.ty >>= fun b => compare op a b) = .ok x →
      x.WellTyped X Γ := by
    intro op h
    obtain ⟨b, hb, h⟩ := bind_eq_ok.1 h
    exact wellTyped_of_compare ha (wellTyped_of_adapt hb) h
  unfold compareWith at h
  split at h
  · rename_i hp
    unfold WellTyped at ha
    rw [hp] at ha
    exact wellTyped_of_comparePlainWith ha h
  · split at h
    · cases h
      exact hasTy_bool false
    · cases h
      exact hasTy_bool true
    · exact adapted h
    · exact adapted h
    · split at h
      · cases h
      · split at h
        · exact adapted h
        · cases h

theorem wellTyped_of_add (ha : a.WellTyped X Γ) (hb : b.WellTyped X Γ) (h : add a b = .ok x) :
    x.WellTyped X Γ := by
  -- the operands that meet are the given ones, or their integers
  have asInt : ∀ {a : Typed} {p : Prop} [Decidable p], a.WellTyped X Γ →
      (p → a.ty = .bool ∨ a.ty = .truth) →
      (if p then (⟨boolToInt a.term, .int⟩ : Typed) else a).WellTyped X Γ := by
    intro a p _ ha hp
    split
    · rename_i h
      unfold WellTyped at ha
      rcases hp h with hty | hty <;> rw [hty] at ha <;> exact hasTy_boolToInt ha
    · exact ha
  unfold add at h
  dsimp only at h
  generalize ha' : (if (a.ty = .bool || (a.ty = .truth && b.ty = .bool)) then
    (⟨boolToInt a.term, .int⟩ : Typed) else a) = a' at h
  have ha' : a'.WellTyped X Γ := ha' ▸ asInt ha (by simp; tauto)
  split at h
  · rename_i ho
    obtain ⟨⟨s, t, ty⟩, hab, h⟩ := bind_eq_ok.1 h
    cases h
    obtain ⟨he, hty, hs, ht⟩ :=
      hasTy_of_unify_ordered ha' (asInt hb (by simp +contextual)) (.inl ho) hab
    unfold WellTyped
    rw [he]
    exact .add hty hs ht
  · split at h
    · rename_i ho
      obtain ⟨⟨s, t, ty⟩, hab, h⟩ := bind_eq_ok.1 h
      cases h
      rw [Bool.and_eq_true, Bool.or_comm] at ho
      obtain ⟨he, hty, hs, ht⟩ :=
        hasTy_of_unify_ordered ha' hb (.inr (hasOrder_of_isNumeric ho.2)) hab
      unfold WellTyped
      rw [he]
      exact .add hty hs ht
    · split at h <;> cases h

theorem wellTyped_of_sub (ha : a.WellTyped X Γ) (hb : b.WellTyped X Γ) (h : sub a b = .ok x) :
    x.WellTyped X Γ := by
  unfold sub at h
  dsimp only at h
  split at h
  · rename_i ho
    obtain ⟨⟨s, t, ty⟩, hab, h⟩ := bind_eq_ok.1 h
    cases h
    rw [Bool.or_eq_true] at ho
    obtain ⟨he, hty, hs, ht⟩ := hasTy_of_unify_ordered ha hb
      (ho.imp hasOrder_of_isNumeric hasOrder_of_isNumeric) hab
    unfold WellTyped
    rw [he]
    exact .sub hty hs ht
  · split at h <;> cases h

theorem wellTyped_of_addInt {k : Int} (ha : a.WellTyped X Γ) (h : addInt a k = .ok x) :
    x.WellTyped X Γ := by
  unfold addInt at h
  unfold WellTyped at ha
  split at h
  all_goals cases h
  all_goals rename_i hty; rw [hty] at ha
  · exact .add rfl (hasTy_boolToInt ha) (hasTy_int k)
  · exact .add rfl ha (hasTy_int k)
  · exact .add rfl ha (hasTy_const rfl rfl)
  · exact .add rfl ha (hasTy_bitsOfInt _ k)

theorem wellTyped_of_connective {build : Term → Term → Term}
    (hbuild : ∀ {s t : Term}, Term.HasTy X Γ s [] .bool → Term.HasTy X Γ t [] .bool →
      Term.HasTy X Γ (build s t) [] .bool)
    (ha : a.WellTyped X Γ) (hb : b.WellTyped X Γ) (h : connective build a b = .ok x) :
    x.WellTyped X Γ := by
  unfold connective at h
  obtain ⟨s, hs, h⟩ := bind_eq_ok.1 h
  obtain ⟨t, ht, h⟩ := bind_eq_ok.1 h
  cases h
  exact hbuild (hasTy_of_castTo ha hs) (hasTy_of_castTo hb ht)

/-! ### Constructors and fields -/

theorem ctorOf_eq_ok {i : Nat} {k : Ctor} (h : ctorOf ty i = .ok k) :
    ty.isData = true ∧ ty.ctor? i = some k := by
  unfold ctorOf at h
  split at h
  · split at h
    · cases h
      exact ⟨‹_›, ‹_›⟩
    · cases h
  · cases h

theorem hasTy_of_castAll : ∀ {tys : List Ty} {as : List Typed} {ts : List Term},
    (∀ s ∈ tys, s ≠ .truth) → (∀ a ∈ as, a.WellTyped X Γ) → tys.length = as.length →
    castAll tys as = .ok ts → List.Forall₂ (fun s t => Term.HasTy X Γ t [] s) tys ts
  | [], [], _, _, _, _, h => by
    cases h
    exact .nil
  | s :: tys, a :: as, _, htys, has, hlen, h => by
    unfold castAll at h
    obtain ⟨t, ht, h⟩ := bind_eq_ok.1 h
    obtain ⟨ts, hts, h⟩ := bind_eq_ok.1 h
    cases h
    rw [List.forall_mem_cons] at htys has
    have hhead := hasTy_of_castTo has.1 ht
    rw [Ty.termTy_eq_of_ne htys.1] at hhead
    exact .cons hhead (hasTy_of_castAll htys.2 has.2 (by simpa using hlen) hts)

theorem wellTyped_of_make {i : Nat} {as : List Typed} (hd : ty.isDeclared = true)
    (has : ∀ a ∈ as, a.WellTyped X Γ) (h : make ty i as = .ok x) : x.WellTyped X Γ := by
  unfold make at h
  obtain ⟨k, hk, h⟩ := bind_eq_ok.1 h
  obtain ⟨-, hk⟩ := ctorOf_eq_ok hk
  split at h
  · cases h
  · rename_i hlen
    obtain ⟨ts, hts, h⟩ := bind_eq_ok.1 h
    cases h
    have hsorts : ∀ s ∈ k.fields.map Prod.snd, s ≠ .truth := by
      intro s hs
      obtain ⟨f, hf, rfl⟩ := List.mem_map.1 hs
      exact Ty.ne_truth_of_isDeclared (Ty.isDeclared_of_ctor? hd hk f hf)
    have hall := hasTy_of_castAll hsorts has (by simpa using hlen) hts
    unfold WellTyped
    rw [Ty.termTy_eq_of_ne (Ty.ne_truth_of_isDeclared hd)]
    exact Term.HasTy.foldl_app (by simpa using Term.HasTy.con hd hk) hall

theorem wellTyped_of_isCon {i : Nat} (ha : a.WellTyped X Γ) (h : isCon i a = .ok x) :
    x.WellTyped X Γ := by
  unfold isCon at h
  obtain ⟨k, hk, h⟩ := bind_eq_ok.1 h
  obtain ⟨hdata, -⟩ := ctorOf_eq_ok hk
  cases h
  unfold WellTyped at ha
  rw [Ty.termTy_eq_of_ne (Ty.ne_truth_of_isData hdata)] at ha
  exact .isCon hdata ha

theorem wellTyped_of_field {i j : Nat} (hΓ : ∀ s ∈ Γ, s.isDeclared = true)
    (ha : a.WellTyped X Γ) (h : field i j a = .ok x) : x.WellTyped X Γ := by
  unfold field at h
  obtain ⟨k, hk, h⟩ := bind_eq_ok.1 h
  obtain ⟨hdata, hk⟩ := ctorOf_eq_ok hk
  split at h
  · rename_i f hf
    cases h
    unfold WellTyped at ha ⊢
    rw [Ty.termTy_eq_of_ne (Ty.ne_truth_of_isData hdata)] at ha
    have hfield : a.ty.field? i j = some f := by rw [Ty.field?, hk, Option.bind_some, hf]
    have hd := Ty.isDeclared_of_field? (ha.isDeclared hΓ).1 hfield
    rw [Ty.termTy_eq_of_ne (Ty.ne_truth_of_isDeclared hd)]
    exact .field hfield ha
  · cases h

theorem WellTyped.present (hΓ : ∀ s ∈ Γ, s.isDeclared = true) (ha : a.WellTyped X Γ) :
    a.present.WellTyped X Γ := by
  have hb := ha.boolean
  unfold WellTyped at hb
  have hd := (hb.isDeclared hΓ).1
  have hty : a.boolean.ty.termTy = a.boolean.ty := by
    rw [boolean_ty]
    cases a.ty <;> rfl
  rw [hty] at hb hd
  have hopt : (Ty.option a.boolean.ty).isDeclared = true := by
    simp [Ty.option, Ty.isDeclared, Ctors.grounded, Fields.hasSelf, Ctors.isDeclared,
      Fields.isDeclared, hd]
  exact .app (Term.HasTy.con (c := ⟨"some", [("value", a.boolean.ty)]⟩) hopt rfl) hb

end Typed

/-! ### Expressions -/

/-- Arguments of the sorts are terms of declared sorts. -/
def Ty.AllDeclared (Γ : List Ty) : Prop := ∀ s ∈ Γ.map Ty.termTy, s.isDeclared = true

theorem Typed.WellTyped.isDeclared {X : Variable → Prop} {Γ : List Ty} {x : Typed}
    (hx : x.WellTyped X (Γ.map Ty.termTy)) (hΓ : Ty.AllDeclared Γ) :
    x.ty.termTy.isDeclared = true :=
  (Term.HasTy.isDeclared hx hΓ).1

namespace Expr

mutual

/-- What an expression is elaborated to is of the sort that it is said to have, and has no other
variables than symbolic values. -/
theorem elaborate_wellTyped {Γ : List Ty} (hΓ : Ty.AllDeclared Γ) : ∀ {e : Expr} {x : Typed},
    e.elaborate Γ = .ok x → x.WellTyped Variable.IsSymbolic (Γ.map Ty.termTy)
  | .const v t, x, h => by
    rw [elaborate] at h
    split at h
    · rename_i hv
      rw [Bool.and_eq_true] at hv
      cases h
      unfold Typed.WellTyped
      rw [Ty.termTy_eq_of_ne (Ty.ne_truth_of_isDeclared hv.1)]
      exact Typed.hasTy_const hv.1 hv.2
    · cases h
  | .lift d hint, x, h => Typed.wellTyped_of_lift (by rwa [elaborate] at h)
  | .liftLike d like, x, h => by
    rw [elaborate] at h
    obtain ⟨e, -, h⟩ := bind_eq_ok.1 h
    split at h
    · cases h
    · exact Typed.wellTyped_of_lift h
  | .symbolic name t, x, h => by
    rw [elaborate] at h
    split at h
    · rename_i hd
      cases h
      unfold Typed.WellTyped
      rw [Ty.termTy_eq_of_ne (Ty.ne_truth_of_isDeclared hd)]
      exact .var (x := .symbolic name t) trivial hd
    · cases h
  | .arg i, x, h => by
    rw [elaborate] at h
    split at h
    · rename_i hi
      cases h
      exact .arg (by rw [List.getElem?_map, hi, Option.map_some])
    · cases h
  | .call body a, x, h => by
    rw [elaborate] at h
    obtain ⟨a', ha, h⟩ := bind_eq_ok.1 h
    obtain ⟨b', hb, h⟩ := bind_eq_ok.1 h
    cases h
    have ha' := elaborate_wellTyped hΓ ha
    exact .call ha' (elaborate_wellTyped (by simpa [Ty.AllDeclared] using ha'.isDeclared hΓ) hb)
  | .call2 body a b, x, h => by
    rw [elaborate] at h
    obtain ⟨a', ha, h⟩ := bind_eq_ok.1 h
    obtain ⟨b', hb, h⟩ := bind_eq_ok.1 h
    obtain ⟨c', hc, h⟩ := bind_eq_ok.1 h
    cases h
    have ha' := elaborate_wellTyped hΓ ha
    have hb' := elaborate_wellTyped hΓ hb
    exact .call2 ha' hb' (elaborate_wellTyped
      (by simpa [Ty.AllDeclared] using ⟨ha'.isDeclared hΓ, hb'.isDeclared hΓ⟩) hc)
  | .present e, x, h => by
    rw [elaborate] at h
    obtain ⟨a, ha, h⟩ := bind_eq_ok.1 h
    cases h
    exact (elaborate_wellTyped hΓ ha).present hΓ
  | .make t i args, x, h => by
    rw [elaborate] at h
    split at h
    · cases h
    · obtain ⟨k, -, h⟩ := bind_eq_ok.1 h
      obtain ⟨xs, hxs, h⟩ := bind_eq_ok.1 h
      split at h
      · exact Typed.wellTyped_of_make ‹_› (elaborateAll_wellTyped hΓ hxs) h
      · cases h
  | .makeLike like i args, x, h => by
    rw [elaborate] at h
    obtain ⟨e, he, h⟩ := bind_eq_ok.1 h
    obtain ⟨k, hk, h⟩ := bind_eq_ok.1 h
    obtain ⟨xs, hxs, h⟩ := bind_eq_ok.1 h
    have hd := (elaborate_wellTyped hΓ he).isDeclared hΓ
    rw [Ty.termTy_eq_of_ne (Ty.ne_truth_of_isData (Typed.ctorOf_eq_ok hk).1)] at hd
    exact Typed.wellTyped_of_make hd (elaborateAll_wellTyped hΓ hxs) h
  | .isCon i e, x, h => by
    rw [elaborate] at h
    obtain ⟨a, ha, h⟩ := bind_eq_ok.1 h
    exact Typed.wellTyped_of_isCon (elaborate_wellTyped hΓ ha) h
  | .field i j e, x, h => by
    rw [elaborate] at h
    obtain ⟨a, ha, h⟩ := bind_eq_ok.1 h
    exact Typed.wellTyped_of_field hΓ (elaborate_wellTyped hΓ ha) h
  | .ite c a b, x, h => by
    rw [elaborate] at h
    obtain ⟨c', hc, h⟩ := bind_eq_ok.1 h
    obtain ⟨a', ha, h⟩ := bind_eq_ok.1 h
    obtain ⟨b', hb, h⟩ := bind_eq_ok.1 h
    exact Typed.wellTyped_of_ite (elaborate_wellTyped hΓ hc) (elaborate_wellTyped hΓ ha)
      (elaborate_wellTyped hΓ hb) h
  | .add a b, x, h => by
    rw [elaborate] at h
    obtain ⟨a', ha, h⟩ := bind_eq_ok.1 h
    obtain ⟨b', hb, h⟩ := bind_eq_ok.1 h
    exact Typed.wellTyped_of_add (elaborate_wellTyped hΓ ha) (elaborate_wellTyped hΓ hb) h
  | .sub a b, x, h => by
    rw [elaborate] at h
    obtain ⟨a', ha, h⟩ := bind_eq_ok.1 h
    obtain ⟨b', hb, h⟩ := bind_eq_ok.1 h
    exact Typed.wellTyped_of_sub (elaborate_wellTyped hΓ ha) (elaborate_wellTyped hΓ hb) h
  | .addInt a k, x, h => by
    rw [elaborate] at h
    obtain ⟨a', ha, h⟩ := bind_eq_ok.1 h
    exact Typed.wellTyped_of_addInt (elaborate_wellTyped hΓ ha) h
  | .compare op a b, x, h => by
    rw [elaborate] at h
    obtain ⟨a', ha, h⟩ := bind_eq_ok.1 h
    obtain ⟨b', hb, h⟩ := bind_eq_ok.1 h
    exact Typed.wellTyped_of_compare (elaborate_wellTyped hΓ ha) (elaborate_wellTyped hΓ hb) h
  | .compareWith op a d, x, h => by
    rw [elaborate] at h
    obtain ⟨a', ha, h⟩ := bind_eq_ok.1 h
    exact Typed.wellTyped_of_compareWith (elaborate_wellTyped hΓ ha) h
  | .not a, x, h => by
    rw [elaborate] at h
    obtain ⟨a', ha, h⟩ := bind_eq_ok.1 h
    obtain ⟨t, ht, h⟩ := bind_eq_ok.1 h
    cases h
    exact .not (Typed.hasTy_of_castTo (elaborate_wellTyped hΓ ha) ht)
  | .and a b, x, h => by
    rw [elaborate] at h
    obtain ⟨a', ha, h⟩ := bind_eq_ok.1 h
    obtain ⟨b', hb, h⟩ := bind_eq_ok.1 h
    exact Typed.wellTyped_of_connective .and (elaborate_wellTyped hΓ ha)
      (elaborate_wellTyped hΓ hb) h
  | .or a b, x, h => by
    rw [elaborate] at h
    obtain ⟨a', ha, h⟩ := bind_eq_ok.1 h
    obtain ⟨b', hb, h⟩ := bind_eq_ok.1 h
    exact Typed.wellTyped_of_connective .or (elaborate_wellTyped hΓ ha)
      (elaborate_wellTyped hΓ hb) h
  | .xor a b, x, h => by
    rw [elaborate] at h
    obtain ⟨a', ha, h⟩ := bind_eq_ok.1 h
    obtain ⟨b', hb, h⟩ := bind_eq_ok.1 h
    exact Typed.wellTyped_of_connective (fun hs ht => .not (.eq hs ht))
      (elaborate_wellTyped hΓ ha) (elaborate_wellTyped hΓ hb) h
  | .implies a b, x, h => by
    rw [elaborate] at h
    obtain ⟨a', ha, h⟩ := bind_eq_ok.1 h
    obtain ⟨b', hb, h⟩ := bind_eq_ok.1 h
    exact Typed.wellTyped_of_connective (fun hs ht => .or (.not hs) ht)
      (elaborate_wellTyped hΓ ha) (elaborate_wellTyped hΓ hb) h
  | .boolean a, x, h => by
    rw [elaborate] at h
    obtain ⟨a', ha, h⟩ := bind_eq_ok.1 h
    obtain ⟨t, ht, h⟩ := bind_eq_ok.1 h
    cases h
    exact Typed.hasTy_of_castTo (elaborate_wellTyped hΓ ha) ht
  | .asTerm a, x, h => by
    rw [elaborate] at h
    obtain ⟨a', ha, h⟩ := bind_eq_ok.1 h
    cases h
    exact (elaborate_wellTyped hΓ ha).boolean
  | .undefined e, x, h => by
    rw [elaborate] at h
    cases h

theorem elaborateAll_wellTyped {Γ : List Ty} (hΓ : Ty.AllDeclared Γ) :
    ∀ {es : List Expr} {xs : List Typed}, elaborateAll Γ es = .ok xs →
      ∀ x ∈ xs, x.WellTyped Variable.IsSymbolic (Γ.map Ty.termTy)
  | [], xs, h => by
    rw [elaborateAll] at h
    cases h
    exact fun x hx => nomatch hx
  | e :: es, xs, h => by
    rw [elaborateAll] at h
    obtain ⟨x, hx, h⟩ := bind_eq_ok.1 h
    obtain ⟨xs, hxs, h⟩ := bind_eq_ok.1 h
    cases h
    exact List.forall_mem_cons.2 ⟨elaborate_wellTyped hΓ hx, elaborateAll_wellTyped hΓ hxs⟩

end

end Expr

end RouteInvariants
