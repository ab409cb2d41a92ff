import RouteInvariants.Proofs.Update
import RouteInvariants.Verify.Annotated

/-!
Terms that match: two terms of one sort that have the same value, each under its own assignment.
Functions on routes and conditions on them cannot tell matching terms apart where the assignments
agree on the symbolic values, and so a network is related to itself by matching
(`relatedAt_matches`).
-/

namespace RouteInvariants

namespace Term.AgreeOn

variable {X : Variable → Prop} {σ τ : Assignment}

theorem refl (X : Variable → Prop) (σ : Assignment) : AgreeOn X σ σ := ⟨fun _ _ => rfl, rfl⟩

theorem symm (h : AgreeOn X σ τ) : AgreeOn X τ σ := ⟨fun x hx => (h.value x hx).symm, h.absent.symm⟩

end Term.AgreeOn

namespace Typed

/-- A term without arguments, of the sort that it is said to have. -/
def IsClosed (x : Typed) : Prop := x.WellTyped (fun _ => True) []

structure Matches (σ τ : Assignment) (x y : Typed) : Prop where
  left : x.IsClosed
  right : y.IsClosed
  ty : x.ty = y.ty
  eval : x.term.eval σ [] = y.term.eval τ []

variable {σ τ : Assignment} {x y : Typed}

theorem Matches.symm (h : Matches σ τ x y) : Matches τ σ y x :=
  ⟨h.right, h.left, h.ty.symm, h.eval.symm⟩

theorem IsClosed.matches_self (h : x.IsClosed) (σ : Assignment) : Matches σ σ x x :=
  ⟨h, h, rfl, rfl⟩

theorem IsClosed.isDeclared (h : x.IsClosed) : x.ty.termTy.isDeclared = true :=
  (Term.HasTy.isDeclared h (by simp)).1

theorem isClosed_of_wellTyped {X : Variable → Prop} (h : x.WellTyped X []) : x.IsClosed :=
  Term.HasTy.mono (fun _ _ => trivial) h

theorem isClosed_const {v : Value} {t : Ty} (hd : t.isDeclared = true) (hv : v.fits t = true) :
    (Typed.mk (.const v) t).IsClosed := by
  unfold IsClosed WellTyped
  rw [Ty.termTy_eq_of_ne (Ty.ne_truth_of_isDeclared hd)]
  exact hasTy_const hd hv

theorem isClosed_var {v : Variable} (hd : v.ty.isDeclared = true) :
    (Typed.mk (.var v) v.ty).IsClosed := by
  unfold IsClosed WellTyped
  rw [Ty.termTy_eq_of_ne (Ty.ne_truth_of_isDeclared hd)]
  exact .var trivial hd

theorem IsClosed.eval_fits (h : x.IsClosed) (hd : x.ty.isDeclared = true) (hσ : σ.WellSorted) :
    (x.term.eval σ []).fits x.ty = true := by
  have := Term.HasTy.eval_fits h hσ
  rwa [Ty.termTy_eq_of_ne (Ty.ne_truth_of_isDeclared hd)] at this

theorem IsDefined.wellTyped (h : x.IsDefined) : x.WellTyped Variable.IsSymbolic [] := by
  obtain ⟨e, he⟩ := h
  exact Expr.elaborate_wellTyped (Γ := []) (by simp [Ty.AllDeclared]) he

theorem IsDefined.isClosed (h : x.IsDefined) : x.IsClosed := isClosed_of_wellTyped h.wellTyped

/-- The term of an expression has the same value where the symbolic values are the same. -/
theorem IsDefined.matches (h : x.IsDefined) (hστ : Term.AgreeOn Variable.IsSymbolic σ τ) :
    Matches σ τ x x :=
  ⟨h.isClosed, h.isClosed, rfl, Term.HasTy.eval_congr h.wellTyped hστ⟩

theorem Matches.trans {υ : Assignment} {z : Typed} (h : Matches σ τ x y) (h' : Matches τ υ y z) :
    Matches σ υ x z :=
  ⟨h.left, h'.right, h.ty.trans h'.ty, h.eval.trans h'.eval⟩

theorem IsClosed.matches_simplify (h : x.IsClosed) (hσ : σ.WellSorted) :
    Matches σ σ x ⟨x.term.simplify, x.ty⟩ :=
  ⟨h, Term.simplify_hasTy h, rfl, (Term.eval_simplify hσ h).symm⟩

/-- Simplified terms match where the terms do. -/
theorem Matches.simplify (h : Matches σ τ x y) (hσ : σ.WellSorted) (hτ : τ.WellSorted) :
    Matches σ τ ⟨x.term.simplify, x.ty⟩ ⟨y.term.simplify, y.ty⟩ :=
  (h.left.matches_simplify hσ).symm.trans (h.trans (h.right.matches_simplify hτ))

theorem Matches.observe (h : Matches σ τ x y) :
    (Model.ofAssignment σ).observe x = (Model.ofAssignment τ).observe y := by
  simp only [Model.ofAssignment, h.eval, h.ty]

end Typed

/-! ### Operations on matching terms -/

namespace Typed

variable {σ τ : Assignment} {x y x' y' : Typed} {s t : Term} {target : Ty}

theorem Matches.widen? (h : Matches σ τ x y) (hx : x.widen? target = some t) :
    ∃ t', y.widen? target = some t' ∧ t.eval σ [] = t'.eval τ [] := by
  unfold Typed.widen? at hx ⊢
  rw [← h.ty]
  split at hx
  · rename_i he
    cases hx
    exact ⟨y.term, if_pos he, h.eval⟩
  · rename_i he
    rw [if_neg he]
    split at hx <;> cases hx
    all_goals exact ⟨_, rfl, by simp only [boolToInt, Term.int, Term.eval, h.eval]⟩

theorem Matches.widen?_eq_none (h : Matches σ τ x y) (hx : x.widen? target = none) :
    y.widen? target = none := by
  cases hy : y.widen? target with
  | none => rfl
  | some t =>
    obtain ⟨t', ht', -⟩ := h.symm.widen? hy
    rw [hx] at ht'
    cases ht'

theorem Matches.unify {ty : Ty} (h : Matches σ τ x y) (h' : Matches σ τ x' y')
    (hx : Typed.unify x x' = .ok (s, t, ty)) : ∃ s' t', Typed.unify y y' = .ok (s', t', ty) ∧
      s.eval σ [] = s'.eval τ [] ∧ t.eval σ [] = t'.eval τ [] := by
  unfold Typed.unify at hx ⊢
  rw [← h.ty]
  split at hx
  · rename_i hw
    cases hx
    obtain ⟨t', ht', he⟩ := h'.widen? hw
    rw [ht']
    exact ⟨_, _, rfl, h.eval, he⟩
  · rename_i hnone
    rw [h'.widen?_eq_none hnone]
    split at hx
    · rename_i hw
      cases hx
      obtain ⟨t', ht', he⟩ := h.widen? hw
      rw [h'.ty] at ht'
      rw [ht', h'.ty]
      exact ⟨_, _, rfl, he, h'.eval⟩
    · cases hx

theorem Matches.equal {u : Typed} (h : Matches σ τ x y) (h' : Matches σ τ x' y')
    (hx : Typed.equal x x' = .ok u) : ∃ w, Typed.equal y y' = .ok w ∧ Matches σ τ u w := by
  have hu := (wellTyped_of_equal h.left h'.left hx).1
  obtain ⟨⟨s, t, ty⟩, hst, hx⟩ := bind_eq_ok.1 hx
  cases hx
  obtain ⟨s', t', hst', hs, ht⟩ := h.unify h' hst
  have hy : Typed.equal y y' = .ok (ofBool (.eq s' t')) := bind_eq_ok.2 ⟨_, hst', rfl⟩
  refine ⟨_, hy, hu, (wellTyped_of_equal h.right h'.right hy).1, rfl, ?_⟩
  simp only [ofBool, Term.eval, hs, ht]

end Typed

/-! ### Functions at matching terms -/

namespace Expr

open Typed (Matches)

variable {σ τ : Assignment} {body : Expr} {x y x' y' u : Typed}

theorem isClosed_of_appliedTo (hx : x.IsClosed) (h : body.appliedTo x = .ok u) : u.IsClosed := by
  obtain ⟨b, hb, h⟩ := bind_eq_ok.1 h
  cases h
  have hd : Ty.AllDeclared [x.ty] := by simpa [Ty.AllDeclared] using hx.isDeclared
  exact .call hx ((elaborate_wellTyped hd hb).mono fun _ _ => trivial)

theorem appliedTo_matches (hστ : Term.AgreeOn Variable.IsSymbolic σ τ) (hxy : Matches σ τ x y)
    (h : body.appliedTo x = .ok u) : ∃ w, body.appliedTo y = .ok w ∧ Matches σ τ u w := by
  have hleft := isClosed_of_appliedTo hxy.left h
  obtain ⟨b, hb, h⟩ := bind_eq_ok.1 h
  cases h
  have hy : body.appliedTo y = .ok ⟨.call b.term y.term, b.ty⟩ :=
    bind_eq_ok.2 ⟨b, hxy.ty ▸ hb, rfl⟩
  refine ⟨_, hy, hleft, isClosed_of_appliedTo hxy.right hy, rfl, ?_⟩
  have hd : Ty.AllDeclared [x.ty] := by simpa [Ty.AllDeclared] using hxy.left.isDeclared
  simp only [Term.eval, hxy.eval]
  exact (elaborate_wellTyped hd hb).eval_congr hστ

theorem isClosed_of_appliedTo₂ (hx : x.IsClosed) (hx' : x'.IsClosed)
    (h : body.appliedTo₂ x x' = .ok u) : u.IsClosed := by
  obtain ⟨b, hb, h⟩ := bind_eq_ok.1 h
  cases h
  have hd : Ty.AllDeclared [x.ty, x'.ty] := by
    simpa [Ty.AllDeclared] using ⟨hx.isDeclared, hx'.isDeclared⟩
  exact .call2 hx hx' ((elaborate_wellTyped hd hb).mono fun _ _ => trivial)

theorem appliedTo₂_matches (hστ : Term.AgreeOn Variable.IsSymbolic σ τ) (hxy : Matches σ τ x y)
    (hxy' : Matches σ τ x' y') (h : body.appliedTo₂ x x' = .ok u) :
    ∃ w, body.appliedTo₂ y y' = .ok w ∧ Matches σ τ u w := by
  have hleft := isClosed_of_appliedTo₂ hxy.left hxy'.left h
  obtain ⟨b, hb, h⟩ := bind_eq_ok.1 h
  cases h
  have hy : body.appliedTo₂ y y' = .ok ⟨.call2 b.term y.term y'.term, b.ty⟩ :=
    bind_eq_ok.2 ⟨b, hxy.ty ▸ hxy'.ty ▸ hb, rfl⟩
  refine ⟨_, hy, hleft, isClosed_of_appliedTo₂ hxy.right hxy'.right hy, rfl, ?_⟩
  have hd : Ty.AllDeclared [x.ty, x'.ty] := by
    simpa [Ty.AllDeclared] using ⟨hxy.left.isDeclared, hxy'.left.isDeclared⟩
  simp only [Term.eval, hxy.eval, hxy'.eval]
  exact (elaborate_wellTyped hd hb).eval_congr hστ

end Expr

/-! ### Networks -/

namespace Network

open Typed (Matches)

variable {net : Network} {node : String} {σ τ : Assignment}

theorem isDefined_initialOf (hn : node ∈ net.topology.nodes) : (net.initialOf node).IsDefined :=
  net.initial.defined _ (Entries.mem_of_get? (get?_initial hn))

theorem isClosed_initialOf (hn : node ∈ net.topology.nodes) : (net.initialOf node).IsClosed :=
  (isDefined_initialOf hn).isClosed

/-- A network is related to itself by matching. -/
theorem relatedAt_matches (hστ : Term.AgreeOn Variable.IsSymbolic σ τ) :
    RelatedAt (Matches σ τ) (Matches σ τ) net net node where
  neighbors := rfl
  origination := rfl
  initial hn := (isDefined_initialOf hn).matches hστ
  transfer _ _ _ _ _ hxy h := Expr.appliedTo_matches hστ hxy h
  merge hxy hxy' h := Expr.appliedTo₂_matches hστ hxy hxy' h

/-- Updates of matching routes match. -/
theorem update_matches (hστ : Term.AgreeOn Variable.IsSymbolic σ τ)
    {rs rs' : List (String × Typed)} {u : Typed}
    (hr : ∀ p ∈ net.topology.predecessors node, RoutesAt (Matches σ τ) rs rs' p)
    (h : net.update node rs = .ok u) : ∃ w, net.update node rs' = .ok w ∧ Matches σ τ u w :=
  update_rel (relatedAt_matches hστ) hr h

end Network

/-! ### Conditions -/

/-- The condition holds under the assignment. -/
def HoldsAt (σ : Assignment) (r : Except SortError Typed) : Prop :=
  ∃ t, AnnotatedNetwork.condition r = .ok t ∧ t.holds σ

/-- There is a condition, and it does not hold under the assignment. -/
def FailsAt (σ : Assignment) (r : Except SortError Typed) : Prop :=
  ∃ t, AnnotatedNetwork.condition r = .ok t ∧ ¬ t.holds σ

theorem castTo_bool_eq_ok_iff {x : Typed} {t : Term} :
    Typed.castTo .bool x = .ok t ↔ x.ty.termTy = .bool ∧ t = x.term := by
  unfold Typed.castTo Typed.widen?
  cases hx : x.ty <;> simp [Ty.termTy, eq_comm]

theorem condition_eq_ok_iff {r : Except SortError Typed} {t : Term} :
    AnnotatedNetwork.condition r = .ok t ↔ ∃ x, r = .ok x ∧ x.ty.termTy = .bool ∧ t = x.term := by
  unfold AnnotatedNetwork.condition
  rw [mapError_eq_ok]
  exact bind_eq_ok.trans (exists_congr fun x => and_congr_right fun _ => castTo_bool_eq_ok_iff)

variable {σ τ : Assignment} {r r' : Except SortError Typed} {t : Term}

theorem holdsAt_iff (h : AnnotatedNetwork.condition r = .ok t) : HoldsAt σ r ↔ t.holds σ := by
  constructor
  · rintro ⟨t', ht', hold⟩
    rw [h] at ht'
    cases ht'
    exact hold
  · exact fun hold => ⟨t, h, hold⟩

theorem failsAt_iff (h : AnnotatedNetwork.condition r = .ok t) : FailsAt σ r ↔ ¬ t.holds σ := by
  constructor
  · rintro ⟨t', ht', hold⟩
    rw [h] at ht'
    cases ht'
    exact hold
  · exact fun hold => ⟨t, h, hold⟩

theorem holdsAt_iff_exists :
    HoldsAt σ r ↔ ∃ x, r = .ok x ∧ x.ty.termTy = .bool ∧ x.term.holds σ := by
  constructor
  · rintro ⟨t, ht, hold⟩
    obtain ⟨x, hx, hty, rfl⟩ := condition_eq_ok_iff.1 ht
    exact ⟨x, hx, hty, hold⟩
  · rintro ⟨x, hx, hty, hold⟩
    exact ⟨_, condition_eq_ok_iff.2 ⟨x, hx, hty, rfl⟩, hold⟩

/-- A condition does not hold and fail at once. -/
theorem HoldsAt.not_failsAt (h : HoldsAt σ r) : ¬ FailsAt σ r := by
  obtain ⟨t, ht, hold⟩ := h
  exact fun hf => (failsAt_iff ht).1 hf hold

/-- There is a condition. -/
def IsFormed (r : Except SortError Typed) : Prop := ∃ t, AnnotatedNetwork.condition r = .ok t

theorem HoldsAt.isFormed (h : HoldsAt σ r) : IsFormed r := h.imp fun _ ht => ht.1

theorem IsFormed.holdsAt (h : IsFormed r) (hf : ¬ FailsAt σ r) : HoldsAt σ r := by
  obtain ⟨t, ht⟩ := h
  rw [failsAt_iff ht, Classical.not_not] at hf
  exact ⟨t, ht, hf⟩

/-- Where one of the computations has a result the other one has a matching one. -/
structure SameResult (σ τ : Assignment) (r r' : Except SortError Typed) : Prop where
  right : ∀ {u : Typed}, r = .ok u → ∃ w, r' = .ok w ∧ Typed.Matches σ τ u w
  left : ∀ {w : Typed}, r' = .ok w → ∃ u, r = .ok u ∧ Typed.Matches σ τ u w

theorem SameResult.symm (h : SameResult σ τ r r') : SameResult τ σ r' r where
  right hw := (h.left hw).imp fun _ hu => ⟨hu.1, hu.2.symm⟩
  left hu := (h.right hu).imp fun _ hw => ⟨hw.1, hw.2.symm⟩

theorem SameResult.condition (h : SameResult σ τ r r')
    (ht : AnnotatedNetwork.condition r = .ok t) :
    ∃ t', AnnotatedNetwork.condition r' = .ok t' ∧ (t.holds σ ↔ t'.holds τ) := by
  obtain ⟨u, hu, hb, rfl⟩ := condition_eq_ok_iff.1 ht
  obtain ⟨w, hw, huw⟩ := h.right hu
  refine ⟨w.term, condition_eq_ok_iff.2 ⟨w, hw, huw.ty ▸ hb, rfl⟩, ?_⟩
  rw [Term.holds, Term.holds, huw.eval]

theorem SameResult.isFormed (h : SameResult σ τ r r') (hr : IsFormed r) : IsFormed r' := by
  obtain ⟨t, ht⟩ := hr
  obtain ⟨t', ht', -⟩ := h.condition ht
  exact ⟨t', ht'⟩

theorem SameResult.isFormed_iff (h : SameResult σ τ r r') : IsFormed r ↔ IsFormed r' :=
  ⟨h.isFormed, h.symm.isFormed⟩

theorem SameResult.holdsAt (h : SameResult σ τ r r') (hr : HoldsAt σ r) : HoldsAt τ r' := by
  obtain ⟨t, ht, hold⟩ := hr
  obtain ⟨t', ht', hiff⟩ := h.condition ht
  exact ⟨t', ht', hiff.1 hold⟩

theorem SameResult.failsAt (h : SameResult σ τ r r') (hr : FailsAt σ r) : FailsAt τ r' := by
  obtain ⟨t, ht, hold⟩ := hr
  obtain ⟨t', ht', hiff⟩ := h.condition ht
  exact ⟨t', ht', fun h => hold (hiff.2 h)⟩

theorem SameResult.holdsAt_iff (h : SameResult σ τ r r') : HoldsAt σ r ↔ HoldsAt τ r' :=
  ⟨h.holdsAt, h.symm.holdsAt⟩

theorem SameResult.failsAt_iff (h : SameResult σ τ r r') : FailsAt σ r ↔ FailsAt τ r' :=
  ⟨h.failsAt, h.symm.failsAt⟩

section Applications

variable (hστ : Term.AgreeOn Variable.IsSymbolic σ τ) {x y x' y' : Typed}
include hστ

theorem sameResult_appliedTo {body : Expr} (hxy : Typed.Matches σ τ x y) :
    SameResult σ τ (body.appliedTo x) (body.appliedTo y) where
  right hu := Expr.appliedTo_matches hστ hxy hu
  left hw := (Expr.appliedTo_matches hστ.symm hxy.symm hw).imp fun _ hu => ⟨hu.1, hu.2.symm⟩

theorem sameResult_appliedTo₂ {body : Expr} (hxy : Typed.Matches σ τ x y)
    (hxy' : Typed.Matches σ τ x' y') :
    SameResult σ τ (body.appliedTo₂ x x') (body.appliedTo₂ y y') where
  right hu := Expr.appliedTo₂_matches hστ hxy hxy' hu
  left hw := (Expr.appliedTo₂_matches hστ.symm hxy.symm hxy'.symm hw).imp
    fun _ hu => ⟨hu.1, hu.2.symm⟩

theorem sameResult_elaborate (e : Expr) : SameResult σ τ (e.elaborate []) (e.elaborate []) where
  right hu := ⟨_, hu, Typed.IsDefined.matches ⟨e, hu⟩ hστ⟩
  left hw := ⟨_, hw, Typed.IsDefined.matches ⟨e, hw⟩ hστ⟩

omit hστ in
theorem sameResult_equal (hxy : Typed.Matches σ τ x y) (hxy' : Typed.Matches σ τ x' y') :
    SameResult σ τ (Typed.equal x x') (Typed.equal y y') where
  right hu := hxy.equal hxy' hu
  left hw := (hxy.symm.equal hxy'.symm hw).imp fun _ hu => ⟨hu.1, hu.2.symm⟩

end Applications

/-- At one sort, equal terms are those with equal values. -/
theorem condition_equal {x y : Typed} (h : x.ty = y.ty) :
    AnnotatedNetwork.condition (Typed.equal x y) = .ok (.eq x.term y.term) := by
  have hw : y.widen? x.ty = some y.term := if_pos h.symm
  have hu : Typed.unify x y = .ok (x.term, y.term, x.ty) := by rw [Typed.unify, hw]
  exact condition_eq_ok_iff.2 ⟨_, bind_eq_ok.2 ⟨_, hu, rfl⟩, rfl, rfl⟩

end RouteInvariants
