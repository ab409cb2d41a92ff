import Mathlib.Algebra.Order.Archimedean.Basic
import RouteInvariants.Proofs.Obligations

/-!
Conditions on routes and times, under values for their arguments. `e.Yields σ Γ args b` says that the
expression `e` is a condition in the context `Γ` and that it has the truth value `b`; each way to
build a condition has a rule. So predicates and temporal invariants mean what they say: one that is
to hold from some time on holds of a route where it is too early or where the predicate holds
(`holdsAt_eventually`). The time may be an expression, which means the same under all arguments
(`elaborate_append`, `eval_args`).
-/

namespace RouteInvariants

/-! ### Closed expressions under arguments -/

namespace Expr

mutual

/-- More arguments do not change what an expression is. -/
theorem elaborate_append {Γ : List Ty} (Δ : List Ty) : ∀ {e : Expr} {x : Typed},
    e.elaborate Γ = .ok x → e.elaborate (Γ ++ Δ) = .ok x
  | .const _ _, _, h | .lift _ _, _, h | .symbolic _ _, _, h | .undefined _, _, h => h
  | .arg i, _, h => by
    rw [elaborate] at h ⊢
    cases hi : Γ[i]? with
    | none =>
      rw [hi] at h
      cases h
    | some t =>
      have hlt := (List.getElem?_eq_some_iff.1 hi).1
      rw [hi] at h
      rw [List.getElem?_append_left hlt, hi]
      exact h
  -- one expression in the context; the body of a call has a context of its own
  | .liftLike _ _, _, h | .call _ _, _, h | .present _, _, h | .isCon _ _, _, h
  | .field _ _ _, _, h | .addInt _ _, _, h | .compareWith _ _ _, _, h | .not _, _, h
  | .boolean _, _, h | .asTerm _, _, h => by
    rw [elaborate] at h ⊢
    exact bind_mono (elaborate_append Δ) (fun _ h => h) h
  -- two of them
  | .call2 _ _ _, _, h | .add _ _, _, h | .sub _ _, _, h | .compare _ _ _, _, h | .and _ _, _, h
  | .or _ _, _, h | .xor _ _, _, h | .implies _ _, _, h => by
    rw [elaborate] at h ⊢
    exact bind_mono (elaborate_append Δ) (fun _ => bind_mono (elaborate_append Δ) fun _ h => h) h
  | .ite _ _ _, _, h => by
    rw [elaborate] at h ⊢
    exact bind_mono (elaborate_append Δ) (fun _ => bind_mono (elaborate_append Δ)
      fun _ => bind_mono (elaborate_append Δ) fun _ h => h) h
  | .make _ _ _, _, h => by
    rw [elaborate] at h ⊢
    split at h
    · cases h
    · exact bind_mono id (fun _ => bind_mono (elaborateAll_append Δ) fun _ h => h) h
  | .makeLike _ _ _, _, h => by
    rw [elaborate] at h ⊢
    exact bind_mono (elaborate_append Δ)
      (fun _ => bind_mono id fun _ => bind_mono (elaborateAll_append Δ) fun _ h => h) h

theorem elaborateAll_append {Γ : List Ty} (Δ : List Ty) : ∀ {es : List Expr} {xs : List Typed},
    elaborateAll Γ es = .ok xs → elaborateAll (Γ ++ Δ) es = .ok xs
  | [], xs, h => h
  | e :: es, xs, h => by
    rw [elaborateAll] at h ⊢
    exact bind_mono (elaborate_append Δ)
      (fun _ => bind_mono (elaborateAll_append Δ) fun _ h => h) h

end

end Expr

/-- Arguments that a term does not have do not change its value. -/
theorem Term.HasTy.eval_args {X : Variable → Prop} {Γ : List Ty} {t : Term} {rest : List Ty}
    {ty : Ty} {σ : Assignment} {args args' : List Value} (h : HasTy X Γ t rest ty)
    (hargs : ∀ i < Γ.length, args[i]? = args'[i]?) : t.eval σ args = t.eval σ args' := by
  induction h generalizing args args' with
  | const => rfl
  | var => rfl
  | arg hi => rw [eval, eval, hargs _ (List.getElem?_eq_some_iff.1 hi).1]
  | call _ _ iha _ => rw [eval, eval, iha hargs]
  | call2 _ _ _ iha ihb _ => rw [eval, eval, iha hargs, ihb hargs]
  | ite _ _ _ ihc iha ihb => rw [eval, eval, ihc hargs, iha hargs, ihb hargs]
  | not _ iha => rw [eval, eval, iha hargs]
  | and _ _ iha ihb => rw [eval, eval, iha hargs, ihb hargs]
  | or _ _ iha ihb => rw [eval, eval, iha hargs, ihb hargs]
  | eq _ _ iha ihb => rw [eval, eval, iha hargs, ihb hargs]
  | le _ _ _ iha ihb => rw [eval, eval, iha hargs, ihb hargs]
  | add _ _ _ iha ihb => rw [eval, eval, iha hargs, ihb hargs]
  | sub _ _ _ iha ihb => rw [eval, eval, iha hargs, ihb hargs]
  | toReal _ iha => rw [eval, eval, iha hargs]
  | con => rfl
  | app _ _ ihf iha => rw [eval, eval, ihf hargs, iha hargs]
  | isCon _ _ iha => rw [eval, eval, iha hargs]
  | field _ _ iha => simp only [eval, iha hargs]

/-! ### Truth values of conditions -/

namespace Expr

variable {σ : Assignment} {Γ : List Ty} {args : List Value} {e e' body : Expr} {b : Bool}

/-- The expression is a condition, with the given truth value. -/
def Yields (σ : Assignment) (Γ : List Ty) (args : List Value) (e : Expr) (b : Bool) : Prop :=
  ∃ x, e.elaborate Γ = .ok x ∧ x.ty.termTy = .bool ∧ (x.term.eval σ args).isTrue = b

/-- A condition has one truth value. -/
theorem Yields.iff (h : e.Yields σ Γ args b) {c : Bool} : e.Yields σ Γ args c ↔ b = c := by
  obtain ⟨x, hx, hty, hb⟩ := h
  constructor
  · rintro ⟨y, hy, -, hc⟩
    rw [hx] at hy
    cases hy
    exact hb.symm.trans hc
  · rintro rfl
    exact ⟨x, hx, hty, hb⟩

theorem yields_boolean : (Expr.boolean e).Yields σ Γ args b ↔ e.Yields σ Γ args b := by
  constructor
  · rintro ⟨x, hx, -, hb⟩
    obtain ⟨y, hy, hx⟩ := bind_eq_ok.1 hx
    obtain ⟨t, ht, hx⟩ := bind_eq_ok.1 hx
    cases hx
    obtain ⟨hty, rfl⟩ := castTo_bool_eq_ok_iff.1 ht
    exact ⟨y, hy, hty, hb⟩
  · rintro ⟨y, hy, hty, hb⟩
    exact ⟨Typed.ofBool y.term, bind_eq_ok.2 ⟨y, hy, bind_eq_ok.2
      ⟨_, castTo_bool_eq_ok_iff.2 ⟨hty, rfl⟩, rfl⟩⟩, rfl, hb⟩

/-- A connective has a truth value where both operands have one. -/
theorem exists_connective_iff {build : Term → Term → Term} {op : Bool → Bool → Bool}
    (hbuild : ∀ s t : Term, ((build s t).eval σ args).isTrue =
      op (s.eval σ args).isTrue (t.eval σ args).isTrue) :
    (∃ x, (e.elaborate Γ >>= fun y => e'.elaborate Γ >>= fun z => Typed.connective build y z) =
        .ok x ∧ x.ty.termTy = .bool ∧ (x.term.eval σ args).isTrue = b) ↔
      ∃ c d, e.Yields σ Γ args c ∧ e'.Yields σ Γ args d ∧ op c d = b := by
  constructor
  · rintro ⟨x, hx, -, hb⟩
    obtain ⟨y, hy, hx⟩ := bind_eq_ok.1 hx
    obtain ⟨z, hz, hx⟩ := bind_eq_ok.1 hx
    obtain ⟨s, hs, hx⟩ := bind_eq_ok.1 hx
    obtain ⟨t, ht, hx⟩ := bind_eq_ok.1 hx
    cases hx
    obtain ⟨hyty, rfl⟩ := castTo_bool_eq_ok_iff.1 hs
    obtain ⟨hzty, rfl⟩ := castTo_bool_eq_ok_iff.1 ht
    exact ⟨_, _, ⟨y, hy, hyty, rfl⟩, ⟨z, hz, hzty, rfl⟩, (hbuild _ _).symm.trans hb⟩
  · rintro ⟨c, d, ⟨y, hy, hyty, rfl⟩, ⟨z, hz, hzty, rfl⟩, hb⟩
    refine ⟨Typed.ofBool (build y.term z.term), bind_eq_ok.2 ⟨y, hy, bind_eq_ok.2 ⟨z, hz, ?_⟩⟩, rfl,
      (hbuild _ _).trans hb⟩
    exact bind_eq_ok.2 ⟨_, castTo_bool_eq_ok_iff.2 ⟨hyty, rfl⟩,
      bind_eq_ok.2 ⟨_, castTo_bool_eq_ok_iff.2 ⟨hzty, rfl⟩, rfl⟩⟩

theorem isTrue_bool (b : Bool) : (Value.bool b).isTrue = b := by
  cases b <;> rfl

theorem yields_and : (Expr.and e e').Yields σ Γ args b ↔
    ∃ c d, e.Yields σ Γ args c ∧ e'.Yields σ Γ args d ∧ (c && d) = b :=
  exists_connective_iff fun _ _ => isTrue_bool _

theorem yields_or : (Expr.or e e').Yields σ Γ args b ↔
    ∃ c d, e.Yields σ Γ args c ∧ e'.Yields σ Γ args d ∧ (c || d) = b :=
  exists_connective_iff fun _ _ => isTrue_bool _

theorem exists_yields_and : (∃ b, (Expr.and e e').Yields σ Γ args b) ↔
    (∃ b, e.Yields σ Γ args b) ∧ ∃ b, e'.Yields σ Γ args b := by
  simp only [yields_and]
  exact ⟨fun ⟨_, c, d, hc, hd, _⟩ => ⟨⟨c, hc⟩, d, hd⟩, fun ⟨⟨c, hc⟩, d, hd⟩ => ⟨_, c, d, hc, hd, rfl⟩⟩

theorem exists_yields_or : (∃ b, (Expr.or e e').Yields σ Γ args b) ↔
    (∃ b, e.Yields σ Γ args b) ∧ ∃ b, e'.Yields σ Γ args b := by
  simp only [yields_or]
  exact ⟨fun ⟨_, c, d, hc, hd, _⟩ => ⟨⟨c, hc⟩, d, hd⟩, fun ⟨⟨c, hc⟩, d, hd⟩ => ⟨_, c, d, hc, hd, rfl⟩⟩

theorem yields_not : (Expr.not e).Yields σ Γ args b ↔ e.Yields σ Γ args (!b) := by
  have hnot (t : Term) : ((Term.not t).eval σ args).isTrue = b ↔ (t.eval σ args).isTrue = !b := by
    rw [Term.eval, isTrue_bool, Bool.not_eq_eq_eq_not]
  constructor
  · rintro ⟨x, hx, -, hb⟩
    obtain ⟨y, hy, hx⟩ := bind_eq_ok.1 hx
    obtain ⟨t, ht, hx⟩ := bind_eq_ok.1 hx
    cases hx
    obtain ⟨hty, rfl⟩ := castTo_bool_eq_ok_iff.1 ht
    exact ⟨y, hy, hty, (hnot _).1 hb⟩
  · rintro ⟨y, hy, hty, hb⟩
    exact ⟨Typed.ofBool (.not y.term), bind_eq_ok.2 ⟨y, hy, bind_eq_ok.2
      ⟨_, castTo_bool_eq_ok_iff.2 ⟨hty, rfl⟩, rfl⟩⟩, rfl, (hnot _).2 hb⟩

theorem yields_and_true : (Expr.and e e').Yields σ Γ args true ↔
    e.Yields σ Γ args true ∧ e'.Yields σ Γ args true := by
  rw [yields_and]
  constructor
  · rintro ⟨c, d, hc, hd, hcd⟩
    obtain ⟨rfl, rfl⟩ := Bool.and_eq_true_iff.1 hcd
    exact ⟨hc, hd⟩
  · exact fun h => ⟨true, true, h.1, h.2, rfl⟩

theorem yields_conj_true {es : List Expr} :
    (conj es).Yields σ Γ args true ↔ ∀ e ∈ es, e.Yields σ Γ args true := by
  fun_induction conj es with
  | case1 => exact ⟨fun _ _ h => (nomatch h), fun _ => ⟨_, rfl, rfl, rfl⟩⟩
  | case2 e => rw [yields_boolean, List.forall_mem_singleton]
  | case3 e es _ ih => rw [yields_and_true, ih, List.forall_mem_cons]

/-- A conjunction is a condition where its parts are. -/
theorem exists_yields_conj {es : List Expr} :
    (∃ b, (conj es).Yields σ Γ args b) ↔ ∀ e ∈ es, ∃ b, e.Yields σ Γ args b := by
  fun_induction conj es with
  | case1 => exact ⟨fun _ _ h => (nomatch h), fun _ => ⟨true, _, rfl, rfl, rfl⟩⟩
  | case2 e => simp only [yields_boolean, List.forall_mem_singleton]
  | case3 e es _ ih => rw [exists_yields_and, ih, List.forall_mem_cons]

theorem yields_call {a : Expr} {x : Typed} (ha : a.elaborate Γ = .ok x) :
    (Expr.call body a).Yields σ Γ args b ↔ body.Yields σ [x.ty] [x.term.eval σ args] b := by
  constructor
  · rintro ⟨y, hy, hty, hb⟩
    obtain ⟨x', hx', hy⟩ := bind_eq_ok.1 hy
    obtain ⟨z, hz, hy⟩ := bind_eq_ok.1 hy
    rw [ha] at hx'
    cases hx'
    cases hy
    exact ⟨z, hz, hty, hb⟩
  · rintro ⟨z, hz, hty, hb⟩
    exact ⟨_, bind_eq_ok.2 ⟨x, ha, bind_eq_ok.2 ⟨z, hz, rfl⟩⟩, hty, hb⟩

theorem yields_call2 {a a' : Expr} {x x' : Typed} (ha : a.elaborate Γ = .ok x)
    (ha' : a'.elaborate Γ = .ok x') : (Expr.call2 body a a').Yields σ Γ args b ↔
      body.Yields σ [x.ty, x'.ty] [x.term.eval σ args, x'.term.eval σ args] b := by
  constructor
  · rintro ⟨y, hy, hty, hb⟩
    obtain ⟨w, hw, hy⟩ := bind_eq_ok.1 hy
    obtain ⟨w', hw', hy⟩ := bind_eq_ok.1 hy
    obtain ⟨z, hz, hy⟩ := bind_eq_ok.1 hy
    rw [ha] at hw
    rw [ha'] at hw'
    cases hw
    cases hw'
    cases hy
    exact ⟨z, hz, hty, hb⟩
  · rintro ⟨z, hz, hty, hb⟩
    exact ⟨_, bind_eq_ok.2 ⟨x, ha, bind_eq_ok.2 ⟨x', ha', bind_eq_ok.2 ⟨z, hz, rfl⟩⟩⟩, hty, hb⟩

end Expr

section Results

variable {σ : Assignment} {r : Except SortError Typed}

theorem holdsAt_iff_isTrue : HoldsAt σ r ↔
    ∃ x, r = .ok x ∧ x.ty.termTy = .bool ∧ (x.term.eval σ []).isTrue = true := by
  simp only [holdsAt_iff_exists, Term.isTrue_eval_iff]

theorem isFormed_iff_exists (σ : Assignment) : IsFormed r ↔
    ∃ b x, r = .ok x ∧ x.ty.termTy = .bool ∧ (x.term.eval σ []).isTrue = b := by
  constructor
  · rintro ⟨t, ht⟩
    obtain ⟨x, hx, hty, rfl⟩ := condition_eq_ok_iff.1 ht
    exact ⟨_, x, hx, hty, rfl⟩
  · rintro ⟨b, x, hx, hty, -⟩
    exact ⟨_, condition_eq_ok_iff.2 ⟨x, hx, hty, rfl⟩⟩

end Results

namespace Expr

variable {σ : Assignment} {Γ : List Ty} {e body : Expr} {b : Bool} {r r' : Typed}

theorem holdsAt_elaborate : HoldsAt σ (e.elaborate Γ) ↔ e.Yields σ Γ [] true := holdsAt_iff_isTrue

/-! Functions at terms are conditions on the values of the terms. -/

theorem exists_appliedTo_iff : (∃ x, body.appliedTo r = .ok x ∧ x.ty.termTy = .bool ∧
    (x.term.eval σ []).isTrue = b) ↔ body.Yields σ [r.ty] [r.term.eval σ []] b := by
  constructor
  · rintro ⟨x, hx, hty, hb⟩
    obtain ⟨y, hy, hx⟩ := bind_eq_ok.1 hx
    cases hx
    exact ⟨y, hy, hty, hb⟩
  · rintro ⟨y, hy, hty, hb⟩
    exact ⟨_, bind_eq_ok.2 ⟨y, hy, rfl⟩, hty, hb⟩

theorem exists_appliedTo₂_iff : (∃ x, body.appliedTo₂ r r' = .ok x ∧ x.ty.termTy = .bool ∧
    (x.term.eval σ []).isTrue = b) ↔
      body.Yields σ [r.ty, r'.ty] [r.term.eval σ [], r'.term.eval σ []] b := by
  constructor
  · rintro ⟨x, hx, hty, hb⟩
    obtain ⟨y, hy, hx⟩ := bind_eq_ok.1 hx
    cases hx
    exact ⟨y, hy, hty, hb⟩
  · rintro ⟨y, hy, hty, hb⟩
    exact ⟨_, bind_eq_ok.2 ⟨y, hy, rfl⟩, hty, hb⟩

end Expr

/-! ### Predicates and invariants -/

section Properties

variable {σ : Assignment} {Γ : List Ty} {args : List Value} {ty : Ty} {v : Value} {b : Bool}
  {t : Int}

/-- The route is an option that is present. -/
theorem Predicate.holdsAt_isSome {r : Typed} (hty : r.ty = .option ty) :
    HoldsAt σ (Predicate.isSome.applyTo r) ↔ (r.term.eval σ []).head? = some 1 := by
  obtain ⟨x, ty⟩ := r
  subst hty
  rw [holdsAt_iff (t := .call (.isCon 1 (.arg 0)) x) rfl]
  simp [Term.holds, Term.eval]

theorem Predicate.isFormed_isSome {r : Typed} (hty : r.ty = .option ty) :
    IsFormed (Predicate.isSome.applyTo r) := by
  obtain ⟨x, ty⟩ := r
  subst hty
  exact ⟨_, rfl⟩

/-- The route is an option that is absent. -/
theorem Predicate.holdsAt_isNone {r : Typed} (hty : r.ty = .option ty) :
    HoldsAt σ (Predicate.isNone.applyTo r) ↔ (r.term.eval σ []).head? = some 0 := by
  obtain ⟨x, ty⟩ := r
  subst hty
  rw [holdsAt_iff (t := .call (.isCon 0 (.arg 0)) x) rfl]
  simp [Term.holds, Term.eval]

theorem Predicate.isFormed_isNone {r : Typed} (hty : r.ty = .option ty) :
    IsFormed (Predicate.isNone.applyTo r) := by
  obtain ⟨x, ty⟩ := r
  subst hty
  exact ⟨_, rfl⟩

/-- The route is equal to an expression of its sort. -/
theorem Predicate.equals_spec {e : Expr} {x r : Typed} (he : e.elaborate [] = .ok x)
    (hty : r.ty = x.ty) (htruth : r.ty ≠ .truth) :
    IsFormed ((Predicate.compare .eq (.expr e)).applyTo r) ∧
      (HoldsAt σ ((Predicate.compare .eq (.expr e)).applyTo r) ↔
        r.term.eval σ [] = x.term.eval σ []) := by
  have hx : x.IsClosed := Typed.IsDefined.isClosed ⟨e, he⟩
  have heval (v : Value) : x.term.eval σ [v] = x.term.eval σ [] :=
    Term.HasTy.eval_args hx fun i hi => absurd hi (Nat.not_lt_zero i)
  have hunify : Typed.unify ⟨.arg 0, r.ty⟩ x = .ok (.arg 0, x.term, r.ty) := by
    rw [Typed.unify, show x.widen? r.ty = some x.term from if_pos hty.symm]
  have hbody : (Predicate.compare .eq (.expr e)).body.Yields σ [r.ty] [r.term.eval σ []]
      (decide (r.term.eval σ [] = x.term.eval σ [])) := by
    refine ⟨Typed.ofBool (.eq (.arg 0) x.term), ?_, rfl, ?_⟩
    · refine bind_eq_ok.2 ⟨⟨.arg 0, r.ty⟩, rfl, bind_eq_ok.2 ⟨x, Expr.elaborate_append [r.ty] he, ?_⟩⟩
      rw [Typed.compare, if_neg (by simp [htruth])]
      exact bind_eq_ok.2 ⟨_, hunify, rfl⟩
    · rw [Typed.ofBool, Term.eval, Expr.isTrue_bool, heval]
      rfl
  refine ⟨(isFormed_iff_exists σ).2 ⟨_, Expr.exists_appliedTo_iff.2 hbody⟩, ?_⟩
  rw [Predicate.applyTo, holdsAt_iff_isTrue, Expr.exists_appliedTo_iff, hbody.iff,
    decide_eq_true_iff]

theorem Predicate.yields_apply (p : Predicate) :
    (p.apply (.arg 0)).Yields σ (ty :: Γ) (v :: args) b ↔ p.body.Yields σ [ty] [v] b :=
  Expr.yields_call (x := ⟨.arg 0, ty⟩) rfl

theorem Predicate.holdsAt_all {ps : List Predicate} {r : Typed} :
    HoldsAt σ ((Predicate.all ps).applyTo r) ↔ ∀ p ∈ ps, HoldsAt σ (p.applyTo r) := by
  simp only [Predicate.applyTo, holdsAt_iff_isTrue, Expr.exists_appliedTo_iff, Predicate.all,
    Expr.yields_conj_true, List.forall_mem_map, Predicate.yields_apply]

theorem Predicate.isFormed_all {ps : List Predicate} {r : Typed} :
    IsFormed ((Predicate.all ps).applyTo r) ↔ ∀ p ∈ ps, IsFormed (p.applyTo r) := by
  obtain ⟨σ, -⟩ := Assignment.exists_wellSorted
  simp only [Predicate.applyTo, isFormed_iff_exists σ, Expr.exists_appliedTo_iff, Predicate.all,
    Expr.exists_yields_conj, List.forall_mem_map, Predicate.yields_apply]

theorem Invariant.yields_apply {s : Ty} {u : Value} (a : Invariant) :
    (a.apply (.arg 0) (.arg 1)).Yields σ (ty :: s :: Γ) (v :: u :: args) b ↔
      a.body.Yields σ [ty, s] [v, u] b :=
  Expr.yields_call2 (x := ⟨.arg 0, ty⟩) rfl
    (show (Expr.arg 1).elaborate (ty :: s :: Γ) = .ok ⟨.arg 1, s⟩ from rfl)

variable {r time : Typed}

theorem Invariant.holdsAt_intersect {as : List Invariant} :
    HoldsAt σ ((Invariant.intersect as).applyTo r time) ↔
      ∀ a ∈ as, HoldsAt σ (a.applyTo r time) := by
  simp only [Invariant.applyTo, holdsAt_iff_isTrue, Expr.exists_appliedTo₂_iff,
    Invariant.intersect, Expr.yields_conj_true, List.forall_mem_map, Invariant.yields_apply]

theorem Invariant.isFormed_intersect {as : List Invariant} :
    IsFormed ((Invariant.intersect as).applyTo r time) ↔
      ∀ a ∈ as, IsFormed (a.applyTo r time) := by
  obtain ⟨σ, -⟩ := Assignment.exists_wellSorted
  simp only [Invariant.applyTo, isFormed_iff_exists σ, Expr.exists_appliedTo₂_iff,
    Invariant.intersect, Expr.exists_yields_conj, List.forall_mem_map, Invariant.yields_apply]

theorem Invariant.holdsAt_globally {p : Predicate} :
    HoldsAt σ ((Invariant.globally p).applyTo r time) ↔ HoldsAt σ (p.applyTo r) := by
  simp only [Invariant.applyTo, Predicate.applyTo, holdsAt_iff_isTrue, Expr.exists_appliedTo₂_iff,
    Expr.exists_appliedTo_iff, Invariant.globally, Predicate.yields_apply]

theorem Invariant.isFormed_globally {p : Predicate} :
    IsFormed ((Invariant.globally p).applyTo r time) ↔ IsFormed (p.applyTo r) := by
  obtain ⟨σ, -⟩ := Assignment.exists_wellSorted
  simp only [Invariant.applyTo, Predicate.applyTo, isFormed_iff_exists σ,
    Expr.exists_appliedTo₂_iff, Expr.exists_appliedTo_iff, Invariant.globally,
    Predicate.yields_apply]

theorem Invariant.isFormed_of_eventually {w : Operand} {p : Predicate}
    (h : IsFormed ((Invariant.eventually w p).applyTo r time)) : IsFormed (p.applyTo r) := by
  obtain ⟨σ, -⟩ := Assignment.exists_wellSorted
  obtain ⟨b, hb⟩ := (isFormed_iff_exists σ).1 h
  obtain ⟨c, d, -, hd, -⟩ := Expr.yields_or.1 (Expr.exists_appliedTo₂_iff.1 hb)
  exact (isFormed_iff_exists σ).2 ⟨d, Expr.exists_appliedTo_iff.2 (p.yields_apply.1 hd)⟩

end Properties

/-! ### Times -/

/-- The number that a term is when it is compared with an integer. -/
def Typed.number? (σ : Assignment) (x : Typed) : Option Rat :=
  match x.ty, x.term.eval σ [] with
  | .int, .int n => some n
  | .real, .real q => some q
  | .bool, .bool b => some (if b then 1 else 0)
  | .truth, .bool b => some (if b then 1 else 0)
  | _, _ => none

namespace Operand

/-- The operand next to an integer. -/
def besideInt : Operand → Except SortError Typed
  | .datum d => d.adapt .int
  | .expr e => e.elaborate []

/-- The time that an operand stands for. -/
def timeAt (σ : Assignment) (w : Operand) : Option Rat := w.besideInt.toOption.bind (·.number? σ)

/-- Plain data, or an expression without arguments. -/
def IsClosed : Operand → Prop
  | .datum _ => True
  | .expr e => ∃ x, e.elaborate [] = .ok x

variable {σ : Assignment} {w : Operand} {x : Typed}

theorem isClosed_of_besideInt (h : w.besideInt = .ok x) : x.IsClosed := by
  cases w with
  | datum d => exact Typed.wellTyped_of_adapt h
  | expr e => exact Typed.IsDefined.isClosed ⟨e, h⟩

theorem elaborate_compareTo (hw : w.IsClosed) (ty : Ty) {op : Comparison}
    (hop : op = .lt ∨ op = .ge) : (Expr.compareTo op (.arg 1) w).elaborate [ty, .int] =
      w.besideInt >>= fun y => Typed.compare op ⟨.arg 1, .int⟩ y := by
  cases w with
  | datum d => rcases hop with rfl | rfl <;> rfl
  | expr e =>
    obtain ⟨y, hy⟩ := hw
    have hext : e.elaborate [ty, .int] = .ok y := Expr.elaborate_append [ty, .int] hy
    simp only [Expr.compareTo, Expr.elaborate, besideInt, hy, hext]
    rfl

end Operand

namespace Typed

variable {σ : Assignment} {args : List Value} {s : Term} {y : Typed} {t : Int} {c : Bool}

theorem compare_int {op : Comparison} (hop : op = .lt ∨ op = .ge) :
    Typed.compare op ⟨s, .int⟩ y =
      (unify ⟨s, .int⟩ y >>= fun p => .ok (ofBool (orderTerm op p.1 p.2.1))) := by
  rcases hop with rfl | rfl <;> simp [compare, ordered, hasOrder]

/-- At a common sort with an integer, a term is its number. -/
theorem unify_int_iff (hσ : σ.WellSorted) (hs : s.eval σ args = .int t) (hy : y.IsClosed) :
    (∃ p, unify ⟨s, .int⟩ y = .ok p ∧ (p.2.1.eval σ args).le (p.1.eval σ args) = c) ↔
      ∃ q, y.number? σ = some q ∧ decide (q ≤ t) = c := by
  have heval : y.term.eval σ args = y.term.eval σ [] :=
    Term.HasTy.eval_args hy fun i hi => absurd hi (Nat.not_lt_zero i)
  have hshape := Value.shape_of_fits (Term.HasTy.eval_fits hy hσ)
  have hone : (1 : Rat) ≤ t ↔ 1 ≤ t := by exact_mod_cast Iff.rfl
  obtain ⟨u, ty⟩ := y
  dsimp only at heval hshape
  cases ty with
  | int =>
    obtain ⟨n, hn⟩ := hshape
    simp [unify, widen?, number?, hn, heval, hs, Value.le]
  | bool =>
    obtain ⟨b, hb⟩ := hshape
    cases b <;> simp [unify, widen?, number?, hb, heval, hs, Value.le, boolToInt, Term.eval,
      Term.int, Value.isTrue, hone]
  | truth =>
    obtain ⟨b, hb⟩ := hshape
    cases b <;> simp [unify, widen?, number?, hb, heval, hs, Value.le, boolToInt, Term.eval,
      Term.int, Value.isTrue, hone]
  | real =>
    obtain ⟨q, hq⟩ := hshape
    simp [unify, widen?, number?, hq, heval, hs, Value.le, Term.eval, Value.toReal]
  | _ => simp [unify, widen?, number?]

/-- An integer is at least a term where it is at least its number. -/
theorem compare_ge_iff (hσ : σ.WellSorted) (hs : s.eval σ args = .int t) (hy : y.IsClosed) :
    (∃ x, Typed.compare .ge ⟨s, .int⟩ y = .ok x ∧ x.ty.termTy = .bool ∧
      (x.term.eval σ args).isTrue = c) ↔ ∃ q, y.number? σ = some q ∧ decide (q ≤ t) = c := by
  rw [← unify_int_iff hσ hs hy, compare_int (.inr rfl)]
  constructor
  · rintro ⟨x, hx, -, hc⟩
    obtain ⟨p, hp, hx⟩ := bind_eq_ok.1 hx
    cases hx
    exact ⟨p, hp, (Expr.isTrue_bool _).symm.trans hc⟩
  · rintro ⟨p, hp, hc⟩
    exact ⟨_, bind_eq_ok.2 ⟨p, hp, rfl⟩, rfl, (Expr.isTrue_bool _).trans hc⟩

/-- An integer is smaller than a term where it is smaller than its number. -/
theorem compare_lt_iff (hσ : σ.WellSorted) (hs : s.eval σ args = .int t) (hy : y.IsClosed) :
    (∃ x, Typed.compare .lt ⟨s, .int⟩ y = .ok x ∧ x.ty.termTy = .bool ∧
      (x.term.eval σ args).isTrue = c) ↔ ∃ q, y.number? σ = some q ∧ decide (t < q) = c := by
  have hnot : ∀ q : Rat, decide (t < q) = c ↔ decide (q ≤ t) = !c := by
    intro q
    by_cases hq : q ≤ t <;> cases c <;> simp [hq, not_lt.2, lt_of_not_ge]
  simp only [hnot]
  rw [← unify_int_iff hσ hs hy, compare_int (.inl rfl)]
  constructor
  · rintro ⟨x, hx, -, hc⟩
    obtain ⟨p, hp, hx⟩ := bind_eq_ok.1 hx
    cases hx
    refine ⟨p, hp, ?_⟩
    simpa [ofBool, orderTerm, Term.eval, Expr.isTrue_bool, Bool.not_eq_eq_eq_not] using hc
  · rintro ⟨p, hp, hc⟩
    refine ⟨_, bind_eq_ok.2 ⟨p, hp, rfl⟩, rfl, ?_⟩
    simp [ofBool, orderTerm, Term.eval, Expr.isTrue_bool, hc]

end Typed

section Temporal

variable {σ : Assignment} {w : Operand} {p : Predicate} {r : Typed} {t : Int}

section Times

variable (hσ : σ.WellSorted) (hw : w.IsClosed) {ty : Ty} {v : Value} {c : Bool}
include hσ hw

omit hσ in
theorem Operand.yields_compareTo {op : Comparison} (hop : op = .lt ∨ op = .ge) {R : Rat → Bool}
    (hcompare : ∀ y : Typed, y.IsClosed → ((∃ x, Typed.compare op ⟨.arg 1, .int⟩ y = .ok x ∧
      x.ty.termTy = .bool ∧ (x.term.eval σ [v, .int t]).isTrue = c) ↔
        ∃ q, y.number? σ = some q ∧ R q = c)) :
    (Expr.compareTo op (.arg 1) w).Yields σ [ty, .int] [v, .int t] c ↔
      ∃ q, w.timeAt σ = some q ∧ R q = c := by
  unfold Expr.Yields Operand.timeAt
  rw [Operand.elaborate_compareTo hw ty hop]
  cases hy : w.besideInt with
  | error e =>
    constructor
    · rintro ⟨x, hx, -⟩
      cases hx
    · rintro ⟨q, hq, -⟩
      cases hq
  | ok y => exact hcompare y (Operand.isClosed_of_besideInt hy)

theorem Operand.yields_compareTo_lt :
    (Expr.compareTo .lt (.arg 1) w).Yields σ [ty, .int] [v, .int t] c ↔
      ∃ q, w.timeAt σ = some q ∧ decide (t < q) = c :=
  yields_compareTo hw (.inl rfl) fun _ hy => Typed.compare_lt_iff hσ rfl hy

theorem Operand.yields_compareTo_ge :
    (Expr.compareTo .ge (.arg 1) w).Yields σ [ty, .int] [v, .int t] c ↔
      ∃ q, w.timeAt σ = some q ∧ decide (q ≤ t) = c :=
  yields_compareTo hw (.inr rfl) fun _ hy => Typed.compare_ge_iff hσ rfl hy

end Times

/-! What invariants say of a route at a time, by the truth values of their bodies. -/

theorem Invariant.holdsAt_iff_yields {a : Invariant} : HoldsAt σ (a.atTime r t) ↔
    a.body.Yields σ [r.ty, .int] [r.term.eval σ [], .int t] true :=
  holdsAt_iff_isTrue.trans Expr.exists_appliedTo₂_iff

theorem Invariant.isFormed_iff_yields (σ : Assignment) {a : Invariant} :
    IsFormed (a.atTime r t) ↔
      ∃ b, a.body.Yields σ [r.ty, .int] [r.term.eval σ [], .int t] b :=
  (isFormed_iff_exists σ).trans (exists_congr fun _ => Expr.exists_appliedTo₂_iff)

theorem Predicate.yields_apply_iff {Γ : List Ty} {args : List Value} {b : Bool} :
    (p.apply (.arg 0)).Yields σ (r.ty :: Γ) (r.term.eval σ [] :: args) b ↔
      ∃ x, p.applyTo r = .ok x ∧ x.ty.termTy = .bool ∧ (x.term.eval σ []).isTrue = b :=
  p.yields_apply.trans Expr.exists_appliedTo_iff.symm

theorem Predicate.yields_true_iff {Γ : List Ty} {args : List Value} :
    (p.apply (.arg 0)).Yields σ (r.ty :: Γ) (r.term.eval σ [] :: args) true ↔
      HoldsAt σ (p.applyTo r) :=
  yields_apply_iff.trans holdsAt_iff_isTrue.symm

theorem Predicate.exists_yields_iff {Γ : List Ty} {args : List Value} :
    (∃ b, (p.apply (.arg 0)).Yields σ (r.ty :: Γ) (r.term.eval σ [] :: args) b) ↔
      IsFormed (p.applyTo r) :=
  (exists_congr fun _ => yields_apply_iff).trans (isFormed_iff_exists σ).symm

/-- A predicate that has no other truth value than false is a condition that does not hold. -/
theorem Predicate.yields_false_iff {Γ : List Ty} {args : List Value} :
    (p.apply (.arg 0)).Yields σ (r.ty :: Γ) (r.term.eval σ [] :: args) false ↔
      IsFormed (p.applyTo r) ∧ ¬ HoldsAt σ (p.applyTo r) := by
  constructor
  · intro h
    exact ⟨exists_yields_iff.1 ⟨false, h⟩,
      fun hholds => Bool.false_ne_true (h.iff.1 (yields_true_iff.2 hholds))⟩
  · rintro ⟨hformed, hno⟩
    obtain ⟨b, hb⟩ := exists_yields_iff.2 hformed
    cases b with
    | true => exact absurd (yields_true_iff.1 hb) hno
    | false => exact hb

theorem Invariant.holdsAt_never : HoldsAt σ ((Invariant.never p).atTime r t) ↔
    IsFormed (p.applyTo r) ∧ ¬ HoldsAt σ (p.applyTo r) := by
  rw [Invariant.holdsAt_iff_yields, Invariant.never, Expr.yields_not]
  exact Predicate.yields_false_iff

theorem Invariant.isFormed_never :
    IsFormed ((Invariant.never p).atTime r t) ↔ IsFormed (p.applyTo r) := by
  obtain ⟨σ, -⟩ := Assignment.exists_wellSorted
  rw [Invariant.isFormed_iff_yields σ, Invariant.never]
  simp only [Expr.yields_not]
  constructor
  · rintro ⟨b, hb⟩
    exact Predicate.exists_yields_iff.1 ⟨!b, hb⟩
  · intro hformed
    obtain ⟨b, hb⟩ := Predicate.exists_yields_iff.2 hformed
    exact ⟨!b, (Bool.not_not b).symm ▸ hb⟩

section Witnesses

variable (hσ : σ.WellSorted) (hw : w.IsClosed)
include hσ hw

/-- From some time on: it is too early, or the predicate holds. -/
theorem Invariant.holdsAt_eventually :
    HoldsAt σ ((Invariant.eventually w p).atTime r t) ↔ ∃ q, w.timeAt σ = some q ∧
      (t < q ∧ IsFormed (p.applyTo r) ∨ HoldsAt σ (p.applyTo r)) := by
  rw [Invariant.holdsAt_iff_yields]
  refine Expr.yields_or.trans ⟨?_, ?_⟩
  · rintro ⟨c, d, hc, hd, hcd⟩
    obtain ⟨q, hq, rfl⟩ := (Operand.yields_compareTo_lt hσ hw).1 hc
    refine ⟨q, hq, ?_⟩
    cases d with
    | true => exact .inr (Predicate.yields_true_iff.1 hd)
    | false =>
      have hlt : t < q := by simpa using hcd
      exact .inl ⟨hlt, Predicate.exists_yields_iff.1 ⟨false, hd⟩⟩
  · rintro ⟨q, hq, ⟨hlt, hformed⟩ | hholds⟩
    · obtain ⟨d, hd⟩ := Predicate.exists_yields_iff.2 hformed
      exact ⟨true, d, (Operand.yields_compareTo_lt hσ hw).2 ⟨q, hq, decide_eq_true hlt⟩, hd, rfl⟩
    · exact ⟨decide (t < q), true, (Operand.yields_compareTo_lt hσ hw).2 ⟨q, hq, rfl⟩,
        Predicate.yields_true_iff.2 hholds, Bool.or_true _⟩

theorem Invariant.isFormed_eventually : IsFormed ((Invariant.eventually w p).atTime r t) ↔
    (∃ q, w.timeAt σ = some q) ∧ IsFormed (p.applyTo r) := by
  rw [Invariant.isFormed_iff_yields σ, Invariant.eventually, Expr.exists_yields_or,
    Predicate.exists_yields_iff]
  simp only [Operand.yields_compareTo_lt hσ hw]
  exact and_congr_left' ⟨fun ⟨_, q, hq, _⟩ => ⟨q, hq⟩, fun ⟨q, hq⟩ => ⟨_, q, hq, rfl⟩⟩

/-- Up to some time one predicate holds, and from then on the other. -/
theorem Invariant.until_spec {p' : Predicate} {q : Rat} (hq : w.timeAt σ = some q)
    (hp : IsFormed (p.applyTo r)) (hp' : IsFormed (p'.applyTo r)) :
    IsFormed ((Invariant.until_ w p p').atTime r t) ∧
      (HoldsAt σ ((Invariant.until_ w p p').atTime r t) ↔
        t < q ∧ HoldsAt σ (p.applyTo r) ∨ q ≤ t ∧ HoldsAt σ (p'.applyTo r)) := by
  obtain ⟨b, hb⟩ := Predicate.exists_yields_iff.2 hp
  obtain ⟨b', hb'⟩ := Predicate.exists_yields_iff.2 hp'
  have hbody : (Invariant.until_ w p p').body.Yields σ [r.ty, .int] [r.term.eval σ [], .int t]
      (decide (t < q) && b || decide (q ≤ t) && b') :=
    Expr.yields_or.2 ⟨_, _,
      Expr.yields_and.2 ⟨_, _, (Operand.yields_compareTo_lt hσ hw).2 ⟨q, hq, rfl⟩, hb, rfl⟩,
      Expr.yields_and.2 ⟨_, _, (Operand.yields_compareTo_ge hσ hw).2 ⟨q, hq, rfl⟩, hb', rfl⟩, rfl⟩
  refine ⟨(Invariant.isFormed_iff_yields σ).2 ⟨_, hbody⟩, ?_⟩
  rw [Invariant.holdsAt_iff_yields, hbody.iff, ← Predicate.yields_true_iff, hb.iff,
    ← Predicate.yields_true_iff, hb'.iff]
  simp

end Witnesses

end Temporal

end RouteInvariants
