import RouteInvariants.Decision.Simplify
import RouteInvariants.Proofs.Trees

/-!
The tree of an equality computes whether its two sides are equal (`equal_computes`). For data this
is shown constructor by constructor: a constructed value is determined by its constructor and its
fields, and no value is a proper part of itself.
-/

namespace RouteInvariants

/-! ### Constructed values and terms -/

namespace Value

variable {ty : Ty} {v : Value} {i : Nat}

theorem built_inj {j : Nat} {vs ws : List Value} : built i vs = built j ws ↔ i = j ∧ vs = ws := by
  constructor
  · intro h
    have hhead := congrArg head? h
    have hargs := congrArg args h
    rw [head?_built, head?_built] at hhead
    rw [args_built, args_built] at hargs
    exact ⟨Option.some.inj hhead, hargs⟩
  · rintro ⟨rfl, rfl⟩
    rfl

theorem Awaits.pending? {rest : List Ty} (h : v.Awaits rest ty) (hi : v.head? = Option.some i) :
    v.pending? ty = Option.some rest := by
  rcases h with h | ⟨rfl, h⟩
  · exact h
  · cases v with
    | con => exact fits_con_iff.1 h
    | app => exact fits_app_iff.1 h
    | _ => cases hi

theorem isData_of_ctor? {c : Ctor} (hc : ty.ctor? i = Option.some c) : ty.isData = true := by
  cases ty <;> first | rfl | cases hc

/-- A value of a data sort is the constructor that it has with its arguments. -/
theorem eq_built (hd : ty.isData = true) (hv : v.fits ty = true) (hi : v.head? = Option.some i) :
    v = built i v.args ∧ ∃ c, ty.ctor? i = Option.some c ∧ v.args.length = c.fields.length := by
  obtain ⟨j, c, hc, hb, hall⟩ := fits_data hd hv
  have hij : j = i := by
    rw [hb, head?_built] at hi
    exact Option.some.inj hi
  subst hij
  exact ⟨hb, c, hc, by simpa using hall.length_eq.symm⟩

theorem sizeOf_lt_of_mem_args {a : Value} (h : a ∈ v.args) : sizeOf a < sizeOf v := by
  induction v with
  | app f x ihf _ =>
    rw [args, List.mem_append, List.mem_singleton] at h
    rcases h with h | rfl
    · have := ihf h
      rw [Value.app.sizeOf_spec]
      omega
    · rw [Value.app.sizeOf_spec]
      omega
  | _ => cases h

theorem exists_head? (hd : ty.isData = true) (hv : v.fits ty = true) :
    ∃ i c, v.head? = Option.some i ∧ ty.ctor? i = Option.some c := by
  obtain ⟨i, c, hc, hb, -⟩ := fits_data hd hv
  exact ⟨i, c, by rw [hb, head?_built], hc⟩

end Value

namespace Term

variable {X : Variable → Prop} {σ : Assignment} {a b t : Term} {rest : List Ty} {ty owner : Ty}
  {i j : Nat} {xs : List Term} {c : Ctor}

/-- The term is constructor `i` of its sort, applied to all but the last `rest` of its arguments. -/
structure Constructs (X : Variable → Prop) (σ : Assignment) (rest : List Ty) (ty : Ty) (t : Term)
    (i : Nat) (xs : List Term) : Prop where
  eval : t.eval σ [] = Value.built i (xs.map (Term.eval σ []))
  guarded : t.Guarded σ → ∀ x ∈ xs, x.Guarded σ
  sorts : ∃ c done, ty.ctor? i = some c ∧ c.fields.map Prod.snd = done ++ rest ∧
    List.Forall₂ (fun s x => HasTy X [] x [] s) done xs

theorem constructs_const {v : Value} (h : HasTy X [] (.const v) rest ty)
    (hi : v.head? = some i) : Constructs X σ rest ty (.const v) i (v.args.map const) := by
  cases h with
  | const hd hv =>
    obtain ⟨k, c, done, hc, hb, hdone, hall⟩ := Value.pending?_spine (hv.pending? hi)
    obtain rfl : k = i := by
      rw [hb, Value.head?_built] at hi
      exact Option.some.inj hi
    refine ⟨by simpa [Function.comp_def, Term.eval] using hb, by simp [Guarded], c, done, hc, hdone,
      ?_⟩
    rw [List.forall₂_map_right_iff]
    have hdecl : ∀ s ∈ done, s.isDeclared = true := by
      intro s hs
      have hmem : s ∈ c.fields.map Prod.snd := hdone ▸ List.mem_append_left rest hs
      obtain ⟨f, hf, rfl⟩ := List.mem_map.1 hmem
      exact Ty.isDeclared_of_ctor? hd hc f hf
    refine List.forall₂_iff_zip.2 ⟨hall.length_eq, fun {s a} hsa => ?_⟩
    exact .const (hdecl s (List.of_mem_zip hsa).1)
      (Value.awaits_nil.2 ((List.forall₂_iff_zip.1 hall).2 hsa))

/-- A constructed term is a constructor of its sort with arguments of the fields' sorts. -/
theorem HasTy.constructs (h : t.HasTy X [] rest ty) (hs : t.spine? = some (i, xs)) :
    Constructs X σ rest ty t i xs := by
  induction t generalizing rest i xs with
  | const v =>
    rw [spine?, Option.map_eq_some_iff] at hs
    obtain ⟨k, hk, hs⟩ := hs
    cases hs
    exact constructs_const h hk
  | con k =>
    cases hs
    have hc := constructs_const (σ := σ) h.of_con rfl
    exact ⟨hc.eval, by simp, hc.sorts⟩
  | app f a ihf _ =>
    rw [spine?, Option.map_eq_some_iff] at hs
    obtain ⟨⟨k, ys⟩, hf, hs⟩ := hs
    cases hs
    cases h with
    | @app _ _ _ s _ _ hfty haty =>
      have ih := ihf hfty hf
      obtain ⟨c, done, hc, hdone, hall⟩ := ih.sorts
      refine ⟨?_, ?_, c, done ++ [s], hc, by rw [hdone]; simp, ?_⟩
      · rw [Term.eval, ih.eval, List.map_append, List.map_singleton, Value.built_concat]
      · rintro ⟨hgf, hga⟩
        exact List.forall_mem_append.2 ⟨ih.guarded hgf, by simpa using hga⟩
      · exact List.rel_append hall (.cons haty .nil)
  | _ => cases hs

/-- A whole term has an argument for each field. -/
theorem Constructs.ctor (h : Constructs X σ [] ty t i xs) : ∃ c, ty.ctor? i = some c ∧
    List.Forall₂ (fun s x => HasTy X [] x [] s) (c.fields.map Prod.snd) xs := by
  obtain ⟨c, done, hc, hdone, hall⟩ := h.sorts
  rw [List.append_nil] at hdone
  exact ⟨c, hc, hdone ▸ hall⟩

/-- A field that the value has. -/
theorem eval_field (hi : (a.eval σ []).head? = some i) :
    (field owner i j a).eval σ [] = (a.eval σ []).args[j]?.getD default := by
  rw [eval]
  exact if_pos hi

theorem guarded_field (hi : (a.eval σ []).head? = some i) (ha : a.Guarded σ) :
    (field owner i j a).Guarded σ :=
  fun _ _ _ => ⟨fun _ => hi, ha⟩

theorem field?_eq {f : String × Ty} (hc : owner.ctor? i = some c) (hf : c.fields[j]? = some f) :
    owner.field? i j = some f := by
  rw [Ty.field?, hc, Option.bind_some, hf]

end Term

/-! ### Equality -/

namespace Tree

open Term

variable {X : Variable → Prop} {σ : Assignment} {T : Theory} {F : Facts} {a b u : Term} {ty : Ty}
  {i j : Nat} {xs : List Term} {c : Ctor} {same : Facts → Term → Term → Tree}

theorem hasTy_eqAtom (ha : a.HasTy X [] [] ty) (hb : b.HasTy X [] [] ty) :
    (eqAtom a b).HasTy X [] [] .bool := by
  unfold eqAtom
  split
  · exact .eq hb ha
  · exact .eq ha hb

theorem eval_eqAtom (a b : Term) :
    (eqAtom a b).eval σ [] = .bool (decide (a.eval σ [] = b.eval σ [])) := by
  unfold eqAtom
  split
  · exact congrArg Value.bool (decide_eq_decide.2 eq_comm)
  · rfl

/-- The comparison computes whether two terms of one sort are equal. -/
def Compares (X : Variable → Prop) (σ : Assignment) (same : Facts → Term → Term → Tree) : Prop :=
  ∀ {F : Facts} {a b : Term} {ty : Ty}, a.HasTy X [] [] ty → b.HasTy X [] [] ty →
    (F.Hold σ → a.Guarded σ ∧ b.Guarded σ) →
    Computes X σ F [] .bool (.bool (decide (a.eval σ [] = b.eval σ []))) (same F a b)

section Rules

variable (hσ : σ.WellSorted) (hT : T.Sound X σ)
include hσ hT

theorem eqAtom_computes (ha : a.HasTy X [] [] ty) (hb : b.HasTy X [] [] ty) :
    Computes X σ F [] .bool (.bool (decide (a.eval σ [] = b.eval σ [])))
      (ofAtom T F (eqAtom a b)) :=
  ofAtom_computes hσ hT (hasTy_eqAtom ha hb) fun _ => eval_eqAtom a b

omit hσ hT in
theorem forall_zipIdx_iff {vs : List Value} (hlen : vs.length = xs.length) :
    (∀ p ∈ xs.zipIdx, p.1.eval σ [] = vs[p.2]?.getD default) ↔ vs = xs.map (eval σ []) := by
  constructor
  · intro h
    refine List.ext_getElem (by simp [hlen]) fun k hk hk' => ?_
    have hk'' : k < xs.length := hlen ▸ hk
    have := h (xs[k], k) (List.mk_mem_zipIdx_iff_getElem?.2 (List.getElem?_eq_getElem hk''))
    rw [List.getElem_map, this, List.getElem?_eq_getElem hk, Option.getD_some]
  · rintro rfl ⟨x, k⟩ hp
    rw [List.mk_mem_zipIdx_iff_getElem?] at hp
    rw [List.getElem?_map, hp, Option.map_some, Option.getD_some]

omit hT in
/-- Comparing the fields of an unknown with terms, one by one. -/
theorem all_fields_eq (hu : u.HasTy X [] [] ty) (hi : (u.eval σ []).head? = some i)
    (hc : ty.ctor? i = some c) (hlen : xs.length = c.fields.length) :
    (xs.zipIdx.all fun p => decide (p.1.eval σ [] = (field ty i p.2 u).eval σ [])) =
      decide (u.eval σ [] = Value.built i (xs.map (eval σ []))) := by
  have hd := Value.isData_of_ctor? hc
  obtain ⟨hb, c', hc', hargs⟩ := Value.eq_built hd (hu.eval_fits hσ) hi
  obtain rfl : c' = c := by
    rw [hc] at hc'
    exact (Option.some.inj hc').symm
  rw [Bool.eq_iff_iff, List.all_eq_true, decide_eq_true_eq]
  simp only [decide_eq_true_eq, eval_field hi]
  rw [forall_zipIdx_iff (hargs.trans hlen.symm)]
  conv_rhs => rw [hb, Value.built_inj]
  simp

theorem equalCon_computes (hsame : Compares X σ same) (hu : u.HasTy X [] [] ty)
    (hc : ty.ctor? i = some c)
    (hxs : List.Forall₂ (fun s x => x.HasTy X [] [] s) (c.fields.map Prod.snd) xs)
    (hg : F.Hold σ → u.Guarded σ ∧ ∀ x ∈ xs, x.Guarded σ) :
    Computes X σ F [] .bool
      (.bool (decide (u.eval σ [] = Value.built i (xs.map (eval σ [])))))
      (equalCon T same F u i xs) := by
  have hd := Value.isData_of_ctor? hc
  have hlen : xs.length = c.fields.length := by simpa using hxs.length_eq.symm
  unfold equalCon
  split
  · rename_i owner hs
    obtain rfl := hu.sort?_eq hs
    refine branch_computes hσ hT (.isCon hd hu) (fun G hG => ?_) (fun G hG => ?_)
    · have hhead : G.Hold σ → (u.eval σ []).head? = some i := fun h => by
        simpa [eval] using (hG h).2
      refine Computes.congr (all_map_computes hσ hT fun p hp H hH => ?_)
        fun h => by rw [all_fields_eq hσ hu (hhead h) hc hlen]
      obtain ⟨x, k⟩ := p
      rw [List.mk_mem_zipIdx_iff_getElem?] at hp
      obtain ⟨hk, rfl⟩ := List.getElem?_eq_some_iff.1 hp
      have hk' : k < c.fields.length := hlen ▸ hk
      have hx : xs[k].HasTy X [] [] c.fields[k].2 := by
        simpa using (List.forall₂_iff_get.1 hxs).2 k (by simpa using hk') hk
      have hf := field?_eq hc (List.getElem?_eq_getElem hk')
      exact hsame hx (.field hf hu) fun h =>
        ⟨(hg (hG (hH h)).1).2 _ (List.getElem_mem hk),
          guarded_field (hhead (hH h)) (hg (hG (hH h)).1).1⟩
    · refine computes_bool fun h => ?_
      have hne : (u.eval σ []).head? ≠ some i := by simpa [eval] using (hG h).2
      rw [Value.bool.injEq, decide_eq_false_iff_not]
      intro he
      rw [he, Value.head?_built] at hne
      exact hne rfl
  · have happ : (xs.foldl app (con i)).HasTy X [] [] ty :=
      .foldl_app (by simpa using Term.HasTy.con (hu.isDeclared (by simp)).1 hc) hxs
    refine (eqAtom_computes hσ hT hu happ).congr fun _ => ?_
    rw [eval_foldl_app]
    rfl

omit hT in
/-- Comparing the fields of two unknowns with the same constructor, one by one. -/
theorem all_range_fields_eq (ha : a.HasTy X [] [] ty) (hb : b.HasTy X [] [] ty)
    (hai : (a.eval σ []).head? = some i) (hbi : (b.eval σ []).head? = some i)
    (hc : ty.ctor? i = some c) :
    ((List.range c.fields.length).all fun k =>
      decide ((field ty i k a).eval σ [] = (field ty i k b).eval σ [])) =
      decide (a.eval σ [] = b.eval σ []) := by
  have hd := Value.isData_of_ctor? hc
  obtain ⟨haeq, c', hc', halen⟩ := Value.eq_built hd (ha.eval_fits hσ) hai
  obtain ⟨hbeq, c'', hc'', hblen⟩ := Value.eq_built hd (hb.eval_fits hσ) hbi
  rw [hc] at hc' hc''
  cases hc'
  cases hc''
  rw [Bool.eq_iff_iff, List.all_eq_true, decide_eq_true_eq]
  conv_rhs => rw [haeq, hbeq, Value.built_inj]
  simp only [List.mem_range, decide_eq_true_eq, eval_field hai, eval_field hbi, true_and]
  constructor
  · intro h
    refine List.ext_getElem (halen.trans hblen.symm) fun k hk hk' => ?_
    have := h k (halen ▸ hk)
    rwa [List.getElem?_eq_getElem hk, List.getElem?_eq_getElem hk'] at this
  · intro h k _
    rw [h]

/-- The unknown `a` has one of the constructors that are still to be tried. -/
theorem equalUnknowns_computes (hsame : Compares X σ same) (hd : ty.isData = true)
    (ha : a.HasTy X [] [] ty) (hb : b.HasTy X [] [] ty) :
    ∀ {ps : List (Ctor × Nat)} {F : Facts}, (F.Hold σ → a.Guarded σ ∧ b.Guarded σ) →
      (∀ p ∈ ps, ty.ctor? p.2 = some p.1) →
      (F.Hold σ → ∃ p ∈ ps, (a.eval σ []).head? = some p.2) →
      Computes X σ F [] .bool (.bool (decide (a.eval σ [] = b.eval σ [])))
        (equalUnknowns T same ty a b ps F)
  | [], F, _, _, hps => by
    refine computes_bool fun h => ?_
    obtain ⟨p, hp, -⟩ := hps h
    cases hp
  | p :: ps, F, hg, hctor, hps => by
    rw [List.forall_mem_cons] at hctor
    refine branch_computes hσ hT (.isCon hd ha) (fun G hG => ?_) (fun G hG => ?_)
    · have hai : G.Hold σ → (a.eval σ []).head? = some p.2 := fun h => by
        simpa [eval] using (hG h).2
      refine branch_computes hσ hT (.isCon hd hb) (fun H hH => ?_) (fun H hH => ?_)
      · have hbi : H.Hold σ → (b.eval σ []).head? = some p.2 := fun h => by
          simpa [eval] using (hH h).2
        refine Computes.congr (all_map_computes hσ hT fun k hk K hK => ?_)
          fun h => by rw [all_range_fields_eq hσ ha hb (hai (hH h).1) (hbi h) hctor.1]
        have hf := field?_eq hctor.1 (List.getElem?_eq_getElem (List.mem_range.1 hk))
        exact hsame (.field hf ha) (.field hf hb) fun h =>
          have hab := hg (hG (hH (hK h)).1).1
          ⟨guarded_field (hai (hH (hK h)).1) hab.1, guarded_field (hbi (hK h)) hab.2⟩
      · refine computes_bool fun h => ?_
        have hbi : (b.eval σ []).head? ≠ some p.2 := by simpa [eval] using (hH h).2
        rw [Value.bool.injEq, decide_eq_false_iff_not]
        intro he
        rw [← he, hai (hH h).1] at hbi
        exact hbi rfl
    · refine equalUnknowns_computes hsame hd ha hb (fun h => hg (hG h).1) hctor.2 fun h => ?_
      have hai : (a.eval σ []).head? ≠ some p.2 := by simpa [eval] using (hG h).2
      obtain ⟨q, hq, hqi⟩ := hps (hG h).1
      rcases List.mem_cons.1 hq with rfl | hq
      · exact absurd hqi hai
      · exact ⟨q, hq, hqi⟩

omit hT in
/-- A part of an unknown is smaller than the unknown. -/
theorem sizeOf_lt_of_isPartOf (ha : a.spine? = none) (hb : b.HasTy X [] [] ty)
    (hd : ty.isData = true) (hg : b.Guarded σ) (h : isPartOf a b = true) :
    sizeOf (b.eval σ []) < sizeOf (a.eval σ []) := by
  induction b generalizing ty with
  | field owner i k b ih =>
    cases hb with
    | @field _ _ _ _ _ f hf hb =>
      obtain ⟨hhead, hgb⟩ := hg f hf hd
      rw [isPartOf, Bool.or_eq_true, decide_eq_true_eq] at h
      have hnone : b.spine? = none := by
        rcases h with rfl | h
        · exact ha
        · cases b <;> first | rfl | simp [isPartOf] at h
      have hfield : (field owner i k b).eval σ [] = (b.eval σ []).args[k]?.getD default :=
        eval_field (hhead hnone)
      have howner : owner.isData = true := by
        cases owner <;> first | rfl | simp [Ty.field?, Ty.ctor?, Ty.ctors] at hf
      obtain ⟨-, c, hc, hlen⟩ := Value.eq_built howner (hb.eval_fits hσ) (hhead hnone)
      have hk : k < (b.eval σ []).args.length := by
        rw [Ty.field?, hc, Option.bind_some] at hf
        exact hlen ▸ (List.getElem?_eq_some_iff.1 hf).1
      have hpart : sizeOf ((field owner i k b).eval σ []) < sizeOf (b.eval σ []) := by
        rw [hfield, List.getElem?_eq_getElem hk, Option.getD_some]
        exact Value.sizeOf_lt_of_mem_args (List.getElem_mem hk)
      rcases h with rfl | h
      · exact hpart
      · exact Nat.lt_trans hpart (ih hb howner hgb h)
  | _ => simp [isPartOf] at h

theorem equalArgs_computes {ys : List Term} (hsame : Compares X σ same)
    (ha : Constructs X σ [] ty a i xs) (hb : Constructs X σ [] ty b j ys)
    (hg : F.Hold σ → a.Guarded σ ∧ b.Guarded σ) :
    Computes X σ F [] .bool (.bool (decide (a.eval σ [] = b.eval σ [])))
      (if i = j then all T ((xs.zip ys).map fun p G => same G p.1 p.2) F else bool false) := by
  rw [ha.eval, hb.eval]
  split
  · rename_i hij
    subst hij
    obtain ⟨c, hc, hxs⟩ := ha.ctor
    obtain ⟨c', hc', hys⟩ := hb.ctor
    rw [hc] at hc'
    cases hc'
    have hlen : xs.length = ys.length := hxs.length_eq.symm.trans hys.length_eq
    refine Computes.congr (all_map_computes (b := fun p => decide (p.1.eval σ [] = p.2.eval σ []))
      hσ hT fun p hp G hG => ?_) fun _ => ?_
    · obtain ⟨k, hk, rfl⟩ := List.getElem_of_mem hp
      rw [List.length_zip] at hk
      have hkx : k < xs.length := by omega
      have hky : k < ys.length := by omega
      have hkc : k < (c.fields.map Prod.snd).length := hxs.length_eq ▸ hkx
      rw [List.getElem_zip]
      exact hsame ((List.forall₂_iff_get.1 hxs).2 k hkc hkx)
        ((List.forall₂_iff_get.1 hys).2 k hkc hky)
        fun h => ⟨ha.guarded (hg (hG h)).1 _ (List.getElem_mem hkx),
          hb.guarded (hg (hG h)).2 _ (List.getElem_mem hky)⟩
    · rw [Value.bool.injEq, Bool.eq_iff_iff, List.all_eq_true, decide_eq_true_eq, Value.built_inj,
        ← List.forall₂_eq_eq_eq, List.forall₂_map_left_iff, List.forall₂_map_right_iff,
        List.forall₂_iff_zip]
      simp [hlen]
  · rename_i hij
    refine computes_bool fun _ => ?_
    rw [Value.bool.injEq, decide_eq_false_iff_not, Value.built_inj]
    exact fun h => hij h.1

theorem equalBool_computes (ha : a.HasTy X [] [] .bool) (hb : b.HasTy X [] [] .bool) :
    Computes X σ F [] .bool (.bool (decide (a.eval σ [] = b.eval σ [])))
      (test T F a (fun G => ofAtom T G b)
        (fun G => test T G b (fun _ => bool false) (fun _ => bool true))) := by
  obtain ⟨y, hy⟩ := Value.shape_of_fits (hb.eval_fits hσ)
  refine test_computes hσ hT ha (fun G hG => ?_) (fun G hG => ?_)
  · refine ofAtom_computes hσ hT hb fun h => ?_
    rw [(hG h).2, hy]
    cases y <;> rfl
  · refine test_computes hσ hT hb (fun H hH => computes_bool fun h => ?_)
      (fun H hH => computes_bool fun h => ?_)
    · rw [(hG (hH h).1).2, (hH h).2]
      rfl
    · rw [(hG (hH h).1).2, (hH h).2]
      rfl

theorem equalNumber_computes (hn : Typed.isArithmetic ty = true) (ha : a.HasTy X [] [] ty)
    (hb : b.HasTy X [] [] ty) :
    Computes X σ F [] .bool (.bool (decide (a.eval σ [] = b.eval σ [])))
      (all T [fun G => ofAtom T G (leAtom a b), fun G => ofAtom T G (leAtom b a)] F) := by
  have ho : Typed.hasOrder ty = true := Ty.hasOrder_iff.2 (.inr (by simp [Ty.isNumeric, hn]))
  obtain ⟨habty, habval⟩ := leAtom_spec hσ ho ha hb
  obtain ⟨hbaty, hbaval⟩ := leAtom_spec hσ ho hb ha
  refine Computes.congr (all_computes hσ hT
    (.cons (fun G _ => ofAtom_computes hσ hT habty fun _ => habval)
      (.cons (fun G _ => ofAtom_computes hσ hT hbaty fun _ => hbaval) .nil))) fun _ => ?_
  rw [Value.bool.injEq, Bool.eq_iff_iff, decide_eq_true_eq,
    Value.eq_iff_le_le hn (ha.eval_fits hσ) (hb.eval_fits hσ)]
  simp

theorem equalData_computes {name : String} {cs : Ctors} (hsame : Compares X σ same)
    (ha : a.HasTy X [] [] (.data name cs)) (hb : b.HasTy X [] [] (.data name cs))
    (has : a.spine? = none) (hbs : b.spine? = none) (hg : F.Hold σ → a.Guarded σ ∧ b.Guarded σ) :
    Computes X σ F [] .bool (.bool (decide (a.eval σ [] = b.eval σ [])))
      (if isPartOf a b || isPartOf b a then bool false
        else if cs.recursive then ofAtom T F (eqAtom a b)
        else equalUnknowns T same (.data name cs) a b (Ty.data name cs).ctors.zipIdx F) := by
  split
  · rename_i hpart
    refine computes_bool fun h => ?_
    rw [Value.bool.injEq, decide_eq_false_iff_not]
    intro he
    rw [Bool.or_eq_true] at hpart
    rcases hpart with hpart | hpart
    · have := sizeOf_lt_of_isPartOf hσ has hb rfl (hg h).2 hpart
      rw [he] at this
      exact Nat.lt_irrefl _ this
    · have := sizeOf_lt_of_isPartOf hσ hbs ha rfl (hg h).1 hpart
      rw [he] at this
      exact Nat.lt_irrefl _ this
  · split
    · exact eqAtom_computes hσ hT ha hb
    · refine equalUnknowns_computes hσ hT hsame rfl ha hb hg ?_ fun _ => ?_
      · rintro ⟨c, k⟩ hp
        exact List.mk_mem_zipIdx_iff_getElem?.1 hp
      · obtain ⟨k, c, hk, hc⟩ := Value.exists_head? rfl (ha.eval_fits hσ)
        exact ⟨(c, k), List.mk_mem_zipIdx_iff_getElem?.2 hc, hk⟩

/-- Equality of data, constructor by constructor, and of all other terms by their sort. -/
theorem equal_computes (fuel : Nat) : Compares X σ (equal T fuel) := by
  induction fuel with
  | zero => exact fun ha hb _ => eqAtom_computes hσ hT ha hb
  | succ fuel ih =>
    intro F a b ty ha hb hg
    unfold equal
    split
    · rename_i hab
      exact computes_bool fun _ => by rw [hab, decide_eq_true rfl]
    · rename_i hab
      split
      · refine computes_bool fun _ => ?_
        rw [Value.bool.injEq, decide_eq_false_iff_not]
        exact fun h => hab (congrArg Term.const h)
      · split
        · rename_i i xs j ys hxs hys
          exact equalArgs_computes hσ hT ih (ha.constructs hxs) (hb.constructs hys) hg
        · rename_i i xs hxs hys
          have hac := ha.constructs (σ := σ) hxs
          obtain ⟨c, hc, hall⟩ := hac.ctor
          refine (equalCon_computes hσ hT ih hb hc hall fun h =>
            ⟨(hg h).2, hac.guarded (hg h).1⟩).congr fun _ => ?_
          rw [← hac.eval]
          exact congrArg Value.bool (decide_eq_decide.2 eq_comm)
        · rename_i j ys hxs hys
          have hbc := hb.constructs (σ := σ) hys
          obtain ⟨c, hc, hall⟩ := hbc.ctor
          refine (equalCon_computes hσ hT ih ha hc hall fun h =>
            ⟨(hg h).1, hbc.guarded (hg h).2⟩).congr fun _ => ?_
          rw [← hbc.eval]
        · rename_i hxs hys
          split
          · rename_i hs
            obtain rfl := add_sort?_eq ha hb hs
            exact equalBool_computes hσ hT ha hb
          · rename_i hs
            obtain rfl := add_sort?_eq ha hb hs
            exact equalNumber_computes hσ hT rfl ha hb
          · rename_i hs
            obtain rfl := add_sort?_eq ha hb hs
            exact equalNumber_computes hσ hT rfl ha hb
          · rename_i name cs hs
            obtain rfl := add_sort?_eq ha hb hs
            exact equalData_computes hσ hT ih ha hb hxs hys hg
          · exact eqAtom_computes hσ hT ha hb

end Rules

end Tree

end RouteInvariants
