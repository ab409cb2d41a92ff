import RouteInvariants.Proofs.Equality

/-!
Unfolding keeps the meaning of a term: its tree computes the value of the term (`unfold_computes`).
The theory of constructors and constants is sound, so simplified terms have the sorts and the values
of the terms that they come from (`simplify_hasTy`, `eval_simplify`).
-/

namespace RouteInvariants

/-! ### Fields and constructor tests -/

namespace Tree

open Term

variable {X : Variable → Prop} {σ : Assignment} {T : Theory} {F : Facts} {a b : Term}
  {ty owner : Ty} {i j : Nat} {c : Ctor}

section Rules

variable (hσ : σ.WellSorted) (hT : T.Sound X σ)
include hσ hT

omit hσ hT in
theorem guarded_apply (ha : a.Guarded σ) (hb : b.Guarded σ) : (apply a b).Guarded σ := by
  unfold apply
  split
  · trivial
  · trivial
  · exact ⟨ha, hb⟩

omit hσ hT in
theorem isSome_spine?_apply (h : a.spine?.isSome = true) : (apply a b).spine?.isSome = true := by
  unfold apply
  split
  · simpa [spine?, Value.head?] using h
  · simp [spine?, Value.head?]
  · simpa [spine?] using h

omit hT in
/-- The constructor of an unknown with its first `m` fields. -/
theorem foldl_apply_fields (ha : a.HasTy X [] [] owner) (hc : owner.ctor? i = some c) {m : Nat}
    (hm : m ≤ c.fields.length) :
    let t := (List.range m).foldl (fun f k => apply f (field owner i k a)) (const (.con i))
    t.HasTy X [] ((c.fields.drop m).map Prod.snd) owner ∧ t.spine?.isSome = true ∧
      ((a.eval σ []).head? = some i → t.eval σ [] = Value.built i ((a.eval σ []).args.take m)) ∧
      ((a.eval σ []).head? = some i → a.Guarded σ → t.Guarded σ) := by
  have hd := (ha.isDeclared (by simp)).1
  induction m with
  | zero =>
    refine ⟨?_, rfl, fun _ => rfl, fun _ _ => trivial⟩
    exact (Term.HasTy.con hd hc).of_con
  | succ m ih =>
    obtain ⟨hty, hspine, hval, hguard⟩ := ih (by omega)
    have hm' : m < c.fields.length := hm
    rw [List.drop_eq_getElem_cons hm', List.map_cons] at hty
    have hf : (field owner i m a).HasTy X [] [] c.fields[m].2 :=
      .field (field?_eq hc (List.getElem?_eq_getElem hm')) ha
    obtain ⟨hty', hval'⟩ := apply_spec (σ := σ) hty hf
    simp only [List.range_succ, List.foldl_append, List.foldl_cons, List.foldl_nil]
    refine ⟨hty', isSome_spine?_apply hspine, fun hi => ?_, fun hi hg => ?_⟩
    · obtain ⟨-, c', hc', hlen⟩ :=
        Value.eq_built (Value.isData_of_ctor? hc) (ha.eval_fits hσ) hi
      rw [hc] at hc'
      cases hc'
      have hargs : m < (a.eval σ []).args.length := hlen ▸ hm'
      rw [hval', hval hi, eval_field hi, List.take_succ_eq_append_getElem hargs, Value.built_concat,
        List.getElem?_eq_getElem hargs, Option.getD_some]
    · exact guarded_apply (hguard hi hg) (guarded_field hi hg)

omit hT in
theorem expanded_spec (ha : a.HasTy X [] [] owner) (hc : owner.ctor? i = some c) :
    (expanded owner i c a).HasTy X [] [] owner ∧ (expanded owner i c a).spine?.isSome = true ∧
      ((a.eval σ []).head? = some i → (expanded owner i c a).eval σ [] = a.eval σ []) ∧
      ((a.eval σ []).head? = some i → a.Guarded σ → (expanded owner i c a).Guarded σ) := by
  obtain ⟨hty, hspine, hval, hguard⟩ := foldl_apply_fields hσ ha hc (Nat.le_refl _)
  rw [List.drop_length, List.map_nil] at hty
  refine ⟨hty, hspine, fun hi => ?_, hguard⟩
  obtain ⟨hb, c', hc', hlen⟩ := Value.eq_built (Value.isData_of_ctor? hc) (ha.eval_fits hσ) hi
  rw [hc] at hc'
  cases hc'
  exact (hval hi).trans (by rw [← hlen, List.take_length]; exact hb.symm)

theorem missingField_computes {f : String × Ty} (hf : owner.field? i j = some f)
    (hd : owner.isData = true) (ha : a.HasTy X [] [] owner) :
    ∀ {ps : List (Ctor × Nat)} {F : Facts}, (F.Hold σ → a.Guarded σ) →
      (∀ p ∈ ps, owner.ctor? p.2 = some p.1) →
      (F.Hold σ → ∃ p ∈ ps, (a.eval σ []).head? = some p.2 ∧ p.2 ≠ i) →
      Computes X σ F [] f.2 ((field owner i j a).eval σ []) (missingField T owner i j a ps F)
  | [], F, _, _, hps => by
    refine computes_leaf (.field hf ha) fun h => ?_
    obtain ⟨p, hp, -⟩ := hps h
    cases hp
  | p :: ps, F, hg, hctor, hps => by
    rw [List.forall_mem_cons] at hctor
    rw [missingField]
    split
    · rename_i hpi
      refine missingField_computes hf hd ha hg hctor.2 fun h => ?_
      obtain ⟨q, hq, hqi⟩ := hps h
      rcases List.mem_cons.1 hq with rfl | hq
      · exact absurd hpi hqi.2
      · exact ⟨q, hq, hqi⟩
    · obtain ⟨hty, hspine, hval, hguard⟩ := expanded_spec hσ ha hctor.1
      refine branch_computes hσ hT (.isCon hd ha) (fun G hG => ?_) (fun G hG => ?_)
      · refine computes_leaf (.field hf hty) fun h => ?_
        have hi : (a.eval σ []).head? = some p.2 := by simpa [eval] using (hG h).2
        refine ⟨by simp only [eval, hval hi], fun _ _ _ => ⟨fun hn => ?_, hguard hi (hg (hG h).1)⟩⟩
        rw [hn] at hspine
        cases hspine
      · refine missingField_computes hf hd ha (fun h => hg (hG h).1) hctor.2 fun h => ?_
        have hi : (a.eval σ []).head? ≠ some p.2 := by simpa [eval] using (hG h).2
        obtain ⟨q, hq, hqi⟩ := hps (hG h).1
        rcases List.mem_cons.1 hq with rfl | hq
        · exact absurd hqi.1 hi
        · exact ⟨q, hq, hqi⟩

theorem select_computes {f : String × Ty} (hf : owner.field? i j = some f)
    (ha : a.HasTy X [] [] owner) (hg : F.Hold σ → a.Guarded σ) :
    Computes X σ F [] f.2 ((field owner i j a).eval σ []) (select T F owner i j a) := by
  have hd : owner.isData = true := by
    cases owner <;> first | rfl | simp [Ty.field?, Ty.ctor?, Ty.ctors] at hf
  unfold select
  split
  · rename_i k xs hs
    have hac := ha.constructs (σ := σ) hs
    obtain ⟨c, hc, hall⟩ := hac.ctor
    split
    · rename_i hki
      subst hki
      rw [Ty.field?, hc, Option.bind_some] at hf
      obtain ⟨hj, hfj⟩ := List.getElem?_eq_some_iff.1 hf
      have hjc : j < (c.fields.map Prod.snd).length := by simpa using hj
      have hjx : j < xs.length := hall.length_eq ▸ hjc
      rw [List.getElem?_eq_getElem hjx, Option.getD_some]
      have hty := (List.forall₂_iff_get.1 hall).2 j hjc hjx
      simp only [List.get_eq_getElem, List.getElem_map, hfj] at hty
      refine computes_leaf hty fun h => ⟨?_, hac.guarded (hg h) _ (List.getElem_mem hjx)⟩
      rw [eval_field (by rw [hac.eval, Value.head?_built]), hac.eval, Value.args_built,
        List.getElem?_map, List.getElem?_eq_getElem hjx]
      rfl
    · refine computes_leaf (.field hf ha) fun h => ⟨rfl, fun _ _ _ => ⟨fun hn => ?_, hg h⟩⟩
      rw [hn] at hs
      cases hs
  · refine branch_computes hσ hT (.isCon hd ha) (fun G hG => ?_) (fun G hG => ?_)
    · refine computes_leaf (.field hf ha) fun h => ⟨rfl, guarded_field ?_ (hg (hG h).1)⟩
      simpa [eval] using (hG h).2
    · refine missingField_computes hσ hT hf hd ha (fun h => hg (hG h).1) ?_ fun h => ?_
      · rintro ⟨c, k⟩ hp
        exact List.mk_mem_zipIdx_iff_getElem?.1 hp
      · have hi : (a.eval σ []).head? ≠ some i := by simpa [eval] using (hG h).2
        obtain ⟨k, c, hk, hc⟩ := Value.exists_head? hd (ha.eval_fits hσ)
        refine ⟨(c, k), List.mk_mem_zipIdx_iff_getElem?.2 hc, hk, ?_⟩
        rintro rfl
        exact hi hk

theorem hasCtor_computes (hd : ty.isData = true) (ha : a.HasTy X [] [] ty) :
    Computes X σ F [] .bool ((isCon i a).eval σ []) (hasCtor T F i a) := by
  unfold hasCtor
  split
  · rename_i k xs hs
    refine computes_bool fun _ => ?_
    rw [eval, (ha.constructs hs).eval, Value.head?_built, Value.bool.injEq, Bool.eq_iff_iff]
    simp
  · exact ofAtom_computes hσ hT (.isCon hd ha) fun _ => rfl

end Rules

/-- The trees of the arguments compute their values. -/
def Arguments (X : Variable → Prop) (σ : Assignment) (F : Facts) (Γ : List Ty) (trs : List Tree)
    (args : List Value) : Prop :=
  ∀ i s, Γ[i]? = some s → Computes X σ F [] s (args[i]?.getD default) (trs[i]?.getD (leaf (arg i)))

theorem Arguments.mono {G : Facts} {Γ : List Ty} {trs : List Tree} {args : List Value}
    (h : Arguments X σ F Γ trs args) (hFG : G.Hold σ → F.Hold σ) : Arguments X σ G Γ trs args :=
  fun i s hi => (h i s hi).mono hFG

end Tree

/-! ### Terms -/

open RouteInvariants.Tree in
/-- The tree of a term computes its value. -/
theorem Term.unfold_computes {X : Variable → Prop} {σ : Assignment} {T : Theory}
    (hσ : σ.WellSorted) (hT : T.Sound X σ) {Γ : List Ty} {t : Term} {rest : List Ty} {ty : Ty}
    (h : t.HasTy X Γ rest ty) {F : Facts} {trs : List Tree} {args : List Value}
    (hargs : Arguments X σ F Γ trs args) :
    Computes X σ F rest ty (t.eval σ args) (t.unfold T F trs) := by
  induction h generalizing F trs args with
  | const hd hv => exact computes_leaf (.const hd hv) fun _ => ⟨rfl, trivial⟩
  | var hx hd => exact computes_leaf (.var hx hd) fun _ => ⟨rfl, trivial⟩
  | arg hi => exact prune_computes hσ hT (hargs _ _ hi)
  | call _ _ iha ihbody =>
    refine ihbody fun i s hi => ?_
    cases i with
    | zero =>
      cases hi
      exact iha hargs
    | succ i => cases hi
  | call2 _ _ _ iha ihb ihbody =>
    refine ihbody fun i s hi => ?_
    match i, hi with
    | 0, rfl => exact iha hargs
    | 1, rfl => exact ihb hargs
  | ite _ _ _ ihc iha ihb =>
    refine bind_computes hσ hT (ihc hargs) fun G t ht hG => test_computes hσ hT ht ?_ ?_
    · intro H hH
      refine (iha (hargs.mono fun h => (hG (hH h).1).1)).congr fun h => ?_
      rw [eval, ← (hG (hH h).1).2.1, (hH h).2]
      rfl
    · intro H hH
      refine (ihb (hargs.mono fun h => (hG (hH h).1).1)).congr fun h => ?_
      rw [eval, ← (hG (hH h).1).2.1, (hH h).2]
      rfl
  | not _ iha =>
    refine bind_computes hσ hT (iha hargs) fun G t ht hG => test_computes hσ hT ht ?_ ?_
    all_goals
      refine fun H hH => computes_bool fun h => ?_
      rw [eval, ← (hG (hH h).1).2.1, (hH h).2]
      rfl
  | and _ _ iha ihb =>
    refine bind_computes hσ hT (iha hargs) fun G t ht hG => test_computes hσ hT ht ?_ ?_
    · intro H hH
      have hb := ihb (hargs.mono fun h => (hG (hH h).1).1)
      refine hb.congr fun h => ?_
      obtain ⟨y, hy⟩ := Value.shape_of_fits (hb.fits hσ h)
      rw [eval, ← (hG (hH h).1).2.1, (hH h).2, hy]
      cases y <;> rfl
    · refine fun H hH => computes_bool fun h => ?_
      rw [eval, ← (hG (hH h).1).2.1, (hH h).2]
      rfl
  | or _ _ iha ihb =>
    refine bind_computes hσ hT (iha hargs) fun G t ht hG => test_computes hσ hT ht ?_ ?_
    · refine fun H hH => computes_bool fun h => ?_
      rw [eval, ← (hG (hH h).1).2.1, (hH h).2]
      rfl
    · intro H hH
      have hb := ihb (hargs.mono fun h => (hG (hH h).1).1)
      refine hb.congr fun h => ?_
      obtain ⟨y, hy⟩ := Value.shape_of_fits (hb.fits hσ h)
      rw [eval, ← (hG (hH h).1).2.1, (hH h).2, hy]
      cases y <;> rfl
  | eq _ _ iha ihb =>
    refine bind_computes hσ hT (iha hargs) fun G x hx hG =>
      bind_computes hσ hT (ihb (hargs.mono fun h => (hG h).1)) fun H y hy hH => ?_
    refine (equal_computes hσ hT _ hx hy fun h => ⟨(hG (hH h).1).2.2, (hH h).2.2⟩).congr fun h => ?_
    rw [eval, (hG (hH h).1).2.1, (hH h).2.1]
  | le ho _ _ iha ihb =>
    refine bind_computes hσ hT (iha hargs) fun G x hx hG =>
      bind_computes hσ hT (ihb (hargs.mono fun h => (hG h).1)) fun H y hy hH => ?_
    obtain ⟨hty, hval⟩ := leAtom_spec hσ ho hx hy
    refine ofAtom_computes hσ hT hty fun h => ?_
    rw [hval, eval, (hG (hH h).1).2.1, (hH h).2.1]
  | add ho _ _ iha ihb =>
    refine bind_computes hσ hT (iha hargs) fun G x hx hG =>
      bind_computes hσ hT (ihb (hargs.mono fun h => (hG h).1)) fun H y hy hH => ?_
    obtain ⟨hty, hval⟩ := plus_spec hσ ho hx hy
    refine computes_leaf hty fun h => ⟨?_, guarded_of_isData hty (isData_of_hasOrder ho)⟩
    rw [hval, eval, (hG (hH h).1).2.1, (hH h).2.1]
  | sub ho _ _ iha ihb =>
    refine bind_computes hσ hT (iha hargs) fun G x hx hG =>
      bind_computes hσ hT (ihb (hargs.mono fun h => (hG h).1)) fun H y hy hH => ?_
    obtain ⟨hty, hval⟩ := minus_spec hσ ho hx hy
    refine computes_leaf hty fun h => ⟨?_, guarded_of_isData hty (isData_of_hasOrder ho)⟩
    rw [hval, eval, (hG (hH h).1).2.1, (hH h).2.1]
  | toReal _ iha =>
    refine bind_computes hσ hT (iha hargs) fun G x hx hG => ?_
    obtain ⟨hty, hval⟩ := asReal_spec hσ hx
    refine computes_leaf hty fun h => ⟨?_, guarded_of_isData hty rfl⟩
    rw [hval, eval, (hG h).2.1]
  | con hd hc => exact computes_leaf (Term.HasTy.con hd hc).of_con fun _ => ⟨rfl, trivial⟩
  | app _ _ ihf iha =>
    refine bind_computes hσ hT (ihf hargs) fun G x hx hG =>
      bind_computes hσ hT (iha (hargs.mono fun h => (hG h).1)) fun H y hy hH => ?_
    obtain ⟨hty, hval⟩ := apply_spec (σ := σ) hx hy
    refine computes_leaf hty fun h => ⟨?_, guarded_apply (hG (hH h).1).2.2 (hH h).2.2⟩
    rw [hval, eval, (hG (hH h).1).2.1, (hH h).2.1]
  | isCon hd _ iha =>
    refine bind_computes hσ hT (iha hargs) fun G x hx hG => ?_
    refine (hasCtor_computes hσ hT hd hx).congr fun h => ?_
    rw [eval, eval, (hG h).2.1]
  | field hf _ iha =>
    refine bind_computes hσ hT (iha hargs) fun G x hx hG => ?_
    refine (select_computes hσ hT hf hx fun h => (hG h).2.2).congr fun h => ?_
    simp only [eval, (hG h).2.1]

/-! ### The theory of constructors and constants -/

namespace Facts

variable {X : Variable → Prop} {σ : Assignment} {F : Facts} {atom u : Term} {b : Bool}

theorem mem_of_truth? (h : truth? F atom = some b) : (atom, b) ∈ F := by
  rw [truth?, Option.map_eq_some_iff] at h
  obtain ⟨f, hf, rfl⟩ := h
  have heq := List.find?_some hf
  rw [decide_eq_true_eq] at heq
  exact heq ▸ List.mem_of_find?_eq_some hf

theorem ctorTruth?_sound (hσ : σ.WellSorted) {i : Nat} (ha : (Term.isCon i u).HasTy X [] [] .bool)
    (hF : F.Hold σ) (h : ctorTruth? F i u = some b) :
    (Term.isCon i u).eval σ [] = .bool b := by
  unfold ctorTruth? at h
  dsimp only at h
  split at h
  · rename_i j hj
    obtain ⟨f, hf, hj⟩ := List.exists_of_findSome?_eq_some hj
    split at hj
    · rename_i k v
      split at hj
      · rename_i hv
        cases hj
        cases h
        subst hv
        have hk : (v.eval σ []).head? = some j := of_decide_eq_true (Value.bool.inj (hF _ hf))
        rw [Term.eval, hk, Value.bool.injEq, Bool.eq_iff_iff, decide_eq_true_eq, Option.some.injEq,
          beq_iff_eq]
        exact eq_comm
      · cases hj
    · cases hj
  · split at h
    · cases h
    · rename_i t ht
      split at h
      · rename_i hothers
        cases h
        cases ha with
        | isCon hd hu =>
          obtain rfl := hu.sort?_eq ht
          obtain ⟨k, c, hk, hc⟩ := Value.exists_head? hd (hu.eval_fits hσ)
          -- all constructors but the `i`-th are known not to be the one that the value has
          have hki : k = i := by
            by_contra hne
            have hlt : k < t.ctors.length := (List.getElem?_eq_some_iff.1 hc).1
            have hmem : k ∈ (List.range t.ctors.length).filter (· != i) := by simp [hlt, hne]
            have hfalse := List.all_eq_true.1 hothers k hmem
            have hval := hF _ (mem_of_truth? (beq_iff_eq.1 hfalse))
            exact of_decide_eq_false (Value.bool.inj hval) hk
          rw [Term.eval, hk, hki]
          simp
      · cases h

theorem constantTruth?_sound {v : Value} (hF : F.Hold σ) (h : constantTruth? F u v = some b) :
    (Term.eq u (.const v)).eval σ [] = .bool b := by
  obtain ⟨f, hf, h⟩ := List.exists_of_findSome?_eq_some h
  split at h
  · rename_i x w
    split at h
    · rename_i hx
      cases h
      subst hx
      have hw : x.eval σ [] = w := of_decide_eq_true (Value.bool.inj (hF _ hf))
      rw [Term.eval, hw]
      exact congrArg Value.bool (decide_eq_decide.2 eq_comm)
    · cases h
  · cases h

theorem decide_sound (hσ : σ.WellSorted) : Theory.Sound X σ decide := by
  intro F atom b ha hF h
  unfold decide at h
  split at h
  · rename_i hb
    cases h
    exact hF _ (mem_of_truth? hb)
  · split at h
    · exact ctorTruth?_sound hσ ha hF h
    · exact constantTruth?_sound hF h
    · rename_i u x _
      have hxu := hF _ (mem_of_truth? h)
      rw [Term.eval] at hxu ⊢
      exact (congrArg Value.bool (decide_eq_decide.2 eq_comm)).trans hxu
    · cases h

end Facts

/-! ### Simplified terms -/

theorem Tree.hasTy_toTerm {X : Variable → Prop} {ty : Ty} {tr : Tree} (h : tr.HasTy X [] ty) :
    tr.toTerm.HasTy X [] [] ty := by
  induction h with
  | leaf ht => exact ht
  | node ha _ _ ihy ihn => exact .ite ha ihy ihn

theorem Tree.eval_toTerm (σ : Assignment) (tr : Tree) :
    tr.toTerm.eval σ [] = (tr.pick σ).eval σ [] := by
  induction tr with
  | leaf t => rfl
  | node a y n ihy ihn =>
    rw [toTerm, Term.eval, pick]
    split
    · exact ihy
    · exact ihn

namespace Term

variable {X : Variable → Prop} {t : Term} {ty : Ty}

theorem unfold_decide_computes {σ : Assignment} (hσ : σ.WellSorted) (h : t.HasTy X [] [] ty) :
    Tree.Computes X σ [] [] ty (t.eval σ []) (t.unfold Facts.decide [] []) :=
  unfold_computes hσ (Facts.decide_sound hσ) h fun _ _ hi => nomatch hi

theorem simplify_hasTy (h : t.HasTy X [] [] ty) : t.simplify.HasTy X [] [] ty := by
  obtain ⟨σ, hσ⟩ := Assignment.exists_wellSorted
  exact Tree.hasTy_toTerm (unfold_decide_computes hσ h).hasTy

theorem eval_simplify {σ : Assignment} (hσ : σ.WellSorted) (h : t.HasTy X [] [] ty) :
    t.simplify.eval σ [] = t.eval σ [] := by
  rw [simplify, Tree.eval_toTerm]
  exact ((unfold_decide_computes hσ h).sound (by simp [Facts.Hold])).1

end Term

end RouteInvariants
