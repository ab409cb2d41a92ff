import Mathlib.Logic.Function.Iterate
import RouteInvariants.Merge.Strategy
import RouteInvariants.Proofs.Equality
import RouteInvariants.Proofs.Obligations
import RouteInvariants.Proofs.Results

/-!
Sample values and their bounds. The strategy of a sort is found by calls that nest only so deep as the
depth and the size of the sort allow (`iterate_unroll`), it exists unless a sort occurs of which nothing
can be drawn (`exists_of_ofTy_eq_error`), and what it draws is a value of the sort in which directly
recursive constructors are nested no deeper than the depth (`countP_le_of_draws`).
-/

namespace RouteInvariants

namespace Strategy

/-! ### The recursion -/

/-- The options of a data sort, where the strategies of the fields are found by `call`. -/
def optionsBy (call : Int → Ty → Except SampleError Strategy) (depth : Int) (t : Ty) :
    Except SampleError (List (Nat × List Strategy)) :=
  (drawnCtors depth t).mapM fun p => do
    .ok (p.2, ← p.1.fields.mapM fun f => call (depth - 1) f.2)

/-- One call that finds the strategy of a sort, where the calls that it makes are answered by `call`. -/
def unroll (call : Int → Ty → Except SampleError Strategy) (depth : Int) :
    Ty → Except SampleError Strategy
  | .bool => .ok bools
  | .int => .ok ints
  | .bits w => .ok (words w)
  | .text => .ok texts
  | .data name cs => do
    let options ← optionsBy call depth (.data name cs)
    if options.isEmpty then .error (.infinite (.data name cs)) else .ok (oneOf options)
  | t => .error (.unsupported t)

variable {depth : Int} {t : Ty} {s : Strategy}

theorem ofTy_eq_unroll : ofTy depth t = unroll ofTy depth t := by
  cases t with
  | data name cs => exact ofTy_data depth name cs
  | _ => simp only [unroll, ofTy]

theorem unroll_congr {g h : Int → Ty → Except SampleError Strategy}
    (hcalls : ∀ p ∈ drawnCtors depth t, ∀ f ∈ p.1.fields, g (depth - 1) f.2 = h (depth - 1) f.2) :
    unroll g depth t = unroll h depth t := by
  cases t with
  | data name cs =>
    have hoptions : optionsBy g depth (.data name cs) = optionsBy h depth (.data name cs) :=
      mapM_congr fun p hp => by rw [mapM_congr (hcalls p hp)]
    rw [unroll, unroll, hoptions]
  | _ => rfl

/-- Enough nested calls give the strategy, whatever a further one would answer: none is made. -/
theorem iterate_unroll (call : Int → Ty → Except SampleError Strategy) {k : Nat}
    (hk : depth.toNat + sizeOf t < k) : unroll^[k] call depth t = ofTy depth t := by
  induction k generalizing depth t with
  | zero => omega
  | succ k ih =>
    rw [Function.iterate_succ_apply', ofTy_eq_unroll]
    refine unroll_congr fun p hp f hf => ih ?_
    have := descends hp hf
    omega

/-! ### Strategies -/

/-- What is drawn for one constructor: its fields, one less deep. -/
structure IsOption (P : Int → Ty → Strategy → Prop) (depth : Int) (t : Ty) (o : Nat × List Strategy)
    (c : Ctor) : Prop where
  ctor : t.ctor? o.1 = some c
  depth_pos : c.isRecursive t = true → 0 < depth
  fields : List.Forall₂ (fun f s => P (depth - 1) f.2 s) c.fields o.2

theorem optionsBy_eq_ok {os : List (Nat × List Strategy)} (h : optionsBy ofTy depth t = .ok os) :
    List.Forall₂ (fun p o => IsOption (fun d t s => ofTy d t = .ok s) depth t o p.1)
      (drawnCtors depth t) os := by
  refine List.forall₂_iff_zip.2 ⟨(mapM_eq_ok.1 h).length_eq, fun {p o} hpo => ?_⟩
  have hp := mem_drawnCtors.1 (List.of_mem_zip hpo).1
  obtain ⟨fields, hfields, ho⟩ := bind_eq_ok.1 ((List.forall₂_iff_zip.1 (mapM_eq_ok.1 h)).2 hpo)
  cases ho
  exact ⟨hp.1, hp.2, mapM_eq_ok.1 hfields⟩

/-- What holds of the basic strategies, and of options if it holds of their fields, holds of the strategy
of every sort. -/
theorem ofTy_induction {P : Int → Ty → Strategy → Prop} (hbools : ∀ depth, P depth .bool bools)
    (hints : ∀ depth, P depth .int ints) (hwords : ∀ depth w, P depth (.bits w) (words w))
    (htexts : ∀ depth, P depth .text texts)
    (honeOf : ∀ depth t os, os ≠ [] → (∀ o ∈ os, ∃ c, IsOption P depth t o c) → P depth t (oneOf os))
    (h : ofTy depth t = .ok s) : P depth t s := by
  induction depth, t using ofTy.induct generalizing s with
  | case1 depth =>
    rw [ofTy] at h
    cases h
    exact hbools depth
  | case2 depth =>
    rw [ofTy] at h
    cases h
    exact hints depth
  | case3 depth w =>
    rw [ofTy] at h
    cases h
    exact hwords depth w
  | case4 depth =>
    rw [ofTy] at h
    cases h
    exact htexts depth
  | case5 depth name cs ih =>
    rw [ofTy_eq_unroll, unroll] at h
    obtain ⟨os, hos, h⟩ := bind_eq_ok.1 h
    split at h
    · cases h
    · rename_i hne
      cases h
      refine honeOf _ _ _ (fun hnil => hne (hnil ▸ rfl)) fun o ho => ?_
      obtain ⟨p, hp, hoption⟩ := exists_left_of_forall₂ (optionsBy_eq_ok hos) ho
      have hfields : ∀ f ∈ p.1.fields, ∀ s, ofTy (depth - 1) f.2 = .ok s → P (depth - 1) f.2 s :=
        fun f hf s => ih p hp f hf
      refine ⟨p.1, hoption.ctor, hoption.depth_pos, ?_⟩
      exact ((List.forall₂_and_left ..).2 ⟨hfields, hoption.fields⟩).imp fun f s hfs => hfs.1 s hfs.2
  | case6 depth t =>
    rw [ofTy] at h
    · cases h
    all_goals assumption

end Strategy

/-! ### Errors -/

/-- The sorts of the parts of values, down from the values themselves. -/
inductive Ty.Contains : Ty → Ty → Prop
  | self (t : Ty) : Contains t t
  | field {t u : Ty} {c : Ctor} {f : String × Ty} (hc : c ∈ t.ctors) (hf : f ∈ c.fields)
    (h : Contains f.2 u) : Contains t u

/-- Values are drawn of truth values, integers, words and texts, and of data with a constructor that has
no field of the sort itself. -/
def Ty.IsDrawable (t : Ty) : Prop :=
  t = .bool ∨ t = .int ∨ t = .text ∨ (∃ w, t = .bits w) ∨ ∃ c ∈ t.ctors, c.isRecursive t = false

namespace Strategy

variable {depth : Int} {t : Ty} {s : Strategy}

/-- There is no strategy only where a sort occurs of which nothing is drawn, and the error names it. -/
theorem exists_of_ofTy_eq_error {e : SampleError} (h : ofTy depth t = .error e) :
    ∃ u, t.Contains u ∧ ¬ u.IsDrawable ∧ (e = .unsupported u ∨ e = .infinite u) := by
  induction depth, t using ofTy.induct with
  | case5 depth name cs ih =>
    rw [ofTy_eq_unroll, unroll] at h
    rcases bind_eq_error.1 h with h | ⟨os, hos, h⟩
    · obtain ⟨p, hp, h⟩ := exists_of_mapM_eq_error h
      rcases bind_eq_error.1 h with h | ⟨fields, -, h⟩
      · obtain ⟨f, hf, h⟩ := exists_of_mapM_eq_error h
        obtain ⟨u, hu, hdrawn⟩ := ih p hp f hf h
        exact ⟨u, .field (List.mem_of_getElem? (mem_drawnCtors.1 hp).1) hf hu, hdrawn⟩
      · cases h
    · split at h
      · rename_i hnil
        cases h
        refine ⟨_, .self _, ?_, .inr rfl⟩
        rintro (h | h | h | ⟨w, h⟩ | ⟨c, hc, hrec⟩)
        · cases h
        · cases h
        · cases h
        · cases h
        · -- such a constructor is drawn at every depth, and there would be an option for it
          obtain ⟨i, hi⟩ := List.mem_iff_getElem?.1 hc
          have hp : (c, i) ∈ drawnCtors depth (.data name cs) :=
            mem_drawnCtors.2 ⟨hi, fun h => absurd (hrec.symm.trans h) Bool.false_ne_true⟩
          obtain ⟨o, ho, -⟩ := exists_right_of_forall₂ (optionsBy_eq_ok hos) hp
          rw [List.isEmpty_iff.1 hnil] at ho
          cases ho
      · cases h
  | case6 depth t hbool hint hbits htext hdata =>
    rw [ofTy] at h
    · cases h
      refine ⟨t, .self t, ?_, .inl rfl⟩
      rintro (h | h | h | ⟨w, h⟩ | ⟨c, hc, -⟩)
      · exact hbool h
      · exact hint h
      · exact htext h
      · exact hbits w h
      · cases t with
        | data name cs => exact hdata name cs rfl
        | _ => cases hc
    all_goals assumption
  | _ =>
    rw [ofTy] at h
    cases h

/-- There is no strategy where all constructors of the sort have a field of the sort itself. -/
theorem not_ofTy_eq_ok (hd : t.isData = true) (hrec : ∀ c ∈ t.ctors, c.isRecursive t = true) :
    ofTy depth t ≠ .ok s := by
  intro h
  refine ofTy_induction (P := fun _ t _ => t.isData = true →
    (∀ c ∈ t.ctors, c.isRecursive t = true) → False) ?_ ?_ ?_ ?_ ?_ h hd hrec
  · exact fun _ hd => absurd hd Bool.false_ne_true
  · exact fun _ hd => absurd hd Bool.false_ne_true
  · exact fun _ _ hd => absurd hd Bool.false_ne_true
  · exact fun _ hd => absurd hd Bool.false_ne_true
  · intro depth t os hne hos hd hrec
    obtain ⟨o, ho⟩ := List.exists_mem_of_ne_nil os hne
    obtain ⟨c, hoption⟩ := hos o ho
    obtain ⟨f, hf, hself⟩ := List.any_eq_true.1 (hrec c (List.mem_of_getElem? hoption.ctor))
    obtain ⟨-, -, hnone⟩ := exists_right_of_forall₂ hoption.fields hf
    rw [of_decide_eq_true hself] at hnone
    exact hnone hd hrec

/-! ### Values that are drawn -/

/-- The values that a strategy may draw. -/
inductive Draws : Strategy → Value → Prop
  | bool (b : Bool) : Draws bools (.bool b)
  | int {n : Int} (hl : intBounds.1 ≤ n) (hu : n ≤ intBounds.2) : Draws ints (.int n)
  | word {w : Nat} (b : BitVec w) : Draws (words w) (.bits w b)
  | text {cs : List CodePoint} (hlen : cs.length ≤ textLimit) (hcs : ∀ c ∈ cs, c ∈ textLetters) :
    Draws texts (.text cs)
  | built {os : List (Nat × List Strategy)} {i : Nat} {fields : List Strategy} {vs : List Value}
    (ho : (i, fields) ∈ os) (hvs : List.Forall₂ Draws fields vs) : Draws (oneOf os) (.built i vs)

theorem fits_of_draws (h : ofTy depth t = .ok s) {v : Value} (hv : s.Draws v) : v.fits t = true := by
  refine ofTy_induction (P := fun _ t s => ∀ v, s.Draws v → v.fits t = true) ?_ ?_ ?_ ?_ ?_ h v hv
  · rintro - - ⟨⟩
    rfl
  · rintro - - ⟨⟩
    rfl
  · rintro - w - ⟨⟩
    exact beq_self_eq_true w
  · rintro - - ⟨⟩
    rfl
  · intro depth t os _ hos v hv
    cases hv with
    | built ho hvs =>
      obtain ⟨c, hoption⟩ := hos _ ho
      refine Value.fits_built hoption.ctor (List.forall₂_map_left_iff.2 ?_)
      exact (forall₂_comp hoption.fields hvs).imp fun f v ⟨s, hfits, hdraws⟩ => hfits v hdraws

end Strategy

/-- The constructors on a path down a value, each with the sort of what it builds. -/
inductive Value.Path : Ty → Value → List (Ty × Ctor) → Prop
  | here (t : Ty) (v : Value) : Path t v []
  | down {t : Ty} {v a : Value} {i j : Nat} {c : Ctor} {f : String × Ty} {ps : List (Ty × Ctor)}
    (hi : v.head? = Option.some i) (hc : t.ctor? i = Option.some c)
    (hf : c.fields[j]? = Option.some f) (ha : v.args[j]? = Option.some a) (h : Path f.2 a ps) :
    Path t v ((t, c) :: ps)

theorem Value.Path.eq_nil {t : Ty} {v : Value} {ps : List (Ty × Ctor)} (h : v.Path t ps)
    (ht : t.isData = false) : ps = [] := by
  cases h with
  | here => rfl
  | down _ hc => exact absurd (ht.symm.trans (isData_of_ctor? hc)) Bool.false_ne_true

namespace Strategy

variable {depth : Int} {t : Ty} {s : Strategy}

/-- On every path down a drawn value, the directly recursive constructors are no more than the depth. -/
theorem countP_le_of_draws (h : ofTy depth t = .ok s) {v : Value} (hv : s.Draws v)
    {ps : List (Ty × Ctor)} (hps : v.Path t ps) :
    ps.countP (fun p => p.2.isRecursive p.1) ≤ depth.toNat := by
  have hbasic (depth : Int) {t : Ty} (ht : t.isData = false) (v : Value) (ps : List (Ty × Ctor))
      (h : v.Path t ps) : ps.countP (fun p => p.2.isRecursive p.1) ≤ depth.toNat :=
    h.eq_nil ht ▸ Nat.zero_le _
  refine ofTy_induction (P := fun depth t s => ∀ v, s.Draws v → ∀ ps, v.Path t ps →
    ps.countP (fun p => p.2.isRecursive p.1) ≤ depth.toNat) ?_ ?_ ?_ ?_ ?_ h v hv ps hps
  · exact fun depth v _ => hbasic depth rfl v
  · exact fun depth v _ => hbasic depth rfl v
  · exact fun depth w v _ => hbasic depth rfl v
  · exact fun depth v _ => hbasic depth rfl v
  · intro depth t os _ hos v hv ps hps
    cases hps with
    | here => exact Nat.zero_le _
    | down hi hc hf ha hps =>
      cases hv with
      | built ho hvs =>
        obtain ⟨c, hoption⟩ := hos _ ho
        rw [Value.head?_built] at hi
        cases hi
        cases hoption.ctor.symm.trans hc
        rw [Value.args_built] at ha
        obtain ⟨s, hbound, hdraws⟩ :=
          (forall₂_iff_getElem?.1 (forall₂_comp hoption.fields hvs)).2 _ _ _ hf ha
        have hle := hbound _ hdraws _ hps
        rw [List.countP_cons]
        split
        · -- the constructor was drawn above depth zero, and its fields one less deep
          have := hoption.depth_pos ‹_›
          omega
        · omega

/-! ### Small values -/

theorem exists_of_mem_fieldSamples {ss : List Strategy} {heads : List Value} {v : Value}
    (hv : v ∈ fieldSamples heads ss) : ∃ h ∈ heads, ∃ vs,
      List.Forall₂ (fun s v => v ∈ s.samples) ss vs ∧ v = vs.foldl .app h := by
  induction ss generalizing heads with
  | nil =>
    rw [fieldSamples] at hv
    exact ⟨v, hv, [], .nil, rfl⟩
  | cons s ss ih =>
    rw [fieldSamples] at hv
    obtain ⟨f, hf, vs, hvs, rfl⟩ := ih hv
    obtain ⟨h, hh, hf⟩ := List.mem_flatMap.1 hf
    obtain ⟨a, ha, rfl⟩ := List.mem_map.1 hf
    exact ⟨h, hh, a :: vs, .cons ha hvs, rfl⟩

theorem exists_of_mem_optionSamples {os : List (Nat × List Strategy)} {v : Value}
    (hv : v ∈ optionSamples os) : ∃ o ∈ os, ∃ vs,
      List.Forall₂ (fun s v => v ∈ s.samples) o.2 vs ∧ v = .built o.1 vs := by
  induction os with
  | nil =>
    rw [optionSamples] at hv
    cases hv
  | cons o os ih =>
    rw [optionSamples, List.mem_append] at hv
    rcases hv with hv | hv
    · obtain ⟨h, hh, vs, hvs, rfl⟩ := exists_of_mem_fieldSamples (List.mem_of_mem_take hv)
      cases List.mem_singleton.1 hh
      exact ⟨o, List.mem_cons_self, vs, hvs, rfl⟩
    · obtain ⟨o', ho', hv⟩ := ih hv
      exact ⟨o', List.mem_cons_of_mem o ho', hv⟩

theorem fieldSamples_ne_nil {ss : List Strategy} (hss : ∀ s ∈ ss, s.samples ≠ []) {heads : List Value}
    (hheads : heads ≠ []) : fieldSamples heads ss ≠ [] := by
  induction ss generalizing heads with
  | nil =>
    rw [fieldSamples]
    exact hheads
  | cons s ss ih =>
    rw [List.forall_mem_cons] at hss
    obtain ⟨h, hh⟩ := List.exists_mem_of_ne_nil heads hheads
    obtain ⟨a, ha⟩ := List.exists_mem_of_ne_nil _ hss.1
    rw [fieldSamples]
    exact ih hss.2 (List.ne_nil_of_mem (List.mem_flatMap.2 ⟨h, hh, List.mem_map_of_mem ha⟩))

theorem samples_ne_nil (h : ofTy depth t = .ok s) : s.samples ≠ [] := by
  refine ofTy_induction (P := fun _ _ s => s.samples ≠ []) ?_ ?_ ?_ ?_ ?_ h
  · exact fun _ => List.cons_ne_nil _ _
  · exact fun _ => List.cons_ne_nil _ _
  · intro _ w
    rw [samples]
    split
    · have hzero : 0 ∈ List.range (Nat.pow 2 w) := List.mem_range.2 (Nat.two_pow_pos w)
      exact List.ne_nil_of_mem (List.mem_map_of_mem hzero)
    · exact List.cons_ne_nil _ _
  · exact fun _ => List.cons_ne_nil _ _
  · intro depth t os hne hos
    cases os with
    | nil => exact absurd rfl hne
    | cons o os =>
      obtain ⟨c, hoption⟩ := hos o List.mem_cons_self
      have hfields : fieldSamples [.con o.1] o.2 ≠ [] := by
        refine fieldSamples_ne_nil (fun s hs => ?_) (List.cons_ne_nil _ _)
        obtain ⟨f, -, hsamples⟩ := exists_left_of_forall₂ hoption.fields hs
        exact hsamples
      rw [samples, optionSamples]
      simp [hfields, sampleLimit]

theorem draws_of_mem_samples (h : ofTy depth t = .ok s) {v : Value} (hv : v ∈ s.samples) :
    s.Draws v := by
  refine ofTy_induction (P := fun _ _ s => ∀ v ∈ s.samples, s.Draws v) ?_ ?_ ?_ ?_ ?_ h v hv
  · intro _ v hv
    rw [samples, List.mem_pair] at hv
    rcases hv with rfl | rfl
    · exact .bool false
    · exact .bool true
  · intro _ v hv
    rw [samples] at hv
    obtain ⟨n, hn, rfl⟩ := List.mem_map.1 hv
    have hbounds : ∀ n ∈ [0, 1, -1, 2, -2, 3], intBounds.1 ≤ n ∧ n ≤ intBounds.2 := by decide
    exact .int (hbounds n hn).1 (hbounds n hn).2
  · intro _ w v hv
    rw [samples] at hv
    split at hv
    · obtain ⟨n, -, rfl⟩ := List.mem_map.1 hv
      exact .word _
    · obtain ⟨n, -, rfl⟩ := List.mem_map.1 hv
      exact .word _
  · intro _ v hv
    rw [samples] at hv
    obtain ⟨x, hx, rfl⟩ := List.mem_map.1 hv
    have hletters : ["", "a", "b", "ab", "ba"].all (fun x =>
        (CodePoint.ofString x).length ≤ textLimit &&
          (CodePoint.ofString x).all (textLetters.contains ·)) = true := by
      rfl
    have hx := List.all_eq_true.1 hletters x hx
    rw [Bool.and_eq_true, decide_eq_true_eq, List.all_eq_true] at hx
    exact .text hx.1 fun c hc => List.contains_iff_mem.1 (hx.2 c hc)
  · intro depth t os _ hos v hv
    rw [samples] at hv
    obtain ⟨o, ho, vs, hvs, rfl⟩ := exists_of_mem_optionSamples hv
    obtain ⟨c, hoption⟩ := hos o ho
    have hfields : ∀ s ∈ o.2, ∀ v ∈ s.samples, s.Draws v := fun s hs =>
      (exists_left_of_forall₂ hoption.fields hs).elim fun _ h => h.2
    exact .built ho (((List.forall₂_and_left ..).2 ⟨hfields, hvs⟩).imp fun s v h => h.1 v h.2)

end Strategy

/-! ### Values that are solved for -/

/-- The arguments of a value of a data sort are of the sorts of its constructor's fields. -/
theorem Value.forall₂_args {t : Ty} {v : Value} {i : Nat} {c : Ctor} (hv : v.fits t = true)
    (hi : v.head? = Option.some i) (hc : t.ctor? i = Option.some c) :
    v = built i v.args ∧ List.Forall₂ (fun f a => fits f.2 a = true) c.fields v.args := by
  obtain ⟨j, c', hc', hbuilt, hall⟩ := fits_data (isData_of_ctor? hc) hv
  rw [hbuilt, head?_built] at hi
  cases hi
  cases hc.symm.trans hc'
  exact ⟨hbuilt, List.forall₂_map_left_iff.1 hall⟩

theorem Term.holds_disj {σ : Assignment} {ts : List Term} :
    (disj ts).holds σ ↔ ∃ t ∈ ts, t.holds σ := by
  fun_induction disj ts with
  | case1 => simp [holds, ff, Term.bool, eval]
  | case2 t => simp
  | case3 t ts _ ih => rw [holds_or, ih, List.exists_mem_cons_iff]

namespace Strategy

variable {depth : Int} {t : Ty} {s : Strategy} {x : Term}

theorem exists_of_mem_optionsDrawn? {os : List (Nat × List Strategy)} {φs : List Term}
    (h : optionsDrawn? t x os = some φs) {φ : Term} (hφ : φ ∈ φs) :
    ∃ o ∈ os, ∃ ψs, fieldsDrawn? t o.1 x 0 o.2 = some ψs ∧ φ = .conj (.isCon o.1 x :: ψs) := by
  induction os generalizing φs with
  | nil =>
    rw [optionsDrawn?] at h
    cases h
    cases hφ
  | cons o os ih =>
    rw [optionsDrawn?] at h
    obtain ⟨ψs, hψs, h⟩ := Option.bind_eq_some_iff.1 h
    obtain ⟨χs, hχs, h⟩ := Option.bind_eq_some_iff.1 h
    cases h
    rcases List.mem_cons.1 hφ with rfl | hφ
    · exact ⟨o, List.mem_cons_self, ψs, hψs, rfl⟩
    · obtain ⟨o', ho', h⟩ := ih hχs hφ
      exact ⟨o', List.mem_cons_of_mem o ho', h⟩

theorem exists_mem_of_fieldsDrawn? {i j k : Nat} {ss : List Strategy} {φs : List Term}
    (h : fieldsDrawn? t i x j ss = some φs) (hs : ss[k]? = some s) : ∃ φ ∈ φs,
      drawn? (((t.field? i (j + k)).map Prod.snd).getD default) (.field t i (j + k) x) s = some φ := by
  induction ss generalizing j k φs with
  | nil => cases hs
  | cons s' ss ih =>
    rw [fieldsDrawn?] at h
    obtain ⟨φ, hφ, h⟩ := Option.bind_eq_some_iff.1 h
    obtain ⟨φs, hφs, h⟩ := Option.bind_eq_some_iff.1 h
    cases h
    cases k with
    | zero =>
      cases hs
      exact ⟨φ, List.mem_cons_self, hφ⟩
    | succ k =>
      obtain ⟨ψ, hψ, hdrawn⟩ := ih hφs hs
      rw [Nat.add_right_comm, Nat.add_assoc] at hdrawn
      exact ⟨ψ, List.mem_cons_of_mem φ hψ, hdrawn⟩

/-- A value of the sort is drawn if it solves the condition that it may be. -/
theorem draws_of_drawn? (h : ofTy depth t = .ok s) {φ : Term} (hφ : s.drawn? t x = some φ)
    {σ : Assignment} (hx : (x.eval σ []).fits t = true) (hholds : φ.holds σ) :
    s.Draws (x.eval σ []) := by
  refine ofTy_induction (P := fun _ t s => ∀ (x φ : Term), s.drawn? t x = some φ →
    (x.eval σ []).fits t = true → φ.holds σ → s.Draws (x.eval σ []))
    ?_ ?_ ?_ ?_ ?_ h x φ hφ hx hholds
  · intro _ x φ _ hx _
    obtain ⟨b, hb⟩ := Value.shape_of_fits hx
    exact hb ▸ .bool b
  · intro _ x φ hφ hx hholds
    obtain ⟨n, hn⟩ := Value.shape_of_fits hx
    rw [drawn?] at hφ
    cases hφ
    rw [Term.holds_and, Term.holds, Term.holds, Term.eval, Term.eval, hn, Value.bool.injEq,
      Value.bool.injEq] at hholds
    exact hn ▸ .int (of_decide_eq_true hholds.1) (of_decide_eq_true hholds.2)
  · intro _ w x φ _ hx _
    obtain ⟨b, hb⟩ := Value.shape_of_fits hx
    exact hb ▸ .word b
  · intro _ x φ hφ
    cases hφ
  · intro depth t os _ hos x φ hφ hx hholds
    rw [drawn?, Option.map_eq_some_iff] at hφ
    obtain ⟨φs, hφs, rfl⟩ := hφ
    obtain ⟨φ, hφ, hholds⟩ := Term.holds_disj.1 hholds
    obtain ⟨o, ho, ψs, hψs, rfl⟩ := exists_of_mem_optionsDrawn? hφs hφ
    obtain ⟨hcon, hholds⟩ := List.forall_mem_cons.1 (Term.holds_conj.1 hholds)
    rw [Term.holds, Term.eval, Value.bool.injEq, decide_eq_true_eq] at hcon
    obtain ⟨c, hoption⟩ := hos o ho
    -- the value is the constructor of the option, and the fields of the term are its arguments
    obtain ⟨hbuilt, hall⟩ := Value.forall₂_args hx hcon hoption.ctor
    have hlen := hoption.fields.length_eq.symm.trans hall.length_eq
    rw [hbuilt]
    refine .built ho (forall₂_iff_getElem?.2 ⟨hlen, fun k s a hs ha => ?_⟩)
    obtain ⟨f, hf, hdraws⟩ := exists_getElem?_of_forall₂ hoption.fields hs
    have hfits : a.fits f.2 = true := (forall₂_iff_getElem?.1 hall).2 k f a hf ha
    obtain ⟨ψ, hψ, hdrawn⟩ := exists_mem_of_fieldsDrawn? hψs hs
    have hfield : t.field? o.1 k = some f := by rw [Ty.field?, hoption.ctor, Option.bind_some, hf]
    rw [Nat.zero_add, hfield] at hdrawn
    have heval : (Term.field t o.1 k x).eval σ [] = a := by
      rw [Term.eval, if_pos hcon, ha, Option.getD_some]
    exact heval ▸ hdraws _ ψ hdrawn (heval ▸ hfits) (hholds ψ hψ)

end Strategy

/-- The strategy of a sort is found by calls that nest no deeper than the depth and the size of the sort
together. It exists if every sort of the parts of values can be drawn from, and it does not exist for data
all of whose constructors have a field of the sort itself. There are small values, they and all that are
solved for are drawn, and what is drawn is a value of the sort, with no more directly recursive
constructors of one sort on a path than the depth. -/
theorem sampling_terminates_within_bounds (depth : Int) (t : Ty) :
    (∀ (call : Int → Ty → Except SampleError Strategy) (k : Nat), depth.toNat + sizeOf t < k →
      Strategy.unroll^[k] call depth t = Strategy.ofTy depth t) ∧
    ((∀ u, t.Contains u → u.IsDrawable) → ∃ s, Strategy.ofTy depth t = .ok s) ∧
    (t.isData = true → (∀ c ∈ t.ctors, c.isRecursive t = true) →
      ∃ e, Strategy.ofTy depth t = .error e) ∧
    ∀ s, Strategy.ofTy depth t = .ok s →
      s.samples ≠ [] ∧ (∀ v ∈ s.samples, s.Draws v) ∧
      (∀ x φ, s.drawn? t x = some φ → ∀ σ : Assignment, (x.eval σ []).fits t = true →
        φ.holds σ → s.Draws (x.eval σ [])) ∧
      ∀ v, s.Draws v → v.fits t = true ∧ ∀ ps, v.Path t ps → ∀ owner,
        (ps.countP fun p => p.1 = owner && p.2.isRecursive p.1 : Int) ≤ max depth 0 := by
  refine ⟨fun call k => Strategy.iterate_unroll call, fun hdrawable => ?_, fun hd hrec => ?_,
    fun s hs => ⟨Strategy.samples_ne_nil hs, fun v => Strategy.draws_of_mem_samples hs,
      fun x φ hφ σ => Strategy.draws_of_drawn? hs hφ,
      fun v hv => ⟨Strategy.fits_of_draws hs hv, fun ps hps owner => ?_⟩⟩⟩
  · cases h : Strategy.ofTy depth t with
    | ok s => exact ⟨s, rfl⟩
    | error e =>
      obtain ⟨u, hu, hnot, -⟩ := Strategy.exists_of_ofTy_eq_error h
      exact absurd (hdrawable u hu) hnot
  · cases h : Strategy.ofTy depth t with
    | ok s => exact absurd h (Strategy.not_ofTy_eq_ok hd hrec)
    | error e => exact ⟨e, rfl⟩
  · have hall := Strategy.countP_le_of_draws hs hv hps
    have howner : (ps.countP fun p => p.1 = owner && p.2.isRecursive p.1) ≤
        ps.countP fun p => p.2.isRecursive p.1 :=
      List.countP_mono_left fun p _ h => (Bool.and_eq_true_iff.1 h).2
    omega

/-- At depth two no list of three numbers is drawn, and streams, which have no end, are not drawn from. -/
theorem sampling_terminates_within_bounds_lists :
    let list : Ty := .data "List" (.cons "nil" .nil
      (.cons "cons" (.field "head" .int (.self "tail" .nil)) .nil))
    let stream : Ty := .data "Stream" (.cons "more" (.field "head" .int (.self "tail" .nil)) .nil)
    let cons (v : Value) : Value := .built 1 [.int 0, v]
    (∃ s, Strategy.ofTy 2 list = .ok s ∧ s.samples ≠ [] ∧ ¬ s.Draws (cons (cons (cons (.con 0))))) ∧
      ∃ e, Strategy.ofTy 2 stream = .error e := by
  intro list stream cons
  obtain ⟨-, hlist, -, hbounds⟩ := sampling_terminates_within_bounds 2 list
  obtain ⟨-, -, hstream, -⟩ := sampling_terminates_within_bounds 2 stream
  have hfields : ∀ c ∈ list.ctors, ∀ f ∈ c.fields, f.2 = list ∨ f.2 = .int := by decide
  have hcontains {t u : Ty} (h : t.Contains u) : t = list ∨ t = .int → u = list ∨ u = .int := by
    induction h with
    | self => exact id
    | field hc hf _ ih =>
      rintro (rfl | rfl)
      · exact ih (hfields _ hc _ hf)
      · cases hc
  refine ⟨?_, hstream rfl (by decide)⟩
  obtain ⟨s, hs⟩ := hlist fun u hu => by
    rcases hcontains hu (.inl rfl) with rfl | rfl
    · exact .inr (.inr (.inr (.inr ⟨⟨"nil", []⟩, List.mem_cons_self, rfl⟩)))
    · exact .inr (.inl rfl)
  obtain ⟨hsamples, -, -, hdraws⟩ := hbounds s hs
  refine ⟨s, hs, hsamples, fun h => ?_⟩
  have hdown {v : Value} {ps : List (Ty × Ctor)} (h : v.Path list ps) : (cons v).Path list
      ((list, ⟨"cons", [("head", .int), ("tail", list)]⟩) :: ps) :=
    .down (i := 1) (j := 1) rfl rfl rfl rfl h
  exact absurd ((hdraws _ h).2 _ (hdown (hdown (hdown (.here _ _)))) list) (by decide)

end RouteInvariants
