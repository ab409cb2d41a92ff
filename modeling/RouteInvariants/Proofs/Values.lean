import Mathlib.Data.List.Forall2
import RouteInvariants.Route.Term

/-!
Values and their sorts. A value of a data sort is a constructor of the sort, applied to values of
the sorts of its fields (`fits_data`), and every declared sort has a value (`exists_fits`). An
assignment is well sorted if it gives each variable a value of its sort, and there are such
assignments (`exists_wellSorted`).
-/

namespace RouteInvariants

namespace Value

/-! ### Constructors and their arguments -/

/-- A constructor with all the arguments that it is applied to. -/
def built (i : Nat) (vs : List Value) : Value := vs.foldl app (con i)

theorem head?_foldl_app (vs : List Value) : ∀ v : Value, (vs.foldl app v).head? = v.head? := by
  induction vs with
  | nil => exact fun v => rfl
  | cons a vs ih => exact fun v => ih (app v a)

theorem args_foldl_app (vs : List Value) : ∀ v : Value, (vs.foldl app v).args = v.args ++ vs := by
  induction vs with
  | nil => exact fun v => (List.append_nil v.args).symm
  | cons a vs ih =>
    intro v
    rw [List.foldl_cons, ih (app v a), args, List.append_assoc, List.singleton_append]

@[simp] theorem head?_built (i : Nat) (vs : List Value) : (built i vs).head? = Option.some i :=
  head?_foldl_app vs (con i)

@[simp] theorem args_built (i : Nat) (vs : List Value) : (built i vs).args = vs :=
  args_foldl_app vs (con i)

theorem built_concat (i : Nat) (vs : List Value) (a : Value) :
    built i (vs ++ [a]) = app (built i vs) a := by
  simp [built, List.foldl_append]

/-- What a partial application still lacks are the last of the constructor's fields. -/
theorem pending?_spine {t : Ty} {v : Value} {rest : List Ty}
    (h : pending? t v = Option.some rest) :
    ∃ i c done, t.ctor? i = Option.some c ∧ v = built i v.args ∧
      c.fields.map Prod.snd = done ++ rest ∧
      List.Forall₂ (fun s a => fits s a = true) done v.args := by
  induction v generalizing rest with
  | con i =>
    rw [pending?, Option.map_eq_some_iff] at h
    obtain ⟨c, hc, hr⟩ := h
    exact ⟨i, c, [], hc, rfl, hr, .nil⟩
  | app f a ihf =>
    rw [pending?] at h
    split at h
    · rename_i s ss hf
      split at h
      · rename_i ha
        obtain ⟨i, c, done, hc, hv, hd, hall⟩ := ihf hf
        cases h
        refine ⟨i, c, done ++ [s], hc, ?_, by simpa using hd, ?_⟩
        · rw [args, built_concat, ← hv]
        · exact List.rel_append hall (.cons ha .nil)
      · cases h
    · cases h
  | _ => simp [pending?] at h

theorem pending?_foldl_app {t : Ty} {ss rest : List Ty} {vs : List Value}
    (hall : List.Forall₂ (fun s a => fits s a = true) ss vs) :
    ∀ {v : Value}, pending? t v = Option.some (ss ++ rest) →
      pending? t (vs.foldl app v) = Option.some rest := by
  induction hall with
  | nil => exact fun h => h
  | cons ha _ ih =>
    intro v h
    rw [List.cons_append] at h
    exact ih (by rw [pending?, h]; simp [ha])

theorem fits_app_iff {t : Ty} {f a : Value} :
    fits t (app f a) = true ↔ pending? t (app f a) = Option.some [] := by
  rw [fits, pending?]
  cases hf : pending? t f with
  | none => simp
  | some ss =>
    match ss with
    | [] => simp
    | [s] => simp
    | s :: s' :: rest => simp

theorem fits_con_iff {t : Ty} {i : Nat} :
    fits t (con i) = true ↔ pending? t (con i) = Option.some [] := by
  rw [fits, pending?]
  cases t.ctor? i with
  | none => simp
  | some c => simp

/-- A value of a data sort is a constructor of the sort with values of the fields' sorts. -/
theorem fits_data {t : Ty} {v : Value} (ht : t.isData = true) (h : fits t v = true) :
    ∃ i c, t.ctor? i = Option.some c ∧ v = built i v.args ∧
      List.Forall₂ (fun s a => fits s a = true) (c.fields.map Prod.snd) v.args := by
  have hp : pending? t v = Option.some [] := by
    cases v with
    | con i => exact fits_con_iff.1 h
    | app f a => exact fits_app_iff.1 h
    | _ => cases t <;> simp [Ty.isData, fits] at ht h
  obtain ⟨i, c, done, hc, hv, hd, hall⟩ := pending?_spine hp
  rw [List.append_nil] at hd
  exact ⟨i, c, hc, hv, hd ▸ hall⟩

theorem fits_of_pending? {t : Ty} {v : Value} (h : pending? t v = Option.some []) :
    fits t v = true := by
  cases v with
  | con i => exact fits_con_iff.2 h
  | app f a => exact fits_app_iff.2 h
  | _ => simp [pending?] at h

theorem fits_built {t : Ty} {i : Nat} {c : Ctor} {vs : List Value} (hc : t.ctor? i = Option.some c)
    (hall : List.Forall₂ (fun s a => fits s a = true) (c.fields.map Prod.snd) vs) :
    fits t (built i vs) = true := by
  refine fits_of_pending? (pending?_foldl_app hall ?_)
  rw [pending?, hc, Option.map_some, List.append_nil]

/-! ### Values of basic sorts -/

theorem pending?_eq_none {t : Ty} (ht : t.isData = false) (v : Value) :
    pending? t v = Option.none := by
  cases hp : pending? t v with
  | none => rfl
  | some rest =>
    obtain ⟨i, c, done, hc, -⟩ := pending?_spine hp
    cases t <;> simp [Ty.isData, Ty.ctor?, Ty.ctors] at ht hc

/-- What the values of a basic sort look like; of the others see `fits_data`. -/
def Shape : Ty → Value → Prop
  | .bool, v => ∃ b, v = bool b
  | .int, v => ∃ n, v = int n
  | .real, v => ∃ q, v = real q
  | .text, v => ∃ cs, v = text cs
  | .bits w, v => ∃ b : BitVec w, v = bits w b
  | .array _ _, v => ∃ p, v = array p
  | .data _ _, _ => True
  | .truth, _ => False

theorem shape_of_fits {t : Ty} {v : Value} (h : fits t v = true) : Shape t v := by
  by_cases ht : t.isData = true
  · cases t <;> simp [Ty.isData] at ht
    trivial
  · have hp := pending?_eq_none (Bool.not_eq_true _ ▸ ht)
    cases v with
    | con i => rw [fits_con_iff, hp] at h; cases h
    | app f a => rw [fits_app_iff, hp] at h; cases h
    | bool b =>
      cases t with
      | bool => exact ⟨b, rfl⟩
      | _ => simp [fits] at h
    | int n =>
      cases t with
      | int => exact ⟨n, rfl⟩
      | _ => simp [fits] at h
    | real q =>
      cases t with
      | real => exact ⟨q, rfl⟩
      | _ => simp [fits] at h
    | text cs =>
      cases t with
      | text => exact ⟨cs, rfl⟩
      | _ => simp [fits] at h
    | bits u b =>
      cases t with
      | bits w =>
        rw [fits, beq_iff_eq] at h
        subst h
        exact ⟨b, rfl⟩
      | _ => simp [fits] at h
    | array p =>
      cases t with
      | array i e => exact ⟨p, rfl⟩
      | _ => simp [fits] at h

/-- An option is absent, or a value of the element sort is present. -/
theorem of_fits_option {s : Ty} {v : Value} (h : v.fits (.option s) = true) :
    v = none ∨ ∃ w, w.fits s = true ∧ v = some w := by
  obtain ⟨i, c, hc, hv, hall⟩ := fits_data rfl h
  match i with
  | 0 =>
    cases hc
    cases hargs : v.args with
    | nil =>
      rw [hargs] at hv
      exact .inl hv
    | cons w ws =>
      rw [hargs] at hall
      cases hall
  | 1 =>
    cases hc
    obtain ⟨w, ws, hw, hws, hargs⟩ := List.forall₂_cons_left_iff.1 hall
    obtain rfl := List.forall₂_nil_left_iff.1 hws
    rw [hargs] at hv
    exact .inr ⟨w, hw, hv⟩
  | i + 2 => cases hc

theorem fits_array_zero {i e : Ty} : fits (.array i e) (array 0) = true := by
  rw [fits, decide_eq_true_eq, Ty.countUpTo]
  split
  · exact Nat.one_pos
  · rename_i helements
    split
    · exact Nat.one_pos
    · exact Nat.lt_min.2 ⟨Nat.one_pos, Nat.pow_pos (Nat.lt_of_succ_lt (Nat.lt_of_not_le helements))⟩

/-- Sums stay within a sort; where there is nothing to add, the first operand is kept. -/
theorem fits_add {t : Ty} {a b : Value} (h : fits t a = true) : fits t (a.add b) = true := by
  unfold add
  split
  · cases t <;> simp [fits] at h ⊢
  · cases t <;> simp [fits] at h ⊢
  · cases t <;> simp [fits] at h ⊢
    exact h
  · cases t <;> simp [fits] at h ⊢
  · exact h

theorem fits_sub {t : Ty} {a b : Value} (h : fits t a = true) : fits t (a.sub b) = true := by
  unfold sub
  split
  · cases t <;> simp [fits] at h ⊢
  · cases t <;> simp [fits] at h ⊢
  · cases t <;> simp [fits] at h ⊢
    exact h
  · exact h

theorem fits_toReal {v : Value} (h : fits .int v = true) : fits .real v.toReal = true := by
  obtain ⟨n, rfl⟩ := shape_of_fits h
  rfl

end Value

/-! ### Declared sorts -/

theorem Fields.isDeclared_toList {owner : Ty} (ho : owner.isDeclared = true) :
    ∀ {fs : Fields}, fs.isDeclared = true → ∀ f ∈ fs.toList owner, f.2.isDeclared = true
  | .nil, _ => by simp [toList]
  | .self _ rest, h => by
    intro f hf
    rw [isDeclared] at h
    rcases List.mem_cons.1 hf with rfl | hf
    · exact ho
    · exact isDeclared_toList ho h f hf
  | .field _ ty rest, h => by
    rw [isDeclared, Bool.and_eq_true] at h
    intro f hf
    rcases List.mem_cons.1 hf with rfl | hf
    · exact h.1
    · exact isDeclared_toList ho h.2 f hf

theorem Ctors.isDeclared_toList {owner : Ty} (ho : owner.isDeclared = true) :
    ∀ {cs : Ctors}, cs.isDeclared = true →
      ∀ c ∈ cs.toList owner, ∀ f ∈ c.fields, f.2.isDeclared = true
  | .nil, _ => by simp [toList]
  | .cons _ fields rest, h => by
    rw [isDeclared, Bool.and_eq_true] at h
    intro c hc
    rcases List.mem_cons.1 hc with rfl | hc
    · exact Fields.isDeclared_toList ho h.1
    · exact isDeclared_toList ho h.2 c hc

theorem Ty.isDeclared_of_ctor? {t : Ty} (ht : t.isDeclared = true) {i : Nat} {c : Ctor}
    (hc : t.ctor? i = some c) : ∀ f ∈ c.fields, f.2.isDeclared = true := by
  have hmem := List.mem_of_getElem? hc
  cases t with
  | data name cs =>
    have hd := ht
    rw [isDeclared, Bool.and_eq_true] at hd
    exact Ctors.isDeclared_toList ht hd.2 c hmem
  | _ => simp [ctors] at hmem

theorem Ty.isDeclared_of_field? {t : Ty} (ht : t.isDeclared = true) {i j : Nat} {f : String × Ty}
    (hf : t.field? i j = some f) : f.2.isDeclared = true := by
  rw [field?, Option.bind_eq_some_iff] at hf
  obtain ⟨c, hc, hf⟩ := hf
  exact isDeclared_of_ctor? ht hc f (List.mem_of_getElem? hf)

mutual

theorem Ty.exists_fits : ∀ {t : Ty}, t.isDeclared = true → ∃ v : Value, v.fits t = true
  | .bool, _ => ⟨.bool true, rfl⟩
  | .int, _ => ⟨.int 0, rfl⟩
  | .real, _ => ⟨.real 0, rfl⟩
  | .text, _ => ⟨.text [], rfl⟩
  | .bits w, _ => ⟨.bits w 0, by simp [Value.fits]⟩
  | .array _ _, _ => ⟨.array 0, Value.fits_array_zero⟩
  | .data name cs, h => by
    rw [Ty.isDeclared, Bool.and_eq_true] at h
    obtain ⟨i, c, vs, hc, hall⟩ := Ctors.exists_fits (.data name cs) h.2 h.1
    exact ⟨.built i vs, Value.fits_built hc hall⟩
  | .truth, h => by simp [Ty.isDeclared] at h

/-- A constructor that does not ask for the owner itself, with arguments. -/
theorem Ctors.exists_fits (owner : Ty) : ∀ {cs : Ctors}, cs.isDeclared = true →
    cs.grounded = true → ∃ (i : Nat) (c : Ctor) (vs : List Value),
      (cs.toList owner)[i]? = some c ∧
        List.Forall₂ (fun s a => Value.fits s a = true) (c.fields.map Prod.snd) vs
  | .nil, _, h => by simp [Ctors.grounded] at h
  | .cons name fields rest, hd, hg => by
    rw [Ctors.isDeclared, Bool.and_eq_true] at hd
    cases hs : fields.hasSelf with
    | false =>
      obtain ⟨vs, hall⟩ := Fields.exists_fits owner hd.1 hs
      exact ⟨0, ⟨name, fields.toList owner⟩, vs, rfl, hall⟩
    | true =>
      rw [Ctors.grounded, hs, Bool.not_true, Bool.false_or] at hg
      obtain ⟨i, c, vs, hc, hall⟩ := Ctors.exists_fits owner hd.2 hg
      exact ⟨i + 1, c, vs, hc, hall⟩

theorem Fields.exists_fits (owner : Ty) : ∀ {fs : Fields}, fs.isDeclared = true →
    fs.hasSelf = false → ∃ vs, List.Forall₂ (fun s a => Value.fits s a = true)
      ((fs.toList owner).map Prod.snd) vs
  | .nil, _, _ => ⟨[], .nil⟩
  | .self _ _, _, h => by simp [Fields.hasSelf] at h
  | .field _ ty rest, hd, hs => by
    rw [Fields.isDeclared, Bool.and_eq_true] at hd
    obtain ⟨v, hv⟩ := Ty.exists_fits hd.1
    obtain ⟨vs, hall⟩ := Fields.exists_fits owner hd.2 hs
    exact ⟨v :: vs, .cons hv hall⟩

end

/-! ### Assignments -/

/-- Each variable has a value of its sort, and so has each field that a value lacks. -/
structure Assignment.WellSorted (σ : Assignment) : Prop where
  value : ∀ x : Variable, x.ty.isDeclared = true → (σ.value x).fits x.ty = true
  absent : ∀ (t : Ty) (i j : Nat) (f : String × Ty) (v : Value), t.isDeclared = true →
    t.field? i j = some f → v.fits t = true → (σ.absent t i j v).fits f.2 = true

theorem Assignment.exists_wellSorted : ∃ σ : Assignment, σ.WellSorted := by
  have hty : ∀ t : Ty, ∃ v : Value, t.isDeclared = true → v.fits t = true := by
    intro t
    by_cases ht : t.isDeclared = true
    · obtain ⟨v, hv⟩ := Ty.exists_fits ht
      exact ⟨v, fun _ => hv⟩
    · exact ⟨default, fun h => absurd h ht⟩
  choose some_of hsome using hty
  refine ⟨⟨fun x => some_of x.ty, fun t i j _ => some_of (((t.field? i j).map Prod.snd).getD t)⟩,
    fun x hx => hsome x.ty hx, fun t i j f v ht hf _ => ?_⟩
  simp only [hf, Option.map_some, Option.getD_some]
  exact hsome f.2 (Ty.isDeclared_of_field? ht hf)

end RouteInvariants
