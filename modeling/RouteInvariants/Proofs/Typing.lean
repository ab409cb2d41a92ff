import RouteInvariants.Proofs.Values
import RouteInvariants.Route.Elaborate

/-!
Sorts of terms. `HasTy X Γ t rest ty` says that the term `t`, over the variables in `X` and
arguments of the sorts `Γ`, is of sort `ty` once it has been applied to arguments of the sorts
`rest`; only constructors have any of these left. Terms evaluate to values of their sorts
(`eval_fits`), and a term depends on no other variables than those in `X` (`eval_congr`).
-/

namespace RouteInvariants

/-- The value is of sort `ty` once it has been applied to arguments of the sorts `rest`. -/
def Value.Awaits (v : Value) (rest : List Ty) (ty : Ty) : Prop :=
  v.pending? ty = Option.some rest ∨ rest = [] ∧ v.fits ty = true

theorem Value.awaits_nil {v : Value} {ty : Ty} : v.Awaits [] ty ↔ v.fits ty = true := by
  constructor
  · rintro (h | ⟨-, h⟩)
    · exact fits_of_pending? h
    · exact h
  · exact fun h => .inr ⟨rfl, h⟩

theorem Value.Awaits.app {f a : Value} {s ty : Ty} {rest : List Ty} (hf : f.Awaits (s :: rest) ty)
    (ha : a.fits s = true) : (Value.app f a).Awaits rest ty := by
  rcases hf with hf | ⟨hf, -⟩
  · exact .inl (by rw [pending?, hf]; simp [ha])
  · cases hf

namespace Term

inductive HasTy (X : Variable → Prop) : List Ty → Term → List Ty → Ty → Prop where
  | const {Γ v rest ty} (hd : ty.isDeclared = true) (hv : v.Awaits rest ty) :
    HasTy X Γ (.const v) rest ty
  | var {Γ x} (hx : X x) (hd : x.ty.isDeclared = true) : HasTy X Γ (.var x) [] x.ty
  | arg {Γ : List Ty} {i ty} (hi : Γ[i]? = some ty) : HasTy X Γ (.arg i) [] ty
  | call {Γ body a s ty} (ha : HasTy X Γ a [] s) (hbody : HasTy X [s] body [] ty) :
    HasTy X Γ (.call body a) [] ty
  | call2 {Γ body a b s s' ty} (ha : HasTy X Γ a [] s) (hb : HasTy X Γ b [] s')
    (hbody : HasTy X [s, s'] body [] ty) : HasTy X Γ (.call2 body a b) [] ty
  | ite {Γ c a b ty} (hc : HasTy X Γ c [] .bool) (ha : HasTy X Γ a [] ty)
    (hb : HasTy X Γ b [] ty) : HasTy X Γ (.ite c a b) [] ty
  | not {Γ a} (ha : HasTy X Γ a [] .bool) : HasTy X Γ (.not a) [] .bool
  | and {Γ a b} (ha : HasTy X Γ a [] .bool) (hb : HasTy X Γ b [] .bool) :
    HasTy X Γ (.and a b) [] .bool
  | or {Γ a b} (ha : HasTy X Γ a [] .bool) (hb : HasTy X Γ b [] .bool) :
    HasTy X Γ (.or a b) [] .bool
  | eq {Γ a b s} (ha : HasTy X Γ a [] s) (hb : HasTy X Γ b [] s) : HasTy X Γ (.eq a b) [] .bool
  | le {Γ a b s} (ho : Typed.hasOrder s = true) (ha : HasTy X Γ a [] s) (hb : HasTy X Γ b [] s) :
    HasTy X Γ (.le a b) [] .bool
  | add {Γ a b ty} (ho : Typed.hasOrder ty = true) (ha : HasTy X Γ a [] ty)
    (hb : HasTy X Γ b [] ty) : HasTy X Γ (.add a b) [] ty
  | sub {Γ a b ty} (ho : Typed.hasOrder ty = true) (ha : HasTy X Γ a [] ty)
    (hb : HasTy X Γ b [] ty) : HasTy X Γ (.sub a b) [] ty
  | toReal {Γ a} (ha : HasTy X Γ a [] .int) : HasTy X Γ (.toReal a) [] .real
  | con {Γ i c ty} (hd : ty.isDeclared = true) (hc : ty.ctor? i = some c) :
    HasTy X Γ (.con i) (c.fields.map Prod.snd) ty
  | app {Γ f a s rest ty} (hf : HasTy X Γ f (s :: rest) ty) (ha : HasTy X Γ a [] s) :
    HasTy X Γ (.app f a) rest ty
  | isCon {Γ i a ty} (ht : ty.isData = true) (ha : HasTy X Γ a [] ty) :
    HasTy X Γ (.isCon i a) [] .bool
  | field {Γ owner i j a f} (hf : owner.field? i j = some f) (ha : HasTy X Γ a [] owner) :
    HasTy X Γ (.field owner i j a) [] f.2

variable {X Y : Variable → Prop} {Γ : List Ty} {t : Term} {rest : List Ty} {ty : Ty}

theorem HasTy.mono (hXY : ∀ x, X x → Y x) (h : HasTy X Γ t rest ty) : HasTy Y Γ t rest ty := by
  induction h with
  | const hd hv => exact .const hd hv
  | var hx hd => exact .var (hXY _ hx) hd
  | arg hi => exact .arg hi
  | call _ _ iha ihbody => exact .call iha ihbody
  | call2 _ _ _ iha ihb ihbody => exact .call2 iha ihb ihbody
  | ite _ _ _ ihc iha ihb => exact .ite ihc iha ihb
  | not _ iha => exact .not iha
  | and _ _ iha ihb => exact .and iha ihb
  | or _ _ iha ihb => exact .or iha ihb
  | eq _ _ iha ihb => exact .eq iha ihb
  | le ho _ _ iha ihb => exact .le ho iha ihb
  | add ho _ _ iha ihb => exact .add ho iha ihb
  | sub ho _ _ iha ihb => exact .sub ho iha ihb
  | toReal _ iha => exact .toReal iha
  | con hd hc => exact .con hd hc
  | app _ _ ihf iha => exact .app ihf iha
  | isCon ht _ iha => exact .isCon ht iha
  | field hf _ iha => exact .field hf iha

theorem isDeclared_of_pending? {v : Value} (hd : ty.isDeclared = true)
    (h : v.pending? ty = some rest) : ∀ s ∈ rest, s.isDeclared = true := by
  obtain ⟨i, c, done, hc, -, hdone, -⟩ := Value.pending?_spine h
  intro s hs
  have hmem : s ∈ c.fields.map Prod.snd := hdone ▸ List.mem_append_right done hs
  obtain ⟨f, hf, rfl⟩ := List.mem_map.1 hmem
  exact Ty.isDeclared_of_ctor? hd hc f hf

/-- Terms over arguments of declared sorts are of declared sorts. -/
theorem HasTy.isDeclared (h : HasTy X Γ t rest ty) (hΓ : ∀ s ∈ Γ, s.isDeclared = true) :
    ty.isDeclared = true ∧ ∀ s ∈ rest, s.isDeclared = true := by
  induction h with
  | const hd hv =>
    refine ⟨hd, ?_⟩
    rcases hv with hv | ⟨rfl, -⟩
    · exact isDeclared_of_pending? hd hv
    · simp
  | var _ hd => exact ⟨hd, by simp⟩
  | arg hi => exact ⟨hΓ _ (List.mem_of_getElem? hi), by simp⟩
  | call _ _ iha ihbody => exact ihbody (by simpa using (iha hΓ).1)
  | call2 _ _ _ iha ihb ihbody => exact ihbody (by simpa using ⟨(iha hΓ).1, (ihb hΓ).1⟩)
  | ite _ _ _ _ iha _ => exact iha hΓ
  | add _ _ _ iha _ => exact iha hΓ
  | sub _ _ _ iha _ => exact iha hΓ
  | con hd hc =>
    refine ⟨hd, fun s hs => ?_⟩
    obtain ⟨f, hf, rfl⟩ := List.mem_map.1 hs
    exact Ty.isDeclared_of_ctor? hd hc f hf
  | app _ _ ihf _ => exact ⟨(ihf hΓ).1, fun s hs => (ihf hΓ).2 s (List.mem_cons_of_mem _ hs)⟩
  | field hf _ iha => exact ⟨Ty.isDeclared_of_field? (iha hΓ).1 hf, by simp⟩
  | _ => exact ⟨rfl, by simp⟩

/-- A constructor applied to arguments of the sorts that it awaits. -/
theorem HasTy.foldl_app {f : Term} {tys : List Ty} {ts : List Term}
    (hf : HasTy X Γ f (tys ++ rest) ty)
    (h : List.Forall₂ (fun s t => HasTy X Γ t [] s) tys ts) :
    HasTy X Γ (ts.foldl Term.app f) rest ty := by
  induction h generalizing f with
  | nil => exact hf
  | cons ht _ ih => exact ih (.app hf ht)

/-! ### Values of terms -/

variable {σ τ : Assignment} {args : List Value}

/-- A field that the value has is of the field's sort. -/
theorem fits_args_getElem? {v : Value} {i j : Nat} {f : String × Ty} (hf : ty.field? i j = some f)
    (hv : v.fits ty = true) (hi : v.head? = some i) :
    (v.args[j]?.getD default).fits f.2 = true := by
  rw [Ty.field?, Option.bind_eq_some_iff] at hf
  obtain ⟨c, hc, hf⟩ := hf
  have ht : ty.isData = true := by
    cases ty <;> simp [Ty.ctor?, Ty.ctors, Ty.isData] at hc ⊢
  obtain ⟨k, c', hc', hk, hall⟩ := Value.fits_data ht hv
  have hik : k = i := by
    rw [hk, Value.head?_built] at hi
    exact Option.some.inj hi
  subst hik
  rw [hc] at hc'
  cases hc'
  have hlen := hall.length_eq
  have hj : j < v.args.length := by
    rw [← hlen, List.length_map]
    exact (List.getElem?_eq_some_iff.1 hf).1
  have hfit := List.forall₂_iff_get.1 hall |>.2 j (hlen ▸ hj) hj
  rw [List.getElem?_eq_getElem hj, Option.getD_some]
  have hfj := (List.getElem?_eq_some_iff.1 hf).2
  simpa [hfj] using hfit

/-- Terms evaluate to values of their sorts. -/
theorem HasTy.eval_awaits (h : HasTy X Γ t rest ty) (hσ : σ.WellSorted)
    (hΓ : ∀ s ∈ Γ, s.isDeclared = true)
    (hargs : List.Forall₂ (fun s v => Value.fits s v = true) Γ args) :
    (t.eval σ args).Awaits rest ty := by
  induction h generalizing args with
  | const _ hv => exact hv
  | var _ hd => exact Value.awaits_nil.2 (hσ.value _ hd)
  | @arg Γ i ty hi =>
    obtain ⟨hi', rfl⟩ := List.getElem?_eq_some_iff.1 hi
    have hlen := hargs.length_eq
    rw [eval, List.getElem?_eq_getElem (hlen ▸ hi'), Option.getD_some]
    exact Value.awaits_nil.2 (by simpa using (List.forall₂_iff_get.1 hargs).2 i hi' (hlen ▸ hi'))
  | call ha _ iha ihbody =>
    exact ihbody (by simpa using (ha.isDeclared hΓ).1)
      (.cons (Value.awaits_nil.1 (iha hΓ hargs)) .nil)
  | call2 ha hb _ iha ihb ihbody =>
    exact ihbody (by simpa using ⟨(ha.isDeclared hΓ).1, (hb.isDeclared hΓ).1⟩)
      (.cons (Value.awaits_nil.1 (iha hΓ hargs)) (.cons (Value.awaits_nil.1 (ihb hΓ hargs)) .nil))
  | ite _ _ _ _ iha ihb =>
    rw [eval]
    split
    · exact iha hΓ hargs
    · exact ihb hΓ hargs
  | add _ _ _ iha _ =>
    exact Value.awaits_nil.2 (Value.fits_add (Value.awaits_nil.1 (iha hΓ hargs)))
  | sub _ _ _ iha _ =>
    exact Value.awaits_nil.2 (Value.fits_sub (Value.awaits_nil.1 (iha hΓ hargs)))
  | toReal _ iha =>
    exact Value.awaits_nil.2 (Value.fits_toReal (Value.awaits_nil.1 (iha hΓ hargs)))
  | @con Γ i c ty _ hc =>
    have hp : Value.pending? ty (.con i) = some (c.fields.map Prod.snd) := by
      rw [Value.pending?, hc, Option.map_some]
    exact .inl hp
  | app _ _ ihf iha => exact (ihf hΓ hargs).app (Value.awaits_nil.1 (iha hΓ hargs))
  | field hf ha iha =>
    have hv := Value.awaits_nil.1 (iha hΓ hargs)
    rw [eval]
    split
    · rename_i hi
      exact Value.awaits_nil.2 (fits_args_getElem? hf hv hi)
    · exact Value.awaits_nil.2 (hσ.absent _ _ _ _ _ (ha.isDeclared hΓ).1 hf hv)
  | _ => exact Value.awaits_nil.2 rfl

theorem eval_foldl_app (ts : List Term) (f : Term) :
    (ts.foldl Term.app f).eval σ args = (ts.map (eval σ args)).foldl Value.app (f.eval σ args) := by
  induction ts generalizing f with
  | nil => rfl
  | cons t ts ih => exact ih (.app f t)

theorem HasTy.eval_fits (h : HasTy X [] t [] ty) (hσ : σ.WellSorted) :
    (t.eval σ []).fits ty = true :=
  Value.awaits_nil.1 (h.eval_awaits hσ (by simp) .nil)

/-- Assignments that give the same values to the variables in `X`. -/
structure AgreeOn (X : Variable → Prop) (σ τ : Assignment) : Prop where
  value : ∀ x, X x → σ.value x = τ.value x
  absent : σ.absent = τ.absent

theorem HasTy.eval_congr (h : HasTy X Γ t rest ty) (hστ : AgreeOn X σ τ) :
    t.eval σ args = t.eval τ args := by
  induction h generalizing args with
  | const => rfl
  | var hx _ => exact hστ.value _ hx
  | arg => rfl
  | call _ _ iha ihbody => rw [eval, eval, iha, ihbody]
  | call2 _ _ _ iha ihb ihbody => rw [eval, eval, iha, ihb, ihbody]
  | ite _ _ _ ihc iha ihb => rw [eval, eval, ihc, iha, ihb]
  | not _ iha => rw [eval, eval, iha]
  | and _ _ iha ihb => rw [eval, eval, iha, ihb]
  | or _ _ iha ihb => rw [eval, eval, iha, ihb]
  | eq _ _ iha ihb => rw [eval, eval, iha, ihb]
  | le _ _ _ iha ihb => rw [eval, eval, iha, ihb]
  | add _ _ _ iha ihb => rw [eval, eval, iha, ihb]
  | sub _ _ _ iha ihb => rw [eval, eval, iha, ihb]
  | toReal _ iha => rw [eval, eval, iha]
  | con => rfl
  | app _ _ ihf iha => rw [eval, eval, ihf, iha]
  | isCon _ _ iha => rw [eval, eval, iha]
  | field _ _ iha => simp only [eval, iha, hστ.absent]

end Term

end RouteInvariants
