import RouteInvariants.Decision.Unfold
import RouteInvariants.Proofs.Typing

/-!
Folding of constants. Each operation that builds the term of a case builds one of the sort of the
operands, and the term has the value that the operation has on their values: sums (`plus_spec`),
differences, integers as reals, applications of constructors and the atoms of the order
(`leAtom_spec`).
-/

namespace RouteInvariants

/-- Sorts whose sums do not depend on the order of the summands. -/
def Ty.isNumeric (t : Ty) : Bool := Typed.isArithmetic t || Typed.isBits t

theorem Ty.hasOrder_iff {t : Ty} :
    Typed.hasOrder t = true ↔ t = .text ∨ t.isNumeric = true := by
  cases t <;> simp [Typed.hasOrder, isNumeric, Typed.isArithmetic, Typed.isBits]

/-! ### Arithmetic of values -/

namespace CodePoint

theorem le_append (cs as bs : List CodePoint) :
    le (cs ++ as) (cs ++ bs) = le as bs := by
  induction cs with
  | nil => rfl
  | cons c cs ih => simp [le, ih]

theorem le_self_append (cs bs : List CodePoint) : le cs (cs ++ bs) = true := by
  simpa [le] using le_append cs [] bs

end CodePoint

namespace Value

variable {ty : Ty} {u v w : Value}

def codePoints : Value → List CodePoint
  | text cs => cs
  | _ => []

theorem eq_text (h : v.fits .text = true) : v = text v.codePoints := by
  obtain ⟨cs, rfl⟩ := shape_of_fits h
  rfl

theorem sort?_eq (h : v.fits ty = true) {s : Ty} (hs : v.sort? = Option.some s) : s = ty := by
  cases v <;> cases ty <;> simp_all [sort?, fits]

theorem sort?_of_hasOrder (ho : Typed.hasOrder ty = true) (h : v.fits ty = true) :
    v.sort? = Option.some ty := by
  have h := shape_of_fits h
  cases ty <;> simp only [Typed.hasOrder, Bool.false_eq_true] at ho
  all_goals
    obtain ⟨x, rfl⟩ := h
    rfl

theorem add_assoc (ho : Typed.hasOrder ty = true) (hu : u.fits ty = true) (hv : v.fits ty = true)
    (hw : w.fits ty = true) : (u.add v).add w = u.add (v.add w) := by
  have hu := shape_of_fits hu
  have hv := shape_of_fits hv
  have hw := shape_of_fits hw
  cases ty <;> simp only [Typed.hasOrder, Bool.false_eq_true] at ho
  all_goals
    obtain ⟨x, rfl⟩ := hu
    obtain ⟨y, rfl⟩ := hv
    obtain ⟨z, rfl⟩ := hw
    simp [add, Int.add_assoc, Rat.add_assoc, BitVec.add_assoc]

theorem add_comm (hn : ty.isNumeric = true) (hu : u.fits ty = true) (hv : v.fits ty = true) :
    u.add v = v.add u := by
  have hu := shape_of_fits hu
  have hv := shape_of_fits hv
  cases ty <;> simp [Ty.isNumeric, Typed.isArithmetic, Typed.isBits] at hn
  all_goals
    obtain ⟨x, rfl⟩ := hu
    obtain ⟨y, rfl⟩ := hv
    simp [add, Int.add_comm, Rat.add_comm, BitVec.add_comm]

theorem add_of_isZero (hn : ty.isNumeric = true) (hu : u.fits ty = true) (hv : v.fits ty = true)
    (hz : v.isZero = true) : u.add v = u := by
  have hu := shape_of_fits hu
  have hv := shape_of_fits hv
  cases ty <;> simp [Ty.isNumeric, Typed.isArithmetic, Typed.isBits] at hn
  all_goals
    obtain ⟨x, rfl⟩ := hu
    obtain ⟨y, rfl⟩ := hv
    simp only [isZero, beq_iff_eq] at hz
  · simp [add, hz]
  · rw [hz]
    exact congrArg Value.real (Rat.add_zero _)
  · have hy : y = 0 := BitVec.eq_of_toNat_eq (by simpa using hz)
    simp [add, hy]

theorem isNumeric_of_isNumber (hn : v.isNumber = true) (hv : v.fits ty = true) :
    ty.isNumeric = true := by
  cases v <;> cases ty <;> simp_all [isNumber, fits, Ty.isNumeric, Typed.isArithmetic, Typed.isBits]

theorem fits_negate (h : v.fits ty = true) : v.negate.fits ty = true := by
  unfold negate
  split <;> cases ty <;> simp_all [fits]

theorem sub_eq_add_negate (hn : ty.isNumeric = true) (hu : u.fits ty = true)
    (hv : v.fits ty = true) : u.sub v = u.add v.negate := by
  have hu := shape_of_fits hu
  have hv := shape_of_fits hv
  cases ty <;> simp [Ty.isNumeric, Typed.isArithmetic, Typed.isBits] at hn
  all_goals
    obtain ⟨x, rfl⟩ := hu
    obtain ⟨y, rfl⟩ := hv
    simp [sub, add, negate, Int.sub_eq_add_neg, Rat.sub_eq_add_neg, BitVec.sub_eq_add_neg]

/-! ### The order of values -/

theorem le_refl (ho : Typed.hasOrder ty = true) (hv : v.fits ty = true) : v.le v = true := by
  have hv := shape_of_fits hv
  cases ty <;> simp only [Typed.hasOrder, Bool.false_eq_true] at ho
  all_goals obtain ⟨x, rfl⟩ := hv
  · simp [le]
  · simp [le]
  · simpa [le] using CodePoint.le_self_append x []
  · simp [le, BitVec.sle]

/-- Numbers that are not less than each other are the same. -/
theorem eq_iff_le_le (hn : Typed.isArithmetic ty = true) (hu : u.fits ty = true)
    (hv : v.fits ty = true) : u = v ↔ u.le v = true ∧ v.le u = true := by
  have hu := shape_of_fits hu
  have hv := shape_of_fits hv
  cases ty <;> simp [Typed.isArithmetic] at hn
  all_goals
    obtain ⟨x, rfl⟩ := hu
    obtain ⟨y, rfl⟩ := hv
    simp only [le, decide_eq_true_eq]
  · rw [int.injEq]
    omega
  · rw [real.injEq]
    exact ⟨fun h => h ▸ ⟨Rat.le_refl, Rat.le_refl⟩, fun h => Rat.le_antisymm h.1 h.2⟩

/-- Comparison of sums, with the second summands moved to one side. -/
theorem le_offsets (hn : Typed.isArithmetic ty = true) {x y : Value} (hu : u.fits ty = true)
    (hv : v.fits ty = true) (hx : x.fits ty = true) (hy : y.fits ty = true) :
    (u.add v).le (x.add y) = u.le (x.add (y.sub v)) ∧ (u.add v).le y = u.le (y.sub v) ∧
      v.le (x.add y) = (v.sub y).le x ∧ (u.add v).le (u.add y) = v.le y := by
  have hu := shape_of_fits hu
  have hv := shape_of_fits hv
  have hx := shape_of_fits hx
  have hy := shape_of_fits hy
  cases ty <;> simp [Typed.isArithmetic] at hn
  all_goals
    obtain ⟨a, rfl⟩ := hu
    obtain ⟨b, rfl⟩ := hv
    obtain ⟨c, rfl⟩ := hx
    obtain ⟨d, rfl⟩ := hy
    simp only [add, sub, le, decide_eq_decide]
  · omega
  · grind

end Value

/-! ### Sorts of terms -/

namespace Term

variable {X : Variable → Prop} {Γ : List Ty} {a b t : Term} {rest : List Ty} {s ty : Ty}

theorem HasTy.of_const {v : Value} (h : HasTy X Γ (.const v) [] ty) : v.fits ty = true := by
  cases h with
  | const _ hv => exact Value.awaits_nil.1 hv

theorem HasTy.of_con {i : Nat} (h : HasTy X Γ (.con i) rest ty) :
    HasTy X Γ (.const (.con i)) rest ty := by
  generalize ht : Term.con i = t at h
  cases h with
  | con hd hc =>
    cases ht
    exact .const hd (.inl (by rw [Value.pending?, hc, Option.map_some]))
  | _ => cases ht

theorem isDeclared_of_hasOrder (ho : Typed.hasOrder ty = true) : ty.isDeclared = true := by
  cases ty <;> first | rfl | cases ho

theorem isData_of_hasOrder (ho : Typed.hasOrder ty = true) : ty.isData = false := by
  cases ty <;> first | rfl | cases ho

/-- The sort that a term shows is the one that it has. -/
theorem HasTy.sort?_eq (h : HasTy X Γ t rest ty) (hs : t.sort? = some s) : s = ty := by
  induction h with
  | @const Γ v rest ty _ hv =>
    rcases hv with hv | ⟨-, hv⟩
    · cases v <;> simp [Value.pending?, sort?, Value.sort?] at hv hs
    · exact Value.sort?_eq hv hs
  | var => exact (Option.some.inj hs).symm
  | add _ _ _ iha ihb =>
    rw [sort?] at hs
    split at hs
    · rename_i ha
      exact iha (ha.trans hs)
    · exact ihb hs
  | sub _ _ _ iha _ => exact iha hs
  | field hf _ _ =>
    rw [sort?, hf] at hs
    exact (Option.some.inj hs).symm
  | toReal | not | and | or | eq | le | isCon => exact (Option.some.inj hs).symm
  | arg | call | call2 | ite | con | app => cases hs

/-- The sort of two operands, as far as one of them shows it. -/
theorem add_sort?_eq (ha : HasTy X Γ a [] ty) (hb : HasTy X Γ b [] ty)
    (hs : (add a b).sort? = some s) : s = ty := by
  rw [sort?] at hs
  split at hs
  · rename_i h
    exact ha.sort?_eq (h.trans hs)
  · exact hb.sort?_eq hs

/-- A constant shows the sort of both operands, where the sort has an order. -/
theorem add_sort?_of_const (ho : Typed.hasOrder ty = true) (ha : HasTy X Γ a [] ty)
    (hb : HasTy X Γ b [] ty) (hc : (∃ v, a = .const v) ∨ ∃ v, b = .const v) :
    (add a b).sort? = some ty := by
  rw [sort?]
  split
  · rename_i h
    rw [ha.sort?_eq h]
  · rename_i h
    rcases hc with ⟨v, rfl⟩ | ⟨v, rfl⟩
    · rw [sort?, Value.sort?_of_hasOrder ho ha.of_const] at h
      cases h
    · rw [sort?, Value.sort?_of_hasOrder ho hb.of_const]

/-! ### Joined texts -/

section Folding

variable {σ : Assignment} (hσ : σ.WellSorted)
include hσ

/-- The text that terms make one after the other. -/
def spelled (σ : Assignment) (ts : List Term) : List CodePoint :=
  ts.flatMap fun t => (t.eval σ []).codePoints

theorem HasTy.eval_text (h : HasTy X [] t [] .text) :
    t.eval σ [] = .text (t.eval σ []).codePoints :=
  Value.eq_text (h.eval_fits hσ)

theorem pieces_spec (h : HasTy X [] t [] .text) :
    (∀ p ∈ t.pieces, HasTy X [] p [] .text) ∧ t.eval σ [] = .text (spelled σ t.pieces) := by
  fun_induction pieces t with
  | case1 a b iha ihb =>
    cases h with
    | add _ ha hb =>
      obtain ⟨hap, hav⟩ := iha ha
      obtain ⟨hbp, hbv⟩ := ihb hb
      refine ⟨List.forall_mem_append.2 ⟨hap, hbp⟩, ?_⟩
      rw [eval, hav, hbv, Value.add, spelled, spelled, spelled, List.flatMap_append]
  | case2 => exact ⟨by simp, rfl⟩
  | case3 t _ _ =>
    refine ⟨by simpa using h, ?_⟩
    rw [spelled, List.flatMap_singleton]
    exact h.eval_text hσ

theorem append_spec (ha : HasTy X [] a [] .text) (hb : HasTy X [] b [] .text) :
    HasTy X [] (append a b) [] .text ∧
      (append a b).eval σ [] = (a.eval σ []).add (b.eval σ []) := by
  unfold append
  split
  · exact ⟨.const rfl (Value.awaits_nil.2 (Value.fits_add ha.of_const)), rfl⟩
  · cases ha with
    | add _ hu hv =>
      have hvw := Value.fits_add (b := by assumption) hv.of_const
      refine ⟨.add rfl hu (.const rfl (Value.awaits_nil.2 hvw)), ?_⟩
      exact (Value.add_assoc rfl (hu.eval_fits hσ) hv.of_const hb.of_const).symm
  · exact ⟨.add rfl ha hb, rfl⟩

theorem foldl_append_spec {ps : List Term} (hps : ∀ p ∈ ps, HasTy X [] p [] .text)
    (ht : HasTy X [] t [] .text) :
    HasTy X [] (ps.foldl append t) [] .text ∧
      (ps.foldl append t).eval σ [] = .text ((t.eval σ []).codePoints ++ spelled σ ps) := by
  induction ps generalizing t with
  | nil => exact ⟨ht, by simpa [spelled] using ht.eval_text hσ⟩
  | cons p ps ih =>
    rw [List.forall_mem_cons] at hps
    obtain ⟨htp, hval⟩ := append_spec hσ ht hps.1
    obtain ⟨hty, heval⟩ := ih hps.2 htp
    refine ⟨hty, heval.trans ?_⟩
    rw [hval, ht.eval_text hσ, hps.1.eval_text hσ]
    simp [spelled, Value.add, Value.codePoints]

theorem joined_spec {ps : List Term} (hps : ∀ p ∈ ps, HasTy X [] p [] .text) :
    HasTy X [] (joined ps) [] .text ∧ (joined ps).eval σ [] = .text (spelled σ ps) := by
  cases ps with
  | nil => exact ⟨.const rfl (Value.awaits_nil.2 rfl), rfl⟩
  | cons p ps =>
    rw [List.forall_mem_cons] at hps
    exact foldl_append_spec hσ hps.2 hps.1

/-! ### Sums, differences and applications -/

theorem plusConst_spec {w : Value} (hn : ty.isNumeric = true) (ha : HasTy X [] a [] ty)
    (hw : w.fits ty = true) :
    HasTy X [] (plus.plusConst a w) [] ty ∧
      (plus.plusConst a w).eval σ [] = (a.eval σ []).add w := by
  have ho := Ty.hasOrder_iff.2 (.inr hn)
  have hd := isDeclared_of_hasOrder ho
  unfold plus.plusConst
  split
  · rename_i u v
    cases ha with
    | add _ hu hv =>
      have hvw := Value.fits_add (b := w) hv.of_const
      have hassoc := Value.add_assoc ho (hu.eval_fits hσ) hv.of_const hw
      dsimp only
      split
      · rename_i hz
        refine ⟨hu, ?_⟩
        rw [eval, eval, hassoc, Value.add_of_isZero hn (hu.eval_fits hσ) hvw hz]
      · exact ⟨.add ho hu (.const hd (Value.awaits_nil.2 hvw)), hassoc.symm⟩
  · split
    · rename_i hz
      exact ⟨ha, (Value.add_of_isZero hn (ha.eval_fits hσ) hw hz).symm⟩
    · exact ⟨.add ho ha (.const hd (Value.awaits_nil.2 hw)), rfl⟩

theorem plus_spec (ho : Typed.hasOrder ty = true) (ha : HasTy X [] a [] ty)
    (hb : HasTy X [] b [] ty) :
    HasTy X [] (plus a b) [] ty ∧ (plus a b).eval σ [] = (a.eval σ []).add (b.eval σ []) := by
  unfold plus
  split
  · rename_i hs
    obtain rfl := add_sort?_eq ha hb hs
    obtain ⟨hap, hav⟩ := pieces_spec hσ ha
    obtain ⟨hbp, hbv⟩ := pieces_spec hσ hb
    obtain ⟨hty, hval⟩ := joined_spec hσ (List.forall_mem_append.2 ⟨hap, hbp⟩)
    refine ⟨hty, hval.trans ?_⟩
    rw [hav, hbv, Value.add, spelled, spelled, spelled, List.flatMap_append]
  · rename_i hs
    -- with a constant among them the operands are numbers
    have numeric : ((∃ v, a = .const v) ∨ ∃ v, b = .const v) → ty.isNumeric = true := by
      intro hc
      rcases Ty.hasOrder_iff.1 ho with rfl | hn
      · exact absurd (add_sort?_of_const ho ha hb hc) hs
      · exact hn
    split
    · have hd := isDeclared_of_hasOrder ho
      exact ⟨.const hd (Value.awaits_nil.2 (Value.fits_add ha.of_const)), rfl⟩
    · have hn := numeric (.inl ⟨_, rfl⟩)
      obtain ⟨hty, hval⟩ := plusConst_spec hσ hn hb ha.of_const
      exact ⟨hty, hval.trans (Value.add_comm hn (hb.eval_fits hσ) ha.of_const)⟩
    · exact plusConst_spec hσ (numeric (.inr ⟨_, rfl⟩)) ha hb.of_const
    · exact ⟨.add ho ha hb, rfl⟩

theorem minus_spec (ho : Typed.hasOrder ty = true) (ha : HasTy X [] a [] ty)
    (hb : HasTy X [] b [] ty) :
    HasTy X [] (minus a b) [] ty ∧ (minus a b).eval σ [] = (a.eval σ []).sub (b.eval σ []) := by
  have hd := isDeclared_of_hasOrder ho
  unfold minus
  split
  · exact ⟨.const hd (Value.awaits_nil.2 (Value.fits_sub ha.of_const)), rfl⟩
  · split
    · rename_i hw
      have hn := Value.isNumeric_of_isNumber hw hb.of_const
      have hneg := Value.fits_negate hb.of_const
      obtain ⟨hty, hval⟩ := plus_spec hσ ho ha
        (.const hd (Value.awaits_nil.2 hneg))
      exact ⟨hty, hval.trans
        (Value.sub_eq_add_negate hn (ha.eval_fits hσ) hb.of_const).symm⟩
    · exact ⟨.sub ho ha hb, rfl⟩
  · exact ⟨.sub ho ha hb, rfl⟩

theorem asReal_spec (ha : HasTy X [] a [] .int) :
    HasTy X [] (asReal a) [] .real ∧ (asReal a).eval σ [] = (a.eval σ []).toReal := by
  unfold asReal
  split
  · exact ⟨.const rfl (Value.awaits_nil.2 (Value.fits_toReal ha.of_const)), rfl⟩
  · rename_i u n
    cases ha with
    | add _ hu _ =>
      obtain ⟨hty, hval⟩ := plus_spec (b := .const (.real n)) hσ rfl (.toReal hu)
        (.const rfl (Value.awaits_nil.2 rfl))
      refine ⟨hty, hval.trans ?_⟩
      obtain ⟨m, hm⟩ := Value.shape_of_fits (hu.eval_fits hσ)
      simp [eval, hm, Value.toReal, Value.add]
  · exact ⟨.toReal ha, rfl⟩

omit hσ in
theorem apply_spec (ha : HasTy X [] a (s :: rest) ty) (hb : HasTy X [] b [] s) :
    HasTy X [] (apply a b) rest ty ∧
      (apply a b).eval σ [] = .app (a.eval σ []) (b.eval σ []) := by
  unfold apply
  split
  · cases ha with
    | const hd hv => exact ⟨.const hd (hv.app hb.of_const), rfl⟩
  · cases ha.of_con with
    | const hd hv => exact ⟨.const hd (hv.app hb.of_const), rfl⟩
  · exact ⟨.app ha hb, rfl⟩

/-! ### The order -/

/-- What the offset of a term is told apart into. -/
theorem offset_spec {zero : Value} (hn : Typed.isArithmetic ty = true) (hz : zero.fits ty = true)
    (hzero : zero.isZero = true) (ha : HasTy X [] a [] ty) :
    (offset zero a).2.fits ty = true ∧ match (offset zero a).1 with
      | none => a.eval σ [] = (offset zero a).2
      | some u => HasTy X [] u [] ty ∧ a.eval σ [] = (u.eval σ []).add (offset zero a).2 := by
  have hnum : ty.isNumeric = true := by simp [Ty.isNumeric, hn]
  unfold offset
  split
  · exact ⟨ha.of_const, rfl⟩
  · cases ha with
    | add _ hu hv => exact ⟨hv.of_const, hu, rfl⟩
  · exact ⟨hz, ha, (Value.add_of_isZero hnum (ha.eval_fits hσ) hz hzero).symm⟩

theorem orderAtom_spec {zero : Value} (hn : Typed.isArithmetic ty = true)
    (hz : zero.fits ty = true) (hzero : zero.isZero = true) (ha : HasTy X [] a [] ty)
    (hb : HasTy X [] b [] ty) :
    HasTy X [] (orderAtom zero a b) [] .bool ∧
      (orderAtom zero a b).eval σ [] = .bool ((a.eval σ []).le (b.eval σ [])) := by
  have ho : Typed.hasOrder ty = true := Ty.hasOrder_iff.2 (.inr (by simp [Ty.isNumeric, hn]))
  have hd := isDeclared_of_hasOrder ho
  have constant : ∀ {v : Value}, v.fits ty = true → HasTy X [] (.const v) [] ty :=
    fun hv => .const hd (Value.awaits_nil.2 hv)
  obtain ⟨hv, hav⟩ := offset_spec hσ hn hz hzero ha
  obtain ⟨hw, hbw⟩ := offset_spec hσ hn hz hzero hb
  unfold orderAtom
  generalize offset zero a = p at *
  generalize offset zero b = q at *
  obtain ⟨p, v⟩ := p
  obtain ⟨q, w⟩ := q
  cases p with
  | none =>
    cases q with
    | none => exact ⟨.const rfl (Value.awaits_nil.2 rfl), by rw [hav, hbw]; rfl⟩
    | some x =>
      obtain ⟨hx, hbw⟩ := hbw
      have hx' := hx.eval_fits hσ
      refine ⟨.le ho (constant (Value.fits_sub hv)) hx, ?_⟩
      rw [hav, hbw, (Value.le_offsets hn hx' hv hx' hw).2.2.1]
      rfl
  | some u =>
    obtain ⟨hu, hav⟩ := hav
    have hu' := hu.eval_fits hσ
    cases q with
    | none =>
      refine ⟨.le ho hu (constant (Value.fits_sub hw)), ?_⟩
      rw [hav, hbw, (Value.le_offsets hn hu' hv hu' hw).2.1]
      rfl
    | some x =>
      obtain ⟨hx, hbw⟩ := hbw
      have hx' := hx.eval_fits hσ
      rw [hav, hbw]
      dsimp only
      split
      · rename_i hux
        subst hux
        refine ⟨.const rfl (Value.awaits_nil.2 rfl), ?_⟩
        rw [(Value.le_offsets hn hu' hv hu' hw).2.2.2]
        rfl
      · obtain ⟨hty, hval⟩ := plus_spec hσ ho hx (constant (Value.fits_sub (b := v) hw))
        refine ⟨.le ho hu hty, ?_⟩
        rw [eval, hval, (Value.le_offsets hn hu' hv hx' hw).1]
        rfl

/-- The letters of a text: terms that make it one after the other, constants being one character. -/
theorem letters_spec (h : HasTy X [] t [] .text) :
    (∀ p ∈ t.letters, HasTy X [] p [] .text ∧ ∀ v, p = .const v → ∃ c, v = .text [c]) ∧
      t.eval σ [] = .text (spelled σ t.letters) := by
  obtain ⟨hps, hval⟩ := pieces_spec hσ h
  rw [hval, letters]
  generalize t.pieces = ps at *
  clear hval h
  induction ps with
  | nil => exact ⟨by simp, rfl⟩
  | cons p ps ih =>
    rw [List.forall_mem_cons] at hps
    obtain ⟨hletters, hspelled⟩ := ih hps.2
    rw [List.flatMap_cons, List.forall_mem_append]
    rw [Value.text.injEq] at hspelled ⊢
    have hp := hps.1
    have hhead : spelled σ (p :: ps) = (p.eval σ []).codePoints ++ spelled σ ps := rfl
    rw [hhead, hspelled, spelled, spelled, List.flatMap_append]
    split
    · rename_i cs
      refine ⟨⟨?_, hletters⟩, ?_⟩
      · intro q hq
        obtain ⟨c, -, rfl⟩ := List.mem_map.1 hq
        exact ⟨.const rfl (Value.awaits_nil.2 rfl), fun v hv => ⟨c, by cases hv; rfl⟩⟩
      · congr 1
        simp [eval, Value.codePoints, List.flatMap_map]
    · rename_i hne
      refine ⟨⟨?_, hletters⟩, by simp⟩
      intro q hq
      obtain rfl := List.mem_singleton.1 hq
      refine ⟨hp, fun v hv => ?_⟩
      subst hv
      exact absurd (by rw [← Value.eq_text hp.of_const]) (hne v.codePoints)

omit hσ in
theorem dropCommon_spec (xs ys : List Term) : ∃ zs,
    xs = zs ++ (dropCommon xs ys).1 ∧ ys = zs ++ (dropCommon xs ys).2 ∧
      ∀ x y xs' ys', dropCommon xs ys = (x :: xs', y :: ys') → x ≠ y := by
  fun_induction dropCommon xs ys with
  | case1 xs x ys ih =>
    obtain ⟨zs, hxs, hys, hne⟩ := ih
    exact ⟨x :: zs, by rw [List.cons_append, ← hxs], by rw [List.cons_append, ← hys], hne⟩
  | case2 x xs y ys hxy =>
    refine ⟨[], rfl, rfl, fun x' y' xs' ys' h => ?_⟩
    cases h
    exact hxy
  | case3 xs ys hne =>
    refine ⟨[], rfl, rfl, fun x' y' xs' ys' h => ?_⟩
    cases h
    exact absurd rfl (hne _ _ _ _ rfl)

theorem textOrderAtom_spec (ha : HasTy X [] a [] .text) (hb : HasTy X [] b [] .text) :
    HasTy X [] (textOrderAtom a b) [] .bool ∧
      (textOrderAtom a b).eval σ [] = .bool ((a.eval σ []).le (b.eval σ [])) := by
  obtain ⟨hal, hav⟩ := letters_spec hσ ha
  obtain ⟨hbl, hbv⟩ := letters_spec hσ hb
  obtain ⟨zs, hxs, hys, hne⟩ := dropCommon_spec a.letters b.letters
  have constant : ∀ c : Bool, HasTy X [] (.bool c) [] .bool := fun c =>
    .const rfl (Value.awaits_nil.2 rfl)
  unfold textOrderAtom
  generalize dropCommon a.letters b.letters = p at *
  obtain ⟨xs, ys⟩ := p
  dsimp only at hxs hys
  rw [hxs, List.forall_mem_append] at hal
  rw [hys, List.forall_mem_append] at hbl
  -- what the texts have in common does not matter
  have hle : (a.eval σ []).le (b.eval σ []) = CodePoint.le (spelled σ xs) (spelled σ ys) := by
    rw [hav, hbv, hxs, hys, Value.le, spelled, List.flatMap_append, spelled, List.flatMap_append,
      CodePoint.le_append]
    rfl
  rw [hle]
  split
  · rename_i h
    cases h
    exact ⟨constant true, by simp [spelled, CodePoint.le, tt, bool, eval]⟩
  · rename_i v xs' w ys' h
    cases h
    obtain ⟨c, rfl⟩ := (hal.2 _ List.mem_cons_self).2 _ rfl
    obtain ⟨d, rfl⟩ := (hbl.2 _ List.mem_cons_self).2 _ rfl
    have hcd : c ≠ d := by
      rintro rfl
      exact hne _ _ _ _ rfl rfl
    exact ⟨constant _, by simp [spelled, eval, bool, Value.codePoints, Value.le, CodePoint.le, hcd]⟩
  · rename_i v xs' h
    cases h
    obtain ⟨c, rfl⟩ := (hal.2 _ List.mem_cons_self).2 _ rfl
    exact ⟨constant false, by simp [spelled, eval, ff, bool, Value.codePoints, CodePoint.le]⟩
  · rename_i h
    cases h
    obtain ⟨hxty, hxval⟩ := joined_spec hσ fun p hp => (hal.2 p hp).1
    obtain ⟨hyty, hyval⟩ := joined_spec hσ fun p hp => (hbl.2 p hp).1
    exact ⟨.le rfl hxty hyty, by rw [eval, hxval, hyval, Value.le]⟩

theorem leAtom_spec (ho : Typed.hasOrder ty = true) (ha : HasTy X [] a [] ty)
    (hb : HasTy X [] b [] ty) :
    HasTy X [] (leAtom a b) [] .bool ∧
      (leAtom a b).eval σ [] = .bool ((a.eval σ []).le (b.eval σ [])) := by
  unfold leAtom
  split
  · exact ⟨.const rfl (Value.awaits_nil.2 rfl), rfl⟩
  · split
    · rename_i hab
      subst hab
      refine ⟨.const rfl (Value.awaits_nil.2 rfl), ?_⟩
      rw [Value.le_refl ho (ha.eval_fits hσ)]
      rfl
    · split
      · rename_i hs
        obtain rfl := add_sort?_eq ha hb hs
        exact orderAtom_spec hσ rfl rfl rfl ha hb
      · rename_i hs
        obtain rfl := add_sort?_eq ha hb hs
        exact orderAtom_spec hσ rfl rfl rfl ha hb
      · rename_i hs
        obtain rfl := add_sort?_eq ha hb hs
        exact textOrderAtom_spec hσ ha hb
      · exact ⟨.le ho ha hb, rfl⟩

end Folding

end Term

end RouteInvariants
