import RouteInvariants.Proofs.FailedEdges

/-!
Witness times: integers that are given, or symbolic times that a network declares, each restricted to
be after the one before. Under all values that are allowed they are ascending integers from zero on
(`WitnessTimes.ascendAt`).
-/

namespace RouteInvariants

/-! ### Symbolic times -/

namespace Symbolic

variable {σ : Assignment} {s : Symbolic}

/-- The number that a symbolic time is assigned. -/
def numberAt (σ : Assignment) (s : Symbolic) : ℤ :=
  match σ.value s.unknown with
  | .int k => k
  | _ => 0

theorem value_eq_numberAt (hσ : σ.WellSorted) (hty : s.ty = .int) :
    σ.value s.unknown = .int (s.numberAt σ) := by
  have hdeclared : s.unknown.ty.isDeclared = true := by
    rw [show s.unknown.ty = .int from hty]
    rfl
  have hfits := hσ.value s.unknown hdeclared
  rw [show s.unknown.ty = .int from hty] at hfits
  obtain ⟨k, hk⟩ := Value.shape_of_fits hfits
  rw [numberAt, hk]

theorem timeAt_expr (hσ : σ.WellSorted) (hty : s.ty = .int) :
    (Operand.expr s.expr).timeAt σ = some (s.numberAt σ : Rat) := by
  have hexpr := elaborate_expr (s := s) (hty ▸ rfl) []
  rw [hty] at hexpr
  rw [Operand.timeAt, Operand.besideInt, hexpr]
  show Typed.number? σ ⟨.var s.unknown, .int⟩ = _
  simp only [Typed.number?, Term.eval, value_eq_numberAt hσ hty]

theorem yields_nonneg {k : ℤ} :
    (Expr.compareWith .ge (.arg 0) (.int 0)).Yields σ [.int] [.int k] true ↔ 0 ≤ k := by
  have h : (Expr.compareWith .ge (.arg 0) (.int 0)).Yields σ [.int] [.int k] (decide (0 ≤ k)) :=
    ⟨Typed.ofBool (.le (.int 0) (.arg 0)), rfl, rfl, Expr.isTrue_bool _⟩
  rw [h.iff, decide_eq_true_iff]

theorem yields_after (hσ : σ.WellSorted) (hty : s.ty = .int) {k : ℤ} :
    (Expr.compare .gt (.arg 0) s.expr).Yields σ [.int] [.int k] true ↔ s.numberAt σ < k := by
  have hexpr := elaborate_expr (s := s) (hty ▸ rfl) [.int]
  rw [hty] at hexpr
  have h : (Expr.compare .gt (.arg 0) s.expr).Yields σ [.int] [.int k]
      (!decide (k ≤ s.numberAt σ)) := by
    refine ⟨Typed.ofBool (.not (.le (.arg 0) (.var s.unknown))), ?_, rfl, ?_⟩
    · exact bind_eq_ok.2 ⟨⟨.arg 0, .int⟩, rfl, bind_eq_ok.2 ⟨_, hexpr, rfl⟩⟩
    · simp [Typed.ofBool, Term.eval, value_eq_numberAt hσ hty, Value.le, Expr.isTrue_bool]
  rw [h.iff, Bool.not_eq_true', decide_eq_false_iff_not, not_le]

/-- A time is not negative, and after the one that it is told to be after. -/
theorem number_of_time (hσ : σ.WellSorted) {name : String} {last : Option Symbolic}
    (hlast : ∀ l ∈ last, l.ty = .int)
    (h : HoldsAt σ ((time name last).constraint.elaborate [])) :
    0 ≤ (time name last).numberAt σ ∧
      ∀ l ∈ last, l.numberAt σ < (time name last).numberAt σ := by
  have hbody := (Expr.yields_call (x := ⟨.var (time name last).unknown, .int⟩)
    (elaborate_expr (s := time name last) rfl [])).1 (Expr.holdsAt_elaborate.1 h)
  rw [Term.eval, value_eq_numberAt hσ rfl] at hbody
  cases last with
  | none => exact ⟨yields_nonneg.1 hbody, fun l hl => absurd hl (Option.not_mem_none l)⟩
  | some l =>
    obtain ⟨hpositive, hlater⟩ := Expr.yields_and_true.1 hbody
    refine ⟨yields_nonneg.1 hpositive, fun l' hl' => ?_⟩
    cases hl'
    exact (yields_after hσ (hlast l rfl)).1 hlater

variable {stem : String}

theorem ty_of_mem_timesAfter {count start : Nat} {last : Option Symbolic}
    (h : s ∈ timesAfter stem count start last) : s.ty = .int := by
  induction count generalizing start last with
  | zero => cases h
  | succ count ih =>
    rcases List.mem_cons.1 h with rfl | h
    · rfl
    · exact ih h

/-- Times that are allowed ascend, and all of them are after the one that precedes them. -/
theorem ascending_timesAfter (hσ : σ.WellSorted) {count start : Nat} {last : Option Symbolic}
    (hlast : ∀ l ∈ last, l.ty = .int) (h : ∀ s ∈ timesAfter stem count start last,
      HoldsAt σ (s.constraint.elaborate [])) :
    (timesAfter stem count start last).Pairwise (fun s s' => s.numberAt σ < s'.numberAt σ) ∧
      ∀ s ∈ timesAfter stem count start last,
        0 ≤ s.numberAt σ ∧ ∀ l ∈ last, l.numberAt σ < s.numberAt σ := by
  induction count generalizing start last with
  | zero => exact ⟨.nil, fun _ hs => nomatch hs⟩
  | succ count ih =>
    rw [timesAfter, List.forall_mem_cons] at h
    obtain ⟨hnonneg, hafter⟩ := number_of_time hσ hlast h.1
    obtain ⟨hrest, hlater⟩ := ih (fun l hl => by cases hl; rfl) h.2
    rw [timesAfter]
    refine ⟨.cons (fun s hs => (hlater s hs).2 _ rfl) hrest,
      List.forall_mem_cons.2 ⟨⟨hnonneg, hafter⟩, fun s hs => ⟨(hlater s hs).1, fun l hl => ?_⟩⟩⟩
    exact (hafter l hl).trans ((hlater s hs).2 _ rfl)

end Symbolic

/-! ### Witness times -/

/-- Times to list by distance: ascending integers that are not negative, or ascending symbolic times
that are declared. -/
inductive WitnessTimes (ss : List Symbolic) : List Operand → Prop
  | given {ks : List Int} : ks.Pairwise (· < ·) → (∀ k ∈ ks.head?, 0 ≤ k) →
      WitnessTimes ss (ks.map fun k => .datum (.int k))
  | declared {count : Nat} {stem : String} : (∀ s ∈ Symbolic.ascendingTimes count stem, s ∈ ss) →
      WitnessTimes ss ((Symbolic.ascendingTimes count stem).map fun s => .expr s.expr)

/-- The operands are integers, none of them negative, and each is greater than those before. -/
def AscendAt (σ : Assignment) (times : List Operand) : Prop :=
  ∃ τ : Nat → ℤ, ∀ i w, times[i]? = some w →
    w.timeAt σ = some (τ i : Rat) ∧ 0 ≤ τ i ∧ ∀ j < i, τ j < τ i

theorem ascendAt_of_pairwise {σ : Assignment} {α : Type} {number : α → ℤ} {operand : α → Operand}
    {as : List α} (htime : ∀ a ∈ as, (operand a).timeAt σ = some (number a : Rat))
    (hnonneg : ∀ a ∈ as, 0 ≤ number a) (hpairwise : as.Pairwise fun a b => number a < number b) :
    AscendAt σ (as.map operand) := by
  refine ⟨fun i => (as[i]?.map number).getD 0, fun i w hw => ?_⟩
  rw [List.getElem?_map, Option.map_eq_some_iff] at hw
  obtain ⟨a, ha, rfl⟩ := hw
  have hmem := List.mem_of_getElem? ha
  simp only [ha, Option.map_some, Option.getD_some]
  refine ⟨htime a hmem, hnonneg a hmem, fun j hj => ?_⟩
  obtain ⟨hi, rfl⟩ := List.getElem?_eq_some_iff.1 ha
  rw [List.getElem?_eq_getElem (hj.trans hi), Option.map_some, Option.getD_some]
  exact List.pairwise_iff_getElem.1 hpairwise j i _ hi hj

namespace WitnessTimes

variable {ss : List Symbolic} {times : List Operand} {σ : Assignment} (h : WitnessTimes ss times)
include h

theorem isClosed {w : Operand} (hw : w ∈ times) : w.IsClosed := by
  cases h with
  | given _ _ =>
    obtain ⟨k, -, rfl⟩ := List.mem_map.1 hw
    trivial
  | declared _ =>
    obtain ⟨s, hs, rfl⟩ := List.mem_map.1 hw
    exact ⟨_, Symbolic.elaborate_expr (Symbolic.ty_of_mem_timesAfter hs ▸ rfl) []⟩

theorem exists_timeAt (hσ : σ.WellSorted) {w : Operand} (hw : w ∈ times) :
    ∃ q, w.timeAt σ = some q := by
  cases h with
  | given _ _ =>
    obtain ⟨k, -, rfl⟩ := List.mem_map.1 hw
    exact ⟨k, rfl⟩
  | declared _ =>
    obtain ⟨s, hs, rfl⟩ := List.mem_map.1 hw
    exact ⟨_, Symbolic.timeAt_expr hσ (Symbolic.ty_of_mem_timesAfter hs)⟩

/-- Witness times ascend under all symbolic values that are allowed. -/
theorem ascendAt (hσ : σ.WellSorted) (hallows : ∀ s ∈ ss, HoldsAt σ (s.constraint.elaborate [])) :
    AscendAt σ times := by
  cases h with
  | @given ks hpairwise hfirst =>
    refine ascendAt_of_pairwise (α := ℤ) (fun k _ => rfl) (fun k hk => ?_) hpairwise
    cases ks with
    | nil => cases hk
    | cons first rest =>
      have hnonneg : 0 ≤ first := hfirst first rfl
      rcases List.mem_cons.1 hk with rfl | hk
      · exact hnonneg
      · exact hnonneg.trans (List.rel_of_pairwise_cons hpairwise hk).le
  | declared hdeclared =>
    have hfirst : ∀ l ∈ (none : Option Symbolic), l.ty = .int :=
      fun l hl => absurd hl (Option.not_mem_none l)
    obtain ⟨hpairwise, hafter⟩ :=
      Symbolic.ascending_timesAfter hσ hfirst fun s hs => hallows s (hdeclared s hs)
    exact ascendAt_of_pairwise
      (fun s hs => Symbolic.timeAt_expr hσ (Symbolic.ty_of_mem_timesAfter hs))
      (fun s hs => (hafter s hs).1) hpairwise

end WitnessTimes

end RouteInvariants
