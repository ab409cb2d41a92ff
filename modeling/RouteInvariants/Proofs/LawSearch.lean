import RouteInvariants.Proofs.HopCounts
import RouteInvariants.Merge.Laws

/-!
The search for a law that the smaller hop count breaks. The counts that are tested are constants, so the
merge unfolds to the smaller one, and both sides of each law to one constant, whatever the counts are.
What is solved for beyond them has no solution.
-/

namespace RouteInvariants

open Value (ofCount)

namespace Term

/-- The smaller one of two hop counts. -/
def minCount : Term :=
  let count (i : Nat) : Term := .field (.option .int) 1 0 (.arg i)
  .ite (.isCon 0 (.arg 0)) (.arg 1)
    (.ite (.isCon 0 (.arg 1)) (.arg 0) (.ite (.le (count 0) (count 1)) (.arg 0) (.arg 1)))

theorem unfold_minCount (T : Theory) (F : Facts) (a b : WithTop ℤ) :
    minCount.unfold T F [.leaf (.const (ofCount a)), .leaf (.const (ofCount b))] =
      .leaf (.const (ofCount (min a b))) := by
  cases a with
  | top =>
    rw [min_eq_right le_top]
    rfl
  | coe k =>
    cases b with
    | top =>
      rw [min_eq_left le_top]
      rfl
    | coe m =>
      -- two counts are left to their comparison, which is the truth value of one of integers
      have hcompare : minCount.unfold T F [.leaf (.const (ofCount k)), .leaf (.const (ofCount m))] =
          Tree.bind T (fun G t => Tree.test T G t (fun _ => .leaf (.const (ofCount k)))
            fun _ => .leaf (.const (ofCount m))) F (Tree.ofAtom T F (.bool (decide (k ≤ m)))) := rfl
      rw [hcompare]
      by_cases hkm : k ≤ m
      · rw [min_eq_left (WithTop.coe_le_coe.2 hkm), decide_eq_true hkm]
        rfl
      · rw [min_eq_right (WithTop.coe_le_coe.2 (not_le.1 hkm).le), decide_eq_false hkm]
        rfl

theorem unfold_call2_minCount {T : Theory} {F : Facts} {Γ : List Tree} {x y : Term}
    {a b : WithTop ℤ} (hx : x.unfold T F Γ = .leaf (.const (ofCount a)))
    (hy : y.unfold T F Γ = .leaf (.const (ofCount b))) :
    (call2 minCount x y).unfold T F Γ = .leaf (.const (ofCount (min a b))) := by
  rw [unfold, hx, hy, unfold_minCount]

end Term

/-! ### Examples -/

namespace Merge

/-- An equation holds on values that make both of its sides one constant. -/
theorem holdsOn_eq {x y : Term} {values : List Value} {v : Value}
    (hx : x.unfold Facts.decide [] (values.map fun v => .leaf (.const v)) = .leaf (.const v))
    (hy : y.unfold Facts.decide [] (values.map fun v => .leaf (.const v)) = .leaf (.const v)) :
    holdsOn (.eq x y) values = true := by
  have hsame : (Term.eq x y).unfold Facts.decide [] (values.map fun v => .leaf (.const v)) =
      Tree.equal Facts.decide Tree.equalityDepth [] (.const v) (.const v) := by
    rw [Term.unfold, hx, Tree.bind, hy, Tree.bind]
  rw [holdsOn, hsame, Tree.equalityDepth, Tree.equal, if_pos rfl]
  rfl

/-- A law of the smaller hop count, as an equation over three counts. -/
def lawOfCounts : MergeLaw → Term
  | .idempotent => .eq (.call2 .minCount (.arg 0) (.arg 0)) (.arg 0)
  | .commutative => .eq (.call2 .minCount (.arg 0) (.arg 1)) (.call2 .minCount (.arg 1) (.arg 0))
  | .associative => .eq (.call2 .minCount (.call2 .minCount (.arg 0) (.arg 1)) (.arg 2))
      (.call2 .minCount (.arg 0) (.call2 .minCount (.arg 1) (.arg 2)))

def lawsOfCounts : List (MergeLaw × Term) := laws.map fun l => (l, lawOfCounts l)

theorem equations_minOption : minOption.equations (.option .int) = .ok lawsOfCounts := rfl

theorem holdsOn_lawOfCounts (l : MergeLaw) (a b c : WithTop ℤ) :
    holdsOn (lawOfCounts l) [ofCount a, ofCount b, ofCount c] = true := by
  cases l with
  | idempotent =>
    refine holdsOn_eq (Term.unfold_call2_minCount rfl rfl) ?_
    rw [min_self]
    rfl
  | commutative =>
    refine holdsOn_eq (Term.unfold_call2_minCount rfl rfl) ?_
    rw [min_comm]
    exact Term.unfold_call2_minCount rfl rfl
  | associative =>
    refine holdsOn_eq (Term.unfold_call2_minCount (Term.unfold_call2_minCount rfl rfl) rfl) ?_
    rw [min_assoc]
    exact Term.unfold_call2_minCount rfl (Term.unfold_call2_minCount rfl rfl)

theorem brokenAmong?_lawsOfCounts {values : List Value} (h : ∀ v ∈ values, ∃ a, v = ofCount a) :
    brokenAmong? lawsOfCounts values = none := by
  refine List.findSome?_eq_none_iff.2 fun v hv => List.findSome?_eq_none_iff.2 fun w hw =>
    List.findSome?_eq_none_iff.2 fun x hx => ?_
  obtain ⟨a, rfl⟩ := h v hv
  obtain ⟨b, rfl⟩ := h w hw
  obtain ⟨c, rfl⟩ := h x hx
  rw [brokenOn?, Option.map_eq_none_iff, List.find?_eq_none]
  intro e he
  obtain ⟨l, -, rfl⟩ := List.mem_map.1 he
  rw [holdsOn_lawOfCounts]
  exact Bool.false_ne_true

/-! ### The search -/

/-- What hop counts are drawn from. -/
def countStrategy : Strategy := .oneOf [(0, []), (1, [.ints])]

theorem ofTy_option_int : Strategy.ofTy sampleDepth (.option .int) = .ok countStrategy := by
  have hdrawn : Strategy.drawnCtors sampleDepth (.option .int) =
      [(⟨"none", []⟩, 0), (⟨"some", [("value", .int)]⟩, 1)] := by decide
  have hint : Strategy.ofTy (sampleDepth - 1) .int = .ok .ints := by rw [Strategy.ofTy]
  rw [Ty.option, Strategy.ofTy_data, ← Ty.option, hdrawn]
  simp only [List.mapM_cons, List.mapM_nil, hint]
  rfl

theorem exists_of_mem_samples {v : Value} (hv : v ∈ countStrategy.samples) : ∃ a, v = ofCount a := by
  have hfits : ∀ v ∈ countStrategy.samples, v.fits (.option .int) = true := by decide
  exact Value.fits_option_int_iff.1 (hfits v hv)

theorem brokenBySolving?_lawsOfCounts :
    brokenBySolving? lawsOfCounts (.option .int) countStrategy = none := by
  decide +kernel

/-- The search finds no law that the smaller hop count breaks, through however many examples. -/
theorem checkLaws_minOption {examples : Int} (h : 0 < examples) :
    minOption.checkLaws (.option .int) examples = .ok () := by
  have hamong : brokenAmong? lawsOfCounts
      (if examples = 1 then countStrategy.samples.take 1 else countStrategy.samples) = none := by
    refine brokenAmong?_lawsOfCounts fun v hv => exists_of_mem_samples ?_
    split at hv
    · exact List.mem_of_mem_take hv
    · exact hv
  rw [checkLaws, ofTy_option_int, equations_minOption]
  simp only [Except.mapError, bind, Except.bind]
  rw [if_neg (not_lt.2 h), hamong, brokenBySolving?_lawsOfCounts, ite_self]
  rfl

end Merge

end RouteInvariants
