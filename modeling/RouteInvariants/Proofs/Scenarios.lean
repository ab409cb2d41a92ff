import Mathlib.Data.Set.Card
import RouteInvariants.Proofs.Failures

/-!
The sets of edges that a network with failures lets be down. Several failures may name one edge and
each of them may be absent, so under the symbolic values that are allowed the edges that are down are
the sets of at most as many edges as there are failures. That no set has more is due to the failures
alone (`failedEdges_encard_le`). That no set is missing depends on the other symbolic values, whose
restrictions may speak about the failures (`Symbolic.unlessFailed`): they have to leave the failures
free (`AllowsFailures`), as they do if they can be met and do not depend on them
(`allowsFailures_of_independent`).
-/

namespace RouteInvariants

/-! ### Symbolic values that name failures -/

namespace Assignment

/-- The assignment with other values where they are given. -/
def override (σ : Assignment) (values : Variable → Option Value) : Assignment where
  value x := (values x).getD (σ.value x)
  absent := σ.absent

/-- Values for the first `k` failures: the edges of the list, and then absent ones. -/
def namingEdges (k : Nat) (failed : List Edge) (x : Variable) : Option Value :=
  ((List.range k).find? fun i => x = failureVar i).map fun i =>
    (failed[i]?.map failureValue).getD .none

variable {σ : Assignment} {k : Nat} {failed : List Edge}

theorem WellSorted.override (hσ : σ.WellSorted) {values : Variable → Option Value}
    (hvalues : ∀ x v, values x = some v → v.fits x.ty = true) : (σ.override values).WellSorted where
  value x hx := by
    cases hv : values x with
    | none => simpa only [Assignment.override, hv, Option.getD_none] using hσ.value x hx
    | some v => simpa only [Assignment.override, hv, Option.getD_some] using hvalues x v hv
  absent := hσ.absent

theorem fits_of_namingEdges {x : Variable} {v : Value} (h : namingEdges k failed x = some v) :
    v.fits x.ty = true := by
  obtain ⟨i, hi, rfl⟩ := Option.map_eq_some_iff.1 h
  have hx : x = failureVar i := by simpa using List.find?_some hi
  subst hx
  cases failed[i]? <;> rfl

/-- Failures with different names can be assigned to the edges one by one. -/
theorem enumerates_override (hinj : ∀ i < k, ∀ j < k, failureVar i = failureVar j → i = j) :
    (σ.override (namingEdges k failed)).Enumerates k failed := by
  intro i hi
  have hfind : ((List.range k).find? fun j => failureVar i = failureVar j) = some i := by
    cases hj : (List.range k).find? fun j => failureVar i = failureVar j with
    | none =>
      have hne := List.find?_eq_none.1 hj i (List.mem_range.2 hi)
      simp at hne
    | some j =>
      have hjk := List.mem_range.1 (List.mem_of_find?_eq_some hj)
      have hij : failureVar i = failureVar j := by simpa using List.find?_some hj
      rw [hinj i hi j hjk hij]
  simp only [override, namingEdges, hfind, Option.map_some, Option.getD_some]
  cases failed[i]? <;> rfl

theorem fails_eq_true_iff {e : Edge} :
    σ.fails k e = true ↔ ∃ i < k, σ.value (failureVar i) = failureValue e := by
  simp only [fails, List.any_eq_true, List.mem_range, decide_eq_true_eq]

end Assignment

/-! ### Edges that are down -/

namespace Network

variable {net : Network} {σ : Assignment} {k : Nat} {e : Edge}

/-- The network says of the edge that it is down. -/
def IsDown (ft : Network) (σ : Assignment) (e : Edge) : Prop :=
  ∃ c, ft.isFailed? e = some c ∧ HoldsAt σ (c.elaborate [])

/-- The edges of the topology that are down. -/
def failedEdges (ft : Network) (σ : Assignment) : Set Edge :=
  { e | e ∈ ft.topology.edges ∧ ft.IsDown σ e }

/-- The sets of edges that can be down. -/
def scenarios (ft : Network) : Set (Set Edge) :=
  { F | ∃ σ : Assignment, σ.WellSorted ∧ HoldsAt σ ft.constraints ∧ F = ft.failedEdges σ }

/-- The restrictions of the symbolic values can be met whichever edges the first `k` failures
name. -/
def AllowsFailures (net : Network) (k : Nat) : Prop :=
  ∀ τ : Assignment, τ.WellSorted → τ.NamesEdges k net.topology.edges → ∃ σ : Assignment,
    σ.WellSorted ∧ (∀ i < k, σ.value (failureVar i) = τ.value (failureVar i)) ∧
      HoldsAt σ net.constraints

/-- Restrictions that can be met, and that do not depend on the failures, leave them free. -/
theorem allowsFailures_of_independent
    (hsat : ∃ σ : Assignment, σ.WellSorted ∧ HoldsAt σ net.constraints)
    (hindependent : ∀ σ τ, Term.AgreeOn (fun x => ∀ i < k, x ≠ failureVar i) σ τ →
      HoldsAt σ net.constraints → HoldsAt τ net.constraints) : net.AllowsFailures k := by
  intro τ hτ _
  obtain ⟨σ, hσ, hholds⟩ := hsat
  let failures (x : Variable) : Option Value :=
    if ∃ i < k, x = failureVar i then some (τ.value x) else none
  have hfits : ∀ x v, failures x = some v → v.fits x.ty = true := by
    intro x v hv
    obtain ⟨⟨i, -, rfl⟩, hv⟩ := Option.ite_none_right_eq_some.1 hv
    cases hv
    exact hτ.value _ rfl
  refine ⟨σ.override failures, hσ.override hfits, fun i hi => ?_, hindependent σ _ ⟨?_, rfl⟩ hholds⟩
  · have hvalue : failures (failureVar i) = some (τ.value (failureVar i)) := if_pos ⟨i, hi, rfl⟩
    simp only [Assignment.override, hvalue, Option.getD_some]
  · intro x hx
    have hvalue : failures x = none := if_neg fun ⟨i, hi, h⟩ => hx i hi h
    simp only [Assignment.override, hvalue, Option.getD_none]

section Failing

variable {hfresh : ((net.symbolics ++ failureSymbolics net.topology.edges k).map
  Symbolic.name).Nodup}

theorem isDown_failing : (net.failing k hfresh).IsDown σ e ↔ σ.fails k e = true := by
  have hfailed : (net.failing k hfresh).isFailed? e =
      some (failedBy (failureSymbolics net.topology.edges k) e) := by
    simp [isFailed?, failing]
  rw [IsDown, hfailed, ← (means_failedBy [] net.topology.edges k e).holdsAt_iff]
  simp

/-- With one failure, an edge is down where the failure names it. -/
theorem isDown_failing_one {hfresh : ((net.symbolics ++
    failureSymbolics net.topology.edges 1).map Symbolic.name).Nodup} :
    (net.failing 1 hfresh).IsDown σ e ↔ σ.value (failureVar 0) = failureValue e := by
  rw [isDown_failing, Assignment.fails_eq_true_iff]
  constructor
  · rintro ⟨i, hi, hvalue⟩
    obtain rfl : i = 0 := by omega
    exact hvalue
  · exact fun hvalue => ⟨0, Nat.one_pos, hvalue⟩

theorem mem_failedEdges_failing : e ∈ (net.failing k hfresh).failedEdges σ ↔
    e ∈ net.topology.edges ∧ σ.fails k e = true :=
  and_congr_right fun _ => isDown_failing

/-- Edges that are down are named by different failures, so there are no more of them. -/
theorem failedEdges_encard_le (hnames : net.topology.NamesDiffer) :
    ((net.failing k hfresh).failedEdges σ).encard ≤ k := by
  have hnamed : ∀ e ∈ (net.failing k hfresh).failedEdges σ,
      ∃ i < k, σ.value (failureVar i) = failureValue e := fun e he =>
    Assignment.fails_eq_true_iff.1 (mem_failedEdges_failing.1 he).2
  choose! index hindex hvalue using hnamed
  have hmaps : Set.MapsTo index ((net.failing k hfresh).failedEdges σ) (Finset.range k) :=
    fun e he => by simpa using hindex e he
  have hinj : Set.InjOn index ((net.failing k hfresh).failedEdges σ) := by
    intro d hd e he hde
    have hvalues : failureValue d = failureValue e := by rw [← hvalue d hd, hde, hvalue e he]
    exact failureValue_inj hnames (mem_failedEdges_failing.1 hd).1 (mem_failedEdges_failing.1 he).1
      hvalues
  have hle := Set.encard_le_encard_of_injOn hmaps hinj
  rwa [Set.encard_coe_eq_coe_finsetCard, Finset.card_range] at hle

/-- The failures that are allowed name edges of the topology. -/
theorem exists_edge_of_isDown (hσ : σ.NamesEdges k net.topology.edges)
    (hdown : (net.failing k hfresh).IsDown σ e) :
    ∃ d ∈ net.topology.edges, failureValue d = failureValue e := by
  obtain ⟨i, hi, hvalue⟩ := Assignment.fails_eq_true_iff.1 (isDown_failing.1 hdown)
  rcases hσ i hi with habsent | ⟨d, hd, hdvalue⟩
  · rw [hvalue] at habsent
    simp [failureValue, Value.some, Value.head?] at habsent
  · exact ⟨d, hd, hdvalue.symm.trans hvalue⟩

theorem failureVar_inj_of_fresh (hfresh : ((net.symbolics ++
    failureSymbolics net.topology.edges k).map Symbolic.name).Nodup) :
    ∀ i < k, ∀ j < k, failureVar i = failureVar j → i = j := by
  intro i hi j hj hvar
  rw [List.map_append, failureSymbolics, List.map_map] at hfresh
  exact List.inj_on_of_nodup_map hfresh.of_append_right (List.mem_range.2 hi) (List.mem_range.2 hj)
    (Variable.symbolic.inj hvar).1

/-- Without other symbolic values every list of edges within the bound can be what fails. -/
theorem IsWithFailures.exists_allowed {ft : Network} (h : IsWithFailures net ft k)
    (hsymbolics : net.symbolics = []) (failed : List Edge)
    (hfailed : ∀ e ∈ failed, e ∈ net.topology.edges) :
    ∃ σ : Assignment, σ.WellSorted ∧ HoldsAt σ ft.constraints ∧ σ.Enumerates k failed := by
  obtain ⟨σ₀, hσ₀⟩ := Assignment.exists_wellSorted
  have hfresh : ((net.symbolics ++ failureSymbolics net.topology.edges k).map
      Symbolic.name).Nodup := h.symbolics ▸ ft.nodup_symbolics
  have henum : (σ₀.override (Assignment.namingEdges k failed)).Enumerates k failed :=
    Assignment.enumerates_override (failureVar_inj_of_fresh hfresh)
  refine ⟨σ₀.override (Assignment.namingEdges k failed), hσ₀.override fun _ _ =>
    Assignment.fits_of_namingEdges, h.holdsAt_constraints hfailed henum ?_, henum⟩
  rw [Network.constraints, hsymbolics]
  exact ⟨_, rfl, rfl⟩

/-- Nothing need fail. -/
theorem IsWithFailures.exists_allowed_up {ft : Network} (h : IsWithFailures net ft k)
    (hsymbolics : net.symbolics = []) :
    ∃ σ : Assignment, σ.WellSorted ∧ HoldsAt σ ft.constraints := by
  obtain ⟨σ, hσ, hholds, -⟩ := h.exists_allowed hsymbolics []
    fun e he => absurd he List.not_mem_nil
  exact ⟨σ, hσ, hholds⟩

/-- Every set of edges within the bound can be down: the failures list its edges. -/
theorem mem_scenarios_failing (hwith : IsWithFailures net (net.failing k hfresh) k)
    (hnames : net.topology.NamesDiffer) (hallows : net.AllowsFailures k) {F : Set Edge}
    (hF : F ⊆ { e | e ∈ net.topology.edges }) (hcard : F.encard ≤ k) :
    F ∈ (net.failing k hfresh).scenarios := by
  have hfinite : F.Finite := Set.finite_of_encard_le_coe hcard
  obtain ⟨failed, hmem, hlength⟩ : ∃ failed : List Edge, (∀ e, e ∈ failed ↔ e ∈ F) ∧
      failed.length ≤ k := by
    refine ⟨hfinite.toFinset.toList, fun e => by simp, ?_⟩
    rw [hfinite.encard_eq_coe_toFinset_card] at hcard
    simpa using hcard
  have hfailed : ∀ e ∈ failed, e ∈ net.topology.edges := fun e he => hF ((hmem e).1 he)
  obtain ⟨σ₀, hσ₀⟩ := Assignment.exists_wellSorted
  have henum₀ : (σ₀.override (Assignment.namingEdges k failed)).Enumerates k failed :=
    Assignment.enumerates_override (failureVar_inj_of_fresh hfresh)
  -- the other symbolic values have to suit these failures
  obtain ⟨σ, hσ, hvalues, hnet⟩ := hallows _
    (hσ₀.override fun _ _ => Assignment.fits_of_namingEdges) (henum₀.namesEdges hfailed)
  have henum : σ.Enumerates k failed := fun i hi => (hvalues i hi).trans (henum₀ i hi)
  refine ⟨σ, hσ, hwith.holdsAt_constraints hfailed henum hnet, Set.ext fun e => ?_⟩
  rw [mem_failedEdges_failing, ← hmem e]
  constructor
  · intro he
    exact ⟨hfailed e he, (fails_iff hnames hfailed hlength henum (hfailed e he)).2 he⟩
  · rintro ⟨he, hfails⟩
    exact (fails_iff hnames hfailed hlength henum he).1 hfails

end Failing

end Network

/-! ### All scenarios -/

/-- The failures range over the intended scenarios, for every bound up to the number of edges. The
network with failures can be built. Under the symbolic values that it allows no edge is down that is
not one of the topology, and no more edges are down than the bound. If the restrictions of the
network leave the failures free then the sets of edges that can be down are all sets of edges of the
topology within the bound. -/
theorem withFailures_scenarios (net : Network) (k : Nat) (hk : k ≤ net.topology.edgeCount)
    (hoption : net.routeTy.isOption = true)
    (hfresh : ((net.symbolics ++ failureSymbolics net.topology.edges k).map Symbolic.name).Nodup)
    (hnames : net.topology.NamesDiffer) :
    ∃ ft, net.withFailures k = .ok ft ∧
      (∀ σ : Assignment, HoldsAt σ ft.constraints → ∀ e, ft.IsDown σ e →
        ∃ d ∈ net.topology.edges, failureValue d = failureValue e) ∧
      (∀ F ∈ ft.scenarios, F ⊆ { e | e ∈ net.topology.edges } ∧ F.encard ≤ k) ∧
      (net.AllowsFailures k →
        ft.scenarios = { F | F ⊆ { e | e ∈ net.topology.edges } ∧ F.encard ≤ k }) := by
  have hft := Network.withFailures_eq_ok hk hoption hfresh
  have hwith := Network.withFailures_spec hft
  have hbounded : ∀ F ∈ (net.failing k hfresh).scenarios,
      F ⊆ { e | e ∈ net.topology.edges } ∧ F.encard ≤ k := by
    rintro F ⟨σ, -, -, rfl⟩
    exact ⟨fun e he => he.1, Network.failedEdges_encard_le hnames⟩
  refine ⟨_, hft, fun σ hσ e he => ?_, hbounded, fun hallows => Set.ext fun F => ?_⟩
  · exact Network.exists_edge_of_isDown (hwith.holdsAt_constraints_iff.1 hσ).2 he
  · exact ⟨hbounded F, fun hF => Network.mem_scenarios_failing hwith hnames hallows hF.1 hF.2⟩

/-- The link with one symbolic value. -/
def Network.linkWith (s : Symbolic) : Network :=
  { link .identity with
    symbolics := [s]
    nodup_symbolics := List.nodup_singleton _ }

theorem Network.holdsAt_constraints_linkWith {σ : Assignment} {s : Symbolic} :
    HoldsAt σ (linkWith s).constraints ↔ HoldsAt σ (s.constraint.elaborate []) := by
  show HoldsAt σ ((Expr.conj [s.constraint]).elaborate []) ↔ _
  rw [Expr.holdsAt_conj]
  simp

theorem Network.holdsAt_constraints_time {σ : Assignment} :
    HoldsAt σ (linkWith (.time "t" none)).constraints ↔
      (Value.int 0).le (σ.value (.symbolic "t" .int)) = true := by
  have hbody : (Expr.compareWith .ge (.arg 0) (.int 0)).Means [.int] fun _ args =>
      (Value.int 0).le (args[0]?.getD default) := ⟨_, rfl, fun _ _ => rfl⟩
  have hmeans := Symbolic.means_constraint (s := .time "t" none) rfl rfl hbody
  rw [holdsAt_constraints_linkWith, hmeans.holdsAt_iff]
  exact Iff.rfl

/-- A time can be assigned apart from the failures. -/
theorem Network.allowsFailures_time (k : Nat) :
    (linkWith (.time "t" none)).AllowsFailures k := by
  refine allowsFailures_of_independent ?_ fun σ τ hστ => ?_
  · obtain ⟨σ, hσ⟩ := Assignment.exists_wellSorted
    refine ⟨σ.override fun x => if x = .symbolic "t" .int then some (.int 0) else none,
      hσ.override fun x v hv => ?_, ?_⟩
    · obtain ⟨rfl, hv⟩ := Option.ite_none_right_eq_some.1 hv
      cases hv
      rfl
    · rw [holdsAt_constraints_time]
      rfl
  · have htime : ∀ i < k, Variable.symbolic "t" .int ≠ failureVar i := fun i _ h =>
      nomatch (Variable.symbolic.inj h).2
    rw [holdsAt_constraints_time, holdsAt_constraints_time, hστ.value _ htime]
    exact id

/-- With one failure the link is up or down, whatever the time is. -/
theorem withFailures_scenarios_link : ∃ ft,
    (Network.linkWith (.time "t" none)).withFailures 1 = .ok ft ∧
      ft.scenarios = {∅, {⟨"A", "B"⟩}} := by
  obtain ⟨ft, hft, -, -, hscenarios⟩ := withFailures_scenarios
    (Network.linkWith (.time "t" none)) 1 (by decide) rfl (by decide)
    (by unfold Topology.NamesDiffer; decide)
  refine ⟨ft, hft, ?_⟩
  have hedges : { e | e ∈ (Network.linkWith (.time "t" none)).topology.edges } = {⟨"A", "B"⟩} :=
    Set.ext fun e => List.mem_singleton
  rw [hscenarios (Network.allowsFailures_time 1), hedges]
  ext F
  constructor
  · rintro ⟨hF, -⟩
    exact Set.subset_singleton_iff_eq.1 hF
  · rintro (rfl | rfl)
    · simp
    · simp

/-- A number that may only be there if the link is up. -/
def Symbolic.unlessFailed : Symbolic where
  name := "x"
  ty := .int
  restriction := some ⟨.not (failedBy (failureSymbolics [⟨"A", "B"⟩] 1) ⟨"A", "B"⟩)⟩

theorem Network.holdsAt_constraints_unlessFailed {σ : Assignment} :
    HoldsAt σ (linkWith .unlessFailed).constraints ↔ σ.fails 1 ⟨"A", "B"⟩ = false := by
  have hmeans := Symbolic.means_constraint (s := .unlessFailed) rfl rfl
    (Expr.means_not (means_failedBy [.int] [⟨"A", "B"⟩] 1 ⟨"A", "B"⟩))
  rw [holdsAt_constraints_linkWith, hmeans.holdsAt_iff]
  simp

/-- Restrictions that can be met may still rule failures out: the link is never down although it may
fail. -/
theorem unlessFailed_scenarios :
    (∃ σ : Assignment, σ.WellSorted ∧ HoldsAt σ (Network.linkWith .unlessFailed).constraints) ∧
      ∃ ft, (Network.linkWith .unlessFailed).withFailures 1 = .ok ft ∧
        {⟨"A", "B"⟩} ∉ ft.scenarios := by
  constructor
  · obtain ⟨σ, hσ⟩ := Assignment.exists_wellSorted
    refine ⟨σ.override (Assignment.namingEdges 1 []), hσ.override fun _ _ =>
      Assignment.fits_of_namingEdges, ?_⟩
    rw [Network.holdsAt_constraints_unlessFailed]
    rfl
  · have hft : (Network.linkWith .unlessFailed).withFailures (1 : Nat) =
        .ok ((Network.linkWith .unlessFailed).failing 1 (by decide)) :=
      Network.withFailures_eq_ok (by decide) rfl _
    refine ⟨_, hft, ?_⟩
    rintro ⟨σ, -, hσ, hF⟩
    have hup := ((Network.withFailures_spec hft).holdsAt_constraints_iff.1 hσ).1
    rw [Network.holdsAt_constraints_unlessFailed] at hup
    have hdown : (⟨"A", "B"⟩ : Edge) ∈ Network.failedEdges _ σ := hF ▸ Set.mem_singleton _
    have hfails := (Network.mem_failedEdges_failing.1 hdown).2
    rw [hup] at hfails
    cases hfails

end RouteInvariants
