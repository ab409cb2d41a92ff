import RouteInvariants.Proofs.AlgebraChecks
import RouteInvariants.Proofs.HopAlgebra
import RouteInvariants.Proofs.Protocols

/-!
The shortest-path network counts hops. Its routes are numbers or absent, its transfer functions add
one and its merge takes the smaller number (`follows_hopCounts`), so that it computes the distances
from its destination along the edges that are not down: after `i` rounds a node holds its distance if
that is at most `i` (`shortestPathNetwork_simulate`).
-/

namespace RouteInvariants

/-! ### Numbers of hops as values -/

namespace Value

/-- The route with a number of hops; infinitely many are none. -/
def ofCount : WithTop ℤ → Value
  | ⊤ => .none
  | (m : ℤ) => .some (.int m)

theorem ofCount_top : ofCount ⊤ = .none := rfl

theorem ofCount_coe (m : ℤ) : ofCount m = .some (.int m) := rfl

theorem ofCount_injective : Function.Injective ofCount := by
  intro a b h
  cases a with
  | top =>
    cases b with
    | top => rfl
    | coe m => cases h
  | coe k =>
    cases b with
    | top => cases h
    | coe m =>
      rw [ofCount_coe, ofCount_coe, some, some, app.injEq, int.injEq] at h
      rw [h.2]

theorem fits_option_int_iff {v : Value} : v.fits (.option .int) = true ↔ ∃ a, v = ofCount a := by
  constructor
  · intro h
    rcases of_fits_option h with rfl | ⟨w, hw, rfl⟩
    · exact ⟨⊤, rfl⟩
    · obtain ⟨m, rfl⟩ := shape_of_fits hw
      exact ⟨(m : ℤ), rfl⟩
  · rintro ⟨a, rfl⟩
    cases a <;> rfl

theorem head?_ofCount_eq_zero {a : WithTop ℤ} : (ofCount a).head? = Option.some 0 ↔ a = ⊤ := by
  cases a with
  | top => exact iff_of_true rfl rfl
  | coe m => exact iff_of_false (fun h => nomatch h) WithTop.coe_ne_top

theorem head?_ofCount_eq_one {a : WithTop ℤ} : (ofCount a).head? = Option.some 1 ↔ a ≠ ⊤ := by
  cases a with
  | top => exact iff_of_false (by decide) fun h => h rfl
  | coe m => exact iff_of_true rfl WithTop.coe_ne_top

end Value

/-- Where the routes are optional integers, numbers of hops are all the routes. -/
theorem Network.computes_ofCount {net : Network} {A : Assignment → RouteAlgebra (WithTop ℤ)}
    (hty : net.routeTy = .option .int) (h : ∀ σ, net.Follows σ Value.ofCount (A σ)) :
    net.Computes Value.ofCount A :=
  ⟨h, Value.ofCount_injective, fun _ => hty ▸ Value.fits_option_int_iff⟩

/-! ### The functions of the network -/

section Functions

open Value (ofCount)

variable {σ : Assignment} {x y : Typed} {a b : WithTop ℤ}

theorem applyTo_omap_incr (hty : x.ty = .option .int) (hx : x.term.eval σ [] = ofCount a) :
    ∃ u, (Transfer.omap (.incr 1)).applyTo x = .ok u ∧ u.ty = .option .int ∧
      u.term.eval σ [] = ofCount (a + 1) := by
  refine ⟨_, bind_eq_ok.2 ⟨_, by rw [hty]; rfl, rfl⟩, rfl, ?_⟩
  cases a with
  | top => simp [Term.eval, Typed.ofBool, hx, ofCount, Value.none, Value.head?, Value.isTrue]
  | coe m =>
    have hsum : ((m : WithTop ℤ) + 1) = ((m + 1 : ℤ) : WithTop ℤ) := rfl
    rw [hsum]
    simp [Term.eval, Typed.ofBool, hx, ofCount, Value.some, Value.head?, Value.args, Value.isTrue,
      Term.int, Value.add]

theorem applyTo_minOption (htyx : x.ty = .option .int) (htyy : y.ty = .option .int)
    (hx : x.term.eval σ [] = ofCount a) (hy : y.term.eval σ [] = ofCount b) :
    ∃ u, Merge.minOption.applyTo x y = .ok u ∧ u.ty = .option .int ∧
      u.term.eval σ [] = ofCount (min a b) := by
  refine ⟨_, bind_eq_ok.2 ⟨_, by rw [htyx, htyy]; rfl, rfl⟩, rfl, ?_⟩
  cases a with
  | top =>
    rw [min_eq_right le_top]
    simp [Term.eval, Typed.ofBool, hx, hy, ofCount, Value.none, Value.head?, Value.isTrue]
  | coe k =>
    cases b with
    | top =>
      rw [min_eq_left le_top]
      simp [Term.eval, Typed.ofBool, hx, hy, ofCount, Value.some, Value.none, Value.head?,
        Value.isTrue]
    | coe m =>
      by_cases hkm : k ≤ m
      · rw [min_eq_left (WithTop.coe_le_coe.2 hkm)]
        simp [Term.eval, Typed.ofBool, hx, hy, ofCount, Value.some, Value.head?, Value.args,
          Value.isTrue, Typed.orderTerm, Value.le, hkm]
      · rw [min_eq_right (WithTop.coe_le_coe.2 (not_le.1 hkm).le)]
        simp [Term.eval, Typed.ofBool, hx, hy, ofCount, Value.some, Value.head?, Value.args,
          Value.isTrue, Typed.orderTerm, Value.le, hkm]

end Functions

/-! ### The network -/

namespace Protocol

variable {t : Topology} {d : String} {D : Destination} {ss : List Symbolic} {net : Network}
  {σ : Assignment}

/-- The shortest-path network counts hops from the nodes that the destination is at. -/
theorem IsNetwork.follows_countsFrom
    (h : hopCounts.IsNetwork (.app (.con 1) (.int 0)) t D ss net) :
    net.Follows σ Value.ofCount (countsFrom fun n => D.isAt σ n) where
  origination := h.origination
  initial n hn := by
    refine ⟨Network.isClosed_initialOf hn, net.initial_ty n hn, ?_⟩
    rw [h.initial n (h.topology ▸ hn), Destination.eval_initialTerm_eq]
    by_cases hat : D.isAt σ n = true
    · simp only [countsFrom, hat, if_true]
      rfl
    · simp only [countsFrom, hat]
      rfl
  transfer e he x a hx := by
    obtain ⟨u, hu, hty, heval⟩ := applyTo_omap_incr (hx.ty.trans h.routeTy) hx.eval
    rw [h.transfer e (h.topology ▸ he)]
    exact ⟨u, hu, Expr.isClosed_of_appliedTo hx.closed hu, hty.trans h.routeTy.symm, heval⟩
  merge {x y a b} hx hy := by
    obtain ⟨u, hu, hty, heval⟩ := applyTo_minOption (hx.ty.trans h.routeTy)
      (hy.ty.trans h.routeTy) hx.eval hy.eval
    rw [h.merge]
    exact ⟨u, hu, Expr.isClosed_of_appliedTo₂ hx.closed hy.closed hu, hty.trans h.routeTy.symm,
      heval⟩

/-- The shortest-path network of a destination counts hops. -/
theorem IsNetwork.follows_hopCounts
    (h : hopCounts.IsNetwork (.app (.con 1) (.int 0)) t (.node d) ss net) :
    net.Follows σ Value.ofCount (RouteInvariants.hopCounts d) :=
  countsFrom_eq_hopCounts d ▸ h.follows_countsFrom

end Protocol

namespace Network

/-- The network counts the hops from a destination along the edges that are not down. -/
structure CountsHops (ft : Network) (t : Topology) (d : String) : Prop where
  topology : ft.topology = t
  routeTy : ft.routeTy = .option .int
  follows : ∀ σ : Assignment, ft.Follows σ Value.ofCount (hopAlgebra { e | ft.IsDown σ e } d)

end Network

/-- The shortest-path network can be built with failures, and counts hops. -/
theorem exists_countsHops {t : Topology} {d : String} (hd : d ∈ t.nodes) {k : Nat}
    (hk : k ≤ t.edgeCount) :
    ∃ net ft, shortestPathNetwork t (.node d) [] = .ok net ∧ net.withFailures k = .ok ft ∧
      Network.IsWithFailures net ft k ∧ net.symbolics = [] ∧ ft.CountsHops t d := by
  obtain ⟨net, hfresh, hnet, hparts, hft⟩ :=
    Protocol.exists_failing_node Protocol.isValid_hopCounts hd hk
  exact ⟨net, _, hnet, hft, Network.withFailures_spec hft, hparts.symbolics, hparts.topology,
    hparts.routeTy, fun σ => hparts.follows_failing Protocol.isValid_hopCounts
      hparts.follows_hopCounts Value.ofCount_top hfresh⟩

/-! ### Rounds -/

namespace Topology

/-- Only edges of the topology matter to walks. -/
theorem Walk.congr {t : Topology} {F G : Set Edge} {d n : String} {m : Nat}
    (hFG : ∀ e ∈ t.edges, e ∈ G → e ∈ F) (h : t.Walk F d n m) : t.Walk G d n m := by
  induction h with
  | start => exact .start
  | step _ hp hF ih =>
    exact ih.step hp fun hG => hF (hFG _ (mem_edges_of_mem_predecessors hp) hG)

theorem walk_iff_of_disjoint {t : Topology} {F : Set Edge} {d n : String} {m : Nat}
    (hF : ∀ e ∈ t.edges, e ∉ F) : t.Walk F d n m ↔ t.Walk ∅ d n m :=
  ⟨.congr fun _ _ he => absurd he (Set.notMem_empty _), .congr fun e he h => absurd h (hF e he)⟩

end Topology

namespace Network.CountsHops

open AnnotatedNetwork (valuesOf)

variable {ft : Network} {t : Topology} {d n : String} {σ : Assignment}
  {run : Nat → List (String × Typed)} (h : ft.CountsHops t d) (hσ : σ.WellSorted)
  (hrun : ft.IsRun run) (hn : n ∈ t.nodes)
include h hσ hrun hn

theorem valuesOf_run (i : Nat) : valuesOf σ (run i) n =
    .ofCount (Topology.within i (t.hops { e | ft.IsDown σ e } d n)) := by
  rw [((h.follows σ).run hσ hrun i).valuesOf (h.topology ▸ hn), h.topology,
    Topology.rounds_hopAlgebra]

/-- A node holds its distance as soon as there have been as many rounds. -/
theorem valuesOf_of_le {i m : Nat} (hm : t.IsDistance { e | ft.IsDown σ e } d n m) (hi : m ≤ i) :
    valuesOf σ (run i) n = .some (.int m) := by
  rw [h.valuesOf_run hσ hrun hn, Topology.within_hops_of_isDistance hm hi]
  rfl

/-- A node holds nothing before. -/
theorem valuesOf_of_lt {i : Nat} (hi : ∀ m, t.IsDistance { e | ft.IsDown σ e } d n m → i < m) :
    valuesOf σ (run i) n = .none := by
  rw [h.valuesOf_run hσ hrun hn, Topology.within_hops_eq_top hi]
  rfl

/-- Nothing changes once there have been as many rounds as there are other nodes. -/
theorem valuesOf_constant (hd : d ∈ t.nodes) {i : Nat} (hi : t.nodeCount - 1 ≤ i) :
    valuesOf σ (run i) n = valuesOf σ (run (t.nodeCount - 1)) n := by
  rcases Topology.hops_cases t { e | ft.IsDown σ e } d n with ⟨m, hm, -⟩ | ⟨hno, -⟩
  · have hlt := hm.lt_nodeCount hd
    rw [h.valuesOf_of_le hσ hrun hn hm (by omega), h.valuesOf_of_le hσ hrun hn hm (by omega)]
  · have hnone (i : Nat) := h.valuesOf_of_lt hσ hrun hn (i := i)
      fun m hm => absurd hm.walk (hno m)
    rw [hnone, hnone]

/-- Without failures a node stays without a route exactly where there is no path to it. -/
theorem valuesOf_eq_none_iff (hd : d ∈ t.nodes) (hup : ∀ e ∈ t.edges, ¬ ft.IsDown σ e) :
    (∀ i, valuesOf σ (run i) n = .none) ↔ t.distance d n = .error (.noPath d n) := by
  rw [Topology.distance_eq_noPath_iff hd hn]
  constructor
  · intro hnone m hwalk
    obtain ⟨k, -, hk⟩ := Topology.exists_isDistance ((Topology.walk_iff_of_disjoint hup).2 hwalk)
    have hsome := h.valuesOf_of_le hσ hrun hn hk le_rfl
    rw [hnone k] at hsome
    cases hsome
  · intro hno i
    refine h.valuesOf_of_lt hσ hrun hn fun m hm => ?_
    exact absurd ((Topology.walk_iff_of_disjoint hup).1 hm.walk) (hno m)

/-- Without failures a node holds the distance that the topology computes. -/
theorem valuesOf_of_distance (hd : d ∈ t.nodes) (hup : ∀ e ∈ t.edges, ¬ ft.IsDown σ e) {i m : Nat}
    (hm : t.distance d n = .ok m) (hi : m ≤ i) : valuesOf σ (run i) n = .some (.int m) := by
  have hdist := (Topology.distance_eq_ok_iff hd hn).1 hm
  refine h.valuesOf_of_le hσ hrun hn ⟨(Topology.walk_iff_of_disjoint hup).2 hdist.walk, ?_⟩ hi
  exact fun k hk => hdist.le ((Topology.walk_iff_of_disjoint hup).1 hk)

end Network.CountsHops

/-- The simulation of a shortest-path network computes hop distances, for every bound on the edges
that may be down and for all values of the failures. The networks can be built, and their simulation
has a result for every number of rounds. After `i` rounds a node holds its distance from the
destination along the edges that are not down if that is at most `i`, and no route otherwise; from
one round less than there are nodes on, nothing changes. Where no edge is down, the distance is the
one that the topology computes, and a node never gets a route exactly where there is no path. -/
theorem shortestPathNetwork_simulate (t : Topology) (d : String) (hd : d ∈ t.nodes) (k : Nat)
    (hk : k ≤ t.edgeCount) :
    ∃ net ft run, shortestPathNetwork t (.node d) [] = .ok net ∧ net.withFailures k = .ok ft ∧
      (∀ rounds, ft.simulate rounds = .ok ((List.range (rounds + 1)).map run)) ∧
      ∀ σ : Assignment, σ.WellSorted → ∀ n ∈ t.nodes,
        let route (i : Nat) := AnnotatedNetwork.valuesOf σ (run i) n
        let failed := { e | ft.IsDown σ e }
        (∀ i m, t.IsDistance failed d n m → m ≤ i → route i = .some (.int m)) ∧
        (∀ i, (∀ m, t.IsDistance failed d n m → i < m) → route i = .none) ∧
        (∀ i, t.nodeCount - 1 ≤ i → route i = route (t.nodeCount - 1)) ∧
        ((∀ e ∈ t.edges, ¬ ft.IsDown σ e) →
          (∀ i m, t.distance d n = .ok m → m ≤ i → route i = .some (.int m)) ∧
          ((∀ i, route i = .none) ↔ t.distance d n = .error (.noPath d n))) := by
  obtain ⟨net, ft, hnet, hft, -, -, hcounts⟩ := exists_countsHops hd hk
  obtain ⟨σ₀, hσ₀⟩ := Assignment.exists_wellSorted
  obtain ⟨run, hrun⟩ := (hcounts.follows σ₀).exists_run hσ₀
  refine ⟨net, ft, run, hnet, hft, hrun.simulate, fun σ hσ n hn => ⟨fun i m hm hi => ?_,
    fun i hi => ?_, fun i hi => ?_, fun hup => ⟨fun i m hm hi => ?_, ?_⟩⟩⟩
  · exact hcounts.valuesOf_of_le hσ hrun hn hm hi
  · exact hcounts.valuesOf_of_lt hσ hrun hn hi
  · exact hcounts.valuesOf_constant hσ hrun hn hd hi
  · exact hcounts.valuesOf_of_distance hσ hrun hn hd hup hm hi
  · exact hcounts.valuesOf_eq_none_iff hσ hrun hn hd hup

theorem Topology.isDistance_detour {F : Set Edge}
    (hF : ∀ e ∈ detour.edges, e ∈ F ↔ e = ⟨"A", "C"⟩) : detour.IsDistance F "A" "C" 2 := by
  have hstart : detour.Walk F "A" "B" 1 :=
    Walk.start.step (by decide) fun h => absurd ((hF _ (by decide)).1 h) (by decide)
  refine ⟨hstart.step (by decide) fun h => absurd ((hF _ (by decide)).1 h) (by decide), ?_⟩
  intro m hm
  by_contra hlt
  cases m with
  | zero => exact absurd (walk_zero_iff.1 hm) (by decide)
  | succ m =>
    obtain rfl : m = 0 := by omega
    obtain ⟨p, -, hpF, hwalk⟩ := walk_succ_iff.1 hm
    obtain rfl := walk_zero_iff.1 hwalk
    exact hpF ((hF _ (by decide)).2 rfl)

/-- If the direct edge is down, the node gets its route over the detour, one round later. -/
theorem shortestPathNetwork_simulate_detour :
    ∃ net ft run, shortestPathNetwork .detour (.node "A") [] = .ok net ∧
      net.withFailures 1 = .ok ft ∧
      (∀ rounds, ft.simulate rounds = .ok ((List.range (rounds + 1)).map run)) ∧
      ∃ σ : Assignment, σ.WellSorted ∧
        (∀ e ∈ Topology.detour.edges, ft.IsDown σ e ↔ e = ⟨"A", "C"⟩) ∧
        AnnotatedNetwork.valuesOf σ (run 1) "C" = .none ∧
        ∀ i, 2 ≤ i → AnnotatedNetwork.valuesOf σ (run i) "C" = .some (.int 2) := by
  obtain ⟨net, ft, run, hnet, hft, hsimulate, hroutes⟩ :=
    shortestPathNetwork_simulate .detour "A" (by decide) 1 (by decide)
  obtain ⟨σ₀, hσ₀⟩ := Assignment.exists_wellSorted
  have hσ := hσ₀.withFailure ⟨"A", "C"⟩
  have hdown : ∀ e ∈ Topology.detour.edges,
      ft.IsDown (σ₀.withFailure ⟨"A", "C"⟩) e ↔ e = ⟨"A", "C"⟩ := by
    obtain ⟨-, hnames, rfl⟩ := Network.eq_failing_of_withFailures hft
    intro e he
    rw [Network.isDown_failing_one]
    constructor
    · intro hvalue
      exact (failureValue_inj Topology.namesDiffer_detour (by decide) he hvalue).symm
    · rintro rfl
      rfl
  have hdistance := Topology.isDistance_detour hdown
  obtain ⟨hle, hlt, -⟩ := hroutes _ hσ "C" (by decide)
  refine ⟨net, ft, run, hnet, hft, hsimulate, _, hσ, hdown, hlt 1 fun m hm => ?_, fun i hi => ?_⟩
  · rw [hm.unique hdistance]
    exact Nat.lt_succ_self 1
  · exact hle i 2 hdistance hi

end RouteInvariants
