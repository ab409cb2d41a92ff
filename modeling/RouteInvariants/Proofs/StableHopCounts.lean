import RouteInvariants.Proofs.HopCounts

/-!
The stable states of a shortest-path network. Under every assignment there is exactly one: the nodes
hold their hop distances along the edges that are not down (`CountsHops.stable_iff`). The monolithic
check asks for stable states that violate a property, so its verdict is about the distances alone
(`CountsHops.passes_iff_distances`).
-/

namespace RouteInvariants

namespace Topology

variable {t : Topology} {F : Set Edge} {d n : String} {m : Nat}

open Classical in
/-- The route that holds the distance of a node, and nothing where no walk leads to it. -/
noncomputable def distanceRoute (t : Topology) (F : Set Edge) (d n : String) : Value :=
  if h : ∃ m, t.IsDistance F d n m then .some (.int h.choose) else .none

theorem IsDistance.distanceRoute_eq (h : t.IsDistance F d n m) :
    t.distanceRoute F d n = .some (.int m) := by
  have hex : ∃ m, t.IsDistance F d n m := ⟨m, h⟩
  rw [distanceRoute, dif_pos hex, hex.choose_spec.unique h]

theorem distanceRoute_eq_ofCount : t.distanceRoute F d n = .ofCount (t.hops F d n) := by
  rcases hops_cases t F d n with ⟨m, hm, heq⟩ | ⟨hno, heq⟩
  · rw [hm.distanceRoute_eq, heq]
    rfl
  · rw [distanceRoute, dif_neg fun ⟨m, hm⟩ => hno m hm.walk, heq]
    rfl

/-- The distances are the only routes that all nodes choose again. -/
theorem eq_next_iff {f : String → WithTop ℤ} :
    (∀ n ∈ t.nodes, f n = (hopAlgebra F d).next t f n) ↔ ∀ n ∈ t.nodes, f n = t.hops F d n := by
  constructor
  · exact fun hf n hn => eq_hops_of_next hf hn
  · intro hhops n hn
    rw [RouteAlgebra.next_congr _ _ fun p hp => hhops p (mem_nodes_of_mem_predecessors hp), next_hops,
      hhops n hn]

end Topology

namespace Network.CountsHops

variable {ft : Network} {t : Topology} {d : String} {σ : Assignment} {ρ : String → Value}
  (h : ft.CountsHops t d)
include h

/-- Routes are numbers of hops. -/
theorem computes : ft.Computes Value.ofCount fun σ => hopAlgebra { e | ft.IsDown σ e } d :=
  computes_ofCount h.routeTy h.follows

/-- A state is stable where its routes are the distances. -/
theorem stable_iff (hρ : ∀ n ∈ t.nodes, (ρ n).fits (.option .int) = true) :
    (∀ n ∈ t.nodes, ∃ x, ft.update n (ft.routes ρ) = .ok x ∧ x.term.eval σ [] = ρ n) ↔
      ∀ n ∈ t.nodes, ρ n = t.distanceRoute { e | ft.IsDown σ e } d n := by
  rw [← h.topology, ← h.routeTy] at hρ
  obtain ⟨f, hf⟩ := h.computes.exists_elements hρ
  have hchosen : ∀ n ∈ t.nodes, ((∃ x, ft.update n (ft.routes ρ) = .ok x ∧
      x.term.eval σ [] = ρ n) ↔ f n = (hopAlgebra { e | ft.IsDown σ e } d).next t f n) := by
    intro n hn
    rw [h.computes.stable_iff hf (h.topology ▸ hn), h.topology]
  have hdistance : ∀ n ∈ t.nodes, (ρ n = t.distanceRoute { e | ft.IsDown σ e } d n ↔
      f n = t.hops { e | ft.IsDown σ e } d n) := by
    intro n hn
    rw [hf n (h.topology ▸ hn), Topology.distanceRoute_eq_ofCount, Value.ofCount_injective.eq_iff]
  rw [forall₂_congr hchosen, forall₂_congr hdistance, Topology.eq_next_iff]

/-- The monolithic check passes where the distances have the properties. -/
theorem passes_iff_distances {a : AnnotatedNetwork} (ha : a.network = ft)
    (hsome : ∃ σ : Assignment, σ.WellSorted ∧ HoldsAt σ ft.constraints) (n : String) :
    a.Passes .monolithic n ↔ ∀ σ : Assignment, σ.WellSorted → HoldsAt σ ft.constraints →
      ∀ n ∈ t.nodes, HoldsAt σ
        ((a.monolithicOf n).applyTo (ft.route (t.distanceRoute { e | ft.IsDown σ e } d n))) := by
  subst ha
  obtain ⟨σ₀, hσ₀, hallows₀⟩ := hsome
  rw [AnnotatedNetwork.passes_monolithic_iff h.computes n
    (t.hops { e | a.network.IsDown σ₀ e } d), h.topology]
  simp only [Topology.distanceRoute_eq_ofCount, Topology.eq_next_iff]
  constructor
  · rintro ⟨-, hholds⟩ σ hσ hallows m hm
    exact hholds σ hσ hallows _ (fun _ _ => rfl) m hm
  · intro hholds
    refine ⟨⟨hallows₀.isFormed, fun m hm => (hholds σ₀ hσ₀ hallows₀ m hm).isFormed⟩,
      fun σ hσ hallows f hf m hm => ?_⟩
    rw [hf m hm]
    exact hholds σ hσ hallows m hm

end Network.CountsHops

/-- A shortest-path network has exactly one stable state, for every bound on the edges that may be
down and for all values of the failures. Routes of all nodes, with whatever numbers, are equal to
their updates exactly where every node holds its distance from the destination along the edges that
are not down, or nothing where there is no walk. So with an exact oracle the monolithic check passes
exactly where, for all values of the failures that are allowed, the distances have the properties. -/
theorem shortestPathNetwork_stable (t : Topology) (d : String) (hd : d ∈ t.nodes) (k : Nat)
    (hk : k ≤ t.edgeCount) :
    ∃ net ft, shortestPathNetwork t (.node d) [] = .ok net ∧ net.withFailures k = .ok ft ∧
      (∀ (σ : Assignment) (ρ : String → Value),
        (∀ n ∈ t.nodes, (ρ n).fits (.option .int) = true) →
        ((∀ n ∈ t.nodes, ∃ x, ft.update n (ft.routes ρ) = .ok x ∧ x.term.eval σ [] = ρ n) ↔
          ∀ n ∈ t.nodes, ρ n = t.distanceRoute { e | ft.IsDown σ e } d n)) ∧
      ∀ a : AnnotatedNetwork, a.network = ft → ∀ oracle : Oracle, oracle.Exact →
        ∀ (arrival : Arrival) (settings : CheckSettings) (s : Session),
        ((a.checkMonolithic oracle arrival settings).outcome s).1 = .ok none ↔
          ∀ σ : Assignment, σ.WellSorted → HoldsAt σ ft.constraints → ∀ n ∈ t.nodes,
            HoldsAt σ ((a.monolithicOf n).applyTo
              (ft.route (t.distanceRoute { e | ft.IsDown σ e } d n))) := by
  obtain ⟨net, ft, hnet, hft, hwith, hsymbolics, hcounts⟩ := exists_countsHops hd hk
  refine ⟨net, ft, hnet, hft, fun σ ρ hρ => hcounts.stable_iff hρ,
    fun a ha oracle hexact arrival settings s => ?_⟩
  rw [AnnotatedNetwork.checkMonolithic_eq_none_iff hexact arrival settings s d,
    hcounts.passes_iff_distances ha (hwith.exists_allowed_up hsymbolics)]

/-- Whichever edge is down, there is a way to the last node of the detour. -/
theorem shortestPathNetwork_stable_detour : ∃ (net ft : Network) (oracle : Oracle),
    shortestPathNetwork .detour (.node "A") [] = .ok net ∧ net.withFailures 1 = .ok ft ∧
      oracle.Exact ∧ ((AnnotatedNetwork.checkMonolithic
        ⟨ft, [], [], [("A", .always), ("B", .always), ("C", .isSome)]⟩ oracle .inOrder
          default).outcome default).1 = .ok none := by
  obtain ⟨net, ft, hnet, hft, -, hcheck⟩ :=
    shortestPathNetwork_stable .detour "A" (by decide) 1 (by decide)
  obtain ⟨oracle, hexact⟩ := Oracle.exists_exact
  refine ⟨net, ft, oracle, hnet, hft, hexact, ?_⟩
  rw [hcheck _ rfl oracle hexact]
  have hty : ft.routeTy = .option .int := by
    obtain ⟨net', ft', hnet', hft', -, -, hcounts⟩ :=
      exists_countsHops (t := .detour) (d := "A") (k := 1) (by decide) (by decide)
    cases hnet.symm.trans hnet'
    cases hft.symm.trans hft'
    exact hcounts.routeTy
  obtain ⟨-, hnames, rfl⟩ := Network.eq_failing_of_withFailures hft
  intro σ _ _ n hn
  have hn' : n = "A" ∨ n = "B" ∨ n = "C" := by simpa using (show n ∈ ["A", "B", "C"] from hn)
  rcases hn' with rfl | rfl | rfl
  · exact AnnotatedNetwork.holdsAt_always
  · exact AnnotatedNetwork.holdsAt_always
  · obtain ⟨m, hwalk⟩ := Topology.exists_walk_detour_failing (σ := σ) hnames
    obtain ⟨m, -, hdistance⟩ := Topology.exists_isDistance hwalk
    rw [hdistance.distanceRoute_eq]
    exact (Predicate.holdsAt_isSome hty).2 rfl

end RouteInvariants
