import RouteInvariants.Proofs.LawSearch

/-!
Exact annotations of shortest paths. A node at distance `m` from the destination holds nothing before
time `m` and the number `m` from then on, and a node that no path leads to never holds a route
(`Invariant.exactHops`). At each time the annotations describe one route per node, the distance if it
is at most the time (`reads_exactHops`), and a node chooses the route of a time from those that its
predecessors had before. So the annotations verify on every topology
(`shortestPathNetwork_exactHops`).
-/

namespace RouteInvariants

/-- The route of a node at every time: nothing up to its distance from `d` and then the distance. -/
def Invariant.exactHops (t : Topology) (d n : String) : Invariant :=
  match t.distance d n with
  | .ok m => .until_ (.datum (.int m)) .isNone (.compare .eq (.expr (.present (.int m))))
  | .error _ => .never .isSome

/-- The count of a node at a time: its distance, once there has been time for it. -/
noncomputable def Topology.hopsAt (t : Topology) (d n : String) (time : ℤ) : WithTop ℤ :=
  if t.hops ∅ d n ≤ (time : WithTop ℤ) then t.hops ∅ d n else ⊤

/-- The annotation says which count a node has at each time. -/
theorem Network.reads_exactHops {net : Network} {t : Topology} {d n : String} {σ : Assignment}
    (hty : net.routeTy = .option .int) (hσ : σ.WellSorted) (hd : d ∈ t.nodes) (hn : n ∈ t.nodes) :
    net.Reads σ Value.ofCount (.exactHops t d n) fun time a => a = t.hopsAt d n time := by
  intro r a hr time
  have hrty := hr.ty.trans hty
  rcases Topology.hops_cases t ∅ d n with ⟨m, hm, heq⟩ | ⟨hno, heq⟩
  · have hnone : HoldsAt σ (Predicate.isNone.applyTo r) ↔ a = ⊤ := by
      rw [Predicate.holdsAt_isNone hrty, hr.eval, Value.head?_ofCount_eq_zero]
    obtain ⟨hformed, hequals⟩ := Predicate.equals_spec (σ := σ) (e := .present (.int m)) (r := r)
      (x := ⟨.app (.con 1) (.int m), .option .int⟩) rfl hrty (hrty ▸ Ty.noConfusion)
    have hnumber : HoldsAt σ ((Predicate.compare .eq (.expr (.present (.int m)))).applyTo r) ↔
        a = ((m : ℤ) : WithTop ℤ) := by
      rw [hequals, hr.eval]
      exact Value.ofCount_injective.eq_iff' rfl
    obtain ⟨hinv, hholds⟩ := Invariant.until_spec (t := time) hσ (w := .datum (.int m)) trivial
      (q := m) rfl (Predicate.isFormed_isNone hrty) hformed
    rw [Invariant.exactHops, (Topology.distance_eq_ok_iff hd hn).2 hm]
    refine ⟨hinv, hholds.trans ?_⟩
    show _ ↔ a = t.hopsAt d n time
    rw [hnone, hnumber, Topology.hopsAt, heq]
    by_cases hle : (m : ℤ) ≤ time
    · have hq : (m : Rat) ≤ time := by exact_mod_cast hle
      rw [if_pos (WithTop.coe_le_coe.2 hle)]
      simp [hq, not_lt.2 hq]
    · have hq : (time : Rat) < m := by exact_mod_cast not_le.1 hle
      rw [if_neg fun h => hle (WithTop.coe_le_coe.1 h)]
      simp [hq, not_le.2 hq]
  · rw [Invariant.exactHops, (Topology.distance_eq_noPath_iff hd hn).2 hno]
    refine ⟨Invariant.isFormed_never.2 (Predicate.isFormed_isSome hrty), ?_⟩
    show _ ↔ a = t.hopsAt d n time
    rw [Invariant.holdsAt_never, Predicate.holdsAt_isSome hrty, hr.eval,
      Value.head?_ofCount_eq_one, not_not, Topology.hopsAt, heq, ite_self]
    exact and_iff_right (Predicate.isFormed_isSome hrty)

namespace AnnotatedNetwork

/-- A network that counts hops, with exact annotations that are its properties too. -/
structure IsExact (a : AnnotatedNetwork) (t : Topology) (d : String) : Prop where
  computes : a.network.Computes Value.ofCount fun _ => hopAlgebra ∅ d
  topology : a.network.topology = t
  routeTy : a.network.routeTy = .option .int
  formed : IsFormed a.network.constraints
  annotation : ∀ n ∈ t.nodes, a.annotationOf n = .exactHops t d n
  property : ∀ n ∈ t.nodes, a.modularOf n = .exactHops t d n

namespace IsExact

variable {a : AnnotatedNetwork} {d n : String} (h : a.IsExact a.network.topology d)
  (hd : d ∈ a.network.topology.nodes) (hn : n ∈ a.network.topology.nodes)
include h hd hn

theorem reads_annotation (σ : Assignment) (hσ : σ.WellSorted) :
    a.network.Reads σ Value.ofCount (a.annotationOf n) fun time x =>
      x = a.network.topology.hopsAt d n time :=
  h.annotation n hn ▸ Network.reads_exactHops h.routeTy hσ hd hn

theorem reads_property (σ : Assignment) (hσ : σ.WellSorted) :
    a.network.Reads σ Value.ofCount (a.modularOf n) fun time x =>
      x = a.network.topology.hopsAt d n time :=
  h.property n hn ▸ Network.reads_exactHops h.routeTy hσ hd hn

theorem passes_base : a.Passes .base n := by
  rw [passes_base_iff (P := fun _ n time x => x = a.network.topology.hopsAt d n time) h.computes hn
    (h.reads_annotation hd hn)]
  exact ⟨h.formed, fun _ _ _ => Topology.rounds_hopAlgebra 0 n⟩

/-- The counts of a time are chosen from those of the time before. -/
theorem passes_step : a.Passes .step n := by
  rw [passes_step_iff (P := fun _ n time x => x = a.network.topology.hopsAt d n time) h.computes hn
    (h.reads_annotation hd hn) fun σ hσ p hp =>
      h.reads_annotation hd (Topology.mem_nodes_of_mem_predecessors hp) σ hσ]
  refine ⟨h.formed, fun _ _ _ f time hpositive hearlier => ?_⟩
  obtain ⟨i, rfl⟩ : ∃ i : Nat, time = (i + 1 : Nat) := ⟨(time - 1).toNat, by omega⟩
  have hbefore : ∀ p ∈ a.network.topology.predecessors n,
      f p = (Topology.within i ∘ a.network.topology.hops ∅ d) p := by
    intro p hp
    have hp' := hearlier p hp
    rwa [show ((i + 1 : Nat) : ℤ) - 1 = i by omega] at hp'
  rw [RouteAlgebra.next_congr _ _ hbefore, Topology.next_within]
  rfl

theorem passes_safety : a.Passes .safety n := by
  rw [passes_safety_iff (P := fun _ n time x => x = a.network.topology.hopsAt d n time)
    (Q := fun _ n time x => x = a.network.topology.hopsAt d n time) h.computes hn
    (h.reads_annotation hd hn) (h.reads_property hd hn)]
  exact ⟨h.formed, fun _ _ _ _ _ _ hx => hx⟩

omit hn in
theorem verified : a.Verified := by
  refine verified_of_passes fun kind hkind n hn => ?_
  have hkinds : kind = .base ∨ kind = .step ∨ kind = .safety := by
    simpa [CheckKind.modular] using hkind
  rcases hkinds with rfl | rfl | rfl
  · exact h.passes_base hd hn
  · exact h.passes_step hd hn
  · exact h.passes_safety hd hn

end IsExact

end AnnotatedNetwork

/-- Exact annotations of shortest paths verify on every topology and for every destination. The
network can be built, and with an exact oracle the modular check of it passes if each node that a path
leads to is annotated with nothing before its distance and the distance from then on, all other nodes
with no route at any time, and the properties are the annotations. A test of the laws of the merge, if
there is to be one before, passes with every number of examples. -/
theorem shortestPathNetwork_exactHops (t : Topology) (d : String) (hd : d ∈ t.nodes) :
    ∃ net, shortestPathNetwork t (.node d) [] = .ok net ∧
      ∀ a : AnnotatedNetwork, a.network = net →
        (∀ n ∈ t.nodes, a.annotationOf n = .exactHops t d n ∧ a.modularOf n = .exactHops t d n) →
        ∀ oracle : Oracle, oracle.Exact →
        ∀ (arrival : Arrival) (settings : CheckSettings) (s : Session),
        (settings.checkMergeLaws = true → 0 < settings.mergeLawExamples) →
          ((a.checkAnnotations oracle arrival settings).outcome s).1 = .ok none := by
  obtain ⟨net, hnet, hparts⟩ :=
    Protocol.exists_network_node Protocol.isValid_hopCounts hd [] List.nodup_nil
  refine ⟨net, hnet, fun a ha hmaps oracle hexact arrival settings s hexamples => ?_⟩
  subst ha
  have htopology := hparts.topology
  subst htopology
  have hcomputes : a.network.Computes Value.ofCount fun _ => hopAlgebra ∅ d :=
    Network.computes_ofCount hparts.routeTy fun σ =>
      (hopAlgebra_empty d).symm ▸ hparts.follows_hopCounts
  have hformed : IsFormed a.network.constraints := by
    rw [Network.constraints, hparts.symbolics]
    exact ⟨_, rfl⟩
  have hexactly : a.IsExact a.network.topology d :=
    ⟨hcomputes, rfl, hparts.routeTy, hformed, fun n hn => (hmaps n hn).1, fun n hn => (hmaps n hn).2⟩
  have hlaws : a.KeepsLaws settings := by
    intro hasked
    rw [hparts.merge, hparts.routeTy]
    exact Merge.checkLaws_minOption (hexamples hasked)
  exact (hexactly.verified hd).checkAnnotations_of_laws hexact hlaws s

/-- A part of an annotated network may be given by a function of the nodes. -/
theorem AnnotatedNetwork.build_mapNodes (net : Network) (f g : String → Invariant)
    (p : String → Predicate) : build net (net.topology.mapNodes f) (net.topology.mapNodes g)
      (net.topology.mapNodes p) = .ok ⟨net, net.topology.mapNodes f, net.topology.mapNodes g,
        net.topology.mapNodes p⟩ := by
  have hkeys {α : Type} (part : Part) (f : String → α) :
      checkNodes net part (net.topology.mapNodes f) = .ok () := by
    refine Network.checkKeys_eq_ok fun n => ?_
    rw [Topology.mapNodes, Entries.keys, List.map_map]
    exact Iff.of_eq (congrArg (n ∈ ·) (List.map_id net.topology.nodes))
  rw [build, hkeys, hkeys, hkeys]
  rfl

/-- The detour from the node between: the first node is never reached. The laws are tested. -/
theorem shortestPathNetwork_exactHops_detour : ∃ (net : Network) (oracle : Oracle),
    shortestPathNetwork .detour (.node "B") [] = .ok net ∧ oracle.Exact ∧
      let exact := Topology.detour.mapNodes (Invariant.exactHops .detour "B")
      let settings := { (default : CheckSettings) with checkMergeLaws := true, mergeLawExamples := 50 }
      ∃ a, AnnotatedNetwork.build net exact exact (Topology.detour.mapNodes fun _ => .always) =
          .ok a ∧
        ((a.checkAnnotations oracle .inOrder settings).outcome default).1 = .ok none := by
  obtain ⟨net, hnet, hcheck⟩ := shortestPathNetwork_exactHops .detour "B" (by decide)
  obtain ⟨oracle, hexact⟩ := Oracle.exists_exact
  have htopology : net.topology = .detour := by
    obtain ⟨net', hnet', hparts⟩ := Protocol.exists_network_node (t := .detour) (n := "B")
      Protocol.isValid_hopCounts (by decide) [] List.nodup_nil
    cases hnet.symm.trans hnet'
    exact hparts.topology
  have hbuild := AnnotatedNetwork.build_mapNodes net (Invariant.exactHops .detour "B")
    (Invariant.exactHops .detour "B") fun _ => .always
  rw [htopology] at hbuild
  refine ⟨net, oracle, hnet, hexact, _, hbuild, ?_⟩
  refine hcheck _ rfl (fun n hn => ?_) oracle hexact .inOrder _ default fun _ => by decide
  have hget : Entries.get? (Topology.detour.mapNodes (Invariant.exactHops .detour "B")) n = some _ :=
    Entries.get?_map_self _ hn
  rw [AnnotatedNetwork.annotationOf, AnnotatedNetwork.modularOf, hget]
  exact ⟨rfl, rfl⟩

end RouteInvariants
