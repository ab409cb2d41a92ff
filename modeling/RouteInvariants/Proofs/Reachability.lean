import RouteInvariants.Proofs.AlgebraChecks
import RouteInvariants.Proofs.Protocols

/-!
The reachability network. Its routes say that a node has heard from the destination: the destination
has, an edge that is not down passes the news on, and one report is enough (`hearing`). So the nodes
that walks lead to have heard in every stable state (`heard_of_reachable`), and a state in which only
they have is stable (`next_reachable`). There may be more stable states, since nodes on a cycle can
keep up what none of them has from the destination; the least one decides what the monolithic check
says of nodes that are to hold a route (`passes_iff_reachable`).
-/

namespace RouteInvariants

/-- Whether the nodes have heard from one of some sources. -/
def hearing (sources : String → Bool) : RouteAlgebra Bool where
  start := sources
  send _ b := b
  choose := or

namespace Topology

/-- Some walk that avoids the edges of `F` leads to the node. -/
def Reachable (t : Topology) (F : Set Edge) (d n : String) : Prop := ∃ m, t.Walk F d n m

open Classical in
/-- The route of a node that is reachable, and nothing at others. -/
noncomputable def reachRoute (t : Topology) (F : Set Edge) (d n : String) : Value :=
  if t.Reachable F d n then .some (.con 0) else .none

variable {t : Topology} {F : Set Edge} {d n : String} {f : String → Bool}

theorem reachable_iff : t.Reachable F d n ↔
    n = d ∨ ∃ p ∈ t.predecessors n, ⟨p, n⟩ ∉ F ∧ t.Reachable F d p := by
  constructor
  · rintro ⟨m, hwalk⟩
    cases hwalk with
    | start => exact .inl rfl
    | step hwalk hp hF => exact .inr ⟨_, hp, hF, _, hwalk⟩
  · rintro (rfl | ⟨p, hp, hF, m, hwalk⟩)
    · exact ⟨0, .start⟩
    · exact ⟨m + 1, hwalk.step hp hF⟩

/-- A node hears from the sources if it is one or if a predecessor has heard from them. -/
theorem next_hearing_iff {sources : String → Bool} :
    ((hearing sources).dropping false F).next t f n = true ↔
      sources n = true ∨ ∃ p ∈ t.predecessors n, ⟨p, n⟩ ∉ F ∧ f p = true := by
  have hfold (bs : List Bool) (b : Bool) : bs.foldl or b = true ↔ b = true ∨ true ∈ bs := by
    induction bs generalizing b with
    | nil => simp
    | cons c bs ih =>
      rw [List.foldl_cons, ih, Bool.or_eq_true, List.mem_cons, or_assoc, @eq_comm _ true c]
  refine (hfold _ _).trans (or_congr_right ?_)
  rw [List.mem_map]
  refine exists_congr fun p => and_congr_right fun _ => ?_
  by_cases hF : ⟨p, n⟩ ∈ F
  · simp [RouteAlgebra.dropping, hF]
  · simp [RouteAlgebra.dropping, hearing, hF]

/-- What has been heard goes along every walk. -/
theorem heard_of_reachable (h : ∀ n ∈ t.nodes,
    f n = ((hearing fun n => decide (n = d)).dropping false F).next t f n) (hn : n ∈ t.nodes)
    (hreach : t.Reachable F d n) : f n = true := by
  obtain ⟨m, hwalk⟩ := hreach
  induction hwalk with
  | start =>
    rw [h d hn, next_hearing_iff]
    exact .inl (decide_eq_true rfl)
  | @step p n m _ hp hF ih =>
    rw [h n hn, next_hearing_iff]
    exact .inr ⟨p, hp, hF, ih (mem_nodes_of_mem_predecessors hp)⟩

open Classical in
/-- The nodes that are reachable need no others. -/
theorem next_reachable (t : Topology) (F : Set Edge) (d n : String) :
    ((hearing fun n => decide (n = d)).dropping false F).next t
      (fun n => decide (t.Reachable F d n)) n = decide (t.Reachable F d n) := by
  rw [Bool.eq_iff_iff, next_hearing_iff]
  simp only [decide_eq_true_eq]
  exact reachable_iff.symm

end Topology

/-! ### News as values -/

namespace Value

/-- The route of a node that has heard from the destination, and of one that has not. -/
def ofHeard : Bool → Value
  | true => .some (.con 0)
  | false => .none

theorem ofHeard_injective : Function.Injective ofHeard := by
  intro a b h
  cases a <;> cases b
  · rfl
  · cases h
  · cases h
  · rfl

theorem head?_ofHeard (b : Bool) : (ofHeard b).head? = Option.some 1 ↔ b = true := by
  cases b <;> decide

theorem fits_unit_iff {v : Value} : v.fits .unit = true ↔ v = .con 0 := by
  constructor
  · intro h
    obtain ⟨i, c, hc, hv, hall⟩ := fits_data rfl h
    match i with
    | 0 =>
      cases hc
      have hargs := List.forall₂_nil_left_iff.1 hall
      rw [hargs] at hv
      exact hv
    | i + 1 => cases hc
  · rintro rfl
    rfl

theorem fits_option_unit_iff {v : Value} :
    v.fits (.option .unit) = true ↔ ∃ b, v = ofHeard b := by
  constructor
  · intro h
    rcases of_fits_option h with rfl | ⟨w, hw, rfl⟩
    · exact ⟨false, rfl⟩
    · exact ⟨true, by rw [fits_unit_iff.1 hw]; rfl⟩
  · rintro ⟨b, rfl⟩
    cases b <;> rfl

end Value

/-- Where the routes are optional units, these are all the routes. -/
theorem Network.computes_ofHeard {net : Network} {A : Assignment → RouteAlgebra Bool}
    (hty : net.routeTy = .option .unit) (h : ∀ σ, net.Follows σ Value.ofHeard (A σ)) :
    net.Computes Value.ofHeard A :=
  ⟨h, Value.ofHeard_injective, fun _ => hty ▸ Value.fits_option_unit_iff⟩

theorem Topology.reachRoute_eq_ofHeard {t : Topology} {F : Set Edge} {d n : String} {b : Bool}
    (hb : b = true ↔ t.Reachable F d n) : t.reachRoute F d n = .ofHeard b := by
  unfold reachRoute
  split_ifs with hreach
  · rw [hb.2 hreach]
    rfl
  · rw [Bool.eq_false_iff.2 fun h => hreach (hb.1 h)]
    rfl

/-! ### The network -/

section Functions

open Value (ofHeard)

variable {σ : Assignment} {x y : Typed} {a b : Bool} {ty : Ty}

theorem applyTo_preferSome (htyx : x.ty = .option .unit) (htyy : y.ty = .option .unit)
    (hx : x.term.eval σ [] = ofHeard a) (hy : y.term.eval σ [] = ofHeard b) :
    ∃ u, Merge.preferSome.applyTo x y = .ok u ∧ u.ty = .option .unit ∧
      u.term.eval σ [] = ofHeard (a || b) := by
  refine ⟨_, bind_eq_ok.2 ⟨_, by rw [htyx, htyy]; rfl, rfl⟩, rfl, ?_⟩
  cases a with
  | true => simp [Term.eval, Typed.ofBool, hx, ofHeard, Value.some, Value.head?, Value.isTrue]
  | false =>
    simp [Term.eval, Typed.ofBool, hx, hy, ofHeard, Value.none, Value.head?, Value.isTrue]

end Functions

namespace Protocol

variable {t : Topology} {d : String} {D : Destination} {ss : List Symbolic} {net : Network}
  {σ : Assignment}

/-- The reachability network tells who hears from the nodes that the destination is at. -/
theorem IsNetwork.follows_hearing
    (h : reachability.IsNetwork (.app (.con 1) (.const (.con 0))) t D ss net) :
    net.Follows σ Value.ofHeard (hearing fun n => D.isAt σ n) where
  origination := h.origination
  initial n hn := by
    refine ⟨Network.isClosed_initialOf hn, net.initial_ty n hn, ?_⟩
    rw [h.initial n (h.topology ▸ hn), Destination.eval_initialTerm_eq]
    by_cases hat : D.isAt σ n = true
    · simp only [hearing, hat, if_true]
      rfl
    · simp only [hearing, hat]
      rfl
  transfer e he x b hx := by
    rw [h.transfer e (h.topology ▸ he)]
    have happly : Transfer.identity.applyTo x = .ok ⟨.call (.arg 0) x.term, x.ty⟩ := rfl
    exact ⟨_, happly, Expr.isClosed_of_appliedTo hx.closed happly, hx.ty, hx.eval⟩
  merge {x y a b} hx hy := by
    obtain ⟨u, hu, hty, heval⟩ := applyTo_preferSome (hx.ty.trans h.routeTy)
      (hy.ty.trans h.routeTy) hx.eval hy.eval
    rw [h.merge]
    exact ⟨u, hu, Expr.isClosed_of_appliedTo₂ hx.closed hy.closed hu, hty.trans h.routeTy.symm,
      heval⟩

end Protocol

namespace Network

/-- The network tells who hears from a destination along the edges that are not down. -/
structure Hears (ft : Network) (t : Topology) (d : String) : Prop where
  topology : ft.topology = t
  routeTy : ft.routeTy = .option .unit
  follows : ∀ σ : Assignment, ft.Follows σ Value.ofHeard
    ((hearing fun n => decide (n = d)).dropping false { e | ft.IsDown σ e })

end Network

/-- The reachability network can be built with failures. -/
theorem exists_hears {t : Topology} {d : String} (hd : d ∈ t.nodes) {k : Nat}
    (hk : k ≤ t.edgeCount) :
    ∃ net ft, reachabilityNetwork t (.node d) [] = .ok net ∧ net.withFailures k = .ok ft ∧
      Network.IsWithFailures net ft k ∧ net.symbolics = [] ∧ ft.Hears t d := by
  obtain ⟨net, hfresh, hnet, hparts, hft⟩ :=
    Protocol.exists_failing_node Protocol.isValid_reachability hd hk
  exact ⟨net, _, hnet, hft, Network.withFailures_spec hft, hparts.symbolics, hparts.topology,
    hparts.routeTy, fun σ => hparts.follows_failing Protocol.isValid_reachability
      hparts.follows_hearing rfl hfresh⟩

namespace Network.Hears

variable {ft : Network} {t : Topology} {d n : String} {σ : Assignment} {ρ : String → Value}
  (h : ft.Hears t d)
include h

theorem computes : ft.Computes Value.ofHeard fun σ =>
    (hearing fun n => decide (n = d)).dropping false { e | ft.IsDown σ e } :=
  computes_ofHeard h.routeTy h.follows

/-- In a stable state all nodes that are reachable hold a route. -/
theorem eq_some_of_stable (hρ : ∀ n ∈ t.nodes, (ρ n).fits (.option .unit) = true)
    (hstable : ∀ n ∈ t.nodes, ∃ x, ft.update n (ft.routes ρ) = .ok x ∧ x.term.eval σ [] = ρ n)
    (hn : n ∈ t.nodes) (hreach : t.Reachable { e | ft.IsDown σ e } d n) :
    ρ n = .some (.con 0) := by
  have htopology := h.topology
  subst htopology
  rw [← h.routeTy] at hρ
  obtain ⟨f, hf⟩ := h.computes.exists_elements hρ
  have hheard := Topology.heard_of_reachable
    (fun m hm => (h.computes.stable_iff hf hm).1 (hstable m hm)) hn hreach
  rw [hf n hn, hheard]
  rfl

/-- The state in which only they do is stable. -/
theorem stable_reachRoute (hn : n ∈ t.nodes) :
    let ρ := t.reachRoute { e | ft.IsDown σ e } d
    ∃ x, ft.update n (ft.routes ρ) = .ok x ∧ x.term.eval σ [] = ρ n := by
  classical
  have htopology := h.topology
  subst htopology
  exact (h.computes.stable_iff (fun m _ => Topology.reachRoute_eq_ofHeard decide_eq_true_iff) hn).2
    (Topology.next_reachable ft.topology _ d n).symm

variable {a : AnnotatedNetwork} {S : Set String} (ha : a.network = ft)
  (hproperties : ∀ n ∈ t.nodes,
    (n ∈ S → a.monolithicOf n = .isSome) ∧ (n ∉ S → a.monolithicOf n = .always))
include ha hproperties

omit ha in
/-- The properties say that the nodes of the set have heard. -/
theorem holdsAt_monolithic_iff (hn : n ∈ t.nodes) (b : Bool) :
    HoldsAt σ ((a.monolithicOf n).applyTo (ft.route (.ofHeard b))) ↔ (n ∈ S → b = true) := by
  by_cases hS : n ∈ S
  · rw [(hproperties n hn).1 hS, Predicate.holdsAt_isSome h.routeTy, imp_iff_right hS]
    exact Value.head?_ofHeard b
  · rw [(hproperties n hn).2 hS]
    exact iff_of_true AnnotatedNetwork.holdsAt_always fun hmem => absurd hmem hS

/-- The monolithic check passes where the nodes of the set are reachable, whatever is down. -/
theorem passes_iff_reachable (hformed : IsFormed ft.constraints) (m : String) :
    a.Passes .monolithic m ↔ ∀ σ : Assignment, σ.WellSorted → HoldsAt σ ft.constraints →
      ∀ n ∈ t.nodes, n ∈ S → t.Reachable { e | ft.IsDown σ e } d n := by
  classical
  have htopology := h.topology
  subst htopology ha
  rw [AnnotatedNetwork.passes_monolithic_iff h.computes m fun _ => true]
  constructor
  · rintro ⟨-, hholds⟩ σ hσ hallows n hn hS
    have hheard := (h.holdsAt_monolithic_iff hproperties hn _).1 (hholds σ hσ hallows
      (fun n => decide (a.network.topology.Reachable { e | a.network.IsDown σ e } d n))
      (fun n _ => (Topology.next_reachable a.network.topology _ d n).symm) n hn) hS
    exact decide_eq_true_iff.1 hheard
  · intro hreach
    obtain ⟨σ₀, -⟩ := Assignment.exists_wellSorted
    refine ⟨⟨hformed, fun n hn => HoldsAt.isFormed (σ := σ₀) ?_⟩, fun σ hσ hallows f hf n hn => ?_⟩
    · exact (h.holdsAt_monolithic_iff hproperties hn true).2 fun _ => rfl
    · refine (h.holdsAt_monolithic_iff hproperties hn (f n)).2 fun hS => ?_
      exact Topology.heard_of_reachable hf hn (hreach σ hσ hallows n hn hS)

end Network.Hears

/-- The monolithic check of a reachability network decides connectivity under failures, for every
bound on the edges that may be down. In every stable state the nodes that are reachable from the
destination along the edges that are not down hold a route, and the state in which exactly these nodes
hold one is stable. So with an exact oracle the check, of a network in which the nodes of some set are
to hold a route, passes exactly where for all values of the failures that are allowed every node of the
set is reachable. -/
theorem reachabilityNetwork_connectivity (t : Topology) (d : String) (hd : d ∈ t.nodes) (k : Nat)
    (hk : k ≤ t.edgeCount) :
    ∃ net ft, reachabilityNetwork t (.node d) [] = .ok net ∧ net.withFailures k = .ok ft ∧
      (∀ (σ : Assignment) (ρ : String → Value),
        (∀ n ∈ t.nodes, (ρ n).fits (.option .unit) = true) →
        (∀ n ∈ t.nodes, ∃ x, ft.update n (ft.routes ρ) = .ok x ∧ x.term.eval σ [] = ρ n) →
        ∀ n ∈ t.nodes, t.Reachable { e | ft.IsDown σ e } d n → ρ n = .some (.con 0)) ∧
      (∀ (σ : Assignment), ∀ n ∈ t.nodes,
        let ρ := t.reachRoute { e | ft.IsDown σ e } d
        ∃ x, ft.update n (ft.routes ρ) = .ok x ∧ x.term.eval σ [] = ρ n) ∧
      ∀ S ⊆ { n | n ∈ t.nodes }, ∀ a : AnnotatedNetwork, a.network = ft →
        (∀ n ∈ t.nodes,
          (n ∈ S → a.monolithicOf n = .isSome) ∧ (n ∉ S → a.monolithicOf n = .always)) →
        ∀ oracle : Oracle, oracle.Exact →
        ∀ (arrival : Arrival) (settings : CheckSettings) (s : Session),
        ((a.checkMonolithic oracle arrival settings).outcome s).1 = .ok none ↔
          ∀ σ : Assignment, σ.WellSorted → HoldsAt σ ft.constraints →
            ∀ n ∈ S, t.Reachable { e | ft.IsDown σ e } d n := by
  obtain ⟨net, ft, hnet, hft, hwith, hsymbolics, hhears⟩ := exists_hears hd hk
  refine ⟨net, ft, hnet, hft, fun σ ρ hρ hstable n hn hreach => ?_, fun σ n hn => ?_,
    fun S hS a ha hproperties oracle hexact arrival settings s => ?_⟩
  · exact hhears.eq_some_of_stable hρ hstable hn hreach
  · exact hhears.stable_reachRoute hn
  · obtain ⟨σ₀, -, hallows₀⟩ := hwith.exists_allowed_up hsymbolics
    rw [AnnotatedNetwork.checkMonolithic_eq_none_iff hexact arrival settings s d,
      hhears.passes_iff_reachable ha hproperties hallows₀.isFormed]
    exact forall₃_congr fun σ _ _ => forall_congr' fun n =>
      ⟨fun hreach hn => hreach (hS hn) hn, fun hreach _ hn => hreach hn⟩

/-- Whichever edge is down, there is a way to the last node of the detour, but not always one to the
node between. -/
theorem reachabilityNetwork_connectivity_detour : ∃ (net ft : Network) (oracle : Oracle),
    reachabilityNetwork .detour (.node "A") [] = .ok net ∧ net.withFailures 1 = .ok ft ∧
      oracle.Exact ∧
      let requiring (node : String) : AnnotatedNetwork :=
        ⟨ft, [], [], Topology.detour.mapNodes fun n => if n = node then .isSome else .always⟩
      (((requiring "C").checkMonolithic oracle .inOrder default).outcome default).1 = .ok none ∧
        (((requiring "B").checkMonolithic oracle .inOrder default).outcome default).1 ≠
          .ok none := by
  obtain ⟨net, ft, hnet, hft, -, -, hcheck⟩ :=
    reachabilityNetwork_connectivity .detour "A" (by decide) 1 (by decide)
  obtain ⟨oracle, hexact⟩ := Oracle.exists_exact
  refine ⟨net, ft, oracle, hnet, hft, hexact, ?_⟩
  intro requiring
  have hproperties (node : String) : ∀ n ∈ Topology.detour.nodes,
      (n ∈ ({node} : Set String) → (requiring node).monolithicOf n = .isSome) ∧
        (n ∉ ({node} : Set String) → (requiring node).monolithicOf n = .always) := by
    intro n hn
    have hget : (requiring node).monolithicOf n = if n = node then .isSome else .always := by
      rw [AnnotatedNetwork.monolithicOf, show Entries.get? (requiring node).monolithicProperties n =
        some _ from Entries.get?_map_self _ hn, Option.getD_some]
    rw [hget]
    exact ⟨fun h => if_pos h, fun h => if_neg h⟩
  have hverdict (node : String) (hnode : node ∈ Topology.detour.nodes) :=
    hcheck {node} (Set.singleton_subset_iff.2 hnode) (requiring node) rfl (hproperties node) oracle
      hexact .inOrder default default
  constructor
  · rw [hverdict "C" (by decide)]
    obtain ⟨-, hfresh, rfl⟩ := Network.eq_failing_of_withFailures hft
    rintro σ - - n rfl
    exact Topology.exists_walk_detour_failing hfresh
  · rw [ne_eq, hverdict "B" (by decide)]
    obtain ⟨net', ft', hnet', hft', hwith, hsymbolics, hhears⟩ :=
      exists_hears (t := .detour) (d := "A") (k := 1) (by decide) (by decide)
    cases hnet.symm.trans hnet'
    cases hft.symm.trans hft'
    obtain ⟨-, hfresh, rfl⟩ := Network.eq_failing_of_withFailures hft
    have htopology : net.topology = .detour := hhears.topology
    obtain ⟨σ, hσ, hallows, henum⟩ := hwith.exists_allowed hsymbolics [⟨"A", "B"⟩]
      (by rw [htopology]; decide)
    intro hreach
    rcases Topology.reachable_iff.1 (hreach σ hσ hallows "B" rfl) with hne | ⟨p, hp, hup, -⟩
    · exact absurd hne (by decide)
    · obtain rfl : p = "A" := by simpa using (show p ∈ ["A"] from hp)
      exact hup (Network.isDown_failing_one.2 (henum 0 Nat.one_pos))

end RouteInvariants
