import RouteInvariants.Proofs.RouteAbstraction
import RouteInvariants.Proofs.WitnessTimes

/-!
Annotations by distance: from a witness time on, which is listed for the distance of a node from the
destination, the node holds a route. There are such annotations where all nodes are reachable and
there are times for all distances (`eventuallyByDistance_eq_ok`), and only there
(`eventuallyByDistance_error_iff`). Routes spread by one hop in a time unit (`Network.Spreads`), in
shortest-path networks as in reachability networks, so a node holds a route one time unit after a
predecessor does. Witness times that ascend leave it that time, and the annotations pass the base and
the inductive check (`eventuallyByDistance_passes`).
-/

namespace RouteInvariants

section Definedness

variable {t : Topology} {d : String} {p : Predicate} {times : List Operand}

/-- Nodes that are reachable have distances, and witness times if these are enough. -/
theorem exists_witness (hreachable : ∀ n ∈ t.nodes, t.Reachable ∅ d n)
    (hlength : ∀ n ∈ t.nodes, ∀ m, t.IsDistance ∅ d n m → m < times.length) :
    ∀ n ∈ t.nodes, ∃ m w, t.IsDistance ∅ d n m ∧ times[m]? = some w := by
  intro n hn
  obtain ⟨k, hwalk⟩ := hreachable n hn
  obtain ⟨m, -, hm⟩ := Topology.exists_isDistance hwalk
  exact ⟨m, _, hm, List.getElem?_eq_getElem (hlength n hn m hm)⟩

/-- The annotations of nodes at known distances. -/
theorem eventuallyByDistance_eq_ok {m : String → Nat} {w : String → Operand} (hd : d ∈ t.nodes)
    (hm : ∀ n ∈ t.nodes, t.IsDistance ∅ d n (m n))
    (hw : ∀ n ∈ t.nodes, times[m n]? = some (w n)) :
    eventuallyByDistance t d p times = .ok (t.mapNodes fun n => .eventually (w n) p) := by
  rw [eventuallyByDistance, mapM_eq_ok, Topology.mapNodes, List.forall₂_map_right_iff,
    List.forall₂_same]
  intro n hn
  rw [(Topology.distance_eq_ok_iff hd hn).2 (hm n hn)]
  simp only [hw n hn]

theorem exists_witness_of_ok {annotations : List (String × Invariant)} {n : String}
    (h : eventuallyByDistance t d p times = .ok annotations) (hn : n ∈ t.nodes) :
    d ∈ t.nodes ∧ ∃ m w, t.IsDistance ∅ d n m ∧ times[m]? = some w := by
  obtain ⟨x, hx⟩ := exists_mapM_iff.1 ⟨annotations, h⟩ n hn
  split at hx
  · cases hx
  · rename_i m hm
    have hd := Topology.mem_nodes_of_distance hm
    split at hx
    · rename_i w hw
      exact ⟨hd, m, w, (Topology.distance_eq_ok_iff hd hn).1 hm, hw⟩
    · cases hx

/-- There are no annotations exactly where the destination is unknown, a node is not reachable from it
or there is no time for the distance of a node. -/
theorem eventuallyByDistance_error_iff (hnodes : t.nodes ≠ []) :
    (∃ e, eventuallyByDistance t d p times = .error e) ↔
      d ∉ t.nodes ∨ (∃ n ∈ t.nodes, ¬ t.Reachable ∅ d n) ∨
        ∃ n ∈ t.nodes, ∃ m, t.IsDistance ∅ d n m ∧ times.length ≤ m := by
  constructor
  · rintro ⟨e, he⟩
    by_contra hnone
    simp only [not_or, not_not, not_exists, not_and, not_le] at hnone
    obtain ⟨hd, hreachable, hlength⟩ := hnone
    choose! m w hm hw using exists_witness hreachable hlength
    rw [eventuallyByDistance_eq_ok hd hm hw] at he
    cases he
  · intro hmissing
    cases hresult : eventuallyByDistance t d p times with
    | error e => exact ⟨e, rfl⟩
    | ok annotations =>
      obtain ⟨n₀, hn₀⟩ := List.exists_mem_of_ne_nil _ hnodes
      rcases hmissing with hd | ⟨n, hn, hno⟩ | ⟨n, hn, k, hk, hlength⟩
      · exact absurd (exists_witness_of_ok hresult hn₀).1 hd
      · obtain ⟨-, m, w, hm, -⟩ := exists_witness_of_ok hresult hn
        exact absurd ⟨m, hm.walk⟩ hno
      · obtain ⟨-, m, w, hm, hw⟩ := exists_witness_of_ok hresult hn
        have hlt := (List.getElem?_eq_some_iff.1 hw).1
        rw [hm.unique hk] at hlt
        omega

end Definedness

/-! ### Spreading routes -/

/-- A node holds a route where it is the destination or has been sent one, whatever its route is. -/
structure Network.Spreads {α : Type} (net : Network) (d : String) (code : α → Value)
    (A : RouteAlgebra α) (heard : α → Bool) : Prop where
  computes : net.Computes code fun _ => A
  hom : A.IsHom (hearing fun n => decide (n = d)) heard
  present : ∀ x, (code x).head? = some 1 ↔ heard x = true
  option : ∃ ty, net.routeTy = .option ty

theorem Network.Spreads.next_iff {α : Type} {net : Network} {d : String} {code : α → Value}
    {A : RouteAlgebra α} {heard : α → Bool} (h : net.Spreads d code A heard) {t : Topology}
    {f : String → α} {n : String} : heard (A.next t f n) = true ↔
      n = d ∨ ∃ p ∈ t.predecessors n, heard (f p) = true := by
  rw [h.hom.next, ← RouteAlgebra.dropping_empty (hearing fun n => decide (n = d)) false,
    Topology.next_hearing_iff]
  simp

/-- Both protocols spread routes. -/
theorem exists_spreads {build : Topology → Destination → List Symbolic → Except Failure Network}
    (hbuild : build = shortestPathNetwork ∨ build = reachabilityNetwork) {t : Topology} {d : String}
    (hd : d ∈ t.nodes) {ss : List Symbolic} (hnames : (ss.map Symbolic.name).Nodup) :
    ∃ net, build t (.node d) ss = .ok net ∧ net.topology = t ∧ net.symbolics = ss ∧
      ∃ (α : Type) (code : α → Value) (A : RouteAlgebra α) (heard : α → Bool),
        net.Spreads d code A heard := by
  rcases hbuild with rfl | rfl
  · obtain ⟨net, hnet, hparts⟩ :=
      Protocol.exists_network_node Protocol.isValid_hopCounts hd ss hnames
    refine ⟨net, hnet, hparts.topology, hparts.symbolics, _, Value.ofCount,
      countsFrom fun n => decide (n = d), isFinite,
      Network.computes_ofCount hparts.routeTy fun σ => hparts.follows_countsFrom,
      isHom_isFinite _, fun a => ?_, _, hparts.routeTy⟩
    rw [Value.head?_ofCount_eq_one, isFinite, decide_eq_true_iff]
  · obtain ⟨net, hnet, hparts⟩ :=
      Protocol.exists_network_node Protocol.isValid_reachability hd ss hnames
    exact ⟨net, hnet, hparts.topology, hparts.symbolics, _, Value.ofHeard,
      hearing fun n => decide (n = d), id,
      Network.computes_ofHeard hparts.routeTy fun σ => hparts.follows_hearing,
      ⟨fun _ => rfl, fun _ _ => rfl, fun _ _ => rfl⟩, Value.head?_ofHeard, _, hparts.routeTy⟩

/-! ### The checks -/

/-- A route is heard of from a witness time on. -/
theorem Network.Spreads.reads_eventually {α : Type} {net : Network} {d : String} {code : α → Value}
    {A : RouteAlgebra α} {heard : α → Bool} (h : net.Spreads d code A heard) {σ : Assignment}
    (hσ : σ.WellSorted) {w : Operand} (hw : w.IsClosed) (htime : ∃ q, w.timeAt σ = some q) :
    net.Reads σ code (.eventually w .isSome) fun time x =>
      ∃ q, w.timeAt σ = some q ∧ ((time : Rat) < q ∨ heard x = true) := by
  intro r x hr time
  obtain ⟨ty, hty⟩ := h.option
  have hformed := Predicate.isFormed_isSome (hr.ty.trans hty)
  refine ⟨(Invariant.isFormed_eventually hσ hw).2 ⟨htime, hformed⟩, ?_⟩
  rw [Invariant.holdsAt_eventually hσ hw]
  refine exists_congr fun q => and_congr_right fun _ => or_congr (and_iff_left hformed) ?_
  rw [Predicate.holdsAt_isSome (hr.ty.trans hty), hr.eval, h.present]

namespace AnnotatedNetwork

/-- Every node is to hold a route from the time `w` on that is listed for its distance `m`. -/
structure AwaitsRoutes (a : AnnotatedNetwork) (d : String) (times : List Operand)
    (m : String → Nat) (w : String → Operand) : Prop where
  ascending : WitnessTimes a.network.symbolics times
  distance : ∀ n ∈ a.network.topology.nodes, a.network.topology.IsDistance ∅ d n (m n)
  witness : ∀ n ∈ a.network.topology.nodes, times[m n]? = some (w n)
  annotation : ∀ n ∈ a.network.topology.nodes, a.annotationOf n = .eventually (w n) .isSome

namespace AwaitsRoutes

variable {a : AnnotatedNetwork} {d n : String} {times : List Operand} {m : String → Nat}
  {w : String → Operand} {α : Type} {code : α → Value} {A : RouteAlgebra α} {heard : α → Bool}
  (h : a.AwaitsRoutes d times m w) (hspreads : a.network.Spreads d code A heard)
  (hn : n ∈ a.network.topology.nodes)
include h

theorem ascendAt {σ : Assignment} (hσ : σ.WellSorted) (hallows : a.Allows σ) :
    AscendAt σ times := by
  refine h.ascending.ascendAt hσ fun s hs => ?_
  exact Expr.holdsAt_conj.1 hallows _ (List.mem_map_of_mem hs)

include hspreads hn

theorem reads_annotation (σ : Assignment) (hσ : σ.WellSorted) :
    a.network.Reads σ code (a.annotationOf n) fun time x =>
      ∃ q, (w n).timeAt σ = some q ∧ ((time : Rat) < q ∨ heard x = true) := by
  have hmem := List.mem_of_getElem? (h.witness n hn)
  rw [h.annotation n hn]
  exact hspreads.reads_eventually hσ (h.ascending.isClosed hmem)
    (h.ascending.exists_timeAt hσ hmem)

/-- At first the destination holds a route, and it is too early for other nodes. -/
theorem passes_base_iff : a.Passes .base n ↔ IsFormed a.network.constraints := by
  rw [AnnotatedNetwork.passes_base_iff (P := fun σ n time x => ∃ q, (w n).timeAt σ = some q ∧
    ((time : Rat) < q ∨ heard x = true)) hspreads.computes hn (h.reads_annotation hspreads hn)]
  refine and_iff_left fun σ hσ hallows => ?_
  obtain ⟨τ, hτ⟩ := h.ascendAt hσ hallows
  obtain ⟨htime, -, hbefore⟩ := hτ _ _ (h.witness n hn)
  refine ⟨_, htime, ?_⟩
  by_cases hdistance : m n = 0
  · right
    rw [hspreads.hom.start]
    exact decide_eq_true (Topology.walk_zero_iff.1 (hdistance ▸ (h.distance n hn).walk))
  · left
    have hlength := (List.getElem?_eq_some_iff.1 (h.witness n hn)).1
    obtain ⟨-, hfirst, -⟩ := hτ 0 _ (List.getElem?_eq_getElem (by omega))
    exact_mod_cast hfirst.trans_lt (hbefore 0 (by omega))

/-- A predecessor that is nearer holds a route in time. -/
theorem passes_step_iff : a.Passes .step n ↔ IsFormed a.network.constraints := by
  rw [AnnotatedNetwork.passes_step_iff (P := fun σ n time x => ∃ q, (w n).timeAt σ = some q ∧
    ((time : Rat) < q ∨ heard x = true)) hspreads.computes hn (h.reads_annotation hspreads hn)
    fun σ hσ p hp => h.reads_annotation hspreads (Topology.mem_nodes_of_mem_predecessors hp) σ hσ]
  refine and_iff_left fun σ hσ hallows f time _ hearlier => ?_
  obtain ⟨τ, hτ⟩ := h.ascendAt hσ hallows
  obtain ⟨htime, -, hbefore⟩ := hτ _ _ (h.witness n hn)
  refine ⟨_, htime, ?_⟩
  rw [hspreads.next_iff]
  have hfar := h.distance n hn
  cases hdistance : m n with
  | zero => exact .inr (.inl (Topology.walk_zero_iff.1 (hdistance ▸ hfar.walk)))
  | succ k =>
    obtain ⟨p, hp, -, hnear⟩ := (hdistance ▸ hfar).pred
    have hpn := Topology.mem_nodes_of_mem_predecessors hp
    obtain ⟨q, hq, hheld | hheard⟩ := hearlier p hp
    · -- the predecessor may still be without a route, so it is too early for the node
      left
      obtain ⟨hptime, -⟩ := hτ _ _ (h.witness p hpn)
      rw [hq, (h.distance p hpn).unique hnear, Option.some.injEq] at hptime
      rw [hptime] at hheld
      have hearly : time - 1 < τ k := by exact_mod_cast hheld
      have hlater := hbefore k (by omega)
      rw [hdistance] at hlater
      exact_mod_cast (show time < τ (k + 1) by omega)
    · exact .inr (.inr ⟨p, hp, hheard⟩)

omit hn in
/-- A check of some nodes passes where the restrictions of the symbolic values can be formed. -/
theorem dischargeAll_iff {kind : CheckKind} (hkind : kind = .base ∨ kind = .step) {oracle : Oracle}
    (hexact : oracle.Exact) (arrival : Arrival) (settings : CheckSettings) (s : Session)
    (hd : d ∈ a.network.topology.nodes) {node : Option String}
    (hnode : ∀ n, node = some n → n ∈ a.network.topology.nodes) :
    ((dischargeAll a oracle arrival settings (a.obligation kind) node).outcome s).1 = .ok none ↔
      ∀ s ∈ a.network.symbolics, IsFormed (s.constraint.elaborate []) := by
  have hpasses : ∀ n ∈ a.network.topology.nodes,
      (a.Passes kind n ↔ IsFormed a.network.constraints) := by
    intro n hn
    rcases hkind with rfl | rfl
    · exact h.passes_base_iff hspreads hn
    · exact h.passes_step_iff hspreads hn
  obtain ⟨ns, hns, hsub⟩ := exists_nodesOf hnode
  have hformed : IsFormed a.network.constraints ↔
      ∀ s ∈ a.network.symbolics, IsFormed (s.constraint.elaborate []) := by
    rw [Network.constraints, Symbolic.constraints, Expr.isFormed_conj, List.forall_mem_map]
  rw [dischargeAll_eq_none_iff_passes hexact arrival settings s hns, ← hformed]
  obtain ⟨n, hn⟩ := exists_mem_nodesOf hns hd
  exact ⟨fun hall => (hpasses n (hsub n hn)).1 (hall n hn),
    fun hf n hn => (hpasses n (hsub n hn)).2 hf⟩

end AwaitsRoutes

end AnnotatedNetwork

/-- Annotations by distance verify, for both protocols and on every topology all of whose nodes are
reachable from the destination, if the witness times ascend and there are more of them than the largest
distance: with an exact oracle the base and the inductive check pass, of all nodes and of each one,
exactly where the restrictions of the symbolic values that are declared can be formed. On a topology
with nodes there are no such annotations, for whatever predicate and times, exactly where the
destination is unknown, a node is not reachable from it or there is no time for the distance of a
node. -/
theorem eventuallyByDistance_passes :
    (∀ build, build = shortestPathNetwork ∨ build = reachabilityNetwork →
      ∀ (t : Topology) (d : String), d ∈ t.nodes → (∀ n ∈ t.nodes, t.Reachable ∅ d n) →
      ∀ ss : List Symbolic, (ss.map Symbolic.name).Nodup →
      ∀ times : List Operand, WitnessTimes ss times →
      (∀ n ∈ t.nodes, ∀ m, t.IsDistance ∅ d n m → m < times.length) →
      ∃ net annotations, build t (.node d) ss = .ok net ∧
        eventuallyByDistance t d .isSome times = .ok annotations ∧
        ∀ a : AnnotatedNetwork, a.network = net → a.annotations = annotations →
        ∀ oracle : Oracle, oracle.Exact →
        ∀ (arrival : Arrival) (settings : CheckSettings) (s : Session) (node : Option String),
        (∀ n, node = some n → n ∈ t.nodes) →
          (((a.checkBase oracle arrival settings node).outcome s).1 = .ok none ↔
            ∀ s ∈ ss, IsFormed (s.constraint.elaborate [])) ∧
          (((a.checkInductive oracle arrival settings node).outcome s).1 = .ok none ↔
            ∀ s ∈ ss, IsFormed (s.constraint.elaborate []))) ∧
    ∀ (t : Topology) (d : String) (p : Predicate) (times : List Operand), t.nodes ≠ [] →
      ((∃ e, eventuallyByDistance t d p times = .error e) ↔
        d ∉ t.nodes ∨ (∃ n ∈ t.nodes, ¬ t.Reachable ∅ d n) ∨
          ∃ n ∈ t.nodes, ∃ m, t.IsDistance ∅ d n m ∧ times.length ≤ m) := by
  refine ⟨fun build hbuild t d hd hreachable ss hnames times htimes hlength => ?_,
    fun t d p times hnodes => eventuallyByDistance_error_iff hnodes⟩
  obtain ⟨net, hnet, rfl, rfl, α, code, A, heard, hspreads⟩ := exists_spreads hbuild hd hnames
  choose! m w hm hw using exists_witness hreachable hlength
  refine ⟨net, _, hnet, eventuallyByDistance_eq_ok hd hm hw,
    fun a ha hannotations oracle hexact arrival settings s node hnode => ?_⟩
  subst ha
  have hawaits : a.AwaitsRoutes d times m w := by
    refine ⟨htimes, hm, hw, fun n hn => ?_⟩
    rw [AnnotatedNetwork.annotationOf, hannotations, Topology.mapNodes, Entries.get?_map_self _ hn,
      Option.getD_some]
  exact ⟨hawaits.dischargeAll_iff hspreads (.inl rfl) hexact arrival settings s hd hnode,
    hawaits.dischargeAll_iff hspreads (.inr rfl) hexact arrival settings s hd hnode⟩

theorem Topology.isDistance_detour_up : ∀ n ∈ detour.nodes,
    detour.IsDistance ∅ "A" n (if n = "A" then 0 else 1) := by
  intro n hn
  rw [← distance_eq_ok_iff (by decide) hn]
  have hn' : n = "A" ∨ n = "B" ∨ n = "C" := by simpa using (show n ∈ ["A", "B", "C"] from hn)
  rcases hn' with rfl | rfl | rfl <;> rfl

/-- Symbolic times for all distances of the detour pass; a single time is too few. -/
theorem eventuallyByDistance_passes_detour :
    (∃ net annotations oracle,
      let times := Symbolic.ascendingTimes 3 "tau"
      reachabilityNetwork .detour (.node "A") times = .ok net ∧
      eventuallyByDistance .detour "A" .isSome (times.map fun s => .expr s.expr) =
        .ok annotations ∧ Oracle.Exact oracle ∧
      let a : AnnotatedNetwork := ⟨net, annotations, [], []⟩
      ((a.checkBase oracle .inOrder default none).outcome default).1 = .ok none ∧
        ((a.checkInductive oracle .inOrder default (some "C")).outcome default).1 = .ok none) ∧
    ∃ e, eventuallyByDistance .detour "A" .isSome [.datum (.int 0)] = .error e := by
  obtain ⟨hpasses, herror⟩ := eventuallyByDistance_passes
  have hreachable : ∀ n ∈ Topology.detour.nodes, Topology.detour.Reachable ∅ "A" n :=
    fun n hn => ⟨_, (Topology.isDistance_detour_up n hn).walk⟩
  constructor
  · obtain ⟨net, annotations, hnet, hannotations, hchecks⟩ := hpasses _ (.inr rfl) .detour "A"
      (by decide) hreachable (Symbolic.ascendingTimes 3 "tau") (by decide) _ (.declared fun _ h => h)
      fun n _ m hm => hm.lt_nodeCount (by decide)
    obtain ⟨oracle, hexact⟩ := Oracle.exists_exact
    have hformed : ∀ s ∈ Symbolic.ascendingTimes 3 "tau", IsFormed (s.constraint.elaborate []) :=
      List.forall_mem_cons.2 ⟨⟨_, rfl⟩, List.forall_mem_cons.2 ⟨⟨_, rfl⟩,
        List.forall_mem_singleton.2 ⟨_, rfl⟩⟩⟩
    refine ⟨net, annotations, oracle, hnet, hannotations, hexact, ?_, ?_⟩
    · exact ((hchecks _ rfl rfl oracle hexact .inOrder default default none
        fun n hn => nomatch hn).1).2 hformed
    · exact ((hchecks _ rfl rfl oracle hexact .inOrder default default (some "C")
        fun n hn => by cases hn; decide).2).2 hformed
  · exact (herror .detour "A" .isSome _ (by decide)).2 (.inr (.inr
      ⟨"C", by decide, 1, Topology.isDistance_detour_up "C" (by decide), le_rfl⟩))

/-- A restriction that cannot be formed is not passed, whatever the witness times are. -/
theorem eventuallyByDistance_unformed : ∃ net annotations oracle,
    shortestPathNetwork .detour (.node "A") [⟨"x", .int, some .isSome⟩] = .ok net ∧
      eventuallyByDistance .detour "A" .isSome [.datum (.int 0), .datum (.int 1)] =
        .ok annotations ∧ Oracle.Exact oracle ∧
      ((AnnotatedNetwork.checkBase ⟨net, annotations, [], []⟩ oracle .inOrder default
        none).outcome default).1 ≠ .ok none := by
  obtain ⟨net, hnet, hparts⟩ := Protocol.exists_network_node (t := .detour) (n := "A")
    Protocol.isValid_hopCounts (by decide) [⟨"x", .int, some .isSome⟩] (by decide)
  obtain ⟨oracle, hexact⟩ := Oracle.exists_exact
  refine ⟨net, _, oracle, hnet, eventuallyByDistance_eq_ok (by decide)
    Topology.isDistance_detour_up (w := fun n => .datum (.int (if n = "A" then 0 else 1)))
    fun n _ => ?_, hexact, fun hnone => ?_⟩
  · by_cases hn : n = "A"
    · simp only [hn, if_true]
      rfl
    · simp only [hn, if_false]
      rfl
  · have hn : "A" ∈ net.topology.nodes := hparts.topology ▸ (by decide)
    have hverdict (a : AnnotatedNetwork) (kind : CheckKind) : ((AnnotatedNetwork.dischargeAll a oracle
        .inOrder default (a.obligation kind) none).outcome default).1 = .ok none ↔
          ∀ n ∈ a.network.topology.nodes, a.Passes kind n :=
      AnnotatedNetwork.dischargeAll_eq_none_iff_passes hexact .inOrder default default rfl
    have hpasses := (hverdict _ .base).1 hnone "A" hn
    obtain ⟨c, hc⟩ := hpasses.isFormed_constraints (.inr hn)
    rw [Network.constraints, hparts.symbolics] at hc
    cases hc

end RouteInvariants
