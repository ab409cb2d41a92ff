import RouteInvariants.Proofs.Correspondence
import RouteInvariants.Proofs.Protocols
import RouteInvariants.Proofs.Substitution

/-!
Symbolic destinations. A network with a symbolic destination does under every value of the
destination what the network of that node does: its rounds are the same (`IsNetwork.valuesOf_run`),
and so is everything that the checks read (`IsNetwork.samePartsAt`). The restriction of the symbolic
value admits exactly the nodes, so that a check passes for the symbolic destination where it passes
for every node (`symbolicDestination_stands_for_nodes`).
-/

namespace RouteInvariants

open Typed (Matches)

/-! ### Annotations with values in place -/

theorem Invariant.sameUnder_substitute {θ : Substitution} (hθ : θ.IsSorted) {σ : Assignment}
    (inv : Invariant) : inv.SameUnder (σ.override θ) σ (inv.substitute θ) :=
  fun _ _ hxy t => sameResult_appliedTo₂_substitute hθ inv.body hxy (matches_int t)

theorem Predicate.sameUnder_substitute {θ : Substitution} (hθ : θ.IsSorted) {σ : Assignment}
    (p : Predicate) : p.SameUnder (σ.override θ) σ (p.substitute θ) :=
  fun _ _ hxy => sameResult_appliedTo_substitute hθ p.body hxy

namespace AnnotatedNetwork

/-- Another network, with the annotations and properties of this one and values in place of
variables. -/
def substitute (θ : Substitution) (net : Network) (a : AnnotatedNetwork) : AnnotatedNetwork where
  network := net
  annotations := a.annotations.map fun e => (e.1, e.2.substitute θ)
  modularProperties := a.modularProperties.map fun e => (e.1, e.2.substitute θ)
  monolithicProperties := a.monolithicProperties.map fun e => (e.1, e.2.substitute θ)

variable (θ : Substitution) (net : Network) (a : AnnotatedNetwork) (n : String)

theorem annotationOf_substitute :
    (a.substitute θ net).annotationOf n = (a.annotationOf n).substitute θ := by
  rw [annotationOf, annotationOf, substitute, Entries.get?_mapValues]
  cases Entries.get? a.annotations n <;> rfl

theorem modularOf_substitute :
    (a.substitute θ net).modularOf n = (a.modularOf n).substitute θ := by
  rw [modularOf, modularOf, substitute, Entries.get?_mapValues]
  cases Entries.get? a.modularProperties n <;> rfl

theorem monolithicOf_substitute :
    (a.substitute θ net).monolithicOf n = (a.monolithicOf n).substitute θ := by
  rw [monolithicOf, monolithicOf, substitute, Entries.get?_mapValues]
  cases Entries.get? a.monolithicProperties n <;> rfl

variable {θ net a n}

/-- Checks correspond where the networks do. -/
theorem corresponds_substitute (hθ : θ.IsSorted) {σ : Assignment} {kind : CheckKind}
    (hnet : ∀ m ∈ a.network.topology.nodes, a.network.CorrespondsAt net (σ.override θ) σ m)
    (hnodes : ∀ m, m ∈ a.network.topology.nodes ↔ m ∈ net.topology.nodes)
    (hn : a.IsCheckAt kind n) :
    a.Corresponds (a.substitute θ net) (σ.override θ) σ kind n := by
  have hannotation (m : String) :
      (a.annotationOf m).SameUnder (σ.override θ) σ ((a.substitute θ net).annotationOf m) := by
    rw [annotationOf_substitute]
    exact Invariant.sameUnder_substitute hθ _
  cases kind with
  | base => exact ⟨hnet n (hn.resolve_left CheckKind.noConfusion), hannotation n⟩
  | step =>
    exact ⟨hnet n (hn.resolve_left CheckKind.noConfusion), hannotation n, fun p _ => hannotation p⟩
  | safety =>
    refine ⟨hnet n (hn.resolve_left CheckKind.noConfusion), hannotation n, ?_⟩
    rw [modularOf_substitute]
    exact Invariant.sameUnder_substitute hθ _
  | monolithic =>
    refine ⟨hnodes, fun m hm => ⟨hnet m hm, ?_⟩⟩
    rw [monolithicOf_substitute]
    exact Predicate.sameUnder_substitute hθ _

end AnnotatedNetwork

/-! ### The destination -/

namespace Destination

/-- The destination is the node, or a symbolic value that has its name as value. -/
def Denotes (σ : Assignment) (d : String) : Destination → Prop
  | node name => name = d
  | declared s | added s => σ.value s.unknown = .ofString d

variable {t : Topology} {σ : Assignment} {D : Destination} {d n : String} {origin : Term}

/-- The destination starts with a route, and no other node does. -/
theorem eval_initialTerm (hnames : t.NamesDiffer) (hd : d ∈ t.nodes) (hn : n ∈ t.nodes)
    (hD : D.Denotes σ d) : (D.initialTerm origin n).eval σ [] =
      if n = d then origin.eval σ [] else .none := by
  have hsame : Value.ofString d = Value.ofString n ↔ n = d :=
    ⟨fun h => (hnames d hd n hn h).symm, fun h => by rw [h]⟩
  have hat : D.isAt σ n = decide (n = d) := by
    cases D with
    | node name =>
      obtain rfl : name = d := hD
      rfl
    | declared s | added s =>
      have hvalue : σ.value s.unknown = .ofString d := hD
      simp only [isAt, hvalue, hsame]
  simp only [eval_initialTerm_eq, hat, decide_eq_true_eq]

end Destination

/-! ### Protocols without symbolic values -/

namespace Protocol

/-- The functions of the protocol give routes, as the terms `send` and `choose` say, and nothing in
the protocol is symbolic. -/
structure IsRegular (P : Protocol) (origin send choose : Term) : Prop extends P.IsValid origin where
  transfer : P.transfer.body.elaborate [.option P.element] = .ok ⟨send, .option P.element⟩
  merge : P.merge.body.elaborate [.option P.element, .option P.element] =
    .ok ⟨choose, .option P.element⟩
  route_substitute : ∀ θ, P.route.substitute θ = P.route
  transfer_substitute : ∀ θ, P.transfer.body.substitute θ = P.transfer.body
  merge_substitute : ∀ θ, P.merge.body.substitute θ = P.merge.body

/-- Both protocols are of this kind. -/
theorem exists_isRegular {build : Topology → Destination → List Symbolic → Except Failure Network}
    (h : build = shortestPathNetwork ∨ build = reachabilityNetwork) :
    ∃ (P : Protocol) (origin send choose : Term), P.network = build ∧
      P.IsRegular origin send choose := by
  rcases h with rfl | rfl
  · exact ⟨_, _, _, _, network_hopCounts, isValid_hopCounts, rfl, rfl, fun _ => rfl, fun _ => rfl,
      fun _ => rfl⟩
  · exact ⟨_, _, _, _, network_reachability, isValid_reachability, rfl, rfl, fun _ => rfl,
      fun _ => rfl, fun _ => rfl⟩

variable {P : Protocol} {origin send choose : Term} {t : Topology} {D : Destination}
  {ss : List Symbolic} {net : Network} {σ : Assignment} {d : String}

/-- The value of the originated route does not depend on symbolic values. -/
theorem IsRegular.eval_origin (hP : P.IsRegular origin send choose) {θ : Substitution}
    (hθ : θ.IsSorted) : origin.eval (σ.override θ) [] = origin.eval σ [] := by
  have helaborate := Expr.elaborate_substitute hθ [] P.route
  rw [hP.route_substitute, hP.route, map_ok, Except.ok.injEq, Typed.mk.injEq] at helaborate
  have horigin : origin = origin.substitute θ := helaborate.1
  rw [← Term.eval_substitute, ← horigin]

/-- The values of routes, from first ones on. -/
def algebra (start : String → Value) (send choose : Term) (σ : Assignment) : RouteAlgebra Value where
  start := start
  send _ v := send.eval σ [v]
  choose v w := choose.eval σ [v, w]

/-- The network computes with the values of its first routes. -/
theorem IsNetwork.follows (h : P.IsNetwork origin t D ss net)
    (hP : P.IsRegular origin send choose) {start : String → Value}
    (hstart : ∀ n ∈ t.nodes, (D.initialTerm origin n).eval σ [] = start n) :
    net.Follows σ id (algebra start send choose σ) where
  origination := h.origination
  initial n hn := by
    refine ⟨Network.isClosed_initialOf hn, net.initial_ty n hn, ?_⟩
    rw [h.initial n (h.topology ▸ hn)]
    exact hstart n (h.topology ▸ hn)
  transfer e he x v hx := by
    have happly : P.transfer.applyTo x = .ok ⟨.call send x.term, .option P.element⟩ :=
      bind_eq_ok.2 ⟨_, by rw [hx.ty, h.routeTy]; exact hP.transfer, rfl⟩
    rw [h.transfer e (h.topology ▸ he)]
    refine ⟨_, happly, Expr.isClosed_of_appliedTo hx.closed happly, h.routeTy.symm, ?_⟩
    simp only [Term.eval, hx.eval]
    rfl
  merge {x y v w} hx hy := by
    have happly : P.merge.applyTo x y = .ok ⟨.call2 choose x.term y.term, .option P.element⟩ :=
      bind_eq_ok.2 ⟨_, by rw [hx.ty, hy.ty, h.routeTy]; exact hP.merge, rfl⟩
    rw [h.merge]
    refine ⟨_, happly, Expr.isClosed_of_appliedTo₂ hx.closed hy.closed happly, h.routeTy.symm, ?_⟩
    simp only [Term.eval, hx.eval, hy.eval]
    rfl

theorem IsNetwork.exists_run (h : P.IsNetwork origin t D ss net)
    (hP : P.IsRegular origin send choose) : ∃ run, net.IsRun run := by
  obtain ⟨σ, hσ⟩ := Assignment.exists_wellSorted
  exact (h.follows hP (σ := σ) fun _ _ => rfl).exists_run hσ

/-- The simulation goes as for the node that the destination denotes. -/
theorem IsNetwork.valuesOf_run (h : P.IsNetwork origin t D ss net)
    (hP : P.IsRegular origin send choose) (hnames : t.NamesDiffer) (hd : d ∈ t.nodes)
    (hD : D.Denotes σ d) (hσ : σ.WellSorted) {run : Nat → List (String × Typed)}
    (hrun : net.IsRun run) (i : Nat) {n : String} (hn : n ∈ t.nodes) :
    AnnotatedNetwork.valuesOf σ (run i) n =
      (algebra (fun n => if n = d then origin.eval σ [] else .none) send choose σ).rounds t i n := by
  have hfollows := h.follows hP fun n hn => Destination.eval_initialTerm hnames hd hn hD
  have hvalue := (hfollows.run hσ hrun i).valuesOf (h.topology ▸ hn)
  rwa [h.topology] at hvalue

/-- Under the name of a node, the network of a symbolic destination consists of the same parts as the
network of the node. -/
theorem IsNetwork.samePartsAt (h : P.IsNetwork origin t D ss net)
    (hP : P.IsRegular origin send choose) {ss' : List Symbolic} {net' : Network}
    (h' : P.IsNetwork origin t (.node d) ss' net') (hnames : t.NamesDiffer) (hd : d ∈ t.nodes)
    {θ : Substitution} (hθ : θ.IsSorted) (hD : D.Denotes (σ.override θ) d) (n : String) :
    net.SamePartsAt net' (σ.override θ) σ n where
  topology := h.topology.trans h'.topology.symm
  routeTy := h.routeTy.trans h'.routeTy.symm
  origination := h.origination.trans h'.origination.symm
  initial hn := by
    have hnt : n ∈ t.nodes := h.topology ▸ hn
    have hn' : n ∈ net'.topology.nodes := h'.topology ▸ hnt
    refine ⟨Network.isClosed_initialOf hn, Network.isClosed_initialOf hn', ?_, ?_⟩
    · rw [h.initial n hnt, h'.initial n hnt]
    · rw [h.initial n hnt, h'.initial n hnt, Destination.eval_initialTerm hnames hd hnt hD,
        Destination.eval_initialTerm hnames hd hnt (show (Destination.node d).Denotes σ d from rfl),
        hP.eval_origin hθ]
  transfer p hp x y hxy := by
    have he : ⟨p, n⟩ ∈ t.edges := h.topology ▸ Topology.mem_edges_of_mem_predecessors hp
    have hsame := sameResult_appliedTo_substitute hθ P.transfer.body hxy
    rw [hP.transfer_substitute] at hsame
    rw [h.transfer _ he, h'.transfer _ he]
    exact hsame
  merge x y x' y' hxy hxy' := by
    have hsame := sameResult_appliedTo₂_substitute hθ P.merge.body hxy hxy'
    rw [hP.merge_substitute] at hsame
    rw [h.merge, h'.merge]
    exact hsame

end Protocol

/-! ### The restriction of the symbolic value -/

namespace Substitution

variable {σ : Assignment} {x : Variable} {v : Value}

theorem value_override_single : (σ.override (single x v)).value x = v := by
  simp only [Assignment.override, single, if_true, Option.getD_some]

/-- The value that a variable has already. -/
theorem override_single_eq (h : σ.value x = v) : σ.override (single x v) = σ := by
  have hvalue : (σ.override (single x v)).value = σ.value := by
    funext y
    by_cases hy : y = x
    · rw [hy, value_override_single, h]
    · simp only [Assignment.override, single, hy, if_false, Option.getD_none]
  exact congrArg (Assignment.mk · σ.absent) hvalue

/-- A node as the value of the symbolic destination. -/
def toNode (t : Topology) (name d : String) : Substitution :=
  single (Symbolic.destination t name).unknown (.ofString d)

theorem isSorted_toNode (t : Topology) (name d : String) : (toNode t name d).IsSorted :=
  isSorted_single (x := (Symbolic.destination t name).unknown) rfl

/-- Symbolic values of other names keep theirs. -/
theorem toNode_unknown {t : Topology} {name d : String} {s : Symbolic} (hs : s.name ≠ name) :
    toNode t name d s.unknown = none :=
  if_neg fun h => hs (Variable.symbolic.inj h).1

end Substitution

namespace Symbolic

variable {t : Topology} {name : String} {symbolics ss : List Symbolic} {σ : Assignment}

/-- The value is the name of a node. -/
theorem means_destination (t : Topology) (name : String) :
    (destination t name).constraint.Means [] fun σ _ =>
      t.nodes.any fun n => decide (σ.value (destination t name).unknown = .ofString n) := by
  have hrestriction : (Expr.disj (t.nodes.map fun n => .compare .eq (.arg 0) (.text n))).Means
      [.text] fun _ args => t.nodes.any fun n => decide (args[0]?.getD default = .ofString n) :=
    Expr.means_disj fun n _ => ⟨.eq (.arg 0) (.const (.ofString n)), rfl, fun _ _ => rfl⟩
  exact means_constraint (s := destination t name) rfl rfl hrestriction

/-- The destination is a node, and the other restrictions hold. -/
theorem holdsAt_constraints_destination (h : symbolics.Perm (destination t name :: ss)) :
    HoldsAt σ ((constraints symbolics).elaborate []) ↔
      (∃ n ∈ t.nodes, σ.value (destination t name).unknown = .ofString n) ∧
        HoldsAt σ ((constraints ss).elaborate []) := by
  have hmem (s : Symbolic) : s ∈ symbolics ↔ s ∈ destination t name :: ss := h.mem_iff
  simp only [constraints, Expr.holdsAt_conj, List.forall_mem_map, hmem, List.forall_mem_cons,
    (means_destination t name).holdsAt_iff, List.any_eq_true, decide_eq_true_eq]

theorem isFormed_constraints_destination (h : symbolics.Perm (destination t name :: ss)) :
    IsFormed ((constraints symbolics).elaborate []) ↔
      IsFormed ((constraints ss).elaborate []) := by
  have hmem (s : Symbolic) : s ∈ symbolics ↔ s ∈ destination t name :: ss := h.mem_iff
  obtain ⟨c, hc, -⟩ := means_destination t name
  have hformed : IsFormed ((destination t name).constraint.elaborate []) :=
    ⟨c, condition_eq_ok_iff.2 ⟨_, hc, rfl, rfl⟩⟩
  simp only [constraints, Expr.isFormed_conj, List.forall_mem_map, hmem, List.forall_mem_cons,
    hformed, true_and]

end Symbolic

/-! ### Verdicts -/

/-- The network of a symbolic destination, and those of all nodes, with the node in place of the
symbolic value in the restrictions of the other ones. -/
structure Protocol.IsFamily (P : Protocol) (origin : Term) (t : Topology) (name : String)
    (D : Destination) (declared ss : List Symbolic) (net : Network) (netOf : String → Network) :
    Prop where
  destination : D = .added (.destination t name) ∨ D = .declared (.destination t name)
  symbolics : (D.symbolics declared).Perm (.destination t name :: ss)
  distinct : ((Symbolic.destination t name :: ss).map Symbolic.name).Nodup
  network : P.IsNetwork origin t D declared net
  networkOf : ∀ d ∈ t.nodes, P.IsNetwork origin t (.node d)
    (ss.map (Symbolic.substitute (.toNode t name d))) (netOf d)

namespace Protocol.IsFamily

open Substitution (toNode isSorted_toNode value_override_single override_single_eq)

variable {P : Protocol} {origin send choose : Term} {t : Topology} {name d n : String}
  {D : Destination} {declared ss : List Symbolic} {net : Network} {netOf : String → Network}
  {σ : Assignment} {a : AnnotatedNetwork} {kind : CheckKind}
  (h : P.IsFamily origin t name D declared ss net netOf)
include h

theorem denotes_iff : D.Denotes σ d ↔
    σ.value (Symbolic.destination t name).unknown = .ofString d := by
  rcases h.destination with rfl | rfl <;> rfl

/-- The restrictions of the other symbolic values for a node mean what they do under the node. -/
theorem sameResult_constraints (hd : d ∈ t.nodes) :
    SameResult (σ.override (toNode t name d)) σ ((Symbolic.constraints ss).elaborate [])
      (netOf d).constraints := by
  have hnames : ∀ s ∈ ss, s.name ≠ name := by
    have hdistinct := (List.nodup_cons.1 h.distinct).1
    exact fun s hs hname => hdistinct (List.mem_map.2 ⟨s, hs, hname⟩)
  have hsymbolics : (netOf d).symbolics = ss.map (Symbolic.substitute (toNode t name d)) :=
    (h.networkOf d hd).symbolics
  have hconstraints : (netOf d).constraints =
      ((Symbolic.constraints ss).substitute (toNode t name d)).elaborate [] := by
    rw [Network.constraints, hsymbolics,
      Symbolic.constraints_substitute fun s hs => Substitution.toNode_unknown (hnames s hs)]
  rw [hconstraints]
  exact sameResult_substitute (isSorted_toNode t name d) _

/-- The symbolic values of the network of a node are those with the node as destination. -/
theorem holdsAt_constraints_iff (hd : d ∈ t.nodes) : HoldsAt σ (netOf d).constraints ↔
    HoldsAt (σ.override (toNode t name d)) net.constraints := by
  rw [← (h.sameResult_constraints hd).holdsAt_iff, Network.constraints, h.network.symbolics,
    Symbolic.holdsAt_constraints_destination h.symbolics]
  exact ⟨fun hss => ⟨⟨d, hd, value_override_single⟩, hss⟩, And.right⟩

theorem isFormed_constraints_iff (hd : d ∈ t.nodes) :
    IsFormed (netOf d).constraints ↔ IsFormed net.constraints := by
  obtain ⟨σ, -⟩ := Assignment.exists_wellSorted
  rw [← (h.sameResult_constraints (σ := σ) hd).isFormed_iff, Network.constraints,
    h.network.symbolics, Symbolic.isFormed_constraints_destination h.symbolics]

variable (ha : a.network = net)
include ha

theorem areRoutes_iff (hd : d ∈ t.nodes) {ρ : String → Value} :
    a.AreRoutes ρ ↔ (a.substitute (toNode t name d) (netOf d)).AreRoutes ρ := by
  subst ha
  have hnode := h.networkOf d hd
  unfold AnnotatedNetwork.AreRoutes
  rw [h.network.topology, h.network.routeTy]
  show _ ↔ ∀ n ∈ (netOf d).topology.nodes, (ρ n).fits (netOf d).routeTy = true
  rw [hnode.topology, hnode.routeTy]

/-- Without nodes there is nothing that the symbolic destination could be. -/
theorem passes_monolithic_of_nodes_eq_nil (hnodes : t.nodes = [])
    (hscope : IsFormed ((Symbolic.constraints ss).elaborate [])) : a.Passes .monolithic n := by
  have hno (m : String) : m ∉ a.network.topology.nodes := by
    rw [ha, h.network.topology, hnodes]
    exact List.not_mem_nil
  have hformed : IsFormed a.network.constraints := by
    rw [ha, Network.constraints, h.network.symbolics,
      Symbolic.isFormed_constraints_destination h.symbolics]
    exact hscope
  refine (AnnotatedNetwork.passes_iff (.inl rfl)).2 ⟨?_, fun σ _ _ ρ t _ hv => ?_⟩
  · exact (AnnotatedNetwork.exists_obligation_iff (ρ := fun _ => .none) (.inl rfl)
      (fun m hm => absurd hm (hno m)) 0).2 ⟨hformed, fun m hm => absurd hm (hno m)⟩
  · obtain ⟨-, m, hm, -⟩ := hv
    exact hno m hm

variable (hP : P.IsRegular origin send choose) (hnames : t.NamesDiffer)
include hP hnames

theorem corresponds (hd : d ∈ t.nodes) (hn : a.IsCheckAt kind n) (σ : Assignment) :
    a.Corresponds (a.substitute (toNode t name d) (netOf d)) (σ.override (toNode t name d)) σ
      kind n := by
  subst ha
  have hnode := h.networkOf d hd
  have hsorted := isSorted_toNode t name d
  refine AnnotatedNetwork.corresponds_substitute hsorted (fun m hm => ?_) (fun m => ?_) hn
  · exact (h.network.samePartsAt hP hnode hnames hd hsorted
      (h.denotes_iff.2 value_override_single) m).correspondsAt hm
  · rw [h.network.topology, hnode.topology]

/-- A check that passes for the symbolic destination passes for every node. -/
theorem passes_node (hd : d ∈ t.nodes) (hn : a.IsCheckAt kind n) (hpasses : a.Passes kind n) :
    (a.substitute (toNode t name d) (netOf d)).Passes kind n := by
  have hsorted := isSorted_toNode t name d
  have hruled (σ : Assignment) : (a.substitute (toNode t name d) (netOf d)).IsRuledOutBy a σ
      (σ.override (toNode t name d)) kind n :=
    ⟨hpasses, (h.areRoutes_iff ha hd).2, (h.corresponds ha hP hnames hd hn σ).symm⟩
  obtain ⟨σ₀, -⟩ := Assignment.exists_wellSorted
  refine AnnotatedNetwork.passes_of_corresponds ?_ ⟨_, _, _, hruled σ₀⟩ fun σ hσ hallows =>
    ⟨_, _, hσ.override hsorted, ?_, hruled σ⟩
  · have hformed := hpasses.isFormed_constraints hn
    rw [ha] at hformed
    exact (h.isFormed_constraints_iff hd).2 hformed
  · have hholds := (h.holdsAt_constraints_iff hd).1 hallows
    rw [← ha] at hholds
    exact hholds

/-- A check that passes for every node, of which there is one, passes for the symbolic
destination. -/
theorem passes_symbolic (hn : a.IsCheckAt kind n) {d₀ : String} (hd₀ : d₀ ∈ t.nodes)
    (hpasses : ∀ d ∈ t.nodes, (a.substitute (toNode t name d) (netOf d)).Passes kind n) :
    a.Passes kind n := by
  have hruled (d : String) (hd : d ∈ t.nodes) (σ : Assignment) :
      a.IsRuledOutBy (a.substitute (toNode t name d) (netOf d)) (σ.override (toNode t name d)) σ
        kind n :=
    ⟨hpasses d hd, (h.areRoutes_iff ha hd).1, h.corresponds ha hP hnames hd hn σ⟩
  obtain ⟨σ₀, -⟩ := Assignment.exists_wellSorted
  refine AnnotatedNetwork.passes_of_corresponds ?_ ⟨_, _, _, hruled d₀ hd₀ σ₀⟩
    fun σ hσ hallows => ?_
  · have hcheck := (hruled d₀ hd₀ σ₀).corresponds.symm.isCheckAt
    have hformed := (h.isFormed_constraints_iff hd₀).1
      ((hpasses d₀ hd₀).isFormed_constraints hcheck)
    rw [ha]
    exact hformed
  · have hholds : HoldsAt σ net.constraints := ha ▸ hallows
    obtain ⟨d, hd, hvalue⟩ : ∃ d ∈ t.nodes,
        σ.value (Symbolic.destination t name).unknown = .ofString d := by
      rw [Network.constraints, h.network.symbolics,
        Symbolic.holdsAt_constraints_destination h.symbolics] at hholds
      exact hholds.1
    -- the assignment already has the node as destination
    have hsame : σ.override (toNode t name d) = σ := override_single_eq hvalue
    have hruled := hruled d hd σ
    rw [hsame] at hruled
    refine ⟨a.substitute (toNode t name d) (netOf d), σ, hσ,
      (h.holdsAt_constraints_iff hd).2 ?_, hruled⟩
    rw [hsame]
    exact hholds

theorem passes_iff (hn : a.IsCheckAt kind n) (hnodes : t.nodes ≠ []) : a.Passes kind n ↔
    ∀ d ∈ t.nodes, (a.substitute (toNode t name d) (netOf d)).Passes kind n := by
  obtain ⟨d₀, hd₀⟩ := List.exists_mem_of_ne_nil _ hnodes
  exact ⟨fun hpasses d hd => h.passes_node ha hP hnames hd hn hpasses,
    h.passes_symbolic ha hP hnames hn hd₀⟩

/-- The checks of all nodes, or of one of them. -/
theorem dischargeAll_eq_none_iff {oracle : Oracle} (hexact : oracle.Exact) (arrival : Arrival)
    (settings : CheckSettings) (s : Session) (kind : CheckKind) {node : Option String}
    (hnode : ∀ n, node = some n → n ∈ t.nodes) :
    ((a.dischargeAll oracle arrival settings (a.obligation kind) node).outcome s).1 = .ok none ↔
      ∀ d ∈ t.nodes, let b := a.substitute (toNode t name d) (netOf d)
        ((b.dischargeAll oracle arrival settings (b.obligation kind) node).outcome s).1 =
          .ok none := by
  have htopology : a.network.topology = t := ha ▸ h.network.topology
  obtain ⟨ns, hns, hsubset⟩ := AnnotatedNetwork.exists_nodesOf (a := a) (htopology ▸ hnode)
  rw [AnnotatedNetwork.dischargeAll_eq_none_iff_passes hexact arrival settings s hns]
  have hnodes (d : String) (hd : d ∈ t.nodes) :
      (a.substitute (toNode t name d) (netOf d)).nodesOf node = .ok ns := by
    have htopology' : (netOf d).topology = a.network.topology :=
      (h.networkOf d hd).topology.trans htopology.symm
    rw [← hns]
    unfold AnnotatedNetwork.nodesOf AnnotatedNetwork.substitute
    rw [htopology']
  have hiff (n : String) (hn : n ∈ ns) : a.Passes kind n ↔ ∀ d ∈ t.nodes,
      (a.substitute (toNode t name d) (netOf d)).Passes kind n :=
    h.passes_iff ha hP hnames (.inr (hsubset n hn))
      (List.ne_nil_of_mem (htopology ▸ hsubset n hn))
  constructor
  · intro hpasses d hd
    exact (AnnotatedNetwork.dischargeAll_eq_none_iff_passes hexact arrival settings s
      (hnodes d hd)).2 fun n hn => (hiff n hn).1 (hpasses n hn) d hd
  · intro hpasses n hn
    exact (hiff n hn).2 fun d hd => (AnnotatedNetwork.dischargeAll_eq_none_iff_passes hexact arrival
      settings s (hnodes d hd)).1 (hpasses d hd) n hn

theorem checkMonolithic_eq_none_iff {oracle : Oracle} (hexact : oracle.Exact) (arrival : Arrival)
    (settings : CheckSettings) (s : Session)
    (hscope : t.nodes ≠ [] ∨ IsFormed ((Symbolic.constraints ss).elaborate [])) :
    ((a.checkMonolithic oracle arrival settings).outcome s).1 = .ok none ↔
      ∀ d ∈ t.nodes, (((a.substitute (toNode t name d) (netOf d)).checkMonolithic oracle arrival
        settings).outcome s).1 = .ok none := by
  simp only [AnnotatedNetwork.checkMonolithic_eq_none_iff hexact arrival settings s ""]
  by_cases hnodes : t.nodes = []
  · have hformed := hscope.resolve_left (not_not_intro hnodes)
    refine iff_of_true (h.passes_monolithic_of_nodes_eq_nil ha hnodes hformed) fun d hd => ?_
    rw [hnodes] at hd
    cases hd
  · exact h.passes_iff ha hP hnames (.inl rfl) hnodes

end Protocol.IsFamily

/-- The networks of a symbolic destination and of all nodes can be built. -/
theorem Protocol.exists_isFamily {P : Protocol} {origin : Term} (hP : P.IsValid origin)
    {t : Topology} {name : String} {D : Destination} {declared ss : List Symbolic}
    (hD : D = .added (.destination t name) ∨ D = .declared (.destination t name))
    (hss : (D.symbolics declared).Perm (.destination t name :: ss))
    (hdistinct : ((Symbolic.destination t name :: ss).map Symbolic.name).Nodup) :
    ∃ net netOf, P.network t D declared = .ok net ∧
      (∀ d ∈ t.nodes, P.network t (.node d) (ss.map (Symbolic.substitute (.toNode t name d))) =
        .ok (netOf d)) ∧ P.IsFamily origin t name D declared ss net netOf := by
  have hfor : D.IsFor t := by rcases hD with rfl | rfl <;> rfl
  obtain ⟨net, hnet, hparts⟩ :=
    exists_network hP hfor ((hss.map Symbolic.name).nodup_iff.2 hdistinct)
  have hnode (d : String) (hd : d ∈ t.nodes) : ∃ net,
      P.network t (.node d) (ss.map (Symbolic.substitute (.toNode t name d))) = .ok net ∧
        P.IsNetwork origin t (.node d) (ss.map (Symbolic.substitute (.toNode t name d))) net := by
    have hnodup : ((ss.map (Symbolic.substitute (.toNode t name d))).map Symbolic.name).Nodup := by
      rw [List.map_map]
      exact (List.nodup_cons.1 hdistinct).2
    exact exists_network hP (show (Destination.node d).IsFor t from hd) hnodup
  have : Nonempty Network := ⟨net⟩
  choose! netOf hnetOf using hnode
  exact ⟨net, netOf, hnet, fun d hd => (hnetOf d hd).1, hD, hss, hdistinct, hparts,
    fun d hd => (hnetOf d hd).2⟩

/-- A symbolic destination stands for every node. If the names of the nodes differ as texts, the
networks of both protocols can be built with the symbolic destination and with every node in its
place, and their simulations have a result for every number of rounds. Where the destination has the
name of a node as its value, the routes of all rounds are those of the network of that node. Each
check finds nothing for the symbolic destination exactly where it finds nothing for any node, with
the node in place of the destination in the annotations, in the properties and in the restrictions of
the other symbolic values. -/
theorem symbolicDestination_stands_for_nodes
    (build : Topology → Destination → List Symbolic → Except Failure Network)
    (hbuild : build = shortestPathNetwork ∨ build = reachabilityNetwork) (t : Topology)
    (hnames : t.NamesDiffer) (name : String) (D : Destination)
    (hD : D = .added (.destination t name) ∨ D = .declared (.destination t name))
    (declared ss : List Symbolic) (hss : (D.symbolics declared).Perm (.destination t name :: ss))
    (hdistinct : ((Symbolic.destination t name :: ss).map Symbolic.name).Nodup) :
    ∃ (net : Network) (netOf : String → Network) (run : Nat → List (String × Typed))
      (runOf : String → Nat → List (String × Typed)),
      build t D declared = .ok net ∧
      (∀ rounds, net.simulate rounds = .ok ((List.range (rounds + 1)).map run)) ∧
      (∀ d ∈ t.nodes,
        build t (.node d) (ss.map (Symbolic.substitute (.toNode t name d))) = .ok (netOf d) ∧
        (∀ rounds, (netOf d).simulate rounds = .ok ((List.range (rounds + 1)).map (runOf d))) ∧
        ∀ σ : Assignment, σ.WellSorted →
          σ.value (Symbolic.destination t name).unknown = .ofString d → ∀ i, ∀ n ∈ t.nodes,
            AnnotatedNetwork.valuesOf σ (run i) n = AnnotatedNetwork.valuesOf σ (runOf d i) n) ∧
      ∀ a : AnnotatedNetwork, a.network = net → ∀ oracle : Oracle, oracle.Exact →
        ∀ (arrival : Arrival) (settings : CheckSettings) (s : Session),
          let atNode (d : String) := a.substitute (.toNode t name d) (netOf d)
          (∀ node : Option String, (∀ n, node = some n → n ∈ t.nodes) →
            (((a.checkBase oracle arrival settings node).outcome s).1 = .ok none ↔ ∀ d ∈ t.nodes,
              (((atNode d).checkBase oracle arrival settings node).outcome s).1 = .ok none) ∧
            (((a.checkInductive oracle arrival settings node).outcome s).1 = .ok none ↔
              ∀ d ∈ t.nodes, (((atNode d).checkInductive oracle arrival settings node).outcome s).1 =
                .ok none) ∧
            (((a.checkSafety oracle arrival settings node).outcome s).1 = .ok none ↔ ∀ d ∈ t.nodes,
              (((atNode d).checkSafety oracle arrival settings node).outcome s).1 = .ok none)) ∧
          (t.nodes ≠ [] ∨ IsFormed ((Symbolic.constraints ss).elaborate []) →
            (((a.checkMonolithic oracle arrival settings).outcome s).1 = .ok none ↔ ∀ d ∈ t.nodes,
              (((atNode d).checkMonolithic oracle arrival settings).outcome s).1 = .ok none)) := by
  obtain ⟨P, origin, send, choose, rfl, hP⟩ := Protocol.exists_isRegular hbuild
  obtain ⟨net, netOf, hnet, hnetOf, h⟩ := Protocol.exists_isFamily hP.toIsValid hD hss hdistinct
  obtain ⟨run, hrun⟩ := h.network.exists_run hP
  have hruns (d : String) (hd : d ∈ t.nodes) : ∃ run, (netOf d).IsRun run :=
    (h.networkOf d hd).exists_run hP
  choose! runOf hrunOf using hruns
  refine ⟨net, netOf, run, runOf, hnet, hrun.simulate, fun d hd => ⟨hnetOf d hd,
    (hrunOf d hd).simulate, fun σ hσ hvalue i n hn => ?_⟩, fun a ha oracle hexact arrival settings
    s => ⟨fun node hnode => ⟨?_, ?_, ?_⟩, fun hscope => ?_⟩⟩
  · rw [h.network.valuesOf_run hP hnames hd (h.denotes_iff.2 hvalue) hσ hrun i hn]
    exact ((h.networkOf d hd).valuesOf_run hP hnames hd rfl hσ (hrunOf d hd) i hn).symm
  · exact h.dischargeAll_eq_none_iff ha hP hnames hexact arrival settings s .base hnode
  · exact h.dischargeAll_eq_none_iff ha hP hnames hexact arrival settings s .step hnode
  · exact h.dischargeAll_eq_none_iff ha hP hnames hexact arrival settings s .safety hnode
  · exact h.checkMonolithic_eq_none_iff ha hP hnames hexact arrival settings s hscope

/-- The way over the detour, from whichever node is the destination. -/
theorem symbolicDestination_stands_for_nodes_detour :
    Topology.detour.NamesDiffer ∧ ∃ (net : Network) (netOf : String → Network)
      (run : Nat → List (String × Typed)) (runOf : String → Nat → List (String × Typed)),
      shortestPathNetwork .detour (.added (.destination .detour "dest")) [] = .ok net ∧
      shortestPathNetwork .detour (.node "B") [] = .ok (netOf "B") ∧
      (∃ σ : Assignment, σ.WellSorted ∧
        σ.value (Symbolic.destination .detour "dest").unknown = .ofString "B" ∧
        ∀ i, AnnotatedNetwork.valuesOf σ (run i) "C" =
          AnnotatedNetwork.valuesOf σ (runOf "B" i) "C") ∧
      ∀ oracle : Oracle, oracle.Exact → ∀ (arrival : Arrival) (settings : CheckSettings)
        (s : Session),
        let a : AnnotatedNetwork := ⟨net, [], [], [("C", .isSome)]⟩
        ((a.checkMonolithic oracle arrival settings).outcome s).1 = .ok none ↔
          ∀ d ∈ Topology.detour.nodes, (((a.substitute (.toNode .detour "dest" d)
            (netOf d)).checkMonolithic oracle arrival settings).outcome s).1 = .ok none := by
  obtain ⟨net, netOf, run, runOf, hnet, -, hnodes, hchecks⟩ :=
    symbolicDestination_stands_for_nodes shortestPathNetwork (.inl rfl) .detour
      Topology.namesDiffer_detour "dest" (.added (.destination .detour "dest")) (.inl rfl) [] []
      (List.Perm.refl _) (List.nodup_singleton _)
  obtain ⟨hnetB, -, hroutes⟩ := hnodes "B" (by decide)
  obtain ⟨σ, hσ⟩ := Assignment.exists_wellSorted
  have hσB := hσ.override (Substitution.isSorted_toNode .detour "dest" "B")
  refine ⟨Topology.namesDiffer_detour, net, netOf, run, runOf, hnet, hnetB,
    ⟨_, hσB, Substitution.value_override_single, fun i =>
      hroutes _ hσB Substitution.value_override_single i "C" (by decide)⟩,
    fun oracle hexact arrival settings s => ?_⟩
  exact (hchecks _ rfl oracle hexact arrival settings s).2 (.inl (by decide))

end RouteInvariants
