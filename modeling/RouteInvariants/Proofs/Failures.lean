import RouteInvariants.Proofs.FailedEdges
import RouteInvariants.Proofs.Soundness

/-!
One network for all failures. A network whose edges may fail behaves, under symbolic values that
name a set of failed edges, like the network in which exactly these edges drop every route. So a
proof about the first is a proof about the second for every set of failures within the bound.

A transfer function that leaves the route sort cannot be dropped symbolically, as the two branches
of the conditional would have different sorts; hence `Network.TransfersKeepSort`.
-/

namespace RouteInvariants

namespace Network

open Typed (Matches)

section Related

variable {σ : Assignment} {net ft : Network} {bound : Int} {failed : List Edge} {e : Edge}
  {x y : Typed}

variable (net ft bound failed σ) in
/-- The failures that the symbolic values name are those of the list. -/
structure Scenario : Prop where
  isWith : IsWithFailures net ft bound
  transfers : net.TransfersKeepSort
  absent : ∃ x, (Expr.absent net.routeTy).elaborate [] = .ok x
  fails : ∀ e ∈ net.topology.edges, (σ.fails bound.toNat e = true ↔ e ∈ failed)

/-- Sending matching routes over an edge, where it may be down and where it is down if it is one of
the failed edges. -/
theorem Scenario.transfer_matches (h : Scenario σ net ft bound failed)
    (he : e ∈ net.topology.edges) (hxy : Matches σ σ x y) (hty : x.ty = net.routeTy) :
    ∃ u w, (ft.transferOf e).applyTo x = .ok u ∧
      ((net.dropping failed).transferOf e).applyTo y = .ok w ∧ Matches σ σ u w := by
  obtain ⟨b, hb, hbty⟩ := h.transfers e he
  obtain ⟨u, hu, huty, heval⟩ := dropIfFailed_applyTo (r := x) h.isWith.option h.absent hb hbty hty
  rw [h.isWith.transfer e he, transferOf_dropping he]
  have hclosed := Expr.isClosed_of_appliedTo hxy.left hu
  split
  · rename_i hmem
    obtain ⟨z, hz⟩ := h.absent
    have hw : (Transfer.const (.absent net.routeTy)).applyTo y =
        .ok ⟨.call (.con 0) y.term, net.routeTy⟩ :=
      bind_eq_ok.2 ⟨_, elaborate_absent h.isWith.option hz _, rfl⟩
    refine ⟨u, _, hu, hw, hclosed, Expr.isClosed_of_appliedTo hxy.right hw, huty, ?_⟩
    rw [heval, if_pos ((h.fails e he).2 hmem)]
    rfl
  · rename_i hmem
    have hw : (net.transferOf e).applyTo y = .ok ⟨.call b.term y.term, b.ty⟩ :=
      bind_eq_ok.2 ⟨b, by rw [← hxy.ty, hty, hb], rfl⟩
    refine ⟨u, _, hu, hw, hclosed, Expr.isClosed_of_appliedTo hxy.right hw,
      huty.trans hbty.symm, ?_⟩
    rw [heval, if_neg (fun hf => hmem ((h.fails e he).1 hf)), hxy.eval]
    rfl

variable (σ net) in
/-- Matching routes, of the route sort. -/
def MatchingRoutes (x y : Typed) : Prop := Matches σ σ x y ∧ x.ty = net.routeTy

theorem MatchingRoutes.symm (h : MatchingRoutes σ net x y) : MatchingRoutes σ net y x :=
  ⟨h.1.symm, h.1.ty ▸ h.2⟩

/-- What variants of a network need in order to be related: matching routes stay matching when they
are sent. -/
theorem relatedAt_variants {net₁ net₂ : Network} (h₁ : Variant net net₁) (h₂ : Variant net net₂)
    {n : String} (htransfer : ∀ p ∈ net.topology.predecessors n, ∀ {x y : Typed},
      MatchingRoutes σ net x y → ∃ u w, (net₁.transferOf ⟨p, n⟩).applyTo x = .ok u ∧
        (net₂.transferOf ⟨p, n⟩).applyTo y = .ok w ∧ Matches σ σ u w) :
    RelatedAt (MatchingRoutes σ net) (Matches σ σ) net₁ net₂ n where
  neighbors := by rw [h₁.topology, h₂.topology]
  origination := by rw [h₁.origination, h₂.origination]
  initial hn := by
    rw [h₁.topology] at hn
    rw [initialOf, initialOf, h₁.initial, h₂.initial]
    exact (isClosed_initialOf hn).matches_self σ
  transfer p hp x y u hxy hu := by
    rw [h₁.topology] at hp
    obtain ⟨u', w, hu', hw, huw⟩ := htransfer p hp hxy
    rw [hu] at hu'
    cases hu'
    exact ⟨w, hw, huw⟩
  merge hxy hxy' hu := by
    rw [h₂.merge]
    rw [h₁.merge] at hu
    exact Expr.appliedTo₂_matches (.refl _ σ) hxy hxy' hu

theorem roundRelation_variants {net₁ net₂ : Network} (h₁ : Variant net net₁)
    (h₂ : Variant net net₂) (hσ : σ.WellSorted) (hkeep : net₁.KeepsSort)
    (htransfer : ∀ e ∈ net.topology.edges, ∀ {x y : Typed}, MatchingRoutes σ net x y →
      ∃ u w, (net₁.transferOf e).applyTo x = .ok u ∧ (net₂.transferOf e).applyTo y = .ok w ∧
        Matches σ σ u w) :
    RoundRelation (MatchingRoutes σ net) (Matches σ σ) net₁ net₂ where
  nodes := by rw [h₁.topology, h₂.topology]
  related n _ := relatedAt_variants h₁ h₂ fun p hp =>
    htransfer _ (Topology.mem_edges_of_mem_predecessors hp)
  ty h := h.ty
  initial n hn := by
    rw [h₁.topology] at hn
    rw [initialOf, initialOf, h₁.initial, h₂.initial]
    exact ⟨(isClosed_initialOf hn).matches_self σ, net.initial_ty n hn⟩
  next n hn rs rs' u w hr hu huw := by
    have hty : u.ty = net₁.routeTy := hkeep.update_ty (fun p hp => by
      obtain ⟨x, y, hx, -, hxy⟩ := hr p hp
      exact ⟨x, hx, hxy.2.trans h₁.routeTy.symm⟩) hu
    exact ⟨huw.simplify hσ hσ, hty.trans h₁.routeTy⟩

/-- A variant whose transfer functions keep the route sort keeps it in its updates as well. -/
theorem KeepsSort.of_variant {net' : Network} (h : Variant net net') (hkeep : net.KeepsSort)
    (ht : net.TransfersKeepSort) (ht' : net'.TransfersKeepSort) : net'.KeepsSort := by
  intro n hn x hx
  have hnode : ∀ p ∈ net'.topology.predecessors n, p ∈ net'.topology.nodes := fun p hp =>
    Topology.mem_nodes_of_mem_predecessors hp
  have hrelated : RelatedAt (fun x y => x.ty = net.routeTy ∧ y.ty = net.routeTy)
      (fun x y => x.ty = y.ty) net' net n := {
    neighbors := by rw [h.topology]
    origination := h.origination.symm
    initial := fun _ => by rw [initialOf, initialOf, h.initial]
    transfer := fun p hp x y u hxy hu => by
      have he' := Topology.mem_edges_of_mem_predecessors hp
      obtain ⟨b, hb, hbty⟩ := ht _ (h.topology ▸ he')
      obtain ⟨b', hb', hbty'⟩ := ht' _ he'
      obtain ⟨c, hc, hu⟩ := bind_eq_ok.1 hu
      cases hu
      rw [hxy.1, ← h.routeTy, hb'] at hc
      cases hc
      exact ⟨_, bind_eq_ok.2 ⟨b, by rw [hxy.2, hb], rfl⟩, hbty'.trans (h.routeTy.trans hbty.symm)⟩
    merge := fun {x y x' y' u} hxy hxy' hu => by
      rw [h.merge] at hu
      exact (net.relatedAt_sort n).merge hxy hxy' hu }
  have hroutes : ∀ p ∈ net'.topology.predecessors n,
      RoutesAt (fun x y => x.ty = net.routeTy ∧ y.ty = net.routeTy) (net'.unknownRoutes "route")
        (net.unknownRoutes "route") p := fun p hp =>
    ⟨_, _, Entries.get?_map_self _ (hnode p hp),
      Entries.get?_map_self _ (h.topology ▸ hnode p hp), h.routeTy, rfl⟩
  obtain ⟨w, hw, hxw⟩ := update_rel hrelated hroutes hx
  rw [hxw, hkeep n (h.topology ▸ hn) w hw, h.routeTy]

theorem transfersKeepSort_dropping (ht : net.TransfersKeepSort)
    (hoption : net.routeTy.isOption = true)
    (hnone : ∃ x, (Expr.absent net.routeTy).elaborate [] = .ok x) :
    (net.dropping failed).TransfersKeepSort := by
  intro e he
  have he : e ∈ net.topology.edges := he
  rw [transferOf_dropping he]
  split
  · obtain ⟨x, hx⟩ := hnone
    exact ⟨_, elaborate_absent hoption hx _, rfl⟩
  · exact ht e he

theorem IsWithFailures.transfersKeepSort (hft : IsWithFailures net ft bound)
    (ht : net.TransfersKeepSort) (hnone : ∃ x, (Expr.absent net.routeTy).elaborate [] = .ok x) :
    ft.TransfersKeepSort := by
  intro e he
  rw [hft.variant.topology] at he
  obtain ⟨b, hb, hbty⟩ := ht e he
  obtain ⟨c, hc, -⟩ := dropIfFailed_elaborate hft.option hnone hb hbty
  rw [hft.transfer e he, hft.variant.routeTy]
  exact ⟨_, hc, rfl⟩

theorem Scenario.transfer (h : Scenario σ net ft bound failed) (he : e ∈ net.topology.edges)
    (hxy : MatchingRoutes σ net x y) : ∃ u w, (ft.transferOf e).applyTo x = .ok u ∧
      ((net.dropping failed).transferOf e).applyTo y = .ok w ∧ Matches σ σ u w :=
  h.transfer_matches he hxy.1 hxy.2

theorem Scenario.transfer_dropping (h : Scenario σ net ft bound failed)
    (he : e ∈ net.topology.edges) (hxy : MatchingRoutes σ net x y) :
    ∃ u w, ((net.dropping failed).transferOf e).applyTo x = .ok u ∧
      (ft.transferOf e).applyTo y = .ok w ∧ Matches σ σ u w := by
  obtain ⟨u, w, hu, hw, huw⟩ := h.transfer he hxy.symm
  exact ⟨w, u, hw, hu, huw.symm⟩

/-- The update of a node with the failures, and in the network that drops the routes. -/
theorem Scenario.update (h : Scenario σ net ft bound failed) {n : String}
    {rs : List (String × Typed)} (hrs : ∀ p ∈ net.topology.predecessors n,
      ∃ r, Entries.get? rs p = some r ∧ r.IsClosed ∧ r.ty = net.routeTy) :
    (∀ x, ft.update n rs = .ok x →
      ∃ y, (net.dropping failed).update n rs = .ok y ∧ Matches σ σ x y) ∧
    ∀ y, (net.dropping failed).update n rs = .ok y →
      ∃ x, ft.update n rs = .ok x ∧ Matches σ σ x y := by
  have hroutes : ∀ p ∈ net.topology.predecessors n,
      RoutesAt (MatchingRoutes σ net) rs rs p := fun p hp => by
    obtain ⟨r, hr, hclosed, hty⟩ := hrs p hp
    exact ⟨r, r, hr, hr, hclosed.matches_self σ, hty⟩
  have hvariant := h.isWith.variant
  -- both are variants of one network, so the same argument goes in both directions
  refine ⟨fun x hx => ?_, fun y hy => ?_⟩
  · exact update_rel (relatedAt_variants hvariant (net.variant_dropping failed) fun p hp =>
      h.transfer (Topology.mem_edges_of_mem_predecessors hp))
      (fun p hp => hroutes p (hvariant.topology ▸ hp)) hx
  · obtain ⟨x, hx, hyx⟩ := update_rel (relatedAt_variants (net.variant_dropping failed) hvariant
      fun p hp => h.transfer_dropping (Topology.mem_edges_of_mem_predecessors hp)) hroutes hy
    exact ⟨x, hx, hyx.symm⟩

/-- The rounds of a simulation with the failures, and of one that drops the routes. -/
theorem Scenario.simulate (h : Scenario σ net ft bound failed) (hσ : σ.WellSorted)
    (hkeep : net.KeepsSort) {rounds : Nat} {states : List (List (String × Typed))} :
    (ft.simulate rounds = .ok states →
      ∃ states', (net.dropping failed).simulate rounds = .ok states' ∧ List.Forall₂
        (fun s s' => ∀ n ∈ net.topology.nodes, RoutesAt (Matches σ σ) s s' n) states states') ∧
    ((net.dropping failed).simulate rounds = .ok states →
      ∃ states', ft.simulate rounds = .ok states' ∧ List.Forall₂
        (fun s s' => ∀ n ∈ net.topology.nodes, RoutesAt (Matches σ σ) s s' n) states states') := by
  have hvariant := h.isWith.variant
  have hdropping := net.variant_dropping failed
  have weaken {s s' : List (String × Typed)} {n : String} :
      RoutesAt (MatchingRoutes σ net) s s' n → RoutesAt (Matches σ σ) s s' n :=
    fun ⟨x, y, hx, hy, hxy⟩ => ⟨x, y, hx, hy, hxy.1⟩
  refine ⟨fun hs => ?_, fun hs => ?_⟩
  · have hkeep' := hkeep.of_variant hvariant h.transfers
      (h.isWith.transfersKeepSort h.transfers h.absent)
    obtain ⟨states', hs', hall⟩ := simulate_rel (roundRelation_variants hvariant hdropping hσ hkeep'
      fun e he => h.transfer he) hs
    refine ⟨states', hs', hall.imp fun s s' hr n hn => weaken (hr n (hvariant.topology ▸ hn))⟩
  · have hkeep' := hkeep.of_variant hdropping h.transfers
      (transfersKeepSort_dropping h.transfers h.isWith.option h.absent)
    obtain ⟨states', hs', hall⟩ := simulate_rel (roundRelation_variants hdropping hvariant hσ hkeep'
      fun e he => h.transfer_dropping he) hs
    exact ⟨states', hs', hall.imp fun s s' hr n hn => weaken (hr n hn)⟩

/-- The symbolic values that a network with failures allows: those that the network allows and under
which each failure is absent or names an edge. -/
theorem IsWithFailures.holdsAt_constraints_iff (hft : IsWithFailures net ft bound) :
    HoldsAt σ ft.constraints ↔
      HoldsAt σ net.constraints ∧ σ.NamesEdges bound.toNat net.topology.edges := by
  have hfailure (i : Nat) :
      HoldsAt σ ((failureSymbolic net.topology.edges i).constraint.elaborate []) ↔
        (σ.value (failureVar i)).head? = some 0 ∨
          ∃ e ∈ net.topology.edges, σ.value (failureVar i) = failureValue e := by
    rw [(means_failureSymbolic net.topology.edges i).holdsAt_iff]
    simp only [Bool.or_eq_true, decide_eq_true_eq, List.any_eq_true]
  unfold constraints Symbolic.constraints
  simp only [Expr.holdsAt_conj, hft.symbolics, List.map_append, List.mem_append, or_imp,
    forall_and, failureSymbolics, List.map_map, List.forall_mem_map, List.mem_range]
  exact and_congr_right fun _ => forall₂_congr fun i _ => hfailure i

/-- Restrictions of symbolic values that name failures. -/
theorem IsWithFailures.holdsAt_constraints (hft : IsWithFailures net ft bound)
    (hfailed : ∀ e ∈ failed, e ∈ net.topology.edges) (henum : σ.Enumerates bound.toNat failed)
    (hnet : HoldsAt σ net.constraints) : HoldsAt σ ft.constraints :=
  hft.holdsAt_constraints_iff.2 ⟨hnet, henum.namesEdges hfailed⟩

/-- What is verified with failures holds in every round where the failed edges drop the routes. -/
theorem Scenario.satisfied (h : Scenario σ net ft bound failed) (hσ : σ.WellSorted)
    (hkeep : net.KeepsSort) {a : AnnotatedNetwork} (ha : a.network = ft) (hallows : a.Allows σ)
    (hverified : a.Verified) (rounds : Nat) :
    ∃ states, (net.dropping failed).simulate rounds = .ok states ∧ states.length = rounds + 1 ∧
      ∀ (t : Nat) state, states[t]? = some state → ∀ n ∈ net.topology.nodes,
        ∃ r, Entries.get? state n = some r ∧
          HoldsAt σ ((a.annotationOf n).atTime r t) ∧ HoldsAt σ ((a.modularOf n).atTime r t) := by
  subst ha
  have hvariant := h.isWith.variant
  obtain ⟨states, hstates, hlength, hall⟩ := hverified.simulate (hkeep.of_variant hvariant
    h.transfers (h.isWith.transfersKeepSort h.transfers h.absent)) rounds
  obtain ⟨states', hstates', hmatch⟩ := (h.simulate hσ hkeep).1 hstates
  refine ⟨states', hstates', hmatch.length_eq ▸ hlength, fun t state' ht n hn => ?_⟩
  obtain ⟨state, hstate, hroutes⟩ := exists_getElem?_of_forall₂ hmatch ht
  obtain ⟨r, r', hr, hr', hrr⟩ := hroutes n hn
  have hsat := hall t state hstate
  have hn' : n ∈ a.network.topology.nodes := hvariant.topology ▸ hn
  obtain ⟨r'', hr'', -, -, hinv⟩ := hsat.route n hn'
  rw [hr] at hr''
  cases hr''
  have hsame (inv : Invariant) := AnnotatedNetwork.sameResult_atTime inv hrr t
  exact ⟨r', hr', (hsame _).holdsAt (hinv.holds σ hσ hallows),
    (hsame _).holdsAt (hsat.property_holds hverified hσ hallows hn' hr)⟩

end Related

end Network

/-! ### Two nodes and one edge -/

/-- Two nodes, the second of which receives the route of the first; both start without a route. -/
def Network.link (transfer : Transfer) : Network where
  topology := ⟨[("A", []), ("B", ["A"])], by decide, by decide, by decide⟩
  transfer := [(⟨"A", "B"⟩, transfer)]
  merge := .first
  initial := ⟨[("A", ⟨.con 0, .option .int⟩), ("B", ⟨.con 0, .option .int⟩)], by decide, by
    simp only [List.mem_cons, List.not_mem_nil, or_false, forall_eq_or_imp, forall_eq]
    exact ⟨⟨.absent .int, rfl⟩, .absent .int, rfl⟩⟩
  symbolics := []
  routeTy := .option .int
  origination := .initialOnly
  failureBounds := []
  transfer_keys := fun _ => Iff.rfl
  initial_keys := fun _ => Iff.rfl
  nodup_symbolics := List.nodup_nil
  initial_ty := fun n hn => by
    rcases List.mem_cons.1 hn with rfl | hn
    · rfl
    · obtain rfl := List.mem_singleton.1 hn
      rfl
  declared_routeTy := fun _ _ => rfl

/-- The link with one failure, under invariants that always hold. -/
def AnnotatedNetwork.failingLink : AnnotatedNetwork where
  network := (Network.link .identity).failing 1 (by decide)
  annotations := [("A", .any), ("B", .any)]
  modularProperties := [("A", .any), ("B", .any)]
  monolithicProperties := [("A", .always), ("B", .always)]

theorem AnnotatedNetwork.verified_failingLink : failingLink.Verified := by
  have hnodes : ∀ n ∈ failingLink.network.topology.nodes, n = "A" ∨ n = "B" := fun n hn => by
    simpa using (show n ∈ ["A", "B"] from hn)
  have hany : ∀ n ∈ failingLink.network.topology.nodes,
      failingLink.annotationOf n = .any ∧ failingLink.modularOf n = .any := fun n hn => by
    rcases hnodes n hn with rfl | rfl <;> exact ⟨rfl, rfl⟩
  have hholds {σ : Assignment} {x : Typed} {t : Int} : HoldsAt σ (Invariant.any.atTime x t) :=
    ⟨_, rfl, rfl⟩
  refine verified_of_no_violations (fun n hn => ?_) (fun n hn σ hv => ?_)
    (fun n hn σ ρ t hρ hv => ?_) (fun n hn σ v t hv => ?_)
  · rcases hnodes n hn with rfl | rfl <;> exact ⟨⟨_, rfl⟩, ⟨_, rfl⟩, _, rfl⟩
  · rw [BaseViolation, (hany n hn).1] at hv
    exact hholds.not_failsAt hv
  · obtain ⟨y, -, hlater⟩ := hv.later
    rw [(hany n hn).1] at hlater
    exact hholds.not_failsAt hlater
  · have hproperty := hv.property
    rw [(hany n hn).2] at hproperty
    exact hholds.not_failsAt hproperty

/-- The assignment in which the first failure is that of an edge. -/
def Assignment.withFailure (σ : Assignment) (e : Edge) : Assignment where
  value x := if x = failureVar 0 then failureValue e else σ.value x
  absent := σ.absent

theorem Assignment.WellSorted.withFailure {σ : Assignment} (hσ : σ.WellSorted) (e : Edge) :
    (σ.withFailure e).WellSorted where
  value x hx := by
    unfold Assignment.withFailure
    dsimp only
    split
    · rename_i hfailure
      rw [hfailure]
      rfl
    · exact hσ.value x hx
  absent := hσ.absent

/-! ### Coverage -/

end RouteInvariants
