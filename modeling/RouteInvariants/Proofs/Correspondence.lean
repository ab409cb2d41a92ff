import RouteInvariants.Proofs.Verdicts

/-!
Networks that look alike. Two annotated networks correspond at a node, each under an assignment of
its own, where the parts that a check at the node reads mean the same (`Corresponds`). Then the check
is violated in both or in none (`Corresponds.violates`), and its obligation can be formed in both or
in none (`Corresponds.formedAt`). So a check passes if everything that could violate it corresponds
to something that a passed check has ruled out (`passes_of_corresponds`).
-/

namespace RouteInvariants

open Typed (Matches)

/-! ### Parts that mean the same -/

/-- Two invariants agree on routes that match. -/
def Invariant.SameUnder (σ τ : Assignment) (inv inv' : Invariant) : Prop :=
  ∀ ⦃x y : Typed⦄, Matches σ τ x y → ∀ t, SameResult σ τ (inv.atTime x t) (inv'.atTime y t)

/-- Two predicates agree on routes that match. -/
def Predicate.SameUnder (σ τ : Assignment) (p p' : Predicate) : Prop :=
  ∀ ⦃x y : Typed⦄, Matches σ τ x y → SameResult σ τ (p.applyTo x) (p'.applyTo y)

section SameUnder

variable {σ τ : Assignment}

theorem Invariant.sameUnder_refl (inv : Invariant) : inv.SameUnder σ σ inv :=
  fun _ _ hxy t => AnnotatedNetwork.sameResult_atTime inv hxy t

theorem Predicate.sameUnder_refl (p : Predicate) : p.SameUnder σ σ p :=
  fun _ _ hxy => sameResult_appliedTo (.refl _ σ) hxy

theorem Invariant.SameUnder.symm {inv inv' : Invariant} (h : inv.SameUnder σ τ inv') :
    inv'.SameUnder τ σ inv := fun _ _ hxy t => (h hxy.symm t).symm

theorem Predicate.SameUnder.symm {p p' : Predicate} (h : p.SameUnder σ τ p') :
    p'.SameUnder τ σ p := fun _ _ hxy => (h hxy.symm).symm

end SameUnder

/-- A node has the same sort of routes, predecessors, initial route and updates in two networks. -/
structure Network.CorrespondsAt (net net' : Network) (σ τ : Assignment) (n : String) : Prop where
  left : n ∈ net.topology.nodes
  right : n ∈ net'.topology.nodes
  routeTy : net.routeTy = net'.routeTy
  predecessors : ∀ p, p ∈ net.topology.predecessors n ↔ p ∈ net'.topology.predecessors n
  initial : Matches σ τ (net.initialOf n) (net'.initialOf n)
  update : ∀ {ρ : String → Value}, (∀ p ∈ net.topology.predecessors n,
    (ρ p).fits net.routeTy = true) → ∀ {x}, net.update n (net.routes ρ) = .ok x →
      ∃ y, net'.update n (net'.routes ρ) = .ok y ∧ Matches σ τ x y
  update_left : ∀ {ρ : String → Value}, (∀ p ∈ net'.topology.predecessors n,
    (ρ p).fits net'.routeTy = true) → ∀ {y}, net'.update n (net'.routes ρ) = .ok y →
      ∃ x, net.update n (net.routes ρ) = .ok x ∧ Matches σ τ x y

namespace Network

variable {net net' : Network} {σ τ : Assignment} {n : String}

theorem CorrespondsAt.symm (h : net.CorrespondsAt net' σ τ n) : net'.CorrespondsAt net τ σ n where
  left := h.right
  right := h.left
  routeTy := h.routeTy.symm
  predecessors p := (h.predecessors p).symm
  initial := h.initial.symm
  update hρ _ hy := (h.update_left hρ hy).imp fun _ hx => ⟨hx.1, hx.2.symm⟩
  update_left hρ _ hx := (h.update hρ hx).imp fun _ hy => ⟨hy.1, hy.2.symm⟩

/-- A value is the same route in both networks. -/
theorem CorrespondsAt.matches_route (h : net.CorrespondsAt net' σ τ n) {v : Value}
    (hv : v.fits net.routeTy = true) : Matches σ τ (net.route v) (net'.route v) :=
  ⟨isClosed_route h.left hv, isClosed_route h.right (h.routeTy ▸ hv), h.routeTy, rfl⟩

/-- The parts of two networks with one topology mean the same at a node. -/
structure SamePartsAt (net net' : Network) (σ τ : Assignment) (n : String) : Prop where
  topology : net.topology = net'.topology
  routeTy : net.routeTy = net'.routeTy
  origination : net.origination = net'.origination
  initial : n ∈ net.topology.nodes → Matches σ τ (net.initialOf n) (net'.initialOf n)
  transfer : ∀ p ∈ net.topology.predecessors n, ∀ ⦃x y : Typed⦄, Matches σ τ x y →
    SameResult σ τ ((net.transferOf ⟨p, n⟩).applyTo x) ((net'.transferOf ⟨p, n⟩).applyTo y)
  merge : ∀ ⦃x y x' y' : Typed⦄, Matches σ τ x y → Matches σ τ x' y' →
    SameResult σ τ (net.merge.applyTo x x') (net'.merge.applyTo y y')

theorem SamePartsAt.symm (h : net.SamePartsAt net' σ τ n) : net'.SamePartsAt net τ σ n where
  topology := h.topology.symm
  routeTy := h.routeTy.symm
  origination := h.origination.symm
  initial hn := (h.initial (h.topology ▸ hn)).symm
  transfer p hp _ _ hxy := (h.transfer p (h.topology ▸ hp) hxy.symm).symm
  merge _ _ _ _ hxy hxy' := (h.merge hxy.symm hxy'.symm).symm

theorem SamePartsAt.relatedAt (h : net.SamePartsAt net' σ τ n) :
    RelatedAt (Matches σ τ) (Matches σ τ) net net' n where
  neighbors := by rw [h.topology]
  origination := h.origination.symm
  initial := h.initial
  transfer p hp _ _ _ hxy hu := (h.transfer p hp hxy).right hu
  merge hxy hxy' hu := (h.merge hxy hxy').right hu

/-- Then routes are updated alike. -/
theorem SamePartsAt.update (h : net.SamePartsAt net' σ τ n) {ρ : String → Value}
    (hρ : ∀ p ∈ net.topology.predecessors n, (ρ p).fits net.routeTy = true) {x : Typed}
    (hx : net.update n (net.routes ρ) = .ok x) :
    ∃ y, net'.update n (net'.routes ρ) = .ok y ∧ Matches σ τ x y := by
  refine update_rel h.relatedAt (fun p hp => ?_) hx
  have hleft := Topology.mem_nodes_of_mem_predecessors hp
  have hright : p ∈ net'.topology.nodes := h.topology ▸ hleft
  have hfits := hρ p hp
  exact ⟨_, _, get?_mapNodes hleft, get?_mapNodes hright, isClosed_route hleft hfits,
    isClosed_route hright (h.routeTy ▸ hfits), h.routeTy, rfl⟩

theorem SamePartsAt.correspondsAt (h : net.SamePartsAt net' σ τ n) (hn : n ∈ net.topology.nodes) :
    net.CorrespondsAt net' σ τ n where
  left := hn
  right := h.topology ▸ hn
  routeTy := h.routeTy
  predecessors p := by rw [h.topology]
  initial := h.initial hn
  update hρ _ hx := h.update hρ hx
  update_left hρ _ hy := (h.symm.update hρ hy).imp fun _ hx => ⟨hx.1, hx.2.symm⟩

end Network

/-! ### Checks -/

namespace AnnotatedNetwork

variable {a b : AnnotatedNetwork} {σ τ : Assignment} {kind : CheckKind} {n : String}
  {ρ : String → Value} {t : Int}

/-- What a check at a node reads means the same in two networks. -/
def Corresponds (a b : AnnotatedNetwork) (σ τ : Assignment) (kind : CheckKind) (n : String) : Prop :=
  match kind with
  | .base => a.network.CorrespondsAt b.network σ τ n ∧
      (a.annotationOf n).SameUnder σ τ (b.annotationOf n)
  | .step => a.network.CorrespondsAt b.network σ τ n ∧
      (a.annotationOf n).SameUnder σ τ (b.annotationOf n) ∧
      ∀ p ∈ a.network.topology.predecessors n,
        (a.annotationOf p).SameUnder σ τ (b.annotationOf p)
  | .safety => a.network.CorrespondsAt b.network σ τ n ∧
      (a.annotationOf n).SameUnder σ τ (b.annotationOf n) ∧
      (a.modularOf n).SameUnder σ τ (b.modularOf n)
  | .monolithic => (∀ m, m ∈ a.network.topology.nodes ↔ m ∈ b.network.topology.nodes) ∧
      ∀ m ∈ a.network.topology.nodes, a.network.CorrespondsAt b.network σ τ m ∧
        (a.monolithicOf m).SameUnder σ τ (b.monolithicOf m)

/-- The parts that a check reads are those of all nodes, or of the node of the check and the
annotations of its predecessors. -/
theorem corresponds_of_nodes
    (hnodes : ∀ m, m ∈ a.network.topology.nodes ↔ m ∈ b.network.topology.nodes)
    (hnode : ∀ m ∈ a.network.topology.nodes, kind = .monolithic ∨ m = n →
      a.network.CorrespondsAt b.network σ τ m)
    (hinvariant : ∀ m, (a.annotationOf m).SameUnder σ τ (b.annotationOf m))
    (hmodular : ∀ m, (a.modularOf m).SameUnder σ τ (b.modularOf m))
    (hmonolithic : ∀ m, (a.monolithicOf m).SameUnder σ τ (b.monolithicOf m))
    (hn : a.IsCheckAt kind n) : a.Corresponds b σ τ kind n := by
  cases kind with
  | base => exact ⟨hnode n (hn.resolve_left CheckKind.noConfusion) (.inr rfl), hinvariant n⟩
  | step =>
    exact ⟨hnode n (hn.resolve_left CheckKind.noConfusion) (.inr rfl), hinvariant n,
      fun p _ => hinvariant p⟩
  | safety =>
    exact ⟨hnode n (hn.resolve_left CheckKind.noConfusion) (.inr rfl), hinvariant n, hmodular n⟩
  | monolithic => exact ⟨hnodes, fun m hm => ⟨hnode m hm (.inl rfl), hmonolithic m⟩⟩

theorem Corresponds.isCheckAt (h : a.Corresponds b σ τ kind n) : a.IsCheckAt kind n := by
  cases kind with
  | monolithic => exact .inl rfl
  | _ => exact .inr h.1.left

theorem Corresponds.symm (h : a.Corresponds b σ τ kind n) : b.Corresponds a τ σ kind n := by
  cases kind with
  | base => exact ⟨h.1.symm, h.2.symm⟩
  | step => exact ⟨h.1.symm, h.2.1.symm, fun p hp => (h.2.2 p ((h.1.predecessors p).2 hp)).symm⟩
  | safety => exact ⟨h.1.symm, h.2.1.symm, h.2.2.symm⟩
  | monolithic =>
    refine ⟨fun m => (h.1 m).symm, fun m hm => ?_⟩
    obtain ⟨hnode, hproperty⟩ := h.2 m ((h.1 m).2 hm)
    exact ⟨hnode.symm, hproperty.symm⟩

/-- What violates a check violates the corresponding one. -/
theorem Corresponds.violates (h : a.Corresponds b σ τ kind n) (hρ : a.AreRoutes ρ)
    (hv : a.Violates kind σ n ρ t) : b.Violates kind τ n ρ t := by
  cases kind with
  | base => exact (h.2 h.1.initial 0).failsAt hv
  | step =>
    obtain ⟨hnode, hnext, hpreds⟩ := h
    have hfits : ∀ p ∈ a.network.topology.predecessors n,
        (ρ p).fits a.network.routeTy = true := fun p hp =>
      hρ p (Topology.mem_nodes_of_mem_predecessors hp)
    obtain ⟨hpositive, hearlier, x, hx, hfails⟩ := hv
    obtain ⟨y, hy, hxy⟩ := hnode.update hfits hx
    refine ⟨hpositive, fun p hp => ?_, y, hy, (hnext hxy t).failsAt hfails⟩
    have hp := (hnode.predecessors p).2 hp
    exact (hpreds p hp (hnode.matches_route (hfits p hp)) (t - 1)).holdsAt (hearlier p hp)
  | safety =>
    obtain ⟨hnode, hinvariant, hproperty⟩ := h
    have hmatch := hnode.matches_route (hρ n hnode.left)
    exact ⟨hv.nonneg, (hinvariant hmatch t).holdsAt hv.invariant,
      (hproperty hmatch t).failsAt hv.property⟩
  | monolithic =>
    obtain ⟨hnodes, hall⟩ := h
    obtain ⟨hstable, m, hm, hfails⟩ := hv
    refine ⟨fun m hm => ?_, m, (hnodes m).1 hm, ?_⟩
    · have hm := (hnodes m).2 hm
      obtain ⟨hnode, -⟩ := hall m hm
      obtain ⟨x, hx, hholds⟩ := hstable m hm
      obtain ⟨y, hy, hxy⟩ := hnode.update (fun p hp =>
        hρ p (Topology.mem_nodes_of_mem_predecessors hp)) hx
      exact ⟨y, hy, (sameResult_equal (hnode.matches_route (hρ m hm)) hxy).holdsAt hholds⟩
    · obtain ⟨hnode, hproperty⟩ := hall m hm
      exact (hproperty (hnode.matches_route (hρ m hm))).failsAt hfails

/-- Corresponding checks can be formed alike. -/
theorem Corresponds.formedAt (h : a.Corresponds b σ τ kind n) (hρ : a.AreRoutes ρ)
    (hf : a.FormedAt kind n ρ t) : b.FormedAt kind n ρ t := by
  cases kind with
  | base => exact (h.2 (h.1.matches_route (hρ n h.1.left)) 0).isFormed hf
  | step =>
    obtain ⟨hnode, hnext, hpreds⟩ := h
    have hfits : ∀ p ∈ a.network.topology.predecessors n,
        (ρ p).fits a.network.routeTy = true := fun p hp =>
      hρ p (Topology.mem_nodes_of_mem_predecessors hp)
    obtain ⟨⟨x, hx, hformed⟩, hearlier⟩ := hf
    obtain ⟨y, hy, hxy⟩ := hnode.update hfits hx
    refine ⟨⟨y, hy, (hnext hxy t).isFormed hformed⟩, fun p hp => ?_⟩
    have hp := (hnode.predecessors p).2 hp
    exact (hpreds p hp (hnode.matches_route (hfits p hp)) (t - 1)).isFormed (hearlier p hp)
  | safety =>
    obtain ⟨hnode, hinvariant, hproperty⟩ := h
    have hmatch := hnode.matches_route (hρ n hnode.left)
    exact ⟨(hinvariant hmatch t).isFormed hf.1, (hproperty hmatch t).isFormed hf.2⟩
  | monolithic =>
    obtain ⟨hnodes, hall⟩ := h
    intro m hm
    have hm := (hnodes m).2 hm
    obtain ⟨hnode, hproperty⟩ := hall m hm
    obtain ⟨⟨x, hx, hequal⟩, hformed⟩ := hf m hm
    have hmatch := hnode.matches_route (hρ m hm)
    obtain ⟨y, hy, hxy⟩ := hnode.update (fun p hp =>
      hρ p (Topology.mem_nodes_of_mem_predecessors hp)) hx
    exact ⟨⟨y, hy, (sameResult_equal hmatch hxy).isFormed hequal⟩,
      (hproperty hmatch).isFormed hformed⟩

/-- Another network in which the check passes, with the same routes, where everything that the check
reads means the same. -/
structure IsRuledOutBy (a b : AnnotatedNetwork) (σ τ : Assignment) (kind : CheckKind) (n : String) :
    Prop where
  passes : b.Passes kind n
  routes : ∀ {ρ}, a.AreRoutes ρ → b.AreRoutes ρ
  corresponds : a.Corresponds b σ τ kind n

/-- A check passes where whatever could violate it is ruled out by a check that passes. -/
theorem passes_of_corresponds (hscope : IsFormed a.network.constraints)
    (hsome : ∃ b σ τ, a.IsRuledOutBy b σ τ kind n)
    (hall : ∀ σ : Assignment, σ.WellSorted → a.Allows σ →
      ∃ b τ, τ.WellSorted ∧ b.Allows τ ∧ a.IsRuledOutBy b σ τ kind n) : a.Passes kind n := by
  obtain ⟨b, σ, τ, hb⟩ := hsome
  have hcheck := hb.corresponds.isCheckAt
  have hcheck' := hb.corresponds.symm.isCheckAt
  refine (passes_iff hcheck).2 ⟨?_, fun σ hσ hallows ρ t hρ hv => ?_⟩
  · obtain ⟨σ₀, hσ₀⟩ := Assignment.exists_wellSorted
    have hρ := a.areRoutes_initial hσ₀
    have hρ' := hb.routes hρ
    have hformed := ((exists_obligation_iff hcheck' hρ' 0).1 ((passes_iff hcheck').1 hb.passes).1).2
    exact (exists_obligation_iff hcheck hρ 0).2
      ⟨hscope, hb.corresponds.symm.formedAt hρ' hformed⟩
  · obtain ⟨c, υ, hυ, hallows', hc⟩ := hall σ hσ hallows
    refine ((passes_iff hc.corresponds.symm.isCheckAt).1 hc.passes).2 υ hυ hallows' ρ t
      (hc.routes hρ) (hc.corresponds.violates hρ hv)

/-- A check passes where it passes in a network that corresponds to this one under all assignments,
which may be changed on the way. -/
theorem Passes.of_corresponds {f : Assignment → Assignment} (hb : b.Passes kind n)
    (hscope : IsFormed a.network.constraints)
    (hf : ∀ {σ : Assignment}, σ.WellSorted → (f σ).WellSorted)
    (hallows : ∀ {σ}, a.Allows σ → b.Allows (f σ))
    (hroutes : ∀ {ρ}, a.AreRoutes ρ → b.AreRoutes ρ)
    (h : ∀ σ, a.Corresponds b σ (f σ) kind n) : a.Passes kind n := by
  have hruled (σ : Assignment) : a.IsRuledOutBy b σ (f σ) kind n := ⟨hb, hroutes, h σ⟩
  obtain ⟨σ₀, -⟩ := Assignment.exists_wellSorted
  exact passes_of_corresponds hscope ⟨b, σ₀, f σ₀, hruled σ₀⟩ fun σ hσ hσa =>
    ⟨b, f σ, hf hσ, hallows hσa, hruled σ⟩

end AnnotatedNetwork

end RouteInvariants
