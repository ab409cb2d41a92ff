import RouteInvariants.Proofs.Mentions

/-!
Bounds on failures. A network in which fewer edges may be down has fewer scenarios: what it allows is
allowed by the larger bound too, with the other failures absent, and everything then means the same
(`IsWithFailures.samePartsAt`). So a check that passes under a bound passes under all smaller ones.
With no failures at all a network is almost the one that it was made from. The edges still have to be
able to drop routes (`CanDrop`), which the step and the monolithic check notice
(`passes_onto_zero_iff`).
-/

namespace RouteInvariants

open Typed (Matches)

/-! ### Failures that are absent -/

namespace Assignment

variable {σ : Assignment} {k k' i : Nat}

/-- The assignment in which the failures from `k` up to `k'` are absent. -/
def padded (σ : Assignment) (k k' : Nat) : Assignment :=
  σ.override fun x => if x ∈ (List.range' k (k' - k)).map failureVar then some .none else none

theorem WellSorted.padded (hσ : σ.WellSorted) : (σ.padded k k').WellSorted := by
  refine hσ.override fun x v hv => ?_
  obtain ⟨hx, hnone⟩ := Option.ite_none_right_eq_some.1 hv
  obtain ⟨i, -, rfl⟩ := List.mem_map.1 hx
  cases hnone
  rfl

theorem padded_of_le (hki : k ≤ i) (hik : i < k') : (σ.padded k k').value (failureVar i) = .none := by
  have hmem : failureVar i ∈ (List.range' k (k' - k)).map failureVar :=
    List.mem_map_of_mem (List.mem_range'_1.2 ⟨hki, by omega⟩)
  simp only [padded, override, if_pos hmem, Option.getD_some]

theorem padded_of_forall_ne {x : Variable} (hx : ∀ i, k ≤ i → i < k' → x ≠ failureVar i) :
    (σ.padded k k').value x = σ.value x := by
  have hmem : x ∉ (List.range' k (k' - k)).map failureVar := by
    intro hmem
    obtain ⟨i, hi, rfl⟩ := List.mem_map.1 hmem
    have hi := List.mem_range'_1.1 hi
    exact hx i hi.1 (by omega) rfl
  simp only [padded, override, if_neg hmem, Option.getD_none]

theorem padded_of_lt (hik : i < k) : (σ.padded k k').value (failureVar i) = σ.value (failureVar i) :=
  padded_of_forall_ne fun j hkj _ h => by
    have hij := failureVar_injective h
    omega

theorem agreeOn_padded {xs : List Variable}
    (hxs : ∀ i, k ≤ i → i < k' → failureVar i ∉ xs) : Term.AgreeOn (· ∈ xs) σ (σ.padded k k') :=
  ⟨fun _ hx => (padded_of_forall_ne fun i hki hik h => hxs i hki hik (h ▸ hx)).symm, rfl⟩

/-- Absent failures are failures of no edge. -/
theorem fails_padded (hk : k ≤ k') (e : Edge) : (σ.padded k k').fails k' e = σ.fails k e := by
  rw [Bool.eq_iff_iff, fails_eq_true_iff, fails_eq_true_iff]
  constructor
  · rintro ⟨i, hi, hvalue⟩
    by_cases hik : i < k
    · exact ⟨i, hik, (padded_of_lt hik).symm.trans hvalue⟩
    · rw [padded_of_le (by omega) hi] at hvalue
      cases hvalue
  · rintro ⟨i, hi, hvalue⟩
    exact ⟨i, by omega, (padded_of_lt hi).trans hvalue⟩

theorem NamesEdges.padded {edges : List Edge} (h : σ.NamesEdges k edges) :
    (σ.padded k k').NamesEdges k' edges := by
  intro i hi
  by_cases hik : i < k
  · rw [padded_of_lt hik]
    exact h i hik
  · rw [padded_of_le (by omega) hi]
    exact .inl rfl

end Assignment

/-! ### Smaller bounds -/

/-- A condition computes its meaning. -/
theorem Expr.Means.compute {args : List SortedValue} {e : Expr}
    {P : Assignment → List Value → Bool} (h : e.Means (args.map SortedValue.ty) P)
    (σ : Assignment) :
    e.compute σ args = .ok (.ofBool (P σ (args.map SortedValue.value))) := by
  obtain ⟨t, ht, hmeans⟩ := h
  rw [compute_eq, ht, map_ok, Typed.valueAt, hmeans]
  rfl

theorem compute_dropIfFailed (σ : Assignment) (ty : Ty) (edges : List Edge) (k : Nat) (e : Edge)
    (f : Transfer) (a : SortedValue) :
    (dropIfFailed ty (failureSymbolics edges k) e f).body.compute σ [a] =
      ((Expr.absent ty).compute σ [a] >>= fun absent => f.body.compute σ [a] >>= fun sent =>
        SortedValue.ite (.ofBool (σ.fails k e)) absent sent) := by
  have hfailed := (means_failedBy ([a].map SortedValue.ty) edges k e).compute σ
  simp only [dropIfFailed, Expr.compute, hfailed, Transfer.apply]
  rfl

namespace Network

variable {net ft ft' : Network} {k k' : Nat} {σ : Assignment} {n : String}

theorem IsWithFailures.isFormed_constraints_iff (hft : IsWithFailures net ft k) :
    IsFormed ft.constraints ↔ IsFormed net.constraints := by
  have hfailure (i : Nat) :
      IsFormed ((failureSymbolic net.topology.edges i).constraint.elaborate []) := by
    obtain ⟨t, ht, -⟩ := means_failureSymbolic net.topology.edges i
    exact ⟨t, condition_eq_ok_iff.2 ⟨_, ht, rfl, rfl⟩⟩
  unfold constraints Symbolic.constraints
  simp only [Expr.isFormed_conj, hft.symbolics, List.map_append, List.mem_append, or_imp,
    forall_and, failureSymbolics, List.map_map, List.forall_mem_map]
  exact and_iff_left fun i _ => hfailure i

/-- Under fewer failures everything means what it means under more of them, if these are absent and
not mentioned. -/
theorem IsWithFailures.samePartsAt (hft : IsWithFailures net ft k) (hft' : IsWithFailures net ft' k')
    (hk : k ≤ k') (hparts : net.AgreeOnParts σ (σ.padded k k')) :
    ft.SamePartsAt ft' σ (σ.padded k k') n where
  topology := hft.variant.topology.trans hft'.variant.topology.symm
  routeTy := hft.variant.routeTy.trans hft'.variant.routeTy.symm
  origination := hft.variant.origination.trans hft'.variant.origination.symm
  initial hn := by
    rw [hft.variant.topology] at hn
    have hclosed := isClosed_initialOf hn
    rw [initialOf, initialOf, hft.variant.initial, hft'.variant.initial]
    exact ⟨hclosed, hclosed, rfl, Term.eval_congr (hparts.initial n) []⟩
  transfer p hp x y hxy := by
    have he := Topology.mem_edges_of_mem_predecessors (hft.variant.topology ▸ hp)
    rw [hft.transfer _ he, hft'.transfer _ he]
    refine sameResult_of_compute hxy ?_
    -- the absent route mentions no variable
    have habsent : (Expr.absent net.routeTy).compute σ [x.valueAt σ []] =
        (Expr.absent net.routeTy).compute (σ.padded k k') [x.valueAt σ []] := rfl
    have hsent := Expr.compute_congr [x.valueAt σ []] (hparts.transfer ⟨p, n⟩)
    rw [Int.toNat_natCast, Int.toNat_natCast, compute_dropIfFailed, compute_dropIfFailed, habsent,
      hsent, Assignment.fails_padded hk]
  merge x y x' y' hxy hxy' := by
    rw [hft.variant.merge, hft'.variant.merge]
    exact sameResult_appliedTo₂_of_agreeOn hparts.merge hxy hxy'

theorem IsWithFailures.holdsAt_constraints_padded (hft : IsWithFailures net ft k)
    (hft' : IsWithFailures net ft' k') (hparts : net.AgreeOnParts σ (σ.padded k k'))
    (h : HoldsAt σ ft.constraints) : HoldsAt (σ.padded k k') ft'.constraints := by
  obtain ⟨hnet, hnames⟩ := hft.holdsAt_constraints_iff.1 h
  refine hft'.holdsAt_constraints_iff.2 ⟨?_, ?_⟩
  · exact (sameResult_elaborate_of_agreeOn hparts.constraints).holdsAt hnet
  · rw [Int.toNat_natCast] at hnames ⊢
    exact hnames.padded

end Network

namespace AnnotatedNetwork

variable {a : AnnotatedNetwork} {ft ft' : Network} {k k' : Nat} {kind : CheckKind} {n : String}

/-- The annotations and properties, on another network. -/
def onto (a : AnnotatedNetwork) (net : Network) : AnnotatedNetwork := { a with network := net }

theorem nodes_onto {bound : Int} (hft : Network.IsWithFailures a.network ft bound) :
    (a.onto ft).network.topology.nodes = a.network.topology.nodes :=
  congrArg Topology.nodes hft.variant.topology

theorem areRoutes_onto {net net' : Network} (htopology : net.topology = net'.topology)
    (hty : net.routeTy = net'.routeTy) {ρ : String → Value} :
    (a.onto net).AreRoutes ρ ↔ (a.onto net').AreRoutes ρ := by
  unfold AreRoutes onto
  rw [htopology, hty]

/-- A check that passes under a bound on failures passes under all smaller ones. -/
theorem passes_onto_of_le (hft : Network.IsWithFailures a.network ft k)
    (hft' : Network.IsWithFailures a.network ft' k') (hk : k ≤ k')
    (hfresh : ∀ i, k ≤ i → i < k' → failureVar i ∉ a.mentioned)
    (hn : kind = .monolithic ∨ n ∈ a.network.topology.nodes)
    (hpasses : (a.onto ft').Passes kind n) : (a.onto ft).Passes kind n := by
  have hn₁ : (a.onto ft).IsCheckAt kind n := hn.imp_right fun hn => hft.variant.topology ▸ hn
  have hn₂ : (a.onto ft').IsCheckAt kind n := hn.imp_right fun hn => hft'.variant.topology ▸ hn
  have htopology : ft.topology = ft'.topology :=
    hft.variant.topology.trans hft'.variant.topology.symm
  have hty : ft.routeTy = ft'.routeTy := hft.variant.routeTy.trans hft'.variant.routeTy.symm
  -- no part of the network or its annotations tells an assignment from the padded one
  have hparts (σ : Assignment) := agreeOnParts (a := a) (Assignment.agreeOn_padded (σ := σ) hfresh)
  have hscope : IsFormed ft.constraints :=
    hft.isFormed_constraints_iff.2 (hft'.isFormed_constraints_iff.1 (hpasses.isFormed_constraints hn₂))
  refine hpasses.of_corresponds hscope Assignment.WellSorted.padded
    (hft.holdsAt_constraints_padded hft' (hparts _).network) (areRoutes_onto htopology hty).1
    fun σ => corresponds_of_nodes (fun m => htopology ▸ Iff.rfl) (fun m hm _ => ?_)
      (hparts σ).invariant (hparts σ).modular (hparts σ).monolithic hn₁
  exact (hft.samePartsAt hft' hk (hparts σ).network).correspondsAt hm

end AnnotatedNetwork

/-! ### No failures -/

section Options

variable {x y : Typed} {t : Term} {target : Ty}

/-- Nothing is widened to an option, and no option is widened. -/
theorem Typed.ty_eq_of_widen? (h : x.widen? target = some t)
    (hoption : target.isOption = true ∨ x.ty.isOption = true) : x.ty = target := by
  unfold Typed.widen? at h
  split at h
  · assumption
  · split at h <;> simp_all [Ty.isOption, Ty.ctors]

theorem Typed.ty_eq_of_unify {r : Term × Term × Ty} (hoption : x.ty.isOption = true)
    (h : Typed.unify x y = .ok r) : y.ty = x.ty := by
  unfold Typed.unify at h
  split at h
  · rename_i hw
    exact Typed.ty_eq_of_widen? hw (.inl hoption)
  · split at h
    · rename_i hw
      exact (Typed.ty_eq_of_widen? hw (.inr hoption)).symm
    · cases h

theorem Typed.ty_eq_of_ite {c u : Typed} (hoption : x.ty.isOption = true)
    (h : Typed.ite c x y = .ok u) : y.ty = x.ty := by
  have htruth : x.ty ≠ .truth := by
    intro htruth
    rw [htruth] at hoption
    cases hoption
  obtain ⟨c', -, h⟩ := bind_eq_ok.1 h
  dsimp only at h
  rw [if_neg (by simp [htruth])] at h
  obtain ⟨r, hr, -⟩ := bind_eq_ok.1 h
  exact Typed.ty_eq_of_unify hoption hr

end Options

namespace Network

variable {net ft : Network} {σ : Assignment} {n p : String} {rs : List (String × Typed)}

/-- The edge can drop routes: there is an absent route, and the transfer function sends routes of the
route sort to such routes. -/
def CanDrop (net : Network) (e : Edge) : Prop :=
  (∃ x, (Expr.absent net.routeTy).elaborate [] = .ok x) ∧
    ∃ b, (net.transferOf e).body.elaborate [net.routeTy] = .ok b ∧ b.ty = net.routeTy

theorem canDrop_of_elaborate {k : Nat} {e : Edge} {u : Typed} (hoption : net.routeTy.isOption = true)
    (h : (dropIfFailed net.routeTy (failureSymbolics net.topology.edges k) e
      (net.transferOf e)).body.elaborate [net.routeTy] = .ok u) : net.CanDrop e := by
  simp only [dropIfFailed, Expr.elaborate] at h
  obtain ⟨c, -, h⟩ := bind_eq_ok.1 h
  obtain ⟨x, hx, h⟩ := bind_eq_ok.1 h
  obtain ⟨y, hy, h⟩ := bind_eq_ok.1 h
  have habsent : (Expr.absent net.routeTy).elaborate [] = .ok x := hx
  rw [elaborate_absent hoption habsent] at hx
  cases hx
  obtain ⟨r, hr, hy⟩ := bind_eq_ok.1 hy
  cases hr
  obtain ⟨b, hb, hy⟩ := bind_eq_ok.1 hy
  cases hy
  exact ⟨⟨_, habsent⟩, b, hb, Typed.ty_eq_of_ite hoption h⟩

/-- Where a node has an update, the edges into it can drop routes. -/
theorem IsWithFailures.canDrop {k : Nat} (hft : IsWithFailures net ft k) {x r : Typed}
    (hx : ft.update n rs = .ok x) (hp : p ∈ net.topology.predecessors n)
    (hr : Entries.get? rs p = some r) (hty : r.ty = net.routeTy) : net.CanDrop ⟨p, n⟩ := by
  have hp' : p ∈ ft.topology.predecessors n := hft.variant.topology ▸ hp
  obtain ⟨-, ⟨hempty, -⟩ | ⟨-, xs, hxs, -⟩⟩ := update_eq_ok_iff.1 hx
  · rw [hempty] at hp'
    cases hp'
  · obtain ⟨u, -, hu⟩ := exists_mem_of_mapM hxs hp'
    unfold incoming at hu
    rw [hr, hft.transfer _ (Topology.mem_edges_of_mem_predecessors hp)] at hu
    obtain ⟨b, hb, -⟩ := bind_eq_ok.1 (mapError_eq_ok.1 hu)
    rw [hty] at hb
    exact canDrop_of_elaborate hft.option hb

/-- Without failures an edge that can drop routes sends them. -/
theorem IsWithFailures.transfer_zero {e : Edge} (hft : IsWithFailures net ft 0)
    (he : e ∈ net.topology.edges) (hdrop : net.CanDrop e) {x y : Typed}
    (hxy : MatchingRoutes σ net x y) : ∃ u w, (ft.transferOf e).applyTo x = .ok u ∧
      (net.transferOf e).applyTo y = .ok w ∧ Matches σ σ u w := by
  obtain ⟨habsent, b, hb, hbty⟩ := hdrop
  obtain ⟨u, hu, huty, heval⟩ :=
    @dropIfFailed_applyTo _ 0 net.topology.edges e _ _ x hft.option habsent hb hbty hxy.2
  have hw : (net.transferOf e).applyTo y = .ok ⟨.call b.term y.term, b.ty⟩ :=
    bind_eq_ok.2 ⟨b, by rw [← hxy.1.ty, hxy.2, hb], rfl⟩
  refine ⟨u, _, by rw [hft.transfer e he]; exact hu, hw, Expr.isClosed_of_appliedTo hxy.1.left hu,
    Expr.isClosed_of_appliedTo hxy.1.right hw, huty.trans hbty.symm, ?_⟩
  rw [heval, hxy.1.eval]
  rfl

theorem IsWithFailures.correspondsAt_zero (hft : IsWithFailures net ft 0)
    (hn : n ∈ net.topology.nodes) (hdrop : ∀ p ∈ net.topology.predecessors n, net.CanDrop ⟨p, n⟩) :
    ft.CorrespondsAt net σ σ n := by
  have hself : Variant net net := ⟨rfl, rfl, rfl, rfl, rfl⟩
  have hroutes {ρ : String → Value} (hρ : ∀ p ∈ net.topology.predecessors n,
      (ρ p).fits net.routeTy = true) : ∀ p ∈ net.topology.predecessors n,
        RoutesAt (MatchingRoutes σ net) (net.routes ρ) (net.routes ρ) p := fun p hp => by
    have hnode := Topology.mem_nodes_of_mem_predecessors hp
    exact ⟨_, _, get?_mapNodes hnode, get?_mapNodes hnode,
      (isClosed_route hnode (hρ p hp)).matches_self σ, rfl⟩
  have heq (ρ : String → Value) : ft.routes ρ = net.routes ρ := by
    unfold routes route
    rw [hft.variant.topology, hft.variant.routeTy]
  have hsend {p} (hp : p ∈ net.topology.predecessors n) {x y : Typed}
      (hxy : MatchingRoutes σ net x y) :=
    hft.transfer_zero (Topology.mem_edges_of_mem_predecessors hp) (hdrop p hp) hxy
  refine ⟨hft.variant.topology ▸ hn, hn, hft.variant.routeTy, fun p => by rw [hft.variant.topology],
    ?_, fun {ρ} hρ x hx => ?_, fun {ρ} hρ y hy => ?_⟩
  · rw [initialOf, initialOf, hft.variant.initial]
    exact (isClosed_initialOf hn).matches_self σ
  · rw [hft.variant.topology, hft.variant.routeTy] at hρ
    rw [heq] at hx
    exact update_rel (relatedAt_variants hft.variant hself fun p hp => hsend hp)
      (fun p hp => hroutes hρ p (hft.variant.topology ▸ hp)) hx
  · rw [heq]
    obtain ⟨x, hx, hyx⟩ := update_rel (relatedAt_variants hself hft.variant fun p hp {x y} hxy => by
      obtain ⟨u, w, hu, hw, huw⟩ := hsend hp hxy.symm
      exact ⟨w, u, hw, hu, huw.symm⟩) (hroutes hρ) hy
    exact ⟨x, hx, hyx.symm⟩

end Network

namespace AnnotatedNetwork

variable {a : AnnotatedNetwork} {ft : Network} {kind : CheckKind} {n : String}

/-- The edges that the check at a node sends routes over can drop them. -/
def CanDropAt (a : AnnotatedNetwork) (kind : CheckKind) (n : String) : Prop :=
  ∀ m ∈ a.network.topology.nodes, kind = .monolithic ∨ m = n →
    ∀ p ∈ a.network.topology.predecessors m, a.network.CanDrop ⟨p, m⟩

theorem canDropAt_step (hn : n ∈ a.network.topology.nodes) : a.CanDropAt .step n ↔
    ∀ p ∈ a.network.topology.predecessors n, a.network.CanDrop ⟨p, n⟩ := by
  refine ⟨fun h => h n hn (.inr rfl), fun h m _ hmn => ?_⟩
  obtain rfl := hmn.resolve_left CheckKind.noConfusion
  exact h

theorem canDropAt_monolithic : a.CanDropAt .monolithic n ↔ ∀ n ∈ a.network.topology.nodes,
    ∀ p ∈ a.network.topology.predecessors n, a.network.CanDrop ⟨p, n⟩ :=
  forall₂_congr fun _ _ => ⟨fun h => h (.inl rfl), fun h _ => h⟩

/-- The base and the safety check do not send routes. -/
theorem obligation_onto_zero (hft : Network.IsWithFailures a.network ft 0)
    (hkind : kind = .base ∨ kind = .safety) :
    (a.onto ft).obligation kind n = a.obligation kind n := by
  have hsymbolics : ft.symbolics = a.network.symbolics := hft.symbolics.trans (List.append_nil _)
  have hquery : (a.onto ft).query = a.query := by
    funext assumptions claim
    rw [query, query, Network.constraints, Network.constraints, onto, hsymbolics]
  have hvalues : (a.onto ft).symbolicValues = a.symbolicValues := by
    funext m
    rw [symbolicValues, symbolicValues, onto, hsymbolics]
  have hroute : (a.onto ft).routeOf = a.routeOf := by
    funext m
    rw [routeOf, routeOf, Network.unknownRoute, Network.unknownRoute, onto, hft.variant.routeTy]
  have hinitial : (a.onto ft).network.initialOf n = a.network.initialOf n := by
    rw [Network.initialOf, Network.initialOf, onto, hft.variant.initial]
  rcases hkind with rfl | rfl
  · simp only [obligation, baseObligation, hquery, hvalues, hroute, hinitial]
    rfl
  · simp only [obligation, safetyObligation, hquery, hvalues, hroute]
    rfl

/-- A step or a monolithic check that passes has updates. -/
theorem Passes.exists_update (h : a.Passes kind n) (hkind : kind = .step ∨ kind = .monolithic)
    {m : String} (hm : m ∈ a.network.topology.nodes) (hmn : kind = .monolithic ∨ m = n) :
    ∃ x, a.network.update m (a.network.unknownRoutes "route") = .ok x := by
  obtain ⟨o, ho, -⟩ := h
  rcases hkind with rfl | rfl
  · obtain rfl := hmn.resolve_left CheckKind.noConfusion
    obtain ⟨-, ⟨x, hx, -⟩, -⟩ := (exists_inductiveObligation_iff hm).1 ⟨o, ho⟩
    exact ⟨x, hx⟩
  · obtain ⟨⟨x, hx, -⟩, -⟩ := (exists_monolithicObligation_iff.1 ⟨o, ho⟩).2 m hm
    exact ⟨x, hx⟩

theorem corresponds_onto_zero (hft : Network.IsWithFailures a.network ft 0)
    (hdrop : a.CanDropAt kind n) (hn : a.IsCheckAt kind n) (σ : Assignment) :
    (a.onto ft).Corresponds a σ σ kind n := by
  have htopology : (a.onto ft).network.topology = a.network.topology := hft.variant.topology
  refine corresponds_of_nodes (fun m => by rw [htopology]) (fun m hm hmn => ?_)
    (fun m => (a.annotationOf m).sameUnder_refl) (fun m => (a.modularOf m).sameUnder_refl)
    (fun m => (a.monolithicOf m).sameUnder_refl) (hn.imp_right fun hn => htopology ▸ hn)
  rw [htopology] at hm
  exact hft.correspondsAt_zero hm (hdrop m hm hmn)

/-- With no failures the step and the monolithic check pass where they pass without the possibility of
failures and the edges can drop routes. -/
theorem passes_onto_zero_iff (hft : Network.IsWithFailures a.network ft 0)
    (hkind : kind = .step ∨ kind = .monolithic) (hn : a.IsCheckAt kind n) :
    (a.onto ft).Passes kind n ↔ a.Passes kind n ∧ a.CanDropAt kind n := by
  have htopology : (a.onto ft).network.topology = a.network.topology := hft.variant.topology
  have hn' : (a.onto ft).IsCheckAt kind n := hn.imp_right fun hn => htopology ▸ hn
  have hroutes {ρ : String → Value} : (a.onto ft).AreRoutes ρ ↔ a.AreRoutes ρ :=
    areRoutes_onto hft.variant.topology hft.variant.routeTy
  have hallows {σ : Assignment} : (a.onto ft).Allows σ ↔ a.Allows σ := by
    refine hft.holdsAt_constraints_iff.trans (and_iff_left fun i hi => ?_)
    exact absurd hi (Nat.not_lt_zero i)
  have hscope : IsFormed (a.onto ft).network.constraints ↔ IsFormed a.network.constraints :=
    Network.IsWithFailures.isFormed_constraints_iff (k := 0) hft
  constructor
  · intro hpasses
    -- an update that can be formed is a conditional over the absent route for every edge
    have hdrop : a.CanDropAt kind n := fun m hm hmn p hp => by
      obtain ⟨x, hx⟩ := hpasses.exists_update hkind (htopology ▸ hm) hmn
      exact hft.canDrop (k := 0) hx hp
        (get?_mapNodes (htopology ▸ Topology.mem_nodes_of_mem_predecessors hp)) hft.variant.routeTy
    refine ⟨?_, hdrop⟩
    exact hpasses.of_corresponds (f := id) (hscope.1 (hpasses.isFormed_constraints hn')) id
      hallows.2 hroutes.2 fun σ => (corresponds_onto_zero hft hdrop hn σ).symm
  · rintro ⟨hpasses, hdrop⟩
    exact hpasses.of_corresponds (f := id) (hscope.2 (hpasses.isFormed_constraints hn)) id
      hallows.1 hroutes.1 (corresponds_onto_zero hft hdrop hn)

/-! ### Outcomes -/

section Outcomes

variable {oracle : Oracle} (hexact : oracle.Exact) (arrival : Arrival) (settings : CheckSettings)
  (s : Session) {node : Option String} (hnode : ∀ n, node = some n → n ∈ a.network.topology.nodes)
include hexact hnode

theorem dischargeAll_onto_of_le {ft' : Network} {k k' : Nat}
    (hft : Network.IsWithFailures a.network ft k) (hft' : Network.IsWithFailures a.network ft' k')
    (hk : k ≤ k') (hfresh : ∀ i, k ≤ i → i < k' → failureVar i ∉ a.mentioned) (kind : CheckKind)
    (h : ((dischargeAll (a.onto ft') oracle arrival settings ((a.onto ft').obligation kind)
      node).outcome s).1 = .ok none) :
    ((dischargeAll (a.onto ft) oracle arrival settings ((a.onto ft).obligation kind)
      node).outcome s).1 = .ok none := by
  rw [dischargeAll_eq_none_iff_nodes hexact arrival settings s (nodes_onto hft' ▸ hnode),
    nodes_onto hft'] at h
  rw [dischargeAll_eq_none_iff_nodes hexact arrival settings s (nodes_onto hft ▸ hnode),
    nodes_onto hft]
  exact fun n hn hm => passes_onto_of_le hft hft' hk hfresh (.inr hn) (h n hn hm)

theorem dischargeAll_onto_zero (hft : Network.IsWithFailures a.network ft 0) (kind : CheckKind)
    (hkind : kind = .base ∨ kind = .safety) :
    ((dischargeAll (a.onto ft) oracle arrival settings ((a.onto ft).obligation kind)
      node).outcome s).1 = .ok none ↔
    ((dischargeAll a oracle arrival settings (a.obligation kind) node).outcome s).1 =
      .ok none := by
  rw [dischargeAll_eq_none_iff_nodes hexact arrival settings s hnode,
    dischargeAll_eq_none_iff_nodes hexact arrival settings s (nodes_onto hft ▸ hnode),
    nodes_onto hft]
  simp only [Passes, obligation_onto_zero hft hkind]

theorem dischargeAll_step_onto_zero (hft : Network.IsWithFailures a.network ft 0) :
    ((dischargeAll (a.onto ft) oracle arrival settings ((a.onto ft).obligation .step)
      node).outcome s).1 = .ok none ↔
    ((dischargeAll a oracle arrival settings (a.obligation .step) node).outcome s).1 = .ok none ∧
      ∀ n ∈ a.network.topology.nodes, (∀ m, node = some m → n = m) →
        ∀ p ∈ a.network.topology.predecessors n, a.network.CanDrop ⟨p, n⟩ := by
  have hpasses (n) (hn : n ∈ a.network.topology.nodes) : (a.onto ft).Passes .step n ↔
      a.Passes .step n ∧ ∀ p ∈ a.network.topology.predecessors n, a.network.CanDrop ⟨p, n⟩ := by
    rw [passes_onto_zero_iff hft (.inl rfl) (.inr hn), canDropAt_step hn]
  rw [dischargeAll_eq_none_iff_nodes hexact arrival settings s hnode,
    dischargeAll_eq_none_iff_nodes hexact arrival settings s (nodes_onto hft ▸ hnode),
    nodes_onto hft, forall₂_congr fun n hn => imp_congr_right fun _ => hpasses n hn]
  simp only [imp_and, forall_and]

omit hnode in
theorem checkMonolithic_onto_zero (hft : Network.IsWithFailures a.network ft 0) :
    (((a.onto ft).checkMonolithic oracle arrival settings).outcome s).1 = .ok none ↔
      ((a.checkMonolithic oracle arrival settings).outcome s).1 = .ok none ∧
        ∀ n ∈ a.network.topology.nodes, ∀ p ∈ a.network.topology.predecessors n,
          a.network.CanDrop ⟨p, n⟩ := by
  rw [checkMonolithic_eq_none_iff hexact arrival settings s "",
    checkMonolithic_eq_none_iff hexact arrival settings s "",
    passes_onto_zero_iff hft (.inr rfl) (.inl rfl), canDropAt_monolithic]

end Outcomes

/-- Invariants that always hold are inductive, wherever the updates can be formed. -/
theorem checkInductive_of_any {oracle : Oracle} (hexact : oracle.Exact) (arrival : Arrival)
    (settings : CheckSettings) (s : Session) (h : ∀ n ∈ a.network.topology.nodes,
      a.annotationOf n = .any ∧ ∃ o, a.obligation .step n = .ok o) :
    ((a.checkInductive oracle arrival settings none).outcome s).1 = .ok none := by
  refine (@dischargeAll_eq_none_iff_passes _ .step _ hexact arrival settings s none
    a.network.topology.nodes rfl).2 fun n hn => ?_
  obtain ⟨hany, ho⟩ := h n hn
  refine (passes_iff (.inr hn)).2 ⟨ho, fun σ _ _ ρ t _ hv => ?_⟩
  obtain ⟨y, -, hlater⟩ := StepViolation.later hv
  rw [hany] at hlater
  have hholds : HoldsAt σ (Invariant.any.atTime y t) := ⟨_, rfl, rfl⟩
  exact hholds.not_failsAt hlater

end AnnotatedNetwork

end RouteInvariants
