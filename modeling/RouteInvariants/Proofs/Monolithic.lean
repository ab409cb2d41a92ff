import Mathlib.Data.Fintype.Card
import Mathlib.Data.Set.Finite.List
import RouteInvariants.Proofs.Convergence
import RouteInvariants.Proofs.Decided
import RouteInvariants.Proofs.Failures

/-!
The modular and the monolithic check. The modular check speaks about the routes that are reached from
the initial ones, the monolithic check about all states that a round does not change. Along a cycle
there can be stable states that are never reached (`idle`), and a state that the monolithic check
finds after the modular check has passed is one of these (`StableViolation.not_reached`). Without
cycles the predecessors of a node determine its route, and there is no such state
(`Verified.stable_good`).
-/

namespace RouteInvariants

namespace Topology

variable {t : Topology}

/-- No node is reached from itself along edges. -/
def IsAcyclic (t : Topology) : Prop :=
  ∀ n, ¬ Relation.TransGen (fun p n => p ∈ t.predecessors n) n n

/-- Without cycles, what passes from the predecessors of a node to the node holds of all nodes. -/
theorem IsAcyclic.induction (h : t.IsAcyclic) {P : String → Prop}
    (hstep : ∀ n ∈ t.nodes, (∀ p ∈ t.predecessors n, P p) → P n) : ∀ n ∈ t.nodes, P n := by
  let r (p n : { n // n ∈ t.nodes }) : Prop :=
    Relation.TransGen (fun p n => p ∈ t.predecessors n) p.1 n.1
  have hfinite : Finite { n // n ∈ t.nodes } := (List.finite_toSet t.nodes).to_subtype
  have htrans : IsTrans _ r := ⟨fun _ _ _ => Relation.TransGen.trans⟩
  have hirrefl : Std.Irrefl r := ⟨fun n => h n.1⟩
  have hwf : WellFounded r := Finite.wellFounded_of_trans_of_irrefl r
  have hall : ∀ n : { n // n ∈ t.nodes }, P n.1 := fun n => hwf.induction n fun n ih =>
    hstep n.1 n.2 fun p hp => ih ⟨p, mem_nodes_of_mem_predecessors hp⟩ (.single hp)
  exact fun n hn => hall ⟨n, hn⟩

/-- Edges that go upwards make no cycle. -/
theorem isAcyclic_of_rank (rank : String → Nat)
    (h : ∀ n, ∀ p ∈ t.predecessors n, rank p < rank n) : t.IsAcyclic := by
  have hlt : ∀ p n, Relation.TransGen (fun p n => p ∈ t.predecessors n) p n → rank p < rank n := by
    intro p n hpath
    induction hpath with
    | single hp => exact h _ _ hp
    | tail _ hp ih => exact ih.trans (h _ _ hp)
  exact fun n hcycle => Nat.lt_irrefl _ (hlt n n hcycle)

end Topology

namespace AnnotatedNetwork

open Run Obligation

variable {a : AnnotatedNetwork} {σ : Assignment} {ρ : String → Value} {n : String}
  {stable safety : String → Predicate} {converge : Operand}

/-! ### Stable states -/

/-- A route that is equal to its update matches it, if it is of the same sort. -/
theorem matches_of_stable (hkeep : a.network.KeepsSort) (hρ : a.AreRoutes ρ)
    (hn : n ∈ a.network.topology.nodes) {x : Typed}
    (hx : a.network.update n (a.network.routes ρ) = .ok x)
    (heq : HoldsAt σ (Typed.equal (a.network.route (ρ n)) x)) :
    Typed.Matches σ σ (a.network.route (ρ n)) x := by
  have hself : ∀ p ∈ a.network.topology.predecessors n,
      RoutesAt (Typed.Matches σ σ) (a.network.routes ρ) (a.network.routes ρ) p := by
    intro p hp
    have hp := Topology.mem_nodes_of_mem_predecessors hp
    exact ⟨_, _, get?_mapNodes hp, get?_mapNodes hp,
      (isClosed_route hp (hρ p hp)).matches_self σ⟩
  have hty : x.ty = a.network.routeTy := hkeep.update_ty (fun p hp =>
    ⟨_, get?_mapNodes (Topology.mem_nodes_of_mem_predecessors hp), rfl⟩) hx
  obtain ⟨y, -, hxy⟩ := Network.update_matches (.refl _ σ) hself hx
  refine ⟨isClosed_route hn (hρ n hn), hxy.left, hty.symm, ?_⟩
  exact Term.holds_eq.1 ((holdsAt_iff (condition_equal hty.symm)).1 heq)

section Acyclic

variable (hkeep : a.network.KeepsSort) (h : a.Verified) (hσ : σ.WellSorted)
  (hallows : a.Allows σ) (hρ : a.AreRoutes ρ)
  (hstable : ∀ n ∈ a.network.topology.nodes, ∃ x,
    a.network.update n (a.network.routes ρ) = .ok x ∧
      HoldsAt σ (Typed.equal (a.network.route (ρ n)) x))
include hkeep h hσ hallows hρ hstable

/-- The routes of a stable state satisfy the invariants at all late times: those of a node do where
those of its predecessors did one time unit earlier. -/
theorem Verified.stable_holds (hacyclic : a.network.topology.IsAcyclic) :
    ∀ n ∈ a.network.topology.nodes, ∃ T : Nat, ∀ t : Int, T ≤ t →
      HoldsAt σ ((a.annotationOf n).atTime (a.network.route (ρ n)) t) := by
  refine hacyclic.induction fun n hn ih => ?_
  -- a time from which on the invariants of all predecessors hold
  obtain ⟨T, hT⟩ : ∃ T : Nat, ∀ p ∈ a.network.topology.predecessors n, ∀ t : Int, T ≤ t →
      HoldsAt σ ((a.annotationOf p).atTime (a.network.route (ρ p)) t) := by
    generalize a.network.topology.predecessors n = ps at ih
    induction ps with
    | nil => exact ⟨0, by simp⟩
    | cons p ps ihps =>
      rw [List.forall_mem_cons] at ih
      obtain ⟨⟨T, hT⟩, hps⟩ := ih
      obtain ⟨T', hT'⟩ := ihps hps
      refine ⟨max T T', List.forall_mem_cons.2 ⟨fun t ht => hT t (by omega), fun p hp t ht => ?_⟩⟩
      exact hT' p hp t (by omega)
  refine ⟨T + 1, fun t ht => ?_⟩
  obtain ⟨x, hx, heq⟩ := hstable n hn
  have hnext := h.step_holds hn hσ hallows hρ (t := t) (by omega)
    (fun p hp => hT p hp (t - 1) (by omega)) hx
  exact (sameResult_atTime _ (matches_of_stable hkeep hρ hn hx heq) t).symm.holdsAt hnext

/-- Without cycles, stable states have the properties. -/
theorem Verified.stable_good (hacyclic : a.network.topology.IsAcyclic)
    (ha : a.HasProperties stable safety converge) (hconverge : converge.IsClosed)
    (hn : n ∈ a.network.topology.nodes) :
    HoldsAt σ ((a.monolithicOf n).applyTo (a.network.route (ρ n))) := by
  obtain ⟨T, hT⟩ := h.stable_holds hkeep hσ hallows hρ hstable hacyclic n hn
  have hproperty : ∀ t : Int, T ≤ t →
      HoldsAt σ ((a.modularOf n).atTime (a.network.route (ρ n)) t) := fun t ht =>
    h.safety_holds hn hσ hallows (hρ n hn) (by omega) (hT t ht)
  obtain ⟨q, hq, -⟩ := ha.of_modular hn hσ hconverge (hproperty T le_rfl)
  obtain ⟨k, hk⟩ := exists_nat_ge q
  obtain ⟨q', hq', hholds⟩ :=
    ha.of_modular hn hσ hconverge (hproperty (max T k : Nat) (by omega))
  rw [hq] at hq'
  cases hq'
  refine hholds (hk.trans ?_)
  exact_mod_cast le_max_right T k

end Acyclic

/-! ### Stable states that are not reached -/

section Unreached

variable {run : Nat → List (String × Typed)} {t : Nat}

/-- A round does not change a state with the values of stable routes. -/
theorem isStable_of_values (hkeep : a.network.KeepsSort) (hσ : σ.WellSorted)
    (hrun : a.network.IsRun run) (hs : ∀ t, a.SatisfiedAt t (run t)) (hρ : a.AreRoutes ρ)
    (hstable : ∀ n ∈ a.network.topology.nodes, ∃ x,
      a.network.update n (a.network.routes ρ) = .ok x ∧
        HoldsAt σ (Typed.equal (a.network.route (ρ n)) x))
    (hvalues : ∀ n ∈ a.network.topology.nodes, valuesOf σ (run t) n = ρ n) :
    a.network.IsStable σ (run t) := by
  refine ⟨_, hrun.step t, fun n hn => ?_⟩
  have hroutes : ∀ p ∈ a.network.topology.nodes,
      RoutesAt (Typed.Matches σ σ) (a.network.routes ρ) (run t) p := by
    intro p hp
    obtain ⟨x, y, hx, hy, hxy⟩ := (hs t).routesAt hσ hp
    refine ⟨x, y, ?_, hy, hxy⟩
    rw [Network.routes, get?_mapNodes hp, hvalues p hp] at hx
    rw [Network.routes, get?_mapNodes hp, hx]
  obtain ⟨x, hx, heq⟩ := hstable n hn
  obtain ⟨w, hw, hxw⟩ := Network.update_matches (.refl _ σ)
    (fun p hp => hroutes p (Topology.mem_nodes_of_mem_predecessors hp)) hx
  obtain ⟨u, hu, -, hnext⟩ := (Network.isRound_of_step (hrun.step t)).route n hn
  rw [hw] at hu
  cases hu
  obtain ⟨r, y, hr, hy, hry⟩ := hroutes n hn
  obtain rfl : a.network.route (ρ n) = r := Option.some.inj ((get?_mapNodes hn).symm.trans hr)
  have hmatch := ((hry.symm.trans (matches_of_stable hkeep hρ hn hx heq)).trans hxw).trans
    (hxw.right.matches_simplify hσ)
  exact ⟨y, _, hy, hnext, hmatch.eval⟩

/-- A stable state that violates a property is not a state of the simulation. -/
theorem StableViolation.not_reached (hv : a.StableViolation σ ρ) (hρ : a.AreRoutes ρ)
    (ha : a.HasProperties stable safety converge) (hconverge : converge.IsClosed)
    (hkeep : a.network.KeepsSort) (h : a.Verified) (hσ : σ.WellSorted) (hallows : a.Allows σ)
    (hrun : a.network.IsRun run) (hs : ∀ t, a.SatisfiedAt t (run t)) (t : Nat) :
    ∃ n ∈ a.network.topology.nodes, ∃ r, Entries.get? (run t) n = some r ∧
      r.term.eval σ [] ≠ ρ n := by
  by_contra hno
  have hvalues : ∀ n ∈ a.network.topology.nodes, valuesOf σ (run t) n = ρ n := by
    intro n hn
    obtain ⟨r, hr, -⟩ := (hs t).route n hn
    rw [valuesOf_eq hr]
    by_contra hne
    exact hno ⟨n, hn, r, hr, hne⟩
  obtain ⟨n, hn, hfails⟩ := hv.property
  obtain ⟨r, hr, hholds⟩ := reached_of_isStable ha hconverge h hrun hs hσ hallows
    (isStable_of_values hkeep hσ hrun hs hρ hv.stable hvalues) hn
  obtain ⟨r', hr', hclosed, hty, -⟩ := (hs t).route n hn
  rw [hr] at hr'
  cases hr'
  have hmatch := matches_route_eval hn hclosed hty hσ
  rw [← valuesOf_eq hr, hvalues n hn] at hmatch
  exact ((sameResult_appliedTo (.refl _ σ) hmatch).symm.holdsAt hholds).not_failsAt hfails

end Unreached

/-! ### The check -/

section Check

variable {oracle : Oracle} {arrival : Arrival} {settings : CheckSettings} {o : Obligation}

theorem Verified.isFormed_constraints (h : a.Verified)
    (hscope : a.network.topology.nodes ≠ [] ∨ IsFormed a.network.constraints) :
    IsFormed a.network.constraints := by
  rcases hscope with hnodes | hformed
  · obtain ⟨n, hn⟩ := List.exists_mem_of_ne_nil _ hnodes
    obtain ⟨o, ho, -⟩ := h.base n hn
    exact (a.baseObligation_isFormed ho).1
  · exact hformed

/-- The monolithic obligation consists of parts of the obligations of the modular check. -/
theorem Verified.exists_monolithicObligation (hkeep : a.network.KeepsSort) (h : a.Verified)
    (ha : a.HasProperties stable safety converge) (hscope : IsFormed a.network.constraints) :
    ∃ o, a.monolithicObligation = .ok o := by
  obtain ⟨same, hsame⟩ : ∃ ts, a.network.topology.nodes.mapM (fun n => do
      condition (Typed.equal (a.routeOf n)
        (← a.network.update n (a.network.unknownRoutes "route")))) = .ok ts :=
    exists_mapM fun n hn => by
      obtain ⟨o, ho, -⟩ := h.step n hn
      obtain ⟨x, hx, -⟩ := a.inductiveObligation_isFormed ho
      exact ⟨_, bind_eq_ok.2 ⟨x, hx, condition_equal (hkeep n hn x hx).symm⟩⟩
  obtain ⟨claims, hclaims⟩ : ∃ ts, a.network.topology.nodes.mapM (fun n =>
      condition ((a.monolithicOf n).applyTo (a.routeOf n))) = .ok ts :=
    exists_mapM fun n hn => by
      obtain ⟨o, ho, -⟩ := h.safety n hn
      exact ha.isFormed_monolithic hn (a.safetyObligation_isFormed ho)
  obtain ⟨scope, hscope⟩ := hscope
  exact ⟨_, bind_eq_ok.2 ⟨same, hsame, bind_eq_ok.2 ⟨claims, hclaims,
    bind_eq_ok.2 ⟨_, bind_eq_ok.2 ⟨scope, hscope, rfl⟩, rfl⟩⟩⟩⟩

theorem gives_checkMonolithic : (a.checkMonolithic oracle arrival settings).Gives
    (followedBy (followedBy (fun k => (a.monolithicObligation, k))
      fun o => dischargeOutcome oracle arrival settings [o]) fun found k => (.ok found, k)) := by
  refine gives_bind (gives_timed _ _ (gives_bind (gives_fetch _) fun o =>
    gives_discharge oracle arrival settings [o])) fun found => ?_
  cases found with
  | none => exact gives_bind (gives_journal _) fun _ => gives_pure none
  | some st => exact gives_bind (gives_journal _) fun _ => gives_pure (some st)

theorem checkMonolithic_outcome (ho : a.monolithicObligation = .ok o) (s : Session) :
    ((a.checkMonolithic oracle arrival settings).outcome s).1 =
      (dischargeOutcome oracle arrival settings [o] s.asked).1 := by
  rw [gives_checkMonolithic s]
  simp only [followedBy, ho]
  generalize dischargeOutcome oracle arrival settings [o] s.asked = out
  obtain ⟨x, k⟩ := out
  cases x <;> rfl

theorem checkMonolithic_error {e : Failure} (ho : a.monolithicObligation = .error e)
    (s : Session) : ((a.checkMonolithic oracle arrival settings).outcome s).1 = .error e := by
  rw [gives_checkMonolithic s]
  simp only [followedBy, ho]

end Check

/-- A link that may be down, with properties that always hold. -/
theorem verified_failingLink_stable {b : AnnotatedNetwork}
    (hb : ofStableSafety failingLink.network failingLink.annotations
      [("A", .always), ("B", .always)] [("A", .always), ("B", .always)] (.datum (.int 3)) =
        .ok b) : b.Verified := by
  have hproperties := (ofStableSafety_eq_ok hb).2
  cases hb
  refine ⟨verified_failingLink.base, verified_failingLink.step, ?_⟩
  refine hproperties.discharged_safety trivial (fun n hn => ?_) (fun σ => ⟨3, rfl⟩)
    fun n hn σ v t _ => ?_
  all_goals
    have hn' : n = "A" ∨ n = "B" := by simpa using (show n ∈ ["A", "B"] from hn)
    rcases hn' with rfl | rfl
  · exact ⟨_, rfl⟩
  · exact ⟨_, rfl⟩
  · exact (hproperties.holdsAt_monolithic hn).2 ⟨holdsAt_always, holdsAt_always⟩
  · exact (hproperties.holdsAt_monolithic hn).2 ⟨holdsAt_always, holdsAt_always⟩

end AnnotatedNetwork

end RouteInvariants
