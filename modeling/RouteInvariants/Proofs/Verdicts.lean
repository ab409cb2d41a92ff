import RouteInvariants.Proofs.Monolithic
import RouteInvariants.Proofs.PerNode

/-!
The verdicts of the checks with an exact oracle. A check passes where its obligation can be formed
and there are no allowed symbolic values, no routes and no time that violate it (`passes_iff`).
Whether an obligation can be formed is a question of sorts: the answer is the same for all values of
the unknown routes and of the time (`exists_obligation_iff`).
-/

namespace RouteInvariants

theorem Term.solvable_iff {q : Term} :
    q.Solvable ↔ ∃ σ : Assignment, σ.WellSorted ∧ q.HasModel σ := by
  constructor
  · rintro ⟨σ, hσ, hq⟩
    exact ⟨σ, hσ, σ, hσ, .refl _ σ, hq⟩
  · rintro ⟨_, -, τ, hτ, -, hq⟩
    exact ⟨τ, hτ, hq⟩

namespace AnnotatedNetwork

open Run Obligation

variable (a : AnnotatedNetwork) {σ τ : Assignment} {kind : CheckKind} {n : String}
  {o : Obligation} {ρ : String → Value} {t : Int}

/-! ### Violations -/

/-- Routes and a time violate the check at a node. The monolithic check is one of all nodes. -/
def Violates (kind : CheckKind) (σ : Assignment) (n : String) (ρ : String → Value) (t : Int) :
    Prop :=
  match kind with
  | .base => a.BaseViolation σ n
  | .step => a.StepViolation σ n ρ t
  | .safety => a.SafetyViolation σ n (ρ n) t
  | .monolithic => a.StableViolation σ ρ

/-- The check is one that can be made at `n`. -/
def IsCheckAt (kind : CheckKind) (n : String) : Prop :=
  kind = .monolithic ∨ n ∈ a.network.topology.nodes

variable {a}

theorem hasModel_iff_violates (hn : a.IsCheckAt kind n) (ho : a.obligation kind n = .ok o)
    (hσ : σ.WellSorted) : o.query.HasModel σ ↔
      a.Allows σ ∧ ∃ ρ t, a.AreRoutes ρ ∧ a.Violates kind σ n ρ t := by
  cases kind with
  | base =>
    have hn := hn.resolve_left CheckKind.noConfusion
    rw [baseObligation_hasModel_iff hn ho hσ]
    refine and_congr_right fun _ => ⟨fun hv => ?_, fun ⟨_, _, _, hv⟩ => hv⟩
    exact ⟨_, 0, a.areRoutes_initial hσ, hv⟩
  | step => exact (inductiveObligation_asksFor ho).hasModel_iff hσ
  | safety =>
    have hn := hn.resolve_left CheckKind.noConfusion
    exact (safetyObligation_asksFor hn ho).hasModel_iff hσ
  | monolithic => exact (monolithicObligation_asksFor ho).hasModel_iff hσ

/-- A check passes where its obligation can be formed and nothing violates it. -/
theorem passes_iff (hn : a.IsCheckAt kind n) : a.Passes kind n ↔
    (∃ o, a.obligation kind n = .ok o) ∧ ∀ σ : Assignment, σ.WellSorted → a.Allows σ →
      ∀ ρ t, a.AreRoutes ρ → ¬ a.Violates kind σ n ρ t := by
  constructor
  · rintro ⟨o, ho, hno⟩
    refine ⟨⟨o, ho⟩, fun σ hσ hallows ρ t hρ hv => hno (Term.solvable_iff.2 ⟨σ, hσ, ?_⟩)⟩
    exact (hasModel_iff_violates hn ho hσ).2 ⟨hallows, ρ, t, hρ, hv⟩
  · rintro ⟨⟨o, ho⟩, hno⟩
    refine ⟨o, ho, fun hsome => ?_⟩
    obtain ⟨σ, hσ, hmodel⟩ := Term.solvable_iff.1 hsome
    obtain ⟨hallows, ρ, t, hρ, hv⟩ := (hasModel_iff_violates hn ho hσ).1 hmodel
    exact hno σ hσ hallows ρ t hρ hv

/-! ### Forming obligations -/

variable (a) in
/-- The conditions of the check at a node can be formed, at given routes and a given time. -/
def FormedAt (kind : CheckKind) (n : String) (ρ : String → Value) (t : Int) : Prop :=
  match kind with
  | .base => IsFormed ((a.annotationOf n).atTime (a.network.route (ρ n)) 0)
  | .step => (∃ x, a.network.update n (a.network.routes ρ) = .ok x ∧
        IsFormed ((a.annotationOf n).atTime x t)) ∧
      ∀ p ∈ a.network.topology.predecessors n,
        IsFormed ((a.annotationOf p).atTime (a.network.route (ρ p)) (t - 1))
  | .safety => IsFormed ((a.annotationOf n).atTime (a.network.route (ρ n)) t) ∧
      IsFormed ((a.modularOf n).atTime (a.network.route (ρ n)) t)
  | .monolithic => ∀ n ∈ a.network.topology.nodes,
      (∃ x, a.network.update n (a.network.routes ρ) = .ok x ∧
        IsFormed (Typed.equal (a.network.route (ρ n)) x)) ∧
      IsFormed ((a.monolithicOf n).applyTo (a.network.route (ρ n)))

theorem exists_query_iff {assumptions : List Term} {claim : Term} :
    (∃ q, a.query assumptions claim = .ok q) ↔ IsFormed a.network.constraints := by
  constructor
  · rintro ⟨q, hq⟩
    exact a.isFormed_constraints hq
  · rintro ⟨scope, hscope⟩
    exact ⟨_, bind_eq_ok.2 ⟨scope, hscope, rfl⟩⟩

theorem exists_baseObligation_iff (hn : n ∈ a.network.topology.nodes) :
    (∃ o, a.baseObligation n = .ok o) ↔ IsFormed a.network.constraints ∧
      IsFormed ((a.annotationOf n).atTime (a.routeOf n) 0) := by
  constructor
  · rintro ⟨o, ho⟩
    exact a.baseObligation_isFormed ho
  · rintro ⟨hscope, claim, hclaim⟩
    obtain ⟨q, hq⟩ := exists_query_iff.2 hscope
    have hty : (a.routeOf n).ty = (a.network.initialOf n).ty := (a.network.initial_ty n hn).symm
    exact ⟨_, bind_eq_ok.2 ⟨_, condition_equal hty, bind_eq_ok.2 ⟨claim, hclaim,
      bind_eq_ok.2 ⟨q, hq, rfl⟩⟩⟩⟩

theorem exists_inductiveObligation_iff (hn : n ∈ a.network.topology.nodes) :
    (∃ o, a.inductiveObligation n = .ok o) ↔ IsFormed a.network.constraints ∧
      (∃ x, a.network.update n (a.network.unknownRoutes "route") = .ok x ∧
        IsFormed ((a.annotationOf n).applyTo x time)) ∧
      ∀ p ∈ a.network.topology.predecessors n, IsFormed
        ((a.annotationOf p).applyTo (a.routeOf p) ⟨.sub time.term (.int 1), .int⟩) := by
  constructor
  · rintro ⟨o, ho⟩
    obtain ⟨preds, hpreds, ho⟩ := bind_eq_ok.1 ho
    obtain ⟨x, hx, ho⟩ := bind_eq_ok.1 ho
    obtain ⟨assumed, hassumed, ho⟩ := bind_eq_ok.1 ho
    obtain ⟨claim, hclaim, ho⟩ := bind_eq_ok.1 ho
    obtain ⟨q, hq, -⟩ := bind_eq_ok.1 ho
    obtain ⟨-, rfl⟩ := Topology.neighbors_eq_ok_iff.1 (mapError_eq_ok.1 hpreds)
    exact ⟨a.isFormed_constraints hq, ⟨x, hx, claim, hclaim⟩, exists_mapM_iff.1 ⟨assumed, hassumed⟩⟩
  · rintro ⟨hscope, ⟨x, hx, claim, hclaim⟩, hpreds⟩
    obtain ⟨assumed, hassumed⟩ := exists_mapM_iff.2 hpreds
    obtain ⟨q, hq⟩ := exists_query_iff.2 hscope
    exact ⟨_, bind_eq_ok.2 ⟨_, mapError_eq_ok.2 (Topology.neighbors_eq hn), bind_eq_ok.2 ⟨x, hx,
      bind_eq_ok.2 ⟨assumed, hassumed, bind_eq_ok.2 ⟨claim, hclaim, bind_eq_ok.2 ⟨q, hq, rfl⟩⟩⟩⟩⟩⟩

theorem exists_safetyObligation_iff :
    (∃ o, a.safetyObligation n = .ok o) ↔ IsFormed a.network.constraints ∧
      IsFormed ((a.annotationOf n).applyTo (a.routeOf n) time) ∧
      IsFormed ((a.modularOf n).applyTo (a.routeOf n) time) := by
  constructor
  · rintro ⟨o, ho⟩
    obtain ⟨inv, hinv, ho⟩ := bind_eq_ok.1 ho
    obtain ⟨property, hproperty, ho⟩ := bind_eq_ok.1 ho
    obtain ⟨q, hq, -⟩ := bind_eq_ok.1 ho
    exact ⟨a.isFormed_constraints hq, ⟨inv, hinv⟩, ⟨property, hproperty⟩⟩
  · rintro ⟨hscope, ⟨inv, hinv⟩, property, hproperty⟩
    obtain ⟨q, hq⟩ := exists_query_iff.2 hscope
    exact ⟨_, bind_eq_ok.2 ⟨inv, hinv, bind_eq_ok.2 ⟨property, hproperty,
      bind_eq_ok.2 ⟨q, hq, rfl⟩⟩⟩⟩

theorem exists_monolithicObligation_iff :
    (∃ o, a.monolithicObligation = .ok o) ↔ IsFormed a.network.constraints ∧
      ∀ n ∈ a.network.topology.nodes,
        (∃ x, a.network.update n (a.network.unknownRoutes "route") = .ok x ∧
          IsFormed (Typed.equal (a.routeOf n) x)) ∧
        IsFormed ((a.monolithicOf n).applyTo (a.routeOf n)) := by
  constructor
  · rintro ⟨o, ho⟩
    obtain ⟨stable, hstable, ho⟩ := bind_eq_ok.1 ho
    obtain ⟨claims, hclaims, ho⟩ := bind_eq_ok.1 ho
    obtain ⟨q, hq, -⟩ := bind_eq_ok.1 ho
    refine ⟨a.isFormed_constraints hq, fun n hn => ⟨?_, exists_mapM_iff.1 ⟨claims, hclaims⟩ n hn⟩⟩
    obtain ⟨same, hsame⟩ := exists_mapM_iff.1 ⟨stable, hstable⟩ n hn
    obtain ⟨x, hx, hsame⟩ := bind_eq_ok.1 hsame
    exact ⟨x, hx, same, hsame⟩
  · rintro ⟨hscope, hnodes⟩
    obtain ⟨claims, hclaims⟩ := exists_mapM_iff.2 fun n hn => (hnodes n hn).2
    obtain ⟨stable, hstable⟩ : ∃ ts, a.network.topology.nodes.mapM (fun n => do
        condition (Typed.equal (a.routeOf n)
          (← a.network.update n (a.network.unknownRoutes "route")))) = .ok ts :=
      exists_mapM_iff.2 fun n hn => by
        obtain ⟨⟨x, hx, same, hsame⟩, -⟩ := hnodes n hn
        exact ⟨same, bind_eq_ok.2 ⟨x, hx, hsame⟩⟩
    obtain ⟨q, hq⟩ := exists_query_iff.2 hscope
    exact ⟨_, bind_eq_ok.2 ⟨stable, hstable, bind_eq_ok.2 ⟨claims, hclaims,
      bind_eq_ok.2 ⟨q, hq, rfl⟩⟩⟩⟩

/-- A condition on the update of unknown routes can be formed where it can at their values. -/
theorem Extends.exists_update_iff (h : a.Extends σ ρ t τ) {f g : Typed → Except SortError Typed}
    (hfg : ∀ {x y}, Typed.Matches τ σ x y → SameResult τ σ (f x) (g y)) :
    (∃ x, a.network.update n (a.network.unknownRoutes "route") = .ok x ∧ IsFormed (f x)) ↔
      ∃ y, a.network.update n (a.network.routes ρ) = .ok y ∧ IsFormed (g y) := by
  constructor
  · rintro ⟨x, hx, hformed⟩
    obtain ⟨y, hy, hxy⟩ := h.update hx
    exact ⟨y, hy, (hfg hxy).isFormed hformed⟩
  · rintro ⟨y, hy, hformed⟩
    obtain ⟨x, hx, hxy⟩ := h.update_unknown hy
    exact ⟨x, hx, (hfg hxy).symm.isFormed hformed⟩

/-- An obligation can be formed where its conditions can, at whatever routes and time. -/
theorem exists_obligation_iff (hn : a.IsCheckAt kind n) (hρ : a.AreRoutes ρ) (t : Int) :
    (∃ o, a.obligation kind n = .ok o) ↔
      IsFormed a.network.constraints ∧ a.FormedAt kind n ρ t := by
  obtain ⟨σ, -⟩ := Assignment.exists_wellSorted
  have he : a.Extends σ ρ t (σ.withRoutes a.network ρ t) := a.extends_withRoutes hρ
  cases kind with
  | base =>
    have hn := hn.resolve_left CheckKind.noConfusion
    refine (exists_baseObligation_iff hn).trans (and_congr_right fun _ => ?_)
    exact (he.sameResult_atTime _ (he.matches_route hn) (matches_int 0)).isFormed_iff
  | step =>
    have hn := hn.resolve_left CheckKind.noConfusion
    refine (exists_inductiveObligation_iff hn).trans (and_congr_right fun _ => and_congr ?_ ?_)
    · exact he.exists_update_iff fun hxy => he.sameResult_atTime _ hxy (matches_time he.time)
    · refine forall₂_congr fun p hp => ?_
      have hp := Topology.mem_nodes_of_mem_predecessors hp
      exact (he.sameResult_atTime _ (he.matches_route hp) (matches_earlier he.time)).isFormed_iff
  | safety =>
    have hn := hn.resolve_left CheckKind.noConfusion
    have hsame (inv : Invariant) := he.sameResult_atTime inv (he.matches_route hn)
      (matches_time he.time)
    exact exists_safetyObligation_iff.trans (and_congr_right fun _ =>
      and_congr (hsame _).isFormed_iff (hsame _).isFormed_iff)
  | monolithic =>
    refine exists_monolithicObligation_iff.trans (and_congr_right fun _ => ?_)
    refine forall₂_congr fun n hn => and_congr ?_ ?_
    · exact he.exists_update_iff fun hxy => sameResult_equal (he.matches_route hn) hxy
    · exact (sameResult_appliedTo he.agree (he.matches_route hn)).isFormed_iff

theorem Passes.isFormed_constraints (h : a.Passes kind n) (hn : a.IsCheckAt kind n) :
    IsFormed a.network.constraints := by
  obtain ⟨σ, hσ⟩ := Assignment.exists_wellSorted
  have ho := ((passes_iff hn).1 h).1
  exact ((exists_obligation_iff hn (a.areRoutes_initial hσ) 0).1 ho).1

/-! ### Outcomes -/

/-- The network is verified where all checks pass. -/
theorem verified_of_passes (h : ∀ kind ∈ CheckKind.modular, ∀ n ∈ a.network.topology.nodes,
    a.Passes kind n) : a.Verified := by
  have hunsat (kind : CheckKind) (hkind : kind ∈ CheckKind.modular) :
      a.Discharged (a.obligation kind) := fun n hn => by
    obtain ⟨o, ho, hno⟩ := h kind hkind n hn
    exact ⟨o, ho, fun τ hτ hholds => hno ⟨τ, hτ, hholds⟩⟩
  exact ⟨hunsat .base (by decide), hunsat .step (by decide), hunsat .safety (by decide)⟩

/-- The nodes that a check is about. -/
theorem exists_nodesOf {node : Option String}
    (hnode : ∀ n, node = some n → n ∈ a.network.topology.nodes) :
    ∃ ns, a.nodesOf node = .ok ns ∧ ∀ n ∈ ns, n ∈ a.network.topology.nodes := by
  cases node with
  | none => exact ⟨_, rfl, fun _ hn => hn⟩
  | some n =>
    have hn := hnode n rfl
    exact ⟨[n], if_pos (List.contains_iff_mem.2 hn), List.forall_mem_singleton.2 hn⟩

theorem mem_nodesOf_iff {node : Option String} {ns : List String} (hns : a.nodesOf node = .ok ns) :
    n ∈ ns ↔ n ∈ a.network.topology.nodes ∧ ∀ m, node = some m → n = m := by
  cases node with
  | none =>
    cases hns
    exact (and_iff_left fun _ h => nomatch h).symm
  | some m =>
    rw [nodesOf] at hns
    split at hns
    · rename_i hm
      cases hns
      have hm := List.contains_iff_mem.1 hm
      rw [List.mem_singleton]
      constructor
      · rintro rfl
        exact ⟨hm, fun _ h => Option.some.inj h⟩
      · exact fun h => h.2 m rfl
    · cases hns

theorem exists_mem_nodesOf {node : Option String} {ns : List String}
    (hns : a.nodesOf node = .ok ns) (hn : n ∈ a.network.topology.nodes) : ∃ m, m ∈ ns := by
  cases node with
  | none =>
    cases hns
    exact ⟨n, hn⟩
  | some m =>
    rw [nodesOf] at hns
    split at hns
    · cases hns
      exact ⟨m, List.mem_singleton_self m⟩
    · cases hns

section Outcomes

variable {oracle : Oracle} (hexact : oracle.Exact) (arrival : Arrival) (settings : CheckSettings)
  (s : Session)
include hexact

/-- A check of all nodes, or of one of them, passes where it does at each of these nodes. -/
theorem dischargeAll_eq_none_iff_passes {node : Option String} {ns : List String}
    (hns : a.nodesOf node = .ok ns) :
    ((dischargeAll a oracle arrival settings (a.obligation kind) node).outcome s).1 = .ok none ↔
      ∀ n ∈ ns, a.Passes kind n :=
  dischargeAll_eq_none_iff hns (fun _ _ o _ => hexact.exactOn o.query) s

theorem dischargeAll_eq_none_iff_nodes {node : Option String}
    (hnode : ∀ n, node = some n → n ∈ a.network.topology.nodes) :
    ((dischargeAll a oracle arrival settings (a.obligation kind) node).outcome s).1 = .ok none ↔
      ∀ n ∈ a.network.topology.nodes, (∀ m, node = some m → n = m) → a.Passes kind n := by
  obtain ⟨ns, hns, -⟩ := exists_nodesOf hnode
  rw [dischargeAll_eq_none_iff_passes hexact arrival settings s hns]
  simp only [mem_nodesOf_iff hns, and_imp]

theorem checkMonolithic_eq_none_iff (n : String) :
    ((a.checkMonolithic oracle arrival settings).outcome s).1 = .ok none ↔
      a.Passes .monolithic n := by
  cases ho : a.monolithicObligation with
  | ok o =>
    rw [checkMonolithic_outcome ho, dischargeOutcome_eq_none_iff arrival settings
      (fun o _ => hexact.exactOn o.query), List.forall_mem_singleton]
    constructor
    · exact fun hno => ⟨o, ho, hno⟩
    · rintro ⟨o', ho', hno⟩
      cases ho.symm.trans ho'
      exact hno
  | error e =>
    rw [checkMonolithic_error ho]
    constructor
    · intro hout
      cases hout
    · rintro ⟨o, ho', -⟩
      cases ho.symm.trans ho'

end Outcomes

end AnnotatedNetwork

end RouteInvariants
