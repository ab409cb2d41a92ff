import RouteInvariants.Proofs.Phases
import RouteInvariants.Verify.Verification

/-!
The modular check is sound for all times. Where the three checks of every node are discharged, the
simulation goes on for ever, and every route in it satisfies the invariant and the property of its
node. The proof is an induction on the time: the routes of a round are values for the unknown
routes of the inductive obligations.

The updates of a network can leave the route sort: a truth value that is incremented is a number.
The obligations only speak about routes of the route sort, so soundness needs `Network.KeepsSort`.
-/

namespace RouteInvariants

/-- The oracle answers `unsat` only where there is no solution. -/
def Oracle.Sound (oracle : Oracle) : Prop :=
  ∀ k q, oracle k q = .unsat → ∀ σ : Assignment, σ.WellSorted → ¬ q.holds σ

/-- The oracle answers `unsat` exactly where there is no solution. -/
def Oracle.Exact (oracle : Oracle) : Prop :=
  ∀ k q, oracle k q = .unsat ↔ ∀ σ : Assignment, σ.WellSorted → ¬ q.holds σ

theorem Oracle.Exact.sound {oracle : Oracle} (h : oracle.Exact) : oracle.Sound :=
  fun k q => (h k q).1

theorem Oracle.exists_exact : ∃ oracle : Oracle, oracle.Exact := by
  classical
  refine ⟨fun _ q => if ∀ σ : Assignment, σ.WellSorted → ¬ q.holds σ then .unsat else .unknown "",
    fun k q => ?_⟩
  by_cases h : ∀ σ : Assignment, σ.WellSorted → ¬ q.holds σ <;> simp [h]

namespace AnnotatedNetwork

open Run Obligation

variable (a : AnnotatedNetwork)

/-! ### Discharged obligations -/

/-- Every node has an obligation, whose query has no solution. -/
def Discharged (obligation : String → Except Failure Obligation) : Prop :=
  ∀ n ∈ a.network.topology.nodes, ∃ o, obligation n = .ok o ∧
    ∀ τ : Assignment, τ.WellSorted → ¬ o.query.holds τ

/-- The obligations of the modular check are discharged. -/
structure Verified : Prop where
  base : a.Discharged a.baseObligation
  step : a.Discharged a.inductiveObligation
  safety : a.Discharged a.safetyObligation

variable {a} {oracle : Oracle} {arrival : Arrival} {settings : CheckSettings}
  {obligation : String → Except Failure Obligation} {k : Nat} {os : List Obligation}

theorem discharged_of_clean (hsound : oracle.Sound)
    (h : a.network.topology.nodes.mapM obligation = .ok os) (hclean : Clean oracle k os) :
    a.Discharged obligation := by
  intro n hn
  obtain ⟨o, ho, hobligation⟩ := exists_mem_of_mapM h hn
  obtain ⟨i, hi⟩ := List.mem_iff_getElem?.1 ho
  exact ⟨o, hobligation, hsound _ _ (hclean i o hi)⟩

theorem Discharged.exists_clean (hexact : oracle.Exact) (h : a.Discharged obligation) :
    ∃ os, a.network.topology.nodes.mapM obligation = .ok os ∧ ∀ k, Clean oracle k os := by
  obtain ⟨os, hos⟩ := exists_mapM fun n hn => (h n hn).imp fun _ ho => ho.1
  refine ⟨os, hos, fun k i o ho => (hexact _ _).2 ?_⟩
  obtain ⟨n, hn, hobligation⟩ := exists_of_mem_mapM hos (List.mem_of_getElem? ho)
  obtain ⟨o', ho', hunsat⟩ := h n hn
  rw [hobligation] at ho'
  cases ho'
  exact hunsat

/-- The modular check passes only where its obligations are discharged. -/
theorem verified_of_checkAnnotations (hsound : oracle.Sound)
    (hlaws : settings.checkMergeLaws = false) {s : Session}
    (h : ((a.checkAnnotations oracle arrival settings).outcome s).1 = .ok none) : a.Verified := by
  rw [a.checkAnnotations_outcome oracle arrival settings hlaws s, phasesOutcome_eq_none_iff] at h
  obtain ⟨all, hphases, hclean⟩ := h
  obtain ⟨base, step, safety, rfl⟩ : ∃ base step safety, all = [base, step, safety] := by
    have hlength : all.length = 3 := by
      simpa [phaseObligations] using (congrArg List.length hphases).symm
    exact List.length_eq_three.1 hlength
  simp only [phaseObligations, List.map_cons, List.map_nil, List.cons.injEq, and_true] at hphases
  simp only [List.flatten_cons, List.flatten_nil, List.append_nil, clean_append] at hclean
  exact ⟨discharged_of_clean hsound hphases.1 hclean.1,
    discharged_of_clean hsound hphases.2.1 hclean.2.1,
    discharged_of_clean hsound hphases.2.2 hclean.2.2⟩

/-- With an exact oracle the modular check passes wherever its obligations are discharged. -/
theorem Verified.checkAnnotations_of_laws (hexact : oracle.Exact) (hlaws : a.KeepsLaws settings)
    (h : a.Verified) (s : Session) :
    ((a.checkAnnotations oracle arrival settings).outcome s).1 = .ok none := by
  obtain ⟨base, hbase, cleanBase⟩ := h.base.exists_clean hexact
  obtain ⟨step, hstep, cleanStep⟩ := h.step.exists_clean hexact
  obtain ⟨safety, hsafety, cleanSafety⟩ := h.safety.exists_clean hexact
  rw [a.checkAnnotations_outcome_of_laws oracle arrival settings hlaws s, phasesOutcome_eq_none_iff]
  refine ⟨[base, step, safety], by simp [phaseObligations, hbase, hstep, hsafety], ?_⟩
  simp only [List.flatten_cons, List.flatten_nil, List.append_nil, clean_append]
  exact ⟨cleanBase _, cleanStep _, cleanSafety _⟩

theorem Verified.checkAnnotations (hexact : oracle.Exact)
    (hlaws : settings.checkMergeLaws = false) (h : a.Verified) (s : Session) :
    ((a.checkAnnotations oracle arrival settings).outcome s).1 = .ok none :=
  h.checkAnnotations_of_laws hexact
    (fun hasked => absurd (hlaws.symm.trans hasked) Bool.false_ne_true) s

/-! ### What discharged obligations say -/

section Violations

variable {σ : Assignment} {n : String} {ρ : String → Value} {t : Int}

theorem Verified.base_isFormed (h : a.Verified) (hn : n ∈ a.network.topology.nodes) :
    IsFormed ((a.annotationOf n).atTime (a.network.initialOf n) 0) := by
  obtain ⟨o, ho, -⟩ := h.base n hn
  obtain ⟨σ, hσ⟩ := Assignment.exists_wellSorted
  have he := a.extends_withRoutes (σ := σ) (t := 0) (a.areRoutes_initial hσ)
  exact (he.sameResult_atTime _ (he.matches_initial hn rfl) (matches_int 0)).isFormed
    (a.baseObligation_isFormed ho).2

theorem Verified.base_holds (h : a.Verified) (hn : n ∈ a.network.topology.nodes)
    (hσ : σ.WellSorted) (hallows : a.Allows σ) :
    HoldsAt σ ((a.annotationOf n).atTime (a.network.initialOf n) 0) := by
  obtain ⟨o, ho, hunsat⟩ := h.base n hn
  refine (h.base_isFormed hn).holdsAt fun hfails => ?_
  obtain ⟨τ, hτ, -, hq⟩ := (baseObligation_hasModel_iff hn ho hσ).2 ⟨hallows, hfails⟩
  exact hunsat τ hτ hq

theorem Verified.exists_update (h : a.Verified) (hn : n ∈ a.network.topology.nodes)
    (hρ : a.AreRoutes ρ) : ∃ y, a.network.update n (a.network.routes ρ) = .ok y := by
  obtain ⟨o, ho, -⟩ := h.step n hn
  obtain ⟨x, hx, -⟩ := a.inductiveObligation_isFormed ho
  obtain ⟨σ, -⟩ := Assignment.exists_wellSorted
  obtain ⟨y, hy, -⟩ := (a.extends_withRoutes (σ := σ) (t := 0) hρ).update hx
  exact ⟨y, hy⟩

theorem Verified.step_isFormed (h : a.Verified) (hn : n ∈ a.network.topology.nodes)
    (hρ : a.AreRoutes ρ) {y : Typed} (hy : a.network.update n (a.network.routes ρ) = .ok y)
    (t : Int) : IsFormed ((a.annotationOf n).atTime y t) := by
  obtain ⟨o, ho, -⟩ := h.step n hn
  obtain ⟨x, hx, hformed⟩ := a.inductiveObligation_isFormed ho
  obtain ⟨σ, -⟩ := Assignment.exists_wellSorted
  have he := a.extends_withRoutes (σ := σ) (t := t) hρ
  obtain ⟨y', hy', hxy⟩ := he.update hx
  rw [hy] at hy'
  cases hy'
  exact (he.sameResult_atTime _ hxy (matches_time he.time)).isFormed hformed

theorem Verified.step_holds (h : a.Verified) (hn : n ∈ a.network.topology.nodes)
    (hσ : σ.WellSorted) (hallows : a.Allows σ) (hρ : a.AreRoutes ρ) (ht : 0 < t)
    (hearlier : ∀ p ∈ a.network.topology.predecessors n,
      HoldsAt σ ((a.annotationOf p).atTime (a.network.route (ρ p)) (t - 1)))
    {y : Typed} (hy : a.network.update n (a.network.routes ρ) = .ok y) :
    HoldsAt σ ((a.annotationOf n).atTime y t) := by
  obtain ⟨o, ho, hunsat⟩ := h.step n hn
  refine (h.step_isFormed hn hρ hy t).holdsAt fun hfails => ?_
  refine hunsat _ (hσ.withRoutes (t := t) hρ) ?_
  exact (inductiveObligation_asksFor ho (a.extends_withRoutes hρ)).2
    ⟨hallows, ht, hearlier, y, hy, hfails⟩

theorem Verified.safety_holds (h : a.Verified) (hn : n ∈ a.network.topology.nodes)
    (hσ : σ.WellSorted) (hallows : a.Allows σ) {v : Value}
    (hv : v.fits a.network.routeTy = true) (ht : 0 ≤ t)
    (hinv : HoldsAt σ ((a.annotationOf n).atTime (a.network.route v) t)) :
    HoldsAt σ ((a.modularOf n).atTime (a.network.route v) t) := by
  obtain ⟨o, ho, hunsat⟩ := h.safety n hn
  have he := a.extends_withRoutes (σ := σ) (t := t) (ρ := fun _ => v) fun _ _ => hv
  have hformed : IsFormed ((a.modularOf n).atTime (a.network.route v) t) :=
    (he.sameResult_atTime _ (he.matches_route hn) (matches_time he.time)).isFormed
      (a.safetyObligation_isFormed ho)
  refine hformed.holdsAt fun hfails => hunsat _ (hσ.withRoutes (t := t) fun _ _ => hv) ?_
  exact (safetyObligation_asksFor hn ho he).2 ⟨hallows, ht, hinv, hfails⟩

end Violations

/-! ### Rounds -/

section Rounds

variable {σ : Assignment} {n : String} {t : Nat} {rs : List (String × Typed)}

variable (a) in
/-- A route satisfies an invariant at a time, for all symbolic values that are allowed. -/
structure Satisfies (inv : Invariant) (r : Typed) (t : Int) : Prop where
  formed : IsFormed (inv.atTime r t)
  holds : ∀ σ : Assignment, σ.WellSorted → a.Allows σ → HoldsAt σ (inv.atTime r t)

variable (a) in
/-- The routes of a round: one per node, of the route sort, satisfying the invariants at a time. -/
structure SatisfiedAt (t : Nat) (rs : List (String × Typed)) : Prop where
  nodup : (Entries.keys rs).Nodup
  keys : ∀ n ∈ Entries.keys rs, n ∈ a.network.topology.nodes
  route : ∀ n ∈ a.network.topology.nodes, ∃ r, Entries.get? rs n = some r ∧ r.IsClosed ∧
    r.ty = a.network.routeTy ∧ a.Satisfies (a.annotationOf n) r t

theorem Verified.satisfiedAt_initial (h : a.Verified) :
    a.SatisfiedAt 0 a.network.initial.entries where
  nodup := a.network.initial.nodup_keys
  keys n hn := (a.network.initial_keys n).1 hn
  route n hn := ⟨_, Network.get?_initial hn, Network.isClosed_initialOf hn,
    a.network.initial_ty n hn, h.base_isFormed hn, fun _ hσ hallows => h.base_holds hn hσ hallows⟩

/-- The values of routes under an assignment. -/
def valuesOf (σ : Assignment) (rs : List (String × Typed)) (n : String) : Value :=
  match Entries.get? rs n with
  | some r => r.term.eval σ []
  | none => default

theorem valuesOf_eq {r : Typed} (hr : Entries.get? rs n = some r) :
    valuesOf σ rs n = r.term.eval σ [] := by
  rw [valuesOf, hr]

theorem SatisfiedAt.areRoutes (hs : a.SatisfiedAt t rs) (hσ : σ.WellSorted) :
    a.AreRoutes (valuesOf σ rs) := by
  intro n hn
  obtain ⟨r, hr, hclosed, hty, -⟩ := hs.route n hn
  rw [valuesOf_eq hr]
  exact hty ▸ hclosed.eval_fits (hty ▸ a.network.declared_routeTy n hn) hσ

/-- A route matches its value. -/
theorem matches_route_eval {net : Network} (hn : n ∈ net.topology.nodes) {r : Typed}
    (hr : r.IsClosed) (hty : r.ty = net.routeTy) (hσ : σ.WellSorted) :
    Typed.Matches σ σ (net.route (r.term.eval σ [])) r where
  left := isClosed_route hn (hty ▸ hr.eval_fits (hty ▸ net.declared_routeTy n hn) hσ)
  right := hr
  ty := hty.symm
  eval := rfl

theorem SatisfiedAt.routesAt (hs : a.SatisfiedAt t rs) (hσ : σ.WellSorted)
    (hn : n ∈ a.network.topology.nodes) :
    RoutesAt (Typed.Matches σ σ) (a.network.routes (valuesOf σ rs)) rs n := by
  obtain ⟨r, hr, hclosed, hty, -⟩ := hs.route n hn
  refine ⟨_, r, get?_mapNodes hn, hr, ?_⟩
  rw [valuesOf_eq hr]
  exact matches_route_eval hn hclosed hty hσ

/-- The update of the routes of a round, next to the update of their values. -/
theorem SatisfiedAt.update_values (h : a.Verified) (hs : a.SatisfiedAt t rs) (hσ : σ.WellSorted)
    (hn : n ∈ a.network.topology.nodes) :
    ∃ z y, a.network.update n (a.network.routes (valuesOf σ rs)) = .ok z ∧
      a.network.update n rs = .ok y ∧ Typed.Matches σ σ z y := by
  obtain ⟨z, hz⟩ := h.exists_update hn (hs.areRoutes hσ)
  obtain ⟨y, hy, hzy⟩ := Network.update_matches (.refl _ σ)
    (fun p hp => hs.routesAt hσ (Topology.mem_nodes_of_mem_predecessors hp)) hz
  exact ⟨z, y, hz, hy, hzy⟩

theorem sameResult_atTime (inv : Invariant) {x y : Typed} (hxy : Typed.Matches σ σ x y) (k : Int) :
    SameResult σ σ (inv.atTime x k) (inv.atTime y k) :=
  sameResult_appliedTo₂ (.refl _ σ) hxy (matches_int k)

theorem Satisfies.simplify {inv : Invariant} {r : Typed} {k : Int} (h : a.Satisfies inv r k)
    (hr : r.IsClosed) : a.Satisfies inv ⟨r.term.simplify, r.ty⟩ k := by
  have hsame {σ : Assignment} (hσ : σ.WellSorted) :=
    sameResult_atTime inv (hr.matches_simplify hσ) k
  obtain ⟨σ, hσ⟩ := Assignment.exists_wellSorted
  exact ⟨(hsame hσ).isFormed h.formed,
    fun σ hσ hallows => (hsame hσ).holdsAt (h.holds σ hσ hallows)⟩

theorem SatisfiedAt.values_hold (hs : a.SatisfiedAt t rs) (hσ : σ.WellSorted)
    (hallows : a.Allows σ) (hn : n ∈ a.network.topology.nodes) :
    HoldsAt σ ((a.annotationOf n).atTime (a.network.route (valuesOf σ rs n)) t) := by
  obtain ⟨r, hr, hclosed, hty, hold⟩ := hs.route n hn
  rw [valuesOf_eq hr]
  exact (sameResult_atTime _ (matches_route_eval hn hclosed hty hσ) t).symm.holdsAt
    (hold.holds σ hσ hallows)

/-- One more round satisfies the invariants one time unit later. -/
theorem SatisfiedAt.update (hkeep : a.network.KeepsSort) (h : a.Verified)
    (hs : a.SatisfiedAt t rs) (hn : n ∈ a.network.topology.nodes) :
    ∃ y, a.network.update n rs = .ok y ∧ y.IsClosed ∧ y.ty = a.network.routeTy ∧
      a.Satisfies (a.annotationOf n) y (t + 1) := by
  -- the update does not depend on the symbolic values, so that any of them will do to find it
  obtain ⟨σ₀, hσ₀⟩ := Assignment.exists_wellSorted
  obtain ⟨z₀, y, hz₀, hy, hzy₀⟩ := hs.update_values h hσ₀ hn
  have hty : y.ty = a.network.routeTy := hkeep.update_ty (fun p hp => by
    obtain ⟨r, hr, -, hty, -⟩ := hs.route p (Topology.mem_nodes_of_mem_predecessors hp)
    exact ⟨r, hr, hty⟩) hy
  refine ⟨y, hy, hzy₀.right, hty, (sameResult_atTime _ hzy₀ _).isFormed
    (h.step_isFormed hn (hs.areRoutes hσ₀) hz₀ _), fun σ hσ hallows => ?_⟩
  -- under `σ` the routes have values, which the inductive obligation is about
  obtain ⟨z, y', hz, hy', hzy⟩ := hs.update_values h hσ hn
  rw [hy] at hy'
  cases hy'
  refine (sameResult_atTime _ hzy _).holdsAt ?_
  refine h.step_holds hn hσ hallows (hs.areRoutes hσ) (by omega) (fun p hp => ?_) hz
  rw [Int.add_sub_cancel]
  exact hs.values_hold hσ hallows (Topology.mem_nodes_of_mem_predecessors hp)

theorem SatisfiedAt.step (hkeep : a.network.KeepsSort) (h : a.Verified)
    (hs : a.SatisfiedAt t rs) :
    ∃ next, a.network.step rs = .ok next ∧ a.SatisfiedAt (t + 1) next := by
  obtain ⟨next, hnext⟩ : ∃ next, a.network.step rs = .ok next := Network.exists_step fun n hn => by
    obtain ⟨y, hy, -, hty, -⟩ := hs.update hkeep h hn
    exact ⟨y, hy, hty ▸ Ty.ne_truth_of_isDeclared (a.network.declared_routeTy n hn)⟩
  have hround := Network.isRound_of_step hnext
  refine ⟨next, hnext, hround.keys ▸ a.network.topology.nodup_nodes,
    fun n hn => hround.keys ▸ hn, fun n hn => ?_⟩
  obtain ⟨y, hy, hclosed, hty, hold⟩ := hs.update hkeep h hn
  obtain ⟨y', hy', -, hget⟩ := hround.route n hn
  rw [hy] at hy'
  cases hy'
  exact ⟨_, hget, Term.simplify_hasTy hclosed, hty, hold.simplify hclosed⟩

/-- Every further round satisfies the invariants at its time. -/
theorem SatisfiedAt.roundsFrom (hkeep : a.network.KeepsSort) (h : a.Verified) (k : Nat)
    (hs : a.SatisfiedAt t rs) :
    ∃ states, a.network.roundsFrom rs k = .ok states ∧ states.length = k ∧
      ∀ i state, states[i]? = some state → a.SatisfiedAt (t + 1 + i) state := by
  induction k generalizing t rs with
  | zero => exact ⟨[], rfl, rfl, fun i state hi => by simp at hi⟩
  | succ k ih =>
    obtain ⟨next, hnext, hsat⟩ := hs.step hkeep h
    obtain ⟨states, hstates, hlength, hall⟩ := ih hsat
    refine ⟨next :: states, ?_, congrArg (· + 1) hlength, fun i state hi => ?_⟩
    · exact bind_eq_ok.2 ⟨next, hnext, bind_eq_ok.2 ⟨states, hstates, rfl⟩⟩
    · cases i with
      | zero =>
        cases hi
        exact hsat
      | succ i =>
        have := hall i state hi
        rwa [show t + 1 + 1 + i = t + 1 + (i + 1) by omega] at this

/-- Every round of a simulation satisfies the invariants at its time. -/
theorem Verified.simulate (hkeep : a.network.KeepsSort) (h : a.Verified) (rounds : Nat) :
    ∃ states, a.network.simulate rounds = .ok states ∧ states.length = rounds + 1 ∧
      ∀ t state, states[t]? = some state → a.SatisfiedAt t state := by
  obtain ⟨states, hstates, hlength, hall⟩ :=
    h.satisfiedAt_initial.roundsFrom hkeep h rounds
  refine ⟨a.network.initial.entries :: states, bind_eq_ok.2 ⟨states, hstates, rfl⟩,
    congrArg (· + 1) hlength, fun t state ht => ?_⟩
  cases t with
  | zero =>
    cases ht
    exact h.satisfiedAt_initial
  | succ t =>
    have := hall t state ht
    rwa [show 0 + 1 + t = t + 1 by omega] at this

/-- Where the invariant holds of a route, the property does. -/
theorem SatisfiedAt.property_holds (h : a.Verified) (hs : a.SatisfiedAt t rs) (hσ : σ.WellSorted)
    (hallows : a.Allows σ) (hn : n ∈ a.network.topology.nodes) {r : Typed}
    (hr : Entries.get? rs n = some r) : HoldsAt σ ((a.modularOf n).atTime r t) := by
  obtain ⟨r', hr', hclosed, hty, -⟩ := hs.route n hn
  rw [hr] at hr'
  cases hr'
  have hinv := hs.values_hold hσ hallows hn
  have hfits := hs.areRoutes hσ n hn
  rw [valuesOf_eq hr] at hinv hfits
  exact (sameResult_atTime _ (matches_route_eval hn hclosed hty hσ) _).holdsAt
    (h.safety_holds hn hσ hallows hfits (by omega) hinv)

end Rounds

/-! ### The assertion about simulations -/

theorem returns_fetch {α : Type} {r : Except Failure α} {x : α} (h : r = .ok x) :
    (fetch r).Returns x :=
  (gives_fetch r).returns fun _ => h

/-- An exact oracle proves what holds under all assignments. -/
theorem returns_prove (hexact : oracle.Exact) {claim : Term}
    (h : ∀ σ : Assignment, σ.WellSorted → claim.holds σ) :
    (prove oracle claim).Returns true := by
  intro s
  have hunsat : oracle s.asked (.not claim) = .unsat :=
    (hexact _ _).2 fun σ hσ hnot => Term.holds_not.1 hnot (h σ hσ)
  rw [outcome, prove, exec_get_bind, exec_set_bind, hunsat]
  rfl

theorem Verified.assertSimulation (hexact : oracle.Exact) (hkeep : a.network.KeepsSort)
    (h : a.Verified) (hformed : IsFormed a.network.constraints) (rounds : Nat) :
    (a.assertSimulation oracle rounds).Returns () := by
  obtain ⟨scope, hscope⟩ := hformed
  obtain ⟨states, hstates, -, hall⟩ := h.simulate hkeep rounds
  refine returns_bind (returns_fetch hscope) (returns_bind (returns_fetch hstates) ?_)
  refine returns_forM fun state hstate => returns_forM fun r hr => ?_
  obtain ⟨state, t⟩ := state
  have hsat : a.SatisfiedAt t state := hall t state (List.mk_mem_zipIdx_iff_getElem?.1 hstate)
  have hn := hsat.keys r.1 (List.mem_map_of_mem hr)
  obtain ⟨r', hr', -, -, hold⟩ := hsat.route r.1 hn
  rw [Entries.get?_of_mem hsat.nodup hr] at hr'
  cases hr'
  have hvalid : ∃ holds, condition ((a.annotationOf r.1).applyTo r.2 ⟨.int t, .int⟩) = .ok holds ∧
      ∀ σ : Assignment, σ.WellSorted → (implies scope holds).holds σ := by
    obtain ⟨holds, hcondition⟩ := hold.formed
    refine ⟨holds, hcondition, fun σ hσ => Term.holds_implies.2 fun hallows => ?_⟩
    exact (holdsAt_iff hcondition).1 (hold.holds σ hσ ((holdsAt_iff hscope).2 hallows))
  obtain ⟨holds, hcondition, hvalid⟩ := hvalid
  exact returns_bind (returns_fetch hcondition)
    (returns_bind (returns_prove hexact hvalid) (returns_pure ()))

/-! ### Networks without violations -/

section Counters

variable {o : Obligation} {σ : Assignment}

theorem AsksFor.unsat {violation : Assignment → (String → Value) → Int → Prop}
    (h : a.AsksFor o violation) (hno : ∀ σ ρ t, a.AreRoutes ρ → ¬ violation σ ρ t)
    (τ : Assignment) (hτ : τ.WellSorted) : ¬ o.query.holds τ := fun hq =>
  have he := a.extends_self hτ
  hno _ _ _ he.areRoutes ((h he).1 hq).2

/-- Obligations that can be formed are discharged where there are no violations. -/
theorem verified_of_no_violations
    (hformed : ∀ n ∈ a.network.topology.nodes, (∃ o, a.baseObligation n = .ok o) ∧
      (∃ o, a.inductiveObligation n = .ok o) ∧ ∃ o, a.safetyObligation n = .ok o)
    (hbase : ∀ n ∈ a.network.topology.nodes, ∀ σ, ¬ a.BaseViolation σ n)
    (hstep : ∀ n ∈ a.network.topology.nodes, ∀ σ ρ t, a.AreRoutes ρ → ¬ a.StepViolation σ n ρ t)
    (hsafety : ∀ n ∈ a.network.topology.nodes, ∀ σ v t, ¬ a.SafetyViolation σ n v t) :
    a.Verified where
  base n hn := by
    obtain ⟨⟨o, ho⟩, -, -⟩ := hformed n hn
    exact ⟨o, ho, (baseObligation_asksFor hn ho).unsat fun σ _ _ _ hv => hbase n hn σ hv.2⟩
  step n hn := by
    obtain ⟨-, ⟨o, ho⟩, -⟩ := hformed n hn
    exact ⟨o, ho, (inductiveObligation_asksFor ho).unsat fun σ ρ t hρ => hstep n hn σ ρ t hρ⟩
  safety n hn := by
    obtain ⟨-, -, o, ho⟩ := hformed n hn
    exact ⟨o, ho, (safetyObligation_asksFor hn ho).unsat fun σ ρ t _ => hsafety n hn σ (ρ n) t⟩

/-- Numbers that are not negative. -/
def nonnegative : Invariant := .globally (.compare .ge (.datum (.int 0)))

theorem holdsAt_nonnegative {x : Term} {v : Int} (hx : x.eval σ [] = .int v) (t : Int) :
    HoldsAt σ (nonnegative.atTime ⟨x, .int⟩ t) ↔ 0 ≤ v := by
  rw [holdsAt_iff rfl]
  simp [Term.holds, Term.eval, hx, Typed.ofBool, Typed.orderTerm, Value.le]

theorem verified_counter : (counter nonnegative).Verified := by
  refine verified_of_no_violations (fun n hn => ?_) (fun n hn σ hv => ?_)
    (fun n hn σ ρ t hρ hv => ?_) (fun n _ σ v t hv => hv.invariant.not_failsAt hv.property)
  all_goals obtain rfl : n = "A" := List.mem_singleton.1 hn
  · exact ⟨⟨_, rfl⟩, ⟨_, rfl⟩, _, rfl⟩
  · exact ((holdsAt_nonnegative rfl 0).2 (Int.le_refl 0)).not_failsAt hv
  · obtain ⟨-, hearlier, y, hy, hlater⟩ := hv
    cases hy
    obtain ⟨v, hv⟩ := Value.shape_of_fits (hρ "A" hn)
    have hpos : 0 ≤ v := (holdsAt_nonnegative (x := .const (ρ "A")) hv _).1 (hearlier "A" hn)
    have hnext :
        (Term.call (.add (.arg 0) (.int 1)) (.const (ρ "A"))).eval σ [] = .int (v + 1) := by
      simp [Term.eval, Term.int, hv, Value.add]
    exact ((holdsAt_nonnegative hnext t).2 (by omega)).not_failsAt hlater

/-- A node that starts with a truth value and increments it, as if it were a number. It is never
allowed to hold three. -/
def truthCounter : AnnotatedNetwork where
  network := .selfLoop (.incr 1) ⟨.const (.bool true), .bool⟩ ⟨.bool true, rfl⟩ rfl
  annotations := [("A", .globally (.compare .ne (.expr (.lift (.int 3) none))))]
  modularProperties := [("A", .globally (.compare .ne (.expr (.lift (.int 3) none))))]
  monolithicProperties := [("A", .always)]

theorem verified_truthCounter : truthCounter.Verified := by
  refine verified_of_no_violations (fun n hn => ?_) (fun n hn σ hv => ?_)
    (fun n hn σ ρ t hρ hv => ?_) (fun n _ σ v t hv => hv.invariant.not_failsAt hv.property)
  all_goals obtain rfl : n = "A" := List.mem_singleton.1 hn
  · exact ⟨⟨_, rfl⟩, ⟨_, rfl⟩, _, rfl⟩
  · obtain ⟨_, h, hnot⟩ := hv
    cases h
    exact hnot rfl
  · obtain ⟨-, -, y, hy, _, h, hnot⟩ := hv
    cases hy
    cases h
    obtain ⟨v, hv⟩ := Value.shape_of_fits (hρ "A" hn)
    have hnext : (Term.call (.add (Typed.boolToInt (.arg 0)) (.int 1)) (.const (ρ "A"))).eval σ [] ≠
        .int 3 := by
      cases v <;> simp [Term.eval, Term.int, Typed.boolToInt, hv, Value.add, Value.isTrue]
    refine hnot ?_
    simpa [Term.holds, Term.eval, Term.int, Typed.ofBool, Network.route, Value.isTrue] using hnext

end Counters

/-! ### Soundness -/

/-- The modular check is sound, for networks whose updates stay in the route sort. If it passes
with a sound oracle then the simulation has a result for every number of rounds, and at every time
the route of every node satisfies its invariant and its property under all symbolic values that are
allowed. An exact oracle confirms that, where there are restrictions of the symbolic values to
speak of. -/
theorem checkAnnotations_sound (a : AnnotatedNetwork) (hkeep : a.network.KeepsSort)
    (oracle : Oracle) (hsound : oracle.Sound) (arrival : Arrival) (settings : CheckSettings)
    (hlaws : settings.checkMergeLaws = false) (s : Session)
    (hcheck : ((a.checkAnnotations oracle arrival settings).outcome s).1 = .ok none) :
    (∀ rounds, ∃ states, a.network.simulate rounds = .ok states ∧ states.length = rounds + 1 ∧
      ∀ (t : Nat) state, states[t]? = some state → ∀ n ∈ a.network.topology.nodes,
        ∃ r, Entries.get? state n = some r ∧ r.ty = a.network.routeTy ∧
          ∀ σ : Assignment, σ.WellSorted → a.Allows σ →
            HoldsAt σ ((a.annotationOf n).atTime r t) ∧
            HoldsAt σ ((a.modularOf n).atTime r t)) ∧
    (a.network.topology.nodes ≠ [] ∨ IsFormed a.network.constraints →
      ∀ exact : Oracle, exact.Exact → ∀ rounds s',
        ((a.assertSimulation exact rounds).outcome s').1 = .ok ()) := by
  have hverified := verified_of_checkAnnotations hsound hlaws hcheck
  refine ⟨fun rounds => ?_, fun hscope exact hexact rounds s' => ?_⟩
  · obtain ⟨states, hstates, hlength, hall⟩ := hverified.simulate hkeep rounds
    refine ⟨states, hstates, hlength, fun t state ht n hn => ?_⟩
    have hsat := hall t state ht
    obtain ⟨r, hr, -, hty, hinv⟩ := hsat.route n hn
    exact ⟨r, hr, hty, fun σ hσ hallows =>
      ⟨hinv.holds σ hσ hallows, hsat.property_holds hverified hσ hallows hn hr⟩⟩
  · have hformed : IsFormed a.network.constraints := by
      rcases hscope with hnodes | hformed
      · obtain ⟨n, hn⟩ := List.exists_mem_of_ne_nil _ hnodes
        obtain ⟨o, ho, -⟩ := hverified.base n hn
        exact (a.baseObligation_isFormed ho).1
      · exact hformed
    exact hverified.assertSimulation hexact hkeep hformed rounds s'

/-- A count of the rounds is never negative. -/
theorem checkAnnotations_sound_counter : ∃ oracle : Oracle, oracle.Exact ∧
    (((counter nonnegative).checkAnnotations oracle .inOrder default).outcome default).1 =
      .ok none ∧
    ∀ rounds s, (((counter nonnegative).assertSimulation oracle rounds).outcome s).1 = .ok () := by
  obtain ⟨oracle, hexact⟩ := Oracle.exists_exact
  have hkeep : (counter nonnegative).network.KeepsSort := fun n hn x hx => by
    obtain rfl : n = "A" := List.mem_singleton.1 hn
    cases hx
    rfl
  have hcheck : (((counter nonnegative).checkAnnotations oracle .inOrder default).outcome
      default).1 = .ok none := verified_counter.checkAnnotations hexact rfl default
  refine ⟨oracle, hexact, hcheck, ?_⟩
  exact (checkAnnotations_sound (counter nonnegative) hkeep oracle hexact.sound .inOrder default rfl
    default hcheck).2 (.inl (by decide)) oracle hexact

/-- Outside the route sort the check is not sound: the obligations speak about truth values, of
which one more is at most two, and in the simulation the number three is reached. -/
theorem truthCounter_unsound : ∃ oracle : Oracle, oracle.Exact ∧
    ((truthCounter.checkAnnotations oracle .inOrder default).outcome default).1 = .ok none ∧
    ∃ states state r, truthCounter.network.simulate 2 = .ok states ∧ states[2]? = some state ∧
      Entries.get? state "A" = some r ∧
        ∀ σ, FailsAt σ ((truthCounter.annotationOf "A").atTime r 2) := by
  obtain ⟨oracle, hexact⟩ := Oracle.exists_exact
  refine ⟨oracle, hexact, verified_truthCounter.checkAnnotations hexact rfl default,
    _, _, _, rfl, rfl, rfl, fun σ => ⟨_, rfl, fun h => ?_⟩⟩
  cases h

end AnnotatedNetwork

end RouteInvariants
