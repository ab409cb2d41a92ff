import RouteInvariants.Proofs.Conditions
import RouteInvariants.Proofs.Soundness

/-!
Networks that converge. Properties can be given as what holds of a node's route once routes are
stable and what holds of it always, together with a time by which they are said to be stable. If the
modular check passes then every state of the simulation from that time on has both properties
(`SatisfiedAt.reached`), and so does every state that a round does not change, even if it is reached
earlier: the simulation stays there until the time of convergence has come (`IsRun.constant`).
-/

namespace RouteInvariants

/-! ### Runs -/

namespace Network

variable {net : Network} {σ : Assignment} {run : Nat → List (String × Typed)}

/-- The routes at all times. -/
structure IsRun (net : Network) (run : Nat → List (String × Typed)) : Prop where
  start : run 0 = net.initial.entries
  step : ∀ t, net.step (run t) = .ok (run (t + 1))

theorem IsRun.roundsFrom (h : net.IsRun run) (t k : Nat) :
    net.roundsFrom (run t) k = .ok ((List.range k).map fun i => run (t + 1 + i)) := by
  induction k generalizing t with
  | zero => rfl
  | succ k ih =>
    refine bind_eq_ok.2 ⟨_, h.step t, bind_eq_ok.2 ⟨_, ih (t + 1), ?_⟩⟩
    rw [List.range_succ_eq_map, List.map_cons, List.map_map]
    have hshift : ∀ i, t + 1 + 1 + i = t + 1 + (i + 1) := by omega
    simp only [hshift]
    rfl

theorem IsRun.simulate (h : net.IsRun run) (rounds : Nat) :
    net.simulate rounds = .ok ((List.range (rounds + 1)).map run) := by
  have hrounds := h.roundsFrom 0 rounds
  rw [h.start] at hrounds
  refine bind_eq_ok.2 ⟨_, hrounds, ?_⟩
  rw [List.range_succ_eq_map, List.map_cons, List.map_map, ← h.start]
  have hshift : ∀ i, 0 + 1 + i = i + 1 := by omega
  simp only [hshift]
  rfl

theorem IsRun.state_eq (h : net.IsRun run) {rounds t : Nat} {state : List (String × Typed)}
    {states : List (List (String × Typed))} (hstates : net.simulate rounds = .ok states)
    (hstate : states[t]? = some state) : state = run t := by
  rw [h.simulate rounds] at hstates
  cases hstates
  obtain ⟨ht, rfl⟩ := List.getElem?_eq_some_iff.1 hstate
  simp

/-- A round leaves the routes of all nodes as they are, under the assignment. -/
def IsStable (net : Network) (σ : Assignment) (rs : List (String × Typed)) : Prop :=
  ∃ next, net.step rs = .ok next ∧ ∀ n ∈ net.topology.nodes,
    RoutesAt (fun x y => x.term.eval σ [] = y.term.eval σ []) rs next n

/-- Rounds cannot tell matching routes apart. -/
theorem roundRelation_matches (hσ : σ.WellSorted) :
    RoundRelation (Typed.Matches σ σ) (Typed.Matches σ σ) net net where
  nodes := rfl
  related _ _ := relatedAt_matches (.refl _ σ)
  ty h := h.ty
  initial _ hn := (isDefined_initialOf hn).matches (.refl _ σ)
  next _ _ _ _ _ _ _ _ h := h.simplify hσ hσ

/-- After a round that changes nothing, no later one does. -/
theorem IsRun.constant (h : net.IsRun run) (hσ : σ.WellSorted) {t : Nat}
    (hstable : ∀ n ∈ net.topology.nodes, RoutesAt (Typed.Matches σ σ) (run t) (run (t + 1)) n)
    (k : Nat) : ∀ n ∈ net.topology.nodes,
      RoutesAt (Typed.Matches σ σ) (run t) (run (t + k)) n := by
  induction k with
  | zero =>
    intro n hn
    obtain ⟨x, y, hx, -, hxy⟩ := hstable n hn
    exact ⟨x, x, hx, hx, hxy.left.matches_self σ⟩
  | succ k ih =>
    obtain ⟨next, hnext, hlater⟩ := step_rel (roundRelation_matches hσ) ih (h.step t)
    rw [h.step (t + k)] at hnext
    cases hnext
    intro n hn
    obtain ⟨x, y, hx, hy, hxy⟩ := hstable n hn
    obtain ⟨y', z, hy', hz, hyz⟩ := hlater n hn
    rw [hy] at hy'
    cases hy'
    exact ⟨x, z, hx, hz, hxy.trans hyz⟩

end Network

namespace AnnotatedNetwork

variable {a : AnnotatedNetwork} {σ : Assignment}

/-- The simulation of a verified network goes on for ever, and satisfies the invariants. -/
theorem Verified.exists_run (hkeep : a.network.KeepsSort) (h : a.Verified) :
    ∃ run, a.network.IsRun run ∧ ∀ t, a.SatisfiedAt t (run t) := by
  choose next hstep hsat using fun (t : Nat) (s : { rs // a.SatisfiedAt t rs }) =>
    s.2.step hkeep h
  let run (t : Nat) : { rs // a.SatisfiedAt t rs } :=
    Nat.rec ⟨_, h.satisfiedAt_initial⟩ (fun t s => ⟨next t s, hsat t s⟩) t
  exact ⟨fun t => (run t).1, ⟨rfl, fun t => hstep t (run t)⟩, fun t => (run t).2⟩

/-! ### Properties of stable states -/

/-- The property that is given for a node. -/
def propertyOf (given : List (String × Predicate)) (n : String) : Predicate :=
  (Entries.get? given n).getD default

/-- What is to hold of the routes is made from properties of stable routes and of all routes. -/
structure HasProperties (a : AnnotatedNetwork) (stable safety : String → Predicate)
    (converge : Operand) : Prop where
  modular : ∀ n ∈ a.network.topology.nodes, a.modularOf n =
    .intersect [.eventually converge (stable n), .globally (safety n)]
  monolithic : ∀ n ∈ a.network.topology.nodes, a.monolithicOf n = .all [stable n, safety n]

theorem ofStableSafety_eq_ok {net : Network} {annotations : List (String × Invariant)}
    {stable safety : List (String × Predicate)} {converge : Operand}
    (h : ofStableSafety net annotations stable safety converge = .ok a) :
    a.network = net ∧ a.HasProperties (propertyOf stable) (propertyOf safety) converge := by
  obtain ⟨_, -, h⟩ := bind_eq_ok.1 h
  obtain ⟨_, -, h⟩ := bind_eq_ok.1 h
  obtain ⟨_, -, h⟩ := bind_eq_ok.1 h
  obtain ⟨_, -, h⟩ := bind_eq_ok.1 h
  obtain ⟨_, -, h⟩ := bind_eq_ok.1 h
  cases h
  refine ⟨rfl, fun n hn => ?_, fun n hn => ?_⟩
  · rw [modularOf, get?_mapNodes hn]
    rfl
  · rw [monolithicOf, get?_mapNodes hn]
    rfl

namespace HasProperties

variable {stable safety : String → Predicate} {converge : Operand} {n : String} {r : Typed}
  (ha : a.HasProperties stable safety converge) (hn : n ∈ a.network.topology.nodes)
include ha hn

theorem holdsAt_monolithic : HoldsAt σ ((a.monolithicOf n).applyTo r) ↔
    HoldsAt σ ((stable n).applyTo r) ∧ HoldsAt σ ((safety n).applyTo r) := by
  rw [ha.monolithic n hn, Predicate.holdsAt_all, List.forall_mem_cons, List.forall_mem_singleton]

theorem isFormed_monolithic {time : Typed} (h : IsFormed ((a.modularOf n).applyTo r time)) :
    IsFormed ((a.monolithicOf n).applyTo r) := by
  rw [ha.modular n hn, Invariant.isFormed_intersect, List.forall_mem_cons,
    List.forall_mem_singleton] at h
  rw [ha.monolithic n hn, Predicate.isFormed_all, List.forall_mem_cons, List.forall_mem_singleton]
  exact ⟨Invariant.isFormed_of_eventually h.1, Invariant.isFormed_globally.1 h.2⟩

/-- The property over time, at a time: there is a time of convergence, and from then on a route has
both properties. -/
theorem of_modular (hσ : σ.WellSorted) (hconverge : converge.IsClosed) {t : Int}
    (h : HoldsAt σ ((a.modularOf n).atTime r t)) : ∃ q, converge.timeAt σ = some q ∧
      (q ≤ t → HoldsAt σ ((a.monolithicOf n).applyTo r)) := by
  rw [ha.modular n hn, Invariant.atTime, Invariant.holdsAt_intersect, List.forall_mem_cons,
    List.forall_mem_singleton] at h
  obtain ⟨q, hq, hstable⟩ := (Invariant.holdsAt_eventually hσ hconverge).1 h.1
  refine ⟨q, hq, fun hle => (ha.holdsAt_monolithic hn).2 ⟨?_, Invariant.holdsAt_globally.1 h.2⟩⟩
  rcases hstable with ⟨hlt, -⟩ | hholds
  · exact absurd hle (not_le.2 hlt)
  · exact hholds

/-- A route with both properties satisfies the property over time. -/
theorem to_modular (hσ : σ.WellSorted) (hconverge : converge.IsClosed) {q : Rat}
    (hq : converge.timeAt σ = some q) {t : Int} (h : HoldsAt σ ((a.monolithicOf n).applyTo r)) :
    HoldsAt σ ((a.modularOf n).atTime r t) := by
  rw [ha.modular n hn, Invariant.atTime, Invariant.holdsAt_intersect, List.forall_mem_cons,
    List.forall_mem_singleton]
  obtain ⟨hstable, hsafety⟩ := (ha.holdsAt_monolithic hn).1 h
  exact ⟨(Invariant.holdsAt_eventually hσ hconverge).2 ⟨q, hq, .inr hstable⟩,
    Invariant.holdsAt_globally.2 hsafety⟩

end HasProperties

section Reached

variable {stable safety : String → Predicate} {converge : Operand} {n : String} {t : Nat}
  {rs : List (String × Typed)} {run : Nat → List (String × Typed)}

/-- From the time of convergence on, routes have both properties. -/
theorem SatisfiedAt.reached (ha : a.HasProperties stable safety converge)
    (hconverge : converge.IsClosed) (h : a.Verified) (hs : a.SatisfiedAt t rs)
    (hσ : σ.WellSorted) (hallows : a.Allows σ) (hn : n ∈ a.network.topology.nodes) :
    ∃ q r, converge.timeAt σ = some q ∧ Entries.get? rs n = some r ∧
      (q ≤ t → HoldsAt σ ((a.monolithicOf n).applyTo r)) := by
  obtain ⟨r, hr, -⟩ := hs.route n hn
  obtain ⟨q, hq, hle⟩ := ha.of_modular hn hσ hconverge (hs.property_holds h hσ hallows hn hr)
  exact ⟨q, r, hq, hr, hle⟩

/-- A state that a round does not change is followed by states with the same routes. -/
theorem matches_of_isStable (hrun : a.network.IsRun run) (hs : ∀ t, a.SatisfiedAt t (run t))
    (hstable : a.network.IsStable σ (run t)) : ∀ n ∈ a.network.topology.nodes,
      RoutesAt (Typed.Matches σ σ) (run t) (run (t + 1)) n := by
  intro n hn
  obtain ⟨next, hnext, hroutes⟩ := hstable
  rw [hrun.step t] at hnext
  cases hnext
  obtain ⟨x, y, hx, hy, hxy⟩ := hroutes n hn
  obtain ⟨x', hx', hxclosed, hxty, -⟩ := (hs t).route n hn
  obtain ⟨y', hy', hyclosed, hyty, -⟩ := (hs (t + 1)).route n hn
  rw [hx] at hx'
  rw [hy] at hy'
  cases hx'
  cases hy'
  exact ⟨x, y, hx, hy, hxclosed, hyclosed, hxty.trans hyty.symm, hxy⟩

/-- Routes that stay as they are have both properties, whenever they are reached. -/
theorem reached_of_isStable (ha : a.HasProperties stable safety converge)
    (hconverge : converge.IsClosed) (h : a.Verified) (hrun : a.network.IsRun run)
    (hs : ∀ t, a.SatisfiedAt t (run t)) (hσ : σ.WellSorted) (hallows : a.Allows σ)
    (hstable : a.network.IsStable σ (run t)) (hn : n ∈ a.network.topology.nodes) :
    ∃ r, Entries.get? (run t) n = some r ∧ HoldsAt σ ((a.monolithicOf n).applyTo r) := by
  obtain ⟨q, -, hq, -⟩ := (hs t).reached ha hconverge h hσ hallows hn
  obtain ⟨k, hk⟩ := exists_nat_ge q
  -- the same routes are there when the time of convergence has come
  obtain ⟨x, y, hx, hy, hxy⟩ :=
    hrun.constant hσ (matches_of_isStable hrun hs hstable) k n hn
  obtain ⟨q', y', hq', hy', hholds⟩ := (hs (t + k)).reached ha hconverge h hσ hallows hn
  rw [hq] at hq'
  rw [hy] at hy'
  cases hq'
  cases hy'
  have hle : q ≤ ((t + k : Nat) : Rat) := by
    push_cast
    have ht : (0 : Rat) ≤ t := Nat.cast_nonneg t
    linarith
  exact ⟨x, hx, (sameResult_appliedTo (.refl _ σ) hxy).symm.holdsAt (hholds hle)⟩

end Reached

/-- If the modular check of properties of stable routes and of all routes passes, then the simulation
has a result for every number of rounds, and both properties hold of the routes of all nodes in every
state at or after the time of convergence, and in every state that a round does not change, at
whatever time it is reached. This is for networks whose updates stay in the route sort. -/
theorem ofStableSafety_reached (net : Network) (annotations : List (String × Invariant))
    (stable safety : List (String × Predicate)) (converge : Operand)
    (hconverge : converge.IsClosed) (a : AnnotatedNetwork)
    (ha : ofStableSafety net annotations stable safety converge = .ok a) (hkeep : net.KeepsSort)
    (oracle : Oracle) (hsound : oracle.Sound) (arrival : Arrival) (settings : CheckSettings)
    (hlaws : settings.checkMergeLaws = false) (s : Session)
    (hcheck : ((a.checkAnnotations oracle arrival settings).outcome s).1 = .ok none)
    (rounds : Nat) :
    ∃ states, net.simulate rounds = .ok states ∧ states.length = rounds + 1 ∧
      ∀ (t : Nat) state, states[t]? = some state → ∀ σ : Assignment, σ.WellSorted → a.Allows σ →
        (∃ q, converge.timeAt σ = some q ∧ q ≤ t) ∨ net.IsStable σ state →
          ∀ n ∈ net.topology.nodes, ∃ r, Entries.get? state n = some r ∧
            HoldsAt σ ((a.monolithicOf n).applyTo r) ∧
            HoldsAt σ ((propertyOf stable n).applyTo r) ∧
            HoldsAt σ ((propertyOf safety n).applyTo r) := by
  obtain ⟨rfl, hproperties⟩ := ofStableSafety_eq_ok ha
  have hverified := verified_of_checkAnnotations hsound hlaws hcheck
  obtain ⟨run, hrun, hsat⟩ := hverified.exists_run hkeep
  refine ⟨_, hrun.simulate rounds, by simp, fun t state hstate σ hσ hallows h n hn => ?_⟩
  obtain rfl := hrun.state_eq (hrun.simulate rounds) hstate
  suffices ∃ r, Entries.get? (run t) n = some r ∧ HoldsAt σ ((a.monolithicOf n).applyTo r) by
    obtain ⟨r, hr, hholds⟩ := this
    exact ⟨r, hr, hholds, (hproperties.holdsAt_monolithic hn).1 hholds⟩
  rcases h with ⟨q, hq, hle⟩ | hstable
  · obtain ⟨q', r, hq', hr, hholds⟩ :=
      (hsat t).reached hproperties hconverge hverified hσ hallows hn
    rw [hq] at hq'
    cases hq'
    exact ⟨r, hr, hholds hle⟩
  · exact reached_of_isStable hproperties hconverge hverified hrun hsat hσ hallows hstable hn

/-! ### Networks that rest -/

/-- Obligations of the safety check are discharged where the invariants imply both properties. -/
theorem HasProperties.discharged_safety {stable safety : String → Predicate} {converge : Operand}
    (ha : a.HasProperties stable safety converge) (hconverge : converge.IsClosed)
    (hformed : ∀ n ∈ a.network.topology.nodes, ∃ o, a.safetyObligation n = .ok o)
    (htime : ∀ σ, ∃ q, converge.timeAt σ = some q)
    (h : ∀ n ∈ a.network.topology.nodes, ∀ σ v (t : Int),
      HoldsAt σ ((a.annotationOf n).atTime (a.network.route v) t) →
        HoldsAt σ ((a.monolithicOf n).applyTo (a.network.route v))) :
    a.Discharged a.safetyObligation := by
  intro n hn
  obtain ⟨o, ho⟩ := hformed n hn
  refine ⟨o, ho, fun τ hτ hq => ?_⟩
  obtain ⟨-, hviolation⟩ := (safetyObligation_asksFor hn ho (a.extends_self hτ)).1 hq
  obtain ⟨q, hq⟩ := htime τ
  exact (ha.to_modular hn hτ hconverge hq (h n hn τ _ _ hviolation.invariant)).not_failsAt
    hviolation.property

/-- A node without a route that keeps what it has. -/
def idleNetwork : Network :=
  .selfLoop .identity ⟨.con 0, .option .int⟩ ⟨.absent .int, rfl⟩ rfl

/-- The node is said to have no route, always and when it has become stable at a time. -/
def idle (converge : Int) : AnnotatedNetwork where
  network := idleNetwork
  annotations := [("A", .globally .isNone)]
  modularProperties :=
    [("A", .intersect [.eventually (.datum (.int converge)) .isNone, .globally .always])]
  monolithicProperties := [("A", .all [.isNone, .always])]

theorem idle_eq (converge : Int) : ofStableSafety idleNetwork [("A", .globally .isNone)]
    [("A", .isNone)] [("A", .always)] (.datum (.int converge)) = .ok (idle converge) := rfl

theorem holdsAt_isNone {x : Term} : HoldsAt σ (Predicate.isNone.applyTo ⟨x, .option .int⟩) ↔
    (x.eval σ []).head? = some 0 := by
  rw [holdsAt_iff rfl]
  simp [Term.holds, Term.eval, Typed.ofBool]

theorem holdsAt_always {x : Typed} : HoldsAt σ (Predicate.always.applyTo x) := ⟨_, rfl, rfl⟩

theorem verified_idle (converge : Int) : (idle converge).Verified where
  base n hn := by
    obtain rfl : n = "A" := List.mem_singleton.1 hn
    obtain ⟨o, ho⟩ : ∃ o, (idle converge).baseObligation "A" = .ok o := ⟨_, rfl⟩
    refine ⟨o, ho, (baseObligation_asksFor hn ho).unsat fun σ _ _ _ hv => ?_⟩
    have hnone : HoldsAt σ (((idle converge).annotationOf "A").atTime
        ((idle converge).network.initialOf "A") 0) :=
      Invariant.holdsAt_globally.2 (holdsAt_isNone.2 rfl)
    exact hnone.not_failsAt hv.2
  step n hn := by
    obtain rfl : n = "A" := List.mem_singleton.1 hn
    obtain ⟨o, ho⟩ : ∃ o, (idle converge).inductiveObligation "A" = .ok o := ⟨_, rfl⟩
    refine ⟨o, ho, (inductiveObligation_asksFor ho).unsat fun σ ρ t _ hv => ?_⟩
    -- the update of a route is that route
    obtain ⟨-, hearlier, y, hy, hlater⟩ := hv
    cases hy
    have hnone := holdsAt_isNone.1 (Invariant.holdsAt_globally.1 (hearlier "A" hn))
    have hnext : HoldsAt σ (((idle converge).annotationOf "A").atTime
        ⟨.call (.arg 0) (.const (ρ "A")), .option .int⟩ t) :=
      Invariant.holdsAt_globally.2 (holdsAt_isNone.2 hnone)
    exact hnext.not_failsAt hlater
  safety := by
    refine (ofStableSafety_eq_ok (idle_eq converge)).2.discharged_safety trivial (fun n hn => ?_)
      (fun σ => ⟨converge, rfl⟩) fun n hn σ v t hinv => ?_
    all_goals obtain rfl : n = "A" := List.mem_singleton.1 hn
    · exact ⟨_, rfl⟩
    · refine Predicate.holdsAt_all.2 (List.forall_mem_cons.2 ⟨?_, List.forall_mem_singleton.2
        holdsAt_always⟩)
      exact Invariant.holdsAt_globally.1 hinv

theorem keepsSort_idle : idleNetwork.KeepsSort := fun n hn x hx => by
  obtain rfl : n = "A" := List.mem_singleton.1 hn
  cases hx
  rfl

/-- A node that has come to rest before the time of convergence. -/
theorem ofStableSafety_reached_idle : ∃ oracle : Oracle, oracle.Sound ∧
    (((idle 5).checkAnnotations oracle .inOrder default).outcome default).1 = .ok none ∧
    ∃ states state r, idleNetwork.simulate 2 = .ok states ∧ states[1]? = some state ∧
      Entries.get? state "A" = some r ∧ ∀ σ : Assignment, σ.WellSorted →
        idleNetwork.IsStable σ state ∧ HoldsAt σ (Predicate.isNone.applyTo r) := by
  obtain ⟨oracle, hexact⟩ := Oracle.exists_exact
  have hcheck : (((idle 5).checkAnnotations oracle .inOrder default).outcome default).1 =
      .ok none := (verified_idle 5).checkAnnotations hexact rfl default
  obtain ⟨states, hstates, -, hreached⟩ := ofStableSafety_reached idleNetwork _ _ _
    (.datum (.int 5)) trivial (idle 5) (idle_eq 5) keepsSort_idle oracle hexact.sound .inOrder
    default rfl default hcheck 2
  obtain ⟨state, r, hstate, hr, hstable⟩ : ∃ state r, states[1]? = some state ∧
      Entries.get? state "A" = some r ∧ ∀ σ, idleNetwork.IsStable σ state := by
    cases hstates
    refine ⟨_, _, rfl, rfl, fun σ => ⟨_, rfl, fun n hn => ?_⟩⟩
    obtain rfl : n = "A" := List.mem_singleton.1 hn
    exact ⟨_, _, rfl, rfl, rfl⟩
  refine ⟨oracle, hexact.sound, hcheck, states, state, r, hstates, hstate, hr,
    fun σ hσ => ⟨hstable σ, ?_⟩⟩
  obtain ⟨r', hr', -, hnone, -⟩ :=
    hreached 1 state hstate σ hσ ⟨_, rfl, rfl⟩ (.inr (hstable σ)) "A" (List.mem_singleton_self _)
  rw [hr] at hr'
  cases hr'
  exact hnone

/-- A node that increments a truth value is said never to hold three, from the start. -/
theorem verified_truthCounter_stable {b : AnnotatedNetwork}
    (hb : ofStableSafety truthCounter.network truthCounter.annotations
      [("A", .compare .ne (.expr (.lift (.int 3) none)))] [("A", .always)] (.datum (.int 0)) =
        .ok b) : b.Verified := by
  have hproperties := (ofStableSafety_eq_ok hb).2
  cases hb
  refine ⟨verified_truthCounter.base, verified_truthCounter.step, ?_⟩
  refine hproperties.discharged_safety trivial (fun n hn => ?_) (fun σ => ⟨0, rfl⟩)
    fun n hn σ v t hinv => ?_
  all_goals obtain rfl : n = "A" := List.mem_singleton.1 hn
  · exact ⟨_, rfl⟩
  · refine Predicate.holdsAt_all.2 (List.forall_mem_cons.2 ⟨?_, List.forall_mem_singleton.2
      holdsAt_always⟩)
    exact Invariant.holdsAt_globally.1 hinv

/-- Outside the route sort, the properties need not hold after the time of convergence: the number
three is reached at time two. -/
theorem truthCounter_converges : ∃ (oracle : Oracle) (b : AnnotatedNetwork), oracle.Exact ∧
    ofStableSafety truthCounter.network truthCounter.annotations
      [("A", .compare .ne (.expr (.lift (.int 3) none)))] [("A", .always)] (.datum (.int 0)) =
        .ok b ∧
    ((b.checkAnnotations oracle .inOrder default).outcome default).1 = .ok none ∧
    ∃ states state r, b.network.simulate 2 = .ok states ∧ states[2]? = some state ∧
      Entries.get? state "A" = some r ∧
        ∀ σ, FailsAt σ ((b.monolithicOf "A").applyTo r) := by
  obtain ⟨oracle, hexact⟩ := Oracle.exists_exact
  refine ⟨oracle, _, hexact, rfl, (verified_truthCounter_stable rfl).checkAnnotations hexact rfl
    default, _, _, _, rfl, rfl, rfl, fun σ => ⟨_, rfl, fun h => ?_⟩⟩
  cases h

end AnnotatedNetwork

end RouteInvariants
