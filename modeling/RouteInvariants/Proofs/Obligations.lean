import RouteInvariants.Proofs.Matching

/-!
What the obligations say. The query of an obligation has a solution that extends an assignment of
the symbolic values exactly where the restrictions of the symbolic values hold and the check is
violated, and the state that is made from a solution shows the violation.
-/

namespace RouteInvariants

/-! ### Formulas -/

namespace Term

variable {σ : Assignment} {s t : Term} {ts : List Term}

theorem isTrue_eval_iff : (t.eval σ []).isTrue = true ↔ t.holds σ := by
  rw [Value.isTrue, beq_iff_eq, holds]

theorem holds_not : (Term.not t).holds σ ↔ ¬ t.holds σ := by
  rw [← isTrue_eval_iff (t := t), holds, eval, Value.bool.injEq]
  simp

theorem holds_and : (Term.and s t).holds σ ↔ s.holds σ ∧ t.holds σ := by
  rw [← isTrue_eval_iff (t := s), ← isTrue_eval_iff (t := t), holds, eval, Value.bool.injEq,
    Bool.and_eq_true]

theorem holds_or : (Term.or s t).holds σ ↔ s.holds σ ∨ t.holds σ := by
  rw [← isTrue_eval_iff (t := s), ← isTrue_eval_iff (t := t), holds, eval, Value.bool.injEq,
    Bool.or_eq_true]

theorem holds_conj : (conj ts).holds σ ↔ ∀ t ∈ ts, t.holds σ := by
  fun_induction conj ts with
  | case1 => exact ⟨fun _ _ h => (nomatch h), fun _ => rfl⟩
  | case2 t => simp
  | case3 t ts _ ih => rw [holds_and, ih, List.forall_mem_cons]

theorem holds_implies : (AnnotatedNetwork.implies s t).holds σ ↔ (s.holds σ → t.holds σ) := by
  rw [AnnotatedNetwork.implies, holds_or, holds_not]
  exact imp_iff_not_or.symm

theorem holds_eq : (Term.eq s t).holds σ ↔ s.eval σ [] = t.eval σ [] := by
  rw [holds, eval, Value.bool.injEq, decide_eq_true_eq]

/-- The formula has a solution that extends the assignment of the symbolic values. -/
def HasModel (σ : Assignment) (t : Term) : Prop :=
  ∃ τ : Assignment, τ.WellSorted ∧ AgreeOn Variable.IsSymbolic σ τ ∧ t.holds τ

end Term

/-! ### Unknown routes and the time -/

namespace Network

variable (net : Network)

/-- The variable of a node's unknown route. -/
def routeVar (node : String) : Variable := .route (node ++ "-" ++ "route") net.routeTy

/-- A value as a route. -/
def route (v : Value) : Typed := ⟨.const v, net.routeTy⟩

/-- Values as the routes of all nodes. -/
def routes (ρ : String → Value) : List (String × Typed) :=
  net.topology.mapNodes fun n => net.route (ρ n)

end Network

namespace Assignment

/-- The assignment with routes for the nodes of a network, and a time. -/
def withRoutes (σ : Assignment) (net : Network) (ρ : String → Value) (t : Int) : Assignment where
  value
    | .route name ty =>
      if ty = net.routeTy then
        match net.topology.nodes.find? fun n => n ++ "-" ++ "route" = name with
        | some n => ρ n
        | none => σ.value (.route name ty)
      else σ.value (.route name ty)
    | .time => .int t
    | x => σ.value x
  absent := σ.absent

variable {σ : Assignment} {net : Network} {ρ : String → Value} {t : Int}

theorem withRoutes_routeVar {n : String} (hn : n ∈ net.topology.nodes) :
    (σ.withRoutes net ρ t).value (net.routeVar n) = ρ n := by
  -- different nodes have different names for their unknown routes
  have hfind : net.topology.nodes.find?
      (fun m => decide (m ++ "-" ++ "route" = n ++ "-" ++ "route")) = some n := by
    cases h : net.topology.nodes.find?
      (fun m => decide (m ++ "-" ++ "route" = n ++ "-" ++ "route")) with
    | none => exact absurd (decide_eq_true rfl) (List.find?_eq_none.1 h n hn)
    | some m =>
      have hm := List.find?_some h
      rw [decide_eq_true_eq, String.append_left_inj, String.append_left_inj] at hm
      rw [hm]
  simp only [withRoutes, Network.routeVar, if_true, hfind]

theorem agreeOn_withRoutes :
    Term.AgreeOn Variable.IsSymbolic σ (σ.withRoutes net ρ t) where
  value x hx := by
    cases x with
    | symbolic => rfl
    | _ => cases hx
  absent := rfl

theorem WellSorted.withRoutes (hσ : σ.WellSorted)
    (hρ : ∀ n ∈ net.topology.nodes, (ρ n).fits net.routeTy = true) :
    (σ.withRoutes net ρ t).WellSorted where
  value x hx := by
    cases x with
    | symbolic => exact hσ.value _ hx
    | time => rfl
    | route name ty =>
      simp only [Assignment.withRoutes]
      split
      · rename_i hty
        split
        · rename_i n hn
          exact hty ▸ hρ n (List.mem_of_find?_eq_some hn)
        · exact hσ.value _ hx
      · exact hσ.value _ hx
  absent := hσ.absent

end Assignment

/-- The invariant of a route at a time. -/
def Invariant.atTime (inv : Invariant) (route : Typed) (t : Int) : Except SortError Typed :=
  inv.applyTo route ⟨.int t, .int⟩

section Unknowns

open Typed (Matches)

variable {net : Network} {σ τ : Assignment} {n : String} {t : Int}

theorem matches_int (n : Int) : Matches σ τ ⟨.int n, .int⟩ ⟨.int n, .int⟩ :=
  have h := Typed.isClosed_const (v := .int n) (t := .int) rfl rfl
  ⟨h, h, rfl, rfl⟩

theorem matches_time (ht : τ.value .time = .int t) :
    Matches τ σ AnnotatedNetwork.time ⟨.int t, .int⟩ where
  left := Typed.isClosed_var (v := .time) rfl
  right := Typed.isClosed_const rfl rfl
  ty := rfl
  eval := ht

theorem matches_earlier (ht : τ.value .time = .int t) :
    Matches τ σ ⟨.sub AnnotatedNetwork.time.term (.int 1), .int⟩ ⟨.int (t - 1), .int⟩ where
  left := .sub rfl (matches_time (σ := σ) ht).left (Typed.hasTy_int 1)
  right := Typed.isClosed_const rfl rfl
  ty := rfl
  eval := by simp [AnnotatedNetwork.time, Term.eval, Term.int, ht, Value.sub]

theorem value_time (hτ : τ.WellSorted) : τ.value .time = .int (Model.ofAssignment τ).time := by
  obtain ⟨t, ht⟩ := Value.shape_of_fits (hτ.value .time rfl)
  rw [Model.ofAssignment]
  dsimp only
  rw [ht]

/-- The unknown route of a node matches every route with the value of the unknown. -/
theorem matches_unknownRoute (hn : n ∈ net.topology.nodes) {y : Typed} (hy : y.IsClosed)
    (hty : y.ty = net.routeTy) (hv : τ.value (net.routeVar n) = y.term.eval σ []) :
    Matches τ σ (net.unknownRoute "route" n) y where
  left := Typed.isClosed_var (v := net.routeVar n) (net.declared_routeTy n hn)
  right := hy
  ty := hty.symm
  eval := hv

theorem isClosed_route (hn : n ∈ net.topology.nodes) {v : Value} (hv : v.fits net.routeTy = true) :
    (net.route v).IsClosed :=
  Typed.isClosed_const (net.declared_routeTy n hn) hv

theorem get?_mapNodes {α : Type} {f : String → α} (hn : n ∈ net.topology.nodes) :
    Entries.get? (net.topology.mapNodes f) n = some (f n) :=
  Entries.get?_map_self f hn

end Unknowns

namespace AnnotatedNetwork

variable (a : AnnotatedNetwork) {σ τ : Assignment} {n : String} {o : Obligation} {t : Int}

/-- The assignment satisfies the restrictions of the symbolic values. -/
def Allows (σ : Assignment) : Prop := HoldsAt σ a.network.constraints

theorem query_holds_iff {assumptions : List Term} {claim q : Term}
    (h : a.query assumptions claim = .ok q) :
    q.holds σ ↔ a.Allows σ ∧ (∀ t ∈ assumptions, t.holds σ) ∧ ¬ claim.holds σ := by
  obtain ⟨scope, hscope, h⟩ := bind_eq_ok.1 h
  cases h
  rw [Term.holds_conj, List.cons_append, List.forall_mem_cons, List.forall_mem_append, Allows,
    holdsAt_iff hscope]
  simp only [List.mem_singleton, forall_eq, Term.holds_not]

theorem conditions_hold_iff {ps : List String} {ts : List Term}
    {f : String → Except SortError Typed} (h : ps.mapM (fun p => condition (f p)) = .ok ts) :
    (∀ t ∈ ts, t.holds σ) ↔ ∀ p ∈ ps, HoldsAt σ (f p) := by
  rw [mapM_eq_ok] at h
  induction h with
  | nil => simp
  | cons ht _ ih => rw [List.forall_mem_cons, List.forall_mem_cons, ih, holdsAt_iff ht]

theorem conditions_fail_iff {ps : List String} {ts : List Term}
    {f : String → Except SortError Typed} (h : ps.mapM (fun p => condition (f p)) = .ok ts) :
    (¬ ∀ t ∈ ts, t.holds σ) ↔ ∃ p ∈ ps, FailsAt σ (f p) := by
  rw [mapM_eq_ok] at h
  induction h with
  | nil => simp
  | cons ht _ ih =>
    rw [List.forall_mem_cons, Classical.not_and_iff_not_or_not, ih, ← failsAt_iff ht]
    simp

/-! ### Violations -/

/-- The initial route of the node violates its invariant at time zero. -/
def BaseViolation (σ : Assignment) (n : String) : Prop :=
  FailsAt σ ((a.annotationOf n).atTime (a.network.initialOf n) 0)

/-- Routes satisfy the invariants of the node's predecessors one time unit earlier, and their update
violates the node's. -/
structure StepViolation (σ : Assignment) (n : String) (ρ : String → Value) (t : Int) : Prop where
  positive : 0 < t
  earlier : ∀ p ∈ a.network.topology.predecessors n,
    HoldsAt σ ((a.annotationOf p).atTime (a.network.route (ρ p)) (t - 1))
  later : ∃ x, a.network.update n (a.network.routes ρ) = .ok x ∧
    FailsAt σ ((a.annotationOf n).atTime x t)

/-- A route satisfies the node's invariant and violates its property. -/
structure SafetyViolation (σ : Assignment) (n : String) (v : Value) (t : Int) : Prop where
  nonneg : 0 ≤ t
  invariant : HoldsAt σ ((a.annotationOf n).atTime (a.network.route v) t)
  property : FailsAt σ ((a.modularOf n).atTime (a.network.route v) t)

/-- Routes are equal to their updates, and one of them violates the property of its node. -/
structure StableViolation (σ : Assignment) (ρ : String → Value) : Prop where
  stable : ∀ n ∈ a.network.topology.nodes, ∃ x,
    a.network.update n (a.network.routes ρ) = .ok x ∧
      HoldsAt σ (Typed.equal (a.network.route (ρ n)) x)
  property : ∃ n ∈ a.network.topology.nodes,
    FailsAt σ ((a.monolithicOf n).applyTo (a.network.route (ρ n)))

/-- Routes of the route sort for all nodes. -/
def AreRoutes (ρ : String → Value) : Prop :=
  ∀ n ∈ a.network.topology.nodes, (ρ n).fits a.network.routeTy = true

/-! ### Queries

What each query says about the unknowns, before any of them is given a value. -/

/-- An obligation about a node, with its query and the state that a solution is shown as. -/
structure IsObligation (o : Obligation) (node : Option String) (kind : CheckKind)
    (query : Assignment → Prop) (witness : Model → State) : Prop where
  node : o.node = node
  kind : o.kind = kind
  query : ∀ τ, o.query.holds τ ↔ query τ
  witness : o.witness = witness

theorem baseObligation_spec (hn : n ∈ a.network.topology.nodes)
    (h : a.baseObligation n = .ok o) :
    IsObligation o (some n) .base
      (fun τ => a.Allows τ ∧
        τ.value (a.network.routeVar n) = (a.network.initialOf n).term.eval τ [] ∧
        FailsAt τ ((a.annotationOf n).atTime (a.routeOf n) 0))
      (fun m => ⟨a.symbolicValues m, .text n, .base (m.observe (a.routeOf n))⟩) := by
  obtain ⟨same, hsame, h⟩ := bind_eq_ok.1 h
  obtain ⟨claim, hclaim, h⟩ := bind_eq_ok.1 h
  obtain ⟨q, hq, h⟩ := bind_eq_ok.1 h
  cases h
  have hty : (a.routeOf n).ty = (a.network.initialOf n).ty := (a.network.initial_ty n hn).symm
  rw [condition_equal hty] at hsame
  cases hsame
  refine ⟨rfl, rfl, fun τ => ?_, rfl⟩
  rw [a.query_holds_iff hq, Term.holds_implies, Classical.not_imp, Term.holds_eq,
    ← failsAt_iff hclaim]
  simp only [List.not_mem_nil, false_imp_iff, implies_true, true_and]
  rfl

theorem inductiveObligation_spec (h : a.inductiveObligation n = .ok o) :
    ∃ x, a.network.update n (a.network.unknownRoutes "route") = .ok x ∧
      IsObligation o (some n) .step
        (fun τ => a.Allows τ ∧ (¬ (Term.le time.term (.int 0)).holds τ ∧
          ∀ p ∈ a.network.topology.predecessors n,
            HoldsAt τ ((a.annotationOf p).applyTo (a.routeOf p)
              ⟨.sub time.term (.int 1), .int⟩)) ∧
          FailsAt τ ((a.annotationOf n).applyTo x time))
        (fun m => ⟨a.symbolicValues m, .text n, .step (m.observe x)
          ((a.network.topology.predecessors n).map fun p => (p, m.observe (a.routeOf p)))
          (.int m.time)⟩) := by
  obtain ⟨preds, hpreds, h⟩ := bind_eq_ok.1 h
  obtain ⟨x, hx, h⟩ := bind_eq_ok.1 h
  obtain ⟨assumed, hassumed, h⟩ := bind_eq_ok.1 h
  obtain ⟨claim, hclaim, h⟩ := bind_eq_ok.1 h
  obtain ⟨q, hq, h⟩ := bind_eq_ok.1 h
  cases h
  obtain ⟨-, rfl⟩ := Topology.neighbors_eq_ok_iff.1 (mapError_eq_ok.1 hpreds)
  refine ⟨x, hx, rfl, rfl, fun τ => ?_, rfl⟩
  rw [a.query_holds_iff hq, Term.holds_implies, Classical.not_imp, ← failsAt_iff hclaim,
    Term.holds_conj, List.forall_mem_cons, Term.holds_not, conditions_hold_iff hassumed]
  simp only [List.not_mem_nil, false_imp_iff, implies_true, true_and]

theorem safetyObligation_spec (h : a.safetyObligation n = .ok o) :
    IsObligation o (some n) .safety
      (fun τ => a.Allows τ ∧ (Term.le (.int 0) time.term).holds τ ∧
        HoldsAt τ ((a.annotationOf n).applyTo (a.routeOf n) time) ∧
        FailsAt τ ((a.modularOf n).applyTo (a.routeOf n) time))
      (fun m => ⟨a.symbolicValues m, .text n,
        .safety (m.observe (a.routeOf n)) (.int m.time)⟩) := by
  obtain ⟨inv, hinv, h⟩ := bind_eq_ok.1 h
  obtain ⟨property, hproperty, h⟩ := bind_eq_ok.1 h
  obtain ⟨q, hq, h⟩ := bind_eq_ok.1 h
  cases h
  refine ⟨rfl, rfl, fun τ => ?_, rfl⟩
  rw [a.query_holds_iff hq, Term.holds_implies, Classical.not_imp, ← holdsAt_iff hinv,
    ← failsAt_iff hproperty]
  simp only [List.mem_singleton, forall_eq]

/-- The condition that a node's route is equal to its update. -/
theorem stable_hold_iff {ns : List String} {ts : List Term} {rs : List (String × Typed)}
    (h : ns.mapM (fun n => do
      condition (Typed.equal (a.routeOf n) (← a.network.update n rs))) = .ok ts) :
    (∀ t ∈ ts, t.holds σ) ↔ ∀ n ∈ ns, ∃ x, a.network.update n rs = .ok x ∧
      HoldsAt σ (Typed.equal (a.routeOf n) x) := by
  rw [mapM_eq_ok] at h
  induction h with
  | nil => simp
  | cons ht _ ih =>
    obtain ⟨x, hx, ht⟩ := bind_eq_ok.1 ht
    rw [List.forall_mem_cons, List.forall_mem_cons, ih, ← holdsAt_iff ht, hx]
    simp

theorem monolithicObligation_spec (h : a.monolithicObligation = .ok o) :
    IsObligation o none .monolithic
      (fun τ => a.Allows τ ∧
        (∀ n ∈ a.network.topology.nodes, ∃ x,
          a.network.update n (a.network.unknownRoutes "route") = .ok x ∧
            HoldsAt τ (Typed.equal (a.routeOf n) x)) ∧
        ∃ n ∈ a.network.topology.nodes, FailsAt τ ((a.monolithicOf n).applyTo (a.routeOf n)))
      (fun m => ⟨a.symbolicValues m, .null,
        .monolithic (a.network.topology.nodes.map fun n => (n, m.observe (a.routeOf n)))⟩) := by
  obtain ⟨stable, hstable, h⟩ := bind_eq_ok.1 h
  obtain ⟨claims, hclaims, h⟩ := bind_eq_ok.1 h
  obtain ⟨q, hq, h⟩ := bind_eq_ok.1 h
  cases h
  refine ⟨rfl, rfl, fun τ => ?_, rfl⟩
  rw [a.query_holds_iff hq, Term.holds_conj, conditions_fail_iff hclaims,
    a.stable_hold_iff hstable]

/-! The parts of an obligation's query are conditions. -/

theorem isFormed_constraints {claim q : Term} {assumptions : List Term}
    (h : a.query assumptions claim = .ok q) : IsFormed a.network.constraints := by
  obtain ⟨scope, hscope, -⟩ := bind_eq_ok.1 h
  exact ⟨scope, hscope⟩

theorem baseObligation_isFormed (h : a.baseObligation n = .ok o) :
    IsFormed a.network.constraints ∧ IsFormed ((a.annotationOf n).atTime (a.routeOf n) 0) := by
  obtain ⟨_, -, h⟩ := bind_eq_ok.1 h
  obtain ⟨claim, hclaim, h⟩ := bind_eq_ok.1 h
  obtain ⟨q, hq, -⟩ := bind_eq_ok.1 h
  exact ⟨a.isFormed_constraints hq, claim, hclaim⟩

theorem inductiveObligation_isFormed (h : a.inductiveObligation n = .ok o) :
    ∃ x, a.network.update n (a.network.unknownRoutes "route") = .ok x ∧
      IsFormed ((a.annotationOf n).applyTo x time) := by
  obtain ⟨_, -, h⟩ := bind_eq_ok.1 h
  obtain ⟨x, hx, h⟩ := bind_eq_ok.1 h
  obtain ⟨_, -, h⟩ := bind_eq_ok.1 h
  obtain ⟨claim, hclaim, -⟩ := bind_eq_ok.1 h
  exact ⟨x, hx, claim, hclaim⟩

theorem safetyObligation_isFormed (h : a.safetyObligation n = .ok o) :
    IsFormed ((a.modularOf n).applyTo (a.routeOf n) time) := by
  obtain ⟨_, -, h⟩ := bind_eq_ok.1 h
  obtain ⟨property, hproperty, -⟩ := bind_eq_ok.1 h
  exact ⟨property, hproperty⟩

/-! ### Exactness -/

/-- An assignment extends the symbolic values of another one by routes and a time. -/
structure Extends (σ : Assignment) (ρ : String → Value) (t : Int) (τ : Assignment) : Prop where
  agree : Term.AgreeOn Variable.IsSymbolic τ σ
  areRoutes : a.AreRoutes ρ
  routes : ∀ n ∈ a.network.topology.nodes, τ.value (a.network.routeVar n) = ρ n
  time : τ.value .time = .int t

/-- The routes that an assignment gives to the nodes. -/
def routesOf (τ : Assignment) (n : String) : Value := τ.value (a.network.routeVar n)

theorem extends_self (hτ : τ.WellSorted) :
    a.Extends τ (a.routesOf τ) (Model.ofAssignment τ).time τ where
  agree := .refl _ τ
  areRoutes n hn := hτ.value (a.network.routeVar n) (a.network.declared_routeTy n hn)
  routes _ _ := rfl
  time := value_time hτ

theorem extends_withRoutes {ρ : String → Value} (hρ : a.AreRoutes ρ) :
    a.Extends σ ρ t (σ.withRoutes a.network ρ t) where
  agree := Assignment.agreeOn_withRoutes.symm
  areRoutes := hρ
  routes _ hn := Assignment.withRoutes_routeVar hn
  time := rfl

theorem areRoutes_initial (hσ : σ.WellSorted) :
    a.AreRoutes fun n => (a.network.initialOf n).term.eval σ [] := by
  intro n hn
  have hty : (a.network.initialOf n).ty = a.network.routeTy := a.network.initial_ty n hn
  exact hty ▸ (Network.isClosed_initialOf hn).eval_fits (hty ▸ a.network.declared_routeTy n hn) hσ

namespace Extends

variable {a} {ρ : String → Value} (h : a.Extends σ ρ t τ)
include h

theorem matches_route (hn : n ∈ a.network.topology.nodes) :
    Typed.Matches τ σ (a.routeOf n) (a.network.route (ρ n)) :=
  matches_unknownRoute hn (isClosed_route hn (h.areRoutes n hn)) rfl (h.routes n hn)

theorem matches_initial (hn : n ∈ a.network.topology.nodes)
    (hv : ρ n = (a.network.initialOf n).term.eval σ []) :
    Typed.Matches τ σ (a.routeOf n) (a.network.initialOf n) :=
  matches_unknownRoute hn (Network.isClosed_initialOf hn) (a.network.initial_ty n hn)
    ((h.routes n hn).trans hv)

theorem routesAt (hn : n ∈ a.network.topology.nodes) :
    RoutesAt (Typed.Matches τ σ) (a.network.unknownRoutes "route") (a.network.routes ρ) n :=
  ⟨_, _, get?_mapNodes hn, get?_mapNodes hn, h.matches_route hn⟩

theorem update {x : Typed}
    (hx : a.network.update n (a.network.unknownRoutes "route") = .ok x) :
    ∃ y, a.network.update n (a.network.routes ρ) = .ok y ∧ Typed.Matches τ σ x y :=
  Network.update_matches h.agree
    (fun _ hp => h.routesAt (Topology.mem_nodes_of_mem_predecessors hp)) hx

theorem update_unknown {y : Typed}
    (hy : a.network.update n (a.network.routes ρ) = .ok y) :
    ∃ x, a.network.update n (a.network.unknownRoutes "route") = .ok x ∧ Typed.Matches τ σ x y := by
  obtain ⟨x, hx, hyx⟩ := Network.update_matches h.agree.symm (fun p hp =>
    have hp := Topology.mem_nodes_of_mem_predecessors hp
    ⟨_, _, get?_mapNodes hp, get?_mapNodes hp, (h.matches_route hp).symm⟩) hy
  exact ⟨x, hx, hyx.symm⟩

theorem allows_iff : a.Allows τ ↔ a.Allows σ := (sameResult_elaborate h.agree _).holdsAt_iff

/-- An invariant of a route, at terms for the route and the time and at their values. -/
theorem sameResult_atTime (inv : Invariant) {x y time : Typed} {k : Int}
    (hxy : Typed.Matches τ σ x y) (hk : Typed.Matches τ σ time ⟨.int k, .int⟩) :
    SameResult τ σ (inv.applyTo x time) (inv.atTime y k) :=
  sameResult_appliedTo₂ h.agree hxy hk

theorem positive_iff : ¬ (Term.le AnnotatedNetwork.time.term (.int 0)).holds τ ↔ 0 < t := by
  simp [Term.holds, Term.eval, AnnotatedNetwork.time, Term.int, h.time, Value.le]

theorem nonneg_iff : (Term.le (.int 0) AnnotatedNetwork.time.term).holds τ ↔ 0 ≤ t := by
  simp [Term.holds, Term.eval, AnnotatedNetwork.time, Term.int, h.time, Value.le]

end Extends

/-- The query of an obligation asks for routes and a time at which there is a violation. -/
def AsksFor (o : Obligation) (violation : Assignment → (String → Value) → Int → Prop) : Prop :=
  ∀ ⦃σ ρ t τ⦄, a.Extends σ ρ t τ → (o.query.holds τ ↔ a.Allows σ ∧ violation σ ρ t)

variable {a}

theorem AsksFor.hasModel_iff {violation : Assignment → (String → Value) → Int → Prop}
    (h : a.AsksFor o violation) (hσ : σ.WellSorted) :
    o.query.HasModel σ ↔ a.Allows σ ∧ ∃ ρ t, a.AreRoutes ρ ∧ violation σ ρ t := by
  constructor
  · rintro ⟨τ, hτ, hστ, hq⟩
    have hself := a.extends_self hτ
    obtain ⟨hallows, hviolation⟩ :=
      (h { hself with agree := hστ.symm }).1 hq
    exact ⟨hallows, _, _, hself.areRoutes, hviolation⟩
  · rintro ⟨hallows, ρ, t, hρ, hviolation⟩
    exact ⟨_, hσ.withRoutes hρ, Assignment.agreeOn_withRoutes,
      (h (a.extends_withRoutes hρ)).2 ⟨hallows, hviolation⟩⟩

theorem baseObligation_asksFor (hn : n ∈ a.network.topology.nodes)
    (h : a.baseObligation n = .ok o) :
    a.AsksFor o fun σ ρ _ =>
      ρ n = (a.network.initialOf n).term.eval σ [] ∧ a.BaseViolation σ n := by
  intro σ ρ t τ he
  have hinitial : Typed.Matches τ σ (a.network.initialOf n) (a.network.initialOf n) :=
    (Network.isDefined_initialOf hn).matches he.agree
  rw [(a.baseObligation_spec hn h).query τ, he.allows_iff, he.routes n hn, hinitial.eval]
  refine and_congr_right fun _ => and_congr_right fun hv => ?_
  exact (he.sameResult_atTime _ (he.matches_initial hn hv) (matches_int 0)).failsAt_iff

theorem inductiveObligation_asksFor (h : a.inductiveObligation n = .ok o) :
    a.AsksFor o fun σ ρ t => a.StepViolation σ n ρ t := by
  intro σ ρ t τ he
  obtain ⟨x, hx, hspec⟩ := a.inductiveObligation_spec h
  obtain ⟨y, hy, hxy⟩ := he.update hx
  have hearlier : ∀ p ∈ a.network.topology.predecessors n,
      (HoldsAt τ ((a.annotationOf p).applyTo (a.routeOf p) ⟨.sub time.term (.int 1), .int⟩) ↔
        HoldsAt σ ((a.annotationOf p).atTime (a.network.route (ρ p)) (t - 1))) := fun p hp =>
    (he.sameResult_atTime _ (he.matches_route (Topology.mem_nodes_of_mem_predecessors hp))
      (matches_earlier he.time)).holdsAt_iff
  have hlater : FailsAt τ ((a.annotationOf n).applyTo x time) ↔
      FailsAt σ ((a.annotationOf n).atTime y t) :=
    (he.sameResult_atTime _ hxy (matches_time he.time)).failsAt_iff
  rw [hspec.query τ, he.allows_iff, he.positive_iff, forall₂_congr hearlier, hlater]
  refine and_congr_right fun _ => ⟨fun ⟨⟨ht, hp⟩, hl⟩ => ⟨ht, hp, y, hy, hl⟩, ?_⟩
  rintro ⟨ht, hp, y', hy', hl⟩
  rw [hy] at hy'
  cases hy'
  exact ⟨⟨ht, hp⟩, hl⟩

theorem safetyObligation_asksFor (hn : n ∈ a.network.topology.nodes)
    (h : a.safetyObligation n = .ok o) :
    a.AsksFor o fun σ ρ t => a.SafetyViolation σ n (ρ n) t := by
  intro σ ρ t τ he
  have hsame (inv : Invariant) := he.sameResult_atTime inv (he.matches_route hn)
    (matches_time he.time)
  rw [(a.safetyObligation_spec h).query τ, he.allows_iff, he.nonneg_iff, (hsame _).holdsAt_iff,
    (hsame _).failsAt_iff]
  exact and_congr_right fun _ =>
    ⟨fun ⟨h₁, h₂, h₃⟩ => ⟨h₁, h₂, h₃⟩, fun ⟨h₁, h₂, h₃⟩ => ⟨h₁, h₂, h₃⟩⟩

theorem monolithicObligation_asksFor (h : a.monolithicObligation = .ok o) :
    a.AsksFor o fun σ ρ _ => a.StableViolation σ ρ := by
  intro σ ρ t τ he
  have hstable : ∀ n ∈ a.network.topology.nodes,
      ((∃ x, a.network.update n (a.network.unknownRoutes "route") = .ok x ∧
          HoldsAt τ (Typed.equal (a.routeOf n) x)) ↔
        ∃ y, a.network.update n (a.network.routes ρ) = .ok y ∧
          HoldsAt σ (Typed.equal (a.network.route (ρ n)) y)) := by
    intro n hn
    constructor
    · rintro ⟨x, hx, hold⟩
      obtain ⟨y, hy, hxy⟩ := he.update hx
      exact ⟨y, hy, (sameResult_equal (he.matches_route hn) hxy).holdsAt hold⟩
    · rintro ⟨y, hy, hold⟩
      obtain ⟨x, hx, hxy⟩ := he.update_unknown hy
      exact ⟨x, hx, (sameResult_equal (he.matches_route hn) hxy).symm.holdsAt hold⟩
  have hproperty : ∀ n ∈ a.network.topology.nodes,
      (FailsAt τ ((a.monolithicOf n).applyTo (a.routeOf n)) ↔
        FailsAt σ ((a.monolithicOf n).applyTo (a.network.route (ρ n)))) := fun n hn =>
    (sameResult_appliedTo he.agree (he.matches_route hn)).failsAt_iff
  rw [(a.monolithicObligation_spec h).query τ, he.allows_iff, forall₂_congr hstable]
  refine and_congr_right fun _ => ?_
  rw [exists_congr fun n => and_congr_right (hproperty n)]
  exact ⟨fun ⟨h₁, h₂⟩ => ⟨h₁, h₂⟩, fun ⟨h₁, h₂⟩ => ⟨h₁, h₂⟩⟩

theorem baseObligation_hasModel_iff (hn : n ∈ a.network.topology.nodes)
    (h : a.baseObligation n = .ok o) (hσ : σ.WellSorted) :
    o.query.HasModel σ ↔ a.Allows σ ∧ a.BaseViolation σ n := by
  rw [(baseObligation_asksFor hn h).hasModel_iff hσ]
  refine and_congr_right fun _ => ⟨fun ⟨_, _, _, _, hv⟩ => hv, fun hv => ?_⟩
  exact ⟨_, 0, a.areRoutes_initial hσ, rfl, hv⟩

theorem safetyObligation_hasModel_iff (hn : n ∈ a.network.topology.nodes)
    (h : a.safetyObligation n = .ok o) (hσ : σ.WellSorted) :
    o.query.HasModel σ ↔
      a.Allows σ ∧ ∃ v t, v.fits a.network.routeTy = true ∧ a.SafetyViolation σ n v t := by
  rw [(safetyObligation_asksFor hn h).hasModel_iff hσ]
  refine and_congr_right fun _ => ⟨?_, ?_⟩
  · exact fun ⟨ρ, t, hρ, hv⟩ => ⟨ρ n, t, hρ n hn, hv⟩
  · exact fun ⟨v, t, hfits, hv⟩ => ⟨fun _ => v, t, fun _ _ => hfits, hv⟩

/-! ### Witnesses -/

variable (a) in
/-- The values of the symbolic values, as they are shown. -/
def shownSymbolics (τ : Assignment) : Named :=
  a.network.symbolics.map fun s => (s.name, (τ.value s.unknown).toDatum s.ty)

variable (a) in
/-- The value of a node's route, as it is shown. -/
def shownRoute (τ : Assignment) (n : String) : Datum :=
  (a.routesOf τ n).toDatum a.network.routeTy

theorem baseObligation_witness (hn : n ∈ a.network.topology.nodes)
    (h : a.baseObligation n = .ok o) (hτ : τ.WellSorted) (hq : o.query.holds τ) :
    o.witness (.ofAssignment τ) = ⟨a.shownSymbolics τ, .text n,
      .base (((a.network.initialOf n).term.eval τ []).toDatum a.network.routeTy)⟩ := by
  obtain ⟨-, hv, -⟩ := (baseObligation_asksFor hn h (a.extends_self hτ)).1 hq
  rw [(a.baseObligation_spec hn h).witness, ← hv]
  rfl

theorem inductiveObligation_witness (h : a.inductiveObligation n = .ok o) (hτ : τ.WellSorted) :
    ∃ y, a.network.update n (a.network.routes (a.routesOf τ)) = .ok y ∧
      o.witness (.ofAssignment τ) = ⟨a.shownSymbolics τ, .text n,
        .step ((y.term.eval τ []).toDatum y.ty)
          ((a.network.topology.predecessors n).map fun p => (p, a.shownRoute τ p))
          (.int (Model.ofAssignment τ).time)⟩ := by
  obtain ⟨x, hx, hspec⟩ := a.inductiveObligation_spec h
  obtain ⟨y, hy, hxy⟩ := (a.extends_self hτ).update hx
  refine ⟨y, hy, ?_⟩
  rw [hspec.witness]
  dsimp only
  rw [hxy.observe]
  rfl

end AnnotatedNetwork

/-! ### The main statement, and a node that sends its route to itself -/

/-- A node that sends its route to itself. -/
def Network.selfLoop (transfer : Transfer) (start : Typed) (hstart : start.IsDefined)
    (hd : start.ty.isDeclared = true) : Network where
  topology := ⟨[("A", ["A"])], by decide, by decide, by decide⟩
  transfer := [(⟨"A", "A"⟩, transfer)]
  merge := .first
  initial := ⟨[("A", start)], by simp [Entries.keys], by simpa using hstart⟩
  symbolics := []
  routeTy := start.ty
  origination := .initialOnly
  failureBounds := []
  transfer_keys := by simp [Entries.keys, Topology.edges]
  initial_keys := by simp [Entries.keys, Topology.nodes]
  nodup_symbolics := List.nodup_nil
  initial_ty := by simp [Entries.keys, Topology.nodes, InitialRoutes.get, Entries.get?]
  declared_routeTy := fun _ _ => hd

namespace AnnotatedNetwork

/-- A node that counts the rounds, under an invariant. -/
def counter (inv : Invariant) : AnnotatedNetwork where
  network := .selfLoop (.incr 1) ⟨.const (.int 0), .int⟩ ⟨.int 0, rfl⟩ rfl
  annotations := [("A", inv)]
  modularProperties := [("A", inv)]
  monolithicProperties := [("A", .always)]

end AnnotatedNetwork

end RouteInvariants
