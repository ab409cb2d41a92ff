import Mathlib.Tactic.Lift
import RouteInvariants.Proofs.FailedEdges
import RouteInvariants.Proofs.LabelledGraphs

/-!
Which definitions are accepted. A network is built where its transfer functions are those of the
edges, its initial routes those of the nodes and all of one sort, and its symbolic values have
different names (`define_eq_error_iff`). Failures can be put around it where the bound lies between
zero and the number of edges, routes are optional and no symbolic value has the name of a failure
(`withFailures_eq_error_iff`).
-/

namespace RouteInvariants

namespace InitialRoutes

variable {es : List (String × Expr)} {routes : InitialRoutes}

theorem keys_terms {rs : { rs : List (String × Typed) // ∀ r ∈ rs, r.2.IsDefined }}
    (h : terms es = .ok rs) : Entries.keys rs.1 = es.map Prod.fst := by
  induction es generalizing rs with
  | nil =>
    cases h
    rfl
  | cons e es ih =>
    obtain ⟨name, e⟩ := e
    rw [terms] at h
    split at h
    · cases h
    · obtain ⟨rs', hrs', h⟩ := bind_eq_ok.1 h
      cases h
      exact congrArg (name :: ·) (ih hrs')

/-- Initial routes stand in the order in which their nodes are first given. -/
theorem keys_ofExprs (h : ofExprs es = .ok routes) :
    Entries.keys routes.entries = firstOccurrences (es.map Prod.fst) := by
  obtain ⟨rs, hrs, h⟩ := bind_eq_ok.1 h
  cases h
  rw [Entries.keys_ofList, keys_terms hrs]

/-- The sort of an initial route is declared unless it is a plain truth value. -/
theorem isDeclared_get (hplain : routes.anyPlain = false) {n : String}
    (hn : n ∈ Entries.keys routes.entries) : (routes.get n).ty.isDeclared = true := by
  obtain ⟨r, hr⟩ := Entries.exists_get? hn
  have hmem := Entries.mem_of_get? hr
  have hget : routes.get n = r := by rw [get, hr, Option.getD_some]
  have hty : r.ty ≠ .truth := by
    intro hty
    have hany := List.any_eq_false.1 hplain (n, r) hmem
    simp [hty] at hany
  have hdeclared := (routes.defined (n, r) hmem).isClosed.isDeclared
  rw [hget]
  rwa [Ty.termTy_eq_of_ne hty] at hdeclared

end InitialRoutes

namespace Network

variable {topology : Topology} {transfer : List (Edge × Transfer)} {merge : Merge}
  {routes : InitialRoutes} {symbolics : List Symbolic} {given : Option Ty}
  {origination : Origination} {bounds : List Nat}

/-- The route sort of a definition: the one that is given, or else that of the first node. -/
def routeSort? (topology : Topology) (routes : InitialRoutes) (given : Option Ty) : Option Ty :=
  given.or (topology.nodes.head?.map fun n => (routes.get n).ty)

theorem routeSort?_eq_none_iff :
    routeSort? topology routes given = none ↔ given = none ∧ topology.nodes = [] := by
  rw [routeSort?, Option.or_eq_none_iff, Option.map_eq_none_iff, List.head?_eq_none_iff]

/-- A definition is checked against its route sort, whether that is given or not. -/
theorem build_eq_build_some {ty : Ty} (h : routeSort? topology routes given = some ty) :
    build topology transfer merge routes symbolics given origination bounds =
      build topology transfer merge routes symbolics (some ty) origination bounds := by
  cases given with
  | some t =>
    cases h
    rfl
  | none =>
    obtain ⟨n, hn, rfl⟩ := Option.map_eq_some_iff.1 h
    obtain ⟨ns, hns⟩ := List.head?_eq_some_iff.1 hn
    unfold build
    split
    · rfl
    · rfl
    · rfl
    · dsimp only
      split
      · rename_i hsome
        cases hsome
      · rename_i m ms hm
        cases hns.symm.trans hm
        rfl
      · rename_i hm
        cases hns.symm.trans hm

/-- Without a node the route sort has to be given. -/
theorem build_ne_ok (h : routeSort? topology routes given = none) {net : Network} :
    build topology transfer merge routes symbolics given origination bounds ≠ .ok net := by
  obtain ⟨rfl, hnodes⟩ := routeSort?_eq_none_iff.1 h
  intro h
  unfold build at h
  split at h
  · cases h
  · cases h
  · cases h
  · dsimp only at h
    split at h
    · rename_i hsome
      cases hsome
    · rename_i hm
      cases hnodes.symm.trans hm
    · cases h

/-- A definition is accepted where its parts fit each other. -/
theorem build_eq_ok_iff :
    (∃ net, build topology transfer merge routes symbolics given origination bounds = .ok net) ↔
      (∀ e, e ∈ Entries.keys transfer ↔ e ∈ topology.edges) ∧
      (∀ n, n ∈ Entries.keys routes.entries ↔ n ∈ topology.nodes) ∧
      (symbolics.map Symbolic.name).Nodup ∧
      ∃ ty, routeSort? topology routes given = some ty ∧
        ∀ n ∈ topology.nodes, (routes.get n).ty = ty ∧ ty.isDeclared = true := by
  cases hsort : routeSort? topology routes given with
  | none =>
    refine ⟨fun ⟨_, h⟩ => absurd h (build_ne_ok hsort), ?_⟩
    rintro ⟨-, -, -, _, h, -⟩
    cases h
  | some ty =>
    rw [build_eq_build_some hsort]
    constructor
    · rintro ⟨net, h⟩
      obtain ⟨rfl, rfl, -, rfl, rfl, rfl, -⟩ := build_spec h
      exact ⟨net.transfer_keys, net.initial_keys, net.nodup_symbolics, net.routeTy, rfl,
        fun n hn => ⟨net.initial_ty n hn, net.declared_routeTy n hn⟩⟩
    · rintro ⟨htransfer, hinitial, hnames, _, ⟨⟩, hroutes⟩
      exact ⟨_, build_parts { topology, transfer, merge, symbolics, origination
                              initial := routes
                              routeTy := ty
                              failureBounds := bounds
                              transfer_keys := htransfer
                              initial_keys := hinitial
                              nodup_symbolics := hnames
                              initial_ty := fun n hn => (hroutes n hn).1
                              declared_routeTy := fun n hn => (hroutes n hn).2 }⟩

/-! ### Descriptions -/

theorem exists_mapError_eq_error_iff {ε ε' α : Type} {f : ε → ε'} {x : Except ε α} :
    (∃ e, x.mapError f = .error (f e)) ↔ ¬∃ a, x.mapError f = .ok a := by
  cases x with
  | error e => simp [Except.mapError]
  | ok a => simp [Except.mapError]

section Descriptions

variable {sends : List (Edge × Transfer)} {starts : List (String × Expr)}

/-- Where initial routes are terms, all that can go wrong is the definition. -/
theorem define_eq (hroutes : InitialRoutes.ofExprs starts = .ok routes)
    (hplain : routes.anyPlain = false) :
    define topology sends merge starts symbolics given origination =
      (build topology (Entries.ofList sends) merge routes symbolics given origination []).mapError
        .definition := by
  unfold define
  rw [hroutes]
  dsimp only [Except.mapError, bind, Except.bind]
  split
  · rename_i h
    rw [h, hplain]
    rfl
  · rename_i h
    rw [h]
    rfl
  · rename_i h
    rw [h]
    rfl

/-- A description is accepted where its transfer functions are those of the edges, its initial
routes those of the nodes and of the route sort, and its symbolic values have different names. -/
theorem exists_define_iff (hroutes : InitialRoutes.ofExprs starts = .ok routes)
    (hplain : routes.anyPlain = false) :
    (∃ net, define topology sends merge starts symbolics given origination = .ok net) ↔
      (∀ e, e ∈ sends.map Prod.fst ↔ e ∈ topology.edges) ∧
      (∀ n, n ∈ starts.map Prod.fst ↔ n ∈ topology.nodes) ∧
      (symbolics.map Symbolic.name).Nodup ∧
      ∃ ty, routeSort? topology routes given = some ty ∧
        ∀ n ∈ topology.nodes, (routes.get n).ty = ty := by
  have hsends : Entries.keys (Entries.ofList sends) = firstOccurrences (sends.map Prod.fst) :=
    Entries.keys_ofList sends
  simp only [define_eq hroutes hplain, mapError_eq_ok, build_eq_ok_iff, hsends,
    InitialRoutes.keys_ofExprs hroutes, mem_firstOccurrences]
  refine and_congr_right fun _ => and_congr_right fun hstarts => and_congr_right fun _ =>
    exists_congr fun ty => and_congr_right fun _ => forall₂_congr fun n hn => ?_
  refine and_iff_left_of_imp fun hty => hty ▸ InitialRoutes.isDeclared_get hplain ?_
  rw [InitialRoutes.keys_ofExprs hroutes, mem_firstOccurrences]
  exact (hstarts n).2 hn

theorem define_eq_error_iff (hroutes : InitialRoutes.ofExprs starts = .ok routes)
    (hplain : routes.anyPlain = false) :
    (∃ e, define topology sends merge starts symbolics given origination =
        .error (.definition e)) ↔
      ¬(∀ e, e ∈ sends.map Prod.fst ↔ e ∈ topology.edges) ∨
      ¬(∀ n, n ∈ starts.map Prod.fst ↔ n ∈ topology.nodes) ∨
      ¬(symbolics.map Symbolic.name).Nodup ∨
      (given = none ∧ topology.nodes = []) ∨
      ∃ ty, routeSort? topology routes given = some ty ∧
        ∃ n ∈ topology.nodes, (routes.get n).ty ≠ ty := by
  have herror : (∃ e, define topology sends merge starts symbolics given origination =
      .error (.definition e)) ↔
        ¬∃ net, define topology sends merge starts symbolics given origination = .ok net := by
    rw [define_eq hroutes hplain]
    exact exists_mapError_eq_error_iff
  rw [herror, exists_define_iff hroutes hplain, ← routeSort?_eq_none_iff]
  cases routeSort? topology routes given <;> simp [imp_iff_not_or]

/-- An accepted network has the topology and the initial routes of its description. -/
theorem define_spec {net : Network} (hroutes : InitialRoutes.ofExprs starts = .ok routes)
    (hplain : routes.anyPlain = false)
    (h : define topology sends merge starts symbolics given origination = .ok net) :
    net.topology = topology ∧ net.initial = routes := by
  rw [define_eq hroutes hplain, mapError_eq_ok] at h
  cases hsort : routeSort? topology routes given with
  | none => exact absurd h (build_ne_ok hsort)
  | some ty =>
    rw [build_eq_build_some hsort] at h
    obtain ⟨htopology, -, -, hinitial, -⟩ := build_spec h
    exact ⟨htopology, hinitial⟩

end Descriptions

/-! ### Failures -/

variable {net : Network} {bound : Int}

/-- The names of symbolic values and of failures are different unless one has a failure's name. -/
theorem nodup_names_append_iff {edges : List Edge} {k : Nat} :
    ((net.symbolics ++ failureSymbolics edges k).map Symbolic.name).Nodup ↔
      ∀ i < k, ∀ s ∈ net.symbolics, s.name ≠ "failed-edge-" ++ toString i := by
  rw [List.map_append, List.nodup_append]
  constructor
  · rintro ⟨-, -, hdisjoint⟩ i hi s hs
    exact hdisjoint _ (List.mem_map_of_mem hs) _
      (List.mem_map_of_mem (List.mem_map_of_mem (List.mem_range.2 hi)))
  · intro h
    refine ⟨net.nodup_symbolics, nodup_names_failureSymbolics edges k, ?_⟩
    simp only [failureSymbolics, List.mem_map, List.mem_range]
    rintro _ ⟨s, hs, rfl⟩ _ ⟨_, ⟨i, hi, rfl⟩, rfl⟩
    exact h i hi s hs

theorem exists_withFailures_iff :
    (∃ ft, net.withFailures bound = .ok ft) ↔
      0 ≤ bound ∧ bound ≤ net.topology.edgeCount ∧ net.routeTy.isOption = true ∧
        ∀ i : Nat, (i : Int) < bound → ∀ s ∈ net.symbolics,
          s.name ≠ "failed-edge-" ++ toString i := by
  constructor
  · rintro ⟨ft, h⟩
    have hbound : 0 ≤ bound := by
      by_contra hneg
      have herror : net.withFailures bound =
          .error (.failureBound net.topology.edgeCount bound) := if_pos (by simp; omega)
      cases herror.symm.trans h
    lift bound to Nat using hbound
    obtain ⟨hk, hnames, -⟩ := eq_failing_of_withFailures h
    refine ⟨Int.natCast_nonneg bound, by exact_mod_cast hk, (withFailures_spec h).option, ?_⟩
    exact fun i hi => nodup_names_append_iff.1 hnames i (by exact_mod_cast hi)
  · rintro ⟨hbound, hk, hoption, hnames⟩
    lift bound to Nat using hbound
    refine ⟨_, withFailures_eq_ok (by exact_mod_cast hk) hoption
      (nodup_names_append_iff.2 fun i hi => hnames i (by exact_mod_cast hi))⟩

/-- Failures are refused for a bound out of range, for routes that cannot be absent, and where a
symbolic value has the name of a failure. -/
theorem withFailures_eq_error_iff :
    (∃ e, net.withFailures bound = .error e) ↔
      bound < 0 ∨ (net.topology.edgeCount : Int) < bound ∨ net.routeTy.isOption = false ∨
        ∃ i : Nat, (i : Int) < bound ∧
          ∃ s ∈ net.symbolics, s.name = "failed-edge-" ++ toString i := by
  have herror : (∃ e, net.withFailures bound = .error e) ↔
      ¬∃ ft, net.withFailures bound = .ok ft := by
    cases net.withFailures bound <;> simp
  rw [herror, exists_withFailures_iff]
  simp only [not_and_or, not_le, not_forall, not_not, Bool.not_eq_true, exists_prop]

/-- Failures are put around a network, any number of times. -/
inductive Wraps (base : Network) : Network → Prop
  | refl : Wraps base base
  | failures {net ft : Network} {bound : Int} (h : Wraps base net)
      (hft : net.withFailures bound = .ok ft) : Wraps base ft

theorem Wraps.same_parts {base : Network} (h : Wraps base net) :
    net.topology = base.topology ∧ net.initial = base.initial := by
  induction h with
  | refl => exact ⟨rfl, rfl⟩
  | failures _ hft ih =>
    have hvariant := (withFailures_spec hft).variant
    exact ⟨hvariant.topology.trans ih.1, hvariant.initial.trans ih.2⟩

end Network

end RouteInvariants
