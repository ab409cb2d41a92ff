import RouteInvariants.Proofs.Verdicts

/-!
What a node's checks depend on. Two annotated networks look alike from a node (`SameAt`) where they
agree on the node, on the edges into it and on the invariants of its predecessors. The update of the
node reads nothing else (`update_congr`), and so its three obligations are the same in both networks
(`SameAt.obligation_eq`), with all their errors. The checks of the node alone then end alike. The
check of each node does so too where it has results, but it has none if an obligation of any node
cannot be formed (`checkPerNode_isOk_iff`), and that may be a node out of sight.
-/

namespace RouteInvariants

/-! ### Updates -/

namespace Network

/-- A node has the same predecessors, edges into it and initial route in two networks, which merge
and originate routes alike. -/
structure SameAt (net net' : Network) (n : String) : Prop where
  left : n ∈ net.topology.nodes
  right : n ∈ net'.topology.nodes
  routeTy : net.routeTy = net'.routeTy
  merge : net.merge = net'.merge
  origination : net.origination = net'.origination
  symbolics : net.symbolics = net'.symbolics
  predecessors : net.topology.predecessors n = net'.topology.predecessors n
  transfer : ∀ p ∈ net.topology.predecessors n, net.transferOf ⟨p, n⟩ = net'.transferOf ⟨p, n⟩
  initial : net.initialOf n = net'.initialOf n

variable {net net' : Network} {n : String} {rs rs' : List (String × Typed)}

theorem SameAt.symm (h : net.SameAt net' n) : net'.SameAt net n where
  left := h.right
  right := h.left
  routeTy := h.routeTy.symm
  merge := h.merge.symm
  origination := h.origination.symm
  symbolics := h.symbolics.symm
  predecessors := h.predecessors.symm
  transfer p hp := (h.transfer p (h.predecessors ▸ hp)).symm
  initial := h.initial.symm

theorem SameAt.mergeOffered (h : net.SameAt net' n) (xs : List Typed) :
    net.mergeOffered n (net.offered n xs) = net'.mergeOffered n (net'.offered n xs) := by
  simp only [Network.mergeOffered, Network.offered, mergeAll, h.origination, h.initial, h.merge]

/-- The update of a node reads the routes of its predecessors and nothing else. -/
theorem update_congr (h : net.SameAt net' n)
    (hrs : ∀ p ∈ net.topology.predecessors n, Entries.get? rs p = Entries.get? rs' p) :
    net.update n rs = net'.update n rs' := by
  have hincoming : (net.topology.predecessors n).mapM (net.incoming rs n) =
      (net.topology.predecessors n).mapM (net'.incoming rs' n) := by
    refine mapM_congr fun p hp => ?_
    rw [incoming, incoming, hrs p hp, h.transfer p hp]
  rw [update, update, Topology.neighbors_eq h.left, Topology.neighbors_eq h.right,
    ← h.predecessors, h.initial]
  simp only [Except.mapError, bind, Except.bind, hincoming, h.mergeOffered]

theorem SameAt.unknownRoute (h : net.SameAt net' n) (suffix : String) :
    net.unknownRoute suffix = net'.unknownRoute suffix := by
  funext p
  rw [Network.unknownRoute, Network.unknownRoute, h.routeTy]

theorem SameAt.update_unknownRoutes (h : net.SameAt net' n) (suffix : String) :
    net.update n (net.unknownRoutes suffix) = net'.update n (net'.unknownRoutes suffix) := by
  refine update_congr h fun p hp => ?_
  have hp' : p ∈ net'.topology.predecessors n := h.predecessors ▸ hp
  rw [unknownRoutes, unknownRoutes, get?_mapNodes (Topology.mem_nodes_of_mem_predecessors hp),
    get?_mapNodes (Topology.mem_nodes_of_mem_predecessors hp'), h.unknownRoute]

end Network

namespace AnnotatedNetwork

open Run Obligation

/-! ### Obligations -/

/-- Two annotated networks look alike from a node. -/
structure SameAt (a b : AnnotatedNetwork) (n : String) : Prop where
  network : a.network.SameAt b.network n
  annotation : a.annotationOf n = b.annotationOf n
  predecessors : ∀ p ∈ a.network.topology.predecessors n, a.annotationOf p = b.annotationOf p
  property : a.modularOf n = b.modularOf n

variable {a b : AnnotatedNetwork} {n : String} {oracle : Oracle} {kind : CheckKind}

theorem SameAt.symm (h : a.SameAt b n) : b.SameAt a n where
  network := h.network.symm
  annotation := h.annotation.symm
  predecessors p hp := (h.predecessors p (h.network.predecessors ▸ hp)).symm
  property := h.property.symm

theorem SameAt.routeOf (h : a.SameAt b n) : a.routeOf = b.routeOf := h.network.unknownRoute "route"

theorem SameAt.query (h : a.SameAt b n) : a.query = b.query := by
  funext assumptions claim
  rw [AnnotatedNetwork.query, AnnotatedNetwork.query, Network.constraints, Network.constraints,
    h.network.symbolics]

theorem SameAt.symbolicValues (h : a.SameAt b n) : a.symbolicValues = b.symbolicValues := by
  funext m
  rw [AnnotatedNetwork.symbolicValues, AnnotatedNetwork.symbolicValues, h.network.symbolics]

theorem SameAt.inductiveObligation (h : a.SameAt b n) :
    a.inductiveObligation n = b.inductiveObligation n := by
  have hassumed (earlier : Typed) : (a.network.topology.predecessors n).mapM (fun p =>
        condition ((a.annotationOf p).applyTo (a.routeOf p) earlier)) =
      (a.network.topology.predecessors n).mapM fun p =>
        condition ((b.annotationOf p).applyTo (a.routeOf p) earlier) := by
    refine mapM_congr fun p hp => ?_
    rw [h.predecessors p hp]
  rw [AnnotatedNetwork.inductiveObligation, AnnotatedNetwork.inductiveObligation,
    Topology.neighbors_eq h.network.left, Topology.neighbors_eq h.network.right,
    ← h.network.predecessors, h.network.update_unknownRoutes, h.annotation, h.query,
    h.symbolicValues]
  simp only [Except.mapError, bind, Except.bind, hassumed]
  rw [h.routeOf]

/-- The obligations of a node are the same in networks that look alike from it. -/
theorem SameAt.obligation_eq (h : a.SameAt b n) (hkind : kind ∈ CheckKind.modular) :
    a.obligation kind n = b.obligation kind n := by
  cases kind with
  | base =>
    simp only [obligation, baseObligation, h.routeOf, h.network.initial, h.annotation, h.query,
      h.symbolicValues]
  | step => exact h.inductiveObligation
  | safety =>
    simp only [obligation, safetyObligation, h.routeOf, h.annotation, h.property, h.query,
      h.symbolicValues]
  | monolithic => simp [CheckKind.modular] at hkind

/-! ### Checks of one node -/

/-- The kind of a counterexample, if there is one. -/
def kindOf (found : Option State) : Option CheckKind := found.map State.kind

open Classical in
/-- The check, where the query of its obligation has a solution. -/
noncomputable def failed (kind : CheckKind) (o : Obligation) : Option CheckKind :=
  if o.query.Solvable then some kind else none

variable {arrival : Arrival} {settings : CheckSettings}

/-- A check of one node ends with the error of its obligation, or else with a counterexample exactly
where the query has a solution. -/
theorem dischargeAll_some_node (hkind : kind ∈ CheckKind.modular)
    (hn : n ∈ a.network.topology.nodes)
    (h : ∀ o, a.obligation kind n = .ok o → oracle.Decides o.query) (s : Session) :
    ((dischargeAll a oracle arrival settings (a.obligation kind) (some n)).outcome s).1.map kindOf =
      (a.obligation kind n).map (failed kind) := by
  have hnodes : a.nodesOf (some n) = .ok [n] := if_pos (List.contains_iff_mem.2 hn)
  have hgives := gives_bind (gives_fetch (a.nodesOf (some n))) fun ns => gives_bind
    (gives_fetch (ns.mapM (a.obligation kind))) fun os => gives_discharge oracle arrival settings os
  rw [show (dischargeAll a oracle arrival settings (a.obligation kind) (some n)).outcome s = _ from
    hgives s]
  cases ho : a.obligation kind n with
  | error e =>
    have hos : [n].mapM (a.obligation kind) = .error e := by rw [List.mapM_cons, ho]; rfl
    simp only [followedBy, hnodes, hos, Except.map]
  | ok o =>
    have hos : [n].mapM (a.obligation kind) = .ok [o] := by rw [List.mapM_cons, ho]; rfl
    simp only [followedBy, hnodes, hos]
    rcases dischargeOutcome_decided arrival settings (List.forall_mem_singleton.2 (h o ho)) s.asked
      with ⟨hnone, hno⟩ | ⟨d, hd, σ, hσ, hq, hsome⟩
    · rw [hnone]
      simp only [Except.map, failed, if_neg (hno o (List.mem_singleton_self o)), kindOf,
        Option.map_none]
    · obtain rfl : d = o := List.mem_singleton.1 hd
      have hsolvable : d.query.Solvable := ⟨σ, hσ, hq⟩
      rw [hsome]
      simp only [Except.map, failed, if_pos hsolvable, kindOf, Option.map_some,
        (witness_of_obligation hkind hn ho _).1]

/-! ### The check of each node -/

/-- The first failure at a node depends on its obligations only. -/
theorem FirstFailure.congr {kinds : List CheckKind} {found : Option State}
    (heq : ∀ kind ∈ kinds, a.obligation kind n = b.obligation kind n)
    (h : a.FirstFailure kinds [n] found) : b.FirstFailure kinds [n] found := by
  have hpasses (kind : CheckKind) (hkind : kind ∈ kinds) :
      a.Passes kind n ↔ b.Passes kind n := by rw [Passes, Passes, heq kind hkind]
  cases found with
  | none =>
    intro kind hkind
    exact List.forall_mem_singleton.2
      ((hpasses kind hkind).1 (h kind hkind n (List.mem_singleton_self n)))
  | some st =>
    obtain ⟨hmem, ⟨m, hm, hnode, hfails⟩, hformed, hfirst⟩ := h
    obtain rfl : m = n := List.mem_singleton.1 hm
    rw [Fails, heq _ hmem] at hfails
    refine ⟨hmem, ⟨m, hm, hnode, hfails⟩, ?_, fun kind hkind hlt => ?_⟩
    · rw [List.forall_mem_singleton, ← heq _ hmem]
      exact hformed m hm
    · rw [List.forall_mem_singleton, ← hpasses kind hkind]
      exact hfirst kind hkind hlt m hm

/-- There is at most one kind of first failure. -/
theorem FirstFailure.kind_unique {kinds : List CheckKind} {found found' : Option State}
    (h : a.FirstFailure kinds [n] found) (h' : a.FirstFailure kinds [n] found') :
    kindOf found = kindOf found' := by
  have hmem := List.mem_singleton_self n
  cases found with
  | none =>
    cases found' with
    | none => rfl
    | some st' =>
      obtain ⟨hkind, ⟨m, hm, -, hfails⟩, -⟩ := h'
      exact absurd hfails (h _ hkind m hm).not_fails
  | some st =>
    cases found' with
    | none =>
      obtain ⟨hkind, ⟨m, hm, -, hfails⟩, -⟩ := h
      exact absurd hfails (h' _ hkind m hm).not_fails
    | some st' =>
      have hrank := Nat.le_antisymm (h.rank_le h' hmem) (h'.rank_le h hmem)
      exact congrArg some (CheckKind.rank_injective hrank)

theorem FirstFailure.eq_none {kinds : List CheckKind} {found : Option State}
    (h : a.FirstFailure kinds [n] found) (hpasses : ∀ kind ∈ kinds, a.Passes kind n) :
    found = none := by
  have hnone : a.FirstFailure kinds [n] none := fun kind hkind =>
    List.forall_mem_singleton.2 (hpasses kind hkind)
  exact Option.map_eq_none_iff.1 (h.kind_unique hnone)

/-- All obligations of the modular check can be formed. -/
def FormsAll (a : AnnotatedNetwork) : Prop :=
  ∀ kind ∈ CheckKind.modular, ∀ n ∈ a.network.topology.nodes, ∃ o, a.obligation kind n = .ok o

/-- The check of each node has results exactly where all obligations can be formed. -/
theorem checkPerNode_isOk_iff (h : a.DecidedBy oracle) (s : Session) :
    (∃ results, ((a.checkPerNode oracle arrival settings).outcome s).1 = .ok results) ↔
      a.FormsAll := by
  constructor
  · rintro ⟨results, hout⟩ kind hkind n hn
    -- the obligations of all nodes are formed before the first query
    rw [checkPerNode_eq] at hout
    cases hchains : a.network.topology.nodes.mapM a.chain with
    | error e =>
      rw [hchains] at hout
      cases hout
    | ok chains =>
      obtain ⟨c, -, hc⟩ := exists_mem_of_mapM hchains hn
      obtain ⟨o, -, ho⟩ := exists_right_of_forall₂ (chain_eq_ok hc).2 hkind
      exact ⟨o, ho⟩
  · intro hforms
    rcases checkPerNode_cases arrival settings h s with
      ⟨results, hout, -⟩ | ⟨kind, hkind, n, hn, e, he, -⟩
    · exact ⟨results, hout⟩
    · obtain ⟨o, ho⟩ := hforms kind hkind n hn
      rw [he] at ho
      cases ho

theorem checkPerNode_get? {results : List (String × Option State)} (h : a.DecidedBy oracle)
    (hn : n ∈ a.network.topology.nodes) {s : Session}
    (hout : ((a.checkPerNode oracle arrival settings).outcome s).1 = .ok results) :
    ∃ found, Entries.get? results n = some found ∧ a.FirstFailure CheckKind.modular [n] found := by
  rcases checkPerNode_cases arrival settings h s with
    ⟨results', hout', hkeys, hfirst⟩ | ⟨-, -, -, -, e, -, hout'⟩
  · cases hout.symm.trans hout'
    obtain ⟨found, hget⟩ := Entries.exists_get? (hkeys ▸ hn)
    exact ⟨found, hget, hfirst _ (Entries.mem_of_get? hget)⟩
  · cases hout.symm.trans hout'

theorem exists_of_checkPerNode_error {e : Failure} (h : a.DecidedBy oracle) {s : Session}
    (hout : ((a.checkPerNode oracle arrival settings).outcome s).1 = .error e) :
    ∃ kind ∈ CheckKind.modular, ∃ m ∈ a.network.topology.nodes, a.obligation kind m = .error e := by
  rcases checkPerNode_cases arrival settings h s with
    ⟨results, hout', -⟩ | ⟨kind, hkind, m, hm, e', he, hout'⟩
  · cases hout.symm.trans hout'
  · cases hout.symm.trans hout'
    exact ⟨kind, hkind, m, hm, he⟩

/-- If all obligations can be formed in one of two networks that look alike from a node, then it is
not this node whose obligation fails the check in the other. -/
theorem SameAt.checkPerNode_error {e : Failure} (h : a.SameAt b n) (hb : b.DecidedBy oracle)
    (hforms : a.FormsAll) {s : Session}
    (hout : ((b.checkPerNode oracle arrival settings).outcome s).1 = .error e) :
    ∃ kind ∈ CheckKind.modular, ∃ m ∈ b.network.topology.nodes, m ≠ n ∧
      b.obligation kind m = .error e := by
  obtain ⟨kind, hkind, m, hm, he⟩ := exists_of_checkPerNode_error hb hout
  refine ⟨kind, hkind, m, hm, ?_, he⟩
  rintro rfl
  obtain ⟨o, ho⟩ := hforms kind hkind m h.network.left
  rw [h.obligation_eq hkind, he] at ho
  cases ho

/-! ### Neighbourhoods -/

end AnnotatedNetwork

/-- A node that sends its count to itself, in its own way, and one more than that to another node. -/
def Network.feeder (own : Transfer) : Network where
  topology := ⟨[("A", ["A"]), ("B", ["A"])], by decide, by decide, by decide⟩
  transfer := [(⟨"A", "A"⟩, own), (⟨"A", "B"⟩, .incr 1)]
  merge := .first
  initial := ⟨[("A", ⟨.const (.int 0), .int⟩), ("B", ⟨.const (.int 0), .int⟩)], by decide, by
    simp only [List.mem_cons, List.not_mem_nil, or_false, forall_eq_or_imp, forall_eq]
    exact ⟨⟨.int 0, rfl⟩, .int 0, rfl⟩⟩
  symbolics := []
  routeTy := .int
  origination := .initialOnly
  failureBounds := []
  transfer_keys := fun _ => Iff.rfl
  initial_keys := fun _ => Iff.rfl
  nodup_symbolics := List.nodup_nil
  initial_ty := fun n hn => by
    rcases List.mem_cons.1 hn with rfl | hn
    · rfl
    · obtain rfl := List.mem_singleton.1 hn
      rfl
  declared_routeTy := fun _ _ => rfl

namespace AnnotatedNetwork

/-- The two nodes with their invariants, and with a property of the first one. -/
def feeder (own : Transfer) (first second property : Invariant) : AnnotatedNetwork where
  network := .feeder own
  annotations := [("A", first), ("B", second)]
  modularProperties := [("A", property), ("B", second)]
  monolithicProperties := [("A", .always), ("B", .always)]

section Feeder

variable {own own' : Transfer} {first second property property' : Invariant} {σ : Assignment}

theorem mem_nodes_feeder {n : String} (hn : n ∈ ["A", "B"]) :
    n ∈ (feeder own first second property).network.topology.nodes := hn

/-- The second node does not see how the first one gets its count, nor the property of the first. -/
theorem sameAt_feeder :
    (feeder own first second property).SameAt (feeder own' first second property') "B" where
  network := {
    left := mem_nodes_feeder (by decide)
    right := mem_nodes_feeder (by decide)
    routeTy := rfl
    merge := rfl
    origination := rfl
    symbolics := rfl
    predecessors := rfl
    transfer := List.forall_mem_singleton.2 rfl
    initial := rfl }
  annotation := rfl
  predecessors := List.forall_mem_singleton.2 rfl
  property := rfl

/-- Counts that are not negative stay so on their way to the second node. -/
theorem passes_feeder {kind : CheckKind} (hkind : kind ∈ CheckKind.modular) :
    (feeder own nonnegative nonnegative property).Passes kind "B" := by
  refine (passes_iff (.inr (mem_nodes_feeder (by decide)))).2 ?_
  cases kind with
  | base =>
    refine ⟨⟨_, rfl⟩, fun σ _ _ ρ t hρ hv => ?_⟩
    exact ((holdsAt_nonnegative rfl 0).2 (Int.le_refl 0)).not_failsAt hv
  | step =>
    refine ⟨⟨_, rfl⟩, fun σ _ _ ρ t hρ hv => ?_⟩
    obtain ⟨-, hearlier, y, hy, hlater⟩ := hv
    cases hy
    obtain ⟨v, hv⟩ := Value.shape_of_fits (hρ "A" (mem_nodes_feeder (by decide)))
    have hpos : 0 ≤ v :=
      (holdsAt_nonnegative (x := .const (ρ "A")) hv _).1 (hearlier "A" (List.mem_singleton_self _))
    have hnext :
        (Term.call (.add (.arg 0) (.int 1)) (.const (ρ "A"))).eval σ [] = .int (v + 1) := by
      simp [Term.eval, Term.int, hv, Value.add]
    exact ((holdsAt_nonnegative hnext t).2 (by omega)).not_failsAt hlater
  | safety => exact ⟨⟨_, rfl⟩, fun σ _ _ ρ t _ hv => hv.invariant.not_failsAt hv.property⟩
  | monolithic => simp [CheckKind.modular] at hkind

/-- A count that goes down from zero does not stay where it was said to be. -/
theorem fails_feeder :
    (feeder (.incr (-1)) nonnegative nonnegative property).Fails .step "A" := by
  obtain ⟨o, ho⟩ : ∃ o, (feeder (.incr (-1)) nonnegative nonnegative property).obligation
      .step "A" = .ok o := ⟨_, rfl⟩
  obtain ⟨σ, hσ⟩ := Assignment.exists_wellSorted
  have hviolation : (feeder (.incr (-1)) nonnegative nonnegative property).StepViolation σ "A"
      (fun _ => .int 0) 1 := by
    refine ⟨by decide, List.forall_mem_singleton.2 ?_, _, rfl, _, rfl, fun h => by cases h⟩
    exact (holdsAt_nonnegative (x := .const (.int 0)) rfl _).2 (Int.le_refl 0)
  obtain ⟨τ, hτ, -, hq⟩ := (hasModel_iff_violates (.inr (mem_nodes_feeder (by decide))) ho hσ).2
    ⟨⟨_, rfl, rfl⟩, _, _, fun _ _ => rfl, hviolation⟩
  exact ⟨o, ho, τ, hτ, hq⟩

/-- What is said to hold always does, at the second node. -/
theorem passes_feeder_always {kind : CheckKind} (hkind : kind ∈ CheckKind.modular) :
    (feeder (.incr 1) (.globally (.compare .lt (.datum (.int 0)))) (.globally .always)
      property).Passes kind "B" := by
  have hholds {σ : Assignment} {x : Typed} {t : Int} :
      HoldsAt σ ((Invariant.globally .always).atTime x t) := ⟨_, rfl, rfl⟩
  refine (passes_iff (.inr (mem_nodes_feeder (by decide)))).2 ?_
  cases kind with
  | base => exact ⟨⟨_, rfl⟩, fun _ _ _ _ _ _ hv => hholds.not_failsAt hv⟩
  | step =>
    refine ⟨⟨_, rfl⟩, fun _ _ _ _ _ _ hv => ?_⟩
    obtain ⟨x, -, hfails⟩ := hv.later
    exact hholds.not_failsAt hfails
  | safety => exact ⟨⟨_, rfl⟩, fun _ _ _ _ _ _ hv => hholds.not_failsAt hv.property⟩
  | monolithic => simp [CheckKind.modular] at hkind

theorem formsAll_feeder
    (hfirst : (∃ o, (feeder own first second property).baseObligation "A" = .ok o) ∧
      (∃ o, (feeder own first second property).inductiveObligation "A" = .ok o) ∧
      ∃ o, (feeder own first second property).safetyObligation "A" = .ok o)
    (hsecond : ∀ kind ∈ CheckKind.modular, (feeder own first second property).Passes kind "B") :
    (feeder own first second property).FormsAll := by
  intro kind hkind n hn
  rcases List.mem_cons.1 hn with rfl | hn
  · cases kind with
    | base => exact hfirst.1
    | step => exact hfirst.2.1
    | safety => exact hfirst.2.2
    | monolithic => simp [CheckKind.modular] at hkind
  · obtain rfl := List.mem_singleton.1 hn
    exact (hsecond kind hkind).imp fun _ ho => ho.1

end Feeder

end AnnotatedNetwork

end RouteInvariants
