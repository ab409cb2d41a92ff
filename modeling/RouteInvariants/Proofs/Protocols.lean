import Mathlib.Data.List.Nodup
import RouteInvariants.Network.Protocols
import RouteInvariants.Proofs.RouteAlgebra
import RouteInvariants.Proofs.Walks

/-!
The networks of the common protocols. The protocols differ in the route that they originate, in what
edges do to routes and in the choice between routes (`Protocol`); the networks are made from these
in the same way, for a destination that is a node and for a symbolic one (`Protocol.exists_network`).
-/

namespace RouteInvariants

/-! ### Dictionaries without repeated keys -/

namespace Entries

variable {κ α : Type} [DecidableEq κ]

theorem insert_of_not_mem {es : List (κ × α)} {k : κ} (h : k ∉ keys es) (a : α) :
    insert es k a = es ++ [(k, a)] := by
  induction es with
  | nil => rfl
  | cons e es ih =>
    rw [keys, List.map_cons, List.mem_cons, not_or] at h
    rw [insert, if_neg fun he => h.1 he.symm, ih h.2, List.cons_append]

theorem foldl_insert_of_nodup (acc : List (κ × α)) {es : List (κ × α)}
    (h : (keys (acc ++ es)).Nodup) :
    es.foldl (fun acc e => insert acc e.1 e.2) acc = acc ++ es := by
  induction es generalizing acc with
  | nil => rw [List.foldl_nil, List.append_nil]
  | cons e es ih =>
    have hmem : e.1 ∉ keys acc := by
      rw [keys, List.map_append, List.map_cons, List.nodup_append] at h
      exact fun he => h.2.2 _ he _ List.mem_cons_self rfl
    rw [List.foldl_cons, insert_of_not_mem hmem]
    have happend : acc ++ [(e.1, e.2)] ++ es = acc ++ e :: es := by simp
    rw [ih _ (by rwa [happend]), happend]

theorem ofList_of_nodup {es : List (κ × α)} (h : (keys es).Nodup) : ofList es = es :=
  foldl_insert_of_nodup [] h

end Entries

/-- Lists whose members show which of them they are from can be joined without repetitions. -/
theorem nodup_flatMap_of_key {ι β κ : Type} {is : List ι} {g : ι → List β} (key : ι → κ) (f : β → κ)
    (his : is.Pairwise fun i j => key i ≠ key j) (h : ∀ i ∈ is, (g i).Nodup)
    (hkey : ∀ i, ∀ b ∈ g i, f b = key i) : (is.flatMap g).Nodup := by
  rw [List.nodup_flatMap]
  refine ⟨h, his.imp fun {i j} hne b hi hj => hne ?_⟩
  rw [← hkey i b hi, hkey j b hj]

namespace Topology

theorem nodup_edges (t : Topology) : t.edges.Nodup := by
  have hnodes : t.entries.Pairwise fun d e => d.1 ≠ e.1 := List.pairwise_map.1 t.nodup_nodes
  refine nodup_flatMap_of_key Prod.fst Edge.target hnodes (fun d hd => ?_) fun d e he => ?_
  · exact (t.nodup_predecessors d hd).map fun p q h => (Edge.mk.inj h).1
  · obtain ⟨p, -, rfl⟩ := List.mem_map.1 he
    rfl

end Topology

/-- The initial routes of named expressions that all have terms. -/
theorem InitialRoutes.exists_ofExprs {names : List String} (hnodup : names.Nodup)
    {f : String → Expr} {x : String → Typed} (h : ∀ n ∈ names, (f n).elaborate [] = .ok (x n)) :
    ∃ routes, ofExprs (names.map fun n => (n, f n)) = .ok routes ∧
      routes.entries = names.map fun n => (n, x n) := by
  have hterms : ∃ hdefined, terms (names.map fun n => (n, f n)) =
      .ok ⟨names.map fun n => (n, x n), hdefined⟩ := by
    clear hnodup
    induction names with
    | nil => exact ⟨_, rfl⟩
    | cons n names ih =>
      rw [List.forall_mem_cons] at h
      obtain ⟨hdefined, hrest⟩ := ih h.2
      refine ⟨List.forall_mem_cons.2 ⟨⟨f n, h.1⟩, hdefined⟩, ?_⟩
      rw [List.map_cons, terms]
      split
      · rename_i herror
        cases herror.symm.trans h.1
      · rename_i y hy
        cases hy.symm.trans h.1
        exact bind_eq_ok.2 ⟨_, hrest, rfl⟩
  obtain ⟨hdefined, hterms⟩ := hterms
  refine ⟨_, bind_eq_ok.2 ⟨_, hterms, rfl⟩, Entries.ofList_of_nodup ?_⟩
  rwa [Entries.keys, List.map_map, show Prod.fst ∘ (fun n => (n, x n)) = id from rfl, List.map_id]

/-! ### Protocols -/

/-- What the protocols differ in. Routes are options over the sort `element`. -/
structure Protocol where
  element : Ty
  route : Expr
  transfer : Transfer
  merge : Merge

namespace Protocol

def hopCounts : Protocol := ⟨.int, .present (.int 0), .omap (.incr 1), .minOption⟩

def reachability : Protocol := ⟨.unit, .present .unit, .identity, .preferSome⟩

/-- The network of a protocol. -/
def network (P : Protocol) (t : Topology) (d : Destination) (ss : List Symbolic) :
    Except Failure Network := do
  let initial ← (d.originate t P.element P.route).mapError Failure.definition
  Network.define t (t.mapEdges fun _ => P.transfer) P.merge initial (d.symbolics ss)
    (some (.option P.element)) .persistent

theorem network_hopCounts : hopCounts.network = shortestPathNetwork := rfl

theorem network_reachability : reachability.network = reachabilityNetwork := rfl

/-- The route that is originated is a route that is present, and there is an absent one; `origin` is
the term of the first one. -/
structure IsValid (P : Protocol) (origin : Term) : Prop where
  declared : (Ty.option P.element).isDeclared = true
  route : P.route.elaborate [] = .ok ⟨origin, .option P.element⟩
  absent : (Expr.absent (.option P.element)).elaborate [] = .ok ⟨.con 0, .option P.element⟩
  present : ∀ σ, (origin.eval σ []).head? = some 1

theorem isValid_hopCounts : hopCounts.IsValid (.app (.con 1) (.int 0)) :=
  ⟨rfl, rfl, rfl, fun _ => rfl⟩

theorem isValid_reachability : reachability.IsValid (.app (.con 1) (.const (.con 0))) :=
  ⟨rfl, rfl, rfl, fun _ => rfl⟩

end Protocol

namespace Destination

/-- The destination is a node, or a text that is to name one. -/
def IsFor (t : Topology) : Destination → Prop
  | node name => name ∈ t.nodes
  | declared s | added s => s.ty = .text

/-- The initial route of a node. -/
def initialTerm (origin : Term) (n : String) : Destination → Term
  | node name => if n = name then origin else .con 0
  | declared s | added s => .ite (.eq (.var s.unknown) (.const (.ofString n))) origin (.con 0)

/-- The destination is the node, or a symbolic value that is the name of the node. -/
def isAt (σ : Assignment) (n : String) : Destination → Bool
  | node name => decide (n = name)
  | declared s | added s => decide (σ.value s.unknown = .ofString n)

/-- A node starts with the route that is originated where it is the destination. -/
theorem eval_initialTerm_eq (origin : Term) (σ : Assignment) (n : String) (d : Destination) :
    (d.initialTerm origin n).eval σ [] = if d.isAt σ n then origin.eval σ [] else .none := by
  have hsymbolic (s : Symbolic) :
      (Term.ite (.eq (.var s.unknown) (.const (.ofString n))) origin (.con 0)).eval σ [] =
        if decide (σ.value s.unknown = .ofString n) then origin.eval σ [] else .none := by
    simp only [Term.eval, Expr.isTrue_bool]
    rfl
  cases d with
  | node name =>
    by_cases hn : n = name
    · simp only [initialTerm, isAt, hn, decide_true, if_true]
    · simp only [initialTerm, isAt, hn, decide_false, Bool.false_eq_true, if_false]
      rfl
  | declared s => exact hsymbolic s
  | added s => exact hsymbolic s

variable {P : Protocol} {origin : Term} {t : Topology} {d : Destination}

theorem elaborate_conditional (hP : P.IsValid origin) {s : Symbolic} (hs : s.ty = .text)
    (n : String) : (Expr.ite (.compare .eq s.expr (.text n)) P.route
      (.absent (.option P.element))).elaborate [] =
        .ok ⟨.ite (.eq (.var s.unknown) (.const (.ofString n))) origin (.con 0),
          .option P.element⟩ := by
  have hexpr := Symbolic.elaborate_expr (s := s) (hs ▸ rfl) []
  rw [hs] at hexpr
  have htext : (Expr.text n).elaborate [] = .ok ⟨.const (.ofString n), .text⟩ := rfl
  simp only [Expr.elaborate, hexpr, htext, hP.route, hP.absent, bind, Except.bind]
  exact ite_eq_ok (Ty.ne_truth_of_isDeclared hP.declared) _ _ _

/-- The initial routes have terms. -/
theorem originate_eq_ok (hP : P.IsValid origin) (hd : d.IsFor t) : ∃ f : String → Expr,
    d.originate t P.element P.route = .ok (t.mapNodes f) ∧
      ∀ n, (f n).elaborate [] = .ok ⟨d.initialTerm origin n, .option P.element⟩ := by
  cases d with
  | node name =>
    refine ⟨_, if_pos (List.contains_iff_mem.2 hd), fun n => ?_⟩
    by_cases hn : n = name
    · simp only [hn, if_true, initialTerm, hP.route]
    · simp only [hn, if_false, initialTerm, hP.absent]
  | declared s => exact ⟨_, rfl, elaborate_conditional hP hd⟩
  | added s => exact ⟨_, rfl, elaborate_conditional hP hd⟩

end Destination

namespace Protocol

variable {P : Protocol} {origin : Term} {t : Topology} {d : Destination} {ss : List Symbolic}

/-- What the network of a protocol consists of. -/
structure IsNetwork (P : Protocol) (origin : Term) (t : Topology) (d : Destination)
    (ss : List Symbolic) (net : Network) : Prop where
  topology : net.topology = t
  transfer : ∀ e ∈ t.edges, net.transferOf e = P.transfer
  merge : net.merge = P.merge
  initial : ∀ n ∈ t.nodes, net.initialOf n = ⟨d.initialTerm origin n, .option P.element⟩
  symbolics : net.symbolics = d.symbolics ss
  routeTy : net.routeTy = .option P.element
  origination : net.origination = .persistent
  failureBounds : net.failureBounds = []

/-- A protocol has a network for every topology and every destination, if the symbolic values have
different names. -/
theorem exists_network (hP : P.IsValid origin) (hd : d.IsFor t)
    (hnames : ((d.symbolics ss).map Symbolic.name).Nodup) :
    ∃ net, P.network t d ss = .ok net ∧ P.IsNetwork origin t d ss net := by
  obtain ⟨f, hf, helab⟩ := Destination.originate_eq_ok hP hd
  obtain ⟨routes, hroutes, hentries⟩ :=
    InitialRoutes.exists_ofExprs (show t.nodes.Nodup from t.nodup_nodes) fun n _ => helab n
  have hget : ∀ n ∈ t.nodes, routes.get n = ⟨d.initialTerm origin n, .option P.element⟩ := by
    intro n hn
    rw [InitialRoutes.get, hentries, Entries.get?_map_self _ hn, Option.getD_some]
  have htransfer : Entries.ofList (t.mapEdges fun _ => P.transfer) =
      t.mapEdges fun _ => P.transfer :=
    Entries.ofList_of_nodup (by rw [Topology.keys_mapEdges]; exact t.nodup_edges)
  let net : Network := {
    topology := t
    transfer := t.mapEdges fun _ => P.transfer
    merge := P.merge
    initial := routes
    symbolics := d.symbolics ss
    routeTy := .option P.element
    origination := .persistent
    failureBounds := []
    transfer_keys := fun e => by rw [Topology.keys_mapEdges]
    initial_keys := fun n => by
      rw [hentries, Entries.keys, List.map_map]
      exact Iff.of_eq (congrArg (n ∈ ·) (List.map_id t.nodes))
    nodup_symbolics := hnames
    initial_ty := fun n hn => by rw [hget n hn]
    declared_routeTy := fun _ _ => hP.declared }
  refine ⟨net, bind_eq_ok.2 ⟨_, mapError_eq_ok.2 hf, ?_⟩, rfl, fun e he => ?_, rfl, hget, rfl, rfl,
    rfl, rfl⟩
  · refine bind_eq_ok.2 ⟨routes, mapError_eq_ok.2 hroutes, ?_⟩
    rw [htransfer, show Network.build t _ P.merge routes (d.symbolics ss) _ .persistent [] =
      .ok net from net.build_parts]
    rfl
  · rw [Network.transferOf, Topology.get?_mapEdges _ he]
    rfl

/-- Every node can be the destination. -/
theorem exists_network_node (hP : P.IsValid origin) {n : String} (hn : n ∈ t.nodes)
    (ss : List Symbolic) (hnames : (ss.map Symbolic.name).Nodup) :
    ∃ net, P.network t (.node n) ss = .ok net ∧ P.IsNetwork origin t (.node n) ss net :=
  exists_network hP hn hnames

/-! ### Failures -/

/-- The network of a protocol can be built with failures for every bound up to the number of edges, if
no symbolic value is named like a failure. -/
theorem exists_failing (hP : P.IsValid origin) (hd : d.IsFor t) {k : Nat} (hk : k ≤ t.edgeCount)
    (hnames : ((d.symbolics ss ++ failureSymbolics t.edges k).map Symbolic.name).Nodup) :
    ∃ net hfresh, P.network t d ss = .ok net ∧ P.IsNetwork origin t d ss net ∧
      net.withFailures k = .ok (net.failing k hfresh) := by
  have hown : ((d.symbolics ss).map Symbolic.name).Nodup := by
    rw [List.map_append] at hnames
    exact hnames.of_append_left
  obtain ⟨net, hnet, hparts⟩ := exists_network hP hd hown
  have hfresh : ((net.symbolics ++ failureSymbolics net.topology.edges k).map
      Symbolic.name).Nodup := by
    rw [hparts.symbolics, hparts.topology]
    exact hnames
  have hoption : net.routeTy.isOption = true := by
    rw [hparts.routeTy]
    rfl
  exact ⟨net, hfresh, hnet, hparts,
    Network.withFailures_eq_ok (hparts.topology ▸ hk) hoption hfresh⟩

theorem exists_failing_node (hP : P.IsValid origin) {n : String} (hn : n ∈ t.nodes) {k : Nat}
    (hk : k ≤ t.edgeCount) :
    ∃ net hfresh, P.network t (.node n) [] = .ok net ∧ P.IsNetwork origin t (.node n) [] net ∧
      net.withFailures k = .ok (net.failing k hfresh) :=
  exists_failing hP (show (Destination.node n).IsFor t from hn) hk
    (show (([] ++ failureSymbolics t.edges k).map Symbolic.name).Nodup from
      nodup_names_failureSymbolics t.edges k)

/-- With failures, the network of a protocol computes as before except that edges drop routes. -/
theorem IsNetwork.follows_failing {net : Network} (h : P.IsNetwork origin t d ss net)
    (hP : P.IsValid origin) {α : Type} {σ : Assignment} {code : α → Value} {A : RouteAlgebra α}
    {absent : α} (hfollows : net.Follows σ code A) (habsent : code absent = .none) {k : Nat}
    (hfresh : ((net.symbolics ++ failureSymbolics net.topology.edges k).map Symbolic.name).Nodup) :
    (net.failing k hfresh).Follows σ code
      (A.dropping absent { e | (net.failing k hfresh).IsDown σ e }) := by
  have hoption : net.routeTy.isOption = true := by
    rw [h.routeTy]
    rfl
  have hnone : ∃ x, (Expr.absent net.routeTy).elaborate [] = .ok x := by
    rw [h.routeTy]
    exact ⟨_, hP.absent⟩
  exact hfollows.failing hfresh hoption hnone habsent

end Protocol

/-- A node with a direct edge from another one and a way over a third. -/
def Topology.detour : Topology :=
  ⟨[("A", []), ("B", ["A"]), ("C", ["A", "B"])], by decide, by decide, by decide⟩

theorem Topology.namesDiffer_detour : detour.NamesDiffer := by
  unfold NamesDiffer
  decide

/-- One of the two ways is open if not both of them are broken. -/
theorem Topology.exists_walk_detour {F : Set Edge}
    (hF : ⟨"A", "C"⟩ ∈ F → ⟨"A", "B"⟩ ∉ F ∧ ⟨"B", "C"⟩ ∉ F) : ∃ m, detour.Walk F "A" "C" m := by
  by_cases hdirect : ⟨"A", "C"⟩ ∈ F
  · obtain ⟨hAB, hBC⟩ := hF hdirect
    exact ⟨2, (Walk.start.step (by decide) hAB).step (by decide) hBC⟩
  · exact ⟨1, Walk.start.step (by decide) hdirect⟩

/-- One failure does not break both. -/
theorem Topology.exists_walk_detour_failing {net : Network} {σ : Assignment}
    (hfresh : ((net.symbolics ++ failureSymbolics net.topology.edges 1).map Symbolic.name).Nodup) :
    ∃ m, detour.Walk { e | (net.failing 1 hfresh).IsDown σ e } "A" "C" m := by
  refine exists_walk_detour fun hdirect => ?_
  have hother : ∀ e ∈ detour.edges, e ≠ ⟨"A", "C"⟩ → ¬ (net.failing 1 hfresh).IsDown σ e := by
    intro e he hne hdown
    have hsame := (Network.isDown_failing_one.1 hdown).symm.trans
      (Network.isDown_failing_one.1 hdirect)
    exact hne (failureValue_inj namesDiffer_detour he (by decide) hsame)
  exact ⟨hother _ (by decide) (by decide), hother _ (by decide) (by decide)⟩

end RouteInvariants
