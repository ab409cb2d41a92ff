import RouteInvariants.Proofs.Convergence
import RouteInvariants.Proofs.Scenarios

/-!
Networks that compute with an algebra of routes. Under an assignment, the parts of a network that
keeps originating its initial routes are functions on values: a first route for every node, a
function for every edge and a choice between two routes. Where these functions are those of an
algebra (`Network.Follows`), so are the update of a node (`Follows.update`), a round
(`Follows.step`) and all rounds of a simulation (`Follows.run`), and the simulation goes on for ever
(`Follows.exists_run`). Failures make edges drop routes (`Follows.failing`).
-/

namespace RouteInvariants

/-- First routes, what becomes of a route along an edge, and the choice between two routes. -/
structure RouteAlgebra (α : Type) where
  start : String → α
  send : Edge → α → α
  choose : α → α → α

namespace RouteAlgebra

variable {α : Type} (A : RouteAlgebra α) (t : Topology)

/-- The route that a node chooses next. -/
def next (f : String → α) (n : String) : α :=
  ((t.predecessors n).map fun p => A.send ⟨p, n⟩ (f p)).foldl A.choose (A.start n)

/-- The routes after some rounds. -/
def rounds : Nat → String → α
  | 0 => A.start
  | i + 1 => A.next t (rounds i)

/-- A node chooses alike in two algebras where `φ` takes the routes of one to those of the other and
`ψ` does so one hop later. -/
theorem map_next {β : Type} {A : RouteAlgebra α} {B : RouteAlgebra β} {t : Topology} {φ ψ : α → β}
    (hstart : ∀ n, ψ (A.start n) = B.start n) (hsend : ∀ e a, ψ (A.send e a) = B.send e (φ a))
    (hchoose : ∀ a b, ψ (A.choose a b) = B.choose (ψ a) (ψ b)) (f : String → α) (n : String) :
    ψ (A.next t f n) = B.next t (φ ∘ f) n := by
  have hfold (as : List α) (a : α) :
      ψ (as.foldl A.choose a) = (as.map ψ).foldl B.choose (ψ a) := by
    induction as generalizing a with
    | nil => rfl
    | cons b as ih => rw [List.foldl_cons, ih, hchoose, List.map_cons, List.foldl_cons]
  rw [next, hfold, hstart, List.map_map, next]
  simp only [Function.comp_def, hsend]

/-- A node chooses between what it starts with and what its predecessors hold. -/
theorem next_congr {f g : String → α} {n : String} (h : ∀ p ∈ t.predecessors n, f p = g p) :
    A.next t f n = A.next t g n := by
  rw [next, next, List.map_congr_left fun p hp => by rw [h p hp]]

open Classical in
/-- Edges of a set drop every route. -/
noncomputable def dropping (A : RouteAlgebra α) (absent : α) (F : Set Edge) : RouteAlgebra α :=
  { A with send := fun e a => if e ∈ F then absent else A.send e a }

theorem dropping_empty (absent : α) : A.dropping absent ∅ = A := by
  simp only [dropping, Set.mem_empty_iff_false, if_false]

/-! ### Maps of routes -/

/-- A map of routes that respects what the algebras do. -/
structure IsHom {β : Type} (A : RouteAlgebra α) (B : RouteAlgebra β) (φ : α → β) : Prop where
  start : ∀ n, φ (A.start n) = B.start n
  send : ∀ e a, φ (A.send e a) = B.send e (φ a)
  choose : ∀ a b, φ (A.choose a b) = B.choose (φ a) (φ b)

section Hom

variable {β : Type} {A : RouteAlgebra α} {B : RouteAlgebra β} {t : Topology} {φ : α → β}

theorem IsHom.next (h : A.IsHom B φ) (f : String → α) (n : String) :
    φ (A.next t f n) = B.next t (φ ∘ f) n :=
  map_next h.start h.send h.choose f n

theorem IsHom.rounds (h : A.IsHom B φ) (i : Nat) (n : String) :
    φ (A.rounds t i n) = B.rounds t i n := by
  induction i generalizing n with
  | zero => exact h.start n
  | succ i ih => rw [RouteAlgebra.rounds, h.next, show φ ∘ A.rounds t i = B.rounds t i from funext ih,
      RouteAlgebra.rounds]

theorem IsHom.dropping (h : A.IsHom B φ) (absent : α) (F : Set Edge) :
    (A.dropping absent F).IsHom (B.dropping (φ absent) F) φ where
  start := h.start
  send e a := by
    by_cases he : e ∈ F
    · simp only [RouteAlgebra.dropping, he, if_true]
    · simp only [RouteAlgebra.dropping, he, if_false, h.send]
  choose := h.choose

end Hom

end RouteAlgebra

namespace Network

variable {α : Type} {net : Network} {σ : Assignment} {code : α → Value} {A : RouteAlgebra α}
  {f : String → α} {n : String} {rs : List (String × Typed)}

/-- The term is a route whose value stands for `a`. -/
structure Represents (net : Network) (σ : Assignment) (code : α → Value) (x : Typed) (a : α) :
    Prop where
  closed : x.IsClosed
  ty : x.ty = net.routeTy
  eval : x.term.eval σ [] = code a

/-- The routes of all nodes stand for those of a function. -/
def RepresentsAll (net : Network) (σ : Assignment) (code : α → Value) (rs : List (String × Typed))
    (f : String → α) : Prop :=
  ∀ n ∈ net.topology.nodes, ∃ r, Entries.get? rs n = some r ∧ net.Represents σ code r (f n)

/-- The parts of the network are functions on values as the algebra says. -/
structure Follows (net : Network) (σ : Assignment) (code : α → Value) (A : RouteAlgebra α) :
    Prop where
  origination : net.origination = .persistent
  initial : ∀ n ∈ net.topology.nodes, net.Represents σ code (net.initialOf n) (A.start n)
  transfer : ∀ e ∈ net.topology.edges, ∀ {x : Typed} {a : α}, net.Represents σ code x a →
    ∃ u, (net.transferOf e).applyTo x = .ok u ∧ net.Represents σ code u (A.send e a)
  merge : ∀ {x y : Typed} {a b : α}, net.Represents σ code x a → net.Represents σ code y b →
    ∃ u, net.merge.applyTo x y = .ok u ∧ net.Represents σ code u (A.choose a b)

theorem Represents.simplify (hσ : σ.WellSorted) {x : Typed} {a : α}
    (h : net.Represents σ code x a) :
    net.Represents σ code ⟨x.term.simplify, x.ty⟩ a :=
  have hmatch := h.closed.matches_simplify hσ
  ⟨hmatch.right, h.ty, hmatch.eval.symm.trans h.eval⟩

theorem RepresentsAll.valuesOf (h : net.RepresentsAll σ code rs f) (hn : n ∈ net.topology.nodes) :
    AnnotatedNetwork.valuesOf σ rs n = code (f n) := by
  obtain ⟨r, hr, hrep⟩ := h n hn
  rw [AnnotatedNetwork.valuesOf_eq hr, hrep.eval]

/-- Values that stand for routes are routes. -/
theorem representsAll_routes {ρ : String → Value}
    (hρ : ∀ n ∈ net.topology.nodes, (ρ n).fits net.routeTy = true ∧ ρ n = code (f n)) :
    net.RepresentsAll σ code (net.routes ρ) f := by
  intro n hn
  obtain ⟨hfits, hcode⟩ := hρ n hn
  exact ⟨_, get?_mapNodes hn, isClosed_route hn hfits, rfl, hcode⟩

/-! ### Updates -/

namespace Follows

variable (h : net.Follows σ code A)
include h

theorem mergeAll {x : Typed} {a : α} {xs : List Typed} {as : List α}
    (hx : net.Represents σ code x a) (hxs : List.Forall₂ (net.Represents σ code) xs as) :
    ∃ u, net.mergeAll x xs = .ok u ∧ net.Represents σ code u (as.foldl A.choose a) := by
  induction hxs generalizing x a with
  | nil => exact ⟨x, rfl, hx⟩
  | @cons y b ys bs hy _ ih =>
    obtain ⟨v, hv, hvrep⟩ := h.merge hx hy
    obtain ⟨u, hu, hurep⟩ := ih hvrep
    exact ⟨u, by rw [Network.mergeAll, List.foldlM_cons, bind_eq_ok]; exact ⟨v, hv, hu⟩, hurep⟩

theorem received (hrs : net.RepresentsAll σ code rs f) {ps : List String}
    (hps : ∀ p ∈ ps, p ∈ net.topology.predecessors n) :
    ∃ xs, ps.mapM (net.incoming rs n) = .ok xs ∧
      List.Forall₂ (net.Represents σ code) xs (ps.map fun p => A.send ⟨p, n⟩ (f p)) := by
  induction ps with
  | nil => exact ⟨[], mapM_eq_ok.2 .nil, .nil⟩
  | cons p ps ih =>
    rw [List.forall_mem_cons] at hps
    obtain ⟨r, hr, hrep⟩ := hrs p (Topology.mem_nodes_of_mem_predecessors hps.1)
    obtain ⟨u, hu, hurep⟩ := h.transfer _ (Topology.mem_edges_of_mem_predecessors hps.1) hrep
    obtain ⟨xs, hxs, hall⟩ := ih hps.2
    have hincoming : net.incoming rs n p = .ok u := by
      rw [incoming, hr]
      exact mapError_eq_ok.2 hu
    exact ⟨u :: xs, mapM_eq_ok.2 (.cons hincoming (mapM_eq_ok.1 hxs)), .cons hurep hall⟩

/-- The update of a node is what it chooses next. -/
theorem update (hn : n ∈ net.topology.nodes) (hrs : net.RepresentsAll σ code rs f) :
    ∃ u, net.update n rs = .ok u ∧ net.Represents σ code u (A.next net.topology f n) := by
  have hinitial := h.initial n hn
  by_cases hempty : net.topology.predecessors n = []
  · refine ⟨_, update_eq_ok_iff.2 ⟨hn, .inl ⟨hempty, rfl⟩⟩, ?_⟩
    rw [RouteAlgebra.next, hempty]
    exact hinitial
  · obtain ⟨xs, hxs, hall⟩ := h.received hrs (n := n) (fun _ hp => hp)
    obtain ⟨u, hu, hurep⟩ := h.mergeAll hinitial hall
    refine ⟨u, update_eq_ok_iff.2 ⟨hn, .inr ⟨hempty, xs, hxs, ?_⟩⟩, hurep⟩
    rw [offered, h.origination]
    exact hu

/-! ### Rounds -/

theorem representsAll_next (hσ : σ.WellSorted) {next : List (String × Typed)}
    (hrs : net.RepresentsAll σ code rs f) (hnext : net.step rs = .ok next) :
    net.RepresentsAll σ code next (A.next net.topology f) := by
  intro n hn
  obtain ⟨u, hu, -, hget⟩ := (isRound_of_step hnext).route n hn
  obtain ⟨u', hu', hrep⟩ := h.update hn hrs
  rw [hu] at hu'
  cases hu'
  exact ⟨_, hget, hrep.simplify hσ⟩

theorem step (hσ : σ.WellSorted) (hrs : net.RepresentsAll σ code rs f) :
    ∃ next, net.step rs = .ok next ∧
      net.RepresentsAll σ code next (A.next net.topology f) := by
  obtain ⟨next, hnext⟩ : ∃ next, net.step rs = .ok next := exists_step fun n hn => by
    obtain ⟨u, hu, hrep⟩ := h.update hn hrs
    exact ⟨u, hu, hrep.ty ▸ Ty.ne_truth_of_isDeclared (net.declared_routeTy n hn)⟩
  exact ⟨next, hnext, h.representsAll_next hσ hrs hnext⟩

theorem representsAll_initial : net.RepresentsAll σ code net.initial.entries A.start :=
  fun n hn => ⟨_, get?_initial hn, h.initial n hn⟩

/-- The simulation goes on for ever. -/
theorem exists_run (hσ : σ.WellSorted) : ∃ run, net.IsRun run := by
  have hround (s : { rs // ∃ f, net.RepresentsAll σ code rs f }) :
      ∃ next, net.step s.1 = .ok next ∧ ∃ f, net.RepresentsAll σ code next f := by
    obtain ⟨rs, f, hf⟩ := s
    obtain ⟨next, hnext, hrep⟩ := h.step hσ hf
    exact ⟨next, hnext, _, hrep⟩
  choose next hstep hnext using hround
  let run (i : Nat) : { rs // ∃ f, net.RepresentsAll σ code rs f } :=
    Nat.rec ⟨_, _, h.representsAll_initial⟩ (fun _ s => ⟨next s, hnext s⟩) i
  exact ⟨fun i => (run i).1, rfl, fun i => hstep (run i)⟩

/-- The rounds of the simulation are those of the algebra. -/
theorem run (hσ : σ.WellSorted) {run : Nat → List (String × Typed)} (hrun : net.IsRun run)
    (i : Nat) : net.RepresentsAll σ code (run i) (A.rounds net.topology i) := by
  induction i with
  | zero =>
    rw [hrun.start]
    exact h.representsAll_initial
  | succ i ih => exact h.representsAll_next hσ ih (hrun.step i)

/-! ### Failures -/

/-- A network with failures drops the routes that are sent over edges that are down. -/
theorem failing {k : Nat} (hnames : ((net.symbolics ++
    failureSymbolics net.topology.edges k).map Symbolic.name).Nodup)
    (hoption : net.routeTy.isOption = true)
    (hnone : ∃ x, (Expr.absent net.routeTy).elaborate [] = .ok x) {absent : α}
    (habsent : code absent = .none) :
    (net.failing k hnames).Follows σ code
      (A.dropping absent { e | (net.failing k hnames).IsDown σ e }) where
  origination := h.origination
  initial n hn :=
    have hrep := h.initial n hn
    ⟨hrep.closed, hrep.ty, hrep.eval⟩
  transfer e he x a hx := by
    obtain ⟨u, hu, hurep⟩ := h.transfer e he ⟨hx.closed, hx.ty, hx.eval⟩
    obtain ⟨b, hb, hbu⟩ := bind_eq_ok.1 hu
    cases hbu
    have hty : x.ty = net.routeTy := hx.ty
    rw [hty] at hb
    have htransfer : (net.failing k hnames).transferOf e = dropIfFailed net.routeTy
        (failureSymbolics net.topology.edges k) e (net.transferOf e) :=
      congrArg (·.getD default) (Topology.get?_mapEdges (fun e => dropIfFailed net.routeTy
        (failureSymbolics net.topology.edges k) e (net.transferOf e)) he)
    obtain ⟨w, hw, hwty, hweval⟩ := dropIfFailed_applyTo hoption hnone hb hurep.ty hty
    rw [← htransfer] at hw
    refine ⟨w, hw, Expr.isClosed_of_appliedTo hx.closed hw, hwty, (hweval σ).trans ?_⟩
    have hdown : (net.failing k hnames).IsDown σ e ↔ σ.fails k e = true := isDown_failing
    by_cases hfails : σ.fails k e = true
    · have hF : e ∈ { e | (net.failing k hnames).IsDown σ e } := hdown.2 hfails
      simp only [RouteAlgebra.dropping, hF, hfails, if_true, habsent]
    · have hF : e ∉ { e | (net.failing k hnames).IsDown σ e } := fun h => hfails (hdown.1 h)
      simp only [RouteAlgebra.dropping, hF, hfails, if_false]
      exact hurep.eval
  merge {x y a b} hx hy := by
    obtain ⟨u, hu, hrep⟩ := h.merge ⟨hx.closed, hx.ty, hx.eval⟩ ⟨hy.closed, hy.ty, hy.eval⟩
    exact ⟨u, hu, hrep.closed, hrep.ty, hrep.eval⟩

end Follows

end Network

end RouteInvariants
