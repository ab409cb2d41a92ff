import Mathlib.Data.List.Nodup
import RouteInvariants.Network.Faults
import RouteInvariants.Proofs.Conditions

/-!
Edges that may fail. The expressions about failures mean what they say: an edge is down where one of
the failures is its value (`means_failedBy`), and the transfer function of such an edge yields the
absent route (`dropIfFailed_applyTo`). A network with failures consists of these transfer functions
and is the same otherwise (`withFailures_spec`).
-/

namespace RouteInvariants

/-! ### Boolean expressions -/

namespace Expr

variable {Γ : List Ty} {e : Expr} {P : Assignment → List Value → Bool}

/-- The expression is a Boolean term with the given meaning. -/
def Means (Γ : List Ty) (e : Expr) (P : Assignment → List Value → Bool) : Prop :=
  ∃ t, e.elaborate Γ = .ok ⟨t, .bool⟩ ∧ ∀ σ args, t.eval σ args = .bool (P σ args)

theorem castTo_bool (t : Term) : Typed.castTo .bool ⟨t, .bool⟩ = .ok t :=
  castTo_bool_eq_ok_iff.2 ⟨rfl, rfl⟩

theorem means_not (h : e.Means Γ P) : (Expr.not e).Means Γ fun σ args => !P σ args := by
  obtain ⟨t, ht, hP⟩ := h
  refine ⟨.not t, ?_, fun σ args => ?_⟩
  · simp only [elaborate, ht, castTo_bool, bind, Except.bind, Typed.ofBool]
  · simp only [Term.eval, hP, isTrue_bool]

theorem means_or {e' : Expr} {P' : Assignment → List Value → Bool} (h : e.Means Γ P)
    (h' : e'.Means Γ P') : (Expr.or e e').Means Γ fun σ args => P σ args || P' σ args := by
  obtain ⟨t, ht, hP⟩ := h
  obtain ⟨t', ht', hP'⟩ := h'
  refine ⟨.or t t', ?_, fun σ args => ?_⟩
  · simp only [elaborate, ht, ht', Typed.connective, castTo_bool, bind, Except.bind, Typed.ofBool]
  · simp only [Term.eval, hP, hP', isTrue_bool]

theorem means_disj_cons {es : List Expr} {P' : Assignment → List Value → Bool} (h : e.Means Γ P)
    (h' : (disj es).Means Γ P') : (disj (e :: es)).Means Γ fun σ args => P σ args || P' σ args := by
  cases es with
  | cons e' es => exact means_or h h'
  | nil =>
    obtain ⟨t, ht, hP⟩ := h
    obtain ⟨_, hfalse, hP'⟩ := h'
    cases hfalse
    refine ⟨t, ?_, fun σ args => ?_⟩
    · simp only [disj, elaborate, ht, castTo_bool, bind, Except.bind, Typed.ofBool]
    · have hfalse : P' σ args = false := (Value.bool.inj (hP' σ args)).symm
      simp only [hP, hfalse, Bool.or_false]

theorem means_disj {α : Type} {f : α → Expr} {P : α → Assignment → List Value → Bool}
    {as : List α} (h : ∀ a ∈ as, (f a).Means Γ (P a)) :
    (disj (as.map f)).Means Γ fun σ args => as.any fun a => P a σ args := by
  induction as with
  | nil => exact ⟨_, rfl, fun _ _ => rfl⟩
  | cons a as ih =>
    rw [List.forall_mem_cons] at h
    exact means_disj_cons h.1 (ih h.2)

theorem holdsAt_conj {σ : Assignment} {es : List Expr} :
    HoldsAt σ ((conj es).elaborate Γ) ↔ ∀ e ∈ es, HoldsAt σ (e.elaborate Γ) := by
  simp only [holdsAt_elaborate, yields_conj_true]

theorem isFormed_conj {es : List Expr} :
    IsFormed ((conj es).elaborate []) ↔ ∀ e ∈ es, IsFormed (e.elaborate []) := by
  obtain ⟨σ, -⟩ := Assignment.exists_wellSorted
  have hyields (e : Expr) : IsFormed (e.elaborate []) ↔ ∃ b, e.Yields σ [] [] b :=
    isFormed_iff_exists σ
  simp only [hyields, exists_yields_conj]

/-- A condition holds where its meaning says so. -/
theorem Means.holdsAt_iff {P : Assignment → List Value → Bool} (h : e.Means [] P) {σ : Assignment} :
    HoldsAt σ (e.elaborate []) ↔ P σ [] = true := by
  obtain ⟨t, ht, hP⟩ := h
  rw [RouteInvariants.holdsAt_iff (condition_eq_ok_iff.2 ⟨_, ht, rfl, rfl⟩), Term.holds, hP]
  simp

end Expr

theorem Symbolic.elaborate_expr {s : Symbolic} (hty : s.ty.isDeclared = true) (Γ : List Ty) :
    s.expr.elaborate Γ = .ok ⟨.var s.unknown, s.ty⟩ := if_pos hty

/-- The restriction of a symbolic value is one of the value that it is assigned. -/
theorem Symbolic.means_constraint {s : Symbolic} {p : Predicate}
    {P : Assignment → List Value → Bool} (hp : s.restriction = some p)
    (hty : s.ty.isDeclared = true) (h : p.body.Means [s.ty] P) :
    s.constraint.Means [] fun σ _ => P σ [σ.value s.unknown] := by
  obtain ⟨t, ht, hP⟩ := h
  refine ⟨.call t (.var s.unknown), ?_, fun σ args => hP σ _⟩
  rw [constraint, hp]
  exact bind_eq_ok.2 ⟨_, elaborate_expr hty [], bind_eq_ok.2 ⟨_, ht, rfl⟩⟩

/-! ### Failed edges -/

/-- The value of a failure of the edge. -/
def failureValue (e : Edge) : Value := .some (.edge e.source e.target)

def failureVar (i : Nat) : Variable := .symbolic ("failed-edge-" ++ toString i) failureTy

theorem failureVar_injective : Function.Injective failureVar := by
  intro i j h
  have hnumeral : toString i = toString j :=
    (String.append_right_inj _).1 (Variable.symbolic.inj h).1
  have hdigits := congrArg (fun s => Nat.ofDigitChars 10 s.toList 0) hnumeral
  simpa using hdigits

/-- Different failures have different names. -/
theorem nodup_names_failureSymbolics (edges : List Edge) (k : Nat) :
    ((failureSymbolics edges k).map Symbolic.name).Nodup := by
  rw [failureSymbolics, List.map_map]
  exact List.nodup_range.map fun i j h =>
    failureVar_injective (congrArg (Variable.symbolic · failureTy) h)

/-- One of the first `k` failures names the edge. -/
def Assignment.fails (σ : Assignment) (k : Nat) (e : Edge) : Bool :=
  (List.range k).any fun i => decide (σ.value (failureVar i) = failureValue e)

theorem elaborate_failureOf (Γ : List Ty) (e : Edge) : (failureOf e).elaborate Γ =
    .ok ⟨.app (.con 1) (.const (.edge e.source e.target)), failureTy⟩ := rfl

theorem means_equals_failure {Γ : List Ty} {e : Expr} {t : Term}
    (h : e.elaborate Γ = .ok ⟨t, failureTy⟩) (d : Edge) :
    (Expr.compare .eq e (failureOf d)).Means Γ
      fun σ args => decide (t.eval σ args = failureValue d) := by
  refine ⟨.eq t (.app (.con 1) (.const (.edge d.source d.target))), ?_, fun σ args => rfl⟩
  simp only [Expr.elaborate, h, elaborate_failureOf, bind, Except.bind]
  rfl

theorem means_failedBy (Γ : List Ty) (edges : List Edge) (k : Nat) (e : Edge) :
    (failedBy (failureSymbolics edges k) e).Means Γ fun σ _ => σ.fails k e := by
  rw [failedBy, failureSymbolics, List.map_map]
  exact Expr.means_disj fun i _ => means_equals_failure (t := .var (failureVar i)) rfl e

/-- A failure is absent or names an edge. -/
theorem means_failureSymbolic (edges : List Edge) (i : Nat) :
    (failureSymbolic edges i).constraint.Means [] fun σ _ =>
      decide ((σ.value (failureVar i)).head? = some 0) ||
        edges.any fun e => decide (σ.value (failureVar i) = failureValue e) := by
  have hrestriction : (Expr.disj (Expr.isNone (.arg 0)
      :: edges.map fun e => .compare .eq (.arg 0) (failureOf e))).Means [failureTy] fun _ args =>
        decide ((args[0]?.getD default).head? = some 0) ||
          edges.any fun e => decide (args[0]?.getD default = failureValue e) := by
    refine Expr.means_disj_cons ⟨.isCon 0 (.arg 0), rfl, fun _ _ => rfl⟩ ?_
    exact Expr.means_disj fun e _ => means_equals_failure (t := .arg 0) rfl e
  exact Symbolic.means_constraint (s := failureSymbolic edges i) rfl rfl hrestriction

/-! ### Transfer functions that may be dropped -/

theorem elaborate_absent {ty : Ty} (hoption : ty.isOption = true) {x : Typed}
    (h : (Expr.absent ty).elaborate [] = .ok x) (Γ : List Ty) :
    (Expr.absent ty).elaborate Γ = .ok ⟨.con 0, ty⟩ := by
  have hsame : (Expr.absent ty).elaborate Γ = (Expr.absent ty).elaborate [] := rfl
  rw [hsame, h]
  rw [Expr.absent, if_pos hoption] at h
  simp only [Expr.elaborate] at h
  split at h
  · cases h
  · obtain ⟨_, -, h⟩ := bind_eq_ok.1 h
    obtain ⟨xs, hxs, h⟩ := bind_eq_ok.1 h
    cases hxs
    split at h
    · obtain ⟨c, -, h⟩ := bind_eq_ok.1 h
      split at h
      · cases h
      · rename_i hfields
        have hnil : c.fields = [] := List.length_eq_zero_iff.1 (not_not.1 hfields)
        rw [hnil] at h
        cases h
        rfl
    · cases h

/-- Two branches of one sort. -/
theorem ite_eq_ok {ty : Ty} (hty : ty ≠ .truth) (c a b : Term) :
    Typed.ite ⟨c, .bool⟩ ⟨a, ty⟩ ⟨b, ty⟩ = .ok ⟨.ite c a b, ty⟩ := by
  simp [Typed.ite, Expr.castTo_bool, hty, Typed.unify, Typed.widen?, bind, Except.bind]

section Transfers

variable {ty : Ty} {k : Nat} {edges : List Edge} {e : Edge} {f : Transfer} {b r : Typed}

/-- The function of an edge that may be down: absent where the edge has failed. -/
theorem dropIfFailed_elaborate (hoption : ty.isOption = true)
    (hnone : ∃ x, (Expr.absent ty).elaborate [] = .ok x)
    (hf : f.body.elaborate [ty] = .ok b) (hb : b.ty = ty) :
    ∃ c, (dropIfFailed ty (failureSymbolics edges k) e f).body.elaborate [ty] =
        .ok ⟨.ite c (.con 0) (.call b.term (.arg 0)), ty⟩ ∧
      ∀ σ args, c.eval σ args = .bool (σ.fails k e) := by
  obtain ⟨x, hx⟩ := hnone
  obtain ⟨c, hc, hmeans⟩ := means_failedBy [ty] edges k e
  refine ⟨c, ?_, hmeans⟩
  have happly : (f.apply (.arg 0)).elaborate [ty] = .ok ⟨.call b.term (.arg 0), ty⟩ :=
    bind_eq_ok.2 ⟨_, rfl, bind_eq_ok.2 ⟨b, hf, by rw [hb]⟩⟩
  have hty : ty ≠ .truth := by
    rintro rfl
    cases hoption
  simp only [dropIfFailed, Expr.elaborate, hc, elaborate_absent hoption hx, happly, bind,
    Except.bind]
  exact ite_eq_ok hty _ _ _

theorem dropIfFailed_applyTo (hoption : ty.isOption = true)
    (hnone : ∃ x, (Expr.absent ty).elaborate [] = .ok x)
    (hf : f.body.elaborate [ty] = .ok b) (hb : b.ty = ty) (hr : r.ty = ty) :
    ∃ u, (dropIfFailed ty (failureSymbolics edges k) e f).applyTo r = .ok u ∧ u.ty = ty ∧
      ∀ σ, u.term.eval σ [] =
        if σ.fails k e then .none else b.term.eval σ [r.term.eval σ []] := by
  obtain ⟨c, hbody, hmeans⟩ := dropIfFailed_elaborate hoption hnone hf hb
  refine ⟨_, bind_eq_ok.2 ⟨_, by rw [hr, hbody], rfl⟩, rfl, fun σ => ?_⟩
  simp only [Term.eval, hmeans, Expr.isTrue_bool, List.getElem?_cons_zero, Option.getD_some]
  rfl

end Transfers

/-! ### Networks with other transfer functions -/

namespace Topology

variable {t : Topology} {n p : String} {e : Edge}

theorem mem_edges_of_mem_predecessors (hp : p ∈ t.predecessors n) : ⟨p, n⟩ ∈ t.edges := by
  unfold predecessors at hp
  cases hn : Entries.get? t.entries n with
  | none =>
    rw [hn] at hp
    cases hp
  | some ps =>
    rw [hn] at hp
    exact List.mem_flatMap.2 ⟨_, Entries.mem_of_get? hn, List.mem_map_of_mem hp⟩

theorem mem_nodes_of_mem_edges (he : e ∈ t.edges) : e.source ∈ t.nodes ∧ e.target ∈ t.nodes := by
  obtain ⟨d, hd, he⟩ := List.mem_flatMap.1 he
  obtain ⟨p, hp, rfl⟩ := List.mem_map.1 he
  exact ⟨t.declared d hd p hp, List.mem_map_of_mem hd⟩

theorem get?_mapEdges {α : Type} (f : Edge → α) (he : e ∈ t.edges) :
    Entries.get? (t.mapEdges f) e = some (f e) :=
  Entries.get?_map_self f he

theorem keys_mapEdges {α : Type} (f : Edge → α) : Entries.keys (t.mapEdges f) = t.edges := by
  rw [Entries.keys, mapEdges, List.map_map]
  exact List.map_id _

end Topology

namespace Network

/-- The networks differ in their transfer functions and their symbolic values at most. -/
structure Variant (net net' : Network) : Prop where
  topology : net'.topology = net.topology
  merge : net'.merge = net.merge
  initial : net'.initial = net.initial
  origination : net'.origination = net.origination
  routeTy : net'.routeTy = net.routeTy

/-- Every transfer function sends routes of the route sort to such routes. -/
def TransfersKeepSort (net : Network) : Prop :=
  ∀ e ∈ net.topology.edges, ∃ b, (net.transferOf e).body.elaborate [net.routeTy] = .ok b ∧
    b.ty = net.routeTy

/-- The network in which the edges of a list drop every route. -/
def dropping (net : Network) (failed : List Edge) : Network where
  topology := net.topology
  transfer := net.topology.mapEdges fun e =>
    if e ∈ failed then .const (.absent net.routeTy) else net.transferOf e
  merge := net.merge
  initial := net.initial
  symbolics := net.symbolics
  routeTy := net.routeTy
  origination := net.origination
  failureBounds := net.failureBounds
  transfer_keys := fun e => by rw [Topology.keys_mapEdges]
  initial_keys := net.initial_keys
  nodup_symbolics := net.nodup_symbolics
  initial_ty := net.initial_ty
  declared_routeTy := net.declared_routeTy

variable {net ft : Network} {bound : Int} {failed : List Edge} {e : Edge}

theorem variant_dropping (net : Network) (failed : List Edge) :
    Variant net (net.dropping failed) :=
  ⟨rfl, rfl, rfl, rfl, rfl⟩

theorem transferOf_dropping (he : e ∈ net.topology.edges) :
    (net.dropping failed).transferOf e =
      if e ∈ failed then .const (.absent net.routeTy) else net.transferOf e := by
  rw [transferOf, dropping, Topology.get?_mapEdges _ he]
  rfl

/-- What a network that is built consists of. -/
theorem build_spec {topology : Topology} {transfer : List (Edge × Transfer)} {merge : Merge}
    {initial : InitialRoutes} {symbolics : List Symbolic} {ty : Ty} {origination : Origination}
    {bounds : List Nat} (h : build topology transfer merge initial symbolics (some ty) origination
      bounds = .ok net) :
    net.topology = topology ∧ net.transfer = transfer ∧ net.merge = merge ∧
      net.initial = initial ∧ net.symbolics = symbolics ∧ net.routeTy = ty ∧
      net.origination = origination := by
  unfold build at h
  split at h
  · cases h
  · cases h
  · cases h
  · obtain ⟨_, hty, h⟩ := bind_eq_ok.1 h
    cases hty
    dsimp only at h
    split at h
    · cases h
      exact ⟨rfl, rfl, rfl, rfl, rfl, rfl, rfl⟩
    · cases h

theorem checkKeys_eq_ok {κ α : Type} [DecidableEq κ] {part : Part} {key : κ → Datum}
    {expected : List κ} {given : List (κ × α)}
    (h : ∀ k, k ∈ Entries.keys given ↔ k ∈ expected) :
    checkKeys part key expected given = .ok () := by
  unfold checkKeys
  have hmissing : (expected.filter fun k => k ∉ Entries.keys given) = [] :=
    List.filter_eq_nil_iff.2 fun k hk => by simpa using (h k).2 hk
  have hextra : ((Entries.keys given).filter fun k => k ∉ expected) = [] :=
    List.filter_eq_nil_iff.2 fun k hk => by simpa using (h k).1 hk
  simp only [hmissing, hextra]
  rfl

theorem repeatedNames_eq_nil {names : List String} (h : names.Nodup) :
    repeatedNames names = [] := by
  have hfilter : (names.filter fun n => 1 < names.count n) = [] :=
    List.filter_eq_nil_iff.2 fun n _ => by
      have := List.nodup_iff_count.1 h n
      simpa using this
  rw [repeatedNames, hfilter]
  simp

/-- The network with failures, where it can be built. -/
def failing (net : Network) (k : Nat) (hnames : ((net.symbolics ++
    failureSymbolics net.topology.edges k).map Symbolic.name).Nodup) : Network where
  topology := net.topology
  transfer := net.topology.mapEdges fun e =>
    dropIfFailed net.routeTy (failureSymbolics net.topology.edges k) e (net.transferOf e)
  merge := net.merge
  initial := net.initial
  symbolics := net.symbolics ++ failureSymbolics net.topology.edges k
  routeTy := net.routeTy
  origination := net.origination
  failureBounds := net.failureBounds ++ [k]
  transfer_keys := fun e => by rw [Topology.keys_mapEdges]
  initial_keys := net.initial_keys
  nodup_symbolics := hnames
  initial_ty := net.initial_ty
  declared_routeTy := net.declared_routeTy

/-- A network is built from its parts. -/
theorem build_parts (net : Network) : build net.topology net.transfer net.merge net.initial
    net.symbolics (some net.routeTy) net.origination net.failureBounds = .ok net := by
  unfold build
  split
  · rename_i h
    cases h.symm.trans (checkKeys_eq_ok net.transfer_keys)
  · rename_i h
    cases h.symm.trans (checkKeys_eq_ok net.initial_keys)
  · rename_i h
    cases h.symm.trans (repeatedNames_eq_nil net.nodup_symbolics)
  · refine bind_eq_ok.2 ⟨net.routeTy, rfl, ?_⟩
    dsimp only
    split
    · rfl
    · rename_i hne
      refine absurd (List.filter_eq_nil_iff.2 fun n hn => ?_) hne
      have hty : (net.initial.get n).ty = net.routeTy := net.initial_ty n hn
      simp [hasRoute, hty, net.declared_routeTy n hn]

/-- Failures can be put around a network with optional routes for every bound up to the number of
its edges, unless one of its symbolic values is named like a failure. -/
theorem withFailures_eq_ok {k : Nat} (hk : k ≤ net.topology.edgeCount)
    (hoption : net.routeTy.isOption = true) (hnames : ((net.symbolics ++
      failureSymbolics net.topology.edges k).map Symbolic.name).Nodup) :
    net.withFailures k = .ok (net.failing k hnames) := by
  unfold withFailures
  dsimp only
  rw [if_neg (by simp; omega), if_neg (by simp [hoption]), Int.toNat_natCast]
  exact (net.failing k hnames).build_parts

/-- What a network with failures consists of. -/
structure IsWithFailures (net ft : Network) (bound : Int) : Prop where
  variant : Variant net ft
  option : net.routeTy.isOption = true
  transfer : ∀ e ∈ net.topology.edges, ft.transferOf e =
    dropIfFailed net.routeTy (failureSymbolics net.topology.edges bound.toNat) e (net.transferOf e)
  symbolics : ft.symbolics = net.symbolics ++ failureSymbolics net.topology.edges bound.toNat

theorem withFailures_spec (h : net.withFailures bound = .ok ft) :
    IsWithFailures net ft bound := by
  unfold withFailures at h
  dsimp only at h
  split at h
  · cases h
  · split at h
    · cases h
    · rename_i hoption
      obtain ⟨htop, htransfer, hmerge, hinitial, hsymbolics, hty, horigination⟩ := build_spec h
      refine ⟨⟨htop, hmerge, hinitial, horigination, hty⟩, by simpa using hoption, fun e he => ?_,
        hsymbolics⟩
      rw [transferOf, htransfer, Topology.get?_mapEdges _ he]
      rfl

/-- There is only one network with failures for a bound. -/
theorem eq_failing_of_withFailures {k : Nat} (h : net.withFailures k = .ok ft) :
    k ≤ net.topology.edgeCount ∧ ∃ hnames, ft = net.failing k hnames := by
  have hspec := withFailures_spec h
  have hnames : ((net.symbolics ++ failureSymbolics net.topology.edges k).map
      Symbolic.name).Nodup := hspec.symbolics ▸ ft.nodup_symbolics
  have hk : k ≤ net.topology.edgeCount := by
    by_contra hlt
    have herror : net.withFailures k = .error (.failureBound net.topology.edgeCount k) :=
      if_pos (by simp; omega)
    rw [herror] at h
    cases h
  rw [withFailures_eq_ok hk hspec.option hnames] at h
  exact ⟨hk, hnames, (Except.ok.inj h).symm⟩

end Network

/-! ### Sets of failures -/

/-- Different nodes have names that are different texts. -/
def Topology.NamesDiffer (t : Topology) : Prop :=
  ∀ m ∈ t.nodes, ∀ n ∈ t.nodes, Value.ofString m = Value.ofString n → m = n

/-- The first `k` failures are the edges of the list, and the rest of them are absent. -/
def Assignment.Enumerates (σ : Assignment) (k : Nat) (failed : List Edge) : Prop :=
  ∀ i < k, σ.value (failureVar i) = match failed[i]? with
    | some e => failureValue e
    | none => .none

/-- Each of the first `k` failures is absent or names one of the edges. -/
def Assignment.NamesEdges (σ : Assignment) (k : Nat) (edges : List Edge) : Prop :=
  ∀ i < k, (σ.value (failureVar i)).head? = some 0 ∨
    ∃ e ∈ edges, σ.value (failureVar i) = failureValue e

theorem Assignment.Enumerates.namesEdges {σ : Assignment} {k : Nat} {failed edges : List Edge}
    (h : σ.Enumerates k failed) (hfailed : ∀ e ∈ failed, e ∈ edges) : σ.NamesEdges k edges := by
  intro i hi
  rw [h i hi]
  split
  · rename_i d hd
    exact .inr ⟨d, hfailed d (List.mem_of_getElem? hd), rfl⟩
  · exact .inl rfl

theorem failureValue_inj {t : Topology} (hnames : t.NamesDiffer) {d e : Edge} (hd : d ∈ t.edges)
    (he : e ∈ t.edges) (h : failureValue d = failureValue e) : d = e := by
  simp only [failureValue, Value.some, Value.edge, Value.app.injEq, true_and] at h
  have hd := Topology.mem_nodes_of_mem_edges hd
  have he := Topology.mem_nodes_of_mem_edges he
  have hsource := hnames _ hd.1 _ he.1 h.1
  have htarget := hnames _ hd.2 _ he.2 h.2
  cases d
  cases e
  exact congrArg₂ Edge.mk hsource htarget

/-- Exactly the edges that are enumerated have failed. -/
theorem fails_iff {t : Topology} (hnames : t.NamesDiffer) {σ : Assignment} {k : Nat}
    {failed : List Edge} (hfailed : ∀ e ∈ failed, e ∈ t.edges) (hlength : failed.length ≤ k)
    (henum : σ.Enumerates k failed) {e : Edge} (he : e ∈ t.edges) :
    σ.fails k e = true ↔ e ∈ failed := by
  rw [Assignment.fails, List.any_eq_true]
  constructor
  · rintro ⟨i, hi, h⟩
    rw [decide_eq_true_eq, henum i (List.mem_range.1 hi)] at h
    split at h
    · rename_i d hd
      have hd := List.mem_of_getElem? hd
      exact failureValue_inj hnames (hfailed d hd) he h ▸ hd
    · cases h
  · intro h
    obtain ⟨i, hi, rfl⟩ := List.getElem_of_mem h
    have hik : i < k := Nat.lt_of_lt_of_le hi hlength
    refine ⟨i, List.mem_range.2 hik, ?_⟩
    rw [decide_eq_true_eq, henum i hik, List.getElem?_eq_getElem hi]

end RouteInvariants
