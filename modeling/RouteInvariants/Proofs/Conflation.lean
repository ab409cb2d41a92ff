import RouteInvariants.Proofs.CodePoints
import RouteInvariants.Proofs.Destinations
import RouteInvariants.Proofs.HopCounts

/-!
Names that are conflated. Failures and symbolic destinations name edges and nodes by texts, and
different names can be one text: an escape and the character that it stands for. Edges are down
together with one failure where their ends have the same texts (`sameText_of_mayFailTogether`,
`mayFailTogether_of_sameText`), and nodes are the symbolic destination together where their names do
(`eq_of_mayOriginateTogether`, `mayOriginateTogether_of_eq`). Names without escapes are not conflated
(`names_conflated_iff_same_text`).
-/

namespace RouteInvariants

/-! ### Names as texts -/

/-- The names of the ends of the edges are the same texts. -/
def Edge.SameText (d e : Edge) : Prop :=
  Value.ofString d.source = Value.ofString e.source ∧
    Value.ofString d.target = Value.ofString e.target

instance (d e : Edge) : Decidable (d.SameText e) := inferInstanceAs (Decidable (_ ∧ _))

theorem failureValue_eq_iff {d e : Edge} : failureValue d = failureValue e ↔ d.SameText e := by
  simp only [failureValue, Value.some, Value.edge, Value.app.injEq, true_and, Edge.SameText]

namespace Network

/-- Values of the symbolic values that are allowed make both edges fail. -/
def MayFailTogether (ft : Network) (d e : Edge) : Prop :=
  ∃ σ : Assignment, σ.WellSorted ∧ HoldsAt σ ft.constraints ∧ ft.IsDown σ d ∧ ft.IsDown σ e

/-- Values of the symbolic values that are allowed give both nodes an initial route. -/
def MayOriginateTogether (net : Network) (m n : String) : Prop :=
  ∃ σ : Assignment, σ.WellSorted ∧ HoldsAt σ net.constraints ∧
    HoldsAt σ (Predicate.isSome.applyTo (net.initialOf m)) ∧
    HoldsAt σ (Predicate.isSome.applyTo (net.initialOf n))

/-! ### Failures -/

section Failures

variable {net ft : Network} {σ : Assignment} {d e : Edge} (h : net.withFailures 1 = .ok ft)
include h

theorem isDown_iff_of_withFailures_one :
    ft.IsDown σ e ↔ σ.value (failureVar 0) = failureValue e := by
  obtain ⟨-, hnames, rfl⟩ := eq_failing_of_withFailures h
  exact isDown_failing_one

theorem sameText_of_mayFailTogether (hboth : ft.MayFailTogether d e) : d.SameText e := by
  obtain ⟨σ, -, -, hd, he⟩ := hboth
  rw [isDown_iff_of_withFailures_one h] at hd he
  exact failureValue_eq_iff.1 (hd.symm.trans he)

/-- The failure that names one of the edges names the other one too. -/
theorem mayFailTogether_of_sameText (hallows : net.AllowsFailures 1)
    (hd : d ∈ net.topology.edges) (hsame : d.SameText e) : ft.MayFailTogether d e := by
  obtain ⟨σ₀, hσ₀⟩ := Assignment.exists_wellSorted
  have hnamed {σ : Assignment} (hσ : σ.value (failureVar 0) = failureValue d) :
      σ.NamesEdges 1 net.topology.edges := by
    intro i hi
    obtain rfl : i = 0 := by omega
    exact .inr ⟨d, hd, hσ⟩
  obtain ⟨σ, hσ, hvalue, hholds⟩ :=
    hallows (σ₀.withFailure d) (hσ₀.withFailure d) (hnamed rfl)
  have hfailure : σ.value (failureVar 0) = failureValue d := hvalue 0 Nat.one_pos
  refine ⟨σ, hσ, (withFailures_spec h).holdsAt_constraints_iff.2 ⟨hholds, hnamed hfailure⟩, ?_⟩
  rw [isDown_iff_of_withFailures_one h, isDown_iff_of_withFailures_one h,
    ← failureValue_eq_iff.2 hsame]
  exact ⟨hfailure, hfailure⟩

end Failures

theorem allowsFailures_of_symbolics_eq_nil {net : Network} (h : net.symbolics = []) (k : Nat) :
    net.AllowsFailures k := by
  intro τ hτ _
  refine ⟨τ, hτ, fun _ _ => rfl, ?_⟩
  rw [constraints, h]
  exact ⟨_, rfl, rfl⟩

end Network

/-! ### Destinations -/

namespace Protocol.IsNetwork

open Substitution (toNode)

variable {P : Protocol} {origin : Term} {t : Topology} {name m n : String} {D : Destination}
  {ss : List Symbolic} {net : Network} {σ : Assignment} (h : P.IsNetwork origin t D ss net)
  (hP : P.IsValid origin)
  (hD : D = .added (.destination t name) ∨ D = .declared (.destination t name))
include h hP hD

/-- A node starts with a route where its name is the text of the destination. -/
theorem holdsAt_isSome_iff (hn : n ∈ t.nodes) :
    HoldsAt σ (Predicate.isSome.applyTo (net.initialOf n)) ↔
      σ.value (Symbolic.destination t name).unknown = .ofString n := by
  have hterm : D.initialTerm origin n =
      .ite (.eq (.var (Symbolic.destination t name).unknown) (.const (.ofString n))) origin
        (.con 0) := by
    rcases hD with rfl | rfl <;> rfl
  rw [h.initial n hn, Predicate.holdsAt_isSome rfl, hterm]
  by_cases hvalue : σ.value (Symbolic.destination t name).unknown = .ofString n
  · simp [Term.eval, hvalue, Value.isTrue, hP.present]
  · simp [Term.eval, hvalue, Value.isTrue, Value.head?]

theorem eq_of_mayOriginateTogether (hm : m ∈ t.nodes) (hn : n ∈ t.nodes)
    (hboth : net.MayOriginateTogether m n) : Value.ofString m = Value.ofString n := by
  obtain ⟨σ, -, -, hsomem, hsomen⟩ := hboth
  rw [h.holdsAt_isSome_iff hP hD hm] at hsomem
  rw [h.holdsAt_isSome_iff hP hD hn] at hsomen
  exact hsomem.symm.trans hsomen

/-- The destination that is one of the nodes is the other one too. -/
theorem mayOriginateTogether_of_eq (honly : D.symbolics ss = [.destination t name])
    (hm : m ∈ t.nodes) (hn : n ∈ t.nodes) (hsame : Value.ofString m = Value.ofString n) :
    net.MayOriginateTogether m n := by
  obtain ⟨σ₀, hσ₀⟩ := Assignment.exists_wellSorted
  have hvalue : (σ₀.override (toNode t name m)).value (Symbolic.destination t name).unknown =
      .ofString m := Substitution.value_override_single
  refine ⟨_, hσ₀.override (Substitution.isSorted_toNode t name m), ?_,
    (h.holdsAt_isSome_iff hP hD hm).2 hvalue,
    (h.holdsAt_isSome_iff hP hD hn).2 (hvalue.trans hsame)⟩
  rw [Network.constraints, h.symbolics, honly,
    Symbolic.holdsAt_constraints_destination (List.Perm.refl _)]
  exact ⟨⟨m, hm, hvalue⟩, _, rfl, rfl⟩

end Protocol.IsNetwork

/-! ### Which names are conflated -/

/-- Exactly names that are the same text are conflated. If edges are down together with one failure,
their ends have the same texts, and edges whose ends have the same texts can be down together unless
other restrictions prevent it. If two nodes have initial routes for one value of a symbolic
destination, their names are the same text, and nodes whose names are the same text have such routes
if there are no other symbolic values. Names in which no backslash stands before a `u` are the same
text only if they are the same. -/
theorem names_conflated_iff_same_text (t : Topology) :
    (∀ net ft : Network, net.topology = t → net.withFailures 1 = .ok ft →
      ∀ d ∈ t.edges, ∀ e ∈ t.edges, (ft.MayFailTogether d e → d.SameText e) ∧
        (net.AllowsFailures 1 → d.SameText e → ft.MayFailTogether d e)) ∧
    (∀ build : Topology → Destination → List Symbolic → Except Failure Network,
      build = shortestPathNetwork ∨ build = reachabilityNetwork →
      ∀ (name : String) (D : Destination) (declared : List Symbolic),
        D = .added (.destination t name) ∨ D = .declared (.destination t name) →
        ((D.symbolics declared).map Symbolic.name).Nodup →
        ∃ net, build t D declared = .ok net ∧ ∀ m ∈ t.nodes, ∀ n ∈ t.nodes,
          (net.MayOriginateTogether m n → Value.ofString m = Value.ofString n) ∧
          (D.symbolics declared = [.destination t name] → Value.ofString m = Value.ofString n →
            net.MayOriginateTogether m n)) ∧
    ((∀ n ∈ t.nodes, CodePoint.IsPlain n.toList) → t.NamesDiffer) := by
  refine ⟨?_, fun build hbuild name D declared hD hnames => ?_, Topology.namesDiffer_of_isPlain⟩
  · rintro net ft rfl hft d hd e -
    exact ⟨Network.sameText_of_mayFailTogether hft, fun hallows hsame =>
      Network.mayFailTogether_of_sameText hft hallows hd hsame⟩
  · obtain ⟨P, origin, send, choose, rfl, hP⟩ := Protocol.exists_isRegular hbuild
    have hP := hP.toIsValid
    have hfor : D.IsFor t := by rcases hD with rfl | rfl <;> rfl
    obtain ⟨net, hnet, hparts⟩ := Protocol.exists_network hP hfor hnames
    exact ⟨net, hnet, fun m hm n hn => ⟨hparts.eq_of_mayOriginateTogether hP hD hm hn,
      fun honly hsame => hparts.mayOriginateTogether_of_eq hP hD honly hm hn hsame⟩⟩

/-- A node and another one whose name is an escape of the name of the first, both with an edge to a
third. -/
def Topology.spelledTwice : Topology :=
  ⟨[("A", []), ("\\u\x7b41\x7d", []), ("B", ["A", "\\u\x7b41\x7d"])], by decide, by decide,
    by decide⟩

theorem Topology.sameText_spelledTwice : Edge.SameText ⟨"A", "B"⟩ ⟨"\\u\x7b41\x7d", "B"⟩ := by
  decide

theorem exists_failing_spelledTwice :
    ∃ net ft, shortestPathNetwork .spelledTwice (.node "A") [] = .ok net ∧
      net.withFailures 1 = .ok ft ∧ net.topology = .spelledTwice ∧ net.AllowsFailures 1 := by
  obtain ⟨net, ft, hnet, hft, hwith, hsymbolics, hcounts⟩ :=
    exists_countsHops (t := .spelledTwice) (d := "A") (by decide) (k := 1) (by decide)
  exact ⟨net, ft, hnet, hft, hwith.variant.topology.symm.trans hcounts.topology,
    Network.allowsFailures_of_symbolics_eq_nil hsymbolics 1⟩

/-- Different names are conflated: one failure takes two edges down, and two nodes are the symbolic
destination at once. -/
theorem names_conflated_spelledTwice :
    (∃ net ft, shortestPathNetwork .spelledTwice (.node "A") [] = .ok net ∧
      net.withFailures 1 = .ok ft ∧ ∃ d ∈ Topology.spelledTwice.edges,
        ∃ e ∈ Topology.spelledTwice.edges, d ≠ e ∧ ft.MayFailTogether d e) ∧
    ∀ build : Topology → Destination → List Symbolic → Except Failure Network,
      build = shortestPathNetwork ∨ build = reachabilityNetwork →
      ∃ net, build .spelledTwice (.added (.destination .spelledTwice "dest")) [] = .ok net ∧
        ∃ m ∈ Topology.spelledTwice.nodes, ∃ n ∈ Topology.spelledTwice.nodes,
          m ≠ n ∧ net.MayOriginateTogether m n := by
  refine ⟨?_, fun build hbuild => ?_⟩
  · obtain ⟨net, ft, hnet, hft, htopology, hallows⟩ := exists_failing_spelledTwice
    refine ⟨net, ft, hnet, hft, ⟨"A", "B"⟩, by decide, ⟨"\\u\x7b41\x7d", "B"⟩, by decide, by decide,
      Network.mayFailTogether_of_sameText hft hallows ?_ Topology.sameText_spelledTwice⟩
    rw [htopology]
    decide
  · obtain ⟨P, origin, send, choose, rfl, hP⟩ := Protocol.exists_isRegular hbuild
    have hfor : (Destination.added (.destination .spelledTwice "dest")).IsFor .spelledTwice := rfl
    have hnames : ([Symbolic.destination .spelledTwice "dest"].map Symbolic.name).Nodup :=
      List.nodup_singleton _
    obtain ⟨net, hnet, hparts⟩ := Protocol.exists_network hP.toIsValid hfor hnames
    exact ⟨net, hnet, "A", by decide, "\\u\x7b41\x7d", by decide, by decide,
      hparts.mayOriginateTogether_of_eq hP.toIsValid (.inl rfl) rfl (by decide) (by decide)
        (by decide)⟩

/-- The edges of the node that is spelled twice fail together, and names without escapes differ. -/
theorem names_conflated_iff_same_text_spelledTwice :
    (∃ net ft, shortestPathNetwork .spelledTwice (.node "A") [] = .ok net ∧
      net.withFailures 1 = .ok ft ∧ Edge.SameText ⟨"A", "B"⟩ ⟨"\\u\x7b41\x7d", "B"⟩ ∧
      ft.MayFailTogether ⟨"A", "B"⟩ ⟨"\\u\x7b41\x7d", "B"⟩) ∧
    (∃ net, reachabilityNetwork .spelledTwice (.added (.destination .spelledTwice "dest")) [] =
      .ok net ∧ net.MayOriginateTogether "A" "\\u\x7b41\x7d" ∧
        ¬ net.MayOriginateTogether "A" "B") ∧
    Topology.detour.NamesDiffer := by
  obtain ⟨hedges, hnodes, -⟩ := names_conflated_iff_same_text .spelledTwice
  refine ⟨?_, ?_, (names_conflated_iff_same_text .detour).2.2 (by decide)⟩
  · obtain ⟨net, ft, hnet, hft, htopology, hallows⟩ := exists_failing_spelledTwice
    exact ⟨net, ft, hnet, hft, Topology.sameText_spelledTwice,
      (hedges net ft htopology hft _ (by decide) _ (by decide)).2 hallows
        Topology.sameText_spelledTwice⟩
  · obtain ⟨net, hnet, hboth⟩ := hnodes reachabilityNetwork (.inr rfl) "dest"
      (.added (.destination .spelledTwice "dest")) [] (.inl rfl) (List.nodup_singleton _)
    refine ⟨net, hnet, (hboth "A" (by decide) _ (by decide)).2 rfl (by decide), fun h => ?_⟩
    exact absurd ((hboth "A" (by decide) "B" (by decide)).1 h) (by decide)

end RouteInvariants
