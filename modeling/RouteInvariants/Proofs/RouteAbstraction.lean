import RouteInvariants.Proofs.HopCounts
import RouteInvariants.Proofs.Reachability

/-!
Reachability as an abstraction of shortest paths. Forgetting how many hops a route has gone takes the
routes of a shortest-path network to those of a reachability network: it takes first routes to first
routes, it commutes with the edges, of which the same ones are down, and with the choice between
routes (`isHom_isFinite`). So it takes each round of one simulation to the same round of the other
(`reachability_abstracts_shortestPaths`).
-/

namespace RouteInvariants

/-- There is a route, however many hops it has gone. -/
noncomputable def isFinite (a : WithTop ℤ) : Bool := decide (a ≠ ⊤)

theorem isFinite_top : isFinite ⊤ = false := decide_eq_false fun h => h rfl

theorem isFinite_coe (m : ℤ) : isFinite m = true := decide_eq_true WithTop.coe_ne_top

/-- Forgetting the number of hops respects what the networks do to routes. -/
theorem isHom_isFinite (sources : String → Bool) :
    (countsFrom sources).IsHom (hearing sources) isFinite where
  start n := by
    by_cases hn : sources n = true
    · simp only [countsFrom, hearing, hn, if_true]
      exact isFinite_coe 0
    · simp only [countsFrom, hearing, hn]
      exact isFinite_top
  send e a := by
    cases a with
    | top => rfl
    | coe m => exact (isFinite_coe (m + 1)).trans (isFinite_coe m).symm
  choose a b := by
    simp only [isFinite, countsFrom, hearing, ne_eq, min_eq_top, not_and_or, Bool.decide_or]

/-- The routes of the two networks where one forgets the hops of the other. -/
theorem ofCount_iff_ofHeard (a : WithTop ℤ) :
    ((∃ m : ℤ, Value.ofCount a = .some (.int m)) ↔ Value.ofHeard (isFinite a) = .some (.con 0)) ∧
      (Value.ofCount a = .none ↔ Value.ofHeard (isFinite a) = .none) := by
  cases a with
  | top =>
    rw [isFinite_top]
    refine ⟨iff_of_false ?_ ?_, iff_of_true rfl rfl⟩
    · rintro ⟨m, hm⟩
      cases hm
    · decide
  | coe m =>
    rw [isFinite_coe]
    refine ⟨iff_of_true ⟨m, rfl⟩ rfl, iff_of_false ?_ ?_⟩
    · intro h
      cases h
    · decide

/-- Reachability abstracts shortest paths round by round, for every bound on the edges that may be
down. With the same destination, which is a node or a symbolic value, both networks can be built with
failures, and their simulations have results for every number of rounds. For all values of the symbolic
values and at every time, a node holds a number of hops in one simulation exactly where it holds a
route in the other, and nothing where it holds nothing. -/
theorem reachability_abstracts_shortestPaths (t : Topology) (d : Destination) (hd : d.IsFor t)
    (ss : List Symbolic) (k : Nat) (hk : k ≤ t.edgeCount)
    (hnames : ((d.symbolics ss ++ failureSymbolics t.edges k).map Symbolic.name).Nodup) :
    ∃ paths pathsFt reach reachFt pathsRun reachRun,
      shortestPathNetwork t d ss = .ok paths ∧ paths.withFailures k = .ok pathsFt ∧
      reachabilityNetwork t d ss = .ok reach ∧ reach.withFailures k = .ok reachFt ∧
      (∀ rounds, pathsFt.simulate rounds = .ok ((List.range (rounds + 1)).map pathsRun)) ∧
      (∀ rounds, reachFt.simulate rounds = .ok ((List.range (rounds + 1)).map reachRun)) ∧
      ∀ σ : Assignment, σ.WellSorted → ∀ i, ∀ n ∈ t.nodes,
        let hops := AnnotatedNetwork.valuesOf σ (pathsRun i) n
        let heard := AnnotatedNetwork.valuesOf σ (reachRun i) n
        ((∃ m : Int, hops = .some (.int m)) ↔ heard = .some (.con 0)) ∧
          (hops = .none ↔ heard = .none) := by
  obtain ⟨paths, hfresh, hpaths, hpathsParts, hpathsFt⟩ :=
    Protocol.exists_failing Protocol.isValid_hopCounts hd hk hnames
  obtain ⟨reach, hfresh', hreach, hreachParts, hreachFt⟩ :=
    Protocol.exists_failing Protocol.isValid_reachability hd hk hnames
  have hcounts (σ : Assignment) := hpathsParts.follows_failing Protocol.isValid_hopCounts
    (hpathsParts.follows_countsFrom (σ := σ)) Value.ofCount_top hfresh
  have habsent : Value.ofHeard (isFinite ⊤) = .none := by
    rw [isFinite_top]
    rfl
  have hhears (σ : Assignment) := hreachParts.follows_failing Protocol.isValid_reachability
    (hreachParts.follows_hearing (σ := σ)) habsent hfresh'
  obtain ⟨σ₀, hσ₀⟩ := Assignment.exists_wellSorted
  obtain ⟨pathsRun, hpathsRun⟩ := (hcounts σ₀).exists_run hσ₀
  obtain ⟨reachRun, hreachRun⟩ := (hhears σ₀).exists_run hσ₀
  refine ⟨paths, _, reach, _, pathsRun, reachRun, hpaths, hpathsFt, hreach, hreachFt,
    hpathsRun.simulate, hreachRun.simulate, fun σ hσ i n hn => ?_⟩
  have hdown : { e | (reach.failing k hfresh').IsDown σ e } =
      { e | (paths.failing k hfresh).IsDown σ e } :=
    Set.ext fun e => Network.isDown_failing.trans Network.isDown_failing.symm
  have htopology : (paths.failing k hfresh).topology = t := hpathsParts.topology
  have htopology' : (reach.failing k hfresh').topology = t := hreachParts.topology
  have hhops := ((hcounts σ).run hσ hpathsRun i).valuesOf (htopology.symm ▸ hn)
  have hheard := ((hhears σ).run hσ hreachRun i).valuesOf (htopology'.symm ▸ hn)
  rw [hdown, htopology', ← htopology, ← ((isHom_isFinite fun n => d.isAt σ n).dropping ⊤ _).rounds]
    at hheard
  rw [hhops, hheard]
  exact ofCount_iff_ofHeard _

/-- On the detour, with a symbolic destination and one failure, the last node holds a route after one
round in both simulations or in neither. -/
theorem reachability_abstracts_shortestPaths_detour :
    ∃ (paths pathsFt reach reachFt : Network) (pathsRun reachRun : Nat → List (String × Typed)),
      let d : Destination := .added (.destination .detour "destination")
      shortestPathNetwork .detour d [] = .ok paths ∧ paths.withFailures 1 = .ok pathsFt ∧
      reachabilityNetwork .detour d [] = .ok reach ∧ reach.withFailures 1 = .ok reachFt ∧
      pathsFt.simulate 1 = .ok [pathsRun 0, pathsRun 1] ∧
      reachFt.simulate 1 = .ok [reachRun 0, reachRun 1] ∧
      (∀ σ : Assignment, σ.WellSorted → (AnnotatedNetwork.valuesOf σ (pathsRun 1) "C" = .none ↔
        AnnotatedNetwork.valuesOf σ (reachRun 1) "C" = .none)) ∧
      ∃ σ : Assignment, σ.WellSorted := by
  obtain ⟨paths, pathsFt, reach, reachFt, pathsRun, reachRun, hpaths, hpathsFt, hreach, hreachFt,
    hpathsRun, hreachRun, hagree⟩ := reachability_abstracts_shortestPaths .detour
      (.added (.destination .detour "destination")) rfl [] 1 (by decide) (by decide)
  exact ⟨paths, pathsFt, reach, reachFt, pathsRun, reachRun, hpaths, hpathsFt, hreach, hreachFt,
    hpathsRun 1, hreachRun 1, fun σ hσ => (hagree σ hσ 1 "C" (by decide)).2,
    Assignment.exists_wellSorted⟩

end RouteInvariants
