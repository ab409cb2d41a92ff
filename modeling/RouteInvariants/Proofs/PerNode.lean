import RouteInvariants.Proofs.Decided

/-!
The modular check of the whole network and that of each node. The first makes one of the three checks
at all nodes before it turns to the next one; the second makes all three at one node, and then at the
others. Where the queries are decided, both come to the same: a node's result is the first check that
fails at it (`checkPerNode_cases`), and the result for the network is the first check that fails at
any node (`checkAnnotations_cases`).

They differ in when obligations are formed. The check of each node forms all of them first, and the
check of the network those of a phase when it gets there, so that an obligation that cannot be formed
may not matter to it.
-/

namespace RouteInvariants

namespace CheckKind

/-- The parts of the modular check, in order. -/
def modular : List CheckKind := [base, step, safety]

/-- The place of a check in the order of the checks. -/
def rank : CheckKind → Nat
  | base => 0
  | step => 1
  | safety => 2
  | monolithic => 3

theorem rank_injective : Function.Injective rank := by
  intro k k' h
  cases k <;> cases k' <;> first | rfl | cases h

theorem sorted_modular : modular.Pairwise fun k k' => k.rank < k'.rank := by
  simp [modular, rank]

/-- What has a smaller rank stands before. -/
theorem mem_before_of_rank_lt {before after : List CheckKind} {k k' : CheckKind}
    (h : modular = before ++ k :: after) (hk' : k' ∈ modular) (hlt : k'.rank < k.rank) :
    k' ∈ before := by
  have hsorted := sorted_modular
  rw [h, List.pairwise_append, List.pairwise_cons] at hsorted
  rw [h] at hk'
  rcases List.mem_append.1 hk' with hbefore | hrest
  · exact hbefore
  · rcases List.mem_cons.1 hrest with rfl | hafter
    · omega
    · have hgt := hsorted.2.1.1 k' hafter
      omega

end CheckKind

namespace AnnotatedNetwork

open Run Obligation

variable (a : AnnotatedNetwork)

/-- The obligation of a check at a node. -/
def obligation (kind : CheckKind) (n : String) : Except Failure Obligation :=
  match kind with
  | .base => a.baseObligation n
  | .step => a.inductiveObligation n
  | .safety => a.safetyObligation n
  | .monolithic => a.monolithicObligation

/-- The check has an obligation at the node, without a solution. -/
def Passes (kind : CheckKind) (n : String) : Prop :=
  ∃ o, a.obligation kind n = .ok o ∧ ¬ o.query.Solvable

/-- The check has an obligation at the node, with a solution. -/
def Fails (kind : CheckKind) (n : String) : Prop :=
  ∃ o, a.obligation kind n = .ok o ∧ o.query.Solvable

/-- The queries of the modular check are decided, as far as they can be formed. -/
def DecidedBy (oracle : Oracle) : Prop :=
  ∀ kind ∈ CheckKind.modular, ∀ n ∈ a.network.topology.nodes, ∀ o,
    a.obligation kind n = .ok o → oracle.Decides o.query

variable {a} {oracle : Oracle} {arrival : Arrival} {settings : CheckSettings} {kind : CheckKind}
  {n : String} {o : Obligation}

theorem Passes.not_fails (h : a.Passes kind n) : ¬ a.Fails kind n := by
  obtain ⟨o, ho, hno⟩ := h
  rintro ⟨o', ho', hsome⟩
  rw [ho] at ho'
  cases ho'
  exact hno hsome

theorem Passes.ne_error (h : a.Passes kind n) (e : Failure) : a.obligation kind n ≠ .error e := by
  obtain ⟨o, ho, -⟩ := h
  rw [ho]
  intro he
  cases he

/-- A counterexample is of the kind of its obligation, and at its node. -/
theorem witness_of_obligation (hkind : kind ∈ CheckKind.modular)
    (hn : n ∈ a.network.topology.nodes) (ho : a.obligation kind n = .ok o) (m : Model) :
    (o.witness m).kind = kind ∧ (o.witness m).node = .text n := by
  cases kind with
  | base =>
    rw [(a.baseObligation_spec hn ho).witness]
    exact ⟨rfl, rfl⟩
  | step =>
    obtain ⟨x, -, hspec⟩ := a.inductiveObligation_spec ho
    rw [hspec.witness]
    exact ⟨rfl, rfl⟩
  | safety =>
    rw [(a.safetyObligation_spec ho).witness]
    exact ⟨rfl, rfl⟩
  | monolithic => simp [CheckKind.modular] at hkind

/-! ### One check at several nodes -/

theorem mapM_decided {ns : List String} {os : List Obligation}
    (h : ∀ n ∈ ns, ∀ o, a.obligation kind n = .ok o → oracle.Decides o.query)
    (hos : ns.mapM (a.obligation kind) = .ok os) : ∀ o ∈ os, oracle.Decides o.query := by
  intro o ho
  obtain ⟨n, hn, hobligation⟩ := exists_of_mem_mapM hos ho
  exact h n hn o hobligation

theorem mapM_passes_iff {ns : List String} {os : List Obligation}
    (hos : ns.mapM (a.obligation kind) = .ok os) :
    (∀ n ∈ ns, a.Passes kind n) ↔ ∀ o ∈ os, ¬ o.query.Solvable := by
  constructor
  · intro h o ho
    obtain ⟨n, hn, hobligation⟩ := exists_of_mem_mapM hos ho
    exact fun hsome => (h n hn).not_fails ⟨o, hobligation, hsome⟩
  · intro h n hn
    obtain ⟨o, ho, hobligation⟩ := exists_mem_of_mapM hos hn
    exact ⟨o, hobligation, h o ho⟩

/-- A check at some nodes passes exactly where it does at each of them. -/
theorem dischargeAll_eq_none_iff {node : Option String} {ns : List String}
    (hns : a.nodesOf node = .ok ns)
    (h : ∀ n ∈ ns, ∀ o, a.obligation kind n = .ok o → oracle.ExactOn o.query) (s : Session) :
    ((dischargeAll a oracle arrival settings (a.obligation kind) node).outcome s).1 = .ok none ↔
      ∀ n ∈ ns, a.Passes kind n := by
  have hgives := gives_bind (gives_fetch (a.nodesOf node)) fun ns => gives_bind
    (gives_fetch (ns.mapM (a.obligation kind))) fun os => gives_discharge oracle arrival settings os
  rw [show (dischargeAll a oracle arrival settings (a.obligation kind) node).outcome s = _ from
    hgives s]
  simp only [followedBy, hns]
  cases hos : ns.mapM (a.obligation kind) with
  | error e =>
    constructor
    · intro hout
      cases hout
    · intro hall
      obtain ⟨os, hok⟩ := exists_mapM fun n hn => (hall n hn).imp fun _ ho => ho.1
      rw [hos] at hok
      cases hok
  | ok os =>
    rw [mapM_passes_iff hos]
    refine dischargeOutcome_eq_none_iff arrival settings (fun o ho => ?_) s.asked
    obtain ⟨n, hn, hobligation⟩ := exists_of_mem_mapM hos ho
    exact h n hn o hobligation

/-- A check of the network passes exactly where it does for every single node. -/
theorem dischargeAll_eq_none_iff_forall {arrival' : Arrival} {settings' : CheckSettings}
    (hkind : kind ∈ CheckKind.modular) (h : a.DecidedBy oracle) (s : Session)
    (sessions : String → Session) :
    ((dischargeAll a oracle arrival settings (a.obligation kind) none).outcome s).1 = .ok none ↔
      ∀ n ∈ a.network.topology.nodes, ((dischargeAll a oracle arrival' settings'
        (a.obligation kind) (some n)).outcome (sessions n)).1 = .ok none := by
  have hexact : ∀ n ∈ a.network.topology.nodes, ∀ o, a.obligation kind n = .ok o →
      oracle.ExactOn o.query := fun n hn o ho => (h kind hkind n hn o ho).exactOn
  rw [dischargeAll_eq_none_iff rfl hexact]
  refine forall₂_congr fun n hn => ?_
  have hns : a.nodesOf (some n) = .ok [n] := if_pos (List.contains_iff_mem.2 hn)
  rw [dischargeAll_eq_none_iff hns (List.forall_mem_singleton.2 (hexact n hn)),
    List.forall_mem_singleton]

/-! ### The first check that fails -/

/-- The result of some checks at some nodes: none if all of them pass, and otherwise a state of the
first kind with a failure, at a node where that check fails. -/
def FirstFailure (a : AnnotatedNetwork) (kinds : List CheckKind) (ns : List String) :
    Option State → Prop
  | none => ∀ kind ∈ kinds, ∀ n ∈ ns, a.Passes kind n
  | some st => st.kind ∈ kinds ∧ (∃ n ∈ ns, st.node = .text n ∧ a.Fails st.kind n) ∧
      (∀ n ∈ ns, ∃ o, a.obligation st.kind n = .ok o) ∧
      ∀ kind ∈ kinds, kind.rank < st.kind.rank → ∀ n ∈ ns, a.Passes kind n

variable {kinds : List CheckKind} {ns : List String} {found : Option State}

/-- A check that passes can be put in front. -/
theorem FirstFailure.cons (hkind : ∀ n ∈ ns, a.Passes kind n)
    (h : a.FirstFailure kinds ns found) : a.FirstFailure (kind :: kinds) ns found := by
  cases found with
  | none => exact List.forall_mem_cons.2 ⟨hkind, h⟩
  | some st =>
    obtain ⟨hmem, hfails, hformed, hfirst⟩ := h
    exact ⟨List.mem_cons_of_mem _ hmem, hfails, hformed,
      List.forall_mem_cons.2 ⟨fun _ => hkind, hfirst⟩⟩

/-- Results of the same checks at some nodes and at one of them: a failure at the one is not earlier
than the first one among all of them. -/
theorem FirstFailure.rank_le {st st' : State} (h : a.FirstFailure kinds ns (some st))
    (h' : a.FirstFailure kinds [n] (some st')) (hn : n ∈ ns) : st.kind.rank ≤ st'.kind.rank := by
  obtain ⟨-, -, -, hfirst⟩ := h
  obtain ⟨hmem, ⟨m, hm, -, hfails⟩, -⟩ := h'
  obtain rfl : m = n := List.mem_singleton.1 hm
  by_contra hlt
  exact (hfirst _ hmem (by omega) m hn).not_fails hfails

/-- Where a check fails, the result of the node shows a failure that is not later. -/
theorem FirstFailure.exists_of_fails (h : a.FirstFailure kinds [n] found) (hkind : kind ∈ kinds)
    (hfails : a.Fails kind n) :
    ∃ st, found = some st ∧ st.node = .text n ∧ st.kind.rank ≤ kind.rank := by
  cases found with
  | none => exact absurd hfails (h kind hkind n (List.mem_singleton_self n)).not_fails
  | some st =>
    obtain ⟨-, ⟨m, hm, hnode, -⟩, -, hfirst⟩ := h
    obtain rfl : m = n := List.mem_singleton.1 hm
    refine ⟨st, rfl, hnode, ?_⟩
    by_contra hlt
    exact (hfirst kind hkind (by omega) m hm).not_fails hfails

/-! ### The check of the network -/

theorem phasesOutcome_passed {os : List Obligation} {rest : List (Except Failure (List Obligation))}
    {k : Nat} (h : (dischargeOutcome oracle arrival settings os k).1 = .ok none) :
    phasesOutcome oracle arrival settings (.ok os :: rest) k =
      phasesOutcome oracle arrival settings rest
        (dischargeOutcome oracle arrival settings os k).2 := by
  rw [phasesOutcome]
  generalize dischargeOutcome oracle arrival settings os k = out at h ⊢
  obtain ⟨x, k'⟩ := out
  cases h
  rfl

theorem phasesOutcome_found {os : List Obligation} {rest : List (Except Failure (List Obligation))}
    {k : Nat} {st : State} (h : (dischargeOutcome oracle arrival settings os k).1 = .ok (some st)) :
    (phasesOutcome oracle arrival settings (.ok os :: rest) k).1 = .ok (some st) := by
  rw [phasesOutcome]
  generalize dischargeOutcome oracle arrival settings os k = out at h ⊢
  obtain ⟨x, k'⟩ := out
  cases h
  rfl

/-- The first check that does not pass has an obligation that cannot be formed. -/
def FirstError (a : AnnotatedNetwork) (kinds : List CheckKind) (ns : List String) (e : Failure) :
    Prop :=
  ∃ kind ∈ kinds, (∃ n ∈ ns, a.obligation kind n = .error e) ∧
    ∀ kind' ∈ kinds, kind'.rank < kind.rank → ∀ n ∈ ns, a.Passes kind' n

/-- No check of a sorted list comes before its first one. -/
theorem passes_before_first (hsorted : ∀ kind' ∈ kinds, kind.rank < kind'.rank) :
    ∀ kind' ∈ kind :: kinds, kind'.rank < kind.rank → ∀ n ∈ ns, a.Passes kind' n := by
  rw [List.forall_mem_cons]
  refine ⟨fun hlt => absurd hlt (Nat.lt_irrefl _), fun kind' hkind' hlt => ?_⟩
  have hgt := hsorted kind' hkind'
  omega

/-- A solution of an obligation of the first check is a first failure. -/
theorem firstFailure_of_mem {os : List Obligation} (hkind : kind ∈ CheckKind.modular)
    (hsorted : ∀ kind' ∈ kinds, kind.rank < kind'.rank)
    (hos : a.network.topology.nodes.mapM (a.obligation kind) = .ok os) (ho : o ∈ os)
    {σ : Assignment} (hσ : σ.WellSorted) (hq : o.query.holds σ) :
    a.FirstFailure (kind :: kinds) a.network.topology.nodes
      (some (o.witness (.ofAssignment σ))) := by
  obtain ⟨n, hn, hobligation⟩ := exists_of_mem_mapM hos ho
  obtain ⟨hwitness, hnode⟩ := witness_of_obligation hkind hn hobligation (.ofAssignment σ)
  simp only [FirstFailure, hwitness]
  refine ⟨List.mem_cons_self, ⟨n, hn, hnode, o, hobligation, σ, hσ, hq⟩, fun m hm => ?_,
    passes_before_first hsorted⟩
  obtain ⟨d, -, hd⟩ := exists_mem_of_mapM hos hm
  exact ⟨d, hd⟩

theorem FirstError.cons {e : Failure} (hkind : ∀ n ∈ ns, a.Passes kind n)
    (h : a.FirstError kinds ns e) : a.FirstError (kind :: kinds) ns e := by
  obtain ⟨kind', hkind', herror, hfirst⟩ := h
  exact ⟨kind', List.mem_cons_of_mem _ hkind', herror,
    List.forall_mem_cons.2 ⟨fun _ => hkind, hfirst⟩⟩

/-- The phases end with the first failure or with the first error, whichever comes first. -/
theorem phasesOutcome_cases (hsorted : kinds.Pairwise fun k k' => k.rank < k'.rank)
    (hkinds : ∀ kind ∈ kinds, kind ∈ CheckKind.modular) (h : a.DecidedBy oracle) (k : Nat) :
    let out := (phasesOutcome oracle arrival settings
      (kinds.map fun kind => a.network.topology.nodes.mapM (a.obligation kind)) k).1
    (∃ found, out = .ok found ∧ a.FirstFailure kinds a.network.topology.nodes found) ∨
    ∃ e, out = .error e ∧ a.FirstError kinds a.network.topology.nodes e := by
  induction kinds generalizing k with
  | nil => exact .inl ⟨none, rfl, by simp [FirstFailure]⟩
  | cons kind kinds ih =>
    rw [List.forall_mem_cons] at hkinds
    rw [List.pairwise_cons] at hsorted
    rw [List.map_cons]
    cases hos : a.network.topology.nodes.mapM (a.obligation kind) with
    | error e =>
      obtain ⟨n, hn, he⟩ := exists_of_mapM_eq_error hos
      exact .inr ⟨e, rfl, kind, List.mem_cons_self, ⟨n, hn, he⟩, passes_before_first hsorted.1⟩
    | ok os =>
      rcases dischargeOutcome_decided arrival settings
        (mapM_decided (h kind hkinds.1) hos) k with ⟨hnone, hno⟩ | ⟨o, ho, σ, hσ, hq, hout⟩
      · -- the phase passes, and what comes of the others is the result
        have hpasses := (mapM_passes_iff hos).2 hno
        rw [phasesOutcome_passed hnone]
        rcases ih hsorted.2 hkinds.2 _ with ⟨found, hfound, hrest⟩ | ⟨e, hout, hrest⟩
        · exact .inl ⟨found, hfound, hrest.cons hpasses⟩
        · exact .inr ⟨e, hout, hrest.cons hpasses⟩
      · exact .inl ⟨_, phasesOutcome_found hout,
          firstFailure_of_mem hkinds.1 hsorted.1 hos ho hσ hq⟩

variable (arrival settings) in
theorem checkAnnotations_cases (hlaws : settings.checkMergeLaws = false) (h : a.DecidedBy oracle)
    (s : Session) :
    let out := ((a.checkAnnotations oracle arrival settings).outcome s).1
    (∃ found, out = .ok found ∧
      a.FirstFailure CheckKind.modular a.network.topology.nodes found) ∨
    ∃ e, out = .error e ∧ a.FirstError CheckKind.modular a.network.topology.nodes e := by
  rw [a.checkAnnotations_outcome oracle arrival settings hlaws s]
  exact phasesOutcome_cases CheckKind.sorted_modular (fun _ hkind => hkind) h s.asked

/-! ### The check of each node -/

/-- The obligations of a node, in the order of the checks. -/
def chain (a : AnnotatedNetwork) (n : String) : Except Failure (String × List Obligation) := do
  return (n, ← CheckKind.modular.mapM fun kind => a.obligation kind n)

theorem checkPerNode_eq (a : AnnotatedNetwork) (oracle : Oracle) (arrival : Arrival)
    (settings : CheckSettings) : a.checkPerNode oracle arrival settings =
      fetch (a.network.topology.nodes.mapM a.chain) >>= dischargeChains oracle arrival settings := by
  have hchain (n : String) : (do
      return (n, [← a.baseObligation n, ← a.inductiveObligation n, ← a.safetyObligation n])) =
        a.chain n := by
    simp only [chain, CheckKind.modular, List.mapM_cons, List.mapM_nil, obligation, bind_assoc,
      pure_bind]
  simp only [checkPerNode, hchain]

theorem chain_eq_ok {c : String × List Obligation} (h : a.chain n = .ok c) : c.1 = n ∧
    List.Forall₂ (fun kind o => a.obligation kind n = .ok o) CheckKind.modular c.2 := by
  obtain ⟨os, hos, hc⟩ := bind_eq_ok.1 h
  cases hc
  exact ⟨rfl, mapM_eq_ok.1 hos⟩

theorem exists_of_chain_eq_error {e : Failure} (h : a.chain n = .error e) :
    ∃ kind ∈ CheckKind.modular, a.obligation kind n = .error e := by
  rw [chain] at h
  cases hos : CheckKind.modular.mapM fun kind => a.obligation kind n with
  | ok os =>
    rw [hos] at h
    cases h
  | error e' =>
    rw [hos] at h
    cases h
    exact exists_of_mapM_eq_error hos

/-- The state shown for the chain of a node is the first failure there. -/
theorem firstFailure_of_showsFirst {os : List Obligation} (hn : n ∈ a.network.topology.nodes)
    (hos : List.Forall₂ (fun kind o => a.obligation kind n = .ok o) CheckKind.modular os)
    (h : ShowsFirst os found) : a.FirstFailure CheckKind.modular [n] found := by
  cases found with
  | none =>
    intro kind hkind m hm
    obtain rfl : m = n := List.mem_singleton.1 hm
    obtain ⟨o, ho, hobligation⟩ := exists_right_of_forall₂ hos hkind
    exact ⟨o, hobligation, h o ho⟩
  | some st =>
    obtain ⟨before, o, after, m, rfl, hbefore, hsome, rfl⟩ := h
    obtain ⟨passed, kind, rest, hsplit, hpassed, hobligation⟩ := exists_split_of_forall₂ hos
    have hmem : kind ∈ CheckKind.modular := by simp [hsplit]
    obtain ⟨hkind, hnode⟩ := witness_of_obligation hmem hn hobligation m
    simp only [FirstFailure, hkind, List.forall_mem_singleton]
    refine ⟨hmem, ⟨n, List.mem_singleton_self n, hnode, o, hobligation, hsome⟩, ⟨o, hobligation⟩,
      fun kind' hkind' hlt => ?_⟩
    obtain ⟨d, hd, hobligation'⟩ :=
      exists_right_of_forall₂ hpassed (CheckKind.mem_before_of_rank_lt hsplit hkind' hlt)
    exact ⟨d, hobligation', hbefore d hd⟩

variable (arrival settings) in
/-- Every node gets its first failure, unless an obligation cannot be formed. -/
theorem checkPerNode_cases (h : a.DecidedBy oracle) (s : Session) :
    let out := ((a.checkPerNode oracle arrival settings).outcome s).1
    (∃ results, out = .ok results ∧ Entries.keys results = a.network.topology.nodes ∧
      ∀ r ∈ results, a.FirstFailure CheckKind.modular [r.1] r.2) ∨
    ∃ kind ∈ CheckKind.modular, ∃ n ∈ a.network.topology.nodes, ∃ e,
      a.obligation kind n = .error e ∧ out = .error e := by
  rw [checkPerNode_eq]
  cases hchains : a.network.topology.nodes.mapM a.chain with
  | error e =>
    obtain ⟨n, hn, hchain⟩ := exists_of_mapM_eq_error hchains
    obtain ⟨kind, hkind, herror⟩ := exists_of_chain_eq_error hchain
    exact .inr ⟨kind, hkind, n, hn, e, herror, rfl⟩
  | ok chains =>
    have hkeys : Entries.keys chains = a.network.topology.nodes := by
      have hfst : List.Forall₂ (· = ·) a.network.topology.nodes (Entries.keys chains) :=
        List.forall₂_map_right_iff.2 ((mapM_eq_ok.1 hchains).imp fun _ _ hc => (chain_eq_ok hc).1.symm)
      rw [List.forall₂_eq_eq_eq] at hfst
      exact hfst.symm
    have hdecides : ∀ c ∈ chains, ∀ o ∈ c.2, oracle.Decides o.query := by
      intro c hc o ho
      obtain ⟨n, hn, hchain⟩ := exists_of_mem_mapM hchains hc
      obtain ⟨kind, hkind, hobligation⟩ := exists_left_of_forall₂ (chain_eq_ok hchain).2 ho
      exact h kind hkind n hn o hobligation
    have hnodup : (Entries.keys chains).Nodup := hkeys ▸ a.network.topology.nodup_nodes
    obtain ⟨results, hresults, hconcluded⟩ :=
      ensures_dischargeChains arrival settings hnodup hdecides s
    refine .inl ⟨results, hresults, ?_, fun r hr => ?_⟩
    · rw [Entries.keys_eq_of_forall₂ (hconcluded.imp fun _ _ hr => hr.1), hkeys]
    · obtain ⟨c, hc, hkey, hshows⟩ := exists_left_of_forall₂ hconcluded hr
      obtain ⟨n, hn, hchain⟩ := exists_of_mem_mapM hchains hc
      obtain ⟨rfl, hos⟩ := chain_eq_ok hchain
      rw [hkey]
      exact firstFailure_of_showsFirst hn hos hshows

/-! ### Both checks -/

theorem checkAnnotations_eq_none_iff (hlaws : settings.checkMergeLaws = false)
    (h : a.DecidedBy oracle) (s : Session) :
    ((a.checkAnnotations oracle arrival settings).outcome s).1 = .ok none ↔
      ∀ kind ∈ CheckKind.modular, ∀ n ∈ a.network.topology.nodes, a.Passes kind n := by
  rcases checkAnnotations_cases arrival settings hlaws h s with
    ⟨found, hout, hfirst⟩ | ⟨e, hout, kind, hkind, ⟨n, hn, he⟩, -⟩
  · rw [hout]
    cases found with
    | none => exact ⟨fun _ => hfirst, fun _ => rfl⟩
    | some st =>
      obtain ⟨hkind, ⟨n, hn, -, hfails⟩, -⟩ := hfirst
      exact ⟨fun hnone => (nomatch hnone), fun hall => absurd hfails (hall _ hkind n hn).not_fails⟩
  · rw [hout]
    exact ⟨fun hnone => (nomatch hnone), fun hall => absurd he ((hall kind hkind n hn).ne_error e)⟩

theorem checkPerNode_eq_none_iff (h : a.DecidedBy oracle) (s : Session) :
    ((a.checkPerNode oracle arrival settings).outcome s).1 =
        .ok (a.network.topology.mapNodes fun _ => none) ↔
      ∀ kind ∈ CheckKind.modular, ∀ n ∈ a.network.topology.nodes, a.Passes kind n := by
  rcases checkPerNode_cases arrival settings h s with
    ⟨results, hout, hkeys, hfirst⟩ | ⟨kind, hkind, n, hn, e, he, hout⟩
  · rw [hout, Except.ok.injEq]
    constructor
    · rintro rfl kind hkind n hn
      exact hfirst (n, none) (List.mem_map_of_mem hn) kind hkind n (List.mem_singleton_self n)
    · intro hall
      have hnone : ∀ r ∈ results, r = (r.1, none) := by
        rintro ⟨n, found⟩ hr
        have hn : n ∈ a.network.topology.nodes := hkeys ▸ List.mem_map_of_mem hr
        cases found with
        | none => rfl
        | some st =>
          obtain ⟨hkind, ⟨m, hm, -, hfails⟩, -⟩ := hfirst _ hr
          obtain rfl : m = n := List.mem_singleton.1 hm
          exact absurd hfails (hall _ hkind m hn).not_fails
      calc results = results.map fun r => (r.1, none) := by
            rw [List.map_congr_left fun r hr => (hnone r hr).symm, List.map_id']
        _ = (Entries.keys results).map fun n => (n, none) := by simp [Entries.keys]
        _ = a.network.topology.mapNodes fun _ => none := by rw [hkeys]; rfl
  · rw [hout]
    exact ⟨fun hnone => (nomatch hnone), fun hall => absurd he ((hall kind hkind n hn).ne_error e)⟩

/-- The result of the check of each node, next to a counterexample of the check of the network. -/
theorem checkPerNode_of_firstFailure {st : State} (h : a.DecidedBy oracle) (s : Session)
    (hfirst : a.FirstFailure CheckKind.modular a.network.topology.nodes (some st)) :
    let each := ((a.checkPerNode oracle arrival settings).outcome s).1
    ∃ n ∈ a.network.topology.nodes, st.node = .text n ∧
      ((∃ results, each = .ok results ∧ Entries.keys results = a.network.topology.nodes ∧
        (∃ st', Entries.get? results n = some (some st') ∧ st'.kind = st.kind ∧
          st'.node = .text n) ∧
        ∀ m st', Entries.get? results m = some (some st') → st.kind.rank ≤ st'.kind.rank) ∨
      ∃ kind ∈ CheckKind.modular, st.kind.rank < kind.rank ∧ ∃ m ∈ a.network.topology.nodes, ∃ e,
        a.obligation kind m = .error e ∧ each = .error e) := by
  have hearliest := hfirst
  obtain ⟨hkind, ⟨n, hn, hnode, hfails⟩, hformed, hpasses⟩ := hfirst
  refine ⟨n, hn, hnode, ?_⟩
  rcases checkPerNode_cases arrival settings h s with
    ⟨results, hout, hkeys, hresults⟩ | ⟨kind, hkind', m, hm, e, he, hout⟩
  · have hat {m : String} {found : Option State} (hget : Entries.get? results m = some found) :
        m ∈ a.network.topology.nodes ∧ a.FirstFailure CheckKind.modular [m] found := by
      have hmem := Entries.mem_of_get? hget
      exact ⟨hkeys ▸ List.mem_map_of_mem hmem, hresults _ hmem⟩
    obtain ⟨found, hget⟩ := Entries.exists_get? (hkeys ▸ hn)
    obtain ⟨st', rfl, hnode', hle⟩ := (hat hget).2.exists_of_fails hkind hfails
    have hrank := hearliest.rank_le (hat hget).2 hn
    exact .inl ⟨results, hout, hkeys,
      ⟨st', hget, CheckKind.rank_injective (Nat.le_antisymm hle hrank), hnode'⟩,
      fun m st' hget => hearliest.rank_le (hat hget).2 (hat hget).1⟩
  · -- up to the kind of the failure all obligations can be formed
    refine .inr ⟨kind, hkind', ?_, m, hm, e, he, hout⟩
    by_contra hle
    rcases Nat.lt_or_eq_of_le (Nat.not_lt.1 hle) with hlt | heq
    · exact (hpasses kind hkind' hlt m hm).ne_error e he
    · obtain ⟨o, ho⟩ := hformed m hm
      rw [← CheckKind.rank_injective heq, he] at ho
      cases ho

/-- A counter of the rounds that is said to be negative. -/
def negativeCounter (property : Invariant) : AnnotatedNetwork :=
  { counter (.globally (.compare .lt (.datum (.int 0)))) with
    modularProperties := [("A", property)] }

theorem fails_negativeCounter (property : Invariant) :
    (negativeCounter property).Fails .base "A" := by
  obtain ⟨o, ho⟩ : ∃ o, (negativeCounter property).baseObligation "A" = .ok o := ⟨_, rfl⟩
  obtain ⟨σ, hσ⟩ := Assignment.exists_wellSorted
  have hallows : (negativeCounter property).Allows σ := ⟨_, rfl, rfl⟩
  have hviolation : (negativeCounter property).BaseViolation σ "A" :=
    ⟨_, rfl, fun h => by cases h⟩
  obtain ⟨τ, hτ, -, hq⟩ :=
    (baseObligation_hasModel_iff (List.mem_singleton_self _) ho hσ).2 ⟨hallows, hviolation⟩
  exact ⟨o, ho, τ, hτ, hq⟩

/-- The check of the network finds that out first, whatever else it has to show. -/
theorem checkAnnotations_negativeCounter {property : Invariant}
    (h : (negativeCounter property).DecidedBy oracle) :
    ∃ st, (((negativeCounter property).checkAnnotations oracle .inOrder default).outcome default).1 =
      .ok (some st) ∧ st.kind = .base := by
  have hfails := fails_negativeCounter property
  rcases checkAnnotations_cases .inOrder default rfl h default with
    ⟨found, hout, hfirst⟩ | ⟨e, hout, kind, hkind, ⟨n, hn, he⟩, hpasses⟩
  · obtain ⟨st, rfl, -, hle⟩ := FirstFailure.exists_of_fails (n := "A") hfirst (by decide) hfails
    exact ⟨st, hout, CheckKind.rank_injective (Nat.le_zero.1 hle)⟩
  · -- an error of a later check comes too late, and the base check has none
    obtain rfl : n = "A" := List.mem_singleton.1 hn
    by_cases hbase : kind = .base
    · subst hbase
      obtain ⟨o, ho, -⟩ := hfails
      rw [ho] at he
      cases he
    · have hlt : CheckKind.base.rank < kind.rank :=
        Nat.pos_of_ne_zero fun hzero => hbase (CheckKind.rank_injective hzero)
      exact absurd hfails (hpasses .base (by decide) hlt "A" hn).not_fails

end AnnotatedNetwork

end RouteInvariants
