import RouteInvariants.Proofs.Soundness

/-!
Checks whose queries are decided. An oracle decides a query if it finds out that there is no solution
or shows one. Obligations with such queries are discharged without an error, all at once
(`dischargeOutcome_decided`) or chain by chain (`ensures_dischargeChains`), and what is returned only
depends on which of the queries have a solution, up to the choice among counterexamples.

`r.Ensures P` says that the run `r` has a result in every session, with the property `P`.
-/

namespace RouteInvariants

theorem Entries.keys_eq_of_forall₂ {κ α β : Type} {as : List (κ × α)} {bs : List (κ × β)}
    (h : List.Forall₂ (fun a b => b.1 = a.1) as bs) : keys bs = keys as := by
  induction h with
  | nil => rfl
  | cons hab _ ih => exact congrArg₂ List.cons hab ih

/-! ### Runs with a result -/

namespace Run

variable {ε α β : Type}

def Ensures (r : Run ε α) (P : α → Prop) : Prop := ∀ s, ∃ a, (r.outcome s).1 = .ok a ∧ P a

theorem Ensures.mono {r : Run ε α} {P Q : α → Prop} (h : r.Ensures P) (hPQ : ∀ a, P a → Q a) :
    r.Ensures Q := by
  intro s
  obtain ⟨a, ha, hP⟩ := h s
  exact ⟨a, ha, hPQ a hP⟩

theorem ensures_pure {a : α} {P : α → Prop} (h : P a) : (pure a : Run ε α).Ensures P :=
  fun _ => ⟨a, rfl, h⟩

theorem ensures_bind {r : Run ε α} {g : α → Run ε β} {P : α → Prop} {Q : β → Prop}
    (hr : r.Ensures P) (hg : ∀ a, P a → (g a).Ensures Q) : (r >>= g).Ensures Q := by
  intro s
  obtain ⟨a, ha, hP⟩ := hr s
  have hexec : (r.exec s).1 = .ok a := ha
  rw [outcome, exec_bind]
  generalize r.exec s = p at hexec
  obtain ⟨x, s'⟩ := p
  cases hexec
  exact hg a hP s'

theorem ensures_mapM {f : α → Run ε β} {P : α → β → Prop} {as : List α}
    (h : ∀ a ∈ as, (f a).Ensures (P a)) : (as.mapM f).Ensures (List.Forall₂ P as) := by
  induction as with
  | nil => exact ensures_pure .nil
  | cons a as ih =>
    rw [List.forall_mem_cons] at h
    rw [List.mapM_cons]
    refine ensures_bind h.1 fun b hb => ensures_bind (ih h.2) fun bs hbs => ?_
    exact ensures_pure (.cons hb hbs)

theorem Returns.ensures {r : Run ε α} {a : α} (h : r.Returns a) : r.Ensures (· = a) :=
  fun s => ⟨a, h s, rfl⟩

theorem Gives.ensures {r : Run ε α} {f : Nat → Except ε α × Nat} {P : α → Prop} (h : r.Gives f)
    (hf : ∀ k, ∃ a, (f k).1 = .ok a ∧ P a) : r.Ensures P := by
  intro s
  rw [h s]
  exact hf s.asked

end Run

/-! ### Decided queries -/

/-- The formula has a solution. -/
def Term.Solvable (q : Term) : Prop := ∃ σ : Assignment, σ.WellSorted ∧ q.holds σ

/-- The oracle finds out that the query has no solution, or shows one. -/
def Oracle.Decides (oracle : Oracle) (q : Term) : Prop :=
  ∀ k, (oracle k q = .unsat ∧ ¬ q.Solvable) ∨
    ∃ σ : Assignment, σ.WellSorted ∧ q.holds σ ∧ oracle k q = .sat (.ofAssignment σ)

theorem Oracle.exists_decides : ∃ oracle : Oracle, ∀ q, oracle.Decides q := by
  classical
  refine ⟨fun _ q => if h : q.Solvable then .sat (.ofAssignment h.choose) else .unsat,
    fun q k => ?_⟩
  by_cases h : q.Solvable
  · exact .inr ⟨h.choose, h.choose_spec.1, h.choose_spec.2, dif_pos h⟩
  · exact .inl ⟨dif_neg h, h⟩

/-- The oracle finds out whether the query has a solution, and need not show one. -/
def Oracle.ExactOn (oracle : Oracle) (q : Term) : Prop := ∀ k, oracle k q = .unsat ↔ ¬ q.Solvable

theorem Oracle.Exact.exactOn {oracle : Oracle} (h : oracle.Exact) (q : Term) :
    oracle.ExactOn q := by
  intro k
  rw [h k q, Term.Solvable]
  simp only [not_exists, not_and]

theorem Oracle.Decides.exactOn {oracle : Oracle} {q : Term} (h : oracle.Decides q) :
    oracle.ExactOn q := by
  intro k
  rcases h k with ⟨hunsat, hno⟩ | ⟨σ, hσ, hq, hsat⟩
  · exact ⟨fun _ => hno, fun _ => hunsat⟩
  · refine ⟨fun hunsat => ?_, fun hno => absurd ⟨σ, hσ, hq⟩ hno⟩
    rw [hsat] at hunsat
    cases hunsat

/-- An oracle that decides all queries is exact. -/
theorem Oracle.exact_of_decides {oracle : Oracle} (h : ∀ q, oracle.Decides q) : oracle.Exact := by
  intro k q
  rw [(h q).exactOn k, Term.Solvable]
  simp only [not_exists, not_and]

namespace Obligation

open Run

variable {oracle : Oracle} {arrival : Arrival} {settings : CheckSettings} {o : Obligation}
  {os : List Obligation}

theorem ensures_ask (h : oracle.Decides o.query) : (o.ask oracle).Ensures fun r =>
    (r = none ∧ ¬ o.query.Solvable) ∨ ∃ m, r = some m ∧ o.query.Solvable := by
  refine (gives_ask oracle o).ensures fun k => ?_
  rcases h k with ⟨hunsat, hno⟩ | ⟨σ, hσ, hq, hsat⟩
  · exact ⟨none, by rw [hunsat]; rfl, .inl ⟨rfl, hno⟩⟩
  · exact ⟨some _, by rw [hsat]; rfl, .inr ⟨_, rfl, σ, hσ, hq⟩⟩

variable (arrival settings) in
/-- Obligations are passed together where none of them has a solution. -/
theorem dischargeOutcome_eq_none_iff (h : ∀ o ∈ os, oracle.ExactOn o.query) (k : Nat) :
    (dischargeOutcome oracle arrival settings os k).1 = .ok none ↔ ∀ o ∈ os, ¬ o.query.Solvable := by
  have hsettles := discharge_settles oracle arrival settings k os
  have hclean : Clean oracle k os ↔ ∀ o ∈ os, ¬ o.query.Solvable := by
    constructor
    · intro hclean o ho
      obtain ⟨i, hi⟩ := List.mem_iff_getElem?.1 ho
      exact (h o ho (k + i)).1 (hclean i o hi)
    · intro hno i o hi
      have ho := List.mem_of_getElem? hi
      exact (h o ho (k + i)).2 (hno o ho)
  rw [← hclean]
  refine ⟨fun hout => ?_, hsettles.clean⟩
  by_contra hdirty
  exact hsettles.ne_ok_none oracle hdirty hout

variable (arrival settings) in
/-- Decided obligations are passed together, or one with a solution is shown. -/
theorem dischargeOutcome_decided (h : ∀ o ∈ os, oracle.Decides o.query) (k : Nat) :
    ((dischargeOutcome oracle arrival settings os k).1 = .ok none ∧
      ∀ o ∈ os, ¬ o.query.Solvable) ∨
    ∃ o ∈ os, ∃ σ : Assignment, σ.WellSorted ∧ o.query.holds σ ∧
      (dischargeOutcome oracle arrival settings os k).1 =
        .ok (some (o.witness (.ofAssignment σ))) := by
  have hsettles := discharge_settles oracle arrival settings k os
  have hknown : Known oracle k os := by
    rintro o reason ⟨i, ho, hanswer⟩
    rcases h o (List.mem_of_getElem? ho) (k + i) with ⟨hunsat, -⟩ | ⟨σ, -, -, hsat⟩
    · rw [hunsat] at hanswer
      cases hanswer
    · rw [hsat] at hanswer
      cases hanswer
  have hnone := dischargeOutcome_eq_none_iff arrival settings (fun o ho => (h o ho).exactOn) k
  by_cases hclean : Clean oracle k os
  · have hout := hsettles.clean hclean
    exact .inl ⟨hout, hnone.1 hout⟩
  · obtain ⟨o, m, ⟨i, hi, hanswer⟩, hout⟩ := hsettles.sat hknown hclean
    have ho := List.mem_of_getElem? hi
    rcases h o ho (k + i) with ⟨hunsat, -⟩ | ⟨σ, hσ, hq, hsat⟩
    · rw [hunsat] at hanswer
      cases hanswer
    · rw [hsat] at hanswer
      cases hanswer
      exact .inr ⟨o, ho, σ, hσ, hq, hout⟩

/-! ### Chains -/

/-- What is returned for a chain: nothing if none of its obligations has a solution, and otherwise
the counterexample of the first one that has. -/
def ShowsFirst (os : List Obligation) : Option State → Prop
  | none => ∀ o ∈ os, ¬ o.query.Solvable
  | some st => ∃ before o after m, os = before ++ o :: after ∧
      (∀ d ∈ before, ¬ d.query.Solvable) ∧ o.query.Solvable ∧ st = o.witness m

theorem ShowsFirst.cons {found : Option State} (ho : ¬ o.query.Solvable)
    (h : ShowsFirst os found) : ShowsFirst (o :: os) found := by
  cases found with
  | none => exact List.forall_mem_cons.2 ⟨ho, h⟩
  | some st =>
    obtain ⟨before, d, after, m, rfl, hbefore, hd, hst⟩ := h
    exact ⟨o :: before, d, after, m, rfl, List.forall_mem_cons.2 ⟨ho, hbefore⟩, hd, hst⟩

/-- The state that the last obligation asked comes to. -/
def chainState (outcome : Option (Obligation × Option Model)) : Option State :=
  outcome.bind fun r => r.2.map r.1.witness

theorem gives_concludeChain (outcome : Option (Obligation × Option Model)) :
    (concludeChain outcome).Gives fun k => (.ok (chainState outcome), k) := by
  cases outcome with
  | none => exact gives_pure none
  | some r => exact gives_conclude r.1 r.2

theorem ensures_solveChain (h : ∀ o ∈ os, oracle.Decides o.query) :
    (solveChain oracle os).Ensures fun outcome => ShowsFirst os (chainState outcome) := by
  induction os with
  | nil =>
    refine ensures_pure ?_
    intro o ho
    cases ho
  | cons o os ih =>
    rw [List.forall_mem_cons] at h
    refine ensures_bind (ensures_ask h.1) fun r hr => ?_
    rcases hr with ⟨rfl, hno⟩ | ⟨m, rfl, hsome⟩
    · -- the chain goes on, unless this was its last obligation
      cases os with
      | nil => exact ensures_pure (List.forall_mem_singleton.2 hno)
      | cons d ds => exact (ih h.2).mono fun outcome hout => hout.cons hno
    · exact ensures_pure ⟨[], o, os, m, rfl, by simp, hsome, rfl⟩

/-- A chain with its key, and the state that is returned for it. -/
def Concluded (c : String × List Obligation) (r : String × Option State) : Prop :=
  r.1 = c.1 ∧ ShowsFirst c.2 r.2

/-- A chain with its key, and what a worker has found out about it. -/
def Solved (c : String × List Obligation)
    (r : String × Except Failure (Option (Obligation × Option Model))) : Prop :=
  r.1 = c.1 ∧ ∃ outcome, r.2 = .ok outcome ∧ ShowsFirst c.2 (chainState outcome)

theorem ensures_attempt {α : Type} {task : Run Failure α} {P : α → Prop} (h : task.Ensures P) :
    (attempt task).Ensures fun r => ∃ a, r = .ok a ∧ P a := by
  intro s
  obtain ⟨a, ha, hP⟩ := h s
  exact ⟨_, rfl, a, ha, hP⟩

/-- The results of a pool, found again under their keys. -/
theorem concluded_of_arrived {chains : List (String × List Obligation)}
    {results : List (String × Except Failure (Option (Obligation × Option Model)))}
    {arrived : List (String × Option State)} (hnodup : (Entries.keys chains).Nodup)
    (hsolved : List.Forall₂ Solved chains results)
    (harrived : List.Forall₂ (fun r e => e.1 = r.1 ∧
      ∃ outcome, r.2 = .ok outcome ∧ e.2 = chainState outcome) (arrival.arrange results) arrived) :
    List.Forall₂ Concluded chains
      (chains.map fun c => (c.1, (Entries.get? arrived c.1).getD none)) := by
  have hperm := arrival.perm results
  have hkeys : (Entries.keys arrived).Nodup := by
    rw [Entries.keys_eq_of_forall₂ (harrived.imp fun _ _ h => h.1)]
    refine (hperm.map Prod.fst).nodup_iff.2 ?_
    change (Entries.keys results).Nodup
    rwa [Entries.keys_eq_of_forall₂ (hsolved.imp fun _ _ h => h.1)]
  rw [List.forall₂_map_right_iff, List.forall₂_same]
  intro c hc
  obtain ⟨r, hr, hkey, outcome, hout, hshows⟩ := exists_right_of_forall₂ hsolved hc
  obtain ⟨e, he, hkey', outcome', hout', hstate⟩ :=
    exists_right_of_forall₂ harrived (hperm.mem_iff.2 hr)
  have hget : Entries.get? arrived c.1 = some e.2 := by
    rw [← hkey, ← hkey']
    exact Entries.get?_of_mem hkeys he
  rw [hout] at hout'
  cases hout'
  refine ⟨rfl, ?_⟩
  rw [hget, Option.getD_some, hstate]
  exact hshows

variable (arrival settings) in
/-- Every chain gets its result, for one worker as for many. -/
theorem ensures_dischargeChains {chains : List (String × List Obligation)}
    (hnodup : (Entries.keys chains).Nodup)
    (h : ∀ c ∈ chains, ∀ o ∈ c.2, oracle.Decides o.query) :
    (dischargeChains oracle arrival settings chains).Ensures (List.Forall₂ Concluded chains) := by
  have hlog : (logFormulas settings (chains.flatMap Prod.snd)).Returns () :=
    (gives_logFormulas settings _).returns fun _ => rfl
  have hconclude (outcome : Option (Obligation × Option Model)) :
      (concludeChain outcome).Returns (chainState outcome) :=
    (gives_concludeChain outcome).returns fun _ => rfl
  refine ensures_bind hlog.ensures fun _ _ => ?_
  split
  · refine ensures_mapM fun c hc => ensures_bind (ensures_solveChain (h c hc)) fun outcome hout => ?_
    refine ensures_bind (hconclude outcome).ensures ?_
    rintro _ rfl
    exact ensures_pure ⟨rfl, hout⟩
  · refine ensures_bind (P := List.Forall₂ Solved chains) (ensures_mapM fun c hc => ?_)
      fun results hsolved => ?_
    · exact ensures_bind (ensures_attempt (ensures_solveChain (h c hc))) fun r hr =>
        ensures_pure ⟨rfl, hr⟩
    refine ensures_bind (ensures_mapM fun r hr => ?_) fun arrived harrived =>
      ensures_pure (concluded_of_arrived hnodup hsolved harrived)
    obtain ⟨c, -, -, outcome, hout, -⟩ :=
      exists_left_of_forall₂ hsolved ((arrival.perm results).mem_iff.1 hr)
    refine ensures_bind ((gives_fetch r.2).returns fun _ => hout).ensures ?_
    rintro _ rfl
    refine ensures_bind (hconclude _).ensures ?_
    rintro _ rfl
    exact ensures_pure ⟨rfl, _, hout, rfl⟩

end Obligation

end RouteInvariants
