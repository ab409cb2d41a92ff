import RouteInvariants.Proofs.Runs

/-!
How obligations are discharged, in turn or in a pool. The oracle's answers settle the outcome, up to
the order in which results arrive (`discharge_settles`): an unknown answer is an error, also next to
counterexamples, and without one some counterexample is returned.
-/

namespace RouteInvariants

namespace Obligation

open Run

variable (oracle : Oracle) {o : Obligation} {os : List Obligation} {k : Nat}

/-- What an answer to its query says about an obligation. -/
def verdict (o : Obligation) : Answer → Except Failure (Option Model)
  | .unsat => .ok none
  | .sat m => .ok (some m)
  | .unknown reason => .error (.solver ⟨reason, o.node, some o.kind.display⟩)

/-- Obligations with the verdicts that they get when they are asked one after the other. -/
def answered : Nat → List Obligation → List (Obligation × Except Failure (Option Model))
  | _, [] => []
  | k, o :: os => (o, o.verdict (oracle k o.query)) :: answered (k + 1) os

/-- The first counterexample, unless there is an error on the way. -/
def collect : Option State → List (Obligation × Except Failure (Option Model)) →
    Except Failure (Option State)
  | found, [] => .ok found
  | found, (o, .ok m) :: rs => collect (State.firstOf found (m.map o.witness)) rs
  | _, (_, .error e) :: _ => .error e

/-- How many verdicts there are up to the first error. -/
def countUntilError : List (Obligation × Except Failure (Option Model)) → Nat
  | [] => 0
  | (_, .ok _) :: rs => countUntilError rs + 1
  | (_, .error _) :: _ => 1

/-! ### Runs -/

theorem exec_ask (o : Obligation) (s : Session) : (o.ask oracle).exec s =
    (o.verdict (oracle s.asked o.query), { s with asked := s.asked + 1 }) := by
  rw [ask, exec_get_bind, exec_set_bind]
  cases oracle s.asked o.query <;> rfl

theorem gives_ask (o : Obligation) :
    (o.ask oracle).Gives fun k => (o.verdict (oracle k o.query), k + 1) := fun s => by
  rw [outcome, exec_ask]

theorem gives_conclude (o : Obligation) (r : Option Model) :
    (o.conclude r).Gives fun k => (.ok (r.map o.witness), k) := by
  cases r with
  | none => exact gives_bind (gives_verbose _ _) fun _ => gives_pure none
  | some m => exact gives_bind (gives_verbose _ _) fun _ => gives_pure (some (o.witness m))

theorem gives_forM_journal {α : Type} (f : α → Journal → Journal) (as : List α) :
    (as.forM fun a => (Run.journal (f a) : Run Failure Unit)).Gives fun k => (.ok (), k) := by
  induction as with
  | nil => exact gives_pure ()
  | cons a as ih => exact gives_bind (gives_journal (f a)) fun _ => ih

theorem gives_logFormulas (settings : CheckSettings) (os : List Obligation) :
    (logFormulas settings os).Gives fun k => (.ok (), k) := by
  unfold logFormulas
  split
  · exact gives_forM_journal _ os
  · exact gives_pure ()

theorem gives_inTurn (found : Option State) (os : List Obligation) :
    (os.foldlM (fun found o => do
      let r ← o.ask oracle
      return State.firstOf found (← o.conclude r)) found : Run Failure (Option State)).Gives
      fun k => (collect found (answered oracle k os),
        k + countUntilError (answered oracle k os)) := by
  induction os generalizing found with
  | nil => exact gives_pure found
  | cons o os ih =>
    rw [List.foldlM_cons]
    intro s
    have hone := gives_bind (gives_ask oracle o) fun r =>
      gives_bind (gives_conclude o r) fun m => gives_pure (ε := Failure) (State.firstOf found m)
    rw [gives_bind hone ih s]
    simp only [followedBy, answered]
    cases o.verdict (oracle s.asked o.query) with
    | error e => rfl
    | ok m =>
      simp only [collect, countUntilError, Prod.mk.injEq, true_and]
      omega

theorem gives_attemptAll (os : List Obligation) :
    (os.mapM (fun o => do return (o, ← attempt (o.ask oracle))) :
      Run Failure (List (Obligation × Except Failure (Option Model)))).Gives
      fun k => (.ok (answered oracle k os), k + os.length) := by
  induction os with
  | nil => exact gives_pure []
  | cons o os ih =>
    rw [List.mapM_cons]
    intro s
    have hone := gives_bind (gives_attempt (gives_ask oracle o)) fun r =>
      gives_pure (ε := Failure) (o, r)
    rw [gives_bind hone (fun r => gives_bind ih fun rs => gives_pure (r :: rs)) s]
    simp only [followedBy, answered, List.length_cons, Prod.mk.injEq, true_and]
    omega

theorem gives_collect (found : Option State)
    (rs : List (Obligation × Except Failure (Option Model))) :
    (rs.foldlM (fun found r => do
      let m ← fetch r.2
      return State.firstOf found (← r.1.conclude m)) found : Run Failure (Option State)).Gives
      fun k => (collect found rs, k) := by
  induction rs generalizing found with
  | nil => exact gives_pure found
  | cons r rs ih =>
    rw [List.foldlM_cons]
    intro s
    have hone := gives_bind (gives_fetch r.2) fun m =>
      gives_bind (gives_conclude r.1 m) fun m => gives_pure (ε := Failure) (State.firstOf found m)
    rw [gives_bind hone ih s]
    obtain ⟨o, v⟩ := r
    cases v <;> rfl

theorem gives_pooled (arrival : Arrival) (os : List Obligation) :
    (pooled oracle arrival os).Gives
      fun k => (collect none (arrival.arrange (answered oracle k os)), k + os.length) :=
  gives_bind (gives_attemptAll oracle os) fun rs => gives_collect none (arrival.arrange rs)

/-- What the discharge of obligations comes to after `k` queries. -/
def dischargeOutcome (arrival : Arrival) (settings : CheckSettings) (os : List Obligation)
    (k : Nat) : Except Failure (Option State) × Nat :=
  if settings.workers ≤ 1 || os.length ≤ 1 then
    (collect none (answered oracle k os), k + countUntilError (answered oracle k os))
  else (collect none (arrival.arrange (answered oracle k os)), k + os.length)

theorem gives_discharge (arrival : Arrival) (settings : CheckSettings) (os : List Obligation) :
    (discharge oracle arrival settings os).Gives
      (dischargeOutcome oracle arrival settings os) := by
  unfold discharge dischargeOutcome
  split
  · exact gives_bind (gives_logFormulas settings os) fun _ => gives_inTurn oracle none os
  · exact gives_bind (gives_logFormulas settings os) fun _ => gives_pooled oracle arrival os

/-! ### Verdicts -/

/-- Every obligation is answered with unsat. -/
def Clean (k : Nat) (os : List Obligation) : Prop :=
  ∀ i o, os[i]? = some o → oracle (k + i) o.query = .unsat

theorem mem_answered {r : Obligation × Except Failure (Option Model)} :
    r ∈ answered oracle k os ↔
      ∃ i o, os[i]? = some o ∧ r = (o, o.verdict (oracle (k + i) o.query)) := by
  induction os generalizing k with
  | nil => simp [answered]
  | cons o os ih =>
    rw [answered, List.mem_cons, ih]
    constructor
    · rintro (rfl | ⟨i, o', ho', rfl⟩)
      · exact ⟨0, o, rfl, rfl⟩
      · exact ⟨i + 1, o', ho', by rw [Nat.add_assoc, Nat.add_comm 1 i]⟩
    · rintro ⟨i, o', ho', rfl⟩
      cases i with
      | zero =>
        cases ho'
        exact .inl rfl
      | succ i => exact .inr ⟨i, o', ho', by rw [Nat.add_assoc, Nat.add_comm 1 i]⟩

theorem length_answered : (answered oracle k os).length = os.length := by
  induction os generalizing k with
  | nil => rfl
  | cons o os ih => exact congrArg (· + 1) ih

theorem countUntilError_le (rs : List (Obligation × Except Failure (Option Model))) :
    countUntilError rs ≤ rs.length := by
  fun_induction countUntilError rs with
  | case1 => exact Nat.le_refl 0
  | case2 _ _ rs ih => exact Nat.succ_le_succ ih
  | case3 _ _ rs => simp

variable {rs : List (Obligation × Except Failure (Option Model))}

theorem countUntilError_eq (h : ∀ r ∈ rs, ∃ m, r.2 = .ok m) : countUntilError rs = rs.length := by
  fun_induction countUntilError rs with
  | case1 => rfl
  | case2 _ _ rs ih => exact congrArg (· + 1) (ih (List.forall_mem_cons.1 h).2)
  | case3 _ e rs => exact absurd (List.forall_mem_cons.1 h).1 (by simp)

theorem collect_eq_found (h : ∀ r ∈ rs, r.2 = .ok none) (found : Option State) :
    collect found rs = .ok found := by
  induction rs generalizing found with
  | nil => rfl
  | cons r rs ih =>
    obtain ⟨o, v⟩ := r
    obtain ⟨rfl, hrs⟩ := List.forall_mem_cons.1 h
    rw [collect, ih hrs]
    cases found <;> rfl

/-- An error among the verdicts is an error of the whole. -/
theorem collect_eq_error (h : ∃ r ∈ rs, ∃ e, r.2 = .error e) (found : Option State) :
    ∃ r ∈ rs, ∃ e, r.2 = .error e ∧ collect found rs = .error e := by
  induction rs generalizing found with
  | nil =>
    obtain ⟨r, hr, -⟩ := h
    cases hr
  | cons r rs ih =>
    obtain ⟨o, v⟩ := r
    cases v with
    | error e => exact ⟨_, List.mem_cons_self, e, rfl, rfl⟩
    | ok m =>
      obtain ⟨r, hr, e, he⟩ := h
      rcases List.mem_cons.1 hr with rfl | hr
      · cases he
      · obtain ⟨r', hr', e', he', hc⟩ := ih ⟨r, hr, e, he⟩ (State.firstOf found (m.map o.witness))
        exact ⟨r', List.mem_cons_of_mem _ hr', e', he', hc⟩

theorem collect_some (h : ∀ r ∈ rs, ∃ m, r.2 = .ok m) (s : State) :
    collect (some s) rs = .ok (some s) := by
  induction rs with
  | nil => rfl
  | cons r rs ih =>
    obtain ⟨o, v⟩ := r
    obtain ⟨⟨m, rfl⟩, hrs⟩ := List.forall_mem_cons.1 h
    exact ih hrs

/-- Without an error, one of the counterexamples is found. -/
theorem collect_eq_counterexample (h : ∀ r ∈ rs, ∃ m, r.2 = .ok m)
    (hsat : ∃ r ∈ rs, ∃ m, r.2 = .ok (some m)) :
    ∃ r ∈ rs, ∃ m, r.2 = .ok (some m) ∧ collect none rs = .ok (some (r.1.witness m)) := by
  induction rs with
  | nil =>
    obtain ⟨r, hr, -⟩ := hsat
    cases hr
  | cons r rs ih =>
    obtain ⟨o, v⟩ := r
    obtain ⟨⟨m, rfl⟩, hrs⟩ := List.forall_mem_cons.1 h
    cases m with
    | some m => exact ⟨_, List.mem_cons_self, m, rfl, collect_some hrs (o.witness m)⟩
    | none =>
      obtain ⟨r, hr, m, hm⟩ := hsat
      rcases List.mem_cons.1 hr with rfl | hr
      · cases hm
      · obtain ⟨r', hr', m', hm', hc⟩ := ih hrs ⟨r, hr, m, hm⟩
        exact ⟨r', List.mem_cons_of_mem _ hr', m', hm', hc⟩

/-- The `i`-th obligation is answered in a certain way. -/
def AnsweredWith (k : Nat) (os : List Obligation) (o : Obligation) (answer : Answer) : Prop :=
  ∃ i, os[i]? = some o ∧ oracle (k + i) o.query = answer

/-- No obligation is answered with unknown. -/
def Known (k : Nat) (os : List Obligation) : Prop :=
  ∀ o reason, ¬ AnsweredWith oracle k os o (.unknown reason)

theorem Clean.known (h : Clean oracle k os) : Known oracle k os := by
  rintro o reason ⟨i, ho, ha⟩
  rw [h i o ho] at ha
  cases ha

theorem Known.answered (h : Known oracle k os) {r : Obligation × Except Failure (Option Model)}
    (hr : r ∈ answered oracle k os) : ∃ m, r.2 = .ok m := by
  obtain ⟨i, o, ho, rfl⟩ := (mem_answered oracle).1 hr
  cases hans : oracle (k + i) o.query with
  | unsat => exact ⟨none, rfl⟩
  | sat m => exact ⟨some m, rfl⟩
  | unknown reason => exact absurd ⟨i, ho, hans⟩ (h o reason)

/-- How the answers to a phase settle its outcome. -/
structure Settles (k : Nat) (os : List Obligation) (out : Except Failure (Option State) × Nat) :
    Prop where
  asked : out.2 ≤ k + os.length
  known : Known oracle k os → out.2 = k + os.length
  clean : Clean oracle k os → out.1 = .ok none
  unknown : (∃ o reason, AnsweredWith oracle k os o (.unknown reason)) →
    ∃ o reason, AnsweredWith oracle k os o (.unknown reason) ∧
      out.1 = .error (.solver ⟨reason, o.node, some o.kind.display⟩)
  sat : Known oracle k os → ¬ Clean oracle k os →
    ∃ o m, AnsweredWith oracle k os o (.sat m) ∧ out.1 = .ok (some (o.witness m))

/-- The verdicts in any order settle the outcome. -/
theorem settles_of_perm {k' : Nat} (hperm : rs.Perm (answered oracle k os))
    (hk : k' ≤ k + os.length) (hall : Known oracle k os → k' = k + os.length) :
    Settles oracle k os (collect none rs, k') := by
  have hmem : ∀ r, r ∈ rs ↔ ∃ i o, os[i]? = some o ∧ r = (o, o.verdict (oracle (k + i) o.query)) :=
    fun r => hperm.mem_iff.trans (mem_answered oracle)
  refine ⟨hk, hall, fun hc => ?_, ?_, fun hknown hc => ?_⟩
  · refine collect_eq_found (fun r hr => ?_) none
    obtain ⟨i, o, ho, rfl⟩ := (hmem r).1 hr
    simp only [hc i o ho, verdict]
  · rintro ⟨o, reason, i, ho, ha⟩
    -- the error that arrives first is reported, which may be that of another obligation
    obtain ⟨r, hr, e, he, hcollect⟩ :=
      collect_eq_error ⟨_, (hmem _).2 ⟨i, o, ho, rfl⟩, _, by rw [ha]; rfl⟩ none
    obtain ⟨j, o', ho', rfl⟩ := (hmem r).1 hr
    cases hans : oracle (k + j) o'.query with
    | unknown reason' =>
      rw [hans] at he
      cases he
      exact ⟨o', reason', ⟨j, ho', hans⟩, hcollect⟩
    | _ => rw [hans] at he; cases he
  · have hok : ∀ r ∈ rs, ∃ m, r.2 = .ok m := fun r hr => hknown.answered oracle (hperm.mem_iff.1 hr)
    obtain ⟨i, o, ho, hne⟩ : ∃ i o, os[i]? = some o ∧ oracle (k + i) o.query ≠ .unsat := by
      simpa [Clean] using hc
    have hsat : ∃ m, oracle (k + i) o.query = .sat m := by
      cases hans : oracle (k + i) o.query with
      | unsat => exact absurd hans hne
      | sat m => exact ⟨m, rfl⟩
      | unknown reason => exact absurd ⟨i, ho, hans⟩ (hknown o reason)
    obtain ⟨m, hm⟩ := hsat
    obtain ⟨r, hr, m', hm', hcollect⟩ := collect_eq_counterexample hok
      ⟨_, (hmem _).2 ⟨i, o, ho, rfl⟩, m, by simp only [hm, verdict]⟩
    obtain ⟨j, o', ho', rfl⟩ := (hmem r).1 hr
    cases hans : oracle (k + j) o'.query with
    | sat m'' =>
      rw [hans] at hm'
      cases hm'
      exact ⟨o', m', ⟨j, ho', hans⟩, hcollect⟩
    | _ => rw [hans] at hm'; cases hm'

theorem discharge_settles (arrival : Arrival) (settings : CheckSettings) (k : Nat)
    (os : List Obligation) :
    Settles oracle k os (dischargeOutcome oracle arrival settings os k) := by
  unfold dischargeOutcome
  split
  · have hle := countUntilError_le (answered oracle k os)
    rw [length_answered] at hle
    refine settles_of_perm oracle (List.Perm.refl _) (by omega) fun hknown => ?_
    rw [countUntilError_eq fun r hr => hknown.answered oracle hr, length_answered]
  · exact settles_of_perm oracle (arrival.perm _) (Nat.le_refl _) fun _ => rfl

/-- A phase that is not clean ends with an error or a counterexample. -/
theorem Settles.ne_ok_none {out : Except Failure (Option State) × Nat} (h : Settles oracle k os out)
    (hc : ¬ Clean oracle k os) : out.1 ≠ .ok none := by
  intro hout
  by_cases hu : ∃ o reason, AnsweredWith oracle k os o (.unknown reason)
  · obtain ⟨o, reason, -, he⟩ := h.unknown hu
    rw [hout] at he
    cases he
  · obtain ⟨o, m, -, he⟩ := h.sat (by simpa [Known] using hu) hc
    rw [hout] at he
    cases he

/-! ### Oracles that agree -/

section Agreement

variable {oracle} {oracle' : Oracle}
  (h : ∀ o ∈ os, ∀ j, oracle' j o.query = oracle j o.query)

include h

theorem answered_congr (k : Nat) : answered oracle' k os = answered oracle k os := by
  induction os generalizing k with
  | nil => rfl
  | cons o os ih =>
    obtain ⟨ho, hos⟩ := List.forall_mem_cons.1 h
    rw [answered, answered, ho k, ih hos]

theorem clean_congr (k : Nat) : Clean oracle' k os ↔ Clean oracle k os :=
  forall₃_congr fun i o ho => by rw [h o (List.mem_of_getElem? ho)]

theorem dischargeOutcome_congr (arrival : Arrival) (settings : CheckSettings) (k : Nat) :
    dischargeOutcome oracle' arrival settings os k =
      dischargeOutcome oracle arrival settings os k := by
  rw [dischargeOutcome, dischargeOutcome, answered_congr h]

end Agreement

end Obligation

end RouteInvariants
