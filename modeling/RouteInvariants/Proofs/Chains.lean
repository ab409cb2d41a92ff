import Mathlib.Algebra.GroupWithZero.Nat
import RouteInvariants.Proofs.Decided

/-!
Chains of obligations under every schedule. A script gives each obligation of each chain the answer
that the oracle has for it. Of a chain the obligations are asked up to the first one that is not
answered with unsat (`tried`), and what the run of all chains returns depends on the script alone:
on neither the number of workers nor the order in which their results arrive
(`dischargeChains_schedule_independent`).

`eachInTurn` is the outcome of a loop whose rounds have known outcomes.
-/

namespace RouteInvariants

def Answer.isUnsat : Answer → Bool
  | .unsat => true
  | _ => false

/-! ### Loops -/

namespace Run

variable {ε α β γ : Type}

theorem followedBy_of_ok {f : Nat → Except ε α × Nat} {h : α → Nat → Except ε β × Nat} {a : α}
    {k k' : Nat} (hf : f k = (.ok a, k')) : followedBy f h k = h a k' := by
  rw [followedBy, hf]

theorem followedBy_of_error {f : Nat → Except ε α × Nat} {h : α → Nat → Except ε β × Nat} {e : ε}
    {k k' : Nat} (hf : f k = (.error e, k')) : followedBy f h k = (.error e, k') := by
  rw [followedBy, hf]

/-- The outcome of a loop, from the outcomes of its rounds. -/
def eachInTurn (f : α → Nat → Except ε β × Nat) : List α → Nat → Except ε (List β) × Nat
  | [], k => (.ok [], k)
  | a :: as, k =>
    followedBy (f a) (fun b => followedBy (eachInTurn f as) fun bs k => (.ok (b :: bs), k)) k

theorem eachInTurn_cons_ok {f : α → Nat → Except ε β × Nat} {a : α} {b : β} {k k' : Nat}
    (h : f a k = (.ok b, k')) (as : List α) : eachInTurn f (a :: as) k =
      (List.cons b <$> (eachInTurn f as k').1, (eachInTurn f as k').2) := by
  rw [eachInTurn, followedBy_of_ok h, followedBy]
  generalize eachInTurn f as k' = out
  obtain ⟨x, k''⟩ := out
  cases x <;> rfl

theorem eachInTurn_cons_error {f : α → Nat → Except ε β × Nat} {a : α} {e : ε} {k k' : Nat}
    (h : f a k = (.error e, k')) (as : List α) : eachInTurn f (a :: as) k = (.error e, k') := by
  rw [eachInTurn, followedBy_of_error h]

theorem gives_mapM {r : α → Run ε β} {f : α → Nat → Except ε β × Nat} (h : ∀ a, (r a).Gives (f a))
    (as : List α) : (as.mapM r).Gives (eachInTurn f as) := by
  induction as with
  | nil => exact gives_pure []
  | cons a as ih =>
    rw [List.mapM_cons]
    exact gives_bind (h a) fun b => gives_bind ih fun bs => gives_pure (b :: bs)

theorem eachInTurn_map (f : β → Nat → Except ε γ × Nat) (g : α → β) (as : List α) :
    eachInTurn f (as.map g) = eachInTurn (fun a => f (g a)) as := by
  induction as with
  | nil => rfl
  | cons a as ih =>
    funext k
    rw [List.map_cons, eachInTurn, eachInTurn, ih]

/-- A round that has a known result and asks a known number of queries. -/
def counted (g : α → Except ε β) (count : α → Nat) (a : α) (k : Nat) : Except ε β × Nat :=
  (g a, k + count a)

/-- Rounds that ask a known number of queries: the loop has the result of the loop over the results,
and the queries of all rounds are asked unless a round ends with an error. -/
theorem eachInTurn_counted (g : α → Except ε β) (count : α → Nat) (as : List α) (k : Nat) :
    ∃ k' ≤ k + (as.map count).sum, k ≤ k' ∧
      eachInTurn (counted g count) as k = (as.mapM g, k') ∧
      ((∀ a ∈ as, ∃ b, g a = .ok b) → k' = k + (as.map count).sum) := by
  induction as generalizing k with
  | nil => exact ⟨k, Nat.le_refl _, Nat.le_refl _, rfl, fun _ => rfl⟩
  | cons a as ih =>
    rw [List.mapM_cons, List.map_cons, List.sum_cons]
    cases ha : g a with
    | error e =>
      have hround : counted g count a k = (.error e, k + count a) := by rw [counted, ha]
      refine ⟨k + count a, by omega, by omega, eachInTurn_cons_error hround as, fun hall => ?_⟩
      obtain ⟨b, hb⟩ := hall a List.mem_cons_self
      rw [ha] at hb
      cases hb
    | ok b =>
      have hround : counted g count a k = (.ok b, k + count a) := by rw [counted, ha]
      obtain ⟨k', hle, hge, hrest, hall⟩ := ih (k + count a)
      refine ⟨k', by omega, by omega, ?_, fun h => ?_⟩
      · rw [eachInTurn_cons_ok hround, hrest]
        cases as.mapM g <;> rfl
      · have hk' := hall fun a' ha' => h a' (List.mem_cons_of_mem _ ha')
        omega

/-- Rounds that ask no queries. -/
theorem eachInTurn_pure (g : α → Except ε β) (as : List α) (k : Nat) :
    eachInTurn (fun a k => (g a, k)) as k = (as.mapM g, k) := by
  obtain ⟨k', hle, hge, hout, -⟩ := eachInTurn_counted g (fun _ => 0) as k
  have hsum : (as.map fun _ => 0).sum = 0 := by simp
  rw [show k' = k by omega] at hout
  exact hout

end Run

namespace Obligation

open Run

/-! ### What is asked of a chain -/

/-- Chains with the answer to each of their obligations. -/
abbrev Script := List (String × List (Obligation × Answer))

variable {oracle : Oracle} {rs : List (Obligation × Answer)} {k : Nat}

/-- The first obligation that is not answered with unsat. -/
def firstOpen? (rs : List (Obligation × Answer)) : Option (Obligation × Answer) :=
  rs.find? fun r => !r.2.isUnsat

/-- The obligations up to the first one that is not answered with unsat, and that one. -/
def tried (rs : List (Obligation × Answer)) : List (Obligation × Answer) :=
  rs.take (rs.findIdx (fun r => !r.2.isUnsat) + 1)

/-- The counterexample of the first obligation that is not answered with unsat. -/
def counterexample? (rs : List (Obligation × Answer)) : Option State :=
  match firstOpen? rs with
  | some (o, .sat m) => some (o.witness m)
  | _ => none

/-- The chains of a script. -/
def Script.chains (script : Script) : List (String × List Obligation) :=
  script.map fun c => (c.1, c.2.map Prod.fst)

/-- All obligations of a script that are asked, chain by chain. -/
def Script.asked (script : Script) : List (Obligation × Answer) := script.flatMap fun c => tried c.2

/-- The script without the obligations that come after the first one that is not answered with
unsat. -/
def Script.cut (script : Script) : Script := script.map fun c => (c.1, tried c.2)

/-- Asked one obligation after the other, after `k` queries, the oracle gives these answers. -/
def Follows (oracle : Oracle) (k : Nat) (rs : List (Obligation × Answer)) : Prop :=
  ∀ i r, rs[i]? = some r → oracle (k + i) r.1.query = r.2

/-- Any answers are those of some oracle. -/
theorem exists_follows (k : Nat) (rs : List (Obligation × Answer)) :
    ∃ oracle : Oracle, Follows oracle k rs := by
  refine ⟨fun j _ => (rs[j - k]?.map Prod.snd).getD .unsat, fun i r hr => ?_⟩
  simp only [Nat.add_sub_cancel_left, hr, Option.map_some, Option.getD_some]

theorem follows_nil : Follows oracle k [] := by
  intro i r hr
  cases hr

theorem follows_cons_iff {r : Obligation × Answer} :
    Follows oracle k (r :: rs) ↔ oracle k r.1.query = r.2 ∧ Follows oracle (k + 1) rs := by
  constructor
  · intro h
    refine ⟨h 0 r rfl, fun i r' hr' => ?_⟩
    rw [Nat.add_assoc, Nat.add_comm 1 i]
    exact h (i + 1) r' hr'
  · rintro ⟨hr, hrs⟩ i r' hr'
    cases i with
    | zero =>
      cases hr'
      exact hr
    | succ i =>
      rw [show k + (i + 1) = k + 1 + i by omega]
      exact hrs i r' hr'

theorem follows_append {rs' : List (Obligation × Answer)} (h : Follows oracle k (rs ++ rs')) :
    Follows oracle k rs ∧ Follows oracle (k + rs.length) rs' := by
  induction rs generalizing k with
  | nil => exact ⟨follows_nil, h⟩
  | cons r rs ih =>
    rw [List.cons_append, follows_cons_iff] at h
    obtain ⟨hrs, hrs'⟩ := ih h.2
    refine ⟨follows_cons_iff.2 ⟨h.1, hrs⟩, ?_⟩
    rwa [List.length_cons, show k + (rs.length + 1) = k + 1 + rs.length by omega]

theorem tried_cons (r : Obligation × Answer) (rs : List (Obligation × Answer)) :
    tried (r :: rs) = r :: if r.2.isUnsat then tried rs else [] := by
  unfold tried
  rw [List.findIdx_cons]
  cases r.2.isUnsat with
  | true => rfl
  | false => rfl

theorem tried_ne_nil (h : rs ≠ []) : tried rs ≠ [] := by
  cases rs with
  | nil => exact absurd rfl h
  | cons r rs => rw [tried_cons]; exact List.cons_ne_nil _ _

theorem tried_tried (rs : List (Obligation × Answer)) : tried (tried rs) = tried rs := by
  induction rs with
  | nil => rfl
  | cons r rs ih =>
    rw [tried_cons, tried_cons]
    cases hr : r.2.isUnsat with
    | true => rw [if_pos rfl, if_pos rfl, ih]
    | false => rfl

/-! ### What a chain comes to -/

/-- What a worker finds out about a chain: the last obligation asked, with its verdict. -/
def lastVerdict (rs : List (Obligation × Answer)) :
    Except Failure (Option (Obligation × Option Model)) :=
  match (tried rs).getLast? with
  | none => .ok none
  | some r => (fun m => some (r.1, m)) <$> r.1.verdict r.2

/-- What is returned for a chain. -/
def chainResult (rs : List (Obligation × Answer)) : Except Failure (Option State) :=
  chainState <$> lastVerdict rs

theorem lastVerdict_cons_unsat (o : Obligation) (h : rs ≠ []) :
    lastVerdict ((o, .unsat) :: rs) = lastVerdict rs := by
  obtain ⟨r, hr⟩ := Option.ne_none_iff_exists'.1 (mt List.getLast?_eq_none_iff.1 (tried_ne_nil h))
  have hcons : (tried ((o, .unsat) :: rs)).getLast? = some r := by
    rw [tried_cons]
    show ((o, Answer.unsat) :: tried rs).getLast? = some r
    rw [List.getLast?_cons, hr, Option.getD_some]
  rw [lastVerdict, lastVerdict, hcons, hr]

/-- What is returned for a chain is settled by its first obligation that is not answered with
unsat. -/
theorem chainResult_eq (rs : List (Obligation × Answer)) :
    chainResult rs = match firstOpen? rs with
      | none => .ok none
      | some r => Option.map r.1.witness <$> r.1.verdict r.2 := by
  induction rs with
  | nil => rfl
  | cons r rs ih =>
    obtain ⟨o, answer⟩ := r
    cases answer with
    | sat m => rfl
    | unknown reason => rfl
    | unsat =>
      by_cases hrs : rs = []
      · subst hrs
        rfl
      · rw [chainResult, lastVerdict_cons_unsat o hrs]
        exact ih

theorem chainResult_of_unknown {o : Obligation} {reason : String}
    (h : firstOpen? rs = some (o, .unknown reason)) :
    chainResult rs = .error (.solver ⟨reason, o.node, some o.kind.display⟩) := by
  rw [chainResult_eq, h]
  rfl

theorem chainResult_of_known (h : ∀ o reason, firstOpen? rs ≠ some (o, .unknown reason)) :
    chainResult rs = .ok (counterexample? rs) := by
  rw [chainResult_eq, counterexample?]
  cases hopen : firstOpen? rs with
  | none => rfl
  | some r =>
    obtain ⟨o, answer⟩ := r
    cases answer with
    | unsat =>
      -- the first open obligation is not answered with unsat
      have hfound := List.find?_some hopen
      cases hfound
    | sat m => rfl
    | unknown reason => exact absurd hopen (h o reason)

/-- An error in the result of a chain comes from the first obligation that is not answered with
unsat. -/
theorem exists_of_chainResult_eq_error {e : Failure} (h : chainResult rs = .error e) :
    ∃ o reason, firstOpen? rs = some (o, .unknown reason) ∧
      e = .solver ⟨reason, o.node, some o.kind.display⟩ := by
  by_cases hknown : ∀ o reason, firstOpen? rs ≠ some (o, .unknown reason)
  · rw [chainResult_of_known hknown] at h
    cases h
  · simp only [not_forall, not_not] at hknown
    obtain ⟨o, reason, hopen⟩ := hknown
    rw [chainResult_of_unknown hopen] at h
    cases h
    exact ⟨o, reason, hopen, rfl⟩

/-! ### Runs -/

/-- What the run of a chain comes to after `k` queries. -/
def chainOutcome (oracle : Oracle) :
    List Obligation → Nat → Except Failure (Option (Obligation × Option Model)) × Nat
  | [], k => (.ok none, k)
  | o :: os, k => followedBy (fun k => (o.verdict (oracle k o.query), k + 1)) (fun r k =>
      if r.isSome || os.isEmpty then (.ok (some (o, r)), k) else chainOutcome oracle os k) k

theorem gives_solveChain (oracle : Oracle) (os : List Obligation) :
    (solveChain oracle os).Gives (chainOutcome oracle os) := by
  induction os with
  | nil => exact gives_pure none
  | cons o os ih =>
    refine gives_bind (gives_ask oracle o) fun r => ?_
    split
    · exact gives_pure _
    · exact ih

/-- A chain is asked up to its first obligation that is not answered with unsat. -/
theorem chainOutcome_of_follows (h : Follows oracle k (tried rs)) :
    chainOutcome oracle (rs.map Prod.fst) k = (lastVerdict rs, k + (tried rs).length) := by
  induction rs generalizing k with
  | nil => rfl
  | cons r rs ih =>
    obtain ⟨o, answer⟩ := r
    rw [tried_cons, follows_cons_iff] at h
    obtain ⟨hanswer, hrest⟩ := h
    simp only [List.map_cons, chainOutcome, followedBy, hanswer]
    cases answer with
    | sat m => rfl
    | unknown reason => rfl
    | unsat =>
      by_cases hrs : rs = []
      · subst hrs
        rfl
      · have hempty : (rs.map Prod.fst).isEmpty = false := by simpa using hrs
        have hlength : k + 1 + (tried rs).length = k + (tried ((o, .unsat) :: rs)).length := by
          rw [tried_cons]
          show _ = k + ((tried rs).length + 1)
          omega
        rw [lastVerdict_cons_unsat o hrs, ← hlength, ← ih hrest]
        simp only [verdict, hempty, Option.isSome_none, Bool.or_self, Bool.false_eq_true, if_false]

/-- The number of obligations of a chain that are asked. -/
def triedCount (c : String × List (Obligation × Answer)) : Nat := (tried c.2).length

theorem Script.length_asked (script : Script) :
    script.asked.length = (script.map triedCount).sum := by
  rw [asked, List.length_flatMap]
  rfl

/-- A loop over the chains of a script. -/
theorem eachInTurn_chains {β : Type} {f : String × List Obligation → Nat → Except Failure β × Nat}
    {g : String × List (Obligation × Answer) → Except Failure β}
    (hf : ∀ c k, Follows oracle k (tried c.2) →
      f (c.1, c.2.map Prod.fst) k = counted g triedCount c k)
    {script : Script} (h : Follows oracle k script.asked) :
    eachInTurn f script.chains k = eachInTurn (counted g triedCount) script k := by
  induction script generalizing k with
  | nil => rfl
  | cons c script ih =>
    obtain ⟨hc, hrest⟩ :=
      follows_append (show Follows oracle k (tried c.2 ++ Script.asked script) from h)
    show eachInTurn f ((c.1, c.2.map Prod.fst) :: Script.chains script) k = _
    cases hg : g c with
    | error e =>
      have hround : counted g triedCount c k = (.error e, k + triedCount c) := by rw [counted, hg]
      rw [eachInTurn_cons_error hround, eachInTurn_cons_error ((hf c k hc).trans hround)]
    | ok b =>
      have hround : counted g triedCount c k = (.ok b, k + triedCount c) := by rw [counted, hg]
      rw [eachInTurn_cons_ok hround, eachInTurn_cons_ok ((hf c k hc).trans hround), triedCount,
        ih hrest]

/-- The result of a chain under its key. -/
def keyedResult (c : String × List (Obligation × Answer)) :
    Except Failure (String × Option State) :=
  (fun found => (c.1, found)) <$> chainResult c.2

/-- The result that arrives under a key. -/
def arrivedResult (r : String × Except Failure (Option (Obligation × Option Model))) :
    Except Failure (String × Option State) :=
  (fun outcome => (r.1, chainState outcome)) <$> r.2

theorem arrivedResult_lastVerdict (c : String × List (Obligation × Answer)) :
    arrivedResult (c.1, lastVerdict c.2) = keyedResult c := by
  rw [arrivedResult, keyedResult, chainResult]
  cases lastVerdict c.2 <;> rfl

/-- What the discharge of the chains of a script comes to after `k` queries. -/
def scriptOutcome (arrival : Arrival) (settings : CheckSettings) (script : Script) (k : Nat) :
    Except Failure (List (String × Option State)) × Nat :=
  if settings.workers ≤ 1 || script.length ≤ 1 then
    eachInTurn (counted keyedResult triedCount) script k
  else
    ((fun arrived => script.map fun c => (c.1, (Entries.get? arrived c.1).getD none)) <$>
      (arrival.arrange (script.map fun c => (c.1, lastVerdict c.2))).mapM arrivedResult,
      k + script.asked.length)

theorem gives_soloRound (oracle : Oracle) (c : String × List Obligation) :
    (do let outcome ← solveChain oracle c.2
        return (c.1, ← concludeChain outcome) : Run Failure (String × Option State)).Gives
      (followedBy (chainOutcome oracle c.2) fun outcome k => (.ok (c.1, chainState outcome), k)) :=
  gives_bind (gives_solveChain oracle c.2) fun outcome =>
    gives_bind (gives_concludeChain outcome) fun found => gives_pure (c.1, found)

theorem gives_workerRound (oracle : Oracle) (c : String × List Obligation) :
    (do return (c.1, ← attempt (solveChain oracle c.2)) :
      Run Failure (String × Except Failure (Option (Obligation × Option Model)))).Gives
      fun k => (.ok (c.1, (chainOutcome oracle c.2 k).1), (chainOutcome oracle c.2 k).2) :=
  gives_bind (gives_attempt (gives_solveChain oracle c.2)) fun r => gives_pure (c.1, r)

theorem gives_arrivalRound (r : String × Except Failure (Option (Obligation × Option Model))) :
    (do return (r.1, ← concludeChain (← fetch r.2)) : Run Failure (String × Option State)).Gives
      fun k => (arrivedResult r, k) := by
  have hround := gives_bind (gives_fetch r.2) fun outcome =>
    gives_bind (gives_concludeChain outcome) fun found => gives_pure (ε := Failure) (r.1, found)
  intro s
  rw [hround s]
  obtain ⟨key, x⟩ := r
  cases x <;> rfl

/-- The workers find out about every chain what its last verdict is. -/
theorem workers_of_follows {script : Script} (h : Follows oracle k script.asked) :
    eachInTurn (fun c k => (Except.ok (ε := Failure) (c.1, (chainOutcome oracle c.2 k).1),
        (chainOutcome oracle c.2 k).2)) script.chains k =
      (.ok (script.map fun c => (c.1, lastVerdict c.2)), k + script.asked.length) := by
  rw [eachInTurn_chains (g := fun c => .ok (c.1, lastVerdict c.2)) (fun c k hc => by
    rw [chainOutcome_of_follows hc]; rfl) h]
  obtain ⟨k', -, -, hout, hall⟩ := eachInTurn_counted (ε := Failure)
    (fun c : String × List (Obligation × Answer) => .ok (c.1, lastVerdict c.2)) triedCount script k
  rw [hout, hall fun c _ => ⟨_, rfl⟩, script.length_asked]
  have hresults : script.mapM (fun c => Except.ok (ε := Failure) (c.1, lastVerdict c.2)) =
      .ok (script.map fun c => (c.1, lastVerdict c.2)) :=
    mapM_eq_ok.2 (List.forall₂_map_right_iff.2 (List.forall₂_same.2 fun c _ => rfl))
  rw [hresults]

theorem outcome_dischargeChains (arrival : Arrival) (settings : CheckSettings) {script : Script}
    {s : Session} (h : Follows oracle s.asked script.asked) :
    (dischargeChains oracle arrival settings script.chains).outcome s =
      scriptOutcome arrival settings script s.asked := by
  have hlog := gives_logFormulas settings (script.chains.flatMap Prod.snd)
  have hlength : script.chains.length = script.length := List.length_map _
  unfold dischargeChains scriptOutcome
  rw [hlength]
  split
  · rw [gives_bind hlog (fun _ => gives_mapM (gives_soloRound oracle) script.chains) s,
      followedBy_of_ok rfl]
    refine eachInTurn_chains (fun c k hc => ?_) h
    rw [followedBy, chainOutcome_of_follows hc, counted, keyedResult, chainResult]
    cases lastVerdict c.2 <;> rfl
  · rw [gives_bind hlog (fun _ => gives_bind (gives_mapM (gives_workerRound oracle) script.chains)
      fun results => gives_bind (gives_mapM gives_arrivalRound (arrival.arrange results))
        fun arrived => gives_pure _) s, followedBy_of_ok rfl,
      followedBy_of_ok (workers_of_follows h), followedBy, eachInTurn_pure]
    cases (arrival.arrange (script.map fun c => (c.1, lastVerdict c.2))).mapM arrivedResult with
    | error e => rfl
    | ok arrived =>
      simp only [Script.chains, List.map_map]
      rfl

/-! ### Every schedule -/

variable {script : Script} (arrival : Arrival) (settings : CheckSettings)

/-- Obligations that are not asked do not matter. -/
theorem scriptOutcome_cut (script : Script) (k : Nat) :
    scriptOutcome arrival settings script.cut k = scriptOutcome arrival settings script k := by
  have hverdict (rs : List (Obligation × Answer)) : lastVerdict (tried rs) = lastVerdict rs := by
    rw [lastVerdict, tried_tried, lastVerdict]
  have hround : (fun c : String × List (Obligation × Answer) =>
      counted keyedResult triedCount (c.1, tried c.2)) = counted keyedResult triedCount := by
    funext c k
    simp only [counted, keyedResult, chainResult, hverdict, triedCount, tried_tried]
  have hasked : script.cut.asked = script.asked := by
    simp only [Script.asked, Script.cut, List.flatMap_map, tried_tried]
  unfold scriptOutcome
  rw [hasked, Script.cut, List.length_map, eachInTurn_map, hround]
  simp only [List.map_map, Function.comp_def, hverdict]

theorem keyedResult_of_known {c : String × List (Obligation × Answer)}
    (h : ∀ o reason, firstOpen? c.2 ≠ some (o, .unknown reason)) :
    keyedResult c = .ok (c.1, counterexample? c.2) := by
  rw [keyedResult, chainResult_of_known h]
  rfl

theorem exists_of_keyedResult_eq_error {c : String × List (Obligation × Answer)} {e : Failure}
    (h : keyedResult c = .error e) : ∃ o reason, firstOpen? c.2 = some (o, .unknown reason) ∧
      e = .solver ⟨reason, o.node, some o.kind.display⟩ := by
  rw [keyedResult] at h
  cases hresult : chainResult c.2 with
  | ok found =>
    rw [hresult] at h
    cases h
  | error e' =>
    rw [hresult] at h
    cases h
    exact exists_of_chainResult_eq_error hresult

/-- What a worker returns belongs to one of the chains. -/
theorem mem_arrange_iff {r : String × Except Failure (Option (Obligation × Option Model))} :
    r ∈ arrival.arrange (script.map fun c => (c.1, lastVerdict c.2)) ↔
      ∃ c ∈ script, (c.1, lastVerdict c.2) = r :=
  (arrival.perm _).mem_iff.trans List.mem_map

/-- Without unknown answers, what arrives is found again under its key. -/
theorem get?_arrived (hkeys : (Entries.keys script).Nodup)
    (hknown : ∀ c ∈ script, keyedResult c = .ok (c.1, counterexample? c.2))
    {arrived : List (String × Option State)}
    (harrived : (arrival.arrange (script.map fun c => (c.1, lastVerdict c.2))).mapM arrivedResult =
      .ok arrived) {c : String × List (Obligation × Answer)} (hc : c ∈ script) :
    Entries.get? arrived c.1 = some (counterexample? c.2) := by
  have hrelated := mapM_eq_ok.1 harrived
  have hnodup : (Entries.keys arrived).Nodup := by
    have hsame : Entries.keys arrived =
        Entries.keys (arrival.arrange (script.map fun c => (c.1, lastVerdict c.2))) := by
      refine Entries.keys_eq_of_forall₂ (hrelated.imp fun r b hb => ?_)
      obtain ⟨key, x⟩ := r
      cases x <;> cases hb
      rfl
    rw [hsame]
    refine ((arrival.perm _).map Prod.fst).nodup_iff.2 ?_
    rw [List.map_map]
    exact hkeys
  obtain ⟨b, hb, hresult⟩ :=
    exists_right_of_forall₂ hrelated ((mem_arrange_iff arrival).2 ⟨c, hc, rfl⟩)
  rw [arrivedResult_lastVerdict, hknown c hc] at hresult
  cases hresult
  exact Entries.get?_of_mem hnodup hb

theorem scriptOutcome_of_known (hkeys : (Entries.keys script).Nodup)
    (h : ∀ c ∈ script, ∀ o reason, firstOpen? c.2 ≠ some (o, .unknown reason)) (k : Nat) :
    scriptOutcome arrival settings script k =
      (.ok (script.map fun c => (c.1, counterexample? c.2)), k + script.asked.length) := by
  have hknown : ∀ c ∈ script, keyedResult c = .ok (c.1, counterexample? c.2) :=
    fun c hc => keyedResult_of_known (h c hc)
  unfold scriptOutcome
  split
  · obtain ⟨k', -, -, hout, hall⟩ := eachInTurn_counted keyedResult triedCount script k
    have hresults : script.mapM keyedResult =
        .ok (script.map fun c => (c.1, counterexample? c.2)) :=
      mapM_eq_ok.2 (List.forall₂_map_right_iff.2 (List.forall₂_same.2 hknown))
    rw [hout, hresults, hall fun c hc => ⟨_, hknown c hc⟩, script.length_asked]
  · have hall : ∀ r ∈ arrival.arrange (script.map fun c => (c.1, lastVerdict c.2)),
        ∃ b, arrivedResult r = .ok b := by
      intro r hr
      obtain ⟨c, hc, rfl⟩ := (mem_arrange_iff arrival).1 hr
      exact ⟨_, (arrivedResult_lastVerdict c).trans (hknown c hc)⟩
    obtain ⟨arrived, harrived⟩ := exists_mapM hall
    have hfound : (script.map fun c => (c.1, (Entries.get? arrived c.1).getD none)) =
        script.map fun c => (c.1, counterexample? c.2) :=
      List.map_congr_left fun c hc => by
        rw [get?_arrived arrival hkeys hknown harrived hc, Option.getD_some]
    rw [harrived, ← hfound]
    rfl

/-- An unknown answer that settles a chain is an error of the whole, though perhaps not that one. -/
theorem scriptOutcome_of_unknown
    (h : ∃ c ∈ script, ∃ o reason, firstOpen? c.2 = some (o, .unknown reason)) (k : Nat) :
    ∃ c ∈ script, ∃ o reason, firstOpen? c.2 = some (o, .unknown reason) ∧
      (scriptOutcome arrival settings script k).1 =
        .error (.solver ⟨reason, o.node, some o.kind.display⟩) ∧
      (scriptOutcome arrival settings script k).2 ≤ k + script.asked.length := by
  obtain ⟨c, hc, o, reason, hopen⟩ := h
  have herror : ∃ e, keyedResult c = .error e := by
    rw [keyedResult, chainResult_of_unknown hopen]
    exact ⟨_, rfl⟩
  obtain ⟨e, he⟩ := herror
  unfold scriptOutcome
  split
  · obtain ⟨k', hle, -, hout, -⟩ := eachInTurn_counted keyedResult triedCount script k
    rw [hout, script.length_asked]
    cases hresult : script.mapM keyedResult with
    | ok found =>
      obtain ⟨b, -, hb⟩ := exists_mem_of_mapM hresult hc
      rw [he] at hb
      cases hb
    | error e' =>
      obtain ⟨c', hc', he'⟩ := exists_of_mapM_eq_error hresult
      obtain ⟨o', reason', hopen', rfl⟩ := exists_of_keyedResult_eq_error he'
      exact ⟨c', hc', o', reason', hopen', rfl, hle⟩
  · cases hresult : (arrival.arrange (script.map fun c => (c.1, lastVerdict c.2))).mapM
        arrivedResult with
    | ok arrived =>
      obtain ⟨b, -, hb⟩ := exists_mem_of_mapM hresult ((mem_arrange_iff arrival).2 ⟨c, hc, rfl⟩)
      rw [arrivedResult_lastVerdict, he] at hb
      cases hb
    | error e' =>
      obtain ⟨r, hr, he'⟩ := exists_of_mapM_eq_error hresult
      obtain ⟨c', hc', rfl⟩ := (mem_arrange_iff arrival).1 hr
      rw [arrivedResult_lastVerdict] at he'
      obtain ⟨o', reason', hopen', rfl⟩ := exists_of_keyedResult_eq_error he'
      exact ⟨c', hc', o', reason', hopen', rfl, Nat.le_refl _⟩

/-- Chains are discharged alike under every schedule. The obligations of the chains may be answered
in any way. Whatever oracle answers them so, with any number of workers, and in whatever order their
results arrive: if no chain is settled by an unknown answer, the result has the keys of the chains
in their order, each with the counterexample of the first obligation that is not answered with
unsat, or without one; otherwise the error names the node and the check of an obligation whose
unknown answer settles its chain. The obligations after the one that settles a chain could as well
be left out, and no more queries are asked than there are obligations up to that one. -/
theorem dischargeChains_schedule_independent (script : Script)
    (hkeys : (Entries.keys script).Nodup) (s : Session) :
    (∃ oracle, Follows oracle s.asked script.asked) ∧
    ∀ oracle, Follows oracle s.asked script.asked →
      ∀ (arrival : Arrival) (settings : CheckSettings),
        let out := (dischargeChains oracle arrival settings script.chains).outcome s
        ((∀ c ∈ script, ∀ o reason, firstOpen? c.2 ≠ some (o, .unknown reason)) →
          out = (.ok (script.map fun c => (c.1, counterexample? c.2)),
            s.asked + script.asked.length)) ∧
        ((∃ c ∈ script, ∃ o reason, firstOpen? c.2 = some (o, .unknown reason)) →
          ∃ c ∈ script, ∃ o reason, firstOpen? c.2 = some (o, .unknown reason) ∧
            out.1 = .error (.solver ⟨reason, o.node, some o.kind.display⟩) ∧
            out.2 ≤ s.asked + script.asked.length) ∧
        (dischargeChains oracle arrival settings script.cut.chains).outcome s = out := by
  refine ⟨exists_follows s.asked script.asked, fun oracle h arrival settings => ?_⟩
  have hcut : Follows oracle s.asked script.cut.asked := by
    simpa only [Script.asked, Script.cut, List.flatMap_map, tried_tried] using h
  intro out
  have hout : out = scriptOutcome arrival settings script s.asked :=
    outcome_dischargeChains arrival settings h
  rw [hout, outcome_dischargeChains arrival settings hcut]
  exact ⟨fun hknown => scriptOutcome_of_known arrival settings hkeys hknown s.asked,
    fun hunknown => scriptOutcome_of_unknown arrival settings hunknown s.asked,
    scriptOutcome_cut arrival settings script s.asked⟩

/-- An obligation at a node whose counterexample shows the time of the model. -/
def timed (node : String) (kind : CheckKind) (query : Term) : Obligation where
  node := some node
  kind := kind
  query := query
  witness m := ⟨[], .text node, .safety .null (.int m.time)⟩

/-- An oracle for plain truth values, which gives up on everything else. -/
def truthOracle : Oracle := fun _ q =>
  if q = .bool false then .unsat
  else if q = .bool true then .sat ⟨fun _ => .null, 7⟩
  else .unknown "timeout"

/-- Results arrive in the reverse order. -/
def lastFirst : Arrival := ⟨fun l => l.reverse, fun l => List.reverse_perm l⟩

/-- A chain that fails at its second obligation, an empty chain and one that gets through. -/
def mixedScript : Script :=
  [("A", [(timed "A" .base (.bool false), .unsat),
      (timed "A" .step (.bool true), .sat ⟨fun _ => .null, 7⟩),
      (timed "A" .safety (.var .time), .unknown "timeout")]),
    ("B", []),
    ("C", [(timed "C" .base (.bool false), .unsat)])]

/-- A pool whose results arrive in the reverse order finds the counterexample of the first chain,
and does not ask its last obligation. One more chain, on whose obligation the oracle gives up, is an
error of the whole. -/
theorem dischargeChains_schedule_independent_mixed :
    let settings : CheckSettings := { (default : CheckSettings) with workers := 4 }
    let script' : Script :=
      mixedScript ++ [("D", [(timed "D" .safety (.var .time), .unknown "timeout")])]
    (dischargeChains truthOracle lastFirst settings mixedScript.chains).outcome default =
      (.ok [("A", some ⟨[], .text "A", .safety .null (.int 7)⟩), ("B", none), ("C", none)], 3) ∧
    ((dischargeChains truthOracle lastFirst settings script'.chains).outcome default).1 =
      .error (.solver ⟨"timeout", some "D", some "safety"⟩) := by
  intro settings script'
  have hmixed : Follows truthOracle 0 mixedScript.asked :=
    follows_cons_iff.2 ⟨rfl, follows_cons_iff.2 ⟨rfl, follows_cons_iff.2 ⟨rfl, follows_nil⟩⟩⟩
  have hasked : Follows truthOracle 0 script'.asked :=
    follows_cons_iff.2 ⟨rfl, follows_cons_iff.2 ⟨rfl, follows_cons_iff.2 ⟨rfl,
      follows_cons_iff.2 ⟨rfl, follows_nil⟩⟩⟩⟩
  constructor
  · refine ((dischargeChains_schedule_independent mixedScript (by decide) default).2 truthOracle
      hmixed lastFirst settings).1 fun c hc o reason hopen => ?_
    simp only [mixedScript, List.mem_cons, List.not_mem_nil, or_false] at hc
    rcases hc with rfl | rfl | rfl <;> cases hopen
  · obtain ⟨c, hc, o, reason, hopen, hout, -⟩ :=
      ((dischargeChains_schedule_independent script' (by decide) default).2 truthOracle hasked
        lastFirst settings).2.1
        ⟨_, List.mem_append_right _ (List.mem_singleton_self _), _, _, rfl⟩
    simp only [script', mixedScript, List.mem_append, List.mem_cons, List.not_mem_nil,
      or_false] at hc
    rcases hc with (rfl | rfl | rfl) | rfl <;> cases hopen
    exact hout

end Obligation

end RouteInvariants
