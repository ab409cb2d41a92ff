import RouteInvariants.Proofs.Discharge
import RouteInvariants.Proofs.Obligations

/-!
The phases of the modular check. The check stops at the first phase that is not clean
(`phasesOutcome_settles`), and whether it ends with a proof, with a counterexample of which kind or
with an error does not depend on how the work is scheduled.
-/

namespace RouteInvariants

namespace AnnotatedNetwork

open Run Obligation

variable (a : AnnotatedNetwork) (oracle : Oracle) (arrival : Arrival) (settings : CheckSettings)

/-- The obligations of the modular check, phase by phase. -/
def phaseObligations : List (CheckKind × Except Failure (List Obligation)) :=
  let nodes := a.network.topology.nodes
  [(.base, nodes.mapM a.baseObligation), (.step, nodes.mapM a.inductiveObligation),
    (.safety, nodes.mapM a.safetyObligation)]

/-- The check of a phase. -/
def phaseCheck (p : CheckKind × Except Failure (List Obligation)) :
    CheckKind × Run Failure (Option State) :=
  (p.1, fetch p.2 >>= fun os => discharge oracle arrival settings os)

theorem phases_eq : phases a oracle arrival settings =
    a.phaseObligations.map (phaseCheck oracle arrival settings) := by
  simp only [phases, phaseObligations, List.map_cons, List.map_nil, phaseCheck, checkBase,
    checkInductive, checkSafety, dischargeAll, nodesOf, fetch, pure_bind]

/-- What the phases come to after `k` queries. -/
def phasesOutcome : List (Except Failure (List Obligation)) → Nat →
    Except Failure (Option State) × Nat
  | [], k => (.ok none, k)
  | .error e :: _, k => (.error e, k)
  | .ok os :: ps, k => match dischargeOutcome oracle arrival settings os k with
    | (.ok none, k') => phasesOutcome ps k'
    | out => out

theorem gives_runPhases (ps : List (CheckKind × Except Failure (List Obligation))) :
    (runPhases (ps.map (phaseCheck oracle arrival settings))).Gives
      (phasesOutcome oracle arrival settings (ps.map Prod.snd)) := by
  induction ps with
  | nil => exact gives_bind (gives_journal _) fun _ => gives_pure none
  | cons p ps ih =>
    obtain ⟨kind, r⟩ := p
    intro s
    have hcheck := gives_timed (kind.title ++ " checks") kind.display
      (gives_bind (gives_fetch r) fun os => gives_discharge oracle arrival settings os)
    -- a counterexample ends the check, and otherwise the other phases follow
    have hall : (runPhases (((kind, r) :: ps).map (phaseCheck oracle arrival settings))).Gives
        (followedBy (followedBy (fun k => (r, k)) (dischargeOutcome oracle arrival settings))
          fun found => found.elim (phasesOutcome oracle arrival settings (ps.map Prod.snd))
            fun st k => (.ok (some st), k)) := by
      refine gives_bind hcheck fun found => ?_
      cases found with
      | none => exact ih
      | some st => exact gives_bind (gives_journal _) fun _ => gives_pure (some st)
    refine (hall s).trans ?_
    cases r with
    | error e => rfl
    | ok os =>
      simp only [followedBy, List.map_cons, phasesOutcome]
      generalize dischargeOutcome oracle arrival settings os s.asked = out
      obtain ⟨x, k'⟩ := out
      rcases x with e | _ | st <;> rfl

/-- The search for a law that the merge breaks, if asked for, finds none. -/
def KeepsLaws : Prop := settings.checkMergeLaws = true →
  a.network.merge.checkLaws a.network.routeTy settings.mergeLawExamples = .ok ()

theorem checkAnnotations_outcome_of_laws (hlaws : a.KeepsLaws settings) (s : Session) :
    (a.checkAnnotations oracle arrival settings).outcome s =
      phasesOutcome oracle arrival settings (a.phaseObligations.map Prod.snd) s.asked := by
  have hphases := gives_runPhases oracle arrival settings a.phaseObligations
  unfold checkAnnotations
  rw [phases_eq]
  by_cases hasked : settings.checkMergeLaws = true
  · rw [if_pos hasked, hlaws hasked]
    exact gives_bind (gives_timed _ _ (gives_fetch (.ok ()))) (fun _ => hphases) s
  · rw [if_neg hasked]
    exact hphases s

theorem checkAnnotations_outcome (hlaws : settings.checkMergeLaws = false) (s : Session) :
    (a.checkAnnotations oracle arrival settings).outcome s =
      phasesOutcome oracle arrival settings (a.phaseObligations.map Prod.snd) s.asked :=
  a.checkAnnotations_outcome_of_laws oracle arrival settings
    (fun hasked => absurd (hlaws.symm.trans hasked) Bool.false_ne_true) s

variable {oracle arrival settings} {k : Nat} {done : List (List Obligation)} {os : List Obligation}
  {rest : List (Except Failure (List Obligation))}

theorem clean_append {os' : List Obligation} : Clean oracle k (os ++ os') ↔
    Clean oracle k os ∧ Clean oracle (k + os.length) os' := by
  constructor
  · refine fun h => ⟨fun i o ho => h i o ?_, fun i o ho => ?_⟩
    · rw [List.getElem?_append_left (List.getElem?_eq_some_iff.1 ho).1, ho]
    · rw [Nat.add_assoc]
      exact h _ o (by rw [List.getElem?_append_right (by omega), Nat.add_sub_cancel_left, ho])
  · rintro ⟨h, h'⟩ i o ho
    by_cases hi : i < os.length
    · exact h i o (by rwa [List.getElem?_append_left hi] at ho)
    · rw [List.getElem?_append_right (by omega)] at ho
      have := h' _ o ho
      rwa [Nat.add_assoc, Nat.add_sub_cancel' (by omega)] at this

/-- Clean phases are passed. -/
theorem phasesOutcome_append (hclean : Clean oracle k done.flatten) :
    phasesOutcome oracle arrival settings (done.map .ok ++ rest) k =
      phasesOutcome oracle arrival settings rest (k + done.flatten.length) := by
  induction done generalizing k with
  | nil => rfl
  | cons os done ih =>
    rw [List.flatten_cons, clean_append] at hclean
    have hsettles := discharge_settles oracle arrival settings k os
    have hout : dischargeOutcome oracle arrival settings os k = (.ok none, k + os.length) :=
      Prod.ext (hsettles.clean hclean.1) (hsettles.known hclean.1.known)
    rw [List.map_cons, List.cons_append, phasesOutcome, hout]
    dsimp only
    rw [ih hclean.2, List.flatten_cons, List.length_append, Nat.add_assoc]

/-- The first phase that is not clean is the last one. -/
theorem phasesOutcome_eq (hclean : Clean oracle k done.flatten)
    (hos : ¬ Clean oracle (k + done.flatten.length) os) :
    phasesOutcome oracle arrival settings (done.map .ok ++ .ok os :: rest) k =
      dischargeOutcome oracle arrival settings os (k + done.flatten.length) := by
  have hne := (discharge_settles oracle arrival settings (k + done.flatten.length) os).ne_ok_none
    oracle hos
  rw [phasesOutcome_append hclean, phasesOutcome]
  generalize dischargeOutcome oracle arrival settings os (k + done.flatten.length) = out at hne ⊢
  obtain ⟨x, k'⟩ := out
  rcases x with e | _ | st
  · rfl
  · exact absurd rfl hne
  · rfl

theorem phasesOutcome_settles (hclean : Clean oracle k done.flatten)
    (hos : ¬ Clean oracle (k + done.flatten.length) os) :
    Settles oracle (k + done.flatten.length) os
      (phasesOutcome oracle arrival settings (done.map .ok ++ .ok os :: rest) k) := by
  rw [phasesOutcome_eq hclean hos]
  exact discharge_settles oracle arrival settings _ os

/-- Only the answers to the phases up to the first one that is not clean matter. -/
theorem phasesOutcome_congr {oracle' : Oracle} (hclean : Clean oracle k done.flatten)
    (hos : ¬ Clean oracle (k + done.flatten.length) os)
    (h : ∀ o ∈ done.flatten ++ os, ∀ j, oracle' j o.query = oracle j o.query) :
    phasesOutcome oracle' arrival settings (done.map .ok ++ .ok os :: rest) k =
      phasesOutcome oracle arrival settings (done.map .ok ++ .ok os :: rest) k := by
  obtain ⟨hdone, hlast⟩ := List.forall_mem_append.1 h
  rw [phasesOutcome_eq hclean hos, phasesOutcome_eq ((clean_congr hdone k).2 hclean)
    (mt (clean_congr hlast _).1 hos), dischargeOutcome_congr hlast]

/-- All phases are clean, or there is a first one that is not, or one that cannot be formed. -/
theorem phases_cases (oracle : Oracle) (k : Nat) (ps : List (Except Failure (List Obligation))) :
    (∃ all : List (List Obligation), ps = all.map .ok ∧ Clean oracle k all.flatten) ∨
    (∃ (done : List (List Obligation)) (os : List Obligation) (rest : _),
      ps = done.map .ok ++ .ok os :: rest ∧ Clean oracle k done.flatten ∧
        ¬ Clean oracle (k + done.flatten.length) os) ∨
    (∃ (done : List (List Obligation)) (e : Failure) (rest : _),
      ps = done.map .ok ++ .error e :: rest ∧ Clean oracle k done.flatten) := by
  induction ps generalizing k with
  | nil => exact .inl ⟨[], rfl, by simp [Clean]⟩
  | cons p ps ih =>
    cases p with
    | error e => exact .inr (.inr ⟨[], e, ps, rfl, by simp [Clean]⟩)
    | ok os =>
      by_cases hos : Clean oracle k os
      · -- a clean phase goes in front of what comes of the others
        have flat : ∀ {done : List (List Obligation)}, Clean oracle (k + os.length) done.flatten →
            Clean oracle k (os :: done).flatten := fun h => by
          rw [List.flatten_cons, clean_append]
          exact ⟨hos, h⟩
        rcases ih (k + os.length) with ⟨all, rfl, h⟩ | ⟨done, os', rest, rfl, h, h'⟩ |
          ⟨done, e, rest, rfl, h⟩
        · exact .inl ⟨os :: all, rfl, flat h⟩
        · refine .inr (.inl ⟨os :: done, os', rest, rfl, flat h, ?_⟩)
          rwa [List.flatten_cons, List.length_append, ← Nat.add_assoc]
        · exact .inr (.inr ⟨os :: done, e, rest, rfl, flat h⟩)
      · exact .inr (.inl ⟨[], os, ps, rfl, by simp [Clean], hos⟩)

theorem phasesOutcome_eq_none_iff (ps : List (Except Failure (List Obligation))) :
    (phasesOutcome oracle arrival settings ps k).1 = .ok none ↔
      ∃ all : List (List Obligation), ps = all.map .ok ∧ Clean oracle k all.flatten := by
  constructor
  · intro h
    rcases phases_cases oracle k ps with hall | ⟨done, os, rest, rfl, hdone, hos⟩ |
      ⟨done, e, rest, rfl, hdone⟩
    · exact hall
    · exact absurd h ((phasesOutcome_settles hdone hos).ne_ok_none oracle hos)
    · rw [phasesOutcome_append hdone] at h
      cases h
  · rintro ⟨all, rfl, hclean⟩
    rw [← List.append_nil (all.map Except.ok), phasesOutcome_append hclean]
    rfl

/-! ### What does not depend on the schedule -/

/-- The ways in which a check can end. -/
inductive Conclusion where
  | proved
  | counterexample (kind : CheckKind)
  | failed
deriving DecidableEq

def conclusion : Except Failure (Option State) → Conclusion
  | .ok none => .proved
  | .ok (some s) => .counterexample s.kind
  | .error _ => .failed

/-- The counterexamples that a phase can find are of its own kind. -/
theorem kind_of_phase {kind : CheckKind} (h : (kind, .ok os) ∈ a.phaseObligations)
    {o : Obligation} (ho : o ∈ os) (m : Model) : (o.witness m).kind = kind := by
  simp only [phaseObligations, List.mem_cons, Prod.mk.injEq, List.not_mem_nil, or_false] at h
  rcases h with ⟨rfl, hos⟩ | ⟨rfl, hos⟩ | ⟨rfl, hos⟩
  · obtain ⟨n, hn, h⟩ := exists_of_mem_mapM hos.symm ho
    rw [(a.baseObligation_spec hn h).witness]
    rfl
  · obtain ⟨n, -, h⟩ := exists_of_mem_mapM hos.symm ho
    obtain ⟨x, -, hspec⟩ := a.inductiveObligation_spec h
    rw [hspec.witness]
    rfl
  · obtain ⟨n, -, h⟩ := exists_of_mem_mapM hos.symm ho
    rw [(a.safetyObligation_spec h).witness]
    rfl

/-- Two outcomes that the same answers settle are of one class. -/
theorem Settles.conclusion_eq {kind : CheckKind}
    {out out' : Except Failure (Option State) × Nat}
    (hkind : ∀ o ∈ os, ∀ m, (o.witness m).kind = kind) (hos : ¬ Clean oracle k os)
    (h : Settles oracle k os out) (h' : Settles oracle k os out') :
    conclusion out.1 = conclusion out'.1 := by
  by_cases hu : ∃ o reason, AnsweredWith oracle k os o (.unknown reason)
  · obtain ⟨o, reason, -, he⟩ := h.unknown hu
    obtain ⟨o', reason', -, he'⟩ := h'.unknown hu
    rw [he, he']
    rfl
  · have hknown : Known oracle k os := by simpa [Known] using hu
    obtain ⟨o, m, ⟨i, ho, -⟩, he⟩ := h.sat hknown hos
    obtain ⟨o', m', ⟨i', ho', -⟩, he'⟩ := h'.sat hknown hos
    rw [he, he', conclusion, conclusion, hkind o (List.mem_of_getElem? ho),
      hkind o' (List.mem_of_getElem? ho')]

/-- Whether the phases end with a proof, with a counterexample of which kind or with an error does
not depend on the number of workers or on the order of arrival. -/
theorem conclusion_phasesOutcome (arrival' : Arrival) (settings' : CheckSettings) :
    conclusion (phasesOutcome oracle arrival settings (a.phaseObligations.map Prod.snd) k).1 =
      conclusion
        (phasesOutcome oracle arrival' settings' (a.phaseObligations.map Prod.snd) k).1 := by
  rcases phases_cases oracle k (a.phaseObligations.map Prod.snd) with
    hall | ⟨done, os, rest, hps, hdone, hos⟩ | ⟨done, e, rest, hps, hdone⟩
  · rw [(phasesOutcome_eq_none_iff _).2 hall, (phasesOutcome_eq_none_iff _).2 hall]
  · have hmem : Except.ok os ∈ a.phaseObligations.map Prod.snd := by simp [hps]
    obtain ⟨⟨kind, _⟩, hkind, rfl⟩ := List.mem_map.1 hmem
    rw [hps]
    exact Settles.conclusion_eq (fun o ho m => a.kind_of_phase hkind ho m) hos
      (phasesOutcome_settles hdone hos) (phasesOutcome_settles hdone hos)
  · rw [hps, phasesOutcome_append hdone, phasesOutcome_append hdone]
    rfl

end AnnotatedNetwork

end RouteInvariants
