import RouteInvariants.Proofs.RouteAlgebra
import RouteInvariants.Proofs.Verdicts

/-!
The checks of networks that compute with an algebra of routes. Where the elements of the algebra are
all the routes of a network (`Network.Computes`), the unknown routes of a check are elements, and its
verdict is a statement about the algebra. Invariants are conditions on elements (`Network.Reads`): a
check passes where the first routes meet them (`passes_base_iff`), where a node chooses a route that
meets its own from routes that met theirs a time unit earlier (`passes_step_iff`), and where they imply
the properties (`passes_safety_iff`). The monolithic check is about the routes that every node chooses
again (`passes_monolithic_iff`).
-/

namespace RouteInvariants

theorem IsFormed.not_failsAt_iff {σ : Assignment} {r : Except SortError Typed} (h : IsFormed r) :
    ¬ FailsAt σ r ↔ HoldsAt σ r :=
  ⟨h.holdsAt, HoldsAt.not_failsAt⟩

/-- A route is equal to its update where it has the same value. -/
theorem Network.holdsAt_equal_route_iff {net : Network} {σ : Assignment} {v : Value} {x : Typed}
    (hty : x.ty = net.routeTy) :
    HoldsAt σ (Typed.equal (net.route v) x) ↔ x.term.eval σ [] = v := by
  rw [holdsAt_iff (condition_equal hty.symm), Term.holds_eq]
  exact eq_comm

namespace Network

variable {α : Type}

/-- Under every assignment the network computes with an algebra, and the elements of the algebra are
the routes. -/
structure Computes (net : Network) (code : α → Value) (A : Assignment → RouteAlgebra α) :
    Prop where
  follows : ∀ σ, net.Follows σ code (A σ)
  injective : Function.Injective code
  fits_iff : ∀ v : Value, v.fits net.routeTy = true ↔ ∃ x, v = code x

/-- The invariant is a condition on elements of the algebra. -/
def Reads (net : Network) (σ : Assignment) (code : α → Value) (inv : Invariant)
    (P : Int → α → Prop) : Prop :=
  ∀ ⦃r : Typed⦄ ⦃x : α⦄, net.Represents σ code r x → ∀ t,
    IsFormed (inv.atTime r t) ∧ (HoldsAt σ (inv.atTime r t) ↔ P t x)

namespace Computes

variable {net : Network} {code : α → Value} {A : Assignment → RouteAlgebra α} {σ : Assignment}
  {ρ : String → Value} {f : String → α} {n : String} (h : net.Computes code A)
include h

theorem exists_elements (hρ : ∀ n ∈ net.topology.nodes, (ρ n).fits net.routeTy = true) :
    ∃ f : String → α, ∀ n ∈ net.topology.nodes, ρ n = code (f n) := by
  obtain ⟨σ, -⟩ := Assignment.exists_wellSorted
  have : Nonempty α := ⟨(A σ).start ""⟩
  have hcode : ∀ n ∈ net.topology.nodes, ∃ x, ρ n = code x := fun n hn =>
    (h.fits_iff _).1 (hρ n hn)
  choose! f hf using hcode
  exact ⟨f, hf⟩

theorem fits_code (x : α) : (code x).fits net.routeTy = true := (h.fits_iff _).2 ⟨x, rfl⟩

theorem represents_route (hn : n ∈ net.topology.nodes) (x : α) :
    net.Represents σ code (net.route (code x)) x :=
  ⟨isClosed_route hn (h.fits_code x), rfl, rfl⟩

section Elements

variable (hf : ∀ n ∈ net.topology.nodes, ρ n = code (f n)) (hn : n ∈ net.topology.nodes)
include hf hn

theorem represents (σ : Assignment) : net.Represents σ code (net.route (ρ n)) (f n) :=
  hf n hn ▸ h.represents_route hn (f n)

theorem update (σ : Assignment) : ∃ u, net.update n (net.routes ρ) = .ok u ∧
    net.Represents σ code u ((A σ).next net.topology f n) :=
  (h.follows σ).update hn (representsAll_routes fun m hm =>
    ⟨hf m hm ▸ h.fits_code (f m), hf m hm⟩)

/-- The value of a node is that of its update where the algebra chooses the same route again. -/
theorem stable_iff : (∃ x, net.update n (net.routes ρ) = .ok x ∧ x.term.eval σ [] = ρ n) ↔
    f n = (A σ).next net.topology f n := by
  obtain ⟨u, hu, hrep⟩ := h.update hf hn σ
  rw [hu, hf n hn]
  constructor
  · rintro ⟨x, hx, heval⟩
    cases hx
    exact h.injective (heval.symm.trans hrep.eval)
  · intro heq
    exact ⟨u, rfl, hrep.eval.trans (congrArg code heq.symm)⟩

theorem equal_iff : (∃ x, net.update n (net.routes ρ) = .ok x ∧
    HoldsAt σ (Typed.equal (net.route (ρ n)) x)) ↔ f n = (A σ).next net.topology f n := by
  obtain ⟨u, hu, hrep⟩ := h.update hf hn σ
  rw [← h.stable_iff hf hn]
  refine exists_congr fun x => and_congr_right fun hx => holdsAt_equal_route_iff ?_
  cases hu.symm.trans hx
  exact hrep.ty

end Elements

end Computes

end Network

namespace AnnotatedNetwork

variable {α : Type} {a : AnnotatedNetwork} {code : α → Value} {A : Assignment → RouteAlgebra α}
  {σ : Assignment} {ρ : String → Value} {f : String → α} {n : String}
  (h : a.network.Computes code A)
include h

theorem areRoutes_code (f : String → α) : a.AreRoutes fun n => code (f n) :=
  fun n _ => h.fits_code (f n)

/-! ### Stable states -/

theorem stableViolation_iff (hf : ∀ n ∈ a.network.topology.nodes, ρ n = code (f n)) :
    a.StableViolation σ ρ ↔
      (∀ n ∈ a.network.topology.nodes, f n = (A σ).next a.network.topology f n) ∧
        ∃ n ∈ a.network.topology.nodes,
          FailsAt σ ((a.monolithicOf n).applyTo (a.network.route (code (f n)))) := by
  constructor
  · rintro ⟨hstable, m, hm, hfails⟩
    rw [hf m hm] at hfails
    exact ⟨fun n hn => (h.equal_iff hf hn).1 (hstable n hn), m, hm, hfails⟩
  · rintro ⟨hstable, m, hm, hfails⟩
    rw [← hf m hm] at hfails
    exact ⟨fun n hn => (h.equal_iff hf hn).2 (hstable n hn), m, hm, hfails⟩

/-- The monolithic obligation can be formed where the properties are conditions on routes. -/
theorem exists_monolithicObligation_iff_isFormed (f : String → α) :
    (∃ o, a.obligation .monolithic n = .ok o) ↔ IsFormed a.network.constraints ∧
      ∀ n ∈ a.network.topology.nodes,
        IsFormed ((a.monolithicOf n).applyTo (a.network.route (code (f n)))) := by
  rw [exists_obligation_iff (.inl rfl) (areRoutes_code h f) 0]
  refine and_congr_right fun _ => forall₂_congr fun n hn => and_iff_right ?_
  obtain ⟨σ, -⟩ := Assignment.exists_wellSorted
  obtain ⟨u, hu, hrep⟩ := h.update (f := f) (fun _ _ => rfl) hn σ
  exact ⟨u, hu, _, condition_equal hrep.ty.symm⟩

/-- The monolithic check passes where the routes that all nodes choose again have the properties. -/
theorem passes_monolithic_iff (n : String) (f₀ : String → α) : a.Passes .monolithic n ↔
    (IsFormed a.network.constraints ∧ ∀ n ∈ a.network.topology.nodes,
      IsFormed ((a.monolithicOf n).applyTo (a.network.route (code (f₀ n))))) ∧
    ∀ σ : Assignment, σ.WellSorted → a.Allows σ → ∀ f : String → α,
      (∀ n ∈ a.network.topology.nodes, f n = (A σ).next a.network.topology f n) →
        ∀ n ∈ a.network.topology.nodes,
          HoldsAt σ ((a.monolithicOf n).applyTo (a.network.route (code (f n)))) := by
  rw [passes_iff (.inl rfl), exists_monolithicObligation_iff_isFormed h f₀]
  refine and_congr_right fun hformed => forall₃_congr fun σ _ _ => ?_
  constructor
  · intro hno f hstable m hm
    have hformedf := (exists_monolithicObligation_iff_isFormed (n := n) h f).1
      ((exists_monolithicObligation_iff_isFormed h f₀).2 hformed)
    refine (hformedf.2 m hm).holdsAt fun hfails => ?_
    exact hno _ 0 (areRoutes_code h f)
      ((stableViolation_iff h fun _ _ => rfl).2 ⟨hstable, m, hm, hfails⟩)
  · intro hholds ρ _ hρ hv
    obtain ⟨f, hf⟩ := h.exists_elements hρ
    obtain ⟨hstable, m, hm, hfails⟩ := (stableViolation_iff h hf).1 hv
    exact (hholds f hstable m hm).not_failsAt hfails

/-! ### Invariants -/

section Invariants

variable {P : Assignment → String → Int → α → Prop} (hn : n ∈ a.network.topology.nodes)
  (hreads : ∀ σ : Assignment, σ.WellSorted →
    a.network.Reads σ code (a.annotationOf n) (P σ n))
include hn hreads

theorem passes_base_iff : a.Passes .base n ↔ IsFormed a.network.constraints ∧
    ∀ σ : Assignment, σ.WellSorted → a.Allows σ → P σ n 0 ((A σ).start n) := by
  obtain ⟨σ₀, hσ₀⟩ := Assignment.exists_wellSorted
  have hformed : (∃ o, a.obligation .base n = .ok o) ↔ IsFormed a.network.constraints := by
    rw [exists_obligation_iff (.inr hn) (areRoutes_code h (A σ₀).start) 0]
    exact and_iff_left (hreads σ₀ hσ₀ (h.represents_route hn _) 0).1
  rw [passes_iff (.inr hn), hformed]
  refine and_congr_right fun _ => forall₃_congr fun σ hσ _ => ?_
  have hread := hreads σ hσ ((h.follows σ).initial n hn) 0
  rw [← hread.2, ← hread.1.not_failsAt_iff]
  exact ⟨fun hno => hno _ 0 (areRoutes_code h (A σ).start), fun hno _ _ _ => hno⟩

variable (hpreds : ∀ σ : Assignment, σ.WellSorted → ∀ p ∈ a.network.topology.predecessors n,
  a.network.Reads σ code (a.annotationOf p) (P σ p))
include hpreds

theorem stepViolation_iff (hσ : σ.WellSorted)
    (hf : ∀ n ∈ a.network.topology.nodes, ρ n = code (f n)) {t : Int} :
    a.StepViolation σ n ρ t ↔ 0 < t ∧
      (∀ p ∈ a.network.topology.predecessors n, P σ p (t - 1) (f p)) ∧
        ¬ P σ n t ((A σ).next a.network.topology f n) := by
  have hearlier : ∀ p ∈ a.network.topology.predecessors n,
      (HoldsAt σ ((a.annotationOf p).atTime (a.network.route (ρ p)) (t - 1)) ↔
        P σ p (t - 1) (f p)) := fun p hp =>
    (hpreds σ hσ p hp (h.represents hf (Topology.mem_nodes_of_mem_predecessors hp) σ) _).2
  obtain ⟨u, hu, hrep⟩ := h.update hf hn σ
  have hread := hreads σ hσ hrep t
  rw [← forall₂_congr hearlier, ← hread.2, ← hread.1.not_failsAt_iff, not_not]
  constructor
  · rintro ⟨hpositive, hholds, x, hx, hfails⟩
    cases hu.symm.trans hx
    exact ⟨hpositive, hholds, hfails⟩
  · rintro ⟨hpositive, hholds, hfails⟩
    exact ⟨hpositive, hholds, u, hu, hfails⟩

theorem passes_step_iff : a.Passes .step n ↔ IsFormed a.network.constraints ∧
    ∀ σ : Assignment, σ.WellSorted → a.Allows σ → ∀ (f : String → α) (t : Int), 0 < t →
      (∀ p ∈ a.network.topology.predecessors n, P σ p (t - 1) (f p)) →
        P σ n t ((A σ).next a.network.topology f n) := by
  obtain ⟨σ₀, hσ₀⟩ := Assignment.exists_wellSorted
  have hformed : (∃ o, a.obligation .step n = .ok o) ↔ IsFormed a.network.constraints := by
    rw [exists_obligation_iff (.inr hn) (areRoutes_code h (A σ₀).start) 0]
    refine and_iff_left ⟨?_, fun p hp => ?_⟩
    · obtain ⟨u, hu, hrep⟩ := h.update (f := (A σ₀).start) (fun _ _ => rfl) hn σ₀
      exact ⟨u, hu, (hreads σ₀ hσ₀ hrep 0).1⟩
    · exact (hpreds σ₀ hσ₀ p hp
        (h.represents_route (Topology.mem_nodes_of_mem_predecessors hp) _) _).1
  rw [passes_iff (.inr hn), hformed]
  refine and_congr_right fun _ => forall₃_congr fun σ hσ _ => ?_
  constructor
  · intro hno f t hpositive hearlier
    by_contra hlater
    exact hno _ t (areRoutes_code h f) ((stepViolation_iff h hn hreads hpreds hσ fun _ _ => rfl).2
      ⟨hpositive, hearlier, hlater⟩)
  · intro hholds ρ t hρ hv
    obtain ⟨f, hf⟩ := h.exists_elements hρ
    obtain ⟨hpositive, hearlier, hlater⟩ :=
      (stepViolation_iff h hn hreads hpreds hσ hf).1 hv
    exact hlater (hholds f t hpositive hearlier)

omit hpreds in
theorem passes_safety_iff {Q : Assignment → String → Int → α → Prop}
    (hproperty : ∀ σ : Assignment, σ.WellSorted →
      a.network.Reads σ code (a.modularOf n) (Q σ n)) :
    a.Passes .safety n ↔ IsFormed a.network.constraints ∧
      ∀ σ : Assignment, σ.WellSorted → a.Allows σ → ∀ (x : α) (t : Int), 0 ≤ t →
        P σ n t x → Q σ n t x := by
  obtain ⟨σ₀, hσ₀⟩ := Assignment.exists_wellSorted
  have hformed : (∃ o, a.obligation .safety n = .ok o) ↔ IsFormed a.network.constraints := by
    rw [exists_obligation_iff (.inr hn) (areRoutes_code h (A σ₀).start) 0]
    have hrep := h.represents_route (σ := σ₀) hn ((A σ₀).start n)
    exact and_iff_left ⟨(hreads σ₀ hσ₀ hrep 0).1, (hproperty σ₀ hσ₀ hrep 0).1⟩
  rw [passes_iff (.inr hn), hformed]
  refine and_congr_right fun _ => forall₃_congr fun σ hσ _ => ?_
  constructor
  · intro hno x t hnonneg hinv
    have hrep := h.represents_route (σ := σ) hn x
    have hread := hproperty σ hσ hrep t
    refine hread.2.1 (hread.1.holdsAt fun hfails => ?_)
    exact hno _ t (areRoutes_code h fun _ => x)
      ⟨hnonneg, (hreads σ hσ hrep t).2.2 hinv, hfails⟩
  · intro hholds ρ t hρ hv
    obtain ⟨f, hf⟩ := h.exists_elements hρ
    have hrep := h.represents hf hn σ
    have hinv := (hreads σ hσ hrep t).2.1 hv.invariant
    exact ((hproperty σ hσ hrep t).2.2 (hholds _ t hv.nonneg hinv)).not_failsAt hv.property

end Invariants

end AnnotatedNetwork

end RouteInvariants
