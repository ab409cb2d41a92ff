import Mathlib.Algebra.Order.Monoid.WithTop
import Mathlib.Data.Int.ConditionallyCompleteOrder
import RouteInvariants.Proofs.RouteAlgebra
import RouteInvariants.Proofs.Walks

/-!
Hop counts as an algebra of routes. A route is a number of hops or absent, which counts as infinite:
the destination starts with zero, an edge adds one unless it has failed, and the smaller number is
chosen. The hop distances are the only routes that such nodes can hold for good (`next_hops`,
`eq_hops_of_next`), and after `i` rounds from the start the nodes hold the distances up to `i`
(`rounds_hopAlgebra`).
-/

namespace RouteInvariants

/-- The counts of hops from a destination. -/
noncomputable def hopCounts (d : String) : RouteAlgebra (WithTop ℤ) where
  start n := if n = d then 0 else ⊤
  send _ a := a + 1
  choose := min

/-- The counts of hops from the nearest one of some sources. -/
noncomputable def countsFrom (sources : String → Bool) : RouteAlgebra (WithTop ℤ) where
  start n := if sources n then 0 else ⊤
  send _ a := a + 1
  choose := min

theorem countsFrom_eq_hopCounts (d : String) : (countsFrom fun n => decide (n = d)) = hopCounts d := by
  simp only [countsFrom, hopCounts, decide_eq_true_eq]

/-- The counts of hops from a destination along edges outside `F`. -/
noncomputable def hopAlgebra (F : Set Edge) (d : String) : RouteAlgebra (WithTop ℤ) :=
  (hopCounts d).dropping ⊤ F

theorem hopAlgebra_empty (d : String) : hopAlgebra ∅ d = hopCounts d :=
  RouteAlgebra.dropping_empty _ _

theorem hopAlgebra_start (F : Set Edge) (d n : String) :
    (hopAlgebra F d).start n = if n = d then 0 else ⊤ := rfl

theorem hopAlgebra_send_of_mem {F : Set Edge} {e : Edge} (he : e ∈ F) (d : String)
    (a : WithTop ℤ) : (hopAlgebra F d).send e a = ⊤ := if_pos he

theorem hopAlgebra_send_of_not_mem {F : Set Edge} {e : Edge} (he : e ∉ F) (d : String)
    (a : WithTop ℤ) : (hopAlgebra F d).send e a = a + 1 := if_neg he

namespace Topology

open Classical in
/-- The hop distance, infinite where there is no walk. -/
noncomputable def hops (t : Topology) (F : Set Edge) (d n : String) : WithTop ℤ :=
  if h : ∃ m, t.Walk F d n m then ((Nat.find h : ℤ) : WithTop ℤ) else ⊤

variable {t : Topology} {F : Set Edge} {d n p : String} {m : Nat} {f : String → WithTop ℤ}

theorem IsDistance.hops_eq (h : t.IsDistance F d n m) : t.hops F d n = ((m : ℤ) : WithTop ℤ) := by
  classical
  have hex : ∃ m, t.Walk F d n m := ⟨m, h.walk⟩
  have hfind : Nat.find hex = m :=
    le_antisymm (Nat.find_min' hex h.walk) (h.le (Nat.find_spec hex))
  rw [hops, dif_pos hex, hfind]

theorem hops_eq_top_iff : t.hops F d n = ⊤ ↔ ∀ m, ¬ t.Walk F d n m := by
  constructor
  · intro h m hwalk
    obtain ⟨k, -, hk⟩ := exists_isDistance hwalk
    rw [hk.hops_eq] at h
    exact WithTop.coe_ne_top h
  · intro hno
    exact dif_neg fun ⟨m, hm⟩ => hno m hm

/-- The distance is that of a shortest walk, or there is no walk. -/
theorem hops_cases (t : Topology) (F : Set Edge) (d n : String) :
    (∃ m, t.IsDistance F d n m ∧ t.hops F d n = ((m : ℤ) : WithTop ℤ)) ∨
      (∀ m, ¬ t.Walk F d n m) ∧ t.hops F d n = ⊤ := by
  by_cases h : ∃ m, t.Walk F d n m
  · obtain ⟨m, hm⟩ := h
    obtain ⟨k, -, hk⟩ := exists_isDistance hm
    exact .inl ⟨k, hk, hk.hops_eq⟩
  · rw [not_exists] at h
    exact .inr ⟨h, hops_eq_top_iff.2 h⟩

theorem Walk.hops_le (h : t.Walk F d n m) : t.hops F d n ≤ ((m : ℤ) : WithTop ℤ) := by
  obtain ⟨k, hkm, hk⟩ := exists_isDistance h
  rw [hk.hops_eq, WithTop.coe_le_coe]
  exact_mod_cast hkm

theorem hops_self : t.hops F d d = 0 := by
  have h : t.IsDistance F d d 0 := ⟨.start, fun _ _ => Nat.zero_le _⟩
  rw [h.hops_eq]
  rfl

theorem hops_le_send (hp : p ∈ t.predecessors n) :
    t.hops F d n ≤ (hopAlgebra F d).send ⟨p, n⟩ (t.hops F d p) := by
  by_cases hF : ⟨p, n⟩ ∈ F
  · rw [hopAlgebra_send_of_mem hF]
    exact le_top
  · rw [hopAlgebra_send_of_not_mem hF]
    rcases hops_cases t F d p with ⟨m, hm, heq⟩ | ⟨-, heq⟩
    · have hle := (hm.walk.step hp hF).hops_le
      rw [heq]
      exact_mod_cast hle
    · rw [heq, WithTop.top_add]
      exact le_top

/-! ### The equations -/

/-- A node chooses the least of its own route and those that it is sent. -/
theorem next_hopAlgebra_eq_iff {v : WithTop ℤ} : (hopAlgebra F d).next t f n = v ↔
    (v = (hopAlgebra F d).start n ∨
      ∃ p ∈ t.predecessors n, (hopAlgebra F d).send ⟨p, n⟩ (f p) = v) ∧
    v ≤ (hopAlgebra F d).start n ∧
      ∀ p ∈ t.predecessors n, v ≤ (hopAlgebra F d).send ⟨p, n⟩ (f p) := by
  have hmin := List.min_eq_iff (a := v) (l := (hopAlgebra F d).start n ::
    (t.predecessors n).map fun p => (hopAlgebra F d).send ⟨p, n⟩ (f p)) (List.cons_ne_nil _ _)
  rw [List.mem_cons, List.mem_map, List.forall_mem_cons, List.forall_mem_map] at hmin
  exact hmin

/-- The distances solve the equations. -/
theorem next_hops : (hopAlgebra F d).next t (t.hops F d) n = t.hops F d n := by
  refine next_hopAlgebra_eq_iff.2 ⟨?_, ?_, fun p hp => hops_le_send hp⟩
  · rcases hops_cases t F d n with ⟨m, hm, heq⟩ | ⟨hno, heq⟩
    · cases m with
      | zero =>
        obtain rfl := walk_zero_iff.1 hm.walk
        exact .inl (by simp [hopAlgebra_start, hops_self])
      | succ m =>
        obtain ⟨p, hp, hF, hdist⟩ := hm.pred
        refine .inr ⟨p, hp, ?_⟩
        rw [heq, hdist.hops_eq, hopAlgebra_send_of_not_mem hF]
        rfl
    · have hne : n ≠ d := by
        rintro rfl
        exact hno 0 .start
      exact .inl (by simp [hopAlgebra_start, hne, heq])
  · by_cases hn : n = d
    · rw [hn, hops_self]
      simp [hopAlgebra_start]
    · simp [hopAlgebra_start, hn]

section Unique

variable (h : ∀ n ∈ t.nodes, f n = (hopAlgebra F d).next t f n)
include h

/-- No node counts more hops than a walk has. -/
theorem le_of_walk (hn : n ∈ t.nodes) (hwalk : t.Walk F d n m) : f n ≤ ((m : ℤ) : WithTop ℤ) := by
  induction hwalk with
  | start =>
    have hle := (next_hopAlgebra_eq_iff.1 (h d hn).symm).2.1
    simpa [hopAlgebra_start] using hle
  | @step p n m _ hp hF ih =>
    have hle := (next_hopAlgebra_eq_iff.1 (h n hn).symm).2.2 p hp
    rw [hopAlgebra_send_of_not_mem hF] at hle
    calc f n ≤ f p + 1 := hle
      _ ≤ ((m : ℤ) : WithTop ℤ) + 1 := by
        gcongr
        exact ih (mem_nodes_of_mem_predecessors hp)
      _ = (((m + 1 : Nat) : ℤ) : WithTop ℤ) := by push_cast; rfl

/-- A count is that of the destination, or comes from a predecessor with one less. -/
theorem pred_of_eq_coe (hn : n ∈ t.nodes) {k : ℤ} (hk : f n = (k : WithTop ℤ)) :
    n = d ∧ k = 0 ∨ ∃ p ∈ t.predecessors n, ⟨p, n⟩ ∉ F ∧ f p = ((k - 1 : ℤ) : WithTop ℤ) := by
  have hnext := h n hn
  rw [hk] at hnext
  rcases (next_hopAlgebra_eq_iff.1 hnext.symm).1 with hstart | ⟨p, hp, hsend⟩
  · by_cases hnd : n = d
    · refine .inl ⟨hnd, ?_⟩
      rw [hopAlgebra_start, if_pos hnd] at hstart
      exact_mod_cast hstart
    · rw [hopAlgebra_start, if_neg hnd] at hstart
      exact absurd hstart WithTop.coe_ne_top
  · by_cases hF : ⟨p, n⟩ ∈ F
    · rw [hopAlgebra_send_of_mem hF] at hsend
      exact absurd hsend.symm WithTop.coe_ne_top
    · refine .inr ⟨p, hp, hF, ?_⟩
      rw [hopAlgebra_send_of_not_mem hF] at hsend
      cases hfp : f p with
      | top =>
        rw [hfp, WithTop.top_add] at hsend
        exact absurd hsend.symm WithTop.coe_ne_top
      | coe j =>
        rw [hfp] at hsend
        have hj : j + 1 = k := by exact_mod_cast hsend
        rw [← hj, add_sub_cancel_right]

/-- Counts are not negative: the least one can only be that of the destination. -/
theorem nonneg_of_eq_coe (hn : n ∈ t.nodes) {k : ℤ} (hk : f n = (k : WithTop ℤ)) : 0 ≤ k := by
  obtain ⟨n₀, hn₀, hleast⟩ := Finset.exists_min_image t.nodes.toFinset f
    ⟨n, List.mem_toFinset.2 hn⟩
  rw [List.mem_toFinset] at hn₀
  have hle : f n₀ ≤ (k : WithTop ℤ) := hk ▸ hleast n (List.mem_toFinset.2 hn)
  obtain ⟨k₀, hk₀, hkk⟩ := WithTop.le_coe_iff.1 hle
  rcases pred_of_eq_coe h hn₀ hk₀ with ⟨-, rfl⟩ | ⟨p, hp, -, hfp⟩
  · exact hkk
  · have hlt := hleast p (List.mem_toFinset.2 (mem_nodes_of_mem_predecessors hp))
    rw [hk₀, hfp, WithTop.coe_le_coe] at hlt
    omega

/-- A count is the number of edges of a walk. -/
theorem walk_of_eq_coe (hn : n ∈ t.nodes) (hm : f n = ((m : ℤ) : WithTop ℤ)) :
    t.Walk F d n m := by
  induction m generalizing n with
  | zero =>
    rcases pred_of_eq_coe h hn hm with ⟨rfl, -⟩ | ⟨p, hp, -, hfp⟩
    · exact .start
    · have hnonneg := nonneg_of_eq_coe h (mem_nodes_of_mem_predecessors hp) hfp
      omega
  | succ m ih =>
    rcases pred_of_eq_coe h hn hm with ⟨-, hzero⟩ | ⟨p, hp, hF, hfp⟩
    · omega
    · refine (ih (mem_nodes_of_mem_predecessors hp) ?_).step hp hF
      rw [hfp]
      congr 1
      omega

/-- There is no other solution than the distances. -/
theorem eq_hops_of_next (hn : n ∈ t.nodes) : f n = t.hops F d n := by
  cases hf : f n with
  | top =>
    refine (hops_eq_top_iff.2 fun m hwalk => ?_).symm
    have hle := le_of_walk h hn hwalk
    rw [hf, top_le_iff] at hle
    exact WithTop.coe_ne_top hle
  | coe k =>
    obtain ⟨m, rfl⟩ := Int.eq_ofNat_of_zero_le (nonneg_of_eq_coe h hn hf)
    refine (IsDistance.hops_eq ⟨walk_of_eq_coe h hn hf, fun j hj => ?_⟩).symm
    have hle := le_of_walk h hn hj
    rw [hf, WithTop.coe_le_coe] at hle
    omega

end Unique

/-! ### Rounds -/

/-- A number of hops within a bound, and infinity otherwise. -/
noncomputable def within (i : Nat) (a : WithTop ℤ) : WithTop ℤ :=
  if a ≤ ((i : ℤ) : WithTop ℤ) then a else ⊤

theorem within_mono (i : Nat) : Monotone (within i) := by
  intro a b hab
  unfold within
  split_ifs with ha hb
  · exact hab
  · exact le_top
  · exact absurd (hab.trans ‹_›) ha
  · exact le_rfl

theorem within_send (i : Nat) (e : Edge) (a : WithTop ℤ) :
    within (i + 1) ((hopAlgebra F d).send e a) = (hopAlgebra F d).send e (within i a) := by
  by_cases hF : e ∈ F
  · simp [hopAlgebra_send_of_mem hF, within]
  · have hle : a + 1 ≤ (((i + 1 : Nat) : ℤ) : WithTop ℤ) ↔ a ≤ ((i : ℤ) : WithTop ℤ) := by
      cases a with
      | top => simp
      | coe k =>
        norm_cast
        omega
    simp only [hopAlgebra_send_of_not_mem hF, within, hle]
    split_ifs <;> rfl

theorem within_start (i : Nat) (n : String) :
    within i ((hopAlgebra F d).start n) = (hopAlgebra F d).start n := by
  by_cases hn : n = d
  · simp [hopAlgebra_start, hn, within]
  · simp [hopAlgebra_start, hn, within]

/-- The distances up to a number are chosen from those up to one less. -/
theorem next_within (i : Nat) (n : String) :
    (hopAlgebra F d).next t (within i ∘ t.hops F d) n = within (i + 1) (t.hops F d n) := by
  rw [← RouteAlgebra.map_next (within_start (i + 1)) (within_send i)
    (fun a b => (within_mono (i + 1)).map_min), next_hops]

/-- After some rounds the nodes hold the distances up to their number. -/
theorem rounds_hopAlgebra (i : Nat) (n : String) :
    (hopAlgebra F d).rounds t i n = within i (t.hops F d n) := by
  induction i generalizing n with
  | zero =>
    rw [RouteAlgebra.rounds]
    by_cases hn : n = d
    · rw [hn, hops_self]
      simp [hopAlgebra_start, within]
    · rcases hops_cases t F d n with ⟨m, hm, heq⟩ | ⟨-, heq⟩
      · have hm0 : m ≠ 0 := by
          rintro rfl
          exact hn (walk_zero_iff.1 hm.walk)
        rw [heq]
        simp [hopAlgebra_start, within, hn, hm0]
      · simp [hopAlgebra_start, within, hn, heq]
  | succ i ih =>
    rw [RouteAlgebra.rounds, show (hopAlgebra F d).rounds t i = within i ∘ t.hops F d from funext ih,
      next_within]

theorem within_hops_of_isDistance (h : t.IsDistance F d n m) {i : Nat} (hi : m ≤ i) :
    within i (t.hops F d n) = ((m : ℤ) : WithTop ℤ) := by
  rw [h.hops_eq, within, if_pos]
  exact_mod_cast hi

theorem within_hops_eq_top {i : Nat} (h : ∀ m, t.IsDistance F d n m → i < m) :
    within i (t.hops F d n) = ⊤ := by
  rcases hops_cases t F d n with ⟨m, hm, heq⟩ | ⟨-, heq⟩
  · rw [heq, within, if_neg]
    have hlt := h m hm
    norm_cast
    omega
  · rw [heq, within]
    simp

end Topology

end RouteInvariants
