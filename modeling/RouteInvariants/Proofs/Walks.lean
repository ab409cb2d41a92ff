import Mathlib.Data.Finset.Max
import RouteInvariants.Proofs.FailedEdges
import RouteInvariants.Topology.Distance

/-!
Walks and hop distances. The distance of a node from a source is the least number of edges of a walk
that avoids a set of failed edges (`IsDistance`). It is what `Topology.distance` computes where
nothing has failed (`distance_eq_ok_iff`), and there is no walk where that finds no path
(`distance_eq_noPath_iff`).
-/

namespace RouteInvariants

namespace Topology

/-- A walk from the source to a node that avoids the edges of `F`, with its number of edges. -/
inductive Walk (t : Topology) (F : Set Edge) (source : String) : String → Nat → Prop
  | start : Walk t F source source 0
  | step {p n : String} {m : Nat} : Walk t F source p m → p ∈ t.predecessors n → ⟨p, n⟩ ∉ F →
      Walk t F source n (m + 1)

/-- The least number of edges of a walk. -/
def IsDistance (t : Topology) (F : Set Edge) (source n : String) (m : Nat) : Prop :=
  IsLeast { m | t.Walk F source n m } m

variable {t : Topology} {F : Set Edge} {d n p : String} {m k : Nat}

theorem mem_nodes_of_mem_predecessors_left (hp : p ∈ t.predecessors n) : n ∈ t.nodes :=
  (mem_nodes_of_mem_edges (mem_edges_of_mem_predecessors hp)).2

theorem Walk.mem_nodes (hd : d ∈ t.nodes) (h : t.Walk F d n m) : n ∈ t.nodes := by
  cases h with
  | start => exact hd
  | step _ hp _ => exact mem_nodes_of_mem_predecessors_left hp

theorem walk_zero_iff : t.Walk F d n 0 ↔ n = d := by
  constructor
  · intro h
    cases h
    rfl
  · rintro rfl
    exact .start

theorem walk_succ_iff : t.Walk F d n (m + 1) ↔
    ∃ p ∈ t.predecessors n, ⟨p, n⟩ ∉ F ∧ t.Walk F d p m := by
  constructor
  · intro h
    cases h with
    | step hwalk hp hF => exact ⟨_, hp, hF, hwalk⟩
  · rintro ⟨p, hp, hF, hwalk⟩
    exact hwalk.step hp hF

theorem exists_isDistance (h : t.Walk F d n m) : ∃ k ≤ m, t.IsDistance F d n k := by
  classical
  have hex : ∃ k, t.Walk F d n k := ⟨m, h⟩
  exact ⟨Nat.find hex, Nat.find_min' hex h, Nat.find_spec hex, fun k hk => Nat.find_min' hex hk⟩

theorem IsDistance.walk (h : t.IsDistance F d n m) : t.Walk F d n m := h.1

theorem IsDistance.le (h : t.IsDistance F d n m) (hk : t.Walk F d n k) : m ≤ k := h.2 hk

theorem IsDistance.unique (h : t.IsDistance F d n m) (h' : t.IsDistance F d n k) : m = k :=
  IsLeast.unique h h'

/-- The node before the last edge of a shortest walk is one hop nearer. -/
theorem IsDistance.pred (h : t.IsDistance F d n (m + 1)) :
    ∃ p ∈ t.predecessors n, ⟨p, n⟩ ∉ F ∧ t.IsDistance F d p m := by
  obtain ⟨p, hp, hF, hwalk⟩ := walk_succ_iff.1 h.walk
  refine ⟨p, hp, hF, hwalk, fun k hk => ?_⟩
  have hle := h.le (Walk.step hk hp hF)
  omega

/-- There are nodes at all smaller distances. -/
theorem IsDistance.exists_of_le (h : t.IsDistance F d n m) (hk : k ≤ m) :
    ∃ p, t.IsDistance F d p k := by
  induction m generalizing n with
  | zero =>
    obtain rfl : k = 0 := by omega
    exact ⟨n, h⟩
  | succ m ih =>
    by_cases hkm : k = m + 1
    · exact ⟨n, hkm ▸ h⟩
    · obtain ⟨p, -, -, hp⟩ := h.pred
      exact ih hp (by omega)

/-- Distances are below the number of nodes, as different ones belong to different nodes. -/
theorem IsDistance.lt_nodeCount (hd : d ∈ t.nodes) (h : t.IsDistance F d n m) :
    m < t.nodeCount := by
  classical
  have hnodes : ∀ k ∈ Finset.range (m + 1), ∃ p, t.IsDistance F d p k := fun k hk =>
    h.exists_of_le (by rw [Finset.mem_range] at hk; omega)
  choose! node hnode using hnodes
  have hmaps : ∀ k ∈ Finset.range (m + 1), node k ∈ t.nodes.toFinset := fun k hk => by
    rw [List.mem_toFinset]
    exact (hnode k hk).walk.mem_nodes hd
  have hinj : Set.InjOn node (Finset.range (m + 1)) := by
    intro i hi j hj hij
    have hdist := hnode i hi
    rw [hij] at hdist
    exact hdist.unique (hnode j hj)
  have hcard := Finset.card_le_card_of_injOn node hmaps hinj
  rw [Finset.card_range, List.toFinset_card_of_nodup (show t.nodes.Nodup from t.nodup_nodes)] at hcard
  exact hcard

/-! ### The distance that is computed -/

/-- The ball of radius `k` holds the ends of the walks with at most `k` edges. -/
theorem mem_ball_iff (hd : d ∈ t.nodes) : n ∈ t.ball d k ↔ ∃ m ≤ k, t.Walk ∅ d n m := by
  induction k generalizing n with
  | zero =>
    rw [ball, List.mem_singleton]
    constructor
    · rintro rfl
      exact ⟨0, le_rfl, .start⟩
    · rintro ⟨m, hm, hwalk⟩
      obtain rfl : m = 0 := by omega
      exact walk_zero_iff.1 hwalk
  | succ k ih =>
    rw [ball, widen, List.mem_filter, Bool.or_eq_true, List.contains_iff_mem, List.any_eq_true, ih]
    constructor
    · rintro ⟨-, ⟨m, hm, hwalk⟩ | ⟨p, hp, hreached⟩⟩
      · exact ⟨m, by omega, hwalk⟩
      · obtain ⟨m, hm, hwalk⟩ := ih.1 (List.contains_iff_mem.1 hreached)
        exact ⟨m + 1, by omega, hwalk.step hp (Set.notMem_empty _)⟩
    · rintro ⟨m, hm, hwalk⟩
      refine ⟨hwalk.mem_nodes hd, ?_⟩
      cases hwalk with
      | start => exact .inl ⟨0, Nat.zero_le _, .start⟩
      | step hwalk hp hF =>
        exact .inr ⟨_, hp, List.contains_iff_mem.2 (ih.2 ⟨_, by omega, hwalk⟩)⟩

theorem hopsFrom_of_mem {ns : List String} (hmem : n ∈ ns) (fuel : Nat) :
    t.hopsFrom n fuel ns = some 0 := by
  cases fuel <;> exact if_pos (List.contains_iff_mem.2 hmem)

theorem hopsFrom_of_not_mem {ns : List String} (hmem : n ∉ ns) :
    t.hopsFrom n 0 ns = none ∧
      ∀ fuel, t.hopsFrom n (fuel + 1) ns = (t.hopsFrom n fuel (t.widen ns)).map (· + 1) :=
  have hcontains : ¬ ns.contains n = true := fun h => hmem (List.contains_iff_mem.1 h)
  ⟨if_neg hcontains, fun _ => if_neg hcontains⟩

/-- The search ends with the first ball that holds the target. -/
theorem hopsFrom_ball_eq_some_iff {fuel j : Nat} : t.hopsFrom n fuel (t.ball d j) = some m ↔
    m ≤ fuel ∧ n ∈ t.ball d (j + m) ∧ ∀ i < m, n ∉ t.ball d (j + i) := by
  have hpresent {fuel j m : Nat} (hmem : n ∈ t.ball d j) :
      t.hopsFrom n fuel (t.ball d j) = some m ↔
        m ≤ fuel ∧ n ∈ t.ball d (j + m) ∧ ∀ i < m, n ∉ t.ball d (j + i) := by
    rw [hopsFrom_of_mem hmem]
    constructor
    · intro h
      cases h
      exact ⟨Nat.zero_le _, hmem, by simp⟩
    · rintro ⟨-, -, hfirst⟩
      cases m with
      | zero => rfl
      | succ m => exact absurd hmem (hfirst 0 (Nat.succ_pos m))
  induction fuel generalizing j m with
  | zero =>
    by_cases hmem : n ∈ t.ball d j
    · exact hpresent hmem
    · rw [(hopsFrom_of_not_mem hmem).1]
      constructor
      · intro h
        cases h
      · rintro ⟨hm, hball, -⟩
        obtain rfl : m = 0 := by omega
        exact absurd hball hmem
  | succ fuel ih =>
    by_cases hmem : n ∈ t.ball d j
    · exact hpresent hmem
    · rw [(hopsFrom_of_not_mem hmem).2, Option.map_eq_some_iff]
      constructor
      · rintro ⟨m, hm, rfl⟩
        obtain ⟨hle, hball, hfirst⟩ := (ih (j := j + 1)).1 hm
        refine ⟨by omega, by rwa [show j + (m + 1) = j + 1 + m by omega], fun i hi => ?_⟩
        cases i with
        | zero => exact hmem
        | succ i =>
          rw [show j + (i + 1) = j + 1 + i by omega]
          exact hfirst i (by omega)
      · rintro ⟨hle, hball, hfirst⟩
        cases m with
        | zero => exact absurd hball hmem
        | succ m =>
          refine ⟨m, (ih (j := j + 1)).2 ⟨by omega, ?_, fun i hi => ?_⟩, rfl⟩
          · rwa [show j + 1 + m = j + (m + 1) by omega]
          · rw [show j + 1 + i = j + (i + 1) by omega]
            exact hfirst (i + 1) (by omega)

theorem distance?_eq_some_iff (hd : d ∈ t.nodes) :
    t.distance? d n = some m ↔ t.IsDistance ∅ d n m := by
  rw [distance?, show [d] = t.ball d 0 from rfl, hopsFrom_ball_eq_some_iff]
  simp only [Nat.zero_add, mem_ball_iff hd]
  constructor
  · rintro ⟨-, ⟨k, hk, hwalk⟩, hfirst⟩
    have hleast : ∀ j, t.Walk ∅ d n j → m ≤ j := fun j hj => by
      by_contra hlt
      exact hfirst j (by omega) ⟨j, le_rfl, hj⟩
    obtain rfl : k = m := le_antisymm hk (hleast k hwalk)
    exact ⟨hwalk, hleast⟩
  · intro h
    refine ⟨(h.lt_nodeCount hd).le, ⟨m, le_rfl, h.walk⟩, fun i hi => ?_⟩
    rintro ⟨j, hj, hwalk⟩
    have hle := h.le hwalk
    omega

theorem mem_nodes_of_distance (h : t.distance d n = .ok m) : d ∈ t.nodes := by
  by_contra hd
  have hd' : t.hasNode d = false := Bool.eq_false_iff.2 fun h => hd (List.contains_iff_mem.1 h)
  rw [distance, hd'] at h
  cases h

section Distance

variable (hd : d ∈ t.nodes) (hn : n ∈ t.nodes)
include hd hn

theorem distance_of_some (h : t.distance? d n = some m) : t.distance d n = .ok m := by
  have hd' : t.hasNode d = true := List.contains_iff_mem.2 hd
  have hn' : t.hasNode n = true := List.contains_iff_mem.2 hn
  simp only [distance, hd', hn', h, Bool.not_true, Bool.false_eq_true, if_false]

theorem distance_of_none (h : t.distance? d n = none) :
    t.distance d n = .error (.noPath d n) := by
  have hd' : t.hasNode d = true := List.contains_iff_mem.2 hd
  have hn' : t.hasNode n = true := List.contains_iff_mem.2 hn
  simp only [distance, hd', hn', h, Bool.not_true, Bool.false_eq_true, if_false]

theorem distance_eq_ok_iff : t.distance d n = .ok m ↔ t.IsDistance ∅ d n m := by
  rw [← distance?_eq_some_iff hd]
  constructor
  · intro h
    cases hdist : t.distance? d n with
    | some k =>
      rw [distance_of_some hd hn hdist] at h
      cases h
      rfl
    | none =>
      rw [distance_of_none hd hn hdist] at h
      cases h
  · exact distance_of_some hd hn

theorem distance_eq_noPath_iff :
    t.distance d n = .error (.noPath d n) ↔ ∀ m, ¬ t.Walk ∅ d n m := by
  constructor
  · intro h m hwalk
    obtain ⟨k, -, hk⟩ := exists_isDistance hwalk
    rw [(distance_eq_ok_iff hd hn).2 hk] at h
    cases h
  · intro hno
    refine distance_of_none hd hn (Option.eq_none_iff_forall_ne_some.2 fun m h => ?_)
    exact hno m ((distance?_eq_some_iff hd).1 h).walk

end Distance

end Topology

end RouteInvariants
