import RouteInvariants.Proofs.LabelledGraphs
import RouteInvariants.Topology.Families

/-!
Paths, complete graphs and stars. Different indices have different column names
(`columnName_injective`), so that a family has as many nodes as it should, and the predecessors of a
node are the names of the indices adjacent to its own (`ofLinks_eq_ok`). All that is asked about a
family then follows from which indices are adjacent. Along a path, an edge leads to the next index
or to the one before, so a walk has at least as many edges as the indices of its ends differ by.
-/

namespace RouteInvariants

/-! ### Column names -/

theorem columnName_zero : columnName 0 = "" := by
  rw [columnName]
  rfl

theorem columnName_succ (i : Nat) :
    columnName (i + 1) = (columnName (i / 26)).push (Char.ofNat (65 + i % 26)) := by
  rw [columnName, dif_neg (Nat.succ_ne_zero i)]
  rfl

theorem letter_injective {a b : Nat} (ha : a < 26) (hb : b < 26)
    (h : Char.ofNat (65 + a) = Char.ofNat (65 + b)) : a = b := by
  have hletters : ∀ a b : Fin 26, Char.ofNat (65 + a) = Char.ofNat (65 + b) → a = b := by decide
  exact congrArg Fin.val (hletters ⟨a, ha⟩ ⟨b, hb⟩ h)

theorem columnName_injective : Function.Injective columnName := by
  intro i
  induction i using Nat.strongRecOn with
  | ind i ih =>
    intro j h
    cases i with
    | zero =>
      cases j with
      | zero => rfl
      | succ j =>
        rw [columnName_zero, columnName_succ] at h
        exact absurd h.symm String.push_ne_empty
    | succ i =>
      cases j with
      | zero =>
        rw [columnName_zero, columnName_succ] at h
        exact absurd h String.push_ne_empty
      | succ j =>
        rw [columnName_succ, columnName_succ, String.push_inj] at h
        have hdiv : i / 26 = j / 26 := ih (i / 26) (by omega) h.1
        have hmod := letter_injective (Nat.mod_lt i (by decide)) (Nat.mod_lt j (by decide)) h.2
        omega

namespace Topology

/-! ### Lettered topologies -/

/-- The label of the node with an index. -/
def letterLabel (i : Nat) : Label := .text (columnName (i + 1))

theorem letterLabel_injective : Function.Injective letterLabel := fun _ _ h =>
  Nat.succ.inj (columnName_injective (Label.text.inj h))

/-- The graph on the first `n` column names with some links. -/
def letterGraph (n : Nat) (links : List (Nat × Nat)) : Graph where
  directed := false
  declared := (List.range n).map letterLabel
  links := links.map fun l => (letterLabel l.1, letterLabel l.2)

/-- The predecessors of the first `n` column names, where adjacent ones are joined. -/
def lettered (n : Nat) (adjacent : Nat → Nat → Prop) [DecidableRel adjacent] :
    List (String × List String) :=
  (List.range n).map fun i => (columnName (i + 1),
    ((List.range n).filter fun j => adjacent j i).map fun j => columnName (j + 1))

variable {n : Nat} {links : List (Nat × Nat)}

theorem mem_links_letterGraph {i j : Nat} :
    (letterLabel i, letterLabel j) ∈ (letterGraph n links).links ↔ (i, j) ∈ links := by
  show _ ∈ links.map (fun l => (letterLabel l.1, letterLabel l.2)) ↔ _
  rw [List.mem_map]
  constructor
  · rintro ⟨⟨a, b⟩, hl, h⟩
    obtain ⟨ha, hb⟩ := Prod.mk.inj h
    rwa [← letterLabel_injective ha, ← letterLabel_injective hb]
  · exact fun h => ⟨(i, j), h, rfl⟩

section Links

variable (h : ∀ l ∈ links, l.1 < n ∧ l.2 < n)
include h

theorem labels_letterGraph : (letterGraph n links).labels = (List.range n).map letterLabel := by
  refine firstOccurrences_append (List.nodup_range.map letterLabel_injective) fun v hv => ?_
  obtain ⟨l, hl, hv⟩ := List.mem_flatMap.1 hv
  obtain ⟨⟨i, j⟩, hij, rfl⟩ := List.mem_map.1 hl
  have hends := h (i, j) hij
  rw [List.mem_cons, List.mem_singleton] at hv
  rcases hv with rfl | rfl
  · exact List.mem_map_of_mem (List.mem_range.2 hends.1)
  · exact List.mem_map_of_mem (List.mem_range.2 hends.2)

theorem distinctNames_letterGraph : (letterGraph n links).DistinctNames := by
  intro u hu v hv hname
  rw [labels_letterGraph h] at hu hv
  obtain ⟨i, -, rfl⟩ := List.mem_map.1 hu
  obtain ⟨j, -, rfl⟩ := List.mem_map.1 hv
  exact congrArg Label.text hname

/-- The topology of some links between column names. -/
theorem ofLinks_eq_ok (adjacent : Nat → Nat → Prop) [DecidableRel adjacent]
    (hadjacent : ∀ i < n, ∀ j < n, (i, j) ∈ links ∨ (j, i) ∈ links ↔ adjacent i j) :
    ∃ t, ofLinks n links = .ok t ∧ t.entries = lettered n adjacent := by
  have hlabels := labels_letterGraph h
  have hdistinct := distinctNames_letterGraph h
  obtain ⟨t, ht⟩ := hdistinct.exists_toTopology
  refine ⟨t, ?_, ?_⟩
  · rw [ofLinks, if_neg (by omega)]
    exact ht
  · rw [Graph.entries_toTopology ht, hdistinct.declarations, hlabels, List.map_map, lettered]
    refine List.map_congr_left fun i hi => ?_
    have hfilter : ((List.range n).filter fun j =>
        letterLabel i ∈ (letterGraph n links).attached (letterLabel j)) =
        (List.range n).filter fun j => adjacent j i := by
      refine List.filter_congr fun j hj => decide_eq_decide.2 ?_
      rw [Graph.mem_attached, mem_links_letterGraph, mem_links_letterGraph]
      exact hadjacent j (List.mem_range.1 hj) i (List.mem_range.1 hi)
    rw [Function.comp_apply, Graph.predecessors_of_undirected rfl, hlabels, List.filter_map,
      List.map_map]
    exact congrArg (fun js => (columnName (i + 1), js.map fun j => columnName (j + 1))) hfilter

end Links

section Lettered

variable {t : Topology} {adjacent : Nat → Nat → Prop} [DecidableRel adjacent]
  (h : t.entries = lettered n adjacent)
include h

theorem nodes_of_lettered : t.nodes = (List.range n).map fun i => columnName (i + 1) := by
  rw [nodes, h, Entries.keys, lettered, List.map_map]
  rfl

theorem predecessors_of_lettered {i : Nat} (hi : i < n) : t.predecessors (columnName (i + 1)) =
    ((List.range n).filter fun j => adjacent j i).map fun j => columnName (j + 1) := by
  have hmem : (columnName (i + 1), ((List.range n).filter fun j => adjacent j i).map fun j =>
      columnName (j + 1)) ∈ t.entries := by
    rw [h, lettered]
    exact List.mem_map.2 ⟨i, List.mem_range.2 hi, rfl⟩
  exact predecessors_of_mem hmem

theorem mem_predecessors_of_lettered {i j : Nat} (hi : i < n) (hj : j < n) :
    columnName (j + 1) ∈ t.predecessors (columnName (i + 1)) ↔ adjacent j i := by
  rw [predecessors_of_lettered h hi, List.mem_map]
  constructor
  · rintro ⟨k, hk, hname⟩
    obtain rfl := Nat.succ.inj (columnName_injective hname)
    exact of_decide_eq_true (List.mem_filter.1 hk).2
  · exact fun hadj => ⟨j, List.mem_filter.2 ⟨List.mem_range.2 hj, decide_eq_true hadj⟩, rfl⟩

theorem exists_index_of_mem {p : String} (hp : p ∈ t.nodes) : ∃ i < n, p = columnName (i + 1) := by
  rw [nodes_of_lettered h] at hp
  obtain ⟨i, hi, rfl⟩ := List.mem_map.1 hp
  exact ⟨i, List.mem_range.1 hi, rfl⟩

theorem hasEdge_of_lettered {p q : String} : t.hasEdge ⟨p, q⟩ = true ↔
    ∃ i < n, ∃ j < n, adjacent i j ∧ p = columnName (i + 1) ∧ q = columnName (j + 1) := by
  rw [hasEdge_iff]
  constructor
  · intro hp
    obtain ⟨i, hi, rfl⟩ := exists_index_of_mem h (mem_nodes_of_mem_predecessors hp)
    obtain ⟨j, hj, rfl⟩ := exists_index_of_mem h (mem_nodes_of_mem_predecessors_left hp)
    exact ⟨i, hi, j, hj, (mem_predecessors_of_lettered h hj hi).1 hp, rfl, rfl⟩
  · rintro ⟨i, hi, j, hj, hadj, rfl, rfl⟩
    exact (mem_predecessors_of_lettered h hj hi).2 hadj

theorem edgeCount_of_lettered : t.edgeCount =
    ((List.range n).map fun i => ((List.range n).filter fun j => adjacent j i).length).sum := by
  rw [← length_edges, edges, h, lettered, List.flatMap_map, List.length_flatMap]
  simp only [List.length_map]

end Lettered

/-- The nodes are the first `n` column names, and edges go both ways between different nodes. -/
structure IsFamily (t : Topology) (n : Nat) : Prop where
  nodes : t.nodes = (List.range' 1 n).map columnName
  distinct : t.nodes.Nodup
  symmetric : ∀ p q, t.hasEdge ⟨p, q⟩ = t.hasEdge ⟨q, p⟩
  irreflexive : ∀ p, t.hasEdge ⟨p, p⟩ = false

theorem isFamily_of_lettered {t : Topology} {adjacent : Nat → Nat → Prop} [DecidableRel adjacent]
    (h : t.entries = lettered n adjacent) (hsymm : ∀ i j, adjacent i j → adjacent j i)
    (hirrefl : ∀ i, ¬ adjacent i i) : t.IsFamily n where
  nodes := by
    rw [nodes_of_lettered h, List.range'_eq_map_range, List.map_map]
    exact List.map_congr_left fun i _ => by rw [Function.comp_apply, Nat.add_comm]
  distinct := t.nodup_nodes
  symmetric p q := by
    have hmirror {p q : String} (he : t.hasEdge ⟨p, q⟩ = true) : t.hasEdge ⟨q, p⟩ = true := by
      obtain ⟨i, hi, j, hj, hadj, hp, hq⟩ := (hasEdge_of_lettered h).1 he
      exact (hasEdge_of_lettered h).2 ⟨j, hj, i, hi, hsymm i j hadj, hq, hp⟩
    exact Bool.eq_iff_iff.2 ⟨hmirror, hmirror⟩
  irreflexive p := by
    refine Bool.eq_false_iff.2 fun he => ?_
    obtain ⟨i, -, j, -, hadj, rfl, hname⟩ := (hasEdge_of_lettered h).1 he
    obtain rfl := Nat.succ.inj (columnName_injective hname)
    exact hirrefl i hadj

/-- All nodes but one. -/
theorem filter_nodes_ne {i : Nat} :
    ((List.range n).filter fun j => j ≠ i).map (fun j => columnName (j + 1)) =
      ((List.range n).map fun j => columnName (j + 1)).filter fun p => p ≠ columnName (i + 1) := by
  rw [List.filter_map]
  refine congrArg (List.map fun j => columnName (j + 1)) (List.filter_congr fun j _ => ?_)
  refine decide_eq_decide.2 (not_congr ⟨fun hji => by rw [hji], fun hname => ?_⟩)
  exact Nat.succ.inj (columnName_injective hname)

theorem length_filter_ne {i : Nat} (hi : i < n) :
    ((List.range n).filter fun j => j ≠ i).length = n - 1 := by
  have herase : (List.range n).erase i = (List.range n).filter fun j => j ≠ i := by
    rw [List.nodup_range.erase_eq_filter]
    exact List.filter_congr fun j _ => by by_cases hji : j = i <;> simp [hji]
  rw [← herase, List.length_erase_of_mem (List.mem_range.2 hi), List.length_range]

/-! ### Paths -/

def PathAdjacent (i j : Nat) : Prop := j = i + 1 ∨ i = j + 1

instance : DecidableRel PathAdjacent := fun i j =>
  inferInstanceAs (Decidable (j = i + 1 ∨ i = j + 1))

theorem exists_path (n : Nat) :
    ∃ t, path n = .ok t ∧ t.entries = lettered n PathAdjacent := by
  refine ofLinks_eq_ok (fun l hl => ?_) PathAdjacent fun i hi j hj => ?_
  · obtain ⟨i, hi, rfl⟩ := List.mem_map.1 hl
    rw [List.mem_range] at hi
    dsimp only
    omega
  · simp only [List.mem_map, List.mem_range, Prod.mk.injEq, PathAdjacent]
    constructor
    · rintro (⟨k, -, rfl, rfl⟩ | ⟨k, -, rfl, rfl⟩)
      · exact .inl rfl
      · exact .inr rfl
    · rintro (rfl | rfl)
      · exact .inl ⟨i, by omega, rfl, rfl⟩
      · exact .inr ⟨j, by omega, rfl, rfl⟩

section PathDistance

variable {t : Topology} (h : t.entries = lettered n PathAdjacent)
include h

theorem walk_forward {i k : Nat} (hk : i + k < n) :
    t.Walk ∅ (columnName (i + 1)) (columnName (i + k + 1)) k := by
  induction k with
  | zero => exact .start
  | succ k ih =>
    refine (ih (by omega)).step ?_ (Set.notMem_empty _)
    exact (mem_predecessors_of_lettered h hk (by omega)).2 (.inl rfl)

theorem walk_backward {i k : Nat} (hk : i + k < n) :
    t.Walk ∅ (columnName (i + k + 1)) (columnName (i + 1)) k := by
  induction k generalizing i with
  | zero => exact .start
  | succ k ih =>
    have hrest := ih (i := i + 1) (by omega)
    rw [show i + 1 + k + 1 = i + (k + 1) + 1 by omega] at hrest
    refine hrest.step ?_ (Set.notMem_empty _)
    exact (mem_predecessors_of_lettered h (by omega) (by omega)).2 (.inr rfl)

/-- A walk does not get further than it has edges. -/
theorem walk_reach {i m : Nat} {p : String} (hi : i < n)
    (hwalk : t.Walk ∅ (columnName (i + 1)) p m) :
    ∃ j < n, p = columnName (j + 1) ∧ j ≤ i + m ∧ i ≤ j + m := by
  induction hwalk with
  | start => exact ⟨i, hi, rfl, Nat.le_refl _, Nat.le_refl _⟩
  | step hwalk hp _ ih =>
    obtain ⟨k, hk, rfl, hle, hge⟩ := ih
    obtain ⟨j, hj, rfl⟩ := exists_index_of_mem h (mem_nodes_of_mem_predecessors_left hp)
    have hadj : PathAdjacent k j := (mem_predecessors_of_lettered h hj hk).1 hp
    unfold PathAdjacent at hadj
    exact ⟨j, hj, rfl, by omega, by omega⟩

theorem distance_of_path {i j : Nat} (hi : i < n) (hj : j < n) :
    t.distance (columnName (i + 1)) (columnName (j + 1)) = .ok ((i : ℤ) - j).natAbs := by
  have hnode {k : Nat} (hk : k < n) : columnName (k + 1) ∈ t.nodes := by
    rw [nodes_of_lettered h]
    exact List.mem_map.2 ⟨k, List.mem_range.2 hk, rfl⟩
  refine (distance_eq_ok_iff (hnode hi) (hnode hj)).2 ⟨?_, fun m hm => ?_⟩
  · show t.Walk ∅ _ _ _
    rcases Nat.le_total i j with hij | hij
    · obtain ⟨k, rfl⟩ := Nat.exists_eq_add_of_le hij
      rw [show ((i : ℤ) - ((i + k : Nat) : ℤ)).natAbs = k by omega]
      exact walk_forward h hj
    · obtain ⟨k, rfl⟩ := Nat.exists_eq_add_of_le hij
      rw [show (((j + k : Nat) : ℤ) - (j : ℤ)).natAbs = k by omega]
      exact walk_backward h hi
  · obtain ⟨k, -, hname, hle, hge⟩ := walk_reach h hi hm
    obtain rfl := Nat.succ.inj (columnName_injective hname)
    omega

end PathDistance

/-! ### Complete graphs -/

theorem exists_complete (n : Nat) :
    ∃ t, complete n = .ok t ∧ t.entries = lettered n fun i j => i ≠ j := by
  have hlinks (i j : Nat) : (i, j) ∈ ((List.range n).flatMap fun i =>
      (List.range (n - i - 1)).map fun j => (i, i + j + 1)) ↔ i < j ∧ j < n := by
    simp only [List.mem_flatMap, List.mem_map, List.mem_range, Prod.mk.injEq]
    constructor
    · rintro ⟨a, ha, b, hb, rfl, rfl⟩
      omega
    · rintro ⟨hij, hj⟩
      exact ⟨i, by omega, j - i - 1, by omega, rfl, by omega⟩
  refine ofLinks_eq_ok (fun l hl => ?_) _ fun i hi j hj => ?_
  · have hl' := (hlinks l.1 l.2).1 hl
    omega
  · show (i, j) ∈ _ ∨ (j, i) ∈ _ ↔ _
    simp only [Int.toNat_natCast, hlinks]
    omega

theorem neighbors_of_complete {t : Topology} (h : t.entries = lettered n fun i j => i ≠ j)
    {p : String} (hp : p ∈ t.nodes) : t.neighbors p = .ok (t.nodes.filter fun q => q ≠ p) := by
  obtain ⟨i, hi, rfl⟩ := exists_index_of_mem h hp
  rw [neighbors_eq hp, predecessors_of_lettered h hi, nodes_of_lettered h, filter_nodes_ne]

theorem edgeCount_of_complete {t : Topology} (h : t.entries = lettered n fun i j => i ≠ j) :
    t.edgeCount = n * (n - 1) := by
  have hcounts : ((List.range n).map fun i => ((List.range n).filter fun j => j ≠ i).length) =
      (List.range n).map fun _ => n - 1 :=
    List.map_congr_left fun i hi => length_filter_ne (List.mem_range.1 hi)
  rw [edgeCount_of_lettered h, hcounts, List.map_const', List.sum_replicate_nat, List.length_range]

/-! ### Stars -/

/-- The hub has index zero. -/
def StarAdjacent (i j : Nat) : Prop := i ≠ j ∧ (i = 0 ∨ j = 0)

instance : DecidableRel StarAdjacent := fun i j =>
  inferInstanceAs (Decidable (i ≠ j ∧ (i = 0 ∨ j = 0)))

theorem exists_star (hn : 1 ≤ n) : ∃ t, star n = .ok t ∧ t.entries = lettered n StarAdjacent := by
  rw [star, if_neg (by omega)]
  refine ofLinks_eq_ok (fun l hl => ?_) StarAdjacent fun i hi j hj => ?_
  · obtain ⟨i, hi, rfl⟩ := List.mem_map.1 hl
    rw [List.mem_range] at hi
    dsimp only
    omega
  · simp only [List.mem_map, List.mem_range, Prod.mk.injEq, StarAdjacent]
    constructor
    · rintro (⟨k, -, rfl, rfl⟩ | ⟨k, -, rfl, rfl⟩)
      · exact ⟨(Nat.succ_ne_zero k).symm, .inl rfl⟩
      · exact ⟨Nat.succ_ne_zero k, .inr rfl⟩
    · rintro ⟨hne, rfl | rfl⟩
      · exact .inl ⟨j - 1, by omega, rfl, by omega⟩
      · exact .inr ⟨i - 1, by omega, rfl, by omega⟩

theorem filter_hub (n : Nat) : ((List.range n).filter fun j => StarAdjacent j 0) =
    (List.range n).filter fun j => j ≠ 0 :=
  List.filter_congr fun _ _ => decide_eq_decide.2 ⟨fun hj => hj.1, fun hj => ⟨hj, .inr rfl⟩⟩

theorem filter_leaf (hn : 1 ≤ n) {i : Nat} (hi : i ≠ 0) :
    ((List.range n).filter fun j => StarAdjacent j i) = [0] := by
  have hzero : ((List.range n).filter fun j => StarAdjacent j i) =
      (List.range n).filter fun j => j = 0 :=
    List.filter_congr fun j _ => decide_eq_decide.2
      ⟨fun hj => hj.2.resolve_right hi, fun hj => ⟨fun hji => hi (hji.symm.trans hj), .inl hj⟩⟩
  rw [hzero, filter_eq_of_nodup List.nodup_range, if_pos (List.mem_range.2 hn)]

theorem columnName_one : columnName 1 = "A" := by
  rw [columnName_succ, columnName_zero]
  rfl

section Star

variable {t : Topology} (h : t.entries = lettered n StarAdjacent) (hn : 1 ≤ n)
include h hn

theorem neighbors_hub : t.neighbors "A" = .ok (t.nodes.filter fun q => q ≠ "A") := by
  have hnodes := nodes_of_lettered h
  have hhub : columnName (0 + 1) ∈ t.nodes := by
    rw [hnodes]
    exact List.mem_map.2 ⟨0, List.mem_range.2 hn, rfl⟩
  rw [← columnName_one, neighbors_eq hhub, predecessors_of_lettered h hn, filter_hub,
    filter_nodes_ne, hnodes]

theorem neighbors_leaf {p : String} (hp : p ∈ t.nodes) (hleaf : p ≠ "A") :
    t.neighbors p = .ok ["A"] := by
  obtain ⟨i, hi, rfl⟩ := exists_index_of_mem h hp
  have hne : i ≠ 0 := fun hzero => hleaf (by rw [hzero, Nat.zero_add, columnName_one])
  rw [neighbors_eq hp, predecessors_of_lettered h hi, filter_leaf hn hne, ← columnName_one]
  rfl

/-- The hub and every leaf have one edge to each other. -/
theorem edgeCount_of_star : t.edgeCount = 2 * (n - 1) := by
  obtain ⟨m, rfl⟩ := Nat.exists_eq_add_of_le' hn
  have hleaves : ((List.range m).map fun i =>
      ((List.range (m + 1)).filter fun j => StarAdjacent j (i + 1)).length) =
      (List.range m).map fun _ => 1 :=
    List.map_congr_left fun i _ => by
      rw [filter_leaf hn (Nat.succ_ne_zero i), List.length_singleton]
  rw [edgeCount_of_lettered h, List.range_succ_eq_map, List.map_cons, List.sum_cons, List.map_map,
    ← List.range_succ_eq_map, filter_hub, length_filter_ne hn]
  show m + ((List.range m).map fun i =>
    ((List.range (m + 1)).filter fun j => StarAdjacent j (i + 1)).length).sum = 2 * m
  rw [hleaves, List.map_const', List.sum_replicate_nat, List.length_range]
  omega

end Star

/-- The families are the graphs that they are named for, for every size. Their nodes are the first
column names, in order, and edges go both ways between different nodes. Along a path the distance is
the difference of the indices. In a complete graph every other node is a predecessor. In a star the
hub is the only predecessor of the leaves, and the leaves are those of the hub. -/
theorem families_as_named (n : Nat) :
    (∃ t, path n = .ok t ∧ t.IsFamily n ∧ ∀ i j, 1 ≤ i → i ≤ n → 1 ≤ j → j ≤ n →
      t.distance (columnName i) (columnName j) = .ok ((i : ℤ) - j).natAbs) ∧
    (∃ t, complete n = .ok t ∧ t.IsFamily n ∧ t.edgeCount = n * (n - 1) ∧
      ∀ p ∈ t.nodes, t.neighbors p = .ok (t.nodes.filter fun q => q ≠ p)) ∧
    (1 ≤ n → ∃ t, star n = .ok t ∧ t.IsFamily n ∧ t.edgeCount = 2 * (n - 1) ∧
      t.neighbors "A" = .ok (t.nodes.filter fun q => q ≠ "A") ∧
      ∀ p ∈ t.nodes, p ≠ "A" → t.neighbors p = .ok ["A"]) := by
  refine ⟨?_, ?_, fun hn => ?_⟩
  · obtain ⟨t, ht, hentries⟩ := exists_path n
    refine ⟨t, ht, isFamily_of_lettered hentries (fun i j hij => hij.symm)
      (fun i hii => by unfold PathAdjacent at hii; omega), fun i j hi hin hj hjn => ?_⟩
    obtain ⟨i, rfl⟩ := Nat.exists_eq_add_of_le' hi
    obtain ⟨j, rfl⟩ := Nat.exists_eq_add_of_le' hj
    rw [distance_of_path hentries hin hjn]
    congr 2
    omega
  · obtain ⟨t, ht, hentries⟩ := exists_complete n
    exact ⟨t, ht, isFamily_of_lettered hentries (fun i j hij => hij.symm) (fun i hii => hii rfl),
      edgeCount_of_complete hentries, fun p hp => neighbors_of_complete hentries hp⟩
  · obtain ⟨t, ht, hentries⟩ := exists_star hn
    exact ⟨t, ht, isFamily_of_lettered hentries (fun i j hij => ⟨hij.1.symm, hij.2.symm⟩)
      (fun i hii => hii.1 rfl), edgeCount_of_star hentries hn, neighbors_hub hentries hn,
      fun p hp hleaf => neighbors_leaf hentries hn hp hleaf⟩

/-- Names of two letters: from `Z` to `AB` it is two hops along a path, and in a star `AB` is a
leaf. -/
theorem families_as_named_twentyEight :
    (∃ t, path 28 = .ok t ∧ t.distance "Z" "AB" = .ok 2) ∧
    ∃ t, star 28 = .ok t ∧ t.neighbors "AB" = .ok ["A"] ∧ t.edgeCount = 54 := by
  have hz : columnName 26 = "Z" := by
    rw [columnName_succ, columnName_zero]
    rfl
  have hab : columnName 28 = "AB" := by
    rw [columnName_succ, columnName_one]
    rfl
  obtain ⟨⟨t, ht, -, hdistance⟩, -, hstar⟩ := families_as_named 28
  obtain ⟨u, hu, hfamily, hcount, -, hleaves⟩ := hstar (by decide)
  refine ⟨⟨t, ht, ?_⟩, u, hu, hleaves "AB" ?_ (by decide), hcount⟩
  · rw [← hz, ← hab]
    exact hdistance 26 28 (by decide) (by decide) (by decide) (by decide)
  · rw [hfamily.nodes, ← hab]
    exact List.mem_map_of_mem (by decide)

end Topology

end RouteInvariants
