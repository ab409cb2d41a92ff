import RouteInvariants.Proofs.Representation
import RouteInvariants.Topology.Graph

/-!
Labelled graphs and their topologies. The directed edges of a graph are its links, in both
directions if it is undirected (`Joins`), each once (`nodup_arcs`). Its topology has one node for
each name of a label, and the predecessors of a node are gathered from all labels of that name
(`toTopology_eq`); so the edges of the topology are those of the graph under the names of their ends
(`edges_perm`). Labels with the same name become one node.
-/

namespace RouteInvariants

/-! ### First occurrences -/

section FirstOccurrences

variable {α : Type} [DecidableEq α] {xs : List α} {x : α}

theorem firstOccurrences_concat (xs : List α) (x : α) : firstOccurrences (xs ++ [x]) =
    if x ∈ firstOccurrences xs then firstOccurrences xs else firstOccurrences xs ++ [x] := by
  rw [firstOccurrences, List.foldl_append]
  exact if_congr Iff.rfl rfl rfl

theorem mem_firstOccurrences : x ∈ firstOccurrences xs ↔ x ∈ xs := by
  induction xs using List.reverseRecOn with
  | nil => rfl
  | append_singleton xs y ih =>
    rw [firstOccurrences_concat, List.mem_append, List.mem_singleton]
    split
    · rename_i hy
      rw [ih]
      refine ⟨.inl, fun h => h.elim id fun hxy => ?_⟩
      subst hxy
      exact ih.1 hy
    · rw [List.mem_append, List.mem_singleton, ih]

theorem nodup_firstOccurrences (xs : List α) : (firstOccurrences xs).Nodup := by
  induction xs using List.reverseRecOn with
  | nil => exact List.nodup_nil
  | append_singleton xs y ih =>
    rw [firstOccurrences_concat]
    split
    · exact ih
    · rename_i hy
      rw [← List.concat_eq_append]
      exact ih.concat hy

theorem firstOccurrences_sublist (xs : List α) : (firstOccurrences xs).Sublist xs := by
  induction xs using List.reverseRecOn with
  | nil => exact List.Sublist.refl _
  | append_singleton xs y ih =>
    rw [firstOccurrences_concat]
    split
    · exact ih.trans (List.sublist_append_left xs [y])
    · exact ih.append (List.Sublist.refl [y])

/-- Nothing is left out exactly where nothing repeats. -/
theorem length_firstOccurrences_eq_iff : (firstOccurrences xs).length = xs.length ↔ xs.Nodup := by
  constructor
  · intro h
    rw [← (firstOccurrences_sublist xs).eq_of_length h]
    exact nodup_firstOccurrences xs
  · intro h
    have hperm : (firstOccurrences xs).Perm xs :=
      (List.perm_ext_iff_of_nodup (nodup_firstOccurrences xs) h).2 fun _ => mem_firstOccurrences
    exact hperm.length_eq

theorem firstOccurrences_of_nodup (h : xs.Nodup) : firstOccurrences xs = xs :=
  (firstOccurrences_sublist xs).eq_of_length (length_firstOccurrences_eq_iff.2 h)

theorem firstOccurrences_append {ys : List α} (h : xs.Nodup) (hys : ∀ y ∈ ys, y ∈ xs) :
    firstOccurrences (xs ++ ys) = xs := by
  induction ys using List.reverseRecOn with
  | nil => rw [List.append_nil, firstOccurrences_of_nodup h]
  | append_singleton ys y ih =>
    have hrest := ih fun z hz => hys z (List.mem_append_left _ hz)
    have hy : y ∈ xs := hys y (List.mem_append_right _ (List.mem_singleton_self y))
    rw [← List.append_assoc, firstOccurrences_concat, hrest, if_pos hy]

theorem filter_eq_of_nodup (h : xs.Nodup) (x : α) :
    (xs.filter fun y => y = x) = if x ∈ xs then [x] else [] := by
  induction xs with
  | nil => rfl
  | cons y ys ih =>
    obtain ⟨hy, hys⟩ := List.nodup_cons.1 h
    by_cases hyx : y = x
    · subst hyx
      rw [List.filter_cons_of_pos (by simp), ih hys, if_neg hy, if_pos List.mem_cons_self]
    · rw [List.filter_cons_of_neg (by simpa using hyx), ih hys]
      exact if_congr ⟨List.mem_cons_of_mem y, fun hx => (List.mem_cons.1 hx).resolve_left
        fun he => hyx he.symm⟩ rfl rfl

theorem Entries.keys_ofList {κ α : Type} [DecidableEq κ] (es : List (κ × α)) :
    keys (ofList es) = firstOccurrences (keys es) := by
  induction es using List.reverseRecOn with
  | nil => rfl
  | append_singleton es e ih =>
    have hwrite : ofList (es ++ [e]) = insert (ofList es) e.1 e.2 := by
      simp only [ofList, List.foldl_append, List.foldl_cons, List.foldl_nil]
    have hkeys : keys (es ++ [e]) = keys es ++ [e.1] := List.map_append
    rw [hwrite, keys_insert, ih, hkeys, firstOccurrences_concat]

end FirstOccurrences

/-- The members of a list, sorted into the classes of a function. -/
theorem flatMap_filter_perm {α κ : Type} [DecidableEq κ] {f : α → κ} {as : List α} {ks : List κ}
    (has : as.Nodup) (hks : ks.Nodup) (h : ∀ a ∈ as, f a ∈ ks) :
    (ks.flatMap fun k => as.filter fun a => f a = k).Perm as := by
  have hnodup : (ks.flatMap fun k => as.filter fun a => f a = k).Nodup :=
    nodup_flatMap_of_key id f hks (fun k _ => has.filter _)
      fun k a ha => of_decide_eq_true (List.mem_filter.1 ha).2
  refine (List.perm_ext_iff_of_nodup hnodup has).2 fun a => ?_
  rw [List.mem_flatMap]
  constructor
  · rintro ⟨k, -, ha⟩
    exact (List.mem_filter.1 ha).1
  · exact fun ha => ⟨f a, h a ha, List.mem_filter.2 ⟨ha, decide_eq_true rfl⟩⟩

namespace Graph

variable {g : Graph} {u v : Label}

/-! ### Directed edges -/

/-- The graph has the directed edge: as a link, or in an undirected graph as the other direction of
one. -/
def Joins (g : Graph) (u v : Label) : Prop :=
  (u, v) ∈ g.links ∨ g.directed = false ∧ (v, u) ∈ g.links

theorem nodup_labels (g : Graph) : g.labels.Nodup := nodup_firstOccurrences _

theorem mem_labels_of_links (h : (u, v) ∈ g.links) : u ∈ g.labels ∧ v ∈ g.labels := by
  have hends : ∀ w ∈ [u, v], w ∈ g.labels := fun w hw =>
    mem_firstOccurrences.2 (List.mem_append_right _ (List.mem_flatMap.2 ⟨(u, v), h, hw⟩))
  exact ⟨hends u (by simp), hends v (by simp)⟩

theorem Joins.mem_labels (h : g.Joins u v) : u ∈ g.labels ∧ v ∈ g.labels := by
  rcases h with h | ⟨-, h⟩
  · exact mem_labels_of_links h
  · exact (mem_labels_of_links h).symm

theorem mem_attached : v ∈ g.attached u ↔ (u, v) ∈ g.links ∨ (v, u) ∈ g.links := by
  rw [attached, mem_firstOccurrences, List.mem_flatMap]
  constructor
  · rintro ⟨⟨a, b⟩, hl, hv⟩
    dsimp only at hv
    split at hv
    · rename_i hu
      rw [List.mem_singleton] at hv
      subst hu hv
      exact .inl hl
    · split at hv
      · rename_i hu
        rw [List.mem_singleton] at hv
        subst hu hv
        exact .inr hl
      · cases hv
  · rintro (h | h)
    · exact ⟨(u, v), h, by simp⟩
    · refine ⟨(v, u), h, ?_⟩
      by_cases hvu : v = u <;> simp [hvu]

theorem nodup_attached (g : Graph) (u : Label) : (g.attached u).Nodup := nodup_firstOccurrences _

theorem mem_arcs_iff : (u, v) ∈ g.arcs ↔ g.Joins u v := by
  unfold arcs
  split
  · rename_i hdirected
    rw [mem_firstOccurrences, Joins, hdirected]
    simp
  · rename_i hdirected
    have hfalse : g.directed = false := Bool.eq_false_iff.2 hdirected
    have hjoins : g.Joins u v ↔ v ∈ g.attached u := by
      rw [mem_attached, Joins, hfalse]
      simp
    rw [hjoins, List.mem_flatMap]
    constructor
    · rintro ⟨w, -, hw⟩
      obtain ⟨x, hx, hwx⟩ := List.mem_map.1 hw
      cases hwx
      exact hx
    · exact fun hv => ⟨u, (hjoins.2 hv).mem_labels.1, List.mem_map_of_mem hv⟩

theorem nodup_arcs (g : Graph) : g.arcs.Nodup := by
  unfold arcs
  split
  · exact nodup_firstOccurrences _
  · refine nodup_flatMap_of_key id Prod.fst g.nodup_labels (fun u _ => ?_) fun u a ha => ?_
    · exact (g.nodup_attached u).map fun v w h => (Prod.mk.inj h).2
    · obtain ⟨v, -, rfl⟩ := List.mem_map.1 ha
      rfl

/-- In an undirected graph the predecessors of a label are the labels that it is attached to, in the
order of the labels. -/
theorem predecessors_of_undirected (h : g.directed = false) (v : Label) :
    g.predecessors v = g.labels.filter fun u => v ∈ g.attached u := by
  have hsource (u : Label) : (((g.attached u).map fun w => (u, w)).filter fun a => a.2 = v).map
      Prod.fst = if v ∈ g.attached u then [u] else [] := by
    rw [List.filter_map, List.map_map]
    show ((g.attached u).filter fun w => w = v).map (fun _ => u) = _
    rw [filter_eq_of_nodup (g.nodup_attached u)]
    split <;> rfl
  rw [predecessors, arcs, h, if_neg Bool.false_ne_true, List.filter_flatMap, List.map_flatMap]
  simp only [hsource]
  induction g.labels with
  | nil => rfl
  | cons u us ih =>
    rw [List.flatMap_cons, ih]
    by_cases hu : v ∈ g.attached u
    · rw [if_pos hu, List.filter_cons_of_pos (by simpa using hu), List.singleton_append]
    · rw [if_neg hu, List.filter_cons_of_neg (by simpa using hu), List.nil_append]

/-! ### The topology of the names -/

/-- A directed edge between the names of its ends. -/
def nameEdge (a : Label × Label) : Edge := ⟨a.1.name, a.2.name⟩

/-- The nodes of the topology. -/
def names (g : Graph) : List String := firstOccurrences (g.labels.map Label.name)

/-- The predecessors of all labels of a name. -/
def sources (g : Graph) (n : String) : List String :=
  (g.labels.filter fun v => v.name = n).flatMap fun v => (g.predecessors v).map Label.name

theorem nodup_names (g : Graph) : g.names.Nodup := nodup_firstOccurrences _

theorem name_mem_names (h : v ∈ g.labels) : v.name ∈ g.names :=
  mem_firstOccurrences.2 (List.mem_map_of_mem h)

/-- The second pass over the labels appends the predecessors of each label under its name. -/
theorem get?_foldl_append (f : Label → List String) (vs : List Label) (n : String)
    (acc : List (String × List String)) :
    (Entries.get? (vs.foldl (fun acc v =>
      Entries.insert acc v.name (((Entries.get? acc v.name).getD []) ++ f v)) acc) n).getD [] =
      (Entries.get? acc n).getD [] ++ (vs.filter fun v => v.name = n).flatMap f := by
  induction vs generalizing acc with
  | nil => simp
  | cons v vs ih =>
    rw [List.foldl_cons, ih, Entries.get?_insert]
    by_cases hv : v.name = n
    · subst hv
      rw [if_pos rfl, List.filter_cons_of_pos (by simp), List.flatMap_cons, Option.getD_some,
        List.append_assoc]
    · rw [if_neg hv, List.filter_cons_of_neg (by simpa using hv)]

theorem keys_foldl_append (f : Label → List String) {vs : List Label}
    {acc : List (String × List String)} (h : ∀ v ∈ vs, v.name ∈ Entries.keys acc) :
    Entries.keys (vs.foldl (fun acc v =>
      Entries.insert acc v.name (((Entries.get? acc v.name).getD []) ++ f v)) acc) =
      Entries.keys acc := by
  induction vs generalizing acc with
  | nil => rfl
  | cons v vs ih =>
    obtain ⟨hv, hvs⟩ := List.forall_mem_cons.1 h
    have hkeys := (Entries.keys_insert acc v.name
      (((Entries.get? acc v.name).getD []) ++ f v)).trans (if_pos hv)
    rw [List.foldl_cons, ih (by rwa [hkeys]), hkeys]

/-- Every name, without predecessors so far. -/
def blank (g : Graph) : List (String × List String) :=
  Entries.ofList (g.labels.map fun v => (v.name, []))

theorem keys_blank (g : Graph) : Entries.keys g.blank = g.names := by
  rw [blank, Entries.keys_ofList, names, Entries.keys, List.map_map]
  rfl

theorem get?_blank (g : Graph) (n : String) : (Entries.get? g.blank n).getD [] = [] := by
  cases hget : Entries.get? g.blank n with
  | none => rfl
  | some ps =>
    obtain ⟨v, -, hv⟩ := List.mem_map.1 (Entries.mem_of_mem_ofList (Entries.mem_of_get? hget))
    cases hv
    rfl

/-- The declarations that the topology of a graph is made from. -/
def declarations (g : Graph) : List (String × List String) := g.names.map fun n => (n, g.sources n)

theorem keys_declarations (g : Graph) : Entries.keys g.declarations = g.names := by
  rw [Entries.keys, declarations, List.map_map]
  exact List.map_id _

theorem ofList_declarations (g : Graph) : Entries.ofList g.declarations = g.declarations :=
  Entries.ofList_of_nodup (by rw [keys_declarations]; exact g.nodup_names)

theorem toTopology_eq (g : Graph) : g.toTopology = Topology.ofEntries g.declarations := by
  have hmem : ∀ v ∈ g.labels, v.name ∈ Entries.keys g.blank := fun v hv => by
    rw [keys_blank]
    exact name_mem_names hv
  have hkeys := (keys_foldl_append (fun v => (g.predecessors v).map Label.name) hmem).trans
    g.keys_blank
  refine congrArg Topology.ofEntries (Entries.eq_of_get?_eq ?_ ?_ fun n hn => ?_)
  · exact hkeys ▸ g.nodup_names
  · exact hkeys.trans g.keys_declarations.symm
  · have hvalue := get?_foldl_append (fun v => (g.predecessors v).map Label.name) g.labels n g.blank
    obtain ⟨ps, hps⟩ := Entries.exists_get? hn
    have hps' : ps = g.sources n := by
      rw [get?_blank, List.nil_append] at hvalue
      exact (congrArg (Option.getD · []) hps).symm.trans hvalue
    rw [hps, declarations, Entries.get?_map_self _ (hkeys ▸ hn), hps']

/-- The edges that are declared are the directed edges of the graph under their names. -/
theorem edges_perm (g : Graph) :
    (g.declarations.flatMap fun d => d.2.map fun p => (⟨p, d.1⟩ : Edge)).Perm
      (g.arcs.map nameEdge) := by
  have htargets : ∀ a ∈ g.arcs, a.2 ∈ g.labels := fun a ha => (mem_arcs_iff.1 ha).mem_labels.2
  -- the arcs into a label, and the labels of a name
  have hlabels := flatMap_filter_perm g.nodup_labels g.nodup_names fun v hv => name_mem_names hv
  have harcs := flatMap_filter_perm g.nodup_arcs g.nodup_labels htargets
  have hsources (n : String) : ((g.sources n).map fun p => (⟨p, n⟩ : Edge)) =
      (((g.labels.filter fun v => v.name = n).flatMap fun v =>
        g.arcs.filter fun a => a.2 = v).map nameEdge) := by
    rw [sources, List.map_flatMap, List.map_flatMap]
    refine List.flatMap_congr fun v hv => ?_
    have hname : v.name = n := of_decide_eq_true (List.mem_filter.1 hv).2
    rw [predecessors, List.map_map, List.map_map]
    refine List.map_congr_left fun a ha => ?_
    have htarget : a.2 = v := of_decide_eq_true (List.mem_filter.1 ha).2
    simp only [Function.comp_apply, nameEdge, htarget, hname]
  have hedges : (g.declarations.flatMap fun d => d.2.map fun p => (⟨p, d.1⟩ : Edge)) =
      ((g.names.flatMap fun n => g.labels.filter fun v => v.name = n).flatMap fun v =>
        g.arcs.filter fun a => a.2 = v).map nameEdge := by
    rw [declarations, List.flatMap_map, List.flatMap_assoc, List.map_flatMap]
    exact List.flatMap_congr fun n _ => hsources n
  rw [hedges]
  exact ((hlabels.flatMap_right _).trans harcs).map nameEdge

/-- No predecessor is gathered twice exactly where different edges have different names. -/
theorem nodup_sources_iff :
    (∀ n ∈ g.names, (g.sources n).Nodup) ↔ (g.arcs.map nameEdge).Nodup := by
  have hinjective (n : String) : Function.Injective fun p => (⟨p, n⟩ : Edge) :=
    fun p q h => (Edge.mk.inj h).1
  rw [← g.edges_perm.nodup_iff, declarations, List.flatMap_map]
  constructor
  · intro h
    refine nodup_flatMap_of_key id Edge.target g.nodup_names
      (fun n hn => (h n hn).map (hinjective n)) fun n e he => ?_
    obtain ⟨p, -, rfl⟩ := List.mem_map.1 he
    rfl
  · exact fun h n hn => ((List.nodup_flatMap.1 h).1 n hn).of_map _

theorem mem_names_of_mem_sources {n p : String} (h : p ∈ g.sources n) : p ∈ g.names := by
  obtain ⟨v, -, hp⟩ := List.mem_flatMap.1 h
  obtain ⟨u, hu, rfl⟩ := List.mem_map.1 hp
  obtain ⟨a, ha, rfl⟩ := List.mem_map.1 hu
  exact name_mem_names (mem_arcs_iff.1 (List.mem_filter.1 ha).1).mem_labels.1

/-- A graph is refused where two of its edges have the same names, and for no other reason. -/
theorem toTopology_eq_error_iff (g : Graph) :
    (∃ fault, g.toTopology = .error fault) ↔ ¬ (g.arcs.map nameEdge).Nodup := by
  rw [toTopology_eq, Topology.ofEntries_eq_error_iff, ofList_declarations, keys_declarations,
    ← nodup_sources_iff]
  constructor
  · rintro ⟨d, hd, hfault⟩ hnodup
    obtain ⟨n, hn, rfl⟩ := List.mem_map.1 hd
    rcases hfault with ⟨p, hp, hnot⟩ | hdup
    · exact hnot (mem_names_of_mem_sources hp)
    · exact hdup (hnodup n hn)
  · intro h
    simp only [not_forall] at h
    obtain ⟨n, hn, hdup⟩ := h
    exact ⟨(n, g.sources n), List.mem_map_of_mem hn, .inr hdup⟩

theorem nodup_map_nameEdge_iff : (g.arcs.map nameEdge).Nodup ↔ ∀ u v u' v', g.Joins u v →
    g.Joins u' v' → u.name = u'.name → v.name = v'.name → u = u' ∧ v = v' := by
  rw [List.nodup_map_iff_inj_on g.nodup_arcs]
  constructor
  · intro h u v u' v' huv huv' hu hv
    have hedge : nameEdge (u, v) = nameEdge (u', v') := by rw [nameEdge, nameEdge, hu, hv]
    exact Prod.mk.inj (h _ (mem_arcs_iff.2 huv) _ (mem_arcs_iff.2 huv') hedge)
  · rintro h ⟨u, v⟩ hu ⟨u', v'⟩ hu' heq
    obtain ⟨hname, hname'⟩ := Edge.mk.inj heq
    obtain ⟨rfl, rfl⟩ := h u v u' v' (mem_arcs_iff.1 hu) (mem_arcs_iff.1 hu') hname hname'
    rfl

/-! ### What the topology keeps of the graph -/

section Kept

variable {t : Topology} (h : g.toTopology = .ok t)
include h

theorem entries_toTopology : t.entries = g.declarations := by
  rw [toTopology_eq] at h
  rw [Topology.entries_of_ofEntries h, ofList_declarations]

theorem nodes_toTopology : t.nodes = g.names := by
  rw [Topology.nodes, entries_toTopology h, keys_declarations]

theorem edges_toTopology : t.edges.Perm (g.arcs.map nameEdge) := by
  rw [Topology.edges, entries_toTopology h]
  exact g.edges_perm

theorem hasEdge_toTopology {p n : String} : t.hasEdge ⟨p, n⟩ = true ↔
    ∃ u v, g.Joins u v ∧ u.name = p ∧ v.name = n := by
  rw [Topology.hasEdge_iff_mem_edges, (edges_toTopology h).mem_iff, List.mem_map]
  constructor
  · rintro ⟨⟨u, v⟩, ha, he⟩
    obtain ⟨hu, hv⟩ := Edge.mk.inj he
    exact ⟨u, v, mem_arcs_iff.1 ha, hu, hv⟩
  · rintro ⟨u, v, huv, rfl, rfl⟩
    exact ⟨(u, v), mem_arcs_iff.2 huv, rfl⟩

end Kept

/-- Different labels have different names. -/
def DistinctNames (g : Graph) : Prop :=
  ∀ u ∈ g.labels, ∀ v ∈ g.labels, u.name = v.name → u = v

theorem distinctNames_iff : g.DistinctNames ↔ (g.labels.map Label.name).Nodup :=
  (List.nodup_map_iff_inj_on g.nodup_labels).symm

theorem DistinctNames.names (h : g.DistinctNames) : g.names = g.labels.map Label.name :=
  firstOccurrences_of_nodup (distinctNames_iff.1 h)

/-- Under a name of its own a label has its own predecessors. -/
theorem DistinctNames.sources (h : g.DistinctNames) (hv : v ∈ g.labels) :
    g.sources v.name = (g.predecessors v).map Label.name := by
  have honly : (g.labels.filter fun w => w.name = v.name) = [v] := by
    rw [List.filter_congr (q := fun w => w = v) fun w hw =>
      decide_eq_decide.2 ⟨h w hw v hv, fun hwv => by rw [hwv]⟩, filter_eq_of_nodup g.nodup_labels,
      if_pos hv]
  rw [Graph.sources, honly, List.flatMap_singleton]

theorem DistinctNames.declarations (h : g.DistinctNames) : g.declarations =
    g.labels.map fun v => (v.name, (g.predecessors v).map Label.name) := by
  rw [Graph.declarations, h.names, List.map_map]
  exact List.map_congr_left fun v hv => by rw [Function.comp_apply, h.sources hv]

/-- Graphs whose labels have different names are not refused. -/
theorem DistinctNames.exists_toTopology (h : g.DistinctNames) : ∃ t, g.toTopology = .ok t := by
  cases ht : g.toTopology with
  | ok t => exact ⟨t, rfl⟩
  | error fault =>
    refine absurd (nodup_map_nameEdge_iff.2 fun u v u' v' huv huv' hu hv => ?_)
      (g.toTopology_eq_error_iff.1 ⟨fault, ht⟩)
    exact ⟨h u huv.mem_labels.1 u' huv'.mem_labels.1 hu,
      h v huv.mem_labels.2 v' huv'.mem_labels.2 hv⟩

/-- The topology of a graph. It is refused exactly where two different edges have the same names,
and a repeated predecessor is the reason. Otherwise the edges correspond one to one to the directed
edges of the graph. The nodes correspond to the names of its labels, in order, so that they are as
many as the labels exactly where different labels have different names. Then edges join the same
labels in both. -/
theorem toTopology_merges_names (g : Graph) :
    (g.arcs.Nodup ∧ ∀ u v, (u, v) ∈ g.arcs ↔ g.Joins u v) ∧
    (∀ fault, g.toTopology = .error fault → ∃ n ps, fault = .repeatedPredecessor n ps) ∧
    ((∃ fault, g.toTopology = .error fault) ↔ ∃ u v u' v', g.Joins u v ∧ g.Joins u' v' ∧
      u.name = u'.name ∧ v.name = v'.name ∧ ¬ (u = u' ∧ v = v')) ∧
    ∀ t, g.toTopology = .ok t →
      (g.arcs.map nameEdge).Perm t.edges ∧ t.edgeCount = g.arcs.length ∧
      (∀ p n, t.hasEdge ⟨p, n⟩ = true ↔ ∃ u v, g.Joins u v ∧ u.name = p ∧ v.name = n) ∧
      t.nodes = firstOccurrences (g.labels.map Label.name) ∧
      (t.nodeCount = g.labels.length ↔ g.DistinctNames) ∧
      (g.DistinctNames → t.nodes = g.labels.map Label.name ∧
        ∀ u ∈ g.labels, ∀ v ∈ g.labels, t.hasEdge ⟨u.name, v.name⟩ = true ↔ g.Joins u v) := by
  refine ⟨⟨g.nodup_arcs, fun u v => mem_arcs_iff⟩, fun fault hfault => ?_, ?_, fun t ht => ?_⟩
  · rw [toTopology_eq] at hfault
    obtain ⟨d, hd, ⟨p, hp, hnot, -⟩ | ⟨-, hrepeated⟩⟩ := Topology.fault_of_ofEntries hfault
    · rw [ofList_declarations] at hd
      obtain ⟨n, -, rfl⟩ := List.mem_map.1 hd
      rw [ofList_declarations, keys_declarations] at hnot
      exact absurd (mem_names_of_mem_sources hp) hnot
    · exact ⟨d.1, d.2, hrepeated⟩
  · rw [toTopology_eq_error_iff, nodup_map_nameEdge_iff]
    simp only [not_forall, exists_prop]
  · refine ⟨(edges_toTopology ht).symm, ?_, fun p n => hasEdge_toTopology ht, nodes_toTopology ht,
      ?_, fun hdistinct => ⟨?_, fun u hu v hv => ?_⟩⟩
    · rw [← t.length_edges, (edges_toTopology ht).length_eq, List.length_map]
    · rw [Topology.nodeCount, nodes_toTopology ht, names, distinctNames_iff,
        ← length_firstOccurrences_eq_iff, List.length_map]
    · rw [nodes_toTopology ht, hdistinct.names]
    · rw [hasEdge_toTopology ht]
      constructor
      · rintro ⟨u', v', huv, hu', hv'⟩
        have hlabels := huv.mem_labels
        rwa [← hdistinct u' hlabels.1 u hu hu', ← hdistinct v' hlabels.2 v hv hv']
      · exact fun huv => ⟨u, v, huv, rfl, rfl⟩

/-- An undirected graph with a self loop and a link that is given in both directions. -/
theorem toTopology_merges_names_selfLoop :
    let g : Graph := ⟨false, [], [(.number 1, .number 1), (.number 1, .number 2),
      (.number 2, .number 1)]⟩
    ∃ t, g.toTopology = .ok t ∧ t.nodes = ["1", "2"] ∧ t.edgeCount = 3 := by
  intro g
  have hlabels : g.labels = [.number 1, .number 2] := by decide
  have hdistinct : g.DistinctNames := distinctNames_iff.2 (by rw [hlabels]; decide +kernel)
  obtain ⟨-, -, -, hkept⟩ := toTopology_merges_names g
  obtain ⟨t, ht⟩ : ∃ t, g.toTopology = .ok t := ⟨_, rfl⟩
  obtain ⟨-, hcount, -, -, -, hnames⟩ := hkept t ht
  refine ⟨t, ht, ?_, hcount.trans (by decide)⟩
  rw [(hnames hdistinct).1, hlabels]
  decide +kernel

/-- A number and its text are two labels and become one node, which takes over the edge of the
number: a node is lost, and with it the difference between an edge from the number and one from the
text. -/
theorem toTopology_drops_label :
    let g : Graph := ⟨true, [.number 1, .text "1", .number 2], [(.number 1, .number 2)]⟩
    g.labels.length = 3 ∧ ¬ g.Joins (.text "1") (.number 2) ∧
      ∃ t, g.toTopology = .ok t ∧ t.nodeCount = 2 ∧
        t.hasEdge ⟨(Label.text "1").name, (Label.number 2).name⟩ = true := by
  intro g
  refine ⟨by decide, ?_, _, rfl, by decide +kernel, by decide +kernel⟩
  rintro (h | ⟨h, -⟩)
  · revert h
    decide
  · cases h

end Graph

end RouteInvariants
