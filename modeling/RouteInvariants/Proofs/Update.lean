import RouteInvariants.Network.Basic
import RouteInvariants.Proofs.Elaboration
import RouteInvariants.Proofs.Unfolding

/-!
Updates of related routes. A relation between routes that transfers and merges keep is kept by the
update of a node (`update_rel`), by a round (`step_rel`) and by a simulation (`simulate_rel`). The
relation that matters most is to have the same sort and the same value under two assignments that
agree on the symbolic values (`Typed.Matches`): functions on routes depend on nothing else.
-/

namespace RouteInvariants

/-! ### Lookup -/

namespace Entries

variable {κ α β : Type} [DecidableEq κ]

theorem get?_cons (e : κ × α) (es : List (κ × α)) (k : κ) :
    get? (e :: es) k = if e.1 = k then some e.2 else get? es k := by
  unfold get?
  rw [List.find?_cons]
  by_cases h : e.1 = k <;> simp [h]

theorem get?_map_self {ks : List κ} (f : κ → α) {k : κ} (hk : k ∈ ks) :
    get? (ks.map fun k => (k, f k)) k = some (f k) := by
  induction ks with
  | nil => cases hk
  | cons k' ks ih =>
    rw [List.map_cons, get?_cons]
    split
    · rename_i h
      exact congrArg (some ∘ f) h
    · rename_i h
      exact ih ((List.mem_cons.1 hk).resolve_left fun he => h he.symm)

theorem get?_mapValues (f : α → β) (es : List (κ × α)) (k : κ) :
    get? (es.map fun e => (e.1, f e.2)) k = (get? es k).map f := by
  induction es with
  | nil => rfl
  | cons e es ih =>
    rw [List.map_cons, get?_cons, get?_cons, ih]
    split <;> rfl

omit [DecidableEq κ] in
theorem keys_mapValues (f : α → β) (es : List (κ × α)) :
    keys (es.map fun e => (e.1, f e.2)) = keys es := by
  simp [keys]

theorem mem_of_get? {es : List (κ × α)} {k : κ} {a : α} (h : get? es k = some a) : (k, a) ∈ es := by
  rw [get?, Option.map_eq_some_iff] at h
  obtain ⟨e, he, rfl⟩ := h
  have hk := List.find?_some he
  rw [decide_eq_true_eq] at hk
  exact hk ▸ List.mem_of_find?_eq_some he

theorem get?_of_mem {es : List (κ × α)} (hnd : (keys es).Nodup) {e : κ × α} (he : e ∈ es) :
    get? es e.1 = some e.2 := by
  induction es with
  | nil => cases he
  | cons d es ih =>
    rw [keys, List.map_cons, List.nodup_cons] at hnd
    rw [get?_cons]
    rcases List.mem_cons.1 he with rfl | he
    · exact if_pos rfl
    · rw [if_neg, ih hnd.2 he]
      intro h
      exact hnd.1 (h ▸ List.mem_map_of_mem he)

theorem exists_get? {es : List (κ × α)} {k : κ} (hk : k ∈ keys es) : ∃ a, get? es k = some a := by
  obtain ⟨e, he, rfl⟩ := List.mem_map.1 hk
  cases h : get? es e.1 with
  | some a => exact ⟨a, rfl⟩
  | none =>
    rw [get?, Option.map_eq_none_iff, List.find?_eq_none] at h
    exact absurd (decide_eq_true rfl) (h e he)

end Entries

namespace Topology

variable {t : Topology} {n p : String}

theorem neighbors_eq_ok_iff {ps : List String} :
    t.neighbors n = .ok ps ↔ n ∈ t.nodes ∧ ps = t.predecessors n := by
  unfold neighbors hasNode
  split
  · rename_i h
    exact ⟨fun he => by cases he; exact ⟨List.contains_iff_mem.1 h, rfl⟩, fun he => by rw [he.2]⟩
  · rename_i h
    exact ⟨fun he => (nomatch he), fun he => absurd (List.contains_iff_mem.2 he.1) h⟩

theorem neighbors_eq (hn : n ∈ t.nodes) : t.neighbors n = .ok (t.predecessors n) :=
  neighbors_eq_ok_iff.2 ⟨hn, rfl⟩

theorem mem_nodes_of_mem_predecessors (hp : p ∈ t.predecessors n) : p ∈ t.nodes := by
  unfold predecessors at hp
  cases h : Entries.get? t.entries n with
  | none => rw [h] at hp; cases hp
  | some ps =>
    rw [h] at hp
    exact t.declared _ (Entries.mem_of_get? h) p hp

end Topology

/-! ### Relations between routes -/

/-- Both maps have a route for the node, and the routes are related. -/
def RoutesAt (R : Typed → Typed → Prop) (rs rs' : List (String × Typed)) (node : String) : Prop :=
  ∃ x y, Entries.get? rs node = some x ∧ Entries.get? rs' node = some y ∧ R x y

namespace Network

/-- What a node's updates in two networks have in common where they take routes related by `R` to
routes related by `S`. -/
structure RelatedAt (R S : Typed → Typed → Prop) (net net' : Network) (node : String) : Prop where
  neighbors : net'.topology.neighbors node = net.topology.neighbors node
  origination : net'.origination = net.origination
  initial : node ∈ net.topology.nodes → S (net.initialOf node) (net'.initialOf node)
  transfer : ∀ p ∈ net.topology.predecessors node, ∀ {x y u : Typed}, R x y →
    (net.transferOf ⟨p, node⟩).applyTo x = .ok u →
    ∃ w, (net'.transferOf ⟨p, node⟩).applyTo y = .ok w ∧ S u w
  merge : ∀ {x y x' y' u : Typed}, S x y → S x' y' → net.merge.applyTo x x' = .ok u →
    ∃ w, net'.merge.applyTo y y' = .ok w ∧ S u w

variable {R S : Typed → Typed → Prop} {net net' : Network} {node : String}
  {rs rs' : List (String × Typed)} {u : Typed}

theorem mergeAll_rel (hnet : RelatedAt R S net net' node) {x y : Typed} {xs ys : List Typed}
    (hxy : S x y) (hxs : List.Forall₂ S xs ys) (h : net.mergeAll x xs = .ok u) :
    ∃ w, net'.mergeAll y ys = .ok w ∧ S u w := by
  induction hxs generalizing x y with
  | nil =>
    cases h
    exact ⟨y, rfl, hxy⟩
  | @cons x' y' xs ys hx' _ ih =>
    rw [mergeAll, List.foldlM_cons, bind_eq_ok] at h
    obtain ⟨v, hv, h⟩ := h
    obtain ⟨v', hv', hvv⟩ := hnet.merge hxy hx' hv
    obtain ⟨w, hw, huw⟩ := ih hvv h
    refine ⟨w, ?_, huw⟩
    rw [mergeAll, List.foldlM_cons, bind_eq_ok]
    exact ⟨v', hv', hw⟩

theorem incoming_rel (hnet : RelatedAt R S net net' node) {p : String}
    (hp : p ∈ net.topology.predecessors node) (hr : RoutesAt R rs rs' p)
    (h : net.incoming rs node p = .ok u) : ∃ w, net'.incoming rs' node p = .ok w ∧ S u w := by
  obtain ⟨x, y, hx, hy, hxy⟩ := hr
  unfold incoming at h ⊢
  rw [hx] at h
  rw [hy]
  obtain ⟨w, hw, huw⟩ := hnet.transfer p hp hxy (mapError_eq_ok.1 h)
  exact ⟨w, mapError_eq_ok.2 hw, huw⟩

theorem received_rel (hnet : RelatedAt R S net net' node) {ps : List String} {xs : List Typed}
    (hps : ∀ p ∈ ps, p ∈ net.topology.predecessors node) (hr : ∀ p ∈ ps, RoutesAt R rs rs' p)
    (h : ps.mapM (net.incoming rs node) = .ok xs) :
    ∃ ys, ps.mapM (net'.incoming rs' node) = .ok ys ∧ List.Forall₂ S xs ys := by
  rw [mapM_eq_ok] at h
  induction h with
  | nil => exact ⟨[], mapM_eq_ok.2 .nil, .nil⟩
  | @cons p x ps xs hx _ ih =>
    rw [List.forall_mem_cons] at hps hr
    obtain ⟨y, hy, hxy⟩ := incoming_rel hnet hps.1 hr.1 hx
    obtain ⟨ys, hys, hall⟩ := ih hps.2 hr.2
    exact ⟨y :: ys, mapM_eq_ok.2 (.cons hy (mapM_eq_ok.1 hys)), .cons hxy hall⟩

theorem mergeOffered_rel (hnet : RelatedAt R S net net' node) (hnode : node ∈ net.topology.nodes)
    {xs ys : List Typed} (hxs : List.Forall₂ S xs ys)
    (h : net.mergeOffered node (net.offered node xs) = .ok u) :
    ∃ w, net'.mergeOffered node (net'.offered node ys) = .ok w ∧ S u w := by
  have hinit := hnet.initial hnode
  unfold offered at h ⊢
  rw [hnet.origination]
  split at h
  · exact mergeAll_rel hnet hinit hxs h
  · cases hxs with
    | nil =>
      cases h
      exact ⟨_, rfl, hinit⟩
    | cons hx hxs => exact mergeAll_rel hnet hx hxs h

/-- A node has a next route where all its predecessors' routes can be sent and merged. -/
theorem update_eq_ok_iff : net.update node rs = .ok u ↔ node ∈ net.topology.nodes ∧
    (net.topology.predecessors node = [] ∧ u = net.initialOf node ∨
      net.topology.predecessors node ≠ [] ∧
        ∃ xs, (net.topology.predecessors node).mapM (net.incoming rs node) = .ok xs ∧
          net.mergeOffered node (net.offered node xs) = .ok u) := by
  unfold update
  rw [bind_eq_ok]
  constructor
  · rintro ⟨ps, hps, h⟩
    obtain ⟨hnode, rfl⟩ := Topology.neighbors_eq_ok_iff.1 (mapError_eq_ok.1 hps)
    refine ⟨hnode, ?_⟩
    split at h
    · rename_i hempty
      cases h
      exact .inl ⟨List.isEmpty_iff.1 hempty, rfl⟩
    · rename_i hempty
      obtain ⟨xs, hxs, h⟩ := bind_eq_ok.1 h
      exact .inr ⟨fun he => hempty (List.isEmpty_iff.2 he), xs, hxs, mapError_eq_ok.1 h⟩
  · rintro ⟨hnode, h⟩
    refine ⟨_, mapError_eq_ok.2 (Topology.neighbors_eq hnode), ?_⟩
    rcases h with ⟨hempty, rfl⟩ | ⟨hempty, xs, hxs, h⟩
    · rw [hempty]
      rfl
    · rw [if_neg (by simpa using hempty), bind_eq_ok]
      exact ⟨xs, hxs, mapError_eq_ok.2 h⟩

/-- Updates of related routes are related. -/
theorem update_rel (hnet : RelatedAt R S net net' node)
    (hr : ∀ p ∈ net.topology.predecessors node, RoutesAt R rs rs' p)
    (h : net.update node rs = .ok u) : ∃ w, net'.update node rs' = .ok w ∧ S u w := by
  obtain ⟨hnode, h⟩ := update_eq_ok_iff.1 h
  -- the node is one of both networks and has the same predecessors in them
  have hnode' := Topology.neighbors_eq hnode
  rw [← hnet.neighbors] at hnode'
  obtain ⟨hnode', hpreds⟩ := Topology.neighbors_eq_ok_iff.1 hnode'
  rcases h with ⟨hempty, rfl⟩ | ⟨hempty, xs, hxs, h⟩
  · exact ⟨_, update_eq_ok_iff.2 ⟨hnode', .inl ⟨hpreds ▸ hempty, rfl⟩⟩, hnet.initial hnode⟩
  · obtain ⟨ys, hys, hall⟩ := received_rel hnet (fun _ hp => hp) hr hxs
    obtain ⟨w, hw, huw⟩ := mergeOffered_rel hnet hnode hall h
    rw [hpreds] at hempty hys
    exact ⟨w, update_eq_ok_iff.2 ⟨hnode', .inr ⟨hempty, ys, hys, hw⟩⟩, huw⟩

/-! ### Rounds -/

/-- The map after a round: the entries are those of the nodes, in order, and each is the simplified
update. -/
structure IsRound (net : Network) (rs next : List (String × Typed)) : Prop where
  keys : Entries.keys next = net.topology.nodes
  route : ∀ n ∈ net.topology.nodes, ∃ r, net.update n rs = .ok r ∧ r.ty ≠ .truth ∧
    Entries.get? next n = some ⟨r.term.simplify, r.ty⟩

theorem nextEntry_eq_ok_iff {e : String × Typed} : net.nextEntry rs node = .ok e ↔
    ∃ r, net.update node rs = .ok r ∧ r.ty ≠ .truth ∧ e = (node, ⟨r.term.simplify, r.ty⟩) := by
  unfold nextEntry
  rw [bind_eq_ok]
  refine exists_congr fun r => and_congr_right fun _ => ?_
  split
  · rename_i ht
    exact ⟨fun h => (nomatch h), fun h => absurd ht h.1⟩
  · rename_i ht
    exact ⟨fun h => ⟨ht, (Except.ok.inj h).symm⟩, fun h => congrArg _ h.2.symm⟩

theorem isRound_of_step {next : List (String × Typed)} (h : net.step rs = .ok next) :
    net.IsRound rs next := by
  rw [step, mapM_eq_ok] at h
  -- the entries stand in the order of the nodes, so that each is found under its own name
  have hkeys : Entries.keys next = net.topology.nodes := by
    refine List.ext_getElem (by simpa [Entries.keys] using h.length_eq.symm) fun i hi hi' => ?_
    have hi'' : i < next.length := h.length_eq ▸ hi'
    obtain ⟨r, -, -, he⟩ := nextEntry_eq_ok_iff.1 (h.get hi' hi'')
    simpa [Entries.keys] using congrArg Prod.fst he
  refine ⟨hkeys, fun n hn => ?_⟩
  obtain ⟨i, hi, rfl⟩ := List.getElem_of_mem hn
  have hi' : i < next.length := h.length_eq ▸ hi
  obtain ⟨r, hr, ht, he⟩ := nextEntry_eq_ok_iff.1 (h.get hi hi')
  refine ⟨r, hr, ht, ?_⟩
  have hnd : (Entries.keys next).Nodup := hkeys ▸ net.topology.nodup_nodes
  have hget := Entries.get?_of_mem hnd (List.getElem_mem hi')
  simp only [List.get_eq_getElem] at he
  rwa [he] at hget

/-- A round has a result where every node's update is a route. -/
theorem exists_step (h : ∀ n ∈ net.topology.nodes, ∃ r, net.update n rs = .ok r ∧ r.ty ≠ .truth) :
    ∃ next, net.step rs = .ok next :=
  exists_mapM fun n hn => by
    obtain ⟨r, hr, ht⟩ := h n hn
    exact ⟨_, nextEntry_eq_ok_iff.2 ⟨r, hr, ht, rfl⟩⟩

/-- What rounds need of the relations in order to keep them. -/
structure RoundRelation (R S : Typed → Typed → Prop) (net net' : Network) : Prop where
  nodes : net'.topology.nodes = net.topology.nodes
  related : ∀ n ∈ net.topology.nodes, RelatedAt R S net net' n
  ty : ∀ {x y : Typed}, S x y → x.ty = y.ty
  initial : ∀ n ∈ net.topology.nodes, R (net.initialOf n) (net'.initialOf n)
  next : ∀ n ∈ net.topology.nodes, ∀ {rs rs' : List (String × Typed)} {u w : Typed},
    (∀ p ∈ net.topology.predecessors n, RoutesAt R rs rs' p) → net.update n rs = .ok u → S u w →
      R ⟨u.term.simplify, u.ty⟩ ⟨w.term.simplify, w.ty⟩

theorem step_rel (hnet : RoundRelation R S net net')
    (hr : ∀ n ∈ net.topology.nodes, RoutesAt R rs rs' n) {next : List (String × Typed)}
    (h : net.step rs = .ok next) :
    ∃ next', net'.step rs' = .ok next' ∧ ∀ n ∈ net.topology.nodes, RoutesAt R next next' n := by
  have hround := isRound_of_step h
  have hpreds (n) : ∀ p ∈ net.topology.predecessors n, RoutesAt R rs rs' p := fun p hp =>
    hr p (Topology.mem_nodes_of_mem_predecessors hp)
  obtain ⟨next', hnext'⟩ : ∃ next', net'.step rs' = .ok next' := exists_step fun n hn => by
    rw [hnet.nodes] at hn
    obtain ⟨u, hu, ht, -⟩ := hround.route n hn
    obtain ⟨w, hw, huw⟩ := update_rel (hnet.related n hn) (hpreds n) hu
    exact ⟨w, hw, hnet.ty huw ▸ ht⟩
  refine ⟨next', hnext', fun n hn => ?_⟩
  obtain ⟨u, hu, -, hget⟩ := hround.route n hn
  obtain ⟨w, hw, -, hget'⟩ := (isRound_of_step hnext').route n (hnet.nodes ▸ hn)
  obtain ⟨w', hw', huw⟩ := update_rel (hnet.related n hn) (hpreds n) hu
  rw [hw] at hw'
  cases hw'
  exact ⟨_, _, hget, hget', hnet.next n hn (hpreds n) hu huw⟩

theorem roundsFrom_rel (hnet : RoundRelation R S net net') {k : Nat}
    (hr : ∀ n ∈ net.topology.nodes, RoutesAt R rs rs' n)
    {states : List (List (String × Typed))} (h : net.roundsFrom rs k = .ok states) :
    ∃ states', net'.roundsFrom rs' k = .ok states' ∧ List.Forall₂ (fun s s' =>
      ∀ n ∈ net.topology.nodes, RoutesAt R s s' n) states states' := by
  induction k generalizing rs rs' states with
  | zero =>
    cases h
    exact ⟨[], rfl, .nil⟩
  | succ k ih =>
    obtain ⟨next, hnext, h⟩ := bind_eq_ok.1 h
    obtain ⟨rest, hrest, h⟩ := bind_eq_ok.1 h
    cases h
    obtain ⟨next', hnext', hr'⟩ := step_rel hnet hr hnext
    obtain ⟨rest', hrest', hall⟩ := ih hr' hrest
    exact ⟨next' :: rest', bind_eq_ok.2 ⟨next', hnext', bind_eq_ok.2 ⟨rest', hrest', rfl⟩⟩,
      .cons hr' hall⟩

theorem get?_initial {n : String} (hn : n ∈ net.topology.nodes) :
    Entries.get? net.initial.entries n = some (net.initialOf n) := by
  obtain ⟨r, hr⟩ := Entries.exists_get? ((net.initial_keys n).2 hn)
  rw [initialOf, InitialRoutes.get, hr, Option.getD_some]

/-- A simulation keeps the relation. -/
theorem simulate_rel (hnet : RoundRelation R S net net') {rounds : Nat}
    {states : List (List (String × Typed))} (h : net.simulate rounds = .ok states) :
    ∃ states', net'.simulate rounds = .ok states' ∧ List.Forall₂ (fun s s' =>
      ∀ n ∈ net.topology.nodes, RoutesAt R s s' n) states states' := by
  obtain ⟨rest, hrest, h⟩ := bind_eq_ok.1 h
  cases h
  have hr : ∀ n ∈ net.topology.nodes, RoutesAt R net.initial.entries net'.initial.entries n :=
    fun n hn => ⟨_, _, get?_initial hn, get?_initial (hnet.nodes ▸ hn), hnet.initial n hn⟩
  obtain ⟨rest', hrest', hall⟩ := roundsFrom_rel hnet hr hrest
  exact ⟨_, bind_eq_ok.2 ⟨rest', hrest', rfl⟩, .cons hr hall⟩

/-! ### Sorts -/

/-- Updates of routes of the route sort are of the route sort. -/
def KeepsSort (net : Network) : Prop :=
  ∀ n ∈ net.topology.nodes, ∀ x, net.update n (net.unknownRoutes "route") = .ok x →
    x.ty = net.routeTy

/-- The sort of an update depends on the sorts of the routes only. -/
theorem relatedAt_sort (net : Network) (node : String) :
    RelatedAt (fun x y => x.ty = y.ty) (fun x y => x.ty = y.ty) net net node where
  neighbors := rfl
  origination := rfl
  initial _ := rfl
  transfer p _ x y u hxy h := by
    obtain ⟨b, hb, h⟩ := bind_eq_ok.1 h
    cases h
    exact ⟨_, bind_eq_ok.2 ⟨b, hxy ▸ hb, rfl⟩, rfl⟩
  merge {x y x' y' u} hxy hxy' h := by
    obtain ⟨b, hb, h⟩ := bind_eq_ok.1 h
    cases h
    exact ⟨_, bind_eq_ok.2 ⟨b, hxy ▸ hxy' ▸ hb, rfl⟩, rfl⟩

theorem KeepsSort.update_ty (hkeep : net.KeepsSort)
    (hrs : ∀ p ∈ net.topology.predecessors node, ∃ r, Entries.get? rs p = some r ∧
      r.ty = net.routeTy) (h : net.update node rs = .ok u) : u.ty = net.routeTy := by
  have hr : ∀ p ∈ net.topology.predecessors node,
      RoutesAt (fun x y => x.ty = y.ty) rs (net.unknownRoutes "route") p := fun p hp => by
    obtain ⟨r, hr, hty⟩ := hrs p hp
    exact ⟨r, _, hr, Entries.get?_map_self _ (Topology.mem_nodes_of_mem_predecessors hp), hty⟩
  obtain ⟨w, hw, huw⟩ := update_rel (net.relatedAt_sort node) hr h
  rw [huw, hkeep node (update_eq_ok_iff.1 h).1 w hw]

end Network

end RouteInvariants
