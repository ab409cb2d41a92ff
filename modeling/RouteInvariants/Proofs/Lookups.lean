import RouteInvariants.Proofs.Acceptance

/-!
Lookups that may find nothing. A network reads transfer functions, routes, invariants and properties
by key, and takes a default where there is none. Here it is written once more with lookups that end
with a fault (`strictUpdate`, `strictSimulate`, `strictBase` and so on). A strict computation
`Finds` all that it looks up if it is the running one. So it is in every network that is accepted,
also with failures put around it: nothing but an error of sorts is left to go wrong, and not even
that where transfers and merges yield routes (`exists_simulate`).
-/

namespace RouteInvariants

/-- What strict reading can end with: a missing key, no route to merge, an error of sorts. -/
inductive Fault where
  | node (name : String)
  | edge (e : Edge)
  | nothingToMerge
  | sort (e : SortError)

/-- The value of a key, or the fault. -/
def Entries.find {κ α : Type} [DecidableEq κ] (es : List (κ × α)) (k : κ) (fault : Fault) :
    Except Fault α :=
  match get? es k with
  | some a => .ok a
  | none => .error fault

theorem Entries.find_eq {κ α : Type} [DecidableEq κ] {es : List (κ × α)} {k : κ} {a : α}
    {fault : Fault} (h : get? es k = some a) : find es k fault = .ok a := by
  rw [find, h]

/-- The strict computation finds all that it looks up: it is the running one, and both end with a
result or an error of sorts. -/
def Finds {α : Type} (strict : Except Fault α) (run : Except Failure α) : Prop :=
  ∃ x : Except SortError α, strict = x.mapError .sort ∧ run = x.mapError .sort

namespace Finds

variable {α β κ : Type} {strict : Except Fault α} {run : Except Failure α}

theorem sort (x : Except SortError α) : Finds (x.mapError .sort) (x.mapError .sort) :=
  ⟨x, rfl, rfl⟩

theorem ok (a : α) : Finds (.ok a) (.ok a) := ⟨.ok a, rfl, rfl⟩

theorem bind {f : α → Except Fault β} {g : α → Except Failure β} (h : Finds strict run)
    (hf : ∀ a, run = .ok a → Finds (f a) (g a)) : Finds (strict >>= f) (run >>= g) := by
  obtain ⟨x, rfl, rfl⟩ := h
  cases x with
  | error e => exact ⟨.error e, rfl, rfl⟩
  | ok a => exact hf a rfl

/-- A lookup that finds what it looks for. -/
theorem found {f : α → Except Fault β} {run : Except Failure β} {a : α} (h : strict = .ok a)
    (hf : Finds (f a) run) : Finds (strict >>= f) run := by
  rw [h]
  exact hf

theorem find [DecidableEq κ] {es : List (κ × α)} {k : κ} {a : α} {fault : Fault}
    {f : α → Except Fault β} {run : Except Failure β} (h : Entries.get? es k = some a)
    (hf : Finds (f a) run) : Finds (Entries.find es k fault >>= f) run :=
  found (Entries.find_eq h) hf

theorem mapM {f : α → Except Fault β} {g : α → Except Failure β} {as : List α}
    (h : ∀ a ∈ as, Finds (f a) (g a)) : Finds (as.mapM f) (as.mapM g) := by
  induction as with
  | nil => exact ok []
  | cons a as ih =>
    rw [List.forall_mem_cons] at h
    rw [List.mapM_cons, List.mapM_cons]
    exact h.1.bind fun b _ => (ih h.2).bind fun bs _ => ok (b :: bs)

end Finds

/-! ### Updates and rounds -/

namespace Network

variable (net : Network)

/-- The route that a predecessor sends to a node. -/
def strictIncoming (routes : List (String × Typed)) (node pred : String) :
    Except Fault Typed := do
  let transfer ← Entries.find net.transfer ⟨pred, node⟩ (.edge ⟨pred, node⟩)
  let r ← Entries.find routes pred (.node pred)
  (transfer.applyTo r).mapError .sort

/-- The merge of routes from the left; there has to be one. -/
def strictMerge : List Typed → Except Fault Typed
  | [] => .error .nothingToMerge
  | r :: rs => (net.mergeAll r rs).mapError .sort

/-- The routes that a node chooses from. -/
def strictOffered (node : String) (received : List Typed) : Except Fault (List Typed) :=
  match net.origination with
  | .persistent => do
    let r ← Entries.find net.initial.entries node (.node node)
    .ok (r :: received)
  | .initialOnly => .ok received

def strictUpdate (node : String) (routes : List (String × Typed)) : Except Fault Typed := do
  let preds ← Entries.find net.topology.entries node (.node node)
  if preds.isEmpty then Entries.find net.initial.entries node (.node node)
  else do
    let received ← preds.mapM (net.strictIncoming routes node)
    let offered ← net.strictOffered node received
    net.strictMerge offered

def strictNextEntry (routes : List (String × Typed)) (node : String) :
    Except Fault (String × Typed) := do
  let r ← net.strictUpdate node routes
  if r.ty = .truth then .error (.sort .mismatch) else .ok (node, ⟨r.term.simplify, r.ty⟩)

def strictStep (routes : List (String × Typed)) : Except Fault (List (String × Typed)) :=
  net.topology.nodes.mapM (net.strictNextEntry routes)

def strictRoundsFrom (routes : List (String × Typed)) :
    Nat → Except Fault (List (List (String × Typed)))
  | 0 => .ok []
  | k + 1 => do
    let next ← net.strictStep routes
    return next :: (← strictRoundsFrom next k)

def strictSimulate (rounds : Nat) : Except Fault (List (List (String × Typed))) := do
  return net.initial.entries :: (← net.strictRoundsFrom net.initial.entries rounds)

variable {net} {node : String} {rs : List (String × Typed)}

theorem get?_transfer {e : Edge} (he : e ∈ net.topology.edges) :
    Entries.get? net.transfer e = some (net.transferOf e) := by
  obtain ⟨f, hf⟩ := Entries.exists_get? ((net.transfer_keys e).2 he)
  rw [transferOf, hf, Option.getD_some]

theorem finds_neighbors (hnode : node ∈ net.topology.nodes) {fault : Fault} :
    Finds (Entries.find net.topology.entries node fault)
      ((net.topology.neighbors node).mapError .topology) := by
  obtain ⟨preds, hpreds⟩ := Entries.exists_get? hnode
  rw [Topology.neighbors_eq hnode, Topology.predecessors, hpreds, Entries.find_eq hpreds]
  exact .ok preds

theorem finds_incoming {p : String} (hp : p ∈ net.topology.predecessors node)
    (hrs : p ∈ Entries.keys rs) :
    Finds (net.strictIncoming rs node p) (net.incoming rs node p) := by
  obtain ⟨r, hr⟩ := Entries.exists_get? hrs
  rw [incoming, hr]
  exact .find (get?_transfer (Topology.mem_edges_of_mem_predecessors hp)) (.find hr (.sort _))

/-- There is a route to merge: a node with predecessors receives one from each. -/
theorem offered_ne_nil {xs : List Typed} (hpreds : net.topology.predecessors node ≠ [])
    (h : (net.topology.predecessors node).mapM (net.incoming rs node) = .ok xs) :
    net.offered node xs ≠ [] := by
  have hxs : xs ≠ [] := by
    rintro rfl
    exact hpreds (List.forall₂_nil_right_iff.1 (mapM_eq_ok.1 h))
  unfold offered
  split
  · exact List.cons_ne_nil _ _
  · exact hxs

theorem finds_merge {xs : List Typed} (hxs : xs ≠ []) :
    Finds (net.strictMerge xs) ((net.mergeOffered node xs).mapError .sort) := by
  cases xs with
  | nil => exact absurd rfl hxs
  | cons x xs => exact .sort _

theorem strictOffered_eq (hnode : node ∈ net.topology.nodes) (xs : List Typed) :
    net.strictOffered node xs = .ok (net.offered node xs) := by
  rw [strictOffered, offered, Entries.find_eq (get?_initial hnode)]
  cases net.origination <;> rfl

theorem finds_update (hnode : node ∈ net.topology.nodes)
    (hrs : ∀ p ∈ net.topology.predecessors node, p ∈ Entries.keys rs) :
    Finds (net.strictUpdate node rs) (net.update node rs) := by
  refine .bind (finds_neighbors hnode) fun preds hpreds => ?_
  obtain ⟨-, rfl⟩ := Topology.neighbors_eq_ok_iff.1 (mapError_eq_ok.1 hpreds)
  split
  · rw [Entries.find_eq (get?_initial hnode)]
    exact .ok _
  · rename_i hempty
    refine .bind (.mapM fun p hp => finds_incoming hp (hrs p hp)) fun xs hxs => ?_
    rw [strictOffered_eq hnode]
    exact finds_merge (offered_ne_nil (fun hnil => hempty (List.isEmpty_iff.2 hnil)) hxs)

theorem finds_step (hrs : ∀ n ∈ net.topology.nodes, ∀ p ∈ net.topology.predecessors n,
    p ∈ Entries.keys rs) : Finds (net.strictStep rs) (net.step rs) := by
  refine .mapM fun n hn => .bind (finds_update hn (hrs n hn)) fun r _ => ?_
  split
  · exact .sort (.error .mismatch)
  · exact .ok _

/-- Every round starts from routes of all nodes, as the last one made them. -/
theorem finds_roundsFrom (hrs : ∀ n ∈ net.topology.nodes, n ∈ Entries.keys rs) (k : Nat) :
    Finds (net.strictRoundsFrom rs k) (net.roundsFrom rs k) := by
  induction k generalizing rs with
  | zero => exact .ok []
  | succ k ih =>
    have hstep : Finds (net.strictStep rs) (net.step rs) :=
      finds_step fun n _ p hp => hrs p (Topology.mem_nodes_of_mem_predecessors hp)
    refine .bind hstep fun next hnext => .bind (ih fun n hn => ?_) fun _ _ => .ok _
    rwa [(isRound_of_step hnext).keys]

theorem finds_simulate (net : Network) (k : Nat) :
    Finds (net.strictSimulate k) (net.simulate k) :=
  .bind (finds_roundsFrom (fun n hn => (net.initial_keys n).2 hn) k) fun _ _ => .ok _

/-! ### States of a simulation -/

/-- After a round the nodes stand in their own order. -/
theorem keys_roundsFrom {k : Nat} {states : List (List (String × Typed))}
    (h : net.roundsFrom rs k = .ok states) :
    states.map Entries.keys = List.replicate k net.topology.nodes := by
  induction k generalizing rs states with
  | zero =>
    cases h
    rfl
  | succ k ih =>
    obtain ⟨next, hnext, h⟩ := bind_eq_ok.1 h
    obtain ⟨rest, hrest, h⟩ := bind_eq_ok.1 h
    cases h
    rw [List.map_cons, List.replicate_succ, ih hrest, (isRound_of_step hnext).keys]

theorem keys_simulate {k : Nat} {states : List (List (String × Typed))}
    (h : net.simulate k = .ok states) : states.map Entries.keys =
      Entries.keys net.initial.entries :: List.replicate k net.topology.nodes := by
  obtain ⟨rest, hrest, h⟩ := bind_eq_ok.1 h
  cases h
  rw [List.map_cons, keys_roundsFrom hrest]

theorem perm_keys_initial (net : Network) :
    (Entries.keys net.initial.entries).Perm net.topology.nodes :=
  (List.perm_ext_iff_of_nodup net.initial.nodup_keys net.topology.nodup_nodes).2 net.initial_keys

/-- Transfers and merges of routes of the route sort are such routes. -/
structure YieldsRoutes (net : Network) : Prop where
  transfers : net.TransfersKeepSort
  merge : ∃ b, net.merge.body.elaborate [net.routeTy, net.routeTy] = .ok b ∧ b.ty = net.routeTy

/-- The map has a route of the route sort for the node. -/
def HasRouteAt (net : Network) (rs : List (String × Typed)) (node : String) : Prop :=
  ∃ r, Entries.get? rs node = some r ∧ r.ty = net.routeTy

section Yields

variable (hnet : net.YieldsRoutes)

include hnet

theorem exists_incoming {p : String} (hp : p ∈ net.topology.predecessors node)
    (hr : net.HasRouteAt rs p) :
    ∃ u, net.incoming rs node p = .ok u ∧ u.ty = net.routeTy := by
  obtain ⟨r, hr, hty⟩ := hr
  obtain ⟨b, hb, hbty⟩ := hnet.transfers _ (Topology.mem_edges_of_mem_predecessors hp)
  refine ⟨⟨.call b.term r.term, b.ty⟩, ?_, hbty⟩
  rw [incoming, hr]
  exact mapError_eq_ok.2 (bind_eq_ok.2 ⟨b, hty ▸ hb, rfl⟩)

theorem exists_mergeAll {r : Typed} (hr : r.ty = net.routeTy) {xs : List Typed}
    (hxs : ∀ x ∈ xs, x.ty = net.routeTy) :
    ∃ u, net.mergeAll r xs = .ok u ∧ u.ty = net.routeTy := by
  induction xs generalizing r with
  | nil => exact ⟨r, rfl, hr⟩
  | cons x xs ih =>
    rw [List.forall_mem_cons] at hxs
    obtain ⟨b, hb, hbty⟩ := hnet.merge
    have hmerge : net.merge.applyTo r x = .ok ⟨.call2 b.term r.term x.term, b.ty⟩ :=
      bind_eq_ok.2 ⟨b, by rw [hr, hxs.1, hb], rfl⟩
    obtain ⟨u, hu, huty⟩ := ih (r := ⟨.call2 b.term r.term x.term, b.ty⟩) hbty hxs.2
    exact ⟨u, bind_eq_ok.2 ⟨_, hmerge, hu⟩, huty⟩

theorem exists_received (hrs : ∀ p ∈ net.topology.predecessors node, net.HasRouteAt rs p) :
    ∃ xs, (net.topology.predecessors node).mapM (net.incoming rs node) = .ok xs ∧
      ∀ x ∈ xs, x.ty = net.routeTy := by
  obtain ⟨xs, hxs⟩ := exists_mapM fun p hp =>
    (exists_incoming hnet hp (hrs p hp)).imp fun _ h => h.1
  refine ⟨xs, hxs, fun x hx => ?_⟩
  obtain ⟨p, hp, hpx⟩ := exists_of_mem_mapM hxs hx
  obtain ⟨u, hu, hty⟩ := exists_incoming hnet hp (hrs p hp)
  cases hpx.symm.trans hu
  exact hty

theorem exists_update_route (hnode : node ∈ net.topology.nodes)
    (hrs : ∀ p ∈ net.topology.predecessors node, net.HasRouteAt rs p) :
    ∃ u, net.update node rs = .ok u ∧ u.ty = net.routeTy := by
  have hinitial : (net.initialOf node).ty = net.routeTy := net.initial_ty node hnode
  by_cases hpreds : net.topology.predecessors node = []
  · exact ⟨_, update_eq_ok_iff.2 ⟨hnode, .inl ⟨hpreds, rfl⟩⟩, hinitial⟩
  · obtain ⟨xs, hxs, hty⟩ := exists_received hnet hrs
    have hoffered : ∀ x ∈ net.offered node xs, x.ty = net.routeTy := by
      unfold offered
      split
      · exact List.forall_mem_cons.2 ⟨hinitial, hty⟩
      · exact hty
    obtain ⟨y, ys, hys⟩ := List.exists_cons_of_ne_nil (offered_ne_nil hpreds hxs)
    rw [hys, List.forall_mem_cons] at hoffered
    obtain ⟨u, hu, huty⟩ := exists_mergeAll hnet hoffered.1 hoffered.2
    refine ⟨u, update_eq_ok_iff.2 ⟨hnode, .inr ⟨hpreds, xs, hxs, ?_⟩⟩, huty⟩
    rw [hys]
    exact hu

theorem exists_step_routes (hrs : ∀ n ∈ net.topology.nodes, net.HasRouteAt rs n) :
    ∃ next, net.step rs = .ok next ∧ ∀ n ∈ net.topology.nodes, net.HasRouteAt next n := by
  have hupdate (n : String) (hn : n ∈ net.topology.nodes) :=
    exists_update_route hnet hn fun p hp => hrs p (Topology.mem_nodes_of_mem_predecessors hp)
  obtain ⟨next, hnext⟩ : ∃ next, net.step rs = .ok next := exists_step fun n hn => by
    obtain ⟨u, hu, hty⟩ := hupdate n hn
    refine ⟨u, hu, fun htruth => ?_⟩
    have hdeclared := net.declared_routeTy n hn
    rw [← hty, htruth] at hdeclared
    cases hdeclared
  refine ⟨next, hnext, fun n hn => ?_⟩
  obtain ⟨r, hr, -, hget⟩ := (isRound_of_step hnext).route n hn
  obtain ⟨u, hu, hty⟩ := hupdate n hn
  cases hr.symm.trans hu
  exact ⟨_, hget, hty⟩

theorem exists_roundsFrom (hrs : ∀ n ∈ net.topology.nodes, net.HasRouteAt rs n) (k : Nat) :
    ∃ states, net.roundsFrom rs k = .ok states := by
  induction k generalizing rs with
  | zero => exact ⟨[], rfl⟩
  | succ k ih =>
    obtain ⟨next, hnext, hroutes⟩ := exists_step_routes hnet hrs
    obtain ⟨rest, hrest⟩ := ih hroutes
    exact ⟨next :: rest, bind_eq_ok.2 ⟨next, hnext, bind_eq_ok.2 ⟨rest, hrest, rfl⟩⟩⟩

theorem exists_simulate (k : Nat) : ∃ states, net.simulate k = .ok states := by
  obtain ⟨rest, hrest⟩ := exists_roundsFrom hnet
    (fun n hn => ⟨_, get?_initial hn, net.initial_ty n hn⟩) k
  exact ⟨_, bind_eq_ok.2 ⟨rest, hrest, rfl⟩⟩

end Yields

end Network

/-! ### Obligations -/

/-- The values of keys, each with its key. -/
def Entries.findAll {α : Type} (es : List (String × α)) (ks : List String) :
    Except Fault (List (String × α)) :=
  ks.mapM fun k => do
    let a ← find es k (.node k)
    return (k, a)

namespace AnnotatedNetwork

variable (a : AnnotatedNetwork)

def strictCondition (r : Except SortError Typed) : Except Fault Term :=
  (r.bind (Typed.castTo .bool)).mapError .sort

def strictQuery (assumptions : List Term) (claim : Term) : Except Fault Term := do
  let scope ← strictCondition a.network.constraints
  return .conj (scope :: assumptions ++ [.not claim])

def strictBase (node : String) : Except Fault Obligation := do
  let route := a.routeOf node
  let initial ← Entries.find a.network.initial.entries node (.node node)
  let same ← strictCondition (Typed.equal route initial)
  let invariant ← Entries.find a.annotations node (.node node)
  let claim ← strictCondition (invariant.applyTo route ⟨.int 0, .int⟩)
  return {
    node := some node
    kind := .base
    query := ← a.strictQuery [] (implies same claim)
    witness := fun m => ⟨a.symbolicValues m, .text node, .base (m.observe route)⟩ }

def strictInductive (node : String) : Except Fault Obligation := do
  let routes := a.network.unknownRoutes "route"
  let preds ← Entries.find a.network.topology.entries node (.node node)
  let next ← a.network.strictUpdate node routes
  let earlier : Typed := ⟨.sub time.term (.int 1), .int⟩
  let assumed ← preds.mapM fun p => do
    let invariant ← Entries.find a.annotations p (.node p)
    let r ← Entries.find routes p (.node p)
    strictCondition (invariant.applyTo r earlier)
  let invariant ← Entries.find a.annotations node (.node node)
  let claim ← strictCondition (invariant.applyTo next time)
  let shown ← Entries.findAll routes preds
  let positive : Term := .not (.le time.term (.int 0))
  return {
    node := some node
    kind := .step
    query := ← a.strictQuery [] (implies (.conj (positive :: assumed)) claim)
    witness := fun m => ⟨a.symbolicValues m, .text node,
      .step (m.observe next) (shown.map fun e => (e.1, m.observe e.2)) (.int m.time)⟩ }

def strictSafety (node : String) : Except Fault Obligation := do
  let route := a.routeOf node
  let invariant ← Entries.find a.annotations node (.node node)
  let assumed ← strictCondition (invariant.applyTo route time)
  let property ← Entries.find a.modularProperties node (.node node)
  let claim ← strictCondition (property.applyTo route time)
  return {
    node := some node
    kind := .safety
    query := ← a.strictQuery [.le (.int 0) time.term] (implies assumed claim)
    witness := fun m => ⟨a.symbolicValues m, .text node, .safety (m.observe route) (.int m.time)⟩ }

def strictMonolithic : Except Fault Obligation := do
  let nodes := a.network.topology.nodes
  let routes := a.network.unknownRoutes "route"
  let stable ← nodes.mapM fun n => do
    let r ← Entries.find routes n (.node n)
    let next ← a.network.strictUpdate n routes
    strictCondition (Typed.equal r next)
  let claims ← nodes.mapM fun n => do
    let property ← Entries.find a.monolithicProperties n (.node n)
    let r ← Entries.find routes n (.node n)
    strictCondition (property.applyTo r)
  let shown ← Entries.findAll routes nodes
  return {
    node := none
    kind := .monolithic
    query := ← a.strictQuery stable (.conj claims)
    witness := fun m => ⟨a.symbolicValues m, .null,
      .monolithic (shown.map fun e => (e.1, m.observe e.2))⟩ }

/-- Every node has its invariant and its properties. -/
structure IsCovered (a : AnnotatedNetwork) : Prop where
  invariant : ∀ n ∈ a.network.topology.nodes,
    Entries.get? a.annotations n = some (a.annotationOf n)
  modular : ∀ n ∈ a.network.topology.nodes,
    Entries.get? a.modularProperties n = some (a.modularOf n)
  monolithic : ∀ n ∈ a.network.topology.nodes,
    Entries.get? a.monolithicProperties n = some (a.monolithicOf n)

variable {a} {node : String}

theorem get?_of_checkNodes {α : Type} [Inhabited α] {net : Network} {part : Part}
    {given : List (String × α)} (h : checkNodes net part given = .ok ()) {n : String}
    (hn : n ∈ net.topology.nodes) :
    Entries.get? given n = some ((Entries.get? given n).getD default) := by
  obtain ⟨v, hv⟩ := Entries.exists_get? ((mem_keys_of_checkKeys h n).2 hn)
  rw [hv, Option.getD_some]

theorem isCovered_of_build {net : Network} {annotations modular : List (String × Invariant)}
    {monolithic : List (String × Predicate)}
    (h : build net annotations modular monolithic = .ok a) : a.IsCovered := by
  obtain ⟨_, hannotations, h⟩ := bind_eq_ok.1 h
  obtain ⟨_, hmodular, h⟩ := bind_eq_ok.1 h
  obtain ⟨_, hmonolithic, h⟩ := bind_eq_ok.1 h
  cases h
  refine ⟨fun n hn => ?_, fun n hn => ?_, fun n hn => ?_⟩
  · exact get?_of_checkNodes hannotations hn
  · exact get?_of_checkNodes hmodular hn
  · exact get?_of_checkNodes hmonolithic hn

theorem network_of_build {net : Network} {annotations modular : List (String × Invariant)}
    {monolithic : List (String × Predicate)}
    (h : build net annotations modular monolithic = .ok a) : a.network = net := by
  obtain ⟨_, -, h⟩ := bind_eq_ok.1 h
  obtain ⟨_, -, h⟩ := bind_eq_ok.1 h
  obtain ⟨_, -, h⟩ := bind_eq_ok.1 h
  cases h
  rfl

theorem finds_query (assumptions : List Term) (claim : Term) :
    Finds (a.strictQuery assumptions claim) (a.query assumptions claim) :=
  .bind (.sort _) fun _ _ => .ok _

theorem finds_base (ha : a.IsCovered) (hnode : node ∈ a.network.topology.nodes) :
    Finds (a.strictBase node) (a.baseObligation node) :=
  .find (Network.get?_initial hnode) <| .bind (.sort _) fun _ _ =>
    .find (ha.invariant node hnode) <| .bind (.sort _) fun _ _ =>
      .bind (finds_query _ _) fun _ _ => .ok _

theorem finds_safety (ha : a.IsCovered) (hnode : node ∈ a.network.topology.nodes) :
    Finds (a.strictSafety node) (a.safetyObligation node) :=
  .find (ha.invariant node hnode) <| .bind (.sort _) fun _ _ =>
    .find (ha.modular node hnode) <| .bind (.sort _) fun _ _ =>
      .bind (finds_query _ _) fun _ _ => .ok _

theorem get?_unknownRoutes (hnode : node ∈ a.network.topology.nodes) :
    Entries.get? (a.network.unknownRoutes "route") node = some (a.routeOf node) :=
  Entries.get?_map_self _ hnode

theorem findAll_unknownRoutes {ns : List String} (h : ∀ n ∈ ns, n ∈ a.network.topology.nodes) :
    Entries.findAll (a.network.unknownRoutes "route") ns =
      .ok (ns.map fun n => (n, a.routeOf n)) := by
  rw [Entries.findAll, mapM_eq_ok, List.forall₂_map_right_iff, List.forall₂_same]
  intro n hn
  rw [Entries.find_eq (get?_unknownRoutes (h n hn))]
  rfl

/-- The unknown routes cover the network, so that every node can be updated with them. -/
theorem finds_update_unknown (hnode : node ∈ a.network.topology.nodes) :
    Finds (a.network.strictUpdate node (a.network.unknownRoutes "route"))
      (a.network.update node (a.network.unknownRoutes "route")) := by
  refine Network.finds_update hnode fun p hp => ?_
  have hmem := Entries.mem_of_get? (get?_unknownRoutes (a := a)
    (Topology.mem_nodes_of_mem_predecessors hp))
  exact List.mem_map_of_mem hmem

theorem finds_inductive (ha : a.IsCovered) (hnode : node ∈ a.network.topology.nodes) :
    Finds (a.strictInductive node) (a.inductiveObligation node) := by
  refine .bind (Network.finds_neighbors hnode) fun preds hpreds => ?_
  obtain ⟨-, rfl⟩ := Topology.neighbors_eq_ok_iff.1 (mapError_eq_ok.1 hpreds)
  have hnodes : ∀ p ∈ a.network.topology.predecessors node, p ∈ a.network.topology.nodes :=
    fun p hp => Topology.mem_nodes_of_mem_predecessors hp
  refine .bind (finds_update_unknown hnode) fun next _ => ?_
  refine .bind (.mapM fun p hp => .find (ha.invariant p (hnodes p hp)) <|
    .find (get?_unknownRoutes (hnodes p hp)) (.sort _)) fun assumed _ => ?_
  refine .find (ha.invariant node hnode) <| .bind (.sort _) fun claim _ => ?_
  refine .found (findAll_unknownRoutes hnodes) <| .bind (finds_query _ _) fun _ _ => ?_
  simp only [List.map_map, Function.comp_def]
  exact .ok _

theorem finds_monolithic (ha : a.IsCovered) :
    Finds a.strictMonolithic a.monolithicObligation := by
  refine .bind (.mapM fun n hn => .find (get?_unknownRoutes hn) <|
    .bind (finds_update_unknown hn) fun next _ => .sort _) fun stable _ => ?_
  refine .bind (.mapM fun n hn => .find (ha.monolithic n hn) <|
    .find (get?_unknownRoutes hn) (.sort _)) fun claims _ => ?_
  refine .found (findAll_unknownRoutes fun _ hn => hn) <| .bind (finds_query _ _) fun _ _ => ?_
  simp only [List.map_map, Function.comp_def]
  exact .ok _

end AnnotatedNetwork

/-! ### Accepted networks -/

namespace Network

/-- Whatever is computed from the network finds what it looks up. -/
structure FindsAll (net : Network) : Prop where
  update : ∀ n ∈ net.topology.nodes, ∀ rs : List (String × Typed),
    (∀ p ∈ net.topology.predecessors n, p ∈ Entries.keys rs) →
      Finds (net.strictUpdate n rs) (net.update n rs)
  step : ∀ rs : List (String × Typed),
    (∀ n ∈ net.topology.nodes, ∀ p ∈ net.topology.predecessors n, p ∈ Entries.keys rs) →
      Finds (net.strictStep rs) (net.step rs)
  simulate : ∀ k, Finds (net.strictSimulate k) (net.simulate k)
  transfer : ∀ e ∈ net.topology.edges, Entries.get? net.transfer e = some (net.transferOf e)
  obligations : ∀ annotations modular monolithic a,
    AnnotatedNetwork.build net annotations modular monolithic = .ok a →
      (∀ n ∈ net.topology.nodes, Finds (a.strictBase n) (a.baseObligation n) ∧
        Finds (a.strictInductive n) (a.inductiveObligation n) ∧
        Finds (a.strictSafety n) (a.safetyObligation n)) ∧
      Finds a.strictMonolithic a.monolithicObligation

theorem findsAll (net : Network) : net.FindsAll where
  update _ hn _ hrs := finds_update hn hrs
  step _ hrs := finds_step hrs
  simulate := finds_simulate net
  transfer _ he := get?_transfer he
  obligations annotations modular monolithic a ha := by
    have hcovered := AnnotatedNetwork.isCovered_of_build ha
    have hnet : a.network = net := AnnotatedNetwork.network_of_build ha
    subst hnet
    exact ⟨fun n hn => ⟨AnnotatedNetwork.finds_base hcovered hn,
      AnnotatedNetwork.finds_inductive hcovered hn, AnnotatedNetwork.finds_safety hcovered hn⟩,
      AnnotatedNetwork.finds_monolithic hcovered⟩

theorem exists_of_isOk {ε α : Type} {x : Except ε α} (h : x.isOk = true) : ∃ a, x = .ok a := by
  cases x with
  | error e => cases h
  | ok a => exact ⟨a, rfl⟩

variable {topology : Topology} {sends : List (Edge × Transfer)} {merge : Merge}
  {starts : List (String × Expr)} {routes : InitialRoutes} {symbolics : List Symbolic}
  {given : Option Ty} {origination : Origination}

/-- What is checked when a network is defined. A description is refused exactly where its parts do
not fit each other, and accepted otherwise. Whatever is computed from an accepted network, with or
without failures around it, finds what it looks up. A simulation has one state per time: the first
one names the nodes in the order of the initial routes, and later ones in that of the topology. -/
theorem define_checks_all (hroutes : InitialRoutes.ofExprs starts = .ok routes)
    (hplain : routes.anyPlain = false) :
    ((∃ e, define topology sends merge starts symbolics given origination =
        .error (.definition e)) ↔
      ¬(∀ e, e ∈ sends.map Prod.fst ↔ e ∈ topology.edges) ∨
      ¬(∀ n, n ∈ starts.map Prod.fst ↔ n ∈ topology.nodes) ∨
      ¬(symbolics.map Symbolic.name).Nodup ∨
      (given = none ∧ topology.nodes = []) ∨
      ∃ ty, routeSort? topology routes given = some ty ∧
        ∃ n ∈ topology.nodes, (routes.get n).ty ≠ ty) ∧
    ((∃ e, define topology sends merge starts symbolics given origination =
        .error (.definition e)) ∨
      ∃ net, define topology sends merge starts symbolics given origination = .ok net) ∧
    ∀ base net, define topology sends merge starts symbolics given origination = .ok base →
      Wraps base net →
      net.topology = topology ∧ net.FindsAll ∧
      (∀ k states, net.simulate k = .ok states → states.map Entries.keys =
        firstOccurrences (starts.map Prod.fst) :: List.replicate k topology.nodes) ∧
      (firstOccurrences (starts.map Prod.fst)).Perm topology.nodes ∧
      (net.YieldsRoutes → ∀ k, ∃ states, net.simulate k = .ok states) ∧
      ∀ bound, (∃ e, net.withFailures bound = .error e) ↔
        bound < 0 ∨ (topology.edgeCount : Int) < bound ∨ net.routeTy.isOption = false ∨
          ∃ i : Nat, (i : Int) < bound ∧
            ∃ s ∈ net.symbolics, s.name = "failed-edge-" ++ toString i := by
  refine ⟨define_eq_error_iff hroutes hplain, ?_, fun base net hbase hwraps => ?_⟩
  · rw [define_eq hroutes hplain]
    exact or_iff_not_imp_right.2 exists_mapError_eq_error_iff.2
  · obtain ⟨hbtopology, hbinitial⟩ := define_spec hroutes hplain hbase
    obtain ⟨htopology, hinitial⟩ := hwraps.same_parts
    rw [hbtopology] at htopology
    rw [hbinitial] at hinitial
    have hkeys : Entries.keys net.initial.entries = firstOccurrences (starts.map Prod.fst) := by
      rw [hinitial, InitialRoutes.keys_ofExprs hroutes]
    rw [← hkeys, ← htopology]
    exact ⟨rfl, net.findsAll, fun k states h => keys_simulate h, net.perm_keys_initial,
      fun hnet => exists_simulate hnet, fun bound => withFailures_eq_error_iff⟩

/-- A link between two nodes whose initial routes are given in the other order. -/
def swappedLink (f : Transfer) (merge : Merge) (a b : Expr) : Except Failure Network :=
  define (link f).topology [(⟨"A", "B"⟩, f)] merge [("B", b), ("A", a)] [] none .initialOnly

/-- A failure is put around them, and they are simulated for two rounds. -/
theorem define_checks_all_swapped : ∃ base ft states,
    swappedLink (.omap (.incr 1)) .preferSome (.present (.int 0)) (.absent (.option .int)) =
        .ok base ∧
      base.withFailures 1 = .ok ft ∧ ft.FindsAll ∧ ft.simulate 2 = .ok states ∧
      states.map Entries.keys = [["B", "A"], ["A", "B"], ["A", "B"]] := by
  obtain ⟨routes, hroutes, hplain⟩ : ∃ routes, InitialRoutes.ofExprs
      [("B", .absent (.option .int)), ("A", .present (.int 0))] = .ok routes ∧
        routes.anyPlain = false := ⟨_, rfl, rfl⟩
  obtain ⟨states, hstates⟩ : ∃ states,
      (swappedLink (.omap (.incr 1)) .preferSome (.present (.int 0)) (.absent (.option .int)) >>=
        fun base => (base.withFailures 1).mapError Failure.definition >>=
          fun ft => ft.simulate 2) = .ok states := exists_of_isOk (by decide +kernel)
  obtain ⟨base, hbase, hstates⟩ := bind_eq_ok.1 hstates
  obtain ⟨ft, hft, hstates⟩ := bind_eq_ok.1 hstates
  rw [mapError_eq_ok] at hft
  obtain ⟨-, -, haccepted⟩ := define_checks_all hroutes hplain
  obtain ⟨-, hfinds, hkeys, -⟩ := haccepted base ft hbase (.failures .refl hft)
  exact ⟨base, ft, states, hbase, hft, hfinds, hstates, hkeys 2 states hstates⟩

/-- The first state of a simulation keeps the order of the initial routes, and there is no second
one where a transfer function has no result for the route of a predecessor. -/
theorem simulate_not_all_in_order :
    (swappedLink (.incr 1) .first (.int 2) (.int 1) >>= fun net => net.simulate 1).toOption.map
        (List.map Entries.keys) = some [["B", "A"], ["A", "B"]] ∧
      (swappedLink .getValue .first (.int 2) (.int 1)).isOk = true ∧
      (swappedLink .getValue .first (.int 2) (.int 1) >>= fun net => net.simulate 1).isOk =
        false := by
  refine ⟨?_, ?_, ?_⟩
  · decide +kernel
  · decide +kernel
  · decide +kernel

end Network

end RouteInvariants
