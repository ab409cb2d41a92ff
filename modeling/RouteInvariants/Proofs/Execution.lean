import RouteInvariants.Proofs.Interpreter

/-!
Networks that run on values. The interpreter sends a route along an edge and merges two routes, and a
network is run round by round (`Network.execute`), without terms and without simplification. The
simulation is exact: what its routes stand for under an assignment are the routes that the network
runs through after the assignment has been put in place of all symbolic values
(`simulate_eq_execute`).
-/

namespace RouteInvariants

def Transfer.compute (σ : Assignment) (f : Transfer) (a : SortedValue) :
    Except SortError SortedValue :=
  f.body.compute σ [a]

def Merge.compute (σ : Assignment) (m : Merge) (a b : SortedValue) : Except SortError SortedValue :=
  m.body.compute σ [a, b]

/-- What a map of terms stands for. -/
def valuesAt (σ : Assignment) (rs : List (String × Typed)) : List (String × SortedValue) :=
  rs.map fun r => (r.1, r.2.valueAt σ [])

namespace Network

/-! ### Rounds on values -/

section Execution

variable (net : Network) (σ : Assignment)

def initialValue (node : String) : SortedValue := (net.initialOf node).valueAt σ []

/-- The route that a predecessor sends to a node. -/
def receive (routes : List (String × SortedValue)) (node pred : String) :
    Except Failure SortedValue :=
  match Entries.get? routes pred with
  | none => .error (.missingRoute pred)
  | some a => ((net.transferOf ⟨pred, node⟩).compute σ a).mapError Failure.sort

/-- The merge of the routes that a node has received, and of its own one where that persists. -/
def select (node : String) (received : List SortedValue) : Except SortError SortedValue :=
  match net.origination, received with
  | .persistent, as => as.foldlM (net.merge.compute σ) (net.initialValue σ node)
  | .initialOnly, a :: as => as.foldlM (net.merge.compute σ) a
  | .initialOnly, [] => .ok (net.initialValue σ node)

/-- The next route of a node. A node without predecessors keeps its initial one. -/
def nextValue (node : String) (routes : List (String × SortedValue)) :
    Except Failure SortedValue := do
  match ← (net.topology.neighbors node).mapError Failure.topology with
  | [] => .ok (net.initialValue σ node)
  | preds => (net.select σ node (← preds.mapM (net.receive σ routes node))).mapError Failure.sort

/-- The entry of a node in the next round; a plain truth value is no route. -/
def executeEntry (routes : List (String × SortedValue)) (node : String) :
    Except Failure (String × SortedValue) := do
  let a ← net.nextValue σ node routes
  if a.ty = .truth then .error (.sort .mismatch) else .ok (node, a)

/-- The routes after some rounds. -/
def execute : Nat → Except Failure (List (String × SortedValue))
  | 0 => .ok (valuesAt σ net.initial.entries)
  | t + 1 => do
    let routes ← execute t
    net.topology.nodes.mapM (net.executeEntry σ routes)

end Execution

end Network

/-! ### Terms and their values -/

theorem Expr.valueAt_appliedTo (σ : Assignment) (body : Expr) (r : Typed) :
    Typed.valueAt σ [] <$> body.appliedTo r = body.compute σ [r.valueAt σ []] := by
  rw [Expr.compute_eq, appliedTo, map_bind, ← bind_pure_comp]
  rfl

theorem Expr.valueAt_appliedTo₂ (σ : Assignment) (body : Expr) (r s : Typed) :
    Typed.valueAt σ [] <$> body.appliedTo₂ r s =
      body.compute σ [r.valueAt σ [], s.valueAt σ []] := by
  rw [Expr.compute_eq, appliedTo₂, map_bind, ← bind_pure_comp]
  rfl

namespace Network

variable {σ : Assignment} {net : Network} {node : String} {rs : List (String × Typed)}

theorem valueAt_incoming (p : String) :
    Typed.valueAt σ [] <$> net.incoming rs node p = net.receive σ (valuesAt σ rs) node p := by
  rw [incoming, receive, valuesAt, Entries.get?_mapValues]
  cases Entries.get? rs p with
  | none => rfl
  | some r =>
    simp only [Option.map_some, Transfer.compute, ← Expr.valueAt_appliedTo, Transfer.applyTo]
    cases (net.transferOf ⟨p, node⟩).body.appliedTo r <;> rfl

theorem valueAt_mergeAll (r : Typed) (xs : List Typed) :
    Typed.valueAt σ [] <$> net.mergeAll r xs =
      (xs.map (Typed.valueAt σ [])).foldlM (net.merge.compute σ) (r.valueAt σ []) := by
  induction xs generalizing r with
  | nil => rfl
  | cons x xs ih =>
    rw [mergeAll, List.foldlM_cons, map_bind, List.map_cons, List.foldlM_cons, Merge.compute,
      ← Expr.valueAt_appliedTo₂, bind_map_left]
    exact bind_congr fun y => ih y

theorem valueAt_mergeOffered (xs : List Typed) :
    Typed.valueAt σ [] <$> net.mergeOffered node (net.offered node xs) =
      net.select σ node (xs.map (Typed.valueAt σ [])) := by
  unfold offered select
  cases net.origination with
  | persistent => exact valueAt_mergeAll _ xs
  | initialOnly =>
    cases xs with
    | nil => rfl
    | cons x xs => exact valueAt_mergeAll x xs

/-- The update of a node stands for its next route. -/
theorem valueAt_update :
    Typed.valueAt σ [] <$> net.update node rs = net.nextValue σ node (valuesAt σ rs) := by
  unfold update nextValue
  rw [map_bind]
  refine bind_congr fun ps => ?_
  cases ps with
  | nil => rfl
  | cons p ps =>
    have hreceived : (p :: ps).mapM (net.receive σ (valuesAt σ rs) node) =
        List.map (Typed.valueAt σ []) <$> (p :: ps).mapM (net.incoming rs node) := by
      rw [map_mapM]
      exact mapM_congr fun q _ => (valueAt_incoming q).symm
    rw [if_neg (by simp), map_bind]
    dsimp only
    rw [hreceived, bind_map_left]
    refine bind_congr fun xs => ?_
    rw [← valueAt_mergeOffered]
    cases net.mergeOffered node (net.offered node xs) <;> rfl

/-- Every node has a route, which is a closed term. -/
def AllClosed (net : Network) (rs : List (String × Typed)) : Prop :=
  ∀ n ∈ net.topology.nodes, ∃ r, Entries.get? rs n = some r ∧ r.IsClosed

theorem allClosed_initial : net.AllClosed net.initial.entries := fun _ hn =>
  ⟨_, get?_initial hn, isClosed_initialOf hn⟩

theorem isClosed_update
    (h : ∀ p ∈ net.topology.predecessors node, ∃ r, Entries.get? rs p = some r ∧ r.IsClosed)
    {u : Typed} (hu : net.update node rs = .ok u) : u.IsClosed := by
  -- updates at matching routes match, and these routes match themselves under any assignment
  obtain ⟨σ, -⟩ := Assignment.exists_wellSorted
  obtain ⟨w, -, huw⟩ := update_matches (.refl _ σ) (fun p hp => by
    obtain ⟨r, hr, hclosed⟩ := h p hp
    exact ⟨r, r, hr, hr, hclosed.matches_self σ⟩) hu
  exact huw.left

theorem AllClosed.update (h : net.AllClosed rs) {u : Typed} (hu : net.update node rs = .ok u) :
    u.IsClosed :=
  isClosed_update (fun p hp => h p (Topology.mem_nodes_of_mem_predecessors hp)) hu

theorem AllClosed.step (h : net.AllClosed rs) {next : List (String × Typed)}
    (hnext : net.step rs = .ok next) : net.AllClosed next := by
  intro n hn
  obtain ⟨u, hu, -, hget⟩ := (isRound_of_step hnext).route n hn
  exact ⟨_, hget, Term.simplify_hasTy (h.update hu)⟩

/-- A round of the simulation stands for a round on values. -/
theorem valuesAt_step (hσ : σ.WellSorted) (h : net.AllClosed rs) :
    valuesAt σ <$> net.step rs =
      net.topology.nodes.mapM (net.executeEntry σ (valuesAt σ rs)) := by
  refine (map_mapM _ (net.nextEntry rs) net.topology.nodes).trans (mapM_congr fun n _ => ?_)
  rw [nextEntry, executeEntry, ← valueAt_update, map_bind, bind_map_left]
  cases hu : net.update n rs with
  | error e => rfl
  | ok u =>
    -- the next round holds the simplified term
    have hsimplify : u.term.simplify.eval σ [] = u.term.eval σ [] :=
      Term.eval_simplify hσ (h.update hu)
    by_cases hty : u.ty = .truth
    · have hvalue : (u.valueAt σ []).ty = .truth := hty
      simp only [bind, Except.bind, if_pos hty, if_pos hvalue]
      rfl
    · have hvalue : (u.valueAt σ []).ty ≠ .truth := hty
      simp only [bind, Except.bind, if_neg hty, if_neg hvalue, map_ok]
      rw [Typed.valueAt, hsimplify, Typed.valueAt]

/-- Rounds are simulated one from the other, and each of them stands for a run from the start. -/
theorem valuesAt_roundsFrom (hσ : σ.WellSorted) (t k : Nat) (h : net.AllClosed rs)
    (ht : net.execute σ t = .ok (valuesAt σ rs)) :
    List.map (valuesAt σ) <$> net.roundsFrom rs k = (List.range' (t + 1) k).mapM (net.execute σ) := by
  induction k generalizing t rs with
  | zero => rfl
  | succ k ih =>
    have hnext : net.execute σ (t + 1) = valuesAt σ <$> net.step rs := by
      rw [execute, ht, valuesAt_step hσ h]
      rfl
    rw [roundsFrom, List.range'_succ, List.mapM_cons, hnext, map_bind]
    cases hstep : net.step rs with
    | error e => rfl
    | ok next =>
      rw [hstep] at hnext
      have hrest := ih (t + 1) (h.step hstep) hnext
      rw [← hrest]
      change List.map (valuesAt σ) <$> (net.roundsFrom next k >>= fun rest => pure (next :: rest)) = _
      cases net.roundsFrom next k <;> rfl

theorem valuesAt_simulate (hσ : σ.WellSorted) (rounds : Nat) :
    List.map (valuesAt σ) <$> net.simulate rounds =
      (List.range (rounds + 1)).mapM (net.execute σ) := by
  have hclosed : net.AllClosed net.initial.entries := allClosed_initial
  have hrest := valuesAt_roundsFrom hσ 0 rounds hclosed rfl
  rw [simulate, List.range_eq_range', List.range'_succ, List.mapM_cons, map_bind, ← hrest]
  cases net.roundsFrom net.initial.entries rounds <;> rfl

end Network

/-! ### Values in place of symbolic ones -/

namespace Assignment

/-- The values that the assignment gives to variables of declared sorts, where they fit. -/
def substitution (σ : Assignment) : Substitution := fun x =>
  if x.ty.isDeclared && (σ.value x).fits x.ty then some (σ.value x) else none

theorem isSorted_substitution (σ : Assignment) : σ.substitution.IsSorted := by
  intro x v hv
  obtain ⟨hx, hxv⟩ := Option.ite_none_right_eq_some.1 hv
  exact Option.some.inj hxv ▸ (Bool.and_eq_true_iff.1 hx).2

theorem WellSorted.substitution_of_isDeclared {σ : Assignment} (hσ : σ.WellSorted) {x : Variable}
    (hx : x.ty.isDeclared = true) : σ.substitution x = some (σ.value x) := by
  rw [substitution, hx, hσ.value x hx]
  rfl

theorem substitution_of_not_isDeclared (σ : Assignment) {x : Variable}
    (hx : x.ty.isDeclared = false) : σ.substitution x = none := by
  rw [substitution, hx]
  rfl

end Assignment

namespace Expr

mutual

/-- With values in place of the symbolic ones, the assignment of the latter does not matter. -/
theorem compute_substitute {σ τ : Assignment} (hσ : σ.WellSorted) (hτ : τ.absent = σ.absent) :
    ∀ (args : List SortedValue) (e : Expr),
      (e.substitute σ.substitution).compute τ args = e.compute σ args
  | args, .symbolic name t => by
    cases ht : t.isDeclared with
    | true =>
      have hfits := hσ.value (.symbolic name t) ht
      have hsome := hσ.substitution_of_isDeclared (x := .symbolic name t) ht
      simp only [Variable.ty] at hfits
      simp only [substitute, hsome, compute, ht, hfits, Bool.and_true]
    | false =>
      -- the variable stays, and has no value before and after
      have hnone := σ.substitution_of_not_isDeclared (x := .symbolic name t) ht
      simp only [substitute, hnone, compute, ht]
      rfl
  | args, .const v t | args, .lift d hint | args, .arg i | args, .undefined e => rfl
  | args, .liftLike d like => by
    simp only [substitute, compute, compute_substitute hσ hτ args like]
  | args, .call body a => by
    simp only [substitute, compute, compute_substitute hσ hτ args a,
      fun x => compute_substitute hσ hτ [x] body]
  | args, .call2 body a b => by
    simp only [substitute, compute, compute_substitute hσ hτ args a,
      compute_substitute hσ hτ args b, fun x y => compute_substitute hσ hτ [x, y] body]
  | args, .present e => by
    simp only [substitute, compute, compute_substitute hσ hτ args e]
  | args, .make t i es => by
    simp only [substitute, compute, computeAll_substitute hσ hτ args es]
  | args, .makeLike like i es => by
    simp only [substitute, compute, compute_substitute hσ hτ args like,
      computeAll_substitute hσ hτ args es]
  | args, .isCon i e => by
    simp only [substitute, compute, compute_substitute hσ hτ args e]
  | args, .field i j e => by
    simp only [substitute, compute, compute_substitute hσ hτ args e, hτ]
  | args, .ite c a b => by
    simp only [substitute, compute, compute_substitute hσ hτ args c,
      compute_substitute hσ hτ args a, compute_substitute hσ hτ args b]
  | args, .add a b | args, .sub a b | args, .compare op a b | args, .and a b | args, .or a b
  | args, .xor a b | args, .implies a b => by
    simp only [substitute, compute, compute_substitute hσ hτ args a,
      compute_substitute hσ hτ args b]
  | args, .addInt a k | args, .compareWith op a d | args, .not a | args, .boolean a
  | args, .asTerm a => by
    simp only [substitute, compute, compute_substitute hσ hτ args a]

theorem computeAll_substitute {σ τ : Assignment} (hσ : σ.WellSorted) (hτ : τ.absent = σ.absent) :
    ∀ (args : List SortedValue) (es : List Expr),
      computeAll τ args (substituteAll σ.substitution es) = computeAll σ args es
  | _, [] => rfl
  | args, e :: es => by
    simp only [substituteAll, computeAll, compute_substitute hσ hτ args e,
      computeAll_substitute hσ hτ args es]

end

end Expr

def Transfer.substitute (θ : Substitution) (f : Transfer) : Transfer := ⟨f.body.substitute θ⟩

def Merge.substitute (θ : Substitution) (m : Merge) : Merge := ⟨m.body.substitute θ⟩

/-- The initial routes with values in place of variables. -/
def InitialRoutes.substitute (θ : Substitution) (hθ : θ.IsSorted) (routes : InitialRoutes) :
    InitialRoutes where
  entries := routes.entries.map fun r => (r.1, r.2.substitute θ)
  nodup_keys := by
    rw [Entries.keys_mapValues]
    exact routes.nodup_keys
  defined := by
    intro r hr
    obtain ⟨r', hr', rfl⟩ := List.mem_map.1 hr
    obtain ⟨e, he⟩ := routes.defined r' hr'
    exact ⟨e.substitute θ, by rw [Expr.elaborate_substitute hθ, he, map_ok]⟩

theorem InitialRoutes.get_substitute (θ : Substitution) (hθ : θ.IsSorted) (routes : InitialRoutes)
    (node : String) : (routes.substitute θ hθ).get node = (routes.get node).substitute θ := by
  rw [get, get, substitute, Entries.get?_mapValues]
  cases Entries.get? routes.entries node <;> rfl

namespace Network

/-- The network with the values that an assignment gives in place of all symbolic ones. -/
def instantiate (net : Network) (σ : Assignment) : Network where
  topology := net.topology
  transfer := net.transfer.map fun e => (e.1, e.2.substitute σ.substitution)
  merge := net.merge.substitute σ.substitution
  initial := net.initial.substitute σ.substitution σ.isSorted_substitution
  symbolics := []
  routeTy := net.routeTy
  origination := net.origination
  failureBounds := []
  transfer_keys := by
    rw [Entries.keys_mapValues]
    exact net.transfer_keys
  initial_keys := by
    rw [InitialRoutes.substitute, Entries.keys_mapValues]
    exact net.initial_keys
  nodup_symbolics := List.nodup_nil
  initial_ty n hn := by
    rw [InitialRoutes.get_substitute]
    exact net.initial_ty n hn
  declared_routeTy := net.declared_routeTy

section Instantiate

variable {net : Network} {σ τ : Assignment} (hσ : σ.WellSorted) (hτ : τ.absent = σ.absent)
include hσ hτ

/-- The term of an expression without arguments has its value after the substitution. -/
theorem valueAt_substitute {x : Typed} (hx : x.IsDefined) :
    (x.substitute σ.substitution).valueAt τ [] = x.valueAt σ [] := by
  obtain ⟨e, he⟩ := hx
  have hcompute := Expr.compute_substitute hσ hτ [] e
  rw [Expr.compute_eq, Expr.compute_eq, List.map_nil, List.map_nil,
    Expr.elaborate_substitute σ.isSorted_substitution, he] at hcompute
  exact Except.ok.inj hcompute

theorem initialValue_instantiate (node : String) :
    (net.instantiate σ).initialValue τ node = net.initialValue σ node := by
  rw [initialValue, initialValue, initialOf, initialOf, instantiate, InitialRoutes.get_substitute,
    InitialRoutes.get]
  cases h : Entries.get? net.initial.entries node with
  | none => rfl
  | some x => exact valueAt_substitute hσ hτ (net.initial.defined _ (Entries.mem_of_get? h))

theorem receive_instantiate (routes : List (String × SortedValue)) (node : String) :
    (net.instantiate σ).receive τ routes node = net.receive σ routes node := by
  funext p
  have htransfer : (net.instantiate σ).transferOf ⟨p, node⟩ =
      (net.transferOf ⟨p, node⟩).substitute σ.substitution := by
    rw [transferOf, transferOf, instantiate, Entries.get?_mapValues]
    cases Entries.get? net.transfer ⟨p, node⟩ <;> rfl
  simp only [receive, htransfer, Transfer.compute, Transfer.substitute,
    Expr.compute_substitute hσ hτ]

theorem select_instantiate (node : String) :
    (net.instantiate σ).select τ node = net.select σ node := by
  funext received
  have hmerge : (net.instantiate σ).merge.compute τ = net.merge.compute σ := by
    funext a b
    exact Expr.compute_substitute hσ hτ [a, b] net.merge.body
  simp only [select, hmerge, initialValue_instantiate hσ hτ]
  rfl

/-- A network in which all values are in place runs as the original one does under them. -/
theorem execute_instantiate (t : Nat) : (net.instantiate σ).execute τ t = net.execute σ t := by
  induction t with
  | zero =>
    have hentries : valuesAt τ (net.instantiate σ).initial.entries =
        valuesAt σ net.initial.entries := by
      have hentries : (net.instantiate σ).initial.entries =
          net.initial.entries.map fun r => (r.1, r.2.substitute σ.substitution) := rfl
      rw [hentries, valuesAt, List.map_map]
      exact List.map_congr_left fun r hr =>
        congrArg (Prod.mk r.1) (valueAt_substitute hσ hτ (net.initial.defined r hr))
    rw [execute, execute, hentries]
  | succ t ih =>
    have hentry (routes : List (String × SortedValue)) :
        (net.instantiate σ).executeEntry τ routes = net.executeEntry σ routes := by
      funext n
      simp only [executeEntry, nextValue, receive_instantiate hσ hτ, select_instantiate hσ hτ,
        initialValue_instantiate hσ hτ]
      rfl
    rw [execute, execute, ih]
    exact bind_congr fun routes => by rw [hentry routes]; rfl

end Instantiate

/-- The simulation is exact. For every assignment of the symbolic values, the routes of the simulation
stand for the routes that the network runs through round by round on values, with the assignment put
in place of the symbolic values first: at every node and every time they have the same sort and the
same value, and where one of the two ends with an error the other one ends with the same. -/
theorem simulate_eq_execute (net : Network) (σ τ : Assignment) (hσ : σ.WellSorted)
    (hτ : τ.absent = σ.absent) (rounds : Nat) :
    List.map (valuesAt σ) <$> net.simulate rounds =
      (List.range (rounds + 1)).mapM ((net.instantiate σ).execute τ) := by
  rw [valuesAt_simulate hσ]
  exact mapM_congr fun t _ => (execute_instantiate hσ hτ t).symm

/-- A node that starts with a symbolic route and increments what it holds, if there is something. -/
def symbolicCounter : Network :=
  .selfLoop (.omap (.incr 1)) ⟨.var (.symbolic "x" (.option .int)), .option .int⟩
    ⟨.symbolic "x" (.option .int), rfl⟩ rfl

/-- From five it goes on to six and seven. -/
theorem simulate_eq_execute_symbolicCounter : ∃ σ : Assignment, σ.WellSorted ∧
    σ.value (.symbolic "x" (.option .int)) = .app (.con 1) (.int 5) ∧
    List.map (valuesAt σ) <$> symbolicCounter.simulate 2 = .ok ([5, 6, 7].map fun k =>
      [("A", ⟨.app (.con 1) (.int k), .option .int⟩)]) := by
  obtain ⟨σ, hσ⟩ := Assignment.exists_wellSorted
  let θ := Substitution.single (.symbolic "x" (.option .int)) (.app (.con 1) (.int 5))
  have hθ : θ.IsSorted := Substitution.isSorted_single (by decide)
  refine ⟨σ.override θ, hσ.override hθ, by rfl, ?_⟩
  rw [simulate_eq_execute symbolicCounter (σ.override θ) (σ.override θ) (hσ.override hθ) rfl 2]
  rfl

end Network

end RouteInvariants
