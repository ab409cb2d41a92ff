import RouteInvariants.Decision.Simplify
import RouteInvariants.Failure
import RouteInvariants.Route.Symbolic

/-!
Route-computation networks: a topology with a transfer function per edge, a merge, an initial route
per node, and the symbolic values that the definition may mention. In every round each node merges
the routes of its predecessors, each sent through the transfer function of the connecting edge.
-/

namespace RouteInvariants

/-- Whether the initial route of a node takes part in later rounds. A node without predecessors
keeps its initial route in both cases. -/
inductive Origination where
  | initialOnly | persistent
deriving DecidableEq, Inhabited

namespace Origination

def display : Origination → String
  | initialOnly => "initial-only"
  | persistent => "persistent"

def ofName (name : Datum) : Except NameError Origination :=
  match [initialOnly, persistent].find? fun o => name == .text o.display with
  | some o => .ok o
  | none => .error (.origination name)

end Origination

/-! ### Functions at terms -/

/-- The body of a function, at the term of its argument. -/
def Expr.appliedTo (body : Expr) (r : Typed) : Except SortError Typed := do
  let b ← body.elaborate [r.ty]
  .ok ⟨.call b.term r.term, b.ty⟩

/-- The body of a function of two arguments, at their terms. -/
def Expr.appliedTo₂ (body : Expr) (r s : Typed) : Except SortError Typed := do
  let b ← body.elaborate [r.ty, s.ty]
  .ok ⟨.call2 b.term r.term s.term, b.ty⟩

def Transfer.applyTo (f : Transfer) (r : Typed) : Except SortError Typed := f.body.appliedTo r

def Predicate.applyTo (p : Predicate) (r : Typed) : Except SortError Typed := p.body.appliedTo r

def Merge.applyTo (m : Merge) (a b : Typed) : Except SortError Typed := m.body.appliedTo₂ a b

def Invariant.applyTo (a : Invariant) (route time : Typed) : Except SortError Typed :=
  a.body.appliedTo₂ route time

/-! ### Keys -/

/-- The keys that are missing from a part of a definition, and those that are too many. -/
def checkKeys {κ α : Type} [DecidableEq κ] (part : Part) (key : κ → Datum) (expected : List κ)
    (given : List (κ × α)) : Except DefinitionError Unit :=
  let missing := expected.filter fun k => k ∉ Entries.keys given
  let extra := (Entries.keys given).filter fun k => k ∉ expected
  if missing.isEmpty && extra.isEmpty then .ok ()
  else .error (.keys part (missing.map key) (extra.map key))

theorem mem_keys_of_checkKeys {κ α : Type} [DecidableEq κ] {part : Part} {key : κ → Datum}
    {expected : List κ} {given : List (κ × α)}
    (h : checkKeys part key expected given = .ok ()) (k : κ) :
    k ∈ Entries.keys given ↔ k ∈ expected := by
  unfold checkKeys at h
  simp only [Bool.and_eq_true, List.isEmpty_iff, List.filter_eq_nil_iff, decide_eq_true_eq,
    Classical.not_not] at h
  split at h
  · rename_i hk
    exact ⟨hk.2 k, hk.1 k⟩
  · cases h

/-! ### Initial routes -/

/-- Terms that expressions without arguments stand for. -/
def Typed.IsDefined (x : Typed) : Prop := ∃ e : Expr, e.elaborate [] = .ok x

/-- The initial routes by node. -/
structure InitialRoutes where
  entries : List (String × Typed)
  nodup_keys : (Entries.keys entries).Nodup
  defined : ∀ r ∈ entries, r.2.IsDefined

namespace InitialRoutes

/-- The terms of named expressions, up to the first expression that has none. -/
def terms : List (String × Expr) →
    Except SortError { rs : List (String × Typed) // ∀ r ∈ rs, r.2.IsDefined }
  | [] => .ok ⟨[], by simp⟩
  | (name, e) :: rest =>
    match h : e.elaborate [] with
    | .error err => .error err
    | .ok x => do
      let rs ← terms rest
      .ok ⟨(name, x) :: rs.1, List.forall_mem_cons.2 ⟨⟨e, h⟩, rs.2⟩⟩

def ofExprs (es : List (String × Expr)) : Except SortError InitialRoutes := do
  let rs ← terms es
  .ok ⟨Entries.ofList rs.1, Entries.nodup_keys_ofList rs.1, fun r hr =>
    rs.2 r (Entries.mem_of_mem_ofList hr)⟩

variable (routes : InitialRoutes)

def get (node : String) : Typed := (Entries.get? routes.entries node).getD default

/-- Whether one of them is a plain truth value. -/
def anyPlain : Bool := routes.entries.any fun e => e.2.ty = .truth

end InitialRoutes

/-! ### Networks -/

/-- A network. `failureBounds` are the bounds on failed edges that were put around it, the innermost
first; the symbolic values of the failures are among `symbolics`. Transfer functions and initial
routes cover the topology exactly, and the initial routes are of the route sort. -/
structure Network where
  topology : Topology
  transfer : List (Edge × Transfer)
  merge : Merge
  initial : InitialRoutes
  symbolics : List Symbolic
  routeTy : Ty
  origination : Origination
  failureBounds : List Nat
  transfer_keys : ∀ e, e ∈ Entries.keys transfer ↔ e ∈ topology.edges
  initial_keys : ∀ n, n ∈ Entries.keys initial.entries ↔ n ∈ topology.nodes
  nodup_symbolics : (symbolics.map Symbolic.name).Nodup
  initial_ty : ∀ n ∈ topology.nodes, (initial.get n).ty = routeTy
  declared_routeTy : ∀ n ∈ topology.nodes, routeTy.isDeclared = true

namespace Network

/-- Names that occur more than once, in alphabetical order. -/
def repeatedNames (names : List String) : List String :=
  (names.filter fun n => 1 < names.count n).eraseDups.mergeSort fun a b => decide (a ≤ b)

theorem nodup_of_repeatedNames {names : List String} (h : repeatedNames names = []) :
    names.Nodup := by
  have hd : (names.filter fun n => 1 < names.count n).eraseDups = [] := by
    have hl := congrArg List.length h
    rw [repeatedNames, List.length_mergeSort] at hl
    exact List.length_eq_zero_iff.1 hl
  have hf : (names.filter fun n => 1 < names.count n) = [] := by
    cases hn : names.filter fun n => 1 < names.count n with
    | nil => rfl
    | cons n rest =>
      rw [hn, List.eraseDups_cons] at hd
      cases hd
  rw [List.nodup_iff_count]
  intro n
  by_cases hn : n ∈ names
  · have := List.filter_eq_nil_iff.1 hf n hn
    simpa using this
  · rw [List.count_eq_zero_of_not_mem hn]
    exact Nat.zero_le 1

/-- Whether a node's initial route is a route of the sort. -/
def hasRoute (initial : InitialRoutes) (ty : Ty) (node : String) : Bool :=
  (initial.get node).ty = ty && ty.isDeclared

/-- Checks a definition part by part. Transfer functions and initial routes have to cover the
topology exactly, symbolic values have different names, and initial routes are of one sort. -/
def build (topology : Topology) (transfer : List (Edge × Transfer)) (merge : Merge)
    (initial : InitialRoutes) (symbolics : List Symbolic) (routeTy : Option Ty)
    (origination : Origination) (failureBounds : List Nat) : Except DefinitionError Network :=
  match ht : checkKeys .transferFunctions Edge.toDatum topology.edges transfer,
    hi : checkKeys .initialValues Datum.text topology.nodes initial.entries,
    hs : repeatedNames (symbolics.map Symbolic.name) with
  | .error e, _, _ => .error e
  | .ok (), .error e, _ => .error e
  | .ok (), .ok (), n :: ns => .error (.repeatedSymbolics (n :: ns))
  | .ok (), .ok (), [] => do
    let ty ← match routeTy, topology.nodes with
      | some t, _ => pure t
      | none, n :: _ => pure (initial.get n).ty
      | none, [] => throw .emptyNetwork
    match h : topology.nodes.filter fun n => !hasRoute initial ty n with
    | [] => .ok {
        topology, transfer, merge, initial, symbolics, origination, failureBounds
        routeTy := ty
        transfer_keys := mem_keys_of_checkKeys ht
        initial_keys := mem_keys_of_checkKeys hi
        nodup_symbolics := nodup_of_repeatedNames hs
        initial_ty := fun n hn => by
          have := List.filter_eq_nil_iff.1 h n hn
          simp only [hasRoute, Bool.not_eq_true, Bool.not_eq_false', Bool.and_eq_true,
            decide_eq_true_eq] at this
          exact this.1
        declared_routeTy := fun n hn => by
          have := List.filter_eq_nil_iff.1 h n hn
          simp only [hasRoute, Bool.not_eq_true, Bool.not_eq_false', Bool.and_eq_true,
            decide_eq_true_eq] at this
          exact this.2 }
    | mismatched => .error (.initialSorts ty mismatched)

/-- A network from its description. A plain truth value is no route. -/
def define (topology : Topology) (transfer : List (Edge × Transfer)) (merge : Merge)
    (initial : List (String × Expr)) (symbolics : List Symbolic) (routeTy : Option Ty)
    (origination : Origination) : Except Failure Network := do
  let routes ← (InitialRoutes.ofExprs initial).mapError Failure.sort
  match build topology (Entries.ofList transfer) merge routes symbolics routeTy origination [] with
  | .error (.initialSorts ty nodes) =>
    throw (if routes.anyPlain then .sort .noMember else .definition (.initialSorts ty nodes))
  | .error e => throw (.definition e)
  | .ok net => return net

variable (net : Network)

def initialOf (node : String) : Typed := net.initial.get node

def transferOf (e : Edge) : Transfer := (Entries.get? net.transfer e).getD default

/-- The restrictions of all symbolic values. -/
def constraints : Except SortError Typed := (Symbolic.constraints net.symbolics).elaborate []

/-- The unknown route of a node. -/
def unknownRoute (suffix node : String) : Typed :=
  let x := Variable.route (node ++ "-" ++ suffix) net.routeTy
  ⟨.var x, x.ty⟩

/-- An unknown route for every node. -/
def unknownRoutes (suffix : String) : List (String × Typed) :=
  net.topology.mapNodes (net.unknownRoute suffix)

/-- The route that a predecessor sends to a node. -/
def incoming (routes : List (String × Typed)) (node pred : String) : Except Failure Typed :=
  match Entries.get? routes pred with
  | none => .error (.missingRoute pred)
  | some r => ((net.transferOf ⟨pred, node⟩).applyTo r).mapError Failure.sort

/-- Merges routes from the left, starting with `r`. -/
def mergeAll (r : Typed) (rs : List Typed) : Except SortError Typed :=
  rs.foldlM (fun a b => net.merge.applyTo a b) r

/-- The routes that a node chooses from: the ones received, after its own where that persists. -/
def offered (node : String) (received : List Typed) : List Typed :=
  match net.origination with
  | .persistent => net.initialOf node :: received
  | .initialOnly => received

/-- The merge of the routes offered to a node. -/
def mergeOffered (node : String) : List Typed → Except SortError Typed
  | [] => .ok (net.initialOf node)
  | r :: rs => net.mergeAll r rs

/-- The next route of a node, from the routes of (at least) its predecessors. -/
def update (node : String) (routes : List (String × Typed)) : Except Failure Typed := do
  let preds ← (net.topology.neighbors node).mapError Failure.topology
  if preds.isEmpty then .ok (net.initialOf node)
  else do
    let received ← preds.mapM (net.incoming routes node)
    (net.mergeOffered node (net.offered node received)).mapError Failure.sort

/-- The entry of a node in the next round; a plain truth value is no route. -/
def nextEntry (routes : List (String × Typed)) (node : String) :
    Except Failure (String × Typed) := do
  let r ← net.update node routes
  if r.ty = .truth then .error (.sort .mismatch) else .ok (node, ⟨r.term.simplify, r.ty⟩)

/-- One synchronous round. -/
def step (routes : List (String × Typed)) : Except Failure (List (String × Typed)) :=
  net.topology.nodes.mapM (net.nextEntry routes)

/-- The routes of the next rounds. -/
def roundsFrom (routes : List (String × Typed)) :
    Nat → Except Failure (List (List (String × Typed)))
  | 0 => .ok []
  | k + 1 => do
    let next ← net.step routes
    return next :: (← roundsFrom next k)

/-- The routes at times `0, …, rounds`. -/
def simulate (rounds : Nat) : Except Failure (List (List (String × Typed))) := do
  return net.initial.entries :: (← net.roundsFrom net.initial.entries rounds)

def describe : String :=
  let count := net.symbolics.length - net.failureBounds.foldl (· + ·) 0
  let plain := "Network(nodes=" ++ toString net.topology.nodeCount ++ ", edges="
    ++ toString net.topology.edgeCount ++ ", route_sort=" ++ net.routeTy.display
    ++ ", symbolics=" ++ toString count ++ ")"
  net.failureBounds.foldl (fun inner k =>
    "FaultTolerantNetwork(" ++ inner ++ ", max_failures=" ++ toString k ++ ")") plain

end Network

end RouteInvariants
