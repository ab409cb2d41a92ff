import Mathlib.Data.List.Perm.Basic
import RouteInvariants.Proofs.Correspondence
import RouteInvariants.Proofs.Execution

/-!
The order of predecessors. A node merges the routes of its predecessors one after another. Where the
merge is commutative and associative on all values that come about on the way (`Occurs`), the result
is the same in every order (`select_perm`), and two networks that differ only in the order of
predecessors have the same updates, the same simulations and the same verdicts
(`predecessor_order_is_irrelevant`). The values that come about are those of the route sort only where
the transfers and the merge stay in that sort (`occurs_iff_isRoute`), and laws on the route sort alone
are not enough (`update_rivals`).
-/

namespace RouteInvariants

open Typed (Matches)

/-- A loop over the same elements in another order has the same results, in another order. -/
theorem mapM_perm {ε α β : Type} {f : α → Except ε β} {as as' : List α} {bs : List β}
    (hperm : as.Perm as') (h : as.mapM f = .ok bs) :
    ∃ bs', as'.mapM f = .ok bs' ∧ bs.Perm bs' := by
  obtain ⟨bs', hbs', hperm'⟩ := List.perm_comp_forall₂ hperm.symm (mapM_eq_ok.1 h)
  exact ⟨bs', mapM_eq_ok.2 hbs', hperm'.symm⟩

/-- A merge is commutative and associative on some values: of two ways to merge them both have the
same result, or none has one. -/
structure Merge.IsOrderFreeOn (σ : Assignment) (m : Merge) (P : SortedValue → Prop) : Prop where
  comm : ∀ {a b}, P a → P b → (m.compute σ a b).toOption = (m.compute σ b a).toOption
  assoc : ∀ {a b c}, P a → P b → P c →
    (m.compute σ a b >>= (m.compute σ · c)).toOption = (m.compute σ b c >>= m.compute σ a).toOption

namespace Merge.IsOrderFreeOn

variable {σ : Assignment} {m : Merge} {P : SortedValue → Prop} {a b c d e : SortedValue}

theorem compute_comm (h : m.IsOrderFreeOn σ P) (ha : P a) (hb : P b)
    (hab : m.compute σ a b = .ok c) : m.compute σ b a = .ok c :=
  (toOption_eq_toOption_iff.1 (h.comm ha hb) c).1 hab

/-- Of two routes that are merged into a third one after the other, either may come first. -/
theorem compute_right_comm (h : m.IsOrderFreeOn σ P) (ha : P a) (hb : P b) (hc : P c)
    (hab : m.compute σ a b = .ok d) (hdc : m.compute σ d c = .ok e) :
    ∃ d', m.compute σ a c = .ok d' ∧ m.compute σ d' b = .ok e := by
  have hbc : m.compute σ b c >>= m.compute σ a = .ok e :=
    (toOption_eq_toOption_iff.1 (h.assoc ha hb hc) e).1 (bind_eq_ok.2 ⟨d, hab, hdc⟩)
  obtain ⟨f, hf, haf⟩ := bind_eq_ok.1 hbc
  exact bind_eq_ok.1 ((toOption_eq_toOption_iff.1 (h.assoc ha hc hb) e).2
    (bind_eq_ok.2 ⟨f, h.compute_comm hb hc hf, haf⟩))

theorem foldlM_perm (h : m.IsOrderFreeOn σ P)
    (hclosed : ∀ {a b c}, P a → P b → m.compute σ a b = .ok c → P c) {as bs : List SortedValue}
    (hperm : as.Perm bs) (hinit : P a) (has : ∀ x ∈ as, P x)
    (hfold : as.foldlM (m.compute σ) a = .ok e) : bs.foldlM (m.compute σ) a = .ok e := by
  induction hperm generalizing a with
  | nil => exact hfold
  | cons x _ ih =>
    rw [List.forall_mem_cons] at has
    obtain ⟨d, hd, hfold⟩ := bind_eq_ok.1 hfold
    exact bind_eq_ok.2 ⟨d, hd, ih (hclosed hinit has.1 hd) has.2 hfold⟩
  | swap x y l =>
    simp only [List.forall_mem_cons] at has
    obtain ⟨d, hd, hfold⟩ := bind_eq_ok.1 hfold
    obtain ⟨f, hf, hfold⟩ := bind_eq_ok.1 hfold
    obtain ⟨d', hd', hf'⟩ := h.compute_right_comm hinit has.1 has.2.1 hd hf
    exact bind_eq_ok.2 ⟨d', hd', bind_eq_ok.2 ⟨f, hf', hfold⟩⟩
  | trans hperm _ ih ih' =>
    exact ih' hinit (fun x hx => has x (hperm.mem_iff.2 hx)) (ih hinit has hfold)

end Merge.IsOrderFreeOn

namespace Network

/-! ### Values that come about -/

/-- A value of the route sort. -/
def IsRoute (net : Network) (a : SortedValue) : Prop :=
  a.ty = net.routeTy ∧ a.value.fits net.routeTy = true

/-- The values that transfers and merges make of routes, which may be of other sorts. -/
inductive Occurs (net : Network) (σ : Assignment) : SortedValue → Prop
  | route {a} (h : net.IsRoute a) : Occurs net σ a
  | sent {p n a b} (hp : p ∈ net.topology.predecessors n) (ha : Occurs net σ a)
      (h : (net.transferOf ⟨p, n⟩).compute σ a = .ok b) : Occurs net σ b
  | merged {a b c} (ha : Occurs net σ a) (hb : Occurs net σ b)
      (h : net.merge.compute σ a b = .ok c) : Occurs net σ c

/-- Transfers and merges of values of the route sort are of that sort. -/
structure StaysInSort (net : Network) (σ : Assignment) : Prop where
  transfer : ∀ {p n a b}, p ∈ net.topology.predecessors n → net.IsRoute a →
    (net.transferOf ⟨p, n⟩).compute σ a = .ok b → b.ty = net.routeTy
  merge : ∀ {a b c}, net.IsRoute a → net.IsRoute b → net.merge.compute σ a b = .ok c →
    c.ty = net.routeTy

variable {net net' : Network} {σ : Assignment} {n : String}

theorem IsRoute.eq_mk {a : SortedValue} (ha : net.IsRoute a) : a = ⟨a.value, net.routeTy⟩ :=
  congrArg (SortedValue.mk a.value) ha.1

theorem isRoute_initialValue (hσ : σ.WellSorted) (hn : n ∈ net.topology.nodes) :
    net.IsRoute (net.initialValue σ n) := by
  have hty : (net.initialOf n).ty = net.routeTy := net.initial_ty n hn
  exact ⟨hty, hty ▸ (isClosed_initialOf hn).eval_fits (hty ▸ net.declared_routeTy n hn) hσ⟩

/-- What stands for a closed term of the route sort is a route. -/
theorem isRoute_valueAt {x : Typed} (hσ : σ.WellSorted) (hd : net.routeTy.isDeclared = true)
    (hx : x.IsClosed) (hty : (x.valueAt σ []).ty = net.routeTy) : net.IsRoute (x.valueAt σ []) := by
  have hty' : x.ty = net.routeTy := hty
  exact ⟨hty, hty' ▸ hx.eval_fits (hty' ▸ hd) hσ⟩

/-- In a network that stays in the route sort, nothing but routes comes about. -/
theorem occurs_iff_isRoute (hσ : σ.WellSorted) (hnodes : net.topology.nodes ≠ [])
    (hstays : net.StaysInSort σ) {a : SortedValue} : net.Occurs σ a ↔ net.IsRoute a := by
  obtain ⟨n, hn⟩ := List.exists_mem_of_ne_nil _ hnodes
  have hd := net.declared_routeTy n hn
  have hclosed {a} (ha : net.IsRoute a) : (Typed.mk (.const a.value) a.ty).IsClosed :=
    Typed.isClosed_const (ha.1 ▸ hd) (ha.1 ▸ ha.2)
  refine ⟨fun h => ?_, .route⟩
  induction h with
  | route h => exact h
  | @sent p n a b hp _ h ih =>
    have hty := hstays.transfer hp ih h
    obtain ⟨u, hu, rfl⟩ := map_eq_ok.1
      ((Expr.valueAt_appliedTo σ _ ⟨.const a.value, a.ty⟩).trans h)
    exact isRoute_valueAt hσ hd (Expr.isClosed_of_appliedTo (hclosed ih) hu) hty
  | @merged a b c _ _ h iha ihb =>
    have hty := hstays.merge iha ihb h
    obtain ⟨u, hu, rfl⟩ := map_eq_ok.1
      ((Expr.valueAt_appliedTo₂ σ _ ⟨.const a.value, a.ty⟩ ⟨.const b.value, b.ty⟩).trans h)
    exact isRoute_valueAt hσ hd (Expr.isClosed_of_appliedTo₂ (hclosed iha) (hclosed ihb) hu) hty

theorem nextValue_eq_ok_iff {routes : List (String × SortedValue)} {a : SortedValue} :
    net.nextValue σ n routes = .ok a ↔ n ∈ net.topology.nodes ∧
      (net.topology.predecessors n = [] ∧ a = net.initialValue σ n ∨
        net.topology.predecessors n ≠ [] ∧
          ∃ as, (net.topology.predecessors n).mapM (net.receive σ routes n) = .ok as ∧
            net.select σ n as = .ok a) := by
  unfold nextValue
  rw [bind_eq_ok]
  constructor
  · rintro ⟨ps, hps, h⟩
    obtain ⟨hn, rfl⟩ := Topology.neighbors_eq_ok_iff.1 (mapError_eq_ok.1 hps)
    refine ⟨hn, ?_⟩
    split at h
    · rename_i hempty
      exact .inl ⟨hempty, (Except.ok.inj h).symm⟩
    · rename_i hempty
      obtain ⟨as, has, h⟩ := bind_eq_ok.1 h
      exact .inr ⟨hempty, as, has, mapError_eq_ok.1 h⟩
  · rintro ⟨hn, h⟩
    refine ⟨_, mapError_eq_ok.2 (Topology.neighbors_eq hn), ?_⟩
    rcases h with ⟨hempty, rfl⟩ | ⟨hempty, as, has, h⟩
    · rw [hempty]
    · split
      · rename_i hnil
        exact absurd hnil hempty
      · exact bind_eq_ok.2 ⟨as, has, mapError_eq_ok.2 h⟩

/-- The routes of a node's predecessors are values that come about. -/
def OccurAt (net : Network) (σ : Assignment) (routes : List (String × SortedValue)) (n : String) :
    Prop :=
  ∀ p ∈ net.topology.predecessors n, ∀ a, Entries.get? routes p = some a → net.Occurs σ a

theorem OccurAt.receive {routes : List (String × SortedValue)} (h : net.OccurAt σ routes n)
    {as : List SortedValue}
    (has : (net.topology.predecessors n).mapM (net.receive σ routes n) = .ok as) :
    ∀ a ∈ as, net.Occurs σ a := by
  intro a ha
  obtain ⟨p, hp, hreceive⟩ := exists_of_mem_mapM has ha
  unfold Network.receive at hreceive
  split at hreceive
  · cases hreceive
  · rename_i b hb
    exact .sent hp (h p hp b hb) (mapError_eq_ok.1 hreceive)

theorem Occurs.foldlM {as : List SortedValue} {a b : SortedValue} (ha : net.Occurs σ a)
    (has : ∀ x ∈ as, net.Occurs σ x) (h : as.foldlM (net.merge.compute σ) a = .ok b) :
    net.Occurs σ b :=
  foldlM_invariant (P := net.Occurs σ) (fun x hx _ _ ha hd => .merged ha (has x hx) hd) ha h

theorem Occurs.select {as : List SortedValue} {a : SortedValue} (hσ : σ.WellSorted)
    (hn : n ∈ net.topology.nodes) (has : ∀ x ∈ as, net.Occurs σ x)
    (h : net.select σ n as = .ok a) : net.Occurs σ a := by
  have hinit : net.Occurs σ (net.initialValue σ n) := .route (isRoute_initialValue hσ hn)
  unfold Network.select at h
  split at h
  · exact hinit.foldlM has h
  · rw [List.forall_mem_cons] at has
    exact has.1.foldlM has.2 h
  · exact Except.ok.inj h ▸ hinit

theorem OccurAt.nextValue {routes : List (String × SortedValue)} (h : net.OccurAt σ routes n)
    (hσ : σ.WellSorted) {a : SortedValue} (ha : net.nextValue σ n routes = .ok a) :
    net.Occurs σ a := by
  obtain ⟨hn, ⟨-, rfl⟩ | ⟨-, as, has, hselect⟩⟩ := nextValue_eq_ok_iff.1 ha
  · exact .route (isRoute_initialValue hσ hn)
  · exact .select hσ hn (h.receive has) hselect

/-! ### Received routes in another order -/

/-- What a node selects does not depend on the order in which it receives routes. -/
theorem select_perm (hσ : σ.WellSorted) (hfree : net.merge.IsOrderFreeOn σ (net.Occurs σ))
    (hn : n ∈ net.topology.nodes) {as bs : List SortedValue} (hperm : as.Perm bs)
    (has : ∀ x ∈ as, net.Occurs σ x) {a : SortedValue} (h : net.select σ n as = .ok a) :
    net.select σ n bs = .ok a := by
  cases horigination : net.origination with
  | persistent =>
    simp only [select, horigination] at h ⊢
    exact hfree.foldlM_perm .merged hperm (.route (isRoute_initialValue hσ hn)) has h
  | initialOnly =>
    simp only [select, horigination] at h ⊢
    -- the fold starts with the first route, which may move: then the laws apply to it too
    induction hperm with
    | nil => exact h
    | cons x hperm _ =>
      rw [List.forall_mem_cons] at has
      exact hfree.foldlM_perm .merged hperm has.1 has.2 h
    | swap x y l =>
      simp only [List.forall_mem_cons] at has
      obtain ⟨d, hd, h⟩ := bind_eq_ok.1 h
      exact bind_eq_ok.2 ⟨d, hfree.compute_comm has.1 has.2.1 hd, h⟩
    | trans hperm _ ih ih' => exact ih' (fun x hx => has x (hperm.mem_iff.2 hx)) (ih has h)

/-- A network that differs from another one only in the order of predecessors. -/
structure IsReordered (net net' : Network) : Prop where
  nodes : net'.topology.nodes = net.topology.nodes
  predecessors : ∀ n, (net.topology.predecessors n).Perm (net'.topology.predecessors n)
  transfer : ∀ n, ∀ p ∈ net.topology.predecessors n,
    net'.transferOf ⟨p, n⟩ = net.transferOf ⟨p, n⟩
  merge : net'.merge = net.merge
  initial : net'.initial = net.initial
  symbolics : net'.symbolics = net.symbolics
  routeTy : net'.routeTy = net.routeTy
  origination : net'.origination = net.origination

namespace IsReordered

theorem symm (h : net.IsReordered net') : net'.IsReordered net where
  nodes := h.nodes.symm
  predecessors n := (h.predecessors n).symm
  transfer n p hp := (h.transfer n p ((h.predecessors n).mem_iff.2 hp)).symm
  merge := h.merge.symm
  initial := h.initial.symm
  symbolics := h.symbolics.symm
  routeTy := h.routeTy.symm
  origination := h.origination.symm

theorem occurs (h : net.IsReordered net') {a : SortedValue} (ha : net.Occurs σ a) :
    net'.Occurs σ a := by
  induction ha with
  | route ha => exact .route ⟨ha.1.trans h.routeTy.symm, h.routeTy ▸ ha.2⟩
  | sent hp _ hb ih =>
    exact .sent ((h.predecessors _).mem_iff.1 hp) ih (h.transfer _ _ hp ▸ hb)
  | merged _ _ hc iha ihb => exact .merged iha ihb (h.merge ▸ hc)

theorem isOrderFreeOn (h : net.IsReordered net')
    (hfree : net.merge.IsOrderFreeOn σ (net.Occurs σ)) :
    net'.merge.IsOrderFreeOn σ (net'.Occurs σ) := by
  rw [h.merge]
  exact ⟨fun ha hb => hfree.comm (h.symm.occurs ha) (h.symm.occurs hb), fun ha hb hc =>
    hfree.assoc (h.symm.occurs ha) (h.symm.occurs hb) (h.symm.occurs hc)⟩

theorem initialOf_eq (h : net.IsReordered net') : net'.initialOf = net.initialOf := by
  funext n
  rw [initialOf, initialOf, h.initial]

theorem select_eq (h : net.IsReordered net') : net'.select σ = net.select σ := by
  funext n as
  simp only [select, initialValue, h.initialOf_eq, h.merge, h.origination]

theorem receive_eq (h : net.IsReordered net') {routes : List (String × SortedValue)} {p : String}
    (hp : p ∈ net.topology.predecessors n) :
    net'.receive σ routes n p = net.receive σ routes n p := by
  rw [receive, receive, h.transfer n p hp]

/-- The next route of a node is the same in both networks. -/
theorem nextValue (h : net.IsReordered net') (hσ : σ.WellSorted)
    (hfree : net.merge.IsOrderFreeOn σ (net.Occurs σ)) {routes : List (String × SortedValue)}
    (hroutes : net.OccurAt σ routes n) {a : SortedValue} (ha : net.nextValue σ n routes = .ok a) :
    net'.nextValue σ n routes = .ok a := by
  have hpreds := h.predecessors n
  obtain ⟨hn, hcases⟩ := nextValue_eq_ok_iff.1 ha
  refine nextValue_eq_ok_iff.2 ⟨h.nodes ▸ hn, ?_⟩
  rcases hcases with ⟨hempty, rfl⟩ | ⟨hempty, as, has, hselect⟩
  · rw [hempty] at hpreds
    exact .inl ⟨hpreds.nil_eq.symm, by rw [initialValue, initialValue, h.initialOf_eq]⟩
  · obtain ⟨bs, hbs, hperm⟩ := mapM_perm hpreds has
    refine .inr ⟨fun hnil => hempty (hnil ▸ hpreds).eq_nil, bs, ?_, ?_⟩
    · rw [← hbs]
      exact mapM_congr fun p hp => h.receive_eq (hpreds.mem_iff.2 hp)
    · rw [h.select_eq]
      exact select_perm hσ hfree hn hperm (hroutes.receive has) hselect

/-- The values of an update are the same in both networks. -/
theorem update (h : net.IsReordered net') (hσ : σ.WellSorted)
    (hfree : net.merge.IsOrderFreeOn σ (net.Occurs σ)) {rs : List (String × Typed)}
    (hrs : net.OccurAt σ (valuesAt σ rs) n) {a : SortedValue}
    (ha : Typed.valueAt σ [] <$> net.update n rs = .ok a) :
    Typed.valueAt σ [] <$> net'.update n rs = .ok a := by
  rw [valueAt_update] at ha ⊢
  exact h.nextValue hσ hfree hrs ha

end IsReordered

/-! ### Rounds -/

theorem executeEntry_eq_ok_iff {routes : List (String × SortedValue)} {e : String × SortedValue} :
    net.executeEntry σ routes n = .ok e ↔
      net.nextValue σ n routes = .ok e.2 ∧ e.2.ty ≠ .truth ∧ e.1 = n := by
  unfold executeEntry
  rw [bind_eq_ok]
  constructor
  · rintro ⟨a, ha, h⟩
    split at h
    · cases h
    · rename_i hty
      cases h
      exact ⟨ha, hty, rfl⟩
  · rintro ⟨ha, hty, rfl⟩
    exact ⟨e.2, ha, if_neg hty⟩

theorem occurs_of_execute (hσ : σ.WellSorted) {t : Nat} {routes : List (String × SortedValue)}
    (h : net.execute σ t = .ok routes) {p : String} {a : SortedValue}
    (hp : Entries.get? routes p = some a) : net.Occurs σ a := by
  induction t generalizing routes p a with
  | zero =>
    cases h
    rw [valuesAt, Entries.get?_mapValues, Option.map_eq_some_iff] at hp
    obtain ⟨x, hx, rfl⟩ := hp
    have hn : p ∈ net.topology.nodes :=
      (net.initial_keys p).1 (List.mem_map_of_mem (Entries.mem_of_get? hx))
    cases (get?_initial hn).symm.trans hx
    exact .route (isRoute_initialValue hσ hn)
  | succ t ih =>
    obtain ⟨earlier, hearlier, h⟩ := bind_eq_ok.1 h
    obtain ⟨n, -, hentry⟩ := exists_of_mem_mapM h (Entries.mem_of_get? hp)
    exact OccurAt.nextValue (fun _ _ _ hq => ih hearlier hq) hσ (executeEntry_eq_ok_iff.1 hentry).1

/-- Both networks run through the same routes. -/
theorem IsReordered.execute (h : net.IsReordered net') (hσ : σ.WellSorted)
    (hfree : net.merge.IsOrderFreeOn σ (net.Occurs σ)) {t : Nat}
    {routes : List (String × SortedValue)} (hroutes : net.execute σ t = .ok routes) :
    net'.execute σ t = .ok routes := by
  induction t generalizing routes with
  | zero => rw [← hroutes, Network.execute, Network.execute, h.initial]
  | succ t ih =>
    obtain ⟨earlier, hearlier, hnext⟩ := bind_eq_ok.1 hroutes
    refine bind_eq_ok.2 ⟨earlier, ih hearlier, ?_⟩
    rw [h.nodes]
    refine mapM_eq_ok.2 ((mapM_eq_ok.1 hnext).imp fun n e he => ?_)
    obtain ⟨hvalue, hentry⟩ := executeEntry_eq_ok_iff.1 he
    exact executeEntry_eq_ok_iff.2
      ⟨h.nextValue hσ hfree (fun _ _ _ hp => occurs_of_execute hσ hearlier hp) hvalue, hentry⟩

theorem IsReordered.simulate (h : net.IsReordered net') (hσ : σ.WellSorted)
    (hfree : net.merge.IsOrderFreeOn σ (net.Occurs σ)) {rounds : Nat}
    {states : List (List (String × SortedValue))}
    (hstates : List.map (valuesAt σ) <$> net.simulate rounds = .ok states) :
    List.map (valuesAt σ) <$> net'.simulate rounds = .ok states := by
  rw [valuesAt_simulate hσ] at hstates ⊢
  exact mapM_eq_ok.2 ((mapM_eq_ok.1 hstates).imp fun _ _ ht => h.execute hσ hfree ht)

/-! ### Checks -/

theorem IsReordered.routes_eq (h : net.IsReordered net') (ρ : String → Value) :
    net'.routes ρ = net.routes ρ := by
  simp only [routes, route, Topology.mapNodes, h.nodes, h.routeTy]

/-- Updates at given routes have the same value in both networks. -/
theorem IsReordered.update_matches (h : net.IsReordered net') (hσ : σ.WellSorted)
    (hfree : net.merge.IsOrderFreeOn σ (net.Occurs σ)) {ρ : String → Value}
    (hρ : ∀ p ∈ net.topology.predecessors n, (ρ p).fits net.routeTy = true) {x : Typed}
    (hx : net.update n (net.routes ρ) = .ok x) :
    ∃ y, net'.update n (net'.routes ρ) = .ok y ∧ Matches σ σ x y := by
  have hroute {p} (hp : p ∈ net.topology.predecessors n) :
      Entries.get? (net.routes ρ) p = some (net.route (ρ p)) ∧ (net.route (ρ p)).IsClosed :=
    have hnode := Topology.mem_nodes_of_mem_predecessors hp
    ⟨get?_mapNodes hnode, isClosed_route hnode (hρ p hp)⟩
  have hoccur : net.OccurAt σ (valuesAt σ (net.routes ρ)) n := by
    intro p hp a ha
    rw [valuesAt, Entries.get?_mapValues, (hroute hp).1] at ha
    exact .route (Option.some.inj ha ▸ ⟨rfl, hρ p hp⟩)
  have hvalue : Typed.valueAt σ [] <$> net'.update n (net.routes ρ) = .ok (x.valueAt σ []) :=
    h.update hσ hfree hoccur (map_eq_ok.2 ⟨x, hx, rfl⟩)
  obtain ⟨y, hy, hxy⟩ := map_eq_ok.1 hvalue
  have hleft : x.IsClosed := isClosed_update (fun _ hp => ⟨_, hroute hp⟩) hx
  have hright : y.IsClosed :=
    isClosed_update (fun _ hp => ⟨_, hroute ((h.predecessors n).mem_iff.2 hp)⟩) hy
  rw [← h.routes_eq] at hy
  exact ⟨y, hy, hleft, hright, (congrArg SortedValue.ty hxy).symm,
    (congrArg SortedValue.value hxy).symm⟩

theorem IsReordered.correspondsAt (h : net.IsReordered net') (hσ : σ.WellSorted)
    (hfree : net.merge.IsOrderFreeOn σ (net.Occurs σ)) (hn : n ∈ net.topology.nodes) :
    net.CorrespondsAt net' σ σ n where
  left := hn
  right := h.nodes ▸ hn
  routeTy := h.routeTy.symm
  predecessors p := (h.predecessors n).mem_iff
  initial := by
    rw [h.initialOf_eq]
    exact (isClosed_initialOf hn).matches_self σ
  update hρ _ hx := h.update_matches hσ hfree hρ hx
  update_left hρ _ hy := by
    obtain ⟨x, hx, hyx⟩ := h.symm.update_matches hσ (h.isOrderFreeOn hfree) hρ hy
    exact ⟨x, hx, hyx.symm⟩

end Network

namespace AnnotatedNetwork

/-- The same annotations and properties of two networks that differ only in the order of
predecessors. -/
structure IsReordered (a b : AnnotatedNetwork) : Prop where
  network : a.network.IsReordered b.network
  annotations : b.annotations = a.annotations
  modular : b.modularProperties = a.modularProperties
  monolithic : b.monolithicProperties = a.monolithicProperties

variable {a b : AnnotatedNetwork} {σ : Assignment} {kind : CheckKind} {n : String}

theorem IsReordered.symm (h : a.IsReordered b) : b.IsReordered a :=
  ⟨h.network.symm, h.annotations.symm, h.modular.symm, h.monolithic.symm⟩

theorem IsReordered.corresponds (h : a.IsReordered b) (hσ : σ.WellSorted)
    (hfree : a.network.merge.IsOrderFreeOn σ (a.network.Occurs σ)) (hn : a.IsCheckAt kind n) :
    a.Corresponds b σ σ kind n := by
  refine corresponds_of_nodes (fun m => by rw [h.network.nodes])
    (fun m hm _ => h.network.correspondsAt hσ hfree hm) (fun m => ?_) (fun m => ?_) (fun m => ?_) hn
  · rw [annotationOf, annotationOf, h.annotations]
    exact Invariant.sameUnder_refl _
  · rw [modularOf, modularOf, h.modular]
    exact Invariant.sameUnder_refl _
  · rw [monolithicOf, monolithicOf, h.monolithic]
    exact Predicate.sameUnder_refl _

/-- The merge is commutative and associative on all values that come about, under every assignment
that the restrictions of the symbolic values allow, and at least under one. -/
structure MergesInAnyOrder (a : AnnotatedNetwork) : Prop where
  exists_free : ∃ σ : Assignment, σ.WellSorted ∧
    a.network.merge.IsOrderFreeOn σ (a.network.Occurs σ)
  free : ∀ σ : Assignment, σ.WellSorted → a.Allows σ →
    a.network.merge.IsOrderFreeOn σ (a.network.Occurs σ)

theorem IsReordered.allows_iff (h : a.IsReordered b) : b.Allows σ ↔ a.Allows σ := by
  rw [Allows, Allows, Network.constraints, Network.constraints, h.network.symbolics]

theorem IsReordered.mergesInAnyOrder (h : a.IsReordered b) (hmerge : a.MergesInAnyOrder) :
    b.MergesInAnyOrder where
  exists_free := hmerge.exists_free.imp fun _ hσ => ⟨hσ.1, h.network.isOrderFreeOn hσ.2⟩
  free σ hσ hallows := h.network.isOrderFreeOn (hmerge.free σ hσ (h.allows_iff.1 hallows))

/-- A check that passes in one of the networks passes in the other. -/
theorem IsReordered.passes (h : a.IsReordered b) (hmerge : a.MergesInAnyOrder)
    (hn : a.IsCheckAt kind n) (hb : b.Passes kind n) : a.Passes kind n := by
  have hn' : b.IsCheckAt kind n := hn.imp_right fun hn => h.network.nodes ▸ hn
  have hroutes {ρ} (hρ : a.AreRoutes ρ) : b.AreRoutes ρ := by
    rwa [AreRoutes, h.network.nodes, h.network.routeTy]
  have hscope := hb.isFormed_constraints hn'
  rw [Network.constraints, h.network.symbolics] at hscope
  refine passes_of_corresponds hscope ?_ fun σ hσ hallows => ?_
  -- whether obligations can be formed is seen at one assignment, be it allowed or not
  · obtain ⟨σ, hσ, hfree⟩ := hmerge.exists_free
    exact ⟨b, σ, σ, hb, hroutes, h.corresponds hσ hfree hn⟩
  · exact ⟨b, σ, hσ, h.allows_iff.2 hallows, hb, hroutes,
      h.corresponds hσ (hmerge.free σ hσ hallows) hn⟩

theorem IsReordered.passes_iff (h : a.IsReordered b) (hmerge : a.MergesInAnyOrder)
    (hn : a.IsCheckAt kind n) : b.Passes kind n ↔ a.Passes kind n :=
  ⟨h.passes hmerge hn, h.symm.passes (h.mergesInAnyOrder hmerge)
    (hn.imp_right fun hn => h.network.nodes ▸ hn)⟩

theorem IsReordered.dischargeAll_eq_none_iff (h : a.IsReordered b) (hmerge : a.MergesInAnyOrder)
    {oracle : Oracle} (hexact : oracle.Exact) (arrival : Arrival) (settings : CheckSettings)
    (s : Session) (kind : CheckKind) {node : Option String}
    (hnode : ∀ n, node = some n → n ∈ a.network.topology.nodes) :
    ((dischargeAll b oracle arrival settings (b.obligation kind) node).outcome s).1 = .ok none ↔
      ((dischargeAll a oracle arrival settings (a.obligation kind) node).outcome s).1 =
        .ok none := by
  rw [dischargeAll_eq_none_iff_nodes hexact arrival settings s hnode,
    dischargeAll_eq_none_iff_nodes hexact arrival settings s (h.network.nodes ▸ hnode),
    h.network.nodes]
  exact forall₂_congr fun n hn => imp_congr_right fun _ => h.passes_iff hmerge (.inr hn)

/-- The order of predecessors does not matter where the merge is commutative and associative on all
values that come about. Updates have the same values at all nodes and for all maps of such values, and
simulations have the same routes at all times; where there is no result in one of the networks, there
is none in the other. Each check finds nothing in one network exactly where it finds nothing in the
other. If the transfers and the merge stay in the route sort, the values that come about are the
routes. -/
theorem predecessor_order_is_irrelevant (a b : AnnotatedNetwork) (h : a.IsReordered b) :
    (∀ σ : Assignment, σ.WellSorted →
      a.network.merge.IsOrderFreeOn σ (a.network.Occurs σ) →
      (∀ n rs, a.network.OccurAt σ (valuesAt σ rs) n →
        (Typed.valueAt σ [] <$> b.network.update n rs).toOption =
          (Typed.valueAt σ [] <$> a.network.update n rs).toOption) ∧
      ∀ rounds, (List.map (valuesAt σ) <$> b.network.simulate rounds).toOption =
        (List.map (valuesAt σ) <$> a.network.simulate rounds).toOption) ∧
    (a.MergesInAnyOrder → ∀ oracle : Oracle, oracle.Exact →
      ∀ (arrival : Arrival) (settings : CheckSettings) (s : Session),
        (∀ node : Option String, (∀ n, node = some n → n ∈ a.network.topology.nodes) →
          (((b.checkBase oracle arrival settings node).outcome s).1 = .ok none ↔
            ((a.checkBase oracle arrival settings node).outcome s).1 = .ok none) ∧
          (((b.checkInductive oracle arrival settings node).outcome s).1 = .ok none ↔
            ((a.checkInductive oracle arrival settings node).outcome s).1 = .ok none) ∧
          (((b.checkSafety oracle arrival settings node).outcome s).1 = .ok none ↔
            ((a.checkSafety oracle arrival settings node).outcome s).1 = .ok none)) ∧
        (((b.checkMonolithic oracle arrival settings).outcome s).1 = .ok none ↔
          ((a.checkMonolithic oracle arrival settings).outcome s).1 = .ok none)) ∧
    (a.network.topology.nodes ≠ [] → ∀ σ : Assignment, σ.WellSorted → a.network.StaysInSort σ →
      ∀ v, a.network.Occurs σ v ↔ a.network.IsRoute v) := by
  have hnet := h.network
  refine ⟨fun σ hσ hfree => ⟨fun n rs hrs => ?_, fun rounds => ?_⟩, fun hmerge oracle hexact arrival
    settings s => ⟨fun node hnode => ⟨?_, ?_, ?_⟩, ?_⟩, fun hnodes σ hσ hstays v => ?_⟩
  · have hrs' : b.network.OccurAt σ (valuesAt σ rs) n := fun p hp v hv =>
      hnet.occurs (hrs p ((hnet.predecessors n).mem_iff.2 hp) v hv)
    exact toOption_eq_toOption_iff.2 fun v =>
      ⟨hnet.symm.update hσ (hnet.isOrderFreeOn hfree) hrs', hnet.update hσ hfree hrs⟩
  · exact toOption_eq_toOption_iff.2 fun v =>
      ⟨hnet.symm.simulate hσ (hnet.isOrderFreeOn hfree), hnet.simulate hσ hfree⟩
  · exact h.dischargeAll_eq_none_iff hmerge hexact arrival settings s .base hnode
  · exact h.dischargeAll_eq_none_iff hmerge hexact arrival settings s .step hnode
  · exact h.dischargeAll_eq_none_iff hmerge hexact arrival settings s .safety hnode
  · rw [checkMonolithic_eq_none_iff hexact arrival settings s "",
      checkMonolithic_eq_none_iff hexact arrival settings s ""]
    exact h.passes_iff hmerge (.inl rfl)
  · exact Network.occurs_iff_isRoute hσ hnodes hstays

end AnnotatedNetwork

/-! ### Two predecessors in either order -/

/-- Two nodes that feed a third one, in a given order. -/
def Topology.rivals (preds : List String) (h : preds.Perm ["A", "B"]) : Topology where
  entries := [("A", []), ("B", []), ("C", preds)]
  nodup_nodes := (by decide : ["A", "B", "C"].Nodup)
  declared := by
    simp only [List.forall_mem_cons, List.not_mem_nil, false_implies, implies_true, true_and,
      and_true]
    intro p hp
    exact List.mem_append_left ["C"] (h.mem_iff.1 hp)
  nodup_predecessors := by
    simp only [List.forall_mem_cons, List.not_mem_nil, false_implies, implies_true, and_true]
    exact ⟨List.nodup_nil, List.nodup_nil, h.nodup_iff.2 (by decide)⟩

namespace Network

/-- A network with one transfer function for all edges. -/
def uniform (t : Topology) (f : Transfer) (m : Merge) (ty : Ty) (hty : ty.isDeclared = true)
    (start : String → Value) (hstart : ∀ n, (start n).fits ty = true) : Network where
  topology := t
  transfer := t.mapEdges fun _ => f
  merge := m
  initial := {
    entries := t.mapNodes fun n => ⟨.const (start n), ty⟩
    nodup_keys := by
      rw [Topology.mapNodes, Entries.keys, List.map_map]
      exact (List.map_id _).symm ▸ t.nodup_nodes
    defined := by
      intro r hr
      obtain ⟨n, -, rfl⟩ := List.mem_map.1 hr
      exact ⟨.const (start n) ty, by rw [Expr.elaborate, hty, hstart]; rfl⟩ }
  symbolics := []
  routeTy := ty
  origination := .initialOnly
  failureBounds := []
  transfer_keys := by simp [Entries.keys, Topology.mapEdges]
  initial_keys := by simp [Entries.keys, Topology.mapNodes]
  nodup_symbolics := List.nodup_nil
  initial_ty := fun n hn => by
    have hget : Entries.get? (t.mapNodes fun n => Typed.mk (.const (start n)) ty) n =
        some ⟨.const (start n), ty⟩ := Entries.get?_map_self _ hn
    exact congrArg (fun r => (r.getD default).ty) hget
  declared_routeTy := fun _ _ => hty

section Rivals

variable {f : Transfer} {m : Merge} {ty : Ty} {hty : ty.isDeclared = true} {start : String → Value}
  {hstart : ∀ n, (start n).fits ty = true} {preds preds' : List String}
  {h : preds.Perm ["A", "B"]} {h' : preds'.Perm ["A", "B"]}

theorem transferOf_uniform {t : Topology} {p n : String} (hp : p ∈ t.predecessors n) :
    (uniform t f m ty hty start hstart).transferOf ⟨p, n⟩ = f := by
  have hget : Entries.get? (t.mapEdges fun _ => f) ⟨p, n⟩ = some f :=
    Entries.get?_map_self _ (Topology.mem_edges_of_mem_predecessors hp)
  exact congrArg (·.getD default) hget

variable (hstart) in
theorem isReordered_rivals : (uniform (.rivals preds h) f m ty hty start hstart).IsReordered
    (uniform (.rivals preds' h') f m ty hty start hstart) := by
  have hpreds (n : String) : ((Topology.rivals preds h).predecessors n).Perm
      ((Topology.rivals preds' h').predecessors n) := by
    by_cases hn : n = "C"
    · subst hn
      exact h.trans h'.symm
    · simp only [Topology.predecessors, Topology.rivals, Entries.get?_cons, if_neg (Ne.symm hn)]
      exact .refl _
  exact ⟨rfl, hpreds, fun n p hp => (transferOf_uniform ((hpreds n).mem_iff.1 hp)).trans
    (transferOf_uniform hp).symm, rfl, rfl, rfl, rfl, rfl⟩

end Rivals

theorem compute_min (σ : Assignment) (i j : Int) :
    Merge.min.compute σ ⟨.int i, .int⟩ ⟨.int j, .int⟩ = .ok ⟨.int (min i j), .int⟩ := by
  have hchoice : Merge.min.compute σ ⟨.int i, .int⟩ ⟨.int j, .int⟩ =
      SortedValue.ite (.ofBool (decide (i ≤ j))) ⟨.int i, .int⟩ ⟨.int j, .int⟩ := rfl
  rw [hchoice]
  by_cases hij : i ≤ j
  · rw [decide_eq_true hij, Int.min_eq_left hij]
    rfl
  · rw [decide_eq_false hij, Int.min_eq_right (by omega)]
    rfl

section Counts

variable {preds : List String} {h : preds.Perm ["A", "B"]} {hty : Ty.int.isDeclared = true}
  {start : String → Value} (hstart : ∀ n, (start n).fits .int = true) {σ : Assignment}

/-- Counts of which the smallest is taken may be merged in any order. -/
theorem isOrderFreeOn_min (hσ : σ.WellSorted) :
    let net := uniform (.rivals preds h) (.incr 1) .min .int hty start hstart
    net.merge.IsOrderFreeOn σ (net.Occurs σ) := by
  intro net
  have hint {a} (ha : net.IsRoute a) : ∃ i, a = ⟨.int i, .int⟩ := by
    obtain ⟨i, hi⟩ := Value.shape_of_fits ha.2
    exact ⟨i, ha.eq_mk.trans (congrArg (SortedValue.mk · .int) hi)⟩
  have hstays : net.StaysInSort σ := by
    constructor
    · intro p n a b hp ha hb
      obtain ⟨i, rfl⟩ := hint ha
      rw [show net.transferOf ⟨p, n⟩ = .incr 1 from transferOf_uniform hp] at hb
      cases hb
      rfl
    · intro a b c ha hb hc
      obtain ⟨i, rfl⟩ := hint ha
      obtain ⟨j, rfl⟩ := hint hb
      cases (compute_min σ i j).symm.trans hc
      rfl
  have hnodes : net.topology.nodes ≠ [] := List.cons_ne_nil "A" ["B", "C"]
  have hoccurs {a} (ha : net.Occurs σ a) : ∃ i, a = ⟨.int i, .int⟩ :=
    hint ((occurs_iff_isRoute hσ hnodes hstays).1 ha)
  rw [show net.merge = .min from rfl]
  constructor
  · intro a b ha hb
    obtain ⟨i, rfl⟩ := hoccurs ha
    obtain ⟨j, rfl⟩ := hoccurs hb
    rw [compute_min, compute_min, min_comm]
  · intro a b c ha hb hc
    obtain ⟨i, rfl⟩ := hoccurs ha
    obtain ⟨j, rfl⟩ := hoccurs hb
    obtain ⟨k, rfl⟩ := hoccurs hc
    simp only [compute_min, bind, Except.bind, min_assoc]

end Counts

end Network

namespace AnnotatedNetwork

/-- Of four and one the third node takes one, which is two with the way there, in either order. -/
theorem predecessor_order_is_irrelevant_rivals :
    let watched (preds : List String) (h : preds.Perm ["A", "B"]) : AnnotatedNetwork :=
      ⟨.uniform (.rivals preds h) (.incr 1) .min .int rfl (fun _ => .int 0) fun _ => rfl,
        [("A", nonnegative), ("B", nonnegative), ("C", nonnegative)], [], []⟩
    let a := watched ["A", "B"] (.refl _)
    let b := watched ["B", "A"] (.swap _ _ _)
    a.IsReordered b ∧ a.MergesInAnyOrder ∧
      (∀ σ : Assignment, σ.WellSorted → (Typed.valueAt σ [] <$> b.network.update "C"
        [("A", ⟨.const (.int 4), .int⟩), ("B", ⟨.const (.int 1), .int⟩)]).toOption =
          some ⟨.int 2, .int⟩) ∧
      ∀ oracle : Oracle, oracle.Exact → ∀ (arrival : Arrival) (settings : CheckSettings)
        (s : Session), ((b.checkInductive oracle arrival settings (some "C")).outcome s).1 = .ok none ↔
          ((a.checkInductive oracle arrival settings (some "C")).outcome s).1 = .ok none := by
  intro watched a b
  have hfree (σ : Assignment) (hσ : σ.WellSorted) :
      a.network.merge.IsOrderFreeOn σ (a.network.Occurs σ) :=
    Network.isOrderFreeOn_min (fun _ => rfl) hσ
  have h : a.IsReordered b := ⟨Network.isReordered_rivals fun _ => rfl, rfl, rfl, rfl⟩
  have hmerge : a.MergesInAnyOrder :=
    ⟨Assignment.exists_wellSorted.imp fun σ hσ => ⟨hσ, hfree σ hσ⟩, fun σ hσ _ => hfree σ hσ⟩
  obtain ⟨hvalues, hchecks, -⟩ := predecessor_order_is_irrelevant a b h
  refine ⟨h, hmerge, fun σ hσ => ?_, fun oracle hexact arrival settings s => ?_⟩
  · refine ((hvalues σ hσ (hfree σ hσ)).1 "C" _ fun p _ v hv => ?_).trans ?_
    · obtain ⟨r, hr, hv⟩ := List.mem_map.1 (Entries.mem_of_get? hv)
      cases hv
      simp only [List.mem_cons, List.not_mem_nil, or_false] at hr
      rcases hr with rfl | rfl <;> exact .route ⟨rfl, rfl⟩
    · rw [Network.valueAt_update]
      rfl
  · have hnode (n) (hn : some "C" = some n) : n ∈ ["A", "B", "C"] :=
      Option.some.inj hn ▸ by decide
    exact ((hchecks hmerge oracle hexact arrival settings s).1 (some "C") hnode).2.1

end AnnotatedNetwork

namespace Network

/-- Laws on the route sort are not enough. Here the merge of two truth values is their disjunction,
but the transfers make numbers of them, and of two numbers the merge takes the first. -/
theorem update_rivals :
    let contest (preds : List String) (h : preds.Perm ["A", "B"]) : Network :=
      .uniform (.rivals preds h) (.incr 1) (.beats [(.datum (.bool true), .datum (.bool false))])
        .bool rfl (fun n => .bool (n = "A")) fun _ => rfl
    let net := contest ["A", "B"] (.refl _)
    let net' := contest ["B", "A"] (.swap _ _ _)
    let rs := [("A", Typed.mk (.const (.bool true)) .bool), ("B", ⟨.const (.bool false), .bool⟩)]
    net.IsReordered net' ∧ ∀ σ : Assignment, net.merge.IsOrderFreeOn σ net.IsRoute ∧
      Typed.valueAt σ [] <$> net.update "C" rs = .ok ⟨.int 2, .int⟩ ∧
      Typed.valueAt σ [] <$> net'.update "C" rs = .ok ⟨.int 1, .int⟩ := by
  intro contest net net' rs
  have hbool {a} (ha : net.IsRoute a) : ∃ b, a = ⟨.bool b, .bool⟩ := by
    obtain ⟨b, hb⟩ := Value.shape_of_fits ha.2
    exact ⟨b, ha.eq_mk.trans (congrArg (SortedValue.mk · .bool) hb)⟩
  have hmerge (σ : Assignment) (x y : Bool) :
      net.merge.compute σ ⟨.bool x, .bool⟩ ⟨.bool y, .bool⟩ = .ok ⟨.bool (x || y), .bool⟩ := by
    cases x <;> cases y <;> rfl
  refine ⟨isReordered_rivals fun _ => rfl, fun σ => ⟨⟨fun ha hb => ?_, fun ha hb hc => ?_⟩, ?_, ?_⟩⟩
  · obtain ⟨x, rfl⟩ := hbool ha
    obtain ⟨y, rfl⟩ := hbool hb
    rw [hmerge, hmerge, Bool.or_comm]
  · obtain ⟨x, rfl⟩ := hbool ha
    obtain ⟨y, rfl⟩ := hbool hb
    obtain ⟨z, rfl⟩ := hbool hc
    simp only [hmerge, bind, Except.bind, Bool.or_assoc]
  · rw [valueAt_update]
    rfl
  · rw [valueAt_update]
    rfl

end Network

end RouteInvariants
