import RouteInvariants.Decision.Tree
import RouteInvariants.Proofs.Folding

/-!
What decision trees compute. Under an assignment a tree picks one of its cases. `Computes F … v tr`
says that all cases of `tr` are of a sort and that, where the facts `F` are true, the case that is
picked has the value `v`. Each way to build a tree has a rule: it asks of the continuations what
they compute from the facts that they are given.
-/

namespace RouteInvariants

/-- The facts are true under the assignment. -/
def Facts.Hold (σ : Assignment) (F : Facts) : Prop := ∀ f ∈ F, f.1.eval σ [] = .bool f.2

/-- What the theory decides is so. -/
def Theory.Sound (X : Variable → Prop) (σ : Assignment) (T : Theory) : Prop :=
  ∀ {F : Facts} {atom : Term} {b : Bool}, atom.HasTy X [] [] .bool → F.Hold σ →
    T F atom = some b → atom.eval σ [] = .bool b

/-- Data that are fields of unknowns are read where the value has the field. -/
def Term.Guarded (σ : Assignment) : Term → Prop
  | field owner i j a => ∀ f, owner.field? i j = some f → f.2.isData = true →
    (a.spine? = none → (a.eval σ []).head? = some i) ∧ a.Guarded σ
  | app f a => f.Guarded σ ∧ a.Guarded σ
  | _ => True

/-- Only terms of data sorts await arguments. -/
theorem Term.HasTy.isData {X : Variable → Prop} {Γ : List Ty} {t : Term} {rest : List Ty}
    {s ty : Ty} (h : t.HasTy X Γ (s :: rest) ty) : ty.isData = true := by
  generalize hr : s :: rest = r at h
  induction h generalizing s rest with
  | const _ hv =>
    subst hr
    rcases hv with hv | ⟨hv, -⟩
    · cases hd : Ty.isData _ with
      | true => rfl
      | false => rw [Value.pending?_eq_none hd] at hv; cases hv
    · cases hv
  | @con _ i c ty _ hc => cases ty <;> first | rfl | cases hc
  | app _ _ ihf _ => exact ihf rfl
  | _ => cases hr

theorem Term.guarded_of_isData {X : Variable → Prop} {σ : Assignment} {t : Term} {ty : Ty}
    (h : t.HasTy X [] [] ty) (hd : ty.isData = false) : t.Guarded σ := by
  cases t with
  | field owner i j a =>
    cases h with
    | field hf _ =>
      intro f hf' hdata
      rw [hf] at hf'
      cases hf'
      rw [hdata] at hd
      cases hd
  | app f a =>
    cases h with
    | app hf _ =>
      rw [hf.isData] at hd
      cases hd
  | _ => trivial

namespace Tree

/-- The case of a tree that an assignment takes. -/
def pick (σ : Assignment) : Tree → Term
  | leaf t => t
  | node a y n => if (a.eval σ []).isTrue then y.pick σ else n.pick σ

inductive HasTy (X : Variable → Prop) (rest : List Ty) (ty : Ty) : Tree → Prop where
  | leaf {t} (ht : t.HasTy X [] rest ty) : HasTy X rest ty (.leaf t)
  | node {a y n} (ha : a.HasTy X [] [] .bool) (hy : HasTy X rest ty y) (hn : HasTy X rest ty n) :
    HasTy X rest ty (.node a y n)

structure Computes (X : Variable → Prop) (σ : Assignment) (F : Facts) (rest : List Ty) (ty : Ty)
    (v : Value) (tr : Tree) : Prop where
  hasTy : tr.HasTy X rest ty
  sound : F.Hold σ → (tr.pick σ).eval σ [] = v ∧ (tr.pick σ).Guarded σ

/-- A condition on the facts that computes the truth value `b` whenever the facts `F` are true. -/
def Decides (X : Variable → Prop) (σ : Assignment) (F : Facts) (c : Facts → Tree) (b : Bool) :
    Prop :=
  ∀ G : Facts, (G.Hold σ → F.Hold σ) → Computes X σ G [] .bool (.bool b) (c G)

variable {X : Variable → Prop} {σ : Assignment} {T : Theory} {F : Facts} {rest rest' : List Ty}
  {ty ty' : Ty} {v w : Value} {tr : Tree} {atom : Term}

theorem Computes.mono {G : Facts} (h : Computes X σ F rest ty v tr) (hFG : G.Hold σ → F.Hold σ) :
    Computes X σ G rest ty v tr :=
  ⟨h.hasTy, fun hG => h.sound (hFG hG)⟩

theorem Computes.congr (h : Computes X σ F rest ty v tr) (hvw : F.Hold σ → v = w) :
    Computes X σ F rest ty w tr :=
  ⟨h.hasTy, fun hF => hvw hF ▸ h.sound hF⟩

theorem HasTy.pick (h : tr.HasTy X rest ty) : (tr.pick σ).HasTy X [] rest ty := by
  induction h with
  | leaf ht => exact ht
  | node _ _ _ ihy ihn =>
    rw [Tree.pick]
    split
    · exact ihy
    · exact ihn

/-- A value that is computed is of its sort. -/
theorem Computes.fits (h : Computes X σ F [] ty v tr) (hσ : σ.WellSorted) (hF : F.Hold σ) :
    v.fits ty = true :=
  (h.sound hF).1 ▸ h.hasTy.pick.eval_fits hσ

theorem computes_leaf {t : Term} (ht : t.HasTy X [] rest ty)
    (hv : F.Hold σ → t.eval σ [] = v ∧ t.Guarded σ) : Computes X σ F rest ty v (leaf t) :=
  ⟨.leaf ht, hv⟩

theorem computes_bool {b : Bool} (hv : F.Hold σ → v = .bool b) :
    Computes X σ F [] .bool v (bool b) :=
  computes_leaf (.const rfl (Value.awaits_nil.2 rfl)) fun hF => ⟨(hv hF).symm, trivial⟩

theorem pick_join (atom : Term) (yes no : Tree) :
    (join atom yes no).pick σ = (node atom yes no).pick σ := by
  unfold join
  split
  · rename_i h
    rw [h, pick, ite_self]
  · rfl

theorem hasTy_join {yes no : Tree} (ha : atom.HasTy X [] [] .bool) (hy : yes.HasTy X rest ty)
    (hn : no.HasTy X rest ty) : (join atom yes no).HasTy X rest ty := by
  unfold join
  split
  · exact hy
  · exact .node ha hy hn

section Rules

variable (hσ : σ.WellSorted) (hT : T.Sound X σ)
include hσ hT

theorem branch_computes {yes no : Facts → Tree} (ha : atom.HasTy X [] [] .bool)
    (hy : ∀ G : Facts, (G.Hold σ → F.Hold σ ∧ atom.eval σ [] = .bool true) →
      Computes X σ G rest ty v (yes G))
    (hn : ∀ G : Facts, (G.Hold σ → F.Hold σ ∧ atom.eval σ [] = .bool false) →
      Computes X σ G rest ty v (no G)) :
    Computes X σ F rest ty v (branch T F atom yes no) := by
  unfold branch
  split
  · rename_i h
    exact hy F fun hF => ⟨hF, hT ha hF h⟩
  · rename_i h
    exact hn F fun hF => ⟨hF, hT ha hF h⟩
  · have hyes := hy ((atom, true) :: F) fun h =>
      ⟨(List.forall_mem_cons.1 h).2, (List.forall_mem_cons.1 h).1⟩
    have hno := hn ((atom, false) :: F) fun h =>
      ⟨(List.forall_mem_cons.1 h).2, (List.forall_mem_cons.1 h).1⟩
    refine ⟨hasTy_join ha hyes.hasTy hno.hasTy, fun hF => ?_⟩
    obtain ⟨b, hb⟩ := Value.shape_of_fits (ha.eval_fits hσ)
    rw [pick_join, pick, hb]
    cases b with
    | true => exact hyes.sound (List.forall_mem_cons.2 ⟨hb, hF⟩)
    | false => exact hno.sound (List.forall_mem_cons.2 ⟨hb, hF⟩)

theorem test_computes {c : Term} {yes no : Facts → Tree} (hc : c.HasTy X [] [] .bool)
    (hy : ∀ G : Facts, (G.Hold σ → F.Hold σ ∧ c.eval σ [] = .bool true) →
      Computes X σ G rest ty v (yes G))
    (hn : ∀ G : Facts, (G.Hold σ → F.Hold σ ∧ c.eval σ [] = .bool false) →
      Computes X σ G rest ty v (no G)) :
    Computes X σ F rest ty v (test T F c yes no) := by
  unfold test
  split
  · rename_i h
    exact hy F fun hF => ⟨hF, h ▸ rfl⟩
  · split
    · rename_i h
      exact hn F fun hF => ⟨hF, h ▸ rfl⟩
    · exact branch_computes hσ hT hc hy hn

theorem bind_computes {k : Facts → Term → Tree} (htr : Computes X σ F rest ty v tr)
    (hk : ∀ (G : Facts) (t : Term), t.HasTy X [] rest ty →
      (G.Hold σ → F.Hold σ ∧ t.eval σ [] = v ∧ t.Guarded σ) →
      Computes X σ G rest' ty' w (k G t)) :
    Computes X σ F rest' ty' w (bind T k F tr) := by
  induction tr generalizing F with
  | leaf t =>
    obtain ⟨⟨ht⟩, hsound⟩ := htr
    exact hk F t ht fun hF => ⟨hF, hsound hF⟩
  | node a y n ihy ihn =>
    obtain ⟨hty, hsound⟩ := htr
    cases hty with
    | node ha hyty hnty =>
      refine branch_computes hσ hT ha (fun G hG => ihy ⟨hyty, fun h => ?_⟩ ?_)
        (fun G hG => ihn ⟨hnty, fun h => ?_⟩ ?_)
      · have := hsound (hG h).1
        rw [pick, (hG h).2] at this
        exact this
      · exact fun H t ht hH => hk H t ht fun h => ⟨(hG (hH h).1).1, (hH h).2⟩
      · have := hsound (hG h).1
        rw [pick, (hG h).2] at this
        exact this
      · exact fun H t ht hH => hk H t ht fun h => ⟨(hG (hH h).1).1, (hH h).2⟩

theorem prune_computes (htr : Computes X σ F rest ty v tr) :
    Computes X σ F rest ty v (prune T F tr) :=
  bind_computes hσ hT htr fun _ _ ht h => computes_leaf ht fun hG => (h hG).2

theorem ofAtom_computes (ha : atom.HasTy X [] [] .bool) (hv : F.Hold σ → atom.eval σ [] = v) :
    Computes X σ F [] .bool v (ofAtom T F atom) :=
  test_computes hσ hT ha (fun _ hG => computes_bool fun h => (hv (hG h).1).symm.trans (hG h).2)
    (fun _ hG => computes_bool fun h => (hv (hG h).1).symm.trans (hG h).2)

theorem all_computes {cs : List (Facts → Tree)} {bs : List Bool}
    (h : List.Forall₂ (Decides X σ F) cs bs) :
    Computes X σ F [] .bool (.bool (bs.all id)) (all T cs F) := by
  induction cs generalizing F bs with
  | nil =>
    cases h
    exact computes_bool fun _ => rfl
  | cons c cs ih =>
    cases h with
    | @cons _ b _ bs hc hcs =>
      refine bind_computes hσ hT (hc F id) fun G t ht hG => test_computes hσ hT ht ?_ ?_
      · intro H hH
        have hb : H.Hold σ → b = true := fun h => by
          have := (hG (hH h).1).2.1.symm.trans (hH h).2
          exact Value.bool.inj this
        have hrest := ih (F := H) (hcs.imp fun c b hc K hK => hc K fun h => (hG (hH (hK h)).1).1)
        exact ⟨hrest.hasTy, fun h => by simpa [hb h] using hrest.sound h⟩
      · intro H hH
        refine computes_bool fun h => ?_
        have := (hG (hH h).1).2.1.symm.trans (hH h).2
        rw [Value.bool.inj this]
        rfl

theorem all_map_computes {α : Type} {l : List α} {c : α → Facts → Tree} {b : α → Bool}
    (h : ∀ x ∈ l, Decides X σ F (c x) (b x)) :
    Computes X σ F [] .bool (.bool (l.all b)) (all T (l.map c) F) := by
  have hall : List.Forall₂ (Decides X σ F) (l.map c) (l.map b) := by
    rw [List.forall₂_map_left_iff, List.forall₂_map_right_iff, List.forall₂_same]
    exact h
  simpa using all_computes hσ hT hall

end Rules

end Tree

end RouteInvariants
