import RouteInvariants.Proofs.Correspondence
import RouteInvariants.Proofs.Execution

/-!
The variables that are mentioned. A term, an expression and a part of a network mention variables, and
what they stand for depends on the values of these alone (`Expr.compute_congr`). So conditions and
functions on routes mean the same under assignments that agree on what is mentioned
(`sameResult_appliedTo_of_agreeOn`).
-/

namespace RouteInvariants

open Typed (Matches)

namespace Term

variable {X Y : Variable → Prop} {σ τ : Assignment}

theorem AgreeOn.mono (h : AgreeOn X σ τ) (hYX : ∀ x, Y x → X x) : AgreeOn Y σ τ :=
  ⟨fun x hx => h.value x (hYX x hx), h.absent⟩

theorem agreeOn_append {xs ys : List Variable} :
    AgreeOn (· ∈ xs ++ ys) σ τ ↔ AgreeOn (· ∈ xs) σ τ ∧ AgreeOn (· ∈ ys) σ τ := by
  constructor
  · intro h
    exact ⟨h.mono fun _ => List.mem_append_left ys, h.mono fun _ => List.mem_append_right xs⟩
  · rintro ⟨hxs, hys⟩
    exact ⟨fun x hx => (List.mem_append.1 hx).elim (hxs.value x) (hys.value x), hxs.absent⟩

/-! ### Terms -/

def mentioned : Term → List Variable
  | var x => [x]
  | not a | toReal a | isCon _ a | field _ _ _ a => a.mentioned
  | call a b | and a b | or a b | eq a b | le a b | add a b | sub a b | app a b =>
    a.mentioned ++ b.mentioned
  | call2 a b c | ite a b c => a.mentioned ++ (b.mentioned ++ c.mentioned)
  | const _ | arg _ | con _ => []

/-- The value of a term depends on the variables that it mentions. -/
theorem eval_congr {t : Term} (h : AgreeOn (· ∈ t.mentioned) σ τ) (args : List Value) :
    t.eval σ args = t.eval τ args := by
  induction t generalizing args with
  | var x => exact h.value x (List.mem_singleton_self x)
  | const | arg | con => rfl
  | not a ih | toReal a ih | isCon i a ih => rw [eval, eval, ih h]
  | field owner i j a ih => rw [eval, eval, ih h, h.absent]
  | call a b iha ihb | and a b iha ihb | or a b iha ihb | eq a b iha ihb | le a b iha ihb
  | add a b iha ihb | sub a b iha ihb | app a b iha ihb =>
    obtain ⟨ha, hb⟩ := agreeOn_append.1 h
    rw [eval, eval, ihb hb, iha ha]
  | call2 a b c iha ihb ihc | ite a b c iha ihb ihc =>
    obtain ⟨ha, h⟩ := agreeOn_append.1 h
    obtain ⟨hb, hc⟩ := agreeOn_append.1 h
    rw [eval, eval, ihc hc, ihb hb, iha ha]

end Term

/-! ### Expressions -/

namespace Expr

open Term (AgreeOn agreeOn_append)

mutual

def mentioned : Expr → List Variable
  | symbolic name ty => [.symbolic name ty]
  | liftLike _ e | present e | isCon _ e | field _ _ e | addInt e _ | compareWith _ e _ | not e
  | boolean e | asTerm e => e.mentioned
  | call a b | add a b | sub a b | compare _ a b | and a b | or a b | xor a b | implies a b =>
    a.mentioned ++ b.mentioned
  | call2 a b c | ite a b c => a.mentioned ++ (b.mentioned ++ c.mentioned)
  | make _ _ es => mentionedAll es
  | makeLike e _ es => e.mentioned ++ mentionedAll es
  | const _ _ | lift _ _ | arg _ | undefined _ => []

def mentionedAll : List Expr → List Variable
  | [] => []
  | e :: es => e.mentioned ++ mentionedAll es

end

variable {σ τ : Assignment}

mutual

/-- What the interpreter computes depends on the variables that are mentioned. -/
theorem compute_congr : ∀ (args : List SortedValue) {e : Expr},
    AgreeOn (· ∈ e.mentioned) σ τ → e.compute σ args = e.compute τ args
  | args, .symbolic name t, h => by
    rw [compute, compute, h.value _ (List.mem_singleton_self _)]
  | args, .const _ _, _ | args, .lift _ _, _ | args, .arg _, _ | args, .undefined _, _ => rfl
  | args, .field i j e, h => by
    have he := compute_congr args (e := e) (by simpa only [mentioned] using h)
    rw [compute, compute, he, h.absent]
  | args, .liftLike d e, h | args, .present e, h | args, .isCon i e, h | args, .addInt e k, h
  | args, .compareWith op e d, h | args, .not e, h | args, .boolean e, h | args, .asTerm e, h => by
    have he := compute_congr args (e := e) (by simpa only [mentioned] using h)
    simp only [compute, he]
  | args, .call body a, h => by
    obtain ⟨hbody, ha⟩ := agreeOn_append.1 (by simpa only [mentioned] using h)
    simp only [compute, compute_congr args ha, fun x => compute_congr [x] hbody]
  | args, .call2 body a b, h => by
    obtain ⟨hbody, hab⟩ := agreeOn_append.1 (by simpa only [mentioned] using h)
    obtain ⟨ha, hb⟩ := agreeOn_append.1 hab
    simp only [compute, compute_congr args ha, compute_congr args hb,
      fun x y => compute_congr [x, y] hbody]
  | args, .ite c a b, h => by
    obtain ⟨hc, hab⟩ := agreeOn_append.1 (by simpa only [mentioned] using h)
    obtain ⟨ha, hb⟩ := agreeOn_append.1 hab
    simp only [compute, compute_congr args hc, compute_congr args ha, compute_congr args hb]
  | args, .add a b, h | args, .sub a b, h | args, .compare op a b, h | args, .and a b, h
  | args, .or a b, h | args, .xor a b, h | args, .implies a b, h => by
    obtain ⟨ha, hb⟩ := agreeOn_append.1 (by simpa only [mentioned] using h)
    simp only [compute, compute_congr args ha, compute_congr args hb]
  | args, .make t i es, h => by
    have hes : AgreeOn (· ∈ mentionedAll es) σ τ := by simpa only [mentioned] using h
    simp only [compute, computeAll_congr args hes]
  | args, .makeLike e i es, h => by
    obtain ⟨he, hes⟩ := agreeOn_append.1 (by simpa only [mentioned] using h)
    simp only [compute, compute_congr args he, computeAll_congr args hes]

theorem computeAll_congr : ∀ (args : List SortedValue) {es : List Expr},
    AgreeOn (· ∈ mentionedAll es) σ τ → computeAll σ args es = computeAll τ args es
  | _, [], _ => rfl
  | args, e :: es, h => by
    obtain ⟨he, hes⟩ := agreeOn_append.1 (by simpa only [mentionedAll] using h)
    simp only [computeAll, compute_congr args he, computeAll_congr args hes]

end

end Expr

/-! ### Conditions and functions on routes -/

section SameResult

open Term (AgreeOn)

variable {σ τ : Assignment} {x y x' y' : Typed} {body body' : Expr}

theorem Typed.Matches.valueAt_eq (h : Matches σ τ x y) : x.valueAt σ [] = y.valueAt τ [] := by
  rw [Typed.valueAt, Typed.valueAt, h.eval, h.ty]

/-- Closed terms with the same values match. -/
theorem sameResult_of_valueAt {r r' : Except SortError Typed} (hr : ∀ {u}, r = .ok u → u.IsClosed)
    (hr' : ∀ {w}, r' = .ok w → w.IsClosed)
    (h : Typed.valueAt σ [] <$> r = Typed.valueAt τ [] <$> r') : SameResult σ τ r r' where
  right {u} hu := by
    rw [hu] at h
    obtain ⟨w, hw, hvalue⟩ := map_eq_ok.1 h.symm
    exact ⟨w, hw, hr hu, hr' hw, (congrArg SortedValue.ty hvalue).symm,
      (congrArg SortedValue.value hvalue).symm⟩
  left {w} hw := by
    rw [hw] at h
    obtain ⟨u, hu, hvalue⟩ := map_eq_ok.1 h
    exact ⟨u, hu, hr hu, hr' hw, congrArg SortedValue.ty hvalue, congrArg SortedValue.value hvalue⟩

/-- Functions that compute the same values have matching results. -/
theorem sameResult_of_compute (hxy : Matches σ τ x y)
    (h : body.compute σ [x.valueAt σ []] = body'.compute τ [x.valueAt σ []]) :
    SameResult σ τ (body.appliedTo x) (body'.appliedTo y) := by
  refine sameResult_of_valueAt (Expr.isClosed_of_appliedTo hxy.left)
    (Expr.isClosed_of_appliedTo hxy.right) ?_
  rw [Expr.valueAt_appliedTo, Expr.valueAt_appliedTo, h, hxy.valueAt_eq]

theorem sameResult_appliedTo_of_agreeOn (h : AgreeOn (· ∈ body.mentioned) σ τ)
    (hxy : Matches σ τ x y) : SameResult σ τ (body.appliedTo x) (body.appliedTo y) :=
  sameResult_of_compute hxy (Expr.compute_congr _ h)

theorem sameResult_appliedTo₂_of_agreeOn (h : AgreeOn (· ∈ body.mentioned) σ τ)
    (hxy : Matches σ τ x y) (hxy' : Matches σ τ x' y') :
    SameResult σ τ (body.appliedTo₂ x x') (body.appliedTo₂ y y') := by
  refine sameResult_of_valueAt (Expr.isClosed_of_appliedTo₂ hxy.left hxy'.left)
    (Expr.isClosed_of_appliedTo₂ hxy.right hxy'.right) ?_
  rw [Expr.valueAt_appliedTo₂, Expr.valueAt_appliedTo₂, hxy.valueAt_eq, hxy'.valueAt_eq]
  exact Expr.compute_congr _ h

theorem sameResult_elaborate_of_agreeOn {e : Expr} (h : AgreeOn (· ∈ e.mentioned) σ τ) :
    SameResult σ τ (e.elaborate []) (e.elaborate []) := by
  have hclosed {u} (hu : e.elaborate [] = .ok u) : u.IsClosed := Typed.IsDefined.isClosed ⟨e, hu⟩
  refine sameResult_of_valueAt hclosed hclosed ?_
  have hcompute := Expr.compute_congr [] h
  rwa [Expr.compute_eq, Expr.compute_eq] at hcompute

end SameResult

/-! ### Parts of a network -/

/-- The variables that the parts of a dictionary mention. -/
def mentionedIn {κ α : Type} (mentioned : α → List Variable) (es : List (κ × α)) : List Variable :=
  es.flatMap fun e => mentioned e.2

theorem mem_mentionedIn {κ α : Type} [DecidableEq κ] [Inhabited α] (mentioned : α → List Variable)
    (hdefault : mentioned default = []) {es : List (κ × α)} {k : κ} {x : Variable}
    (hx : x ∈ mentioned ((Entries.get? es k).getD default)) : x ∈ mentionedIn mentioned es := by
  cases hk : Entries.get? es k with
  | none =>
    rw [hk, Option.getD_none, hdefault] at hx
    cases hx
  | some a =>
    rw [hk, Option.getD_some] at hx
    exact List.mem_flatMap.2 ⟨(k, a), Entries.mem_of_get? hk, hx⟩

def Network.mentioned (net : Network) : List Variable :=
  net.merge.body.mentioned ++ (mentionedIn (fun f : Transfer => f.body.mentioned) net.transfer ++
    (mentionedIn (fun x : Typed => x.term.mentioned) net.initial.entries ++
      (Symbolic.constraints net.symbolics).mentioned))

def AnnotatedNetwork.mentioned (a : AnnotatedNetwork) : List Variable :=
  a.network.mentioned ++ (mentionedIn (fun inv : Invariant => inv.body.mentioned) a.annotations ++
    (mentionedIn (fun inv : Invariant => inv.body.mentioned) a.modularProperties ++
      mentionedIn (fun p : Predicate => p.body.mentioned) a.monolithicProperties))

namespace Network

open Term (AgreeOn agreeOn_append)

/-- Two assignments agree on what each part of a network mentions. -/
structure AgreeOnParts (net : Network) (σ τ : Assignment) : Prop where
  merge : AgreeOn (· ∈ net.merge.body.mentioned) σ τ
  transfer : ∀ e, AgreeOn (· ∈ (net.transferOf e).body.mentioned) σ τ
  initial : ∀ n, AgreeOn (· ∈ (net.initialOf n).term.mentioned) σ τ
  constraints : AgreeOn (· ∈ (Symbolic.constraints net.symbolics).mentioned) σ τ

theorem agreeOnParts {net : Network} {σ τ : Assignment} (h : AgreeOn (· ∈ net.mentioned) σ τ) :
    net.AgreeOnParts σ τ := by
  obtain ⟨hmerge, h⟩ := agreeOn_append.1 h
  obtain ⟨htransfer, h⟩ := agreeOn_append.1 h
  obtain ⟨hinitial, hconstraints⟩ := agreeOn_append.1 h
  exact ⟨hmerge,
    fun e => htransfer.mono fun _ => mem_mentionedIn (fun f : Transfer => f.body.mentioned) rfl,
    fun n => hinitial.mono fun _ => mem_mentionedIn (fun x : Typed => x.term.mentioned) rfl,
    hconstraints⟩

end Network

namespace AnnotatedNetwork

open Term (AgreeOn agreeOn_append)

/-- Two assignments agree on what the network, the annotations and the properties mention, and so
these mean the same under both. -/
structure AgreeOnParts (a : AnnotatedNetwork) (σ τ : Assignment) : Prop where
  network : a.network.AgreeOnParts σ τ
  invariant : ∀ n, (a.annotationOf n).SameUnder σ τ (a.annotationOf n)
  modular : ∀ n, (a.modularOf n).SameUnder σ τ (a.modularOf n)
  monolithic : ∀ n, (a.monolithicOf n).SameUnder σ τ (a.monolithicOf n)

theorem agreeOnParts {a : AnnotatedNetwork} {σ τ : Assignment} (h : AgreeOn (· ∈ a.mentioned) σ τ) :
    a.AgreeOnParts σ τ := by
  have hinvariant {es : List (String × Invariant)}
      (h : AgreeOn (· ∈ mentionedIn (fun inv : Invariant => inv.body.mentioned) es) σ τ)
      (n : String) : ((Entries.get? es n).getD default).SameUnder σ τ
        ((Entries.get? es n).getD default) := fun _ _ hxy t =>
    sameResult_appliedTo₂_of_agreeOn (h.mono fun _ =>
      mem_mentionedIn (fun inv : Invariant => inv.body.mentioned) rfl) hxy (matches_int t)
  obtain ⟨hnetwork, h⟩ := agreeOn_append.1 h
  obtain ⟨hinvariants, h⟩ := agreeOn_append.1 h
  obtain ⟨hmodular, hmonolithic⟩ := agreeOn_append.1 h
  exact ⟨Network.agreeOnParts hnetwork, hinvariant hinvariants, hinvariant hmodular,
    fun n _ _ hxy => sameResult_appliedTo_of_agreeOn (hmonolithic.mono fun _ =>
      mem_mentionedIn (fun p : Predicate => p.body.mentioned) rfl) hxy⟩

end AnnotatedNetwork

end RouteInvariants
