import Mathlib.Data.List.Lex
import Mathlib.Data.List.ReduceOption
import Mathlib.Order.Lattice
import RouteInvariants.Merge.Laws
import RouteInvariants.Proofs.Execution
import RouteInvariants.Proofs.Folding
import RouteInvariants.Proofs.PredecessorOrder

/-!
The laws of the merges of optional routes. The values of a sort with an order are ordered as numbers,
signed numbers or texts are (`Value.Precedes`), and this order is linear. The route with the smaller
payload is then the smaller one of two optional values (`compute_minOption`), and the first route that
is present the first one of two (`compute_preferSome`), so that the laws of both merges are those of
`Option.merge min` and of `Option.or`.
-/

namespace RouteInvariants

/-! ### The order of values -/

theorem CodePoint.le_iff (as bs : List CodePoint) : le as bs = true ↔ as ≤ bs := by
  induction as generalizing bs with
  | nil =>
    rw [le, le_iff_eq_or_lt]
    cases bs with
    | nil => simp
    | cons b bs => exact iff_of_true rfl (.inr .nil)
  | cons a as ih =>
    cases bs with
    | nil => simp [le]
    | cons b bs =>
      rw [le, le_iff_eq_or_lt, List.cons_lt_cons_iff, List.cons.injEq]
      by_cases hab : a = b
      · simp [hab, ih, le_iff_eq_or_lt]
      · simp [hab]

namespace Value

/-- The order of the values of a sort: numbers by size, bit-vectors as signed numbers, and texts as in a
dictionary, by code point. -/
inductive Precedes : Value → Value → Prop
  | int {m n : Int} (h : m ≤ n) : Precedes (int m) (int n)
  | real {p q : Rat} (h : p ≤ q) : Precedes (real p) (real q)
  | text {as bs : List CodePoint} (h : as ≤ bs) : Precedes (text as) (text bs)
  | bits {w : Nat} {a b : BitVec w} (h : a.toInt ≤ b.toInt) : Precedes (bits w a) (bits w b)

variable {s : Ty} {u v w : Value}

theorem le_iff_precedes (hs : Typed.hasOrder s = true) (hu : u.fits s = true)
    (hv : v.fits s = true) : u.le v = true ↔ u.Precedes v := by
  have hu := shape_of_fits hu
  have hv := shape_of_fits hv
  cases s <;> simp only [Typed.hasOrder, Bool.false_eq_true] at hs
  all_goals
    obtain ⟨x, rfl⟩ := hu
    obtain ⟨y, rfl⟩ := hv
    rw [le]
  · rw [decide_eq_true_eq]
    exact ⟨.int, fun h => by cases h; assumption⟩
  · rw [decide_eq_true_eq]
    exact ⟨.real, fun h => by cases h; assumption⟩
  · rw [CodePoint.le_iff]
    exact ⟨.text, fun h => by cases h; assumption⟩
  · rw [BitVec.setWidth_eq, BitVec.sle_iff_toInt_le]
    exact ⟨.bits, fun h => by cases h; assumption⟩

theorem Precedes.trans (h : u.Precedes v) (h' : v.Precedes w) : u.Precedes w := by
  cases h with
  | int h => cases h' with | int h' => exact .int (h.trans h')
  | real h => cases h' with | real h' => exact .real (h.trans h')
  | text h => cases h' with | text h' => exact .text (h.trans h')
  | bits h => cases h' with | bits h' => exact .bits (h.trans h')

theorem Precedes.antisymm (h : u.Precedes v) (h' : v.Precedes u) : u = v := by
  cases h with
  | int h => cases h' with | int h' => rw [h.antisymm h']
  | real h => cases h' with | real h' => rw [h.antisymm h']
  | text h => cases h' with | text h' => rw [h.antisymm h']
  | bits h => cases h' with | bits h' => rw [BitVec.eq_of_toInt_eq (h.antisymm h')]

theorem precedes_total (hs : Typed.hasOrder s = true) (hu : u.fits s = true)
    (hv : v.fits s = true) : u.Precedes v ∨ v.Precedes u := by
  have hu := shape_of_fits hu
  have hv := shape_of_fits hv
  cases s <;> simp only [Typed.hasOrder, Bool.false_eq_true] at hs
  all_goals
    obtain ⟨x, rfl⟩ := hu
    obtain ⟨y, rfl⟩ := hv
  · exact (le_total x y).imp .int .int
  · exact (le_total x y).imp .real .real
  · exact (le_total x y).imp .text .text
  · exact (le_total x.toInt y.toInt).imp .bits .bits

end Value

/-! ### Optional routes -/

/-- A value of a sort. -/
@[ext] structure Ty.Payload (s : Ty) where
  value : Value
  fits : value.fits s = true

namespace Ty.Payload

variable {s : Ty} [hs : Fact (Typed.hasOrder s = true)]

instance : LinearOrder s.Payload where
  le a b := a.value.Precedes b.value
  le_refl a := (Value.le_iff_precedes hs.out a.fits a.fits).1 (Value.le_refl hs.out a.fits)
  le_trans _ _ _ := .trans
  le_antisymm _ _ h h' := Ty.Payload.ext (h.antisymm h')
  le_total a b := Value.precedes_total hs.out a.fits b.fits
  toDecidableLE a b := decidable_of_iff _ (Value.le_iff_precedes hs.out a.fits b.fits)

end Ty.Payload

namespace Ty

variable {s : Ty}

/-- The optional route with a payload, if there is one. -/
def routeValue : Option s.Payload → Value
  | none => .none
  | some a => .some a.value

theorem routeValue_injective : Function.Injective (routeValue (s := s)) := by
  intro a b h
  cases a with
  | none =>
    cases b with
    | none => rfl
    | some b => cases h
  | some a =>
    cases b with
    | none => cases h
    | some b =>
      rw [routeValue, routeValue, Value.some, Value.some, Value.app.injEq] at h
      exact congrArg Option.some (Payload.ext h.2)

theorem fits_option_iff {v : Value} : v.fits (.option s) = true ↔
    ∃ a : Option s.Payload, v = routeValue a := by
  constructor
  · intro h
    rcases Value.of_fits_option h with rfl | ⟨w, hw, rfl⟩
    · exact ⟨none, rfl⟩
    · exact ⟨some ⟨w, hw⟩, rfl⟩
  · rintro ⟨a, rfl⟩
    cases a with
    | none => rfl
    | some a => exact a.fits

/-- The route as a value with its sort. -/
def route (a : Option s.Payload) : SortedValue := ⟨routeValue a, .option s⟩

end Ty


/-! ### Operations at one sort -/

namespace SortedValue

variable {t : Ty} {v w : Value}

theorem unify_same : unify ⟨v, t⟩ ⟨w, t⟩ = .ok (v, w, t) := by
  simp only [unify, widen?, if_true]

theorem ite_same (ht : t ≠ .truth) (b : Bool) :
    ite (ofBool b) ⟨v, t⟩ ⟨w, t⟩ = .ok ⟨if b = true then v else w, t⟩ := by
  have hcond : castTo .bool (ofBool b) = .ok (.bool b) := rfl
  have htrue : (Value.bool b).isTrue = b := by cases b <;> rfl
  simp only [ite, hcond, ht, decide_false, Bool.false_and, Bool.false_eq_true, if_false, unify_same,
    htrue, bind, Except.bind]

theorem compare_eq_same (ht : t ≠ .truth) :
    compare .eq ⟨v, t⟩ ⟨w, t⟩ = .ok (ofBool (decide (v = w))) := by
  simp only [compare, ht, decide_false, Bool.false_and, Bool.false_eq_true, if_false, equal,
    unify_same, bind, Except.bind]

theorem compare_le_same (ht : Typed.hasOrder t = true) :
    compare .le ⟨v, t⟩ ⟨w, t⟩ = .ok (ofBool (v.le w)) := by
  have htruth : t ≠ .truth := by
    rintro rfl
    cases ht
  simp only [compare, htruth, decide_false, Bool.false_and, Bool.and_false, Bool.or_false,
    Bool.false_eq_true, if_false, ordered, ht, Bool.true_or, if_true, unify_same, holds, bind,
    Except.bind]

end SortedValue

namespace Ty

variable {s : Ty}

theorem option_ne_truth : Ty.option s ≠ .truth := nofun

theorem isDeclared_option (hs : s.isDeclared = true) : (Ty.option s).isDeclared = true := by
  simp [option, isDeclared, Ctors.grounded, Ctors.isDeclared, Fields.isDeclared, Fields.hasSelf, hs]

/-- What is read as the payload of a route; one that is not there may be anything. -/
def payloadOf (σ : Assignment) : Option s.Payload → Value
  | none => σ.absent (.option s) 1 0 .none
  | some a => a.value

end Ty

/-! ### The merges as functions -/

section Functions

open Ty (route payloadOf)

variable {s : Ty} {σ : Assignment} {args : List SortedValue} {i : Nat} {a : Option s.Payload}

theorem compute_isNone (hi : args[i]? = some (route a)) :
    (Expr.isNone (.arg i)).compute σ args = .ok (.ofBool a.isNone) := by
  simp only [Expr.isNone, Expr.compute, hi]
  cases a <;> rfl

theorem compute_isSome (hi : args[i]? = some (route a)) :
    (Expr.isSome (.arg i)).compute σ args = .ok (.ofBool a.isSome) := by
  simp only [Expr.isSome, Expr.compute, hi]
  cases a <;> rfl

theorem compute_payload (hi : args[i]? = some (route a)) :
    (Expr.payload (.arg i)).compute σ args = .ok ⟨payloadOf σ a, s⟩ := by
  simp only [Expr.payload, Expr.compute, hi]
  cases a <;> rfl

theorem ite_route (c : Bool) (a b : Option s.Payload) :
    SortedValue.ite (.ofBool c) (route a) (route b) = .ok (route (if c = true then a else b)) := by
  rw [route, route, SortedValue.ite_same Ty.option_ne_truth]
  cases c <;> rfl

namespace Merge

/-- Of two routes that are present, the one with the smaller payload is chosen. -/
theorem compute_minOption [hs : Fact (Typed.hasOrder s = true)] (a b : Option s.Payload) :
    minOption.compute σ (route a) (route b) = .ok (route (a.merge Min.min b)) := by
  have ha : [route a, route b][0]? = some (route a) := rfl
  have hb : [route a, route b][1]? = some (route b) := rfl
  have hcompute : minOption.compute σ (route a) (route b) =
      .ok (route (if a.isNone = true then b else if b.isNone = true then a
        else if (payloadOf σ a).le (payloadOf σ b) = true then a else b)) := by
    rw [compute, minOption]
    simp only [Expr.compute, compute_isNone ha, compute_isNone hb, compute_payload ha,
      compute_payload hb, ha, hb, SortedValue.compare_le_same hs.out, ite_route, bind, Except.bind]
  rw [hcompute]
  cases a with
  | none => rw [Option.isNone_none, if_pos rfl, Option.merge_none_left]
  | some x =>
    cases b with
    | none => rfl
    | some y =>
      have hle : x.value.le y.value = true ↔ x ≤ y := Value.le_iff_precedes hs.out x.fits y.fits
      simp only [Option.isNone_some, Bool.false_eq_true, if_false, payloadOf, hle,
        Option.merge_some_some, min_def]
      split <;> rfl

/-- The first route is chosen, if it is present. -/
theorem compute_preferSome (a b : Option s.Payload) :
    preferSome.compute σ (route a) (route b) = .ok (route (a.or b)) := by
  have ha : [route a, route b][0]? = some (route a) := rfl
  have hb : [route a, route b][1]? = some (route b) := rfl
  rw [compute, preferSome]
  simp only [Expr.compute, compute_isSome ha, ha, hb, ite_route, bind, Except.bind]
  cases a <;> rfl

end Merge

/-- A payload that is a number, increased by another one. -/
def Ty.Payload.shift (c : Int) (a : Ty.Payload .int) : Ty.Payload .int :=
  ⟨a.value.add (.int c), Value.fits_add a.fits⟩

theorem Transfer.compute_omap_incr (c : Int) (a : Option (Ty.Payload .int)) :
    (Transfer.omap (.incr c)).compute σ (route a) = .ok (route (a.map (.shift c))) := by
  have ha : [route a][0]? = some (route a) := rfl
  have hsent : (Transfer.omap (.incr c)).compute σ (route a) =
      SortedValue.ite (.ofBool a.isSome) ⟨.some ((payloadOf σ a).add (.int c)), .option .int⟩
        (route a) := by
    rw [compute, omap]
    simp only [Expr.compute, Expr.computeAll, compute_isSome ha, compute_payload ha, ha,
      Transfer.apply, incr, List.getElem?_cons_zero, SortedValue.addInt, bind, Except.bind]
    rfl
  rw [hsent, route, SortedValue.ite_same Ty.option_ne_truth]
  cases a <;> rfl

theorem compute_absent (hs : s.isDeclared = true) :
    (Expr.absent (.option s)).compute σ args = .ok (route (s := s) none) := by
  have hoption : (Ty.option s).isOption = true := rfl
  have hlookUp : (Ty.option s).lookUpError? = none := rfl
  simp only [Expr.absent, hoption, if_true, Expr.compute, hlookUp, Ty.isDeclared_option hs]
  rfl

end Functions

/-! ### Laws -/

/-- A formula over arguments of the sorts `Γ` can be formed, and it is true whatever they are. -/
def Expr.IsLaw (Γ : List Ty) (e : Expr) : Prop :=
  ∃ t, e.elaborate Γ = .ok ⟨t, .bool⟩ ∧ ∀ (σ : Assignment) (vs : List Value),
    List.Forall₂ (fun s v => Value.fits s v = true) Γ vs → t.eval σ vs = .bool true

/-- The merge obeys a law on the routes of a sort. -/
def Merge.Obeys (m : Merge) (ty : Ty) (l : MergeLaw) : Prop :=
  (m.law l (.arg 0) (.arg 1) (.arg 2)).IsLaw [ty, ty, ty]

/-- To merge a route with the absent one, on either side, does not change it. -/
def Merge.HasIdentity (m : Merge) (ty : Ty) : Prop :=
  (Expr.compare .eq (m.apply (.absent ty) (.arg 0)) (.arg 0)).IsLaw [ty] ∧
    (Expr.compare .eq (m.apply (.arg 0) (.absent ty)) (.arg 0)).IsLaw [ty]

/-- Routes may be merged before they are sent, or after. -/
def Transfer.DistributesOver (f : Transfer) (m : Merge) (ty : Ty) : Prop :=
  (Expr.compare .eq (f.apply (m.apply (.arg 0) (.arg 1)))
    (m.apply (f.apply (.arg 0)) (f.apply (.arg 1)))).IsLaw [ty, ty]

section Laws

open Ty (route routeValue)

variable {s : Ty}

/-- On `k` optional routes the expression is a function of them. -/
def Expr.Denotes (e : Expr) (k : Nat) (f : List (Option s.Payload) → Option s.Payload) : Prop :=
  ∀ (σ : Assignment) (as : List (Option s.Payload)), as.length = k →
    e.compute σ (as.map route) = .ok (route (f as))

/-- On two optional routes the merge is an operation. -/
def Merge.Denotes (m : Merge) (op : Option s.Payload → Option s.Payload → Option s.Payload) : Prop :=
  ∀ (σ : Assignment) (a b : Option s.Payload),
    m.compute σ (route a) (route b) = .ok (route (op a b))

/-- On optional routes the transfer is a function. -/
def Transfer.Denotes (f : Transfer) (g : Option s.Payload → Option s.Payload) : Prop :=
  ∀ (σ : Assignment) (a : Option s.Payload), f.compute σ (route a) = .ok (route (g a))

namespace Expr

variable {l r : Expr} {k : Nat} {f g : List (Option s.Payload) → Option s.Payload}

theorem denotes_arg {i : Nat} (hi : i < k) :
    (Expr.arg i).Denotes k fun as : List (Option s.Payload) => as[i]?.join := by
  intro σ as hlen
  have hi : i < as.length := hlen ▸ hi
  simp only [compute, List.getElem?_map, List.getElem?_eq_getElem hi, Option.map_some,
    Option.join_some]

theorem denotes_absent (hs : s.isDeclared = true) :
    (Expr.absent (.option s)).Denotes k fun _ : List (Option s.Payload) => none :=
  fun _ _ _ => compute_absent hs

theorem Denotes.merge {m : Merge} {op : Option s.Payload → Option s.Payload → Option s.Payload}
    (hm : m.Denotes op) (hl : l.Denotes k f) (hr : r.Denotes k g) :
    (m.apply l r).Denotes k fun as => op (f as) (g as) := by
  intro σ as hlen
  simp only [Merge.apply, compute, hl σ as hlen, hr σ as hlen, bind, Except.bind]
  exact hm σ (f as) (g as)

theorem Denotes.transfer {t : Transfer} {h : Option s.Payload → Option s.Payload}
    (ht : t.Denotes h) (hl : l.Denotes k f) : (t.apply l).Denotes k fun as => h (f as) := by
  intro σ as hlen
  simp only [Transfer.apply, compute, hl σ as hlen, bind, Except.bind]
  exact ht σ (f as)

/-- Values of an option sort are optional routes. -/
theorem exists_routes {vs : List Value}
    (h : List.Forall₂ (fun s v => Value.fits s v = true) (List.replicate k (.option s)) vs) :
    ∃ as : List (Option s.Payload), as.length = k ∧ vs = as.map routeValue := by
  induction k generalizing vs with
  | zero =>
    cases h
    exact ⟨[], rfl, rfl⟩
  | succ k ih =>
    obtain ⟨v, vs, hv, hvs, rfl⟩ := List.forall₂_cons_left_iff.1 h
    obtain ⟨a, rfl⟩ := Ty.fits_option_iff.1 hv
    obtain ⟨as, hlen, rfl⟩ := ih hvs
    exact ⟨a :: as, congrArg (· + 1) hlen, rfl⟩

theorem forall₂_fits_routes (as : List (Option s.Payload)) :
    List.Forall₂ (fun s v => Value.fits s v = true) (List.replicate as.length (.option s))
      (as.map routeValue) := by
  induction as with
  | nil => exact .nil
  | cons a as ih => exact .cons (Ty.fits_option_iff.2 ⟨a, rfl⟩) ih

/-- An equation of routes is a law exactly where its sides are the same function. -/
theorem isLaw_iff (hl : l.Denotes k f) (hr : r.Denotes k g) :
    (Expr.compare .eq l r).IsLaw (List.replicate k (.option s)) ↔
      ∀ as : List (Option s.Payload), as.length = k → f as = g as := by
  classical
  -- what the equation elaborates to has the truth of the equation as its value
  have hvalue (σ : Assignment) {as : List (Option s.Payload)} (hlen : as.length = k) :
      Typed.valueAt σ (as.map routeValue) <$>
        (Expr.compare .eq l r).elaborate (List.replicate k (.option s)) =
          .ok (.ofBool (decide (f as = g as))) := by
    have hcompute : (Expr.compare .eq l r).compute σ (as.map route) =
        .ok (.ofBool (decide (f as = g as))) := by
      simp only [compute, hl σ as hlen, hr σ as hlen, bind, Except.bind, route,
        SortedValue.compare_eq_same Ty.option_ne_truth, Ty.routeValue_injective.eq_iff]
    have hvalues : (as.map route).map SortedValue.value = as.map routeValue := List.map_map
    have htys : (as.map route).map SortedValue.ty = List.replicate k (.option s) := by
      rw [List.map_map, ← hlen]
      exact List.map_const' ..
    rw [← hcompute, compute_eq, hvalues, htys]
  constructor
  · rintro ⟨t, ht, hall⟩ as hlen
    obtain ⟨σ, -⟩ := Assignment.exists_wellSorted
    have hv := hvalue σ hlen
    rw [ht, map_ok, Except.ok.injEq, Typed.valueAt, SortedValue.ofBool, SortedValue.mk.injEq,
      hall σ _ (hlen ▸ forall₂_fits_routes as), Value.bool.injEq] at hv
    exact of_decide_eq_true hv.1.symm
  · intro h
    obtain ⟨σ, -⟩ := Assignment.exists_wellSorted
    obtain ⟨⟨t, ty⟩, ht, hv⟩ := map_eq_ok.1 (hvalue σ (List.length_replicate (n := k) (a := none)))
    cases congrArg SortedValue.ty hv
    refine ⟨t, ht, fun τ vs hvs => ?_⟩
    obtain ⟨as, hlen, rfl⟩ := exists_routes hvs
    have hv := hvalue τ hlen
    rw [ht, map_ok, decide_eq_true (h as hlen)] at hv
    exact congrArg SortedValue.value (Except.ok.inj hv)

end Expr

namespace Merge

variable {m : Merge} {op : Option s.Payload → Option s.Payload → Option s.Payload}

theorem obeys_idempotent_iff (hm : m.Denotes op) :
    m.Obeys (.option s) .idempotent ↔ Std.IdempotentOp op := by
  have h₀ := Expr.denotes_arg (s := s) (Nat.succ_pos 2)
  refine (Expr.isLaw_iff (.merge hm h₀ h₀) h₀).trans ?_
  exact ⟨fun h => ⟨fun a => h [a, a, a] rfl⟩, fun h as _ => h.idempotent _⟩

theorem obeys_commutative_iff (hm : m.Denotes op) :
    m.Obeys (.option s) .commutative ↔ Std.Commutative op := by
  have harg (i : Nat) (hi : i < 3) := Expr.denotes_arg (s := s) hi
  have h₀ := harg 0 (by decide)
  have h₁ := harg 1 (by decide)
  refine (Expr.isLaw_iff (.merge hm h₀ h₁) (.merge hm h₁ h₀)).trans ?_
  exact ⟨fun h => ⟨fun a b => h [a, b, a] rfl⟩, fun h as _ => h.comm _ _⟩

theorem obeys_associative_iff (hm : m.Denotes op) :
    m.Obeys (.option s) .associative ↔ Std.Associative op := by
  have harg (i : Nat) (hi : i < 3) := Expr.denotes_arg (s := s) hi
  have h₀ := harg 0 (by decide)
  have h₁ := harg 1 (by decide)
  have h₂ := harg 2 (by decide)
  refine (Expr.isLaw_iff (.merge hm (.merge hm h₀ h₁) h₂) (.merge hm h₀ (.merge hm h₁ h₂))).trans ?_
  exact ⟨fun h => ⟨fun a b c => h [a, b, c] rfl⟩, fun h as _ => h.assoc _ _ _⟩

theorem hasIdentity_iff (hm : m.Denotes op) (hs : s.isDeclared = true) :
    m.HasIdentity (.option s) ↔ (∀ a, op none a = a) ∧ ∀ a, op a none = a := by
  have harg := Expr.denotes_arg (s := s) Nat.one_pos
  have habsent := Expr.denotes_absent (k := 1) hs
  refine and_congr ((Expr.isLaw_iff (.merge hm habsent harg) harg).trans ?_)
    ((Expr.isLaw_iff (.merge hm harg habsent) harg).trans ?_)
  · exact ⟨fun h a => h [a] rfl, fun h as _ => h _⟩
  · exact ⟨fun h a => h [a] rfl, fun h as _ => h _⟩

theorem distributesOver_iff {f : Transfer} {g : Option s.Payload → Option s.Payload}
    (hf : f.Denotes g) (hm : m.Denotes op) :
    f.DistributesOver m (.option s) ↔ ∀ a b, g (op a b) = op (g a) (g b) := by
  have harg (i : Nat) (hi : i < 2) := Expr.denotes_arg (s := s) hi
  have h₀ := harg 0 (by decide)
  have h₁ := harg 1 (by decide)
  refine (Expr.isLaw_iff (.transfer hf (.merge hm h₀ h₁))
    (.merge hm (.transfer hf h₀) (.transfer hf h₁))).trans ?_
  exact ⟨fun h a b => h [a, b] rfl, fun h as _ => h _ _⟩

/-! ### Folds -/

theorem foldlM_compute (hm : m.Denotes op) (σ : Assignment) (a : Option s.Payload)
    (as : List (Option s.Payload)) :
    (as.map route).foldlM (m.compute σ) (route a) = .ok (route (as.foldl op a)) := by
  induction as generalizing a with
  | nil => rfl
  | cons b as ih =>
    rw [List.map_cons, List.foldlM_cons, hm σ a b]
    exact ih (op a b)

end Merge

/-- Terms of an option sort stand for optional routes. -/
theorem exists_routes_of_isClosed {xs : List Typed} (hs : s.isDeclared = true)
    (hxs : ∀ x ∈ xs, x.IsClosed ∧ x.ty = .option s) {σ : Assignment} (hσ : σ.WellSorted) :
    ∃ as : List (Option s.Payload), xs.map (Typed.valueAt σ []) = as.map route := by
  induction xs with
  | nil => exact ⟨[], rfl⟩
  | cons x xs ih =>
    rw [List.forall_mem_cons] at hxs
    obtain ⟨⟨hclosed, hty⟩, hxs⟩ := hxs
    have hdeclared : x.ty.isDeclared = true := hty ▸ Ty.isDeclared_option hs
    obtain ⟨a, ha⟩ := Ty.fits_option_iff.1 (hty ▸ hclosed.eval_fits hdeclared hσ)
    obtain ⟨as, has⟩ := ih hxs
    refine ⟨a :: as, ?_⟩
    rw [List.map_cons, has, List.map_cons, Typed.valueAt, ha, hty]
    rfl

/-- Routes are merged one after another as the operation of the merge says. -/
theorem mergeAll_routes {net : Network}
    {op : Option s.Payload → Option s.Payload → Option s.Payload} (hm : net.merge.Denotes op)
    (hs : s.isDeclared = true) {x : Typed} {xs : List Typed}
    (hxs : ∀ y ∈ x :: xs, y.IsClosed ∧ y.ty = .option s) :
    ∃ u, net.mergeAll x xs = .ok u ∧ u.ty = .option s ∧ ∀ σ : Assignment, σ.WellSorted →
      ∃ (a : Option s.Payload) (as : List (Option s.Payload)),
        ((x :: xs).map fun y => y.term.eval σ []) = (a :: as).map routeValue ∧
          u.term.eval σ [] = routeValue (as.foldl op a) := by
  have hmerge {σ : Assignment} (hσ : σ.WellSorted) :
      ∃ (a : Option s.Payload) (as : List (Option s.Payload)),
        (x :: xs).map (Typed.valueAt σ []) = (a :: as).map route ∧
          Typed.valueAt σ [] <$> net.mergeAll x xs = .ok (route (as.foldl op a)) := by
    obtain ⟨bs, hbs⟩ := exists_routes_of_isClosed hs hxs hσ
    cases bs with
    | nil => cases hbs
    | cons a as =>
      obtain ⟨hx, htail⟩ := List.cons.inj hbs
      refine ⟨a, as, hbs, ?_⟩
      rw [Network.valueAt_mergeAll, hx, htail, Merge.foldlM_compute hm]
  obtain ⟨σ, hσ⟩ := Assignment.exists_wellSorted
  obtain ⟨a, as, -, hvalue⟩ := hmerge hσ
  obtain ⟨u, hu, huv⟩ := map_eq_ok.1 hvalue
  refine ⟨u, hu, congrArg SortedValue.ty huv, fun τ hτ => ?_⟩
  obtain ⟨b, bs, hroutes, hvalue⟩ := hmerge hτ
  rw [hu] at hvalue
  refine ⟨b, bs, ?_, congrArg SortedValue.value (Except.ok.inj hvalue)⟩
  have hvalues := congrArg (List.map SortedValue.value) hroutes
  rwa [List.map_map, List.map_map] at hvalues

/-- The least payload of some routes, and no route where there is no payload. -/
def Value.IsLeastOf (r : Value) (rs : List Value) : Prop :=
  r = .none ∧ (∀ x ∈ rs, x = .none) ∨
    ∃ v, r = .some v ∧ .some v ∈ rs ∧ ∀ w, .some w ∈ rs → v.Precedes w

theorem foldl_merge_min {α : Type} [LinearOrder α] (a : Option α) (as : List (Option α)) :
    as.foldl (Option.merge min) a = (a :: as).reduceOption.min? := by
  induction as generalizing a with
  | nil => cases a <;> rfl
  | cons b as ih =>
    rw [List.foldl_cons, ih]
    cases a with
    | none => rw [Option.merge_none_left, List.reduceOption_cons_of_none]
    | some x =>
      cases b with
      | none =>
        rw [Option.merge_none_right, List.reduceOption_cons_of_some, List.reduceOption_cons_of_some,
          List.reduceOption_cons_of_none]
      | some y =>
        rw [Option.merge_some_some, List.reduceOption_cons_of_some, List.reduceOption_cons_of_some,
          List.reduceOption_cons_of_some, List.min?_cons', List.min?_cons', List.foldl_cons]

theorem isLeastOf_foldl [Fact (Typed.hasOrder s = true)] (a : Option s.Payload)
    (as : List (Option s.Payload)) :
    (routeValue (as.foldl (Option.merge min) a)).IsLeastOf ((a :: as).map routeValue) := by
  rw [foldl_merge_min]
  cases hleast : (a :: as).reduceOption.min? with
  | none =>
    refine .inl ⟨rfl, fun x hx => ?_⟩
    obtain ⟨b, hb, rfl⟩ := List.mem_map.1 hx
    cases b with
    | none => rfl
    | some v =>
      rw [List.min?_eq_none_iff] at hleast
      have hv := List.reduceOption_mem_iff.2 hb
      rw [hleast] at hv
      cases hv
  | some v =>
    obtain ⟨hmem, hle⟩ := List.min?_eq_some_iff.1 hleast
    refine .inr ⟨v.value, rfl, List.mem_map.2 ⟨some v, List.reduceOption_mem_iff.1 hmem, rfl⟩,
      fun w hw => ?_⟩
    obtain ⟨b, hb, hbw⟩ := List.mem_map.1 hw
    cases b with
    | none => cases hbw
    | some b =>
      cases hbw
      exact hle b (List.reduceOption_mem_iff.2 hb)

end Laws

/-! ### The laws of both merges -/

/-- Two values of the sort can be compared by `≤`. -/
def Ty.HasLe (s : Ty) : Prop :=
  ∃ x, (Expr.compare .le (.arg 0) (.arg 1)).elaborate [s, s] = .ok x

theorem Ty.hasLe_iff {s : Ty} (hs : s.isDeclared = true) : s.HasLe ↔ Typed.hasOrder s = true := by
  have htruth : s ≠ .truth := by
    rintro rfl
    cases hs
  have hunify : Typed.unify ⟨.arg 0, s⟩ ⟨.arg 1, s⟩ = .ok (.arg 0, .arg 1, s) := by
    have hwiden : Typed.widen? s ⟨.arg 1, s⟩ = some (.arg 1) := if_pos rfl
    rw [Typed.unify, hwiden]
  have helaborate : (Expr.compare .le (.arg 0) (.arg 1)).elaborate [s, s] =
      if Typed.hasOrder s = true then .ok (.ofBool (.le (.arg 0) (.arg 1)))
      else .error .unsupported := by
    simp only [Expr.elaborate, List.getElem?_cons_zero, List.getElem?_cons_succ, Typed.compare,
      htruth, decide_false, Bool.false_and, Bool.and_false, Bool.or_self, Bool.false_eq_true,
      if_false, Typed.ordered, hunify, Typed.orderTerm, bind, Except.bind]
  rw [HasLe, helaborate]
  by_cases h : Typed.hasOrder s = true
  · rw [if_pos h]
    exact iff_of_true ⟨_, rfl⟩ h
  · rw [if_neg h]
    refine iff_of_false ?_ h
    rintro ⟨x, hx⟩
    cases hx

section Merges

variable {s : Ty}

theorem minOption_denotes [Fact (Typed.hasOrder s = true)] :
    Merge.minOption.Denotes (Option.merge (min : s.Payload → s.Payload → s.Payload)) :=
  fun _ => Merge.compute_minOption

theorem preferSome_denotes :
    Merge.preferSome.Denotes (Option.or : Option s.Payload → Option s.Payload → Option s.Payload) :=
  fun _ => Merge.compute_preferSome

theorem minOption_obeys [Fact (Typed.hasOrder s = true)] (l : MergeLaw) :
    Merge.minOption.Obeys (.option s) l := by
  have hmin := minOption_denotes (s := s)
  cases l with
  | idempotent => exact (Merge.obeys_idempotent_iff hmin).2 inferInstance
  | commutative => exact (Merge.obeys_commutative_iff hmin).2 inferInstance
  | associative => exact (Merge.obeys_associative_iff hmin).2 inferInstance

/-- What a network merges to is the least of the routes. -/
theorem exists_mergeAll_isLeastOf [Fact (Typed.hasOrder s = true)] (hs : s.isDeclared = true)
    {net : Network} (hnet : net.merge = .minOption) {x : Typed} {xs : List Typed}
    (hxs : ∀ y ∈ x :: xs, y.IsClosed ∧ y.ty = .option s) :
    ∃ u, net.mergeAll x xs = .ok u ∧ u.ty = .option s ∧ ∀ σ : Assignment, σ.WellSorted →
      (u.term.eval σ []).IsLeastOf ((x :: xs).map fun y => y.term.eval σ []) := by
  obtain ⟨u, hu, hty, hvalue⟩ := mergeAll_routes (hnet ▸ minOption_denotes) hs hxs
  refine ⟨u, hu, hty, fun σ hσ => ?_⟩
  obtain ⟨a, as, hroutes, hfold⟩ := hvalue σ hσ
  rw [hroutes, hfold]
  exact isLeastOf_foldl a as

/-- The first of two optional values does not depend on their order only where there is at most one. -/
theorem or_commutative_iff {α : Type} :
    Std.Commutative (Option.or : Option α → Option α → Option α) ↔ ∀ a b : α, a = b := by
  constructor
  · intro h a b
    exact Option.some.inj (h.comm (some a) (some b))
  · intro h
    refine ⟨fun a b => ?_⟩
    cases a with
    | none => rw [Option.none_or, Option.or_none]
    | some a =>
      cases b with
      | none => rfl
      | some b => rw [h a b]

theorem preferSome_commutative_iff : Merge.preferSome.Obeys (.option s) .commutative ↔
    ∀ v w : Value, v.fits s = true → w.fits s = true → v = w := by
  rw [Merge.obeys_commutative_iff preferSome_denotes, or_commutative_iff]
  constructor
  · intro h v w hv hw
    exact congrArg Ty.Payload.value (h ⟨v, hv⟩ ⟨w, hw⟩)
  · intro h a b
    exact Ty.Payload.ext (h _ _ a.fits b.fits)

end Merges

section Counts

instance : Fact (Typed.hasOrder .int = true) := ⟨rfl⟩

theorem Ty.Payload.shift_monotone (c : Int) : Monotone (shift c) := by
  rintro ⟨v, hv⟩ ⟨w, hw⟩ (h : v.Precedes w)
  cases h with
  | int h => exact Value.Precedes.int (Int.add_le_add_right h c)
  | real h => cases hv
  | text h => cases hv
  | bits h => cases hv

theorem omap_incr_distributesOver (c : Int) :
    (Transfer.omap (.incr c)).DistributesOver .minOption (.option .int) := by
  refine (Merge.distributesOver_iff (fun _ => Transfer.compute_omap_incr c)
    minOption_denotes).2 fun a b => ?_
  cases a with
  | none => rw [Option.merge_none_left, Option.map_none, Option.merge_none_left]
  | some a =>
    cases b with
    | none => rfl
    | some b => exact congrArg some (Ty.Payload.shift_monotone c).map_min

end Counts

/-- Where payloads can be compared, the least route is chosen: the merge is commutative, associative and
idempotent, the absent route is its identity, and what is merged is the least payload present. A number
may be added to numbers before they are merged, or after. The first route that is present is chosen by
an associative and idempotent merge, with the same identity, which is commutative only for payloads of
at most one value. -/
theorem optional_merges_lawful :
    (∀ s : Ty, s.isDeclared = true →
      (s.HasLe ↔ s = .int ∨ s = .real ∨ s = .text ∨ ∃ w, s = .bits w) ∧
      (s.HasLe → (∀ l, Merge.minOption.Obeys (.option s) l) ∧
        Merge.minOption.HasIdentity (.option s) ∧
        ∀ net : Network, net.merge = .minOption → ∀ (x : Typed) (xs : List Typed),
          (∀ y ∈ x :: xs, y.IsClosed ∧ y.ty = .option s) →
            ∃ u, net.mergeAll x xs = .ok u ∧ u.ty = .option s ∧
              ∀ σ : Assignment, σ.WellSorted →
                (u.term.eval σ []).IsLeastOf ((x :: xs).map fun y => y.term.eval σ []))) ∧
    (∀ c : Int, (Transfer.omap (.incr c)).DistributesOver .minOption (.option .int)) ∧
    ∀ s : Ty, s.isDeclared = true →
      Merge.preferSome.Obeys (.option s) .associative ∧
      Merge.preferSome.Obeys (.option s) .idempotent ∧
      Merge.preferSome.HasIdentity (.option s) ∧
      (Merge.preferSome.Obeys (.option s) .commutative ↔
        ∀ v w : Value, v.fits s = true → w.fits s = true → v = w) := by
  refine ⟨fun s hs => ⟨?_, fun hle => ?_⟩, omap_incr_distributesOver, fun s hs => ?_⟩
  · rw [Ty.hasLe_iff hs]
    cases s <;> simp [Typed.hasOrder]
  · have : Fact (Typed.hasOrder s = true) := ⟨(Ty.hasLe_iff hs).1 hle⟩
    refine ⟨minOption_obeys, ?_, fun net hnet x xs hxs => exists_mergeAll_isLeastOf hs hnet hxs⟩
    exact (Merge.hasIdentity_iff minOption_denotes hs).2
      ⟨fun _ => Option.merge_none_left, fun _ => Option.merge_none_right⟩
  · have hfirst := preferSome_denotes (s := s)
    refine ⟨(Merge.obeys_associative_iff hfirst).2 ⟨fun _ _ _ => Option.or_assoc⟩,
      (Merge.obeys_idempotent_iff hfirst).2 ⟨fun _ => Option.or_self⟩, ?_,
      preferSome_commutative_iff⟩
    exact (Merge.hasIdentity_iff hfirst hs).2 ⟨fun _ => Option.none_or, fun _ => Option.or_none⟩

/-- Of the words two and minus three, as three bits, the latter is the smaller one. There is one array of
units over all numbers, so that the first of two is as good as the second there; of truth values there
are two. -/
theorem optional_merges_lawful_words :
    let net : Network := .uniform (.rivals ["A", "B"] (.refl _)) .identity .minOption
      (.option (.bits 3)) rfl (fun _ => .none) fun _ => rfl
    let word (b : BitVec 3) : Typed := ⟨.const (.some (.bits 3 b)), .option (.bits 3)⟩
    (Ty.bits 3).HasLe ∧ Merge.minOption.Obeys (.option (.bits 3)) .associative ∧
      (∃ u, net.mergeAll (word 2#3) [⟨.const .none, .option (.bits 3)⟩, word 5#3] = .ok u ∧
        ∀ σ : Assignment, σ.WellSorted → u.term.eval σ [] = .some (.bits 3 5#3)) ∧
      Merge.preferSome.Obeys (.option (.array .int .unit)) .commutative ∧
      ¬ Merge.preferSome.Obeys (.option .bool) .commutative := by
  intro net word
  obtain ⟨hmin, -, hfirst⟩ := optional_merges_lawful
  obtain ⟨hle, hlaws⟩ := hmin (.bits 3) rfl
  have hword : (Ty.bits 3).HasLe := hle.2 (.inr (.inr (.inr ⟨3, rfl⟩)))
  obtain ⟨hobeys, -, hfold⟩ := hlaws hword
  have hconst {v : Value} (hv : v.fits (.option (.bits 3)) = true) :
      (Typed.mk (.const v) (.option (.bits 3))).IsClosed ∧ Ty.option (.bits 3) = .option (.bits 3) :=
    ⟨Typed.isClosed_const rfl hv, rfl⟩
  refine ⟨hword, hobeys _, ?_, (hfirst _ rfl).2.2.2.2 fun v w hv hw => ?_, fun h => ?_⟩
  · obtain ⟨u, hu, -, hleast⟩ := hfold net rfl (word 2#3)
      [⟨.const .none, .option (.bits 3)⟩, word 5#3] (List.forall_mem_cons.2 ⟨hconst rfl,
        List.forall_mem_cons.2 ⟨hconst rfl, List.forall_mem_singleton.2 (hconst rfl)⟩⟩)
    refine ⟨u, hu, fun σ hσ => ?_⟩
    rcases hleast σ hσ with ⟨-, hnone⟩ | ⟨v, hv, hmem, hle⟩
    · cases hnone (.some (.bits 3 2#3)) (List.mem_cons_self ..)
    · have hfive := hle (.bits 3 5#3) (by simp [word, Term.eval])
      rw [hv]
      rcases List.mem_cons.1 hmem with h | h
      · cases h
        cases hfive with | bits h => exact absurd h (by decide)
      · rcases List.mem_cons.1 h with h | h
        · cases h
        · exact List.mem_singleton.1 h
  · have hzero {v : Value} (hv : v.fits (.array .int .unit) = true) : v = .array 0 := by
      obtain ⟨p, rfl⟩ := Value.shape_of_fits hv
      have hcount : Ty.unit.countUpTo (p + 1) ≤ 1 := by
        have hrecursive : (Ctors.cons "unit" .nil .nil).recursive = false := rfl
        simp [Ty.countUpTo, Ty.unit, hrecursive, Ctors.countUpTo, Fields.countUpTo]
      rw [Value.fits, decide_eq_true_eq, Ty.countUpTo, if_pos hcount] at hv
      rw [show p = 0 by omega]
    rw [hzero hv, hzero hw]
  · cases (hfirst .bool rfl).2.2.2.1 h (.bool true) (.bool false) rfl rfl

end RouteInvariants
