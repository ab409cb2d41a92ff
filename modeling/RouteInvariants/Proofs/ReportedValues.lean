import RouteInvariants.Proofs.Protocols
import RouteInvariants.Proofs.Replay

/-!
Values as reports show them. The datum of a value leaves out the constructor of an option, shows a
constructor without fields as a text and fields as a tuple or a dictionary. On plain sorts
(`Ty.Plain`) nothing is lost by this: values with data that compare equal are equal
(`toDatum_same_iff`). Data are compared as generously as a reader of a report may compare them
(`Datum.Same`).

The induction is on the arguments of a value (`induction_args`), and the sort goes along with it: the
sorts of the fields of a plain sort are plain.
-/

namespace RouteInvariants

/-! ### Data that compare equal -/

namespace Datum

/-- The number that a datum is. -/
def number? : Datum → Option Rat
  | bool b => some (if b then 1 else 0)
  | int n => some n
  | float x => x.toRat?
  | ratio q => some q
  | _ => none

/-- Data that compare equal: numbers of any type by their value, tuples and lists by position,
dictionaries by key whatever the order of the keys is. -/
inductive Same : Datum → Datum → Prop
  | refl (x : Datum) : Same x x
  | number {x y : Datum} {q : Rat} (hx : x.number? = some q) (hy : y.number? = some q) : Same x y
  | tuple {xs ys : List Datum} (hlength : xs.length = ys.length)
    (h : ∀ (k : Nat) (x y : Datum), xs[k]? = some x → ys[k]? = some y → Same x y) :
    Same (.tuple xs) (.tuple ys)
  | list {xs ys : List Datum} (hlength : xs.length = ys.length)
    (h : ∀ (k : Nat) (x y : Datum), xs[k]? = some x → ys[k]? = some y → Same x y) :
    Same (.list xs) (.list ys)
  | dict {es fs : Named} (hkeys : ∀ k, k ∈ Entries.keys es ↔ k ∈ Entries.keys fs)
    (h : ∀ (k : String) (x y : Datum), Entries.get? es k = some x → Entries.get? fs k = some y →
      Same x y) : Same (.dict es) (.dict fs)

namespace Same

variable {x y : Datum} {p q : Rat} {s r : String} {xs ys : List Datum} {es fs : Named}

theorem number_eq (h : x.Same y) (hx : x.number? = some p) (hy : y.number? = some q) : p = q := by
  cases h with
  | refl => exact Option.some.inj (hx.symm.trans hy)
  | number hx' hy' =>
    exact (Option.some.inj (hx.symm.trans hx')).trans (Option.some.inj (hy'.symm.trans hy))
  | _ => cases hx

theorem eq_null (h : Same .null y) : y = .null := by
  cases h with
  | refl => rfl
  | number hx => cases hx

theorem eq_text (h : Same (.text s) y) : y = .text s := by
  cases h with
  | refl => rfl
  | number hx => cases hx

theorem tuple_elements (h : Same (.tuple xs) (.tuple ys)) (k : Nat) (x y : Datum)
    (hx : xs[k]? = some x) (hy : ys[k]? = some y) : x.Same y := by
  cases h with
  | refl => exact Option.some.inj (hx.symm.trans hy) ▸ .refl x
  | number hx => cases hx
  | tuple _ h => exact h k x y hx hy

theorem dict_values (h : Same (.dict es) (.dict fs)) (k : String) (x y : Datum)
    (hx : Entries.get? es k = some x) (hy : Entries.get? fs k = some y) : x.Same y := by
  cases h with
  | refl => exact Option.some.inj (hx.symm.trans hy) ▸ .refl x
  | number hx => cases hx
  | dict _ h => exact h k x y hx hy

theorem symm (h : x.Same y) : y.Same x := by
  induction h with
  | refl x => exact .refl x
  | number hx hy => exact .number hy hx
  | tuple hlength _ ih => exact .tuple hlength.symm fun k x y hx hy => ih k y x hy hx
  | list hlength _ ih => exact .list hlength.symm fun k x y hx hy => ih k y x hy hx
  | dict hkeys _ ih => exact .dict (fun k => (hkeys k).symm) fun k x y hx hy => ih k y x hy hx

end Same

end Datum

/-! ### Plain sorts -/

/-- Names that only the constructors of options have. -/
def isOptionName (name : String) : Bool := name = "none" || name = "some"

/-- A constructor that is shown as a dictionary of its fields, or by its name if it has none. -/
structure Ctor.Plain (c : Ctor) : Prop where
  name : isOptionName c.name = false
  distinct : (c.fields.map Prod.fst).Nodup
  fields : ∀ f ∈ c.fields, f.1 ≠ "constructor" ∧ f.1.startsWith "project" = false

/-- The sorts whose values are shown without ambiguity. An option is over a sort that is not an
option. In the last case fields can be of the sort itself; the unit is such a sort. -/
inductive Ty.Plain : Ty → Prop
  | bool : Plain .bool
  | int : Plain .int
  | real : Plain .real
  | bits (width : Nat) : Plain (.bits width)
  | text : Plain .text
  | tuple {name : String} {elements : List Ty} (hname : isOptionName name = false)
    (hne : elements ≠ []) (helements : ∀ e ∈ elements, Plain e) : Plain (.tuple name elements)
  | option {e : Ty} (he : Plain e) (hsingle : ∀ s, e ≠ .option s) : Plain (.option e)
  | data {name : String} {cs : Ctors}
    (hdistinct : ((Ty.data name cs).ctors.map Ctor.name).Nodup)
    (hctors : ∀ c ∈ (Ty.data name cs).ctors, c.Plain)
    (hfields : ∀ c ∈ (Ty.data name cs).ctors, ∀ f ∈ c.fields, f.2 ≠ .data name cs → Plain f.2) :
    Plain (.data name cs)

theorem Ty.plain_unit : Ty.unit.Plain := by
  refine .data (List.nodup_singleton _) ?_ ?_
  · intro c hc
    obtain rfl := List.mem_singleton.1 hc
    exact ⟨rfl, List.nodup_nil, fun f hf => absurd hf List.not_mem_nil⟩
  · intro c hc f hf
    obtain rfl := List.mem_singleton.1 hc
    exact absurd hf List.not_mem_nil

theorem Ty.ctors_tuple (name : String) (elements : List Ty) : (Ty.tuple name elements).ctors =
    [⟨name, (tupleFields 0 elements).toList (Ty.tuple name elements)⟩] := rfl

theorem Ty.mem_tupleFields {owner : Ty} {elements : List Ty} {k : Nat} {f : String × Ty}
    (hf : f ∈ (tupleFields k elements).toList owner) :
    f.1.startsWith "project" = true ∧ f.2 ∈ elements := by
  induction elements generalizing k with
  | nil => cases hf
  | cons e es ih =>
    rcases List.mem_cons.1 hf with rfl | hf
    · refine ⟨String.startsWith_string_iff.2 ?_, List.mem_cons_self⟩
      rw [String.toList_append]
      exact List.prefix_append _ _
    · exact ⟨(ih hf).1, List.mem_cons_of_mem e (ih hf).2⟩

namespace Value

/-! ### The data of constructor applications -/

/-- The data of arguments at the sorts of the fields. -/
def argData (fields : List (String × Ty)) (vs : List Value) : List Datum :=
  List.zipWith (fun f a => a.toDatum f.2) fields vs

section Built

variable {t : Ty} {i : Nat} {c : Ctor} (hc : t.ctor? i = Option.some c)
include hc

theorem fieldData_built (done rest : List (String × Ty)) (hfields : c.fields = done ++ rest)
    (vs : List Value) (hlength : vs.length = done.length) :
    fieldData t (built i vs) = argData done vs := by
  induction vs using List.reverseRecOn generalizing done rest with
  | nil =>
    rw [argData, List.zipWith_nil_right]
    rfl
  | append_singleton vs a ih =>
    obtain rfl | ⟨done, f, rfl⟩ := List.eq_nil_or_concat' done
    · cases vs <;> cases hlength
    · rw [List.length_append, List.length_append] at hlength
      have hlength : vs.length = done.length := Nat.add_right_cancel hlength
      have hf : t.field? i vs.length = Option.some f := by
        rw [Ty.field?, hc, Option.bind_some, hfields, hlength, List.append_assoc,
          List.getElem?_append_right le_rfl, Nat.sub_self]
        rfl
      rw [built_concat, fieldData, ih done (f :: rest) (by rw [hfields]; simp) hlength, argData,
        argData, List.zipWith_append hlength.symm]
      simp only [head?_built, args_built, Option.getD_some, hf, Option.map_some]
      rfl

theorem toDatum_built {vs : List Value} (hlength : vs.length = c.fields.length) :
    toDatum t (built i vs) = ctorDatum c (argData c.fields vs) := by
  rw [← fieldData_built hc c.fields [] (List.append_nil _).symm vs hlength]
  obtain rfl | ⟨vs, a, rfl⟩ := List.eq_nil_or_concat' vs
  · show ctorDatum ((t.ctor? i).getD default) [] = _
    rw [hc]
    rfl
  · rw [built_concat, toDatum, fieldData]
    simp only [head?_built, Option.getD_some, hc]

end Built

/-- A constructor without fields is shown by its name. -/
theorem ctorDatum_nil {c : Ctor} (hname : isOptionName c.name = false) :
    ctorDatum c [] = .text c.name := by
  rw [isOptionName, Bool.or_eq_false_iff, decide_eq_false_iff_not] at hname
  exact if_neg hname.1

theorem ctorDatum_of_ne_nil {c : Ctor} {ds : List Datum} (hname : isOptionName c.name = false)
    (hds : ds ≠ []) : ctorDatum c ds =
      if ((c.fields.map Prod.fst).take ds.length).all fun n => n.startsWith "project" then .tuple ds
      else .dict (Entries.ofList (("constructor", .text c.name) ::
        (c.fields.map Prod.fst).zip ds)) := by
  rw [isOptionName, Bool.or_eq_false_iff, decide_eq_false_iff_not, decide_eq_false_iff_not] at hname
  unfold ctorDatum
  rw [List.isEmpty_eq_false_iff.2 hds, if_neg Bool.false_ne_true]
  split
  · rename_i hsome
    exact absurd hsome hname.2
  · rfl

/-- The name of a constructor and its fields. -/
def fieldEntries (c : Ctor) (vs : List Value) : Named :=
  ("constructor", .text c.name) :: (c.fields.map Prod.fst).zip (argData c.fields vs)

section Plain

variable {c : Ctor} {vs : List Value} (hlength : vs.length = c.fields.length)
include hlength

theorem length_argData : (argData c.fields vs).length = c.fields.length := by
  rw [argData, List.length_zipWith, hlength, Nat.min_self]

theorem argData_ne_nil (hfields : c.fields ≠ []) : argData c.fields vs ≠ [] := by
  rw [← List.length_pos_iff_ne_nil, length_argData hlength]
  exact List.length_pos_iff_ne_nil.2 hfields

/-- Fields with the names of a tuple make a tuple. -/
theorem ctorDatum_tuple (hname : isOptionName c.name = false) (hfields : c.fields ≠ [])
    (htuple : ∀ f ∈ c.fields, f.1.startsWith "project" = true) :
    ctorDatum c (argData c.fields vs) = .tuple (argData c.fields vs) := by
  rw [ctorDatum_of_ne_nil hname (argData_ne_nil hlength hfields), if_pos]
  refine List.all_eq_true.2 fun n hn => ?_
  obtain ⟨f, hf, rfl⟩ := List.mem_map.1 (List.mem_of_mem_take hn)
  exact htuple f hf

theorem nodup_keys_fieldEntries (hplain : c.Plain) : (Entries.keys (fieldEntries c vs)).Nodup := by
  have hkeys : Entries.keys (fieldEntries c vs) = "constructor" :: c.fields.map Prod.fst := by
    rw [fieldEntries, Entries.keys, List.map_cons, List.map_fst_zip]
    rw [List.length_map, length_argData hlength]
  rw [hkeys, List.nodup_cons]
  refine ⟨fun hmem => ?_, hplain.distinct⟩
  obtain ⟨f, hf, hconstructor⟩ := List.mem_map.1 hmem
  exact (hplain.fields f hf).1 hconstructor

/-- A field is found under its name. -/
theorem get?_fieldEntries (hplain : c.Plain) {k : Nat} {f : String × Ty}
    (hf : c.fields[k]? = Option.some f) {x : Datum}
    (hx : (argData c.fields vs)[k]? = Option.some x) :
    Entries.get? (fieldEntries c vs) f.1 = Option.some x := by
  refine Entries.get?_of_mem (nodup_keys_fieldEntries hlength hplain) (e := (f.1, x)) ?_
  refine List.mem_cons_of_mem _ (List.mem_of_getElem? (i := k) ?_)
  rw [List.getElem?_zip_eq_some, List.getElem?_map, hf]
  exact ⟨rfl, hx⟩

/-- The fields of a plain constructor make a dictionary. -/
theorem ctorDatum_dict (hplain : c.Plain) (hfields : c.fields ≠ []) :
    ctorDatum c (argData c.fields vs) = .dict (fieldEntries c vs) := by
  rw [ctorDatum_of_ne_nil hplain.name (argData_ne_nil hlength hfields), if_neg]
  · exact congrArg Datum.dict (Entries.ofList_of_nodup (nodup_keys_fieldEntries hlength hplain))
  · rw [length_argData hlength, List.take_of_length_le (List.length_map _).le, List.all_map,
      List.all_eq_true]
    intro hall
    obtain ⟨f, hf⟩ := List.exists_mem_of_ne_nil _ hfields
    have hproject := hall f hf
    rw [Function.comp_apply, (hplain.fields f hf).2] at hproject
    cases hproject

end Plain

/-! ### Unambiguous values -/

/-- What holds of a value if it holds of the arguments of its constructor holds of all values. -/
theorem induction_args {P : Value → Prop} (h : ∀ v, (∀ a ∈ v.args, P a) → P v) (v : Value) :
    P v := by
  have hboth : P v ∧ ∀ a ∈ v.args, P a := by
    induction v with
    | app f a ihf iha =>
      have hargs : ∀ b ∈ (app f a).args, P b := by
        rw [args, List.forall_mem_append, List.forall_mem_singleton]
        exact ⟨ihf.2, iha.1⟩
      exact ⟨h _ hargs, hargs⟩
    | _ => exact ⟨h _ fun a ha => absurd ha List.not_mem_nil, fun a ha => absurd ha List.not_mem_nil⟩
  exact hboth.1

/-- No other value of a plain sort is shown in the same way. -/
def Unambiguous (v : Value) : Prop :=
  ∀ {t : Ty} {w : Value}, t.Plain → v.fits t = true → w.fits t = true →
    (v.toDatum t).Same (w.toDatum t) → v = w

/-- Arguments are told apart by position. -/
theorem args_eq_of_same {fields : List (String × Ty)} {vs ws : List Value}
    (hfields : ∀ f ∈ fields, f.2.Plain) (hargs : ∀ a ∈ vs, Unambiguous a)
    (hvs : List.Forall₂ (fun s a => fits s a = true) (fields.map Prod.snd) vs)
    (hws : List.Forall₂ (fun s a => fits s a = true) (fields.map Prod.snd) ws)
    (hsame : ∀ (k : Nat) (x y : Datum), (argData fields vs)[k]? = Option.some x →
      (argData fields ws)[k]? = Option.some y → x.Same y) : vs = ws := by
  induction fields generalizing vs ws with
  | nil =>
    cases hvs
    cases hws
    rfl
  | cons f fields ih =>
    obtain ⟨v, vs, hv, hvs', rfl⟩ := List.forall₂_cons_left_iff.1 hvs
    obtain ⟨w, ws, hw, hws', rfl⟩ := List.forall₂_cons_left_iff.1 hws
    rw [List.forall_mem_cons] at hfields hargs
    have hhead : v = w := hargs.1 hfields.1 hv hw (hsame 0 _ _ rfl rfl)
    have htail : vs = ws := ih hfields.2 hargs.2 hvs' hws' fun k => hsame (k + 1)
    rw [hhead, htail]

/-! ### How the values of data sorts are shown -/

/-- A tuple is shown as a tuple. -/
theorem toDatum_tuple {name : String} {elements : List Ty} {v : Value}
    (hname : isOptionName name = false) (hne : elements ≠ [])
    (hv : v.fits (.tuple name elements) = true) :
    let fields := (Ty.tupleFields 0 elements).toList (.tuple name elements)
    v = built 0 v.args ∧ List.Forall₂ (fun s a => fits s a = true) (fields.map Prod.snd) v.args ∧
      v.toDatum (.tuple name elements) = .tuple (argData fields v.args) := by
  intro fields
  obtain ⟨i, c, hc, hbuilt, hargs⟩ := fits_data rfl hv
  obtain ⟨rfl, rfl⟩ : i = 0 ∧ c = ⟨name, fields⟩ := by
    rw [Ty.ctor?, Ty.ctors_tuple, List.getElem?_singleton] at hc
    split at hc
    · rename_i hi
      exact ⟨hi, (Option.some.inj hc).symm⟩
    · cases hc
  have hlength : v.args.length = fields.length := by
    rw [← hargs.length_eq, List.length_map]
  have hfields : fields ≠ [] := by
    cases elements with
    | nil => exact absurd rfl hne
    | cons e es => exact List.cons_ne_nil _ _
  refine ⟨hbuilt, hargs, ?_⟩
  conv_lhs => rw [hbuilt]
  rw [toDatum_built hc hlength]
  exact ctorDatum_tuple hlength hname hfields fun f hf => (Ty.mem_tupleFields hf).1

/-- A value of another data sort is shown by the name of its constructor, and with its fields if it
has any. -/
theorem toDatum_data {t : Ty} {v : Value} (ht : t.isData = true) (hctors : ∀ c ∈ t.ctors, c.Plain)
    (hv : v.fits t = true) :
    ∃ i c, t.ctor? i = Option.some c ∧ v = built i v.args ∧
      List.Forall₂ (fun s a => fits s a = true) (c.fields.map Prod.snd) v.args ∧
      (c.fields = [] ∧ v.toDatum t = .text c.name ∨
        c.fields ≠ [] ∧ v.toDatum t = .dict (fieldEntries c v.args)) := by
  obtain ⟨i, c, hc, hbuilt, hargs⟩ := fits_data ht hv
  have hplain := hctors c (List.mem_of_getElem? hc)
  have hlength : v.args.length = c.fields.length := by
    rw [← hargs.length_eq, List.length_map]
  have hdatum : v.toDatum t = ctorDatum c (argData c.fields v.args) := by
    conv_lhs => rw [hbuilt]
    exact toDatum_built hc hlength
  refine ⟨i, c, hc, hbuilt, hargs, ?_⟩
  by_cases hfields : c.fields = []
  · refine .inl ⟨hfields, ?_⟩
    rw [hdatum, hfields]
    exact ctorDatum_nil hplain.name
  · exact .inr ⟨hfields, hdatum.trans (ctorDatum_dict hlength hplain hfields)⟩

/-- A value of a plain sort that is not an option is not shown as absent. -/
theorem toDatum_ne_null {t : Ty} {v : Value} (ht : t.Plain) (hsingle : ∀ s, t ≠ .option s)
    (hv : v.fits t = true) : v.toDatum t ≠ .null := by
  have hshape := shape_of_fits hv
  cases ht with
  | bool =>
    obtain ⟨b, rfl⟩ := hshape
    exact Datum.noConfusion
  | int =>
    obtain ⟨n, rfl⟩ := hshape
    exact Datum.noConfusion
  | real =>
    obtain ⟨q, rfl⟩ := hshape
    exact Datum.noConfusion
  | bits w =>
    obtain ⟨b, rfl⟩ := hshape
    exact Datum.noConfusion
  | text =>
    obtain ⟨cs, rfl⟩ := hshape
    exact Datum.noConfusion
  | option => exact absurd rfl (hsingle _)
  | tuple hname hne helements =>
    obtain ⟨-, -, hdatum⟩ := toDatum_tuple hname hne hv
    rw [hdatum]
    exact Datum.noConfusion
  | data hdistinct hctors hfields =>
    obtain ⟨i, c, -, -, -, ⟨-, hdatum⟩ | ⟨-, hdatum⟩⟩ := toDatum_data rfl hctors hv
    · rw [hdatum]
      exact Datum.noConfusion
    · rw [hdatum]
      exact Datum.noConfusion

/-! ### Plain sorts are shown without ambiguity -/

section Cases

variable {v w : Value} (ih : ∀ a ∈ v.args, Unambiguous a)
include ih

theorem eq_of_same_tuple {name : String} {elements : List Ty} (hname : isOptionName name = false)
    (hne : elements ≠ []) (helements : ∀ e ∈ elements, e.Plain)
    (hv : v.fits (.tuple name elements) = true) (hw : w.fits (.tuple name elements) = true)
    (hsame : (v.toDatum (.tuple name elements)).Same (w.toDatum (.tuple name elements))) :
    v = w := by
  obtain ⟨hvbuilt, hvargs, hvdatum⟩ := toDatum_tuple hname hne hv
  obtain ⟨hwbuilt, hwargs, hwdatum⟩ := toDatum_tuple hname hne hw
  rw [hvdatum, hwdatum] at hsame
  have hargs : v.args = w.args := args_eq_of_same
    (fun f hf => helements f.2 (Ty.mem_tupleFields hf).2) ih hvargs hwargs hsame.tuple_elements
  rw [hvbuilt, hwbuilt, hargs]

theorem eq_of_same_option {e : Ty} (he : e.Plain) (hsingle : ∀ s, e ≠ .option s)
    (hv : v.fits (.option e) = true) (hw : w.fits (.option e) = true)
    (hsame : (v.toDatum (.option e)).Same (w.toDatum (.option e))) : v = w := by
  have hpresent (a : Value) : (some a).toDatum (.option e) = a.toDatum e := rfl
  rcases of_fits_option hv with rfl | ⟨a, ha, rfl⟩ <;>
    rcases of_fits_option hw with rfl | ⟨b, hb, rfl⟩
  · rfl
  · rw [hpresent] at hsame
    exact absurd hsame.eq_null (toDatum_ne_null he hsingle hb)
  · rw [hpresent] at hsame
    exact absurd hsame.symm.eq_null (toDatum_ne_null he hsingle ha)
  · rw [hpresent, hpresent] at hsame
    exact congrArg some (ih a (List.mem_singleton_self a) he ha hb hsame)

/-- The name of the constructor is in the datum, and each field is under its own name. -/
theorem eq_of_same_data {t : Ty} (ht : t.isData = true) (hdistinct : (t.ctors.map Ctor.name).Nodup)
    (hctors : ∀ c ∈ t.ctors, c.Plain) (hfields : ∀ c ∈ t.ctors, ∀ f ∈ c.fields, f.2.Plain)
    (hv : v.fits t = true) (hw : w.fits t = true) (hsame : (v.toDatum t).Same (w.toDatum t)) :
    v = w := by
  obtain ⟨i, c, hc, hvbuilt, hvargs, hvdatum⟩ := toDatum_data ht hctors hv
  obtain ⟨j, d, hd, hwbuilt, hwargs, hwdatum⟩ := toDatum_data ht hctors hw
  have hname : c.name = d.name := by
    rcases hvdatum with ⟨-, hvdatum⟩ | ⟨-, hvdatum⟩ <;>
      rcases hwdatum with ⟨-, hwdatum⟩ | ⟨-, hwdatum⟩ <;> rw [hvdatum, hwdatum] at hsame
    · exact (Datum.text.inj hsame.eq_text).symm
    · cases hsame.eq_text
    · cases hsame.symm.eq_text
    · exact (Datum.text.inj (hsame.dict_values "constructor" _ _ rfl rfl).eq_text).symm
  obtain rfl : i = j := by
    have hi : i < (t.ctors.map Ctor.name).length := by
      rw [List.length_map]
      exact (List.getElem?_eq_some_iff.1 hc).1
    refine (List.getElem?_inj hi hdistinct).1 ?_
    rw [List.getElem?_map, List.getElem?_map]
    exact (congrArg (Option.map Ctor.name) hc).trans
      ((congrArg Option.some hname).trans (congrArg (Option.map Ctor.name) hd).symm)
  obtain rfl : c = d := Option.some.inj (hc.symm.trans hd)
  have hmem := List.mem_of_getElem? hc
  have hargs : v.args = w.args := by
    refine args_eq_of_same (hfields c hmem) ih hvargs hwargs fun k x y hx hy => ?_
    obtain ⟨f, hf⟩ : ∃ f, c.fields[k]? = Option.some f := by
      obtain ⟨f, -, hf, -⟩ := List.getElem?_zipWith_eq_some.1 hx
      exact ⟨f, hf⟩
    rcases hvdatum with ⟨hnone, -⟩ | ⟨hsome, hvdatum⟩
    · rw [hnone] at hf
      cases hf
    · obtain ⟨-, hwdatum⟩ := hwdatum.resolve_left fun hnone => hsome hnone.1
      rw [hvdatum, hwdatum] at hsame
      have hvlength : v.args.length = c.fields.length := by
        rw [← hvargs.length_eq, List.length_map]
      have hwlength : w.args.length = c.fields.length := by
        rw [← hwargs.length_eq, List.length_map]
      exact hsame.dict_values f.1 x y (get?_fieldEntries hvlength (hctors c hmem) hf hx)
        (get?_fieldEntries hwlength (hctors c hmem) hf hy)
  rw [hvbuilt, hwbuilt, hargs]

end Cases

theorem unambiguous (v : Value) : Unambiguous v := by
  induction v using induction_args with
  | h v ih =>
    intro t w ht hv hw hsame
    have hvshape := shape_of_fits hv
    have hwshape := shape_of_fits hw
    cases ht with
    | bool =>
      obtain ⟨b, rfl⟩ := hvshape
      obtain ⟨b', rfl⟩ := hwshape
      have hnumber := hsame.number_eq rfl rfl
      cases b <;> cases b' <;> simp_all
    | int =>
      obtain ⟨n, rfl⟩ := hvshape
      obtain ⟨n', rfl⟩ := hwshape
      exact congrArg int (Rat.intCast_inj.1 (hsame.number_eq rfl rfl))
    | real =>
      obtain ⟨q, rfl⟩ := hvshape
      obtain ⟨q', rfl⟩ := hwshape
      exact congrArg real (hsame.number_eq rfl rfl)
    | bits width =>
      obtain ⟨b, rfl⟩ := hvshape
      obtain ⟨b', rfl⟩ := hwshape
      have hnat : (b.toNat : Int) = b'.toNat := Rat.intCast_inj.1 (hsame.number_eq rfl rfl)
      exact congrArg (bits width) (BitVec.eq_of_toNat_eq (Int.ofNat_inj.1 hnat))
    | text =>
      obtain ⟨cs, rfl⟩ := hvshape
      obtain ⟨cs', rfl⟩ := hwshape
      exact congrArg text (CodePoint.toText_injective (Datum.text.inj hsame.eq_text).symm)
    | tuple hname hne helements => exact eq_of_same_tuple ih hname hne helements hv hw hsame
    | option he hsingle => exact eq_of_same_option ih he hsingle hv hw hsame
    | @data name cs hdistinct hctors hfields =>
      refine eq_of_same_data ih rfl hdistinct hctors (fun c hc f hf => ?_) hv hw hsame
      by_cases hself : f.2 = .data name cs
      · rw [hself]
        exact .data hdistinct hctors hfields
      · exact hfields c hc f hf hself

end Value

/-- Lists of texts that may be absent. -/
def Ty.path : Ty :=
  .data "Path" (.cons "end" .nil
    (.cons "hop" (.field "via" (.option .text) (.self "rest" .nil)) .nil))

theorem Ty.plain_path : Ty.path.Plain := by
  refine .data (by decide) ?_ ?_
  · intro c hc
    rcases List.mem_pair.1 hc with rfl | rfl
    · exact ⟨by decide, by decide, by decide⟩
    · exact ⟨by decide, by decide, by decide +kernel⟩
  · intro c hc f hf hself
    rcases List.mem_pair.1 hc with rfl | rfl
    · cases hf
    · rcases List.mem_pair.1 hf with rfl | rfl
      · exact .option .text fun s hs => by cases hs
      · exact absurd rfl hself

/-- A mark that may be absent, and a path. -/
def Ty.markedPath : Ty := .tuple "Marked" [.option .unit, .path]

theorem Ty.plain_markedPath : Ty.markedPath.Plain := by
  refine .tuple (by decide) (List.cons_ne_nil _ _) fun e he => ?_
  rcases List.mem_pair.1 he with rfl | rfl
  · refine .option plain_unit fun s hs => ?_
    have hcount : 1 = 2 := congrArg (fun t => t.ctors.length) hs
    cases hcount
  · exact plain_path

end RouteInvariants
