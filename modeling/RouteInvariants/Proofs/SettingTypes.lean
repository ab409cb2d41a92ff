import Mathlib
import RouteInvariants.Proofs.Representation
import RouteInvariants.Settings.Files

/-!
The types of settings. A setting is compared with the value that it replaces and not with its
declaration, so a value escapes the comparison in two places: where nothing is set yet, and where a
section takes over a table for all of its values. Main statement: `load_wellTyped`. Where these
values have the declared types, so do all settings that are loaded; apart from the reported errors,
loading a table ends early only at a section that is no table or at the member that stays unset.
-/

namespace RouteInvariants

/-- The type that a setting is declared with. -/
inductive SettingType where
  | integer | optionalInteger | boolean | text
deriving DecidableEq

namespace SettingType

/-- The types of the data that have a declared type, by name: a Boolean is also an integer. -/
def typeNames : SettingType → List String
  | integer => ["int", "bool"]
  | optionalInteger => ["NoneType", "int", "bool"]
  | boolean => ["bool"]
  | text => ["str"]

def admits (t : SettingType) (d : Datum) : Bool := t.typeNames.contains d.typeName

end SettingType

/-- The error names an entry of a section, and the type of its value if that is what is wrong. -/
def SettingsError.Names (e : SettingsError) (s : Section) (entry : String × Datum) : Prop :=
  e = .unknown s entry.1 ∨ ∃ expected, e = .mistyped s entry.1 expected entry.2.typeName

namespace Section

/-- The settings of a section with their declared types. -/
def types : Section → List (String × SettingType)
  | solver => [("timeout_ms", .optionalInteger), ("max_workers", .integer),
      ("print_formulas", .boolean), ("check_merge_laws", .boolean), ("merge_law_examples", .integer)]
  | output => [("format", .text), ("color", .boolean), ("verbose", .boolean),
      ("show_symbolics", .boolean)]

/-- The settings among some values have their declared types. -/
def Admits (s : Section) (values : Named) : Prop :=
  ∀ f ∈ s.types, ∀ e ∈ values, f.1 = e.1 → f.2.admits e.2 = true

/-- A table that names each setting at most once, and nothing but settings of the section, with
values of the declared types. -/
def Declares (s : Section) (entries : Named) : Prop :=
  (Entries.keys entries).Nodup ∧ ∀ e ∈ entries, ∃ f ∈ s.types, f.1 = e.1 ∧ f.2.admits e.2 = true

end Section

namespace Settings

/-- Every setting has the type that it is declared with. -/
def WellTyped (c : Settings) : Prop :=
  ∀ s : Section, List.Forall₂ (fun f e => f.1 = e.1 ∧ f.2.admits e.2 = true) s.types (c.get s)

/-- The values that a section takes over from an entry without a comparison. -/
def unchecked (e : String × Datum) : Named :=
  if e.1 = allValues then e.2.entries else if e.1 = "timeout_ms" then [e] else []

variable {s : Section} {values values' entries table : Named} {key : String} {value : Datum}
  {e : SettingsError}

/-! ### One entry -/

theorem replace_eq_ok (h : replace s values key value = .ok values') :
    (key = allValues ∧ values' = value.entries) ∨
      key ≠ allValues ∧ key ≠ backReference ∧ values' = Entries.insert values key value ∧
        ∃ current, member? s values key = some current ∧ accepts current value = true := by
  unfold replace at h
  split at h
  · rename_i hall
    split at h
    · exact .inl ⟨hall, (Except.ok.inj h).symm⟩
    · cases h
  · rename_i hall
    split at h
    · cases h
    · rename_i hback
      split at h
      · rename_i _ current hcurrent
        split at h
        · rename_i haccepts
          exact .inr ⟨hall, hback, (Except.ok.inj h).symm, current, hcurrent, haccepts⟩
        · cases h
      · cases h
      · cases h

theorem replace_eq_error (h : replace s values key value = .error e) :
    e.Names s (key, value) ∨ e = .readOnly ∧ key = backReference := by
  unfold replace at h
  split at h
  · split at h
    · cases h
    · cases h
      exact .inl (.inr ⟨_, rfl⟩)
  · split at h
    · rename_i hback
      cases h
      exact .inr ⟨rfl, hback⟩
    · split at h
      · split at h
        · cases h
        · cases h
          exact .inl (.inr ⟨_, rfl⟩)
      · cases h
        exact .inl (.inr ⟨_, rfl⟩)
      · cases h
        exact .inl (.inl rfl)

theorem mem_of_member? {current : Datum} (h : member? s values key = some current) :
    (key, current) ∈ values ∨ (key, current) ∈ s.defaults ∨ (key, current) ∈ valueMembers := by
  rw [member?, Option.or_eq_some_iff, Option.or_eq_some_iff] at h
  rcases h with h | ⟨-, h | ⟨-, h⟩⟩
  · exact .inl (Entries.mem_of_get? h)
  · exact .inr (.inl (Entries.mem_of_get? h))
  · exact .inr (.inr (Entries.mem_of_get? h))

/-- What may replace a value that is set: a value of the same type, or of a narrower one. -/
theorem accepts_eq_true {current : Datum} (hset : current ≠ .null)
    (h : accepts current value = true) :
    current.typeName = value.typeName ∨ current.typeName = "int" ∧ value.typeName = "bool" ∨
      current.typeName = "date" ∧ value.typeName = "datetime" := by
  fun_cases accepts current value with
  | case1 => exact absurd rfl hset
  | case2 => exact .inr (.inl ⟨rfl, rfl⟩)
  | case3 => exact .inr (.inr ⟨rfl, rfl⟩)
  | case4 _ _ _ hnumber hdate =>
    rw [accepts] at h
    · exact .inl (of_decide_eq_true h)
    · exact hset
    · exact hnumber
    · exact hdate

theorem admits_of_accepts {t : SettingType} {current : Datum} (hset : current ≠ .null)
    (h : accepts current value = true) (hcurrent : t.admits current = true) :
    t.admits value = true := by
  unfold SettingType.admits at hcurrent ⊢
  rcases accepts_eq_true hset h with h | ⟨h, h'⟩ | ⟨h, h'⟩
  · rwa [← h]
  all_goals
    rw [h] at hcurrent
    rw [h']
    revert hcurrent
    cases t <;> decide

/-- A value that is no integer is not replaced by one. -/
theorem admits_of_accepts_optionalInteger {current : Datum} (hset : current ≠ .null)
    (h : accepts current value = true)
    (hvalue : SettingType.optionalInteger.admits value = true) :
    SettingType.optionalInteger.admits current = true := by
  unfold SettingType.admits at hvalue ⊢
  rcases accepts_eq_true hset h with h | ⟨h, -⟩ | ⟨h, h'⟩
  · rwa [h]
  · rw [h]
    rfl
  · rw [h'] at hvalue
    rw [h]
    revert hvalue
    decide

theorem eq_optionalInteger_of_admits_null {t : SettingType} (h : t.admits .null = true) :
    t = .optionalInteger := by
  revert h
  cases t <;> decide

theorem fst_eq_timeout_iff {f : String × SettingType} (hf : f ∈ s.types) :
    f.1 = "timeout_ms" ↔ f.2 = .optionalInteger := by
  revert f
  cases s <;> decide

theorem admits_defaults (s : Section) : s.Admits s.defaults := by
  unfold Section.Admits
  cases s <;> decide

theorem admits_valueMembers (s : Section) : s.Admits valueMembers := by
  unfold Section.Admits
  cases s <;> decide

/-- One entry keeps the declared types where the values that it brings unchecked have them. -/
theorem admits_replace (hvalues : s.Admits values) (hunchecked : s.Admits (unchecked (key, value)))
    (h : replace s values key value = .ok values') : s.Admits values' := by
  intro f hf e he hkey
  rcases replace_eq_ok h with ⟨hall, rfl⟩ | ⟨hall, -, rfl, current, hcurrent, haccepts⟩
  · rw [unchecked, if_pos hall] at hunchecked
    exact hunchecked f hf e he hkey
  · rcases Entries.mem_of_mem_insert he with he | rfl
    · exact hvalues f hf e he hkey
    · have hadmits : f.2.admits current = true := by
        rcases mem_of_member? hcurrent with hmem | hmem | hmem
        · exact hvalues f hf _ hmem hkey
        · exact admits_defaults s f hf _ hmem hkey
        · exact admits_valueMembers s f hf _ hmem hkey
      by_cases hset : current = .null
      · -- Only one setting can be unset, and its value is among the unchecked ones.
        have htimeout : f.1 = "timeout_ms" :=
          (fst_eq_timeout_iff hf).2 (eq_optionalInteger_of_admits_null (hset ▸ hadmits))
        rw [unchecked, if_neg hall, if_pos (hkey.symm.trans htimeout)] at hunchecked
        exact hunchecked f hf _ List.mem_cons_self hkey
      · exact admits_of_accepts hset haccepts hadmits

theorem accepts_of_typeName {current : Datum} (h : current.typeName = value.typeName) :
    accepts current value = true := by
  fun_cases accepts current value with
  | case1 => rfl
  | case2 => rfl
  | case3 => rfl
  | case4 => exact decide_eq_true h

theorem accepts_int {n : Int} (h : SettingType.integer.admits value = true) :
    accepts (.int n) value = true := by
  cases value with
  | int m => exact accepts_of_typeName rfl
  | bool b => rfl
  | calendar kind written => cases kind <;> cases h
  | _ => cases h

/-- The defaults, by how they are compared. -/
theorem default_cases {f : String × SettingType} (hf : f ∈ s.types) :
    Entries.get? s.defaults f.1 = some .null ∨
      (∃ n, Entries.get? s.defaults f.1 = some (.int n) ∧ f.2 = .integer) ∨
      ∃ d, Entries.get? s.defaults f.1 = some d ∧ f.2.typeNames = [d.typeName] := by
  cases s with
  | solver =>
    simp only [Section.types, List.mem_cons, List.not_mem_nil, or_false] at hf
    rcases hf with rfl | rfl | rfl | rfl | rfl
    · exact .inl rfl
    · exact .inr (.inl ⟨_, rfl, rfl⟩)
    · exact .inr (.inr ⟨_, rfl, rfl⟩)
    · exact .inr (.inr ⟨_, rfl, rfl⟩)
    · exact .inr (.inl ⟨_, rfl, rfl⟩)
  | output =>
    simp only [Section.types, List.mem_cons, List.not_mem_nil, or_false] at hf
    rcases hf with rfl | rfl | rfl | rfl
    all_goals exact .inr (.inr ⟨_, rfl, rfl⟩)

/-- A value of the declared type is accepted in place of the default. -/
theorem exists_default {t : SettingType} (hf : (key, t) ∈ s.types) (hvalue : t.admits value = true) :
    ∃ d, Entries.get? s.defaults key = some d ∧ accepts d value = true := by
  rcases default_cases hf with h | ⟨n, h, rfl⟩ | ⟨d, h, ht⟩
  · exact ⟨_, h, rfl⟩
  · exact ⟨_, h, accepts_int hvalue⟩
  · rw [SettingType.admits, ht, List.contains_eq_mem, decide_eq_true_eq, List.mem_singleton] at hvalue
    exact ⟨d, h, accepts_of_typeName hvalue.symm⟩

theorem replace_of_declared {t : SettingType} (hf : (key, t) ∈ s.types)
    (hkey : Entries.get? values key = Entries.get? s.defaults key) (hvalue : t.admits value = true) :
    replace s values key value = .ok (Entries.insert values key value) := by
  have hplain : key ≠ allValues ∧ key ≠ backReference := by
    have hall : ∀ f ∈ s.types, f.1 ≠ allValues ∧ f.1 ≠ backReference := by cases s <;> decide
    exact hall _ hf
  obtain ⟨d, hd, haccepts⟩ := exists_default hf hvalue
  have hmember : member? s values key = some d := by
    rw [member?, hkey, hd]
    rfl
  unfold replace
  rw [if_neg hplain.1, if_neg hplain.2, hmember]
  exact if_pos haccepts

/-- The timeout is set to something that is no integer. -/
def IllTimed (values : Named) : Prop :=
  ∃ d, Entries.get? values "timeout_ms" = some d ∧ SettingType.optionalInteger.admits d = false

/-- Once the timeout is no integer, it stays so until all values are replaced. -/
theorem illTimed_replace (hall : key ≠ allValues) (hbad : IllTimed values)
    (h : replace s values key value = .ok values') : IllTimed values' := by
  obtain ⟨d, hd, hbad⟩ := hbad
  rcases replace_eq_ok h with ⟨hkey, -⟩ | ⟨-, -, rfl, current, hcurrent, haccepts⟩
  · exact absurd hkey hall
  · rw [IllTimed, Entries.get?_insert]
    split
    · rename_i hkey
      refine ⟨value, rfl, ?_⟩
      rw [member?, hkey, hd] at hcurrent
      obtain rfl : d = current := Option.some.inj hcurrent
      by_contra hvalue
      have hset : d ≠ .null := by
        rintro rfl
        cases hbad
      rw [admits_of_accepts_optionalInteger hset haccepts (eq_true_of_ne_false hvalue)] at hbad
      cases hbad
    · exact ⟨d, hd, hbad⟩

/-! ### A section -/

/-- The values of a section after the data that a table holds for it. -/
def ofTable (table : Named) (s : Section) : Except SettingsError Named :=
  (Entries.get? table s.display).elim (.ok s.defaults) (applySection s s.defaults)

theorem set_held (c : Settings) (s : Section) : c.set s (c.held s) = c := by
  cases s <;> rfl

theorem applyTo_dict {c : Settings} (h : c.held s = s.defaults) (table : Named) :
    applyTo (.dict table) c s = c.set s <$> ofTable table s := by
  unfold applyTo ofTable
  simp only [sectionData, h]
  cases Entries.get? table s.display with
  | none =>
    show Except.ok c = .ok (c.set s s.defaults)
    rw [← h, set_held]
  | some values => cases applySection s s.defaults values <;> rfl

/-- Each section is read for itself. -/
theorem apply_standard (table : Named) :
    standard.apply (.dict table) = ofTable table .solver >>= fun solver =>
      ofTable table .output >>= fun output => .ok ⟨solver, output⟩ := by
  rw [apply, List.foldlM_cons, applyTo_dict rfl]
  cases ofTable table .solver with
  | error e => rfl
  | ok solver =>
    show [Section.output].foldlM (applyTo (.dict table)) (standard.set .solver solver) = _
    rw [List.foldlM_cons, applyTo_dict rfl]
    cases ofTable table .output <;> rfl

theorem apply_standard_eq_ok {c : Settings} :
    standard.apply (.dict table) = .ok c ↔ ∀ s, ofTable table s = .ok (c.held s) := by
  rw [apply_standard, bind_eq_ok]
  constructor
  · rintro ⟨solver, hsolver, h⟩
    obtain ⟨output, houtput, h⟩ := bind_eq_ok.1 h
    cases h
    intro s
    cases s
    · exact hsolver
    · exact houtput
  · exact fun h => ⟨_, h .solver, bind_eq_ok.2 ⟨_, h .output, rfl⟩⟩

theorem exists_apply_standard (h : ∀ s, ∃ values, ofTable table s = .ok values) :
    ∃ c, standard.apply (.dict table) = .ok c := by
  obtain ⟨solver, hsolver⟩ := h .solver
  obtain ⟨output, houtput⟩ := h .output
  refine ⟨⟨solver, output⟩, apply_standard_eq_ok.2 fun s => ?_⟩
  cases s
  · exact hsolver
  · exact houtput

theorem exists_of_apply_standard_eq_error (h : standard.apply (.dict table) = .error e) :
    ∃ s, ofTable table s = .error e := by
  rw [apply_standard] at h
  rcases bind_eq_error.1 h with hsolver | ⟨_, -, h⟩
  · exact ⟨.solver, hsolver⟩
  · rcases bind_eq_error.1 h with houtput | ⟨_, -, h⟩
    · exact ⟨.output, houtput⟩
    · cases h

theorem ofTable_eq_ok (h : ofTable table s = .ok values) :
    (Entries.get? table s.display = none ∧ values = s.defaults) ∨
      ∃ entries, Entries.get? table s.display = some (.dict entries) ∧
        entries.foldlM (fun acc e => replace s acc e.1 e.2) s.defaults = .ok values := by
  unfold ofTable at h
  cases hd : Entries.get? table s.display with
  | none =>
    rw [hd] at h
    exact .inl ⟨rfl, (Except.ok.inj h).symm⟩
  | some d =>
    rw [hd] at h
    cases d with
    | dict entries => exact .inr ⟨entries, rfl, h⟩
    | _ => cases h

theorem ofTable_eq_error (h : ofTable table s = .error e) :
    (∃ entries, Entries.get? table s.display = some (.dict entries) ∧
      ∃ entry ∈ entries, e.Names s entry ∨ e = .readOnly ∧ entry.1 = backReference) ∨
    (e = .notTable ∧
      ∃ d, Entries.get? table s.display = some d ∧ ∀ entries, d ≠ .dict entries) := by
  unfold ofTable at h
  cases hd : Entries.get? table s.display with
  | none =>
    rw [hd] at h
    cases h
  | some d =>
    rw [hd] at h
    cases d with
    | dict entries =>
      obtain ⟨entry, hentry, values, h⟩ := exists_of_foldlM_eq_error h
      exact .inl ⟨entries, rfl, entry, hentry, replace_eq_error h⟩
    | _ =>
      cases h
      exact .inr ⟨rfl, _, rfl, fun _ h => Datum.noConfusion h⟩

/-- A section that is read names nothing that stays unset. -/
theorem backReference_not_mem
    (h : entries.foldlM (fun acc e => replace s acc e.1 e.2) values = .ok values') :
    backReference ∉ Entries.keys entries := by
  intro hback
  obtain ⟨entry, hentry, hkey⟩ := List.mem_map.1 hback
  obtain ⟨_, _, _, hreplace, -, -⟩ := exists_round_of_foldlM hentry h
  rcases replace_eq_ok hreplace with ⟨hall, -⟩ | ⟨-, hne, -⟩
  · rw [hkey] at hall
    revert hall
    decide
  · exact hne hkey

theorem admits_ofTable (h : ofTable table s = .ok values)
    (hunchecked : ∀ entries, Entries.get? table s.display = some (.dict entries) →
      s.Admits (entries.flatMap unchecked)) : s.Admits values := by
  rcases ofTable_eq_ok h with ⟨-, rfl⟩ | ⟨entries, hentries, hfold⟩
  · exact admits_defaults s
  · refine foldlM_invariant (P := s.Admits) (fun entry hentry _ _ hvalues hreplace => ?_)
      (admits_defaults s) hfold
    refine admits_replace hvalues (fun f hf e he => ?_) hreplace
    exact hunchecked entries hentries f hf e (List.mem_flatMap.2 ⟨entry, hentry, he⟩)

theorem illTimed_of_mem (hall : allValues ∉ Entries.keys entries) {d : Datum}
    (hd : ("timeout_ms", d) ∈ entries) (hbad : SettingType.optionalInteger.admits d = false)
    (h : entries.foldlM (fun acc e => replace s acc e.1 e.2) values = .ok values') :
    IllTimed values' := by
  obtain ⟨values₁, values₂, after, hreplace, hafter, hfold⟩ := exists_round_of_foldlM hd h
  refine foldlM_invariant (P := IllTimed) (fun entry hentry _ _ hvalues h => ?_) ?_ hfold
  · refine illTimed_replace (fun hkey => hall ?_) hvalues h
    exact hkey ▸ List.mem_map_of_mem (hafter hentry)
  · rcases replace_eq_ok hreplace with ⟨hkey, -⟩ | ⟨-, -, rfl, -⟩
    · exact absurd (hkey ▸ List.mem_map_of_mem hd) hall
    · exact ⟨d, by rw [Entries.get?_insert, if_pos rfl], hbad⟩

/-- Values of the declared types are accepted in place of the defaults. -/
theorem foldlM_replace_of_declares (h : s.Declares entries)
    (hvalues : ∀ e ∈ entries, Entries.get? values e.1 = Entries.get? s.defaults e.1) :
    entries.foldlM (fun acc e => replace s acc e.1 e.2) values =
      .ok (entries.foldl (fun acc e => Entries.insert acc e.1 e.2) values) := by
  obtain ⟨hnodup, hdeclared⟩ := h
  induction entries generalizing values with
  | nil => rfl
  | cons e entries ih =>
    rw [Entries.keys, List.map_cons, List.nodup_cons] at hnodup
    rw [List.forall_mem_cons] at hdeclared hvalues
    obtain ⟨⟨f, hf, hkey, hadmits⟩, hdeclared⟩ := hdeclared
    have hreplace : replace s values e.1 e.2 = .ok (Entries.insert values e.1 e.2) :=
      replace_of_declared (hkey ▸ hf) hvalues.1 hadmits
    have hrest : ∀ e' ∈ entries,
        Entries.get? (Entries.insert values e.1 e.2) e'.1 = Entries.get? s.defaults e'.1 := by
      intro e' he'
      rw [Entries.get?_insert, if_neg, hvalues.2 e' he']
      exact fun hsame => hnodup.1 (hsame ▸ List.mem_map_of_mem he')
    exact bind_eq_ok.2 ⟨_, hreplace, ih hrest hnodup.2 hdeclared⟩

theorem exists_ofTable (h : ∀ d, Entries.get? table s.display = some d →
    ∃ entries, d = .dict entries ∧ s.Declares entries) : ∃ values, ofTable table s = .ok values := by
  unfold ofTable
  cases hd : Entries.get? table s.display with
  | none => exact ⟨s.defaults, rfl⟩
  | some d =>
    obtain ⟨entries, rfl, hdeclares⟩ := h d hd
    exact ⟨_, foldlM_replace_of_declares hdeclares fun _ _ => rfl⟩

/-! ### Settings -/

variable {c : Settings}

/-- A setting that a section does not hold has its default, which is of the declared type. -/
theorem wellTyped_iff : c.WellTyped ↔ ∀ s : Section, ∀ f ∈ s.types, ∀ d,
    Entries.get? (c.held s) f.1 = some d → f.2.admits d = true := by
  refine forall_congr' fun s => ?_
  have hdefaults :
      List.Forall₂ (fun f d => f.1 = d.1 ∧ f.2.admits d.2 = true) s.types s.defaults := by
    cases s <;> decide
  constructor
  · intro h f hf d hd
    obtain ⟨e, he, hkey, hadmits⟩ := exists_right_of_forall₂ h hf
    obtain ⟨d', -, rfl⟩ := List.mem_map.1 he
    rw [← hkey, hd] at hadmits
    exact hadmits
  · intro h
    rw [get, List.forall₂_map_right_iff]
    refine ((List.forall₂_and_left _ _).2 ⟨h, hdefaults⟩).imp ?_
    rintro f d ⟨hheld, hkey, hadmits⟩
    refine ⟨hkey, ?_⟩
    cases hget : Entries.get? (c.held s) d.1 with
    | none => exact hadmits
    | some held => exact hheld held (hkey ▸ hget)

/-- The values that a table brings unchecked have the declared types. -/
def UncheckedFit (table : Named) : Prop :=
  ∀ (s : Section) entries, Entries.get? table s.display = some (.dict entries) →
    s.Admits (entries.flatMap unchecked)

theorem wellTyped_of_uncheckedFit (h : standard.apply (.dict table) = .ok c)
    (hfit : UncheckedFit table) : c.WellTyped := by
  refine wellTyped_iff.2 fun s f hf d hd => ?_
  exact admits_ofTable (apply_standard_eq_ok.1 h s) (hfit s) f hf _ (Entries.mem_of_get? hd) rfl

/-- Without a table for all of its values, a section has the unchecked values in the end. -/
theorem uncheckedFit_of_wellTyped (h : standard.apply (.dict table) = .ok c) (hc : c.WellTyped)
    (hall : ∀ (s : Section) entries, Entries.get? table s.display = some (.dict entries) →
      allValues ∉ Entries.keys entries) : UncheckedFit table := by
  intro s entries hentries f hf e he hkey
  obtain ⟨⟨key, d⟩, hentry, he⟩ := List.mem_flatMap.1 he
  have hne : key ≠ allValues := fun h => hall s entries hentries (h ▸ List.mem_map_of_mem hentry)
  rw [unchecked, if_neg hne] at he
  split at he
  · rename_i htimeout
    rw [List.mem_singleton] at he
    subst he htimeout
    have hfold : entries.foldlM (fun acc e => replace s acc e.1 e.2) s.defaults = .ok (c.held s) := by
      have h := apply_standard_eq_ok.1 h s
      rwa [ofTable, hentries] at h
    rw [(fst_eq_timeout_iff hf).1 hkey]
    by_contra hbad
    obtain ⟨d', hget, hbad⟩ :=
      illTimed_of_mem (hall s entries hentries) hentry (eq_false_of_ne_true hbad) hfold
    have hadmits := wellTyped_iff.1 hc s f hf d' (hkey ▸ hget)
    rw [(fst_eq_timeout_iff hf).1 hkey, hbad] at hadmits
    cases hadmits
  · cases he

variable {tree : FileTree} {home start path : Path} {given : Option Path}

/-- The settings file that is given, or else found, can be read and has this table for the tool. -/
def Reads (tree : FileTree) (home start : Path) (given : Option Path) (path : Path)
    (table : Named) : Prop :=
  given.or (find tree home start) = some path ∧ ∃ place content data,
    tree.follow? path = some place ∧ tree.content? place = some content ∧
    Toml.read? content = some data ∧ toolData (path.getLast?.getD "") data = .ok (.dict table)

theorem load_of_reads (h : Reads tree home start given path table) :
    load tree home start given =
      standard.apply (.dict table) >>= fun c => .ok (c, some path) := by
  obtain ⟨hpath, place, content, data, hplace, hcontent, hread, htool⟩ := h
  have hfile : ofFile path content = standard.apply (.dict table) := by
    rw [ofFile, hread]
    show toolData _ data >>= _ = _
    rw [htool]
    rfl
  unfold load
  simp only [hpath, hplace, hcontent, hfile]

theorem load_eq_ok (h : Reads tree home start given path table) {file : Option Path} :
    load tree home start given = .ok (c, file) ↔
      standard.apply (.dict table) = .ok c ∧ file = some path := by
  rw [load_of_reads h, bind_eq_ok]
  constructor
  · rintro ⟨c', hc, h⟩
    cases h
    exact ⟨hc, rfl⟩
  · rintro ⟨hc, rfl⟩
    exact ⟨c, hc, rfl⟩

theorem load_eq_error (h : Reads tree home start given path table) :
    load tree home start given = .error e ↔ standard.apply (.dict table) = .error e := by
  rw [load_of_reads h, bind_eq_error]
  constructor
  · rintro (he | ⟨c, -, h⟩)
    · exact he
    · cases h
  · exact .inl

/-- A folder with a settings file. -/
def settingsFile (content : String) : FileTree := ⟨[(["work", "routeproof.toml"], content)], []⟩

theorem reads_settingsFile {content : String} (hread : Toml.read? content = some table)
    (htool : Entries.get? table "tool" = none) :
    Reads (settingsFile content) [] ["work"] none ["work", "routeproof.toml"] table := by
  refine ⟨rfl, ["work", "routeproof.toml"], content, table, rfl, rfl, hread, ?_⟩
  rw [toolData, htool]
  rfl

/-- A number of workers may be a Boolean. -/
def declaredText : String :=
  "[solver]\ntimeout_ms = 30\nmax_workers = true\n[output]\nformat = \"json\"\n"

def declaredTable : Named :=
  [("solver", .dict [("timeout_ms", .int 30), ("max_workers", .bool true)]),
    ("output", .dict [("format", .text "json")])]

end Settings

end RouteInvariants
