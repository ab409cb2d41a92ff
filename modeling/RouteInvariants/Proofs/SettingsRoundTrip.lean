import RouteInvariants.Proofs.Protocols
import RouteInvariants.Proofs.SettingTypes
import RouteInvariants.Proofs.TomlTexts

/-!
Settings that are written to a file and loaded from it. A text is written between quotes without
escapes, so the settings come back if and only if the format is plain (`load_toToml`): numbers,
truth values and an unset timeout always do.
-/

namespace RouteInvariants

theorem Entries.get?_foldl_insert {κ α : Type} [DecidableEq κ] {es : List (κ × α)}
    (hes : (keys es).Nodup) (base : List (κ × α)) (k : κ) :
    get? (es.foldl (fun acc e => insert acc e.1 e.2) base) k = (get? es k).or (get? base k) := by
  induction es generalizing base with
  | nil => rfl
  | cons e es ih =>
    rw [keys, List.map_cons, List.nodup_cons] at hes
    rw [List.foldl_cons, ih hes.2, get?_insert, get?_cons]
    by_cases hk : e.1 = k
    · subst hk
      rw [get?_eq_none hes.1, if_pos rfl, if_pos rfl]
      rfl
    · rw [if_neg hk, if_neg hk]

namespace Toml

/-! ### Tables that entries are added to -/

def nodes (es : Named) : Table := es.map fun e => (e.1, .value e.2)

theorem tableData_nodes (es : Named) : tableData (nodes es) = es := by
  induction es with
  | nil => rfl
  | cons e es ih =>
    show (e.1, e.2) :: tableData (nodes es) = _
    rw [ih]

/-- A change at the end of the path is a change of the table that `wrap` puts there. -/
def LeadsInto (path : List String) (wrap : Table → Table) : Prop :=
  ∀ (f : Table → Option Table) (u : Table), Table.within f path (wrap u) = (f u).map wrap

theorem foldlM_assign {path : List String} {wrap : Table → Table} (hwrap : LeadsInto path wrap)
    {es : Named} {u : Table} (hes : (Entries.keys (u ++ nodes es)).Nodup) (block : Nat) :
    es.foldlM (fun d e => d.assign ⟨[], e.1⟩ e.2) (⟨wrap u, path, block⟩ : Draft) =
      some ⟨wrap (u ++ nodes es), path, block⟩ := by
  induction es generalizing u with
  | nil => simp [nodes]
  | cons e es ih =>
    have happend : u ++ nodes (e :: es) = u ++ [(e.1, .value e.2)] ++ nodes es := by simp [nodes]
    have hfresh : e.1 ∉ Entries.keys u := by
      rw [Entries.keys, List.map_append, List.nodup_append] at hes
      exact fun he => hes.2.2 _ he _ List.mem_cons_self rfl
    have hassign : Draft.assign ⟨wrap u, path, block⟩ ⟨[], e.1⟩ e.2 =
        some ⟨wrap (u ++ [(e.1, .value e.2)]), path, block⟩ := by
      have hnone : Entries.get? u e.1 = none := Entries.get?_eq_none hfresh
      rw [Draft.assign, hwrap, Table.assign, hnone, Entries.insert_of_not_mem hfresh]
      rfl
    rw [happend] at hes
    rw [List.foldlM_cons, hassign, happend]
    exact ih hes

theorem toList_intercalate_break (l : String) (ls : List String) :
    ("\n".intercalate (l :: ls)).toList = l.toList ++ continued (ls.map String.toList) := by
  rw [String.toList_intercalate]
  induction ls generalizing l with
  | nil => simp [continued]
  | cons l' ls ih =>
    have htext : continued ((l' :: ls).map String.toList) =
        '\n' :: (l'.toList ++ continued (ls.map String.toList)) := rfl
    rw [htext, ← ih l', List.map_cons, List.map_cons, List.intercalate_cons_cons]
    exact List.append_assoc _ _ _

end Toml

namespace Settings

open Toml

/-! ### The lines of a section -/

/-- Data that are read back as they are written. -/
def IsWritten : Datum → Prop
  | .null | .bool _ | .int _ => True
  | .text s => IsPlain s.toList
  | _ => False

theorem readsLine_line {key l : String} {d : Datum} (hkey : IsBareName key) (hd : IsWritten d)
    (hl : line (key, d) = some l) : ReadsLine l.toList fun D => D.assign ⟨[], key⟩ d := by
  cases d with
  | null => cases hl
  | bool b =>
    cases hl
    have htext : (key ++ " = " ++ if b then "true" else "false").toList =
        key.toList ++ ' ' :: '=' :: ' ' :: (if b then "true" else "false").toList := by
      rw [String.toList_append, String.toList_append, List.append_assoc]
      rfl
    rw [htext]
    exact readsLine_entry hkey (readsAs_bool b)
  | int n =>
    cases hl
    have htext : (key ++ " = " ++ (Datum.int n).display).toList =
        key.toList ++ ' ' :: '=' :: ' ' :: (toString n).toList := by
      rw [String.toList_append, String.toList_append, List.append_assoc]
      rfl
    rw [htext]
    exact readsLine_entry hkey (readsAs_int n)
  | text s =>
    cases hl
    have htext : (key ++ " = \"" ++ s ++ "\"").toList =
        key.toList ++ ' ' :: '=' :: ' ' :: '"' :: (s.toList ++ ['"']) := by
      rw [String.toList_append, String.toList_append, String.toList_append, List.append_assoc,
        List.append_assoc]
      rfl
    rw [htext]
    exact readsLine_entry hkey (readsAs_text hd)
  | _ => cases hd

/-- The entries that have a line. -/
def present (es : Named) : Named := es.filter fun e => (line e).isSome

/-- The lines of some entries, with what they do. -/
def entryLines (es : Named) : List (List Char × (Draft → Option Draft)) :=
  es.filterMap fun e => (line e).map fun l => (l.toList, fun D => D.assign ⟨[], e.1⟩ e.2)

theorem map_fst_entryLines (es : Named) :
    (entryLines es).map Prod.fst = (es.filterMap line).map String.toList := by
  rw [entryLines, List.map_filterMap, List.map_filterMap]
  congr 1
  funext e
  rw [Option.map_map]
  rfl

theorem readsLine_entryLines {es : Named} (h : ∀ e ∈ es, IsBareName e.1 ∧ IsWritten e.2) :
    ∀ l ∈ entryLines es, ReadsLine l.1 l.2 := by
  intro l hl
  obtain ⟨e, he, hl⟩ := List.mem_filterMap.1 hl
  obtain ⟨text, htext, rfl⟩ := Option.map_eq_some_iff.1 hl
  exact readsLine_line (h e he).1 (h e he).2 htext

theorem foldlM_entryLines (es : Named) (D : Draft) :
    (entryLines es).foldlM (fun D l => l.2 D) D =
      (present es).foldlM (fun D e => D.assign ⟨[], e.1⟩ e.2) D := by
  induction es generalizing D with
  | nil => rfl
  | cons e es ih =>
    cases he : line e with
    | none =>
      have hlines : entryLines (e :: es) = entryLines es := by simp [entryLines, he]
      have hpresent : present (e :: es) = present es := by simp [present, he]
      rw [hlines, hpresent, ih]
    | some l =>
      have hlines : entryLines (e :: es) =
          (l.toList, fun D => D.assign ⟨[], e.1⟩ e.2) :: entryLines es := by simp [entryLines, he]
      have hpresent : present (e :: es) = e :: present es := by simp [present, he]
      rw [hlines, hpresent, List.foldlM_cons, List.foldlM_cons]
      exact congrArg (Draft.assign D ⟨[], e.1⟩ e.2 >>= ·) (funext ih)

/-! ### The text of all settings -/

def headerLine (parents : List String) (name : String) : List Char × (Draft → Option Draft) :=
  ('[' :: (dotted parents name ++ [']']), fun D => D.open_ ⟨parents, name⟩ Table.declare)

/-- The lines before the entries of the output section. -/
def frontLines (c : Settings) : List (List Char × (Draft → Option Draft)) :=
  [headerLine ["tool"] "routeproof", ([], some), headerLine ["tool", "routeproof"] "solver"] ++
    entryLines (c.get .solver) ++ [([], some), headerLine ["tool", "routeproof"] "output"]

/-- The text of some entries, each on a new line. -/
def written (es : Named) : List Char := continued ((es.filterMap line).map String.toList)

theorem toList_toToml (c : Settings) : '\n' :: c.toToml.toList =
    continued (c.frontLines.map Prod.fst) ++ written (c.get .output) := by
  have hlines : (c.sectionLines .solver ++ c.sectionLines .output).map String.toList =
      [] :: (headerLine ["tool", "routeproof"] "solver").1 ::
        (((c.get .solver).filterMap line).map String.toList ++
          [] :: (headerLine ["tool", "routeproof"] "output").1 ::
            ((c.get .output).filterMap line).map String.toList) := by
    rw [List.map_append]
    rfl
  rw [toToml, List.cons_append, toList_intercalate_break, hlines]
  simp only [frontLines, written, List.map_append, List.map_cons, List.map_nil, map_fst_entryLines,
    continued, List.flatMap_append, List.flatMap_cons, List.flatMap_nil, List.append_assoc,
    List.cons_append, List.nil_append, List.append_nil]
  rfl

def nested (sections : Table) : Table :=
  [("tool", .table .implied [("routeproof", .table .declared sections)])]

theorem leadsInto_solver : LeadsInto ["tool", "routeproof", "solver"] fun u =>
    nested [("solver", .table .declared u)] := by
  intro f u
  cases hf : f u <;> simp [Table.within, nested, Entries.get?, Entries.insert, hf]

theorem leadsInto_output (solver : Table) : LeadsInto ["tool", "routeproof", "output"] fun u =>
    nested [("solver", .table .declared solver), ("output", .table .declared u)] := by
  intro f u
  cases hf : f u <;> simp [Table.within, nested, Entries.get?, Entries.insert, hf]

/-! ### Well-typed settings -/

variable {c : Settings}

theorem keys_get (c : Settings) (s : Section) :
    Entries.keys (c.get s) = Entries.keys s.defaults := by
  simp [get, Entries.keys]

theorem nodup_keys_get (c : Settings) (s : Section) : (Entries.keys (c.get s)).Nodup := by
  rw [keys_get]
  cases s <;> decide

theorem nodup_keys_present (c : Settings) (s : Section) :
    (Entries.keys (present (c.get s))).Nodup :=
  (nodup_keys_get c s).sublist (List.filter_sublist.map _)

theorem keys_nodes (es : Named) : Entries.keys (nodes es) = Entries.keys es := by
  simp [nodes, Entries.keys]

theorem isBareName_of_mem_get {s : Section} {e : String × Datum} (he : e ∈ c.get s) :
    IsBareName e.1 := by
  have hkey : e.1 ∈ Entries.keys s.defaults := keys_get c s ▸ List.mem_map_of_mem he
  have hbare : ∀ k ∈ Entries.keys s.defaults, k.toList ≠ [] ∧ k.toList.all isBare = true := by
    cases s <;> decide
  obtain ⟨hne, hall⟩ := hbare e.1 hkey
  exact ⟨hne, List.all_eq_true.1 hall⟩

theorem WellTyped.exists_type (hc : c.WellTyped) {s : Section} {e : String × Datum}
    (he : e ∈ c.get s) : ∃ f ∈ s.types, f.1 = e.1 ∧ f.2.admits e.2 = true := by
  obtain ⟨f, hf, h⟩ := exists_left_of_forall₂ (hc s) he
  exact ⟨f, hf, h⟩

theorem admits_cases {t : SettingType} {d : Datum} (h : t.admits d = true) :
    d = .null ∨ (∃ b, d = .bool b) ∨ (∃ n, d = .int n) ∨ t = .text ∧ ∃ s, d = .text s := by
  cases d with
  | null => exact .inl rfl
  | bool b => exact .inr (.inl ⟨b, rfl⟩)
  | int n => exact .inr (.inr (.inl ⟨n, rfl⟩))
  | text s =>
    cases t with
    | text => exact .inr (.inr (.inr ⟨rfl, s, rfl⟩))
    | _ => cases h
  | calendar kind written => cases kind <;> cases t <;> cases h
  | _ => cases t <;> cases h

theorem line_eq_none_iff {e : String × Datum} : line e = none ↔ e.2 = .null := by
  obtain ⟨key, d⟩ := e
  cases d <;> simp [line]

/-- All but the format is read back as it is written, and the format if it is plain. -/
theorem WellTyped.isWritten (hc : c.WellTyped) {s : Section} {e : String × Datum} (he : e ∈ c.get s)
    (hplain : ∀ t, e = ("format", .text t) → IsPlain t.toList) : IsWritten e.2 := by
  obtain ⟨f, hf, hkey, hadmits⟩ := hc.exists_type he
  obtain ⟨key, d⟩ := e
  rcases admits_cases hadmits with hd | ⟨b, hd⟩ | ⟨n, hd⟩ | ⟨htext, t, hd⟩
  · obtain rfl : d = .null := hd
    trivial
  · obtain rfl : d = .bool b := hd
    trivial
  · obtain rfl : d = .int n := hd
    trivial
  · obtain rfl : d = .text t := hd
    have hformat : ∀ f ∈ s.types, f.2 = .text → f.1 = "format" := by cases s <;> decide
    obtain rfl : "format" = key := (hformat f hf htext).symm.trans hkey
    exact hplain t rfl

theorem mem_get_solver_ne_format {e : String × Datum} (he : e ∈ c.get .solver) :
    e.1 ≠ "format" := by
  have hkey : e.1 ∈ Entries.keys Section.solver.defaults :=
    keys_get c .solver ▸ List.mem_map_of_mem he
  have hne : ∀ k ∈ Entries.keys Section.solver.defaults, k ≠ "format" := by decide
  exact hne e.1 hkey

theorem WellTyped.readsLine_frontLines (hc : c.WellTyped) :
    ∀ l ∈ c.frontLines, ReadsLine l.1 l.2 := by
  have hheader : ∀ (parents : List String) (name : String),
      (∀ p ∈ name :: parents, p.toList ≠ [] ∧ p.toList.all isBare = true) →
      ReadsLine (headerLine parents name).1 (headerLine parents name).2 := by
    intro parents name h
    have hbare : ∀ p ∈ name :: parents, IsBareName p := fun p hp =>
      ⟨(h p hp).1, List.all_eq_true.1 (h p hp).2⟩
    rw [List.forall_mem_cons] at hbare
    exact readsLine_header hbare.2 hbare.1
  have hentries : ∀ l ∈ entryLines (c.get .solver), ReadsLine l.1 l.2 := by
    refine readsLine_entryLines fun e he =>
      ⟨isBareName_of_mem_get he, hc.isWritten he fun t ht => ?_⟩
    exact absurd (congrArg Prod.fst ht) (mem_get_solver_ne_format he)
  simp only [frontLines, List.forall_mem_append, List.forall_mem_cons]
  exact ⟨⟨⟨hheader _ _ (by decide), readsLine_blank, hheader _ _ (by decide),
    List.forall_mem_nil _⟩, hentries⟩, readsLine_blank, hheader _ _ (by decide),
    List.forall_mem_nil _⟩

/-- What has been read before the entries of the output section. -/
def frontDraft (c : Settings) : Draft :=
  ⟨nested [("solver", .table .declared (nodes (present (c.get .solver)))),
    ("output", .table .declared [])], ["tool", "routeproof", "output"], 3⟩

theorem foldlM_frontLines (c : Settings) :
    c.frontLines.foldlM (fun D l => l.2 D) Draft.empty = some c.frontDraft := by
  have hheaders : [headerLine ["tool"] "routeproof", ([], some),
      headerLine ["tool", "routeproof"] "solver"].foldlM (fun D l => l.2 D) Draft.empty =
      some ⟨nested [("solver", .table .declared [])], ["tool", "routeproof", "solver"], 2⟩ := rfl
  have hkeys : (Entries.keys ([] ++ nodes (present (c.get .solver)))).Nodup := by
    rw [List.nil_append, keys_nodes]
    exact nodup_keys_present c .solver
  have hsolver := foldlM_assign leadsInto_solver hkeys 2
  rw [← foldlM_entryLines, List.nil_append] at hsolver
  have houtput : ∀ u, [([], some), headerLine ["tool", "routeproof"] "output"].foldlM
      (fun D l => l.2 D) ⟨nested [("solver", .table .declared u)],
        ["tool", "routeproof", "solver"], 2⟩ = some ⟨nested [("solver", .table .declared u),
          ("output", .table .declared [])], ["tool", "routeproof", "output"], 3⟩ := fun u => rfl
  rw [frontLines, List.foldlM_append, List.foldlM_append, hheaders, Option.bind_eq_bind,
    Option.bind_some, hsolver, Option.bind_some, houtput]
  rfl

/-! ### Plain settings -/

/-- The table that a section is read as. -/
def sectionTable (c : Settings) : Named :=
  [("solver", .dict (present (c.get .solver))), ("output", .dict (present (c.get .output)))]

theorem WellTyped.read?_toToml (hc : c.WellTyped)
    (hplain : ∀ t, ("format", .text t) ∈ c.get .output → IsPlain t.toList) :
    read? c.toToml = some [("tool", .dict [("routeproof", .dict c.sectionTable)])] := by
  have hentries : ∀ l ∈ entryLines (c.get .output), ReadsLine l.1 l.2 :=
    readsLine_entryLines fun e he =>
      ⟨isBareName_of_mem_get he, hc.isWritten he fun t ht => hplain t (ht ▸ he)⟩
  have hls : ∀ l ∈ c.frontLines ++ entryLines (c.get .output), ReadsLine l.1 l.2 :=
    List.forall_mem_append.2 ⟨hc.readsLine_frontLines, hentries⟩
  have hkeys : (Entries.keys ([] ++ nodes (present (c.get .output)))).Nodup := by
    rw [List.nil_append, keys_nodes]
    exact nodup_keys_present c .output
  have hdraft := foldlM_assign (leadsInto_output (nodes (present (c.get .solver)))) hkeys 3
  rw [← foldlM_entryLines, List.nil_append] at hdraft
  have hd : (c.frontLines ++ entryLines (c.get .output)).foldlM (fun D l => l.2 D) Draft.empty =
      some ⟨nested [("solver", .table .declared (nodes (present (c.get .solver)))),
        ("output", .table .declared (nodes (present (c.get .output))))],
        ["tool", "routeproof", "output"], 3⟩ := by
    rw [List.foldlM_append, foldlM_frontLines]
    exact hdraft
  have htext : '\n' :: c.toToml.toList =
      continued ((c.frontLines ++ entryLines (c.get .output)).map Prod.fst) ++ [] := by
    rw [toList_toToml, written, List.map_append, map_fst_entryLines, List.append_nil]
    exact List.flatMap_append.symm
  obtain ⟨n, hn⟩ := read?_lines hls hd endsLine_nil htext
  rw [hn]
  show some (tableData (nested _)) = _
  simp only [nested, tableData, Node.toDatum, tableData_nodes]
  rfl

theorem declares_present (hc : c.WellTyped) (s : Section) : s.Declares (present (c.get s)) :=
  ⟨nodup_keys_present c s, fun _ he => hc.exists_type (List.mem_of_mem_filter he)⟩

theorem nodup_keys_defaults (s : Section) : (Entries.keys s.defaults).Nodup := by
  cases s <;> decide

/-- Only a setting whose default is unset can be unset. -/
theorem default_eq_null (hc : c.WellTyped) {s : Section} {d : String × Datum} (hd : d ∈ s.defaults)
    (hnull : (d.1, .null) ∈ c.get s) : d.2 = .null := by
  obtain ⟨f, hf, hkey, hadmits⟩ := hc.exists_type hnull
  have htype := eq_optionalInteger_of_admits_null hadmits
  have hdefault : Entries.get? s.defaults f.1 = some d.2 :=
    hkey ▸ Entries.get?_of_mem (nodup_keys_defaults s) hd
  rcases default_cases hf with h | ⟨n, -, hinteger⟩ | ⟨d', -, hnames⟩
  · exact Option.some.inj (hdefault.symm.trans h)
  · rw [htype] at hinteger
    cases hinteger
  · rw [htype] at hnames
    cases congrArg List.length hnames

/-- Writing all settings that are set over the defaults gives the settings. -/
theorem get_eq_get {c' : Settings} (hc : c.WellTyped) {s : Section} (h : c'.held s =
      (present (c.get s)).foldl (fun acc e => Entries.insert acc e.1 e.2) s.defaults) :
    c'.get s = c.get s := by
  refine List.map_congr_left fun d hd => ?_
  have hmem : (d.1, (Entries.get? (c.held s) d.1).getD d.2) ∈ c.get s :=
    List.mem_map_of_mem (f := fun d => (d.1, (Entries.get? (c.held s) d.1).getD d.2)) hd
  generalize (Entries.get? (c.held s) d.1).getD d.2 = v at hmem ⊢
  rw [h, Entries.get?_foldl_insert (nodup_keys_present c s)]
  cases hline : line (d.1, v) with
  | some l =>
    have hpresent : (d.1, v) ∈ present (c.get s) := List.mem_filter.2 ⟨hmem, by rw [hline]; rfl⟩
    rw [Entries.get?_of_mem (nodup_keys_present c s) hpresent]
    rfl
  | none =>
    obtain rfl : v = .null := line_eq_none_iff.1 hline
    have habsent : Entries.get? (present (c.get s)) d.1 = none := by
      by_contra hsome
      obtain ⟨w, hw⟩ := Option.ne_none_iff_exists'.1 hsome
      obtain ⟨hw, hset⟩ := List.mem_filter.1 (Entries.mem_of_get? hw)
      have heq : some w = some .null :=
        (Entries.get?_of_mem (nodup_keys_get c s) hw).symm.trans
          (Entries.get?_of_mem (nodup_keys_get c s) hmem)
      rw [Option.some.inj heq, hline] at hset
      cases hset
    rw [habsent, Entries.get?_of_mem (nodup_keys_defaults s) hd]
    exact congrArg (d.1, ·) (default_eq_null hc hd hmem)

variable {tree : FileTree} {home start path place : Path} {given : Option Path}

theorem exists_load_of_plain (hc : c.WellTyped)
    (hplain : ∀ t, ("format", .text t) ∈ c.get .output → IsPlain t.toList)
    (hpath : given.or (find tree home start) = some path) (hplace : tree.follow? path = some place)
    (hcontent : tree.content? place = some c.toToml) :
    ∃ c', load tree home start given = .ok (c', some path) ∧ ∀ s, c'.get s = c.get s := by
  have hreads : Reads tree home start given path c.sectionTable :=
    ⟨hpath, place, c.toToml, _, hplace, hcontent, hc.read?_toToml hplain, rfl⟩
  have hsection : ∀ s : Section, ofTable c.sectionTable s = .ok
      ((present (c.get s)).foldl (fun acc e => Entries.insert acc e.1 e.2) s.defaults) := by
    intro s
    have hdata : Entries.get? c.sectionTable s.display = some (.dict (present (c.get s))) := by
      cases s <;> rfl
    rw [ofTable, hdata]
    exact foldlM_replace_of_declares (declares_present hc s) fun _ _ => rfl
  obtain ⟨c', hc'⟩ := exists_apply_standard fun s => ⟨_, hsection s⟩
  refine ⟨c', (load_eq_ok hreads).2 ⟨hc', rfl⟩, fun s => get_eq_get hc ?_⟩
  exact Except.ok.inj ((apply_standard_eq_ok.1 hc' s).symm.trans (hsection s))

/-! ### Texts of loaded settings -/

/-- The text stands in a default of the section. -/
def InDefaults (t : String) (s : Section) : Prop := ∃ d ∈ s.defaults, d.2.Has t

theorem has_of_mem_entries {t : String} {d : Datum} {e : String × Datum} (he : e ∈ d.entries)
    (ht : e.2.Has t) : d.Has t := by
  cases d with
  | dict es => exact .dict he ht
  | _ => cases he

theorem has_applySection {Q : Prop} {t : String} {s : Section} {values values' : Named} {d : Datum}
    (hvalues : ∀ e ∈ values, e.2.Has t → Q) (hd : d.Has t → Q)
    (h : applySection s values d = .ok values') : ∀ e ∈ values', e.2.Has t → Q := by
  cases d with
  | dict entries =>
    refine foldlM_invariant (P := fun values => ∀ e ∈ values, e.2.Has t → Q)
      (fun entry hentry _ _ hold hreplace => ?_) hvalues h
    intro e he ht
    rcases replace_eq_ok hreplace with ⟨-, rfl⟩ | ⟨-, -, rfl, -⟩
    · exact hd (.dict hentry (has_of_mem_entries he ht))
    · rcases Entries.mem_of_mem_insert he with he | rfl
      · exact hold e he ht
      · exact hd (.dict hentry ht)
  | _ => cases h

theorem has_sectionData {t : String} {s : Section} {data d : Datum}
    (h : sectionData s data = .ok (some d)) (ht : d.Has t) : data.Has t := by
  cases data with
  | dict entries => exact .dict (Entries.mem_of_get? (Except.ok.inj h)) ht
  | list xs =>
    rw [sectionData] at h
    split at h <;> cases h
  | tuple xs =>
    rw [sectionData] at h
    split at h <;> cases h
  | text x =>
    rw [sectionData] at h
    split at h <;> cases h
  | _ => cases h

theorem has_apply {t : String} {data : Datum} (h : standard.apply data = .ok c) :
    ∀ s, ∀ e ∈ c.held s, e.2.Has t → InDefaults t s ∨ data.Has t := by
  refine foldlM_invariant
    (P := fun c => ∀ s, ∀ e ∈ c.held s, e.2.Has t → InDefaults t s ∨ data.Has t)
    (fun s _ c₁ c₂ hold happly => ?_) ?_ h
  · obtain ⟨found, hfound, happly⟩ := bind_eq_ok.1 happly
    cases found with
    | none =>
      cases happly
      exact hold
    | some d =>
      obtain ⟨values, hvalues, happly⟩ := bind_eq_ok.1 happly
      cases happly
      have hnew : ∀ e ∈ values, e.2.Has t → InDefaults t s ∨ data.Has t :=
        has_applySection (hold s) (fun ht => .inr (has_sectionData hfound ht)) hvalues
      intro s' e he ht
      cases s <;> cases s'
      · exact hnew e he ht
      · exact hold .output e he ht
      · exact hold .solver e he ht
      · exact hnew e he ht
  · intro s e he ht
    cases s <;> exact .inl ⟨e, he, ht⟩

theorem has_toolData {t name : String} {data : Named} {d : Datum} (h : toolData name data = .ok d)
    (ht : d.Has t) : (Datum.dict data).Has t := by
  have hwhole : Datum.Has t (if name = projectFile then .dict [] else .dict data) →
      (Datum.dict data).Has t := by
    intro ht
    split at ht
    · cases ht with
      | dict he _ => cases he
    · exact ht
  unfold toolData at h
  dsimp only at h
  split at h
  · cases h
    exact hwhole ht
  · rename_i tools htools
    cases h
    cases htool : Entries.get? tools "routeproof" with
    | none =>
      rw [htool] at ht
      exact hwhole ht
    | some tool =>
      rw [htool] at ht
      exact .dict (Entries.mem_of_get? htools) (.dict (Entries.mem_of_get? htool) ht)
  · cases h

/-- The texts of settings are defaults or come from the file. -/
theorem has_ofFile {t content : String} (h : ofFile path content = .ok c) {s : Section}
    {e : String × Datum} (he : e ∈ c.get s) (ht : e.2.Has t) :
    InDefaults t s ∨ ∃ data, read? content = some data ∧ (Datum.dict data).Has t := by
  unfold ofFile at h
  split at h
  · cases h
  · rename_i data hread
    obtain ⟨d, hd, happly⟩ := bind_eq_ok.1 h
    obtain ⟨default, hdefault, rfl⟩ := List.mem_map.1 he
    cases hheld : Entries.get? (c.held s) default.1 with
    | none =>
      rw [hheld] at ht
      exact .inl ⟨default, hdefault, ht⟩
    | some v =>
      rw [hheld] at ht
      rcases has_apply happly s _ (Entries.mem_of_get? hheld) ht with ht | ht
      · exact .inl ht
      · exact .inr ⟨data, hread, has_toolData hd ht⟩

theorem WellTyped.not_has_solver (hc : c.WellTyped) {e : String × Datum}
    (he : e ∈ c.get .solver) (t : String) : ¬ e.2.Has t := by
  obtain ⟨f, hf, -, hadmits⟩ := hc.exists_type he
  have hno : ∀ f ∈ Section.solver.types, f.2 ≠ .text := by decide
  intro ht
  rcases admits_cases hadmits with h | ⟨b, h⟩ | ⟨n, h⟩ | ⟨htext, -⟩
  · rw [h] at ht
    cases ht
  · rw [h] at ht
    cases ht
  · rw [h] at ht
    cases ht
  · exact hno f hf htext

theorem WellTyped.not_has_frontDraft (hc : c.WellTyped) (t : String) :
    ¬ c.frontDraft.table.Has t := by
  -- The path goes through two tables; of the two sections, the second is still empty.
  rintro ⟨tool, htool, ht⟩
  obtain rfl := List.mem_singleton.1 htool
  cases ht with
  | table hsections ht =>
    obtain rfl := List.mem_singleton.1 hsections
    cases ht with
    | table hsection ht =>
      rcases List.mem_cons.1 hsection with rfl | houtput
      · cases ht with
        | table he ht =>
          obtain ⟨e, hpresent, rfl⟩ := List.mem_map.1 he
          cases ht with
          | value ht => exact hc.not_has_solver (List.mem_of_mem_filter hpresent) t ht
      · obtain rfl := List.mem_singleton.1 houtput
        cases ht with
        | table he _ => cases he

/-- Truth values under bare names. -/
def AreFlags (es : Named) : Prop := ∀ e ∈ es, IsBareName e.1 ∧ ∃ b, e.2 = .bool b

/-- The settings after the format are truth values. -/
theorem WellTyped.output_eq (hc : c.WellTyped) {t : String}
    (ht : ("format", .text t) ∈ c.get .output) :
    ∃ others, c.get .output = ("format", .text t) :: others ∧ AreFlags others := by
  obtain ⟨v, others, hsplit⟩ : ∃ v others, c.get .output = ("format", v) :: others := ⟨_, _, rfl⟩
  have hnodup := nodup_keys_get c .output
  have hv : v = .text t := by
    have hmem : ("format", v) ∈ c.get .output := hsplit ▸ List.mem_cons_self
    have hfirst := Entries.get?_of_mem hnodup hmem
    exact Option.some.inj (hfirst.symm.trans (Entries.get?_of_mem hnodup ht))
  subst hv
  refine ⟨others, hsplit, fun e he => ?_⟩
  have hmem : e ∈ c.get .output := hsplit ▸ List.mem_cons_of_mem _ he
  have hne : e.1 ≠ "format" := by
    rw [hsplit, Entries.keys, List.map_cons, List.nodup_cons] at hnodup
    intro hkey
    have hkeys : e.1 ∈ others.map Prod.fst := List.mem_map_of_mem he
    rw [hkey] at hkeys
    exact hnodup.1 hkeys
  obtain ⟨f, hf, hkey, hadmits⟩ := hc.exists_type hmem
  have hboolean : ∀ f ∈ Section.output.types, f.1 ≠ "format" → f.2 = .boolean := by decide
  rw [hboolean f hf (hkey ▸ hne)] at hadmits
  refine ⟨isBareName_of_mem_get hmem, ?_⟩
  rcases admits_cases hadmits with h | hb | ⟨n, h⟩ | ⟨h, -⟩
  · rw [h] at hadmits
    cases hadmits
  · exact hb
  · rw [h] at hadmits
    cases hadmits
  · cases h

theorem quoteless_line {key l : String} {b : Bool} (hkey : IsBareName key)
    (hl : line (key, .bool b) = some l) : ∀ c ∈ l.toList, c ≠ '"' ∧ c ≠ '\'' := by
  have hbare : ∀ c ∈ key.toList, c ≠ '"' ∧ c ≠ '\'' := by
    intro c hc
    refine ⟨?_, ?_⟩
    · rintro rfl
      cases hkey.2 _ hc
    · rintro rfl
      cases hkey.2 _ hc
  cases hl
  intro c hc
  rw [String.toList_append, String.toList_append, List.mem_append, List.mem_append] at hc
  have hequals : ∀ c ∈ " = ".toList, c ≠ '"' ∧ c ≠ '\'' := by simp
  have hvalue : ∀ c ∈ (if b then "true" else "false").toList, c ≠ '"' ∧ c ≠ '\'' := by
    cases b <;> simp
  rcases hc with (hc | hc) | hc
  · exact hbare c hc
  · exact hequals c hc
  · exact hvalue c hc

namespace AreFlags

variable {es : Named} (hes : AreFlags es)

include hes

theorem exists_line {l : List Char} (hl : l ∈ (es.filterMap line).map String.toList) :
    ∃ key b text, IsBareName key ∧ line (key, .bool b) = some text ∧ text.toList = l := by
  obtain ⟨text, htext, rfl⟩ := List.mem_map.1 hl
  obtain ⟨⟨key, d⟩, he, hline⟩ := List.mem_filterMap.1 htext
  obtain ⟨hkey, b, rfl⟩ := hes _ he
  exact ⟨key, b, text, hkey, hline, rfl⟩

theorem reach_written : reach (written es) = 0 := by
  refine reach_eq_zero fun c hc => ?_
  obtain ⟨l, hl, hc⟩ := List.mem_flatMap.1 hc
  obtain ⟨key, b, text, hkey, hline, rfl⟩ := hes.exists_line hl
  rcases List.mem_cons.1 hc with rfl | hc
  · decide
  · exact quoteless_line hkey hline c hc

theorem noReturn_written : '\r' ∉ written es := by
  refine noReturn_continued fun l hl => ?_
  obtain ⟨key, b, text, hkey, hline, rfl⟩ := hes.exists_line hl
  exact (readsLine_line (d := .bool b) hkey trivial hline).noReturn

end AreFlags

theorem toList_toToml_format {t : String} {others : Named}
    (h : c.get .output = ("format", .text t) :: others) :
    '\n' :: c.toToml.toList = continued (c.frontLines.map Prod.fst) ++
      '\n' :: ("format = \"".toList ++ (t.toList ++ '"' :: written others)) := by
  have hline : line ("format", .text t) = some ("format" ++ " = \"" ++ t ++ "\"") := rfl
  have hrest : ("format" ++ " = \"" ++ t ++ "\"").toList ++ written others =
      "format = \"".toList ++ (t.toList ++ '"' :: written others) := by
    rw [String.toList_append, String.toList_append, List.append_assoc, List.append_assoc]
    rfl
  rw [toList_toToml, h, written, List.filterMap_cons_some hline, ← hrest]
  rfl

/-- Of the line of the format and the lines after it, only the format can have line breaks that are
read as others. -/
theorem unifyBreaks_format (t : List Char) {rest : List Char} (hrest : '\r' ∉ rest) :
    unifyBreaks ('\n' :: ("format = \"".toList ++ (t ++ '"' :: rest))) =
      '\n' :: ("format".toList ++ ' ' :: '=' :: ' ' :: '"' :: (unifyBreaks t ++ '"' :: rest)) := by
  have hend : unifyBreaks ('"' :: rest) = '"' :: rest := by
    have hall : '\r' ∉ '"' :: rest := by simpa using hrest
    simpa [unifyBreaks] using unifyBreaks_append_left hall []
  rw [unifyBreaks_cons (by decide), unifyBreaks_append_left (by decide),
    unifyBreaks_append (by rintro c ⟨⟩; decide), hend]
  rfl

theorem isPlain_of_read (hc : c.WellTyped) {t : String} (ht : ("format", .text t) ∈ c.get .output)
    {data : Named} (hread : read? c.toToml = some data) (hhas : (Datum.dict data).Has t) :
    IsPlain t.toList := by
  obtain ⟨others, hsplit, hothers⟩ := hc.output_eq ht
  obtain ⟨n, hn⟩ := read?_lines hc.readsLine_frontLines (foldlM_frontLines c) (endsLine_break _)
    (toList_toToml_format hsplit)
  rw [hread, unifyBreaks_format t.toList hothers.noReturn_written] at hn
  obtain ⟨u, hu, rfl⟩ := Option.map_eq_some_iff.1 hn.symm
  cases hhas with
  | dict he hhas =>
    exact isPlain_of_has (isBareName_of_mem_get ht) (length_unifyBreaks_le t.toList)
      hothers.reach_written hu (hc.not_has_frontDraft t) (has_tableData u _ he hhas)

/-! ### The round trip -/

theorem isPlain_of_inDefaults {t : String} (h : InDefaults t .output) : IsPlain t.toList := by
  obtain ⟨d, hd, ht⟩ := h
  simp only [Section.defaults, List.mem_cons, List.not_mem_nil, or_false] at hd
  rcases hd with rfl | rfl | rfl | rfl
  · cases ht with
    | text => simp [IsPlain, isControl]
  all_goals cases ht

/-- Settings of the declared types come back from the file that they are written to if and only if
the format needs no escape. -/
theorem load_toToml (hc : c.WellTyped) (hpath : given.or (find tree home start) = some path)
    (hplace : tree.follow? path = some place) (hcontent : tree.content? place = some c.toToml) :
    (∃ c', load tree home start given = .ok (c', some path) ∧ ∀ s, c'.get s = c.get s) ↔
      ∀ format, ("format", .text format) ∈ c.get .output → IsPlain format.toList := by
  constructor
  · rintro ⟨c', hload, hsame⟩ format hformat
    have hfile : ofFile path c.toToml = .ok c' := by
      unfold load at hload
      simp only [hpath, hplace, hcontent] at hload
      obtain ⟨c₁, hc₁, heq⟩ := bind_eq_ok.1 hload
      cases heq
      exact hc₁
    rcases has_ofFile hfile (hsame .output ▸ hformat) .text with hdefault | ⟨data, hread, ht⟩
    · exact isPlain_of_inDefaults hdefault
    · exact isPlain_of_read hc hformat hread ht
  · exact fun hplain => exists_load_of_plain hc hplain hpath hplace hcontent

/-- A truth value for a number, a negative number, and a tab in the format. -/
def tabbed : Settings :=
  ⟨[("timeout_ms", .int (-30)), ("max_workers", .bool true)], [("format", .text "wide\ttable")]⟩

theorem load_toToml_tabbed :
    tabbed.WellTyped ∧ ∃ c', load (settingsFile tabbed.toToml) [] ["work"] none =
      .ok (c', some ["work", "routeproof.toml"]) ∧ ∀ s, c'.get s = tabbed.get s := by
  have htyped : tabbed.WellTyped := by
    intro s
    cases s <;> decide
  refine ⟨htyped, (load_toToml htyped rfl rfl rfl).2 fun format hformat => ?_⟩
  have hvalue := Entries.get?_of_mem (nodup_keys_get tabbed .output) hformat
  cases hvalue
  simp [IsPlain, isControl]

def withFormat (format : String) : Settings := ⟨[], [("format", .text format)]⟩

/-- A format with a quote makes the file unreadable, and of two backslashes one is left. -/
theorem load_toToml_not_plain :
    ((withFormat "a\"b").WellTyped ∧
      load (settingsFile (withFormat "a\"b").toToml) [] ["work"] none =
        .error (.unreadable "/work/routeproof.toml")) ∧
    (withFormat "a\\\\b").WellTyped ∧
      (load (settingsFile (withFormat "a\\\\b").toToml) [] ["work"] none).toOption.map (fun r =>
        (Entries.get? (r.1.get .output) "format").map Datum.display) = some (some "a\\b") := by
  refine ⟨⟨fun s => ?_, ?_⟩, fun s => ?_, by decide +kernel⟩
  · cases s <;> decide
  · have hread : read? (withFormat "a\"b").toToml = none := by
      rw [← Option.isNone_iff_eq_none]
      decide +kernel
    have hload : load (settingsFile (withFormat "a\"b").toToml) [] ["work"] none =
        ofFile ["work", "routeproof.toml"] (withFormat "a\"b").toToml >>= fun c =>
          .ok (c, some ["work", "routeproof.toml"]) := rfl
    rw [hload, ofFile, hread]
    rfl
  · cases s <;> decide

end Settings

end RouteInvariants
