import Mathlib.Data.List.Infix
import RouteInvariants.Settings.Files

/-!
Which settings file is found. A search goes through folders at and above the one where it starts;
what it should find is said by `IsFound`, for any choice of the folders that count and of the paths
that are taken to exist. Main statement: `find_isFound`. All folders count but the topmost one, and
a folder is taken for a file, so the nearest settings file of all folders is found unless a folder
has the name of one, or only the topmost folder has one and the home folder does not give the same.
-/

namespace RouteInvariants

def FileTree.isFile (tree : FileTree) (p : Path) : Bool := (tree.content? p).isSome

theorem FileTree.contains_of_isFile {tree : FileTree} {p : Path} (h : tree.isFile p = true) :
    tree.contains p = true := by
  rw [contains, ← isFile, h, Bool.true_or]

namespace Settings

variable {tree : FileTree} {home start folder path : Path} {names : List String}
  {Counts : Path → Prop} {Has : Path → Bool}

/-- One of the names exists in the folder. -/
def HasOneOf (Has : Path → Bool) (folder : Path) (names : List String) : Prop :=
  ∃ n ∈ names, Has (folder ++ [n]) = true

/-- The path is that of the first name which exists in the folder. -/
def IsFirstIn (Has : Path → Bool) (folder : Path) (names : List String) (path : Path) : Prop :=
  ∃ before name after, names = before ++ name :: after ∧ path = folder ++ [name] ∧
    Has path = true ∧ ∀ n ∈ before, Has (folder ++ [n]) = false

/-- No folder at or above `start` that counts has a settings file. -/
def NoneAbove (Counts : Path → Prop) (Has : Path → Bool) (start : Path) : Prop :=
  ∀ folder, folder <+: start → Counts folder → ¬ HasOneOf Has folder fileNames

/-- The first settings file of the nearest folder at or above `start` that has one, where only some
folders count. -/
def IsNearest (Counts : Path → Prop) (Has : Path → Bool) (start path : Path) : Prop :=
  ∃ folder, folder <+: start ∧ Counts folder ∧ IsFirstIn Has folder fileNames path ∧
    ∀ inner, inner <+: start → Counts inner → folder.length < inner.length →
      ¬ HasOneOf Has inner fileNames

/-- The outcome of a search: the nearest settings file, and else one in the home folder. -/
def IsFound (Counts : Path → Prop) (Has : Path → Bool) (home start : Path) : Option Path → Prop
  | some path => IsNearest Counts Has start path ∨
      NoneAbove Counts Has start ∧ IsFirstIn Has home homeFileNames path
  | none => NoneAbove Counts Has start ∧ ¬ HasOneOf Has home homeFileNames

/-! ### One folder -/

def firstOf (Has : Path → Bool) (folder : Path) (names : List String) : Option Path :=
  (names.map fun n => folder ++ [n]).find? Has

theorem firstOf_eq_none_iff : firstOf Has folder names = none ↔ ¬ HasOneOf Has folder names := by
  rw [firstOf, List.find?_map, Option.map_eq_none_iff, List.find?_eq_none]
  simp [HasOneOf]

theorem firstOf_eq_some_iff :
    firstOf Has folder names = some path ↔ IsFirstIn Has folder names path := by
  rw [firstOf, List.find?_map, Option.map_eq_some_iff]
  constructor
  · rintro ⟨name, hname, rfl⟩
    obtain ⟨hname, before, after, hnames, hbefore⟩ := List.find?_eq_some_iff_append.1 hname
    refine ⟨before, name, after, hnames, rfl, hname, fun n hn => ?_⟩
    simpa using hbefore n hn
  · rintro ⟨before, name, after, hnames, rfl, hname, hbefore⟩
    refine ⟨name, List.find?_eq_some_iff_append.2 ⟨hname, before, after, hnames, ?_⟩, rfl⟩
    intro n hn
    simpa using hbefore n hn

theorem IsFirstIn.has (h : IsFirstIn Has folder names path) : Has path = true := by
  obtain ⟨_, _, _, -, -, hpath, -⟩ := h
  exact hpath

theorem IsFirstIn.hasOneOf (h : IsFirstIn Has folder names path) : HasOneOf Has folder names := by
  obtain ⟨before, name, after, rfl, rfl, hname, -⟩ := h
  exact ⟨name, List.mem_append_right _ List.mem_cons_self, hname⟩

theorem HasOneOf.exists_isFirstIn (h : HasOneOf Has folder names) :
    ∃ path, IsFirstIn Has folder names path := by
  cases hfirst : firstOf Has folder names with
  | none => exact absurd h (firstOf_eq_none_iff.1 hfirst)
  | some path => exact ⟨path, firstOf_eq_some_iff.1 hfirst⟩

/-! ### There is one outcome -/

theorem IsNearest.not_noneAbove (h : IsNearest Counts Has start path) :
    ¬ NoneAbove Counts Has start := by
  obtain ⟨folder, hfolder, hcounts, hfirst, -⟩ := h
  exact fun hnone => hnone folder hfolder hcounts hfirst.hasOneOf

theorem IsNearest.unique {path' : Path} (h : IsNearest Counts Has start path)
    (h' : IsNearest Counts Has start path') : path = path' := by
  obtain ⟨folder, hfolder, hcounts, hfirst, hinner⟩ := h
  obtain ⟨folder', hfolder', hcounts', hfirst', hinner'⟩ := h'
  -- neither folder is nearer than the other, so they are the same
  have hle : ¬ folder.length < folder'.length := fun hlt =>
    hinner folder' hfolder' hcounts' hlt hfirst'.hasOneOf
  have hge : ¬ folder'.length < folder.length := fun hlt =>
    hinner' folder hfolder hcounts hlt hfirst.hasOneOf
  have hsame : folder = folder' :=
    (List.prefix_of_prefix_length_le hfolder hfolder' (by omega)).eq_of_length (by omega)
  subst hsame
  have hpath := firstOf_eq_some_iff.2 hfirst
  rw [firstOf_eq_some_iff.2 hfirst'] at hpath
  exact (Option.some.inj hpath).symm

theorem isFound_of_noneAbove (h : NoneAbove Counts Has start) {found : Option Path} :
    IsFound Counts Has home start found ↔ firstOf Has home homeFileNames = found := by
  cases found with
  | none => exact (and_iff_right h).trans firstOf_eq_none_iff.symm
  | some path =>
    rw [firstOf_eq_some_iff]
    exact ⟨fun hfound => hfound.elim (fun hnear => absurd h hnear.not_noneAbove) And.right,
      fun hfirst => .inr ⟨h, hfirst⟩⟩

theorem isFound_of_isNearest (h : IsNearest Counts Has start path) {found : Option Path} :
    IsFound Counts Has home start found ↔ some path = found := by
  cases found with
  | none => exact ⟨fun hfound => absurd hfound.1 h.not_noneAbove, fun hsame => by cases hsame⟩
  | some path' =>
    rw [Option.some.injEq]
    refine ⟨fun hfound => ?_, fun hsame => .inl (hsame ▸ h)⟩
    rcases hfound with hnear | ⟨hnone, -⟩
    · exact h.unique hnear
    · exact absurd hnone h.not_noneAbove

/-! ### The search -/

theorem nearest_concat (start : Path) (name : String) :
    nearest tree (start ++ [name]).reverse =
      (firstOf tree.contains (start ++ [name]) fileNames).or (nearest tree start.reverse) := by
  rw [List.reverse_concat, nearest, List.reverse_cons, List.reverse_reverse]
  rfl

/-- Going up from a folder finds the nearest file, the topmost folder left out. -/
theorem nearest_spec (tree : FileTree) (start : Path) :
    (nearest tree start.reverse).elim (NoneAbove (· ≠ []) tree.contains start)
      (IsNearest (· ≠ []) tree.contains start) := by
  induction start using List.reverseRecOn with
  | nil => exact fun folder hfolder hne => absurd (List.prefix_nil.1 hfolder) hne
  | append_singleton above name ih =>
    rw [nearest_concat]
    cases hfirst : firstOf tree.contains (above ++ [name]) fileNames with
    | some path =>
      refine ⟨above ++ [name], List.prefix_rfl, by simp, firstOf_eq_some_iff.1 hfirst, ?_⟩
      exact fun inner hinner _ hlt => absurd hinner.length_le (Nat.not_le.2 hlt)
    | none =>
      rw [firstOf_eq_none_iff] at hfirst
      rw [Option.none_or]
      -- the start has no file, so that what holds of the folders above it holds with it
      cases hnear : nearest tree above.reverse with
      | some path =>
        rw [hnear] at ih
        obtain ⟨folder, hfolder, hne, hpath, hinner⟩ := ih
        refine ⟨folder, hfolder.trans (List.prefix_append _ _), hne, hpath, ?_⟩
        intro inner h hne hlt
        rcases List.prefix_concat_iff.1 h with rfl | h
        · exact hfirst
        · exact hinner inner h hne hlt
      | none =>
        rw [hnear] at ih
        intro folder h hne
        rcases List.prefix_concat_iff.1 h with rfl | h
        · exact hfirst
        · exact ih folder h hne

theorem find_eq_iff {found : Option Path} :
    find tree home start = found ↔ IsFound (· ≠ []) tree.contains home start found := by
  have hspec := nearest_spec tree start
  unfold find
  cases hnear : nearest tree start.reverse with
  | some path =>
    rw [hnear] at hspec
    exact (isFound_of_isNearest hspec).symm
  | none =>
    rw [hnear] at hspec
    exact (isFound_of_noneAbove hspec).symm

/-! ### Files of all folders -/

theorem hasOneOf_of_isFile (h : HasOneOf tree.isFile folder names) :
    HasOneOf tree.contains folder names := by
  obtain ⟨n, hn, hfile⟩ := h
  exact ⟨n, hn, FileTree.contains_of_isFile hfile⟩

theorem IsFirstIn.isFile (h : IsFirstIn tree.contains folder names path)
    (hfile : tree.isFile path = true) : IsFirstIn tree.isFile folder names path := by
  obtain ⟨before, name, after, hnames, hpath, -, hbefore⟩ := h
  refine ⟨before, name, after, hnames, hpath, hfile, fun n hn => ?_⟩
  refine Bool.eq_false_iff.2 fun hfile' => ?_
  have hcontains := FileTree.contains_of_isFile hfile'
  rw [hbefore n hn] at hcontains
  cases hcontains

theorem IsNearest.isFile (h : IsNearest (· ≠ []) tree.contains start path)
    (hfile : tree.isFile path = true) : IsNearest (fun _ => True) tree.isFile start path := by
  obtain ⟨folder, hfolder, -, hfirst, hinner⟩ := h
  refine ⟨folder, hfolder, trivial, hfirst.isFile hfile, fun inner h _ hlt hfiles => ?_⟩
  refine hinner inner h ?_ hlt (hasOneOf_of_isFile hfiles)
  rintro rfl
  exact Nat.not_lt_zero _ hlt

/-- The topmost folder is the nearest one with a file if all below it have none. -/
theorem isNearest_topmost (hnone : NoneAbove (· ≠ []) tree.contains start)
    (hfirst : IsFirstIn tree.isFile [] fileNames path) :
    IsNearest (fun _ => True) tree.isFile start path := by
  refine ⟨[], List.nil_prefix, trivial, hfirst, fun inner h _ hlt hfiles => ?_⟩
  refine hnone inner h ?_ (hasOneOf_of_isFile hfiles)
  rintro rfl
  exact Nat.not_lt_zero _ hlt

theorem noneAbove_isFile (hnone : NoneAbove (· ≠ []) tree.contains start)
    (htop : ¬ HasOneOf tree.isFile [] fileNames) : NoneAbove (fun _ => True) tree.isFile start := by
  intro folder hfolder _ hfiles
  by_cases hne : folder = []
  · exact htop (hne ▸ hfiles)
  · exact hnone folder hfolder hne (hasOneOf_of_isFile hfiles)

/-- The search finds the nearest settings file or folder of that name at or above a folder, the
topmost folder left out, and else one in the home folder. That is the nearest settings file of all
folders if and only if it is a file, and the one in the topmost folder where only this has one. -/
theorem find_isFound (tree : FileTree) (home start : Path) :
    (∀ found, find tree home start = found ↔
      IsFound (· ≠ []) tree.contains home start found) ∧
    (IsFound (fun _ => True) tree.isFile home start (find tree home start) ↔
      (∀ path, find tree home start = some path → tree.isFile path = true) ∧
      (NoneAbove (· ≠ []) tree.contains start → ∀ path, IsFirstIn tree.isFile [] fileNames path →
        find tree home start = some path)) := by
  refine ⟨fun found => find_eq_iff, fun hfound => ⟨fun path hfind => ?_, ?_⟩,
    fun ⟨hfile, htop⟩ => ?_⟩
  · rw [hfind] at hfound
    rcases hfound with ⟨folder, -, -, hfirst, -⟩ | ⟨-, hfirst⟩
    · exact hfirst.has
    · exact hfirst.has
  · intro hnone path hfirst
    exact ((isFound_of_isNearest (isNearest_topmost hnone hfirst)).1 hfound).symm
  · cases hfind : find tree home start with
    | none =>
      obtain ⟨hnone, hhome⟩ := find_eq_iff.1 hfind
      refine ⟨noneAbove_isFile hnone fun hfiles => ?_, fun hfiles => ?_⟩
      · obtain ⟨path, hpath⟩ := hfiles.exists_isFirstIn
        rw [htop hnone path hpath] at hfind
        cases hfind
      · exact hhome (hasOneOf_of_isFile hfiles)
    | some path =>
      rcases find_eq_iff.1 hfind with hnear | ⟨hnone, hhome⟩
      · exact .inl (hnear.isFile (hfile path hfind))
      · by_cases hfiles : HasOneOf tree.isFile [] fileNames
        · obtain ⟨path', hpath'⟩ := hfiles.exists_isFirstIn
          rw [htop hnone path' hpath'] at hfind
          cases hfind
          exact .inl (isNearest_topmost hnone hpath')
        · exact .inr ⟨noneAbove_isFile hnone hfiles, hhome.isFile (hfile path hfind)⟩

def nestedTree : FileTree :=
  ⟨[(["work", "pyproject.toml"], ""), (["work", ".routeproof.toml"], ""),
    (["home", "routeproof.toml"], "")], [["work", "a", "b"]]⟩

/-- The second name in the second folder above, with a third name beside it. -/
theorem find_isFound_nested :
    find nestedTree ["home"] ["work", "a", "b"] = some ["work", ".routeproof.toml"] ∧
      IsFound (fun _ => True) nestedTree.isFile ["home"] ["work", "a", "b"]
        (some ["work", ".routeproof.toml"]) := by
  have hfind : find nestedTree ["home"] ["work", "a", "b"] = some ["work", ".routeproof.toml"] := by
    decide
  refine ⟨hfind, hfind ▸ (find_isFound nestedTree ["home"] ["work", "a", "b"]).2.2
    ⟨fun path hpath => ?_, fun hnone => ?_⟩⟩
  · cases hfind.symm.trans hpath
    decide
  · exact absurd ⟨".routeproof.toml", by decide, by decide⟩
      (hnone ["work"] (List.prefix_append ["work"] ["a", "b"]) (by decide))

def shadowedTree : FileTree := ⟨[(["work", "pyproject.toml"], "")], [["work", "routeproof.toml"]]⟩

def topmostTree : FileTree := ⟨[(["routeproof.toml"], "")], [["work"], ["home"]]⟩

/-- A folder of the first name comes before the file, and a file in the topmost folder is not
found. -/
theorem find_not_nearest_file :
    (IsFound (fun _ => True) shadowedTree.isFile ["home"] ["work"]
        (some ["work", "pyproject.toml"]) ∧
      find shadowedTree ["home"] ["work"] = some ["work", "routeproof.toml"]) ∧
    IsFound (fun _ => True) topmostTree.isFile ["home"] ["work"] (some ["routeproof.toml"]) ∧
      find topmostTree ["home"] ["work"] = none := by
  refine ⟨⟨.inl ⟨["work"], List.prefix_rfl, trivial, firstOf_eq_some_iff.1 (by decide), ?_⟩,
    by decide⟩, .inl (isNearest_topmost ?_ (firstOf_eq_some_iff.1 (by decide))), by decide⟩
  · exact fun inner hinner _ hlt => absurd hinner.length_le (Nat.not_le.2 hlt)
  · intro folder hfolder hne
    rcases List.prefix_cons_iff.1 hfolder with rfl | ⟨rest, rfl, hrest⟩
    · exact absurd rfl hne
    · rw [List.prefix_nil.1 hrest]
      exact firstOf_eq_none_iff.1 (by decide)

end Settings

end RouteInvariants
