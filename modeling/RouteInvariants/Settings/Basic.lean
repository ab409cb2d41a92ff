import RouteInvariants.Datum.Literal

/-!
Settings of the checks and of their reports. A section holds named values, and what it does not hold
has its default; a new value must have the type of the value that it replaces, and an unset value
takes any type. A section has further members, which can be named like settings: some hold values of
their own, most take none.
-/

namespace RouteInvariants

inductive Section where
  | solver | output
deriving DecidableEq, Inhabited

def Section.display : Section → String
  | solver => "solver"
  | output => "output"

inductive SettingsError where
  | unreadable (path : String)
  | unknown (s : Section) (key : String)
  | mistyped (s : Section) (key expected found : String)
  /-- A table is needed and something else is there. -/
  | notTable
  /-- A section is looked for in something that has none. -/
  | noSections
  /-- A folder stands where a file is needed. -/
  | folder
  /-- A member cannot be replaced. -/
  | readOnly
deriving DecidableEq, Inhabited

def SettingsError.message : SettingsError → String
  | unreadable path => "failed to parse config file " ++ path
  | unknown s key => "unknown setting " ++ s.display ++ "." ++ key
  | mistyped s key expected found =>
    "setting " ++ s.display ++ "." ++ key ++ " expects " ++ expected ++ ", got " ++ found
  | notTable => "settings are not a table"
  | noSections => "settings have no sections"
  | folder => "settings file is a folder"
  | readOnly => "member is not writable"

/-- The settings of a section with their defaults. -/
def Section.defaults : Section → Named
  | solver => [("timeout_ms", .null), ("max_workers", .int 4), ("print_formulas", .bool false),
      ("check_merge_laws", .bool false), ("merge_law_examples", .int 100)]
  | output => [("format", .text "text"), ("color", .bool true), ("verbose", .bool false),
      ("show_symbolics", .bool true)]

/-- The values that the sections hold. -/
structure Settings where
  solver : Named
  output : Named
deriving Inhabited

namespace Settings

def standard : Settings := ⟨Section.solver.defaults, Section.output.defaults⟩

def held (c : Settings) : Section → Named
  | .solver => c.solver
  | .output => c.output

/-- The settings of a section, in the order of their declaration. -/
def get (c : Settings) (s : Section) : Named :=
  s.defaults.map fun d => (d.1, (Entries.get? (c.held s) d.1).getD d.2)

def set (c : Settings) (s : Section) (values : Named) : Settings :=
  match s with
  | .solver => { c with solver := values }
  | .output => { c with output := values }

/-- Named values in place of some of the standard ones; none when a name is not known. -/
def override? (standard : Named) (options : Named) : Option Named :=
  options.foldlM (fun values o =>
    if (Entries.get? values o.1).isSome then some (Entries.insert values o.1 o.2) else none) standard

/-! ### Applying data -/

/-- Whether a value may replace the current one: a Boolean is also a number, a point in time is also
a date. -/
def accepts : Datum → Datum → Bool
  | .null, _ => true
  | .int _, .bool _ => true
  | .calendar .date _, .calendar .dateTime _ => true
  | current, value => current.typeName = value.typeName

/-- Members that hold a value, which can be replaced by one of its type. -/
def valueMembers : Named :=
  [("__doc__", .text ""), ("__module__", .text ""), ("__hash__", .null), ("__annotations__", .dict []),
    ("__dataclass_fields__", .dict []), ("__match_args__", .tuple [])]

/-- Members that no value can replace, by the name of their type. -/
def fixedMembers : List (String × List String) :=
  [("method", ["to_dict", "__init__", "__eq__", "__repr__"]),
    ("method-wrapper", ["__delattr__", "__ge__", "__getattribute__", "__gt__", "__le__", "__lt__",
      "__ne__", "__setattr__", "__str__"]),
    ("builtin_function_or_method", ["__dir__", "__format__", "__getstate__", "__init_subclass__",
      "__new__", "__reduce__", "__reduce_ex__", "__sizeof__", "__subclasshook__"]),
    ("type", ["__class__"]),
    ("_DataclassParams", ["__dataclass_params__"])]

def fixedType? (key : String) : Option String :=
  (fixedMembers.find? fun m => m.2.contains key).map Prod.fst

/-- The member under which a section holds all of its values. -/
def allValues : String := "__dict__"

/-- The member that is unset and stays so. -/
def backReference : String := "__weakref__"

/-- What a member holds: a value of the section, else a default, else a value of its own. -/
def member? (s : Section) (values : Named) (key : String) : Option Datum :=
  (Entries.get? values key).or ((Entries.get? s.defaults key).or (Entries.get? valueMembers key))

def replace (s : Section) (values : Named) (key : String) (value : Datum) :
    Except SettingsError Named :=
  if key = allValues then match value with
    | .dict entries => .ok entries
    | _ => .error (.mistyped s key "dict" value.typeName)
  else if key = backReference then .error .readOnly
  else match member? s values key, fixedType? key with
    | some current, _ =>
      if accepts current value then .ok (Entries.insert values key value)
      else .error (.mistyped s key current.typeName value.typeName)
    | none, some expected => .error (.mistyped s key expected value.typeName)
    | none, none => .error (.unknown s key)

def applySection (s : Section) (values : Named) : Datum → Except SettingsError Named
  | .dict entries => entries.foldlM (fun acc e => replace s acc e.1 e.2) values
  | _ => .error .notTable

def holds (word : List Char) : List Char → Bool
  | [] => word.isEmpty
  | c :: cs => word.isPrefixOf (c :: cs) || holds word cs

/-- The data for a section. A list or a text that mentions the section does not hold any. -/
def sectionData (s : Section) : Datum → Except SettingsError (Option Datum)
  | .dict entries => .ok (Entries.get? entries s.display)
  | .list xs => if xs.any (· == .text s.display) then .error .noSections else .ok none
  | .tuple xs => if xs.any (· == .text s.display) then .error .noSections else .ok none
  | .text t => if holds s.display.toList t.toList then .error .noSections else .ok none
  | _ => .error .noSections

def applyTo (data : Datum) (c : Settings) (s : Section) : Except SettingsError Settings := do
  match ← sectionData s data with
  | some values => .ok (c.set s (← applySection s (c.held s) values))
  | none => .ok c

def apply (c : Settings) (data : Datum) : Except SettingsError Settings :=
  [Section.solver, .output].foldlM (applyTo data) c

/-! ### Text -/

/-- A text stands between double quotes as it is. -/
def line : String × Datum → Option String
  | (_, .null) => none
  | (key, .bool b) => some (key ++ " = " ++ if b then "true" else "false")
  | (key, .text s) => some (key ++ " = \"" ++ s ++ "\"")
  | (key, value) => some (key ++ " = " ++ value.display)

def sectionLines (c : Settings) (s : Section) : List String :=
  "" :: ("[tool.routeproof." ++ s.display ++ "]") :: (c.get s).filterMap line

/-- The settings as the text of a settings file. -/
def toToml (c : Settings) : String :=
  "\n".intercalate ("[tool.routeproof]" :: c.sectionLines .solver ++ c.sectionLines .output)

end Settings

end RouteInvariants
