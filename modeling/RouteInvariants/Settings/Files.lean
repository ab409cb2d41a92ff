import RouteInvariants.Settings.Basic
import RouteInvariants.Toml.Document

/-!
Where settings come from: the nearest settings file at or above a folder, or one in the home folder.
-/

namespace RouteInvariants

/-- The names on the way from the top folder. -/
abbrev Path := List String

/-- A path as it is written: empty parts and dots count for nothing. -/
def Path.ofText (s : String) : Path := (s.splitOn "/").filter fun p => p ≠ "" && p ≠ "."

def Path.text (p : Path) : String := "/" ++ "/".intercalate p

/-- Goes from a folder along a path that may go up; nothing lies above the top folder. -/
def Path.resolve (base : Path) (steps : List String) : Path :=
  steps.foldl (fun p step => if step = ".." then p.dropLast else p ++ [step]) base

structure FileTree where
  files : List (Path × String)
  folders : List Path
deriving Inhabited

namespace FileTree

variable (tree : FileTree)

def content? (p : Path) : Option String := Entries.get? tree.files p

def isFolder (p : Path) : Bool :=
  tree.folders.any p.isPrefixOf || tree.files.any fun f => p.isPrefixOf f.1 && p != f.1

def contains (p : Path) : Bool := (tree.content? p).isSome || tree.isFolder p

/-- Follows a path that may go up, as far as each step exists. -/
def follow? (steps : List String) : Option Path :=
  steps.foldlM (fun p step =>
    if !tree.isFolder p then none
    else if step = ".." then some p.dropLast
    else if tree.contains (p ++ [step]) then some (p ++ [step]) else none) []

/-- The first of the names that exists in a folder. -/
def firstIn (folder : Path) (names : List String) : Option Path :=
  (names.map fun n => folder ++ [n]).find? tree.contains

end FileTree

namespace Settings

def projectFile : String := "pyproject.toml"

def fileNames : List String := ["routeproof.toml", ".routeproof.toml", projectFile]

def homeFileNames : List String := [".routeproof.toml", "routeproof.toml"]

variable (tree : FileTree)

/-- The nearest settings file at or above the folder whose names are given from the innermost one
outwards; the top folder itself is not searched. -/
def nearest : List String → Option Path
  | [] => none
  | name :: above => (tree.firstIn (name :: above).reverse fileNames).or (nearest above)

def find (home start : Path) : Option Path :=
  (nearest tree start.reverse).or (tree.firstIn home homeFileNames)

/-- The data that concern this tool: its own table if there is one, else the whole file, unless the
file is shared with other tools. -/
def toolData (name : String) (data : Named) : Except SettingsError Datum :=
  let whole := if name = projectFile then .dict [] else .dict data
  match Entries.get? data "tool" with
  | none => .ok whole
  | some (.dict tools) => .ok ((Entries.get? tools "routeproof").getD whole)
  | some _ => .error .notTable

def ofFile (path : Path) (content : String) : Except SettingsError Settings :=
  match Toml.read? content with
  | none => .error (.unreadable path.text)
  | some data => do standard.apply (← toolData (path.getLast?.getD "") data)

/-- Settings from the given file, or else from the one that is found, with the file they are from. A
file that does not exist leaves the standard settings. -/
def load (home start : Path) (given : Option Path) :
    Except SettingsError (Settings × Option Path) := do
  match given.or (find tree home start) with
  | none => .ok (standard, none)
  | some path =>
    match tree.follow? path with
    | none => .ok (standard, none)
    | some place =>
      match tree.content? place with
      | none => .error .folder
      | some content => .ok (← ofFile path content, some path)

end Settings

end RouteInvariants
