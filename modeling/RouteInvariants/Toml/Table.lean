import RouteInvariants.Datum.Basic

/-!
Tables while a settings file is read. A table remembers how it came about, because that decides
what may still be added to it: a table has one header, and a dotted key reaches only into tables
that dotted keys of the same block have opened.
-/

namespace RouteInvariants.Toml

/-- How a table came about: on the way to a header, by its own header, or by a dotted key in the
block of the given number. -/
inductive Origin where
  | implied
  | declared
  | dotted (block : Nat)
deriving DecidableEq, Inhabited

/-- What stands behind a key: a finished value, a table, or a list of tables of which the last one is
still open. -/
inductive Node where
  | value (d : Datum)
  | table (origin : Origin) (entries : List (String × Node))
  | tables (closed : List (List (String × Node))) (current : List (String × Node))
deriving Inhabited

abbrev Table := List (String × Node)

namespace Table

/-- Changes the table behind a path of keys, and makes the tables on the way that are missing. -/
def within (f : Table → Option Table) : List String → Table → Option Table
  | [], t => f t
  | k :: ks, t =>
    match Entries.get? t k with
    | none => (within f ks []).map fun u => Entries.insert t k (.table .implied u)
    | some (.table o u) => (within f ks u).map fun u => Entries.insert t k (.table o u)
    | some (.tables closed u) => (within f ks u).map fun u => Entries.insert t k (.tables closed u)
    | some (.value _) => none

/-- Opens a table by its header. -/
def declare (name : String) (t : Table) : Option Table :=
  match Entries.get? t name with
  | none => some (Entries.insert t name (.table .declared []))
  | some (.table .implied u) => some (Entries.insert t name (.table .declared u))
  | some _ => none

/-- Opens the next table of a list. -/
def append (name : String) (t : Table) : Option Table :=
  match Entries.get? t name with
  | none => some (Entries.insert t name (.tables [] []))
  | some (.tables closed u) => some (Entries.insert t name (.tables (closed ++ [u]) []))
  | some _ => none

/-- Writes a value behind a dotted key of a block. -/
def assign (block : Nat) (name : String) (v : Datum) : List String → Table → Option Table
  | [], t =>
    if (Entries.get? t name).isSome then none else some (Entries.insert t name (.value v))
  | k :: ks, t =>
    let opened (u : Table) := (assign block name v ks u).map fun u =>
      Entries.insert t k (.table (.dotted block) u)
    match Entries.get? t k with
    | none => opened []
    | some (.table .implied u) => opened u
    | some (.table (.dotted b) u) => if b = block then opened u else none
    | some _ => none

end Table

mutual

def Node.toDatum : Node → Datum
  | .value d => d
  | .table _ t => .dict (tableData t)
  | .tables closed u => .list (tablesData closed ++ [.dict (tableData u)])

def tableData : List (String × Node) → List (String × Datum)
  | [] => []
  | (k, n) :: rest => (k, n.toDatum) :: tableData rest

def tablesData : List (List (String × Node)) → List Datum
  | [] => []
  | t :: rest => .dict (tableData t) :: tablesData rest

end

end RouteInvariants.Toml
