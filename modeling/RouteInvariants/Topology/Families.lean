import RouteInvariants.Topology.Graph

/-!
Families of topologies over lettered nodes: paths, complete graphs and stars.
-/

namespace RouteInvariants

/-- The name of the `index`-th node, counting from one: `A` to `Z`, then `AA`, `AB` and so on, as
columns of a table are named. -/
def columnName (index : Nat) : String :=
  if h : index = 0 then ""
  else
    have : (index - 1) / 26 < index := by omega
    (columnName ((index - 1) / 26)).push (Char.ofNat (65 + (index - 1) % 26))
termination_by index

/-- Names of indices that may be negative; only positive ones have a name. -/
def columnNameOfInt (index : Int) : String := columnName index.toNat

namespace Topology

/-- The undirected graph on the first `size` column names. -/
def ofLinks (size : Int) (links : List (Nat × Nat)) : Except TopologyError Topology :=
  if size < 0 then .error (.negativeSize size)
  else
    let label (i : Nat) : Label := .text (columnName (i + 1))
    Graph.toTopology
      { directed := false
        declared := (List.range size.toNat).map label
        links := links.map fun l => (label l.1, label l.2) }

/-- A path `A - B - C - …`, in both directions. -/
def path (size : Int) : Except TopologyError Topology :=
  ofLinks size ((List.range (size - 1).toNat).map fun i => (i, i + 1))

/-- Every node is a predecessor of every other. -/
def complete (size : Int) : Except TopologyError Topology :=
  let n := size.toNat
  ofLinks size ((List.range n).flatMap fun i =>
    (List.range (n - i - 1)).map fun j => (i, i + j + 1))

/-- A hub `A` joined in both directions to `size - 1` leaves. -/
def star (size : Int) : Except TopologyError Topology :=
  if size - 1 < 0 then .error (.negativeSize (size - 1))
  else ofLinks size ((List.range (size - 1).toNat).map fun i => (0, i + 1))

end Topology

end RouteInvariants
