import RouteInvariants.Toml.Text
import RouteInvariants.Toml.Scalar
import RouteInvariants.Toml.Table

/-!
A settings file as a whole: values, which may nest, and statements, one to a line.
-/

namespace RouteInvariants.Toml

/-! ### Values

The number bounds the depth and the length of what is read; twice the length of the text is enough,
because every second step takes a character. -/

mutual

def value : Nat → Reader Datum
  | 0, _ => none
  | n + 1, cs =>
    match cs with
    | '[' :: rest => (elements n rest).map fun p => (.list p.1, p.2)
    | '\x7b' :: rest =>
      match skipBlanks rest with
      | '\x7d' :: rest => some (.dict [], rest)
      | rest => (members n [] rest).map fun p => (.dict (tableData p.1), p.2)
    | 't' :: 'r' :: 'u' :: 'e' :: rest => some (.bool true, rest)
    | 'f' :: 'a' :: 'l' :: 's' :: 'e' :: rest => some (.bool false, rest)
    | '"' :: _ => (quotedText cs).map fun p => (.text p.1, p.2)
    | '\'' :: _ => (quotedText cs).map fun p => (.text p.1, p.2)
    | _ => scalar cs

/-- The elements of an array up to its closing bracket; the last may be followed by a comma. -/
def elements : Nat → Reader (List Datum)
  | 0, _ => none
  | n + 1, cs => do
    match ← skipSpace false cs with
    | ']' :: rest => some ([], rest)
    | cs =>
      let (v, rest) ← value n cs
      match ← skipSpace false rest with
      | ']' :: rest => some ([v], rest)
      | ',' :: rest => (elements n rest).map fun p => (v :: p.1, p.2)
      | _ => none

/-- The members of an inline table up to its closing brace, added to those already read. -/
def members : Nat → Table → Reader Table
  | 0, _, _ => none
  | n + 1, t, cs => do
    let (k, rest) ← key cs
    match rest with
    | '=' :: rest =>
      let (v, rest) ← value n (skipBlanks rest)
      let t ← t.assign 0 k.name v k.parents
      match skipBlanks rest with
      | '\x7d' :: rest => some (t, rest)
      | ',' :: rest => members n t (skipBlanks rest)
      | _ => none
    | _ => none

end

/-! ### Statements -/

/-- What has been read so far: the tables, the header in force and the number of headers before. -/
structure Draft where
  table : Table
  header : List String
  block : Nat

def Draft.empty : Draft := ⟨[], [], 0⟩

namespace Draft

variable (d : Draft)

/-- Opens a block under a header. -/
def open_ (k : Key) (f : String → Table → Option Table) : Option Draft :=
  (d.table.within (f k.name) k.parents).map fun t => ⟨t, k.path, d.block + 1⟩

def assign (k : Key) (v : Datum) : Option Draft :=
  (d.table.within (fun t => t.assign d.block k.name v k.parents) d.header).map fun t =>
    { d with table := t }

def statement (cs : List Char) : Option (Draft × List Char) :=
  match cs with
  | '#' :: _ => some (d, cs)
  | '[' :: '[' :: rest => do
    let (k, rest) ← key (skipBlanks rest)
    match rest with
    | ']' :: ']' :: rest => (d.open_ k Table.append).map fun d => (d, rest)
    | _ => none
  | '[' :: rest => do
    let (k, rest) ← key (skipBlanks rest)
    match rest with
    | ']' :: rest => (d.open_ k Table.declare).map fun d => (d, rest)
    | _ => none
  | _ => do
    let (k, rest) ← key cs
    match rest with
    | '=' :: rest =>
      let (v, rest) ← value (2 * rest.length + 2) (skipBlanks rest)
      (d.assign k v).map fun d => (d, rest)
    | _ => none

end Draft

/-- Reads at most `n` lines. -/
def statements : Nat → Draft → List Char → Option Table
  | 0, _, _ => none
  | n + 1, d, cs =>
    match skipBlanks cs with
    | [] => some d.table
    | '\n' :: rest => statements n d rest
    | cs => do
      let (d, rest) ← d.statement cs
      match ← skipComment (skipBlanks rest) with
      | [] => some d.table
      | '\n' :: rest => statements n d rest
      | _ => none

/-- The tables of a settings file; none when the text breaks a rule of the format. -/
def read? (s : String) : Option (List (String × Datum)) :=
  let cs := unifyBreaks s.toList
  (statements (cs.length + 1) .empty cs).map tableData

end RouteInvariants.Toml
