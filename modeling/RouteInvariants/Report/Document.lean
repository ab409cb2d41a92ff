import RouteInvariants.Report.Text

/-!
The report of a verdict as a JSON document, and the choice between the two kinds of report.
-/

namespace RouteInvariants

/-- `indent` is the unit of indentation; without one the document is a single line. -/
structure DocumentOptions where
  indent : Option String
  showSymbolics : Bool
deriving DecidableEq, Inhabited

def spaces (n : Int) : String := String.ofList (List.replicate n.toNat ' ')

/-- A unit of indentation: none, a number of blanks, or a text. -/
def indentOf? : Datum → Option (Option String)
  | .null => some none
  | .int n => some (some (spaces n))
  | .bool b => some (some (if b then " " else ""))
  | .text s => some (some s)
  | _ => none

namespace DocumentOptions

def standard : DocumentOptions := ⟨some "  ", true⟩

def ofNamed? (options : Named) : Option DocumentOptions :=
  options.foldl (fun acc o => do
    let d ← acc
    match o.1 with
    | "indent" => (indentOf? o.2).map fun i => { d with indent := i }
    | "show_symbolics" => some { d with showSymbolics := o.2.truthy }
    | _ => none) (some standard)

end DocumentOptions

namespace Verdict

/-- The counterexample's entries that are shown. -/
def shownEntries (s : State) (showSymbolics : Bool) : Named :=
  if showSymbolics then s.entries else s.entries.filter fun e => e.1 != "symbolics"

def document (v : Verdict) (o : DocumentOptions) (timestamp : String) : String :=
  let preamble : String × Datum :=
    ("meta", .dict [("tool", .text "RouteProof"), ("timestamp", .text timestamp)])
  let entries := v.entries.map fun e =>
    match e.1, v.counterexample with
    | "counterexample", some s => ("counterexample", .dict (shownEntries s o.showSymbolics))
    | _, _ => e
  (Datum.dict (preamble :: entries)).json o.indent

def isDocument (format : String) : Bool := format.toLower = "json"

/-- The report in a named format with named options; any name but that of the document format stands
for text. -/
def report (v : Verdict) (format : Datum) (options : Named) (timestamp : String) :
    Except ReportError String :=
  match format with
  | .text name =>
    if isDocument name then match DocumentOptions.ofNamed? options with
      | some o => .ok (v.document o timestamp)
      | none => .error .unsupported
    else match TextOptions.ofNamed? options with
      | some o => v.textReport o
      | none => .error .unsupported
  | _ => .error .unnamedFormat

/-- The report that the output settings ask for. -/
def reportFor (v : Verdict) (output : Named) (timestamp : String) : Except ReportError String :=
  let format := (Entries.get? output "format").getD .null
  let shared := match format with
    | .text name => if isDocument name then ["show_symbolics"] else ["color", "verbose", "show_symbolics"]
    | _ => []
  v.report format (output.filter fun o => shared.contains o.1) timestamp

end Verdict

end RouteInvariants
