import RouteInvariants.Journal.Entry
import RouteInvariants.Report.Verdict
import RouteInvariants.Text.Lines

/-!
The report of a verdict as text. Symbolic values can be hidden: then the counterexample ends before
the line that announces them.
-/

namespace RouteInvariants

structure TextOptions where
  color : Bool
  verbose : Bool
  showSymbolics : Bool
deriving DecidableEq, Inhabited

namespace TextOptions

def standard : TextOptions := ⟨false, false, true⟩

/-- Options by name; `none` for a name that is not known. -/
def ofNamed? (options : Named) : Option TextOptions :=
  options.foldl (fun acc o => do
    let t ← acc
    match o.1 with
    | "color" => some { t with color := o.2.truthy }
    | "verbose" => some { t with verbose := o.2.truthy }
    | "show_symbolics" => some { t with showSymbolics := o.2.truthy }
    | _ => none) (some standard)

end TextOptions

namespace Verdict

/-- The lines of a counterexample that are shown. -/
def shownLines (format : String) (showSymbolics : Bool) : List String :=
  let body := Text.lines format
  if showSymbolics then body else body.takeWhile (· != "symbolics:")

def textReport (v : Verdict) (o : TextOptions) : Except ReportError String := do
  let time ← v.timeText
  let network := if o.verbose && v.network.truthy then ["  Network:  " ++ v.network.display] else []
  let head := ["", "RouteProof - Verification Report", String.ofList (List.replicate 32 '='),
    "  Mode:     " ++ v.mode.display] ++ network ++ ["  Time:     " ++ time ++ "s", ""]
  let body ← match v.counterexample with
    | none => pure [Color.green.paint o.color "PROVED" ++ ": every check passed."]
    | some s => match s.format? with
      | some format =>
        pure ((Color.red.paint o.color "COUNTEREXAMPLE" ++ " (" ++ s.kind.display ++ " check)")
          :: (shownLines format o.showSymbolics).map fun l => "  " ++ l)
      | none => throw .unsupported
  return "\n".intercalate (head ++ body)

end Verdict

end RouteInvariants
