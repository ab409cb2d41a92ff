import RouteInvariants.Verify.State

/-!
The outcome of verifying a network: proved, or a counterexample.
-/

namespace RouteInvariants

/-- Why there is no report: an option is unknown or a value of the wrong kind, the time is a text or
too large for three places, or the name of the format is no text. -/
inductive ReportError where
  | unsupported
  | textTime
  | hugeTime
  | unnamedFormat
deriving DecidableEq, Inhabited

def ReportError.message : ReportError → String
  | unsupported => "option or value not supported"
  | textTime => "Unknown format code 'f' for object of type 'str'"
  | hugeTime => "int too large to convert to float"
  | unnamedFormat => "the format has no name"

/-- What was verified, how, and with which outcome. The mode, the time and the description of the
network are shown as they are. -/
structure Verdict where
  mode : Datum
  counterexample : Option State
  seconds : Datum
  network : Datum
deriving Inhabited

namespace Verdict

def proved (v : Verdict) : Bool := v.counterexample.isNone

def entries (v : Verdict) : Named :=
  [("mode", v.mode), ("proved", .bool v.proved), ("time_seconds", v.seconds), ("network", v.network),
    ("counterexample", v.counterexample.elim .null State.toDatum)]

/-- The time with three places. -/
def timeText (v : Verdict) : Except ReportError String :=
  match v.seconds with
  | .float x => .ok (x.fixed 3)
  | .int n => match Binary64.ofInt n with
    | .infinite _ => .error .hugeTime
    | x => .ok (x.fixed 3)
  | .bool b => .ok ((Binary64.ofInt (if b then 1 else 0)).fixed 3)
  | .text _ => .error .textTime
  | _ => .error .unsupported

end Verdict

end RouteInvariants
