import RouteInvariants.Journal.Basic
import RouteInvariants.Journal.Template

/-!
Records of a host log that are forwarded to a journal. A record has a numeric severity and a template
with arguments; forwarding lets through those of at least a threshold, once for every bridge.
-/

namespace RouteInvariants

/-- Without a threshold of its own the host log lets warnings through. -/
def Bridges.effective (b : Bridges) : Int := if b.threshold = 0 then 30 else b.threshold

/-- The severities that have names. -/
def severityNames : List (String × Int) :=
  [("CRITICAL", 50), ("FATAL", 50), ("ERROR", 40), ("WARNING", 30), ("WARN", 30), ("INFO", 20),
    ("DEBUG", 10), ("NOTSET", 0)]

/-- Why a threshold cannot be set: it is a name of no severity, or neither a name nor a number. -/
inductive ThresholdError where
  | unknownName (name : String)
  | noSeverity
deriving DecidableEq, Inhabited

def ThresholdError.message : ThresholdError → String
  | unknownName name => "Unknown level: " ++ Text.quoted name
  | noSeverity => "no severity"

/-- A threshold given by number or by name. -/
def thresholdOf : Datum → Except ThresholdError Int
  | .text name => match Entries.get? severityNames name with
    | some n => .ok n
    | none => .error (.unknownName name)
  | d => match d.exactInteger? with
    | some n => .ok n
    | none => .error .noSeverity

namespace Journal

/-- Logs a record by its severity. -/
def record (j : Journal) (severity : Int) (message : String) : Journal :=
  if 40 ≤ severity then j.error message
  else if 30 ≤ severity then j.warning message
  else j.log (if severity = 10 then .debug else .normal) message "python" []

/-- One bridge more; the last one sets the threshold. -/
def addBridge (j : Journal) (threshold : Int) : Journal :=
  { j with bridges := ⟨j.bridges.count + 1, threshold⟩ }

/-- Forwards a record over all bridges; severities that are not positive are never let through. -/
def forward (j : Journal) (severity : Int) (template : String) (args : List Datum) :
    Except TemplateError Journal := do
  if j.bridges.count = 0 || severity ≤ 0 || severity < j.bridges.effective then return j
  let m ← Template.fill template args
  return (List.range j.bridges.count).foldl (fun j _ => j.record severity m) j

end Journal

end RouteInvariants
