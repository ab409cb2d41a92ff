import RouteInvariants.Report.Verdict
import RouteInvariants.Verify.Annotated

/-!
Verification of an annotated network in one of two modes, and assertions about it for tests.
-/

namespace RouteInvariants

inductive Mode where
  | modular | monolithic
deriving DecidableEq, Inhabited

namespace Mode

def display : Mode → String
  | modular => "modular"
  | monolithic => "monolithic"

def ofName (name : Datum) : Except NameError Mode :=
  match [modular, monolithic].find? fun m => name == .text m.display with
  | some m => .ok m
  | none => .error (.mode name)

end Mode

namespace AnnotatedNetwork

variable (a : AnnotatedNetwork) (oracle : Oracle) (arrival : Arrival) (settings : CheckSettings)

/-- Verifies the network; the mode is given by name. -/
def verify (modeName : Datum) : Run Failure Verdict := do
  let mode ← Obligation.fetch ((Mode.ofName modeName).mapError Failure.name)
  Run.journal fun j => j.header ("RouteProof " ++ mode.display ++ " verification")
  Run.verbose a.network.describe generalCategory
  let first ← Run.readClock
  let found ← match mode with
    | .modular => a.checkAnnotations oracle arrival settings
    | .monolithic => a.checkMonolithic oracle arrival settings
  let last ← Run.readClock
  return {
    mode := .text mode.display
    counterexample := found
    seconds := .float (elapsed first last)
    network := .text a.network.describe }

/-! ### Assertions -/

/-- A counterexample inside a message. -/
def indented (s : State) : String := (s.format?.getD "").replace "\n" "\n    "

def refute (message : String) : Option State → Run Failure Unit
  | none => pure ()
  | some s => throw (.assertion (message ++ ":\n    " ++ indented s))

/-- The annotations verify and, if asked for, the monolithic check passes too. -/
def assertSound (monolithic : Bool) : Run Failure Unit := do
  refute "expected the annotations to verify" (← a.checkAnnotations oracle arrival settings)
  if monolithic then
    refute "expected the monolithic check to pass" (← a.checkMonolithic oracle arrival settings)

/-- The modular check finds a counterexample. -/
def assertUnsound : Run Failure State := do
  match ← a.checkAnnotations oracle arrival settings with
  | some s => return s
  | none => throw (.assertion "expected the annotations to be refuted")

/-- The modular check finds a counterexample of the given kind. -/
def assertUnsoundKind (kind : CheckKind) : Run Failure State := do
  let s ← a.assertUnsound oracle arrival settings
  if s.kind = kind then return s
  else throw (.assertion ("expected a " ++ kind.display ++ " counterexample:\n    " ++ indented s))

/-- Asks whether a claim is valid. -/
def prove (claim : Term) : Run Failure Bool := do
  let s ← get
  set { s with asked := s.asked + 1 }
  match oracle s.asked (.not claim) with
  | .unsat => return true
  | .sat _ => return false
  | .unknown reason => throw (.solver ⟨reason, none, none⟩)

/-- Simulated routes satisfy the annotations for a number of rounds, whatever the symbolic values
are. -/
def assertSimulation (rounds : Nat) : Run Failure Unit := do
  let scope ← Obligation.fetch (condition a.network.constraints)
  let states ← Obligation.fetch (a.network.simulate rounds)
  states.zipIdx.forM fun state => state.1.forM fun r => do
    let holds ← Obligation.fetch
      (condition ((a.annotationOf r.1).applyTo r.2 ⟨.int state.2, .int⟩))
    if !(← prove oracle (implies scope holds)) then
      throw (.assertion ("annotation of " ++ r.1 ++ " does not hold at time "
        ++ toString state.2))

end AnnotatedNetwork

end RouteInvariants
