import RouteInvariants.Decimal.Shortest
import RouteInvariants.Journal.Basic

/-!
Sessions: what a run of checks changes. A session holds the journal, how often the clock was read,
and how many queries were asked. Each reading of the clock is a quarter of a second after the one
before.
-/

namespace RouteInvariants

structure Session where
  journal : Journal
  readings : Nat
  asked : Nat
deriving Inhabited

/-- A computation in a session that may end with an error; what happened before stays. -/
abbrev Run (ε : Type) := ExceptT ε (StateM Session)

def Session.start (journal : Journal) : Session := { journal, readings := 0, asked := 0 }

/-- The time between two readings of the clock, in seconds. -/
def elapsed (first last : Nat) : Binary64 := .ofRat (mkRat ((last : Int) - (first : Int)) 4)

namespace Run

variable {ε α : Type}

def readClock : Run ε Nat := do
  modify fun s => { s with readings := s.readings + 1 }
  return (← get).readings

def journal (f : Journal → Journal) : Run ε Unit :=
  modify fun s => { s with journal := f s.journal }

def verbose (message category : String) : Run ε Unit :=
  journal fun j => j.log .verbose message category []

/-- Logs how long the body took, whether it succeeds or not. -/
def timed (name category : String) (body : Run ε α) : Run ε α := do
  let first ← readClock
  let result ← liftM (m := StateM Session) body.run
  let last ← readClock
  verbose (name ++ ": " ++ (elapsed first last).fixed 3 ++ "s") category
  liftExcept result
where
  liftExcept : Except ε α → Run ε α
    | .ok a => pure a
    | .error e => throw e

end Run

end RouteInvariants
