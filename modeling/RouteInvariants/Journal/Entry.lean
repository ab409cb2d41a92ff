import RouteInvariants.Datum.Literal

/-!
Log entries and how they are shown: a time of day, a mark for the level, the category unless it is
the general one, and the message. On a terminal the parts are coloured.
-/

namespace RouteInvariants

inductive LogLevel where
  | quiet | normal | verbose | debug | trace
deriving DecidableEq, Inhabited

namespace LogLevel

def all : List LogLevel := [quiet, normal, verbose, debug, trace]

def toNat : LogLevel → Nat
  | quiet => 0
  | normal => 1
  | verbose => 2
  | debug => 3
  | trace => 4

/-- The level with the given number. -/
def ofDatum? : Datum → Option LogLevel
  | .int n => all.find? fun l => (l.toNat : Int) = n
  | .bool b => some (if b then normal else quiet)
  | .float x => all.find? fun l => x.toRat? = some (l.toNat : Rat)
  | .ratio q => all.find? fun l => q = (l.toNat : Rat)
  | _ => none

def display : LogLevel → String
  | quiet => "QUIET"
  | normal => "NORMAL"
  | verbose => "VERBOSE"
  | debug => "DEBUG"
  | trace => "TRACE"

/-- The levels by the names under which messages are logged. -/
def named : List (String × LogLevel) :=
  [("info", normal), ("verbose", verbose), ("debug", debug), ("trace", trace)]

end LogLevel

/-- The message for a datum that is no level. -/
def invalidLevel (d : Datum) : String := d.literal ++ " is not a valid LogLevel"

/-- Terminal colours, and the code that ends them. -/
inductive Color where
  | bold | red | green | yellow | blue | magenta | cyan | white | gray
deriving DecidableEq, Inhabited

namespace Color

def code : Color → String
  | bold => "\x1b[1m"
  | red => "\x1b[31m"
  | green => "\x1b[32m"
  | yellow => "\x1b[33m"
  | blue => "\x1b[34m"
  | magenta => "\x1b[35m"
  | cyan => "\x1b[36m"
  | white => "\x1b[37m"
  | gray => "\x1b[90m"

def reset : String := "\x1b[0m"

/-- The text in the colour, if colours are on. -/
def paint (c : Color) (on : Bool) (s : String) : String := if on then c.code ++ s ++ reset else s

end Color

/-- The mark of a level; entries of the quiet level have none. -/
def LogLevel.mark : LogLevel → Option (String × Color)
  | quiet => none
  | normal => some ("•", .white)
  | verbose => some ("→", .blue)
  | debug => some ("⚙", .magenta)
  | trace => some ("⋯", .gray)

structure LogEntry where
  level : LogLevel
  message : String
  category : String
  context : List (String × Datum)
  timestamp : Rat
deriving Inhabited

def twoDigits (n : Nat) : String := if n < 10 then "0" ++ toString n else toString n

/-- The time of day of a moment given in seconds. -/
def timeOfDay (timestamp : Rat) : String :=
  let s := (timestamp.floor.emod 86400).toNat
  twoDigits (s / 3600) ++ ":" ++ twoDigits (s / 60 % 60) ++ ":" ++ twoDigits (s % 60)

def generalCategory : String := "general"

def LogEntry.format (e : LogEntry) (color showTime : Bool) : String :=
  let time := if showTime then [Color.gray.paint color (timeOfDay e.timestamp)] else []
  let mark := match e.level.mark with
    | some (m, c) => [c.paint color m]
    | none => []
  let category := if e.category = generalCategory then []
    else [Color.cyan.paint color ("[" ++ e.category ++ "]")]
  " ".intercalate (time ++ mark ++ category ++ [e.message])

/-! ### Moments -/

/-- Why a datum is no moment: it is no number, it is not defined, it does not fit into 64 bits, or its
year is too far away. -/
inductive MomentError where
  | noNumber
  | undefined
  | tooLarge
  | noYear
deriving DecidableEq, Inhabited

def MomentError.message : MomentError → String
  | noNumber => "no number of seconds"
  | undefined => "Invalid value NaN (not a number)"
  | tooLarge => "timestamp out of range for platform time_t"
  | noYear => "year out of range"

/-- The first and the last second whose year, counted from 1900, fits into 32 bits. -/
def momentRange : Int × Int := (-67768040609740800, 67768036191676799)

/-- The last second whose year itself fits into 32 bits. -/
def lastMoment : Int := 67767976233532799

/-- The moment that a number of seconds is, whole seconds only. -/
def momentOf : Datum → Except MomentError Rat
  | .int n => inRange n
  | .bool b => .ok (if b then 1 else 0)
  | .float .nan => .error .undefined
  | .float x => match x.toRat? with
    | some q => inRange q.floor
    | none => .error .tooLarge
  | _ => .error .noNumber
where
  inRange (n : Int) : Except MomentError Rat :=
    if n < -(Nat.pow 2 63 : Nat) || (Nat.pow 2 63 : Nat) ≤ n then .error .tooLarge
    else if n < momentRange.1 || momentRange.2 < n then .error .noYear
    else if lastMoment < n then .error .tooLarge
    else .ok n

/-- The entry as of a moment, which only counts where the time is shown. -/
def LogEntry.formatAt (e : LogEntry) (moment : Datum) (color showTime : Bool) :
    Except MomentError String := do
  let timestamp ← if showTime then momentOf moment else pure 0
  return { e with timestamp }.format color showTime

end RouteInvariants
