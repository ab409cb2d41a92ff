import RouteInvariants.Journal.Entry

/-!
The journal of a run: the entries logged so far and what was written to the terminal and to a file.
Every entry is kept; it is written only if its level is within the journal's. The file never has
colours.
-/

namespace RouteInvariants

structure LogFile where
  content : String
  isOpen : Bool
deriving DecidableEq, Inhabited

/-- The bridges from a host log: how many there are and the threshold that the last one set. -/
structure Bridges where
  count : Nat
  threshold : Int
deriving DecidableEq, Inhabited

structure Journal where
  level : LogLevel
  color : Bool
  entries : List LogEntry
  output : String
  file : Option LogFile
  bridges : Bridges
deriving Inhabited

namespace Journal

/-- A journal in which nothing has been written; colours need a terminal. -/
def start (level : LogLevel) (color terminal : Bool) : Journal :=
  { level, color := color && terminal, entries := [], output := "", file := none,
    bridges := ⟨0, 0⟩ }

variable (j : Journal)

def shows (level : LogLevel) : Bool := decide (level.toNat ≤ j.level.toNat)

/-- Writes a line to the terminal, and its plain form to the file. -/
def write (shown plain : String) : Journal :=
  { j with
    output := j.output ++ shown ++ "\n"
    file := j.file.map fun f =>
      if f.isOpen then { f with content := f.content ++ plain ++ "\n" } else f }

def emit (e : LogEntry) : Journal :=
  let j := { j with entries := j.entries ++ [e] }
  if j.shows e.level then j.write (e.format j.color true) (e.format false true) else j

def log (level : LogLevel) (message category : String) (context : List (String × Datum)) : Journal :=
  j.emit { level, message, category, context, timestamp := 0 }

/-- A line that starts with a coloured sign. -/
def sign (c : Color) (mark message : String) : Journal :=
  j.write (c.paint j.color mark ++ " " ++ message) (mark ++ " " ++ message)

def success (message : String) : Journal :=
  if j.shows .normal then j.sign .green "✓" message else j

def warning (message : String) : Journal := j.sign .yellow "⚠" message

/-- Errors are shown at every level. -/
def error (message : String) : Journal := j.sign .red "✗" message

/-- A heading, underlined. -/
def header (message : String) : Journal :=
  if j.shows .normal then
    let rule := String.ofList (List.replicate message.length '─')
    let title := if j.color then Color.bold.code ++ Color.cyan.paint true message else message
    (j.write ("\n" ++ title) ("\n" ++ message)).write (Color.cyan.paint j.color rule) rule
  else j

def select (level : Option LogLevel) (category : Option String) : List LogEntry :=
  j.entries.filter fun e =>
    (level.all (· == e.level)) && (category.all (· == e.category))

/-- Opens the file, which empties it. -/
def openFile : Journal := { j with file := some ⟨"", true⟩ }

def closeFile : Journal := { j with file := j.file.map fun f => { f with isOpen := false } }

end Journal

end RouteInvariants
