/-!
Lines of a text. A line ends at any line boundary of the character standard, and a carriage return
followed by a line feed is one boundary.
-/

namespace RouteInvariants.Text

def isLineBreak (c : Char) : Bool :=
  let n := c.toNat
  (10 ≤ n && n ≤ 13) || (28 ≤ n && n ≤ 30) || n = 0x85 || n = 0x2028 || n = 0x2029

/-- The lines of the characters, where `acc` is the reversed start of the current line. A break at
the very end opens no further line. -/
def splitLines (acc : List Char) : List Char → List (List Char)
  | [] => if acc.isEmpty then [] else [acc.reverse]
  | '\r' :: '\n' :: rest => acc.reverse :: splitLines [] rest
  | c :: rest =>
    if isLineBreak c then acc.reverse :: splitLines [] rest else splitLines (c :: acc) rest

def lines (s : String) : List String :=
  (splitLines [] s.toList).map String.ofList

/-- A text without line breaks. -/
structure Line where
  text : String
  unbroken : ∀ c ∈ text.toList, isLineBreak c = false
deriving DecidableEq

instance : Coe Line String := ⟨Line.text⟩

/-- The characters on one line: line breaks are left out. -/
def Line.ofList (cs : List Char) : Line where
  text := String.ofList (cs.filter fun c => !isLineBreak c)
  unbroken := by
    intro c hc
    rw [String.toList_ofList, List.mem_filter, Bool.not_eq_true'] at hc
    exact hc.2

end RouteInvariants.Text
