import RouteInvariants.Solver.Texts

/-!
Equations between joined texts. A text is a word of known characters and unknown parts, and an
equation is solved from its ends: equal ends cancel, and where an unknown part meets something else,
either it is empty or it starts with what it meets. Each way to do so is a branch, and the branches
that come to an end are the solutions. The other comparisons are then about what a solution leaves
unknown.
-/

namespace RouteInvariants

/-- A part of a word: a character, an unknown text, or what is left of one after its start is known. -/
inductive Piece where
  | char (c : CodePoint)
  | unknown (t : Term)
  | rest (number : Nat)
deriving DecidableEq, Inhabited

abbrev Word := List Piece

namespace Word

def ofTerm (t : Term) : Word :=
  t.pieces.flatMap fun p => match p with
    | .const (.text cs) => cs.map Piece.char
    | p => [.unknown p]

def substitute (word : Word) (u : Piece) (value : Word) : Word :=
  word.flatMap fun p => if p = u then value else [p]

/-- The word as a joined text, in which what is left of an unknown part is an argument. -/
def toTerm (w : Word) : Term :=
  Term.joined (w.map fun (p : Piece) => match p with
    | .char c => .const (.text [c])
    | .unknown t => t
    | .rest n => .arg n)

def hasChar (w : Word) : Bool :=
  w.any fun (p : Piece) => match p with
    | .char _ => true
    | _ => false

/-- Two words without what they have in common at the front. -/
def cancel : Word → Word → Word × Word
  | p :: xs, q :: ys => if p = q then cancel xs ys else (p :: xs, q :: ys)
  | xs, ys => (xs, ys)

/-- Two words without what they have in common at either end. -/
def cancelEnds (xs ys : Word) : Word × Word :=
  let (xs, ys) := cancel xs ys
  let (xs, ys) := cancel xs.reverse ys.reverse
  (xs.reverse, ys.reverse)

end Word

/-- A branch of the search: the equations still to be solved, and what is known of the unknowns. -/
structure Joining where
  equations : List (Word × Word)
  solved : List (Piece × Word)
  fresh : Nat
deriving Inhabited

namespace Joining

/-- Writes `value` for the unknown part `u` everywhere. -/
def assign (s : Joining) (u : Piece) (value : Word) : Joining :=
  { s with
    equations := s.equations.map fun e => (e.1.substitute u value, e.2.substitute u value)
    solved := (u, value) :: s.solved.map fun p => (p.1, p.2.substitute u value) }

/-- All parts of a word are empty. -/
def vanish (s : Joining) (w : Word) : List Joining :=
  if w.hasChar then [] else [w.foldl (fun s u => s.assign u []) s]

/-- The unknown part `u` starts with `p`. -/
def extend (s : Joining) (u p : Piece) : Joining :=
  { s.assign u [p, .rest s.fresh] with fresh := s.fresh + 1 }

/-- The branches that solve one equation further, `s` being the branch without it. -/
def next (s : Joining) (e : Word × Word) : List Joining :=
  let again (t : Joining) (u : Piece) (v : Word) (xs ys : Word) : Joining :=
    { t with equations := (xs.substitute u v, ys.substitute u v) :: t.equations }
  let grow (u p : Piece) (xs ys : Word) : Joining := again (s.extend u p) u [p, .rest s.fresh] xs ys
  let shrink (u : Piece) (xs ys : Word) : Joining := again (s.assign u []) u [] xs ys
  match Word.cancelEnds e.1 e.2 with
  | ([], ys) => s.vanish ys
  | (xs, []) => s.vanish xs
  | (.char _ :: _, .char _ :: _) => []
  | (.char c :: xs, u :: ys) =>
    if ys.isEmpty && !(xs.contains u) then [s.assign u (.char c :: xs)]
    else [shrink u (.char c :: xs) (u :: ys), grow u (.char c) (.char c :: xs) (u :: ys)]
  | (u :: xs, .char c :: ys) =>
    if xs.isEmpty && !(ys.contains u) then [s.assign u (.char c :: ys)]
    else [shrink u (u :: xs) (.char c :: ys), grow u (.char c) (u :: xs) (.char c :: ys)]
  | (u :: xs, v :: ys) =>
    if xs.isEmpty then
      if ys.contains u then s.vanish (v :: ys.erase u) else [s.assign u (v :: ys)]
    else if ys.isEmpty then
      if xs.contains v then s.vanish (u :: xs.erase v) else [s.assign v (u :: xs)]
    else [shrink u (u :: xs) (v :: ys), shrink v (u :: xs) (v :: ys),
      grow u v (u :: xs) (v :: ys), grow v u (u :: xs) (v :: ys)]

/-- Whether a branch leads to a solution that is accepted; `fuel` bounds the steps on the way. -/
def leads (accept : Joining → Bool) : Nat → Joining → Bool
  | 0, _ => false
  | fuel + 1, s =>
    match s.equations with
    | [] => accept s
    | e :: es => (next { s with equations := es } e).any (leads accept fuel)

/-- The first accepted solution to which a branch leads. -/
def first? (accept : Joining → Bool) : Nat → Joining → Option Joining
  | 0, _ => none
  | fuel + 1, s =>
    match s.equations with
    | [] => if accept s then some s else none
    | e :: es => (next { s with equations := es } e).findSome? (first? accept fuel)

def value (s : Joining) (w : Word) : Word :=
  s.solved.foldl (fun w p => w.substitute p.1 p.2) w

/-- What a solution makes of a text. -/
def text (s : Joining) (t : Term) : Term := (s.value (.ofTerm t)).toTerm

/-- What a solution makes of a comparison. -/
def comparison (s : Joining) : Term → Term
  | .eq a b => .eq (s.text a) (s.text b)
  | .le a b => Term.textOrderAtom (s.text a) (s.text b)
  | t => t

/-- What a solution makes of comparisons, apart from those that it makes true. -/
def comparisons (s : Joining) (F : Facts) : Facts :=
  (F.map fun f => (s.comparison f.1, f.2)).filter fun f => f != (.tt, true) && f != (.ff, false)

end Joining

namespace Joins

def isJoined : Term → Bool
  | .add a b => (Term.add a b).sort? == some .text
  | _ => false

/-- Whether a term compares a joined text. -/
def isComparison (t : Term) : Bool := (Texts.sides t).any isJoined

def equations (F : Facts) : List (Word × Word) :=
  F.filterMap fun f => match f with
    | (.eq a b, true) => some (.ofTerm a, .ofTerm b)
    | (.le a (.const (.text [])), true) => some (.ofTerm a, [])
    | _ => none

def start (F : Facts) : Joining := ⟨equations F, [], 0⟩

/-- Steps within which solutions are looked for. -/
def effort (F : Facts) : Nat :=
  (equations F).foldl (fun n e => n + e.1.length + e.2.length + 1) 4

/-- The text that comes after all texts with the given start, if there is one. -/
def after? (cs : List CodePoint) : Option (List CodePoint) :=
  match cs.getLast? with
  | some c => if c.val + 1 < 0x30000 then some (cs.dropLast ++ [.ofNat (c.val + 1)]) else none
  | none => none

def isConstant : Term → Bool
  | .const _ => true
  | _ => false

/-- A joined text does not come before its first part, and it comes before all texts that come after
those with this part at the front. -/
def bounds (t : Term) : Facts :=
  match t.pieces with
  | p :: q :: rest =>
    (if (q :: rest).any isConstant then (.le t p, false) else (.le p t, true)) :: (match p with
      | .const (.text cs) => ((after? cs).map fun w => (.le (.const (.text w)) t, false)).toList
      | _ => [])
  | _ => []

/-- Whether a solution of the equations allows the other comparisons. -/
def accepts (F : Facts) (s : Joining) : Bool :=
  let G := s.comparisons F
  let sides := (G.flatMap fun f => Texts.sides f.1).eraseDups
  G.all (fun f => f.1 != .tt && f.1 != .ff) && Texts.consistent (G ++ sides.flatMap bounds)

/-- Whether all comparisons can be as the facts say. -/
def possible (F : Facts) : Bool := (start F).leads (accepts F) (effort F)

/-- Decides a comparison of texts from others. -/
def decide? (F : Facts) (atom : Term) : Option Bool :=
  if !possible ((atom, true) :: F) then some false
  else if !possible ((atom, false) :: F) then some true
  else none

/-- The value of a text in a solution, if the solution leaves one. -/
def valueIn? (F : Facts) (t : Term) (s : Joining) : Option Value := do
  let vs ← (s.text t).pieces.mapM fun p => match p with
    | .const v => some v
    | p => Texts.forced? (s.comparisons F) p
  some (vs.foldl Value.add (.text []))

/-- The one value that the facts leave for a text. -/
def forced? (F : Facts) (t : Term) : Option Value := do
  let s ← (start F).first? (accepts F) (effort F)
  let v ← valueIn? F t s
  let other (s : Joining) : Bool := accepts F s && valueIn? F t s != some v
  if (start F).leads other (effort F) then none else some v

end Joins

end RouteInvariants
