/-!
The words of a settings file: blanks, comments, quoted texts and keys.

A reader takes the characters that are left and gives what it read with the characters after it.
-/

namespace RouteInvariants.Toml

abbrev Reader (α : Type) := List Char → Option (α × List Char)

def isBlank (c : Char) : Bool := c = ' ' || c = '\t'

/-- The characters that no text may hold as they are; a line break is one of them. -/
def isControl (c : Char) : Bool := (c.toNat < 32 || c.toNat = 127) && c ≠ '\t'

def isBare (c : Char) : Bool := c.isAlphanum || c = '-' || c = '_'

def skipBlanks (cs : List Char) : List Char := cs.dropWhile isBlank

/-- Skips a comment, up to the end of its line. -/
def skipComment : List Char → Option (List Char)
  | '#' :: cs =>
    if (cs.takeWhile (· ≠ '\n')).any isControl then none else some (cs.dropWhile (· ≠ '\n'))
  | cs => some cs

/-- Skips blanks, line breaks and comments; `comment` says that a comment has begun. -/
def skipSpace (comment : Bool) : List Char → Option (List Char)
  | [] => some []
  | c :: cs =>
    if comment then
      if c = '\n' then skipSpace false cs
      else if isControl c then none else skipSpace true cs
    else if isBlank c || c = '\n' then skipSpace false cs
    else if c = '#' then skipSpace true cs
    else some (c :: cs)

/-- A line break is one character, however it was stored. -/
def unifyBreaks : List Char → List Char
  | '\r' :: '\n' :: cs => '\n' :: unifyBreaks cs
  | c :: cs => c :: unifyBreaks cs
  | [] => []

/-! ### Quoted texts -/

section Quoted

def hexValue? (c : Char) : Option Nat :=
  if '0' ≤ c && c ≤ '9' then some (c.toNat - 48)
  else if 'a' ≤ c && c ≤ 'f' then some (c.toNat - 87)
  else if 'A' ≤ c && c ≤ 'F' then some (c.toNat - 55)
  else none

/-- The character with the given hexadecimal number. -/
def numbered? (digits : List Char) : Option Char := do
  let values ← digits.mapM hexValue?
  let n := values.foldl (fun n v => 16 * n + v) 0
  if n.isValidChar then some (Char.ofNat n) else none

def escaped? : Char → Option Char
  | 'b' => some '\x08'
  | 't' => some '\t'
  | 'n' => some '\n'
  | 'f' => some '\x0c'
  | 'r' => some '\r'
  | '"' => some '"'
  | '\\' => some '\\'
  | _ => none

def keep (c : Char) (r : Option (List Char × List Char)) : Option (List Char × List Char) :=
  r.map fun p => (c :: p.1, p.2)

/-- Up to two quotes right after a closing triple belong to the text. -/
def trailing (quote : Char) : List Char → List Char × List Char
  | c :: d :: cs =>
    if c = quote then
      if d = quote then ([quote, quote], cs) else ([quote], d :: cs)
    else ([], c :: d :: cs)
  | [c] => if c = quote then ([quote], []) else ([], [c])
  | [] => ([], [])

/-- Where in a text the reader is: a backslash at the end of a line opens a gap up to the line break,
and the white space after it is a margin. -/
inductive Position where
  | text | gap | margin
deriving DecidableEq

/-- The rest of a text in double quotes, with its escapes; `long` is the form over several lines. -/
def basicRest (long : Bool) : Position → Reader (List Char)
  | _, [] => none
  | p, c :: cs =>
    if p = .gap then
      if isBlank c then basicRest long .gap cs
      else if c = '\n' then basicRest long .margin cs
      else none
    else if p = .margin && (isBlank c || c = '\n') then basicRest long .margin cs
    else if c = '"' then
      if long then
        match cs with
        | '"' :: '"' :: rest => some (trailing '"' rest)
        | _ => keep '"' (basicRest long .text cs)
      else some ([], cs)
    else if c = '\\' then
      match cs with
      | 'u' :: h₁ :: h₂ :: h₃ :: h₄ :: rest => do
        let c ← numbered? [h₁, h₂, h₃, h₄]
        keep c (basicRest long .text rest)
      | 'U' :: h₁ :: h₂ :: h₃ :: h₄ :: h₅ :: h₆ :: h₇ :: h₈ :: rest => do
        let c ← numbered? [h₁, h₂, h₃, h₄, h₅, h₆, h₇, h₈]
        keep c (basicRest long .text rest)
      | e :: rest =>
        match escaped? e with
        | some c => keep c (basicRest long .text rest)
        | none =>
          if long && isBlank e then basicRest long .gap rest
          else if long && e = '\n' then basicRest long .margin rest
          else none
      | [] => none
    else if isControl c && !(long && c = '\n') then none
    else keep c (basicRest long .text cs)

/-- The rest of a text in single quotes, on one line. -/
def literalRest (cs : List Char) : Option (List Char × List Char) :=
  let body := cs.takeWhile (· ≠ '\'')
  match cs.dropWhile (· ≠ '\'') with
  | [] => none
  | _ :: rest => if body.any isControl then none else some (body, rest)

def longLiteralRest : Reader (List Char)
  | '\'' :: '\'' :: '\'' :: rest => some (trailing '\'' rest)
  | c :: cs => if isControl c && c ≠ '\n' then none else keep c (longLiteralRest cs)
  | [] => none

/-- A line break right after an opening triple is not part of the text. -/
def dropBreak : List Char → List Char
  | '\n' :: cs => cs
  | cs => cs

def quotedText (cs : List Char) : Option (String × List Char) :=
  let body := match cs with
    | '"' :: '"' :: '"' :: rest => basicRest true .text (dropBreak rest)
    | '"' :: rest => basicRest false .text rest
    | '\'' :: '\'' :: '\'' :: rest => longLiteralRest (dropBreak rest)
    | '\'' :: rest => literalRest rest
    | _ => none
  body.map fun p => (String.ofList p.1, p.2)

end Quoted

/-! ### Keys -/

/-- A dotted key: the tables on the way and the name in the last of them. -/
structure Key where
  parents : List String
  name : String
deriving DecidableEq, Inhabited

def Key.path (k : Key) : List String := k.parents ++ [k.name]

def keyPart (cs : List Char) : Option (String × List Char) :=
  match cs with
  | '"' :: rest => (basicRest false .text rest).map fun p => (String.ofList p.1, p.2)
  | '\'' :: rest => (literalRest rest).map fun p => (String.ofList p.1, p.2)
  | _ =>
    let name := cs.takeWhile isBare
    if name.isEmpty then none else some (String.ofList name, cs.dropWhile isBare)

/-- At most `n` parts, and the blanks after them. -/
def keyParts : Nat → List String → Reader Key
  | 0, _, _ => none
  | n + 1, parents, cs => do
    let (name, rest) ← keyPart cs
    match skipBlanks rest with
    | '.' :: rest => keyParts n (parents ++ [name]) (skipBlanks rest)
    | rest => some (⟨parents, name⟩, rest)

def key (cs : List Char) : Option (Key × List Char) := keyParts (cs.length + 1) [] cs

end RouteInvariants.Toml
