import TripleStore.Yaml.Source

/-!
# Walking through a YAML file

A cursor stands between the characters that were passed and those that follow.  It knows its line
and column and how many line breaks it has passed since the last character that is not blank.

Characters are taken from the file by windows, as many as are needed.  Whenever some are taken, the
characters at hand begin at the cursor; if there is a byte order mark then, the beginnings of lines
are passed over until more characters are taken.

A `Scan` passes some characters and gives a result; it fails where the file makes no sense and where
it needs more characters than a source that is not whole can give.  Behind the end of a whole source
one sees the character zero, which no file holds.
-/

namespace TripleStore.Yaml

/-! ### Classes of characters -/

/-- A space or a tab. -/
def isBlank (c : Nat) : Bool := c == 0x20 || c == 0x09

/-- A character that ends a line. -/
def isBreak (c : Nat) : Bool :=
  c == 0x0A || c == 0x0D || c == 0x85 || c == 0x2028 || c == 0x2029

/-- The end of a line or of the file. -/
def isLineEnd (c : Nat) : Bool := isBreak c || c == 0

/-- The end of a word. -/
def isGap (c : Nat) : Bool := isBlank c || isLineEnd c

/-- A character as a byte, if it is ASCII. -/
def ascii? (c : Nat) : Option UInt8 := if c < 0x80 then some c.toUInt8 else none

/-- A decimal digit. -/
def isDigit (c : Nat) : Bool := (ascii? c).any Ascii.isDigit

/-- A letter, a digit, a hyphen or a low line. -/
def isNameCharacter (c : Nat) : Bool :=
  (ascii? c).any fun b => Ascii.isLetter b || Ascii.isDigit b || b == 45 || b == 95

/-- The text of characters. -/
def textOf (characters : List Nat) : Text := characters.flatMap encodeScalar

/-! ### Cursors -/

/-- A place in a file and what follows it. -/
structure Cursor where
  rest : List Nat
  /-- The numbers of characters in the windows that were not yet taken. -/
  windows : List Nat
  whole : Bool
  /-- The number of characters in the file, which bounds the length of every walk. -/
  size : Nat
  /-- How many characters have been taken and not passed; the end of the file adds one each time
  that it is met. -/
  taken : Nat := 0
  /-- Whether a byte order mark stood at the cursor when characters were taken last. -/
  marked : Bool := false
  index : Nat := 0
  line : Nat := 0
  column : Nat := 0
  /-- The line breaks since the last character that is not blank. -/
  breaks : Nat := 0
  deriving DecidableEq, Repr

/-- A walk through a part of a file. -/
abbrev Scan := StateT Cursor Option

/-- The beginning of a file. -/
def Cursor.ofSource (s : Source) : Cursor :=
  { rest := s.characters, windows := s.windows, whole := s.whole, size := s.characters.length }

/-- The cursor behind a character that is no line break, or further behind the end. -/
def Cursor.afterOne (c : Cursor) : Cursor :=
  { c with
    rest := c.rest.drop 1
    taken := c.taken - 1
    index := c.index + 1
    column := c.column + 1
    breaks := if c.rest.head?.any isBlank then c.breaks else 0 }

/-- The cursor at the beginning of the next line, behind a line break of some characters. -/
def Cursor.nextLine (c : Cursor) (width : Nat) : Cursor :=
  { c with
    rest := c.rest.drop width
    taken := c.taken - width
    index := c.index + width
    line := c.line + 1
    column := 0
    breaks := c.breaks + 1 }

/-- The number of characters at hand after taking windows until there are `n`, and the windows that
are left. -/
def takeWindows (n : Nat) : (taken : Nat) → (windows : List Nat) → Nat × List Nat
  | taken, [] => (taken, [])
  | taken, w :: windows =>
    if n ≤ taken then (taken, w :: windows) else takeWindows n (taken + w) windows

namespace Scan

/-- Takes characters from the file if fewer than `n` are at hand. -/
def need (n : Nat) : Scan Unit := fun c =>
  if n ≤ c.taken then some ((), c)
  else
    let (taken, windows) := takeWindows n c.taken c.windows
    let marked := c.rest.head? == some 0xFEFF
    if n ≤ taken then some ((), { c with taken, windows, marked })
    else if c.whole then some ((), { c with taken := taken + 1, windows, marked })
    else none

/-- The character `n` places further on. -/
def peek (n : Nat) : Scan Nat := fun c => match c.rest[n]? with
  | some x => some (x, c)
  | none => if c.whole then some (0, c) else none

/-- The column of the cursor. -/
def column : Scan Nat := fun c => some (c.column, c)

/-- The number of characters in the file. -/
def size : Scan Nat := fun c => some (c.size, c)

/-- Passes one character, which is no line break. -/
def skip : Scan Unit := fun c => some ((), c.afterOne)

/-- Passes `n` characters, none of which is a line break. -/
def skipMany : (n : Nat) → Scan Unit
  | 0 => return ()
  | n + 1 => do
    skip
    skipMany n

/-- Passes a line break and gives what it stands for in a text; elsewhere passes nothing. -/
def passBreak : Scan (List Nat) := do
  need 2
  fun c => match c.rest with
  | 0x0D :: 0x0A :: _ => some ([0x0A], c.nextLine 2)
  | x :: _ =>
    if x == 0x2028 || x == 0x2029 then some ([x], c.nextLine 1)
    else if isBreak x then some ([0x0A], c.nextLine 1)
    else some ([], c)
  | [] => some ([], c)

/-- Goes on passing characters of a class behind others in reverse. -/
def runFrom (p : Nat → Bool) : (fuel : Nat) → (passed : List Nat) → Scan (List Nat)
  | 0, passed => return passed.reverse
  | fuel + 1, passed => do
    need 1
    let c ← peek 0
    if p c then
      skip
      runFrom p fuel (c :: passed)
    else return passed.reverse

/-- Passes all characters up to the first that is not of a class, which has neither line breaks nor
the end of the file. -/
def run (p : Nat → Bool) : Scan (List Nat) := do
  runFrom p ((← size) + 1) []

/-- Passes the rest of a line. -/
def restOfLine : Scan (List Nat) := run fun c => !isLineEnd c

/-- Whether a line begins here with three times the same character and then ends or has a gap. -/
def atTriple (x : Nat) : Scan Bool := do
  if (← column) = 0 && (← peek 0) == x && (← peek 1) == x && (← peek 2) == x then
    return isGap (← peek 3)
  else return false

/-- Whether a document begins or ends here. -/
def atDocumentMark : Scan Bool := do
  need 4
  return (← atTriple 0x2D) || (← atTriple 0x2E)

/-! ### Comments -/

/-- How many characters may stand between a comment and what it belongs to. -/
def reach : Nat := 511

/-- The first place from the `n`th on whose character is not of a class, if it is among the next
`count`. -/
def findPast (p : Nat → Bool) : (count n : Nat) → Scan (Option Nat)
  | 0, _ => return none
  | count + 1, n => do
    need (n + 1)
    if p (← peek n) then findPast p count (n + 1) else return some n

/-- Passes blanks and line breaks up to an index. -/
def skipTo (index : Nat) : (fuel : Nat) → Scan Unit
  | 0 => return ()
  | fuel + 1 => do
    if (← get).index < index then
      need 1
      if isBreak (← peek 0) then
        let _ ← passBreak
      else skip
      skipTo index fuel

/-- Passes the characters before a comment and the comment. -/
def commentAfter (n : Nat) : Scan Unit := do
  skipTo ((← get).index + n) n
  let _ ← restOfLine

/-- Passes a comment behind blanks on a line that has been begun. -/
def lineComment : Scan Unit := do
  if (← get).breaks = 0 then
    if let some n ← findPast isBlank (reach + 1) 0 then
      if (← peek n) == 0x23 then commentAfter n

/-- Passes comments below one that was passed, as long as there are only blanks and empty lines
between them. -/
def commentsBelow : (fuel : Nat) → Scan Unit
  | 0 => return ()
  | fuel + 1 => do
    if let some n ← findPast (fun c => isBlank c || c == 0x0A || c == 0x0D) (reach + 1) 0 then
      if isBreak (← peek n) then need (n + 2)
      if (← peek n) == 0x23 then
        commentAfter n
        commentsBelow fuel

/-- Passes a comment and those below it. -/
def comments : Scan Unit := do
  commentAfter 0
  commentsBelow ((← size) + 1)

/-- Passes the rest of a line that may hold only a comment, and the line break. -/
def emptyLine : Scan Unit := do
  let _ ← run isBlank
  if (← peek 0) == 0x23 then
    let _ ← restOfLine
  if !isLineEnd (← peek 0) then failure
  let _ ← passBreak

end Scan

end TripleStore.Yaml
