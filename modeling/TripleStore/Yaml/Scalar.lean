import TripleStore.Yaml.Cursor

/-!
# The texts of scalars

A scalar is written in one of three ways: plain, between quotes, or as a block of lines below an
indicator.  In plain and quoted scalars a line break is folded: alone it becomes a space, and of
several the first is dropped.  In a block either every line break stays or those between lines that
begin with no blank are folded.
-/

namespace TripleStore.Yaml

/-! ### Gaps between words -/

/-- Blanks and line breaks between two words. -/
structure Gap where
  /-- The blanks, if there is no line break. -/
  blanks : List Nat := []
  /-- Whether there is a line break. -/
  folds : Bool := false
  /-- The first line break. -/
  first : List Nat := []
  /-- All later line breaks. -/
  others : List Nat := []
  deriving DecidableEq, Repr

namespace Gap

/-- What a gap becomes in the text. -/
def text (g : Gap) : List Nat :=
  if !g.folds then g.blanks
  else if g.first == [0x0A] then if g.others.isEmpty then [0x20] else g.others
  else g.first ++ g.others

/-- A gap with one more blank; those at the beginning of a line do not count. -/
def addBlank (g : Gap) (c : Nat) : Gap :=
  if g.folds then g else { g with blanks := g.blanks ++ [c] }

/-- A gap with one more line break. -/
def addBreak (g : Gap) (b : List Nat) : Gap :=
  if g.folds then { g with others := g.others ++ b }
  else { g with blanks := [], folds := true, first := b }

end Gap

namespace Scan

/-- Goes on through a gap.  On its later lines no tab may stand in a column below `indent`. -/
def gap (indent : Nat) : (fuel : Nat) → Gap → Scan Gap
  | 0, g => return g
  | fuel + 1, g => do
    need 1
    let c ← peek 0
    if isBlank c then
      if g.folds && c == 0x09 && (← column) < indent then failure
      skip
      gap indent fuel (g.addBlank c)
    else if isBreak c then gap indent fuel (g.addBreak (← passBreak))
    else return g

/-! ### Plain scalars -/

/-- A character that has a meaning inside brackets. -/
def isFlowIndicator (c : Nat) : Bool :=
  c == 0x2C || c == 0x3F || c == 0x5B || c == 0x5D || c == 0x7B || c == 0x7D

/-- Goes on with a word of a plain scalar behind characters in reverse.  The word ends at a gap, at
a colon before a gap, and inside brackets at an indicator. -/
def plainWord (inFlow : Bool) : (fuel : Nat) → (passed : List Nat) → Scan (List Nat)
  | 0, passed => return passed.reverse
  | fuel + 1, passed => do
    let c ← peek 0
    if isGap c || (c == 0x3A && isGap (← peek 1)) || (inFlow && isFlowIndicator c) then
      return passed.reverse
    skip
    need 2
    plainWord inFlow fuel (c :: passed)

/-- Goes on with a plain scalar behind a text and a gap: the text and the gap at its end.  Outside
of brackets it ends before a line that is not indented enough. -/
def plainFrom (inFlow : Bool) (indent : Nat) : (fuel : Nat) → List Nat → Gap →
    Scan (List Nat × Gap)
  | 0, text, g => return (text, g)
  | fuel + 1, text, g => do
    if ← atDocumentMark then return (text, g)
    if (← peek 0) == 0x23 then return (text, g)
    let word ← plainWord inFlow ((← size) + 1) []
    if word.isEmpty then return (text, g)
    let text := text ++ g.text ++ word
    let c ← peek 0
    if !(isBlank c || isBreak c) then return (text, {})
    let g ← gap indent ((← size) + 1) {}
    if !inFlow && (← column) < indent then return (text, g)
    plainFrom inFlow indent fuel text g

/-- A plain scalar: its text, and whether a line break follows it. -/
def plain (inFlow : Bool) (indent : Nat) : Scan (Text × Bool) := do
  let (text, g) ← plainFrom inFlow indent ((← size) + 1) [] {}
  return (textOf text, g.folds)

/-! ### Quoted scalars -/

/-- The characters that stand for others behind a backslash. -/
def shortEscapes : List (Nat × Nat) :=
  [(0x30, 0), (0x61, 0x07), (0x62, 0x08), (0x74, 0x09), (0x09, 0x09), (0x6E, 0x0A), (0x76, 0x0B),
    (0x66, 0x0C), (0x72, 0x0D), (0x65, 0x1B), (0x20, 0x20), (0x22, 0x22), (0x27, 0x27),
    (0x5C, 0x5C), (0x4E, 0x85), (0x5F, 0xA0), (0x4C, 0x2028), (0x50, 0x2029)]

/-- The characters that announce a code point behind a backslash, and the number of its digits. -/
def longEscapes : List (Nat × Nat) := [(0x78, 2), (0x75, 4), (0x55, 8)]

/-- The value of hexadecimal digits. -/
def hexValue? (digits : List Nat) : Option Nat :=
  digits.foldlM (fun n c => ((ascii? c).bind Ascii.hexValue?).map fun d => n * 16 + d) 0

/-- Passes an escape behind a backslash, which has been passed: the character it stands for. -/
def escaped : Scan Nat := do
  let c ← peek 0
  match shortEscapes.lookup c, longEscapes.lookup c with
  | some x, _ =>
    skip
    return x
  | none, none => failure
  | none, some count =>
    skip
    need count
    let digits := (← get).rest.take count
    match hexValue? digits with
    | none => failure
    | some x =>
      if digits.length < count || (0xD800 ≤ x && x ≤ 0xDFFF) || 0x10FFFF < x then failure
      skipMany count
      return x

/-- Goes on with a word between single quotes behind characters in reverse. -/
def singleWord : (fuel : Nat) → (passed : List Nat) → Scan (List Nat)
  | 0, passed => return passed.reverse
  | fuel + 1, passed => do
    let c ← peek 0
    if isGap c then return passed.reverse
    if c == 0x27 then
      if (← peek 1) != 0x27 then return passed.reverse
      skip
    skip
    need 2
    singleWord fuel (c :: passed)

/-- Goes on with a word between double quotes behind characters in reverse; also whether a backslash
at the end of a line ends it. -/
def doubleWord : (fuel : Nat) → (passed : List Nat) → Scan (List Nat × Bool)
  | 0, passed => return (passed.reverse, false)
  | fuel + 1, passed => do
    let c ← peek 0
    if isGap c || c == 0x22 then return (passed.reverse, false)
    if c != 0x5C then
      skip
      need 2
      doubleWord fuel (c :: passed)
    else if isBreak (← peek 1) then
      need 3
      skip
      let _ ← passBreak
      return (passed.reverse, true)
    else
      skip
      let x ← escaped
      need 2
      doubleWord fuel (x :: passed)

/-- Goes on with a quoted scalar up to its closing quote.  It may hold neither the mark of a
document nor the end of the file. -/
def quotedFrom (quote : Nat) : (fuel : Nat) → List Nat → Scan (List Nat)
  | 0, _ => failure
  | fuel + 1, text => do
    if ← atDocumentMark then failure
    if (← peek 0) == 0 then failure
    need 2
    let (word, joins) ← if quote == 0x27 then (singleWord ((← size) + 1) []).map fun w => (w, false)
      else doubleWord ((← size) + 1) []
    let text := text ++ word
    need 1
    if (← peek 0) == quote then
      skip
      return text
    let g ← gap 0 ((← size) + 1) { folds := joins }
    quotedFrom quote fuel (text ++ g.text)

/-- A quoted scalar. -/
def quotedScalar (quote : Nat) : Scan Text := do
  skip
  return textOf (← quotedFrom quote ((← size) + 1) [])

/-! ### Blocks -/

/-- What becomes of the line breaks at the end of a block. -/
inductive Chomping
  | strip
  | clip
  | keep
  deriving DecidableEq, Repr

/-- The chomping that a character asks for. -/
def chomping? (c : Nat) : Option Chomping :=
  if c == 0x2B then some .keep else if c == 0x2D then some .strip else none

/-- Passes the mark of chomping, if there is one. -/
def chomping : Scan (Option Chomping) := do
  need 1
  let found := chomping? (← peek 0)
  if found.isSome then skip
  return found

/-- Passes a digit that gives the indentation of a block, if there is one; it may not be zero. -/
def indentation : Scan Nat := do
  need 1
  let c ← peek 0
  if !isDigit c then return 0
  if c == 0x30 then failure
  skip
  return c - 0x30

/-- Passes the marks behind the indicator of a block, in either order. -/
def blockMarks : Scan (Chomping × Nat) := do
  match ← chomping with
  | some c => return (c, ← indentation)
  | none =>
    let n ← indentation
    if n = 0 then return (.clip, 0)
    return ((← chomping).getD .clip, n)

/-- Passes spaces as far as the column `indent` or, if that is zero, as far as they go. -/
def blockIndent (indent : Nat) : (fuel : Nat) → Scan Unit
  | 0 => return ()
  | fuel + 1 => do
    need 1
    if (indent = 0 || (← column) < indent) && (← peek 0) == 0x20 then
      skip
      blockIndent indent fuel

/-- Passes indentation and empty lines, as far as `indent` or, if that is zero, as far as they go:
the line breaks and the widest indentation. -/
def blockBreaks (indent : Nat) : (fuel : Nat) → (widest : Nat) → List Nat → Scan (List Nat × Nat)
  | 0, widest, breaks => return (breaks, widest)
  | fuel + 1, widest, breaks => do
    blockIndent indent ((← size) + 1)
    let widest := max widest (← column)
    let c ← peek 0
    if (indent = 0 || (← column) < indent) && c == 0x09 then failure
    if isBreak c then blockBreaks indent fuel widest (breaks ++ (← passBreak))
    else return (breaks, widest)

/-- What was passed of a block. -/
structure Block where
  text : List Nat := []
  /-- The break of the last line. -/
  leading : List Nat := []
  /-- The empty lines behind it. -/
  trailing : List Nat
  /-- Whether the last line begins with a blank. -/
  blank : Bool := false

/-- A block with a further line. -/
def Block.add (b : Block) (folded : Bool) (line : List Nat) : Block :=
  let blank := (line.head?.map isBlank).getD false
  let between :=
    if folded && !b.blank && !blank && b.leading.head? == some 0x0A then
      if b.trailing.isEmpty then [0x20] else []
    else b.leading
  { text := b.text ++ between ++ b.trailing ++ line, trailing := [], blank }

/-- Goes on with the lines of a block. -/
def blockLines (folded : Bool) (indent : Nat) : (fuel : Nat) → Block → Scan Block
  | 0, b => return b
  | fuel + 1, b => do
    if (← column) != indent || (← peek 0) == 0 then return b
    let b := b.add folded (← restOfLine)
    let leading ← passBreak
    let (trailing, _) ← blockBreaks indent ((← size) + 1) 0 []
    blockLines folded indent fuel { b with leading, trailing }

/-- The text of a block whose end is chomped. -/
def Block.chomped (b : Block) : Chomping → List Nat
  | .strip => b.text
  | .clip => b.text ++ b.leading
  | .keep => b.text ++ b.leading ++ b.trailing

/-- A block below an indicator; `indent` is the indentation of what it belongs to, with one added.
Its own indentation is given or that of its widest line before the first that is not empty. -/
def block (folded : Bool) (indent : Nat) : Scan Text := do
  skip
  let (chomping, given) ← blockMarks
  emptyLine
  let asked := if given = 0 then 0 else indent - 1 + given
  let (trailing, widest) ← blockBreaks asked ((← size) + 1) 0 []
  let indent := if asked = 0 then max (max widest indent) 1 else asked
  let b ← blockLines folded indent ((← size) + 1) { trailing }
  return textOf (b.chomped chomping)

end Scan

end TripleStore.Yaml
