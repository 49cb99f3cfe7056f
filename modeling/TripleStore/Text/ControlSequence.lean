import TripleStore.Text.Ascii

/-!
# Control sequences

Sequences of bytes that tell a terminal what to do and are not shown.  A control sequence is an
escape, an opening bracket, parameters, intermediate bytes and a final byte.  An operating system
command is an escape, a closing bracket and anything on the same line up to a bell or to an escape
and a backslash.  What does not come to its end is no sequence.
-/

namespace TripleStore

namespace ControlSequence

/-- The byte that opens a sequence. -/
def escape : UInt8 := 0x1B

/-- The byte that may close a command. -/
def bell : UInt8 := 0x07

/-- A parameter byte of a control sequence. -/
def isParameter (b : UInt8) : Bool := 0x30 ≤ b && b ≤ 0x3F

/-- An intermediate byte of a control sequence. -/
def isIntermediate (b : UInt8) : Bool := 0x20 ≤ b && b ≤ 0x2F

/-- The byte that closes a control sequence. -/
def isFinal (b : UInt8) : Bool := 0x40 ≤ b && b ≤ 0x7E

/-- The number of bytes up to the final byte of a control sequence, which is counted. -/
def controlWidth? (t : Text) : Option Nat :=
  let afterParameters := t.dropWhile isParameter
  match afterParameters.dropWhile isIntermediate with
  | b :: rest => if isFinal b then some (t.length - rest.length) else none
  | [] => none

/-- The number of bytes up to the end of a command, which is counted. -/
def commandWidth? : Text → Option Nat
  | [] => none
  | b :: rest =>
    if b = bell then some 1
    else if b = escape && rest.head? == some Ascii.backslash then some 2
    else if b = Ascii.lineFeed then none
    else (commandWidth? rest).map (· + 1)

/-- The number of bytes of the sequence that a text begins with; without one it is zero. -/
def width : Text → Nat
  | e :: b :: rest =>
    if e = escape && b = Ascii.openBracket then ((controlWidth? rest).map (· + 2)).getD 0
    else if e = escape && b = Ascii.closeBracket then ((commandWidth? rest).map (· + 2)).getD 0
    else 0
  | _ => 0

/-- Leaves out `skip` bytes and then every sequence. -/
def removeFrom : Nat → Text → Text
  | _, [] => []
  | skip + 1, _ :: rest => removeFrom skip rest
  | 0, b :: rest =>
    match width (b :: rest) with
    | 0 => b :: removeFrom 0 rest
    | n + 1 => removeFrom n rest

end ControlSequence

/-- A text without its control sequences. -/
def withoutSequences (t : Text) : Text := ControlSequence.removeFrom 0 t

end TripleStore
