import TripleStore.Error

/-!
# Writing N-Triples

Statements are written one per line.  The bytes go through a buffer of 4096 bytes that is handed to
a sink as a whole when it is full and more bytes come, and once more at the end.  A sink may have
limited room; it takes nothing of a call that does not fit.

`NTriples.write` tells how many statements were buffered, what reached the sink, and what failed.
-/

namespace TripleStore

/-- Takes bytes as long as they fit its room; without a limit it takes all. -/
structure Sink where
  room : Option Nat
  taken : Text := []
  deriving DecidableEq, Repr

/-- Hands bytes to a sink, which takes all or nothing. -/
def Sink.take? (s : Sink) (bytes : Text) : Option Sink :=
  match s.room with
  | none => some { s with taken := s.taken ++ bytes }
  | some room =>
    if bytes.length ≤ room then some ⟨some (room - bytes.length), s.taken ++ bytes⟩ else none

/-- A buffer in front of a sink. -/
structure Buffer where
  sink : Sink
  waiting : Text := []
  deriving DecidableEq, Repr

namespace Buffer

/-- The number of bytes that fit a buffer. -/
def capacity : Nat := 4096

/-- Hands what is waiting to the sink. -/
def flush? (b : Buffer) : Option Buffer :=
  if b.waiting.isEmpty then some b
  else (b.sink.take? b.waiting).map fun sink => ⟨sink, []⟩

/-- Adds bytes in at most `fuel` fillings of the buffer; a failure keeps the buffer it arose in. -/
def addWithin : (fuel : Nat) → Buffer → Text → Except Buffer Buffer
  | 0, b, _ => .error b
  | fuel + 1, b, bytes =>
    let room := capacity - b.waiting.length
    if bytes.length ≤ room then .ok { b with waiting := b.waiting ++ bytes }
    else
      let full : Buffer := { b with waiting := b.waiting ++ bytes.take room }
      match full.flush? with
      | none => .error full
      | some emptied => addWithin fuel emptied (bytes.drop room)

/-- Adds bytes, handing full buffers to the sink as long as more bytes come. -/
def add (b : Buffer) (bytes : Text) : Except Buffer Buffer :=
  b.addWithin (bytes.length / capacity + 2) bytes

end Buffer

namespace NTriples

/-- The outcome of writing: the statements that were buffered whole, the sink, and the failure. -/
structure Written where
  count : Nat
  sink : Sink
  error : Option Error
  deriving DecidableEq, Repr

/-- Writes drafts after `count` others. -/
def writeFrom (count : Nat) (b : Buffer) : List Draft → Written
  | [] => match b.flush? with
    | some emptied => ⟨count, emptied.sink, none⟩
    | none => ⟨count, b.sink, some (.within "failed to flush output" .sinkFull)⟩
  | d :: rest =>
    match (b.add d.renderTriple).bind fun b => b.add [Ascii.lineFeed] with
    | .ok b => writeFrom (count + 1) b rest
    | .error b => ⟨count, b.sink, some (.within "failed to write statement" .sinkFull)⟩

/-- Writes drafts, one per line, into a sink. -/
def write (sink : Sink) (drafts : List Draft) : Written := writeFrom 0 ⟨sink, []⟩ drafts

/-- The lines of drafts. -/
def render (drafts : List Draft) : Text :=
  drafts.flatMap fun d => d.renderTriple ++ [Ascii.lineFeed]

end NTriples

end TripleStore
