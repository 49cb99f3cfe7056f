import TripleStore.Yaml.Property
import TripleStore.Yaml.Scalar

/-!
# The tokens of a YAML file

Tokens are read only as far as they are asked for, with two more behind the one that is wanted.
Some of them stand for no characters at all: where a map or a sequence begins and ends follows from
the columns.  A key before a colon is only seen at the colon; therefore a stream remembers, for each
level of brackets, where a key may have begun, and puts the missing tokens there.

* `TokenStream.peek` is the token that is next.
* `TokenStream.drop` passes it.
-/

namespace TripleStore.Yaml

/-- A token. -/
inductive Token
  | streamEnd
  | directive (d : Directive)
  | documentStart
  | documentEnd
  | blockListStart
  | blockMapStart
  | blockEnd
  | flowListStart
  | flowListEnd
  | flowMapStart
  | flowMapEnd
  | blockEntry
  | flowEntry
  | key
  | value
  | alias (name : Text)
  | anchor (name : Text)
  | tag (t : ShortTag)
  | scalar (text : Text) (plain : Bool)
  deriving DecidableEq, Repr

/-- A place where a key may have begun. -/
structure Candidate where
  possible : Bool := false
  /-- Whether a key must begin there. -/
  required : Bool := false
  /-- The number of the token that stands there. -/
  number : Nat := 0
  index : Nat := 0
  line : Nat := 0
  column : Nat := 0
  deriving DecidableEq, Repr, Inhabited

/-- The tokens of a file. -/
structure TokenStream where
  cursor : Cursor
  /-- The tokens that were read and not yet passed. -/
  queue : List Token := []
  /-- The number of tokens that were passed. -/
  passed : Nat := 0
  /-- The column of the innermost map or sequence outside of brackets. -/
  indent : Int := -1
  /-- The columns of those around it. -/
  outer : List Int := []
  /-- The level of brackets. -/
  level : Nat := 0
  /-- Where a key may have begun, for each level of brackets, the innermost first. -/
  candidates : List Candidate := [{}]
  /-- The numbers of tokens that may begin a key, and their levels of brackets. -/
  noted : List (Nat × Nat) := []
  keyAllowed : Bool := true
  deriving DecidableEq, Repr

/-- The tokens of a source. -/
def TokenStream.ofSource (s : Source) : TokenStream := { cursor := .ofSource s }

/-- A step of reading tokens. -/
abbrev Reader := StateT TokenStream Option

namespace Reader

/-- A walk through the file. -/
def scan {α : Type} (s : Scan α) : Reader α := fun t =>
  (s t.cursor).map fun (a, cursor) => (a, { t with cursor })

/-- How deep maps, sequences and brackets may be nested. -/
def depthLimit : Nat := 10000

/-- The level of brackets. -/
def flowLevel : Reader Nat := do return (← get).level

/-- Whether the cursor is inside of brackets. -/
def inFlow : Reader Bool := do return 0 < (← flowLevel)

/-- Says whether a key may follow. -/
def allowKey (allowed : Bool) : Reader Unit := modify fun t => { t with keyAllowed := allowed }

/-- The number of the next token that will be read. -/
def nextNumber : Reader Nat := do return (← get).passed + (← get).queue.length

/-- Adds a token behind the others. -/
def append (token : Token) : Reader Unit := modify fun t => { t with queue := t.queue ++ [token] }

/-- Adds a token before the one with a number; if that has been passed, behind all others. -/
def insert (number : Nat) (token : Token) : Reader Unit := do
  let t ← get
  if number < t.passed then append token
  else
    let place := number - t.passed
    set { t with queue := t.queue.take place ++ token :: t.queue.drop place }

/-! ### Keys -/

/-- Forgets the note on a token. -/
def forget (number : Nat) : Reader Unit :=
  modify fun t => { t with noted := t.noted.filter (·.1 != number) }

/-- Changes the candidate of a level. -/
def setCandidate (level : Nat) (c : Candidate) : Reader Unit := modify fun t =>
  { t with candidates := t.candidates.set (t.level - level) c }

/-- The candidate of a level. -/
def candidate (level : Nat) : Reader Candidate := do
  let t ← get
  return if level ≤ t.level then t.candidates.getD (t.level - level) {} else {}

/-- How many characters a key may have up to its colon. -/
def keyLimit : Nat := 1024

/-- Whether the candidate of a level can still be a key: it must be on the same line and not too far
away.  One that can no longer be a key must not have been required. -/
def isStillKey (level : Nat) : Reader Bool := do
  let c ← candidate level
  let cursor := (← get).cursor
  if !c.possible then return false
  else if c.line < cursor.line || c.index + keyLimit < cursor.index then
    if c.required then failure
    setCandidate level { c with possible := false }
    return false
  else return true

/-- Gives up the candidate of the innermost level, which must not have been required. -/
def dropCandidate : Reader Unit := do
  let level ← flowLevel
  let c ← candidate level
  if c.possible then
    if c.required then failure
    setCandidate level { c with possible := false }
    forget c.number

/-- Remembers that a key may begin at the cursor.  Outside of brackets it must if the cursor is in
the column of a map. -/
def noteCandidate : Reader Unit := do
  let t ← get
  if t.keyAllowed then
    let level ← flowLevel
    let number ← nextNumber
    let c := t.cursor
    dropCandidate
    setCandidate level
      { possible := true, required := level = 0 && t.indent = (c.column : Int), number,
        index := c.index, line := c.line, column := c.column }
    forget number
    modify fun t => { t with noted := (number, level) :: t.noted }

/-- Enters a level of brackets. -/
def enterFlow : Reader Unit := do
  let number ← nextNumber
  modify fun t => { t with candidates := { number } :: t.candidates, level := t.level + 1 }
  if depthLimit < (← flowLevel) then failure

/-- Leaves a level of brackets. -/
def leaveFlow : Reader Unit := do
  match (← get).candidates with
  | c :: d :: outer =>
    forget c.number
    modify fun t => { t with candidates := d :: outer, level := t.level - 1 }
  | _ => return ()

/-! ### Columns -/

/-- Begins a map or a sequence in a column, if that is to the right of the one around it.  Its token
is put before the one with a number, or behind all others. -/
def indentTo (column : Nat) (number : Option Nat) (token : Token) : Reader Unit := do
  let t ← get
  if !(← inFlow) && t.indent < (column : Int) then
    set { t with outer := t.indent :: t.outer, indent := column : TokenStream }
    if depthLimit < t.outer.length + 1 then failure
    match number with
    | some n => insert n token
    | none => append token

/-- Ends the maps and sequences to the right of a column. -/
def endBlocks (column : Int) : List Int → Reader Unit
  | [] => return ()
  | around :: outer => do
    if column < (← get).indent then
      append .blockEnd
      modify fun t => { t with indent := around, outer }
      endBlocks column outer

/-- Ends the maps and sequences to the right of a column, outside of brackets. -/
def unindentTo (column : Int) : Reader Unit := do
  if !(← inFlow) then endBlocks column (← get).outer

/-! ### Single tokens -/

/-- Ends all maps and sequences, after which no key may follow. -/
def endDocument : Reader Unit := do
  unindentTo (-1)
  dropCandidate
  allowKey false

/-- Reads the end of the file. -/
def readStreamEnd : Reader Unit := do
  modify fun t => if t.cursor.column = 0 then t
    else { t with cursor := { t.cursor with column := 0, line := t.cursor.line + 1 } }
  endDocument
  append .streamEnd

/-- Reads a directive. -/
def readDirective : Reader Unit := do
  endDocument
  append (.directive (← scan Scan.directive))

/-- Reads the mark of a document. -/
def readDocumentMark (token : Token) : Reader Unit := do
  endDocument
  scan (Scan.skipMany 3)
  append token

/-- Reads a single character as a token. -/
def readSign (token : Token) : Reader Unit := do
  scan Scan.skip
  append token

/-- Reads an opening bracket. -/
def readOpening (token : Token) : Reader Unit := do
  noteCandidate
  enterFlow
  allowKey true
  readSign token

/-- Reads a closing bracket. -/
def readClosing (token : Token) : Reader Unit := do
  dropCandidate
  leaveFlow
  allowKey false
  readSign token

/-- Reads a comma. -/
def readFlowEntry : Reader Unit := do
  dropCandidate
  allowKey true
  readSign .flowEntry

/-- Begins a map or a sequence at the cursor, where that is allowed. -/
def beginHere (token : Token) : Reader Unit := do
  if !(← inFlow) then
    if !(← get).keyAllowed then failure
    indentTo (← get).cursor.column none token

/-- Reads a hyphen. -/
def readBlockEntry : Reader Unit := do
  beginHere .blockListStart
  dropCandidate
  allowKey true
  readSign .blockEntry

/-- Reads a question mark. -/
def readKey : Reader Unit := do
  beginHere .blockMapStart
  dropCandidate
  allowKey (!(← inFlow))
  readSign .key

/-- Reads a colon: before it stands a key, or a map goes on with it. -/
def readValue : Reader Unit := do
  let level ← flowLevel
  if ← isStillKey level then
    let c ← candidate level
    insert c.number .key
    indentTo c.column (some c.number) .blockMapStart
    setCandidate level { c with possible := false }
    forget c.number
    allowKey false
  else
    beginHere .blockMapStart
    allowKey (!(← inFlow))
  readSign .value

/-- Reads something that may be the beginning of a key. -/
def readKeyPart (s : Scan Token) : Reader Unit := do
  noteCandidate
  allowKey false
  append (← scan s)

/-- The column that what follows a line break must reach. -/
def leastColumn : Reader Nat := do return ((← get).indent + 1).toNat

/-- Reads a plain scalar. -/
def readPlain : Reader Unit := do
  noteCandidate
  allowKey false
  let (text, folds) ← scan (Scan.plain (← inFlow) (← leastColumn))
  if folds then allowKey true
  append (.scalar text true)

/-- Reads a block. -/
def readBlock (folded : Bool) : Reader Unit := do
  dropCandidate
  allowKey true
  append (.scalar (← scan (Scan.block folded (← leastColumn))) false)

/-! ### The next token -/

/-- Passes blanks, comments and line breaks, behind which a key may begin.  Tabs count as blanks
only where no key may begin.  Behind a byte order mark the beginning of a line is passed over. -/
def skipGap : (fuel : Nat) → Reader Unit
  | 0 => return ()
  | fuel + 1 => do
    scan (Scan.need 1)
    let cursor := (← get).cursor
    if cursor.column = 0 && cursor.marked then scan Scan.skip
    let tabs := (← inFlow) || !(← get).keyAllowed
    let _ ← scan (Scan.run fun c => c == 0x20 || (tabs && c == 0x09))
    if (← scan (Scan.peek 0)) == 0x23 then scan Scan.comments
    if isBreak (← scan (Scan.peek 0)) then
      let _ ← scan Scan.passBreak
      if !(← inFlow) then allowKey true
      skipGap fuel

/-- The characters that begin no plain scalar. -/
def indicators : Text := "-?:,[]\x7b\x7d#&*!|>'\"%@`"

/-- Whether a plain scalar can begin with a character before another one. -/
def beginsPlain (inFlow : Bool) (c next : Nat) : Bool :=
  if isGap c then false
  else if !(ascii? c).any (indicators.contains ·) then true
  else if c == 0x2D then !isBlank next
  else !inFlow && (c == 0x3F || c == 0x3A) && !isGap next

/-- Reads a token that is neither the mark of a document nor a directive. -/
def readContent (c next : Nat) : Reader Unit := do
  let inFlow ← inFlow
  let apart := inFlow || isGap next
  if c == 0x5B then readOpening .flowListStart
  else if c == 0x7B then readOpening .flowMapStart
  else if c == 0x5D then readClosing .flowListEnd
  else if c == 0x7D then readClosing .flowMapEnd
  else if c == 0x2C then readFlowEntry
  else if c == 0x2D && isGap next then readBlockEntry
  else if c == 0x3F && apart then readKey
  else if c == 0x3A && apart then readValue
  else if c == 0x2A then readKeyPart (Token.alias <$> Scan.anchorName)
  else if c == 0x26 then readKeyPart (Token.anchor <$> Scan.anchorName)
  else if c == 0x21 then readKeyPart (Token.tag <$> Scan.shortTag)
  else if c == 0x7C && !inFlow then readBlock false
  else if c == 0x3E && !inFlow then readBlock true
  else if c == 0x27 || c == 0x22 then
    readKeyPart ((Token.scalar · false) <$> Scan.quotedScalar c)
  else if beginsPlain inFlow c next then readPlain
  else failure

/-- Reads one more token, and those that have to stand before it.  A comment on the same line goes
with it, except behind a hyphen. -/
def readToken : Reader Unit := do
  scan (Scan.need 1)
  skipGap ((← get).cursor.size + 1)
  unindentTo (← get).cursor.column
  scan (Scan.need 4)
  let c ← scan (Scan.peek 0)
  if c == 0 then readStreamEnd
  else if (← get).cursor.column = 0 && c == 0x25 then readDirective
  else if ← scan (Scan.atTriple 0x2D) then readDocumentMark .documentStart
  else if ← scan (Scan.atTriple 0x2E) then readDocumentMark .documentEnd
  else
    readContent c (← scan (Scan.peek 1))
    if (← get).queue.getLast? != some .blockEntry then scan Scan.lineComment

/-! ### The stream -/

/-- Reads tokens until two stand behind the next one and that can no longer be the beginning of a
key. -/
def fill : (fuel : Nat) → Reader Unit
  | 0 => failure
  | fuel + 1 => do
    let t ← get
    if t.queue.length ≤ 2 then
      readToken
      fill fuel
    else match t.noted.lookup t.passed with
      | none => return ()
      | some level =>
        if ← isStillKey level then
          readToken
          fill fuel

end Reader

namespace TokenStream

/-- The token that is next. -/
def peek : Reader Token := do
  Reader.fill ((← get).cursor.size + 8)
  match (← get).queue with
  | token :: _ => return token
  | [] => failure

/-- Passes the next token. -/
def drop : Reader Unit :=
  modify fun t => { t with queue := t.queue.drop 1, passed := t.passed + 1 }

end TokenStream

end TripleStore.Yaml
