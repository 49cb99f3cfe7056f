import TripleStore.Text.Hex
import TripleStore.Text.Letters
import TripleStore.Token.Basic

/-!
# Scanning one token

`scan` reads the token that a text begins with.  It answers with a `Lexeme`, which says how many
bytes the token takes, or with a `Misfit`, which says where in those bytes the trouble is and how
many of them are passed over before reading goes on.  All offsets count from the token's first byte.

The parts have a scanner each: `iriBody`, `stringBody`, `nameLength`, `number`.  The recursions run
along the bytes; a decoded escape leaves a count of bytes to skip.
-/

namespace TripleStore

/-- The format that a text is read in. -/
inductive Mode
  | ntriples
  | turtle
  deriving DecidableEq, Repr

/-- A token that was read: `size` bytes long. -/
structure Lexeme where
  kind : Kind
  text : Text
  size : Nat
  bare : Bool := false
  deriving DecidableEq, Repr

/-- A token that could not be read: the trouble is at `offset`, and `size` bytes are passed over. -/
structure Misfit where
  offset : Nat
  char : Int
  detail : Text
  size : Nat
  deriving DecidableEq, Repr

namespace Scanner

/-! ### Escapes -/

/-- Reads the part of a numeric escape after the backslash: the code point and the number of bytes,
or the offending character and what is wrong. -/
def numericEscape : Text → Except (Int × Text) (Nat × Nat)
  | [] => .error (0, "invalid escape sequence")
  | mark :: rest =>
    if mark = 117 ∨ mark = 85 then
      let count := if mark = 117 then 4 else 8
      let digits := rest.take count
      if digits.length < count then .error (0, "incomplete unicode escape")
      else match Hex.value? digits with
        | some code =>
          if Utf8.isScalar code then .ok (code, count + 1)
          else .error (0, "invalid unicode escape \\" ++ (mark :: digits))
        | none => .error (0, "invalid unicode escape \\" ++ (mark :: digits))
    else .error (mark.toNat, "invalid escape sequence")

/-- The byte that a letter after a backslash stands for; other bytes stand for themselves. -/
def letterEscape (b : UInt8) : UInt8 :=
  if b = 116 then Ascii.tab
  else if b = 98 then Ascii.backspace
  else if b = 110 then Ascii.lineFeed
  else if b = 114 then Ascii.carriageReturn
  else if b = 102 then Ascii.formFeed
  else b

/-! ### IRIs -/

/-- Reads an IRI up to its closing bracket, `n` bytes into the token: the IRI and the size of the
token. -/
def iriBody : (skip n : Nat) → Text → Except Misfit (Text × Nat)
  | _, n, [] => .error ⟨0, 0, "unterminated IRI, missing '>'", n⟩
  | skip + 1, n, _ :: rest => iriBody skip (n + 1) rest
  | 0, n, b :: rest =>
    if b = Ascii.greaterThan then .ok ([], n + 1)
    else if b = Ascii.backslash then
      match numericEscape rest with
      | .error (char, detail) => .error ⟨n, char, detail, n⟩
      | .ok (code, width) =>
        (iriBody width (n + 1) rest).map fun p => (encodeScalar code ++ p.1, p.2)
    else if b = Ascii.lineFeed ∨ b = Ascii.carriageReturn then
      .error ⟨0, 0, "unterminated IRI, missing '>'", n⟩
    else if b = Ascii.space ∨ b = Ascii.tab ∨ b = Ascii.lessThan ∨ b = Ascii.quote then
      .error ⟨n, b.toNat, "invalid character in IRI", n⟩
    else (iriBody 0 (n + 1) rest).map fun p => (b :: p.1, p.2)

/-- Reads an IRI in angle brackets.  In Turtle an IRI without a colon is relative. -/
def iri (mode : Mode) (rest : Text) : Except Misfit Lexeme :=
  (iriBody 0 1 rest).map fun p =>
    let relative := mode = .turtle ∧ ¬ p.1.contains Ascii.colon
    ⟨if relative then .relativeIri else .iriRef, p.1, p.2, false⟩

/-! ### Strings -/

/-- The number of bytes `b` that a text begins with. -/
def runLength (b : UInt8) (t : Text) : Nat := (t.takeWhile (· == b)).length

/-- Reads a string up to its closing quotes, `n` bytes into the token: the value and the size of the
token.  A closing run of more than three quotes belongs to a long string but for its last three. -/
def stringBody (mark : UInt8) (long : Bool) : (skip n : Nat) → Text → Except Misfit (Text × Nat)
  | _, n, [] => .error ⟨0, 0, "unterminated string literal", n⟩
  | skip + 1, n, _ :: rest => stringBody mark long skip (n + 1) rest
  | 0, n, b :: rest =>
    if long ∧ b = mark ∧ 2 ≤ runLength mark rest then
      .ok (List.replicate (runLength mark rest - 2) mark, n + runLength mark rest + 1)
    else if ¬ long ∧ b = mark then .ok ([], n + 1)
    else if ¬ long ∧ (b = Ascii.lineFeed ∨ b = Ascii.carriageReturn) then
      .error ⟨0, 0, "unterminated string literal", n⟩
    else if b = Ascii.backslash then
      match rest with
      | [] => .error ⟨0, 0, "unterminated string literal", n⟩
      | next :: _ =>
        if next = 117 ∨ next = 85 then
          match numericEscape rest with
          | .error (char, detail) => .error ⟨n, char, detail, n⟩
          | .ok (code, width) =>
            (stringBody mark long width (n + 1) rest).map fun p => (encodeScalar code ++ p.1, p.2)
        else (stringBody mark long 1 (n + 1) rest).map fun p => (letterEscape next :: p.1, p.2)
    else (stringBody mark long 0 (n + 1) rest).map fun p => (b :: p.1, p.2)

/-- Reads a string; in Turtle three quotes open a long one. -/
def string (mode : Mode) (mark : UInt8) (rest : Text) : Except Misfit Lexeme :=
  if mode = .turtle ∧ 2 ≤ runLength mark rest then
    (stringBody mark true 0 3 (rest.drop 2)).map fun p => ⟨.longString, p.1, p.2, false⟩
  else
    (stringBody mark false 0 1 rest).map fun p => ⟨.stringLiteral, p.1, p.2, false⟩

/-! ### Labels and names -/

/-- A code point that may occur in a label or a name. -/
def isNameScalar (c : Nat) : Bool :=
  if c < 0x80 then
    Ascii.isLetter c.toUInt8 || Ascii.isDigit c.toUInt8 || c == 95 || c == 45
  else c != replacementScalar && c != 0xD7 && c != 0xF7

/-- The length of the longest label or name, `n` bytes into the token, of which `best` are sure to
belong to it: dots belong only if something other than a dot follows.  A prefixed name may also
hold colons, percent signs and any byte after a backslash. -/
def nameLength (prefixed : Bool) : (skip n best : Nat) → Text → Nat
  | _, _, best, [] => best
  | skip + 1, n, best, _ :: rest => nameLength prefixed skip (n + 1) best rest
  | 0, n, best, b :: rest =>
    let (c, width) := Utf8.read b rest
    if prefixed ∧ b = Ascii.backslash ∧ rest ≠ [] then
      nameLength prefixed 1 (n + 1) (n + 2) rest
    else if isNameScalar c ∨ (prefixed ∧ (b = Ascii.colon ∨ b = Ascii.percent)) then
      nameLength prefixed (width - 1) (n + 1) (n + width) rest
    else if b = Ascii.dot then nameLength prefixed 0 (n + 1) best rest
    else best

/-- Reads a blank node label; it may be empty. -/
def blankLabel (t : Text) : Lexeme :=
  let size := nameLength false 0 2 2 (t.drop 2)
  ⟨.blankNodeLabel, t.take size, size, false⟩

/-- Drops the backslash of every escape in a prefixed name. -/
def unescapeName : Text → Text
  | [] => []
  | [b] => [b]
  | b :: c :: rest =>
    if b = Ascii.backslash then c :: unescapeName rest else b :: unescapeName (c :: rest)

/-- Reads a prefixed name or one of the bare words that mean something. -/
def name (t : Text) : Except Misfit Lexeme :=
  let size := nameLength true 0 0 0 t
  let word := t.take size
  if word.contains Ascii.colon then .ok ⟨.prefixedName, unescapeName word, size, false⟩
  else if word = ("a" : Text) then .ok ⟨.a, word, size, false⟩
  else if word = ("true" : Text) ∨ word = ("false" : Text) then .ok ⟨.boolean, word, size, false⟩
  else if sameLetters word "PREFIX" then .ok ⟨.prefixDirective, word, size, true⟩
  else if sameLetters word "BASE" then .ok ⟨.baseDirective, word, size, true⟩
  else .error ⟨0, Utf8.firstScalar word, "unexpected bare word " ++ quoted word, size⟩

/-! ### Words after an at sign -/

/-- A byte of a language tag or directive. -/
def isTagByte (b : UInt8) : Bool := Ascii.isLetter b || Ascii.isDigit b || b == Ascii.minus

/-- Reads the word after an at sign.  In Turtle it may be a directive, but not after a string. -/
def afterAt (mode : Mode) (afterString : Bool) (rest : Text) : Except Misfit Lexeme :=
  let word := rest.takeWhile isTagByte
  let size := word.length + 1
  if word.isEmpty then
    .error ⟨0, Utf8.firstScalar rest, "expected language tag after '@'", 1⟩
  else if mode = .turtle ∧ ¬ afterString ∧ word = ("prefix" : Text) then
    .ok ⟨.prefixDirective, "@prefix", size, false⟩
  else if mode = .turtle ∧ ¬ afterString ∧ word = ("base" : Text) then
    .ok ⟨.baseDirective, "@base", size, false⟩
  else .ok ⟨.langTag, word, size, false⟩

/-! ### Numbers -/

/-- The number of digits that a text begins with. -/
def digitCount (t : Text) : Nat := (t.takeWhile Ascii.isDigit).length

/-- The length of a sign at the beginning of a text. -/
def signLength : Text → Nat
  | b :: _ => if b = Ascii.plus ∨ b = Ascii.minus then 1 else 0
  | [] => 0

/-- The length of an exponent with digits at the beginning of a text, 0 if there is none. -/
def exponentLength : Text → Nat
  | b :: rest =>
    if b = 101 ∨ b = 69 then
      let sign := signLength rest
      let digits := digitCount (rest.drop sign)
      if digits = 0 then 0 else 1 + sign + digits
    else 0
  | [] => 0

/-- The length of the part of a number from its point on, given how many digits stand before: a
point with digits, or a point directly before an exponent. -/
def fractionLength (whole : Nat) : Text → Nat
  | b :: rest =>
    if b = Ascii.dot then
      if 0 < digitCount rest then 1 + digitCount rest
      else if 0 < whole ∧ 0 < exponentLength rest then 1
      else 0
    else 0
  | [] => 0

/-- Reads a number. -/
def number (t : Text) : Except Misfit Lexeme :=
  let sign := signLength t
  let whole := digitCount (t.drop sign)
  let fraction := fractionLength whole (t.drop (sign + whole))
  if whole = 0 ∧ fraction = 0 then
    .error ⟨0, Utf8.firstScalar t, "expected digits in number", 0⟩
  else
    let mantissa := sign + whole + fraction
    let exponent := exponentLength (t.drop mantissa)
    let kind : Kind :=
      if 0 < exponent then .double else if 0 < fraction then .decimal else .integer
    .ok ⟨kind, t.take (mantissa + exponent), mantissa + exponent, false⟩

/-! ### All tokens -/

/-- A token of one byte. -/
def single (kind : Kind) (b : UInt8) : Lexeme := ⟨kind, [b], 1, false⟩

/-- The kinds that Turtle adds for single bytes. -/
def bracket? (b : UInt8) : Option Kind :=
  if b = Ascii.openBracket then some .openBracket
  else if b = Ascii.closeBracket then some .closeBracket
  else if b = Ascii.openParen then some .openParen
  else if b = Ascii.closeParen then some .closeParen
  else none

/-- Reads the tokens that only Turtle has, and refuses what is left. -/
def scanTurtle (b : UInt8) (rest : Text) : Except Misfit Lexeme :=
  match bracket? b with
  | some kind => .ok (single kind b)
  | none =>
    if Ascii.isDigit b || b == Ascii.plus || b == Ascii.minus then number (b :: rest)
    else if b == Ascii.colon || 0x80 ≤ b || Ascii.isLetter b then name (b :: rest)
    else .error ⟨0, Utf8.firstScalar (b :: rest), "unexpected character", 0⟩

/-- Reads the token that `b :: rest` begins with; `afterString` says that the token before it was a
string. -/
def scan (mode : Mode) (afterString : Bool) (b : UInt8) (rest : Text) : Except Misfit Lexeme :=
  if b = Ascii.lessThan then iri mode rest
  else if b = Ascii.underscore ∧ rest.head? = some Ascii.colon then .ok (blankLabel (b :: rest))
  else if b = Ascii.quote then string mode b rest
  else if b = Ascii.apostrophe ∧ mode = .turtle then string mode b rest
  else if b = Ascii.atSign then afterAt mode afterString rest
  else if b = Ascii.caret then
    if rest.head? = some Ascii.caret then .ok ⟨.typeTag, "^^", 2, false⟩
    else .error ⟨0, b.toNat, "expected '^^'", 0⟩
  else if b = Ascii.dot then
    if mode = .turtle ∧ 0 < digitCount rest then number (b :: rest)
    else .ok (single .period b)
  else if b = Ascii.semicolon then .ok (single .semicolon b)
  else if b = Ascii.comma then .ok (single .comma b)
  else if mode = .turtle then scanTurtle b rest
  else .error ⟨0, Utf8.firstScalar (b :: rest), "unexpected character", 0⟩

end Scanner

end TripleStore
