import TripleStore.Text.Quoted

/-!
# Tokens

The lexical units of the two formats, the places they stand at, and the errors that arise where no
unit can be read.
-/

namespace TripleStore

/-- A place in a text: the offset in bytes from 0, line and column from 1.  A place that a caller
makes up may be anything; it counts as unknown if its line is not positive. -/
structure Position where
  offset : Int
  line : Int
  column : Int
  deriving DecidableEq, Repr, Inhabited

namespace Position

/-- The beginning of a text. -/
def start : Position := ⟨0, 1, 1⟩

/-- The place after one more byte.  A line feed starts a line; a byte that continues a UTF-8
sequence takes no column. -/
def step (p : Position) (b : UInt8) : Position :=
  if b = Ascii.lineFeed then ⟨p.offset + 1, p.line + 1, 1⟩
  else if Ascii.isContinuation b then ⟨p.offset + 1, p.line, p.column⟩
  else ⟨p.offset + 1, p.line, p.column + 1⟩

/-- The place after some more bytes. -/
def after (p : Position) (bytes : Text) : Position := bytes.foldl step p

/-- Line and column, as messages show them. -/
def render (p : Position) : Text := Text.ofInt p.line ++ ":" ++ Text.ofInt p.column

end Position

/-- What a token is. -/
inductive Kind
  | eof
  | iriRef
  | blankNodeLabel
  | langTag
  | typeTag
  | stringLiteral
  | period
  | semicolon
  | comma
  | prefixDirective
  | baseDirective
  | relativeIri
  | longString
  | prefixedName
  | a
  | integer
  | decimal
  | double
  | boolean
  | openBracket
  | closeBracket
  | openParen
  | closeParen
  deriving DecidableEq, Repr, Inhabited

namespace Kind

/-- All kinds in the order of their numbers. -/
def all : List Kind :=
  [.eof, .iriRef, .blankNodeLabel, .langTag, .typeTag, .stringLiteral, .period, .semicolon, .comma,
    .prefixDirective, .baseDirective, .relativeIri, .longString, .prefixedName, .a, .integer,
    .decimal, .double, .boolean, .openBracket, .closeBracket, .openParen, .closeParen]

/-- The kind with a number. -/
def ofNumber? (n : Nat) : Option Kind := all[n]?

/-- The name of a kind in messages. -/
def name : Kind → Text
  | .eof => "EOF"
  | .iriRef => "IRIREF"
  | .blankNodeLabel => "BLANK_NODE_LABEL"
  | .langTag => "LANGTAG"
  | .typeTag => "TYPE_TAG"
  | .stringLiteral => "STRING_LITERAL_QUOTE"
  | .period => "PERIOD"
  | .semicolon => "SEMICOLON"
  | .comma => "COMMA"
  | .prefixDirective => "PREFIX"
  | .baseDirective => "BASE"
  | .relativeIri => "RELATIVE_IRI"
  | .longString => "STRING_LITERAL_LONG"
  | .prefixedName => "PNAME"
  | .a => "A"
  | .integer => "INTEGER"
  | .decimal => "DECIMAL"
  | .double => "DOUBLE"
  | .boolean => "BOOLEAN"
  | .openBracket => "'['"
  | .closeBracket => "']'"
  | .openParen => "'('"
  | .closeParen => "')'"

/-- The name of the kind with a number; numbers without a kind are shown as such. -/
def nameOfNumber (n : Nat) : Text :=
  match ofNumber? n with
  | some k => k.name
  | none => "Kind(" ++ Text.ofNat n ++ ")"

/-- Whether the text of such a token adds nothing to its kind. -/
def isFixed : Kind → Bool
  | .eof | .period | .semicolon | .comma | .typeTag | .openBracket | .closeBracket | .openParen
  | .closeParen | .a => true
  | _ => false

/-- A kind and a text as messages show a token. -/
def describe (k : Kind) (text : Text) : Text :=
  if k.isFixed then k.name else k.name ++ "(" ++ quoted text ++ ")"

/-- A token whose kind is given by number, as messages show it. -/
def describeNumber (n : Nat) (text : Text) : Text :=
  match ofNumber? n with
  | some k => k.describe text
  | none => nameOfNumber n ++ "(" ++ quoted text ++ ")"

/-- A string, short or long: a language tag may follow it. -/
def isString (k : Kind) : Bool := k = .stringLiteral ∨ k = .longString

end Kind

/-- A token.  Its text is decoded: an IRI without brackets, a string without quotes and escapes, a
tag without its sign; a blank node label keeps its `_:`. -/
structure Token where
  kind : Kind
  text : Text
  position : Position
  /-- A directive that is written as a bare word and needs no full stop. -/
  bare : Bool := false
  deriving DecidableEq, Repr, Inhabited

/-- A token as messages show it. -/
def Token.describe (t : Token) : Text := t.kind.describe t.text

/-- A place at which no token can be read; `char` is the offending code point, or 0 for none. -/
structure LexError where
  position : Position
  char : Int
  detail : Text
  deriving DecidableEq, Repr

/-- The words of a lexical error. -/
def LexError.message (e : LexError) : Text :=
  let place : Text := "lex error at " ++ e.position.render ++ ": " ++ e.detail
  if e.char = 0 then place else place ++ " (" ++ quotedScalar e.char ++ ")"

end TripleStore
