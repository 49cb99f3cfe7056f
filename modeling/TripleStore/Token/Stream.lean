import TripleStore.Token.Scanner

/-!
# Token streams

A `Lexer` stands at a place of a text.  `Lexer.next` skips white space and comments and reads one
token; after an error it can be asked again and goes on behind what the error passed over.

A `TokenStream` holds all tokens of a text up to its end or the first error.
-/

namespace TripleStore

/-- The length of the white space and comments that a text begins with; a comment runs from `#` to
the end of its line. -/
def blankLength : (comment : Bool) → Text → Nat
  | _, [] => 0
  | true, b :: rest =>
    if b = Ascii.lineFeed then 1 + blankLength false rest else 1 + blankLength true rest
  | false, b :: rest =>
    if b = Ascii.space ∨ b = Ascii.tab ∨ b = Ascii.lineFeed ∨ b = Ascii.carriageReturn then
      1 + blankLength false rest
    else if b = Ascii.hash then 1 + blankLength true rest
    else 0

/-- A place in a text that is being read. -/
structure Lexer where
  mode : Mode
  rest : Text
  position : Position
  last : Option Kind
  deriving DecidableEq, Repr

namespace Lexer

/-- The beginning of a text. -/
def start (mode : Mode) (text : Text) : Lexer := ⟨mode, text, .start, none⟩

/-- The same lexer `n` bytes further on. -/
def advance (l : Lexer) (n : Nat) : Lexer :=
  { l with rest := l.rest.drop n, position := l.position.after (l.rest.take n) }

/-- The lexer behind white space and comments. -/
def skipBlank (l : Lexer) : Lexer := l.advance (blankLength false l.rest)

/-- Whether the last token was a string. -/
def afterString (l : Lexer) : Bool := (l.last.map Kind.isString).getD false

/-- Reads the token at the very place of the lexer, where no white space stands. -/
def token (l : Lexer) : Except LexError Token × Lexer :=
  match l.rest with
  | [] => (.ok ⟨.eof, [], l.position, false⟩, { l with last := some .eof })
  | b :: rest =>
    match Scanner.scan l.mode l.afterString b rest with
    | .ok lexeme =>
      (.ok ⟨lexeme.kind, lexeme.text, l.position, lexeme.bare⟩,
        { l.advance lexeme.size with last := some lexeme.kind })
    | .error misfit =>
      (.error ⟨l.position.after (l.rest.take misfit.offset), misfit.char, misfit.detail⟩,
        l.advance misfit.size)

/-- Reads the next token; at the end of the text it is always the end token. -/
def next (l : Lexer) : Except LexError Token × Lexer := l.skipBlank.token

end Lexer

/-- The tokens of a text, up to its end or to the first place where none can be read. -/
inductive TokenStream
  | done (position : Position)
  | fault (e : LexError)
  | token (t : Token) (rest : TokenStream)
  deriving DecidableEq, Repr

namespace TokenStream

/-- The number of tokens before the end. -/
def length : TokenStream → Nat
  | .done _ => 0
  | .fault _ => 0
  | .token _ rest => rest.length + 1

/-- The token at the head; the end counts as one. -/
def current : TokenStream → Token
  | .done p => ⟨.eof, [], p, false⟩
  | .fault e => ⟨.eof, [], e.position, false⟩
  | .token t _ => t

/-- A stream that does not start with an error. -/
def sound : TokenStream → Except LexError TokenStream
  | .fault e => .error e
  | s => .ok s

/-- The stream behind its head, unless an error stands there. -/
def tail : TokenStream → Except LexError TokenStream
  | .token _ rest => rest.sound
  | s => s.sound

/-- The stream behind all semicolons at its head. -/
def dropSemicolons : TokenStream → Except LexError TokenStream
  | .fault e => .error e
  | .done p => .ok (.done p)
  | .token t rest => if t.kind = .semicolon then rest.dropSemicolons else .ok (.token t rest)

/-- At most `fuel` tokens from a lexer on. -/
def ofLexer : (fuel : Nat) → Lexer → TokenStream
  | 0, l => .done l.position
  | fuel + 1, l =>
    match l.next with
    | (.error e, _) => .fault e
    | (.ok t, l) => if t.kind = .eof then .done t.position else .token t (ofLexer fuel l)

/-- The tokens of a text.  Each takes at least one byte, so there are at most as many. -/
def ofText (mode : Mode) (text : Text) : TokenStream :=
  ofLexer (text.length + 1) (.start mode text)

end TokenStream

end TripleStore
