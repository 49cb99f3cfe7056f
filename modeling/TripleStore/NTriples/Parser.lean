import TripleStore.Parse.Delivery
import TripleStore.Term.Vocabulary

/-!
# Reading N-Triples

One statement per group of tokens: subject, predicate, object and a full stop.  A token is given up
only when the one behind it could be read, so a lexical error comes before whatever is wrong with
the token in front of it.

* `NTriples.read` delivers the statements of a text; each read has a scope of labels of its own.
* `NTriples.parseTerm` reads a single term; its labels are kept as they are written.
-/

namespace TripleStore.NTriples

/-- What becomes of blank node labels: fresh nodes of a scope, or the labels themselves. -/
inductive Naming
  | scoped
  | verbatim
  deriving DecidableEq, Repr

/-- The state of a reader. -/
structure State where
  stream : TokenStream
  scope : Scope := {}
  supply : Supply
  deriving DecidableEq, Repr

/-- A step of a reader. -/
abbrev Parser := EStateM ReadError State

/-- The token at hand. -/
def current : Parser Token := do return (← get).stream.current

/-- Gives up the token at hand. -/
def advance : Parser Unit := do
  let s ← get
  match s.stream.tail with
  | .ok stream => set { s with stream }
  | .error e => throw (.lexical e)

/-- The name of the format in messages. -/
def format : Text := "ntriples"

/-- Refuses the token at hand. -/
def unexpected {α : Type} (expected : Text) : Parser α := do
  let t ← current
  throw (.grammar ⟨format, t.position, expected, t.describe, [], none⟩)

/-- Refuses a token that was given up. -/
def invalid {α : Type} (t : Token) (v : Violation) : Parser α :=
  throw (.grammar ⟨format, t.position, [], [], "invalid term", some v⟩)

/-- Gives up the token at hand, which must be of a kind. -/
def expect (kind : Kind) : Parser Token := do
  let t ← current
  if t.kind = kind then
    advance
    return t
  else unexpected kind.name

/-- Reads an IRI. -/
def iri : Parser Iri := do
  let t ← expect .iriRef
  match (Term.iri t.text).violation? with
  | none => return t.text
  | some v => invalid t v

/-- The node of a label. -/
def resolve (naming : Naming) (label : Text) : Parser Text := do
  match naming with
  | .verbatim => return label
  | .scoped =>
    let s ← get
    let (node, scope, supply) := s.scope.resolve s.supply label
    set { s with scope, supply }
    return node

/-- Reads a blank node. -/
def blankNode (naming : Naming) : Parser Text := do
  let t ← expect .blankNodeLabel
  let label := t.text.drop 2
  if label.isEmpty then
    throw (.grammar ⟨format, t.position, [], [], "malformed blank node label " ++ t.text, none⟩)
  match (Term.blank label).violation? with
  | none => resolve naming label
  | some v => invalid t v

/-- Reads a literal with its tag or datatype. -/
def literal : Parser Term := do
  let value ← expect .stringLiteral
  let t ← current
  match t.kind with
  | .langTag =>
    advance
    match (Term.lang value.text t.text).violation? with
    | none => return .lang value.text t.text
    | some v => invalid t v
  | .typeTag =>
    advance
    let datatype ← iri
    return .typed value.text datatype
  | _ => return .plain value.text

/-- Reads a subject. -/
def subject : Parser Node := do
  let t ← current
  match t.kind with
  | .iriRef => return .iri (← iri)
  | .blankNodeLabel => return .blank (← blankNode .scoped)
  | _ => unexpected "IRIREF or BLANK_NODE_LABEL"

/-- Reads an object. -/
def object (naming : Naming) : Parser Term := do
  let t ← current
  match t.kind with
  | .iriRef => return .iri (← iri)
  | .blankNodeLabel => return .blank (← blankNode naming)
  | .stringLiteral => literal
  | _ => unexpected "IRIREF, BLANK_NODE_LABEL or STRING_LITERAL_QUOTE"

/-- Reads a statement with its full stop. -/
def statement : Parser Statement := do
  let s ← subject
  let p ← iri
  let o ← object .scoped
  let _ ← expect .period
  return ⟨s, p, o, none⟩

/-- Delivers at most `fuel` statements. -/
def deliver : (fuel : Nat) → State → Delivery
  | 0, s => .finish s.supply
  | fuel + 1, s =>
    if s.stream.current.kind = .eof then .finish s.supply
    else match statement.run s with
      | .ok stmt s => .block [stmt] s.supply (deliver fuel s)
      | .error e s => .failed e s.supply

/-- Delivers the statements of a token stream.  Each takes at least one token. -/
def readStream (stream : TokenStream) (scope : Scope) (supply : Supply) : Delivery :=
  match stream.sound with
  | .error e => .failed (.lexical e) supply
  | .ok stream => deliver (stream.length + 1) ⟨stream, scope, supply⟩

/-- Delivers the statements of a text. -/
def read (text : Text) (supply : Supply) : Delivery :=
  readStream (.ofText .ntriples text) {} supply

/-- Reads the whole of a token stream as one term. -/
def term : Parser Term := do
  let t ← object .verbatim
  if (← current).kind = .eof then return t
  else unexpected Kind.eof.name

/-- Reads a text as one term. -/
def parseTerm (text : Text) : Except ReadError Term :=
  match (TokenStream.ofText .ntriples text).sound with
  | .error e => .error (.lexical e)
  | .ok stream =>
    match term.run ⟨stream, {}, {}⟩ with
    | .ok t _ => .ok t
    | .error e _ => .error e

/-- All statements of a text, or the error that it fails with. -/
def parse (text : Text) (supply : Supply) : Except ReadError (List Statement) × Supply :=
  (read text supply).collect

end TripleStore.NTriples
