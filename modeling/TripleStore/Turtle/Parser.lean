import TripleStore.Parse.Delivery
import TripleStore.Term.Vocabulary

/-!
# Reading Turtle

Directives set the base and the prefixes for what follows them.  A block of triples is delivered as
a whole once the token behind its full stop could be read.  Property lists in brackets and lists in
parentheses are spelled out with anonymous nodes; the triples inside come before the triple that
they are part of.

The readers of nested structures take a bound on their steps; `Turtle.depth` gives one that no
stream of its length can use up.
-/

namespace TripleStore.Turtle

/-- The state of a reader. -/
structure State where
  stream : TokenStream
  prefixes : List (Text × Text) := []
  base : Text := []
  scope : Scope := {}
  supply : Supply
  /-- The triples of the block at hand, in order. -/
  emitted : List Statement := []
  deriving DecidableEq, Repr

/-- A step of a reader. -/
abbrev Parser := EStateM ReadError State

/-- The token at hand. -/
def current : Parser Token := do return (← get).stream.current

/-- The kind of the token at hand. -/
def kind : Parser Kind := do return (← current).kind

/-- Gives up the token at hand. -/
def advance : Parser Unit := do
  let s ← get
  match s.stream.tail with
  | .ok stream => set { s with stream }
  | .error e => throw (.lexical e)

/-- The name of the format in messages. -/
def format : Text := "turtle"

/-- Refuses the token at hand. -/
def unexpected {α : Type} (expected : Text) : Parser α := do
  let t ← current
  throw (.grammar ⟨format, t.position, expected, t.describe, [], none⟩)

/-- Refuses a token for a reason. -/
def refuse {α : Type} (t : Token) (remark : Text) (cause : Option Violation) : Parser α :=
  throw (.grammar ⟨format, t.position, [], [], remark, cause⟩)

/-- Gives up the token at hand, which must be of a kind. -/
def expect (kind : Kind) : Parser Token := do
  let t ← current
  if t.kind = kind then
    advance
    return t
  else unexpected kind.name

/-- Adds a triple to the block at hand. -/
def emit (subject : Node) (predicate : Iri) (object : Term) : Parser Unit :=
  modify fun s => { s with emitted := s.emitted ++ [⟨subject, predicate, object, none⟩] }

/-- A fresh anonymous node. -/
def anonymous : Parser Node := do
  let s ← get
  let (label, supply) := s.supply.drawAnonymous
  set { s with supply }
  return .blank label

/-! ### Names -/

/-- Reads an IRI in brackets; a relative one is put behind the base. -/
def iriReference : Parser Iri := do
  let t ← current
  match t.kind with
  | .iriRef =>
    advance
    return t.text
  | .relativeIri =>
    advance
    return (← get).base ++ t.text
  | _ => unexpected "IRIREF"

/-- The IRI of a prefixed name. -/
def expand (t : Token) : Parser Iri := do
  let (head, name) := (Text.cut Ascii.colon t.text).getD (t.text, [])
  match (← get).prefixes.lookup head with
  | some space => return space ++ name
  | none => refuse t ("undefined prefix " ++ head ++ ":") none

/-- Refuses an IRI that breaks the rule for IRIs. -/
def checkIri (t : Token) (iri : Iri) : Parser Iri :=
  match (Term.iri iri).violation? with
  | none => return iri
  | some v => refuse t "invalid IRI" (some v)

/-- Reads an IRI in any spelling. -/
def iri : Parser Iri := do
  let t ← current
  match t.kind with
  | .iriRef | .relativeIri => checkIri t (← iriReference)
  | .prefixedName =>
    let iri ← expand t
    advance
    checkIri t iri
  | _ => unexpected "IRI"

/-- Reads a blank node label. -/
def blankNode : Parser Node := do
  let t ← expect .blankNodeLabel
  let label := t.text.drop 2
  if label.isEmpty then refuse t ("malformed blank node label " ++ t.text) none
  match (Term.blank label).violation? with
  | some v => refuse t "invalid blank node label" (some v)
  | none =>
    let s ← get
    let (node, scope, supply) := s.scope.resolve s.supply label
    set { s with scope, supply }
    return .blank node

/-- Reads a predicate. -/
def verb : Parser Iri := do
  match ← kind with
  | .a =>
    advance
    return Vocabulary.type
  | .iriRef | .relativeIri | .prefixedName => iri
  | _ => unexpected "predicate"

/-- Reads a string with its tag or datatype. -/
def literal : Parser Term := do
  let value ← current
  advance
  let t ← current
  match t.kind with
  | .langTag =>
    advance
    match (Term.lang value.text t.text).violation? with
    | none => return .lang value.text t.text
    | some v => refuse t "invalid literal" (some v)
  | .typeTag =>
    advance
    let datatype ← iri
    return .typed value.text datatype
  | _ => return .plain value.text

/-- Reads a token whose text is the value of a literal. -/
def literalToken (make : Text → Term) : Parser Term := do
  let t ← current
  advance
  return make t.text

/-! ### Nested structures -/

mutual

/-- Reads predicates, each with its objects, for a subject. -/
def predicates (subject : Node) : (fuel : Nat) → Parser Unit
  | 0 => unexpected "predicate"
  | fuel + 1 => do
    let predicate ← verb
    objects subject predicate fuel
    if (← kind) = .semicolon then
      let s ← get
      match s.stream.dropSemicolons with
      | .error e => throw (.lexical e)
      | .ok stream =>
        set { s with stream }
        let k ← kind
        if k = .period ∨ k = .closeBracket then return ()
        else predicates subject fuel

/-- Reads objects with commas between them. -/
def objects (subject : Node) (predicate : Iri) : (fuel : Nat) → Parser Unit
  | 0 => unexpected "object"
  | fuel + 1 => do
    let o ← object fuel
    emit subject predicate o
    if (← kind) = .comma then
      advance
      objects subject predicate fuel

/-- Reads an object. -/
def object : (fuel : Nat) → Parser Term
  | 0 => unexpected "object"
  | fuel + 1 => do
    match ← kind with
    | .iriRef | .relativeIri | .prefixedName => return .iri (← iri)
    | .blankNodeLabel => return (← blankNode).toTerm
    | .openBracket => return (← propertyList fuel).1.toTerm
    | .openParen => return (← collection fuel).toTerm
    | .stringLiteral | .longString => literal
    | .integer => literalToken .integer
    | .decimal => literalToken .decimal
    | .double => literalToken .double
    | .boolean => literalToken fun text => .boolean (text == "true")
    | _ => unexpected "object"

/-- Reads properties in brackets: the node they belong to, and whether there were none. -/
def propertyList : (fuel : Nat) → Parser (Node × Bool)
  | 0 => unexpected "object"
  | fuel + 1 => do
    let _ ← expect .openBracket
    let node ← anonymous
    let empty := (← kind) = .closeBracket
    if ¬ empty then predicates node fuel
    let _ ← expect .closeBracket
    return (node, empty)

/-- Reads the items of a list behind the cell `last`, up to the closing parenthesis. -/
def items (last : Node) : (fuel : Nat) → Parser Unit
  | 0 => unexpected "object"
  | fuel + 1 => do
    if (← kind) = .closeParen then emit last Vocabulary.rest (.iri Vocabulary.nil)
    else
      let item ← object fuel
      let cell ← anonymous
      emit last Vocabulary.rest cell.toTerm
      emit cell Vocabulary.first item
      items cell fuel

/-- Reads a list in parentheses: its first cell, or the empty list. -/
def collection : (fuel : Nat) → Parser Node
  | 0 => unexpected "object"
  | fuel + 1 => do
    let _ ← expect .openParen
    if (← kind) = .closeParen then
      let _ ← expect .closeParen
      return .iri Vocabulary.nil
    else
      let item ← object fuel
      let cell ← anonymous
      emit cell Vocabulary.first item
      items cell fuel
      let _ ← expect .closeParen
      return cell

end

/-- A bound on the steps through nested structures for the stream at hand: every token allows for
less than four. -/
def depth : Parser Nat := do return 4 * (← get).stream.length + 4

/-! ### Statements -/

/-- Reads a subject that is not in brackets. -/
def subject : Parser Node := do
  match ← kind with
  | .iriRef | .relativeIri | .prefixedName => return .iri (← iri)
  | .blankNodeLabel => blankNode
  | .openParen => collection (← depth)
  | _ => unexpected "subject"

/-- Reads the triples of one subject.  Properties in brackets may stand alone unless there are
none. -/
def triples : Parser Unit := do
  if (← kind) = .openBracket then
    let (node, empty) ← propertyList (← depth)
    if ¬ empty ∧ (← kind) = .period then return ()
    else predicates node (← depth)
  else
    let node ← subject
    predicates node (← depth)

/-- Whether a token declares a prefix: a prefixed name whose only colon is at its end. -/
def declaresPrefix (t : Token) : Bool :=
  t.kind = .prefixedName ∧ t.text.getLast? = some Ascii.colon ∧ t.text.count Ascii.colon = 1

/-- Reads the full stop of a directive, which those that are bare words do not have. -/
def directiveEnd (directive : Token) : Parser Unit := do
  if ¬ directive.bare then
    let _ ← expect .period

/-- Reads the declaration of a prefix. -/
def prefixDeclaration : Parser Unit := do
  let directive ← expect .prefixDirective
  let name ← current
  if ¬ declaresPrefix name then unexpected "prefix name ending in ':'"
  advance
  let iri ← iriReference
  modify fun s => { s with prefixes := (name.text.dropLast, iri) :: s.prefixes }
  directiveEnd directive

/-- Reads the declaration of the base. -/
def baseDeclaration : Parser Unit := do
  let directive ← expect .baseDirective
  let iri ← iriReference
  modify fun s => { s with base := iri }
  directiveEnd directive

/-- Reads a directive, or a block of triples with its full stop: the triples. -/
def statement : Parser (List Statement) := do
  modify fun s => { s with emitted := [] }
  match ← kind with
  | .prefixDirective =>
    prefixDeclaration
    return []
  | .baseDirective =>
    baseDeclaration
    return []
  | _ =>
    triples
    let _ ← expect .period
    return (← get).emitted

/-- Delivers at most `fuel` blocks. -/
def deliver : (fuel : Nat) → State → Delivery
  | 0, s => .finish s.supply
  | fuel + 1, s =>
    if s.stream.current.kind = .eof then .finish s.supply
    else match statement.run s with
      | .ok statements s => .block statements s.supply (deliver fuel s)
      | .error e s => .failed e s.supply

/-- Delivers the blocks of a state.  Each takes at least one token. -/
def readState (s : State) : Delivery :=
  match s.stream.sound with
  | .error e => .failed (.lexical e) s.supply
  | .ok stream => deliver (stream.length + 1) { s with stream }

/-- Delivers the statements of a text, block by block. -/
def read (text : Text) (supply : Supply) : Delivery :=
  readState { stream := .ofText .turtle text, supply }

/-- All statements of a text, or the error that it fails with. -/
def parse (text : Text) (supply : Supply) : Except ReadError (List Statement) × Supply :=
  (read text supply).collect

end TripleStore.Turtle
