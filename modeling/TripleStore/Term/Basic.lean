import TripleStore.Text.Basic

/-!
# Terms and statements

A statement relates a node to a term by a predicate, possibly inside a named graph.

* `Term` has four variants: IRIs, blank nodes, literals with a language tag and literals with a
  datatype.  Nothing is checked when a term is built.
* `Node` holds the two variants that may stand in subject or graph position.
* `Statement` is complete; `Draft` is a statement as a caller hands it in, whose subject or object
  may be missing.
-/

namespace TripleStore

/-- The text of an IRI, without angle brackets. -/
abbrev Iri := Text

/-- A term of the data model. -/
inductive Term
  | iri (iri : Iri)
  | blank (label : Text)
  | lang (value tag : Text)
  | typed (value : Text) (datatype : Iri)
  deriving DecidableEq, Repr, Inhabited

/-- A term that may be a subject or name a graph. -/
inductive Node
  | iri (iri : Iri)
  | blank (label : Text)
  deriving DecidableEq, Repr, Inhabited

/-- The variants of terms. -/
inductive TermKind
  | namedNode
  | blankNode
  | langLiteral
  | typedLiteral
  deriving DecidableEq, Repr

namespace TermKind

/-- The byte that stands for a variant in keys and in the order of terms. -/
def code : TermKind → UInt8
  | .namedNode => 1
  | .blankNode => 2
  | .langLiteral => 3
  | .typedLiteral => 4

/-- The variant that a byte stands for. -/
def ofCode? (b : UInt8) : Option TermKind :=
  if b = 1 then some .namedNode
  else if b = 2 then some .blankNode
  else if b = 3 then some .langLiteral
  else if b = 4 then some .typedLiteral
  else none

/-- The name of a variant in messages. -/
def name : TermKind → Text
  | .namedNode => "NamedNode"
  | .blankNode => "BlankNode"
  | .langLiteral => "LangLiteral"
  | .typedLiteral => "TypedLiteral"

/-- The name of the variant that a byte stands for; other bytes are unknown. -/
def nameOfCode (b : UInt8) : Text := ((ofCode? b).map name).getD "unknown"

end TermKind

/-- A node is a term. -/
def Node.toTerm : Node → Term
  | .iri i => .iri i
  | .blank l => .blank l

instance : Coe Node Term := ⟨Node.toTerm⟩

namespace Term

/-- The variant of a term. -/
def kind : Term → TermKind
  | .iri _ => .namedNode
  | .blank _ => .blankNode
  | .lang _ _ => .langLiteral
  | .typed _ _ => .typedLiteral

/-- A term as a node, unless it is a literal. -/
def toNode? : Term → Option Node
  | .iri i => some (.iri i)
  | .blank l => some (.blank l)
  | .lang _ _ => none
  | .typed _ _ => none

/-- The IRI of a term that is one. -/
def toIri? : Term → Option Iri
  | .iri i => some i
  | _ => none

/-- The label of a term that is a blank node. -/
def label? : Term → Option Text
  | .blank l => some l
  | _ => none

/-- The value of a literal. -/
def lexical? : Term → Option Text
  | .lang v _ => some v
  | .typed v _ => some v
  | _ => none

/-- Whether a term is a literal. -/
def isLiteral (t : Term) : Bool := t.lexical?.isSome

end Term

/-- A complete statement; without a graph it belongs to the default graph. -/
structure Statement where
  subject : Node
  predicate : Iri
  object : Term
  graph : Option Node := none
  deriving DecidableEq, Repr, Inhabited

/-- A statement as a caller hands it in: its subject or object may be missing. -/
structure Draft where
  subject : Option Node
  predicate : Iri
  object : Option Term
  graph : Option Node := none
  deriving DecidableEq, Repr, Inhabited

/-- The same statement in graph `g`. -/
def Statement.inGraph (s : Statement) (g : Node) : Statement := { s with graph := some g }

/-- A complete statement as a draft. -/
def Statement.toDraft (s : Statement) : Draft :=
  ⟨some s.subject, s.predicate, some s.object, s.graph⟩

/-- The same draft in graph `g`. -/
def Draft.inGraph (d : Draft) (g : Node) : Draft := { d with graph := some g }

/-- The statement of a draft in which nothing is missing. -/
def Draft.complete? (d : Draft) : Option Statement := do
  let subject ← d.subject
  let object ← d.object
  some ⟨subject, d.predicate, object, d.graph⟩

end TripleStore
