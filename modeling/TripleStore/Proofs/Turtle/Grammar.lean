import TripleStore.Proofs.Parse.Meaning
import TripleStore.Turtle.Parser

/-!
# The grammar of Turtle

A document is a sequence of directives and of triples with a full stop:

    document   := (directive | triples '.')*
    directive  := '@prefix' ns iri '.' | 'PREFIX' ns iri | '@base' iri '.' | 'BASE' iri
    triples    := subject properties | '[' properties ']' properties? | '[' ']' properties
    subject    := IRI | label | '(' object* ')'
    properties := verb objects (';'+ verb objects)* ';'*
    objects    := object (',' object)*
    object     := IRI | label | '[' properties? ']' | '(' object* ')'
                | string (tag | '^^' IRI)? | number | boolean

There is a type of trees for every line.  `tokens` is what a tree is read from; `meaning` is what it
says, in a context of prefixes and a base.  The statements inside a nested structure come before the
statement that the structure is part of.

* `Document`: the documents.
* `Document.tokens`, `Document.meaning`: the tokens of a document and its statements.
-/

namespace TripleStore.Turtle

/-- The prefixes that are declared at a place, the latest first, and the base. -/
structure Context where
  prefixes : List (Text × Text) := []
  base : Text := []
  deriving DecidableEq, Repr

/-- A triple outside of any graph. -/
def triple (subject : Node) (predicate : Iri) (object : Term) : Statement :=
  ⟨subject, predicate, object, none⟩

/-! ### Names -/

/-- An IRI in angle brackets. -/
inductive Reference
  | absolute (t : Leaf .iriRef)
  | relative (t : Leaf .relativeIri)

namespace Reference

/-- The token that a reference is read from. -/
def tokens : Reference → List Token
  | absolute t => [t.1]
  | relative t => [t.1]

/-- The IRI that is meant; a relative one is put behind the base. -/
def resolve (c : Context) : Reference → Iri
  | absolute t => t.1.text
  | relative t => c.base ++ t.1.text

end Reference

/-- An IRI in any spelling. -/
inductive Name
  | reference (r : Reference)
  | prefixed (t : Leaf .prefixedName)

namespace Name

/-- The token that a name is read from. -/
def tokens : Name → List Token
  | reference r => r.tokens
  | prefixed t => [t.1]

/-- The IRI that is meant.  It has to be valid, and its prefix has to be declared. -/
def meaning (c : Context) : Name → Meaning Iri
  | reference r => .valid (r.resolve c)
  | prefixed t =>
    let (head, name) := (Text.cut Ascii.colon t.1.text).getD (t.1.text, [])
    match c.prefixes.lookup head with
    | some space => .valid (space ++ name)
    | none => failure

end Name

/-- A predicate. -/
inductive Verb
  | a (t : Leaf .a)
  | name (n : Name)

namespace Verb

/-- The token that a verb is read from. -/
def tokens : Verb → List Token
  | a t => [t.1]
  | name n => n.tokens

/-- The predicate that is meant. -/
def meaning (c : Context) : Verb → Meaning Iri
  | a _ => return Vocabulary.type
  | name n => n.meaning c

end Verb

/-! ### Literals -/

/-- What follows a string. -/
inductive Suffix
  | none
  | tag (t : Leaf .langTag)
  | datatype (mark : Leaf .typeTag) (n : Name)

namespace Suffix

/-- The tokens that a suffix is read from. -/
def tokens : Suffix → List Token
  | none => []
  | tag t => [t.1]
  | datatype mark n => mark.1 :: n.tokens

/-- The literal of a value with this suffix. -/
def meaning (c : Context) (value : Text) : Suffix → Meaning Term
  | none => return .plain value
  | tag t => .tagged value t.1.text
  | datatype _ n => return .typed value (← n.meaning c)

end Suffix

/-- A string, short or long. -/
abbrev StringLeaf : Type := { t : Token // t.kind = .stringLiteral ∨ t.kind = .longString }

/-- A number or a truth value. -/
inductive Scalar
  | integer (t : Leaf .integer)
  | decimal (t : Leaf .decimal)
  | double (t : Leaf .double)
  | boolean (t : Leaf .boolean)

namespace Scalar

/-- The token that a scalar is read from. -/
def tokens : Scalar → List Token
  | integer t => [t.1]
  | decimal t => [t.1]
  | double t => [t.1]
  | boolean t => [t.1]

/-- The literal that is meant. -/
def term : Scalar → Term
  | integer t => .integer t.1.text
  | decimal t => .decimal t.1.text
  | double t => .double t.1.text
  | boolean t => .boolean (t.1.text == "true")

end Scalar

/-! ### Nested structures -/

mutual

/-- An object. -/
inductive Object
  | name (n : Name)
  | label (t : Leaf .blankNodeLabel)
  | brackets (opening : Leaf .openBracket) (closing : Leaf .closeBracket)
  | properties (opening : Leaf .openBracket) (ps : Properties) (closing : Leaf .closeBracket)
  | list (opening : Leaf .openParen) (items : Items) (closing : Leaf .closeParen)
  | string (t : StringLeaf) (suffix : Suffix)
  | scalar (s : Scalar)

/-- The items of a list. -/
inductive Items
  | nil
  | cons (o : Object) (rest : Items)

/-- Objects with commas between them. -/
inductive Objects
  | one (o : Object)
  | more (o : Object) (comma : Leaf .comma) (rest : Objects)

/-- Predicates with their objects, with at least one semicolon between them. -/
inductive Properties
  | last (v : Verb) (os : Objects) (semicolons : List (Leaf .semicolon))
  | more (v : Verb) (os : Objects) (semicolon : Leaf .semicolon)
      (semicolons : List (Leaf .semicolon)) (rest : Properties)

end

mutual

/-- The tokens that an object is read from. -/
def Object.tokens : Object → List Token
  | .name n => n.tokens
  | .label t => [t.1]
  | .brackets opening closing => [opening.1, closing.1]
  | .properties opening ps closing => opening.1 :: (ps.tokens ++ [closing.1])
  | .list opening items closing => opening.1 :: (items.tokens ++ [closing.1])
  | .string t suffix => t.1 :: suffix.tokens
  | .scalar s => s.tokens

/-- The tokens that the items of a list are read from. -/
def Items.tokens : Items → List Token
  | .nil => []
  | .cons o rest => o.tokens ++ rest.tokens

/-- The tokens that objects are read from. -/
def Objects.tokens : Objects → List Token
  | .one o => o.tokens
  | .more o comma rest => o.tokens ++ comma.1 :: rest.tokens

/-- The tokens that properties are read from. -/
def Properties.tokens : Properties → List Token
  | .last v os semicolons => v.tokens ++ (os.tokens ++ semicolons.map (·.1))
  | .more v os semicolon semicolons rest =>
    v.tokens ++ (os.tokens ++ semicolon.1 :: (semicolons.map (·.1) ++ rest.tokens))

end

/-- A cell of a list: its item, the statements inside the item, and its own node. -/
structure Cell where
  inner : List Statement
  item : Term
  node : Node

/-- The triples of the cells behind the cell `last`. -/
def cellsBehind (last : Node) : List Cell → List Statement
  | [] => [triple last Vocabulary.rest (.iri Vocabulary.nil)]
  | cell :: cells =>
    cell.inner ++ triple last Vocabulary.rest cell.node.toTerm
      :: triple cell.node Vocabulary.first cell.item :: cellsBehind cell.node cells

/-- The node of a list and its triples; the empty list has a name of its own. -/
def spellList : List Cell → Node × List Statement
  | [] => (.iri Vocabulary.nil, [])
  | cell :: cells =>
    (cell.node,
      cell.inner ++ triple cell.node Vocabulary.first cell.item :: cellsBehind cell.node cells)

mutual

/-- The term of an object, and the statements inside it. -/
def Object.meaning (c : Context) : Object → Meaning (Term × List Statement)
  | .name n => return (.iri (← n.meaning c), [])
  | .label t => return ((← Meaning.labelled (t.1.text.drop 2)).toTerm, [])
  | .brackets _ _ => return ((← Meaning.anonymous).toTerm, [])
  | .properties _ ps _ => do
    let node ← Meaning.anonymous
    return (node.toTerm, ← ps.meaning c node)
  | .list _ items _ => do
    let (node, inner) := spellList (← items.cells c)
    return (node.toTerm, inner)
  | .string t suffix => return (← suffix.meaning c t.1.text, [])
  | .scalar s => return (s.term, [])

/-- The cells of a list; a cell gets its node behind its item. -/
def Items.cells (c : Context) : Items → Meaning (List Cell)
  | .nil => return []
  | .cons o rest => do
    let (item, inner) ← o.meaning c
    let node ← Meaning.anonymous
    return ⟨inner, item, node⟩ :: (← rest.cells c)

/-- The statements with these objects. -/
def Objects.meaning (c : Context) (subject : Node) (predicate : Iri) :
    Objects → Meaning (List Statement)
  | .one o => do
    let (object, inner) ← o.meaning c
    return inner ++ [triple subject predicate object]
  | .more o _ rest => do
    let (object, inner) ← o.meaning c
    return inner ++ triple subject predicate object :: (← rest.meaning c subject predicate)

/-- The statements with these predicates and objects. -/
def Properties.meaning (c : Context) (subject : Node) : Properties → Meaning (List Statement)
  | .last v os _ => do
    let predicate ← v.meaning c
    os.meaning c subject predicate
  | .more v os _ _ rest => do
    let predicate ← v.meaning c
    let stmts ← os.meaning c subject predicate
    return stmts ++ (← rest.meaning c subject)

end

/-! ### Documents -/

/-- A subject that is not in brackets. -/
inductive Subject
  | name (n : Name)
  | label (t : Leaf .blankNodeLabel)
  | list (opening : Leaf .openParen) (items : Items) (closing : Leaf .closeParen)

namespace Subject

/-- The tokens that a subject is read from. -/
def tokens : Subject → List Token
  | name n => n.tokens
  | label t => [t.1]
  | list opening items closing => opening.1 :: (items.tokens ++ [closing.1])

/-- The node of a subject, and the statements inside it. -/
def meaning (c : Context) : Subject → Meaning (Node × List Statement)
  | name n => return (.iri (← n.meaning c), [])
  | label t => return (← Meaning.labelled (t.1.text.drop 2), [])
  | list _ items _ => return spellList (← items.cells c)

end Subject

/-- The triples of one subject. -/
inductive Triples
  | subject (s : Subject) (ps : Properties)
  | properties (opening : Leaf .openBracket) (inner : Properties) (closing : Leaf .closeBracket)
  | both (opening : Leaf .openBracket) (inner : Properties) (closing : Leaf .closeBracket)
      (outer : Properties)
  | brackets (opening : Leaf .openBracket) (closing : Leaf .closeBracket) (ps : Properties)

namespace Triples

/-- The tokens that triples are read from. -/
def tokens : Triples → List Token
  | subject s ps => s.tokens ++ ps.tokens
  | properties opening inner closing => opening.1 :: (inner.tokens ++ [closing.1])
  | both opening inner closing outer =>
    opening.1 :: (inner.tokens ++ closing.1 :: outer.tokens)
  | brackets opening closing ps => opening.1 :: closing.1 :: ps.tokens

/-- The statements that are meant. -/
def meaning (c : Context) : Triples → Meaning (List Statement)
  | subject s ps => do
    let (node, inner) ← s.meaning c
    return inner ++ (← ps.meaning c node)
  | properties _ inner _ => do
    let node ← Meaning.anonymous
    inner.meaning c node
  | both _ inner _ outer => do
    let node ← Meaning.anonymous
    let stmts ← inner.meaning c node
    return stmts ++ (← outer.meaning c node)
  | brackets _ _ ps => do
    let node ← Meaning.anonymous
    ps.meaning c node

end Triples

/-- The word that opens a directive, bare or after an at sign. -/
abbrev Word (k : Kind) (bare : Bool) : Type := { t : Token // t.kind = k ∧ t.bare = bare }

/-- A prefixed name whose only colon is at its end. -/
abbrev Namespace : Type := { t : Token // declaresPrefix t }

/-- A directive; its IRI need not be valid. -/
inductive Directive
  | declare (word : Word .prefixDirective false) (name : Namespace) (iri : Reference)
      (stop : Leaf .period)
  | bareDeclare (word : Word .prefixDirective true) (name : Namespace) (iri : Reference)
  | base (word : Word .baseDirective false) (iri : Reference) (stop : Leaf .period)
  | bareBase (word : Word .baseDirective true) (iri : Reference)

namespace Directive

/-- The tokens that a directive is read from. -/
def tokens : Directive → List Token
  | declare word name iri stop => word.1 :: name.1 :: (iri.tokens ++ [stop.1])
  | bareDeclare word name iri => word.1 :: name.1 :: iri.tokens
  | base word iri stop => word.1 :: (iri.tokens ++ [stop.1])
  | bareBase word iri => word.1 :: iri.tokens

/-- The context behind a directive. -/
def effect (c : Context) : Directive → Context
  | declare _ name iri _ => { c with prefixes := (name.1.text.dropLast, iri.resolve c) :: c.prefixes }
  | bareDeclare _ name iri =>
    { c with prefixes := (name.1.text.dropLast, iri.resolve c) :: c.prefixes }
  | base _ iri _ => { c with base := iri.resolve c }
  | bareBase _ iri => { c with base := iri.resolve c }

end Directive

/-- A directive, or triples with their full stop. -/
inductive Block
  | directive (d : Directive)
  | triples (t : Triples) (stop : Leaf .period)

/-- The tokens that a block is read from. -/
def Block.tokens : Block → List Token
  | directive d => d.tokens
  | triples t stop => t.tokens ++ [stop.1]

/-- The context behind a block. -/
def Block.effect (c : Context) : Block → Context
  | directive d => d.effect c
  | triples _ _ => c

/-- The statements of a block; directives have none. -/
def Block.meaning (c : Context) : Block → Meaning (List Statement)
  | directive _ => return []
  | triples t _ => t.meaning c

/-- A document. -/
abbrev Document : Type := List Block

namespace Document

/-- The tokens that a document is read from. -/
def tokens (d : Document) : List Token := d.flatMap Block.tokens

theorem tokens_cons (b : Block) (d : Document) :
    tokens (b :: d) = b.tokens ++ tokens d := List.flatMap_cons

/-- The statements of a document; a directive holds for what follows it. -/
def meaning (c : Context) : Document → Meaning (List Statement)
  | [] => return []
  | block :: rest => do
    let stmts ← block.meaning c
    return stmts ++ (← meaning (block.effect c) rest)

/-- The statements of a document on its own, and the supply behind it. -/
def denotes (d : Document) (supply : Supply) : Option (List Statement × Supply) :=
  ((d.meaning {}).run ⟨{}, supply⟩).map fun p => (p.1, p.2.supply)

end Document

end TripleStore.Turtle
