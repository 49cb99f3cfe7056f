import TripleStore.Graph.Basic

/-!
# Patterns

A pattern fixes some of the positions of a statement.  Any term may stand in any position; a literal
subject or a predicate that is no IRI matches nothing.

`Graph.matching` looks up a fixed subject directly and lists the matching statements in order of
subject, predicate and object.
-/

namespace TripleStore

/-- Terms that a statement must have in some positions; `context` is the name of its collection. -/
structure Pattern where
  subject : Option Term := none
  predicate : Option Term := none
  object : Option Term := none
  context : Option Term := none
  deriving DecidableEq, Repr, Inhabited

/-- Whether a position that may be fixed agrees with a term; a missing one agrees only with what is
not fixed. -/
def agrees (fixed t : Option Term) : Bool :=
  match fixed with
  | none => true
  | some f => t = some f

namespace Pattern

/-- Whether a draft agrees with subject, predicate and object of the pattern. -/
def accepts (p : Pattern) (d : Draft) : Bool :=
  agrees p.subject (d.subject.map Node.toTerm) && agrees p.predicate (some (.iri d.predicate))
    && agrees p.object d.object

/-- Whether a pair agrees with predicate and object of the pattern. -/
def acceptsPair (p : Pattern) (pair : Pair) : Bool :=
  agrees p.predicate (some (.iri pair.predicate)) && agrees p.object pair.object

end Pattern

namespace Graph

/-- The statements of a subject that a pattern admits, in order. -/
def matchingAt (g : Graph) (p : Pattern) (n : Option Node) : List Draft :=
  (g.pairsOf n p.acceptsPair).map fun pair => ⟨n, pair.predicate, pair.object, none⟩

/-- The subjects that a pattern can match: all of them in order, or the fixed one. -/
def candidates (g : Graph) (p : Pattern) : List (Option Node) :=
  match p.subject with
  | none => g.subjects
  | some t => match t.toNode? with
    | none => []
    | some n => if g.hasNode (some n) then [some n] else []

/-- The statements that match a pattern, in order. -/
def matching (g : Graph) (p : Pattern) : List Draft :=
  (g.candidates p).flatMap (g.matchingAt p)

/-- All statements in order. -/
def statements (g : Graph) : List Draft := g.matching {}

end Graph

end TripleStore
