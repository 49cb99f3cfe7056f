import TripleStore.Term.Order

/-!
# Graphs

A graph is a set of triples together with a set of registered nodes.  The subject of a triple is
registered, and so is its object if it is a node; a node may be registered without any triple.
Nothing is checked when a triple is added, so that its subject or object may be missing; where a
node is expected, its absence is taken for one more node.

* `Graph.contains` and `Graph.hasNode` are the two relations that a graph stands for; every
  operation is described by what it does to them.
* Listings are sorted by the order of terms and hold no duplicates.
-/

namespace TripleStore

/-- A predicate and an object, as they belong to a subject; the object may be missing. -/
structure Pair where
  predicate : Iri
  object : Option Term
  deriving DecidableEq, Repr, Inhabited

/-- A statement without a graph, as it is handed in: its subject or object may be missing. -/
structure Triple where
  subject : Option Node
  predicate : Iri
  object : Option Term
  deriving DecidableEq, Repr, Inhabited

namespace Triple

/-- A triple as a draft for the default graph. -/
def toDraft (t : Triple) : Draft := ⟨t.subject, t.predicate, t.object, none⟩

/-- A triple without its subject. -/
def pair (t : Triple) : Pair := ⟨t.predicate, t.object⟩

end Triple

/-- The triple of a draft. -/
def Draft.triple (d : Draft) : Triple := ⟨d.subject, d.predicate, d.object⟩

/-- The triple of a statement. -/
def Statement.triple (s : Statement) : Triple := s.toDraft.triple

/-- An order of things that may be missing: what is missing comes first. -/
def presentLe {α : Type} (le : α → α → Bool) : Option α → Option α → Bool
  | none, _ => true
  | some _, none => false
  | some a, some b => le a b

/-- The order of IRIs as terms. -/
def iriLe (a b : Iri) : Bool := (Term.iri a).le (.iri b)

/-- The order of pairs: by predicate, then by object. -/
def Pair.le (a b : Pair) : Bool :=
  if renderIri a.predicate = renderIri b.predicate then presentLe Term.le a.object b.object
  else iriLe a.predicate b.predicate

/-- The list with `a` at its end, unless it holds `a` already. -/
def insertNew {α : Type} [DecidableEq α] (a : α) (l : List α) : List α :=
  if a ∈ l then l else l ++ [a]

/-- The list without repetitions, sorted. -/
def sortedSet {α : Type} [DecidableEq α] (le : α → α → Bool) (l : List α) : List α :=
  (l.foldl (fun acc a => insertNew a acc) []).mergeSort le

/-- A set of triples and a set of registered nodes. -/
structure Graph where
  nodes : List (Option Node) := []
  triples : List Triple := []
  /-- Whether merges into it are worth a record in the journal. -/
  reports : Bool := true
  deriving DecidableEq, Repr, Inhabited

namespace Graph

/-- The graph of nothing. -/
def empty : Graph := {}

/-- Whether a triple belongs to the graph. -/
def contains (g : Graph) (t : Triple) : Bool := t ∈ g.triples

/-- Whether a node is registered. -/
def hasNode (g : Graph) (n : Option Node) : Bool := n ∈ g.nodes

/-- Registers a node. -/
def addNode (g : Graph) (n : Option Node) : Graph := { g with nodes := insertNew n g.nodes }

/-- Registers the object of a triple if it is a node. -/
def addObject (g : Graph) (t : Option Term) : Graph :=
  match t.bind Term.toNode? with
  | some n => g.addNode (some n)
  | none => g

/-- Adds a triple and registers its nodes. -/
def add (g : Graph) (t : Triple) : Graph :=
  let g := (g.addNode t.subject).addObject t.object
  { g with triples := insertNew t g.triples }

/-- Adds triples one after the other. -/
def addAll (g : Graph) (ts : List Triple) : Graph := ts.foldl add g

/-- Removes a triple; its nodes stay registered. -/
def remove (g : Graph) (t : Triple) : Graph :=
  { g with triples := g.triples.filter (· ≠ t) }

/-- Removes a node with all triples whose subject or object it is. -/
def removeNode (g : Graph) (n : Option Node) : Graph :=
  { g with
    nodes := g.nodes.filter (· ≠ n)
    triples := g.triples.filter fun t => t.subject ≠ n ∧ t.object ≠ n.map Node.toTerm }

/-- The number of triples. -/
def size (g : Graph) : Nat := g.triples.length

/-! ### Listings -/

/-- The registered nodes in order. -/
def subjects (g : Graph) : List (Option Node) := g.nodes.mergeSort (presentLe Node.le)

/-- The pairs of a subject in order, of those that a test admits. -/
def pairsOf (g : Graph) (n : Option Node) (admits : Pair → Bool) : List Pair :=
  ((g.triples.filter (·.subject = n)).map Triple.pair).filter admits |>.mergeSort Pair.le

/-- The pairs of a subject in order; an unregistered node has no list. -/
def statementsFor (g : Graph) (n : Option Node) : Option (List Pair) :=
  if g.hasNode n then some (g.pairsOf n fun _ => true) else none

/-- The predicates in use. -/
def predicates (g : Graph) : List Iri := sortedSet iriLe (g.triples.map (·.predicate))

/-- The objects in use. -/
def objects (g : Graph) : List (Option Term) :=
  sortedSet (presentLe Term.le) (g.triples.map (·.object))

/-- The IRIs in any position. -/
def iris (g : Graph) : List Iri :=
  sortedSet iriLe
    (g.nodes.filterMap (·.bind (·.toTerm.toIri?)) ++ g.triples.map (·.predicate)
      ++ g.triples.filterMap (·.object.bind Term.toIri?))

/-- The literals in use. -/
def literals (g : Graph) : List Term :=
  sortedSet Term.le ((g.triples.filterMap (·.object)).filter Term.isLiteral)

end Graph

end TripleStore
