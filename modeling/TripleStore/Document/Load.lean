import TripleStore.Document.Format
import TripleStore.Graph.Merge
import TripleStore.Graph.Match

/-!
# Loading documents

The statements of a document are added to a graph as they are read, so those before an error stay.
-/

namespace TripleStore

/-- What loading a document came to. -/
structure Loaded where
  /-- The number of statements read, repetitions included. -/
  count : Nat
  graph : Graph
  supply : Supply
  error : Option Error
  deriving DecidableEq, Repr

namespace Document

/-- Loads a document into a graph, at most `limit` statements of it unless it is 0. -/
def loadLimited (limit : Nat) (format : Format) (text : Text) (g : Graph) (supply : Supply) :
    Loaded :=
  let r := (format.read text supply).receiveLimited limit
  { count := r.statements.length
    graph := g.addAll (r.statements.map Statement.triple)
    supply := r.supply
    error := r.error.map fun e => .within ("error parsing " ++ format.title) (.read e) }

/-- Loads a document into a graph. -/
def load (format : Format) (text : Text) (g : Graph) (supply : Supply) : Loaded :=
  loadLimited 0 format text g supply

/-- What loading comes to when the document itself cannot be read. -/
def unreadable (g : Graph) (supply : Supply) (e : Error) : Loaded :=
  ⟨0, g, supply, some (.within "error reading input" e)⟩

end Document

end TripleStore
