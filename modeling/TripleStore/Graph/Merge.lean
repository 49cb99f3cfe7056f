import TripleStore.Graph.Basic
import TripleStore.Blank.Supply

/-!
# Merging graphs

The triples of one graph are added to another under fresh blank nodes: every blank node of the
source gets a label that is no node of the target.  A final low line with digits is dropped from
the old label before a new number is put behind it.

* `Graph.drawRenaming` draws the fresh labels for the blank nodes of the source in a given order.
* `Graph.mergeInOrder` merges under such a renaming; `Graph.merge` takes the labels in byte order.
* `Graph.mergeAlong` merges as the source is listed: a blank node gets its label when it is first
  met, while the target already holds what was listed before.
-/

namespace TripleStore

/-- A label without a final low line and digits. -/
def labelBase (label : Text) : Text :=
  let front := label.reverse.dropWhile Ascii.isDigit
  match front with
  | b :: rest =>
    if b = Ascii.underscore ∧ front.length < label.length then rest.reverse else label
  | [] => label

/-- Fresh labels for blank nodes. -/
abbrev Renaming := List (Text × Text)

namespace Renaming

/-- The new label of a blank node. -/
def label (r : Renaming) (l : Text) : Text := (r.lookup l).getD l

/-- A node under a renaming. -/
def node (r : Renaming) : Node → Node
  | .iri i => .iri i
  | .blank l => .blank (r.label l)

/-- A term under a renaming. -/
def term (r : Renaming) : Term → Term
  | .blank l => .blank (r.label l)
  | t => t

/-- A triple under a renaming. -/
def triple (r : Renaming) (t : Triple) : Triple :=
  ⟨t.subject.map r.node, t.predicate, t.object.map r.term⟩

end Renaming

/-- How much a merge brought in. -/
structure MergeReport where
  subjects : Nat
  statements : Nat
  renamed : Nat
  deriving DecidableEq, Repr

namespace Graph

/-- The label of a blank node that the graph holds. -/
def blankLabels (g : Graph) : List Text :=
  (g.nodes.filterMap (·.bind (·.toTerm.label?))
    ++ g.triples.filterMap (·.object.bind Term.label?)).foldl (fun acc l => insertNew l acc) []

/-- Draws labels for `base` until one is no node of the graph, at most `fuel` times. -/
def freshLabel (g : Graph) (base : Text) : (fuel : Nat) → Supply → Text × Supply
  | 0, supply => supply.drawLabel base
  | fuel + 1, supply =>
    let (label, supply) := supply.drawLabel base
    if g.hasNode (some (.blank label)) then g.freshLabel base fuel supply else (label, supply)

/-- Fresh labels for a list of labels, in its order.  No more labels can be taken than the graph has
nodes. -/
def drawRenaming (g : Graph) : List Text → Supply → Renaming × Supply
  | [], supply => ([], supply)
  | l :: rest, supply =>
    let (fresh, supply) := g.freshLabel (labelBase l) (g.nodes.length + 1) supply
    let (later, supply) := g.drawRenaming rest supply
    ((l, fresh) :: later, supply)

/-- Adds the nodes and triples of a source under a renaming. -/
def embed (g source : Graph) (r : Renaming) : Graph :=
  (source.nodes.foldl (fun g n => g.addNode (n.map r.node)) g).addAll
    (source.triples.map r.triple)

/-- Merges a source whose blank nodes get their labels in a given order. -/
def mergeInOrder (g source : Graph) (order : List Text) (supply : Supply) : Graph × Supply :=
  let (r, supply) := g.drawRenaming order supply
  (g.embed source r, supply)

/-- The order in which the blank nodes of a source get their labels: that of bytes. -/
def labelOrder (source : Graph) : List Text := Text.sort source.blankLabels

/-- Merges a source whose blank nodes get their labels in byte order. -/
def merge (g source : Graph) (supply : Supply) : Graph × Supply :=
  g.mergeInOrder source source.labelOrder supply

/-- The number of labels that the search for a fresh one draws. -/
def freshDraws (g : Graph) (base : Text) : (fuel : Nat) → Supply → Nat
  | 0, _ => 1
  | fuel + 1, supply =>
    let (label, supply) := supply.drawLabel base
    if g.hasNode (some (.blank label)) then g.freshDraws base fuel supply + 1 else 1

/-- The number of labels that are drawn for a list of labels. -/
def renamingDraws (g : Graph) : List Text → Supply → Nat
  | [], _ => 0
  | l :: rest, supply =>
    g.freshDraws (labelBase l) (g.nodes.length + 1) supply
      + g.renamingDraws rest (g.freshLabel (labelBase l) (g.nodes.length + 1) supply).2

/-- What merging a source amounts to. -/
def mergeReport (source : Graph) : MergeReport :=
  ⟨source.nodes.length, source.triples.length, source.blankLabels.length⟩

end Graph

/-! ### Merging as the source is listed -/

/-- A merge under way: the target as it stands, the labels given so far, and how many were drawn. -/
structure Merging where
  target : Graph
  names : Renaming := []
  supply : Supply
  draws : Nat := 0
  deriving DecidableEq, Repr

namespace Merging

/-- Gives a blank node that is met for the first time a label that is no node of the target as it
stands. -/
def meet (m : Merging) (l : Text) : Merging :=
  match m.names.lookup l with
  | some _ => m
  | none =>
    let base := labelBase l
    let fuel := m.target.nodes.length + 1
    let (fresh, supply) := m.target.freshLabel base fuel m.supply
    { m with
      names := (l, fresh) :: m.names
      supply
      draws := m.draws + m.target.freshDraws base fuel m.supply }

/-- Meets what may be a blank node. -/
def meetTerm (m : Merging) (t : Option Term) : Merging :=
  match t.bind Term.label? with
  | some l => m.meet l
  | none => m

/-- Adds a pair of a subject that has its new name already. -/
def addPair (subject : Option Node) (m : Merging) (p : Pair) : Merging :=
  let m := m.meetTerm p.object
  { m with target := m.target.add ⟨subject, p.predicate, p.object.map m.names.term⟩ }

/-- Adds a subject with its pairs. -/
def addSubject (m : Merging) (entry : Option Node × List Pair) : Merging :=
  let m := m.meetTerm (entry.1.map Node.toTerm)
  let subject := entry.1.map m.names.node
  entry.2.foldl (addPair subject) { m with target := m.target.addNode subject }

end Merging

/-- Merges along a listing of the subjects of a source, each with its pairs. -/
def Graph.mergeAlong (g : Graph) (listing : List (Option Node × List Pair)) (supply : Supply) :
    Merging :=
  listing.foldl Merging.addSubject { target := g, supply }

end TripleStore
