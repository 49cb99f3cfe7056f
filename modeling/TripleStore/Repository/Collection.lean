import TripleStore.Repository.Basic

/-!
# Collections inside a transaction

What can be done with a handle while its transaction takes calls.  Only handles of writers can
change anything, and what they change is the store they were opened on.
-/

namespace TripleStore

/-- A change to a graph, with the labels that were drawn for it. -/
inductive Change
  | add (t : Triple)
  | remove (t : Triple)
  | addNode (n : Option Node)
  | removeNode (n : Option Node)
  | embed (source : Graph) (r : Renaming)
  deriving DecidableEq, Repr

/-- Makes a change. -/
def Change.apply (g : Graph) : Change → Graph
  | .add t => g.add t
  | .remove t => g.remove t
  | .addNode n => g.addNode n
  | .removeNode n => g.removeNode n
  | .embed source r => g.embed source r

namespace Repository

/-- Goes on only if the transaction of a handle takes calls. -/
def enter : Handle → Action Unit
  | .reading h => do let _ ← openReader h.reader
  | .writing h => do let _ ← openWriter h.writer

/-- The graph behind a handle. -/
def graphOf (h : Handle) : Action Graph := do
  enter h
  return (← get).repository.store h.store

/-- Makes a change in the store behind a handle. -/
def make (h : WriteHandle) (c : Change) : Action Unit :=
  change fun s => s.putStore h.store (c.apply (s.store h.store))

/-- The nodes of a collection. -/
def subjects (h : Handle) : Action (List (Option Node)) := do return (← graphOf h).subjects

/-- The pairs of a subject. -/
def statementsFor (h : Handle) (n : Option Node) : Action (Option (List Pair)) := do
  return (← graphOf h).statementsFor n

/-- The statements that match a pattern. -/
def handleMatch (h : Handle) (p : Pattern) : Action Sequence := do
  return .found (matchIn h.name (← graphOf h) p)

/-- The number of statements. -/
def size (h : Handle) : Action Nat := do return (← graphOf h).size

/-- Adds a statement, whose graph does not matter. -/
def addStatement (h : WriteHandle) (d : Draft) : Action Unit := do
  enter (.writing h)
  match d.check with
  | .ok _ => make h (.add d.triple)
  | .error v => fail (.invalid v)

/-- Removes a statement. -/
def removeStatement (h : WriteHandle) (d : Draft) : Action Unit := do
  enter (.writing h)
  make h (.remove d.triple)

/-- Removes a node with all its statements. -/
def removeSubject (h : WriteHandle) (n : Option Node) : Action Unit := do
  enter (.writing h)
  make h (.removeNode n)

/-- An entity label that is no node of a graph, drawn at most `fuel` times. -/
def freshEntity (g : Graph) : (fuel : Nat) → Supply → Text × Supply
  | 0, supply => supply.drawEntity
  | fuel + 1, supply =>
    let (label, supply) := supply.drawEntity
    if g.hasNode (some (.blank label)) then freshEntity g fuel supply else (label, supply)

/-- Draws from the supply of labels. -/
def draw {α : Type} (f : Supply → α × Supply) : Action α :=
  modifyGet fun w =>
    let (a, supply) := f w.host.supply
    (a, { w with host := { w.host with supply } })

/-- Registers a new node: its label. -/
def newEntity (h : WriteHandle) : Action Text := do
  let g ← graphOf (.writing h)
  let label ← draw (freshEntity g (g.nodes.length + 1))
  make h (.addNode (some (.blank label)))
  return label

/-- Merges a graph into a collection: the labels that its blank nodes got. -/
def mergeGraph (h : WriteHandle) (source : Graph) : Action Renaming := do
  let g ← graphOf (.writing h)
  let r ← draw (g.drawRenaming source.labelOrder)
  log (if g.reports then [.merged source.mergeReport] else [])
  make h (.embed source r)
  return r

end Repository

end TripleStore
